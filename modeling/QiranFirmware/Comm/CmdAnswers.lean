import QiranFirmware.Comm.CmdScan
import Mathlib.Logic.Relation
import Mathlib.Tactic.IntervalCases

/-! # One final answer for every command

A frame is received with a submission, or when the scan finds it among the bytes that a service takes.
`AnswerEffect` lists what one frame processed, or one look at the command in flight, does to the
counters, the command in flight and the answers. What a run does follows: every frame received has
its final answer, but for the one in flight.
-/
namespace QiranFirmware.Cmd

open Machine

structure Answer where
  id : UInt8
  sequence : UInt16
  receiptMs : UInt32
  result : CmdResult
  detail : UInt32
  deriving DecidableEq, Repr

namespace Answer

def frame (a : Answer) : List UInt8 := resultFrame a.id a.sequence a.receiptMs a.result a.detail

def Echoes (a : Answer) (r : List UInt8 × UInt32) : Prop :=
  a.id = Buf.ofList r.1 2 ∧ a.sequence = (Buf.ofList r.1).getU16 7 ∧ a.receiptMs = r.2

def Of (a : Answer) (i : Inflight) : Prop :=
  a.id = i.id.code ∧ a.sequence = i.sequence ∧ a.receiptMs = i.receiptMs

end Answer

structure Ledger where
  received : UInt32
  ended : UInt32
  inflight : Option Inflight
  processed : List (List UInt8)
  sent : List (List UInt8)
  transmit : Bool

def ledger (c : Cmd) : Ledger where
  received := c.received
  ended := c.completed + c.rejected + c.failed
  inflight := c.inflight
  processed := c.processed
  sent := c.sent
  transmit := c.transmit

namespace Ledger

def send (a : Answer) (l : Ledger) : Ledger :=
  { l with sent := if l.transmit then l.sent ++ [a.frame] else l.sent }

def finish (l : Ledger) : Ledger := { l with ended := l.ended + 1 }

def receive (frame : List UInt8) (l : Ledger) : Ledger :=
  { l with received := l.received + 1, processed := l.processed ++ [frame] }

end Ledger

inductive AnswerEffect (now : UInt32) : Ledger → Ledger → Prop
  | quiet (l : Ledger) : AnswerEffect now l l
  | ended {l : Ledger} {i : Inflight} {a : Answer} (hi : l.inflight = some i) (hecho : a.Of i)
      (hfinal : a.result ≠ .accepted) :
      AnswerEffect now l (({ l with inflight := none } : Ledger).finish.send a)
  | answered {l : Ledger} {frame : List UInt8} {a : Answer} (hecho : a.Echoes (frame, now))
      (hfinal : a.result ≠ .accepted) : AnswerEffect now l ((l.receive frame).finish.send a)
  | accepted {l : Ledger} {frame : List UInt8} {a : Answer} {i : Inflight}
      (hidle : l.inflight = none) (hecho : a.Echoes (frame, now)) (hi : a.Of i)
      (hresult : a.result = .accepted) :
      AnswerEffect now l (({ l.receive frame with inflight := some i } : Ledger).send a)

variable (answers : ℕ → HandlerRun) (stage : Stage)

theorem ledger_count (c : Cmd) {completed rejected failed : UInt32}
    (h : completed + rejected + failed = c.completed + c.rejected + c.failed + 1) :
    ledger { c with completed, rejected, failed } = (ledger c).finish := by
  simp only [ledger, Ledger.finish, h]

theorem ledger_reject (a : Answer) (c : Cmd) (v : Svc) :
    ledger (reject a.id a.sequence a.receiptMs a.result a.detail c v).1 = (ledger c).finish.send a :=
  congrArg (Ledger.send a) (ledger_count c (by grind))

theorem code_of_ofCode {raw : UInt8} {id : CmdId} (h : CmdId.ofCode raw = some id) :
    id.code = raw := by
  have hlt : raw.toNat < 11 := by
    by_contra hge
    rw [CmdId.ofCode, List.getElem?_eq_none (by exact Nat.le_of_not_lt hge)] at h
    simp at h
  rw [← UInt8.toNat_inj]
  unfold CmdId.ofCode at h
  generalize raw.toNat = n at h hlt
  interval_cases n <;> cases h <;> rfl

variable {answers : ℕ → HandlerRun} {stage : Stage}

theorem answered_reject {frame : List UInt8} {receiptMs : UInt32} {c c₀ : Cmd}
    (hc : ledger c = (ledger c₀).receive frame) (result : CmdResult) (detail : UInt32) (v : Svc)
    (hfinal : result ≠ .accepted) :
    AnswerEffect receiptMs (ledger c₀) (ledger (reject (Buf.ofList frame 2)
      ((Buf.ofList frame).getU16 7) receiptMs result detail c v).1) := by
  have hledger := ledger_reject ⟨Buf.ofList frame 2, (Buf.ofList frame).getU16 7, receiptMs, result,
    detail⟩ c v
  rw [hc] at hledger
  rw [hledger]
  exact .answered ⟨rfl, rfl, rfl⟩ hfinal

theorem answer_dispatch {frame : List UInt8} {id : CmdId} (parameter : UInt32) {receiptMs : UInt32}
    {c c₀ : Cmd} (v : Svc) (hid : id.code = Buf.ofList frame 2) (hidle : c₀.inflight = none)
    (hc : ledger c = (ledger c₀).receive frame) :
    AnswerEffect receiptMs (ledger c₀) (ledger (dispatch answers stage id parameter
      ((Buf.ofList frame).getU16 7) receiptMs c v).1) := by
  have hfinal (result : CmdResult) (detail : UInt32) (hresult : result ≠ .accepted) :
      AnswerEffect receiptMs (ledger c₀) (((ledger c).finish).send
        ⟨id.code, (Buf.ofList frame).getU16 7, receiptMs, result, detail⟩) := by
    rw [hc]
    exact .answered ⟨hid, rfl, rfl⟩ hresult
  have hcompleted : ledger { c with completed := c.completed + 1 } = (ledger c).finish :=
    ledger_count c (by grind)
  have hfailed : ledger { c with failed := c.failed + 1 } = (ledger c).finish :=
    ledger_count c (by grind)
  unfold dispatch
  split
  · have hsend := hfinal .failed Status.errUnsupported.code (by decide)
    rw [← hfailed] at hsend
    exact hsend
  · dsimp only
    split
    · have hsend := hfinal .completed 0 (by decide)
      rw [← hcompleted] at hsend
      exact hsend
    · have haccepted (i : Inflight) (hi : i.id = id ∧ i.sequence = (Buf.ofList frame).getU16 7 ∧
          i.receiptMs = receiptMs) : AnswerEffect receiptMs (ledger c₀)
            (({ ledger c with inflight := some i } : Ledger).send
              ⟨id.code, (Buf.ofList frame).getU16 7, receiptMs, .accepted, 0⟩) := by
        obtain ⟨hiid, hisequence, hireceipt⟩ := hi
        rw [hc]
        exact .accepted hidle ⟨hid, rfl, rfl⟩ ⟨by rw [hiid], hisequence.symm, hireceipt.symm⟩ rfl
      exact haccepted ⟨id, parameter, (Buf.ofList frame).getU16 7, receiptMs, _⟩ ⟨rfl, rfl, rfl⟩
    · have hsend (detail : UInt32) := hfinal .failed detail (by decide)
      simp only [← hfailed] at hsend
      exact hsend _

theorem answer_process (frame : List UInt8) (c : Cmd) (v : Svc) :
    AnswerEffect v.nowMs.toUInt32 (ledger c) (ledger (process answers stage frame c v).1) := by
  have hledger : ledger { c with
      received := c.received + 1
      lastReceiptMs := v.nowMs.toUInt32
      processed := c.processed ++ [frame] } = (ledger c).receive frame := rfl
  unfold process
  dsimp only
  split
  · exact answered_reject hledger .rejectFormat _ _ (by decide)
  split
  · exact answered_reject hledger .rejectUnknown _ _ (by decide)
  rename_i id hid
  split
  · exact answered_reject hledger .rejectBusy _ _ (by decide)
  rename_i hidle
  split
  · exact answered_reject hledger .rejectState _ _ (by decide)
  split
  · exact answered_reject hledger .rejectParam _ _ (by decide)
  · exact answer_dispatch _ _ (code_of_ofCode hid) hidle hledger

theorem answer_track (now : UInt32) (c : Cmd) (v : Svc) :
    AnswerEffect now (ledger c) (ledger (track answers stage c v).1) := by
  unfold track
  cases hi : c.inflight with
  | none => exact .quiet _
  | some i =>
    have hended (result : CmdResult) (detail : UInt32) (hresult : result ≠ .accepted) :
        AnswerEffect now (ledger c) ((ledger { c with inflight := none }).finish.send
          ⟨i.id.code, i.sequence, i.receiptMs, result, detail⟩) :=
      .ended hi ⟨rfl, rfl, rfl⟩ hresult
    have hcompleted : ledger { c with inflight := none, completed := c.completed + 1 } =
        (ledger { c with inflight := none }).finish := ledger_count { c with inflight := none } (by grind)
    have hfailed : ledger { c with inflight := none, failed := c.failed + 1 } =
        (ledger { c with inflight := none }).finish := ledger_count { c with inflight := none } (by grind)
    split
    · rename_i hnone
      simp at hnone
    rename_i i' hi'
    obtain rfl := Option.some.inj hi'
    split
    · exact .quiet _
    · dsimp only
      split
      · split
        · have hsend := hended .timeout i.id.cmdDef.budgetMs (by decide)
          rw [← hfailed] at hsend
          exact hsend
        · exact .quiet _
      · have hsend := hended .completed 0 (by decide)
        rw [← hcompleted] at hsend
        exact hsend
      · have hsend (detail : UInt32) := hended .failed detail (by decide)
        simp only [← hfailed] at hsend
        exact hsend _

def answersTo (replies : List (ℕ × Answer)) (k : ℕ) : List CmdResult :=
  (replies.filter (·.1 == k)).map (·.2.result)

/-- Its final answer has been sent, once, and nothing after it and at most an ACCEPTED before it. -/
def Settled (replies : List (ℕ × Answer)) (k : ℕ) : Prop :=
  ∃ result, result ≠ .accepted ∧
    (answersTo replies k = [result] ∨ answersTo replies k = [.accepted, result])

/-- Each answer belongs to a frame received, which it echoes; and every frame received is settled,
but for the one in flight, which has been accepted. -/
structure Accounted (l : Ledger) (received : List (List UInt8 × UInt32))
    (replies : List (ℕ × Answer)) : Prop where
  frames : received.map Prod.fst = l.processed
  number : l.received = UInt32.ofNat received.length
  count : l.received = l.ended + if l.inflight.isSome then 1 else 0
  sent : l.sent = if l.transmit then replies.map (·.2.frame) else []
  echo : ∀ x ∈ replies, ∃ r, received[x.1]? = some r ∧ x.2.Echoes r
  idle : l.inflight = none → ∀ k < received.length, Settled replies k
  busy : ∀ i, l.inflight = some i → ∃ k r, received[k]? = some r ∧
    (∀ a : Answer, a.Of i → a.Echoes r) ∧ answersTo replies k = [.accepted] ∧
      ∀ j < received.length, j ≠ k → Settled replies j

theorem answersTo_concat (replies : List (ℕ × Answer)) (n : ℕ) (a : Answer) (k : ℕ) :
    answersTo (replies ++ [(n, a)]) k = answersTo replies k ++ if n = k then [a.result] else [] := by
  by_cases h : n = k
  · simp [answersTo, h]
  · simp [answersTo, h]

theorem settled_concat {replies : List (ℕ × Answer)} {n k : ℕ} {a : Answer} (h : n ≠ k) :
    Settled (replies ++ [(n, a)]) k ↔ Settled replies k := by
  rw [Settled, answersTo_concat, if_neg h, List.append_nil, Settled]

namespace Accounted
variable {l : Ledger} {received : List (List UInt8 × UInt32)} {replies : List (ℕ × Answer)}

/-- A frame that comes next has no answers yet. -/
theorem answersTo_next (h : Accounted l received replies) :
    answersTo replies received.length = [] := by
  rw [answersTo, List.map_eq_nil_iff, List.filter_eq_nil_iff]
  intro x hx
  obtain ⟨r, hr, -⟩ := h.echo x hx
  have hlt := (List.getElem?_eq_some_iff.mp hr).1
  simp [hlt.ne]

theorem sent_concat (h : Accounted l received replies) (n : ℕ) (a : Answer) :
    (if l.transmit then l.sent ++ [a.frame] else l.sent) =
      if l.transmit then (replies ++ [(n, a)]).map (·.2.frame) else [] := by
  rw [h.sent]
  split <;> simp

/-- The answer to a frame that comes next is its own. -/
theorem echo_next (h : Accounted l received replies) {r : List UInt8 × UInt32} {a : Answer}
    (ha : a.Echoes r) : ∀ x ∈ replies ++ [(received.length, a)],
      ∃ r', (received ++ [r])[x.1]? = some r' ∧ x.2.Echoes r' := by
  intro x hx
  rcases List.mem_append.mp hx with hx | hx
  · obtain ⟨r', hr', hecho⟩ := h.echo x hx
    refine ⟨r', ?_, hecho⟩
    rw [List.getElem?_append_left (List.getElem?_eq_some_iff.mp hr').1, hr']
  · rw [List.mem_singleton.mp hx]
    exact ⟨r, by simp, ha⟩

theorem number_next (h : Accounted l received replies) (r : List UInt8 × UInt32) :
    l.received + 1 = UInt32.ofNat (received ++ [r]).length := by
  rw [h.number, List.length_append, List.length_singleton, UInt32.ofNat_add]
  rfl

/-- With the next frame answered for good, what is settled is still settled. -/
theorem settled_next (h : Accounted l received replies) {r : List UInt8 × UInt32} {a : Answer}
    (hfinal : a.result ≠ .accepted) {j : ℕ} (hj : j < (received ++ [r]).length)
    (hold : j < received.length → Settled replies j) :
    Settled (replies ++ [(received.length, a)]) j := by
  by_cases hjn : received.length = j
  · subst hjn
    refine ⟨a.result, hfinal, .inl ?_⟩
    rw [answersTo_concat, h.answersTo_next, if_pos rfl]
    rfl
  · rw [List.length_append, List.length_singleton] at hj
    exact (settled_concat hjn).mpr (hold (by omega))

theorem ended (h : Accounted l received replies) {i : Inflight} {a : Answer}
    (hi : l.inflight = some i) (hecho : a.Of i) (hfinal : a.result ≠ .accepted) :
    ∃ replies', Accounted (({ l with inflight := none } : Ledger).finish.send a) received replies' := by
  obtain ⟨k, r, hr, hof, hk, hothers⟩ := h.busy i hi
  refine ⟨replies ++ [(k, a)], h.frames, h.number, ?_, h.sent_concat k a, ?_, ?_, ?_⟩
  · have hcount := h.count
    rw [hi] at hcount
    simpa [Ledger.send, Ledger.finish] using hcount
  · intro x hx
    rcases List.mem_append.mp hx with hx | hx
    · exact h.echo x hx
    · rw [List.mem_singleton.mp hx]
      exact ⟨r, hr, hof a hecho⟩
  · intro _ j hj
    by_cases hjk : k = j
    · subst hjk
      refine ⟨a.result, hfinal, .inr ?_⟩
      rw [answersTo_concat, hk, if_pos rfl]
      rfl
    · exact (settled_concat hjk).mpr (hothers j hj (Ne.symm hjk))
  · intro j hj
    simp [Ledger.send, Ledger.finish] at hj

theorem answered (h : Accounted l received replies) {r : List UInt8 × UInt32} {a : Answer}
    (hecho : a.Echoes r) (hfinal : a.result ≠ .accepted) :
    ∃ replies', Accounted ((l.receive r.1).finish.send a) (received ++ [r]) replies' := by
  refine ⟨replies ++ [(received.length, a)], ?_, h.number_next r, ?_, h.sent_concat _ a,
    h.echo_next hecho, ?_, ?_⟩
  · rw [List.map_append, h.frames]
    rfl
  · have hcount := h.count
    simp only [Ledger.send, Ledger.finish, Ledger.receive]
    grind
  · intro hidle j hj
    exact h.settled_next hfinal hj (h.idle hidle j)
  · intro i hi
    obtain ⟨k, r', hr', hof, hk, hothers⟩ := h.busy i hi
    have hlt := (List.getElem?_eq_some_iff.mp hr').1
    refine ⟨k, r', ?_, hof, ?_, ?_⟩
    · rw [List.getElem?_append_left hlt, hr']
    · rw [answersTo_concat, if_neg hlt.ne', hk, List.append_nil]
    · intro j hj hjk
      exact h.settled_next hfinal hj fun hlt => hothers j hlt hjk

theorem accepted (h : Accounted l received replies) {r : List UInt8 × UInt32} {a : Answer}
    {i : Inflight} (hidle : l.inflight = none) (hecho : a.Echoes r) (hi : a.Of i)
    (hresult : a.result = .accepted) :
    ∃ replies', Accounted (({ l.receive r.1 with inflight := some i } : Ledger).send a)
      (received ++ [r]) replies' := by
  refine ⟨replies ++ [(received.length, a)], ?_, h.number_next r, ?_, h.sent_concat _ a,
    h.echo_next hecho, ?_, ?_⟩
  · rw [List.map_append, h.frames]
    rfl
  · have hcount := h.count
    rw [hidle] at hcount
    simpa [Ledger.send, Ledger.receive] using hcount
  · intro hnone
    simp [Ledger.send] at hnone
  · intro i' hi'
    obtain rfl := Option.some.inj hi'
    refine ⟨received.length, r, by simp, ?_, ?_, ?_⟩
    · intro b hb
      exact ⟨(hb.1.trans hi.1.symm).trans hecho.1, (hb.2.1.trans hi.2.1.symm).trans hecho.2.1,
        (hb.2.2.trans hi.2.2.symm).trans hecho.2.2⟩
    · rw [answersTo_concat, h.answersTo_next, if_pos rfl, hresult]
      rfl
    · intro j hj hjn
      rw [List.length_append, List.length_singleton] at hj
      exact (settled_concat (Ne.symm hjn)).mpr (h.idle hidle j (by omega))

end Accounted

/-- What one effect does to the answers: the frame it processes, if any, is received now. -/
theorem accounted_effect {now : UInt32} {l l' : Ledger} (he : AnswerEffect now l l') :
    ∃ new, l'.processed = l.processed ++ new ∧ ∀ received replies, Accounted l received replies →
      ∃ replies', Accounted l' (received ++ new.map (·, now)) replies' := by
  cases he with
  | quiet =>
    refine ⟨[], (List.append_nil _).symm, ?_⟩
    intro received replies h
    exact ⟨replies, by simpa using h⟩
  | ended hi hecho hfinal =>
    refine ⟨[], (List.append_nil _).symm, ?_⟩
    intro received replies h
    rw [List.map_nil, List.append_nil]
    exact h.ended hi hecho hfinal
  | @answered frame a hecho hfinal =>
    refine ⟨[frame], rfl, ?_⟩
    intro received replies h
    exact h.answered hecho hfinal
  | @accepted frame a i hidle hecho hi hresult =>
    refine ⟨[frame], rfl, ?_⟩
    intro received replies h
    exact h.accepted hidle hecho hi hresult

/-- Effects one after another, all at one time. -/
theorem accounted_effects {now : UInt32} {l l' : Ledger}
    (h : Relation.ReflTransGen (AnswerEffect now) l l') :
    ∃ new, l'.processed = l.processed ++ new ∧ ∀ received replies, Accounted l received replies →
      ∃ replies', Accounted l' (received ++ new.map (·, now)) replies' := by
  induction h with
  | refl => exact accounted_effect (.quiet l)
  | tail _ he ih =>
    obtain ⟨new, hnew, hkeep⟩ := ih
    obtain ⟨last, hlast, hstep⟩ := accounted_effect he
    refine ⟨new ++ last, by rw [hlast, hnew, List.append_assoc], ?_⟩
    intro received replies h
    obtain ⟨replies', h'⟩ := hkeep received replies h
    rw [List.map_append, ← List.append_assoc]
    exact hstep _ _ h'

section Time
variable (v : Svc)

theorem nowMs_collectTime : v.collectTime.nowMs = v.nowMs := by
  simp [Svc.nowMs, Svc.collectTime, Time.nowMs, Time.collect]

theorem nowMs_reportAll (faults : List (FaultId × UInt32)) : (v.reportAll faults).nowMs = v.nowMs := by
  induction faults generalizing v with
  | nil => rfl
  | cons f faults ih => exact ih (v.report f.1 f.2)

theorem nowMs_invoke (h : Handler) (first : Bool) (id : CmdId) (parameter : UInt32) (c : Cmd) :
    (invoke h answers stage first id parameter c v).2.2.nowMs = v.nowMs :=
  nowMs_reportAll v _

theorem nowMs_dispatch (id : CmdId) (parameter : UInt32) (sequence : UInt16) (receiptMs : UInt32)
    (c : Cmd) : (dispatch answers stage id parameter sequence receiptMs c v).2.nowMs = v.nowMs := by
  unfold dispatch
  split
  · rfl
  · rename_i h _
    have hcall := @nowMs_invoke answers stage v h true id parameter c
    dsimp only
    split
    · exact hcall
    · exact (nowMs_collectTime _).trans hcall
    · exact hcall

theorem nowMs_process (frame : List UInt8) (c : Cmd) :
    (process answers stage frame c v).2.nowMs = v.nowMs := by
  have hcollect := nowMs_collectTime v
  unfold process
  dsimp only
  split
  · exact hcollect
  split
  · exact hcollect
  split
  · exact hcollect
  split
  · exact hcollect
  split
  · exact hcollect
  · exact (nowMs_dispatch ..).trans hcollect

theorem nowMs_track (c : Cmd) : (track answers stage c v).2.nowMs = v.nowMs := by
  unfold track
  split
  · rfl
  split
  · rfl
  · rename_i i _ _ h _
    have hcall := @nowMs_invoke answers stage v h false i.id i.parameter c
    dsimp only
    split
    · have hexpired : ∀ w : Svc, (Svc.timeoutExpired i.budget w).2.nowMs = w.nowMs := by
        intro w
        unfold Svc.timeoutExpired
        split
        · exact nowMs_collectTime w
        · rfl
      split
      · exact (hexpired _).trans hcall
      · exact (hexpired _).trans hcall
    · exact hcall
    · exact hcall

end Time

theorem answer_takeByte (s : Cmd × Svc) (b : UInt8) :
    AnswerEffect s.2.nowMs.toUInt32 (ledger s.1) (ledger (takeByte answers stage s b).1) ∧
      (takeByte answers stage s b).2.nowMs = s.2.nowMs := by
  unfold takeByte
  split
  · exact ⟨.quiet _, rfl⟩
  dsimp only
  split
  · split
    · exact ⟨answer_process (s.1.asm ++ [b]) { s.1 with asm := s.1.asm ++ [b] } s.2, nowMs_process ..⟩
    · exact ⟨.quiet _, rfl⟩
  · exact ⟨.quiet _, rfl⟩

theorem answers_chunk (chunk : List UInt8) (s : Cmd × Svc) :
    Relation.ReflTransGen (AnswerEffect s.2.nowMs.toUInt32) (ledger s.1)
        (ledger (chunk.foldl (takeByte answers stage) s).1) ∧
      (chunk.foldl (takeByte answers stage) s).2.nowMs = s.2.nowMs := by
  induction chunk generalizing s with
  | nil => exact ⟨.refl, rfl⟩
  | cons b chunk ih =>
    obtain ⟨hbyte, htime⟩ := @answer_takeByte answers stage s b
    obtain ⟨hrest, htime'⟩ := ih (takeByte answers stage s b)
    rw [htime] at hrest
    exact ⟨.head hbyte hrest, htime'.trans htime⟩

theorem answers_service (u : Uart) (c : Cmd) (v : Svc) :
    Relation.ReflTransGen (AnswerEffect v.nowMs.toUInt32) (ledger c)
      (ledger (service answers stage u c v).2.1) := by
  obtain ⟨hchunk, -⟩ := @answers_chunk answers stage (taken 5 u.rx) (track answers stage c v)
  rw [nowMs_track, ← service_taken] at hchunk
  exact .head (answer_track _ c v) hchunk

theorem ledger_interruptsLoop (fuel : ℕ) (s : IrqSlot × Cmd) :
    ledger (interruptsLoop fuel s).2 = ledger s.2 := by
  induction fuel generalizing s with
  | zero => rfl
  | succ fuel ih =>
    simp only [interruptsLoop]
    split
    · rfl
    · rw [ih]
      unfold onEvent
      split <;> rfl

/-- The command module, every frame it has received with the time of its receipt, and the bytes that
have come over the line since the last gap. -/
structure Answering where
  cmd : Cmd := {}
  received : List (List UInt8 × UInt32) := []
  line : List UInt8 := []

/-- Time passes, and the other modules run, between any two operations; `track` and `byte` are what a
service is made of, for time that passes during one. -/
inductive AnsweringOp
  | register (id : CmdId)
  | submit (answers : ℕ → HandlerRun) (stage : Stage) (frame : List UInt8) (v : Svc)
  | interrupts (u : Uart)
  | service (answers : ℕ → HandlerRun) (stage : Stage) (u : Uart) (v : Svc)
  | track (answers : ℕ → HandlerRun) (stage : Stage) (v : Svc)
  | byte (answers : ℕ → HandlerRun) (stage : Stage) (b : UInt8) (v : Svc)

namespace AnsweringOp

def run (c : Cmd) : AnsweringOp → Cmd
  | register id => (Cmd.register id c).2
  | submit answers stage frame v => (Cmd.submit answers stage frame c v).2.1
  | interrupts u => (serviceInterrupts u c).2
  | service answers stage u v => (Cmd.service answers stage u c v).2.1
  | track answers stage v => (Cmd.track answers stage c v).1
  | byte answers stage b v => (takeByte answers stage (c, v) b).1

def nowMs : AnsweringOp → UInt32
  | submit _ _ _ v | service _ _ _ v | track _ _ v | byte _ _ _ v => v.nowMs.toUInt32
  | register _ | interrupts _ => 0

def bytes : AnsweringOp → List UInt8
  | service _ _ u _ => taken 5 u.rx
  | byte _ _ b _ => [b]
  | register _ | submit .. | interrupts _ | track .. => []

def lineAfter (line : List UInt8) : AnsweringOp → List UInt8
  | interrupts u => if (drained 9 u.irq).any (·.kind == uartKindGap) then [] else line
  | op => line ++ op.bytes

/-- The frames that are received with an operation: the one that is submitted, if it is a frame, and those
that the scan of the line finds with the operation's bytes and not without them. -/
def frames (line : List UInt8) : AnsweringOp → List (List UInt8)
  | submit _ _ frame _ => if isFrame frame then [frame] else []
  | op => (Cmd.frames (line ++ op.bytes)).drop (Cmd.frames line).length

end AnsweringOp

def answeringStep (s : Answering) (op : AnsweringOp) : Answering where
  cmd := op.run s.cmd
  received := s.received ++ (op.frames s.line).map (·, op.nowMs)
  line := op.lineAfter s.line

/-- A service takes what the ring holds. -/
theorem bytes_service {u : Uart} (hu : u.Valid) : taken 5 u.rx = u.rx.contents :=
  (assembleLoop_spec (fun _ => {}) .boot 5 ({}, {}) hu.rx hu.contents_lt).2.2.2

theorem isFrame_iff {frame : List UInt8} : isFrame frame = true ↔
    frame.length = frameBytes ∧ Buf.ofList frame 0 = packetId ∧ checked frame = true := by
  have hstart : frame.length = frameBytes → (frame.head? = some packetId ↔
      Buf.ofList frame 0 = packetId) := by
    intro hlength
    obtain ⟨x, tail, rfl⟩ := List.exists_cons_of_length_eq_add_one hlength
    exact Option.some_inj
  simp only [isFrame, Bool.and_eq_true, beq_iff_eq, and_assoc]
  exact and_congr_right fun hlength => and_congr_left fun _ => hstart hlength

theorem submit_eq (frame : List UInt8) (c : Cmd) (v : Svc) : isFrame frame = true ∧
      submit answers stage frame c v = (.ok, process answers stage frame c v) ∨
    isFrame frame = false ∧ (submit answers stage frame c v).1 ≠ .ok ∧
      (submit answers stage frame c v).2 = (c, v) := by
  rw [← Bool.not_eq_true, isFrame_iff]
  unfold submit
  split
  · rename_i hlength
    exact .inr ⟨fun h => hlength h.1, by simp, rfl⟩
  split
  · rename_i hstart
    exact .inr ⟨fun h => hstart h.2.1, by simp, rfl⟩
  split
  · rename_i hchecked
    rw [Bool.not_eq_true'] at hchecked
    exact .inr ⟨fun h => Bool.false_ne_true (hchecked.symm.trans h.2.2), by simp, rfl⟩
  · rename_i hlength hstart hchecked
    rw [Bool.not_eq_true', Bool.not_eq_false] at hchecked
    exact .inl ⟨⟨not_not.mp hlength, not_not.mp hstart, hchecked⟩, rfl⟩

/-- A submission is accepted exactly when it is a frame. -/
theorem submit_ok_iff (answers : ℕ → HandlerRun) (stage : Stage) (frame : List UInt8) (c : Cmd)
    (v : Svc) : (submit answers stage frame c v).1 = .ok ↔ isFrame frame = true := by
  rcases @submit_eq answers stage frame c v with ⟨hframe, hok⟩ | ⟨hframe, hbad, -⟩
  · rw [hok, hframe]
    exact iff_of_true rfl rfl
  · rw [hframe]
    exact iff_of_false hbad Bool.false_ne_true

theorem asm_onEvents (events : List IrqEvent) (c : Cmd) : (events.foldl onEvent c).asm =
    if events.any (·.kind == uartKindGap) then [] else c.asm := by
  induction events generalizing c with
  | nil => rfl
  | cons e events ih =>
    rw [List.foldl_cons, ih, List.any_cons]
    by_cases hgap : e.kind = uartKindGap
    · have hempty : (onEvent c e).asm = [] := by
        unfold onEvent
        split
        · rfl
        · rename_i hnot
          exact not_not.mp fun hheld => hnot ⟨hgap, hheld⟩
      simp [hgap, hempty]
    · have hsame : onEvent c e = c := if_neg fun h => hgap h.1
      rw [hsame, beq_false_of_ne hgap, Bool.false_or]

/-- The frames processed in an operation are those that are received with it. -/
theorem scanned_op (op : AnsweringOp) {c : Cmd} {line : List UInt8} (h : Scanned line c.asm) :
    Scanned (op.lineAfter line) (op.run c).asm ∧
      (op.run c).processed = c.processed ++ op.frames line := by
  cases op with
  | register id =>
    simp only [AnsweringOp.lineAfter, AnsweringOp.frames, AnsweringOp.bytes, AnsweringOp.run,
      List.append_nil, List.drop_length, register]
    split
    · exact ⟨h, rfl⟩
    · exact ⟨h, rfl⟩
  | submit answers stage frame v =>
    simp only [AnsweringOp.lineAfter, AnsweringOp.frames, AnsweringOp.bytes, AnsweringOp.run,
      List.append_nil]
    rcases @submit_eq answers stage frame c v with ⟨hframe, hok⟩ | ⟨hframe, -, hsame⟩
    · rw [hok, hframe, (process_line ..).asm, (process_line ..).processed]
      exact ⟨h, rfl⟩
    · rw [hsame, hframe]
      exact ⟨h, (List.append_nil _).symm⟩
  | interrupts u =>
    have hasm := asm_onEvents (drained 9 u.irq) c
    rw [← interruptsLoop_drained] at hasm
    have hprocessed := congrArg Ledger.processed (ledger_interruptsLoop 9 (u.irq, c))
    simp only [AnsweringOp.lineAfter, AnsweringOp.frames, AnsweringOp.bytes, AnsweringOp.run,
      List.append_nil, List.drop_length, serviceInterrupts]
    refine ⟨?_, hprocessed⟩
    rw [hasm]
    split
    · exact .nil
    · exact h
  | service answers stage u v =>
    obtain ⟨hasm, hsame⟩ := track_line answers stage c v
    rw [← hasm] at h
    obtain ⟨hscanned, hprocessed⟩ := scanned_chunk answers stage h (taken 5 u.rx)
    simp only [AnsweringOp.lineAfter, AnsweringOp.frames, AnsweringOp.bytes, AnsweringOp.run, service_taken]
    rw [hprocessed, hsame]
    exact ⟨hscanned, rfl⟩
  | track answers stage v =>
    obtain ⟨hasm, hsame⟩ := track_line answers stage c v
    simp only [AnsweringOp.lineAfter, AnsweringOp.frames, AnsweringOp.bytes, AnsweringOp.run,
      List.append_nil, List.drop_length, hasm, hsame]
    exact ⟨h, trivial⟩
  | byte answers stage b v =>
    obtain ⟨hscanned, hprocessed⟩ := @scanned_takeByte answers stage line (c, v) h b
    simp only [AnsweringOp.lineAfter, AnsweringOp.frames, AnsweringOp.bytes, AnsweringOp.run]
    rw [hprocessed, h.drop_frames]
    exact ⟨hscanned, rfl⟩

theorem answers_op (op : AnsweringOp) (c : Cmd) :
    Relation.ReflTransGen (AnswerEffect op.nowMs) (ledger c) (ledger (op.run c)) := by
  cases op with
  | register id =>
    simp only [AnsweringOp.run, register]
    split <;> exact .refl
  | submit answers stage frame v =>
    simp only [AnsweringOp.run, submit]
    split
    · exact .refl
    split
    · exact .refl
    split
    · exact .refl
    · exact .single (answer_process frame c v)
  | interrupts u =>
    have hsame : ledger (serviceInterrupts u c).2 = ledger c := ledger_interruptsLoop 9 (u.irq, c)
    simp only [AnsweringOp.run, hsame]
    exact .refl
  | service answers stage u v => exact answers_service u c v
  | track answers stage v => exact .single (answer_track _ c v)
  | byte answers stage b v => exact .single (answer_takeByte (c, v) b).1

theorem accounted_init (transmit : Bool) : Accounted (ledger { transmit }) [] [] where
  frames := rfl
  number := rfl
  count := rfl
  sent := by cases transmit <;> rfl
  echo x hx := absurd hx List.not_mem_nil
  idle _ k hk := absurd hk (Nat.not_lt_zero k)
  busy i hi := absurd hi (by simp [ledger])

theorem accounted_op (op : AnsweringOp) {c : Cmd} {line : List UInt8} (hline : Scanned line c.asm)
    {received : List (List UInt8 × UInt32)} (h : ∃ replies, Accounted (ledger c) received replies) :
    ∃ replies, Accounted (ledger (op.run c)) (received ++ (op.frames line).map (·, op.nowMs)) replies := by
  obtain ⟨replies, h⟩ := h
  obtain ⟨new, hnew, hkeep⟩ := accounted_effects (answers_op op c)
  have hprocessed : c.processed ++ new = c.processed ++ op.frames line :=
    hnew.symm.trans (scanned_op op hline).2
  rw [← List.append_cancel_left hprocessed]
  exact hkeep received replies h

theorem accounted_run (transmit : Bool) (ops : List AnsweringOp) :
    ∃ replies, Accounted (ledger (run answeringStep { cmd := { transmit } } ops).cmd)
      (run answeringStep { cmd := { transmit } } ops).received replies := by
  have hall := @run_keeps _ _ answeringStep
    (fun s => Scanned s.line s.cmd.asm ∧ ∃ replies, Accounted (ledger s.cmd) s.received replies)
    (fun s op hs => ⟨(scanned_op op hs.1).1, accounted_op op hs.1 hs.2⟩) { cmd := { transmit } }
    ⟨.nil, [], accounted_init transmit⟩ ops
  exact hall.2

end QiranFirmware.Cmd
