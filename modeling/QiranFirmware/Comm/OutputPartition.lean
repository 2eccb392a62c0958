import QiranFirmware.Comm.OutputOrder

/-! # No queued item is lost or sent twice

What the queue has accepted is what the link has accepted and what still waits, each item once: a
turn of the loop leaves an item where it is or moves it from the one to the other. Every item that
is accepted fits a packet, so none is ever dropped.
-/
namespace QiranFirmware.Output

open Machine

variable {β : Type}

def Small : OutboundOp β → Prop
  | .submit _ _ len => len.toNat < 2 ^ 31
  | .service .. => True

def Stops (mem : β → Buf) (answers : ℕ → Status) : ℕ → Pass β → Prop
  | 0, _ => False
  | n + 1, s =>
    match turn mem (answers s.sends.length) s with
    | (true, s) => Stops mem answers n s
    | (false, _) => True

theorem stops_of_used {mem : β → Buf} {answers : ℕ → Status} {n : ℕ} {s : Pass β}
    (h : used s.queue < n) : Stops mem answers n s := by
  induction n generalizing s with
  | zero => exact absurd h (Nat.not_lt_zero _)
  | succ n ih =>
    unfold Stops
    split
    · rename_i s' heq
      have hturn := used_turn (congrArg Prod.fst heq)
      rw [heq] at hturn
      exact ih (Nat.lt_of_lt_of_le hturn (Nat.le_of_lt_succ h))
    · trivial

def delivered (sends : List (OutputSend β)) : List (OutputItem β) :=
  (sends.filter fun x => x.status == .ok).map (·.item)

theorem delivered_append (xs ys : List (OutputSend β)) :
    delivered (xs ++ ys) = delivered xs ++ delivered ys := by
  rw [delivered, List.filter_append, List.map_append]
  rfl

def Fitting (item : OutputItem β) : Prop := item.len.toNat + 10 ≤ packetBytes.toNat

/-- A turn on a queue of items that fit: it stops with nothing tried, or the link refuses an item,
which stays, or accepts it, which leaves. -/
inductive TurnEffect (s : Pass β) : Bool → Pass β → Prop
  | idle : TurnEffect s false s
  | refused (packet : Buf) {ccsds : Ccsds} (hccsds : ccsds.Fits) (link : SpwLink) (v : Svc)
      {x : OutputSend β} (hx : x.status ≠ .ok) :
      TurnEffect s false ⟨{ s.queue with packet }, ccsds, link, v, s.sends ++ [x]⟩
  | sent {i : ℕ} (hi : i < depth) (packet : Buf) {ccsds : Ccsds} (hccsds : ccsds.Fits)
      (link : SpwLink) (v : Svc) {x : OutputSend β} (hx : x.status = .ok)
      (hitem : s.queue.slot i = some x.item) :
      TurnEffect s true ⟨{ s.queue with
        slot := Function.update s.queue.slot i none
        pending := s.queue.pending - 1
        sent := s.queue.sent + 1
        packet }, ccsds, link, v, s.sends ++ [x]⟩

theorem turn_effect {mem : β → Buf} {answer : Status} {s : Pass β} (hp : s.ccsds.Fits)
    (hfit : ∀ i item, s.queue.slot i = some item → Fitting item) :
    TurnEffect s (turn mem answer s).1 (turn mem answer s).2 := by
  by_cases hrun : s.link.running = true
  swap
  · simp only [turn, hrun]
    exact .idle
  cases hpick : s.queue.pick with
  | none =>
    simp only [turn, hrun, hpick]
    exact .idle
  | some i =>
    obtain ⟨hi, item, hitem⟩ := pick_spec hpick
    obtain ⟨⟨st, packet, written, ccsds⟩, hbuild⟩ : ∃ r, Ccsds.build item.cls (mem item.data)
        item.len s.queue.packet packetBytes s.ccsds = r := ⟨_, rfl⟩
    have hccsds := Ccsds.fits_build item.cls (mem item.data) item.len s.queue.packet packetBytes hp
    have hst := (@Ccsds.build_of_fits item.cls (mem item.data) _ s.queue.packet packetBytes _ hp
      (by decide) (hfit i item hitem)).1
    rw [hbuild] at hccsds hst
    dsimp only at hccsds hst
    obtain ⟨⟨status, link, v⟩, hsend⟩ : ∃ r, s.link.send answer written s.v = r := ⟨_, rfl⟩
    by_cases hok : status = .ok
    · simp only [turn, hrun, hpick, hitem, hbuild, hst, hsend, hok]
      exact .sent hi packet hccsds link v rfl hitem
    · simp only [turn, hrun, hpick, hitem, hbuild, hst, hsend, ne_eq, hok, not_false_eq_true,
        ↓reduceIte]
      exact .refused packet hccsds link v hok

/-- What has been accepted is what has been sent and what is queued, and the counters say so. -/
structure Settled (taken : List (OutputItem β)) (sends : List (OutputSend β)) (q : Output β)
    (p : Ccsds) : Prop where
  fits : p.Fits
  fitting : ∀ i item, q.slot i = some item → Fitting item
  split : taken.Perm (delivered sends ++ q.queued)
  pending : q.pending = UInt32.ofNat q.queued.length
  sent : q.sent = UInt32.ofNat (delivered sends).length
  submitted : q.submitted = q.sent + q.pending
  failed : q.failed = 0

theorem settled_turn {taken : List (OutputItem β)} {old : List (OutputSend β)} {mem : β → Buf}
    {answer : Status} {s : Pass β} (h : Settled taken (old ++ s.sends) s.queue s.ccsds) :
    Settled taken (old ++ (turn mem answer s).2.sends) (turn mem answer s).2.queue
      (turn mem answer s).2.ccsds := by
  have heffect := @turn_effect _ mem answer s h.fits h.fitting
  generalize turn mem answer s = r at heffect
  obtain ⟨go, s'⟩ := r
  cases heffect with
  | idle => exact h
  | @refused packet ccsds hccsds link v x hx =>
    have hsame : delivered (old ++ (s.sends ++ [x])) = delivered (old ++ s.sends) := by
      rw [← List.append_assoc, delivered_append _ [x]]
      simp [delivered, hx]
    refine ⟨hccsds, h.fitting, ?_, h.pending, ?_, h.submitted, h.failed⟩
    · rw [hsame]
      exact h.split
    · rw [hsame]
      exact h.sent
  | @sent i hi packet ccsds hccsds link v x hx hitem =>
    have hmore : delivered (old ++ (s.sends ++ [x])) = delivered (old ++ s.sends) ++ [x.item] := by
      rw [← List.append_assoc, delivered_append _ [x]]
      simp [delivered, hx]
    obtain ⟨q, hq⟩ : ∃ q : Output β, q = { s.queue with
      slot := Function.update s.queue.slot i none
      pending := s.queue.pending - 1
      sent := s.queue.sent + 1
      packet } := ⟨_, rfl⟩
    have hslot : q.slot = Function.update s.queue.slot i none := by rw [hq]
    have hleft : s.queue.queued.Perm (x.item :: q.queued) := queued_free hi hitem hslot
    have hpending : s.queue.pending = UInt32.ofNat q.queued.length + 1 := by
      rw [h.pending, hleft.length_eq, List.length_cons, UInt32.ofNat_add]
      rfl
    dsimp only
    rw [← hq]
    refine ⟨hccsds, forall_slot_update h.fitting (by simp) hslot, ?_, ?_, ?_, ?_, ?_⟩
    · rw [hmore, List.append_assoc]
      exact h.split.trans (hleft.append_left _)
    · rw [hq]
      dsimp only
      rw [← hq, hpending]
      grind
    · rw [hq, hmore, List.length_append, h.sent, UInt32.ofNat_add]
      rfl
    · rw [hq]
      dsimp only
      rw [h.submitted]
      grind
    · rw [hq]
      exact h.failed

theorem settled_service {taken : List (OutputItem β)} {old : List (OutputSend β)} {mem : β → Buf}
    {answers : ℕ → Status} {s : Pass β} (h : Settled taken (old ++ s.sends) s.queue s.ccsds) :
    Settled taken (old ++ (service mem answers s).sends) (service mem answers s).queue
      (service mem answers s).ccsds :=
  @loop_invariant _ mem answers (fun s => Settled taken (old ++ s.sends) s.queue s.ccsds)
    (fun _ hs => settled_turn hs) (depth + 1) s h

theorem fitting_of_small {cls : CcsdsClass} {data : β} {len : UInt32} (hsmall : len.toNat < 2 ^ 31)
    (hfits : ¬ packetBytes < len + Ccsds.primaryHeaderBytes + Ccsds.integrityBytes) :
    Fitting (⟨data, len, cls⟩ : OutputItem β) := by
  rw [UInt32.not_lt, UInt32.le_iff_toNat_le, UInt32.toNat_add, UInt32.toNat_add,
    Ccsds.toNat_primaryHeaderBytes, Ccsds.toNat_integrityBytes] at hfits
  show len.toNat + 10 ≤ packetBytes.toNat
  omega

theorem settled_submit {taken : List (OutputItem β)} {sends : List (OutputSend β)} {q : Output β}
    {p : Ccsds} (h : Settled taken sends q p) (cls : CcsdsClass) (data : β) {len : UInt32} (v : Svc)
    (hsmall : len.toNat < 2 ^ 31) :
    Settled (if (submit cls data len q v).1 = .ok then taken ++ [⟨data, len, cls⟩] else taken) sends
      (submit cls data len q v).2.1 p := by
  unfold submit
  split
  · exact h
  split
  · exact h
  rename_i hfits
  split
  swap
  · exact ⟨h.fits, h.fitting, h.split, h.pending, h.sent, h.submitted, h.failed⟩
  rename_i i hfind
  have hisNone := List.find?_some hfind
  have hfree : q.slot i = none := Option.isNone_iff_eq_none.mp hisNone
  have hi : i < depth := List.mem_range.mp (List.mem_of_find?_eq_some hfind)
  obtain ⟨q', hq⟩ : ∃ q' : Output β, q' = { q with
    slot := Function.update q.slot i (some { data, len, cls })
    pending := q.pending + 1
    submitted := q.submitted + 1
    highWater := if q.highWater < q.pending + 1 then q.pending + 1 else q.highWater } := ⟨_, rfl⟩
  have hslot : q'.slot = Function.update q.slot i (some { data, len, cls }) := by rw [hq]
  have hjoined := queued_fill hi hfree hslot
  rw [if_pos rfl]
  dsimp only
  rw [← hq]
  refine ⟨h.fits, forall_slot_update h.fitting ?_ hslot, ?_, ?_, ?_, ?_, ?_⟩
  · intro item hitem
    obtain rfl := Option.some.inj hitem
    exact fitting_of_small hsmall hfits
  · refine (List.perm_append_singleton _ _).trans ((h.split.cons _).trans ?_)
    exact List.perm_middle.symm.trans (hjoined.symm.append_left _)
  · rw [hjoined.length_eq, List.length_cons, UInt32.ofNat_add, ← h.pending, hq]
    rfl
  · rw [hq]
    exact h.sent
  · rw [hq]
    dsimp only
    rw [h.submitted, UInt32.add_assoc]
  · rw [hq]
    exact h.failed

theorem full_of_busy {cls : CcsdsClass} {data : β} {len : UInt32} {q : Output β} {v : Svc}
    (h : (submit cls data len q v).1 = .errBusy) {i : ℕ} (hi : i < depth) :
    ∃ item, q.slot i = some item := by
  unfold submit at h
  split at h
  · simp at h
  split at h
  · simp at h
  split at h
  · simp at h
  rename_i hnone
  have hused := List.find?_eq_none.mp hnone i (List.mem_range.mpr hi)
  exact Option.ne_none_iff_exists'.mp (by simpa using hused)

structure Booked (β : Type) where
  queueing : Queueing β := {}
  taken : List (OutputItem (β × ℕ)) := []

def takenBy (s : Queueing β) : OutboundOp β → List (OutputItem (β × ℕ))
  | .submit cls data len =>
    if (submit cls (data, s.now) len s.out.queue s.out.v).1 = .ok then [⟨(data, s.now), len, cls⟩]
    else []
  | .service .. => []

def bookedStep (s : Booked β) (op : OutboundOp β) : Booked β :=
  { queueing := queueStep s.queueing op, taken := s.taken ++ takenBy s.queueing op }

theorem queueing_run (s : Booked β) (ops : List (OutboundOp β)) :
    (run bookedStep s ops).queueing = run queueStep s.queueing ops := by
  induction ops generalizing s with
  | nil => rfl
  | cons op ops ih => exact ih _

structure Book (s : Booked β) : Prop where
  settled : Settled s.taken s.queueing.out.sends s.queueing.out.queue s.queueing.out.ccsds
  past : ∀ item ∈ s.taken, item.data.2 < s.queueing.now
  once : s.taken.Nodup

theorem book_init : Book ({} : Booked β) := by
  refine ⟨⟨Ccsds.fits_init, by simp, ?_, rfl, rfl, rfl, rfl⟩, by simp, List.nodup_nil⟩
  exact List.Perm.refl _

theorem book_step {s : Booked β} (h : Book s) {op : OutboundOp β} (hop : Small op) :
    Book (bookedStep s op) := by
  cases op with
  | service link mem answers =>
    refine ⟨?_, ?_, ?_⟩
    · simp only [bookedStep, queueStep, stamp, outboundStep, takenBy, List.append_nil]
      refine settled_service (s := passOf s.queueing link) ?_
      simpa [passOf] using h.settled
    · intro item hitem
      rw [bookedStep, takenBy, List.append_nil] at hitem
      exact Nat.lt_succ_of_lt (h.past item hitem)
    · simpa [bookedStep, takenBy] using h.once
  | submit cls data len =>
    have hsettled := settled_submit h.settled cls (data, s.queueing.now) s.queueing.out.v hop
    have hpast : ∀ item ∈ s.taken, item.data.2 < s.queueing.now + 1 :=
      fun item hitem => Nat.lt_succ_of_lt (h.past item hitem)
    by_cases hok : (submit cls (data, s.queueing.now) len s.queueing.out.queue
        s.queueing.out.v).1 = .ok
    · rw [if_pos hok] at hsettled
      simp only [bookedStep, takenBy, if_pos hok]
      refine ⟨hsettled, ?_, ?_⟩
      · intro item hitem
        rcases List.mem_append.mp hitem with hitem | hitem
        · exact hpast item hitem
        · rw [List.mem_singleton.mp hitem]
          exact Nat.lt_succ_self _
      · refine List.nodup_append.mpr ⟨h.once, List.nodup_singleton _, ?_⟩
        intro item hitem other hother heq
        rw [List.mem_singleton.mp hother] at heq
        have hlt := h.past item hitem
        rw [heq] at hlt
        exact absurd hlt (Nat.lt_irrefl _)
    · rw [if_neg hok] at hsettled
      simp only [bookedStep, takenBy, if_neg hok, List.append_nil]
      exact ⟨hsettled, hpast, h.once⟩

/-- At any time what has been accepted is sent or waits, once, and the counters agree; a submission
is refused as busy only when sixteen items wait; and a service call comes to an end. -/
theorem submissions_partitioned {ops : List (OutboundOp β)} (h : ∀ op ∈ ops, Small op) :
    let s := run bookedStep {} ops
    let q := s.queueing.out.queue
    erase s.queueing.out = run outboundStep {} ops ∧
    s.taken.Nodup ∧ s.taken.Perm (delivered s.queueing.out.sends ++ q.queued) ∧
    q.submitted = q.sent + q.pending ∧ q.sent = UInt32.ofNat (delivered s.queueing.out.sends).length ∧
    q.failed = 0 ∧ q.pending.toNat = used q ∧ used q ≤ 16 ∧
    (∀ cls data len, (submit cls data len q s.queueing.out.v).1 = .errBusy →
      ∀ i < 16, ∃ item, q.slot i = some item ∧ item ∉ delivered s.queueing.out.sends) ∧
    ∀ link (mem : β → Buf) answers,
      Stops (fun b => mem b.1) answers 17 (passOf s.queueing link) := by
  intro s q
  have hbook : Book s := @run_invariant _ _ bookedStep (fun _ op => Small op) Book
    (fun _ _ hs hop => book_step hs hop) {} ops book_init (along_of_forall h)
  have hsettled := hbook.settled
  have hapart : (delivered s.queueing.out.sends ++ q.queued).Nodup :=
    (hsettled.split.nodup_iff).mp hbook.once
  have hused := used_le q
  have hdepth : depth = 16 := rfl
  refine ⟨?_, hbook.once, hsettled.split, hsettled.submitted, hsettled.sent, hsettled.failed, ?_,
    hused, ?_, ?_⟩
  · rw [← erase_run, ← queueing_run {}]
  · rw [hsettled.pending, length_queued]
    exact UInt32.toNat_ofNat_of_lt' (show used q < 2 ^ 32 by omega)
  · intro cls data len hbusy i hi
    obtain ⟨item, hitem⟩ := full_of_busy hbusy (hdepth ▸ hi)
    refine ⟨item, hitem, ?_⟩
    intro hsent
    refine (List.nodup_append.mp hapart).2.2 item hsent item ?_ rfl
    exact List.mem_filterMap.mpr ⟨i, List.mem_range.mpr hi, hitem⟩
  · intro link mem answers
    exact stops_of_used (Nat.lt_succ_of_le (used_le _))

def submitEvent : OutboundOp Unit := .submit .event () 8

theorem submissions_partitioned_refused :
    let s := run bookedStep {} [submitEvent, submitEvent, drainOne, drainAll]
    let q := s.queueing.out.queue
    erase s.queueing.out = run outboundStep {} [submitEvent, submitEvent, drainOne, drainAll] ∧
    s.taken.Nodup ∧ s.taken.Perm (delivered s.queueing.out.sends ++ q.queued) ∧
    q.submitted = q.sent + q.pending ∧ q.sent = UInt32.ofNat (delivered s.queueing.out.sends).length ∧
    q.failed = 0 ∧ q.pending.toNat = used q ∧ used q ≤ 16 ∧
    (∀ cls data len, (submit cls data len q s.queueing.out.v).1 = .errBusy →
      ∀ i < 16, ∃ item, q.slot i = some item ∧ item ∉ delivered s.queueing.out.sends) ∧
    ∀ link (mem : Unit → Buf) answers,
      Stops (fun b => mem b.1) answers 17 (passOf s.queueing link) := by
  refine submissions_partitioned ?_
  intro op hop
  rcases hop with - | ⟨_, - | ⟨_, - | ⟨_, - | ⟨_, hop⟩⟩⟩⟩
  · show (8 : UInt32).toNat < 2 ^ 31
    decide
  · show (8 : UInt32).toNat < 2 ^ 31
    decide
  · trivial
  · trivial
  · cases hop

end QiranFirmware.Output
