import QiranFirmware.Comm.SpwGiveUp
import QiranFirmware.Machine.Trace

/-! # The serial link by its history

The functions of `comm_spw_link.c` with the calls that they make of the device, and their reports, written
down as they are made. The state of the link is told from what the device has answered, and so is every
counter. The device is only asked for what the state allows, and every failure is reported once, behind it.
-/
namespace QiranFirmware

open Machine

/-- A call of the device with its answer, or what the module decides by itself. The status is read while the
link is starting (`polled`) and while it runs (`watched`). -/
inductive SpwEvent
  | attached (on : Bool)
  | started (answer : Status)
  | polled (answer : Status) (running : Bool) (word : UInt32)
  | watched (answer : Status) (running : Bool) (word : UInt32)
  | expired (word : UInt32)
  | gaveUp
  | sent (answer : Status)
  | received (length : UInt32)
  | fault (datum : UInt32)
  | reported (detail : UInt32)
  deriving DecidableEq, Repr

structure SpwHistory where
  link : SpwLink := {}
  ccsds : Ccsds := {}
  v : Svc := {}
  trace : List SpwEvent := []

namespace SpwHistory

open SpwLink

def note (e : SpwEvent) (s : SpwHistory) : SpwHistory := { s with trace := s.trace ++ [e] }

def report (detail : UInt32) (s : SpwHistory) : SpwHistory :=
  { s with v := s.v.report .spwLink detail, trace := s.trace ++ [.reported detail] }

@[simp] theorem note_link (e : SpwEvent) (s : SpwHistory) : (s.note e).link = s.link := rfl
@[simp] theorem note_trace (e : SpwEvent) (s : SpwHistory) : (s.note e).trace = s.trace ++ [e] := rfl
@[simp] theorem report_link (detail : UInt32) (s : SpwHistory) : (s.report detail).link = s.link := rfl
@[simp] theorem report_trace (detail : UInt32) (s : SpwHistory) :
    (s.report detail).trace = s.trace ++ [.reported detail] := rfl

def setOps (attach : Bool) (s : SpwHistory) : SpwHistory :=
  { s with link := s.link.setOps attach }.note (.attached attach)

def send (answer : Status) (len : UInt32) (s : SpwHistory) : Status × SpwHistory :=
  if len = 0 then (.errParam, s)
  else if s.link.state ≠ .run then (.errState, s)
  else
    let s := s.note (.sent answer)
    if answer = .ok then (answer, { s with link := { s.link with sent := s.link.sent + 1 } })
    else (answer, { s with link := { s.link with errors := s.link.errors + 1 } }.report answer.code)

def fault (s : SpwHistory) (datum : UInt32) : SpwHistory :=
  { s.note (.fault datum) with
    link := { s.link with errors := s.link.errors + 1, errorWord := datum } }.report datum

def serviceInterrupts (events : List UInt32) (s : SpwHistory) : SpwHistory :=
  if !s.link.opsSet then s else events.foldl fault s

def deliverReceived : List SpwReceived → SpwHistory → SpwHistory
  | [], s => s.note (.received 0)
  | r :: rest, s =>
    let s := s.note (.received r.length)
    let s :=
      if r.length ≠ 0 then
        let (_, ccsds, v) := s.ccsds.receive r.packet r.length r.run s.v
        { s with ccsds, v, link := { s.link with received := s.link.received + 1 } }
      else s
    if r.length = rxBytes then deliverReceived rest s else s

def giveUp (s : SpwHistory) : SpwHistory := { s.note .gaveUp with link := { s.link with state := .failed } }

def bringUp (config : ConfigParam → Int32) (ans : SpwAnswers) (s : SpwHistory) : SpwHistory :=
  let s := { s with link := { s.link with attempts := s.link.attempts + 1 } }.note (.started ans.start)
  if ans.start ≠ .ok then
    let s := { s.report 0 with link := { s.link with errors := s.link.errors + 1 } }
    if s.v.retriesExhausted .spwLink then s.giveUp else s
  else
    { s with
      v := s.v.collectTime
      link := { s.link with
        startBudget := .arm s.v.nowMs (config .spwStartTimeoutMs).toUInt32
        state := .starting } }

def await (ans : SpwAnswers) (s : SpwHistory) : SpwHistory :=
  let s := { s with link := { s.link with statusWord := ans.statusWord } }.note
    (.polled ans.status ans.running ans.statusWord)
  if ans.status ≠ .ok then
    { s.report 0 with link := { s.link with errors := s.link.errors + 1, state := .down } }
  else if ans.running then
    { s with
      v := s.v.logEvent 0 ans.statusWord
      link := { s.link with state := .run, startBudget := s.link.startBudget.disarm } }
  else
    let (expired, v) := Svc.timeoutExpired s.link.startBudget s.v
    let s := { s with v }
    if expired then
      let s := { s.note (.expired ans.statusWord) with
        link := { s.link with errorWord := ans.statusWord, state := .down } }.report ans.statusWord
      if s.v.retriesExhausted .spwLink then s.giveUp else s
    else s

def watch (ans : SpwAnswers) (s : SpwHistory) : SpwHistory :=
  let s := { s with link := { s.link with statusWord := ans.statusWord } }.note
    (.watched ans.status ans.running ans.statusWord)
  if ans.status ≠ .ok ∨ ans.running = false then
    { s with
      link := { s.link with
        disconnects := s.link.disconnects + 1
        errorWord := ans.statusWord
        state := .down } }.report ans.statusWord
  else deliverReceived ans.received s

def service (config : ConfigParam → Int32) (ans : SpwAnswers) (s : SpwHistory) : SpwHistory :=
  if !s.link.opsSet then s
  else
    match s.link.state with
    | .down => s.bringUp config ans
    | .starting => s.await ans
    | .run => s.watch ans
    | .failed => s

def step (s : SpwHistory) : LinkOp → SpwHistory
  | .setOps attach => s.setOps attach
  | .service config ans => s.service config ans
  | .send answer len => (s.send answer len).2
  | .interrupts events => s.serviceInterrupts events
  | .fault op => { s with v := Svc.faultStep s.v op }

theorem send_eq (answer : Status) (len : UInt32) (s : SpwHistory) :
    SpwLink.send answer len s.link s.v =
      ((s.send answer len).1, (s.send answer len).2.link, (s.send answer len).2.v) ∧
        (s.send answer len).2.ccsds = s.ccsds := by
  unfold SpwLink.send send
  split
  · exact ⟨rfl, rfl⟩
  split
  · exact ⟨rfl, rfl⟩
  dsimp only
  split
  · exact ⟨rfl, rfl⟩
  · exact ⟨rfl, rfl⟩

theorem serviceInterrupts_eq (events : List UInt32) (s : SpwHistory) :
    SpwLink.serviceInterrupts events s.link s.v =
      ((s.serviceInterrupts events).link, (s.serviceInterrupts events).v) ∧
        (s.serviceInterrupts events).ccsds = s.ccsds := by
  unfold SpwLink.serviceInterrupts serviceInterrupts
  split
  · exact ⟨rfl, rfl⟩
  clear * -
  induction events generalizing s with
  | nil => exact ⟨rfl, rfl⟩
  | cons datum events ih => exact ih (s.fault datum)

theorem deliverReceived_eq (rs : List SpwReceived) (s : SpwHistory) :
    SpwLink.deliverReceived rs s.link s.ccsds s.v =
      ((deliverReceived rs s).link, (deliverReceived rs s).ccsds, (deliverReceived rs s).v) := by
  induction rs generalizing s with
  | nil => rfl
  | cons r rs ih =>
    unfold SpwLink.deliverReceived deliverReceived
    dsimp only
    by_cases hnone : r.length = 0
    · have hnot : ¬ r.length = rxBytes := by
        rw [hnone]
        decide
      simp only [hnone, ne_eq, not_true_eq_false, ↓reduceIte]
      rfl
    · simp only [ne_eq, hnone, not_false_eq_true, ↓reduceIte]
      split
      · exact ih ⟨_, _, _, s.trace ++ [.received r.length]⟩
      · rfl

/-- But for the history, the functions are those of the link. -/
theorem service_eq (config : ConfigParam → Int32) (ans : SpwAnswers) (s : SpwHistory) :
    SpwLink.service config ans s.link s.ccsds s.v =
      ((s.service config ans).link, (s.service config ans).ccsds, (s.service config ans).v) := by
  unfold SpwLink.service service
  split
  · rfl
  cases hstate : s.link.state with
  | failed => rfl
  | down =>
    simp only [bringUp, report, note, hstate]
    by_cases hstart : ans.start ≠ .ok
    · simp only [if_pos hstart]
      by_cases hspent : (s.v.report .spwLink 0).retriesExhausted .spwLink = true
      · simp only [hspent, ↓reduceIte]
        rfl
      · simp only [hspent, ↓reduceIte, Bool.false_eq_true]
    · simp only [if_neg hstart]
  | starting =>
    simp only [await, report, note, hstate]
    by_cases hstatus : ans.status ≠ .ok
    · simp only [if_pos hstatus]
    simp only [if_neg hstatus]
    by_cases hrunning : ans.running = true
    · simp only [if_pos hrunning]
    simp only [if_neg hrunning]
    obtain ⟨expired, v, hexpired⟩ : ∃ expired v, Svc.timeoutExpired s.link.startBudget s.v = (expired, v) :=
      ⟨_, _, rfl⟩
    simp only [hexpired]
    cases expired with
    | false => rfl
    | true =>
      by_cases hspent : (v.report .spwLink ans.statusWord).retriesExhausted .spwLink = true
      · simp only [hspent, ↓reduceIte]
        rfl
      · simp only [hspent, ↓reduceIte, Bool.false_eq_true]
  | run =>
    simp only [watch, note, hstate]
    by_cases hlost : ans.status ≠ .ok ∨ ans.running = false
    · simp only [if_pos hlost]
      rfl
    · simp only [if_neg hlost]
      exact deliverReceived_eq ans.received ⟨_, _, _, _⟩

end SpwHistory

namespace SpwEvent

@[simp] def failing : SpwEvent → Option UInt32
  | started answer => if answer = .ok then none else some 0
  | polled answer _ _ => if answer = .ok then none else some 0
  | watched answer running word => if answer ≠ .ok ∨ running = false then some word else none
  | expired word => some word
  | sent answer => if answer = .ok then none else some answer.code
  | fault datum => some datum
  | attached _ | gaveUp | received _ | reported _ => none

@[simp] def isReported : SpwEvent → Bool
  | reported _ => true
  | _ => false

def isDetached : SpwEvent → Bool
  | attached on => !on
  | _ => false

@[simp] def isStarted : SpwEvent → Bool
  | started _ => true
  | _ => false

/-- What the link counts as an error: not a link that was lost, nor one that did not come up in time. -/
@[simp] def isError : SpwEvent → Bool
  | started answer | polled answer _ _ | sent answer => answer ≠ .ok
  | fault _ => true
  | attached _ | watched .. | expired _ | gaveUp | received _ | reported _ => false

@[simp] def isLost : SpwEvent → Bool
  | watched answer running _ => answer ≠ .ok ∨ running = false
  | _ => false

@[simp] def isSent : SpwEvent → Bool
  | sent answer => answer = .ok
  | _ => false

@[simp] def isPacket : SpwEvent → Bool
  | received length => length ≠ 0
  | _ => false

@[simp] def next (state : SpwState) : SpwEvent → SpwState
  | attached _ => .down
  | started answer => if answer = .ok then .starting else state
  | polled answer running _ => if answer ≠ .ok then .down else if running then .run else state
  | watched answer running _ => if answer ≠ .ok ∨ running = false then .down else state
  | expired _ => .down
  | gaveUp => .failed
  | sent _ | received _ | fault _ | reported _ => state

def phase (t : List SpwEvent) : SpwState := t.foldl next .down

def attachedIn (t : List SpwEvent) : Bool :=
  t.foldl (fun b e => match e with
    | attached on => on
    | _ => b) false

@[simp] def statusWord (last : UInt32) : SpwEvent → UInt32
  | polled _ _ word | watched _ _ word => word
  | attached on => if on then last else 0
  | started _ | expired _ | gaveUp | sent _ | received _ | fault _ | reported _ => last

@[simp] def errorWord (last : UInt32) : SpwEvent → UInt32
  | watched answer running word => if answer ≠ .ok ∨ running = false then word else last
  | expired word | fault word => word
  | attached on => if on then last else 0
  | started _ | polled .. | gaveUp | sent _ | received _ | reported _ => last

def Permitted (before : List SpwEvent) : SpwEvent → Prop
  | attached _ => True
  | started _ => attachedIn before = true ∧ phase before = .down
  | polled .. => phase before = .starting
  | watched .. | sent _ | received _ => phase before = .run
  | expired word => ∃ b, before = b ++ [polled .ok false word]
  | gaveUp => ∃ b e detail, before = b ++ [e] ++ [reported detail] ∧
      ((∃ answer, e = started answer) ∨ e = expired detail)
  | fault _ => attachedIn before = true
  | reported detail => ∃ b e, before = b ++ [e] ∧ e.failing = some detail

end SpwEvent

open SpwEvent

/-- The link is as its history says, and everything in it was permitted when it happened. -/
structure Ledger (s : SpwHistory) : Prop where
  opsSet : s.link.opsSet = attachedIn s.trace
  state : s.link.state = phase s.trace
  attached : s.link.state ≠ .down → s.link.opsSet = true
  attempts : s.link.attempts = UInt32.ofNat (pending isStarted isDetached s.trace)
  errors : s.link.errors = UInt32.ofNat (pending isError isDetached s.trace)
  disconnects : s.link.disconnects = UInt32.ofNat (pending isLost isDetached s.trace)
  sent : s.link.sent = UInt32.ofNat (pending isSent isDetached s.trace)
  received : s.link.received = UInt32.ofNat (pending isPacket isDetached s.trace)
  statusWord : s.link.statusWord = s.trace.foldl SpwEvent.statusWord 0
  errorWord : s.link.errorWord = s.trace.foldl SpwEvent.errorWord 0
  reported : s.trace.countP isReported = s.trace.countP fun e => e.failing.isSome
  permitted : EachAfter Permitted s.trace

namespace Ledger

theorem init : Ledger {} where
  opsSet := rfl
  state := rfl
  attached h := absurd rfl h
  attempts := rfl
  errors := rfl
  disconnects := rfl
  sent := rfl
  received := rfl
  statusWord := rfl
  errorWord := rfl
  reported := rfl
  permitted := eachAfter_nil _

theorem phase_append (t es : List SpwEvent) : phase (t ++ es) = es.foldl next (phase t) :=
  List.foldl_append

structure Accounts (es : List SpwEvent) (l l' : SpwLink) : Prop where
  opsSet : l'.opsSet = l.opsSet
  state : l'.state = es.foldl next l.state
  attached : l.opsSet = true
  attempts : l'.attempts = l.attempts + UInt32.ofNat (es.countP isStarted)
  errors : l'.errors = l.errors + UInt32.ofNat (es.countP isError)
  disconnects : l'.disconnects = l.disconnects + UInt32.ofNat (es.countP isLost)
  sent : l'.sent = l.sent + UInt32.ofNat (es.countP isSent)
  received : l'.received = l.received + UInt32.ofNat (es.countP isPacket)
  statusWord : l'.statusWord = es.foldl SpwEvent.statusWord l.statusWord
  errorWord : l'.errorWord = es.foldl SpwEvent.errorWord l.errorWord
  reported : es.countP isReported = es.countP fun e => e.failing.isSome
  attaches : ∀ e ∈ es, ∀ on, e ≠ .attached on

theorem attachedIn_append {t es : List SpwEvent} (h : ∀ e ∈ es, ∀ on, e ≠ .attached on) :
    attachedIn (t ++ es) = attachedIn t := by
  induction es using List.reverseRecOn with
  | nil => rw [List.append_nil]
  | append_singleton es e ih =>
    rw [← List.append_assoc, ← ih fun x hx => h x (List.mem_append_left _ hx), attachedIn,
      List.foldl_append]
    cases e with
    | attached on => exact absurd rfl (h _ (by simp) on)
    | started | polled | watched | expired | gaveUp | sent | received | fault | reported => rfl

theorem isDetached_of_ne {e : SpwEvent} (h : ∀ on, e ≠ .attached on) : isDetached e = false := by
  cases e with
  | attached on => exact absurd rfl (h on)
  | started | polled | watched | expired | gaveUp | sent | received | fault | reported => rfl

theorem extend {s : SpwHistory} (h : Ledger s) {es : List SpwEvent} {l : SpwLink} (ha : Accounts es s.link l)
    (hp : EachAfter Permitted (s.trace ++ es)) (ccsds : Ccsds) (v : Svc) :
    Ledger ⟨l, ccsds, v, s.trace ++ es⟩ := by
  have hpending (p : SpwEvent → Bool) :
      pending p isDetached (s.trace ++ es) = pending p isDetached s.trace + es.countP p :=
    pending_append_of_forall_not fun e he => isDetached_of_ne (ha.attaches e he)
  refine ⟨?_, ?_, ?_, ?_, ?_, ?_, ?_, ?_, ?_, ?_, ?_, hp⟩
  · rw [attachedIn_append ha.attaches]
    exact ha.opsSet.trans h.opsSet
  · rw [phase_append, ← h.state]
    exact ha.state
  · intro _
    exact ha.opsSet.trans ha.attached
  · rw [hpending, UInt32.ofNat_add, ← h.attempts]
    exact ha.attempts
  · rw [hpending, UInt32.ofNat_add, ← h.errors]
    exact ha.errors
  · rw [hpending, UInt32.ofNat_add, ← h.disconnects]
    exact ha.disconnects
  · rw [hpending, UInt32.ofNat_add, ← h.sent]
    exact ha.sent
  · rw [hpending, UInt32.ofNat_add, ← h.received]
    exact ha.received
  · rw [List.foldl_append, ← h.statusWord]
    exact ha.statusWord
  · rw [List.foldl_append, ← h.errorWord]
    exact ha.errorWord
  · rw [List.countP_append, List.countP_append, h.reported, ha.reported]

theorem setOps {s : SpwHistory} (h : Ledger s) (attach : Bool) : Ledger (s.setOps attach) := by
  have hphase : phase (s.trace ++ [.attached attach]) = .down := phase_append ..
  have hattached : attachedIn (s.trace ++ [.attached attach]) = attach := by
    rw [attachedIn, List.foldl_append]
    rfl
  have hcount {p : SpwEvent → Bool} {n : UInt32} (hn : n = UInt32.ofNat (pending p isDetached s.trace))
      (hp : p (.attached attach) = false) :
      (if attach then n else 0) = UInt32.ofNat (pending p isDetached (s.trace ++ [.attached attach])) := by
    rw [pending_concat, hp, hn]
    cases attach <;> rfl
  have hword {f : UInt32 → SpwEvent → UInt32} {w : UInt32} (hw : w = s.trace.foldl f 0)
      (hf : ∀ x, f x (SpwEvent.attached attach) = if attach then x else 0) :
      (if attach then w else 0) = (s.trace ++ [SpwEvent.attached attach]).foldl f 0 := by
    rw [List.foldl_append, ← hw]
    exact (hf w).symm
  have hreported : (s.trace ++ [SpwEvent.attached attach]).countP isReported =
      (s.trace ++ [SpwEvent.attached attach]).countP fun e => e.failing.isSome := by
    rw [List.countP_append, List.countP_append, h.reported]
    rfl
  have hpermitted : EachAfter Permitted (s.trace ++ [.attached attach]) :=
    eachAfter_concat.mpr ⟨h.permitted, trivial⟩
  cases attach with
  | true =>
    exact ⟨hattached.symm, hphase.symm, fun hnot => absurd rfl hnot, hcount h.attempts rfl,
      hcount h.errors rfl, hcount h.disconnects rfl, hcount h.sent rfl, hcount h.received rfl,
      hword h.statusWord fun _ => rfl, hword h.errorWord fun _ => rfl, hreported, hpermitted⟩
  | false =>
    exact ⟨hattached.symm, hphase.symm, fun hnot => absurd rfl hnot, hcount h.attempts rfl,
      hcount h.errors rfl, hcount h.disconnects rfl, hcount h.sent rfl, hcount h.received rfl,
      hword h.statusWord fun _ => rfl, hword h.errorWord fun _ => rfl, hreported, hpermitted⟩

variable {s : SpwHistory}

/-- An event that the link may have, as the next of its history. -/
theorem one (h : Ledger s) {e : SpwEvent} {l : SpwLink} (ha : Accounts [e] s.link l)
    (he : Permitted s.trace e) (ccsds : Ccsds) (v : Svc) : Ledger ⟨l, ccsds, v, s.trace ++ [e]⟩ :=
  h.extend ha (eachAfter_concat.mpr ⟨h.permitted, he⟩) ccsds v

/-- A failure, with its report. -/
theorem failure (h : Ledger s) {e : SpwEvent} {detail : UInt32} {l : SpwLink}
    (ha : Accounts [e, .reported detail] s.link l) (he : Permitted s.trace e)
    (hfailing : e.failing = some detail) (ccsds : Ccsds) (v : Svc) :
    Ledger ⟨l, ccsds, v, s.trace ++ [e] ++ [.reported detail]⟩ := by
  rw [List.append_assoc]
  refine h.extend ha ?_ ccsds v
  have hone : EachAfter Permitted (s.trace ++ [e]) := eachAfter_concat.mpr ⟨h.permitted, he⟩
  rw [List.append_cons s.trace e]
  exact eachAfter_concat.mpr ⟨hone, s.trace, e, rfl, hfailing⟩

theorem send (h : Ledger s) (answer : Status) (len : UInt32) : Ledger (s.send answer len).2 := by
  unfold SpwHistory.send
  split
  · exact h
  split
  · exact h
  rename_i hrun
  have hstate : s.link.state = .run := not_not.mp hrun
  have hattached : s.link.opsSet = true := h.attached (by rw [hstate]; decide)
  have he : Permitted s.trace (.sent answer) := h.state.symm.trans hstate
  dsimp only
  split
  · rename_i hok
    refine h.one ?_ he _ _
    constructor <;> simp [hok, hattached]
  · rename_i hbad
    refine h.failure ?_ he (if_neg hbad) _ _
    constructor <;> simp [hbad, hattached]

theorem fault (h : Ledger s) (hattached : s.link.opsSet = true) (datum : UInt32) :
    Ledger (s.fault datum) := by
  have he : Permitted s.trace (.fault datum) := h.opsSet.symm.trans hattached
  refine h.failure ?_ he rfl _ _
  constructor <;> simp [hattached, List.countP_cons]

theorem serviceInterrupts (h : Ledger s) (events : List UInt32) : Ledger (s.serviceInterrupts events) := by
  unfold SpwHistory.serviceInterrupts
  split
  · exact h
  rename_i hattached
  rw [Bool.not_eq_true', Bool.not_eq_false] at hattached
  induction events generalizing s with
  | nil => exact h
  | cons datum events ih => exact ih (h.fault hattached datum) hattached

theorem receive (h : Ledger s) (hrun : s.link.state = .run) (length : UInt32) {l : SpwLink}
    (hl : l = if length ≠ 0 then { s.link with received := s.link.received + 1 } else s.link) (ccsds : Ccsds)
    (v : Svc) : Ledger ⟨l, ccsds, v, s.trace ++ [.received length]⟩ := by
  have hattached : s.link.opsSet = true := h.attached (by rw [hrun]; decide)
  have he : Permitted s.trace (.received length) := h.state.symm.trans hrun
  refine h.one ?_ he ccsds v
  rw [hl]
  by_cases hnone : length = 0
  · constructor <;> simp [hattached, hnone]
  · constructor <;> simp [hattached, hnone]

theorem deliverReceived (h : Ledger s) (hrun : s.link.state = .run) (rs : List SpwReceived) :
    Ledger (SpwHistory.deliverReceived rs s) := by
  induction rs generalizing s with
  | nil => exact h.receive hrun 0 rfl _ _
  | cons r rs ih =>
    unfold SpwHistory.deliverReceived
    dsimp only
    by_cases hnone : r.length = 0
    · have hnot : ¬ r.length = SpwLink.rxBytes := by
        rw [hnone]
        decide
      simp only [hnone, ne_eq, not_true_eq_false, ↓reduceIte]
      exact h.receive hrun 0 rfl _ _
    · simp only [ne_eq, hnone, not_false_eq_true, ↓reduceIte]
      have hnext := h.receive hrun r.length (if_pos hnone).symm
        (s.ccsds.receive r.packet r.length r.run s.v).2.1 (s.ccsds.receive r.packet r.length r.run s.v).2.2
      split
      · exact ih hnext hrun
      · exact hnext

theorem giveUp (h : Ledger s) (hattached : s.link.opsSet = true) (he : Permitted s.trace .gaveUp) :
    Ledger s.giveUp := by
  refine h.one ?_ he _ _
  constructor <;> simp [hattached]

theorem bringUp (h : Ledger s) (hattached : s.link.opsSet = true) (hdown : s.link.state = .down)
    (config : ConfigParam → Int32) (ans : SpwAnswers) : Ledger (s.bringUp config ans) := by
  have he : Permitted s.trace (.started ans.start) :=
    ⟨h.opsSet.symm.trans hattached, h.state.symm.trans hdown⟩
  unfold SpwHistory.bringUp
  dsimp only
  by_cases hstart : ans.start = .ok
  · rw [if_neg (not_not.mpr hstart)]
    refine h.one ?_ he _ _
    constructor <;> simp [hstart, hattached]
  · rw [if_pos hstart]
    obtain ⟨l, hl⟩ : ∃ l, l = { s.link with attempts := s.link.attempts + 1, errors := s.link.errors + 1 } :=
      ⟨_, rfl⟩
    have ha : Accounts [.started ans.start, .reported 0] s.link l := by
      rw [hl]
      constructor <;> simp [hstart, hattached, List.countP_cons]
    have hfailed := h.failure ha he (if_neg hstart) s.ccsds (s.v.report .spwLink 0)
    rw [hl] at hfailed
    split
    · exact hfailed.giveUp hattached ⟨s.trace, .started ans.start, 0, rfl, .inl ⟨_, rfl⟩⟩
    · exact hfailed

theorem await (h : Ledger s) (hattached : s.link.opsSet = true) (hstarting : s.link.state = .starting)
    (ans : SpwAnswers) : Ledger (s.await ans) := by
  have he : Permitted s.trace (.polled ans.status ans.running ans.statusWord) :=
    h.state.symm.trans hstarting
  unfold SpwHistory.await
  dsimp only
  by_cases hstatus : ans.status = .ok
  swap
  · rw [if_pos hstatus]
    refine h.failure ?_ he (if_neg hstatus) _ _
    constructor <;> simp [hstatus, hattached]
  rw [if_neg (not_not.mpr hstatus)]
  cases hrunning : ans.running with
  | true =>
    rw [hrunning] at he
    rw [if_pos rfl]
    refine h.one ?_ he _ _
    constructor <;> simp [hstatus, hattached]
  | false =>
    rw [if_neg Bool.false_ne_true]
    rw [hstatus, hrunning] at he
    obtain ⟨expired, v, hexpired⟩ : ∃ expired v, Svc.timeoutExpired s.link.startBudget s.v = (expired, v) :=
      ⟨_, _, rfl⟩
    have ha : Accounts [.polled .ok false ans.statusWord] s.link
        { s.link with statusWord := ans.statusWord } := by
      constructor <;> simp [hattached]
    have hpolled := h.one ha he s.ccsds v
    simp only [SpwHistory.note, SpwHistory.report, hexpired, hstatus]
    cases expired with
    | false => exact hpolled
    | true =>
      obtain ⟨l, hl⟩ : ∃ l, l = { s.link with
          statusWord := ans.statusWord, errorWord := ans.statusWord, state := .down } := ⟨_, rfl⟩
      have hlost : Accounts [.expired ans.statusWord, .reported ans.statusWord]
          { s.link with statusWord := ans.statusWord } l := by
        rw [hl]
        constructor <;> simp [hattached]
      have hfailed := hpolled.failure hlost ⟨s.trace, rfl⟩ rfl s.ccsds (v.report .spwLink ans.statusWord)
      rw [hl] at hfailed
      simp only [↓reduceIte]
      split
      · exact hfailed.giveUp hattached ⟨_, .expired ans.statusWord, ans.statusWord, rfl, .inr rfl⟩
      · exact hfailed

theorem watch (h : Ledger s) (hattached : s.link.opsSet = true) (hrun : s.link.state = .run)
    (ans : SpwAnswers) : Ledger (s.watch ans) := by
  have he : Permitted s.trace (.watched ans.status ans.running ans.statusWord) :=
    h.state.symm.trans hrun
  unfold SpwHistory.watch
  dsimp only
  by_cases hlost : ans.status ≠ .ok ∨ ans.running = false
  · rw [if_pos hlost]
    refine h.failure ?_ he (if_pos hlost) _ _
    constructor <;> simp [hlost, hattached]
  · rw [if_neg hlost]
    have ha : Accounts [.watched ans.status ans.running ans.statusWord] s.link
        { s.link with statusWord := ans.statusWord } := by
      constructor <;> simp [hlost, hattached]
    exact (h.one ha he s.ccsds s.v).deliverReceived hrun ans.received

theorem service (h : Ledger s) (config : ConfigParam → Int32) (ans : SpwAnswers) :
    Ledger (s.service config ans) := by
  unfold SpwHistory.service
  split
  · exact h
  rename_i hattached
  rw [Bool.not_eq_true', Bool.not_eq_false] at hattached
  split
  · rename_i hdown
    exact h.bringUp hattached hdown config ans
  · rename_i hstarting
    exact h.await hattached hstarting ans
  · rename_i hrun
    exact h.watch hattached hrun ans
  · exact h

theorem step (h : Ledger s) (op : SpwLink.LinkOp) : Ledger (s.step op) := by
  cases op with
  | setOps attach => exact h.setOps attach
  | service config ans => exact h.service config ans
  | send answer len => exact h.send answer len
  | interrupts events => exact h.serviceInterrupts events
  | fault op => exact { h with }

end Ledger

namespace SpwHistory

theorem step_eq {s : SpwHistory} {w : SpwLink.Watch} (hlink : s.link = w.link) (hccsds : s.ccsds = w.ccsds)
    (hv : s.v = w.v) (op : SpwLink.LinkOp) :
    (s.step op).link = (SpwLink.linkStep w op).link ∧ (s.step op).ccsds = (SpwLink.linkStep w op).ccsds ∧
      (s.step op).v = (SpwLink.linkStep w op).v := by
  cases op with
  | setOps attach => exact ⟨congrArg (SpwLink.setOps attach) hlink, hccsds, hv⟩
  | service config ans =>
    simp only [SpwLink.linkStep, ← hlink, ← hccsds, ← hv, service_eq]
    exact ⟨rfl, rfl, rfl⟩
  | send answer len =>
    simp only [SpwLink.linkStep, ← hlink, ← hv, (send_eq answer len s).1]
    exact ⟨rfl, (send_eq answer len s).2.trans hccsds, rfl⟩
  | interrupts events =>
    simp only [SpwLink.linkStep, ← hlink, ← hv, (serviceInterrupts_eq events s).1]
    exact ⟨rfl, (serviceInterrupts_eq events s).2.trans hccsds, rfl⟩
  | fault op => exact ⟨hlink, hccsds, congrArg (Svc.faultStep · op) hv⟩

/-- In every run the link and the counters are what the history of the calls says they are, the device is
only asked for what the state of the link allows, and each failure is reported once, right behind it. The
history changes nothing in what the module does. -/
theorem ledger_of_run (ops : List SpwLink.LinkOp) :
    Ledger (run step {} ops) ∧ (run step {} ops).link = (run SpwLink.linkStep {} ops).link ∧
      (run step {} ops).ccsds = (run SpwLink.linkStep {} ops).ccsds ∧
      (run step {} ops).v = (run SpwLink.linkStep {} ops).v := by
  induction ops using List.reverseRecOn with
  | nil => exact ⟨.init, rfl, rfl, rfl⟩
  | append_singleton ops op ih =>
    obtain ⟨hledger, hlink, hccsds, hv⟩ := ih
    rw [run_append, run_append]
    exact ⟨hledger.step op, step_eq hlink hccsds hv op⟩

end SpwHistory

end QiranFirmware
