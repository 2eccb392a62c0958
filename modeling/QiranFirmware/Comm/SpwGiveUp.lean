import QiranFirmware.Comm.SpwLink
import QiranFirmware.Svc.FdirEscalation

/-! # When the link gives up

A run remembers how many bring-up attempts have begun, and how many have failed in a row, since
the link was attached or last ran. The code counts the reports of the class since it was cleared. The two
part where something else has been reported, or where the class has been cleared within the row.
-/
namespace QiranFirmware.SpwLink

open Machine Svc

def reports (v : Svc) : ℕ := since .spwLink v.trace

/-- The link, what it hands packets to, the fault service, and the attempts since the link was
attached or last ran. `strayed` says that the class has been reported, since it was last cleared, for
something else than the attempts in `fails`; `cleared`, that it has been cleared behind the first of them. -/
structure Watch where
  link : SpwLink := init
  ccsds : Ccsds := {}
  v : Svc := {}
  starts : ℕ := 0
  fails : ℕ := 0
  strayed : Bool := false
  cleared : Bool := false

inductive LinkOp
  | setOps (attach : Bool)
  | service (config : ConfigParam → Int32) (ans : SpwAnswers)
  | send (answer : Status) (len : UInt32)
  | interrupts (events : List UInt32)
  | fault (op : FaultOp)

def Starts (l : SpwLink) : Bool := l.opsSet && l.state == .down

/-- The device's answers fail the attempt: the start is refused, the status cannot be read while
starting, or the start budget has expired without the link running. -/
def Fails (ans : SpwAnswers) (l : SpwLink) (v : Svc) : Bool :=
  l.opsSet && match l.state with
    | .down => ans.start != .ok
    | .starting => ans.status != .ok || (!ans.running && l.startBudget.expired v.nowMs)
    | .run => false
    | .failed => false

def Unreadable (ans : SpwAnswers) (l : SpwLink) : Bool :=
  l.opsSet && l.state == .starting && ans.status != .ok

def Runs (ans : SpwAnswers) (l : SpwLink) : Bool :=
  l.opsSet && l.state == .starting && ans.status == .ok && ans.running

def Clears : FaultOp → Bool
  | .clear id => id == .spwLink
  | _ => false

/-- A failing attempt is reported once, and that report is its own. -/
def linkStep (s : Watch) : LinkOp → Watch
  | .setOps attach =>
    { s with
      link := setOps attach s.link
      starts := 0
      fails := 0
      strayed := reports s.v != 0
      cleared := false }
  | .service config ans =>
    let (link, ccsds, v) := service config ans s.link s.ccsds s.v
    let own := if Fails ans s.link s.v then 1 else 0
    { link, ccsds, v
      starts := if Runs ans s.link then 0 else if Starts s.link then s.starts + 1 else s.starts
      fails := if Runs ans s.link then 0 else if Fails ans s.link s.v then s.fails + 1 else s.fails
      strayed := if Runs ans s.link then reports v != 0 else s.strayed || reports s.v + own < reports v
      cleared := s.cleared && !Runs ans s.link }
  | .send answer len =>
    let (_, link, v) := send answer len s.link s.v
    { s with link, v, strayed := s.strayed || reports s.v < reports v }
  | .interrupts events =>
    let (link, v) := serviceInterrupts events s.link s.v
    { s with link, v, strayed := s.strayed || reports s.v < reports v }
  | .fault op =>
    let v := faultStep s.v op
    { s with
      v
      strayed := !Clears op && (s.strayed || reports s.v < reports v)
      cleared := s.cleared || Clears op && 0 < s.fails }

def limit : ℕ := (policy .spwLink).limit.toNat

/-- An attempt that fails before the limit fails by an unreadable status or finds nothing else reported;
the one that reaches the limit is told from its start or its budget, and the class has not been cleared
since the first of them failed. -/
def Undisturbed (s : Watch) : LinkOp → Prop
  | .service _ ans => Fails ans s.link s.v = true →
    (s.fails + 1 < limit → Unreadable ans s.link = true ∨ s.strayed = false) ∧
      (s.fails + 1 = limit →
        Unreadable ans s.link = false ∧ s.cleared = false ∧ reports s.v + 1 < 2 ^ 32)
  | _ => True

instance (s : Watch) : ∀ op, Decidable (Undisturbed s op)
  | .setOps _ => .isTrue trivial
  | .service _ _ => inferInstanceAs (Decidable (_ → _))
  | .send _ _ => .isTrue trivial
  | .interrupts _ => .isTrue trivial
  | .fault _ => .isTrue trivial

def Attempts (state : SpwState) (starts fails : ℕ) : Prop :=
  match state with
  | .down => starts = fails ∧ fails < limit
  | .starting => starts = fails + 1 ∧ fails < limit
  | .run => starts = 0 ∧ fails = 0
  | .failed => starts = fails ∧ fails = limit

theorem state_send (answer : Status) (len : UInt32) (l : SpwLink) (v : Svc) :
    (send answer len l v).2.1.state = l.state := by
  unfold send
  split
  · rfl
  split
  · rfl
  split <;> rfl

theorem state_serviceInterrupts (events : List UInt32) (l : SpwLink) (v : Svc) :
    (serviceInterrupts events l v).1.state = l.state := by
  have hfold (s : SpwLink × Svc) : (events.foldl (fun (l, v) datum =>
      ({ l with errors := l.errors + 1, errorWord := datum }, v.report .spwLink datum))
      s).1.state = s.1.state := by
    induction events generalizing s with
    | nil => rfl
    | cons datum events ih => exact ih _
  unfold serviceInterrupts
  split
  · rfl
  · exact hfold (l, v)

theorem state_deliverReceived (rs : List SpwReceived) (l : SpwLink) (p : Ccsds) (v : Svc) :
    (deliverReceived rs l p v).1.state = l.state := by
  induction rs generalizing l p v with
  | nil => rfl
  | cons r rs ih =>
    by_cases hlength : r.length = 0
    · simp [deliverReceived, hlength, rxBytes]
    · simp only [deliverReceived, ne_eq, hlength, not_false_eq_true, ↓reduceIte]
      split
      · exact ih ..
      · rfl

structure Noted (n : ℕ) (v w : Svc) : Prop where
  grown : reports w = reports v + n
  count : w.occurrences .spwLink = v.occurrences .spwLink + UInt32.ofNat n

namespace Noted
variable {n m : ℕ} {u v w : Svc}

theorem refl (v : Svc) : Noted 0 v v := ⟨rfl, (UInt32.add_zero _).symm⟩

theorem trans (h : Noted n u v) (k : Noted m v w) : Noted (n + m) u w where
  grown := by rw [k.grown, h.grown, Nat.add_assoc]
  count := by rw [k.count, h.count, UInt32.ofNat_add, UInt32.add_assoc]

theorem of_counted {new : List SvcCall} (h : Counted new v w)
    (hclear : ∀ x ∈ new, x.isClear .spwLink = false) :
    Noted (new.countP (SvcCall.isReport .spwLink)) v w where
  grown := by
    rw [reports, h.trace]
    exact pending_append_of_forall_not hclear
  count := h.count .spwLink

theorem report (detail : UInt32) (v : Svc) : Noted 1 v (v.report .spwLink detail) :=
  of_counted (reporting_report .spwLink detail v).counted (by simp [SvcCall.isClear])

/-- A call that says nothing of the class. -/
theorem other {new : List SvcCall} (h : Reporting new v w)
    (hother : ∀ x ∈ new, x.isReport .spwLink = false ∧ x.isClear .spwLink = false) : Noted 0 v w := by
  have hnone : new.countP (SvcCall.isReport .spwLink) = 0 :=
    List.countP_eq_zero.mpr fun x hx => by simp [(hother x hx).1]
  have hnoted := of_counted h.counted fun x hx => (hother x hx).2
  rwa [hnone] at hnoted

theorem logEvent (code : UInt16) (detail : UInt32) (v : Svc) : Noted 0 v (v.logEvent code detail) :=
  other (reporting_logEvent code detail v) (by simp [SvcCall.isReport, SvcCall.isClear])

theorem collectTime (v : Svc) : Noted 0 v v.collectTime :=
  other (reporting_collectTime v) (by simp)

theorem timeoutExpired (t : Timeout) (v : Svc) : Noted 0 v (Svc.timeoutExpired t v).2 := by
  unfold Svc.timeoutExpired
  dsimp only
  split
  · exact collectTime v
  · exact refl v

theorem reportAll (faults : List (FaultId × UInt32)) (v : Svc) : ∃ n, Noted n v (v.reportAll faults) := by
  refine ⟨_, of_counted (reporting_reportAll faults v).counted ?_⟩
  intro x hx
  obtain ⟨f, -, rfl⟩ := List.mem_map.mp hx
  rfl

theorem receive (packet : Buf) (len : UInt32) (r : ConsumerRun) (p : Ccsds) (v : Svc) :
    ∃ n, Noted n v (p.receive packet len r v).2.2 := by
  have hother (id : FaultId) (hid : id ≠ .spwLink) (detail : UInt32) (v : Svc) :
      Noted 0 v (v.report id detail) :=
    other (reporting_report id detail v) (by simpa [SvcCall.isReport, SvcCall.isClear] using hid)
  have hgap (gap : Bool) (detail : UInt32) :
      Noted 0 v (if gap then v.report .packetSequence detail else v) := by
    split
    · exact hother _ (by decide) detail v
    · exact refl v
  have hall {w : Svc} (hw : Noted 0 v w) : ∃ n, Noted n v (w.reportAll r.reports) := by
    obtain ⟨n, hreports⟩ := reportAll r.reports w
    exact ⟨0 + n, hw.trans hreports⟩
  unfold Ccsds.receive
  split
  · exact ⟨0, refl v⟩
  dsimp only
  split
  · exact ⟨0, hother _ (by decide) _ v⟩
  split
  · exact ⟨0, hother _ (by decide) _ v⟩
  split
  · exact ⟨0, hother _ (by decide) _ v⟩
  split
  · exact ⟨0, hgap _ _⟩
  · exact hall (hgap _ _)

theorem deliverReceived (rs : List SpwReceived) (l : SpwLink) (p : Ccsds) (v : Svc) :
    ∃ n, Noted n v (SpwLink.deliverReceived rs l p v).2.2 := by
  induction rs generalizing l p v with
  | nil => exact ⟨0, refl v⟩
  | cons r rs ih =>
    unfold SpwLink.deliverReceived
    by_cases hnone : r.length = 0
    · simp only [ne_eq, hnone, not_true_eq_false, ↓reduceIte]
      split
      · exact ih ..
      · exact ⟨0, refl v⟩
    · simp only [ne_eq, hnone, not_false_eq_true, ↓reduceIte]
      obtain ⟨n, hreceived⟩ := receive r.packet r.length r.run p v
      split
      · obtain ⟨m, hrest⟩ := ih { l with received := l.received + 1 }
          (p.receive r.packet r.length r.run v).2.1 (p.receive r.packet r.length r.run v).2.2
        exact ⟨n + m, hreceived.trans hrest⟩
      · exact ⟨n, hreceived⟩

/-- A service reports a failing attempt once. -/
theorem service (config : ConfigParam → Int32) (ans : SpwAnswers) (l : SpwLink) (p : Ccsds) (v : Svc) :
    ∃ n, Noted n v (SpwLink.service config ans l p v).2.2 ∧ (Fails ans l v = true → n = 1) := by
  cases hops : l.opsSet with
  | false => exact ⟨0, by simpa [SpwLink.service, hops] using refl v, by simp [Fails, hops]⟩
  | true =>
    unfold SpwLink.service
    simp only [hops, Bool.not_true, Bool.false_eq_true, ↓reduceIte]
    cases hstate : l.state with
    | down =>
      by_cases hstart : ans.start = .ok
      · simp only [hstart, ne_eq, not_true_eq_false, ↓reduceIte]
        exact ⟨0, collectTime v, by simp [Fails, hops, hstate, hstart]⟩
      · simp only [ne_eq, hstart, not_false_eq_true, ↓reduceIte]
        split
        · exact ⟨1, report 0 v, fun _ => rfl⟩
        · exact ⟨1, report 0 v, fun _ => rfl⟩
    | starting =>
      by_cases hstatus : ans.status = .ok
      · simp only [hstatus, ne_eq, not_true_eq_false, ↓reduceIte]
        cases hrunning : ans.running with
        | true => exact ⟨0, logEvent 0 ans.statusWord v, by simp [Fails, hops, hstate, hstatus, hrunning]⟩
        | false =>
          have htime := timeoutExpired l.startBudget v
          obtain ⟨expired, w, hexpired⟩ : ∃ expired w, Svc.timeoutExpired l.startBudget v = (expired, w) :=
            ⟨_, _, rfl⟩
          rw [hexpired] at htime
          simp only [hexpired, Bool.false_eq_true, ↓reduceIte]
          cases expired with
          | true => exact ⟨0 + 1, htime.trans (report ans.statusWord w), fun _ => rfl⟩
          | false =>
            have hleft : l.startBudget.expired v.nowMs = false := congrArg Prod.fst hexpired
            exact ⟨0, htime, by simp [Fails, hops, hstate, hstatus, hleft]⟩
      · simp only [ne_eq, hstatus, not_false_eq_true, ↓reduceIte]
        exact ⟨1, report 0 v, fun _ => rfl⟩
    | run =>
      have hrun : Fails ans l v = true → ∀ n, n = 1 := by simp [Fails, hstate]
      by_cases hdrop : ans.status ≠ .ok ∨ ans.running = false
      · simp only [if_pos hdrop]
        exact ⟨1, report ans.statusWord v, fun _ => rfl⟩
      · simp only [if_neg hdrop]
        obtain ⟨n, hreceived⟩ := deliverReceived ans.received _ p v
        exact ⟨n, hreceived, fun hfails => hrun hfails n⟩
    | failed => exact ⟨0, refl v, by simp [Fails, hstate]⟩

theorem send (answer : Status) (len : UInt32) (l : SpwLink) (v : Svc) :
    ∃ n, Noted n v (SpwLink.send answer len l v).2.2 := by
  unfold SpwLink.send
  split
  · exact ⟨0, refl v⟩
  split
  · exact ⟨0, refl v⟩
  split
  · exact ⟨0, refl v⟩
  · exact ⟨1, report answer.code v⟩

theorem serviceInterrupts (events : List UInt32) (l : SpwLink) (v : Svc) :
    ∃ n, Noted n v (SpwLink.serviceInterrupts events l v).2 := by
  unfold SpwLink.serviceInterrupts
  split
  · exact ⟨0, refl v⟩
  clear * -
  induction events generalizing l v with
  | nil => exact ⟨0, refl v⟩
  | cons datum events ih =>
    obtain ⟨n, hrest⟩ := ih { l with errors := l.errors + 1, errorWord := datum } (v.report .spwLink datum)
    exact ⟨1 + n, (report datum v).trans hrest⟩

theorem faultStep {op : FaultOp} (h : Clears op = false) (v : Svc) : ∃ n, Noted n v (Svc.faultStep v op) := by
  cases op with
  | report id detail =>
    exact ⟨_, of_counted (reporting_report id detail v).counted (by simp [SvcCall.isClear])⟩
  | clear id =>
    have hne : id ≠ .spwLink := ne_of_beq_false h
    refine ⟨0, ?_, ?_⟩
    · simp [Svc.faultStep, reports, Svc.clear, since, SvcCall.isClear, SvcCall.isReport, hne]
    · rw [Svc.faultStep, occurrences_clear, if_neg hne.symm]
      exact (UInt32.add_zero _).symm
  | collect c =>
    obtain ⟨new, hnew, hall⟩ := platformReporting_collect c v
    refine ⟨_, of_counted hnew.counted ?_⟩
    intro x hx
    obtain ⟨id, d, rfl, -⟩ := hall x hx
    rfl
  | service up id =>
    by_cases hnew : v.unserviced id = 0
    · rw [Svc.faultStep, serviceClass_of_eq hnew]
      exact ⟨0, refl v⟩
    · exact ⟨_, of_counted (serviceClass_of_ne up hnew).counted fun _ hx => not_isClear_of_mem_serviceCalls hx⟩
  | tick => exact ⟨0, other (reporting_tick v) (by simp)⟩

end Noted

theorem exhausted_report (v : Svc) (detail : UInt32) :
    (v.report .spwLink detail).retriesExhausted .spwLink = true ↔
      (policy .spwLink).limit.toUInt32 ≤ v.occurrences .spwLink + 1 := by
  have hcount := (reporting_report .spwLink detail v).count .spwLink
  rw [retriesExhausted_iff, hcount]
  simp [policy, SvcCall.isReport]

/-- What one service does to the state, in terms of the answers and of the count it finds. -/
theorem state_service (config : ConfigParam → Int32) (ans : SpwAnswers) (l : SpwLink) (p : Ccsds)
    (v : Svc) : (service config ans l p v).1.state =
      if l.opsSet = false then l.state
      else match l.state with
        | .down =>
          if Fails ans l v then
            if (policy .spwLink).limit.toUInt32 ≤ v.occurrences .spwLink + 1 then .failed else .down
          else .starting
        | .starting =>
          if Runs ans l then .run
          else if Unreadable ans l then .down
          else if Fails ans l v then
            if (policy .spwLink).limit.toUInt32 ≤ v.occurrences .spwLink + 1 then .failed else .down
          else .starting
        | .run => if ans.status ≠ .ok ∨ ans.running = false then .down else .run
        | .failed => .failed := by
  cases hops : l.opsSet with
  | false => simp [service, hops]
  | true =>
    cases hstate : l.state with
    | down =>
      by_cases hstart : ans.start = .ok
      · simp [service, hops, hstate, hstart, Fails]
      · by_cases hex : (policy .spwLink).limit.toUInt32 ≤ v.occurrences .spwLink + 1
        · simp [service, hops, hstate, hstart, Fails, hex, (exhausted_report v 0).mpr hex]
        · have hopen := mt (exhausted_report v 0).mp hex
          simp [service, hops, hstate, hstart, Fails, hex, hopen]
    | starting =>
      by_cases hstatus : ans.status = .ok
      · cases hrun : ans.running with
        | true => simp [service, hops, hstate, hstatus, hrun, Runs]
        | false =>
          cases hexp : l.startBudget.expired v.nowMs with
          | false => simp [service, hops, hstate, hstatus, hrun, hexp, Runs, Unreadable, Fails,
              timeoutExpired]
          | true =>
            obtain ⟨v', hv'⟩ : ∃ v', v' = if l.startBudget.armed then v.collectTime else v := ⟨_, rfl⟩
            have hsame : v'.occurrences .spwLink = v.occurrences .spwLink := by
              rw [hv']
              split <;> rfl
            have hreport := exhausted_report v' ans.statusWord
            rw [hsame] at hreport
            by_cases hex : (policy .spwLink).limit.toUInt32 ≤ v.occurrences .spwLink + 1
            · simp [service, hops, hstate, hstatus, hrun, hexp, Runs, Unreadable, Fails,
                timeoutExpired, ← hv', hex, hreport.mpr hex]
            · simp [service, hops, hstate, hstatus, hrun, hexp, Runs, Unreadable, Fails,
                timeoutExpired, ← hv', hex, mt hreport.mp hex]
      · simp [service, hops, hstate, hstatus, Runs, Unreadable]
    | run =>
      by_cases hdrop : ans.status ≠ .ok ∨ ans.running = false
      · simp [service, hops, hstate, hdrop]
      · simp only [service, hops, hstate, hdrop, Bool.not_true, Bool.false_eq_true, ↓reduceIte,
          Bool.true_eq_false]
        rw [state_deliverReceived]
    | failed => simp [service, hops, hstate]

/-- The code's count is that of the reports, and the reports are those of the failed attempts as far as
`strayed` and `cleared` do not say otherwise. -/
structure Tallied (s : Watch) : Prop where
  count : s.v.occurrences .spwLink = UInt32.ofNat (reports s.v)
  within : s.strayed = false → reports s.v ≤ s.fails
  kept : s.cleared = false → s.fails ≤ reports s.v

theorem Noted.counted {n : ℕ} {v w : Svc} (h : Noted n v w)
    (hv : v.occurrences .spwLink = UInt32.ofNat (reports v)) :
    w.occurrences .spwLink = UInt32.ofNat (reports w) := by
  rw [h.count, h.grown, hv, UInt32.ofNat_add]

/-- What is not an attempt reports for something else. -/
theorem Tallied.noted {s : Watch} (hs : Tallied s) {n : ℕ} {w : Svc} (h : Noted n s.v w) (l : SpwLink) :
    Tallied { s with link := l, v := w, strayed := s.strayed || reports s.v < reports w } where
  count := h.counted hs.count
  within hstrayed := by
    simp only [Bool.or_eq_false_iff, decide_eq_false_iff_not] at hstrayed
    exact (not_lt.mp hstrayed.2).trans (hs.within hstrayed.1)
  kept hcleared := (hs.kept hcleared).trans (h.grown ▸ Nat.le_add_right _ n)

theorem tallied_service {s : Watch} (hs : Tallied s) (config : ConfigParam → Int32) (ans : SpwAnswers) :
    Tallied (linkStep s (.service config ans)) := by
  obtain ⟨n, hnoted, hown⟩ := Noted.service config ans s.link s.ccsds s.v
  obtain ⟨link, ccsds, w, hservice⟩ : ∃ link ccsds w,
      service config ans s.link s.ccsds s.v = (link, ccsds, w) := ⟨_, _, _, rfl⟩
  rw [hservice] at hnoted
  simp only [linkStep, hservice]
  cases hruns : Runs ans s.link with
  | true =>
    refine ⟨hnoted.counted hs.count, ?_, fun _ => Nat.zero_le _⟩
    intro hstrayed
    simpa using hstrayed
  | false =>
    refine ⟨hnoted.counted hs.count, ?_, ?_⟩
    · simp only [Bool.false_eq_true, ↓reduceIte, Bool.or_eq_false_iff, decide_eq_false_iff_not, not_lt]
      rintro ⟨hstrayed, hfew⟩
      have hwithin := hs.within hstrayed
      split
      · rename_i hfails
        rw [if_pos hfails] at hfew
        omega
      · rename_i hfails
        rw [if_neg hfails] at hfew
        omega
    · simp only [Bool.false_eq_true, ↓reduceIte, Bool.not_false, Bool.and_true]
      intro hcleared
      have hkept := hs.kept hcleared
      have hgrown := hnoted.grown
      dsimp only at hgrown
      split
      · rename_i hfails
        have hone := hown hfails
        omega
      · omega

theorem tallied_linkStep {s : Watch} (hs : Tallied s) (op : LinkOp) : Tallied (linkStep s op) := by
  cases op with
  | setOps attach => exact ⟨hs.count, by simp [linkStep], fun _ => Nat.zero_le _⟩
  | service config ans => exact tallied_service hs config ans
  | send answer len =>
    obtain ⟨n, hnoted⟩ := Noted.send answer len s.link s.v
    exact hs.noted hnoted _
  | interrupts events =>
    obtain ⟨n, hnoted⟩ := Noted.serviceInterrupts events s.link s.v
    exact hs.noted hnoted _
  | fault op =>
    cases hclears : Clears op with
    | false =>
      obtain ⟨n, hnoted⟩ := Noted.faultStep hclears s.v
      simpa [linkStep, hclears] using hs.noted hnoted s.link
    | true =>
      cases op with
      | clear id =>
        obtain rfl := beq_iff_eq.mp hclears
        have hnone : reports (s.v.clear .spwLink) = 0 := by simp [reports, Svc.clear, since, SvcCall.isClear]
        refine ⟨?_, ?_, ?_⟩
        · simp [linkStep, faultStep, occurrences_clear, hnone]
        · intro _
          simp [linkStep, faultStep, hnone]
        · simp only [linkStep, hclears, Bool.true_and, Bool.or_eq_false_iff, decide_eq_false_iff_not, not_lt]
          exact fun hcleared => hcleared.2.trans (Nat.zero_le _)
      | report | collect | service | tick => cases hclears

/-- Where the code asks, its count has reached the limit exactly when the failed attempts have. -/
theorem limit_reached {s : Watch} (hs : Tallied s) (hfails : s.fails < limit)
    {config : ConfigParam → Int32} {ans : SpwAnswers} (hop : Undisturbed s (.service config ans))
    (hfail : Fails ans s.link s.v = true) (hread : Unreadable ans s.link = false) :
    (policy .spwLink).limit.toUInt32 ≤ s.v.occurrences .spwLink + 1 ↔ limit ≤ s.fails + 1 := by
  obtain ⟨hbefore, hlast⟩ := hop hfail
  have hcount (hlt : reports s.v + 1 < 2 ^ 32) :
      (policy .spwLink).limit.toUInt32 ≤ s.v.occurrences .spwLink + 1 ↔ limit ≤ reports s.v + 1 := by
    have hsum : s.v.occurrences .spwLink + 1 = UInt32.ofNat (reports s.v + 1) := by
      rw [hs.count, UInt32.ofNat_add]
      rfl
    rw [hsum, UInt32.le_iff_toNat_le, UInt32.toNat_ofNat_of_lt' hlt, UInt16.toNat_toUInt32]
    exact Iff.rfl
  have hlimit : limit = 3 := rfl
  by_cases hreached : s.fails + 1 = limit
  · obtain ⟨-, hcleared, hlt⟩ := hlast hreached
    have hkept := hs.kept hcleared
    rw [hcount hlt]
    omega
  · have hstrayed := (hbefore (by omega)).resolve_left (by rw [hread]; decide)
    have hwithin := hs.within hstrayed
    rw [hcount (by omega)]
    omega

/-- A failing attempt gives up exactly at the limit. -/
theorem attempts_fail {starts fails : ℕ} {count : Prop} [Decidable count] (hfails : fails < limit)
    (hstarts : starts = fails + 1) (hcount : count ↔ limit ≤ fails + 1) :
    Attempts (if count then .failed else .down) starts (fails + 1) := by
  by_cases h : count
  · have hlimit := hcount.mp h
    rw [if_pos h]
    exact ⟨hstarts, by omega⟩
  · have hlimit := mt hcount.mpr h
    rw [if_neg h]
    exact ⟨hstarts, by omega⟩

theorem attempts_linkStep {s : Watch} (htallied : Tallied s)
    (hs : Attempts s.link.state s.starts s.fails) {op : LinkOp} (hop : Undisturbed s op) :
    Attempts (linkStep s op).link.state (linkStep s op).starts (linkStep s op).fails := by
  cases op with
  | setOps attach =>
    have hdown : (linkStep s (.setOps attach)).link.state = .down := by
      cases attach <;> rfl
    rw [hdown]
    exact ⟨rfl, Nat.zero_lt_of_ne_zero (by decide)⟩
  | service config ans =>
    simp only [linkStep, state_service]
    cases hops : s.link.opsSet with
    | false => simpa [Runs, Starts, Fails, hops] using hs
    | true =>
      cases hstate : s.link.state with
      | down =>
        rw [hstate] at hs
        have hruns : Runs ans s.link = false := by simp [Runs, hstate]
        have hstarts : Starts s.link = true := by simp [Starts, hops, hstate]
        simp only [hruns, hstarts, Bool.false_eq_true, Bool.true_eq_false, ↓reduceIte]
        cases hfail : Fails ans s.link s.v with
        | true =>
          have hread : Unreadable ans s.link = false := by simp [Unreadable, hstate]
          exact attempts_fail hs.2 (congrArg (· + 1) hs.1) (limit_reached htallied hs.2 hop hfail hread)
        | false => exact ⟨congrArg (· + 1) hs.1, hs.2⟩
      | starting =>
        rw [hstate] at hs
        have hstarts : Starts s.link = false := by simp [Starts, hstate]
        simp only [hstarts, Bool.false_eq_true, Bool.true_eq_false, ↓reduceIte]
        cases hruns : Runs ans s.link with
        | true => exact ⟨rfl, rfl⟩
        | false =>
          cases hread : Unreadable ans s.link with
          | true =>
            have hfail : Fails ans s.link s.v = true := by
              simp only [Unreadable, hops, hstate, Bool.true_and, bne_iff_ne, beq_self_eq_true] at hread
              simp [Fails, hops, hstate, hread]
            simp only [hfail, Bool.false_eq_true, ↓reduceIte]
            refine ⟨hs.1, lt_of_le_of_ne hs.2 fun hlast => ?_⟩
            have hreadable := ((hop hfail).2 hlast).1
            rw [hread] at hreadable
            cases hreadable
          | false =>
            simp only [Bool.false_eq_true, ↓reduceIte]
            cases hfail : Fails ans s.link s.v with
            | true => exact attempts_fail hs.2 hs.1 (limit_reached htallied hs.2 hop hfail hread)
            | false => exact hs
      | run =>
        rw [hstate] at hs
        obtain ⟨hstarts, hfails⟩ := hs
        have hquiet : Runs ans s.link = false ∧ Starts s.link = false ∧
            Fails ans s.link s.v = false := by
          simp [Runs, Starts, Fails, hstate]
        simp only [hquiet, hstarts, hfails, Bool.false_eq_true, Bool.true_eq_false, ↓reduceIte]
        split
        · exact ⟨rfl, Nat.zero_lt_of_ne_zero (by decide)⟩
        · exact ⟨rfl, rfl⟩
      | failed =>
        rw [hstate] at hs
        simpa [Runs, Starts, Fails, hstate] using hs
  | send answer len =>
    simp only [linkStep, state_send]
    exact hs
  | interrupts events =>
    simp only [linkStep, state_serviceInterrupts]
    exact hs
  | fault op => exact hs

/-- The link has given up exactly when as many bring-up attempts as its class's limit have failed
since it was attached or last ran, and it never begins more than that many. -/
theorem gives_up_at_limit {ops : List LinkOp} (h : Along linkStep Undisturbed {} ops) :
    let s := run linkStep {} ops
    (s.link.state = .failed ↔ s.fails = limit) ∧ s.fails ≤ limit ∧ s.starts ≤ limit := by
  intro s
  have hstart : Tallied {} := ⟨rfl, fun _ => Nat.zero_le _, fun _ => Nat.zero_le _⟩
  obtain ⟨-, hattempts⟩ : Tallied s ∧ Attempts s.link.state s.starts s.fails :=
    @run_invariant _ _ linkStep Undisturbed
      (fun s => Tallied s ∧ Attempts s.link.state s.starts s.fails)
      (fun _ op hs hok => ⟨tallied_linkStep hs.1 op, attempts_linkStep hs.1 hs.2 hok⟩) {} ops
      ⟨hstart, rfl, Nat.zero_lt_of_ne_zero (by decide)⟩ h
  clear_value s
  have hpos : 0 < limit := by decide
  cases hstate : s.link.state with
  | down =>
    rw [hstate] at hattempts
    obtain ⟨hstarts, hfails⟩ := hattempts
    exact ⟨⟨fun h => absurd h (by decide), fun h => absurd h hfails.ne⟩, by omega, by omega⟩
  | starting =>
    rw [hstate] at hattempts
    obtain ⟨hstarts, hfails⟩ := hattempts
    exact ⟨⟨fun h => absurd h (by decide), fun h => absurd h hfails.ne⟩, by omega, by omega⟩
  | run =>
    rw [hstate] at hattempts
    obtain ⟨hstarts, hfails⟩ := hattempts
    exact ⟨⟨fun h => absurd h (by decide), fun h => by omega⟩, by omega, by omega⟩
  | failed =>
    rw [hstate] at hattempts
    obtain ⟨hstarts, hfails⟩ := hattempts
    exact ⟨⟨fun _ => hfails, fun _ => rfl⟩, by omega, by omega⟩

def answered (ans : SpwAnswers) : LinkOp := .service (fun _ => 1000) ans

def lost : List LinkOp :=
  [.setOps true, answered {}, answered { running := true }, .send .errHardware 8,
    answered { running := false }, .fault (.clear .spwLink)]

theorem gives_up_at_limit_refused :
    let s := run linkStep {} (lost ++ List.replicate 3 (answered { start := .errHardware }))
    (s.link.state = .failed ↔ s.fails = limit) ∧ s.fails ≤ limit ∧ s.starts ≤ limit :=
  gives_up_at_limit (by decide +kernel)

/-- The link gives up after one failed attempt, for what happened while it ran; and it does not
give up after three failed attempts that it noticed by an unreadable status. -/
theorem gives_up_for_other_errors :
    let recovered := run linkStep {} [.setOps true, answered {}, answered { running := true },
      .send .errHardware 8, answered { running := false }, answered { start := .errHardware }]
    let unreadable := run linkStep {} (.setOps true ::
      (List.replicate 3 [answered {}, answered { status := .errHardware }]).flatten ++ [answered {}])
    (recovered.link.state = .failed ∧ recovered.fails = 1) ∧
      unreadable.link.state = .starting ∧ unreadable.fails = 3 ∧ unreadable.starts = 4 := by
  decide +kernel

end QiranFirmware.SpwLink
