import QiranFirmware.Svc.Fdir
import QiranFirmware.Machine.Trace
import Mathlib.Data.UInt

/-! # What the fault service's functions do

Reports, escalations and log events only add to the counters of what has been reported:
`Reporting` says so once, with the calls made. `serviceClass` is then described by one theorem
for a class with nothing new and one for a class with new reports.
-/
namespace QiranFirmware

namespace SvcCall

def isReport (c : FaultId) : SvcCall → Bool
  | report id _ => id == c
  | _ => false

def isLogFault (c : FaultId) : SvcCall → Bool
  | logFault id _ _ => id == c
  | _ => false

def isEscalation (c : FaultId) : SvcCall → Bool
  | escalate id _ => id == c
  | _ => false

def isUplink (c : FaultId) : SvcCall → Bool
  | uplink call => call.fault == c
  | _ => false

def isClear (c : FaultId) : SvcCall → Bool
  | clear id => id == c
  | _ => false

def isTierReport (s : Severity) : SvcCall → Bool
  | report id _ => (policy id).severity == s
  | _ => false

theorem isLogFault_of_isReport {c d : FaultId} {x : SvcCall} (h : x.isReport c = true) :
    x.isLogFault d = false := by
  cases x <;> simp_all [isReport, isLogFault]

theorem countP_isReport_pos {c : FaultId} {detail : UInt32} {calls : List SvcCall}
    (h : .report c detail ∈ calls) : 0 < calls.countP (isReport c) :=
  List.countP_pos_iff.mpr ⟨_, h, by simp [isReport]⟩

end SvcCall

namespace Svc
open SvcCall

/-- `w` is `v` after the calls `new`, none of which serviced or cleared a class. -/
structure Reporting (new : List SvcCall) (v w : Svc) : Prop where
  trace : w.trace = v.trace ++ new
  reported : ∀ c, w.fdir.reported c = v.fdir.reported c + UInt32.ofNat (new.countP (isReport c))
  serviced : w.fdir.serviced = v.fdir.serviced
  bySeverity : w.fdir.bySeverity = v.fdir.bySeverity
  occurrences : ∀ c, (w.fdir.record c).occurrences = (v.fdir.record c).occurrences
  elevated : ∀ c, (w.fdir.record c).elevated = (v.fdir.record c).elevated

namespace Reporting
variable {a b : List SvcCall} {u v w : Svc}

theorem refl (v : Svc) : Reporting [] v v := by
  constructor <;> simp

theorem trans (h : Reporting a u v) (k : Reporting b v w) : Reporting (a ++ b) u w where
  trace := by rw [k.trace, h.trace, List.append_assoc]
  reported c := by
    rw [k.reported, h.reported, List.countP_append, UInt32.ofNat_add]
    grind
  serviced := k.serviced.trans h.serviced
  bySeverity := k.bySeverity.trans h.bySeverity
  occurrences c := (k.occurrences c).trans (h.occurrences c)
  elevated c := (k.elevated c).trans (h.elevated c)

theorem trans_nil (h : Reporting a u v) (k : Reporting [] v w) : Reporting a u w := by
  have hk := h.trans k
  rwa [List.append_nil] at hk

theorem unserviced (h : Reporting a v w) (c : FaultId) :
    w.unserviced c = v.unserviced c + UInt32.ofNat (a.countP (isReport c)) := by
  simp only [Svc.unserviced, h.reported, h.serviced]
  grind

theorem count (h : Reporting a v w) (c : FaultId) :
    w.occurrences c = v.occurrences c + UInt32.ofNat (a.countP (isReport c)) := by
  simp only [Svc.occurrences, h.occurrences, h.unserviced]
  grind

end Reporting

def since (c : FaultId) (t : List SvcCall) : ℕ := Machine.pending (isReport c) (isClear c) t

theorem Reporting.since {new : List SvcCall} {v w : Svc} (h : Reporting new v w) {c : FaultId}
    (hclear : ∀ x ∈ new, x.isClear c = false) :
    since c w.trace = since c v.trace + new.countP (isReport c) := by
  rw [h.trace]
  exact Machine.pending_append_of_forall_not hclear

theorem since_of_quiet {id : FaultId} {s t : List SvcCall}
    (h : ∀ x ∈ t, x.isReport id = false ∧ x.isClear id = false) : since id (s ++ t) = since id s := by
  have hclear := Machine.pending_append_of_forall_not (p := isReport id) (s := s) fun x hx => (h x hx).2
  have hnone : t.countP (isReport id) = 0 := List.countP_eq_zero.mpr fun x hx => by simp [h x hx]
  rw [since, hclear, hnone]
  rfl

theorem retriesExhausted_congr {v w : Svc} {id : FaultId}
    (h : w.occurrences id = v.occurrences id) : w.retriesExhausted id = v.retriesExhausted id := by
  simp only [retriesExhausted, h]

theorem retriesExhausted_iff {v : Svc} {id : FaultId} : v.retriesExhausted id = true ↔
    (policy id).limit ≠ 0 ∧ (policy id).limit.toUInt32 ≤ v.occurrences id := by
  simp [retriesExhausted]

theorem reporting_report (id : FaultId) (detail : UInt32) (v : Svc) :
    Reporting [.report id detail] v (v.report id detail) where
  trace := rfl
  reported c := by
    by_cases h : c = id
    · subst h
      simp [report, isReport]
    · have hc : isReport c (.report id detail) = false := by simp [isReport, Ne.symm h]
      simp [report, Function.update_of_ne h, hc]
  serviced := rfl
  bySeverity := rfl
  occurrences _ := rfl
  elevated _ := rfl

theorem reporting_logFault (id : FaultId) (severity : Severity) (detail : UInt32) (v : Svc) :
    Reporting [.logFault id severity detail] v (v.logFault id severity detail) := by
  constructor <;> simp [logFault, isReport]

theorem reporting_tick (v : Svc) : Reporting [] v v.tick := by
  constructor <;> simp [tick]

theorem reporting_collectTime (v : Svc) : Reporting [] v v.collectTime := by
  constructor <;> simp [collectTime]

theorem reporting_logEvent (code : UInt16) (detail : UInt32) (v : Svc) :
    Reporting [.logEvent code detail] v (v.logEvent code detail) := by
  constructor <;> simp [logEvent, isReport]

theorem reporting_reportAll (faults : List (FaultId × UInt32)) (v : Svc) :
    Reporting (faults.map fun f => .report f.1 f.2) v (reportAll faults v) := by
  induction faults generalizing v with
  | nil => exact .refl v
  | cons f faults ih => exact (reporting_report f.1 f.2 v).trans (ih _)

def deliverCalls (up : Option Uplink) (call : UplinkCall) : List SvcCall :=
  match up with
  | none => []
  | some up => .uplink call :: (up call).2.map fun f => .report f.1 f.2

theorem reporting_undelivered (v : Svc) (n : UInt32) :
    Reporting [] v { v with fdir := { v.fdir with undelivered := n } } := by
  constructor <;> simp

theorem reporting_deliver (up : Option Uplink) (call : UplinkCall) (v : Svc) :
    Reporting (deliverCalls up call) v (deliver up call v) := by
  cases up with
  | none => exact reporting_undelivered v _
  | some up =>
    have hcall : Reporting [.uplink call] v { v with trace := v.trace ++ [.uplink call] } := by
      constructor <;> simp [isReport]
    have hall := hcall.trans (reporting_reportAll (up call).2 _)
    simp only [deliver]
    split
    · exact hall
    · exact hall.trans_nil (reporting_undelivered _ _)

theorem mem_deliverCalls {up : Option Uplink} {call : UplinkCall} {x : SvcCall}
    (hx : x ∈ deliverCalls up call) :
    (∃ call, x = .uplink call) ∨ ∃ f e, x = .report f e := by
  cases up with
  | none => simp [deliverCalls] at hx
  | some u =>
    rcases List.mem_cons.mp hx with rfl | hx
    · exact .inl ⟨_, rfl⟩
    · obtain ⟨f, -, rfl⟩ := List.mem_map.mp hx
      exact .inr ⟨_, _, rfl⟩

def escalateCalls (up : Option Uplink) (id : FaultId) (detail : UInt32) : List SvcCall :=
  .escalate id detail :: match (policy id).escalation with
    | .report => deliverCalls up (.reportFlag id (policy id).severity detail)
    | .powerReset => deliverCalls up (.requestPowerReset id)
    | .logOnly => []

theorem reporting_escalate (up : Option Uplink) (id : FaultId) (detail : UInt32) (v : Svc) :
    Reporting (escalateCalls up id detail) v (escalate up id detail v) := by
  have hrec (e : UInt32) : Reporting [.escalate id detail] v { v with
      fdir := { v.fdir with
        record := Function.update v.fdir.record id { v.fdir.record id with escalations := e } }
      trace := v.trace ++ [.escalate id detail] } := by
    constructor <;> simp [isReport, Function.update_apply, apply_ite]
  simp only [escalate, escalateCalls]
  cases (policy id).escalation with
  | report => exact (hrec _).trans (reporting_deliver ..)
  | powerReset => exact (hrec _).trans (reporting_deliver ..)
  | logOnly => exact hrec _

/-- An escalation is one call of its own, and what its delivery brings. -/
theorem escalateCalls_eq (up : Option Uplink) (d : FaultId) (detail : UInt32) :
    ∃ calls, escalateCalls up d detail = .escalate d detail :: calls ∧
      ∀ x ∈ calls, (∃ call, x = .uplink call) ∨ ∃ f e, x = .report f e := by
  refine ⟨_, rfl, ?_⟩
  intro x hx
  cases he : (policy d).escalation with
  | report =>
    rw [he] at hx
    exact mem_deliverCalls hx
  | powerReset =>
    rw [he] at hx
    exact mem_deliverCalls hx
  | logOnly => simp [he] at hx

theorem uplink_mem_escalateCalls (up : Uplink) {id : FaultId} (detail : UInt32)
    (h : (policy id).escalation ≠ .logOnly) :
    ∃ x ∈ escalateCalls (some up) id detail, x.isUplink id = true := by
  cases he : (policy id).escalation with
  | logOnly => exact absurd he h
  | report =>
    refine ⟨.uplink (.reportFlag id (policy id).severity detail), ?_,
      by simp [isUplink, UplinkCall.fault]⟩
    simp [escalateCalls, he, deliverCalls]
  | powerReset =>
    refine ⟨.uplink (.requestPowerReset id), ?_, by simp [isUplink, UplinkCall.fault]⟩
    simp [escalateCalls, he, deliverCalls]

theorem report_mem_escalateCalls {up : Option Uplink} {id c : FaultId} {detail d : UInt32}
    (h : SvcCall.report c d ∈ escalateCalls up id detail) :
    ∃ u ∈ up, ∃ call, (c, d) ∈ (u call).2 := by
  have hdeliver (call : UplinkCall) (h : SvcCall.report c d ∈ deliverCalls up call) :
      ∃ u ∈ up, ∃ call, (c, d) ∈ (u call).2 := by
    cases up with
    | none => simp [deliverCalls] at h
    | some u => exact ⟨u, rfl, call, by simpa [deliverCalls] using h⟩
  cases he : (policy id).escalation with
  | report => exact hdeliver _ (by simpa [escalateCalls, he] using h)
  | powerReset => exact hdeliver _ (by simpa [escalateCalls, he] using h)
  | logOnly => simp [escalateCalls, he] at h

def reentryCalls (up : Option Uplink) (cause : FaultId) (n : UInt32) : List SvcCall :=
  .logEvent cause.code n :: if reentryLimit < n then escalateCalls up cause n else []

theorem reporting_reentryNote (up : Option Uplink) (cause : FaultId) (v : Svc) :
    Reporting (reentryCalls up cause (v.fdir.reentries + 1)) v (reentryNote up cause v) := by
  have hn : Reporting [] v { v with fdir := { v.fdir with reentries := v.fdir.reentries + 1 } } := by
    constructor <;> simp
  have hlog := hn.trans (reporting_logEvent cause.code (v.fdir.reentries + 1) _)
  simp only [reentryNote, reentryCalls]
  split
  · exact hlog.trans (reporting_escalate ..)
  · exact hlog

theorem reporting_iterate (id : FaultId) (detail : UInt32) (n : ℕ) (v : Svc) :
    Reporting (List.replicate n (.report id detail)) v ((report id detail)^[n] v) := by
  induction n generalizing v with
  | zero => exact .refl v
  | succ n ih => exact (reporting_report id detail v).trans (ih _)

/-- What has been seen of the counters is changed by no report. -/
theorem seen_iterate (id : FaultId) (detail : UInt32) (n : ℕ) (v : Svc) :
    ((report id detail)^[n] v).fdir.seenOverruns = v.fdir.seenOverruns ∧
      ((report id detail)^[n] v).fdir.seenUartOverflow = v.fdir.seenUartOverflow ∧
      ((report id detail)^[n] v).fdir.seenIrqDropped = v.fdir.seenIrqDropped := by
  induction n generalizing v with
  | zero => exact ⟨rfl, rfl, rfl⟩
  | succ n ih => exact ih (v.report id detail)

def overrunCalls (c : PlatformCounters) (v : Svc) : List SvcCall :=
  List.replicate (c.overrunEvents - v.fdir.seenOverruns).toNat (.report .cycleOverrun c.overrunCyclesLost)

theorem collectOverruns_spec (c : PlatformCounters) (v : Svc) :
    Reporting (overrunCalls c v) v (collectOverruns c v) ∧
      (collectOverruns c v).fdir.seenOverruns = c.overrunEvents ∧
      (collectOverruns c v).fdir.seenUartOverflow = v.fdir.seenUartOverflow ∧
      (collectOverruns c v).fdir.seenIrqDropped = v.fdir.seenIrqDropped := by
  unfold collectOverruns overrunCalls
  split
  · have hseen : Reporting [] v { v with fdir := { v.fdir with seenOverruns := c.overrunEvents } } := by
      constructor <;> simp
    exact ⟨hseen.trans (reporting_iterate ..), seen_iterate ..⟩
  · rename_i hsame
    rw [not_not.mp hsame, UInt32.sub_self]
    exact ⟨.refl v, rfl, rfl, rfl⟩

def uartCalls (c : PlatformCounters) (v : Svc) : List SvcCall :=
  if c.uartOverflow ≠ v.fdir.seenUartOverflow then [.report .uartRxOverflow c.uartOverflow] else []

theorem collectUartOverflow_spec (c : PlatformCounters) (v : Svc) :
    Reporting (uartCalls c v) v (collectUartOverflow c v) ∧
      (collectUartOverflow c v).fdir.seenOverruns = v.fdir.seenOverruns ∧
      (collectUartOverflow c v).fdir.seenUartOverflow = c.uartOverflow ∧
      (collectUartOverflow c v).fdir.seenIrqDropped = v.fdir.seenIrqDropped := by
  unfold collectUartOverflow uartCalls
  split
  · have hseen : Reporting [] v { v with fdir := { v.fdir with seenUartOverflow := c.uartOverflow } } := by
      constructor <;> simp
    exact ⟨hseen.trans (reporting_report ..), rfl, rfl, rfl⟩
  · rename_i hsame
    exact ⟨.refl v, rfl, (not_not.mp hsame).symm, rfl⟩

def irqCalls (c : PlatformCounters) (v : Svc) (is : List IrqId) : List SvcCall :=
  (is.filter fun i => c.irqDropped i ≠ v.fdir.seenIrqDropped i).map fun i => .report .irqOverflow i.code

theorem irqCalls_singleton (c : PlatformCounters) (v : Svc) (i : IrqId) : irqCalls c v [i] =
    if c.irqDropped i ≠ v.fdir.seenIrqDropped i then [.report .irqOverflow i.code] else [] := by
  by_cases h : c.irqDropped i = v.fdir.seenIrqDropped i
  · simp [irqCalls, h]
  · simp [irqCalls, h]

theorem collectIrqDropped_spec (c : PlatformCounters) (v : Svc) (i : IrqId) :
    Reporting (irqCalls c v [i]) v (collectIrqDropped c v i) ∧
      (collectIrqDropped c v i).fdir.seenOverruns = v.fdir.seenOverruns ∧
      (collectIrqDropped c v i).fdir.seenUartOverflow = v.fdir.seenUartOverflow ∧
      (collectIrqDropped c v i).fdir.seenIrqDropped =
        Function.update v.fdir.seenIrqDropped i (c.irqDropped i) := by
  rw [irqCalls_singleton]
  unfold collectIrqDropped
  split
  · have hseen : Reporting [] v { v with fdir := { v.fdir with
        seenIrqDropped := Function.update v.fdir.seenIrqDropped i (c.irqDropped i) } } := by
      constructor <;> simp
    exact ⟨hseen.trans (reporting_report ..), rfl, rfl, rfl⟩
  · rename_i hsame
    rw [not_not.mp hsame, Function.update_eq_self]
    exact ⟨.refl v, rfl, rfl, rfl⟩

theorem collectIrqs_spec (c : PlatformCounters) {is : List IrqId} (hnodup : is.Nodup) (v : Svc) :
    Reporting (irqCalls c v is) v (is.foldl (collectIrqDropped c) v) ∧
      (is.foldl (collectIrqDropped c) v).fdir.seenOverruns = v.fdir.seenOverruns ∧
      (is.foldl (collectIrqDropped c) v).fdir.seenUartOverflow = v.fdir.seenUartOverflow ∧
      ∀ i, (is.foldl (collectIrqDropped c) v).fdir.seenIrqDropped i =
        if i ∈ is then c.irqDropped i else v.fdir.seenIrqDropped i := by
  induction is generalizing v with
  | nil => exact ⟨.refl v, rfl, rfl, fun _ => rfl⟩
  | cons i is ih =>
    obtain ⟨hi, hrest⟩ := List.nodup_cons.mp hnodup
    obtain ⟨hfirst, hover, hbytes, hdrops⟩ := collectIrqDropped_spec c v i
    obtain ⟨hothers, hover', hbytes', hdrops'⟩ := ih hrest (collectIrqDropped c v i)
    refine ⟨?_, hover'.trans hover, hbytes'.trans hbytes, ?_⟩
    · -- the sources behind this one have been looked at no more than before
      have hsame : irqCalls c (collectIrqDropped c v i) is = irqCalls c v is := by
        refine congrArg (List.map _) (List.filter_congr ?_)
        intro j hj
        have hne : j ≠ i := by
          rintro rfl
          exact hi hj
        rw [hdrops, Function.update_of_ne hne]
      have hall : irqCalls c v (i :: is) = irqCalls c v [i] ++ irqCalls c v is := by
        simp only [irqCalls, ← List.map_append, ← List.filter_append, List.singleton_append]
      rw [hall, ← hsame]
      exact hfirst.trans hothers
    · intro j
      rw [List.foldl_cons, hdrops', hdrops]
      by_cases hj : j = i
      · subst hj
        simp [hi]
      · simp [hj]

def collectCalls (c : PlatformCounters) (v : Svc) : List SvcCall :=
  overrunCalls c v ++ uartCalls c v ++ irqCalls c v IrqId.all

/-- The collection reports each overrun, and once each other count that has changed. -/
theorem reporting_collect (c : PlatformCounters) (v : Svc) :
    Reporting (collectCalls c v) v (collectPlatformCounters c v) := by
  have hnodup : IrqId.all.Nodup := by decide
  obtain ⟨hover, -, hbytes, hdrops⟩ := collectOverruns_spec c v
  obtain ⟨huart, -, -, hdrops'⟩ := collectUartOverflow_spec c (collectOverruns c v)
  obtain ⟨hirqs, -⟩ := collectIrqs_spec c hnodup (collectUartOverflow c (collectOverruns c v))
  have hseen : uartCalls c (collectOverruns c v) = uartCalls c v := by
    rw [uartCalls, hbytes, uartCalls]
  have hlooked : irqCalls c (collectUartOverflow c (collectOverruns c v)) IrqId.all =
      irqCalls c v IrqId.all := by
    rw [irqCalls, hdrops', hdrops, irqCalls]
  rw [hseen] at huart
  rw [hlooked] at hirqs
  exact (hover.trans huart).trans hirqs

/-- Only platform classes are reported. -/
theorem platformReporting_collect (c : PlatformCounters) (v : Svc) :
    ∃ new, Reporting new v (collectPlatformCounters c v) ∧ ∀ x ∈ new, ∃ id d, x = .report id d ∧
      id ∈ [FaultId.cycleOverrun, .uartRxOverflow, .irqOverflow] := by
  refine ⟨_, reporting_collect c v, ?_⟩
  intro x hx
  rcases List.mem_append.mp hx with hx | hx
  · rcases List.mem_append.mp hx with hx | hx
    · exact ⟨_, _, List.eq_of_mem_replicate hx, by simp⟩
    · unfold uartCalls at hx
      split at hx
      · exact ⟨_, _, List.mem_singleton.mp hx, by simp⟩
      · exact absurd hx List.not_mem_nil
  · obtain ⟨i, -, rfl⟩ := List.mem_map.mp hx
    exact ⟨_, _, rfl, by simp⟩

/-- Servicing the class escalates it: a severe class always, a critical one the first time its
count reaches the limit. -/
def Due (id : FaultId) (v : Svc) : Prop :=
  (policy id).severity = .severe ∨ (policy id).severity = .critical ∧
    (policy id).limit.toUInt32 ≤ v.occurrences id ∧ (v.fdir.record id).elevated = false

instance (id : FaultId) (v : Svc) : Decidable (Due id v) := inferInstanceAs (Decidable (_ ∨ _))

def dueCalls (up : Option Uplink) (id : FaultId) (v : Svc) : List SvcCall :=
  if Due id v then escalateCalls up id (v.fdir.detail id) else []

def serviceCalls (up : Option Uplink) (id : FaultId) (v : Svc) : List SvcCall :=
  .logFault id (policy id).severity (v.fdir.detail id) :: dueCalls up id v

theorem mem_dueCalls {up : Option Uplink} {id : FaultId} {v : Svc} {x : SvcCall}
    (hx : x ∈ dueCalls up id v) : x = .escalate id (v.fdir.detail id) ∨
      (∃ call, x = .uplink call) ∨ ∃ f e, x = .report f e := by
  simp only [dueCalls] at hx
  split at hx
  · obtain ⟨calls, heq, hcalls⟩ := escalateCalls_eq up id (v.fdir.detail id)
    rw [heq] at hx
    exact (List.mem_cons.mp hx).imp_right (hcalls x)
  · simp at hx

theorem not_isLogFault_of_mem_dueCalls {up : Option Uplink} {id : FaultId} {v : Svc} {x : SvcCall}
    (hx : x ∈ dueCalls up id v) (c : FaultId) : x.isLogFault c = false := by
  rcases mem_dueCalls hx with rfl | ⟨call, rfl⟩ | ⟨f, e, rfl⟩ <;> rfl

theorem report_mem_dueCalls {up : Option Uplink} {id c : FaultId} {v : Svc} {d : UInt32}
    (hx : SvcCall.report c d ∈ dueCalls up id v) : ∃ u ∈ up, ∃ call, (c, d) ∈ (u call).2 := by
  simp only [dueCalls] at hx
  split at hx
  · exact report_mem_escalateCalls hx
  · simp at hx

structure Servicing (up : Option Uplink) (id : FaultId) (v w : Svc) : Prop where
  trace : w.trace = v.trace ++ serviceCalls up id v
  reported : ∀ c, w.fdir.reported c =
    v.fdir.reported c + UInt32.ofNat ((serviceCalls up id v).countP (isReport c))
  serviced : w.fdir.serviced = Function.update v.fdir.serviced id (v.fdir.reported id)
  bySeverity : w.fdir.bySeverity = Function.update v.fdir.bySeverity (policy id).severity
    (v.fdir.bySeverity (policy id).severity + v.unserviced id)
  occurrences : ∀ c, (w.fdir.record c).occurrences =
    if c = id then v.occurrences id else (v.fdir.record c).occurrences
  elevated : ∀ c, (w.fdir.record c).elevated = true ↔ (v.fdir.record c).elevated = true ∨
    c = id ∧ (policy id).severity = .critical ∧ Due id v

theorem serviceClass_of_eq {up : Option Uplink} {id : FaultId} {v : Svc}
    (h : v.unserviced id = 0) : serviceClass up v id = v := by
  simp only [serviceClass, h, ↓reduceIte]

theorem servicing_note (id : FaultId) (v : Svc) {w : Svc}
    (hw : w = note id (v.unserviced id) { v with fdir := { v.fdir with
      serviced := Function.update v.fdir.serviced id (v.fdir.reported id) } }) :
    w.trace = v.trace ++ [.logFault id (policy id).severity (v.fdir.detail id)] ∧
    w.fdir.reported = v.fdir.reported ∧
    w.fdir.serviced = Function.update v.fdir.serviced id (v.fdir.reported id) ∧
    w.fdir.bySeverity = Function.update v.fdir.bySeverity (policy id).severity
      (v.fdir.bySeverity (policy id).severity + v.unserviced id) ∧
    (∀ c, (w.fdir.record c).occurrences =
      if c = id then v.occurrences id else (v.fdir.record c).occurrences) ∧
    ∀ c, (w.fdir.record c).elevated = (v.fdir.record c).elevated := by
  subst hw
  refine ⟨rfl, rfl, rfl, rfl, ?_, ?_⟩
  · intro c
    by_cases h : c = id
    · subst h
      simp [note, logFault, occurrences]
    · simp [note, logFault, h]
  · intro c
    by_cases h : c = id
    · subst h
      simp [note, logFault]
    · simp [note, logFault, h]

theorem elevated_elevate (id : FaultId) (v : Svc) (c : FaultId) :
    ((elevate id v).fdir.record c).elevated = true ↔
      (v.fdir.record c).elevated = true ∨ c = id := by
  by_cases h : c = id
  · subst h
    simp [elevate]
  · simp [elevate, h]

theorem occurrences_elevate (id : FaultId) (v : Svc) (c : FaultId) :
    ((elevate id v).fdir.record c).occurrences = (v.fdir.record c).occurrences := by
  by_cases h : c = id
  · subst h
    simp [elevate]
  · simp [elevate, h]

theorem serviceClass_of_ne (up : Option Uplink) {id : FaultId} {v : Svc}
    (h : v.unserviced id ≠ 0) : Servicing up id v (serviceClass up v id) := by
  obtain ⟨w, hw⟩ : ∃ w, w = note id (v.unserviced id) { v with fdir := { v.fdir with
      serviced := Function.update v.fdir.serviced id (v.fdir.reported id) } } := ⟨_, rfl⟩
  obtain ⟨htrace, hrep, hserv, hsev, hocc, helev⟩ := servicing_note id v hw
  have hdetail : w.fdir.detail id = v.fdir.detail id := by rw [hw]; rfl
  have hclass : serviceClass up v id =
      if Due id v then
        escalate up id (v.fdir.detail id)
          (if (policy id).severity = .critical then elevate id w else w)
      else w := by
    have hlimit := limit_ne_zero_iff id
    simp only [serviceClass, h, ↓reduceIte, classify, ← hw]
    cases hs : (policy id).severity with
    | severe => simp [Due, hs]
    | critical => simp [Due, hs, hlimit.mpr hs, hocc, helev]
    | medium => simp [Due, hs]
    | minor => simp [Due, hs]
  rw [hclass]
  by_cases hdue : Due id v
  · simp only [hdue, ↓reduceIte]
    obtain ⟨m, hm⟩ : ∃ m, m = if (policy id).severity = .critical then elevate id w else w :=
      ⟨_, rfl⟩
    have hesc := reporting_escalate up id (v.fdir.detail id) m
    have hcalls : serviceCalls up id v = [.logFault id (policy id).severity (v.fdir.detail id)] ++
        escalateCalls up id (v.fdir.detail id) := by
      simp [serviceCalls, dueCalls, hdue]
    have hmark : m.trace = w.trace ∧ m.fdir.reported = w.fdir.reported ∧
        m.fdir.serviced = w.fdir.serviced ∧ m.fdir.bySeverity = w.fdir.bySeverity ∧
        (∀ c, (m.fdir.record c).occurrences = (w.fdir.record c).occurrences) ∧
        ∀ c, (m.fdir.record c).elevated = true ↔
          (w.fdir.record c).elevated = true ∨ c = id ∧ (policy id).severity = .critical := by
      subst hm
      split
      · exact ⟨rfl, rfl, rfl, rfl, occurrences_elevate id w,
          fun c => by simpa [*] using elevated_elevate id w c⟩
      · exact ⟨rfl, rfl, rfl, rfl, fun _ => rfl, fun c => by simp [*]⟩
    obtain ⟨mtrace, mrep, mserv, msev, mocc, melev⟩ := hmark
    rw [← hm]
    refine ⟨?_, ?_, ?_, ?_, ?_, ?_⟩
    · rw [hesc.trace, mtrace, htrace, hcalls, List.append_assoc]
    · intro c
      rw [hesc.reported, mrep, hrep, hcalls, List.countP_append]
      simp [isReport]
    · rw [hesc.serviced, mserv, hserv]
    · rw [hesc.bySeverity, msev, hsev]
    · intro c
      rw [hesc.occurrences, mocc, hocc]
    · intro c
      rw [hesc.elevated, melev, helev]
      simp [hdue]
  · simp only [hdue, ↓reduceIte]
    have hcalls : serviceCalls up id v =
        [.logFault id (policy id).severity (v.fdir.detail id)] := by
      simp [serviceCalls, dueCalls, hdue]
    refine ⟨?_, ?_, hserv, hsev, hocc, ?_⟩
    · rw [hcalls, htrace]
    · simp [hcalls, hrep, isReport]
    · simp [helev, hdue]

/-- `w` is `v` after the calls `new`, each count grown by the reports among them. Everything the
services do keeps this, apart from a clear. -/
structure Counted (new : List SvcCall) (v w : Svc) : Prop where
  trace : w.trace = v.trace ++ new
  count : ∀ c, w.occurrences c = v.occurrences c + UInt32.ofNat (new.countP (isReport c))

namespace Counted
variable {a : List SvcCall} {v w : Svc} {c : FaultId}

theorem refl (v : Svc) : Counted [] v v := ⟨by simp, by simp⟩

theorem count_toNat (h : Counted a v w)
    (hlt : (v.occurrences c).toNat + a.countP (isReport c) < 2 ^ 32) :
    (w.occurrences c).toNat = (v.occurrences c).toNat + a.countP (isReport c) := by
  rw [h.count, UInt32.toNat_add, UInt32.toNat_ofNat_of_lt' (lt_of_le_of_lt (Nat.le_add_left ..) hlt),
      Nat.mod_eq_of_lt hlt]

/-- A count stays as it is while nothing reports its class. -/
theorem eq_of_quiet (h : Counted a v w) (hquiet : ∀ d, .report c d ∉ a) :
    w.occurrences c = v.occurrences c := by
  have hzero : a.countP (isReport c) = 0 := by
    refine List.countP_eq_zero.mpr ?_
    intro x hx hreport
    cases x with
    | report id d =>
      rw [beq_iff_eq.mp hreport] at hx
      exact hquiet d hx
    | _ => exact Bool.false_ne_true hreport
  rw [h.count, hzero]
  exact UInt32.add_zero _

end Counted

theorem Reporting.counted {new : List SvcCall} {v w : Svc} (h : Reporting new v w) :
    Counted new v w :=
  ⟨h.trace, h.count⟩

theorem Servicing.counted {up : Option Uplink} {id : FaultId} {v w : Svc}
    (h : Servicing up id v w) : Counted (serviceCalls up id v) v w := by
  refine ⟨h.trace, ?_⟩
  intro c
  simp only [Svc.occurrences, Svc.unserviced, h.occurrences, h.reported, h.serviced]
  by_cases hc : c = id
  · subst hc
    simp only [↓reduceIte, Function.update_self]
    grind
  · simp only [hc, ↓reduceIte, Function.update_of_ne hc]
    grind

theorem counted_serviceClass (up : Option Uplink) (id : FaultId) (v : Svc) :
    ∃ new, Counted new v (serviceClass up v id) := by
  by_cases h : v.unserviced id = 0
  · exact ⟨[], by rw [serviceClass_of_eq h]; exact .refl v⟩
  · exact ⟨_, (serviceClass_of_ne up h).counted⟩

inductive Moves : Svc → Svc → Prop
  | reporting {new : List SvcCall} {v w : Svc} : Reporting new v w → Moves v w
  | servicing {up : Option Uplink} {id : FaultId} {v w : Svc} : Servicing up id v w → Moves v w
  | clear (v : Svc) (id : FaultId) : Moves v (v.clear id)
  | trans {u v w : Svc} : Moves u v → Moves v w → Moves u w

theorem Moves.refl (v : Svc) : Moves v v := .reporting (.refl v)

theorem Moves.isPrefix {v w : Svc} (h : Moves v w) : v.trace <+: w.trace := by
  induction h with
  | reporting h => exact ⟨_, h.trace.symm⟩
  | servicing h => exact ⟨_, h.trace.symm⟩
  | clear v id => exact ⟨_, rfl⟩
  | trans _ _ ih₁ ih₂ => exact ih₁.trans ih₂

theorem occurrences_clear (v : Svc) (id c : FaultId) :
    (v.clear id).occurrences c = if c = id then 0 else v.occurrences c := by
  by_cases h : c = id
  · subst h
    simp [clear, occurrences, Svc.unserviced]
  · simp [clear, occurrences, Svc.unserviced, h]

theorem unserviced_clear (v : Svc) (id c : FaultId) :
    (v.clear id).unserviced c = if c = id then 0 else v.unserviced c := by
  by_cases h : c = id
  · subst h
    simp [clear, Svc.unserviced]
  · simp [clear, Svc.unserviced, h]

theorem Servicing.unserviced {up : Option Uplink} {id : FaultId} {v w : Svc}
    (h : Servicing up id v w) (c : FaultId) : w.unserviced c =
      (if c = id then 0 else v.unserviced c) +
        UInt32.ofNat ((serviceCalls up id v).countP (isReport c)) := by
  simp only [Svc.unserviced, h.reported, h.serviced]
  by_cases hc : c = id
  · subst hc
    simp only [Function.update_self, ↓reduceIte]
    grind
  · simp only [hc, Function.update_of_ne hc, ↓reduceIte]
    grind

def Bounded (v : Svc) : Prop := ∀ c,
  (v.unserviced c).toNat ≤ v.trace.countP (isReport c) ∧
    (v.occurrences c).toNat ≤ v.trace.countP (isReport c)

theorem Moves.bounded {v w : Svc} (h : Moves v w) (hv : Bounded v) : Bounded w := by
  have hgrow (n : UInt32) (k : ℕ) {m : ℕ} (hn : n.toNat ≤ m) :
      (n + UInt32.ofNat k).toNat ≤ m + k := by
    rw [UInt32.toNat_add, UInt32.toNat_ofNat']
    omega
  induction h with
  | reporting h =>
    intro c
    rw [h.unserviced, h.count, h.trace, List.countP_append]
    exact ⟨hgrow _ _ (hv c).1, hgrow _ _ (hv c).2⟩
  | servicing h =>
    intro c
    rw [h.unserviced, h.counted.count, h.trace, List.countP_append]
    refine ⟨hgrow _ _ ?_, hgrow _ _ (hv c).2⟩
    split
    · exact Nat.zero_le _
    · exact (hv c).1
  | clear v id =>
    intro c
    have hcount : (v.clear id).trace.countP (isReport c) = v.trace.countP (isReport c) := by
      simp [Svc.clear, isReport]
    rw [occurrences_clear, unserviced_clear, hcount]
    split
    · exact ⟨Nat.zero_le _, Nat.zero_le _⟩
    · exact hv c
  | trans _ _ ih₁ ih₂ => exact ih₂ (ih₁ hv)

/-- Without a clear, and without a wrap, counts only grow. -/
theorem Counted.grow {new : List SvcCall} {v w : Svc} (h : Counted new v w) (hv : Bounded v)
    {c : FaultId} (hlt : w.trace.countP (isReport c) < 2 ^ 32) :
    (w.occurrences c).toNat = (v.occurrences c).toNat + new.countP (isReport c) := by
  refine h.count_toNat (lt_of_le_of_lt ?_ hlt)
  rw [h.trace, List.countP_append]
  exact Nat.add_le_add_right (hv c).2 _

theorem moves_serviceClass (up : Option Uplink) (id : FaultId) (v : Svc) :
    Moves v (serviceClass up v id) := by
  by_cases h : v.unserviced id = 0
  · rw [serviceClass_of_eq h]
    exact .refl v
  · exact .servicing (serviceClass_of_ne up h)

theorem moves_collect (c : PlatformCounters) (v : Svc) :
    Moves v (collectPlatformCounters c v) := by
  obtain ⟨new, hnew, -⟩ := platformReporting_collect c v
  exact .reporting hnew

/-- What can happen to the fault service, an interrupt's report landing between any two
classes of a pass. -/
inductive FaultOp
  | report (id : FaultId) (detail : UInt32)
  | clear (id : FaultId)
  | collect (c : PlatformCounters)
  | service (up : Option Uplink) (id : FaultId)
  | tick

def faultStep (v : Svc) : FaultOp → Svc
  | .report id detail => v.report id detail
  | .clear id => v.clear id
  | .collect c => collectPlatformCounters c v
  | .service up id => serviceClass up v id
  | .tick => v.tick

def FaultOp.isClear : FaultOp → Bool
  | .clear _ => true
  | _ => false

/-- Every event but a clear keeps the counts in step with the reports. -/
theorem counted_faultStep {op : FaultOp} (h : op.isClear = false) (v : Svc) :
    ∃ new, Counted new v (faultStep v op) := by
  cases op with
  | report id detail => exact ⟨_, (reporting_report id detail v).counted⟩
  | clear id => simp [FaultOp.isClear] at h
  | collect c =>
    obtain ⟨new, hnew, -⟩ := platformReporting_collect c v
    exact ⟨new, hnew.counted⟩
  | service up id => exact counted_serviceClass up id v
  | tick => exact ⟨[], (reporting_tick v).counted⟩

theorem moves_faultStep (v : Svc) (op : FaultOp) : Moves v (faultStep v op) := by
  cases op with
  | report id detail => exact .reporting (reporting_report id detail v)
  | clear id => exact .clear v id
  | collect c => exact moves_collect c v
  | service up id => exact moves_serviceClass up id v
  | tick => exact .reporting (reporting_tick v)

end Svc

end QiranFirmware
