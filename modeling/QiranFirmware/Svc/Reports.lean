import QiranFirmware.Svc.FdirEffects
import QiranFirmware.Machine.Runs

/-! # What has been reported of a class

The trace of a run is the calls that were made, each once and in their order; so the reports it lists of a
class are those that were made of it. Whatever the fault service does that is no report of some classes leaves
their details alone, and the time, as long as the uplink reports none of them on its own.
-/
namespace QiranFirmware

namespace Svc
open Machine SvcCall

def pass (up : Option Uplink) (c : PlatformCounters) : List FaultOp :=
  .collect c :: FaultId.serviced.map (.service up)

theorem run_pass (up : Option Uplink) (c : PlatformCounters) (v : Svc) :
    run faultStep v (pass up c) = errorHandlingService up c v := by
  simp only [pass, run, List.foldl_cons, List.foldl_map, errorHandlingService, faultStep]

/-- What one event calls: a report and a clear are one call each, a class with nothing new brings none. -/
def FaultOp.calls (v : Svc) : FaultOp → List SvcCall
  | .report id detail => [.report id detail]
  | .clear id => [.clear id]
  | .collect c => collectCalls c v
  | .service up id => if v.unserviced id = 0 then [] else serviceCalls up id v
  | .tick => []

theorem trace_faultStep (v : Svc) (op : FaultOp) : (faultStep v op).trace = v.trace ++ op.calls v := by
  cases op with
  | report id detail => rfl
  | clear id => rfl
  | collect c => exact (reporting_collect c v).trace
  | service up id =>
    simp only [faultStep, FaultOp.calls]
    split
    · rename_i hnothing
      rw [serviceClass_of_eq hnothing, List.append_nil]
    · rename_i hnew
      exact (serviceClass_of_ne up hnew).trace
  | tick => exact (List.append_nil _).symm

def callsOf (v : Svc) : List FaultOp → List SvcCall
  | [] => []
  | op :: ops => op.calls v ++ callsOf (faultStep v op) ops

/-- The trace grows by what is called: the reports that it counts are the reports that were made. -/
theorem trace_run (v : Svc) (ops : List FaultOp) :
    (run faultStep v ops).trace = v.trace ++ callsOf v ops := by
  induction ops generalizing v with
  | nil => exact (List.append_nil _).symm
  | cons op ops ih => rw [run_cons, ih, trace_faultStep, callsOf, List.append_assoc]

def detailOf (c : FaultId) : SvcCall → Option UInt32
  | .report id detail => if id = c then some detail else none
  | _ => none

def details (c : FaultId) (v : Svc) : List UInt32 := v.trace.filterMap (detailOf c)

/-- None of the classes has been reported between `v` and `w`, nor the time or the platform's counters
looked at. -/
structure Elsewhere (classes : List FaultId) (v w : Svc) : Prop where
  rawTick : w.rawTick = v.rawTick
  time : w.time = v.time
  details : ∀ c ∈ classes, details c w = details c v
  overruns : w.fdir.seenOverruns = v.fdir.seenOverruns
  bytes : w.fdir.seenUartOverflow = v.fdir.seenUartOverflow
  drops : w.fdir.seenIrqDropped = v.fdir.seenIrqDropped

variable {classes : List FaultId}

namespace Elsewhere
variable {u v w : Svc}

theorem refl (v : Svc) : Elsewhere classes v v := ⟨rfl, rfl, fun _ _ => rfl, rfl, rfl, rfl⟩

theorem trans (h : Elsewhere classes u v) (k : Elsewhere classes v w) : Elsewhere classes u w :=
  ⟨k.rawTick.trans h.rawTick, k.time.trans h.time,
    fun c hc => (k.details c hc).trans (h.details c hc), k.overruns.trans h.overruns,
    k.bytes.trans h.bytes, k.drops.trans h.drops⟩

end Elsewhere

theorem details_report (c id : FaultId) (detail : UInt32) (v : Svc) :
    details c (v.report id detail) = details c v ++ if id = c then [detail] else [] := by
  rw [details, report, List.filterMap_append]
  by_cases hid : id = c
  · subst hid
    simp [details, detailOf]
  · simp [details, detailOf, hid]

theorem elsewhere_report {id : FaultId} (hid : id ∉ classes) (detail : UInt32) (v : Svc) :
    Elsewhere classes v (v.report id detail) := by
  refine ⟨rfl, rfl, fun c hc => ?_, rfl, rfl, rfl⟩
  have hne : id ≠ c := by
    rintro rfl
    exact hid hc
  rw [details_report, if_neg hne, List.append_nil]

/-- A call that is no report. -/
theorem elsewhere_call {v w : Svc} {x : SvcCall} (hx : ∀ c, detailOf c x = none)
    (htrace : w.trace = v.trace ++ [x]) (hraw : w.rawTick = v.rawTick) (htime : w.time = v.time)
    (hover : w.fdir.seenOverruns = v.fdir.seenOverruns)
    (hbytes : w.fdir.seenUartOverflow = v.fdir.seenUartOverflow)
    (hdrops : w.fdir.seenIrqDropped = v.fdir.seenIrqDropped) : Elsewhere classes v w := by
  refine ⟨hraw, htime, fun c _ => ?_, hover, hbytes, hdrops⟩
  rw [details, htrace, List.filterMap_append, List.filterMap_cons, hx, List.filterMap_nil, List.append_nil]
  rfl

theorem elsewhere_clear (id : FaultId) (v : Svc) : Elsewhere classes v (v.clear id) :=
  elsewhere_call (x := .clear id) (fun _ => rfl) rfl rfl rfl rfl rfl rfl

theorem elsewhere_logEvent (code : UInt16) (detail : UInt32) (v : Svc) :
    Elsewhere classes v (v.logEvent code detail) :=
  elsewhere_call (x := .logEvent code detail) (fun _ => rfl) rfl rfl rfl rfl rfl rfl

theorem elsewhere_logFault (id : FaultId) (severity : Severity) (detail : UInt32) (v : Svc) :
    Elsewhere classes v (v.logFault id severity detail) :=
  elsewhere_call (x := .logFault id severity detail) (fun _ => rfl) rfl rfl rfl rfl rfl rfl

theorem elsewhere_reportAll {faults : List (FaultId × UInt32)} (h : ∀ f ∈ faults, f.1 ∉ classes)
    (v : Svc) : Elsewhere classes v (v.reportAll faults) := by
  induction faults generalizing v with
  | nil => exact .refl v
  | cons f faults ih =>
    apply (elsewhere_report (h f List.mem_cons_self) f.2 v).trans
    exact ih (fun g hg => h g (List.mem_cons_of_mem _ hg)) _

/-- What the uplink reports on its own is of none of the classes. -/
def OwnFaults (classes : List FaultId) (up : Option Uplink) : Prop :=
  ∀ u ∈ up, ∀ call, ∀ f ∈ (u call).2, f.1 ∉ classes

variable {up : Option Uplink}

theorem elsewhere_deliver (h : OwnFaults classes up) (call : UplinkCall) (v : Svc) :
    Elsewhere classes v (deliver up call v) := by
  cases up with
  | none => exact ⟨rfl, rfl, fun _ _ => rfl, rfl, rfl, rfl⟩
  | some u =>
    have hcall : Elsewhere classes v { v with trace := v.trace ++ [.uplink call] } :=
      elsewhere_call (fun _ => rfl) rfl rfl rfl rfl rfl rfl
    have hall := hcall.trans (elsewhere_reportAll (h u rfl call) _)
    simp only [deliver]
    split
    · exact hall
    · exact hall.trans ⟨rfl, rfl, fun _ _ => rfl, rfl, rfl, rfl⟩

theorem elsewhere_escalate (h : OwnFaults classes up) (id : FaultId) (detail : UInt32) (v : Svc) :
    Elsewhere classes v (escalate up id detail v) := by
  unfold escalate
  dsimp only
  split
  · apply Elsewhere.trans _ (elsewhere_deliver h _ _)
    exact elsewhere_call (fun _ => rfl) rfl rfl rfl rfl rfl rfl
  · apply Elsewhere.trans _ (elsewhere_deliver h _ _)
    exact elsewhere_call (fun _ => rfl) rfl rfl rfl rfl rfl rfl
  · exact elsewhere_call (fun _ => rfl) rfl rfl rfl rfl rfl rfl

theorem elsewhere_serviceClass (h : OwnFaults classes up) (v : Svc) (id : FaultId) :
    Elsewhere classes v (serviceClass up v id) := by
  have hnote (n : UInt32) (v : Svc) : Elsewhere classes v (note id n v) :=
    elsewhere_call (fun _ => rfl) rfl rfl rfl rfl rfl rfl
  have helevate (v : Svc) : Elsewhere classes v (elevate id v) := ⟨rfl, rfl, fun _ _ => rfl, rfl, rfl, rfl⟩
  unfold serviceClass
  dsimp only
  split
  · exact .refl v
  apply Elsewhere.trans (⟨rfl, rfl, fun _ _ => rfl, rfl, rfl, rfl⟩ : Elsewhere classes v
    { v with fdir := { v.fdir with serviced := Function.update v.fdir.serviced id (v.fdir.reported id) } })
  unfold classify
  dsimp only
  split
  · exact (hnote _ _).trans (elsewhere_escalate h ..)
  · split
    · exact ((hnote _ _).trans (helevate _)).trans (elsewhere_escalate h ..)
    · exact hnote _ _
  · exact hnote _ _
  · exact hnote _ _

theorem elsewhere_loop (h : OwnFaults classes up) (ids : List FaultId) (v : Svc) :
    Elsewhere classes v (ids.foldl (serviceClass up) v) := by
  induction ids generalizing v with
  | nil => exact .refl v
  | cons id ids ih => exact (elsewhere_serviceClass h v id).trans (ih _)

theorem elsewhere_reentryNote (h : OwnFaults classes up) (cause : FaultId) (v : Svc) :
    Elsewhere classes v (reentryNote up cause v) := by
  have hcount : Elsewhere classes v { v with fdir := { v.fdir with reentries := v.fdir.reentries + 1 } } :=
    ⟨rfl, rfl, fun _ _ => rfl, rfl, rfl, rfl⟩
  have hlog := hcount.trans (elsewhere_logEvent cause.code (v.fdir.reentries + 1) _)
  unfold reentryNote
  dsimp only
  split
  · exact hlog.trans (elsewhere_escalate h ..)
  · exact hlog

end Svc

end QiranFirmware
