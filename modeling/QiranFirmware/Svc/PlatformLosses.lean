import QiranFirmware.Plat.IsrUart
import QiranFirmware.Svc.Reports

/-! # What the fault service reports for the platform

`svc_fdir.c` towards the platform: `svc_fdir_service_interrupts` reports the events of the two sources that
stand for a fault, and `collect_platform_counters` compares the counts of what was lost (cycles that were
overrun, received bytes, events of each source) with those it saw last.
-/
namespace QiranFirmware

namespace Svc
open SvcCall

/-- One of the loops of `svc_fdir_service_interrupts`, for at most so many events. -/
def drain (id : FaultId) : ℕ → IrqSlot → Svc → IrqSlot × Svc
  | 0, irq, v => (irq, v)
  | n + 1, irq, v =>
    match irq.take with
    | none => (irq, v)
    | some (e, irq) => drain id n irq (v.report id e.datum)

def serviceInterrupts (n : ℕ) (plError watchdog : IrqSlot) (v : Svc) : IrqSlot × IrqSlot × Svc :=
  let (plError, v) := drain .plError n plError v
  let (watchdog, v) := drain .watchdogExpiry n watchdog v
  (plError, watchdog, v)

def platformFaults : List FaultId :=
  [.cycleOverrun, .irqOverflow, .uartRxOverflow, .plError, .watchdogExpiry]

/-- A loop that is given turns enough takes every event that is queued, and reports each with its
datum. -/
theorem drain_all (id : FaultId) {irq : IrqSlot} (h : irq.q.Valid) {n : ℕ} (hn : irq.events.length ≤ n)
    (v : Svc) : (drain id n irq v).1.events = [] ∧ ∀ c, details c (drain id n irq v).2 =
      details c v ++ if id = c then irq.events.map IrqEvent.datum else [] := by
  induction n generalizing irq v with
  | zero =>
    have hempty := List.length_eq_zero_iff.mp (Nat.le_zero.mp hn)
    refine ⟨hempty, fun c => ?_⟩
    rw [hempty]
    simp [drain]
  | succ n ih =>
    unfold drain
    cases htake : irq.take with
    | none =>
      have hempty := IrqSlot.take_eq_none.mp htake
      refine ⟨hempty, fun c => ?_⟩
      rw [hempty]
      simp
    | some p =>
      obtain ⟨e, irq'⟩ := p
      obtain ⟨hvalid, -, hevents⟩ := IrqSlot.take_spec h htake
      rw [hevents, List.length_cons] at hn
      obtain ⟨hempty, hdetails⟩ := ih hvalid (Nat.le_of_succ_le_succ hn) (v.report id e.datum)
      refine ⟨hempty, fun c => ?_⟩
      rw [hdetails, details_report, hevents]
      by_cases hc : id = c
      · simp [hc]
      · simp [hc]

structure Collected (c : PlatformCounters) (v w : Svc) : Prop where
  overruns : details .cycleOverrun w = details .cycleOverrun v ++
    List.replicate (c.overrunEvents - v.fdir.seenOverruns).toNat c.overrunCyclesLost
  bytes : details .uartRxOverflow w = details .uartRxOverflow v ++
    if c.uartOverflow ≠ v.fdir.seenUartOverflow then [c.uartOverflow] else []
  drops : details .irqOverflow w = details .irqOverflow v ++
    (IrqId.all.filter fun i => c.irqDropped i ≠ v.fdir.seenIrqDropped i).map IrqId.code
  plError : details .plError w = details .plError v
  watchdogExpiry : details .watchdogExpiry w = details .watchdogExpiry v
  seenOverruns : w.fdir.seenOverruns = c.overrunEvents
  seenBytes : w.fdir.seenUartOverflow = c.uartOverflow
  seenDrops : w.fdir.seenIrqDropped = c.irqDropped

theorem filterMap_overrunCalls (c : PlatformCounters) (id : FaultId) (v : Svc) :
    (overrunCalls c v).filterMap (detailOf id) = if FaultId.cycleOverrun = id then
      List.replicate (c.overrunEvents - v.fdir.seenOverruns).toNat c.overrunCyclesLost else [] := by
  by_cases hid : FaultId.cycleOverrun = id
  · simp [overrunCalls, detailOf, hid]
  · simp [overrunCalls, detailOf, hid]

theorem filterMap_uartCalls (c : PlatformCounters) (id : FaultId) (v : Svc) :
    (uartCalls c v).filterMap (detailOf id) = if FaultId.uartRxOverflow = id then
      if c.uartOverflow ≠ v.fdir.seenUartOverflow then [c.uartOverflow] else [] else [] := by
  unfold uartCalls
  split
  · by_cases hid : FaultId.uartRxOverflow = id
    · simp [detailOf, hid]
    · simp [detailOf, hid]
  · simp

theorem filterMap_irqCalls (c : PlatformCounters) (id : FaultId) (v : Svc) (is : List IrqId) :
    (irqCalls c v is).filterMap (detailOf id) = if FaultId.irqOverflow = id then
      (is.filter fun i => c.irqDropped i ≠ v.fdir.seenIrqDropped i).map IrqId.code else [] := by
  rw [irqCalls, List.filterMap_map]
  by_cases hid : FaultId.irqOverflow = id
  · have hcode : detailOf id ∘ (fun i => .report .irqOverflow i.code) = some ∘ IrqId.code := by
      funext i
      exact if_pos hid
    rw [if_pos hid, hcode, List.filterMap_eq_map]
  · have hnone : detailOf id ∘ (fun i => .report .irqOverflow i.code) = fun _ : IrqId => none := by
      funext i
      exact if_neg hid
    rw [if_neg hid, hnone, List.filterMap_none]

/-- The details that the collection reports of a class are those of what has been lost since. -/
theorem details_collected (c : PlatformCounters) (id : FaultId) (v : Svc) :
    details id (collectPlatformCounters c v) = details id v ++
      ((overrunCalls c v).filterMap (detailOf id) ++ (uartCalls c v).filterMap (detailOf id) ++
        (irqCalls c v IrqId.all).filterMap (detailOf id)) := by
  rw [details, (reporting_collect c v).trace, collectCalls, List.filterMap_append, List.filterMap_append,
    List.filterMap_append]
  rfl

theorem collected (c : PlatformCounters) (v : Svc) : Collected c v (collectPlatformCounters c v) := by
  have hnodup : IrqId.all.Nodup := by decide
  have hall (i : IrqId) : i ∈ IrqId.all := by cases i <;> decide
  obtain ⟨-, hseen, -⟩ := collectOverruns_spec c v
  obtain ⟨-, hkept, hseenBytes, -⟩ := collectUartOverflow_spec c (collectOverruns c v)
  obtain ⟨-, hlast, hlastBytes, hseenDrops⟩ :=
    collectIrqs_spec c hnodup (collectUartOverflow c (collectOverruns c v))
  have hdetails (id : FaultId) := details_collected c id v
  simp only [filterMap_overrunCalls, filterMap_uartCalls, filterMap_irqCalls] at hdetails
  constructor
  · simpa using hdetails .cycleOverrun
  · simpa using hdetails .uartRxOverflow
  · simpa using hdetails .irqOverflow
  · simpa using hdetails .plError
  · simpa using hdetails .watchdogExpiry
  · exact (hlast.trans hkept).trans hseen
  · exact hlastBytes.trans hseenBytes
  · funext i
    rw [collectPlatformCounters, hseenDrops, if_pos (hall i)]

/-- The collection reports nothing but what the platform has lost. -/
theorem details_collect (c : PlatformCounters) {id : FaultId} (hid : id ∉ platformFaults) (v : Svc) :
    details id (collectPlatformCounters c v) = details id v := by
  have hne (f : FaultId) (hf : f ∈ platformFaults) : ¬ f = id := by
    rintro rfl
    exact hid hf
  rw [details_collected, filterMap_overrunCalls, filterMap_uartCalls, filterMap_irqCalls,
    if_neg (hne _ (by decide)), if_neg (hne _ (by decide)), if_neg (hne _ (by decide))]
  simp only [List.append_nil]

end Svc

end QiranFirmware
