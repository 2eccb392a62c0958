import QiranFirmware.Exec.Core
import QiranFirmware.Machine.Runs
import QiranFirmware.Machine.Succession
import QiranFirmware.Machine.Tally
import QiranFirmware.Svc.PlatformLosses

/-! # What the platform loses is reported

The modules that lose something, and the fault service that reports it, one call at a time. Beside them
stands what has happened: every interrupt with whether its event was queued, and the losses of each kind,
divided into spans by the passes of the fault service.
-/
namespace QiranFirmware

open Machine Svc

inductive ErrorSource
  | plError | watchdog
  deriving DecidableEq, Repr

namespace ErrorSource

def irq : ErrorSource → IrqId
  | plError => .plError
  | watchdog => .watchdog

def fault : ErrorSource → FaultId
  | plError => .plError
  | watchdog => .watchdogExpiry

end ErrorSource

structure Platform where
  exec : Exec := {}
  rx : Ring := { cells := { slot := fun _ => 0, mask := 255 } }
  irq : IrqId → IrqSlot := fun _ => {}
  v : Svc := {}
  raised : IrqId → List (UInt32 × Bool) := fun _ => []
  overruns : Tally := {}
  bytes : Tally := {}
  drops : IrqId → Tally := fun _ => {}

inductive PlatformOp
  | wait (pending : UInt32)
  | receive (byte : UInt8)
  | read (max : ℕ)
  | interrupt (id : IrqId) (tick datum : UInt32) (kind : UInt16)
  | take (id : IrqId)
  | service (source : ErrorSource)
  | pass (up : Option Uplink)
  | fault (op : FaultOp)

namespace Platform

def counters (s : Platform) : PlatformCounters where
  overrunEvents := s.exec.overrunEvents
  overrunCyclesLost := s.exec.overrunLost
  uartOverflow := s.rx.dropped
  irqDropped i := (s.irq i).dropped

def full (s : Platform) (id : IrqId) : Bool :=
  decide ((s.irq id).q.mask < (s.irq id).q.head - (s.irq id).q.tail)

/-- `wait` is the part of `exec_wait_for_minor_tick` that accounts for an overrun, `receive` a byte that
an interrupt puts into the ring, and `service` one turn of a loop in `svc_fdir_service_interrupts`. -/
def step (s : Platform) : PlatformOp → Platform
  | .wait pending =>
    { s with
      exec := s.exec.accountOverrun pending
      overruns := if 1 < pending then s.overruns.bump else s.overruns }
  | .receive byte =>
    { s with
      rx := (s.rx.push byte).2
      bytes := if (s.rx.push byte).1 then s.bytes else s.bytes.bump }
  | .read max => { s with rx := (s.rx.read max).2 }
  | .interrupt id tick datum kind =>
    { s with
      irq := Function.update s.irq id ((s.irq id).publish tick datum kind)
      raised := Function.update s.raised id (s.raised id ++ [(datum, !s.full id)])
      drops := if s.full id then Function.update s.drops id (s.drops id).bump else s.drops }
  | .take id =>
    match (s.irq id).take with
    | none => s
    | some (_, slot) => { s with irq := Function.update s.irq id slot }
  | .service source =>
    match (s.irq source.irq).take with
    | none => s
    | some (e, slot) =>
      { s with irq := Function.update s.irq source.irq slot, v := s.v.report source.fault e.datum }
  | .pass up =>
    { s with
      v := errorHandlingService up s.counters s.v
      overruns := s.overruns.look
      bytes := s.bytes.look
      drops := fun i => (s.drops i).look }
  | .fault op => { s with v := faultStep s.v op }

/-- Only the fault service takes from its two sources, only it reports the platform's classes, and no
counter goes round between two of its passes. -/
def Proper (s : Platform) : PlatformOp → Prop
  | .take id => ∀ source : ErrorSource, id ≠ source.irq
  | .pass up => Svc.OwnFaults platformFaults up ∧ s.overruns.now < 2 ^ 32 ∧ s.bytes.now < 2 ^ 32 ∧
      ∀ i, (s.drops i).now < 2 ^ 32
  | .fault (.report id _) => id ∉ platformFaults
  | .fault (.service up _) => Svc.OwnFaults platformFaults up
  | .fault (.collect _) => False
  | .wait _ | .receive _ | .read _ | .interrupt .. | .service _ | .fault (.clear _) | .fault .tick => True

structure Told (s : Platform) : Prop where
  overruns : s.overruns.Shown s.exec.overrunEvents s.v.fdir.seenOverruns
  bytes : s.bytes.Shown s.rx.dropped s.v.fdir.seenUartOverflow
  drops : ∀ i, (s.drops i).Shown (s.irq i).dropped (s.v.fdir.seenIrqDropped i)
  valid : ∀ i, (s.irq i).q.Valid ∧ (s.irq i).q.mask = 7
  events : ∀ source : ErrorSource, s.v.details source.fault ++
    (s.irq source.irq).events.map IrqEvent.datum = kept (s.raised source.irq)
  refused : ∀ i, (s.raised i).countP (fun x => !x.2) = (s.drops i).total
  overrunReports : (s.v.details .cycleOverrun).length = s.overruns.past.sum
  byteReports : (s.v.details .uartRxOverflow).length = s.bytes.busy
  lastBytes : s.bytes.past.sum ≠ 0 →
    (s.v.details .uartRxOverflow).getLast? = some (UInt32.ofNat s.bytes.past.sum)
  dropReports : ∀ i, (s.v.details .irqOverflow).count i.code = (s.drops i).busy

theorem valid_init : ({} : IrqSlot).q.Valid := ⟨⟨3, by decide, rfl⟩, by decide⟩

theorem told_init : Told {} where
  overruns := Tally.shown_init
  bytes := Tally.shown_init
  drops _ := Tally.shown_init
  valid _ := ⟨valid_init, rfl⟩
  events source := by cases source <;> rfl
  refused _ := rfl
  overrunReports := rfl
  byteReports := rfl
  lastBytes h := absurd rfl h
  dropReports _ := rfl

variable {s : Platform}

/-- What the rest of the system does to the fault service. -/
theorem Told.elsewhere (h : Told s) {v : Svc} (hv : Elsewhere platformFaults s.v v) : Told { s with v } where
  overruns := by
    rw [hv.overruns]
    exact h.overruns
  bytes := by
    rw [hv.bytes]
    exact h.bytes
  drops i := by
    rw [hv.drops]
    exact h.drops i
  valid := h.valid
  events source := by
    rw [hv.details _ (by cases source <;> decide)]
    exact h.events source
  refused := h.refused
  overrunReports := by
    rw [hv.details _ (by decide)]
    exact h.overrunReports
  byteReports := by
    rw [hv.details _ (by decide)]
    exact h.byteReports
  lastBytes := by
    rw [hv.details _ (by decide)]
    exact h.lastBytes
  dropReports i := by
    rw [hv.details _ (by decide)]
    exact h.dropReports i

theorem Told.wait (h : Told s) (pending : UInt32) : Told (s.step (.wait pending)) := by
  simp only [step, Exec.accountOverrun]
  split
  · exact { h with overruns := h.overruns.bump }
  · exact h

theorem dropped_push (byte : UInt8) (r : Ring) :
    (r.push byte).2.dropped = if (r.push byte).1 then r.dropped else r.dropped + 1 := by
  unfold Ring.push
  cases r.cells.push byte with
  | none => rfl
  | some cells => rfl

theorem Told.receive (h : Told s) (byte : UInt8) : Told (s.step (.receive byte)) := by
  have hdropped := dropped_push byte s.rx
  simp only [step]
  generalize s.rx.push byte = pushed at hdropped ⊢
  obtain ⟨stored, rx⟩ := pushed
  have hbytes := h.bytes
  cases stored with
  | true =>
    refine { h with bytes := ?_ }
    show s.bytes.Shown rx.dropped _
    rwa [hdropped]
  | false =>
    refine { h with bytes := ?_ }
    show s.bytes.bump.Shown rx.dropped _
    rw [hdropped]
    exact hbytes.bump

theorem dropped_read (max : ℕ) (r : Ring) : (r.read max).2.dropped = r.dropped := by
  induction max generalizing r with
  | zero => rfl
  | succ max ih =>
    unfold Ring.read
    cases r.cells.pop with
    | none => rfl
    | some p => exact ih { r with cells := p.2 }

theorem Told.read (h : Told s) (max : ℕ) : Told (s.step (.read max)) := by
  refine { h with bytes := ?_ }
  show s.bytes.Shown (s.rx.read max).2.dropped _
  rw [dropped_read]
  exact h.bytes

/-- What holds of the slot that has changed holds of each. -/
theorem Told.of_slot (h : Told s) {id : IrqId} {slot : IrqSlot} {raised : List (UInt32 × Bool)} {drops : Tally}
    (hshown : drops.Shown slot.dropped (s.v.fdir.seenIrqDropped id)) (hvalid : slot.q.Valid ∧ slot.q.mask = 7)
    (hevents : ∀ source : ErrorSource, source.irq = id →
      s.v.details source.fault ++ slot.events.map IrqEvent.datum = kept raised)
    (hrefused : raised.countP (fun x => !x.2) = drops.total) (hbusy : drops.busy = (s.drops id).busy) :
    Told { s with
      irq := Function.update s.irq id slot
      raised := Function.update s.raised id raised
      drops := Function.update s.drops id drops } := by
  refine { h with drops := fun i => ?_, valid := fun i => ?_, events := fun source => ?_,
                  refused := fun i => ?_, dropReports := fun i => ?_ }
  · by_cases hi : i = id
    · subst hi
      simpa using hshown
    · simpa [hi] using h.drops i
  · by_cases hi : i = id
    · subst hi
      simpa using hvalid
    · simpa [hi] using h.valid i
  · by_cases hi : source.irq = id
    · simpa [hi] using hevents source hi
    · simpa [hi] using h.events source
  · by_cases hi : i = id
    · subst hi
      simpa using hrefused
    · simpa [hi] using h.refused i
  · by_cases hi : i = id
    · subst hi
      simpa [hbusy] using h.dropReports i
    · simpa [hi] using h.dropReports i

theorem Told.interrupt (h : Told s) (id : IrqId) (tick datum : UInt32) (kind : UInt16) :
    Told (s.step (.interrupt id tick datum kind)) := by
  by_cases hfull : s.full id = true
  · have hlt : (s.irq id).q.mask < (s.irq id).q.head - (s.irq id).q.tail := of_decide_eq_true hfull
    have hstep : s.step (.interrupt id tick datum kind) = { s with
        irq := Function.update s.irq id ((s.irq id).publish tick datum kind)
        raised := Function.update s.raised id (s.raised id ++ [(datum, false)])
        drops := Function.update s.drops id (s.drops id).bump } := by
      rw [step, hfull]
      rfl
    rw [hstep, IrqSlot.publish_of_full hlt]
    refine h.of_slot (h.drops id).bump ?_ ?_ ?_ rfl
    · exact h.valid id
    · rintro source rfl
      rw [kept_concat, if_neg Bool.false_ne_true, List.append_nil]
      exact h.events source
    · rw [List.countP_append, h.refused]
      rfl
  · have hroom : (s.irq id).events.length ≤ (s.irq id).q.mask.toNat := by
      rw [IrqSlot.events, SlotRing.length_contents]
      exact UInt32.le_iff_toNat_le.mp (UInt32.not_lt.mp fun hlt => hfull (decide_eq_true hlt))
    obtain ⟨hvalid, hmask⟩ := IrqSlot.publish_spec (h.valid id).1 tick datum kind
    obtain ⟨hevents, hdropped⟩ := IrqSlot.publish_of_room (h.valid id).1 hroom tick datum kind
    have hstep : s.step (.interrupt id tick datum kind) = { s with
        irq := Function.update s.irq id ((s.irq id).publish tick datum kind)
        raised := Function.update s.raised id (s.raised id ++ [(datum, true)])
        drops := Function.update s.drops id (s.drops id) } := by
      have hnot : s.full id = false := Bool.eq_false_iff.mpr hfull
      rw [step, hnot, Function.update_eq_self]
      rfl
    rw [hstep]
    refine h.of_slot ?_ ⟨hvalid, hmask.trans (h.valid id).2⟩ ?_ ?_ rfl
    · rw [hdropped]
      exact h.drops id
    · rintro source rfl
      rw [hevents, List.map_append, ← List.append_assoc, h.events source, kept_concat, if_pos rfl]
      rfl
    · rw [List.countP_append, h.refused]
      rfl

theorem Told.take (h : Told s) {id : IrqId} (hid : ∀ source : ErrorSource, id ≠ source.irq) :
    Told (s.step (.take id)) := by
  cases htake : (s.irq id).take with
  | none =>
    rw [step, htake]
    exact h
  | some p =>
    obtain ⟨e, slot⟩ := p
    obtain ⟨hvalid, hmask, -⟩ := IrqSlot.take_spec (h.valid id).1 htake
    have hstep : s.step (.take id) = { s with
        irq := Function.update s.irq id slot
        raised := Function.update s.raised id (s.raised id)
        drops := Function.update s.drops id (s.drops id) } := by
      rw [step, htake, Function.update_eq_self, Function.update_eq_self]
    rw [hstep]
    refine h.of_slot ?_ ⟨hvalid, hmask.trans (h.valid id).2⟩ ?_ (h.refused id) rfl
    · rw [IrqSlot.take_dropped htake]
      exact h.drops id
    · intro source hsource
      exact absurd hsource.symm (hid source)

/-- An event goes from its queue to the reports of its class. -/
theorem Told.service (h : Told s) (source : ErrorSource) : Told (s.step (.service source)) := by
  cases htake : (s.irq source.irq).take with
  | none =>
    rw [step, htake]
    exact h
  | some p =>
    obtain ⟨e, slot⟩ := p
    obtain ⟨hvalid, hmask, hevents⟩ := IrqSlot.take_spec (h.valid source.irq).1 htake
    have hdropped := IrqSlot.take_dropped htake
    have hother (c : FaultId) (hc : c ≠ source.fault) :
        (s.v.report source.fault e.datum).details c = s.v.details c := by
      rw [details_report, if_neg (Ne.symm hc), List.append_nil]
    rw [step, htake]
    refine { h with drops := fun i => ?_, valid := fun i => ?_, events := fun other => ?_,
                    overrunReports := ?_, byteReports := ?_, lastBytes := ?_, dropReports := fun i => ?_ }
    · show (s.drops i).Shown (Function.update s.irq source.irq slot i).dropped (s.v.fdir.seenIrqDropped i)
      by_cases hi : i = source.irq
      · subst hi
        rw [Function.update_self, hdropped]
        exact h.drops source.irq
      · rw [Function.update_of_ne hi]
        exact h.drops i
    · by_cases hi : i = source.irq
      · subst hi
        simpa using And.intro hvalid (hmask.trans (h.valid source.irq).2)
      · simpa [hi] using h.valid i
    · by_cases hi : other = source
      · subst hi
        have hbefore := h.events other
        rw [hevents, List.map_cons] at hbefore
        simp only [details_report, ↓reduceIte, Function.update_self, List.append_assoc]
        exact hbefore
      · have hirq : other.irq ≠ source.irq := by
          cases other <;> cases source <;> first | exact absurd rfl hi | decide
        have hfault : other.fault ≠ source.fault := by
          cases other <;> cases source <;> first | exact absurd rfl hi | decide
        dsimp only
        rw [hother _ hfault, Function.update_of_ne hirq]
        exact h.events other
    · rw [hother _ (by cases source <;> decide)]
      exact h.overrunReports
    · rw [hother _ (by cases source <;> decide)]
      exact h.byteReports
    · rw [hother _ (by cases source <;> decide)]
      exact h.lastBytes
    · rw [hother _ (by cases source <;> decide)]
      exact h.dropReports i

theorem IrqId.code_injective : Function.Injective IrqId.code := by
  intro i j
  cases i <;> cases j <;> decide

/-- Each of the sources that are told of is told of once, and no other. -/
theorem count_code (p : IrqId → Bool) (i : IrqId) :
    ((IrqId.all.filter p).map IrqId.code).count i.code = if p i then 1 else 0 := by
  rw [List.count_map_of_injective _ _ IrqId.code_injective]
  split
  · rename_i hi
    rw [List.count_filter hi]
    cases i <;> rfl
  · rename_i hi
    exact List.count_eq_zero_of_not_mem fun hmem => hi (List.mem_filter.mp hmem).2

theorem Told.pass (h : Told s) {up : Option Uplink} (hup : Svc.OwnFaults platformFaults up)
    (hover : s.overruns.now < 2 ^ 32) (hbytes : s.bytes.now < 2 ^ 32)
    (hdrops : ∀ i, (s.drops i).now < 2 ^ 32) : Told (s.step (.pass up)) := by
  have hcollected := collected s.counters s.v
  -- behind the collection the service reports nothing of the platform
  have hrest := elsewhere_loop hup FaultId.serviced (collectPlatformCounters s.counters s.v)
  have hpass : errorHandlingService up s.counters s.v =
      FaultId.serviced.foldl (serviceClass up) (collectPlatformCounters s.counters s.v) := rfl
  rw [← hpass] at hrest
  have hlost : s.counters.uartOverflow ≠ s.v.fdir.seenUartOverflow ↔ 0 < s.bytes.now := h.bytes.ne_iff hbytes
  rw [step]
  generalize errorHandlingService up s.counters s.v = w at hrest ⊢
  refine ⟨?_, ?_, fun i => ?_, h.valid, fun source => ?_, fun i => ?_, ?_, ?_, fun hsum => ?_, fun i => ?_⟩
  · rw [hrest.overruns, hcollected.seenOverruns]
    exact h.overruns.look
  · rw [hrest.bytes, hcollected.seenBytes]
    exact h.bytes.look
  · rw [hrest.drops, hcollected.seenDrops]
    exact (h.drops i).look
  · have hsame : w.details source.fault = s.v.details source.fault := by
      rw [hrest.details _ (by cases source <;> decide)]
      cases source with
      | plError => exact hcollected.plError
      | watchdog => exact hcollected.watchdogExpiry
    dsimp only
    rw [hsame]
    exact h.events source
  · exact (h.refused i).trans (s.drops i).total_look.symm
  · have hdelta : (s.counters.overrunEvents - s.v.fdir.seenOverruns).toNat = s.overruns.now :=
      h.overruns.sub hover
    dsimp only
    rw [hrest.details _ (by decide), hcollected.overruns, hdelta, List.length_append, h.overrunReports,
      List.length_replicate, Tally.sum_look]
  · dsimp only
    rw [hrest.details _ (by decide), hcollected.bytes, List.length_append, h.byteReports, Tally.busy_look]
    by_cases hnow : 0 < s.bytes.now
    · rw [if_pos (hlost.mpr hnow), if_pos hnow]
      rfl
    · rw [if_neg (mt hlost.mp hnow), if_neg hnow]
      rfl
  · rw [Tally.sum_look] at hsum
    dsimp only
    rw [hrest.details _ (by decide), hcollected.bytes, Tally.sum_look]
    by_cases hnow : 0 < s.bytes.now
    · rw [if_pos (hlost.mpr hnow), List.getLast?_concat]
      exact congrArg some h.bytes.counter
    · have hzero : s.bytes.now = 0 := Nat.eq_zero_of_not_pos hnow
      rw [hzero, Nat.add_zero] at hsum ⊢
      rw [if_neg (mt hlost.mp hnow), List.append_nil]
      exact h.lastBytes hsum
  · dsimp only
    rw [hrest.details _ (by decide), hcollected.drops, List.count_append, count_code, h.dropReports,
      Tally.busy_look]
    have hdropped : s.counters.irqDropped i ≠ s.v.fdir.seenIrqDropped i ↔ 0 < (s.drops i).now :=
      (h.drops i).ne_iff (hdrops i)
    simp only [hdropped, decide_eq_true_eq]

theorem Told.fault (h : Told s) {op : FaultOp} (hop : Proper s (.fault op)) : Told (s.step (.fault op)) := by
  cases op with
  | report id detail => exact h.elsewhere (elsewhere_report hop detail s.v)
  | clear id => exact h.elsewhere (elsewhere_clear id s.v)
  | collect c => exact absurd hop id
  | service up id => exact h.elsewhere (elsewhere_serviceClass hop s.v id)
  | tick => exact { h with }

theorem told_step {op : PlatformOp} (h : Told s) (hop : Proper s op) : Told (s.step op) := by
  cases op with
  | wait pending => exact h.wait pending
  | receive byte => exact h.receive byte
  | read max => exact h.read max
  | interrupt id tick datum kind => exact h.interrupt id tick datum kind
  | take id => exact h.take hop
  | service source => exact h.service source
  | pass up => exact h.pass hop.1 hop.2.1 hop.2.2.1 hop.2.2.2
  | fault op => exact h.fault hop

theorem told_run {ops : List PlatformOp} (h : Along step Proper {} ops) : Told (run step {} ops) :=
  @run_invariant _ _ step Proper Told (fun _ _ hs hop => told_step hs hop) {} ops told_init h

theorem Told.length_le (h : Told s) (id : IrqId) : (s.irq id).events.length ≤ 8 := by
  obtain ⟨hvalid, hmask⟩ := h.valid id
  have hcount := hvalid.count_le
  rw [hmask] at hcount
  rw [IrqSlot.events, SlotRing.length_contents]
  exact hcount

theorem Told.serviced (h : Told s) {n : ℕ} (hn : 8 ≤ n) :
    let c := serviceInterrupts n (s.irq .plError) (s.irq .watchdog) s.v
    c.1.events = [] ∧ c.2.1.events = [] ∧ details .plError c.2.2 = kept (s.raised .plError) ∧
      details .watchdogExpiry c.2.2 = kept (s.raised .watchdog) := by
  have hfirst : s.v.details .plError ++ (s.irq .plError).events.map IrqEvent.datum =
      kept (s.raised .plError) := h.events .plError
  have hsecond : s.v.details .watchdogExpiry ++ (s.irq .watchdog).events.map IrqEvent.datum =
      kept (s.raised .watchdog) := h.events .watchdog
  obtain ⟨hempty, hdetails⟩ := drain_all .plError (h.valid .plError).1 ((h.length_le .plError).trans hn) s.v
  simp only [serviceInterrupts]
  generalize drain .plError n (s.irq .plError) s.v = c at hempty hdetails ⊢
  obtain ⟨hempty', hdetails'⟩ :=
    drain_all .watchdogExpiry (h.valid .watchdog).1 ((h.length_le .watchdog).trans hn) c.2
  refine ⟨hempty, hempty', ?_, ?_⟩
  · rw [hdetails', hdetails]
    simpa using hfirst
  · rw [hdetails', hdetails]
    simpa using hsecond

/-- In every run in which nobody else reports for the platform: the events of the two error sources are
reported with their data in the order they were queued, each once, and those that wait are when the
interrupts are serviced; the reports of overrun cycles are as many as the overruns up to the last pass; and
each other kind of loss is reported once in every pass that finds that there has been one since the pass
before, the last report of lost bytes with the count of them all. -/
theorem losses_told {ops : List PlatformOp} (h : Along step Proper {} ops) :
    let s := run step {} ops
    (∀ source : ErrorSource, s.v.details source.fault ++
      (s.irq source.irq).events.map IrqEvent.datum = kept (s.raised source.irq)) ∧
    (∀ n, 8 ≤ n →
      let c := serviceInterrupts n (s.irq .plError) (s.irq .watchdog) s.v
      c.1.events = [] ∧ c.2.1.events = [] ∧ details .plError c.2.2 = kept (s.raised .plError) ∧
        details .watchdogExpiry c.2.2 = kept (s.raised .watchdog)) ∧
    (s.v.details .cycleOverrun).length + s.overruns.now = s.overruns.total ∧
    (s.v.details .uartRxOverflow).length = s.bytes.busy ∧
    (s.bytes.past.sum ≠ 0 →
      (s.v.details .uartRxOverflow).getLast? = some (UInt32.ofNat s.bytes.past.sum)) ∧
    ∀ i, (s.v.details .irqOverflow).count i.code = (s.drops i).busy ∧
      (s.raised i).countP (fun x => !x.2) = (s.drops i).total := by
  intro s
  have hs : Told s := told_run h
  refine ⟨hs.events, fun n hn => hs.serviced hn, ?_, hs.byteReports, hs.lastBytes, fun i => ?_⟩
  · rw [hs.overrunReports]
    rfl
  · exact ⟨hs.dropReports i, hs.refused i⟩

/-- The queue of an error source overflows, a wait is late, and one event is taken before the pass. -/
def overflowed : List PlatformOp :=
  List.replicate 9 (.interrupt .plError 4 0x20 0) ++ [.wait 3, .service .plError, .fault .tick, .pass none]

theorem losses_told_overflowed :
    let s := run step {} overflowed
    (∀ source : ErrorSource, s.v.details source.fault ++
      (s.irq source.irq).events.map IrqEvent.datum = kept (s.raised source.irq)) ∧
    (∀ n, 8 ≤ n →
      let c := serviceInterrupts n (s.irq .plError) (s.irq .watchdog) s.v
      c.1.events = [] ∧ c.2.1.events = [] ∧ details .plError c.2.2 = kept (s.raised .plError) ∧
        details .watchdogExpiry c.2.2 = kept (s.raised .watchdog)) ∧
    (s.v.details .cycleOverrun).length + s.overruns.now = s.overruns.total ∧
    (s.v.details .uartRxOverflow).length = s.bytes.busy ∧
    (s.bytes.past.sum ≠ 0 →
      (s.v.details .uartRxOverflow).getLast? = some (UInt32.ofNat s.bytes.past.sum)) ∧
    ∀ i, (s.v.details .irqOverflow).count i.code = (s.drops i).busy ∧
      (s.raised i).countP (fun x => !x.2) = (s.drops i).total := by
  refine losses_told ⟨trivial, trivial, trivial, trivial, trivial, trivial, trivial, trivial, trivial, trivial,
    trivial, trivial, ⟨nofun, by decide +kernel, by decide +kernel, fun i => ?_⟩, trivial⟩
  cases i <;> decide +kernel

example : (run step {} overflowed).v.details .plError = [0x20] ∧
    (run step {} overflowed).v.details .irqOverflow = [IrqId.plError.code] ∧
    (run step {} overflowed).v.details .cycleOverrun = [2] := by
  decide +kernel

end Platform

end QiranFirmware
