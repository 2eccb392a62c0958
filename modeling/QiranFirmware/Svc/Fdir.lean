import QiranFirmware.Svc.Log
import QiranFirmware.Svc.Time

/-! # Fault detection, isolation and recovery

`svc_fdir.c`. Every fault is reported through `report`, from any context; the loop classifies
what is new, escalates it to the observer, and clears a class on success.

`Svc` is what the services share. Its `trace` has no counterpart in the source: it lists the
service calls in the order they are made, which is what the temporal statements talk about.
-/
namespace QiranFirmware

structure Policy where
  severity : Severity
  escalation : Escalation
  limit : UInt16
  deriving DecidableEq, Repr

def stageRetry : UInt16 := 3

def bootRetry : UInt16 := 3

def reentryLimit : UInt32 := 5

def policy : FaultId → Policy
  | .none => ⟨.minor, .logOnly, 0⟩
  | .bootImage => ⟨.critical, .powerReset, bootRetry⟩
  | .safeOutputs => ⟨.severe, .report, 0⟩
  | .post => ⟨.critical, .powerReset, bootRetry⟩
  | .devinit => ⟨.critical, .powerReset, bootRetry⟩
  | .linkEstablish => ⟨.critical, .powerReset, bootRetry⟩
  | .cycleOverrun => ⟨.critical, .report, 5⟩
  | .irqOverflow => ⟨.medium, .logOnly, 0⟩
  | .uartRxOverflow => ⟨.minor, .logOnly, 0⟩
  | .plError => ⟨.critical, .report, 5⟩
  | .watchdogExpiry => ⟨.severe, .report, 0⟩
  | .memory => ⟨.critical, .powerReset, 3⟩
  | .config => ⟨.critical, .report, 3⟩
  | .stageTimeout => ⟨.critical, .report, 3⟩
  | .precond => ⟨.critical, .report, stageRetry⟩
  | .controlLoop => ⟨.critical, .report, 5⟩
  | .overcurrent => ⟨.severe, .powerReset, 0⟩
  | .brownout => ⟨.severe, .powerReset, 0⟩
  | .temperature => ⟨.severe, .powerReset, 0⟩
  | .laserTec => ⟨.critical, .report, stageRetry⟩
  | .laserPower => ⟨.critical, .report, stageRetry⟩
  | .mrrLock => ⟨.critical, .report, stageRetry⟩
  | .crowTune => ⟨.critical, .report, stageRetry⟩
  | .umziTune => ⟨.critical, .report, stageRetry⟩
  | .dliLock => ⟨.critical, .report, stageRetry⟩
  | .mrrRelock => ⟨.critical, .report, stageRetry⟩
  | .spadOpticalPower => ⟨.severe, .report, 0⟩
  | .spadDarkCount => ⟨.medium, .logOnly, 0⟩
  | .spwLink => ⟨.critical, .report, 3⟩
  | .packetIntegrity => ⟨.medium, .logOnly, 0⟩
  | .packetSequence => ⟨.medium, .logOnly, 0⟩
  | .outputQueue => ⟨.critical, .report, 5⟩
  | .hkSample => ⟨.medium, .logOnly, 0⟩
  | .hkTransmit => ⟨.critical, .report, 5⟩
  | .commandRejected => ⟨.minor, .logOnly, 0⟩
  | .commandFailed => ⟨.critical, .report, 3⟩
  | .ddrOverrun => ⟨.critical, .report, 3⟩
  | .nandWrite => ⟨.critical, .report, 3⟩
  | .bufferOwnership => ⟨.critical, .report, 3⟩
  | .dataProduct => ⟨.medium, .logOnly, 0⟩

theorem limit_ne_zero_iff (c : FaultId) : (policy c).limit ≠ 0 ↔ (policy c).severity = .critical := by
  cases c <;> decide

theorem escalation_ne_logOnly {c : FaultId}
    (h : (policy c).severity = .critical ∨ (policy c).severity = .severe) :
    (policy c).escalation ≠ .logOnly := by
  cases c <;> revert h <;> decide

structure FaultRecord where
  occurrences : UInt32 := 0
  escalations : UInt32 := 0
  lastTick : UInt32 := 0
  lastDetail : UInt32 := 0
  flag : Bool := false
  elevated : Bool := false
  deriving DecidableEq, Repr

structure Fdir where
  reported : FaultId → UInt32 := fun _ => 0
  serviced : FaultId → UInt32 := fun _ => 0
  detail : FaultId → UInt32 := fun _ => 0
  tick : FaultId → UInt32 := fun _ => 0
  record : FaultId → FaultRecord := fun _ => {}
  bySeverity : Severity → UInt32 := fun _ => 0
  undelivered : UInt32 := 0
  reentries : UInt32 := 0
  seenOverruns : UInt32 := 0
  seenUartOverflow : UInt32 := 0
  seenIrqDropped : IrqId → UInt32 := fun _ => 0

inductive UplinkCall
  | reportFlag (id : FaultId) (severity : Severity) (detail : UInt32)
  | requestPowerReset (id : FaultId)
  deriving DecidableEq, Repr

def UplinkCall.fault : UplinkCall → FaultId
  | .reportFlag id _ _ => id
  | .requestPowerReset id => id

/-- An attached uplink, as it answers during one pass: its status, and the faults that its own
delivery reports before it returns. -/
abbrev Uplink := UplinkCall → Status × List (FaultId × UInt32)

inductive SvcCall
  | report (id : FaultId) (detail : UInt32)
  | clear (id : FaultId)
  | logFault (id : FaultId) (severity : Severity) (detail : UInt32)
  | logEvent (code : UInt16) (detail : UInt32)
  | escalate (id : FaultId) (detail : UInt32)
  | uplink (call : UplinkCall)
  deriving DecidableEq, Repr

structure Svc where
  rawTick : UInt32 := 0
  fdir : Fdir := {}
  log : Log := Log.init
  time : Time := {}
  trace : List SvcCall := []

/-- What `collect_platform_counters` reads: `exec_stats_get`, `plat_isr_uart_overflow` and
`plat_irq_stats_get`. -/
structure PlatformCounters where
  overrunEvents : UInt32 := 0
  overrunCyclesLost : UInt32 := 0
  uartOverflow : UInt32 := 0
  irqDropped : IrqId → UInt32 := fun _ => 0

namespace Svc

def tick (v : Svc) : Svc := { v with rawTick := v.rawTick + 1 }

def nowMs (v : Svc) : UInt64 := v.time.nowMs v.rawTick
def collectTime (v : Svc) : Svc := { v with time := v.time.collect v.rawTick }

/-- `svc_timeout_expired`, which asks for the time only of an armed timeout. -/
def timeoutExpired (t : Timeout) (v : Svc) : Bool × Svc :=
  (t.expired v.nowMs, if t.armed then v.collectTime else v)

def logEvent (code : UInt16) (detail : UInt32) (v : Svc) : Svc :=
  { v with
    log := v.log.push v.rawTick code .event 0 detail
    trace := v.trace ++ [.logEvent code detail] }

def logFault (id : FaultId) (severity : Severity) (detail : UInt32) (v : Svc) : Svc :=
  { v with
    log := v.log.push v.rawTick id.code .fault (UInt8.ofNat severity.ctorIdx) detail
    trace := v.trace ++ [.logFault id severity detail] }

def report (id : FaultId) (detail : UInt32) (v : Svc) : Svc :=
  { v with
    fdir := { v.fdir with
      reported := Function.update v.fdir.reported id (v.fdir.reported id + 1)
      detail := Function.update v.fdir.detail id detail
      tick := Function.update v.fdir.tick id v.rawTick }
    trace := v.trace ++ [.report id detail] }

def reportAll (faults : List (FaultId × UInt32)) (v : Svc) : Svc :=
  faults.foldl (fun v f => v.report f.1 f.2) v

/-- A call of the uplink, and the count of it when it is not delivered. Without an uplink the
status is `QIRAN_ERR_UNSUPPORTED`. -/
def deliver (up : Option Uplink) (call : UplinkCall) (v : Svc) : Svc :=
  match up with
  | none => { v with fdir := { v.fdir with undelivered := v.fdir.undelivered + 1 } }
  | some up =>
    let w := reportAll (up call).2 { v with trace := v.trace ++ [.uplink call] }
    if (up call).1 = .ok then w
    else { w with fdir := { w.fdir with undelivered := w.fdir.undelivered + 1 } }

def escalate (up : Option Uplink) (id : FaultId) (detail : UInt32) (v : Svc) : Svc :=
  let r := v.fdir.record id
  let v := { v with
    fdir := { v.fdir with
      record := Function.update v.fdir.record id { r with escalations := r.escalations + 1 } }
    trace := v.trace ++ [.escalate id detail] }
  match (policy id).escalation with
  | .report => deliver up (.reportFlag id (policy id).severity detail) v
  | .powerReset => deliver up (.requestPowerReset id) v
  | .logOnly => v

/-- The record, the tier total and the log entry that `classify` makes for every tier. -/
def note (id : FaultId) (occurrences : UInt32) (v : Svc) : Svc :=
  let r := v.fdir.record id
  let severity := (policy id).severity
  let v := { v with
    fdir := { v.fdir with
      record := Function.update v.fdir.record id { r with
        occurrences := r.occurrences + occurrences
        lastDetail := v.fdir.detail id
        lastTick := v.fdir.tick id
        flag := true }
      bySeverity := Function.update v.fdir.bySeverity severity
        (v.fdir.bySeverity severity + occurrences) } }
  v.logFault id severity (v.fdir.detail id)

def elevate (id : FaultId) (v : Svc) : Svc :=
  { v with fdir := { v.fdir with
      record := Function.update v.fdir.record id { v.fdir.record id with elevated := true } } }

def classify (up : Option Uplink) (id : FaultId) (occurrences : UInt32) (v : Svc) : Svc :=
  let detail := v.fdir.detail id
  let v := note id occurrences v
  match (policy id).severity with
  | .severe => escalate up id detail v
  | .critical =>
    if (policy id).limit ≠ 0 ∧ (policy id).limit.toUInt32 ≤ (v.fdir.record id).occurrences ∧
        (v.fdir.record id).elevated = false then
      escalate up id detail (elevate id v)
    else v
  | .medium => v
  | .minor => v

def collectOverruns (c : PlatformCounters) (v : Svc) : Svc :=
  if c.overrunEvents ≠ v.fdir.seenOverruns then
    let delta := c.overrunEvents - v.fdir.seenOverruns
    (report .cycleOverrun c.overrunCyclesLost)^[delta.toNat]
      { v with fdir := { v.fdir with seenOverruns := c.overrunEvents } }
  else v

def collectUartOverflow (c : PlatformCounters) (v : Svc) : Svc :=
  if c.uartOverflow ≠ v.fdir.seenUartOverflow then
    report .uartRxOverflow c.uartOverflow
      { v with fdir := { v.fdir with seenUartOverflow := c.uartOverflow } }
  else v

def collectIrqDropped (c : PlatformCounters) (v : Svc) (i : IrqId) : Svc :=
  if c.irqDropped i ≠ v.fdir.seenIrqDropped i then
    report .irqOverflow i.code
      { v with fdir := { v.fdir with
          seenIrqDropped := Function.update v.fdir.seenIrqDropped i (c.irqDropped i) } }
  else v

def collectPlatformCounters (c : PlatformCounters) (v : Svc) : Svc :=
  IrqId.all.foldl (collectIrqDropped c) (collectUartOverflow c (collectOverruns c v))

def unserviced (v : Svc) (id : FaultId) : UInt32 := v.fdir.reported id - v.fdir.serviced id

/-- The body of the loop in `error_handling_service`, for one class. -/
def serviceClass (up : Option Uplink) (v : Svc) (id : FaultId) : Svc :=
  let nnew := v.unserviced id
  if nnew = 0 then v
  else
    classify up id nnew { v with fdir := { v.fdir with
      serviced := Function.update v.fdir.serviced id (v.fdir.reported id) } }

def errorHandlingService (up : Option Uplink) (c : PlatformCounters) (v : Svc) : Svc :=
  FaultId.serviced.foldl (serviceClass up) (collectPlatformCounters c v)

def occurrences (v : Svc) (id : FaultId) : UInt32 :=
  (v.fdir.record id).occurrences + v.unserviced id

def retriesExhausted (v : Svc) (id : FaultId) : Bool :=
  if (policy id).limit = 0 then false
  else decide ((policy id).limit.toUInt32 ≤ v.occurrences id)

def clear (id : FaultId) (v : Svc) : Svc :=
  { v with
    fdir := { v.fdir with
      serviced := Function.update v.fdir.serviced id (v.fdir.reported id)
      record := Function.update v.fdir.record id { v.fdir.record id with
        occurrences := 0, flag := false, elevated := false } }
    trace := v.trace ++ [.clear id] }

def reentryNote (up : Option Uplink) (cause : FaultId) (v : Svc) : Svc :=
  let n := v.fdir.reentries + 1
  let v := logEvent cause.code n { v with fdir := { v.fdir with reentries := n } }
  if reentryLimit < n then escalate up cause n v else v

end Svc

end QiranFirmware
