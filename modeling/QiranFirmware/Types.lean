import Mathlib.Data.Fintype.Defs
import Mathlib.Logic.Function.Basic

/-! # Status codes, fault classes and interrupt sources

The enumerations of `qiran_types.h`, `svc_fault.h` and `plat_irq.h`. The sentinel
enumerators (`QIRAN_FAULT_COUNT` and its like) are not values of these types, so the range
checks that only reject a sentinel have no branch in the functions that take them.
-/
namespace QiranFirmware

inductive Status
  | ok | errParam | errState | errTimeout | errHardware | errRange | errIntegrity | errBusy
  | errUnsupported
  deriving DecidableEq, Repr

/-- The enumerator's value, which is what a fault detail carries. -/
def Status.code (s : Status) : UInt32 := UInt32.ofNat s.ctorIdx

inductive PayloadStatus
  | nonOperational | operational
  deriving DecidableEq, Repr

inductive Severity
  | minor | medium | critical | severe
  deriving DecidableEq, Repr

inductive Escalation
  | logOnly | report | powerReset
  deriving DecidableEq, Repr

inductive FaultId
  | none
  | bootImage | safeOutputs | post | devinit | linkEstablish | cycleOverrun | irqOverflow
  | uartRxOverflow | plError | watchdogExpiry | memory | config | stageTimeout | precond
  | controlLoop
  | overcurrent | brownout | temperature
  | laserTec | laserPower | mrrLock | crowTune | umziTune | dliLock | mrrRelock
  | spadOpticalPower | spadDarkCount
  | spwLink | packetIntegrity | packetSequence | outputQueue | hkSample | hkTransmit
  | commandRejected | commandFailed
  | ddrOverrun | nandWrite | bufferOwnership | dataProduct
  deriving DecidableEq, Repr

namespace FaultId

def code (f : FaultId) : UInt16 := UInt16.ofNat f.ctorIdx

/-- The classes `error_handling_service` walks through: `1U` up to `QIRAN_FAULT_COUNT - 1`. -/
def serviced : List FaultId :=
  [bootImage, safeOutputs, post, devinit, linkEstablish, cycleOverrun, irqOverflow,
   uartRxOverflow, plError, watchdogExpiry, memory, config, stageTimeout, precond, controlLoop,
   overcurrent, brownout, temperature,
   laserTec, laserPower, mrrLock, crowTune, umziTune, dliLock, mrrRelock,
   spadOpticalPower, spadDarkCount,
   spwLink, packetIntegrity, packetSequence, outputQueue, hkSample, hkTransmit,
   commandRejected, commandFailed,
   ddrOverrun, nandWrite, bufferOwnership, dataProduct]

theorem mem_serviced {f : FaultId} : f ∈ serviced ↔ f ≠ none := by
  cases f <;> decide

instance : Fintype FaultId where
  elems := ⟨none :: serviced, by decide⟩
  complete f := by cases f <;> decide

end FaultId

inductive IrqId
  | timer | watchdog | dma | spw | uart | plError
  deriving DecidableEq, Repr

namespace IrqId

def code (i : IrqId) : UInt32 := UInt32.ofNat i.ctorIdx

def all : List IrqId := [timer, watchdog, dma, spw, uart, plError]

end IrqId

end QiranFirmware
