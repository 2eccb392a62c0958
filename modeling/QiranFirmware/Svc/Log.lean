import QiranFirmware.Types
import QiranFirmware.Machine.SlotRing

/-! # The fault and event log

`svc_log.c`: a ring of `QIRAN_LOG_DEPTH` records. A full ring drops the newest record and
counts it, so the first faults of a cascade are the ones kept.
-/
namespace QiranFirmware
open Machine

inductive LogCategory
  | event | fault | trace
  deriving DecidableEq, Repr

structure LogRecord where
  tick : UInt32
  detail : UInt32
  code : UInt16
  severity : UInt8
  category : LogCategory
  deriving DecidableEq, Repr

structure Log where
  ring : SlotRing LogRecord
  dropped : UInt32 := 0
  total : UInt32 := 0
  faultTotal : UInt32 := 0

namespace Log

def mask : UInt32 := 127

def init : Log where
  ring := { slot := fun _ => ⟨0, 0, 0, 0, .event⟩, mask := mask }

def push (l : Log) (rawTick : UInt32) (code : UInt16) (category : LogCategory) (severity : UInt8)
    (detail : UInt32) : Log :=
  let kept := match l.ring.push ⟨rawTick, detail, code, severity, category⟩ with
    | none => { l with dropped := l.dropped + 1 }
    | some ring => { l with ring }
  { kept with
    total := kept.total + 1
    faultTotal := if category = .fault then kept.faultTotal + 1 else kept.faultTotal }

end Log

end QiranFirmware
