import QiranFirmware.Types

/-! # Uptime and timeouts

`svc_time.c` extends the 32-bit tick counter of the interrupt to 64 bits by difference, each
time the loop asks for the time, and builds one-shot timeouts on it.
-/
namespace QiranFirmware

def minorCycleMs : UInt64 := 20

structure Time where
  lastRaw : UInt32 := 0
  ticks : UInt64 := 0
  epochMs : UInt64 := 0
  epochValid : Bool := false
  deriving DecidableEq, Repr

structure Timeout where
  deadlineMs : UInt64 := 0
  armed : Bool := false
  deriving DecidableEq, Repr

namespace Time

def init (raw : UInt32) : Time := { lastRaw := raw }

/-- The collection that `svc_time_now_ms` makes before it answers. -/
def collect (t : Time) (raw : UInt32) : Time :=
  { t with ticks := t.ticks + (raw - t.lastRaw).toUInt64, lastRaw := raw }

def nowMs (t : Time) (raw : UInt32) : UInt64 := (t.collect raw).ticks * minorCycleMs

def epochSet (obcTimeMs : UInt64) (t : Time) (raw : UInt32) : Time :=
  { t.collect raw with epochMs := obcTimeMs - t.nowMs raw, epochValid := true }

def epochNowMs (t : Time) (raw : UInt32) : UInt64 := t.epochMs + t.nowMs raw

end Time

namespace Timeout

def arm (nowMs : UInt64) (durationMs : UInt32) : Timeout :=
  { deadlineMs := nowMs + durationMs.toUInt64, armed := true }

def disarm (t : Timeout) : Timeout := { t with armed := false }

def expired (t : Timeout) (nowMs : UInt64) : Bool := t.armed && decide (t.deadlineMs ≤ nowMs)

def remainingMs (t : Timeout) (nowMs : UInt64) : UInt32 :=
  if !t.armed then 0 else if t.deadlineMs ≤ nowMs then 0 else (t.deadlineMs - nowMs).toUInt32

def elapsedMs (t : Timeout) (durationMs : UInt32) (nowMs : UInt64) : UInt32 :=
  durationMs - t.remainingMs nowMs

end Timeout

end QiranFirmware
