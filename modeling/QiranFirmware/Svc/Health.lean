import QiranFirmware.Svc.Fdir

/-! # Health monitors and the watchdog they hold

`svc_health.c` and `svc_watchdog.c`: checks that run on periods of their own, the verdict formed of
what they found, and the watchdog, which is only serviced while the verdict is healthy.
-/
namespace QiranFirmware

inductive HealthClass
  | advisory | gating
  deriving DecidableEq, Repr

inductive HealthVerdict
  | healthy | failed
  deriving DecidableEq, Repr

def HealthVerdict.code (s : HealthVerdict) : UInt32 := UInt32.ofNat s.ctorIdx

/-- What a check does when it is called: the faults it reports, the reading it leaves, and its
status. -/
structure CheckRun where
  status : Status := .ok
  value : UInt32 := 0
  reports : List (FaultId × UInt32) := []

structure Monitor where
  name : String
  fault : FaultId
  period : UInt32
  tolerance : UInt32
  countdown : UInt32
  gating : Bool
  runs : UInt32 := 0
  failures : UInt32 := 0
  consecutive : UInt32 := 0
  lastValue : UInt32 := 0
  lastStatus : Status := .ok

/-- The arguments of `svc_health_register`, but for the check itself. -/
structure Registration where
  name : String
  cls : HealthClass
  period : UInt32
  tolerance : UInt32
  fault : FaultId := .none

/-- The statics of `svc_health.c`. `called` has no counterpart in the source: it lists the monitors
whose checks the last pass has called. -/
structure Health where
  monitors : List Monitor := []
  state : HealthVerdict := .healthy
  transitions : UInt32 := 0
  called : List ℕ := []

namespace Monitor

def contributing (m : Monitor) : Bool := m.gating && m.tolerance < m.consecutive

/-- A turn of the loop in `health_check`, the check answering `run` if it is called, and whether it
is. -/
def check (run : CheckRun) (m : Monitor) (v : Svc) : Bool × Monitor × Svc :=
  if 1 < m.countdown then (false, { m with countdown := m.countdown - 1 }, v)
  else
    let v := v.reportAll run.reports
    let m := { m with
      countdown := m.period
      runs := m.runs + 1
      lastValue := run.value
      lastStatus := run.status }
    if run.status = .ok then (true, { m with consecutive := 0 }, v)
    else
      (true, { m with failures := m.failures + 1, consecutive := m.consecutive + 1 },
        if m.fault = .none then v else v.report m.fault run.value)

end Monitor

namespace Health

def monitorMax : ℕ := 16

/-- `svc_health_register` of a name and a check that are not null. -/
def register (r : Registration) (h : Health) : Status × Health :=
  if r.period = 0 then (.errParam, h)
  else if monitorMax ≤ h.monitors.length then (.errRange, h)
  else
    (.ok, { h with
      monitors := h.monitors ++ [{
        name := r.name
        fault := r.fault
        period := r.period
        tolerance := r.tolerance
        countdown := UInt32.ofNat h.monitors.length % r.period + 1
        gating := r.cls = .gating }] })

def registerAll (rs : List Registration) (h : Health) : Health :=
  rs.foldl (fun h r => (register r h).2) h

def builtIn : List Registration :=
  [{ name := "exec_timing", cls := .gating, period := 1, tolerance := 2 },
    { name := "config_integrity", cls := .gating, period := 25, tolerance := 1 }]

def init : Health := registerAll builtIn {}

/-- The loop of `health_check` from monitor `i` on, with the monitors whose checks it calls. -/
def checkFrom (answers : ℕ → CheckRun) : ℕ → List Monitor → Svc → List Monitor × List ℕ × Svc
  | _, [], v => ([], [], v)
  | i, m :: ms, v =>
    let (calls, m, v) := m.check (answers i) v
    let (ms, called, v) := checkFrom answers (i + 1) ms v
    (m :: ms, if calls then i :: called else called, v)

def check (answers : ℕ → CheckRun) (h : Health) (v : Svc) : Health × Svc :=
  let (monitors, called, v) := checkFrom answers 0 h.monitors v
  ({ h with monitors, called }, v)

def verdict (h : Health) : HealthVerdict :=
  if h.monitors.any Monitor.contributing then .failed else .healthy

def consolidate (h : Health) (v : Svc) : Health × Svc :=
  if h.verdict ≠ h.state then
    ({ h with state := h.verdict, transitions := h.transitions + 1 },
      v.logEvent FaultId.none.code h.verdict.code)
  else (h, v)

end Health

/-- A watchdog device: what its `arm` answers where there is one, and whether there is a `kick`. -/
structure WatchdogBackend where
  arm : Option Status
  kick : Bool

/-- The statics of `svc_watchdog.c`. `kicks` has no counterpart in the source: it counts the calls of
the device. -/
structure Watchdog where
  armed : Bool := false
  suppressed : UInt32 := 0
  kicks : ℕ := 0

namespace Watchdog

def init : Option WatchdogBackend → Status × Watchdog
  | none => (.ok, {})
  | some { arm := none, .. } | some { kick := false, .. } => (.errParam, {})
  | some { arm := some st, kick := true } =>
    if st ≠ .ok then (.errHardware, {}) else (.ok, { armed := true })

def tickleIfHealthy (state : HealthVerdict) (w : Watchdog) : Watchdog :=
  if state ≠ .healthy then { w with suppressed := w.suppressed + 1 }
  else if w.armed then { w with kicks := w.kicks + 1 }
  else w

end Watchdog

structure Supervision where
  health : Health := {}
  watchdog : Watchdog := {}
  v : Svc := {}

def Supervision.cycle (s : Supervision) (answers : ℕ → CheckRun) : Supervision :=
  let (health, v) := s.health.check answers s.v
  let (health, v) := health.consolidate v
  { health, v, watchdog := s.watchdog.tickleIfHealthy health.state }

end QiranFirmware
