import QiranFirmware.Types
import QiranFirmware.Machine.Runs
import QiranFirmware.Machine.Trace

/-! # The control loops

`photonic_sched.c` calls the services of the enabled loops once in each cycle. A service may itself
register, enable and disable loops before it returns.
-/
namespace QiranFirmware

open Machine

/-- `photonic_loop_id_t`, in the order in which the loops are serviced. -/
inductive LoopId
  | laserTec | mrr | crow | umzi | dli1 | dli2
  deriving DecidableEq, Repr

namespace LoopId

def all : List LoopId := [laserTec, mrr, crow, umzi, dli1, dli2]

def defaultName : LoopId → String
  | laserTec => "laser_tec"
  | mrr => "mrr"
  | crow => "crow"
  | umzi => "umzi"
  | dli1 => "dli1"
  | dli2 => "dli2"

end LoopId

variable {ι : Type}

/-- `loop_t`. A service is a function with its context; there is none where the pointer is null. -/
structure ControlLoop (ι : Type) where
  name : String
  service : Option ι := none
  fault : FaultId := .controlLoop
  registered : Bool := false
  enabled : Bool := false
  runs : UInt32 := 0
  failures : UInt32 := 0
  consecutive : UInt32 := 0
  cyclesLast : UInt32 := 0
  cyclesWorst : UInt32 := 0

inductive LoopCall (ι : Type)
  | register (id : LoopId) (name : Option String) (service : Option ι) (fault : FaultId)
  | enable (id : LoopId)
  | disable (id : LoopId)
  | disableAll

/-- What a service does: what it asks of the scheduler, its status, and the cycles it took. -/
structure LoopRun (ι : Type) where
  calls : List (LoopCall ι) := []
  status : Status := .ok
  elapsed : UInt32 := 0

inductive LoopEvent (ι : Type)
  | registered (id : LoopId) (service : ι) (fault : FaultId)
  | enabled (id : LoopId)
  | disabled (id : LoopId)
  | calling (id : LoopId) (service : Option ι)
  | returned (id : LoopId) (status : Status) (elapsed : UInt32)
  | reported (id : LoopId) (fault : FaultId) (detail : UInt32)

/-- The loops. `trace` has no counterpart in the source: it lists what has happened. -/
structure LoopSched (ι : Type) where
  loop : LoopId → ControlLoop ι := fun id => { name := id.defaultName }
  trace : List (LoopEvent ι) := []

namespace LoopEvent

def isCalling : LoopEvent ι → Bool
  | calling .. => true
  | _ => false

def called : LoopEvent ι → Option LoopId
  | calling id _ => some id
  | _ => none

def isReturn (id : LoopId) : LoopEvent ι → Bool
  | returned i _ _ => i == id
  | _ => false

def isFailure (id : LoopId) : LoopEvent ι → Bool
  | returned i status _ => i == id && status != .ok
  | _ => false

def isReset (id : LoopId) : LoopEvent ι → Bool
  | returned i status _ => i == id && status == .ok
  | enabled i => i == id
  | _ => false

def isReported (id : LoopId) : LoopEvent ι → Bool
  | reported i _ _ => i == id
  | _ => false

def active (id : LoopId) (t : List (LoopEvent ι)) : Bool :=
  t.foldl (fun on e => match e with
    | enabled i => if i = id then true else on
    | disabled i => if i = id then false else on
    | _ => on) false

end LoopEvent

namespace LoopSched

open LoopEvent

def set (id : LoopId) (l : ControlLoop ι) (s : LoopSched ι) : LoopSched ι :=
  { s with loop := Function.update s.loop id l }

def note (e : LoopEvent ι) (s : LoopSched ι) : LoopSched ι := { s with trace := s.trace ++ [e] }

def register (id : LoopId) (name : Option String) (service : Option ι) (fault : FaultId)
    (s : LoopSched ι) : Status × LoopSched ι :=
  match service with
  | none => (.errParam, s)
  | some f =>
    if (s.loop id).registered then (.errState, s)
    else
      let l := s.loop id
      (.ok, (s.set id { l with
        name := name.getD l.name
        service := some f
        fault
        registered := true }).note (.registered id f fault))

def enable (id : LoopId) (s : LoopSched ι) : Status × LoopSched ι :=
  if !(s.loop id).registered then (.errUnsupported, s)
  else (.ok, (s.set id { s.loop id with enabled := true, consecutive := 0 }).note (.enabled id))

def disable (id : LoopId) (s : LoopSched ι) : LoopSched ι :=
  (s.set id { s.loop id with enabled := false }).note (.disabled id)

def disableAll (s : LoopSched ι) : LoopSched ι := LoopId.all.foldl (fun s id => s.disable id) s

def apply (s : LoopSched ι) : LoopCall ι → LoopSched ι
  | .register id name service fault => (s.register id name service fault).2
  | .enable id => (s.enable id).2
  | .disable id => s.disable id
  | .disableAll => s.disableAll

/-- What `control_loop_service_calls` does with a loop when its service has returned. -/
def settle (id : LoopId) (run : LoopRun ι) (s : LoopSched ι) : LoopSched ι :=
  let l := s.loop id
  let l := { l with
    runs := l.runs + 1
    cyclesLast := run.elapsed
    cyclesWorst := if l.cyclesWorst < run.elapsed then run.elapsed else l.cyclesWorst }
  let s := s.note (.returned id run.status run.elapsed)
  if run.status = .ok then s.set id { l with consecutive := 0 }
  else
    let l := { l with failures := l.failures + 1, consecutive := l.consecutive + 1 }
    (s.set id l).note (.reported id l.fault l.consecutive)

/-- One turn of the loop in `control_loop_service_calls`. The `k`th call of a service is answered by
`answers k`. -/
def serviceLoop (answers : ℕ → LoopRun ι) (s : LoopSched ι) (id : LoopId) : LoopSched ι :=
  if !(s.loop id).enabled then s
  else
    let run := answers (s.trace.countP isCalling)
    (run.calls.foldl apply (s.note (.calling id (s.loop id).service))).settle id run

def controlLoopServiceCalls (answers : ℕ → LoopRun ι) (s : LoopSched ι) : LoopSched ι :=
  LoopId.all.foldl (serviceLoop answers) s

def enabledCount (s : LoopSched ι) : ℕ := LoopId.all.countP fun id => (s.loop id).enabled

end LoopSched

inductive ControlOp (ι : Type)
  | call (c : LoopCall ι)
  | service

namespace LoopSched

def step (answers : ℕ → LoopRun ι) (s : LoopSched ι) : ControlOp ι → LoopSched ι
  | .call c => s.apply c
  | .service => s.controlLoopServiceCalls answers

end LoopSched

end QiranFirmware
