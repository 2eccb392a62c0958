import QiranFirmware.Svc.Config

/-! # The mission sequence

`mission_seq.c`: a position in a linear list of stages. Each cycle runs the current stage's step
function and applies the one thing it answers.
-/
namespace QiranFirmware

inductive Stage
  | boot | precond | laserBringup | mrrTune | crowTune | umziTune | dliLock | spadEnable
  | pvsT1 | pvsT2 | experiment | process | dataHandling
  deriving DecidableEq, Repr

namespace Stage

def index (s : Stage) : ℕ := s.ctorIdx

def all : List Stage :=
  [boot, precond, laserBringup, mrrTune, crowTune, umziTune, dliLock, spadEnable, pvsT1, pvsT2,
   experiment, process, dataHandling]

def ofIndex (n : ℕ) : Stage := all.getD n boot

/-- `k_stage`: the fault class whose limit bounds the stage's retries, and the parameter that
holds its time budget. -/
def fault : Stage → FaultId
  | boot => .devinit
  | precond => .precond
  | laserBringup => .laserTec
  | mrrTune => .mrrLock
  | crowTune => .crowTune
  | umziTune => .umziTune
  | dliLock => .dliLock
  | spadEnable => .spadOpticalPower
  | pvsT1 => .mrrRelock
  | pvsT2 => .mrrRelock
  | experiment => .ddrOverrun
  | process => .ddrOverrun
  | dataHandling => .nandWrite

def budget : Stage → Option ConfigParam
  | boot => none
  | precond => none
  | laserBringup => some .laserTecTimeoutMs
  | mrrTune => some .mrrBudgetMs
  | crowTune => some .crowBudgetMs
  | umziTune => some .umziBudgetMs
  | dliLock => some .dliBudgetMs
  | spadEnable => some .spadBudgetMs
  | pvsT1 => some .pvsT1BudgetMs
  | pvsT2 => some .pvsT2BudgetMs
  | experiment => none
  | process => none
  | dataHandling => none

end Stage

/-- `mission_step_result_t`. Any other value takes the `default` branch that `abort` is. -/
inductive StepResult
  | working | done | retry | back | abort
  deriving DecidableEq, Repr

structure StepOut where
  result : StepResult := .working
  backTo : ℕ := 0
  fault : FaultId := .none
  detail : UInt32 := 0
  deriving DecidableEq, Repr

/-- One call of a step function: the faults it reports and the abort it may request before it
returns, and what it returns. -/
structure StepRun where
  reports : List (FaultId × UInt32) := []
  abort : Option FaultId := none
  out : StepOut := {}
  deriving DecidableEq, Repr

/-- The statics of `mission_seq.c`. A stage's step function is only known to be registered or
not. `called` has no counterpart in the source: it lists the stages whose step function has been
called, in order. -/
structure Mission where
  registered : Stage → Bool := fun _ => false
  entries : Stage → UInt32 := Function.update (fun _ => 0) .boot 1
  stage : Stage := .boot
  enteredMs : UInt64 := 0
  attempts : UInt32 := 0
  timedOut : Bool := false
  stalled : Bool := false
  aborted : Bool := false
  abortCause : FaultId := .none
  reentries : UInt32 := 0
  payload : PayloadStatus := .nonOperational
  called : List Stage := []

namespace Mission

def init (v : Svc) : Mission × Svc := ({ enteredMs := v.nowMs }, v.collectTime)

def register (stage : Stage) (m : Mission) : Status × Mission :=
  if m.registered stage then (.errState, m)
  else (.ok, { m with registered := Function.update m.registered stage true })

def enter (stage : Stage) (m : Mission) (v : Svc) : Mission × Svc :=
  let entries := Function.update m.entries stage (m.entries stage + 1)
  ({ m with stage, enteredMs := v.nowMs, timedOut := false, entries },
    v.collectTime.logEvent (UInt16.ofNat stage.index) (entries stage))

def elapsedMs (m : Mission) (v : Svc) : UInt32 := (v.nowMs - m.enteredMs).toUInt32

def checkBudget (config : ConfigParam → Int32) (m : Mission) (v : Svc) : Mission × Svc :=
  match m.stage.budget with
  | none => (m, v)
  | some param =>
    if m.timedOut then (m, v)
    else if config param ≤ 0 then (m, v)
    else
      let elapsed := m.elapsedMs v
      let v := v.collectTime
      if (config param).toUInt32 < elapsed then
        ({ m with timedOut := true },
          v.report .stageTimeout ((UInt32.ofNat m.stage.index <<< 24) ||| (elapsed &&& 0x00FFFFFF)))
      else (m, v)

def abort (cause : FaultId) (m : Mission) (v : Svc) : Mission × Svc :=
  if m.aborted then (m, v)
  else
    ({ m with aborted := true, abortCause := cause, payload := .nonOperational },
      v.logFault cause .severe (UInt32.ofNat m.stage.index))

def faultOf (stage : Stage) (out : StepOut) : FaultId :=
  if out.fault ≠ .none then out.fault else stage.fault

def apply (up : Option Uplink) (out : StepOut) (m : Mission) (v : Svc) : Mission × Svc :=
  let fault := faultOf m.stage out
  match out.result with
  | .working => (m, v)
  | .done =>
    let v := v.clear fault
    let m := { m with
      attempts := 0
      payload := if m.stage = .spadEnable then .operational else m.payload }
    if m.stage.index < 12 then enter (.ofIndex (m.stage.index + 1)) m v else (m, v)
  | .retry =>
    let v := v.report fault out.detail
    let m := { m with attempts := m.attempts + 1 }
    if v.retriesExhausted fault then ({ m with stalled := true }, v) else enter m.stage m v
  | .back =>
    let v := v.report fault out.detail
    if m.stage.index ≤ out.backTo then ({ m with stalled := true }, v)
    else
      enter (.ofIndex out.backTo) { m with attempts := 0, reentries := m.reentries + 1 }
        (v.reentryNote up fault)
  | .abort => ({ m with stalled := true }, v.report fault out.detail)

def call (r : StepRun) (m : Mission) (v : Svc) : Mission × Svc :=
  let m := { m with called := m.called ++ [m.stage] }
  let v := v.reportAll r.reports
  match r.abort with
  | none => (m, v)
  | some cause => abort cause m v

def step (config : ConfigParam → Int32) (up : Option Uplink) (r : StepRun) (m : Mission) (v : Svc) :
    Mission × Svc :=
  if m.aborted || m.stalled then (m, v)
  else
    let (m, v) := checkBudget config m v
    if !m.registered m.stage then (m, v)
    else
      let (m, v) := call r m v
      apply up r.out m v

end Mission

end QiranFirmware
