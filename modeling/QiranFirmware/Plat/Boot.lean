import QiranFirmware.Svc.Fdir

/-! # The boot sequence

`plat_boot.c`. The steps run in order; a step that fails is retried in place until its fault class
has reached its limit, and the fault service is called from here since the loop does not run yet.
What the steps do is the environment's: `Attempt` is how one run of a step ends and how long it
takes.
-/
namespace QiranFirmware

inductive BootStep
  | safeOutputs | platform | post | devices | links
  deriving DecidableEq, Repr

inductive BootOutcome
  | pending | success | terminal
  deriving DecidableEq, Repr

namespace BootStep

def all : List BootStep := [safeOutputs, platform, post, devices, links]

def bootloaderBudgetMs : UInt32 := 3000
def postBudgetMs : UInt32 := 5000
def devinitBudgetMs : UInt32 := 12000
def linkBudgetMs : UInt32 := devinitBudgetMs

def budgetMs : BootStep → UInt32
  | safeOutputs => bootloaderBudgetMs
  | platform => bootloaderBudgetMs
  | post => postBudgetMs
  | devices => devinitBudgetMs
  | links => linkBudgetMs

def fault : BootStep → FaultId
  | safeOutputs => .safeOutputs
  | platform => .bootImage
  | post => .post
  | devices => .devinit
  | links => .linkEstablish

/-- A class with no tolerance is escalated at once and not retried. -/
def retryable (s : BootStep) : Bool := decide (0 < (policy s.fault).limit)

end BootStep

/-- `failedStep` is `BOOT_STEP_COUNT` where it is none. -/
structure BootReport where
  outcome : BootOutcome := .pending
  failedStep : Option BootStep := none
  attempts : BootStep → UInt32 := fun _ => 0
  durationMs : BootStep → UInt32 := fun _ => 0
  overBudget : BootStep → Bool := fun _ => false
  totalMs : UInt32 := 0

/-- One run of a step: its status and the ticks it takes, the platform counters that a pass after
it reads, and the ticks until the next attempt or step begins. -/
structure Attempt where
  status : Status := .ok
  ticks : UInt32 := 0
  counters : PlatformCounters := {}
  pause : UInt32 := 0

namespace Boot

def elapse (ticks : UInt32) (v : Svc) : Svc := { v with rawTick := v.rawTick + ticks }

variable (env : BootStep → ℕ → Attempt) (up : Option Uplink)

/-- The loop of `run_step`, with the attempts made so far and the time the step started. It ends
when the step succeeds or its class is exhausted; `fuel` bounds the attempts. -/
def retry (s : BootStep) (stepStarted : UInt64) : ℕ → ℕ → BootReport → Svc →
    Option (Bool × BootReport × Svc)
  | 0, _, _, _ => none
  | fuel + 1, k, r, v =>
    let started := v.nowMs
    let v := elapse (env s k).ticks v.collectTime
    let elapsed := (v.nowMs - started).toUInt32
    let v := v.collectTime
    let r := { r with attempts := Function.update r.attempts s (r.attempts s + 1) }
    if (env s k).status = .ok then
      let late := decide (s.budgetMs < elapsed)
      let r := { r with
        durationMs := Function.update r.durationMs s (v.nowMs - stepStarted).toUInt32
        overBudget := Function.update r.overBudget s late }
      let v := v.collectTime
      let v := if late then v.report s.fault elapsed |>.errorHandlingService up (env s k).counters else v
      some (true, r, elapse (env s k).pause v)
    else
      let v := v.report s.fault (env s k).status.code |>.errorHandlingService up (env s k).counters
      if s.retryable = false ∨ v.retriesExhausted s.fault = true then
        let r := { r with
          durationMs := Function.update r.durationMs s (v.nowMs - stepStarted).toUInt32
          failedStep := some s }
        some (false, r, elapse (env s k).pause v.collectTime)
      else retry s stepStarted fuel (k + 1) r (elapse (env s k).pause v)

def runStep (fuel : ℕ) (s : BootStep) (r : BootReport) (v : Svc) :
    Option (Bool × BootReport × Svc) :=
  retry env up s v.nowMs fuel 0 r v.collectTime

def bootSteps (fuel : ℕ) (started : UInt64) : List BootStep → BootReport → Svc →
    Option (Status × BootReport × Svc)
  | [], r, v =>
    let r := { r with outcome := .success, totalMs := (v.nowMs - started).toUInt32 }
    some (.ok, r, BootStep.all.foldl (fun v s => v.clear s.fault) v.collectTime)
  | s :: steps, r, v =>
    match runStep env up fuel s r v with
    | none => none
    | some (true, r, v) => bootSteps fuel started steps r v
    | some (false, r, v) =>
      let r := { r with outcome := .terminal, totalMs := (v.nowMs - started).toUInt32 }
      some (.errHardware, r, v.collectTime.logEvent FaultId.devinit.code r.totalMs)

def bootAndInit (fuel : ℕ) (v : Svc) : Option (Status × BootReport × Svc) :=
  bootSteps env up fuel v.nowMs BootStep.all {} v.collectTime

end Boot

end QiranFirmware
