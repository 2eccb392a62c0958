import QiranFirmware.Mission.AbortFinal
import QiranFirmware.Plat.Startup
import QiranFirmware.Comm.HkLink

/-! # The first cycle

`first_cycle` of `main.c` behind `subsystem_init`: the boot, and what it is followed by. The mission is
run by the cycles after it, so no step function is called unless the boot has carried out every step; a
boot that fails aborts the mission, which holds from then on.
-/
namespace QiranFirmware

open Machine Mission

structure Flight where
  board : Board
  config : Config
  mission : Mission
  link : HkLink
  health : HealthVerdict := .healthy

namespace Flight

def init (b : Board) (link : HkLink) : Flight where
  board := { b with svc := (Mission.init b.svc).2 }
  config := .init
  mission := (Mission.init b.svc).1
  link := link

/-- The report of `report_ready`: its interlocks are all unevaluated, whatever has been set. -/
def readyReport (s : Flight) : StatusReport where
  payload := s.mission.payload
  health := s.health
  interlock _ := .unevaluated
  fault := .none
  severity := .minor

section FirstCycle
variable (env : ℕ → AttemptEnv) (up : Option Uplink) (answers : ℕ → TransmitRun) (fuel : ℕ)

def reportReady (s : Flight) : Flight :=
  let r := s.link.statusSend answers s.readyReport s.board.svc
  { s with link := r.2.1, board := { s.board with svc := r.2.2 } }

def firstCycle (s : Flight) : Option Status × Flight :=
  let (st, board) := s.board.boot env up fuel
  match st with
  | none => (none, { s with board })
  | some .ok => (some .ok, { s with board, config := s.config.lock }.reportReady answers)
  | some st =>
    let r := abort .devinit s.mission board.svc
    (some st, { s with board := { board with svc := r.2 }, mission := r.1 })

def fly (ops : List MissionOp) (s : Flight) : Flight :=
  match firstCycle env up answers fuel s with
  | (none, s) => s
  | (some _, s) =>
    let r := run missionStep (s.mission, s.board.svc) ops
    { s with board := { s.board with svc := r.2 }, mission := r.1 }

/-- An aborted mission calls no step function. -/
theorem called_of_aborted {s : Mission × Svc} (h : s.1.aborted = true) (ops : List MissionOp) :
    (run missionStep s ops).1.called = s.1.called := by
  refine (@run_keeps _ _ missionStep (fun t => t.1.aborted = true ∧ t.1.called = s.1.called) ?_ s
    ⟨h, rfl⟩ ops).2
  rintro t op ⟨haborted, hcalled⟩
  cases op with
  | step config up r =>
    have hidle : step config up r t.1 t.2 = t := by simp [step, haborted]
    simp only [missionStep, hidle]
    exact ⟨haborted, hcalled⟩
  | register stage =>
    simp only [missionStep, register]
    split
    · exact ⟨haborted, hcalled⟩
    · exact ⟨haborted, hcalled⟩
  | abort cause =>
    have hidle : abort cause t.1 t.2 = t := by simp [abort, haborted]
    simp only [missionStep, hidle]
    exact ⟨haborted, hcalled⟩
  | fault op => exact ⟨haborted, hcalled⟩

theorem firstCycle_failed {env : ℕ → AttemptEnv} {up : Option Uplink} (answers : ℕ → TransmitRun) {fuel : ℕ}
    {s : Flight} {st : Status} {b : Board} (hboot : s.board.boot env up fuel = (some st, b)) (hst : st ≠ .ok) :
    firstCycle env up answers fuel s = (some st, { s with
      board := { b with svc := (abort .devinit s.mission b.svc).2 }
      mission := (abort .devinit s.mission b.svc).1 }) := by
  rw [firstCycle, hboot]
  cases st with
  | ok => exact absurd rfl hst
  | errParam | errState | errTimeout | errHardware | errRange | errIntegrity | errBusy | errUnsupported => rfl

end FirstCycle

end Flight

end QiranFirmware
