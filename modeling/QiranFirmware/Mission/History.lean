import QiranFirmware.Mission.Answers
import QiranFirmware.Machine.Climb

/-! # No stage runs before the ones that come first

Over runs of steps with any answers, registrations, aborts and faults: the stage's index rises only
by one, when the stage has finished, so by `Machine.leftUpward_of_lt` every earlier stage has
finished since the sequence was last at it or before it.
-/
namespace QiranFirmware.Mission

open Machine Svc

variable {s : Mission × Svc}

/-- The operation is a step whose step function answers that its stage has finished. -/
def Completes (s : Mission × Svc) : MissionOp → Prop
  | .step _ _ r => s.1.Running ∧ r.out.result = .done
  | .register _ => False
  | .abort _ => False
  | .fault _ => False

def GoesBack (s : Mission × Svc) (target : ℕ) : MissionOp → Prop
  | .step _ _ r => s.1.Running ∧ r.out.result = .back ∧ r.out.backTo = target
  | .register _ => False
  | .abort _ => False
  | .fault _ => False

theorem stage_register (stage : Stage) (m : Mission) : (register stage m).2.stage = m.stage ∧
    (register stage m).2.payload = m.payload := by
  unfold register
  split <;> exact ⟨rfl, rfl⟩

theorem stage_abort (cause : FaultId) (m : Mission) (v : Svc) :
    (abort cause m v).1.stage = m.stage ∧
      ((abort cause m v).1.payload = .operational → m.payload = .operational) := by
  unfold abort
  split
  · exact ⟨rfl, id⟩
  · exact ⟨rfl, fun h => by cases h⟩

theorem index_missionStep (s : Mission × Svc) (op : MissionOp) :
    (missionStep s op).1.stage = s.1.stage ∨
      Completes s op ∧ (missionStep s op).1.stage.index = s.1.stage.index + 1 ∨
      GoesBack s (missionStep s op).1.stage.index op ∧
        (missionStep s op).1.stage.index < s.1.stage.index := by
  cases op with
  | step config up r =>
    simp only [missionStep]
    by_cases hrun : s.1.Running
    · obtain ⟨v₁, hstep, -⟩ := step_of_running config up r hrun s.2
      obtain ⟨hstage, -⟩ := asked_frame config r s.1 s.2
      rw [hstep, ← hstage]
      rcases answer_cases (asked config r s.1 s.2) r.out with hr | hr | hr | ⟨hr, hback⟩ | hstuck
      · exact .inl (by rw [apply_working hr])
      · obtain ⟨hnext, -⟩ := done_eq up hr (asked config r s.1 s.2) v₁
        rw [hnext, Stage.next]
        split
        · exact .inr (.inl ⟨⟨hrun, hr⟩, Stage.index_ofIndex (by omega)⟩)
        · exact .inl rfl
      · obtain ⟨hsame, -⟩ := retry_eq up hr (asked config r s.1 s.2) v₁
        exact .inl hsame
      · obtain ⟨hto, -⟩ := back_eq up hr (asked config r s.1 s.2) v₁ hback
        have hlt := (asked config r s.1 s.2).stage.index_lt
        have hindex : (Stage.ofIndex r.out.backTo).index = r.out.backTo :=
          Stage.index_ofIndex (hback.trans hlt)
        rw [hto, hindex]
        exact .inr (.inr ⟨⟨hrun, hr, rfl⟩, hback⟩)
      · exact .inl (by rw [stuck_eq up _ _ hstuck])
    · obtain ⟨late, hstep, -⟩ := step_of_not_running config up r hrun s.2
      exact .inl (by rw [hstep])
  | register stage => exact .inl (stage_register stage s.1).1
  | abort cause => exact .inl (stage_abort cause s.1 s.2).1
  | fault op => exact .inl rfl

theorem payload_missionStep {op : MissionOp} (hbefore : s.1.payload ≠ .operational)
    (hafter : (missionStep s op).1.payload = .operational) :
    Completes s op ∧ s.1.stage = .spadEnable := by
  cases op with
  | step config up r =>
    simp only [missionStep] at hafter
    by_cases hrun : s.1.Running
    · obtain ⟨v₁, hstep, -⟩ := step_of_running config up r hrun s.2
      obtain ⟨hstage, -⟩ := asked_frame config r s.1 s.2
      obtain ⟨-, -, hpayload⟩ := asked_abort config r hrun.1 s.2
      have hasked : (asked config r s.1 s.2).payload ≠ .operational := by
        rw [hpayload]
        split
        · decide
        · exact hbefore
      rw [hstep] at hafter
      rcases answer_cases (asked config r s.1 s.2) r.out with hr | hr | hr | ⟨hr, hback⟩ | hstuck
      · rw [apply_working hr] at hafter
        exact absurd hafter hasked
      · obtain ⟨-, -, -, -, -, -, hdone, -⟩ := done_eq up hr (asked config r s.1 s.2) v₁
        rw [hdone, hstage] at hafter
        split at hafter
        · rename_i hspad
          exact ⟨⟨hrun, hr⟩, hspad⟩
        · exact absurd hafter hasked
      · obtain ⟨-, -, -, -, -, hsame, -⟩ := retry_eq up hr (asked config r s.1 s.2) v₁
        exact absurd (hsame ▸ hafter) hasked
      · obtain ⟨-, -, -, -, hsame, -⟩ := back_eq up hr (asked config r s.1 s.2) v₁ hback
        exact absurd (hsame ▸ hafter) hasked
      · rw [stuck_eq up _ _ hstuck] at hafter
        exact absurd hafter hasked
    · obtain ⟨late, hstep, -⟩ := step_of_not_running config up r hrun s.2
      rw [hstep] at hafter
      exact absurd hafter hbefore
  | register stage =>
    exact absurd ((stage_register stage s.1).2.symm.trans hafter) hbefore
  | abort cause => exact absurd ((stage_abort cause s.1 s.2).2 hafter) hbefore
  | fault op => exact absurd hafter hbefore

/-- In every state a run comes to: an operation changes the stage only to the next one, when it has
finished, or back to a smaller one that the step function has named; each stage below the present
one was last left when it had finished, and no stage up to it has been the current one since; and
the payload becomes operational only when the detectors' stage has finished. -/
theorem stages_completed (v : Svc) (ops : List MissionOp) :
    let s := run missionStep (init v) ops
    s.1.stage.index < 13 ∧
    (∀ op, (missionStep s op).1.stage ≠ s.1.stage →
      Completes s op ∧ (missionStep s op).1.stage.index = s.1.stage.index + 1 ∨
      GoesBack s (missionStep s op).1.stage.index op ∧
        (missionStep s op).1.stage.index < s.1.stage.index) ∧
    (∀ j < s.1.stage.index,
      LeftUpward missionStep (fun s => s.1.stage.index) Completes (init v) ops j) ∧
    (init v).1.payload = .nonOperational ∧
    (∀ op, s.1.payload ≠ .operational → (missionStep s op).1.payload = .operational →
      Completes s op ∧ s.1.stage = .spadEnable) := by
  intro s
  refine ⟨s.1.stage.index_lt, ?_, ?_, rfl, fun op => payload_missionStep⟩
  · intro op hmoved
    exact (index_missionStep s op).resolve_left hmoved
  · intro j hj
    have hclimb (s : Mission × Svc) (op : MissionOp) :
        (missionStep s op).1.stage.index ≤ s.1.stage.index ∨
          (missionStep s op).1.stage.index = s.1.stage.index + 1 ∧ Completes s op := by
      rcases index_missionStep s op with hsame | ⟨hdone, hup⟩ | ⟨-, hdown⟩
      · exact .inl (by rw [hsame])
      · exact .inr ⟨hup, hdone⟩
      · exact .inl (Nat.le_of_lt hdown)
    have hstart : (init v).1.stage.index = 0 := rfl
    exact @leftUpward_of_lt _ _ missionStep (fun s => s.1.stage.index) Completes hclimb (init v) hstart
      ops j hj

end QiranFirmware.Mission
