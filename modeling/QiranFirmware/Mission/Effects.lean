import QiranFirmware.Mission.Seq
import QiranFirmware.Svc.FdirEffects
import QiranFirmware.Machine.Runs

/-! # What one step of the mission sequence does

`step_cases` splits a step into one that calls no step function and one that applies a step
function's answer; the theorems after it say what each answer does to the sequence and to the
fault service.
-/
namespace QiranFirmware.Mission

open Machine Svc SvcCall

variable {m m' : Mission} {v v' : Svc}

structure Holds (m m' : Mission) : Prop where
  stage : m'.stage = m.stage
  stalled : m'.stalled = m.stalled
  aborted : m'.aborted = m.aborted
  registered : m'.registered = m.registered
  called : m'.called = m.called

theorem Holds.refl (m : Mission) : Holds m m := ⟨rfl, rfl, rfl, rfl, rfl⟩

theorem checkBudget_spec (config : ConfigParam → Int32) (m : Mission) (v : Svc) :
    ∃ new, Reporting new v (checkBudget config m v).2 ∧ Holds m (checkBudget config m v).1 := by
  unfold checkBudget
  cases m.stage.budget with
  | none => exact ⟨[], .refl v, .refl m⟩
  | some param =>
    dsimp only
    split
    · exact ⟨[], .refl v, .refl m⟩
    split
    · exact ⟨[], .refl v, .refl m⟩
    split
    · exact ⟨_, (reporting_collectTime v).trans (reporting_report ..), rfl, rfl, rfl, rfl, rfl⟩
    · exact ⟨[], reporting_collectTime v, .refl m⟩

structure Called (r : StepRun) (m m' : Mission) : Prop where
  stage : m'.stage = m.stage
  stalled : m'.stalled = m.stalled
  aborted : r.abort = none → m'.aborted = m.aborted
  registered : m'.registered = m.registered
  called : m'.called = m.called ++ [m.stage]

theorem call_spec (r : StepRun) (m : Mission) (v : Svc) :
    ∃ new, Reporting new v (call r m v).2 ∧ Called r m (call r m v).1 := by
  have hreports := reporting_reportAll r.reports v
  unfold call
  cases habort : r.abort with
  | none => exact ⟨_, hreports, rfl, rfl, fun _ => rfl, rfl, rfl⟩
  | some cause =>
    simp only [abort]
    split
    · exact ⟨_, hreports, rfl, rfl, by simp [habort], rfl, rfl⟩
    · exact ⟨_, hreports.trans (reporting_logFault ..), rfl, rfl, by simp [habort], rfl, rfl⟩

theorem step_cases (config : ConfigParam → Int32) (up : Option Uplink) (r : StepRun) (m : Mission)
    (v : Svc) :
    ((m.aborted = true ∨ m.stalled = true ∨ m.registered m.stage = false) ∧
      ∃ new, Reporting new v (step config up r m v).2 ∧ Holds m (step config up r m v).1) ∨
    (m.aborted = false ∧ m.stalled = false ∧ m.registered m.stage = true ∧
      ∃ new m₁ v₁, Reporting new v v₁ ∧ Called r m m₁ ∧
        step config up r m v = apply up r.out m₁ v₁) := by
  obtain ⟨new, hnew, hholds⟩ := checkBudget_spec config m v
  by_cases hidle : (m.aborted || m.stalled) = true
  · refine .inl ⟨?_, [], ?_⟩
    · rcases Bool.or_eq_true_iff.mp hidle with h | h
      · exact .inl h
      · exact .inr (.inl h)
    · simp only [step, hidle, ↓reduceIte]
      exact ⟨.refl v, .refl m⟩
  · obtain ⟨haborted, hstalled⟩ := Bool.or_eq_false_iff.mp (Bool.not_eq_true _ ▸ hidle)
    cases hreg : m.registered m.stage with
    | false =>
      refine .inl ⟨.inr (.inr rfl), new, ?_⟩
      have hreg' : (checkBudget config m v).1.registered (checkBudget config m v).1.stage = false := by
        rw [hholds.registered, hholds.stage, hreg]
      simp only [step, hidle, hreg', Bool.not_false, ↓reduceIte]
      exact ⟨hnew, hholds⟩
    | true =>
      obtain ⟨new', hnew', hcalled⟩ :=
        call_spec r (checkBudget config m v).1 (checkBudget config m v).2
      have hreg' : (checkBudget config m v).1.registered (checkBudget config m v).1.stage = true := by
        rw [hholds.registered, hholds.stage, hreg]
      refine .inr ⟨haborted, hstalled, rfl, new ++ new',
        (call r (checkBudget config m v).1 (checkBudget config m v).2).1, _, hnew.trans hnew', ?_, ?_⟩
      · exact ⟨hcalled.stage.trans hholds.stage, hcalled.stalled.trans hholds.stalled,
          fun h => (hcalled.aborted h).trans hholds.aborted,
          hcalled.registered.trans hholds.registered,
          by rw [hcalled.called, hholds.called, hholds.stage]⟩
      · simp only [step, hidle, hreg', Bool.not_true, Bool.false_eq_true, ↓reduceIte]

theorem reporting_enter (stage : Stage) (m : Mission) (v : Svc) :
    ∃ new, Reporting new v (enter stage m v).2 ∧ ∀ c, new.countP (isReport c) = 0 :=
  ⟨_, (reporting_collectTime v).trans (reporting_logEvent ..), fun c => by simp [isReport]⟩

theorem apply_frame (up : Option Uplink) (out : StepOut) (m : Mission) (v : Svc) :
    (apply up out m v).1.registered = m.registered ∧ (apply up out m v).1.aborted = m.aborted ∧
      (apply up out m v).1.called = m.called := by
  unfold apply
  cases out.result with
  | working => exact ⟨rfl, rfl, rfl⟩
  | done =>
    dsimp only
    split <;> exact ⟨rfl, rfl, rfl⟩
  | retry =>
    dsimp only
    split <;> exact ⟨rfl, rfl, rfl⟩
  | back =>
    dsimp only
    split <;> exact ⟨rfl, rfl, rfl⟩
  | abort => exact ⟨rfl, rfl, rfl⟩

/-- The outcomes that report the fault and leave the sequence in its stage, and whether they
stall it. -/
theorem apply_retry (up : Option Uplink) {out : StepOut} (m : Mission) (v : Svc)
    (h : out.result = .retry) :
    ∃ new, Reporting new v (apply up out m v).2 ∧
      .report (faultOf m.stage out) out.detail ∈ new ∧ (apply up out m v).1.stage = m.stage ∧
      ((apply up out m v).1.stalled = true ↔
        (apply up out m v).2.retriesExhausted (faultOf m.stage out) = true ∨ m.stalled = true) := by
  have hrep := reporting_report (faultOf m.stage out) out.detail v
  simp only [apply, h]
  split
  · rename_i hex
    exact ⟨_, hrep, by simp, rfl, by simp [hex]⟩
  · rename_i hex
    obtain ⟨new, hnew, hnone⟩ := reporting_enter m.stage
      { m with attempts := m.attempts + 1 } (v.report (faultOf m.stage out) out.detail)
    refine ⟨_, hrep.trans hnew, by simp, rfl, ?_⟩
    have hcount := hnew.count (faultOf m.stage out)
    rw [hnone] at hcount
    have hsame := retriesExhausted_congr (hcount.trans (UInt32.add_zero _))
    rw [hsame]
    simp [enter, hex]

theorem apply_back (up : Option Uplink) {out : StepOut} (m : Mission) (v : Svc)
    (h : out.result = .back) :
    ∃ new, Reporting new v (apply up out m v).2 ∧
      .report (faultOf m.stage out) out.detail ∈ new ∧
      (m.stage.index ≤ out.backTo ∧ (apply up out m v).1.stage = m.stage ∨
        out.backTo < m.stage.index ∧ (apply up out m v).1.stage = .ofIndex out.backTo ∧
          (apply up out m v).1.stalled = m.stalled) := by
  have hrep := reporting_report (faultOf m.stage out) out.detail v
  simp only [apply, h]
  split
  · rename_i hle
    exact ⟨_, hrep, by simp, .inl ⟨hle, rfl⟩⟩
  · rename_i hlt
    obtain ⟨new, hnew, -⟩ := reporting_enter (.ofIndex out.backTo)
      { m with attempts := 0, reentries := m.reentries + 1 }
      ((v.report (faultOf m.stage out) out.detail).reentryNote up (faultOf m.stage out))
    exact ⟨_, (hrep.trans (reporting_reentryNote ..)).trans hnew, by simp,
      .inr ⟨Nat.lt_of_not_le hlt, rfl, rfl⟩⟩

theorem apply_abort (up : Option Uplink) {out : StepOut} (m : Mission) (v : Svc)
    (h : out.result = .abort) :
    Reporting [.report (faultOf m.stage out) out.detail] v (apply up out m v).2 ∧
      (apply up out m v).1.stage = m.stage := by
  simp only [apply, h]
  exact ⟨reporting_report .., trivial⟩

theorem apply_done (up : Option Uplink) {out : StepOut} (m : Mission) (v : Svc)
    (h : out.result = .done) :
    ∃ new, Reporting new (v.clear (faultOf m.stage out)) (apply up out m v).2 ∧
      (apply up out m v).1.stage =
        (if m.stage.index < 12 then .ofIndex (m.stage.index + 1) else m.stage) ∧
      (apply up out m v).1.stalled = m.stalled := by
  simp only [apply, h]
  split
  · obtain ⟨new, hnew, -⟩ := reporting_enter (.ofIndex (m.stage.index + 1)) { m with
      attempts := 0
      payload := if m.stage = .spadEnable then .operational else m.payload }
      (v.clear (faultOf m.stage out))
    exact ⟨new, hnew, rfl, rfl⟩
  · exact ⟨[], .refl _, rfl, rfl⟩

/-- A step that stalls the sequence has reported the class that its answer is about, and stays in
its stage. -/
theorem stall_cases {config : ConfigParam → Int32} {up : Option Uplink} {r : StepRun}
    (hbefore : m.stalled = false) (hstep : step config up r m v = (m', v'))
    (hafter : m'.stalled = true) :
    m'.stage = m.stage ∧ (∃ new, Reporting new v v' ∧
      .report (faultOf m.stage r.out) r.out.detail ∈ new) ∧
    (r.out.result = .retry ∧ v'.retriesExhausted (faultOf m.stage r.out) = true ∨
      r.out.result = .back ∧ m.stage.index ≤ r.out.backTo ∨ r.out.result = .abort) := by
  have hcases := step_cases config up r m v
  rw [hstep] at hcases
  rcases hcases with ⟨-, new, hnew, hholds⟩ | ⟨-, -, -, new, m₁, v₁, hnew, hcalled, he⟩
  · exact absurd (hbefore.symm.trans (hholds.stalled.symm.trans hafter)) Bool.false_ne_true
  have hrunning : m₁.stalled = false := hcalled.stalled.trans hbefore
  cases hr : r.out.result with
  | working =>
    simp only [apply, hr, Prod.mk.injEq] at he
    exact absurd (hrunning.symm.trans (he.1 ▸ hafter)) Bool.false_ne_true
  | done =>
    obtain ⟨-, -, -, hstalled⟩ := apply_done up m₁ v₁ hr
    simp only [← he, hrunning] at hstalled
    exact absurd (hstalled.symm.trans hafter) Bool.false_ne_true
  | retry =>
    obtain ⟨b, hb, hmem, hstage, hstall⟩ := apply_retry up m₁ v₁ hr
    simp only [← he, hcalled.stage] at hb hmem hstage hstall
    exact ⟨hstage, ⟨_, hnew.trans hb, List.mem_append_right _ hmem⟩,
      .inl ⟨rfl, (hstall.mp hafter).resolve_right (by simp [hrunning])⟩⟩
  | back =>
    obtain ⟨b, hb, hmem, hcases⟩ := apply_back up m₁ v₁ hr
    simp only [← he, hcalled.stage] at hb hmem hcases
    rcases hcases with ⟨hle, hstage⟩ | ⟨-, -, hstalled⟩
    · exact ⟨hstage, ⟨_, hnew.trans hb, List.mem_append_right _ hmem⟩, .inr (.inl ⟨rfl, hle⟩)⟩
    · exact absurd (hrunning.symm.trans (hstalled.symm.trans hafter)) Bool.false_ne_true
  | abort =>
    obtain ⟨hb, hstage⟩ := apply_abort up m₁ v₁ hr
    simp only [← he, hcalled.stage] at hb hstage
    exact ⟨hstage, ⟨_, hnew.trans hb, by simp⟩, .inr (.inr rfl)⟩

inductive MissionOp
  | step (config : ConfigParam → Int32) (up : Option Uplink) (r : StepRun)
  | register (stage : Stage)
  | abort (cause : FaultId)
  | fault (op : FaultOp)

def missionStep (s : Mission × Svc) : MissionOp → Mission × Svc
  | .step config up r => step config up r s.1 s.2
  | .register stage => ((register stage s.1).2, s.2)
  | .abort cause => abort cause s.1 s.2
  | .fault op => (s.1, faultStep s.2 op)

theorem moves_step (config : ConfigParam → Int32) (up : Option Uplink) (r : StepRun) (m : Mission)
    (v : Svc) : Moves v (step config up r m v).2 := by
  rcases step_cases config up r m v with ⟨-, new, hnew, -⟩ | ⟨-, -, -, new, m₁, v₁, hnew, -, he⟩
  · exact .reporting hnew
  rw [he]
  refine .trans (.reporting hnew) ?_
  cases h : r.out.result with
  | working =>
    simp only [apply, h]
    exact .refl v₁
  | done =>
    obtain ⟨b, hb, -⟩ := apply_done up m₁ v₁ h
    exact .trans (.clear v₁ _) (.reporting hb)
  | retry =>
    obtain ⟨b, hb, -⟩ := apply_retry up m₁ v₁ h
    exact .reporting hb
  | back =>
    obtain ⟨b, hb, -⟩ := apply_back up m₁ v₁ h
    exact .reporting hb
  | abort => exact .reporting (apply_abort up m₁ v₁ h).1

theorem moves_missionStep (s : Mission × Svc) (op : MissionOp) :
    Moves s.2 (missionStep s op).2 := by
  cases op with
  | step config up r => exact moves_step config up r s.1 s.2
  | register stage => exact .refl s.2
  | abort cause =>
    simp only [missionStep, abort]
    split
    · exact .refl s.2
    · exact .reporting (reporting_logFault ..)
  | fault op => exact moves_faultStep s.2 op

theorem moves_run (s : Mission × Svc) (ops : List MissionOp) :
    Moves s.2 (run missionStep s ops).2 := by
  induction ops generalizing s with
  | nil => exact .refl s.2
  | cons op ops ih => exact .trans (moves_missionStep s op) (ih _)

theorem bounded_init : Bounded (init {}).2 := by
  intro c
  simp [init, collectTime, Svc.occurrences, Svc.unserviced]

end QiranFirmware.Mission
