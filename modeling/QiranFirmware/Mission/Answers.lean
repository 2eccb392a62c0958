import QiranFirmware.Mission.Effects
import Mathlib.Tactic.IntervalCases

/-! # What a step makes of the sequence

`Effects` says what a step does to the position and to the fault service. Here a step is taken
apart into what comes before the answer, which leaves the position and its counters alone, and
the answer, whose effect on each of them is one theorem.
-/
namespace QiranFirmware

namespace Stage

theorem index_lt (s : Stage) : s.index < 13 := by cases s <;> decide

theorem index_ofIndex {n : ℕ} (h : n < 13) : (ofIndex n).index = n := by
  interval_cases n <;> rfl

theorem fault_ne_stageTimeout (s : Stage) : s.fault ≠ .stageTimeout := by cases s <;> decide

def next (s : Stage) : Stage := if s.index < 12 then .ofIndex (s.index + 1) else s

end Stage

namespace Mission

open Machine Svc SvcCall

variable {config : ConfigParam → Int32} {up : Option Uplink} {r : StepRun} {m : Mission} {v : Svc}

def Running (m : Mission) : Prop :=
  m.aborted = false ∧ m.stalled = false ∧ m.registered m.stage = true

instance (m : Mission) : Decidable m.Running := inferInstanceAs (Decidable (_ ∧ _ ∧ _))

def overruns (config : ConfigParam → Int32) (m : Mission) (v : Svc) : Bool :=
  match m.stage.budget with
  | none => false
  | some param =>
    !m.timedOut && !decide (config param ≤ 0) && decide ((config param).toUInt32 < m.elapsedMs v)

theorem checkBudget_eq (config : ConfigParam → Int32) (m : Mission) (v : Svc) :
    (checkBudget config m v).1 = { m with timedOut := m.timedOut || m.overruns config v } ∧
      ∀ c, (checkBudget config m v).2.occurrences c =
        v.occurrences c + if m.overruns config v = true ∧ c = .stageTimeout then 1 else 0 := by
  unfold checkBudget overruns
  cases m.stage.budget with
  | none => exact ⟨by simp, fun c => by simp⟩
  | some param =>
    dsimp only
    split
    · rename_i hout
      exact ⟨by rw [hout, Bool.true_or, ← hout], fun c => by simp [hout]⟩
    split
    · rename_i hoff
      exact ⟨by simp [hoff], fun c => by simp [hoff]⟩
    rename_i hout hon
    split
    · rename_i hover
      refine ⟨by simp [hout, hon, hover], ?_⟩
      intro c
      have hcount := ((reporting_collectTime v).trans (reporting_report .stageTimeout
        ((UInt32.ofNat m.stage.index <<< 24) ||| (m.elapsedMs v &&& 0x00FFFFFF)) _)).count c
      rw [hcount]
      by_cases hc : c = .stageTimeout
      · simp [hc, hout, hon, hover, isReport]
      · simp [hc, Ne.symm hc, isReport]
    · rename_i hunder
      refine ⟨by simp [hunder], ?_⟩
      intro c
      simp [(reporting_collectTime v).count c, hunder]

/-- What a step function that may call `mission_abort` makes of the sequence. -/
def requestAbort (cause : Option FaultId) (m : Mission) : Mission :=
  match cause with
  | none => m
  | some cause =>
    if m.aborted then m
    else { m with aborted := true, abortCause := cause, payload := .nonOperational }

theorem call_eq (r : StepRun) (m : Mission) (v : Svc) :
    (call r m v).1 = requestAbort r.abort { m with called := m.called ++ [m.stage] } ∧
      ∀ c, (call r m v).2.occurrences c =
        v.occurrences c + UInt32.ofNat (r.reports.countP (·.1 == c)) := by
  have hreports (c : FaultId) : (v.reportAll r.reports).occurrences c =
      v.occurrences c + UInt32.ofNat (r.reports.countP (·.1 == c)) := by
    rw [(reporting_reportAll r.reports v).count, List.countP_map]
    rfl
  unfold call requestAbort
  cases r.abort with
  | none => exact ⟨rfl, hreports⟩
  | some cause =>
    simp only [abort]
    split
    · exact ⟨rfl, hreports⟩
    · refine ⟨rfl, ?_⟩
      intro c
      rw [(reporting_logFault ..).count, hreports]
      simp [isReport]

/-- The sequence when the stage's step function has returned and its answer is to be applied. -/
def asked (config : ConfigParam → Int32) (r : StepRun) (m : Mission) (v : Svc) : Mission :=
  requestAbort r.abort { m with
    timedOut := m.timedOut || m.overruns config v
    called := m.called ++ [m.stage] }

/-- A step that calls a step function applies its answer to what that call leaves. -/
theorem step_eq_apply (config : ConfigParam → Int32) (up : Option Uplink) (r : StepRun)
    (h : m.Running) (v : Svc) :
    step config up r m v = apply up r.out (asked config r m v)
      (call r (checkBudget config m v).1 (checkBudget config m v).2).2 := by
  obtain ⟨haborted, hstalled, hreg⟩ := h
  obtain ⟨hbudget, -⟩ := checkBudget_eq config m v
  obtain ⟨hcall, -⟩ := call_eq r (checkBudget config m v).1 (checkBudget config m v).2
  have hasked : asked config r m v =
      (call r (checkBudget config m v).1 (checkBudget config m v).2).1 := by
    rw [hcall, hbudget]
    rfl
  rw [hasked]
  simp [step, haborted, hstalled, hbudget, hreg]

theorem step_of_running (config : ConfigParam → Int32) (up : Option Uplink) (r : StepRun)
    (h : m.Running) (v : Svc) :
    ∃ v₁, step config up r m v = apply up r.out (asked config r m v) v₁ ∧
      ∀ c, v₁.occurrences c =
        v.occurrences c + (if m.overruns config v = true ∧ c = .stageTimeout then 1 else 0) +
          UInt32.ofNat (r.reports.countP (·.1 == c)) := by
  obtain ⟨-, hcount⟩ := checkBudget_eq config m v
  obtain ⟨-, hcalls⟩ := call_eq r (checkBudget config m v).1 (checkBudget config m v).2
  refine ⟨_, step_eq_apply config up r h v, ?_⟩
  intro c
  rw [hcalls, hcount]

theorem step_of_not_running (config : ConfigParam → Int32) (up : Option Uplink) (r : StepRun)
    (h : ¬ m.Running) (v : Svc) :
    ∃ late, (step config up r m v).1 = { m with timedOut := late } ∧
      ∀ c, c ≠ .stageTimeout → (step config up r m v).2.occurrences c = v.occurrences c := by
  by_cases hidle : (m.aborted || m.stalled) = true
  · refine ⟨m.timedOut, ?_, ?_⟩ <;> simp [step, hidle]
  · obtain ⟨hbudget, hcount⟩ := checkBudget_eq config m v
    obtain ⟨haborted, hstalled⟩ := Bool.or_eq_false_iff.mp (Bool.not_eq_true _ ▸ hidle)
    have hreg : m.registered m.stage = false := by
      by_contra hreg
      exact h ⟨haborted, hstalled, Bool.not_eq_false _ ▸ hreg⟩
    have hstep : step config up r m v = checkBudget config m v := by
      have hnone : (checkBudget config m v).1.registered (checkBudget config m v).1.stage = false := by
        rw [hbudget]
        exact hreg
      simp only [step, haborted, hstalled, hnone, Bool.or_self, Bool.not_false, Bool.false_eq_true,
        ↓reduceIte]
    refine ⟨m.timedOut || m.overruns config v, by rw [hstep, hbudget], ?_⟩
    intro c hc
    rw [hstep, hcount]
    simp [hc]

/-- Calling a step function leaves the position and its counters alone. -/
theorem asked_frame (config : ConfigParam → Int32) (r : StepRun) (m : Mission) (v : Svc) :
    (asked config r m v).stage = m.stage ∧ (asked config r m v).entries = m.entries ∧
      (asked config r m v).attempts = m.attempts ∧ (asked config r m v).stalled = m.stalled ∧
      (asked config r m v).reentries = m.reentries := by
  unfold asked requestAbort
  split
  · exact ⟨rfl, rfl, rfl, rfl, rfl⟩
  · split <;> exact ⟨rfl, rfl, rfl, rfl, rfl⟩

theorem asked_abort (config : ConfigParam → Int32) (r : StepRun) (h : m.aborted = false) (v : Svc) :
    (asked config r m v).aborted = r.abort.isSome ∧
      (asked config r m v).abortCause = r.abort.getD m.abortCause ∧
      (asked config r m v).payload = if r.abort.isSome then .nonOperational else m.payload := by
  unfold asked requestAbort
  cases r.abort with
  | none => exact ⟨h, rfl, rfl⟩
  | some cause =>
    simp only [h, Bool.false_eq_true, ↓reduceIte]
    exact ⟨rfl, rfl, rfl⟩

theorem occurrences_enter (stage : Stage) (m : Mission) (v : Svc) (c : FaultId) :
    (enter stage m v).2.occurrences c = v.occurrences c := by
  obtain ⟨new, hnew, hnone⟩ := reporting_enter stage m v
  rw [hnew.count, hnone]
  exact UInt32.add_zero _

theorem occurrences_report (c : FaultId) (id : FaultId) (detail : UInt32) (v : Svc) :
    (v.report id detail).occurrences c = v.occurrences c + if c = id then 1 else 0 := by
  rw [(reporting_report id detail v).count]
  by_cases h : c = id
  · simp [h, isReport]
  · simp [h, Ne.symm h, isReport]

theorem apply_working {out : StepOut} (h : out.result = .working) (m : Mission) (v : Svc) :
    apply up out m v = (m, v) := by
  simp only [apply, h]

/-- What finishing a stage makes of the sequence: the count of the class it names is cleared. -/
theorem done_eq (up : Option Uplink) {out : StepOut} (h : out.result = .done) (m : Mission) (v : Svc) :
    let w := apply up out m v
    w.1.stage = m.stage.next ∧ w.1.attempts = 0 ∧ w.1.stalled = m.stalled ∧
      w.1.aborted = m.aborted ∧ w.1.reentries = m.reentries ∧ w.1.abortCause = m.abortCause ∧
      w.1.payload = (if m.stage = .spadEnable then .operational else m.payload) ∧
      (12 ≤ m.stage.index → w.1.entries = m.entries) ∧
      ∀ c, w.2.occurrences c = if c = faultOf m.stage out then 0 else v.occurrences c := by
  simp only [apply, h, Stage.next]
  split
  · rename_i hlt
    refine ⟨rfl, rfl, rfl, rfl, rfl, rfl, rfl, fun hlast => absurd hlt (by omega), ?_⟩
    intro c
    rw [occurrences_enter, occurrences_clear]
  · refine ⟨rfl, rfl, rfl, rfl, rfl, rfl, rfl, fun _ => rfl, ?_⟩
    intro c
    rw [occurrences_clear]

/-- What a failed attempt makes of the sequence: the stage is entered again, unless the retries of
the class it names are now exhausted. -/
theorem retry_eq (up : Option Uplink) {out : StepOut} (h : out.result = .retry) (m : Mission) (v : Svc) :
    let w := apply up out m v
    let id := faultOf m.stage out
    let spent := (policy id).limit ≠ 0 ∧ (policy id).limit.toUInt32 ≤ v.occurrences id + 1
    w.1.stage = m.stage ∧ w.1.attempts = m.attempts + 1 ∧
      w.1.aborted = m.aborted ∧ w.1.reentries = m.reentries ∧ w.1.abortCause = m.abortCause ∧
      w.1.payload = m.payload ∧
      (spent ∧ w.1.stalled = true ∧ w.1.entries = m.entries ∨
        ¬ spent ∧ w.1.stalled = m.stalled ∧
          w.1.entries = Function.update m.entries m.stage (m.entries m.stage + 1)) ∧
      ∀ c, w.2.occurrences c = v.occurrences c + if c = id then 1 else 0 := by
  have hspent : (v.report (faultOf m.stage out) out.detail).retriesExhausted
        (faultOf m.stage out) = true ↔ (policy (faultOf m.stage out)).limit ≠ 0 ∧
      (policy (faultOf m.stage out)).limit.toUInt32 ≤ v.occurrences (faultOf m.stage out) + 1 := by
    rw [retriesExhausted_iff, occurrences_report]
    simp
  simp only [apply, h]
  split
  · rename_i hex
    refine ⟨rfl, rfl, rfl, rfl, rfl, rfl, .inl ⟨hspent.mp hex, rfl, rfl⟩, ?_⟩
    intro c
    rw [occurrences_report]
  · rename_i hopen
    refine ⟨rfl, rfl, rfl, rfl, rfl, rfl, .inr ⟨mt hspent.mpr hopen, rfl, rfl⟩, ?_⟩
    intro c
    rw [occurrences_enter, occurrences_report]

/-- What going back makes of the sequence, when it is backwards. -/
theorem back_eq (up : Option Uplink) {out : StepOut} (h : out.result = .back) (m : Mission) (v : Svc)
    (hback : out.backTo < m.stage.index) :
    let w := apply up out m v
    w.1.stage = .ofIndex out.backTo ∧ w.1.attempts = 0 ∧ w.1.stalled = m.stalled ∧
      w.1.aborted = m.aborted ∧ w.1.payload = m.payload ∧
      ∀ c, (∀ u ∈ up, ∀ call, ∀ f ∈ (u call).2, f.1 ≠ c) →
        w.2.occurrences c = v.occurrences c + if c = faultOf m.stage out then 1 else 0 := by
  simp only [apply, h, Nat.not_le.mpr hback, ↓reduceIte]
  refine ⟨rfl, rfl, rfl, rfl, rfl, ?_⟩
  intro c hup
  have hnote := reporting_reentryNote up (faultOf m.stage out)
    (v.report (faultOf m.stage out) out.detail)
  have hnone : (reentryCalls up (faultOf m.stage out)
      ((v.report (faultOf m.stage out) out.detail).fdir.reentries + 1)).countP (isReport c) = 0 := by
    refine List.countP_eq_zero.mpr ?_
    intro x hx hrep
    obtain ⟨d, rfl⟩ : ∃ d, x = .report c d := by
      cases x <;> simp_all [isReport]
    rcases List.mem_cons.mp hx with hx | hx
    · cases hx
    split at hx
    · obtain ⟨u, hu, call, hf⟩ := report_mem_escalateCalls hx
      exact hup u hu call _ hf rfl
    · simp at hx
  rw [occurrences_enter, hnote.count, hnone, occurrences_report]
  exact UInt32.add_zero _

/-- The answer stalls the sequence whatever has been counted: it cannot proceed, or is to go back
to a stage that is not an earlier one. -/
def Stuck (m : Mission) (out : StepOut) : Prop :=
  out.result = .abort ∨ out.result = .back ∧ m.stage.index ≤ out.backTo

theorem stuck_eq (up : Option Uplink) {out : StepOut} (m : Mission) (v : Svc) (h : Stuck m out) :
    (apply up out m v).1 = { m with stalled := true } := by
  rcases h with h | ⟨h, hle⟩
  · simp only [apply, h]
  · simp only [apply, h, hle, ↓reduceIte]

theorem answer_cases (m : Mission) (out : StepOut) :
    out.result = .working ∨ out.result = .done ∨ out.result = .retry ∨
      (out.result = .back ∧ out.backTo < m.stage.index) ∨ Stuck m out := by
  unfold Stuck
  cases out.result with
  | back => simpa using Nat.lt_or_ge out.backTo m.stage.index
  | working | done | retry | abort => simp

end Mission

end QiranFirmware
