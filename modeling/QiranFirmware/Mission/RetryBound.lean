import QiranFirmware.Mission.Effects
import QiranFirmware.Machine.Runs
import Mathlib.Algebra.Order.BigOperators.Group.Finset

/-! # Retries are bounded

A retry that does not stall its stage leaves the count of the class it names below the class's
limit, and nothing but a clear takes a count back down. So every such retry spends some of a
fixed tolerance, the sum of all limits, whichever classes the retries name.
-/
namespace QiranFirmware.Mission

open Machine Svc SvcCall

def retryBound : ℕ := ∑ c, (policy c).limit.toNat + 1

/-- The part of every class's limit that its count has reached. -/
def spent (v : Svc) : ℕ := ∑ c, min (v.occurrences c).toNat (policy c).limit.toNat

theorem spent_lt_retryBound (v : Svc) : spent v < retryBound :=
  Nat.lt_succ_of_le (Finset.sum_le_sum fun _ _ => Nat.min_le_right _ _)

def progress (s : Mission × Svc) : ℕ := spent s.2 + if s.1.stalled then 1 else 0

def Retrying (s : Mission × Svc) : MissionOp → Prop
  | .step _ _ r => r.out.result = .retry ∧ (policy (faultOf s.1.stage r.out)).limit ≠ 0
  | .register _ => True
  | .abort _ => True
  | .fault op => op.isClear = false

instance (s : Mission × Svc) : ∀ op, Decidable (Retrying s op)
  | .step .. => inferInstanceAs (Decidable (_ ∧ _))
  | .register _ => .isTrue trivial
  | .abort _ => .isTrue trivial
  | .fault _ => inferInstanceAs (Decidable (_ = _))

theorem stalled_missionStep {s : Mission × Svc} (h : s.1.stalled = true) (op : MissionOp) :
    (missionStep s op).1.stalled = true ∧ (missionStep s op).1.called = s.1.called := by
  cases op with
  | step config up r =>
    simp only [missionStep, step, h, Bool.or_true, ↓reduceIte, and_self]
  | register stage =>
    simp only [missionStep, register]
    split <;> exact ⟨h, rfl⟩
  | abort cause =>
    simp only [missionStep, abort]
    split <;> exact ⟨h, rfl⟩
  | fault op => exact ⟨h, rfl⟩

theorem stalled_run {s : Mission × Svc} (h : s.1.stalled = true) (ops : List MissionOp) :
    (run missionStep s ops).1.stalled = true ∧ (run missionStep s ops).1.called = s.1.called := by
  induction ops generalizing s with
  | nil => exact ⟨h, rfl⟩
  | cons op ops ih =>
    obtain ⟨hstalled, hcalled⟩ := stalled_missionStep h op
    obtain ⟨hrun, hsame⟩ := ih hstalled
    exact ⟨hrun, hsame.trans hcalled⟩

theorem spent_le {v w : Svc} (h : ∀ c, (v.occurrences c).toNat ≤ (w.occurrences c).toNat) :
    spent v ≤ spent w :=
  Finset.sum_le_sum fun c _ => min_le_min_right _ (h c)

theorem spent_lt {v w : Svc} (h : ∀ c, (v.occurrences c).toNat ≤ (w.occurrences c).toNat)
    {id : FaultId} (hlt : (v.occurrences id).toNat < (w.occurrences id).toNat)
    (hlimit : (w.occurrences id).toNat < (policy id).limit.toNat) : spent v < spent w := by
  refine Finset.sum_lt_sum (fun c _ => min_le_min_right _ (h c)) ⟨id, Finset.mem_univ id, ?_⟩
  omega

/-- One permitted step spends some of the tolerance for every step function it calls, unless it
stalls the sequence. -/
theorem progress_missionStep {s : Mission × Svc} {op : MissionOp} (hop : Retrying s op)
    (hb : Bounded s.2) (hlt : ∀ c, (missionStep s op).2.trace.countP (isReport c) < 2 ^ 32) :
    (missionStep s op).1.called.length + progress s ≤
      s.1.called.length + progress (missionStep s op) := by
  have hmono {new : List SvcCall} {w : Svc} (h : Counted new s.2 w)
      (hw : ∀ c, w.trace.countP (isReport c) < 2 ^ 32) (c : FaultId) :
      (s.2.occurrences c).toNat ≤ (w.occurrences c).toNat := by
    rw [h.grow hb (hw c)]
    exact Nat.le_add_right ..
  have hquiet {new : List SvcCall} {w : Svc} {m : Mission} (h : Counted new s.2 w)
      (hw : ∀ c, w.trace.countP (isReport c) < 2 ^ 32) (hstalled : m.stalled = s.1.stalled) :
      progress s ≤ progress (m, w) := by
    simp only [progress, hstalled]
    exact Nat.add_le_add_right (spent_le (hmono h hw)) _
  cases op with
  | step config up r =>
    simp only [missionStep] at hlt ⊢
    rcases step_cases config up r s.1 s.2 with
      ⟨-, new, hnew, hholds⟩ | ⟨-, hstalled, -, new, m₁, v₁, hnew, hcalled, he⟩
    · rw [hholds.called]
      exact Nat.add_le_add_left (hquiet hnew.counted hlt hholds.stalled) _
    · obtain ⟨b, hb', hmem, -, hstall⟩ := apply_retry up m₁ v₁ hop.1
      have hall := (hnew.trans hb').counted
      rw [he] at hlt ⊢
      obtain ⟨-, -, hcalls⟩ := apply_frame up r.out m₁ v₁
      rw [hcalled.stage] at hmem hstall
      rw [hcalls, hcalled.called, List.length_append, List.length_singleton]
      have hfault := hall.grow hb (hlt (faultOf s.1.stage r.out))
      have hone := countP_isReport_pos (List.mem_append_right new hmem)
      have hspent : spent s.2 ≤ spent (apply up r.out m₁ v₁).2 := spent_le (hmono hall hlt)
      simp only [progress, hstalled, Bool.false_eq_true, ↓reduceIte]
      by_cases hnow : (apply up r.out m₁ v₁).1.stalled = true
      · simp only [hnow, ↓reduceIte]
        omega
      · have hunder : ((apply up r.out m₁ v₁).2.occurrences (faultOf s.1.stage r.out)).toNat <
            (policy (faultOf s.1.stage r.out)).limit.toNat := by
          have hopen : ¬ (policy (faultOf s.1.stage r.out)).limit.toUInt32 ≤
              (apply up r.out m₁ v₁).2.occurrences (faultOf s.1.stage r.out) :=
            fun h => hnow (hstall.mpr (.inl (retriesExhausted_iff.mpr ⟨hop.2, h⟩)))
          rw [UInt32.le_iff_toNat_le, UInt16.toNat_toUInt32] at hopen
          omega
        have hless : spent s.2 < spent (apply up r.out m₁ v₁).2 :=
          spent_lt (hmono hall hlt) (by omega) hunder
        simp only [hnow, Bool.false_eq_true, ↓reduceIte]
        omega
  | register stage =>
    simp only [missionStep, register]
    split <;> exact Nat.le_refl _
  | abort cause =>
    simp only [missionStep, abort] at hlt ⊢
    split
    · exact Nat.le_refl _
    · rename_i h
      simp only [h, Bool.false_eq_true, ↓reduceIte] at hlt
      exact Nat.add_le_add_left (hquiet (reporting_logFault ..).counted hlt rfl) _
  | fault op =>
    obtain ⟨new, hnew⟩ := counted_faultStep hop s.2
    exact Nat.add_le_add_left (hquiet hnew hlt rfl) _

theorem progress_run {s : Mission × Svc} {ops : List MissionOp}
    (h : Along missionStep Retrying s ops) (hb : Bounded s.2)
    (hlt : ∀ c, (run missionStep s ops).2.trace.countP (isReport c) < 2 ^ 32) :
    (run missionStep s ops).1.called.length + progress s ≤
      s.1.called.length + progress (run missionStep s ops) := by
  induction ops generalizing s with
  | nil => exact Nat.le_refl _
  | cons op ops ih =>
    have hnext := (moves_missionStep s op).bounded hb
    have hbefore := (moves_run (missionStep s op) ops).isPrefix
    have hone := progress_missionStep h.1 hb fun c =>
      lt_of_le_of_lt (hbefore.sublist.countP_le) (hlt c)
    have hrest := ih h.2 hnext hlt
    rw [run_cons]
    omega

def MissionOp.isStep : MissionOp → Bool
  | .step .. => true
  | _ => false

theorem aborted_run {s : Mission × Svc} (h : s.1.aborted = true) (ops : List MissionOp) :
    (run missionStep s ops).1.aborted = true := by
  induction ops generalizing s with
  | nil => exact h
  | cons op ops ih =>
    refine ih ?_
    cases op with
    | step config up r => simp only [missionStep, step, h, Bool.true_or, ↓reduceIte]
    | register stage =>
      simp only [missionStep, register]
      split <;> exact h
    | abort cause => simp only [missionStep, abort, h, ↓reduceIte]
    | fault op => exact h

theorem stage_missionStep {s : Mission × Svc} {op : MissionOp} (hop : Retrying s op)
    (hreg : s.1.registered s.1.stage = true) : (missionStep s op).1.stage = s.1.stage ∧
      (missionStep s op).1.registered (missionStep s op).1.stage = true := by
  cases op with
  | step config up r =>
    simp only [missionStep]
    rcases step_cases config up r s.1 s.2 with ⟨-, -, -, hholds⟩ | ⟨-, -, -, -, m₁, v₁, -, hcalled, he⟩
    · rw [hholds.stage, hholds.registered]
      exact ⟨rfl, hreg⟩
    · obtain ⟨-, -, -, hstage, -⟩ := apply_retry up m₁ v₁ hop.1
      rw [he, hstage, (apply_frame up r.out m₁ v₁).1, hcalled.stage, hcalled.registered]
      exact ⟨rfl, hreg⟩
  | register stage =>
    simp only [missionStep, register]
    split
    · exact ⟨rfl, hreg⟩
    · refine ⟨rfl, ?_⟩
      by_cases hs : s.1.stage = stage
      · simp [hs]
      · simp [hs, hreg]
  | abort cause =>
    simp only [missionStep, abort]
    split <;> exact ⟨rfl, hreg⟩
  | fault op => exact ⟨rfl, hreg⟩

theorem called_missionStep {s : Mission × Svc} (op : MissionOp)
    (hreg : s.1.registered s.1.stage = true) (hstalled : s.1.stalled = false)
    (haborted : s.1.aborted = false) : (missionStep s op).1.called.length =
      s.1.called.length + if op.isStep then 1 else 0 := by
  cases op with
  | step config up r =>
    simp only [missionStep]
    rcases step_cases config up r s.1 s.2 with ⟨hidle, -⟩ | ⟨-, -, -, -, m₁, v₁, -, hcalled, he⟩
    · simp [hreg, hstalled, haborted] at hidle
    · rw [he, (apply_frame up r.out m₁ v₁).2.2, hcalled.called, List.length_append]
      rfl
  | register stage =>
    simp only [missionStep, register]
    split <;> rfl
  | abort cause =>
    simp only [missionStep, abort]
    split <;> rfl
  | fault op => rfl

/-- As long as nothing stalls or aborts the sequence, every step calls a step function. -/
theorem called_run {s : Mission × Svc} {ops : List MissionOp}
    (h : Along missionStep Retrying s ops) (hreg : s.1.registered s.1.stage = true)
    (hstalled : (run missionStep s ops).1.stalled = false)
    (haborted : (run missionStep s ops).1.aborted = false) :
    (run missionStep s ops).1.called.length =
      s.1.called.length + ops.countP MissionOp.isStep := by
  induction ops generalizing s with
  | nil => rfl
  | cons op ops ih =>
    have hnot : s.1.stalled = false ∧ s.1.aborted = false := by
      constructor
      · by_contra hs
        have hend := (stalled_run (Bool.not_eq_false _ ▸ hs) (op :: ops)).1
        exact Bool.false_ne_true (hstalled.symm.trans hend)
      · by_contra hs
        have hend := aborted_run (Bool.not_eq_false _ ▸ hs) (op :: ops)
        exact Bool.false_ne_true (haborted.symm.trans hend)
    have hone := called_missionStep op hreg hnot.1 hnot.2
    have hrest := ih h.2 (stage_missionStep h.1 hreg).2 hstalled haborted
    rw [run_cons, hrest, hone, List.countP_cons]
    omega

/-- Retries are bounded: in a run from any reachable state in which every step function answers
with a retry, step functions are called at most `retryBound` times; unless the sequence is
aborted, it has stalled within that many steps; and a stalled sequence never calls one again. -/
theorem retries_bounded {before ops : List MissionOp}
    (h : Along missionStep Retrying (run missionStep (init {}) before) ops)
    (hreports : ∀ c, (run missionStep (init {}) (before ++ ops)).2.trace.countP (isReport c) < 2 ^ 32) :
    let s := run missionStep (init {}) before
    let w := run missionStep s ops
    w.1.called.length ≤ s.1.called.length + retryBound ∧
    (s.1.registered s.1.stage = true → w.1.aborted = false →
      retryBound ≤ ops.countP MissionOp.isStep → w.1.stalled = true) ∧
    (w.1.stalled = true → ∀ later, (run missionStep w later).1.stalled = true ∧
      (run missionStep w later).1.called = w.1.called) := by
  intro s w
  have hb : Bounded s.2 := (moves_run (init {}) before).bounded bounded_init
  have hprogress : w.1.called.length + progress s ≤ s.1.called.length + progress w :=
    progress_run h hb (by rwa [run_append] at hreports)
  have hflag : progress w ≤ spent w.2 + 1 := by
    simp only [progress]
    split <;> omega
  have hspent := spent_lt_retryBound w.2
  refine ⟨by omega, ?_, fun hstalled later => stalled_run hstalled later⟩
  intro hreg haborted hsteps
  by_contra hstalled
  have hcalled : w.1.called.length = s.1.called.length + ops.countP MissionOp.isStep :=
    called_run h hreg (Bool.not_eq_true _ ▸ hstalled) haborted
  have hnoflag : progress w = spent w.2 := by simp [progress, hstalled]
  omega

def retryStep : MissionOp := .step (fun _ => 0) none { out := { result := .retry } }

theorem retries_bounded_boot :
    (run missionStep (run missionStep (init {}) [.register .boot])
      (List.replicate retryBound retryStep)).1.stalled = true :=
  (retries_bounded (by decide +kernel) (by decide +kernel)).2.1 (by decide +kernel)
    (by decide +kernel) (by decide +kernel)

structure Unlimited (s : Mission × Svc) : Prop where
  stalled : s.1.stalled = false
  aborted : s.1.aborted = false
  registered : s.1.registered s.1.stage = true
  limit : (policy s.1.stage.fault).limit = 0

theorem Unlimited.step {s : Mission × Svc} (h : Unlimited s) :
    Unlimited (missionStep s retryStep) ∧ (missionStep s retryStep).1.stage = s.1.stage := by
  rcases step_cases (fun _ => 0) none { out := { result := .retry } } s.1 s.2 with
    ⟨hidle, -⟩ | ⟨-, -, -, new, m₁, v₁, -, hcall, he⟩
  · simp [h.registered, h.stalled, h.aborted] at hidle
  have hretry : ({ result := .retry } : StepOut).result = .retry := rfl
  obtain ⟨b, -, -, hstage, hstall⟩ := apply_retry none m₁ v₁ hretry
  obtain ⟨hreg, haborted, -⟩ := apply_frame none { result := .retry } m₁ v₁
  have hsame : (missionStep s retryStep).1.stage = s.1.stage := by
    simp only [missionStep, retryStep, he, hstage, hcall.stage]
  refine ⟨⟨?_, ?_, ?_, ?_⟩, hsame⟩
  · have hopen : (apply none { result := .retry } m₁ v₁).2.retriesExhausted
        (faultOf m₁.stage { result := .retry }) = false := by
      rw [hcall.stage]
      simp [faultOf, retriesExhausted, h.limit]
    simp only [missionStep, retryStep, he]
    simpa [hopen, hcall.stalled, h.stalled] using hstall
  · simp only [missionStep, retryStep, he, haborted]
    exact (hcall.aborted rfl).trans h.aborted
  · rw [hsame]
    simp only [missionStep, retryStep, he, hreg, hcall.registered, h.registered]
  · rw [hsame]
    exact h.limit

theorem Unlimited.run {s : Mission × Svc} (h : Unlimited s) (n : ℕ) :
    let w := Machine.run missionStep s (List.replicate n retryStep)
    w.1.stage = s.1.stage ∧ w.1.stalled = false ∧ w.1.called.length = s.1.called.length + n := by
  induction n generalizing s with
  | zero => exact ⟨rfl, h.stalled, rfl⟩
  | succ n ih =>
    obtain ⟨hnext, hsame⟩ := h.step
    obtain ⟨hstage, hstalled, hlength⟩ := ih hnext
    have hone := called_missionStep retryStep h.registered h.stalled h.aborted
    refine ⟨hstage.trans hsame, hstalled, hlength.trans ?_⟩
    rw [hone, Nat.add_assoc, Nat.add_comm n]
    rfl

def reachSpad : List MissionOp :=
  (Stage.all.take 8).map .register ++
    List.replicate 7 (.step (fun _ => 0) none { out := { result := .done } })

/-- That stage's own class has no limit, so no number of retries stalls it. -/
theorem spad_retries_unbounded :
    (run missionStep (init {}) reachSpad).1.stage = .spadEnable ∧
      ¬ ∃ n, (run missionStep (run missionStep (init {}) reachSpad)
        (List.replicate n retryStep)).1.stalled = true := by
  have hspad : Unlimited (run missionStep (init {}) reachSpad) :=
    ⟨by decide, by decide, by decide, by decide⟩
  refine ⟨by decide, ?_⟩
  rintro ⟨n, hn⟩
  obtain ⟨-, hstalled, -⟩ := hspad.run n
  rw [hstalled] at hn
  exact absurd hn (by decide)

end QiranFirmware.Mission
