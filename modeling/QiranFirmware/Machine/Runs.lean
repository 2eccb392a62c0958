import Mathlib.Data.List.Basic

/-! # Runs of a machine that takes one operation after another

A machine is a state type, an operation type and a total step. A run is a list of
operations; a condition on the operations is asked of each one in the state it is taken in. By
`along_append` the start of a permitted run is permitted, so what holds at the end of every
permitted run holds in every state one passes through.
-/
namespace Machine

variable {σ ι : Type*} (step : σ → ι → σ)

def run (s : σ) (ops : List ι) : σ := ops.foldl step s

@[simp] theorem run_nil (s : σ) : run step s [] = s := rfl
@[simp] theorem run_cons (s : σ) (i : ι) (ops : List ι) :
    run step s (i :: ops) = run step (step s i) ops := rfl
@[simp] theorem run_append (s : σ) (xs ys : List ι) :
    run step s (xs ++ ys) = run step (run step s xs) ys := List.foldl_append ..

/-- Every operation meets `ok` in the state it is taken in. -/
def Along (ok : σ → ι → Prop) : σ → List ι → Prop
  | _, [] => True
  | s, i :: ops => ok s i ∧ Along ok (step s i) ops

instance decidableAlong (ok : σ → ι → Prop) [∀ s i, Decidable (ok s i)] :
    ∀ s ops, Decidable (Along step ok s ops)
  | _, [] => .isTrue trivial
  | s, i :: ops => @instDecidableAnd _ _ _ (decidableAlong ok (step s i) ops)

variable {step} {ok : σ → ι → Prop}

@[simp] theorem along_nil (s : σ) : Along step ok s [] := trivial
@[simp] theorem along_cons {s : σ} {i : ι} {ops : List ι} :
    Along step ok s (i :: ops) ↔ ok s i ∧ Along step ok (step s i) ops := Iff.rfl

theorem along_append {s : σ} {xs ys : List ι} :
    Along step ok s (xs ++ ys) ↔ Along step ok s xs ∧ Along step ok (run step s xs) ys := by
  induction xs generalizing s with
  | nil => simp
  | cons i xs ih => simp [ih, and_assoc]

theorem along_of_forall {P : ι → Prop} {ops : List ι} (h : ∀ i ∈ ops, P i) {s : σ} :
    Along step (fun _ i => P i) s ops := by
  induction ops generalizing s with
  | nil => trivial
  | cons i ops ih =>
    exact ⟨h i List.mem_cons_self, ih fun j hj => h j (List.mem_cons_of_mem _ hj)⟩

theorem Along.mono {P : σ → ι → Prop} (h : ∀ s i, ok s i → P s i) {s : σ} {ops : List ι}
    (hok : Along step ok s ops) : Along step P s ops := by
  induction ops generalizing s with
  | nil => trivial
  | cons i ops ih => exact ⟨h s i hok.1, ih hok.2⟩

/-- Conditions that agree on every operation permitted are met along the same permitted runs. -/
theorem along_congr {P Q : σ → ι → Prop} (h : ∀ s i, ok s i → (P s i ↔ Q s i)) {s : σ}
    {ops : List ι} (hok : Along step ok s ops) : Along step P s ops ↔ Along step Q s ops := by
  induction ops generalizing s with
  | nil => rfl
  | cons i ops ih => exact and_congr (h s i hok.1) (ih hok.2)

theorem run_invariant {inv : σ → Prop}
    (hstep : ∀ s i, inv s → ok s i → inv (step s i)) {s : σ} {ops : List ι}
    (hs : inv s) (h : Along step ok s ops) : inv (run step s ops) := by
  induction ops generalizing s with
  | nil => exact hs
  | cons i ops ih => exact ih (hstep s i hs h.1) h.2

theorem run_keeps {inv : σ → Prop} (hstep : ∀ s i, inv s → inv (step s i)) {s : σ} (hs : inv s)
    (ops : List ι) : inv (run step s ops) := by
  induction ops generalizing s with
  | nil => exact hs
  | cons i ops ih => exact ih (hstep s i hs)

/-- Where each operation keeps the invariant exactly when it meets `ok`, a run keeps it in every state
exactly when all of its operations do. -/
theorem reached_iff_along {inv : σ → Prop}
    (hstep : ∀ s i, inv s → (inv (step s i) ↔ ok s i)) {s : σ} {ops : List ι} (hs : inv s) :
    (∀ xs ys, ops = xs ++ ys → inv (run step s xs)) ↔ Along step ok s ops := by
  induction ops generalizing s with
  | nil =>
    refine ⟨fun _ => trivial, ?_⟩
    intro _ xs ys heq
    obtain ⟨rfl, -⟩ := List.append_eq_nil_iff.mp heq.symm
    exact hs
  | cons i ops ih =>
    constructor
    · intro h
      have hnext : inv (step s i) := h [i] ops rfl
      refine ⟨(hstep s i hs).mp hnext, (ih hnext).mp ?_⟩
      intro xs ys heq
      exact h (i :: xs) ys (by rw [heq, List.cons_append])
    · rintro ⟨hok, hrest⟩ xs ys heq
      cases xs with
      | nil => exact hs
      | cons j xs =>
        obtain ⟨rfl, rfl⟩ := List.cons.inj heq
        exact (ih ((hstep s i hs).mpr hok)).mpr hrest xs ys rfl

end Machine
