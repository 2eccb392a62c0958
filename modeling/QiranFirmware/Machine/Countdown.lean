import Mathlib.Data.List.DropRight
import Mathlib.Data.Nat.ModEq

/-! # Countdowns that are reloaded

A countdown of some period is lowered at every time until it stands at one, and is then due and
reloaded. Started at its phase and one, it is due at the times that leave the phase when they are
divided by the period. What is due gives a result, and only the results of those times count.
-/
namespace Machine

/-- At time `k` the countdown `c` will next be due at a time that leaves `r`. -/
structure Counts (period r k c : ℕ) : Prop where
  pos : 1 ≤ c
  le : c ≤ period
  next : (k + (c - 1)) % period = r

theorem counts_start {period : ℕ} (i : ℕ) (hperiod : 0 < period) :
    Counts period (i % period) 0 (i % period + 1) where
  pos := Nat.le_add_left 1 _
  le := Nat.mod_lt i hperiod
  next := by rw [Nat.zero_add, Nat.add_sub_cancel, Nat.mod_mod]

/-- The countdown is due exactly at those times. -/
theorem Counts.due_iff {period r k c : ℕ} (h : Counts period r k c) : c = 1 ↔ k % period = r := by
  have hnext := h.next
  constructor
  · rintro rfl
    exact hnext
  · intro hk
    have hzero : (c - 1) % period = 0 := by
      have hmod : k + (c - 1) ≡ k + 0 [MOD period] := hnext.trans hk.symm
      exact Nat.ModEq.add_left_cancel' k hmod
    rw [Nat.mod_eq_of_lt (by have hpos := h.pos; have hle := h.le; omega)] at hzero
    have hpos := h.pos
    omega

theorem Counts.lower {period r k c : ℕ} (h : Counts period r k c) (hc : 1 < c) :
    Counts period r (k + 1) (c - 1) where
  pos := Nat.le_sub_one_of_lt hc
  le := Nat.le_trans (Nat.sub_le c 1) h.le
  next := by
    rw [← h.next]
    congr 1
    omega

theorem Counts.reload {period r k c : ℕ} (h : Counts period r k c) (hc : c = 1) :
    Counts period r (k + 1) period where
  pos := Nat.le_trans h.pos h.le
  le := Nat.le_refl period
  next := by
    have hpos := Nat.le_trans h.pos h.le
    rw [show k + 1 + (period - 1) = k + period by omega, Nat.add_mod_right]
    exact h.due_iff.mp hc

section Results
variable {α β : Type*} (period r : ℕ) (f : α → β)

def results (xs : List α) : List β :=
  (xs.zipIdx.filter fun x => x.2 % period = r).map fun x => f x.1

@[simp] theorem results_nil : results period r f [] = [] := rfl

theorem results_concat (xs : List α) (x : α) : results period r f (xs ++ [x]) =
    if xs.length % period = r then results period r f xs ++ [f x] else results period r f xs := by
  rw [results, List.zipIdx_append, List.filter_append, List.map_append, results]
  by_cases h : xs.length % period = r <;> simp [h]

theorem results_one (xs : List α) : results 1 0 f xs = xs.map f := by
  induction xs using List.reverseRecOn with
  | nil => rfl
  | append_singleton xs x ih => rw [results_concat, if_pos (Nat.mod_one _), ih, List.map_append,
      List.map_singleton]

end Results

def streak {α : Type*} (p : α → Bool) (xs : List α) : ℕ := (xs.rtakeWhile p).length

section Streak
variable {α : Type*} {p : α → Bool}

@[simp] theorem streak_nil : streak p [] = 0 := rfl

theorem streak_concat (xs : List α) (x : α) :
    streak p (xs ++ [x]) = if p x then streak p xs + 1 else 0 := by
  rw [streak, List.rtakeWhile_concat]
  split
  · rw [List.length_append, List.length_singleton, streak]
  · rfl

theorem streak_of_forall {xs : List α} (h : ∀ x ∈ xs, p x = true) : streak p xs = xs.length := by
  rw [streak, List.rtakeWhile_eq_self_iff.mpr h]

end Streak

end Machine
