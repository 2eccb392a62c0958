import Mathlib.Algebra.BigOperators.Group.List.Basic
import Mathlib.Algebra.Ring.Nat

/-! # Items laid end to end

Items of different sizes follow one another from offset 0. `extent` is where the next one would
go, and `itemAt` finds the item that starts at an offset.
-/
namespace Machine

variable {α : Type*} (size : α → ℕ)

def extent (xs : List α) : ℕ := (xs.map size).sum

def itemAt : List α → ℕ → Option α
  | [], _ => none
  | x :: xs, o => if o = 0 then some x else if o < size x then none else itemAt xs (o - size x)

@[simp] theorem extent_nil : extent size [] = 0 := rfl

@[simp] theorem extent_cons (x : α) (xs : List α) : extent size (x :: xs) = size x + extent size xs :=
  List.sum_cons ..

@[simp] theorem extent_append (xs ys : List α) :
    extent size (xs ++ ys) = extent size xs + extent size ys := by
  rw [extent, List.map_append, List.sum_append]
  rfl

theorem extent_take_succ {xs : List α} {i : ℕ} (hi : i < xs.length) :
    extent size (xs.take (i + 1)) = extent size (xs.take i) + size xs[i] := by
  rw [List.take_succ_eq_append_getElem hi, extent_append, extent_cons, extent_nil, Nat.add_zero]

theorem extent_take_le (xs : List α) (i : ℕ) : extent size (xs.take i) ≤ extent size xs := by
  conv_rhs => rw [← List.take_append_drop i xs, extent_append]
  exact Nat.le_add_right ..

variable {size}

theorem mul_length_le_extent {c : ℕ} {xs : List α} (h : ∀ x ∈ xs, c ≤ size x) :
    c * xs.length ≤ extent size xs := by
  induction xs with
  | nil => exact Nat.zero_le _
  | cons x xs ih =>
    have hx := h x List.mem_cons_self
    have hxs := ih fun y hy => h y (List.mem_cons_of_mem x hy)
    rw [extent_cons, List.length_cons, Nat.mul_succ]
    omega

/-- The item at the extent of those before it. -/
theorem itemAt_extent {xs : List α} (h : ∀ x ∈ xs, 0 < size x) {i : ℕ} (hi : i < xs.length) :
    itemAt size xs (extent size (xs.take i)) = some xs[i] := by
  induction xs generalizing i with
  | nil => exact absurd hi (Nat.not_lt_zero _)
  | cons x xs ih =>
    cases i with
    | zero => rfl
    | succ i =>
      have hx := h x List.mem_cons_self
      have htail := ih (fun y hy => h y (List.mem_cons_of_mem x hy)) (Nat.lt_of_succ_lt_succ hi)
      rw [List.take_succ_cons, extent_cons, itemAt, if_neg (by omega), if_neg (by omega),
        Nat.add_sub_cancel_left, htail, List.getElem_cons_succ]

end Machine
