import Mathlib.Data.Rat.Floor
import Mathlib.Tactic.Linarith
import Mathlib.Tactic.Positivity

/-! # Arithmetic that rounds

The operations of a floating-point unit on numbers that it can hold, as the exact operation and then a
rounding of its result, which is off by a small part of it at most. A number that is rounded to a whole
one by adding a half and cutting off what is behind the point is off by little more than a half.
-/
namespace Machine

/-- A rounding that is off by at most one part in `2 ^ 53`. -/
structure Rounding where
  fl : ℚ → ℚ
  near : ∀ x, |fl x - x| ≤ |x| / 2 ^ 53

namespace Rounding

def exact : Rounding where
  fl x := x
  near x := by
    rw [sub_self, abs_zero]
    positivity

variable (R : Rounding) {x : ℚ}

theorem le_fl (hx : 0 ≤ x) : x - x / 2 ^ 53 ≤ R.fl x := by
  have hnear := (abs_le.mp (R.near x)).1
  rw [abs_of_nonneg hx] at hnear
  linarith

theorem fl_le (hx : 0 ≤ x) : R.fl x ≤ x + x / 2 ^ 53 := by
  have hnear := (abs_le.mp (R.near x)).2
  rw [abs_of_nonneg hx] at hnear
  linarith

theorem fl_nonneg (hx : 0 ≤ x) : 0 ≤ R.fl x := by
  apply le_trans _ (R.le_fl hx)
  rw [sub_nonneg]
  exact div_le_self hx (by norm_num)

def addHalf (x : ℚ) : ℚ := R.fl (R.fl x + 1 / 2)

/-- By how much what two operations make of a number below `2 ^ 32` may be off. -/
def slack : ℚ := 1 / 2 ^ 19

theorem addHalf_nonneg (hx : 0 ≤ x) : 0 ≤ R.addHalf x :=
  R.fl_nonneg (add_nonneg (R.fl_nonneg hx) (by norm_num))

theorem addHalf_near (hx : 0 ≤ x) (hlt : x ≤ 2 ^ 32) :
    |R.addHalf x - (x + 1 / 2)| ≤ slack := by
  have hfirst := R.le_fl hx
  have hfirst' := R.fl_le hx
  have hpos : 0 ≤ R.fl x + 1 / 2 := add_nonneg (R.fl_nonneg hx) (by norm_num)
  have hsecond := R.le_fl hpos
  have hsecond' := R.fl_le hpos
  rw [addHalf, slack, abs_le]
  constructor
  · linarith
  · linarith

/-- A number that is out of range stays next to it. -/
theorem addHalf_large (hx : 2 ^ 32 ≤ x) : 2 ^ 32 - 1 ≤ R.addHalf x := by
  have hpos : 0 ≤ x := le_trans (by norm_num) hx
  have hfirst := R.le_fl hpos
  have hsecond := R.le_fl (add_nonneg (R.fl_nonneg hpos) (by norm_num : (0 : ℚ) ≤ 1 / 2))
  rw [addHalf]
  linarith

theorem floor_addHalf (hx : 0 ≤ x) (hlt : x ≤ 2 ^ 32) :
    |((⌊R.addHalf x⌋₊ : ℕ) : ℚ) - x| ≤ 1 / 2 + slack := by
  obtain ⟨hlow, hhigh⟩ := abs_le.mp (R.addHalf_near hx hlt)
  have hfloor := Nat.floor_le (R.addHalf_nonneg hx)
  have hnext := Nat.lt_floor_add_one (R.addHalf x)
  rw [abs_le]
  constructor
  · linarith
  · linarith

end Rounding

end Machine
