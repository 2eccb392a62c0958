import QiranFirmware.Machine.Runs
import Mathlib.Data.List.Induction

/-! # A level that climbs one at a time

A machine whose every operation either raises a level by exactly one, in a permitted way, or does
not raise it. A run that ends above a level has left it upward, in the permitted way, and has not
been back at it or below it since.
-/
namespace Machine

variable {σ ι : Type*} {step : σ → ι → σ} {level : σ → ℕ} {up : σ → ι → Prop}

/-- The last operation of `ops` taken at or below level `j` is a permitted rise from `j`, and what
follows it stays above `j`. -/
def LeftUpward (step : σ → ι → σ) (level : σ → ℕ) (up : σ → ι → Prop) (s : σ) (ops : List ι)
    (j : ℕ) : Prop :=
  ∃ before i after, ops = before ++ i :: after ∧
    level (run step s before) = j ∧ up (run step s before) i ∧
    level (run step s (before ++ [i])) = j + 1 ∧
    ∀ part, part <+: after → j < level (run step s (before ++ i :: part))

theorem LeftUpward.snoc {s : σ} {ops : List ι} {i : ι} {j : ℕ}
    (h : LeftUpward step level up s ops j) (hi : j < level (run step s (ops ++ [i]))) :
    LeftUpward step level up s (ops ++ [i]) j := by
  obtain ⟨before, k, after, rfl, hlevel, hup, hrise, hafter⟩ := h
  refine ⟨before, k, after ++ [i], by simp, hlevel, hup, hrise, ?_⟩
  intro part hpart
  rcases List.prefix_concat_iff.mp hpart with rfl | hpart
  · simpa using hi
  · exact hafter part hpart

theorem leftUpward_of_lt
    (hstep : ∀ s i, level (step s i) ≤ level s ∨ level (step s i) = level s + 1 ∧ up s i)
    {s : σ} (hs : level s = 0) {ops : List ι} {j : ℕ} (hj : j < level (run step s ops)) :
    LeftUpward step level up s ops j := by
  induction ops using List.reverseRecOn with
  | nil =>
    rw [run_nil, hs] at hj
    exact absurd hj (Nat.not_lt_zero j)
  | append_singleton ops i ih =>
    by_cases hbefore : j < level (run step s ops)
    · exact (ih hbefore).snoc hj
    · -- The last operation itself rose above `j`, so it rose from `j`.
      have hend : run step s (ops ++ [i]) = step (run step s ops) i := by simp
      have hrise := hstep (run step s ops) i
      rw [hend] at hj
      have hfrom : level (run step s ops) = j := by omega
      have hto : level (step (run step s ops) i) = level (run step s ops) + 1 := by omega
      refine ⟨ops, i, [], rfl, hfrom, (hrise.resolve_left (by omega)).2, ?_, ?_⟩
      · rw [hend, hto, hfrom]
      · intro part hpart
        rw [List.prefix_nil.mp hpart, hend]
        exact hj

end Machine
