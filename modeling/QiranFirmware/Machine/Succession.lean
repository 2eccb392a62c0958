import Mathlib.Algebra.BigOperators.Group.Finset.Basic

/-! # Breaks in numbered sequences

Each element of a sequence has a successor that ought to come next; where another comes, the sequence
breaks. Several sequences may arrive interleaved, every element with the key of the sequence that it
belongs to. A history that also lists what was lost shows how far apart two neighbours are that were
kept.
-/
namespace Machine

variable {κ α : Type*}

section Keys
variable [DecidableEq κ]

def ofKey (k : κ) (xs : List (κ × α)) : List α := (xs.filter fun x => x.1 = k).map Prod.snd

@[simp] theorem ofKey_nil (k : κ) : ofKey k ([] : List (κ × α)) = [] := rfl

@[simp] theorem ofKey_concat_self (k : κ) (xs : List (κ × α)) (y : α) :
    ofKey k (xs ++ [(k, y)]) = ofKey k xs ++ [y] := by
  simp [ofKey]

theorem ofKey_concat_of_ne {j k : κ} (h : k ≠ j) (xs : List (κ × α)) (y : α) :
    ofKey j (xs ++ [(k, y)]) = ofKey j xs := by
  simp [ofKey, h]

/-- The elements with a key in part of a sequence are part of those in the whole. -/
theorem ofKey_sublist (k : κ) {xs ys : List (κ × α)} (h : xs.Sublist ys) :
    (ofKey k xs).Sublist (ofKey k ys) :=
  (h.filter _).map _

end Keys

section Breaks
variable [DecidableEq α] (succ : α → α)

def Follows (xs : List α) (y : α) : Prop := ∀ x ∈ xs.getLast?, y = succ x

instance decidableFollows (xs : List α) (y : α) : Decidable (Follows succ xs y) :=
  inferInstanceAs (Decidable (∀ x ∈ xs.getLast?, y = succ x))

def breaks (xs : List α) : ℕ := (xs.zip xs.tail).countP fun p => p.2 ≠ succ p.1

@[simp] theorem breaks_nil : breaks succ [] = 0 := rfl
@[simp] theorem breaks_singleton (x : α) : breaks succ [x] = 0 := rfl

@[simp] theorem breaks_cons_cons (x y : α) (xs : List α) :
    breaks succ (x :: y :: xs) = breaks succ (y :: xs) + if y = succ x then 0 else 1 := by
  rw [breaks, List.tail_cons, List.zip_cons_cons, List.countP_cons]
  by_cases h : y = succ x <;> simp [h, breaks]

theorem breaks_concat (xs : List α) (y : α) :
    breaks succ (xs ++ [y]) = breaks succ xs + if Follows succ xs y then 0 else 1 := by
  induction xs with
  | nil => simp [Follows]
  | cons x xs ih =>
    cases xs with
    | nil => simp [Follows]
    | cons z zs =>
      have hlast : Follows succ (x :: z :: zs) y ↔ Follows succ (z :: zs) y := by
        rw [Follows, Follows, List.getLast?_cons_cons]
      rw [List.cons_append] at ih
      simp only [List.cons_append, breaks_cons_cons, ih, hlast]
      omega

/-- An element that arrives breaks its own sequence at most. -/
theorem sum_breaks_concat [DecidableEq κ] [Fintype κ] (k : κ) (xs : List (κ × α)) (y : α) :
    ∑ j, breaks succ (ofKey j (xs ++ [(k, y)])) =
      ∑ j, breaks succ (ofKey j xs) + if Follows succ (ofKey k xs) y then 0 else 1 := by
  have hrest : ∑ j ∈ Finset.univ.erase k, breaks succ (ofKey j (xs ++ [(k, y)])) =
      ∑ j ∈ Finset.univ.erase k, breaks succ (ofKey j xs) := by
    refine Finset.sum_congr rfl fun j hj => ?_
    rw [ofKey_concat_of_ne (Finset.ne_of_mem_erase hj).symm]
  rw [← Finset.add_sum_erase _ _ (Finset.mem_univ k), hrest, ofKey_concat_self, breaks_concat,
    ← Finset.add_sum_erase _ (fun j => breaks succ (ofKey j xs)) (Finset.mem_univ k)]
  omega

/-- The neighbours of an increasing sequence of numbers between which the numbers left out are not a
whole number of turns of `n`. -/
def skips (n : ℕ) (xs : List ℕ) : ℕ := (xs.zip xs.tail).countP fun p => ¬ n ∣ p.2 - (p.1 + 1)

/-- Numbers told apart up to turns of `n` break where some have been left out, unless they were whole
turns. -/
theorem breaks_mod {n : ℕ} {xs : List ℕ} (h : xs.Pairwise (· < ·)) :
    breaks (fun k => (k + 1) % n) (xs.map (· % n)) = skips n xs := by
  induction xs with
  | nil => rfl
  | cons x xs ih =>
    cases xs with
    | nil => rfl
    | cons y ys =>
      obtain ⟨hx, hrest⟩ := List.pairwise_cons.mp h
      have hlt : x + 1 ≤ y := hx y List.mem_cons_self
      have hnext : y % n = (x % n + 1) % n ↔ n ∣ y - (x + 1) := by
        rw [Nat.mod_add_mod]
        constructor
        · intro heq
          exact Nat.dvd_of_mod_eq_zero (Nat.sub_mod_eq_zero_of_mod_eq heq)
        · rintro ⟨k, hk⟩
          obtain rfl : y = x + 1 + n * k := by omega
          exact Nat.add_mul_mod_self_left ..
      have hskips : skips n (x :: y :: ys) =
          skips n (y :: ys) + if n ∣ y - (x + 1) then 0 else 1 := by
        rw [skips, List.tail_cons, List.zip_cons_cons, List.countP_cons]
        by_cases hdvd : n ∣ y - (x + 1) <;> simp [hdvd, skips]
      rw [hskips, ← ih hrest]
      simp only [List.map_cons, breaks_cons_cons, hnext]

end Breaks

section Places

def kept (xs : List (α × Bool)) : List α := (xs.filter Prod.snd).map Prod.fst

theorem kept_concat (xs : List (α × Bool)) (y : α) (b : Bool) :
    kept (xs ++ [(y, b)]) = kept xs ++ if b then [y] else [] := by
  cases b <;> simp [kept]

/-- Between two neighbours of what was kept, everything was lost. -/
theorem split_of_kept {xs : List (α × Bool)} {pre post : List α} {x y : α}
    (h : kept xs = pre ++ x :: y :: post) :
    ∃ before lost after, xs = before ++ (x, true) :: (lost ++ (y, true) :: after) ∧
      kept before = pre ∧ ∀ e ∈ lost, e.2 = false := by
  obtain ⟨front, rest, hfilter, hfront, hrest⟩ := List.map_eq_append_iff.mp h
  obtain ⟨before, tail, rfl, hbefore, htail⟩ := List.filter_eq_append_iff.mp hfilter
  obtain ⟨⟨x', bx⟩, rest', rfl, rfl, hrest'⟩ := List.map_eq_cons_iff.mp hrest
  obtain ⟨⟨y', b'⟩, rest'', rfl, rfl, -⟩ := List.map_eq_cons_iff.mp hrest'
  obtain ⟨none, tail, rfl, hnone, hx, htail⟩ := List.filter_eq_cons_iff.mp htail
  obtain ⟨lost, after, rfl, hlost, hy, -⟩ := List.filter_eq_cons_iff.mp htail
  obtain rfl : bx = true := hx
  obtain rfl : b' = true := hy
  have hempty : none.filter Prod.snd = [] := List.filter_eq_nil_iff.mpr hnone
  refine ⟨before ++ none, lost, after, (List.append_assoc ..).symm, ?_, ?_⟩
  · rw [kept, List.filter_append, hbefore, hempty, List.append_nil]
    exact hfront
  · intro e he
    simpa using hlost e he

def Numbered {β : Type*} (num : ℕ → β) (f : α → β) (xs : List α) : Prop :=
  ∀ before x after, xs = before ++ x :: after → f x = num before.length

theorem Numbered.concat {β : Type*} {num : ℕ → β} {f : α → β} {xs : List α} (h : Numbered num f xs)
    {y : α} (hy : f y = num xs.length) : Numbered num f (xs ++ [y]) := by
  intro before x after heq
  rcases List.eq_nil_or_concat after with rfl | ⟨after, z, rfl⟩
  · obtain ⟨rfl, hlast⟩ := List.append_inj' heq rfl
    rw [← (List.cons.inj hlast).1]
    exact hy
  · rw [List.concat_eq_append, ← List.cons_append, ← List.append_assoc] at heq
    exact h before x after (List.append_inj' heq rfl).1

end Places

end Machine
