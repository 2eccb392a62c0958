import Mathlib.Data.List.Induction

/-! # Obligations in a trace

A trace lists events in the order they happen. An event with `p` is answered when an event
with `q` comes after it; `pending` counts the ones still open.
-/
namespace Machine

variable {ε : Type*}

/-- Every event with `p` is followed by one with `q`. -/
def Answered (p q : ε → Prop) (t : List ε) : Prop :=
  ∀ before x after, t = before ++ x :: after → p x → ∃ y ∈ after, q y

theorem answered_nil (p q : ε → Prop) : Answered p q [] := by
  intro before x after h
  simp at h

theorem answered_of_forall_not {p q : ε → Prop} {t : List ε} (h : ∀ x ∈ t, ¬ p x) :
    Answered p q t := by
  rintro before x after rfl hp
  exact absurd hp (h x (by simp))

theorem answered_cons {p q : ε → Prop} {x : ε} {t : List ε} :
    Answered p q (x :: t) ↔ (p x → ∃ y ∈ t, q y) ∧ Answered p q t := by
  constructor
  · intro h
    refine ⟨h [] x t rfl, ?_⟩
    rintro before y after rfl hp
    exact h (x :: before) y after rfl hp
  · rintro ⟨hx, ht⟩ before y after he hp
    cases before with
    | nil =>
      obtain ⟨rfl, rfl⟩ := List.cons.inj he
      exact hx hp
    | cons z before => exact ht before y after (List.cons.inj he).2 hp

theorem Answered.append {p q : ε → Prop} {s t : List ε} (hs : Answered p q s)
    (ht : Answered p q t) : Answered p q (s ++ t) := by
  induction s with
  | nil => exact ht
  | cons x s ih =>
    obtain ⟨hx, hs⟩ := answered_cons.mp hs
    refine answered_cons.mpr ⟨?_, ih hs⟩
    intro hp
    obtain ⟨y, hy, hq⟩ := hx hp
    exact ⟨y, List.mem_append_left t hy, hq⟩

/-- One answer settles everything before it. -/
theorem answered_append_of_mem {p q : ε → Prop} {s t : List ε} (hq : ∃ y ∈ t, q y)
    (ht : Answered p q t) : Answered p q (s ++ t) := by
  induction s with
  | nil => exact ht
  | cons x s ih =>
    refine answered_cons.mpr ⟨?_, ih⟩
    intro _
    obtain ⟨y, hy, hq⟩ := hq
    exact ⟨y, List.mem_append_right s hy, hq⟩

theorem Answered.trans {p q r : ε → Prop} {t : List ε} (hpq : Answered p q t)
    (hqr : Answered q r t) : Answered p r t := by
  rintro before x after rfl hp
  obtain ⟨y, hy, hq⟩ := hpq before x after rfl hp
  obtain ⟨mid, rest, rfl⟩ := List.append_of_mem hy
  obtain ⟨z, hz, hr⟩ := hqr (before ++ x :: mid) y rest (by simp) hq
  exact ⟨z, by simp [hz], hr⟩

/-- Every event satisfies `P` of what came before it. -/
def EachAfter (P : List ε → ε → Prop) (t : List ε) : Prop :=
  ∀ before x after, t = before ++ x :: after → P before x

theorem eachAfter_nil (P : List ε → ε → Prop) : EachAfter P [] := by
  intro before x after h
  simp at h

theorem EachAfter.left {P : List ε → ε → Prop} {s t : List ε} (h : EachAfter P (s ++ t)) :
    EachAfter P s := by
  rintro before x after rfl
  exact h before x (after ++ t) (by simp)

theorem eachAfter_concat {P : List ε → ε → Prop} {t : List ε} {x : ε} :
    EachAfter P (t ++ [x]) ↔ EachAfter P t ∧ P t x := by
  constructor
  · intro h
    refine ⟨fun before y after heq => h before y (after ++ [x]) (by simp [heq]), h t x [] rfl⟩
  · rintro ⟨ht, hx⟩ before y after heq
    rcases List.eq_nil_or_concat after with rfl | ⟨rest, z, rfl⟩
    · obtain ⟨rfl, hxy⟩ := List.append_inj' heq rfl
      obtain rfl := List.singleton_inj.mp hxy
      exact hx
    · rw [List.concat_eq_append, ← List.cons_append, ← List.append_assoc] at heq
      exact ht before y rest (List.append_inj' heq rfl).1

theorem eachAfter_append {P : List ε → ε → Prop} {s t : List ε} (hs : EachAfter P s)
    (ht : ∀ before, ∀ x ∈ t, P (s ++ before) x) : EachAfter P (s ++ t) := by
  induction t using List.reverseRecOn with
  | nil => rwa [List.append_nil]
  | append_singleton t x ih =>
    rw [← List.append_assoc]
    refine eachAfter_concat.mpr ⟨ih fun before y hy => ht before y (List.mem_append_left _ hy), ?_⟩
    exact ht t x (List.mem_append_right _ List.mem_cons_self)

section Pending
variable (p q : ε → Bool)

/-- The events with `p` since the last one with `q`. -/
def pending (t : List ε) : ℕ :=
  t.foldl (fun n x => if q x then 0 else if p x then n + 1 else n) 0

@[simp] theorem pending_nil : pending p q [] = 0 := rfl

@[simp] theorem pending_concat (t : List ε) (x : ε) :
    pending p q (t ++ [x]) = if q x then 0 else if p x then pending p q t + 1 else pending p q t := by
  simp [pending, List.foldl_append]

variable {p q}

theorem pending_append_of_forall_not {s t : List ε} (h : ∀ x ∈ t, q x = false) :
    pending p q (s ++ t) = pending p q s + t.countP p := by
  induction t using List.reverseRecOn with
  | nil => simp
  | append_singleton t x ih =>
    have ih := ih (fun y hy => h y (by simp [hy]))
    rw [← List.append_assoc, pending_concat, h x (by simp), ih]
    by_cases hp : p x <;> simp [hp, Nat.add_assoc]

theorem pending_le_countP (t : List ε) : pending p q t ≤ t.countP p := by
  induction t using List.reverseRecOn with
  | nil => simp
  | append_singleton t x ih =>
    rw [pending_concat, List.countP_append, List.countP_singleton]
    split
    · exact Nat.zero_le _
    · split <;> omega

theorem pending_eq_zero {t : List ε} (hd : ∀ x, p x → q x = false) :
    pending p q t = 0 ↔ Answered (p · = true) (q · = true) t := by
  induction t using List.reverseRecOn with
  | nil => simp [answered_nil]
  | append_singleton t x ih =>
    rw [pending_concat]
    by_cases hq : q x = true
    · have hp : p x ≠ true := fun hp => by simp [hd x hp] at hq
      simp only [hq, ↓reduceIte, true_iff]
      exact answered_append_of_mem ⟨x, by simp, hq⟩ (answered_of_forall_not (by simpa using hp))
    · by_cases hp : p x = true
      · simp only [hq, hp, ↓reduceIte, Bool.false_eq_true, Nat.add_one_ne_zero, false_iff]
        intro h
        obtain ⟨y, hy, _⟩ := h t x [] rfl hp
        simp at hy
      · simp only [hq, hp, ↓reduceIte, Bool.false_eq_true, ih]
        constructor
        · exact fun h => h.append (answered_of_forall_not (by simpa using hp))
        · rintro h before y after rfl hy
          obtain ⟨z, hz, hqz⟩ := h before y (after ++ [x]) (by simp) hy
          rcases List.mem_append.mp hz with hz | hz
          · exact ⟨z, hz, hqz⟩
          · simp_all

end Pending

end Machine
