import Mathlib.Data.List.Induction
import Mathlib.Data.Set.Function
import Mathlib.Logic.Function.Basic

/-! # Memory that may be faulty

An address reaches some cell, and a cell gives back something of the word that was last written to it.
Memory is tested by filling addresses with a pattern and checking that each reads back as its own. What
has been accessed is kept in a trace, which says what a check that fails has found.
-/
namespace Machine

/-- The cell that each address reaches, and what a cell shows of the word in it. -/
structure Wiring (ι κ ω : Type*) where
  reach : ι → κ
  shows : κ → ω → ω

inductive Access (ι ω : Type*)
  | write (i : ι) (a : ω)
  | read (i : ι) (a : ω)

namespace Access
variable {ι ω : Type*}

def address : Access ι ω → ι
  | write i _ => i
  | read i _ => i

def lastWritten [DecidableEq ι] (i : ι) (t : List (Access ι ω)) : Option ω :=
  t.foldl (fun last x => match x with
    | write j a => if j = i then some a else last
    | read _ _ => last) none

variable [DecidableEq ι]

theorem lastWritten_write (i j : ι) (a : ω) (t : List (Access ι ω)) :
    lastWritten i (t ++ [write j a]) = if j = i then some a else lastWritten i t := by
  rw [lastWritten, List.foldl_append]
  rfl

theorem lastWritten_read (i j : ι) (a : ω) (t : List (Access ι ω)) :
    lastWritten i (t ++ [read j a]) = lastWritten i t := by
  rw [lastWritten, List.foldl_append]
  rfl

end Access

open Access

structure FaultyMemory (ι κ ω : Type*) where
  cell : κ → ω
  trace : List (Access ι ω) := []

namespace FaultyMemory

variable {ι κ ω : Type*} (f : Wiring ι κ ω)

def value (i : ι) (m : FaultyMemory ι κ ω) : ω := f.shows (f.reach i) (m.cell (f.reach i))

def read (i : ι) (m : FaultyMemory ι κ ω) : FaultyMemory ι κ ω :=
  { m with trace := m.trace ++ [.read i (m.value f i)] }

def check [DecidableEq ω] (pattern : ι → ω) : List ι → FaultyMemory ι κ ω → Option ι × FaultyMemory ι κ ω
  | [], m => (none, m)
  | i :: is, m => if m.value f i = pattern i then check pattern is (m.read f i) else (some i, m.read f i)

section Fill
variable [DecidableEq κ]

def write (i : ι) (a : ω) (m : FaultyMemory ι κ ω) : FaultyMemory ι κ ω where
  cell := Function.update m.cell (f.reach i) a
  trace := m.trace ++ [.write i a]

def fill (pattern : ι → ω) (is : List ι) (m : FaultyMemory ι κ ω) : FaultyMemory ι κ ω :=
  is.foldl (fun m i => m.write f i (pattern i)) m

variable {f} {pattern : ι → ω}

theorem fill_append (is js : List ι) (m : FaultyMemory ι κ ω) :
    m.fill f pattern (is ++ js) = (m.fill f pattern is).fill f pattern js := List.foldl_append ..

/-- What the cell of an address holds after a fill is the pattern of some address that reaches it too. -/
theorem cell_fill (pattern : ι → ω) {is : List ι} {i : ι} (hi : i ∈ is) (m : FaultyMemory ι κ ω) :
    ∃ j ∈ is, f.reach j = f.reach i ∧ (m.fill f pattern is).cell (f.reach i) = pattern j := by
  induction is using List.reverseRecOn with
  | nil => cases hi
  | append_singleton is k ih =>
    have hlast : (m.fill f pattern (is ++ [k])).cell (f.reach i) =
        Function.update (m.fill f pattern is).cell (f.reach k) (pattern k) (f.reach i) := by
      rw [fill_append]
      rfl
    rw [hlast]
    by_cases hk : f.reach k = f.reach i
    · rw [← hk, Function.update_self]
      exact ⟨k, by simp, rfl, rfl⟩
    · rw [Function.update_of_ne (Ne.symm hk)]
      have hold : i ∈ is := by
        rcases List.mem_append.mp hi with h | h
        · exact h
        · rw [List.mem_singleton.mp h] at hk
          exact absurd rfl hk
      obtain ⟨j, hj, hreach, hcell⟩ := ih hold
      exact ⟨j, List.mem_append_left _ hj, hreach, hcell⟩

theorem value_write (j : ι) (a : ω) (m : FaultyMemory ι κ ω) :
    (m.write f j a).value f j = f.shows (f.reach j) a := by
  have hcell : (m.write f j a).cell (f.reach j) = a := Function.update_self ..
  rw [value, hcell]

structure Faultless (f : Wiring ι κ ω) (s : Set ι) : Prop where
  injective : Set.InjOn f.reach s
  shows : ∀ i ∈ s, ∀ a, f.shows (f.reach i) a = a

theorem Faultless.value_fill {s : Set ι} (h : Faultless f s) {is : List ι} (his : ∀ i ∈ is, i ∈ s) {i : ι}
    (hi : i ∈ is) (m : FaultyMemory ι κ ω) : (m.fill f pattern is).value f i = pattern i := by
  obtain ⟨j, hj, hreach, hcell⟩ := cell_fill pattern hi m
  obtain rfl := h.injective (his j hj) (his i hi) hreach
  rw [value, hcell, h.shows j (his j hj)]

theorem Faultless.value_write {s : Set ι} (h : Faultless f s) {j : ι} (hj : j ∈ s) (a : ω)
    (m : FaultyMemory ι κ ω) : (m.write f j a).value f j = a := by
  rw [FaultyMemory.value_write, h.shows j hj]

theorem Faultless.value_write_of_ne {s : Set ι} (h : Faultless f s) {i j : ι} (hi : i ∈ s) (hj : j ∈ s)
    (hij : i ≠ j) (a : ω) (m : FaultyMemory ι κ ω) : (m.write f j a).value f i = m.value f i := by
  have hcell : (m.write f j a).cell (f.reach i) = m.cell (f.reach i) :=
    Function.update_of_ne (fun hreach => hij (h.injective hi hj hreach)) ..
  rw [value, hcell, value]

end Fill

section Check
variable {f} {pattern : ι → ω} [DecidableEq ω]

theorem check_singleton (i : ι) (m : FaultyMemory ι κ ω) :
    m.check f pattern [i] = (if m.value f i = pattern i then none else some i, m.read f i) := by
  rw [check]
  split
  · rfl
  · rfl

theorem cell_check (is : List ι) (m : FaultyMemory ι κ ω) :
    (m.check f pattern is).2.cell = m.cell := by
  induction is generalizing m with
  | nil => rfl
  | cons i is ih =>
    rw [check]
    split
    · exact ih _
    · rfl

theorem value_check (is : List ι) (m : FaultyMemory ι κ ω) (i : ι) :
    (m.check f pattern is).2.value f i = m.value f i := by
  rw [value, cell_check, value]

theorem check_eq_none_iff {is : List ι} {m : FaultyMemory ι κ ω} :
    (m.check f pattern is).1 = none ↔ ∀ i ∈ is, m.value f i = pattern i := by
  induction is generalizing m with
  | nil => simp [check]
  | cons i is ih =>
    rw [check, List.forall_mem_cons]
    split
    · rename_i hi
      rw [ih, and_iff_right hi]
      rfl
    · rename_i hi
      simp [hi]

theorem check_eq_none {is : List ι} {m : FaultyMemory ι κ ω} (h : ∀ i ∈ is, m.value f i = pattern i) :
    m.check f pattern is = (none, (m.check f pattern is).2) :=
  Prod.ext (check_eq_none_iff.mpr h) rfl

/-- A fill that is found as it was written over addresses with patterns of their own: no two of them
reach one cell, and their cells show the patterns. -/
theorem injective_of_check [DecidableEq κ] {is : List ι}
    (hpattern : ∀ i ∈ is, ∀ j ∈ is, pattern i = pattern j → i = j)
    {m : FaultyMemory ι κ ω} (h : ((m.fill f pattern is).check f pattern is).1 = none) :
    (∀ i ∈ is, ∀ j ∈ is, f.reach i = f.reach j → i = j) ∧
      ∀ i ∈ is, f.shows (f.reach i) (pattern i) = pattern i := by
  rw [check_eq_none_iff] at h
  have hlast (i : ι) (hi : i ∈ is) : (m.fill f pattern is).cell (f.reach i) = pattern i := by
    obtain ⟨j, hj, hreach, hcell⟩ := cell_fill pattern hi m
    have hsame : pattern i = pattern j := by
      rw [← h i hi, ← h j hj, value, value, hreach]
    rw [hcell, hsame]
  refine ⟨?_, ?_⟩
  · intro i hi j hj hreach
    refine hpattern i hi j hj ?_
    rw [← hlast i hi, ← hlast j hj, hreach]
  · intro i hi
    have hvalue := h i hi
    rwa [value, hlast i hi] at hvalue

end Check

section Traces
variable {f} {pattern : ι → ω} [DecidableEq ι]

def Differs (m : FaultyMemory ι κ ω) (i : ι) : Prop :=
  ∃ t s a b, m.trace = t ++ .read i a :: s ∧ lastWritten i t = some b ∧ a ≠ b

theorem Differs.address_mem {m : FaultyMemory ι κ ω} {i : ι} (h : m.Differs i) :
    ∃ x ∈ m.trace, x.address = i := by
  obtain ⟨t, s, a, b, htrace, -⟩ := h
  exact ⟨.read i a, by simp [htrace], rfl⟩

theorem lastWritten_fill [DecidableEq κ] (is : List ι) (m : FaultyMemory ι κ ω) (i : ι) :
    lastWritten i (m.fill f pattern is).trace =
      if i ∈ is then some (pattern i) else lastWritten i m.trace := by
  induction is using List.reverseRecOn with
  | nil => rfl
  | append_singleton is k ih =>
    have htrace : (m.fill f pattern (is ++ [k])).trace =
        (m.fill f pattern is).trace ++ [.write k (pattern k)] := by
      rw [fill_append]
      rfl
    rw [htrace, lastWritten_write, ih]
    by_cases hk : k = i
    · simp [hk]
    · simp [hk, Ne.symm hk]

variable [DecidableEq ω]

theorem lastWritten_check (f : Wiring ι κ ω) (pattern : ι → ω) (is : List ι) (m : FaultyMemory ι κ ω) (i : ι) :
    lastWritten i (m.check f pattern is).2.trace = lastWritten i m.trace := by
  induction is generalizing m with
  | nil => rfl
  | cons j is ih =>
    rw [check]
    split
    · rw [ih]
      exact lastWritten_read ..
    · exact lastWritten_read ..

/-- A check that fails names an address that it has read, and not as it was last written, where the
patterns are what was last written. -/
theorem differs_of_check {is : List ι} {m : FaultyMemory ι κ ω} {i : ι}
    (hlast : ∀ i ∈ is, lastWritten i m.trace = some (pattern i))
    (h : (m.check f pattern is).1 = some i) : i ∈ is ∧ (m.check f pattern is).2.Differs i := by
  induction is generalizing m with
  | nil => cases h
  | cons j is ih =>
    rw [check] at h ⊢
    split at h
    · rename_i hj
      rw [if_pos hj]
      have hrest : ∀ i ∈ is, lastWritten i (m.read f j).trace = some (pattern i) := by
        intro i hi
        exact (lastWritten_read ..).trans (hlast i (List.mem_cons_of_mem _ hi))
      obtain ⟨hi, hdiffers⟩ := ih hrest h
      exact ⟨List.mem_cons_of_mem _ hi, hdiffers⟩
    · rename_i hj
      obtain rfl := Option.some.inj h
      rw [if_neg hj]
      exact ⟨List.mem_cons_self, m.trace, [], _, _, rfl, hlast j List.mem_cons_self, hj⟩

end Traces

end FaultyMemory

end Machine
