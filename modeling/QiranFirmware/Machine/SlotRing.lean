import Mathlib.Data.List.Basic
import Mathlib.Logic.Function.Basic
import Mathlib.Data.Int.ModEq

/-! # Rings with free-running indices

A ring keeps two 32-bit counters that are never reset and are masked on use. Read through
`contents` it is a bounded FIFO: a push appends or is refused when the capacity is reached,
and a pop takes the first element, across any number of wraps of the counters.
-/
namespace Machine

structure SlotRing (α : Type*) where
  slot : ℕ → α
  mask : UInt32
  head : UInt32 := 0
  tail : UInt32 := 0

namespace SlotRing
variable {α : Type*}

def push (r : SlotRing α) (a : α) : Option (SlotRing α) :=
  if r.mask < r.head - r.tail then none
  else some { r with slot := Function.update r.slot (r.head &&& r.mask).toNat a, head := r.head + 1 }

def pop (r : SlotRing α) : Option (α × SlotRing α) :=
  if r.head = r.tail then none
  else some (r.slot (r.tail &&& r.mask).toNat, { r with tail := r.tail + 1 })

def contents (r : SlotRing α) : List α :=
  (List.range (r.head - r.tail).toNat).map fun i => r.slot ((r.tail.toNat + i) % (r.mask.toNat + 1))

structure Valid (r : SlotRing α) : Prop where
  pow : ∃ k < 32, r.mask.toNat + 1 = 2 ^ k
  count_le : (r.head - r.tail).toNat ≤ r.mask.toNat + 1

theorem length_contents (r : SlotRing α) : r.contents.length = (r.head - r.tail).toNat := by
  simp [contents]

theorem and_mask {r : SlotRing α} (h : r.Valid) (x : UInt32) :
    (x &&& r.mask).toNat = x.toNat % (r.mask.toNat + 1) := by
  obtain ⟨k, _, hp⟩ := h.pow
  have hm : r.mask.toNat = 2 ^ k - 1 := by omega
  rw [UInt32.toNat_and, hm, Nat.and_two_pow_sub_one_eq_mod, ← hm, hp]

theorem capacity_dvd {r : SlotRing α} (h : r.Valid) : r.mask.toNat + 1 ∣ 2 ^ 32 := by
  obtain ⟨k, hk, hp⟩ := h.pow
  exact hp ▸ Nat.pow_dvd_pow 2 (by omega)

theorem capacity_le {r : SlotRing α} (h : r.Valid) : r.mask.toNat + 1 ≤ 2 ^ 31 := by
  obtain ⟨k, hk, hp⟩ := h.pow
  exact hp ▸ Nat.pow_le_pow_right (by omega) (by omega)

/-- The head sits `count` cells after the tail, wherever the two counters have wrapped. -/
theorem head_mod {r : SlotRing α} (h : r.Valid) :
    r.head.toNat % (r.mask.toNat + 1)
      = (r.tail.toNat + (r.head - r.tail).toNat) % (r.mask.toNat + 1) := by
  have he : r.head = r.tail + (r.head - r.tail) := by grind
  conv_lhs => rw [he, UInt32.toNat_add, Nat.mod_mod_of_dvd _ (capacity_dvd h)]

theorem tail_succ_mod {r : SlotRing α} (h : r.Valid) (i : ℕ) :
    ((r.tail + 1).toNat + i) % (r.mask.toNat + 1) = (r.tail.toNat + (i + 1)) % (r.mask.toNat + 1) := by
  have hm := Nat.mod_mod_of_dvd (r.tail.toNat + 1) (capacity_dvd h)
  rw [UInt32.toNat_add, UInt32.toNat_one, Nat.add_mod, hm, ← Nat.add_mod]
  congr 1
  omega

theorem cell_ne {c t i j : ℕ} (hj : j < c) (hij : i < j) : (t + i) % c ≠ (t + j) % c := by
  intro he
  have hd : c ∣ (t + j) - (t + i) := (Nat.modEq_iff_dvd' (by omega)).mp he
  have := Nat.le_of_dvd (by omega) hd
  omega

theorem push_eq_none {r : SlotRing α} (h : r.Valid) {a : α} :
    r.push a = none ↔ r.contents.length = r.mask.toNat + 1 := by
  have hc := h.count_le
  rw [length_contents]
  simp only [push, UInt32.lt_iff_toNat_lt]
  split <;> simp <;> omega

/-- The cell at the head is none of the unread ones, unless the ring is full. -/
theorem contents_write {r : SlotRing α} (h : r.Valid) (hroom : (r.head - r.tail).toNat ≤ r.mask.toNat)
    (a : α) :
    contents { r with slot := Function.update r.slot (r.head &&& r.mask).toNat a } = r.contents := by
  simp only [contents, and_mask h, head_mod h]
  apply List.map_congr_left
  intro i hi
  have hi := List.mem_range.mp hi
  exact Function.update_of_ne (cell_ne (by omega) hi) _ _

theorem count_succ {r : SlotRing α} (h : r.Valid) (hroom : (r.head - r.tail).toNat ≤ r.mask.toNat) :
    (r.head + 1 - r.tail).toNat = (r.head - r.tail).toNat + 1 := by
  have hcap := capacity_le h
  have he : r.head + 1 - r.tail = (r.head - r.tail) + 1 := by grind
  rw [he, UInt32.toNat_add, UInt32.toNat_one, Nat.mod_eq_of_lt (by omega)]

/-- There is no less room once some of the elements have been taken. -/
theorem room_of_suffix {r r' : SlotRing α} (hmask : r'.mask = r.mask) (h : r'.contents <:+ r.contents)
    (hroom : (r.head - r.tail).toNat ≤ r.mask.toNat) : (r'.head - r'.tail).toNat ≤ r'.mask.toNat := by
  have hle := h.length_le
  rw [length_contents, length_contents] at hle
  rw [hmask]
  exact hle.trans hroom

/-- Moving the head on adds what its cell holds. -/
theorem contents_publish {r : SlotRing α} (h : r.Valid) (hroom : (r.head - r.tail).toNat ≤ r.mask.toNat) :
    contents { r with head := r.head + 1 } = r.contents ++ [r.slot (r.head &&& r.mask).toNat] := by
  simp only [contents, count_succ h hroom, List.range_succ, List.map_append, List.map_singleton,
    and_mask h, head_mod h]

theorem Valid.publish {r : SlotRing α} (h : r.Valid) (hroom : (r.head - r.tail).toNat ≤ r.mask.toNat) :
    Valid { r with head := r.head + 1 } where
  pow := h.pow
  count_le := (count_succ h hroom).trans_le (Nat.succ_le_succ hroom)

theorem push_spec {r r' : SlotRing α} (h : r.Valid) {a : α} (hp : r.push a = some r') :
    r'.Valid ∧ r'.mask = r.mask ∧ r'.contents = r.contents ++ [a] := by
  simp only [push, UInt32.lt_iff_toNat_lt] at hp
  split at hp
  · cases hp
  rename_i hroom
  have hroom := Nat.not_lt.mp hroom
  cases hp
  have hwritten : Valid { r with slot := Function.update r.slot (r.head &&& r.mask).toNat a } :=
    ⟨h.pow, h.count_le⟩
  refine ⟨hwritten.publish hroom, rfl, ?_⟩
  rw [contents_publish hwritten hroom, contents_write h hroom]
  simp only [Function.update_self]

theorem contents_eq_nil {r : SlotRing α} : r.contents = [] ↔ r.head = r.tail := by
  rw [← List.length_eq_zero_iff, length_contents]
  constructor
  · intro h
    have hzero : r.head - r.tail = 0 := UInt32.toNat_inj.mp h
    grind
  · intro h
    rw [h, UInt32.sub_self]
    rfl

theorem pop_eq_none {r : SlotRing α} : r.pop = none ↔ r.contents = [] := by
  rw [contents_eq_nil, pop]
  split
  · rename_i he
    exact iff_of_true rfl he
  · rename_i hne
    exact iff_of_false (Option.some_ne_none _) hne

theorem pop_spec {r r' : SlotRing α} (h : r.Valid) {a : α} (hp : r.pop = some (a, r')) :
    r'.Valid ∧ r'.mask = r.mask ∧ r.contents = a :: r'.contents := by
  have hc := h.count_le
  simp only [pop] at hp
  split at hp
  · cases hp
  rename_i hne
  cases hp
  have hne : (r.head - r.tail).toNat ≠ 0 := by
    intro h0
    have : r.head - r.tail = 0 := UInt32.toNat_inj.mp h0
    grind
  have hn : (r.head - r.tail).toNat = (r.head - (r.tail + 1)).toNat + 1 := by
    have he : r.head - r.tail = (r.head - (r.tail + 1)) + 1 := by grind
    have hlt := (r.head - (r.tail + 1)).toNat_lt
    rw [he, UInt32.toNat_add, UInt32.toNat_one] at hne ⊢
    omega
  refine ⟨⟨h.pow, by dsimp only; omega⟩, rfl, ?_⟩
  simp only [contents, hn, List.range_succ_eq_map, List.map_cons, List.map_map, Nat.add_zero,
    and_mask h]
  congr 1
  apply List.map_congr_left
  intro i _
  exact (congrArg r.slot (tail_succ_mod h i)).symm

/-- Moving the tail on takes the first unread element, which its cell holds. -/
theorem contents_release {r : SlotRing α} (h : r.Valid) (hsome : r.contents ≠ []) :
    r.contents = r.slot (r.tail &&& r.mask).toNat :: contents { r with tail := r.tail + 1 } ∧
      Valid { r with tail := r.tail + 1 } := by
  have hpop : r.pop = some (r.slot (r.tail &&& r.mask).toNat, { r with tail := r.tail + 1 }) :=
    if_neg fun he => hsome (contents_eq_nil.mpr he)
  obtain ⟨hvalid, -, hcontents⟩ := pop_spec h hpop
  exact ⟨hcontents, hvalid⟩

end SlotRing

end Machine
