import QiranFirmware.Machine.SlotRing
import QiranFirmware.Types

/-! # The byte ring

`svc_ring.c`: one producer in interrupt context, one consumer in the loop. What is not read is
what `Machine.SlotRing.contents` says.
-/
namespace QiranFirmware

open Machine

structure Ring where
  cells : SlotRing UInt8
  dropped : UInt32 := 0

namespace Ring

def init (slot : ℕ → UInt8) (capacity : UInt32) (r : Ring) : Status × Ring :=
  if capacity = 0 then (.errParam, r)
  else if capacity &&& (capacity - 1) ≠ 0 then (.errParam, r)
  else (.ok, { cells := { slot, mask := capacity - 1 } })

def push (b : UInt8) (r : Ring) : Bool × Ring :=
  match r.cells.push b with
  | none => (false, { r with dropped := r.dropped + 1 })
  | some cells => (true, { r with cells })

def read : ℕ → Ring → List UInt8 × Ring
  | 0, r => ([], r)
  | max + 1, r =>
    match r.cells.pop with
    | none => ([], r)
    | some (b, cells) =>
      let (rest, r) := read max { r with cells }
      (b :: rest, r)

def contents (r : Ring) : List UInt8 := r.cells.contents

theorem capacity_iff {capacity : UInt32} :
    capacity ≠ 0 ∧ capacity &&& (capacity - 1) = 0 ↔ ∃ k ≤ 31, capacity.toNat = 2 ^ k := by
  by_cases hzero : capacity = 0
  · subst hzero
    refine iff_of_false (fun h => h.1 rfl) ?_
    rintro ⟨k, -, hk⟩
    exact (Nat.two_pow_pos k).ne hk
  have hpos : capacity.toNat ≠ 0 := fun h => hzero (UInt32.toNat_inj.mp h)
  have hpred : (capacity - 1).toNat = capacity.toNat - 1 :=
    UInt32.toNat_sub_of_le _ _ (UInt32.le_iff_toNat_le.mpr (Nat.one_le_iff_ne_zero.mpr hpos))
  rw [and_iff_right hzero, ← UInt32.toNat_inj, UInt32.toNat_and, hpred]
  constructor
  · intro h
    obtain ⟨k, hk⟩ := (Nat.and_sub_one_eq_zero_iff_isPowerOfTwo hpos).mp h
    refine ⟨k, ?_, hk⟩
    have hlt : 2 ^ k < 2 ^ 32 := hk ▸ capacity.toNat_lt
    have := (Nat.pow_lt_pow_iff_right (by decide)).mp hlt
    omega
  · rintro ⟨k, -, hk⟩
    exact (Nat.and_sub_one_eq_zero_iff_isPowerOfTwo hpos).mpr ⟨k, hk⟩

/-- A ring is made of storage for any power of two that 32 bits hold, and of no other. -/
theorem init_ok_iff {slot : ℕ → UInt8} {capacity : UInt32} {r : Ring} :
    (init slot capacity r).1 = .ok ↔ ∃ k ≤ 31, capacity.toNat = 2 ^ k := by
  rw [← capacity_iff, init]
  by_cases hzero : capacity = 0
  · simp [hzero]
  · by_cases hpow : capacity &&& (capacity - 1) = 0
    · simp [hzero, hpow]
    · simp [hzero, hpow]

theorem init_of_ok {slot : ℕ → UInt8} {capacity : UInt32} {r : Ring}
    (h : (init slot capacity r).1 = .ok) :
    (init slot capacity r).2 = { cells := { slot, mask := capacity - 1 } } := by
  unfold init at h ⊢
  split at h
  · cases h
  · rename_i hzero
    split at h
    · cases h
    · rename_i hpow
      rw [if_neg hzero, if_neg hpow]

theorem push_spec {r : Ring} (h : r.cells.Valid) (hroom : r.contents.length ≤ r.cells.mask.toNat)
    (b : UInt8) :
    (r.push b).2.cells.Valid ∧ (r.push b).2.cells.mask = r.cells.mask ∧
      (r.push b).2.contents = r.contents ++ [b] := by
  unfold push
  cases hpush : r.cells.push b with
  | none =>
    have hfull := (SlotRing.push_eq_none h).mp hpush
    rw [contents] at hroom
    omega
  | some cells => exact SlotRing.push_spec h hpush

theorem read_spec {r : Ring} (h : r.cells.Valid) (max : ℕ) :
    (read max r).1 = r.contents.take max ∧ (read max r).2.contents = r.contents.drop max ∧
      (read max r).2.cells.Valid ∧ (read max r).2.cells.mask = r.cells.mask := by
  induction max generalizing r with
  | zero => exact ⟨rfl, rfl, h, rfl⟩
  | succ max ih =>
    unfold read
    cases hpop : r.cells.pop with
    | none =>
      have hempty : r.contents = [] := SlotRing.pop_eq_none.mp hpop
      simp [hempty, h]
    | some p =>
      obtain ⟨b, cells⟩ := p
      obtain ⟨hvalid, hmask, hcontents⟩ := SlotRing.pop_spec h hpop
      obtain ⟨htake, hdrop, hvalid', hmask'⟩ := @ih { r with cells } hvalid
      have hsplit : r.contents = b :: (Ring.contents { r with cells }) := hcontents
      refine ⟨?_, ?_, hvalid', hmask'.trans hmask⟩
      · rw [hsplit, List.take_succ_cons, ← htake]
      · rw [hsplit, List.drop_succ_cons, ← hdrop]

end Ring

end QiranFirmware
