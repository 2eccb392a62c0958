import QiranFirmware.Machine.FaultyMemory
import QiranFirmware.Machine.Words
import QiranFirmware.Types

/-! # The memory test

`plat_post_memory_test` of `plat_post.c`, over memory in which an address may reach any cell, and a cell
may have any of its bits stuck. Cache maintenance between the writes and the reads has no effect on what
memory holds. The offset that a failure names is an out parameter, carried through the phases.
-/
namespace QiranFirmware

open Machine

structure MemoryFaults (κ : Type) where
  cell : UInt32 → κ
  stuck : κ → UInt32 := fun _ => 0
  /-- What the stuck bits are stuck at. -/
  level : κ → UInt32 := fun _ => 0

namespace MemoryFaults
variable {κ : Type}

def shows (f : MemoryFaults κ) (c : κ) (a : UInt32) : UInt32 :=
  (a &&& ~~~ f.stuck c) ||| (f.level c &&& f.stuck c)

def wiring (f : MemoryFaults κ) : Wiring UInt32 κ UInt32 where
  reach := f.cell
  shows := f.shows

end MemoryFaults

namespace Post

abbrev Memory (κ : Type) := FaultyMemory UInt32 κ UInt32

variable {κ : Type} [DecidableEq κ] (f : MemoryFaults κ)

/-- The loop of `test_data_lines`, with the bits still to be walked through. -/
def dataLines : ℕ → UInt32 → UInt32 → Memory κ → Status × UInt32 × Memory κ
  | 0, _, out, m => (.ok, out, m)
  | n + 1, bit, out, m =>
    let pattern : UInt32 := 1 <<< bit
    match (m.write f.wiring 0 pattern).check f.wiring (fun _ => pattern) [0] with
    | (some _, m) => (.errHardware, bit, m)
    | (none, m) => dataLines n (bit + 1) out m

def testDataLines (out : UInt32) (m : Memory κ) : Status × UInt32 × Memory κ := dataLines f 32 0 out m

/-- The offsets that the loops of `test_address_lines` go through, when they come to an end. -/
def lineOffsets (words : UInt32) : ℕ → UInt32 → Option (List UInt32)
  | 0, _ => none
  | fuel + 1, offset =>
    if offset < words then (lineOffsets words fuel (offset <<< 1)).map (offset :: ·) else some []

def basePattern : UInt32 := 0xAAAAAAAA
def antiPattern : UInt32 := 0x55555555

def linePattern (offset : UInt32) : UInt32 := basePattern ^^^ offset

def testAddressLines (words : UInt32) (fuel : ℕ) (out : UInt32) (m : Memory κ) :
    Option (Status × UInt32 × Memory κ) :=
  match lineOffsets words fuel 1 with
  | none => none
  | some offsets =>
    let m := (m.fill f.wiring linePattern offsets).write f.wiring 0 antiPattern
    match m.check f.wiring (fun _ => antiPattern) [0] with
    | (some _, m) => some (.errHardware, 0, m)
    | (none, m) =>
      match m.check f.wiring linePattern offsets with
      | (some offset, m) => some (.errHardware, offset, m)
      | (none, m) => some (.ok, out, m)

def offsets (words : UInt32) : List UInt32 := (List.range words.toNat).map UInt32.ofNat

def cellPattern (pass : ℕ) (i : UInt32) : UInt32 := if pass = 0 then i else ~~~ i

def cellPasses (words out : UInt32) : List ℕ → Memory κ → Status × UInt32 × Memory κ
  | [], m => (.ok, out, m)
  | pass :: rest, m =>
    match (m.fill f.wiring (cellPattern pass) (offsets words)).check f.wiring (cellPattern pass)
        (offsets words) with
    | (some i, m) => (.errHardware, i, m)
    | (none, m) => cellPasses words out rest m

def testCells (words out : UInt32) (m : Memory κ) : Status × UInt32 × Memory κ :=
  cellPasses f words out [0, 1] m

/-- `plat_post_memory_test` of a region of so many words; `fuel` bounds the turns of the loops over the
address lines. -/
def memoryTest (words : UInt32) (fuel : ℕ) (out : UInt32) (m : Memory κ) :
    Option (Status × UInt32 × Memory κ) :=
  if words < 2 then some (.errParam, out, m)
  else
    match testDataLines f 0 m with
    | (.ok, out, m) =>
      match testAddressLines f words fuel out m with
      | none => none
      | some (.ok, out, m) => some (testCells f words out m)
      | some (st, out, m) => some (st, out, m)
    | (st, out, m) => some (st, out, m)

theorem mem_offsets {words i : UInt32} : i ∈ offsets words ↔ i < words := mem_map_ofNat_range

/-- A region that is tested has a first word. -/
theorem zero_lt_words {words : UInt32} (hwords : 2 ≤ words.toNat) : 0 < words :=
  UInt32.lt_iff_toNat_lt.mpr (Nat.zero_lt_of_lt hwords)

/-- The loops over the address lines end, at offsets of the region other than its first. -/
theorem lineOffsets_spec {words : UInt32} (hwords : words.toNat ≤ 2 ^ 30) {k fuel : ℕ} (hk : k ≤ 31)
    (hfuel : 32 ≤ fuel + k) {offset : UInt32} (hoffset : offset.toNat = 2 ^ k) :
    ∃ is, lineOffsets words fuel offset = some is ∧ ∀ i ∈ is, i ≠ 0 ∧ i < words := by
  induction fuel generalizing k offset with
  | zero => omega
  | succ fuel ih =>
    rw [lineOffsets]
    by_cases hlt : offset < words
    swap
    · exact ⟨[], by rw [if_neg hlt], by simp⟩
    have hltN := UInt32.lt_iff_toNat_lt.mp hlt
    have hsmall : k < 30 := by
      by_contra hge
      have hpow : 2 ^ 30 ≤ 2 ^ k := Nat.pow_le_pow_right (by decide) (Nat.not_lt.mp hge)
      omega
    have hnext : (offset <<< 1).toNat = 2 ^ (k + 1) := by
      have hpow : 2 ^ (k + 1) < 2 ^ 32 := Nat.pow_lt_pow_right (by decide) (by omega)
      rw [UInt32.toNat_shiftLeft, hoffset, Nat.shiftLeft_eq]
      exact Nat.mod_eq_of_lt hpow
    obtain ⟨is, his, hall⟩ := ih (by omega) (by omega) hnext
    refine ⟨offset :: is, by rw [if_pos hlt, his]; rfl, ?_⟩
    rw [List.forall_mem_cons]
    refine ⟨⟨?_, hlt⟩, hall⟩
    rintro rfl
    exact (Nat.two_pow_pos k).ne hoffset

end Post

end QiranFirmware
