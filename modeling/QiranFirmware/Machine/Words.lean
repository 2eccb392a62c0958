import Mathlib.Data.List.GetD
import Mathlib.Data.UInt

/-! # Words in memory

Memory is a function from an offset to a byte. `leBytes` and `leWord` are the two directions of
a little-endian 32-bit word.
-/
namespace Machine

def leBytes (w : UInt32) : List UInt8 :=
  [w.toUInt8, (w >>> 8).toUInt8, (w >>> 16).toUInt8, (w >>> 24).toUInt8]

/-- The words below one, counted up from zero. -/
theorem mem_map_ofNat_range {n i : UInt32} : i ∈ (List.range n.toNat).map UInt32.ofNat ↔ i < n := by
  rw [List.mem_map, UInt32.lt_iff_toNat_lt]
  constructor
  · rintro ⟨k, hk, rfl⟩
    have hk := List.mem_range.mp hk
    rwa [UInt32.toNat_ofNat_of_lt' (hk.trans n.toNat_lt)]
  · intro hi
    exact ⟨i.toNat, List.mem_range.mpr hi, UInt32.ofNat_toNat⟩

def leWord (mem : ℕ → UInt8) (i : ℕ) : UInt32 :=
  UInt32.ofNat ((mem i).toNat + 256 * (mem (i + 1)).toNat + 65536 * (mem (i + 2)).toNat +
    16777216 * (mem (i + 3)).toNat)

def bytesAt (mem : ℕ → UInt8) (i n : ℕ) : List UInt8 := (List.range n).map fun k => mem (i + k)

theorem length_bytesAt (mem : ℕ → UInt8) (i n : ℕ) : (bytesAt mem i n).length = n := by
  rw [bytesAt, List.length_map, List.length_range]

theorem length_flatMap_leBytes (ws : List UInt32) : (ws.flatMap leBytes).length = 4 * ws.length := by
  induction ws with
  | nil => rfl
  | cons w ws ih =>
    rw [List.flatMap_cons, List.length_append, ih, List.length_cons]
    exact (Nat.add_comm 4 _)

/-- The bytes of a word put it together again. -/
theorem leWord_leBytes {mem : ℕ → UInt8} {i : ℕ} {w : UInt32}
    (h : bytesAt mem i 4 = leBytes w) : leWord mem i = w := by
  simp only [bytesAt, leBytes, List.range, List.range.loop, List.map_cons, List.map_nil,
    Nat.add_zero, List.cons.injEq] at h
  obtain ⟨h0, h1, h2, h3, -⟩ := h
  have hlt := w.toNat_lt
  rw [leWord, h0, h1, h2, h3, ← UInt32.toNat_inj, UInt32.toNat_ofNat']
  simp only [UInt32.toNat_toUInt8, UInt32.toNat_shiftRight, UInt32.reduceToNat,
    Nat.shiftRight_eq_div_pow, Nat.reduceMod, Nat.reducePow]
  omega

theorem leBytes_injective : Function.Injective leBytes := by
  intro a b h
  have hbytes (w : UInt32) : bytesAt (fun i => (leBytes w).getD i 0) 0 4 = leBytes w := rfl
  have hw := leWord_leBytes (hbytes a)
  rw [h] at hw
  exact hw.symm.trans (leWord_leBytes (hbytes b))

theorem bytesAt_add (mem : ℕ → UInt8) (i m n : ℕ) :
    bytesAt mem i (m + n) = bytesAt mem i m ++ bytesAt mem (i + m) n := by
  simp only [bytesAt, List.range_add, List.map_append, List.map_map]
  congr 1
  refine List.map_congr_left fun k _ => ?_
  rw [Function.comp_apply, Nat.add_assoc]

def store (mem : ℕ → UInt8) (off : ℕ) (bytes : List UInt8) : ℕ → UInt8 :=
  fun i => if off ≤ i then bytes.getD (i - off) (mem i) else mem i

theorem bytesAt_store (mem : ℕ → UInt8) (off : ℕ) (bytes : List UInt8) :
    bytesAt (store mem off bytes) off bytes.length = bytes := by
  refine List.ext_getElem (length_bytesAt ..) fun i hi hi' => ?_
  simp only [bytesAt, List.getElem_map, List.getElem_range, store, Nat.le_add_right, ↓reduceIte,
    Nat.add_sub_cancel_left]
  exact List.getD_eq_getElem _ _ hi'

/-- A write leaves what lies apart from it. -/
theorem bytesAt_store_of_disjoint (mem : ℕ → UInt8) {off i n : ℕ} {bytes : List UInt8}
    (h : i + n ≤ off ∨ off + bytes.length ≤ i) :
    bytesAt (store mem off bytes) i n = bytesAt mem i n := by
  refine List.map_congr_left fun k hk => ?_
  have hk := List.mem_range.mp hk
  unfold store
  split
  · rename_i hle
    exact List.getD_eq_default _ _ (by omega)
  · rfl

def Starts (mem : ℕ → UInt8) (ws : List UInt32) : Prop :=
  bytesAt mem 0 (4 * ws.length) = ws.flatMap leBytes

theorem starts_append {mem : ℕ → UInt8} {xs ys : List UInt32} :
    Starts mem (xs ++ ys) ↔
      Starts mem xs ∧ bytesAt mem (4 * xs.length) (4 * ys.length) = ys.flatMap leBytes := by
  rw [Starts, Starts, List.length_append, Nat.mul_add, bytesAt_add, List.flatMap_append, Nat.zero_add]
  constructor
  · intro h
    exact List.append_inj h (by rw [length_bytesAt, length_flatMap_leBytes])
  · rintro ⟨hx, hy⟩
    rw [hx, hy]

theorem Starts.word {mem : ℕ → UInt8} {ws : List UInt32} (h : Starts mem ws) {k : ℕ} {w : UInt32}
    (hw : ws[k]? = some w) : leWord mem (4 * k) = w := by
  obtain ⟨hk, rfl⟩ := List.getElem?_eq_some_iff.mp hw
  rw [← List.take_append_drop k ws, starts_append, List.length_take_of_le hk.le,
    List.drop_eq_getElem_cons hk, List.flatMap_cons, List.length_cons, Nat.mul_add, Nat.add_comm,
    bytesAt_add] at h
  refine leWord_leBytes (List.append_inj_left h.2 ?_)
  rw [length_bytesAt]
  rfl

end Machine
