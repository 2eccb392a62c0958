import Mathlib.Data.List.GetD
import Mathlib.Data.UInt
import Mathlib.Logic.Function.Basic

/-! # Frame bytes

`comm_bytes.h`: fields packed most significant byte first, at offsets that are 32-bit and wrap as
such. A buffer is a function from an offset; what is past the end of an array is memory like any
other here.
-/
namespace QiranFirmware

/-- A byte buffer in a 32-bit address space. -/
abbrev Buf := UInt32 → UInt8

namespace Buf

def putU8 (buf : Buf) (off : UInt32) (v : UInt8) : Buf := Function.update buf off v

def putU16 (buf : Buf) (off : UInt32) (v : UInt16) : Buf :=
  (buf.putU8 off (v >>> 8).toUInt8).putU8 (off + 1) v.toUInt8

def putU32 (buf : Buf) (off : UInt32) (v : UInt32) : Buf :=
  (((buf.putU8 off (v >>> 24).toUInt8).putU8 (off + 1) (v >>> 16).toUInt8).putU8 (off + 2)
    (v >>> 8).toUInt8).putU8 (off + 3) v.toUInt8

def getU16 (buf : Buf) (off : UInt32) : UInt16 :=
  ((buf off).toUInt16 <<< 8) ||| (buf (off + 1)).toUInt16

def getU32 (buf : Buf) (off : UInt32) : UInt32 :=
  ((buf off).toUInt32 <<< 24) ||| ((buf (off + 1)).toUInt32 <<< 16) |||
    ((buf (off + 2)).toUInt32 <<< 8) ||| (buf (off + 3)).toUInt32

def be16 (v : UInt16) : List UInt8 := [(v >>> 8).toUInt8, v.toUInt8]

def be32 (v : UInt32) : List UInt8 :=
  [(v >>> 24).toUInt8, (v >>> 16).toUInt8, (v >>> 8).toUInt8, v.toUInt8]

def ofList (xs : List UInt8) : Buf := fun i => xs.getD i.toNat 0

def bytes (buf : Buf) (off len : UInt32) : List UInt8 :=
  (List.range len.toNat).map fun i => buf (off + UInt32.ofNat i)

def fill (buf : Buf) (len : UInt32) (data : Buf) : Buf := fun i => if i < len then data i else buf i

def overlay (buf : Buf) (off : UInt32) (xs : List UInt8) : Buf := fun i =>
  if (i - off).toNat < xs.length then xs.getD (i - off).toNat 0 else buf i

theorem length_bytes (buf : Buf) (off len : UInt32) : (buf.bytes off len).length = len.toNat := by
  rw [bytes, List.length_map, List.length_range]

theorem getElem_bytes (buf : Buf) (off len : UInt32) {i : ℕ} (hi : i < (buf.bytes off len).length) :
    (buf.bytes off len)[i] = buf (off + UInt32.ofNat i) := by
  simp [bytes]

theorem bytes_congr {buf buf' : Buf} {off off' len : UInt32}
    (h : ∀ i, i.toNat < len.toNat → buf (off + i) = buf' (off' + i)) :
    buf.bytes off len = buf'.bytes off' len := by
  refine List.map_congr_left fun i hi => h _ ?_
  have hlen := len.toNat_lt
  have hi := List.mem_range.mp hi
  rw [UInt32.toNat_ofNat']
  omega

theorem bytes_fill (buf : Buf) (len : UInt32) (data : Buf) :
    (buf.fill len data).bytes 0 len = data.bytes 0 len := by
  refine bytes_congr ?_
  intro i hi
  rw [UInt32.zero_add, fill, if_pos (UInt32.lt_iff_toNat_lt.mpr hi)]

theorem bytes_shift (buf : Buf) (off len : UInt32) :
    bytes (fun i => buf (off + i)) 0 len = buf.bytes off len :=
  bytes_congr fun i _ => by rw [UInt32.zero_add]

theorem getU32_shift (buf : Buf) (off i : UInt32) :
    getU32 (fun j => buf (off + j)) i = buf.getU32 (off + i) := by
  simp only [getU32, UInt32.add_assoc]

theorem ofList_apply (xs : List UInt8) (i : UInt32) : ofList xs i = xs.getD i.toNat 0 := rfl

/-- A buffer that starts with some bytes is read as they are. -/
theorem apply_of_bytes {buf : Buf} {len : UInt32} {xs : List UInt8} (h : buf.bytes 0 len = xs)
    {i : UInt32} (hi : i.toNat < len.toNat) : buf i = ofList xs i := by
  have hlt : i.toNat < (buf.bytes 0 len).length := by rwa [length_bytes]
  rw [← h, ofList_apply, List.getD_eq_getElem _ _ hlt, getElem_bytes, UInt32.zero_add,
    UInt32.ofNat_toNat]

theorem getU32_of_bytes {buf : Buf} {len : UInt32} {xs : List UInt8} (h : buf.bytes 0 len = xs)
    {i : UInt32} (hi : i.toNat + 4 ≤ len.toNat) : buf.getU32 i = (ofList xs).getU32 i := by
  have hlen := len.toNat_lt
  have hat (k : UInt32) (hk : k.toNat < 4) : buf (i + k) = ofList xs (i + k) := by
    refine apply_of_bytes h ?_
    rw [UInt32.toNat_add]
    omega
  rw [getU32, getU32, hat 1 (by decide), hat 2 (by decide), hat 3 (by decide),
    apply_of_bytes h (show i.toNat < len.toNat by omega)]

/-- A word at an offset, by the bytes from there on. -/
theorem getU32_of_bytes_at {buf : Buf} {off len : UInt32} {xs : List UInt8}
    (h : buf.bytes off len = xs) {i : UInt32} (hi : i.toNat + 4 ≤ len.toNat) :
    buf.getU32 (off + i) = (ofList xs).getU32 i := by
  rw [← bytes_shift] at h
  rw [← getU32_shift]
  exact getU32_of_bytes h hi

theorem bytes_ofList (xs : List UInt8) {off len : UInt32}
    (h : off.toNat + len.toNat ≤ xs.length) (hlt : off.toNat + len.toNat < 2 ^ 32) :
    (ofList xs).bytes off len = (xs.drop off.toNat).take len.toNat := by
  refine List.ext_getElem ?_ fun i hi hi' => ?_
  · rw [length_bytes, List.length_take, List.length_drop]
    omega
  rw [length_bytes] at hi
  have hat : (off + UInt32.ofNat i).toNat = off.toNat + i := by
    rw [UInt32.toNat_add, UInt32.toNat_ofNat']
    omega
  rw [getElem_bytes, ofList_apply, hat, List.getElem_take, List.getElem_drop]
  exact List.getD_eq_getElem _ _ _

/-- What stands between others in a buffer is read from where it starts. -/
theorem bytes_of_append {buf : Buf} {used off len : UInt32} {xs ys zs : List UInt8}
    (h : buf.bytes 0 used = xs ++ ys ++ zs) (hoff : off.toNat = xs.length)
    (hlen : len.toNat = ys.length) : buf.bytes off len = ys := by
  have hlength := congrArg List.length h
  rw [length_bytes, List.length_append, List.length_append] at hlength
  have hused := used.toNat_lt
  have hsame : buf.bytes off len = (ofList (xs ++ ys ++ zs)).bytes off len := by
    refine bytes_congr fun k hk => apply_of_bytes h ?_
    rw [UInt32.toNat_add]
    omega
  rw [hsame, bytes_ofList _ (by rw [List.length_append, List.length_append]; omega) (by omega),
    List.append_assoc, List.drop_left' hoff.symm, List.take_left' hlen.symm]

theorem bytes_overlay (buf : Buf) (xs : List UInt8) {off len : UInt32}
    (hlen : len.toNat = off.toNat + xs.length) :
    (buf.overlay off xs).bytes 0 len = buf.bytes 0 off ++ xs := by
  have hlt := len.toNat_lt
  refine List.ext_getElem ?_ fun i hi hi' => ?_
  · rw [List.length_append, length_bytes, length_bytes, hlen]
  rw [length_bytes] at hi
  have hat : (UInt32.ofNat i).toNat = i := UInt32.toNat_ofNat_of_lt' (show i < 2 ^ 32 by omega)
  rw [getElem_bytes, UInt32.zero_add, overlay, UInt32.toNat_sub, hat]
  by_cases hbefore : i < off.toNat
  · have hbytes : i < (buf.bytes 0 off).length := by rwa [length_bytes]
    rw [if_neg (by omega), List.getElem_append_left hbytes, getElem_bytes, UInt32.zero_add]
  · have hsub : (2 ^ 32 - off.toNat + i) % 2 ^ 32 = i - off.toNat := by omega
    rw [hsub, if_pos (by omega), List.getElem_append_right (by rw [length_bytes]; omega)]
    simp only [length_bytes]
    exact List.getD_eq_getElem _ _ _

/-- Bytes written further on leave those before them. -/
theorem bytes_overlay_of_le (buf : Buf) {xs : List UInt8} {off len : UInt32}
    (hle : len.toNat ≤ off.toNat) (hlt : off.toNat + xs.length ≤ 2 ^ 32) :
    (buf.overlay off xs).bytes 0 len = buf.bytes 0 len := by
  refine bytes_congr ?_
  intro i hi
  have hoff := off.toNat_lt
  rw [UInt32.zero_add, overlay, if_neg]
  rw [UInt32.toNat_sub]
  omega

theorem putU8_of_ne {buf : Buf} {off i : UInt32} {v : UInt8} (h : i ≠ off) :
    buf.putU8 off v i = buf i :=
  Function.update_of_ne h ..

theorem putU16_of_ne {buf : Buf} {off i : UInt32} {v : UInt16} (h : i ≠ off) (h' : i ≠ off + 1) :
    buf.putU16 off v i = buf i := by
  rw [putU16, putU8_of_ne h', putU8_of_ne h]

theorem putU32_of_ne {buf : Buf} {off i : UInt32} {v : UInt32}
    (h : ∀ k : UInt32, k.toNat < 4 → i ≠ off + k) : buf.putU32 off v i = buf i := by
  have hzero := h 0 (by decide)
  rw [UInt32.add_zero] at hzero
  rw [putU32, putU8_of_ne (h 3 (by decide)), putU8_of_ne (h 2 (by decide)),
    putU8_of_ne (h 1 (by decide)), putU8_of_ne hzero]

theorem join_split (v : UInt16) :
    ((v >>> 8).toUInt8.toUInt16 <<< 8) ||| v.toUInt8.toUInt16 = v := by
  have hlt := v.toNat_lt
  have hhigh : ((v >>> 8).toUInt8.toUInt16 <<< 8).toNat = (v.toNat / 256) <<< 8 := by
    simp [Nat.shiftLeft_eq, Nat.shiftRight_eq_div_pow]
    omega
  have hlow : v.toUInt8.toUInt16.toNat = v.toNat % 256 := by simp
  rw [← UInt16.toNat_inj, UInt16.toNat_or, hhigh, hlow,
    ← Nat.shiftLeft_add_eq_or_of_lt (Nat.mod_lt _ (by decide)), Nat.shiftLeft_eq]
  omega

theorem or_bytes (a : ℕ) {b c d : ℕ} (hb : b < 2 ^ 8) (hc : c < 2 ^ 8) (hd : d < 2 ^ 8) :
    a <<< 24 ||| b <<< 16 ||| c <<< 8 ||| d = ((a * 256 + b) * 256 + c) * 256 + d := by
  have hab : a <<< 24 ||| b <<< 16 = (a <<< 8 + b) <<< 16 := by
    rw [Nat.shiftLeft_add_eq_or_of_lt hb, Nat.shiftLeft_or_distrib, ← Nat.shiftLeft_add]
  have habc : (a <<< 8 + b) <<< 16 ||| c <<< 8 = ((a <<< 8 + b) <<< 8 + c) <<< 8 := by
    rw [Nat.shiftLeft_add_eq_or_of_lt hc, Nat.shiftLeft_or_distrib, ← Nat.shiftLeft_add]
  rw [hab, habc, ← Nat.shiftLeft_add_eq_or_of_lt hd]
  simp only [Nat.shiftLeft_eq]

theorem join_split32 (w : UInt32) :
    ((w >>> 24).toUInt8.toUInt32 <<< 24) ||| ((w >>> 16).toUInt8.toUInt32 <<< 16) |||
      ((w >>> 8).toUInt8.toUInt32 <<< 8) ||| w.toUInt8.toUInt32 = w := by
  have hlt := w.toNat_lt
  have h24 : ((w >>> 24).toUInt8.toUInt32 <<< 24).toNat = (w.toNat / 16777216) <<< 24 := by
    simp [Nat.shiftLeft_eq, Nat.shiftRight_eq_div_pow]
    omega
  have h16 : ((w >>> 16).toUInt8.toUInt32 <<< 16).toNat = (w.toNat / 65536 % 256) <<< 16 := by
    simp [Nat.shiftLeft_eq, Nat.shiftRight_eq_div_pow]
    omega
  have h8 : ((w >>> 8).toUInt8.toUInt32 <<< 8).toNat = (w.toNat / 256 % 256) <<< 8 := by
    simp [Nat.shiftLeft_eq, Nat.shiftRight_eq_div_pow]
    omega
  have h0 : w.toUInt8.toUInt32.toNat = w.toNat % 256 := by simp
  rw [← UInt32.toNat_inj]
  simp only [UInt32.toNat_or, h24, h16, h8, h0]
  rw [or_bytes _ (by omega) (by omega) (by omega)]
  omega

/-- A packed word is read back from where it was packed. -/
theorem getU32_ofList (xs ys : List UInt8) (w : UInt32) {off : UInt32} (hoff : off.toNat = xs.length)
    (hlt : xs.length + 4 ≤ 2 ^ 32) : (ofList (xs ++ be32 w ++ ys)).getU32 off = w := by
  have hbyte (k : ℕ) (hk : k < 4) :
      ofList (xs ++ be32 w ++ ys) (off + UInt32.ofNat k) = (be32 w).getD k 0 := by
    have hat : (off + UInt32.ofNat k).toNat = xs.length + k := by
      rw [UInt32.toNat_add, UInt32.toNat_ofNat', hoff]
      omega
    have hlen : (be32 w).length = 4 := rfl
    rw [ofList_apply, hat, List.append_assoc, List.getD_append_right _ _ _ _ (by omega),
      Nat.add_sub_cancel_left, List.getD_append _ _ _ _ (by omega)]
  have h0 : ofList (xs ++ be32 w ++ ys) off = (w >>> 24).toUInt8 := by
    rw [← UInt32.add_zero off]
    exact hbyte 0 (by decide)
  have h1 : ofList (xs ++ be32 w ++ ys) (off + 1) = (w >>> 16).toUInt8 := hbyte 1 (by decide)
  have h2 : ofList (xs ++ be32 w ++ ys) (off + 2) = (w >>> 8).toUInt8 := hbyte 2 (by decide)
  have h3 : ofList (xs ++ be32 w ++ ys) (off + 3) = w.toUInt8 := hbyte 3 (by decide)
  rw [getU32, h0, h1, h2, h3]
  exact join_split32 w

theorem getU16_congr {buf buf' : Buf} {off : UInt32} (h : buf off = buf' off)
    (h' : buf (off + 1) = buf' (off + 1)) : buf.getU16 off = buf'.getU16 off := by
  rw [getU16, getU16, h, h']

theorem getU16_putU16 (buf : Buf) (off : UInt32) (v : UInt16) :
    (buf.putU16 off v).getU16 off = v := by
  have hne : off ≠ off + 1 := by
    intro h
    have h0 : (0 : UInt32) = 1 := by grind
    exact absurd h0 (by decide)
  rw [getU16, putU16, putU8_of_ne hne]
  simp only [putU8, Function.update_self]
  exact join_split v

end Buf

end QiranFirmware
