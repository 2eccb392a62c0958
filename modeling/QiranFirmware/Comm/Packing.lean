import QiranFirmware.Comm.Bytes
import QiranFirmware.Machine.Layout
import QiranFirmware.Svc.Crc

/-! # Fields laid end to end

A frame is packed by threading the offset of the next field through the writes. What is packed so is
the fields' bytes one after another, and a list of fields that a buffer holds says at which offset
each of them is read.
-/
namespace QiranFirmware

open Machine

structure Packing where
  buf : Buf
  off : UInt32

namespace Packing

/-- `comm_put_u8` at the running offset, and so on for the others. -/
def putU8 (v : UInt8) (p : Packing) : Packing := ⟨p.buf.putU8 p.off v, p.off + 1⟩

def putU16 (v : UInt16) (p : Packing) : Packing := ⟨p.buf.putU16 p.off v, p.off + 2⟩

def putU32 (v : UInt32) (p : Packing) : Packing := ⟨p.buf.putU32 p.off v, p.off + 4⟩

def putI16 (v : Int16) (p : Packing) : Packing := p.putU16 v.toUInt16

/-- Two's complement. -/
example : (-1250 : Int16).toUInt16 = 64286 := by decide

def putEach {α : Type*} {n : ℕ} (put : α → Packing → Packing) (vs : Fin n → α) (p : Packing) :
    Packing :=
  (List.ofFn vs).foldl (fun p v => put v p) p

def putCrc (p : Packing) : Packing := p.putU32 (Crc.crc32 (p.buf.bytes 0 p.off))

end Packing

inductive FrameField
  | u8 (v : UInt8)
  | u16 (v : UInt16)
  | u32 (v : UInt32)
  deriving DecidableEq, Repr

namespace FrameField

def width : FrameField → ℕ
  | u8 _ => 1
  | u16 _ => 2
  | u32 _ => 4

def bytes : FrameField → List UInt8
  | u8 v => [v]
  | u16 v => Buf.be16 v
  | u32 v => Buf.be32 v

def put : FrameField → Packing → Packing
  | u8 v => Packing.putU8 v
  | u16 v => Packing.putU16 v
  | u32 v => Packing.putU32 v

def putAll (fs : List FrameField) (p : Packing) : Packing := fs.foldl (fun p f => f.put p) p

def In (buf : Buf) (off : ℕ) : FrameField → Prop
  | u8 v => buf (UInt32.ofNat off) = v
  | u16 v => buf.getU16 (UInt32.ofNat off) = v
  | u32 v => buf.getU32 (UInt32.ofNat off) = v

def Laid (buf : Buf) : ℕ → List FrameField → Prop
  | _, [] => True
  | off, f :: fs => f.In buf off ∧ Laid buf (off + f.width) fs

def encode (fs : List FrameField) : List UInt8 := fs.flatMap bytes

theorem width_pos (f : FrameField) : 0 < f.width := by
  cases f <;> exact Nat.succ_pos _

@[simp] theorem length_bytes (f : FrameField) : f.bytes.length = f.width := by
  cases f <;> rfl

theorem length_encode (fs : List FrameField) : (encode fs).length = extent width fs := by
  induction fs with
  | nil => rfl
  | cons f fs ih =>
    rw [extent_cons, ← ih, ← length_bytes f]
    exact List.length_append

theorem encode_append (fs gs : List FrameField) : encode (fs ++ gs) = encode fs ++ encode gs :=
  List.flatMap_append

theorem putAll_append (fs gs : List FrameField) (p : Packing) :
    putAll (fs ++ gs) p = putAll gs (putAll fs p) :=
  List.foldl_append

theorem putAll_ofFn {α : Type*} {n : ℕ} (field : α → FrameField) (vs : Fin n → α) (p : Packing) :
    putAll (List.ofFn fun i => field (vs i)) p = p.putEach (fun v => (field v).put) vs := by
  have hmap : List.ofFn (fun i => field (vs i)) = (List.ofFn vs).map field :=
    (List.map_ofFn ..).symm
  rw [putAll, hmap, List.foldl_map]
  rfl

theorem laid_append (buf : Buf) (off : ℕ) (fs gs : List FrameField) :
    Laid buf off (fs ++ gs) ↔ Laid buf off fs ∧ Laid buf (off + extent width fs) gs := by
  induction fs generalizing off with
  | nil => simp [Laid]
  | cons f fs ih =>
    rw [List.cons_append, Laid, Laid, ih, extent_cons, ← Nat.add_assoc, and_assoc]

section

variable {n w : ℕ} {f : Fin n → FrameField} (hw : ∀ i, (f i).width = w)
include hw

theorem extent_ofFn : extent width (List.ofFn f) = w * n := by
  simp [extent, List.map_ofFn, Function.comp_def, hw, Nat.mul_comm]

/-- The entries of an array, all of one width. -/
theorem laid_ofFn (buf : Buf) (off : ℕ) :
    Laid buf off (List.ofFn f) ↔ ∀ i : Fin n, (f i).In buf (off + w * i) := by
  induction n generalizing off with
  | zero => simp [Laid]
  | succ n ih =>
    have hnext (i : Fin n) : off + w * (i.succ : ℕ) = off + w + w * i := by
      rw [Fin.val_succ, Nat.mul_succ]
      omega
    rw [List.ofFn_succ, Laid, ih fun i => hw i.succ, Fin.forall_fin_succ, hw]
    simp only [hnext, Fin.val_zero, Nat.mul_zero, Nat.add_zero]

end

section

variable {n : ℕ} (buf : Buf) (off : ℕ)

@[simp] theorem extent_ofFn_u8 (vs : Fin n → UInt8) :
    extent width (List.ofFn fun i => u8 (vs i)) = n :=
  (extent_ofFn fun i => (rfl : (u8 (vs i)).width = 1)).trans (Nat.one_mul n)

@[simp] theorem extent_ofFn_u16 (vs : Fin n → UInt16) :
    extent width (List.ofFn fun i => u16 (vs i)) = 2 * n :=
  extent_ofFn fun _ => rfl

theorem laid_ofFn_u8 (vs : Fin n → UInt8) :
    Laid buf off (List.ofFn fun i => u8 (vs i)) ↔
      ∀ i : Fin n, buf (UInt32.ofNat (off + i)) = vs i := by
  rw [laid_ofFn fun i => (rfl : (u8 (vs i)).width = 1)]
  simp only [In, Nat.one_mul]

theorem laid_ofFn_u16 (vs : Fin n → UInt16) :
    Laid buf off (List.ofFn fun i => u16 (vs i)) ↔
      ∀ i : Fin n, buf.getU16 (UInt32.ofNat (off + 2 * i)) = vs i :=
  laid_ofFn (fun i => (rfl : (u16 (vs i)).width = 2)) buf off

end

end FrameField

namespace Packing

/-- A packing that started on `buf` has come to hold the bytes and has written nothing else. -/
structure Holds (buf : Buf) (xs : List UInt8) (p : Packing) : Prop where
  off : p.off.toNat = xs.length
  bytes : p.buf.bytes 0 p.off = xs
  rest : ∀ i : UInt32, xs.length ≤ i.toNat → p.buf i = buf i

theorem holds_nil (buf : Buf) : Holds buf [] ⟨buf, 0⟩ where
  off := rfl
  bytes := rfl
  rest _ _ := rfl

section

variable {buf : Buf} {xs : List UInt8} {p : Packing}

theorem Holds.putU8 (h : Holds buf xs p) (hlt : xs.length + 1 < 2 ^ 32) (v : UInt8) :
    Holds buf (xs ++ [v]) (p.putU8 v) := by
  have hoff := h.off
  have hnext : (p.off + 1).toNat = xs.length + 1 := by
    rw [UInt32.toNat_add, hoff]
    exact Nat.mod_eq_of_lt hlt
  have hput : p.buf.putU8 p.off v = p.buf.overlay p.off [v] := by
    funext i
    by_cases hi : i = p.off
    · subst hi
      simp [Buf.putU8, Buf.overlay]
    · have hsub : ¬ (i - p.off).toNat < [v].length := by
        intro hlt
        have hzero : i - p.off = 0 := UInt32.toNat_inj.mp (Nat.lt_one_iff.mp hlt)
        exact hi (by grind)
      rw [Buf.putU8_of_ne hi, Buf.overlay, if_neg hsub]
  refine ⟨by rw [Packing.putU8, hnext, List.length_append, List.length_singleton], ?_, ?_⟩
  · change (p.buf.putU8 p.off v).bytes 0 (p.off + 1) = xs ++ [v]
    rw [hput, Buf.bytes_overlay _ _ (by rw [hnext, hoff, List.length_singleton]), h.bytes]
  · intro i hi
    rw [List.length_append, List.length_singleton] at hi
    have hne : i ≠ p.off := by
      rintro rfl
      omega
    exact (Buf.putU8_of_ne hne).trans (h.rest i (by omega))

theorem putU16_eq (v : UInt16) (p : Packing) :
    p.putU16 v = (p.putU8 (v >>> 8).toUInt8).putU8 v.toUInt8 := by
  simp only [putU16, putU8, Buf.putU16, UInt32.add_assoc]
  rfl

theorem putU32_eq (v : UInt32) (p : Packing) :
    p.putU32 v = (((p.putU8 (v >>> 24).toUInt8).putU8 (v >>> 16).toUInt8).putU8
      (v >>> 8).toUInt8).putU8 v.toUInt8 := by
  simp only [putU32, putU8, Buf.putU32, UInt32.add_assoc]
  rfl

theorem Holds.put (h : Holds buf xs p) (f : FrameField) (hlt : xs.length + f.width < 2 ^ 32) :
    Holds buf (xs ++ f.bytes) (f.put p) := by
  cases f with
  | u8 v => exact h.putU8 hlt v
  | u16 v =>
    have hwide : xs.length + 2 < 2 ^ 32 := hlt
    have htwo := (h.putU8 (by omega) (v >>> 8).toUInt8).putU8
      (by rw [List.length_append, List.length_singleton]; omega) v.toUInt8
    rw [List.append_assoc] at htwo
    rw [FrameField.put, putU16_eq]
    exact htwo
  | u32 v =>
    have hwide : xs.length + 4 < 2 ^ 32 := hlt
    have hfour := (((h.putU8 (by omega) (v >>> 24).toUInt8).putU8
      (by simp only [List.length_append, List.length_singleton]; omega) (v >>> 16).toUInt8).putU8
      (by simp only [List.length_append, List.length_singleton]; omega) (v >>> 8).toUInt8).putU8
      (by simp only [List.length_append, List.length_singleton]; omega) v.toUInt8
    simp only [List.append_assoc] at hfour
    rw [FrameField.put, putU32_eq]
    exact hfour

theorem Holds.putAll (h : Holds buf xs p) (fs : List FrameField)
    (hlt : xs.length + extent FrameField.width fs < 2 ^ 32) :
    Holds buf (xs ++ FrameField.encode fs) (FrameField.putAll fs p) := by
  induction fs generalizing xs p with
  | nil =>
    rw [FrameField.encode, List.flatMap_nil, List.append_nil]
    exact h
  | cons f fs ih =>
    rw [extent_cons] at hlt
    have hnext := ih (h.put f (by omega)) (by
      rw [List.length_append, FrameField.length_bytes]
      omega)
    rw [List.append_assoc] at hnext
    exact hnext

end

end Packing

namespace FrameField

variable {buf : Buf} {used : UInt32}

/-- A field is read from where its bytes stand. -/
theorem in_of_bytes {xs ys : List UInt8} {f : FrameField}
    (h : buf.bytes 0 used = xs ++ f.bytes ++ ys) : f.In buf xs.length := by
  have hlength := congrArg List.length h
  rw [Buf.length_bytes, List.length_append, List.length_append, length_bytes] at hlength
  have hlt := used.toNat_lt
  have hpos := f.width_pos
  have hoff : (UInt32.ofNat xs.length).toNat = xs.length :=
    UInt32.toNat_ofNat_of_lt' (show xs.length < 2 ^ 32 by omega)
  have hbytes := Buf.bytes_of_append h hoff (show (UInt32.ofNat f.width).toNat = _ by cases f <;> rfl)
  have hzero : UInt32.ofNat xs.length + UInt32.ofNat 0 = UInt32.ofNat xs.length :=
    UInt32.add_zero _
  cases f with
  | u8 v =>
    have hat : buf (UInt32.ofNat xs.length + UInt32.ofNat 0) = v := (List.cons.inj hbytes).1
    rwa [hzero] at hat
  | u16 v =>
    obtain ⟨hhigh, hrest⟩ := List.cons.inj hbytes
    have hlow : buf (UInt32.ofNat xs.length + 1) = v.toUInt8 := (List.cons.inj hrest).1
    change buf (UInt32.ofNat xs.length + UInt32.ofNat 0) = (v >>> 8).toUInt8 at hhigh
    rw [hzero] at hhigh
    rw [In, Buf.getU16, hhigh, hlow]
    exact Buf.join_split v
  | u32 v =>
    have hword := @Buf.getU32_of_bytes_at _ _ _ _ hbytes 0 (show 0 + 4 ≤ 4 by decide)
    rw [UInt32.add_zero] at hword
    rw [In, hword]
    exact Buf.getU32_ofList [] [] v rfl (by decide)

/-- What a buffer holds as the bytes of fields, it holds as the fields. -/
theorem laid_of_bytes {xs : List UInt8} {fs : List FrameField}
    (h : buf.bytes 0 used = xs ++ encode fs) : Laid buf xs.length fs := by
  induction fs generalizing xs with
  | nil => trivial
  | cons f fs ih =>
    have hsplit : buf.bytes 0 used = xs ++ f.bytes ++ encode fs := by
      rw [h, List.append_assoc]
      rfl
    have htail := ih hsplit
    rw [List.length_append, length_bytes] at htail
    exact ⟨in_of_bytes hsplit, htail⟩

/-- The fields that are packed from the start of a buffer, with the checksum behind them. -/
theorem sealed (buf : Buf) {fs : List FrameField} (hlt : extent width fs + 4 < 2 ^ 32) :
    Packing.Holds buf (encode (fs ++ [.u32 (Crc.crc32 (encode fs))]))
      (putAll fs ⟨buf, 0⟩).putCrc := by
  have hbody := (Packing.holds_nil buf).putAll fs (by
    rw [List.length_nil]
    omega)
  rw [List.nil_append] at hbody
  have hcrc := hbody.put (.u32 (Crc.crc32 (encode fs))) (by
    rw [length_encode]
    exact hlt)
  rw [encode_append, Packing.putCrc, hbody.bytes]
  exact hcrc

end FrameField

end QiranFirmware
