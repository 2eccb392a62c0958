import QiranFirmware.Machine.ShiftRegister
import QiranFirmware.Svc.Crc

/-! # The checksum a bit at a time

`svc_crc.h` defines the checksum by its polynomial, its initial value and its final complement. The
table of `svc_crc.c` has, for each nibble, the register that four shifts of the nibble leave.
-/
namespace QiranFirmware.Crc

open Machine ShiftRegister

def polynomial : BitVec 32 := 0xEDB88320#32

def init : UInt32 := 0xFFFFFFFF

/-- The checksum by its definition: each byte into the low end of the register, and eight shifts. -/
def bitwise (data : List UInt8) : UInt32 :=
  ⟨~~~ feedAll polynomial (BitVec.allOnes 32) (data.map UInt8.toBitVec)⟩

theorem nibble_eq_bits (i : BitVec 4) :
    (nibble.getD i.toNat 0).toBitVec = bits polynomial 4 (i.setWidth 32) := by
  revert i
  decide

theorem toBitVec_shift (crc : UInt32) : (shift crc).toBitVec = bits polynomial 4 crc.toBitVec := by
  have hindex : (crc &&& 0x0F).toNat = (crc.toBitVec.setWidth 4).toNat := by
    rw [UInt32.toNat_and, BitVec.toNat_setWidth, UInt32.toNat_toBitVec]
    exact Nat.and_two_pow_sub_one_eq_mod crc.toNat 4
  rw [bits_eq_table polynomial 4 crc.toBitVec, ← nibble_eq_bits, ← hindex]
  rfl

theorem toBitVec_update (crc : UInt32) (data : List UInt8) : (update crc data).toBitVec =
    feedAll polynomial crc.toBitVec (data.map UInt8.toBitVec) := by
  induction data generalizing crc with
  | nil => rfl
  | cons b data ih =>
    have hbyte : (shift (shift (crc ^^^ b.toUInt32))).toBitVec =
        feed polynomial crc.toBitVec b.toBitVec := by
      rw [toBitVec_shift, toBitVec_shift, ← bits_add, UInt32.toBitVec_xor, UInt8.toBitVec_toUInt32]
      rfl
    show (update (shift (shift (crc ^^^ b.toUInt32))) data).toBitVec = _
    rw [ih, hbyte]
    rfl

theorem crc32_eq_bitwise (data : List UInt8) : crc32 data = bitwise data := by
  apply UInt32.toBitVec_inj.mp
  rw [crc32, finish, UInt32.toBitVec_xor, toBitVec_update]
  exact BitVec.xor_allOnes

theorem update_append (crc : UInt32) (xs ys : List UInt8) :
    update crc (xs ++ ys) = update (update crc xs) ys := List.foldl_append ..

theorem foldl_update (crc : UInt32) (bufs : List (List UInt8)) :
    bufs.foldl update crc = update crc bufs.flatten := by
  induction bufs generalizing crc with
  | nil => rfl
  | cons xs bufs ih => rw [List.foldl_cons, ih, List.flatten_cons, update_append]

/-- However the string is split into buffers, the chained updates have the checksum of the whole, and
this is the one that is defined a bit at a time. -/
theorem chained_eq_bitwise (bufs : List (List UInt8)) :
    finish (bufs.foldl update init) = crc32 bufs.flatten ∧
      crc32 bufs.flatten = bitwise bufs.flatten := by
  refine ⟨?_, crc32_eq_bitwise bufs.flatten⟩
  rw [foldl_update]
  rfl

/-- A string that two buffers share. -/
example : finish (update (update init [49, 50, 51, 52]) [53, 54, 55, 56, 57]) = 0xCBF43926 := by
  decide +kernel

end QiranFirmware.Crc
