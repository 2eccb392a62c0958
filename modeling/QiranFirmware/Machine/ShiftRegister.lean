import Mathlib.Data.BitVec
import Mathlib.Logic.Function.Iterate

/-! # Reflected shift registers

A register of `w` bits shifts towards its low end, and takes in the polynomial whenever the bit that
it shifts out is set. The shift is linear in exclusive or, and loses nothing when the polynomial has
its top bit. Symbols are fed in at the low end; as many of them as fit into the register can be fed
in at once, which is why two strings that differ only in so many symbols next to each other leave
different registers.
-/
namespace Machine.ShiftRegister

variable {w : ℕ} (poly : BitVec w)

def bit (x : BitVec w) : BitVec w := if x.getLsbD 0 then (x >>> 1) ^^^ poly else x >>> 1

def bits (n : ℕ) : BitVec w → BitVec w := (bit poly)^[n]

theorem bits_add (m n : ℕ) (x : BitVec w) : bits poly (m + n) x = bits poly m (bits poly n x) :=
  Function.iterate_add_apply ..

theorem bit_xor (x y : BitVec w) : bit poly (x ^^^ y) = bit poly x ^^^ bit poly y := by
  simp only [bit, BitVec.getLsbD_xor, BitVec.ushiftRight_xor_distrib]
  cases x.getLsbD 0 with
  | false =>
    cases y.getLsbD 0 with
    | false => rfl
    | true => exact BitVec.xor_assoc ..
  | true =>
    cases y.getLsbD 0 with
    | false =>
      simp only [Bool.true_xor, Bool.not_false, ↓reduceIte, Bool.false_eq_true]
      rw [BitVec.xor_assoc, BitVec.xor_comm (y >>> 1), ← BitVec.xor_assoc]
    | true =>
      simp only [Bool.true_xor, Bool.not_true, ↓reduceIte, Bool.false_eq_true]
      rw [BitVec.xor_assoc, BitVec.xor_comm (y >>> 1), ← BitVec.xor_assoc poly, BitVec.xor_self,
        BitVec.zero_xor]

theorem bits_xor (n : ℕ) (x y : BitVec w) :
    bits poly n (x ^^^ y) = bits poly n x ^^^ bits poly n y := by
  induction n generalizing x y with
  | zero => rfl
  | succ n ih =>
    simp only [bits_add poly n 1]
    rw [← ih]
    exact congrArg (bits poly n) (bit_xor poly x y)

/-- The bit shifted out comes back as the top bit of the polynomial, or of the lack of it. -/
theorem msb_bit (hpoly : poly.msb = true) (x : BitVec w) : (bit poly x).msb = x.getLsbD 0 := by
  unfold bit
  cases hx : x.getLsbD 0 with
  | false => simp [BitVec.msb_ushiftRight]
  | true => simp [BitVec.msb_xor, BitVec.msb_ushiftRight, hpoly]

theorem eq_of_shifted {x y : BitVec w} (hlow : x.getLsbD 0 = y.getLsbD 0) (hhigh : x >>> 1 = y >>> 1) :
    x = y := by
  refine BitVec.eq_of_getLsbD_eq fun i _ => ?_
  cases i with
  | zero => exact hlow
  | succ i =>
    have hbit := congrArg (·.getLsbD i) hhigh
    simpa [Nat.add_comm] using hbit

theorem bit_injective (hpoly : poly.msb = true) : Function.Injective (bit poly) := by
  intro x y h
  have hlow : x.getLsbD 0 = y.getLsbD 0 := by
    rw [← msb_bit poly hpoly, ← msb_bit poly hpoly, h]
  refine eq_of_shifted hlow ?_
  unfold bit at h
  rw [hlow] at h
  split at h
  · exact (BitVec.xor_left_inj poly).mp h
  · exact h

theorem bits_injective (hpoly : poly.msb = true) (n : ℕ) : Function.Injective (bits poly n) :=
  (bit_injective poly hpoly).iterate n

/-- Bits that are clear are shifted out as they are. -/
theorem bits_of_low {n : ℕ} {x : BitVec w} (h : ∀ i < n, x.getLsbD i = false) :
    bits poly n x = x >>> n := by
  induction n with
  | zero => exact (BitVec.ushiftRight_zero x).symm
  | succ n ih =>
    have hbit : (x >>> n).getLsbD 0 = false := by simpa using h n (Nat.lt_succ_self n)
    rw [Nat.add_comm, bits_add, ih fun i hi => h i (hi.trans (Nat.lt_succ_self n)), Nat.add_comm,
      BitVec.shiftRight_add]
    show bit poly (x >>> n) = _
    rw [bit, hbit, if_neg Bool.false_ne_true]

theorem bits_shiftLeft {n : ℕ} (x : BitVec w) : bits poly n (x <<< n) = x <<< n >>> n := by
  refine bits_of_low poly fun i hi => ?_
  simp [BitVec.getLsbD_shiftLeft, hi]

/-- What is fed in at the low end of the register leaves it after as many shifts as it has bits: the
rest of the register has moved down. -/
theorem bits_eq_table (n : ℕ) (x : BitVec w) :
    bits poly n x = bits poly n ((x.setWidth n).setWidth w) ^^^ (x >>> n) := by
  have hsplit : x = (x.setWidth n).setWidth w ^^^ (x >>> n <<< n) := by
    refine BitVec.eq_of_getLsbD_eq fun i hi => ?_
    simp only [BitVec.getLsbD_xor, BitVec.getLsbD_setWidth, BitVec.getLsbD_shiftLeft, hi,
      BitVec.getLsbD_ushiftRight, decide_true, Bool.true_and]
    by_cases hin : i < n
    · simp [hin]
    · simp [hin, Nat.add_sub_cancel' (Nat.not_lt.mp hin)]
  have hback : x >>> n <<< n >>> n = x >>> n := by
    refine BitVec.eq_of_getLsbD_eq fun i hi => ?_
    simp only [BitVec.getLsbD_ushiftRight, BitVec.getLsbD_shiftLeft, Nat.add_sub_cancel_left]
    by_cases hin : n + i < w
    · simp [hin]
    · simp [BitVec.getLsbD_of_ge x (n + i) (Nat.not_lt.mp hin)]
  conv_lhs => rw [hsplit]
  rw [bits_xor, bits_shiftLeft, hback]

section Symbols
variable {n : ℕ}

/-- A symbol of `n` bits goes in at the low end. -/
def feed (x : BitVec w) (a : BitVec n) : BitVec w := bits poly n (x ^^^ a.setWidth w)

def feedAll (x : BitVec w) (as : List (BitVec n)) : BitVec w := as.foldl (feed poly) x

theorem feedAll_append (x : BitVec w) (as bs : List (BitVec n)) :
    feedAll poly x (as ++ bs) = feedAll poly (feedAll poly x as) bs := List.foldl_append ..

/-- Different registers stay different, whatever both are fed. -/
theorem feedAll_injective (hpoly : poly.msb = true) (as : List (BitVec n)) :
    Function.Injective fun x => feedAll poly x as := by
  induction as with
  | nil => exact fun _ _ h => h
  | cons a as ih =>
    intro x y h
    have hfeed : feed poly x a = feed poly y a := ih h
    exact (BitVec.xor_left_inj _).mp (bits_injective poly hpoly n hfeed)

def pack (w : ℕ) : List (BitVec n) → BitVec w
  | [] => 0#w
  | a :: as => a.setWidth w ^^^ (pack w as <<< n)

theorem toNat_pack_lt (as : List (BitVec n)) : (pack w as).toNat < 2 ^ (as.length * n) := by
  induction as with
  | nil => simp [pack]
  | cons a as ih =>
    have hexp : (a :: as).length * n = as.length * n + n := Nat.succ_mul ..
    have hsymbol : (a.setWidth w).toNat < 2 ^ (as.length * n + n) := by
      rw [BitVec.toNat_setWidth]
      exact (Nat.mod_le ..).trans_lt (a.isLt.trans_le (Nat.pow_le_pow_right (by decide) (Nat.le_add_left ..)))
    have hrest : (pack w as <<< n).toNat < 2 ^ (as.length * n + n) := by
      rw [BitVec.toNat_shiftLeft, Nat.shiftLeft_eq, Nat.pow_add]
      exact (Nat.mod_le ..).trans_lt (Nat.mul_lt_mul_of_pos_right ih (Nat.two_pow_pos n))
    rw [hexp, pack, BitVec.toNat_xor]
    exact Nat.xor_lt_two_pow hsymbol hrest

theorem pack_shifts {a : BitVec n} {as : List (BitVec n)} (hfit : (a :: as).length * n ≤ w) :
    pack w as <<< n >>> n = pack w as := by
  rw [List.length_cons, Nat.succ_mul] at hfit
  have hlt : (pack w as).toNat * 2 ^ n < 2 ^ w := by
    calc (pack w as).toNat * 2 ^ n < 2 ^ (as.length * n) * 2 ^ n :=
          Nat.mul_lt_mul_of_pos_right (toNat_pack_lt as) (Nat.two_pow_pos n)
      _ = 2 ^ (as.length * n + n) := (Nat.pow_add ..).symm
      _ ≤ 2 ^ w := Nat.pow_le_pow_right (by decide) hfit
  apply BitVec.eq_of_toNat_eq
  rw [BitVec.toNat_ushiftRight, BitVec.toNat_shiftLeft, Nat.shiftLeft_eq, Nat.mod_eq_of_lt hlt,
    Nat.shiftRight_eq_div_pow, Nat.mul_div_cancel _ (Nat.two_pow_pos n)]

theorem pack_injective {as bs : List (BitVec n)} (hlength : as.length = bs.length)
    (hfit : as.length * n ≤ w) (h : pack w as = pack w bs) : as = bs := by
  induction as generalizing bs with
  | nil => exact (List.length_eq_zero_iff.mp hlength.symm).symm
  | cons a as ih =>
    obtain ⟨b, bs, rfl⟩ := List.exists_cons_of_length_eq_add_one hlength.symm
    have hlength' : as.length = bs.length := Nat.succ.inj hlength
    have hfit' : as.length * n ≤ w := (Nat.mul_le_mul_right n (Nat.le_succ _)).trans hfit
    have hn : n ≤ w := (Nat.le_mul_of_pos_left n (Nat.succ_pos _)).trans hfit
    have hlow (c : BitVec n) (cs : List (BitVec n)) : (pack w (c :: cs)).setWidth n = c := by
      refine BitVec.eq_of_getLsbD_eq fun i hi => ?_
      simp [pack, hi, hi.trans_le hn]
    have hhigh (c : BitVec n) {cs : List (BitVec n)} (hcs : (c :: cs).length * n ≤ w) :
        pack w (c :: cs) >>> n = pack w cs := by
      have hsymbol : c.setWidth w >>> n = 0#w := by
        refine BitVec.eq_of_getLsbD_eq fun i _ => ?_
        simp
      rw [pack, BitVec.ushiftRight_xor_distrib, hsymbol, BitVec.zero_xor, pack_shifts hcs]
    have hab : a = b := by rw [← hlow a as, h, hlow]
    have hrest : pack w as = pack w bs := by
      rw [← hhigh a hfit, h, hhigh b (by rwa [← hlength])]
    rw [hab, ih hlength' hfit' hrest]

/-- Symbols that fit into the register can go in together. -/
theorem feedAll_eq_pack {as : List (BitVec n)} (hfit : as.length * n ≤ w) (x : BitVec w) :
    feedAll poly x as = bits poly (as.length * n) (x ^^^ pack w as) := by
  induction as generalizing x with
  | nil => simp [feedAll, pack, bits]
  | cons a as ih =>
    have hrest : bits poly n (pack w as <<< n) = pack w as := by
      rw [bits_shiftLeft, pack_shifts hfit]
    have hfit' : as.length * n ≤ w := (Nat.mul_le_mul_right n (Nat.le_succ _)).trans hfit
    calc feedAll poly x (a :: as) = feedAll poly (feed poly x a) as := rfl
      _ = bits poly (as.length * n) (bits poly n (x ^^^ a.setWidth w) ^^^ pack w as) := ih hfit' _
      _ = bits poly (as.length * n) (bits poly n (x ^^^ a.setWidth w ^^^ pack w as <<< n)) := by
        rw [bits_xor poly n (_ ^^^ _), hrest]
      _ = bits poly ((a :: as).length * n) (x ^^^ pack w (a :: as)) := by
        rw [← bits_add, ← Nat.succ_mul, BitVec.xor_assoc]
        rfl

/-- Strings that differ only in symbols next to each other, not more than the register holds, leave
different registers. -/
theorem feedAll_ne (hpoly : poly.msb = true) {as bs : List (BitVec n)}
    (hlength : as.length = bs.length) (hfit : as.length * n ≤ w) (hne : as ≠ bs) (x : BitVec w)
    (pre post : List (BitVec n)) :
    feedAll poly x (pre ++ as ++ post) ≠ feedAll poly x (pre ++ bs ++ post) := by
  intro h
  simp only [feedAll_append] at h
  have hwindow := feedAll_injective poly hpoly post h
  have hpacked (y : BitVec w) : feedAll poly y bs = bits poly (as.length * n) (y ^^^ pack w bs) := by
    rw [hlength]
    exact feedAll_eq_pack poly (hlength ▸ hfit) y
  rw [feedAll_eq_pack poly hfit (feedAll poly x pre), hpacked] at hwindow
  have hpack := (BitVec.xor_right_inj _).mp (bits_injective poly hpoly _ hwindow)
  exact hne (pack_injective hlength hfit hpack)

end Symbols

end Machine.ShiftRegister
