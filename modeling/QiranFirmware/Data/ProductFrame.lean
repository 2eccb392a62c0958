import QiranFirmware.Comm.Hk
import QiranFirmware.Data.Product
import QiranFirmware.Machine.Rounding

/-! # The frame of a product

`data_product_frame` in `data_product.c`: the quantities of a product as scaled whole numbers, and a word
that says which of them are there. The arithmetic of the scaling rounds, so a word is off by little more
than a half of its unit. A double times a whole number is never so small that the rounding would be worse,
and one that is too large for a double is out of the field's range as well.
-/
namespace QiranFirmware

open Machine

namespace DataProduct

def scaleVisibility : UInt32 := 1000000
def scaleSBound : UInt32 := 1000000
def scaleCar : UInt32 := 1000
def scaleBrightness : UInt32 := 1000

def frameBytes : UInt32 := 36

variable (R : Rounding)

def scaled (value : ℚ) (scale : UInt32) : UInt32 :=
  if value ≤ 0 then 0
  else
    let v := R.fl (R.fl (value * toDouble scale) + 1 / 2)
    if 4294967295 ≤ v then 0xFFFFFFFF else ofDouble v

def flags (product : Product) : UInt8 :=
  (if product.countsValid then 0x01 else 0) ||| (if product.calibrated then 0x02 else 0) |||
    if product.consistent then 0x04 else 0

def frame (product : Product) (buf : Buf) (len : UInt32) : FrameBuild :=
  if len < frameBytes then ⟨.errParam, buf, 0⟩
  else
    let p : Packing := ⟨buf, 0⟩
    let p := p.putU32 (scaled R product.visibility scaleVisibility)
    let p := p.putU32 (scaled R product.sBound scaleSBound)
    let p := p.putU32 (scaled R product.pairRateHz 1)
    let p := p.putU32 (scaled R product.brightness scaleBrightness)
    let p := p.putU32 (scaled R product.carMeasured scaleCar)
    let p := p.putU32 (scaled R product.carPredicted scaleCar)
    let p := p.putU32 (scaled R product.carLowerBound scaleCar)
    let p := p.putU32 (flags product).toUInt32
    let p := p.putU32 0
    p.built frameBytes

open FrameField in
def fields (product : Product) : List FrameField :=
  [u32 (scaled R product.visibility scaleVisibility), u32 (scaled R product.sBound scaleSBound),
    u32 (scaled R product.pairRateHz 1), u32 (scaled R product.brightness scaleBrightness),
    u32 (scaled R product.carMeasured scaleCar), u32 (scaled R product.carPredicted scaleCar),
    u32 (scaled R product.carLowerBound scaleCar), u32 (flags product).toUInt32, u32 0]

/-- The word that stands for a quantity of so many units. It is next to it, but at the top of the field:
there it says that the quantity is at least about as large. -/
structure Telemetered (x : ℚ) (w : UInt32) : Prop where
  near : w ≠ 0xFFFFFFFF → |(w.toNat : ℚ) - max x 0| ≤ 1 / 2 + Rounding.slack
  topped : w = 0xFFFFFFFF → 2 ^ 32 - 3 / 2 - Rounding.slack ≤ x
  pinned : 2 ^ 32 ≤ x → w = 0xFFFFFFFF

theorem telemetered_scaled (value : ℚ) {scale : UInt32} (hscale : scale ≠ 0) :
    Telemetered (value * toDouble scale) (scaled R value scale) := by
  have hpos : 0 < toDouble scale := toDouble_pos.mpr hscale
  unfold scaled
  split
  · rename_i hvalue
    have hneg : value * toDouble scale ≤ 0 := mul_nonpos_of_nonpos_of_nonneg hvalue hpos.le
    refine ⟨fun _ => ?_, fun h => absurd h (by decide), fun h => ?_⟩
    · rw [max_eq_right hneg, Rounding.slack]
      norm_num
    · linarith
  rename_i hvalue
  have hx : 0 ≤ value * toDouble scale := (mul_pos (not_le.mp hvalue) hpos).le
  generalize value * toDouble scale = x at hx ⊢
  dsimp only
  change Telemetered x (if 4294967295 ≤ R.addHalf x then _ else ofDouble (R.addHalf x))
  split
  · rename_i htop
    refine ⟨fun h => absurd rfl h, fun _ => ?_, fun _ => rfl⟩
    rcases le_total x (2 ^ 32) with hle | hge
    · have hnear := (abs_le.mp (R.addHalf_near hx hle)).2
      linarith
    · have hslack : 0 ≤ Rounding.slack := by norm_num [Rounding.slack]
      linarith
  · rename_i hbelow
    have hlt : x < 2 ^ 32 := by
      by_contra hlarge
      have hnext := R.addHalf_large (not_lt.mp hlarge)
      linarith
    have hfloor : ⌊R.addHalf x⌋₊ < 4294967295 :=
      (Nat.floor_lt (R.addHalf_nonneg hx)).mpr (by exact_mod_cast not_le.mp hbelow)
    have hword : (ofDouble (R.addHalf x)).toNat = ⌊R.addHalf x⌋₊ :=
      UInt32.toNat_ofNat_of_lt' (hfloor.trans (by decide))
    refine ⟨fun _ => ?_, fun h => ?_, fun h => absurd hlt (not_lt.mpr h)⟩
    · rw [hword, max_eq_left hx]
      exact R.floor_addHalf hx hlt.le
    · rw [h] at hword
      exact absurd hword.symm hfloor.ne

example : scaled .exact (7 / 10) scaleVisibility = 700000 ∧ scaled .exact (-1) scaleCar = 0 ∧
    scaled .exact 5000000 scaleCar = 0xFFFFFFFF := by
  decide +kernel

theorem scaled_zero (scale : UInt32) : scaled R 0 scale = 0 := if_pos le_rfl

theorem extent_fields (product : Product) : extent FrameField.width (fields R product) = 36 := rfl

theorem frame_eq (product : Product) (buf : Buf) {len : UInt32} (hlen : frameBytes ≤ len) :
    frame R product buf len = (FrameField.putAll (fields R product) ⟨buf, 0⟩).built frameBytes :=
  if_neg (UInt32.not_lt.mpr hlen)

/-- The frame is its fields one after another, and nothing else is written. -/
theorem frame_holds (product : Product) (buf : Buf) {len : UInt32} (hlen : frameBytes ≤ len) :
    (frame R product buf len).status = .ok ∧ (frame R product buf len).written = frameBytes ∧
      (frame R product buf len).buf.bytes 0 frameBytes = FrameField.encode (fields R product) ∧
      ∀ i, frameBytes ≤ i → (frame R product buf len).buf i = buf i := by
  have hheld := (Packing.holds_nil buf).putAll (fields R product) (by rw [extent_fields]; decide)
  rw [List.nil_append] at hheld
  obtain ⟨hoff, hbytes, hrest⟩ := hheld
  rw [FrameField.length_encode, extent_fields] at hoff hrest
  have hend : (FrameField.putAll (fields R product) ⟨buf, 0⟩).off = frameBytes := UInt32.toNat_inj.mp hoff
  rw [hend] at hbytes
  rw [frame_eq R product buf hlen]
  generalize FrameField.putAll (fields R product) ⟨buf, 0⟩ = p at hend hbytes hrest ⊢
  exact ⟨if_pos hend, hend, hbytes, fun i hi => hrest i (UInt32.le_iff_toNat_le.mp hi)⟩

structure Reported (product : Product) (buf : Buf) : Prop where
  visibility : Telemetered (product.visibility * 1000000) (buf.getU32 0)
  sBound : Telemetered (product.sBound * 1000000) (buf.getU32 4)
  pairRateHz : Telemetered product.pairRateHz (buf.getU32 8)
  brightness : Telemetered (product.brightness * 1000) (buf.getU32 12)
  carMeasured : Telemetered (product.carMeasured * 1000) (buf.getU32 16)
  carPredicted : Telemetered (product.carPredicted * 1000) (buf.getU32 20)
  carLowerBound : Telemetered (product.carLowerBound * 1000) (buf.getU32 24)
  countsValid : buf.getU32 28 &&& 1 ≠ 0 ↔ product.countsValid = true
  calibrated : buf.getU32 28 &&& 2 ≠ 0 ↔ product.calibrated = true
  consistent : buf.getU32 28 &&& 4 ≠ 0 ↔ product.consistent = true
  spare : buf.getU32 32 = 0

theorem flags_bits (product : Product) :
    ((flags product).toUInt32 &&& 1 ≠ 0 ↔ product.countsValid = true) ∧
      ((flags product).toUInt32 &&& 2 ≠ 0 ↔ product.calibrated = true) ∧
      ((flags product).toUInt32 &&& 4 ≠ 0 ↔ product.consistent = true) := by
  have hall : ∀ counted calibrated consistent : Bool,
      let flags : UInt8 := (if counted then 0x01 else 0) ||| (if calibrated then 0x02 else 0) |||
        if consistent then 0x04 else 0
      (flags.toUInt32 &&& 1 ≠ 0 ↔ counted = true) ∧ (flags.toUInt32 &&& 2 ≠ 0 ↔ calibrated = true) ∧
        (flags.toUInt32 &&& 4 ≠ 0 ↔ consistent = true) := by decide
  exact hall product.countsValid product.calibrated product.consistent

theorem telemetered_field {value : ℚ} {scale w : UInt32} (hscale : scale ≠ 0)
    (h : w = scaled R value scale) {x : ℚ} (hx : x = value * toDouble scale) : Telemetered x w := by
  rw [h, hx]
  exact telemetered_scaled R value hscale

theorem toDouble_of_toNat {scale : UInt32} {n : ℕ} {x : ℚ} (h : scale.toNat = n) (hx : (n : ℚ) = x) :
    toDouble scale = x := by
  rw [toDouble, h, hx]

theorem reported_of_laid {product : Product} {buf : Buf}
    (h : FrameField.Laid buf 0 (fields R product)) : Reported product buf := by
  obtain ⟨hvisibility, hsBound, hpairRate, hbrightness, hmeasured, hpredicted, hlower, hflags, hspare, -⟩ := h
  obtain ⟨hcounted, hcalibrated, hconsistent⟩ := flags_bits product
  have hword : buf.getU32 28 = (flags product).toUInt32 := hflags
  rw [← hword] at hcounted hcalibrated hconsistent
  have hmicro : toDouble scaleVisibility = 1000000 := @toDouble_of_toNat _ 1000000 _ rfl (by norm_num)
  have hmicro' : toDouble scaleSBound = 1000000 := @toDouble_of_toNat _ 1000000 _ rfl (by norm_num)
  have hmilli : toDouble scaleCar = 1000 := @toDouble_of_toNat _ 1000 _ rfl (by norm_num)
  have hmilli' : toDouble scaleBrightness = 1000 := @toDouble_of_toNat _ 1000 _ rfl (by norm_num)
  have hunit : toDouble 1 = 1 := toDouble_of_toNat rfl Nat.cast_one
  refine ⟨?_, ?_, ?_, ?_, ?_, ?_, ?_, hcounted, hcalibrated, hconsistent, hspare⟩
  · exact telemetered_field R (by decide) hvisibility (by rw [hmicro])
  · exact telemetered_field R (by decide) hsBound (by rw [hmicro'])
  · exact telemetered_field R (by decide) hpairRate (by rw [hunit, mul_one])
  · exact telemetered_field R (by decide) hbrightness (by rw [hmilli'])
  · exact telemetered_field R (by decide) hmeasured (by rw [hmilli])
  · exact telemetered_field R (by decide) hpredicted (by rw [hmilli])
  · exact telemetered_field R (by decide) hlower (by rw [hmilli])

theorem frame_reported (product : Product) (buf : Buf) {len : UInt32} (hlen : frameBytes ≤ len) :
    Reported product (frame R product buf len).buf := by
  obtain ⟨-, -, hbytes, -⟩ := frame_holds R product buf hlen
  rw [← List.nil_append (FrameField.encode _)] at hbytes
  exact reported_of_laid R (FrameField.laid_of_bytes hbytes)

/-- A product of the counts alone. -/
theorem fromCounts_bare (i : ProductInput) : (fromCounts i).countsValid = true ∧
    (fromCounts i).calibrated = false ∧ (fromCounts i).pairRateHz = 0 ∧ (fromCounts i).brightness = 0 ∧
      (fromCounts i).carPredicted = 0 := by
  unfold fromCounts
  dsimp only
  split
  · split <;> exact ⟨rfl, rfl, rfl, rfl, rfl⟩
  · split <;> exact ⟨rfl, rfl, rfl, rfl, rfl⟩

def Usable (cal : Option Calibration) : Prop :=
  ∃ c, cal = some c ∧ c.branchEfficiencyPpm ⟨0, Nat.two_pos⟩ ≠ 0 ∧
    c.branchEfficiencyPpm ⟨1, Nat.one_lt_two⟩ ≠ 0

theorem fromCalibration_usable (c : Calibration) (i : ProductInput) (out : Product) :
    fromCalibration c i out = out ∧ ¬ Usable (some c) ∨
      (fromCalibration c i out).calibrated = true ∧
        (fromCalibration c i out).countsValid = out.countsValid ∧ Usable (some c) := by
  have heta (n : UInt32) : toDouble n / 1000000 ≤ 0 ↔ n = 0 := by
    rw [← not_lt, div_pos_iff_of_pos_right (by norm_num), toDouble_pos, not_not]
  have husable : Usable (some c) ↔ ¬ (toDouble (c.branchEfficiencyPpm ⟨0, Nat.two_pos⟩) / 1000000 ≤ 0 ∨
      toDouble (c.branchEfficiencyPpm ⟨1, Nat.one_lt_two⟩) / 1000000 ≤ 0) := by
    rw [heta, heta, not_or]
    constructor
    · rintro ⟨c', hc, hboth⟩
      rwa [Option.some.inj hc]
    · exact fun h => ⟨c, rfl, h⟩
  unfold fromCalibration
  dsimp only
  split
  · rename_i hzero
    exact .inl ⟨rfl, fun h => husable.mp h hzero⟩
  · rename_i hsome
    refine .inr ⟨rfl, ?_, husable.mpr hsome⟩
    split
    · split <;> rfl
    · split <;> rfl

theorem compute_product {i : ProductInput} (h : Accepted i) (cal : Option Calibration) (d : DataProduct)
    (v : Svc) : (compute cal i d v).2.1 =
      match cal with
      | none => fromCounts i
      | some c => fromCalibration c i (fromCounts i) := by
  have hok := (@compute_ok_iff cal i d v).mpr h
  unfold compute at hok ⊢
  split
  · rename_i hrefused
    rw [if_pos hrefused] at hok
    cases hok
  rename_i hsome
  split
  · rename_i hrefused
    rw [if_neg hsome, if_pos hrefused] at hok
    cases hok
  · cases cal <;> rfl

/-- What an input leads to, as far as the flags tell. -/
theorem compute_flags (cal : Option Calibration) (i : ProductInput) (d : DataProduct) (v : Svc) :
    ((compute cal i d v).2.1.countsValid = true ↔ Accepted i) ∧
      ((compute cal i d v).2.1.calibrated = true ↔ Accepted i ∧ Usable cal) ∧
      ((compute cal i d v).2.1.calibrated = false → (compute cal i d v).2.1.pairRateHz = 0 ∧
        (compute cal i d v).2.1.brightness = 0 ∧ (compute cal i d v).2.1.carPredicted = 0) := by
  by_cases haccepted : Accepted i
  swap
  · rw [compute_refused haccepted]
    refine ⟨?_, ?_, fun _ => ⟨rfl, rfl, rfl⟩⟩
    · exact iff_of_false Bool.false_ne_true haccepted
    · exact iff_of_false Bool.false_ne_true fun h => haccepted h.1
  obtain ⟨hcounted, huncalibrated, hzero⟩ := fromCounts_bare i
  rw [compute_product haccepted, and_iff_right haccepted]
  cases cal with
  | none =>
    refine ⟨iff_of_true hcounted haccepted, iff_of_false ?_ ?_, fun _ => hzero⟩
    · exact Bool.not_eq_true _ ▸ huncalibrated
    · rintro ⟨c, hc, -⟩
      cases hc
  | some c =>
    dsimp only
    rcases fromCalibration_usable c i (fromCounts i) with ⟨hsame, hunusable⟩ | ⟨hset, hkept, husable⟩
    · rw [hsame]
      refine ⟨iff_of_true hcounted haccepted, iff_of_false ?_ hunusable, fun _ => hzero⟩
      exact Bool.not_eq_true _ ▸ huncalibrated
    · refine ⟨iff_of_true (hkept.trans hcounted) haccepted, iff_of_true hset husable, fun h => ?_⟩
      rw [hset] at h
      cases h

/-- A quantity of zero is a word of zero. -/
theorem Telemetered.zero {w : UInt32} (h : Telemetered 0 w) : w = 0 := by
  have htop : w ≠ 0xFFFFFFFF := by
    intro hw
    have hlarge := h.topped hw
    norm_num [Rounding.slack] at hlarge
  have hnear := (abs_le.mp (h.near htop)).2
  rw [max_self, sub_zero, Rounding.slack] at hnear
  have hlt : w.toNat < 1 := by
    have hcast : (w.toNat : ℚ) < 1 := lt_of_le_of_lt hnear (by norm_num)
    exact_mod_cast hcast
  exact UInt32.toNat_inj.mp (Nat.lt_one_iff.mp hlt)

/-- A frame is refused to a buffer that is too short for it. Otherwise its 36 bytes are written and no
other, each quantity of the product is read back to within half a unit, or pinned to the top of its
field, and the flags say exactly that there were counts to compute from, and that the calibration could
be used: without it the quantities that need it are zero, and without the counts the whole frame is. -/
theorem frame_read_back (cal : Option Calibration) (i : ProductInput) (d : DataProduct) (v : Svc)
    (buf : Buf) (len : UInt32) :
    let product := (compute cal i d v).2.1
    let b := frame R product buf len
    (len < frameBytes → b.status = .errParam ∧ b.buf = buf) ∧
    (frameBytes ≤ len →
      b.status = .ok ∧ b.written = frameBytes ∧ (∀ j, frameBytes ≤ j → b.buf j = buf j) ∧
      Reported product b.buf ∧
      (b.buf.getU32 28 &&& 1 ≠ 0 ↔ Accepted i) ∧
      (b.buf.getU32 28 &&& 2 ≠ 0 ↔ Accepted i ∧ Usable cal) ∧
      (b.buf.getU32 28 &&& 2 = 0 →
        b.buf.getU32 8 = 0 ∧ b.buf.getU32 12 = 0 ∧ b.buf.getU32 20 = 0) ∧
      (¬ Accepted i → b.buf.bytes 0 frameBytes = List.replicate 36 0)) := by
  intro product b
  refine ⟨fun hshort => ?_, fun hlen => ?_⟩
  · have hrefused : b = ⟨.errParam, buf, 0⟩ := if_pos hshort
    rw [hrefused]
    exact ⟨rfl, rfl⟩
  obtain ⟨hok, hwritten, hbytes, hrest⟩ := frame_holds R product buf hlen
  have hreported : Reported product b.buf := frame_reported R product buf hlen
  obtain ⟨hcounted, hcalibrated, hzero⟩ := compute_flags cal i d v
  refine ⟨hok, hwritten, hrest, hreported, hreported.countsValid.trans hcounted,
    hreported.calibrated.trans hcalibrated, fun hclear => ?_, fun hrefused => ?_⟩
  · have hunset : product.calibrated = false := by
      rw [← Bool.not_eq_true, ← hreported.calibrated]
      exact not_not.mpr hclear
    obtain ⟨hpairRate, hbrightness, hpredicted⟩ := hzero hunset
    have hwords := And.intro hreported.pairRateHz (And.intro hreported.brightness hreported.carPredicted)
    rw [hpairRate, hbrightness, hpredicted, zero_mul] at hwords
    exact ⟨hwords.1.zero, hwords.2.1.zero, hwords.2.2.zero⟩
  · have hempty : product = {} := by
      rw [show product = (compute cal i d v).2.1 from rfl, compute_refused hrefused]
    rw [hbytes, hempty]
    simp only [fields, scaled_zero]
    rfl

end DataProduct

end QiranFirmware
