import QiranFirmware.Svc.ConfigLoad
import Mathlib.Data.Rat.Floor
import Mathlib.Tactic.FieldSimp
import Mathlib.Tactic.Linarith
import Mathlib.Tactic.Ring

/-! # The derived quantities of a run

`data_product.c`, its doubles read as rationals. What follows from the counts alone is in `fromCounts`, what
needs the ground calibration in `fromCalibration`; a ratio that is not available is zero.
-/
namespace QiranFirmware

structure ProductInput where
  coincidenceMax : UInt32
  coincidenceMin : UInt32
  singlesSignal : UInt32 := 0
  singlesIdler : UInt32 := 0
  centralPeak : UInt32 := 0
  accidentals : UInt32 := 0
  integrationMs : UInt32 := 1
  pumpPowerUw : UInt32 := 0
  coincidenceWindowPs : UInt32 := 0
  deriving DecidableEq, Repr

structure Product where
  visibility : ℚ := 0
  sBound : ℚ := 0
  pairRateHz : ℚ := 0
  brightness : ℚ := 0
  carMeasured : ℚ := 0
  carPredicted : ℚ := 0
  carLowerBound : ℚ := 0
  countsValid : Bool := false
  calibrated : Bool := false
  consistent : Bool := false
  deriving DecidableEq

structure DataProduct where
  computed : UInt32 := 0
  inconsistent : UInt32 := 0
  deriving DecidableEq, Repr

namespace DataProduct

def toDouble (n : UInt32) : ℚ := n.toNat

/-- `(uint32_t)` of a double, which C only defines where the result fits. -/
def ofDouble (x : ℚ) : UInt32 := UInt32.ofNat ⌊x⌋₊

def sCoefficient : ℚ := 2.8284271247461903

def visibility (i : ProductInput) : ℚ :=
  (toDouble i.coincidenceMax - toDouble i.coincidenceMin) /
    (toDouble i.coincidenceMax + toDouble i.coincidenceMin)

def fromCounts (i : ProductInput) : Product :=
  let out : Product := { visibility := visibility i, sBound := sCoefficient * visibility i }
  let out := if i.accidentals ≠ 0 then
      { out with carMeasured := toDouble i.centralPeak / toDouble i.accidentals }
    else out
  let out := if out.visibility < 1 then
      let carLowerBound := out.visibility / (1 - out.visibility)
      { out with carLowerBound, consistent := decide (carLowerBound ≤ out.carMeasured) }
    else out
  { out with countsValid := true }

def fromCalibration (cal : Calibration) (i : ProductInput) (out : Product) : Product :=
  let integrationS := toDouble i.integrationMs / 1000
  let etaSignal := toDouble (cal.branchEfficiencyPpm ⟨0, Nat.two_pos⟩) / 1000000
  let etaIdler := toDouble (cal.branchEfficiencyPpm ⟨1, Nat.one_lt_two⟩) / 1000000
  let bandwidthNm := toDouble cal.spectralBandwidthPm / 1000
  let pumpMw := toDouble i.pumpPowerUw / 1000
  let coincidenceRate := toDouble i.coincidenceMax / integrationS
  if etaSignal ≤ 0 ∨ etaIdler ≤ 0 then out
  else
    let out := { out with pairRateHz := coincidenceRate / (etaSignal * etaIdler) }
    let out := if 0 < pumpMw ∧ 0 < bandwidthNm then
        { out with brightness := out.pairRateHz / (pumpMw * bandwidthNm) }
      else out
    let accidentalRate := toDouble i.singlesSignal / integrationS *
      (toDouble i.singlesIdler / integrationS) * (toDouble i.coincidenceWindowPs / 10 ^ 12)
    let out := if i.coincidenceWindowPs ≠ 0 ∧ i.singlesSignal ≠ 0 ∧ i.singlesIdler ≠ 0 ∧
        0 < accidentalRate then
        { out with carPredicted := coincidenceRate / accidentalRate }
      else out
    { out with calibrated := true }

def noteInconsistent (i : ProductInput) (out : Product) (d : DataProduct) (v : Svc) : DataProduct × Svc :=
  if i.accidentals ≠ 0 ∧ out.visibility < 1 ∧ out.consistent = false then
    ({ d with inconsistent := d.inconsistent + 1 },
      v.report .dataProduct (ofDouble (out.carLowerBound * 1000)))
  else (d, v)

/-- `data_product_compute`, with what `svc_config_calibration` returns. -/
def compute (cal : Option Calibration) (i : ProductInput) (d : DataProduct) (v : Svc) :
    Status × Product × DataProduct × Svc :=
  if toDouble i.coincidenceMax + toDouble i.coincidenceMin ≤ 0 ∨ i.integrationMs = 0 then
    (.errRange, {}, d, v)
  else if i.coincidenceMax < i.coincidenceMin then (.errRange, {}, d, v)
  else
    let out := fromCounts i
    let (d, v) := noteInconsistent i out { d with computed := d.computed + 1 } v
    match cal with
    | none => (.ok, out, d, v)
    | some cal => (.ok, fromCalibration cal i out, d, v)

structure Accepted (i : ProductInput) : Prop where
  counted : 0 < i.coincidenceMax.toNat + i.coincidenceMin.toNat
  ordered : i.coincidenceMin.toNat ≤ i.coincidenceMax.toNat
  timed : i.integrationMs ≠ 0

variable {cal : Option Calibration} {i : ProductInput} {d : DataProduct} {v : Svc}

theorem compute_ok_iff : (compute cal i d v).1 = .ok ↔ Accepted i := by
  have hsum : toDouble i.coincidenceMax + toDouble i.coincidenceMin ≤ 0 ↔
      ¬ 0 < i.coincidenceMax.toNat + i.coincidenceMin.toNat := by
    rw [not_lt, toDouble, toDouble]
    exact_mod_cast Iff.rfl
  have horder : i.coincidenceMax < i.coincidenceMin ↔
      ¬ i.coincidenceMin.toNat ≤ i.coincidenceMax.toNat := by
    rw [UInt32.lt_iff_toNat_lt, not_le]
  unfold compute
  split
  · rename_i hrefused
    refine iff_of_false (by simp) ?_
    rintro ⟨hcounted, -, htimed⟩
    exact hrefused.elim (fun h => hsum.mp h hcounted) htimed
  rename_i hsome
  rw [not_or, hsum, not_not] at hsome
  split
  · rename_i hrefused
    exact iff_of_false (by simp) fun h => horder.mp hrefused h.ordered
  rename_i hordered
  rw [horder, not_not] at hordered
  refine iff_of_true ?_ ⟨hsome.1, hordered, hsome.2⟩
  cases cal <;> rfl

/-- A refused input gives a product with nothing in it, and leaves the rest as it was. -/
theorem compute_refused (h : ¬ Accepted i) : compute cal i d v = (.errRange, {}, d, v) := by
  rw [← @compute_ok_iff cal i d v] at h
  unfold compute at h ⊢
  split
  · rfl
  split
  · rfl
  · rename_i hsome hordered
    rw [if_neg hsome, if_neg hordered] at h
    cases cal <;> exact absurd rfl h

def Comparable (i : ProductInput) : Prop := i.accidentals ≠ 0 ∧ i.coincidenceMin ≠ 0

def BoundHolds (i : ProductInput) : Prop :=
  (i.coincidenceMax.toNat - i.coincidenceMin.toNat) * i.accidentals.toNat ≤
    2 * i.coincidenceMin.toNat * i.centralPeak.toNat

theorem ratio_of_contrast {a b : ℚ} (hb : 0 < b) (hab : b ≤ a) :
    (a - b) / (a + b) / (1 - (a - b) / (a + b)) = (a - b) / (2 * b) := by
  have hsum : a + b ≠ 0 := by linarith
  have hrest : 1 - (a - b) / (a + b) = 2 * b / (a + b) := by
    field_simp
    ring
  rw [hrest, div_div_div_cancel_right₀ hsum]

theorem contrast_lt_one_iff {a b : ℚ} (hsum : 0 < a + b) : (a - b) / (a + b) < 1 ↔ 0 < b := by
  rw [div_lt_one hsum]
  constructor
  · intro h
    linarith
  · intro h
    linarith

theorem toDouble_pos {n : UInt32} : 0 < toDouble n ↔ n ≠ 0 := by
  rw [toDouble, Nat.cast_pos, Nat.pos_iff_ne_zero]
  exact not_congr (UInt32.toNat_inj (b := 0))

/-- The counts as they enter the ratios. -/
theorem Accepted.doubles (h : Accepted i) : toDouble i.coincidenceMin ≤ toDouble i.coincidenceMax ∧
    0 < toDouble i.coincidenceMax + toDouble i.coincidenceMin := by
  refine ⟨Nat.cast_le.mpr h.ordered, ?_⟩
  rw [toDouble, toDouble]
  exact_mod_cast h.counted

theorem visibility_lt_one_iff (h : Accepted i) : visibility i < 1 ↔ i.coincidenceMin ≠ 0 := by
  rw [visibility, contrast_lt_one_iff h.doubles.2, toDouble_pos]

theorem fromCounts_visibility (i : ProductInput) : (fromCounts i).visibility = visibility i := by
  unfold fromCounts
  dsimp only
  split <;> split <;> rfl

def measured (i : ProductInput) : ℚ :=
  if i.accidentals ≠ 0 then toDouble i.centralPeak / toDouble i.accidentals else 0

theorem fromCounts_consistent (i : ProductInput) : (fromCounts i).consistent = true ↔
    visibility i < 1 ∧ visibility i / (1 - visibility i) ≤ measured i := by
  unfold fromCounts measured
  by_cases hacc : i.accidentals ≠ 0
  · by_cases hlt : visibility i < 1
    · simp [hacc, hlt]
    · simp [hacc, hlt]
  · by_cases hlt : visibility i < 1
    · simp [hacc, hlt]
    · simp [hacc, hlt]

/-- Where the bound is claimed, it is compared with the measured ratio, or with zero. -/
theorem consistent_iff (h : Accepted i) : (fromCounts i).consistent = true ↔ i.coincidenceMin ≠ 0 ∧
    (toDouble i.coincidenceMax - toDouble i.coincidenceMin) / (2 * toDouble i.coincidenceMin) ≤
      measured i := by
  rw [fromCounts_consistent, visibility_lt_one_iff h]
  refine and_congr_right fun hmin => ?_
  rw [visibility, ratio_of_contrast (toDouble_pos.mpr hmin) h.doubles.1]

/-- With accidentals the comparison is that of whole numbers. -/
theorem consistent_of_accidentals (h : Accepted i) (hacc : i.accidentals ≠ 0) :
    (fromCounts i).consistent = true ↔ i.coincidenceMin ≠ 0 ∧ BoundHolds i := by
  rw [consistent_iff h]
  refine and_congr_right fun hmin => ?_
  have hmin' : 0 < 2 * toDouble i.coincidenceMin := mul_pos two_pos (toDouble_pos.mpr hmin)
  rw [measured, if_pos hacc, div_le_div_iff₀ hmin' (toDouble_pos.mpr hacc), BoundHolds, toDouble, toDouble,
    toDouble, toDouble, ← Nat.cast_sub h.ordered, Nat.mul_comm (2 * _)]
  exact_mod_cast Iff.rfl

/-- Without accidentals the bound is compared with zero, and holds where there is no contrast. -/
theorem consistent_of_no_accidentals (h : Accepted i) (hacc : i.accidentals = 0) :
    (fromCounts i).consistent = true ↔ i.coincidenceMax = i.coincidenceMin := by
  rw [consistent_iff h, measured, if_neg (not_not.mpr hacc)]
  constructor
  · rintro ⟨hmin, hbound⟩
    have hpos := toDouble_pos.mpr hmin
    rw [div_le_iff₀ (by linarith), zero_mul, sub_nonpos] at hbound
    have hle : i.coincidenceMax.toNat ≤ i.coincidenceMin.toNat := Nat.cast_le.mp hbound
    exact UInt32.toNat_inj.mp (le_antisymm hle h.ordered)
  · intro hsame
    refine ⟨fun hmin => ?_, ?_⟩
    · have hcounted := h.counted
      rw [hsame, hmin] at hcounted
      exact lt_irrefl _ hcounted
    · rw [hsame, sub_self, zero_div]

theorem fromCalibration_consistent (cal : Calibration) (i : ProductInput) (out : Product) :
    (fromCalibration cal i out).consistent = out.consistent := by
  unfold fromCalibration
  dsimp only
  split
  · rfl
  · split <;> split <;> rfl

/-- What an accepted input leads to. -/
theorem compute_of_accepted (h : Accepted i) :
    (compute cal i d v).2.1.consistent = (fromCounts i).consistent ∧
      (compute cal i d v).2.2 =
        noteInconsistent i (fromCounts i) { d with computed := d.computed + 1 } v := by
  have hok := (@compute_ok_iff cal i d v).mpr h
  unfold compute at hok ⊢
  split
  · rename_i hrefused
    rw [if_pos hrefused] at hok
    cases hok
  rename_i hsome
  split
  · rename_i hrefused
    rw [if_neg hsome, if_pos hrefused] at hok
    cases hok
  · cases cal with
    | none => exact ⟨rfl, rfl⟩
    | some cal => exact ⟨fromCalibration_consistent .., rfl⟩

/-- The product is marked consistent where the comparison can be made and holds, and a fault is reported
where it can be made and fails. -/
structure Judged (i : ProductInput) (v : Svc) (r : Status × Product × DataProduct × Svc) : Prop where
  consistent : r.2.1.consistent = true ↔ Comparable i ∧ BoundHolds i
  reported : (∃ detail, r.2.2.2 = v.report .dataProduct detail) ↔ Comparable i ∧ ¬ BoundHolds i
  otherwise : ¬ (Comparable i ∧ ¬ BoundHolds i) → r.2.2.2 = v

theorem report_ne (id : FaultId) (detail : UInt32) (v : Svc) : v ≠ v.report id detail := by
  intro h
  have hlength := congrArg (fun v => v.trace.length) h
  simp [Svc.report] at hlength

/-- The fault is reported as it ought to be whether there are accidentals or not. -/
theorem reported_iff (h : Accepted i) :
    (Comparable i ∧ ¬ BoundHolds i → ∃ detail, (compute cal i d v).2.2.2 = v.report .dataProduct detail) ∧
      (¬ (Comparable i ∧ ¬ BoundHolds i) → (compute cal i d v).2.2.2 = v) := by
  have hiff : (i.accidentals ≠ 0 ∧ (fromCounts i).visibility < 1 ∧ (fromCounts i).consistent = false) ↔
      Comparable i ∧ ¬ BoundHolds i := by
    rw [Comparable, and_assoc, fromCounts_visibility, visibility_lt_one_iff h]
    refine and_congr_right fun hacc => and_congr_right fun hmin => ?_
    rw [← Bool.not_eq_true, consistent_of_accidentals h hacc, and_iff_right hmin]
  rw [(compute_of_accepted h).2, noteInconsistent]
  constructor
  · intro hfails
    rw [if_pos (hiff.mpr hfails)]
    exact ⟨_, rfl⟩
  · intro hnot
    rw [if_neg (mt hiff.mp hnot)]

/-- An accepted input is judged as it ought to be if there are accidentals, or at least some contrast. -/
theorem compute_judged_iff (cal : Option Calibration) {i : ProductInput} (h : Accepted i) (d : DataProduct)
    (v : Svc) : Judged i v (compute cal i d v) ↔
      (i.accidentals ≠ 0 ∨ i.coincidenceMax ≠ i.coincidenceMin) := by
  obtain ⟨hconsistent, -⟩ := @compute_of_accepted cal i d v h
  obtain ⟨hfails, hnot⟩ := @reported_iff cal i d v h
  constructor
  · intro hjudged
    by_contra hneither
    obtain ⟨hacc, hsame⟩ := not_or.mp hneither
    have hmarked := (consistent_of_no_accidentals h (not_not.mp hacc)).mpr (not_not.mp hsame)
    rw [← hconsistent, hjudged.consistent] at hmarked
    exact hacc hmarked.1.1
  · intro hsome
    refine ⟨?_, ⟨?_, hfails⟩, hnot⟩
    · rw [hconsistent]
      by_cases hacc : i.accidentals = 0
      · rw [consistent_of_no_accidentals h hacc]
        refine iff_of_false (hsome.resolve_left (not_not.mpr hacc)) ?_
        rintro ⟨⟨hcomparable, -⟩, -⟩
        exact hcomparable hacc
      · rw [consistent_of_accidentals h hacc, Comparable, and_assoc, and_iff_right hacc]
    · rintro ⟨detail, hreport⟩
      by_contra hnone
      exact report_ne _ _ _ ((hnot hnone).symm.trans hreport)

def flatCounts : ProductInput := { coincidenceMax := 9000, coincidenceMin := 9000, centralPeak := 8000 }

theorem flatCounts_marked :
    (compute none flatCounts {} {}).1 = .ok ∧ ¬ Comparable flatCounts ∧
      (compute none flatCounts {} {}).2.1.consistent = true ∧
      ¬ Judged flatCounts {} (compute none flatCounts {} {}) := by
  have haccepted : Accepted flatCounts := ⟨by decide, by decide, by decide⟩
  have hnot : ¬ Comparable flatCounts := fun h => h.1 rfl
  have hmarked : (compute none flatCounts {} {}).2.1.consistent = true := by
    rw [(compute_of_accepted haccepted).1, consistent_of_no_accidentals haccepted rfl]
    rfl
  exact ⟨compute_ok_iff.mpr haccepted, hnot, hmarked, fun h => hnot (h.consistent.mp hmarked).1⟩

def lowRatio : ProductInput :=
  { coincidenceMax := 9000, coincidenceMin := 1000, centralPeak := 8000, accidentals := 4000 }

theorem lowRatio_judged : Judged lowRatio {} (compute none lowRatio {} {}) :=
  (compute_judged_iff none (⟨by decide, by decide, by decide⟩ : Accepted lowRatio) {} {}).mpr
    (.inl (by decide))

end DataProduct

end QiranFirmware
