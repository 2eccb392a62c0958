import Mathlib.Algebra.Order.Field.Basic
import Mathlib.Data.Rat.Cast.Order
import Mathlib.Tactic.Linarith
import Mathlib.Tactic.Ring
import QiranFirmware.Svc.CalibrationSet

/-! # The calibration curve

`svc_config_li_expected_nw` of `svc_config.c`: the power at a current, by linear interpolation between
two points of the curve. Nothing orders the points of a calibration that is accepted. The search stops
at the first two neighbours whose currents bracket the one asked for, however the others lie.
-/
namespace QiranFirmware

open Machine

namespace Calibration

def point (cal : Calibration) (i : ℕ) : CalLiPoint := if h : i < 16 then cal.li ⟨i, h⟩ else {}

end Calibration

namespace CalLiPoint

/-- The power written for a current in the segment, as the body of the loop computes it. -/
def between (lo hi : CalLiPoint) (currentUa : UInt32) : UInt32 :=
  let span := hi.currentUa - lo.currentUa
  if span = 0 then lo.powerNw
  else
    let rise := (hi.powerNw - lo.powerNw).toUInt64
    let run := (currentUa - lo.currentUa).toUInt64
    lo.powerNw + (rise * run / span.toUInt64).toUInt32

def line (lo hi : CalLiPoint) (currentUa : UInt32) : ℚ :=
  lo.powerNw.toNat + ((hi.powerNw.toNat : ℚ) - lo.powerNw.toNat) *
    (currentUa.toNat - lo.currentUa.toNat) / (hi.currentUa.toNat - lo.currentUa.toNat)

/-- Within one unit of the line, and between the powers of the two points. -/
structure Interpolated (lo hi : CalLiPoint) (currentUa power : UInt32) : Prop where
  near : |(power.toNat : ℚ) - line lo hi currentUa| ≤ 1
  least : lo.powerNw.toNat ≤ power.toNat ∨ hi.powerNw.toNat ≤ power.toNat
  most : power.toNat ≤ lo.powerNw.toNat ∨ power.toNat ≤ hi.powerNw.toNat

/-- The power does not fall over the segment, or the current is that of one of its ends; or else it is
next to that of the lower end, and the fall is less than the span but makes up 2^32 with it. -/
def Followed (lo hi : CalLiPoint) (currentUa : UInt32) : Prop :=
  lo.powerNw.toNat ≤ hi.powerNw.toNat ∨ currentUa = lo.currentUa ∨ currentUa = hi.currentUa ∨
    currentUa.toNat = lo.currentUa.toNat + 1 ∧
      lo.powerNw.toNat - hi.powerNw.toNat ≤ hi.currentUa.toNat - lo.currentUa.toNat ∧
      2 ^ 32 < lo.powerNw.toNat - hi.powerNw.toNat + (hi.currentUa.toNat - lo.currentUa.toNat)

/-- What the segment computes, in numbers that do not wrap. -/
theorem toNat_between {lo hi : CalLiPoint} {currentUa : UInt32} (hspan : lo.currentUa < hi.currentUa)
    (hlo : lo.currentUa ≤ currentUa) :
    (between lo hi currentUa).toNat = (lo.powerNw.toNat + (hi.powerNw - lo.powerNw).toNat *
      (currentUa.toNat - lo.currentUa.toNat) / (hi.currentUa.toNat - lo.currentUa.toNat)) % 2 ^ 32 := by
  have hrun : (currentUa - lo.currentUa).toNat = currentUa.toNat - lo.currentUa.toNat :=
    UInt32.toNat_sub_of_le _ _ hlo
  have hwide : (hi.currentUa - lo.currentUa).toNat = hi.currentUa.toNat - lo.currentUa.toNat :=
    UInt32.toNat_sub_of_le _ _ (UInt32.le_of_lt hspan)
  have hlt := UInt32.lt_iff_toNat_lt.mp hspan
  have hne : hi.currentUa - lo.currentUa ≠ 0 := by
    intro h
    rw [h, UInt32.toNat_zero] at hwide
    omega
  have hproduct : (hi.powerNw - lo.powerNw).toNat * (currentUa - lo.currentUa).toNat < 2 ^ 64 :=
    calc (hi.powerNw - lo.powerNw).toNat * (currentUa - lo.currentUa).toNat
        < 2 ^ 32 * 2 ^ 32 := Nat.mul_lt_mul'' (UInt32.toNat_lt _) (UInt32.toNat_lt _)
      _ = 2 ^ 64 := rfl
  rw [hrun] at hproduct
  rw [between]
  simp only [hne, ↓reduceIte, UInt32.toNat_add, UInt64.toNat_toUInt32, UInt64.toNat_div,
    UInt64.toNat_mul, UInt32.toNat_toUInt64, hrun, hwide, Nat.add_mod_mod]
  rw [Nat.mod_eq_of_lt hproduct]

/-- Being within one unit of the line, in whole numbers. -/
theorem near_line_iff {lo hi : CalLiPoint} {currentUa power : UInt32}
    (hspan : lo.currentUa < hi.currentUa) (hlo : lo.currentUa ≤ currentUa) :
    |(power.toNat : ℚ) - line lo hi currentUa| ≤ 1 ↔
      |((power.toNat : ℤ) - lo.powerNw.toNat) * (hi.currentUa.toNat - lo.currentUa.toNat : ℕ) -
        ((hi.powerNw.toNat : ℤ) - lo.powerNw.toNat) * (currentUa.toNat - lo.currentUa.toNat : ℕ)| ≤
        (hi.currentUa.toNat - lo.currentUa.toNat : ℕ) := by
  have hlt := UInt32.lt_iff_toNat_lt.mp hspan
  have hle := UInt32.le_iff_toNat_le.mp hlo
  have hwide : (0 : ℚ) < hi.currentUa.toNat - lo.currentUa.toNat := by
    rw [sub_pos]
    exact_mod_cast hlt
  have hdiff : (power.toNat : ℚ) - line lo hi currentUa =
      (((power.toNat : ℚ) - lo.powerNw.toNat) * (hi.currentUa.toNat - lo.currentUa.toNat) -
        ((hi.powerNw.toNat : ℚ) - lo.powerNw.toNat) * (currentUa.toNat - lo.currentUa.toNat)) /
        (hi.currentUa.toNat - lo.currentUa.toNat) := by
    rw [line, sub_div, mul_div_cancel_right₀ _ hwide.ne', sub_add_eq_sub_sub]
  rw [hdiff, abs_div, abs_of_pos hwide, div_le_one hwide, Nat.cast_sub hlt.le, Nat.cast_sub hle]
  exact_mod_cast Iff.rfl

theorem rising_spec {a b run span p : ℕ} (hab : a ≤ b) (hb : b < 2 ^ 32) (hspan : 0 < span)
    (hrun : run ≤ span) (hp : p = (a + (b - a) * run / span) % 2 ^ 32) :
    |((p : ℤ) - a) * span - ((b : ℤ) - a) * run| ≤ span ∧ a ≤ p ∧ p ≤ b := by
  obtain ⟨d, rfl⟩ := Nat.exists_eq_add_of_le hab
  rw [Nat.add_sub_cancel_left] at hp
  have hq : d * run / span ≤ d := Nat.div_le_of_le_mul (by
    rw [Nat.mul_comm span]
    exact Nat.mul_le_mul_left d hrun)
  rw [Nat.mod_eq_of_lt (by omega)] at hp
  have hfloor := Nat.div_add_mod (d * run) span
  have hrest := Nat.mod_lt (d * run) hspan
  refine ⟨?_, hp ▸ Nat.le_add_right .., hp ▸ Nat.add_le_add_left hq a⟩
  have hdiff : ((p : ℤ) - a) * span - (((a + d : ℕ) : ℤ) - a) * run = -((d * run % span : ℕ) : ℤ) := by
    have hcast : (span : ℤ) * (d * run / span : ℕ) + (d * run % span : ℕ) = d * run := by
      exact_mod_cast hfloor
    rw [hp]
    push_cast at hcast ⊢
    linarith
  rw [hdiff, abs_neg, Nat.abs_cast]
  exact_mod_cast hrest.le

/-- A falling segment is not followed strictly inside it, but for the one case in which the quotient is
zero and the fall is small. -/
theorem falling_iff {a b run span p : ℕ} (hab : b < a) (ha : a < 2 ^ 32) (hpos : 0 < run)
    (hrun : run < span) (hspan : span < 2 ^ 32)
    (hp : p = (a + (2 ^ 32 - (a - b)) * run / span) % 2 ^ 32) :
    (|((p : ℤ) - a) * span - ((b : ℤ) - a) * run| ≤ span ∧ (a ≤ p ∨ b ≤ p) ∧ (p ≤ a ∨ p ≤ b)) ↔
      run = 1 ∧ a - b ≤ span ∧ 2 ^ 32 < a - b + span := by
  obtain ⟨d, rfl⟩ := Nat.exists_eq_add_of_lt hab
  have hfall : b + d + 1 - b = d + 1 := by omega
  rw [hfall] at hp ⊢
  obtain ⟨rise, hrise⟩ : ∃ rise, rise = 2 ^ 32 - (d + 1) := ⟨_, rfl⟩
  obtain ⟨q, hq⟩ : ∃ q, q = rise * run / span := ⟨_, rfl⟩
  rw [← hrise, ← hq] at hp
  have hqlt : q < rise := by
    rw [hq]
    exact Nat.div_lt_of_lt_mul (by
      rw [Nat.mul_comm span]
      exact Nat.mul_lt_mul_of_pos_left hrun (by omega))
  -- at the power of its lower end the segment is off the line by its fall over the run
  have hflat (hpa : p = b + d + 1) :
      |((p : ℤ) - (b + d + 1 : ℕ)) * span - ((b : ℤ) - (b + d + 1 : ℕ)) * run| ≤ span ↔
        (d + 1) * run ≤ span := by
    have hcast : ((p : ℤ) - (b + d + 1 : ℕ)) * span - ((b : ℤ) - (b + d + 1 : ℕ)) * run =
        ((d + 1) * run : ℕ) := by
      rw [hpa]
      push_cast
      ring
    rw [hcast, Nat.abs_cast]
    exact Int.ofNat_le
  have hpa (hzero : q = 0) : p = b + d + 1 := by
    rw [hp, hzero]
    exact Nat.mod_eq_of_lt ha
  constructor
  · rintro ⟨hnear, hleast, hmost⟩
    have hzero : q = 0 := by
      rcases Nat.lt_or_ge (b + d + 1 + q) (2 ^ 32) with hlt | hge
      · rw [Nat.mod_eq_of_lt hlt] at hp
        omega
      · rw [Nat.mod_eq_sub_mod hge, Nat.mod_eq_of_lt (by omega)] at hp
        omega
    have hsmall : rise * run < span := by
      rw [hq] at hzero
      exact (Nat.div_eq_zero_iff.mp hzero).resolve_left (by omega)
    have hdrop := (hflat (hpa hzero)).mp hnear
    have hwhole : 2 ^ 32 * run < 2 * span := by
      calc 2 ^ 32 * run = rise * run + (d + 1) * run := by rw [← Nat.add_mul]; congr 1; omega
        _ < 2 * span := by omega
    have hone : run = 1 := by omega
    subst hone
    omega
  · rintro ⟨rfl, hdrop, hwhole⟩
    have hzero : q = 0 := by
      rw [hq, Nat.mul_one]
      exact Nat.div_eq_of_lt (by omega)
    have hsame := hpa hzero
    exact ⟨(hflat hsame).mpr (by omega), .inl hsame.ge, .inl hsame.le⟩

theorem between_lo (lo hi : CalLiPoint) : between lo hi lo.currentUa = lo.powerNw := by
  unfold between
  dsimp only
  split
  · rfl
  · simp

theorem between_hi {lo hi : CalLiPoint} (hspan : lo.currentUa < hi.currentUa) :
    between lo hi hi.currentUa = hi.powerNw := by
  have hlt := UInt32.lt_iff_toNat_lt.mp hspan
  apply UInt32.toNat_inj.mp
  rw [toNat_between hspan (UInt32.le_of_lt hspan), Nat.mul_div_cancel _ (by omega),
    ← UInt32.toNat_add]
  congr 1
  grind

theorem line_lo (lo hi : CalLiPoint) : line lo hi lo.currentUa = lo.powerNw.toNat := by
  rw [line, sub_self, mul_zero, zero_div, add_zero]

theorem line_hi {lo hi : CalLiPoint} (hspan : lo.currentUa < hi.currentUa) :
    line lo hi hi.currentUa = hi.powerNw.toNat := by
  have hlt := UInt32.lt_iff_toNat_lt.mp hspan
  have hwide : (hi.currentUa.toNat : ℚ) - lo.currentUa.toNat ≠ 0 := by
    rw [sub_ne_zero]
    exact_mod_cast hlt.ne'
  rw [line, mul_div_cancel_right₀ _ hwide, add_sub_cancel]

/-- The segment is followed exactly on the condition that says so. -/
theorem interpolated_iff {lo hi : CalLiPoint} {currentUa : UInt32} (hlo : lo.currentUa ≤ currentUa)
    (hhi : currentUa ≤ hi.currentUa) :
    Interpolated lo hi currentUa (between lo hi currentUa) ↔ Followed lo hi currentUa := by
  by_cases hatlo : currentUa = lo.currentUa
  · subst hatlo
    refine iff_of_true ?_ (.inr (.inl rfl))
    rw [between_lo]
    refine ⟨?_, .inl (Nat.le_refl _), .inl (Nat.le_refl _)⟩
    rw [line_lo, sub_self, abs_zero]
    exact zero_le_one
  have hpos : lo.currentUa < currentUa := UInt32.lt_of_le_of_ne hlo (Ne.symm hatlo)
  have hspan : lo.currentUa < hi.currentUa := UInt32.lt_of_lt_of_le hpos hhi
  by_cases hathi : currentUa = hi.currentUa
  · subst hathi
    refine iff_of_true ?_ (.inr (.inr (.inl rfl)))
    rw [between_hi hspan]
    refine ⟨?_, .inr (Nat.le_refl _), .inr (Nat.le_refl _)⟩
    rw [line_hi hspan, sub_self, abs_zero]
    exact zero_le_one
  have hloN := UInt32.lt_iff_toNat_lt.mp hpos
  have hhiN := UInt32.lt_iff_toNat_lt.mp (UInt32.lt_of_le_of_ne hhi hathi)
  have hmax := hi.currentUa.toNat_lt
  have hvalue := toNat_between hspan hlo
  have hcases : Interpolated lo hi currentUa (between lo hi currentUa) ↔ _ ∧ _ ∧ _ :=
    ⟨fun h => ⟨h.near, h.least, h.most⟩, fun h => ⟨h.1, h.2.1, h.2.2⟩⟩
  rw [hcases, near_line_iff hspan hlo, Followed, or_iff_right hatlo, or_iff_right hathi]
  obtain ⟨run, hrun⟩ : ∃ run, run = currentUa.toNat - lo.currentUa.toNat := ⟨_, rfl⟩
  obtain ⟨span, hwide⟩ : ∃ span, span = hi.currentUa.toNat - lo.currentUa.toNat := ⟨_, rfl⟩
  rw [← hrun, ← hwide] at hvalue ⊢
  by_cases hrises : lo.powerNw.toNat ≤ hi.powerNw.toNat
  · rw [UInt32.toNat_sub_of_le _ _ (UInt32.le_iff_toNat_le.mpr hrises)] at hvalue
    obtain ⟨hnear, hleast, hmost⟩ :=
      rising_spec hrises hi.powerNw.toNat_lt (by omega) (by omega) hvalue
    exact iff_of_true ⟨hnear, .inl hleast, .inr hmost⟩ (.inl hrises)
  · have hwrap : (hi.powerNw - lo.powerNw).toNat = 2 ^ 32 - (lo.powerNw.toNat - hi.powerNw.toNat) := by
      have hmaxp := lo.powerNw.toNat_lt
      rw [UInt32.toNat_sub]
      omega
    rw [hwrap] at hvalue
    rw [or_iff_right hrises, falling_iff (Nat.not_le.mp hrises) lo.powerNw.toNat_lt (by omega)
      (by omega) (by omega) hvalue]
    refine and_congr_left fun _ => ?_
    omega

end CalLiPoint

namespace Configuration

/-- The loop of `svc_config_li_expected_nw`, with the points still to be looked at. -/
def searchCurve (cal : Calibration) (currentUa : UInt32) : ℕ → ℕ → Except Status UInt32
  | 0, _ => .error .errRange
  | n + 1, i =>
    if (cal.point i).currentUa < currentUa then searchCurve cal currentUa n (i + 1)
    else .ok ((cal.point (i - 1)).between (cal.point i) currentUa)

def liExpectedNw (s : Configuration) (currentUa : UInt32) : Except Status UInt32 :=
  if s.calValid = false ∨ s.cal.liCount < 2 then .error .errUnsupported
  else if currentUa < (s.cal.point 0).currentUa ∨
      (s.cal.point (s.cal.liCount - 1).toNat).currentUa < currentUa then .error .errRange
  else searchCurve s.cal currentUa (s.cal.liCount.toNat - 1) 1

/-- The points before and at `i` are the first neighbours whose currents bracket the one asked for. -/
structure FirstBracket (cal : Calibration) (currentUa : UInt32) (i : ℕ) : Prop where
  pos : 1 ≤ i
  lt : i < cal.liCount.toNat
  lo : (cal.point (i - 1)).currentUa ≤ currentUa
  hi : currentUa ≤ (cal.point i).currentUa
  first : ∀ j, 1 ≤ j → j < i → ¬ ((cal.point (j - 1)).currentUa ≤ currentUa ∧
    currentUa ≤ (cal.point j).currentUa)

theorem FirstBracket.unique {cal : Calibration} {currentUa : UInt32} {i j : ℕ}
    (hi : FirstBracket cal currentUa i) (hj : FirstBracket cal currentUa j) : i = j := by
  rcases Nat.lt_trichotomy i j with hlt | heq | hlt
  · exact absurd ⟨hi.lo, hi.hi⟩ (hj.first i hi.pos hlt)
  · exact heq
  · exact absurd ⟨hj.lo, hj.hi⟩ (hi.first j hj.pos hlt)

theorem searchCurve_eq {cal : Calibration} {currentUa : UInt32} {n i k : ℕ} (hik : i ≤ k)
    (hkn : k < i + n) (hskip : ∀ j, i ≤ j → j < k → (cal.point j).currentUa < currentUa)
    (hstop : ¬ (cal.point k).currentUa < currentUa) : searchCurve cal currentUa n i =
      .ok ((cal.point (k - 1)).between (cal.point k) currentUa) := by
  induction n generalizing i with
  | zero => omega
  | succ n ih =>
    rw [searchCurve]
    rcases Nat.eq_or_lt_of_le hik with rfl | hlt
    · rw [if_neg hstop]
    · rw [if_pos (hskip i (Nat.le_refl i) hlt)]
      exact ih hlt (by omega) fun j hj => hskip j (Nat.le_of_succ_le hj)

/-- A current within the ends of the curve is bracketed, and the search passes over no more than it has to. -/
theorem exists_firstBracket {cal : Calibration} {currentUa : UInt32} (htwo : 2 ≤ cal.liCount.toNat)
    (hlo : (cal.point 0).currentUa ≤ currentUa)
    (hhi : currentUa ≤ (cal.point (cal.liCount.toNat - 1)).currentUa) :
    ∃ k, FirstBracket cal currentUa k ∧ ∀ j, 1 ≤ j → j < k → (cal.point j).currentUa < currentUa := by
  have hex : ∃ k, 1 ≤ k ∧ k < cal.liCount.toNat ∧ ¬ (cal.point k).currentUa < currentUa :=
    ⟨cal.liCount.toNat - 1, by omega, by omega, UInt32.not_lt.mpr hhi⟩
  classical
  obtain ⟨hpos, hlt, hstop⟩ := Nat.find_spec hex
  have hskip (j : ℕ) (hj : 1 ≤ j) (hjk : j < Nat.find hex) : (cal.point j).currentUa < currentUa := by
    by_contra hnot
    exact Nat.find_min hex hjk ⟨hj, by omega, hnot⟩
  refine ⟨Nat.find hex, ⟨hpos, hlt, ?_, UInt32.not_lt.mp hstop, ?_⟩, hskip⟩
  · rcases Nat.eq_or_lt_of_le hpos with hone | hone
    · rw [← hone]
      exact hlo
    · exact UInt32.le_of_lt (hskip _ (by omega) (by omega))
  · rintro j hj hjk ⟨-, hhi⟩
    exact UInt32.not_lt.mpr hhi (hskip j hj hjk)

def Brackets (cal : Calibration) (currentUa : UInt32) (i : ℕ) : Prop :=
  1 ≤ i ∧ i < cal.liCount.toNat ∧
    ((cal.point (i - 1)).currentUa ≤ currentUa ∧ currentUa ≤ (cal.point i).currentUa ∨
      (cal.point i).currentUa ≤ currentUa ∧ currentUa ≤ (cal.point (i - 1)).currentUa)

theorem FirstBracket.brackets {cal : Calibration} {currentUa : UInt32} {i : ℕ}
    (h : FirstBracket cal currentUa i) : Brackets cal currentUa i := ⟨h.pos, h.lt, .inl ⟨h.lo, h.hi⟩⟩

def OnCurve (s : Configuration) (currentUa : UInt32) : Prop :=
  ∃ i power, Brackets s.cal currentUa i ∧ liExpectedNw s currentUa = .ok power ∧
    CalLiPoint.Interpolated (s.cal.point (i - 1)) (s.cal.point i) currentUa power

def FollowsCurve (s : Configuration) (currentUa : UInt32) : Prop :=
  ∃ i power, FirstBracket s.cal currentUa i ∧ liExpectedNw s currentUa = .ok power ∧
    CalLiPoint.Interpolated (s.cal.point (i - 1)) (s.cal.point i) currentUa power

theorem liExpectedNw_eq {s : Configuration} {currentUa : UInt32} (hvalid : s.calValid = true)
    (htwo : 2 ≤ s.cal.liCount) (hlo : (s.cal.point 0).currentUa ≤ currentUa)
    (hhi : currentUa ≤ (s.cal.point (s.cal.liCount - 1).toNat).currentUa) :
    ∃ i, FirstBracket s.cal currentUa i ∧ liExpectedNw s currentUa =
      .ok ((s.cal.point (i - 1)).between (s.cal.point i) currentUa) := by
  have hcount := UInt32.le_iff_toNat_le.mp htwo
  have hlast : (s.cal.liCount - 1).toNat = s.cal.liCount.toNat - 1 :=
    UInt32.toNat_sub_of_le _ _ (UInt32.le_trans (by decide) htwo)
  have htwoN : 2 ≤ s.cal.liCount.toNat := hcount
  have hhi' := hhi
  rw [hlast] at hhi'
  obtain ⟨i, hfirst, hskip⟩ := exists_firstBracket htwoN hlo hhi'
  refine ⟨i, hfirst, ?_⟩
  have hready : ¬ (s.calValid = false ∨ s.cal.liCount < 2) := by
    rw [hvalid]
    exact not_or_intro Bool.noConfusion (UInt32.not_lt.mpr htwo)
  have hinside : ¬ (currentUa < (s.cal.point 0).currentUa ∨
      (s.cal.point (s.cal.liCount - 1).toNat).currentUa < currentUa) :=
    not_or_intro (UInt32.not_lt.mpr hlo) (UInt32.not_lt.mpr hhi)
  rw [liExpectedNw, if_neg hready, if_neg hinside]
  have hlt := hfirst.lt
  exact searchCurve_eq hfirst.pos (by omega) hskip (UInt32.not_lt.mpr hfirst.hi)

/-- A current within the ends of the curve always gets a power, from the first two adjacent points that
bracket it, and their currents are subtracted the right way round. The power is on the line between them
exactly where the segment is followed; where no other two points bracket the current, it is on the curve
at all exactly then. -/
theorem follows_curve_iff {s : Configuration} {currentUa : UInt32} (hvalid : s.calValid = true)
    (htwo : 2 ≤ s.cal.liCount) (hlo : (s.cal.point 0).currentUa ≤ currentUa)
    (hhi : currentUa ≤ (s.cal.point (s.cal.liCount - 1).toNat).currentUa) :
    ∃ i, FirstBracket s.cal currentUa i ∧
      liExpectedNw s currentUa = .ok ((s.cal.point (i - 1)).between (s.cal.point i) currentUa) ∧
      (FollowsCurve s currentUa ↔
        CalLiPoint.Followed (s.cal.point (i - 1)) (s.cal.point i) currentUa) ∧
      ((∀ j, Brackets s.cal currentUa j → j = i) → (OnCurve s currentUa ↔
        CalLiPoint.Followed (s.cal.point (i - 1)) (s.cal.point i) currentUa)) := by
  obtain ⟨i, hfirst, hpower⟩ := liExpectedNw_eq hvalid htwo hlo hhi
  have hexact := CalLiPoint.interpolated_iff hfirst.lo hfirst.hi
  refine ⟨i, hfirst, hpower, ?_, fun honly => ?_⟩
  · rw [← hexact]
    constructor
    · rintro ⟨j, power, hj, hst, hinter⟩
      obtain rfl := hj.unique hfirst
      obtain rfl := Except.ok.inj (hpower.symm.trans hst)
      exact hinter
    · exact fun hinter => ⟨i, _, hfirst, hpower, hinter⟩
  · rw [← hexact]
    constructor
    · rintro ⟨j, power, hj, hst, hinter⟩
      obtain rfl := honly j hj
      obtain rfl := Except.ok.inj (hpower.symm.trans hst)
      exact hinter
    · exact fun hinter => ⟨i, _, hfirst.brackets, hpower, hinter⟩

def fallingCurve : Configuration := (calibrationSet (some
  { liCount := 2, li := fun i => if i = 0 then ⟨0, 10⟩ else ⟨2, 0⟩ }) init).2

theorem falling_curve_bracket :
    ∃ i, FirstBracket fallingCurve.cal 1 i ∧
      liExpectedNw fallingCurve 1 =
        .ok ((fallingCurve.cal.point (i - 1)).between (fallingCurve.cal.point i) 1) ∧
      (FollowsCurve fallingCurve 1 ↔
        CalLiPoint.Followed (fallingCurve.cal.point (i - 1)) (fallingCurve.cal.point i) 1) ∧
      ((∀ j, Brackets fallingCurve.cal 1 j → j = i) → (OnCurve fallingCurve 1 ↔
        CalLiPoint.Followed (fallingCurve.cal.point (i - 1)) (fallingCurve.cal.point i) 1)) :=
  follows_curve_iff rfl (by decide) (by decide) (by decide)

/-- Halfway along it the power given is 2^31 + 5, where the curve has 5. -/
theorem falling_curve_not_followed :
    ¬ (∀ s currentUa, s.calValid = true → 2 ≤ s.cal.liCount → s.cal.liCount ≤ Calibration.liPoints →
      (s.cal.point 0).currentUa ≤ currentUa →
      currentUa ≤ (s.cal.point (s.cal.liCount - 1).toNat).currentUa → OnCurve s currentUa) ∧
    liExpectedNw fallingCurve 1 = .ok 2147483653 := by
  have hpower : liExpectedNw fallingCurve 1 = .ok 2147483653 := by rfl
  refine ⟨?_, hpower⟩
  intro h
  obtain ⟨i, power, ⟨hpos, hlt, -⟩, hst, hinter⟩ :=
    h fallingCurve 1 rfl (by decide) (by decide) (by decide) (by decide)
  have hcount : fallingCurve.cal.liCount.toNat = 2 := rfl
  obtain rfl : i = 1 := by omega
  obtain rfl := Except.ok.inj (hpower.symm.trans hst)
  have hmost := hinter.most
  revert hmost
  decide

end Configuration

end QiranFirmware
