import QiranFirmware.Svc.ConfigLoad

/-! # Supplying a calibration

`svc_config_calibration_set` of `svc_config.c`. The contents offered get their magic, version and
checksum, are taken as the calibration in force, and are then written to the storage.
-/
namespace QiranFirmware

open Machine

namespace Calibration

def pointWords (cal : Calibration) : List UInt32 :=
  (List.finRange 16).flatMap fun i => [(cal.li i).currentUa, (cal.li i).powerNw]

def restWords (cal : Calibration) : List UInt32 :=
  [(cal.dliSetpointUk 0).toUInt32, (cal.dliSetpointUk 1).toUInt32,
   cal.branchEfficiencyPpm 0, cal.branchEfficiencyPpm 1,
   cal.darkCountBaselineCps 0, cal.darkCountBaselineCps 1,
   cal.spectralBandwidthPm, cal.pvsAmplitude, cal.pvsLinewidthKhz, cal.pvsNoiseFloor]

def headWords (cal : Calibration) : List UInt32 :=
  [cal.magic, cal.version, cal.liCount, cal.reserved] ++ cal.pointWords ++ cal.restWords

def headBytes (cal : Calibration) : List UInt8 := cal.headWords.flatMap leBytes

def bytes (cal : Calibration) : List UInt8 := cal.headBytes ++ leBytes cal.crc

def updated (cal : Calibration) : Calibration :=
  let cal := { cal with magic := calMagic, version := calVersion }
  { cal with crc := Crc.crc32 cal.headBytes }

end Calibration

namespace Configuration

open Calibration

def install (cal : Calibration) (s : Configuration) : Configuration :=
  { s with
    cal := cal.updated
    calValid := true
    params := { s.params with changes := s.params.changes + 1 } }

/-- `svc_config_calibration_set`, where no calibration offered is the null pointer. -/
def calibrationSet (cal : Option Calibration) (s : Configuration) : Status × Configuration :=
  match cal with
  | none => (.errParam, s)
  | some cal =>
    if liPoints < cal.liCount then (.errRange, s)
    else
      match s.params.storage with
      | none => (.ok, s.install cal)
      | some storage => (storage.write offsetCal cal.updated.bytes, s.install cal)

/-- A calibration is refused for itself, and nothing changes; or it is installed, and the answer is
that of the write. -/
theorem calibrationSet_cases (cal : Option Calibration) (s : Configuration) :
    (calibrationSet cal s).1 ≠ .ok ∧ (calibrationSet cal s).2 = s ∧
      (∀ c, cal = some c → liPoints < c.liCount) ∨
    ∃ c, cal = some c ∧ ¬ liPoints < c.liCount ∧ (calibrationSet cal s).2 = s.install c ∧
      (calibrationSet cal s).1 = match s.params.storage with
        | none => .ok
        | some storage => storage.write offsetCal c.updated.bytes := by
  cases cal with
  | none => exact .inl ⟨by simp [calibrationSet], rfl, by simp⟩
  | some c =>
    unfold calibrationSet
    by_cases hcount : liPoints < c.liCount
    · left
      simp [hcount]
    · right
      simp only [hcount, ↓reduceIte]
      refine ⟨c, rfl, hcount, ?_⟩
      cases s.params.storage with
      | none => exact ⟨rfl, rfl⟩
      | some storage => exact ⟨rfl, rfl⟩

structure CalibrationKept (s s' : Configuration) : Prop where
  cal : s'.cal = s.cal
  valid : s'.calValid = s.calValid
  changes : s'.params.changes = s.params.changes

/-- A call that fails has changed nothing unless the calibration is acceptable and the storage does not
take it: it is then in force already. -/
theorem failed_set_kept_iff (cal : Option Calibration) (s : Configuration) :
    ((calibrationSet cal s).1 ≠ .ok → CalibrationKept s (calibrationSet cal s).2) ↔
      ∀ c storage, cal = some c → ¬ liPoints < c.liCount → s.params.storage = some storage →
        storage.write offsetCal c.updated.bytes = .ok := by
  rcases calibrationSet_cases cal s with ⟨hst, hsame, hrefused⟩ | ⟨c, rfl, hcount, hinstall, hst⟩
  · refine iff_of_true (fun _ => ?_) fun c storage hc hcount => absurd (hrefused c hc) hcount
    rw [hsame]
    exact ⟨rfl, rfl, rfl⟩
  have hchanged : ¬ CalibrationKept s (s.install c) := by
    intro h
    have hone : s.params.changes + 1 = s.params.changes := h.changes
    grind
  rw [hinstall, hst]
  constructor
  · intro h c' storage hc' _ hs
    obtain rfl := Option.some.inj hc'
    by_contra hwrite
    simp only [hs] at h
    exact hchanged (h hwrite)
  · intro h hfail
    cases hs : s.params.storage with
    | none =>
      rw [hs] at hfail
      exact absurd rfl hfail
    | some storage =>
      rw [hs] at hfail
      exact absurd (h c storage rfl hcount hs) hfail

def refusingStorage : ConfigStorage where
  read _ _ := (.errHardware, fun _ => 0)
  write _ _ := .errHardware

/-- A calibration that could not be stored is in force. -/
theorem failed_set_installs :
    ¬ (∀ cal s, (calibrationSet cal s).1 ≠ .ok → CalibrationKept s (calibrationSet cal s).2) ∧
    (calibrationSet (some { liCount := 2 })
      { params := { Config.init with storage := some refusingStorage } }).1 = .errHardware ∧
    (calibrationSet (some { liCount := 2 })
      { params := { Config.init with storage := some refusingStorage } }).2.calValid = true := by
  refine ⟨?_, rfl, rfl⟩
  intro h
  have hkept := h (some { liCount := 2 }) { params := { Config.init with
    storage := some refusingStorage } } (by simp [calibrationSet, liPoints, refusingStorage])
  have hvalid : true = false := hkept.valid
  cases hvalid

end Configuration

end QiranFirmware
