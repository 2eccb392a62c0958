import QiranFirmware.Svc.ConfigVerify

/-! # Loading the configuration

`svc_config_load` of `svc_config.c`: the parameters and the calibration, each from its own place in
the storage. Of the calibration this is what a load makes of it. A load takes the parameters that the
image carries, and leaves those it does not as they were.
-/
namespace QiranFirmware
open Machine

structure CalLiPoint where
  currentUa : UInt32 := 0
  powerNw : UInt32 := 0
  deriving DecidableEq, Repr

structure Calibration where
  magic : UInt32 := 0
  version : UInt32 := 0
  liCount : UInt32 := 0
  reserved : UInt32 := 0
  li : Fin 16 → CalLiPoint := fun _ => {}
  dliSetpointUk : Fin 2 → Int32 := fun _ => 0
  branchEfficiencyPpm : Fin 2 → UInt32 := fun _ => 0
  darkCountBaselineCps : Fin 2 → UInt32 := fun _ => 0
  spectralBandwidthPm : UInt32 := 0
  pvsAmplitude : UInt32 := 0
  pvsLinewidthKhz : UInt32 := 0
  pvsNoiseFloor : UInt32 := 0
  crc : UInt32 := 0

namespace Calibration

def calMagic : UInt32 := 0x51434C42
def calVersion : UInt32 := 1
def offsetCal : UInt32 := 512
def liPoints : UInt32 := 16

def size : UInt32 := 188

def ofMemory (mem : ℕ → UInt8) : Calibration where
  magic := leWord mem 0
  version := leWord mem 4
  liCount := leWord mem 8
  reserved := leWord mem 12
  li i := ⟨leWord mem (16 + 8 * i), leWord mem (20 + 8 * i)⟩
  dliSetpointUk i := (leWord mem (144 + 4 * i)).toInt32
  branchEfficiencyPpm i := leWord mem (152 + 4 * i)
  darkCountBaselineCps i := leWord mem (160 + 4 * i)
  spectralBandwidthPm := leWord mem 168
  pvsAmplitude := leWord mem 172
  pvsLinewidthKhz := leWord mem 176
  pvsNoiseFloor := leWord mem 180
  crc := leWord mem 184

def intact (mem : ℕ → UInt8) : Bool :=
  let cal := ofMemory mem
  cal.magic == calMagic && cal.version == calVersion && Crc.crc32 (bytesAt mem 0 184) == cal.crc

end Calibration

structure Configuration where
  params : Config
  cal : Calibration := {}
  calValid : Bool := false

namespace Configuration

def init : Configuration := { params := Config.init }

def readCalibration (storage : ConfigStorage) (s : Configuration) : Status × Configuration :=
  let (st, mem) := storage.read Calibration.offsetCal Calibration.size
  let cal := Calibration.ofMemory mem
  if st ≠ .ok then (.errHardware, s)
  else if !Calibration.intact mem then (.errIntegrity, s)
  else if Calibration.liPoints < cal.liCount then (.errIntegrity, s)
  else (.ok, { s with cal, calValid := true })

/-- The first half of `svc_config_load`. -/
def loadParams (storage : ConfigStorage) (c : Config) (v : Svc) : Status × Config × Svc :=
  let (st, c, v) := Config.readParams storage c v
  if st ≠ .ok ∧ st ≠ .errRange then (.errIntegrity, c.loadDefaults, v.report .config 0)
  else (st, c, v)

/-- The second half of `svc_config_load`. -/
def loadCalibration (storage : ConfigStorage) (s : Configuration) (v : Svc) : Configuration × Svc :=
  let (st, s) := readCalibration storage s
  if st ≠ .ok then ({ s with calValid := false }, v.report .config 1) else (s, v)

def load (s : Configuration) (v : Svc) : Status × Configuration × Svc :=
  match s.params.storage with
  | none => (.errUnsupported, s, v.report .config 0)
  | some storage =>
    let (st, params, v) := loadParams storage s.params v
    let (s, v) := loadCalibration storage { s with params } v
    (st, s, v)

end Configuration

namespace Config

def imageIn (storage : ConfigStorage) : Option ConfigImage :=
  let (st, mem) := storage.read ConfigImage.offsetParams ConfigImage.size
  if st = .ok ∧ ConfigImage.intact mem = true then some (ConfigImage.ofMemory mem) else none

def taken (image : ConfigImage) (c : Config) (p : ConfigParam) : Int32 :=
  if p.index < image.count.toNat then
    if inRange p (image.value p) then image.value p else (configDef p).default
  else c.value p

theorem readParams_status {storage : ConfigStorage} {mem : ℕ → UInt8} (c : Config) (v : Svc)
    (hread : storage.read ConfigImage.offsetParams ConfigImage.size = (.ok, mem))
    (hintact : ConfigImage.intact mem = true) :
    (readParams storage c v).1 = .ok ∨ (readParams storage c v).1 = .errRange := by
  simp only [readParams, hread, hintact, ne_eq, not_true_eq_false, Bool.not_true, Bool.false_eq_true,
    ↓reduceIte]
  exact ite_eq_or_eq ..

/-- `read_params` leaves everything as it was, or takes what the image carries. -/
theorem readParams_cases (storage : ConfigStorage) (c : Config) (v : Svc) :
    (imageIn storage = none ∧ (readParams storage c v).1 ≠ .ok ∧
      (readParams storage c v).1 ≠ .errRange ∧ (readParams storage c v).2 = (c, v)) ∨
    ∃ image, imageIn storage = some image ∧
      ((readParams storage c v).1 = .ok ∧ Legal image ∨
        (readParams storage c v).1 = .errRange ∧ ¬ Legal image) ∧
      (readParams storage c v).2.1.liveCrc = computeCrc (readParams storage c v).2.1.value ∧
      (readParams storage c v).2.1.value = taken image c := by
  obtain ⟨⟨st, mem⟩, hread⟩ : ∃ r, storage.read ConfigImage.offsetParams ConfigImage.size = r :=
    ⟨_, rfl⟩
  by_cases hst : st = .ok
  swap
  · left
    simp [imageIn, readParams, hread, hst]
  subst hst
  cases hintact : ConfigImage.intact mem with
  | false =>
    left
    simp [imageIn, readParams, hread, hintact]
  | true =>
    right
    obtain ⟨st, c', v', hall, hok, hcrc, hvalue⟩ := readParams_of_intact c v hread hintact
    refine ⟨ConfigImage.ofMemory mem, by simp [imageIn, hread, hintact], ?_, ?_, ?_⟩
    · have hstatus := readParams_status c v hread hintact
      rw [hall] at hstatus ⊢
      rcases hstatus with hst | hst
      · exact .inl ⟨hst, hok.mp hst⟩
      · exact .inr ⟨hst, fun hlegal => absurd (hok.mpr hlegal) (by simp [show st = .errRange from hst])⟩
    · rw [hall]
      exact hcrc
    · rw [hall]
      exact funext hvalue

end Config

namespace Configuration

open Config

structure AsStored (storage : ConfigStorage) (st : Status) (value : ConfigParam → Int32) : Prop where
  values : ∀ p, value p = match imageIn storage with
    | some image =>
      if p.index < image.count.toNat ∧ inRange p (image.value p) = true then image.value p
      else (configDef p).default
    | none => (configDef p).default
  intact : ∀ image, imageIn storage = some image →
    (st = .ok ∧ Legal image ∨ st = .errRange ∧ ¬ Legal image)
  unusable : imageIn storage = none → st = .errIntegrity

/-- The image is intact and does not carry a parameter whose live value is not the default. -/
def Leftover (storage : ConfigStorage) (c : Config) : Prop :=
  ∃ image p, imageIn storage = some image ∧ image.count.toNat ≤ p.index ∧
    c.value p ≠ (configDef p).default

theorem loadCalibration_params (storage : ConfigStorage) (s : Configuration) (v : Svc) :
    (loadCalibration storage s v).1.params = s.params := by
  have hread : (readCalibration storage s).2.params = s.params := by
    unfold readCalibration
    dsimp only
    split
    · rfl
    split
    · rfl
    split
    · rfl
    · rfl
  unfold loadCalibration
  dsimp only
  split
  · exact hread
  · exact hread

theorem loadParams_cases (storage : ConfigStorage) (c : Config) (v : Svc) :
    (imageIn storage = none ∧ (loadParams storage c v).1 = .errIntegrity ∧
      (loadParams storage c v).2.1 = c.loadDefaults) ∨
    ∃ image, imageIn storage = some image ∧
      ((loadParams storage c v).1 = .ok ∧ Legal image ∨
        (loadParams storage c v).1 = .errRange ∧ ¬ Legal image) ∧
      (loadParams storage c v).2.1.liveCrc = computeCrc (loadParams storage c v).2.1.value ∧
      (loadParams storage c v).2.1.value = taken image c := by
  have hcases := readParams_cases storage c v
  unfold loadParams
  generalize readParams storage c v = r at hcases
  obtain ⟨st, c', v'⟩ := r
  dsimp only at hcases ⊢
  rcases hcases with ⟨hnone, hok, hrange, hsame⟩ | ⟨image, himage, hst, hcrc, hvalue⟩
  · obtain ⟨rfl, rfl⟩ := Prod.mk.inj hsame
    rw [if_pos ⟨hok, hrange⟩]
    exact .inl ⟨hnone, rfl, rfl⟩
  · have hread : ¬ (st ≠ .ok ∧ st ≠ .errRange) := by
      rcases hst with ⟨rfl, -⟩ | ⟨rfl, -⟩
      · simp
      · simp
    rw [if_neg hread]
    exact .inr ⟨image, himage, hst, hcrc, hvalue⟩

/-- The calibration has no part in what a load returns, and in what it makes of the parameters. -/
theorem load_eq {s : Configuration} {storage : ConfigStorage} (hs : s.params.storage = some storage)
    (v : Svc) : (load s v).1 = (loadParams storage s.params v).1 ∧
      (load s v).2.1.params = (loadParams storage s.params v).2.1 := by
  unfold load
  rw [hs]
  exact ⟨rfl, loadCalibration_params ..⟩

/-- A load leaves what is stored, or else the defaults, exactly when no parameter that an intact image
does not carry was changed before. -/
theorem load_as_stored_iff (s : Configuration) (v : Svc) :
    (∀ storage, s.params.storage = some storage →
      AsStored storage (load s v).1 (load s v).2.1.params.value) ↔
    ∀ storage, s.params.storage = some storage → ¬ Leftover storage s.params := by
  refine forall_congr' fun storage => forall_congr' fun hs => ?_
  obtain ⟨hst, hparams⟩ := load_eq hs v
  rw [hst, hparams]
  rcases loadParams_cases storage s.params v with
    ⟨hnone, hst, hdefaults⟩ | ⟨image, himage, hst, -, hvalue⟩
  · refine iff_of_true ⟨?_, by simp [hnone], fun _ => hst⟩ ?_
    · intro p
      rw [hnone, hdefaults]
      rfl
    · rintro ⟨image, p, himage, -⟩
      simp [hnone] at himage
  rw [hvalue]
  constructor
  · rintro ⟨hvalues, -, -⟩ ⟨image', p, himage', hcount, hlive⟩
    obtain rfl := Option.some.inj (himage.symm.trans himage')
    have hp := hvalues p
    rw [himage] at hp
    dsimp only at hp
    rw [taken, if_neg (Nat.not_lt.mpr hcount), if_neg fun h => Nat.not_lt.mpr hcount h.1] at hp
    exact hlive hp
  · intro hleft
    refine ⟨?_, ?_, by simp [himage]⟩
    · intro p
      rw [himage]
      dsimp only [taken]
      by_cases hp : p.index < image.count.toNat
      · by_cases hrange : inRange p (image.value p) = true
        · rw [if_pos hp, if_pos hrange, if_pos ⟨hp, hrange⟩]
        · rw [if_pos hp, if_neg hrange, if_neg fun h => hrange h.2]
      · rw [if_neg hp, if_neg fun h => hp h.1]
        by_contra hlive
        exact hleft ⟨image, p, himage, Nat.not_lt.mp hp, hlive⟩
    · intro image' himage'
      obtain rfl := Option.some.inj (himage.symm.trans himage')
      exact hst

def singleStorage : ConfigStorage where
  read off _ := (.ok, fun i =>
    { singleImage with crc := Crc.crc32 singleImage.headBytes }.bytes.getD (off.toNat + i) 0)
  write _ _ := .ok

def tightened : Configuration :=
  { params := (Config.set .dliLockRmsMrad 130 { Config.init with storage := some singleStorage } {}).2.1 }

/-- The load succeeds, and the threshold is not at its default. -/
theorem set_survives_load :
    ¬ (∀ storage, tightened.params.storage = some storage →
      AsStored storage (load tightened {}).1 (load tightened {}).2.1.params.value) ∧
    (load tightened {}).1 = .ok ∧
    (load tightened {}).2.1.params.value .laserTecSetpointMdegc = 26000 ∧
    (load tightened {}).2.1.params.value .dliLockRmsMrad = 130 ∧
    (configDef .dliLockRmsMrad).default = 140 := by
  have hlive : (load tightened {}).2.1.params.value .dliLockRmsMrad = 130 := by decide +kernel
  have hcount : (imageIn singleStorage).map (·.count) = some 1 := by decide +kernel
  refine ⟨?_, by decide +kernel, by decide +kernel, hlive, by decide⟩
  intro h
  have hvalue := (h singleStorage rfl).values .dliLockRmsMrad
  rw [hlive] at hvalue
  obtain ⟨image, himage, hone⟩ := Option.map_eq_some_iff.mp hcount
  rw [himage] at hvalue
  dsimp only at hvalue
  rw [if_neg fun hp => absurd hp.1 (by rw [hone]; decide)] at hvalue
  revert hvalue
  decide

end Configuration

end QiranFirmware
