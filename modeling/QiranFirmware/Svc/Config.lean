import QiranFirmware.Machine.Words
import QiranFirmware.Svc.Crc
import QiranFirmware.Svc.Fdir

/-! # The configuration parameters

`svc_config.c`: a block of parameters with limits and defaults, a checksum recorded over the
live values, and a stored image they are read from. Calibration is not part of this module.
-/
namespace QiranFirmware
open Machine

inductive ConfigParam
  | laserTecSetpointMdegc | laserTecBandMdegc | laserTecNominalMs | laserTecTimeoutMs
  | laserBiasTargetUa | laserBiasRampUaPerMs | laserLiTolerancePct | mrrBudgetMs | crowBudgetMs
  | crowPumpBudgetNw | umziBudgetMs | dliStableBandUk | dliSettleNominalMs | dliSettleMaxMs
  | dliPhaseLockMs | dliBudgetMs | dliLockRmsMrad | dliLockRmsStrictMrad | dliServoBwHz
  | spadBudgetMs | spadDarkCheckMs | spadDarkAbortRatio | spadDarkLogRatio | pvsT1BudgetMs
  | pvsT2BudgetMs | pvsSweepPoints | pvsSweepSettleMs | pvsIntegrationMs | hkPeriodMs
  | spwStartTimeoutMs
  deriving DecidableEq, Repr

namespace ConfigParam

def index (p : ConfigParam) : ℕ := p.ctorIdx

/-- The parameters in the order of their enumerators; their number is `SVC_CONFIG_PARAM_COUNT`. -/
def all : List ConfigParam :=
  [laserTecSetpointMdegc, laserTecBandMdegc, laserTecNominalMs, laserTecTimeoutMs,
   laserBiasTargetUa, laserBiasRampUaPerMs, laserLiTolerancePct, mrrBudgetMs, crowBudgetMs,
   crowPumpBudgetNw, umziBudgetMs, dliStableBandUk, dliSettleNominalMs, dliSettleMaxMs,
   dliPhaseLockMs, dliBudgetMs, dliLockRmsMrad, dliLockRmsStrictMrad, dliServoBwHz,
   spadBudgetMs, spadDarkCheckMs, spadDarkAbortRatio, spadDarkLogRatio, pvsT1BudgetMs,
   pvsT2BudgetMs, pvsSweepPoints, pvsSweepSettleMs, pvsIntegrationMs, hkPeriodMs,
   spwStartTimeoutMs]

def count : UInt32 := 30

def ofIndex (n : UInt32) : Option ConfigParam := all[n.toNat]?

theorem mem_all (p : ConfigParam) : p ∈ all := by
  cases p <;> decide

theorem index_lt (p : ConfigParam) : p.index < count.toNat := by
  cases p <;> decide

theorem mem_take_all (p : ConfigParam) (n : ℕ) : p ∈ all.take n ↔ p.index < n := by
  have hsmall : ∀ n < 30, ∀ p ∈ all, (p ∈ all.take n ↔ p.index < n) := by decide +kernel
  rcases Nat.lt_or_ge n 30 with h | h
  · exact hsmall n h p (mem_all p)
  · rw [List.take_of_length_le h]
    exact ⟨fun _ => p.index_lt.trans_le h, fun _ => mem_all p⟩

end ConfigParam

structure ConfigDef where
  min : Int32
  max : Int32
  default : Int32
  writableInFlight : Bool
  deriving DecidableEq, Repr

def configDef : ConfigParam → ConfigDef
  | .laserTecSetpointMdegc => ⟨0, 50000, 27000, true⟩
  | .laserTecBandMdegc => ⟨1, 1000, 100, true⟩
  | .laserTecNominalMs => ⟨1000, 120000, 15000, false⟩
  | .laserTecTimeoutMs => ⟨1000, 120000, 30000, false⟩
  | .laserBiasTargetUa => ⟨55000, 60000, 57500, true⟩
  | .laserBiasRampUaPerMs => ⟨1, 1000, 1000, true⟩
  | .laserLiTolerancePct => ⟨1, 50, 30, true⟩
  | .mrrBudgetMs => ⟨1000, 120000, 10000, false⟩
  | .crowBudgetMs => ⟨1000, 120000, 20000, false⟩
  | .crowPumpBudgetNw => ⟨1, 10000, 1000, true⟩
  | .umziBudgetMs => ⟨1000, 120000, 10000, false⟩
  | .dliStableBandUk => ⟨1, 10000, 1500, true⟩
  | .dliSettleNominalMs => ⟨1000, 240000, 30000, false⟩
  | .dliSettleMaxMs => ⟨1000, 240000, 60000, false⟩
  | .dliPhaseLockMs => ⟨1000, 120000, 10000, false⟩
  | .dliBudgetMs => ⟨1000, 240000, 80000, false⟩
  | .dliLockRmsMrad => ⟨1, 1000, 140, true⟩
  | .dliLockRmsStrictMrad => ⟨1, 1000, 100, true⟩
  | .dliServoBwHz => ⟨300, 500, 400, true⟩
  | .spadBudgetMs => ⟨1000, 120000, 5000, false⟩
  | .spadDarkCheckMs => ⟨100, 10000, 2000, false⟩
  | .spadDarkAbortRatio => ⟨2, 100, 10, true⟩
  | .spadDarkLogRatio => ⟨2, 10, 2, true⟩
  | .pvsT1BudgetMs => ⟨1000, 60000, 10000, false⟩
  | .pvsT2BudgetMs => ⟨1000, 300000, 120000, false⟩
  | .pvsSweepPoints => ⟨15, 128, 15, true⟩
  | .pvsSweepSettleMs => ⟨1, 10, 2, true⟩
  | .pvsIntegrationMs => ⟨1000, 10000, 5000, true⟩
  | .hkPeriodMs => ⟨100, 10000, 1000, true⟩
  | .spwStartTimeoutMs => ⟨100, 10000, 1000, true⟩

def inRange (p : ConfigParam) (value : Int32) : Bool :=
  decide ((configDef p).min ≤ value) && decide (value ≤ (configDef p).max)

theorem inRange_default (p : ConfigParam) : inRange p (configDef p).default = true := by
  cases p <;> decide

/-- `svc_config_storage_t`, as it answers during one call: the status of a read with what the
destination then holds, and the status of a write. -/
structure ConfigStorage where
  read : UInt32 → UInt32 → Status × (ℕ → UInt8)
  write : UInt32 → List UInt8 → Status

/-- What `svc_config_set_storage` is given, where either function may be missing. -/
structure ConfigStoragePointers where
  read : Option (UInt32 → UInt32 → Status × (ℕ → UInt8))
  write : Option (UInt32 → List UInt8 → Status)

structure ConfigImage where
  magic : UInt32
  version : UInt32
  count : UInt32
  reserved : UInt32
  value : ConfigParam → Int32
  crc : UInt32

namespace ConfigImage

def configMagic : UInt32 := 0x51434647
def configVersion : UInt32 := 1
def offsetParams : UInt32 := 0

def size : UInt32 := 140

def ofMemory (mem : ℕ → UInt8) : ConfigImage where
  magic := leWord mem 0
  version := leWord mem 4
  count := leWord mem 8
  reserved := leWord mem 12
  value p := (leWord mem (16 + 4 * p.index)).toInt32
  crc := leWord mem 136

def headBytes (image : ConfigImage) : List UInt8 :=
  leBytes image.magic ++ leBytes image.version ++ leBytes image.count ++ leBytes image.reserved ++
    ConfigParam.all.flatMap fun p => leBytes (image.value p).toUInt32

def bytes (image : ConfigImage) : List UInt8 := image.headBytes ++ leBytes image.crc

/-- What `read_params` checks of an image it has read into a buffer. -/
def intact (mem : ℕ → UInt8) : Bool :=
  let image := ofMemory mem
  image.magic == configMagic && image.version == configVersion &&
    Crc.crc32 (bytesAt mem 0 136) == image.crc

end ConfigImage

structure Config where
  value : ConfigParam → Int32
  liveCrc : UInt32
  locked : Bool := false
  storage : Option ConfigStorage := none
  changes : UInt32 := 0
  rejections : UInt32 := 0
  corrections : UInt32 := 0

namespace Config

def computeCrc (value : ConfigParam → Int32) : UInt32 :=
  Crc.crc32 (ConfigParam.all.flatMap fun p => leBytes (value p).toUInt32)

def loadDefaults (c : Config) : Config :=
  let value := fun p => (configDef p).default
  { c with value, liveCrc := computeCrc value }

def init : Config := loadDefaults { value := fun _ => 0, liveCrc := 0 }

def setStorage (storage : Option ConfigStoragePointers) (c : Config) : Status × Config :=
  match storage with
  | none => (.ok, { c with storage := none })
  | some ⟨some read, some write⟩ => (.ok, { c with storage := some { read, write } })
  | some _ => (.errParam, c)

def get (c : Config) (p : ConfigParam) : Int32 := c.value p

def set (p : ConfigParam) (value : Int32) (c : Config) (v : Svc) : Status × Config × Svc :=
  if !inRange p value then
    (.errRange, { c with rejections := c.rejections + 1 }, v.report .config (UInt32.ofNat p.index))
  else if c.locked && !(configDef p).writableInFlight then
    (.errState, { c with rejections := c.rejections + 1 }, v)
  else
    let values := Function.update c.value p value
    (.ok, { c with value := values, liveCrc := computeCrc values, changes := c.changes + 1 },
      v.logEvent (UInt16.ofNat p.index) value.toUInt32)

def setAt (id : UInt32) (value : Int32) (c : Config) (v : Svc) : Status × Config × Svc :=
  match ConfigParam.ofIndex id with
  | none => (.errParam, c, v)
  | some p => c.set p value v

def lock (c : Config) : Config := { c with locked := true }
def unlock (c : Config) : Config := { c with locked := false }

/-- The body of the loop in `read_params`, with the count of values corrected so far. -/
def restore (image : ConfigImage) (s : Config × Svc × UInt32) (p : ConfigParam) :
    Config × Svc × UInt32 :=
  let (c, v, corrected) := s
  if inRange p (image.value p) then
    ({ c with value := Function.update c.value p (image.value p) }, v, corrected)
  else
    ({ c with
        value := Function.update c.value p (configDef p).default
        corrections := c.corrections + 1 },
      v.report .config (UInt32.ofNat p.index), corrected + 1)

def readParams (storage : ConfigStorage) (c : Config) (v : Svc) : Status × Config × Svc :=
  let (st, mem) := storage.read ConfigImage.offsetParams ConfigImage.size
  let image := ConfigImage.ofMemory mem
  if st ≠ .ok then (.errHardware, c, v)
  else if !ConfigImage.intact mem then (.errIntegrity, c, v)
  else
    let n := if image.count < ConfigParam.count then image.count else ConfigParam.count
    let (c, v, corrected) := (ConfigParam.all.take n.toNat).foldl (restore image) (c, v, 0)
    (if corrected = 0 then .ok else .errRange, { c with liveCrc := computeCrc c.value }, v)

def save (c : Config) : Status :=
  match c.storage with
  | none => .errUnsupported
  | some storage =>
    let image : ConfigImage :=
      { magic := ConfigImage.configMagic
        version := ConfigImage.configVersion
        count := ConfigParam.count
        reserved := 0
        value := c.value
        crc := 0 }
    storage.write ConfigImage.offsetParams
      { image with crc := Crc.crc32 image.headBytes }.bytes

def outOfRange (c : Config) : UInt32 :=
  ConfigParam.all.foldl (fun n p => if inRange p (c.value p) then n else n + 1) 0

def verify (c : Config) (v : Svc) : Status × Config × Svc :=
  if computeCrc c.value = c.liveCrc ∧ c.outOfRange = 0 then (.ok, c, v)
  else
    let v := v.report .config c.outOfRange
    let c := { c with corrections := c.corrections + 1 }
    match c.storage with
    | none => (.errIntegrity, c.loadDefaults, v)
    | some storage =>
      let (st, c, v) := readParams storage c v
      if st = .ok then (.errIntegrity, c, v) else (.errIntegrity, c.loadDefaults, v)

end Config

end QiranFirmware
