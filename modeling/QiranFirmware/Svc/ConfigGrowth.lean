import QiranFirmware.Svc.ConfigLoad

/-! # Images of builds with fewer parameters

A build saves its own `config_image_t`, whose checksum stands behind as many values as the build has
parameters. A load looks for the checksum, and computes it, where an image of its own build has it.
-/
namespace QiranFirmware.Config

open Machine

/-- The words before the checksum in the image of a build that has the first `m` parameters. -/
def savedWords (m : ℕ) (value : ConfigParam → Int32) : List UInt32 :=
  [ConfigImage.configMagic, ConfigImage.configVersion, UInt32.ofNat m, 0] ++
    (ConfigParam.all.take m).map fun p => (value p).toUInt32

def savedImage (m : ℕ) (value : ConfigParam → Int32) : List UInt8 :=
  let head := (savedWords m value).flatMap leBytes
  head ++ leBytes (Crc.crc32 head)

def partition (m : ℕ) (value : ConfigParam → Int32) (rest : ℕ → UInt8) : ℕ → UInt8 :=
  fun i => (savedImage m value).getD i (rest i)

/-- What this build saves is the image of a build that has all the parameters. -/
theorem save_eq {c : Config} {storage : ConfigStorage} (hs : c.storage = some storage) :
    c.save = storage.write ConfigImage.offsetParams (savedImage 30 c.value) := by
  unfold save
  rw [hs]
  rfl

theorem length_savedWords {m : ℕ} (hm : m ≤ 30) (value : ConfigParam → Int32) :
    (savedWords m value).length = m + 4 := by
  have hall : ConfigParam.all.length = 30 := rfl
  rw [savedWords, List.length_append, List.length_map, List.length_take_of_le (hall ▸ hm), Nat.add_comm]
  rfl

/-- The partition starts with the words of the image, and the checksum behind them. -/
theorem starts_partition (m : ℕ) (value : ConfigParam → Int32) (rest : ℕ → UInt8) :
    Starts (partition m value rest)
      (savedWords m value ++ [Crc.crc32 ((savedWords m value).flatMap leBytes)]) := by
  have himage : (savedWords m value ++ [Crc.crc32 ((savedWords m value).flatMap leBytes)]).flatMap
      leBytes = savedImage m value := by
    rw [List.flatMap_append, List.flatMap_singleton]
    rfl
  rw [Starts, himage, ← length_flatMap_leBytes, himage]
  refine List.ext_getElem (length_bytesAt ..) fun i hi hi' => ?_
  simp only [bytesAt, List.getElem_map, List.getElem_range, Nat.zero_add, partition]
  exact List.getD_eq_getElem _ _ hi'

theorem getElem?_all (p : ConfigParam) : ConfigParam.all[p.index]? = some p := by
  cases p <;> rfl

/-- The word where this build has the checksum is that of the bytes before it. -/
def Sealed (mem : ℕ → UInt8) : Prop := Crc.crc32 (bytesAt mem 0 136) = leWord mem 136

section Partition
variable (m : ℕ) (value : ConfigParam → Int32) (rest : ℕ → UInt8)

theorem value_partition {p : ConfigParam} (hp : p.index < m) :
    (ConfigImage.ofMemory (partition m value rest)).value p = value p := by
  have hword : (savedWords m value)[4 + p.index]? = some (value p).toUInt32 := by
    rw [savedWords, List.getElem?_append_right (Nat.le_add_right 4 _)]
    simp only [List.length_cons, List.length_nil, Nat.zero_add, Nat.reduceAdd, Nat.add_sub_cancel_left,
      List.getElem?_map, List.getElem?_take_of_lt hp, getElem?_all, Option.map_some]
  have hstart := (starts_append.mp (starts_partition m value rest)).1.word hword
  rw [Nat.mul_add] at hstart
  exact congrArg UInt32.toInt32 hstart

theorem count_partition (hm : m ≤ 30) :
    (ConfigImage.ofMemory (partition m value rest)).count.toNat = m := by
  have hstart : leWord (partition m value rest) 8 = UInt32.ofNat m :=
    (starts_append.mp (starts_partition m value rest)).1.word (k := 2) rfl
  show (leWord (partition m value rest) 8).toNat = m
  rw [hstart]
  exact UInt32.toNat_ofNat_of_lt' (show m < 2 ^ 32 by omega)

/-- A load finds the image of another build intact exactly when its own checksum happens to be there. -/
theorem intact_partition_iff : ConfigImage.intact (partition m value rest) = true ↔
    Sealed (partition m value rest) := by
  have hstart := (starts_append.mp (starts_partition m value rest)).1
  have hmagic : leWord (partition m value rest) 0 = ConfigImage.configMagic :=
    hstart.word (k := 0) rfl
  have hversion : leWord (partition m value rest) 4 = ConfigImage.configVersion :=
    hstart.word (k := 1) rfl
  simp [ConfigImage.intact, ConfigImage.ofMemory, hmagic, hversion, Sealed]

end Partition

theorem sealed_of_full (value : ConfigParam → Int32) (rest : ℕ → UInt8) :
    Sealed (partition 30 value rest) := by
  have hstart := starts_partition 30 value rest
  have hlength := length_savedWords (Nat.le_refl 30) value
  have hhead := (starts_append.mp hstart).1
  rw [Starts, hlength] at hhead
  have hcrc : (savedWords 30 value ++ [Crc.crc32 ((savedWords 30 value).flatMap leBytes)])[34]? =
      some (Crc.crc32 ((savedWords 30 value).flatMap leBytes)) := by
    rw [List.getElem?_append_right (by rw [hlength]), hlength]
    rfl
  rw [Sealed]
  exact (congrArg Crc.crc32 hhead).trans (hstart.word hcrc).symm

end QiranFirmware.Config

namespace QiranFirmware.Configuration

open Machine Config

structure Survives (m : ℕ) (value : ConfigParam → Int32) (st : Status) (loaded : ConfigParam → Int32) :
    Prop where
  ok : st = .ok
  carried : ∀ p : ConfigParam, p.index < m → loaded p = value p
  others : ∀ p : ConfigParam, m ≤ p.index → loaded p = (configDef p).default

/-- What a build of fewer parameters has saved survives exactly when the word behind the last value of
this build happens to be the checksum of what stands before it, and nothing but the values carried has
been changed before. -/
theorem shorter_image_survives_iff {m : ℕ} (hm : m ≤ 30) {value : ConfigParam → Int32}
    (hvalue : ∀ p : ConfigParam, p.index < m → inRange p (value p) = true) (rest : ℕ → UInt8)
    {s : Configuration} {storage : ConfigStorage} (hs : s.params.storage = some storage)
    (hread : storage.read ConfigImage.offsetParams ConfigImage.size = (.ok, partition m value rest))
    (v : Svc) : Survives m value (s.load v).1 (s.load v).2.1.params.value ↔
      (m = 30 ∨ Sealed (partition m value rest)) ∧
        ∀ p : ConfigParam, m ≤ p.index → s.params.value p = (configDef p).default := by
  have hsealed : m = 30 ∨ Sealed (partition m value rest) ↔ Sealed (partition m value rest) :=
    or_iff_right_of_imp fun h => h ▸ sealed_of_full value rest
  have hcount := count_partition m value rest hm
  have hcarried (p : ConfigParam) (hp : p.index < m) := value_partition m value rest hp
  have hlegal : Legal (ConfigImage.ofMemory (partition m value rest)) := by
    intro p hp
    rw [hcount] at hp
    rw [hcarried p hp]
    exact hvalue p hp
  obtain ⟨hst, hparams⟩ := load_eq hs v
  rw [hsealed, ← intact_partition_iff, hst, hparams]
  rcases loadParams_cases storage s.params v with
    ⟨hnone, hst, -⟩ | ⟨image, himage, hst, -, hloaded⟩
  · refine iff_of_false (fun h => ?_) (fun h => ?_)
    · rw [h.ok] at hst
      cases hst
    · simp [imageIn, hread, h.1] at hnone
  have hintact : ConfigImage.intact (partition m value rest) = true := by
    by_contra hnot
    simp [imageIn, hread, hnot] at himage
  have hsame : image = ConfigImage.ofMemory (partition m value rest) := by
    simpa [imageIn, hread, hintact] using himage.symm
  subst hsame
  rw [hloaded]
  constructor
  · intro h
    refine ⟨hintact, fun p hp => ?_⟩
    have hother := h.others p hp
    rwa [taken, hcount, if_neg (Nat.not_lt.mpr hp)] at hother
  · rintro ⟨-, hdefault⟩
    refine ⟨?_, ?_, ?_⟩
    · exact hst.elim And.left fun h => absurd hlegal h.2
    · intro p hp
      rw [taken, hcount, if_pos hp, hcarried p hp, if_pos (hvalue p hp)]
    · intro p hp
      rw [taken, hcount, if_neg (Nat.not_lt.mpr hp)]
      exact hdefault p hp

def early : ConfigParam → Int32 := fun _ => 26000

def erased : ℕ → UInt8 := fun _ => 0xFF

def earlyStorage : ConfigStorage where
  read off _ := (.ok, fun i => partition 1 early erased (off.toNat + i))
  write _ _ := .ok

theorem earlyStorage_read : earlyStorage.read ConfigImage.offsetParams ConfigImage.size =
    (.ok, partition 1 early erased) := by
  simp [earlyStorage, ConfigImage.offsetParams]

def upgraded : Configuration := { params := { Config.init with storage := some earlyStorage } }

theorem early_legal (p : ConfigParam) (hp : p.index < 1) : inRange p (early p) = true := by
  cases p <;> revert hp <;> decide

theorem shorter_image_survives_iff_early :
    Survives 1 early (upgraded.load {}).1 (upgraded.load {}).2.1.params.value ↔
      (1 = 30 ∨ Sealed (partition 1 early erased)) ∧ ∀ p : ConfigParam, 1 ≤ p.index →
        upgraded.params.value p = (configDef p).default :=
  shorter_image_survives_iff (by decide) early_legal erased rfl earlyStorage_read {}

/-- The image of the early build is refused, and its value is lost. -/
theorem early_image_refused :
    ¬ Survives 1 early (upgraded.load {}).1 (upgraded.load {}).2.1.params.value ∧
      (upgraded.load {}).1 = .errIntegrity ∧
      (upgraded.load {}).2.1.params.value .laserTecSetpointMdegc = 27000 := by
  have hst : (upgraded.load {}).1 = .errIntegrity := by decide +kernel
  refine ⟨?_, hst, by decide +kernel⟩
  intro h
  rw [h.ok] at hst
  cases hst

end QiranFirmware.Configuration
