import QiranFirmware.Svc.CalibrationSet
import QiranFirmware.Svc.ConfigGrowth
import QiranFirmware.Svc.ConfigRuns

/-! # What is saved is loaded

The parameters and the calibration have their images in one partition, at offsets that keep them apart.
Each is written and checked by code of its own. Once both have been stored, a load brings both back,
whatever has become of the live ones.
-/
namespace QiranFirmware

open Machine

namespace Calibration

theorem getElem?_flatMap_pair {α β : Type} (f g : α → β) (xs : List α) (i : ℕ) :
    (xs.flatMap fun x => [f x, g x])[2 * i]? = xs[i]?.map f ∧
      (xs.flatMap fun x => [f x, g x])[2 * i + 1]? = xs[i]?.map g := by
  induction xs generalizing i with
  | nil => simp
  | cons x xs ih =>
    cases i with
    | zero => exact ⟨rfl, rfl⟩
    | succ i => exact ih i

theorem length_pointWords (cal : Calibration) : cal.pointWords.length = 32 := by
  simp [pointWords, List.length_flatMap]

theorem length_headWords (cal : Calibration) : cal.headWords.length = 46 := by
  rw [headWords, List.length_append, List.length_append, length_pointWords]
  rfl

theorem length_bytes (cal : Calibration) : cal.bytes.length = 188 := by
  rw [bytes, headBytes, List.length_append, length_flatMap_leBytes, length_headWords]
  rfl

/-- The words before the curve, those of its points, and what follows it with the checksum. -/
theorem words_eq (cal : Calibration) : cal.headWords ++ [cal.crc] =
    [cal.magic, cal.version, cal.liCount, cal.reserved] ++ (cal.pointWords ++ (cal.restWords ++ [cal.crc])) := by
  rw [headWords, List.append_assoc, List.append_assoc]

theorem word_point {mem : ℕ → UInt8} {cal : Calibration} (h : Starts mem (cal.headWords ++ [cal.crc]))
    (i : Fin 16) : leWord mem (16 + 8 * i) = (cal.li i).currentUa ∧
      leWord mem (20 + 8 * i) = (cal.li i).powerNw := by
  rw [words_eq] at h
  obtain ⟨hcurrent, hpower⟩ := getElem?_flatMap_pair (fun i => (cal.li i).currentUa)
    (fun i => (cal.li i).powerNw) (List.finRange 16) i
  have hi : (List.finRange 16)[i.val]? = some i := by simp
  rw [hi] at hcurrent hpower
  have hat {k : ℕ} {w : UInt32} (hk : cal.pointWords[k]? = some w) :
      ([cal.magic, cal.version, cal.liCount, cal.reserved] ++
        (cal.pointWords ++ (cal.restWords ++ [cal.crc])))[4 + k]? = some w := by
    rw [List.getElem?_append_right (Nat.le_add_right 4 k), List.length_cons]
    simp only [List.length_cons, List.length_nil, Nat.zero_add, Nat.reduceAdd, Nat.add_sub_cancel_left]
    rw [List.getElem?_append_left (List.getElem?_eq_some_iff.mp hk).1, hk]
  have hc := h.word (hat hcurrent)
  have hp := h.word (hat hpower)
  rw [show 4 * (4 + 2 * i.val) = 16 + 8 * i.val by omega] at hc
  rw [show 4 * (4 + (2 * i.val + 1)) = 20 + 8 * i.val by omega] at hp
  exact ⟨hc, hp⟩

/-- The words from the end of the curve on. -/
theorem word_rest {mem : ℕ → UInt8} {cal : Calibration} (h : Starts mem (cal.headWords ++ [cal.crc]))
    {k : ℕ} {w : UInt32} (hk : (cal.restWords ++ [cal.crc])[k]? = some w) :
    leWord mem (144 + 4 * k) = w := by
  have hword : (cal.headWords ++ [cal.crc])[36 + k]? = some w := by
    have hlength : ([cal.magic, cal.version, cal.liCount, cal.reserved] ++ cal.pointWords).length = 36 := by
      rw [List.length_append, length_pointWords]
      rfl
    rw [words_eq, ← List.append_assoc, List.getElem?_append_right (by omega), hlength,
      Nat.add_sub_cancel_left, hk]
  have hat := h.word hword
  rwa [Nat.mul_add] at hat

/-- Memory that starts with the words of a calibration reads as that calibration. -/
theorem ofMemory_eq {mem : ℕ → UInt8} {cal : Calibration}
    (h : Starts mem (cal.headWords ++ [cal.crc])) : ofMemory mem = cal := by
  have hli : (fun i : Fin 16 => (⟨leWord mem (16 + 8 * i), leWord mem (20 + 8 * i)⟩ : CalLiPoint)) =
      cal.li := by
    funext i
    rw [(word_point h i).1, (word_point h i).2]
  have hpair (f : Fin 2 → UInt32) (i : ℕ) (h0 : leWord mem i = f 0) (h1 : leWord mem (i + 4) = f 1) :
      (fun j : Fin 2 => leWord mem (i + 4 * j)) = f := by
    funext j
    match j with
    | 0 => exact h0
    | 1 => exact h1
  have hdli : (fun i : Fin 2 => (leWord mem (144 + 4 * i)).toInt32) = cal.dliSetpointUk := by
    have hwords := hpair (fun i => (cal.dliSetpointUk i).toUInt32) 144
      (word_rest h (k := 0) rfl) (word_rest h (k := 1) rfl)
    funext i
    exact congrArg UInt32.toInt32 (congrFun hwords i)
  have hbranch := hpair cal.branchEfficiencyPpm 152 (word_rest h (k := 2) rfl) (word_rest h (k := 3) rfl)
  have hdark := hpair cal.darkCountBaselineCps 160 (word_rest h (k := 4) rfl) (word_rest h (k := 5) rfl)
  have hstart := (starts_append.mp (words_eq cal ▸ h)).1
  have hmagic : leWord mem 0 = cal.magic := hstart.word (k := 0) rfl
  have hversion : leWord mem 4 = cal.version := hstart.word (k := 1) rfl
  have hcount : leWord mem 8 = cal.liCount := hstart.word (k := 2) rfl
  have hreserved : leWord mem 12 = cal.reserved := hstart.word (k := 3) rfl
  have hbandwidth : leWord mem 168 = cal.spectralBandwidthPm := word_rest h (k := 6) rfl
  have hamplitude : leWord mem 172 = cal.pvsAmplitude := word_rest h (k := 7) rfl
  have hlinewidth : leWord mem 176 = cal.pvsLinewidthKhz := word_rest h (k := 8) rfl
  have hnoise : leWord mem 180 = cal.pvsNoiseFloor := word_rest h (k := 9) rfl
  have hcrc : leWord mem 184 = cal.crc := word_rest h (k := 10) rfl
  rw [ofMemory, hli, hdli, hbranch, hdark, hmagic, hversion, hcount, hreserved, hbandwidth, hamplitude,
    hlinewidth, hnoise, hcrc]

/-- Memory that starts with the image of a calibration that was supplied is found intact. -/
theorem intact_of_starts {mem : ℕ → UInt8} {cal : Calibration}
    (h : Starts mem (cal.updated.headWords ++ [cal.updated.crc])) : intact mem = true := by
  have hhead := (starts_append.mp h).1
  rw [Starts, length_headWords] at hhead
  have hcrc : Crc.crc32 cal.updated.headBytes = cal.updated.crc := rfl
  simp only [intact, ofMemory_eq h, Bool.and_eq_true, beq_iff_eq]
  exact ⟨⟨rfl, rfl⟩, (congrArg Crc.crc32 hhead).trans hcrc⟩

end Calibration

structure Partition where
  config : Configuration
  mem : ℕ → UInt8
  svc : Svc

/-- What may happen to it. A write is answered with a status, and leaves anything in the partition when
it fails. -/
inductive PartitionOp
  | init
  | attach
  | detach
  | set (id : UInt32) (value : Int32)
  | lock
  | unlock
  | load
  | verify
  /-- The live block is overwritten. -/
  | corrupt (value : ConfigParam → Int32) (liveCrc : UInt32) (cal : Calibration) (calValid : Bool)
  | calibrationSet (cal : Option Calibration) (answer : Status) (left : ℕ → UInt8)
  | save (answer : Status) (left : ℕ → UInt8)

namespace PartitionOp

def corrupts : PartitionOp → Bool
  | corrupt .. => true
  | _ => false

def writes : PartitionOp → Bool
  | calibrationSet .. => true
  | save .. => true
  | _ => false

end PartitionOp

namespace Partition

/-- Storage that reads back what the partition holds, and answers a write with this status. -/
def device (mem : ℕ → UInt8) (answer : Status) : ConfigStorage where
  read off _ := (.ok, fun i => mem (off.toNat + i))
  write _ _ := answer

def facing (answer : Status) (s : Partition) : Configuration :=
  { s.config with params := { s.config.params with
      storage := s.config.params.storage.map fun _ => device s.mem answer } }

def written (answer : Status) (left : ℕ → UInt8) (off : UInt32) (bytes : List UInt8)
    (mem : ℕ → UInt8) : ℕ → UInt8 :=
  if answer = .ok then store mem off.toNat bytes else left

def call (op : ConfigOp) (s : Partition) : Partition :=
  let (config, svc) := Configuration.step (s.facing .ok, s.svc) op
  { s with config, svc }

def load (s : Partition) : Status × Partition :=
  let (st, config, svc) := (s.facing .ok).load s.svc
  (st, { s with config, svc })

/-- `svc_config_save`, which writes the image if there is storage (`Config.save_eq`). -/
def save (answer : Status) (left : ℕ → UInt8) (s : Partition) : Status × Partition :=
  ((s.facing answer).params.save, { s with
    config := s.facing answer
    mem := if s.config.params.storage.isSome then
      written answer left ConfigImage.offsetParams (Config.savedImage 30 s.config.params.value) s.mem
    else s.mem })

/-- What `svc_config_calibration_set` writes if there is storage: the calibration, if it is one that it
installs. -/
def image : Option Calibration → Option (List UInt8)
  | none => none
  | some cal => if Calibration.liPoints < cal.liCount then none else some cal.updated.bytes

def calibrationSet (cal : Option Calibration) (answer : Status) (left : ℕ → UInt8) (s : Partition) :
    Status × Partition :=
  (((s.facing answer).calibrationSet cal).1, { s with
    config := ((s.facing answer).calibrationSet cal).2
    mem := match image cal, s.config.params.storage with
      | some bytes, some _ => written answer left Calibration.offsetCal bytes s.mem
      | _, _ => s.mem })

def step (s : Partition) : PartitionOp → Partition
  | .init => s.call .init
  | .attach => s.call (.setStorage (some ⟨some (device s.mem .ok).read, some (device s.mem .ok).write⟩))
  | .detach => s.call (.setStorage none)
  | .set id value => s.call (.set id value)
  | .lock => s.call .lock
  | .unlock => s.call .unlock
  | .load => s.load.2
  | .verify => s.call .verify
  | .corrupt value liveCrc cal calValid =>
    { s with config := { params := { s.config.params with value, liveCrc }, cal, calValid } }
  | .calibrationSet cal answer left => (s.calibrationSet cal answer left).2
  | .save answer left => (s.save answer left).2

structure Stored (value : ConfigParam → Int32) (cal : Calibration) (mem : ℕ → UInt8) : Prop where
  params : bytesAt mem 0 140 = Config.savedImage 30 value
  calibration : bytesAt mem 512 188 = cal.updated.bytes
  count : ¬ Calibration.liPoints < cal.liCount

open Config QiranFirmware.Configuration

theorem sound_call {s : Partition} (h : Sound s.config.params) (op : ConfigOp) :
    Sound (s.call op).config.params :=
  @sound_step (s.facing .ok, s.svc) (h.congr rfl rfl) op

theorem calibrationSet_keeps (cal : Option Calibration) (answer : Status) (left : ℕ → UInt8)
    (s : Partition) : (s.calibrationSet cal answer left).2.config.params.value = s.config.params.value ∧
      (s.calibrationSet cal answer left).2.config.params.liveCrc = s.config.params.liveCrc := by
  show ((s.facing answer).calibrationSet cal).2.params.value = _ ∧
    ((s.facing answer).calibrationSet cal).2.params.liveCrc = _
  rcases calibrationSet_cases cal (s.facing answer) with ⟨-, hsame, -⟩ | ⟨c, -, -, hinstall, -⟩
  · rw [hsame]
    exact ⟨rfl, rfl⟩
  · rw [hinstall]
    exact ⟨rfl, rfl⟩

theorem sound_step {s : Partition} (h : Sound s.config.params) {op : PartitionOp}
    (hop : op.corrupts = false) : Sound (s.step op).config.params := by
  cases op with
  | init => exact sound_call h .init
  | attach => exact sound_call h (.setStorage _)
  | detach => exact sound_call h (.setStorage none)
  | set id value => exact sound_call h (.set id value)
  | lock => exact sound_call h .lock
  | unlock => exact sound_call h .unlock
  | load => exact sound_call h .load
  | verify => exact sound_call h .verify
  | corrupt value liveCrc cal calValid => cases hop
  | calibrationSet cal answer left =>
    obtain ⟨hvalue, hcrc⟩ := calibrationSet_keeps cal answer left s
    exact h.congr hvalue hcrc
  | save answer left => exact h.congr rfl rfl

theorem sound_run (s : Partition) {ops : List PartitionOp} (hops : ∀ op ∈ ops, op.corrupts = false) :
    Sound (run step s (.init :: ops)).config.params :=
  @run_invariant _ _ step _ (fun s => Sound s.config.params) (fun _ _ hs hop => sound_step hs hop)
    (s.step .init) ops (sound_loadDefaults _) (along_of_forall hops)

theorem mem_step (s : Partition) {op : PartitionOp} (hop : op.writes = false) :
    (s.step op).mem = s.mem := by
  cases op with
  | init | attach | detach | set | lock | unlock | load | verify | corrupt => rfl
  | calibrationSet | save => cases hop

theorem mem_run (s : Partition) {ops : List PartitionOp} (hops : ∀ op ∈ ops, op.writes = false) :
    (run step s ops).mem = s.mem :=
  @run_invariant _ _ step _ (fun t => t.mem = s.mem) (fun t _ ht hop => (mem_step t hop).trans ht)
    s ops rfl (along_of_forall hops)

theorem save_ok {answer : Status} {left : ℕ → UInt8} {s : Partition}
    (h : (s.save answer left).1 = .ok) : s.config.params.storage.isSome = true ∧
      (s.save answer left).2.mem = store s.mem 0 (savedImage 30 s.config.params.value) := by
  cases hs : s.config.params.storage with
  | none => simp [save, facing, hs, Config.save] at h
  | some storage =>
    have hanswer : answer = .ok := by
      rw [← h]
      simp [save, facing, hs, Config.save, device]
    exact ⟨rfl, by simp [save, hs, written, hanswer, ConfigImage.offsetParams]⟩

theorem calibrationSet_ok {cal : Calibration} {answer : Status} {left : ℕ → UInt8} {s : Partition}
    (hs : s.config.params.storage.isSome = true) (h : (s.calibrationSet (some cal) answer left).1 = .ok) :
    ¬ Calibration.liPoints < cal.liCount ∧
      (s.calibrationSet (some cal) answer left).2.mem = store s.mem 512 cal.updated.bytes := by
  obtain ⟨storage, hs⟩ := Option.isSome_iff_exists.mp hs
  rcases calibrationSet_cases (some cal) (s.facing answer) with ⟨hst, -⟩ | ⟨c, hc, hcount, -, hst⟩
  · exact absurd h hst
  obtain rfl := Option.some.inj hc
  have hfacing : (s.facing answer).params.storage = some (device s.mem answer) := by simp [facing, hs]
  rw [hfacing] at hst
  have hanswer : answer = .ok := hst.symm.trans h
  exact ⟨hcount, by simp [calibrationSet, image, hs, hcount, written, hanswer, Calibration.offsetCal]⟩

theorem calibrationSet_storage (cal : Option Calibration) (answer : Status) (left : ℕ → UInt8)
    (s : Partition) : (s.calibrationSet cal answer left).2.config.params.storage.isSome =
      s.config.params.storage.isSome := by
  show ((s.facing answer).calibrationSet cal).2.params.storage.isSome = _
  rcases calibrationSet_cases cal (s.facing answer) with ⟨-, hsame, -⟩ | ⟨c, -, -, hinstall, -⟩
  · rw [hsame]
    exact Option.isSome_map ..
  · rw [hinstall]
    exact Option.isSome_map ..

/-- A calibration has been supplied and the parameters saved, in either order, and both calls have
succeeded. -/
inductive Supplied (cal : Calibration) (s : Partition) : Partition → Prop
  | calibrationFirst (a b : Status) (left left' : ℕ → UInt8)
      (hcal : (s.calibrationSet (some cal) a left).1 = .ok)
      (hsave : ((s.calibrationSet (some cal) a left).2.save b left').1 = .ok) :
      Supplied cal s ((s.calibrationSet (some cal) a left).2.save b left').2
  | saveFirst (a b : Status) (left left' : ℕ → UInt8)
      (hsave : (s.save b left').1 = .ok)
      (hcal : ((s.save b left').2.calibrationSet (some cal) a left).1 = .ok) :
      Supplied cal s ((s.save b left').2.calibrationSet (some cal) a left).2

theorem length_savedImage (value : ConfigParam → Int32) : (savedImage 30 value).length = 140 := by
  have hwords := length_savedWords (Nat.le_refl 30) value
  rw [savedImage, List.length_append, length_flatMap_leBytes, hwords]
  rfl

/-- Neither image reaches into the other. -/
theorem stored_of_supplied {cal : Calibration} {s t : Partition} (h : Supplied cal s t) :
    Stored s.config.params.value cal t.mem := by
  have himage := length_savedImage s.config.params.value
  have hcal := cal.updated.length_bytes
  cases h with
  | calibrationFirst a b left left' hset hsave =>
    obtain ⟨hattached, hmem⟩ := save_ok hsave
    rw [calibrationSet_storage] at hattached
    obtain ⟨hcount, hmem'⟩ := calibrationSet_ok hattached hset
    rw [(calibrationSet_keeps ..).1] at hmem
    rw [hmem, hmem']
    refine ⟨?_, ?_, hcount⟩
    · rw [← himage]
      exact bytesAt_store ..
    · rw [bytesAt_store_of_disjoint _ (.inr (by omega)), ← hcal]
      exact bytesAt_store ..
  | saveFirst a b left left' hsave hset =>
    obtain ⟨hattached, hmem⟩ := save_ok hsave
    have hattached' : (s.save b left').2.config.params.storage.isSome = true := by
      rw [← hattached]
      exact Option.isSome_map ..
    obtain ⟨hcount, hmem'⟩ := calibrationSet_ok hattached' hset
    rw [hmem', hmem]
    refine ⟨?_, ?_, hcount⟩
    · rw [bytesAt_store_of_disjoint _ (.inl (by omega)), ← himage]
      exact bytesAt_store ..
    · rw [← hcal]
      exact bytesAt_store ..

theorem bytesAt_shift (mem : ℕ → UInt8) (off n : ℕ) :
    bytesAt (fun i => mem (off + i)) 0 n = bytesAt mem off n := by
  simp [bytesAt]

theorem eq_partition {value : ConfigParam → Int32} {mem : ℕ → UInt8}
    (h : bytesAt mem 0 140 = savedImage 30 value) : mem = partition 30 value mem := by
  funext i
  rw [partition, ← h]
  by_cases hi : i < 140
  · rw [List.getD_eq_getElem _ _ (by rwa [length_bytesAt])]
    simp [bytesAt]
  · rw [List.getD_eq_default _ _ (by rw [length_bytesAt]; omega)]

/-- What a load finds of the parameters. -/
theorem loadParams_of_stored {value : ConfigParam → Int32} {cal : Calibration} {mem : ℕ → UInt8}
    (h : Stored value cal mem) (hvalue : ∀ p, inRange p (value p) = true) (answer : Status) (c : Config)
    (v : Svc) : (loadParams (device mem answer) c v).1 = .ok ∧
      (loadParams (device mem answer) c v).2.1.value = value := by
  have hmem := eq_partition h.params
  have hread : (device mem answer).read ConfigImage.offsetParams ConfigImage.size =
      (.ok, partition 30 value mem) := by
    rw [← hmem]
    simp [device, ConfigImage.offsetParams]
  have hcount := count_partition 30 value mem (Nat.le_refl 30)
  have hcarried (p : ConfigParam) := value_partition 30 value mem (show p.index < 30 from p.index_lt)
  have himage : imageIn (device mem answer) = some (ConfigImage.ofMemory (partition 30 value mem)) := by
    have hintact := (intact_partition_iff 30 value mem).mpr (sealed_of_full value mem)
    simp [imageIn, hread, hintact]
  have hlegal : Legal (ConfigImage.ofMemory (partition 30 value mem)) := by
    intro p _
    rw [hcarried]
    exact hvalue p
  rcases loadParams_cases (device mem answer) c v with ⟨hnone, -⟩ | ⟨image, hsome, hst, -, htaken⟩
  · rw [himage] at hnone
    cases hnone
  obtain rfl := Option.some.inj (himage.symm.trans hsome)
  refine ⟨hst.elim And.left fun h => absurd hlegal h.2, ?_⟩
  rw [htaken]
  funext p
  rw [taken, hcount, if_pos (show p.index < 30 from p.index_lt), hcarried, if_pos (hvalue p)]

/-- What it finds of the calibration. -/
theorem loadCalibration_of_stored {value : ConfigParam → Int32} {cal : Calibration} {mem : ℕ → UInt8}
    (h : Stored value cal mem) (answer : Status) (s : Configuration) (v : Svc) :
    (loadCalibration (device mem answer) s v).1.cal = cal.updated ∧
      (loadCalibration (device mem answer) s v).1.calValid = true := by
  have hstarts : Starts (fun i => mem (512 + i)) (cal.updated.headWords ++ [cal.updated.crc]) := by
    have hlength : (cal.updated.headWords ++ [cal.updated.crc]).length = 47 := by
      rw [List.length_append, cal.updated.length_headWords]
      rfl
    rw [Starts, hlength, bytesAt_shift, h.calibration, List.flatMap_append, List.flatMap_singleton]
    rfl
  have hread : (device mem answer).read Calibration.offsetCal Calibration.size =
      (.ok, fun i => mem (512 + i)) := rfl
  have hintact := Calibration.intact_of_starts hstarts
  have hcount : ¬ Calibration.liPoints < cal.updated.liCount := h.count
  simp [loadCalibration, readCalibration, hread, hintact, Calibration.ofMemory_eq hstarts, hcount]

/-- Once a calibration has been supplied and the parameters saved, whatever comes after that writes
neither, the live block overwritten or initialised again included: a load succeeds, restores every
parameter as it was, and puts the calibration in force. -/
theorem saved_is_loaded {s₀ t : Partition} {before after : List PartitionOp} {cal : Calibration}
    (hbefore : ∀ op ∈ before, op.corrupts = false)
    (hsupplied : Supplied cal (run step s₀ (.init :: before)) t)
    (hafter : ∀ op ∈ after, op.writes = false)
    (hattached : (run step t after).config.params.storage.isSome = true) :
    let r := (run step t after).load
    r.1 = .ok ∧ r.2.config.params.value = (run step s₀ (.init :: before)).config.params.value ∧
      r.2.config.cal = cal.updated ∧ r.2.config.calValid = true := by
  have hstored := stored_of_supplied hsupplied
  rw [← mem_run t hafter] at hstored
  have hlegal := (sound_run s₀ hbefore).1
  generalize run step t after = u at hattached hstored ⊢
  obtain ⟨storage, hs⟩ := Option.isSome_iff_exists.mp hattached
  have hfacing : (u.facing .ok).params.storage = some (device u.mem .ok) := by simp [facing, hs]
  obtain ⟨hst, hparams⟩ := load_eq hfacing u.svc
  obtain ⟨hok, hvalue⟩ := loadParams_of_stored hstored hlegal .ok (u.facing .ok).params u.svc
  refine ⟨hst.trans hok, (congrArg Config.value hparams).trans hvalue, ?_⟩
  show ((u.facing .ok).load u.svc).2.1.cal = _ ∧ ((u.facing .ok).load u.svc).2.1.calValid = _
  unfold Configuration.load
  rw [hfacing]
  exact loadCalibration_of_stored hstored .ok _ _

/-- A setpoint is changed, a curve supplied and the parameters saved; then the live block is overwritten,
and the module initialised with the storage attached again. -/
theorem saved_is_loaded_after_init :
    let s := run step ⟨Configuration.init, fun _ => 0xFF, {}⟩ [.init, .attach, .set 0 26500]
    let t := ((s.calibrationSet (some { liCount := 2 }) .ok fun _ => 0).2.save .ok fun _ => 0).2
    let r := (run step t [.corrupt (fun _ => -1) 0 {} false, .init, .attach]).load
    r.1 = .ok ∧ r.2.config.params.value .laserTecSetpointMdegc = 26500 ∧
      r.2.config.cal.liCount = 2 ∧ r.2.config.calValid = true := by
  have hloaded := @saved_is_loaded ⟨Configuration.init, fun _ => 0xFF, {}⟩ _ [.attach, .set 0 26500]
    [.corrupt (fun _ => -1) 0 {} false, .init, .attach] { liCount := 2 } (by simp [PartitionOp.corrupts])
    (.calibrationFirst .ok .ok (fun _ => 0) (fun _ => 0) rfl rfl) (by simp [PartitionOp.writes]) rfl
  obtain ⟨hst, hvalue, hcal, hvalid⟩ := hloaded
  refine ⟨hst, (congrFun hvalue _).trans ?_, (congrArg Calibration.liCount hcal).trans rfl, hvalid⟩
  decide +kernel

end Partition

end QiranFirmware
