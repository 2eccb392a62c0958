import QiranFirmware.Svc.ConfigGrowth
import QiranFirmware.Svc.CrcBits

/-! # What the checksum detects

The register holds four bytes. Strings of one length that differ only in four places next to each other
have different checksums, so one parameter cannot change, live or stored, without being noticed.
-/
namespace QiranFirmware.Crc

open Machine ShiftRegister

/-- Strings of one length that differ, and only within so many places next to each other. -/
structure DifferWithin (n : ℕ) (xs ys : List UInt8) : Prop where
  length : xs.length = ys.length
  ne : xs ≠ ys
  window : ∃ i, ∀ k, xs[k]? ≠ ys[k]? → i ≤ k ∧ k < i + n

theorem DifferWithin.split {n : ℕ} {xs ys : List UInt8} (h : DifferWithin n xs ys) :
    ∃ pre as bs post, xs = pre ++ as ++ post ∧ ys = pre ++ bs ++ post ∧ as.length = bs.length ∧
      as.length ≤ n ∧ as ≠ bs := by
  obtain ⟨hlength, hne, i, hwindow⟩ := h
  have hcut (zs : List UInt8) : zs = zs.take i ++ (zs.drop i).take n ++ zs.drop (i + n) := by
    rw [List.append_assoc, ← List.drop_drop, List.take_append_drop, List.take_append_drop]
  have hpre : xs.take i = ys.take i := by
    refine List.ext_getElem? fun k => ?_
    by_contra hk
    have hki : k < i := by
      by_contra hki
      simp [hki] at hk
    simp only [List.getElem?_take, hki, ↓reduceIte] at hk
    exact Nat.not_le.mpr hki (hwindow k hk).1
  have hpost : xs.drop (i + n) = ys.drop (i + n) := by
    refine List.ext_getElem? fun k => ?_
    rw [List.getElem?_drop, List.getElem?_drop]
    by_contra hk
    exact Nat.not_lt.mpr (Nat.le_add_right ..) (hwindow _ hk).2
  refine ⟨xs.take i, (xs.drop i).take n, (ys.drop i).take n, xs.drop (i + n), hcut xs, ?_, ?_, ?_, ?_⟩
  · rw [hpre, hpost]
    exact hcut ys
  · rw [List.length_take, List.length_take, List.length_drop, List.length_drop, hlength]
  · exact List.length_take_le ..
  · intro hsame
    refine hne ?_
    rw [hcut xs, hpre, hsame, hpost]
    exact (hcut ys).symm

theorem finish_injective : Function.Injective finish := by
  intro a b h
  refine UInt32.toBitVec_inj.mp ((BitVec.xor_left_inj (0xFFFFFFFF#32)).mp ?_)
  exact congrArg UInt32.toBitVec h

theorem crc32_ne_of_split {as bs : List UInt8} (hlength : as.length = bs.length)
    (hfit : as.length ≤ 4) (hne : as ≠ bs) (pre post : List UInt8) :
    crc32 (pre ++ as ++ post) ≠ crc32 (pre ++ bs ++ post) := by
  intro h
  have hregister := congrArg UInt32.toBitVec (finish_injective h)
  rw [toBitVec_update, toBitVec_update] at hregister
  simp only [List.map_append] at hregister
  have hmap : as.map UInt8.toBitVec ≠ bs.map UInt8.toBitVec := by
    intro hmap
    exact hne (List.map_injective_iff.mpr (fun _ _ => UInt8.toBitVec_inj.mp) hmap)
  refine feedAll_ne polynomial (by decide) ?_ ?_ hmap _ _ _ hregister
  · rw [List.length_map, List.length_map, hlength]
  · rw [List.length_map]
    exact Nat.mul_le_mul_right 8 hfit

theorem DifferWithin.crc32_ne {xs ys : List UInt8} (h : DifferWithin 4 xs ys) : crc32 xs ≠ crc32 ys := by
  obtain ⟨pre, as, bs, post, rfl, rfl, hlength, hfit, hne⟩ := h.split
  exact crc32_ne_of_split hlength hfit hne pre post

end QiranFirmware.Crc

namespace QiranFirmware.Config

open Machine

theorem nodup_all : ConfigParam.all.Nodup := by decide

/-- The checksum over the live values tells a change of any one of them. -/
theorem computeCrc_update_ne {value : ConfigParam → Int32} {p : ConfigParam} {w : Int32}
    (hw : w ≠ value p) : computeCrc (Function.update value p w) ≠ computeCrc value := by
  obtain ⟨pre, post, hall⟩ := List.append_of_mem p.mem_all
  have hnodup := nodup_all
  rw [hall] at hnodup
  obtain ⟨-, hcons, hdisjoint⟩ := List.nodup_append.mp hnodup
  have hp : p ∉ pre := fun hmem => hdisjoint p hmem p List.mem_cons_self rfl
  have hq : p ∉ post := (List.nodup_cons.mp hcons).1
  have hsame {ps : List ConfigParam} (hps : p ∉ ps) :
      (ps.flatMap fun q => leBytes (Function.update value p w q).toUInt32) =
        ps.flatMap fun q => leBytes (value q).toUInt32 := by
    refine List.flatMap_congr fun q hmem => ?_
    rw [Function.update_of_ne (ne_of_mem_of_not_mem hmem hps)]
  rw [computeCrc, computeCrc, hall]
  simp only [List.flatMap_append, List.flatMap_cons, hsame hp, hsame hq, Function.update_self,
    ← List.append_assoc]
  have hwords : leBytes w.toUInt32 ≠ leBytes (value p).toUInt32 := by
    intro h
    exact hw (congrArg UInt32.toInt32 (leBytes_injective h))
  have hlength : (leBytes w.toUInt32).length = (leBytes (value p).toUInt32).length := rfl
  exact Crc.crc32_ne_of_split hlength (Nat.le_refl 4) hwords _ _

theorem verify_of_not_sound {c : Config} (h : ¬ Sound c) (v : Svc) : (verify c v).1 = .errIntegrity := by
  cases hs : c.storage with
  | none =>
    obtain ⟨c', v', hverify⟩ := verify_without_storage v h hs
    rw [hverify]
  | some storage =>
    obtain ⟨-, -, st, c', v', -, -, hverify⟩ := verify_with_storage v h hs
    rw [hverify]

end QiranFirmware.Config

namespace QiranFirmware.Configuration

open Machine Config

structure WordChanged (p : ConfigParam) (mem mem' : ℕ → UInt8) : Prop where
  word : leWord mem' (16 + 4 * p.index) ≠ leWord mem (16 + 4 * p.index)
  others : ∀ i, i < 16 + 4 * p.index ∨ 16 + 4 * p.index + 4 ≤ i → mem' i = mem i

theorem WordChanged.not_intact {p : ConfigParam} {mem mem' : ℕ → UInt8} (h : WordChanged p mem mem')
    (hintact : ConfigImage.intact mem = true) : ConfigImage.intact mem' = false := by
  have hp : p.index < 30 := p.index_lt
  have hbytes (m : ℕ → UInt8) (k : ℕ) : (bytesAt m 0 136)[k]? = if k < 136 then some (m k) else none := by
    by_cases hk : k < 136
    · simp [bytesAt, hk]
    · simp [bytesAt, hk]
  have hdiffer : Crc.DifferWithin 4 (bytesAt mem' 0 136) (bytesAt mem 0 136) := by
    refine ⟨by rw [length_bytesAt, length_bytesAt], ?_, 16 + 4 * p.index, ?_⟩
    · intro hsame
      refine h.word ?_
      have hat (j : ℕ) (hj : j < 4) : mem' (16 + 4 * p.index + j) = mem (16 + 4 * p.index + j) := by
        have hk := congrArg (·[16 + 4 * p.index + j]?) hsame
        simpa [hbytes, show 16 + 4 * p.index + j < 136 by omega] using hk
      simp only [leWord, hat 1 (by decide), hat 2 (by decide), hat 3 (by decide)]
      rw [show mem' (16 + 4 * p.index) = mem (16 + 4 * p.index) from hat 0 (by decide)]
    · intro k hk
      by_contra hout
      rw [hbytes, hbytes, h.others k (by omega)] at hk
      exact hk rfl
  have hcrc : leWord mem' 136 = leWord mem 136 := by
    have hat (j : ℕ) (hj : 136 ≤ j) : mem' j = mem j := h.others j (by omega)
    simp only [leWord, hat 136 (by decide), hat 137 (by decide), hat 138 (by decide),
      hat 139 (by decide)]
  have hne := hdiffer.crc32_ne
  simp only [ConfigImage.intact, ConfigImage.ofMemory, Bool.and_eq_true, beq_iff_eq] at hintact
  rw [hintact.2, ← hcrc] at hne
  simp [ConfigImage.intact, ConfigImage.ofMemory, hne]

theorem load_of_not_intact {s : Configuration} {storage : ConfigStorage} {mem : ℕ → UInt8}
    (hs : s.params.storage = some storage)
    (hread : storage.read ConfigImage.offsetParams ConfigImage.size = (.ok, mem))
    (hnot : ConfigImage.intact mem = false) (v : Svc) :
    (s.load v).1 = .errIntegrity ∧ (s.load v).2.1.params = s.params.loadDefaults := by
  obtain ⟨hst, hparams⟩ := load_eq hs v
  have himage : imageIn storage = none := by simp [imageIn, hread, hnot]
  rcases loadParams_cases storage s.params v with ⟨-, hst', hdefaults⟩ | ⟨image, hsome, -⟩
  · exact ⟨hst.trans hst', hparams.trans hdefaults⟩
  · rw [himage] at hsome
    cases hsome

/-- The checksum tells any change within four bytes next to each other; so verification, in any state
whose checksum is recorded, notices any change of one live parameter, and a load refuses an image in
which any one parameter has been changed. -/
theorem single_changes_detected :
    (∀ xs ys, Crc.DifferWithin 4 xs ys → Crc.crc32 xs ≠ Crc.crc32 ys) ∧
    (∀ c : Config, computeCrc c.value = c.liveCrc → ∀ p w, w ≠ c.value p → ∀ v,
      (verify { c with value := Function.update c.value p w } v).1 = .errIntegrity) ∧
    ∀ p mem mem', ConfigImage.intact mem = true → WordChanged p mem mem' →
      ∀ (s : Configuration) storage v, s.params.storage = some storage →
        storage.read ConfigImage.offsetParams ConfigImage.size = (.ok, mem') →
        (s.load v).1 = .errIntegrity ∧ (s.load v).2.1.params = s.params.loadDefaults := by
  refine ⟨fun xs ys h => h.crc32_ne, ?_, ?_⟩
  · intro c hcrc p w hw v
    refine verify_of_not_sound (fun hsound => ?_) v
    exact computeCrc_update_ne hw (hsound.2.trans hcrc.symm)
  · intro p mem mem' hintact hchanged s storage v hs hread
    exact load_of_not_intact hs hread (hchanged.not_intact hintact) v

def storedDefaults : ℕ → UInt8 := partition 30 Config.init.value erased

/-- One bit of the laser's setpoint has flipped, which leaves it within its limits. -/
def flippedBit : ℕ → UInt8 := Function.update storedDefaults 16 0x79

def flippedStorage : ConfigStorage where
  read _ _ := (.ok, flippedBit)
  write _ _ := .ok

theorem wordChanged_flippedBit : WordChanged .laserTecSetpointMdegc storedDefaults flippedBit where
  word := by decide
  others i hi := by
    rw [flippedBit, Function.update_of_ne]
    rintro rfl
    revert hi
    decide

theorem flipped_bit_detected :
    Crc.crc32 [1, 2] ≠ Crc.crc32 [1, 3] ∧
    (verify { Config.init with
      value := Function.update Config.init.value .laserTecSetpointMdegc 27001 } {}).1 = .errIntegrity ∧
    (load { params := { Config.init with storage := some flippedStorage } } {}).1 = .errIntegrity := by
  obtain ⟨hstrings, hlive, hstored⟩ := single_changes_detected
  refine ⟨hstrings _ _ ⟨rfl, by decide, 1, ?_⟩,
    hlive Config.init rfl .laserTecSetpointMdegc 27001 (by decide) {}, ?_⟩
  · intro k hk
    rcases k with _ | _ | k
    · exact absurd rfl hk
    · decide
    · exact absurd rfl hk
  · have hintact : ConfigImage.intact storedDefaults = true :=
      (intact_partition_iff 30 _ _).mpr (sealed_of_full _ _)
    exact (hstored _ _ _ hintact wordChanged_flippedBit _ flippedStorage {} rfl rfl).1

end QiranFirmware.Configuration
