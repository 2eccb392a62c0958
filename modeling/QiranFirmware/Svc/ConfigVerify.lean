import QiranFirmware.Svc.Config

/-! # What verification restores

`verify` leaves a sound block exactly when the image it repairs from carries every parameter
whose live value is not the default: `readParams` takes what the image carries and leaves the
rest as it found them, and the rest is what may have been corrupted.
-/
namespace QiranFirmware.Config
open Machine

def Sound (c : Config) : Prop := (∀ p, inRange p (c.value p) = true) ∧ computeCrc c.value = c.liveCrc

def stored (c : Config) (p : ConfigParam) : Option Int32 :=
  match c.storage with
  | none => none
  | some storage =>
    let (st, mem) := storage.read ConfigImage.offsetParams ConfigImage.size
    let image := ConfigImage.ofMemory mem
    if st = .ok ∧ ConfigImage.intact mem = true ∧ p.index < image.count.toNat then
      some (image.value p)
    else none

def Restored (before after : Config) : Prop :=
  ∀ p, before.stored p = some (after.value p) ∨ after.value p = (configDef p).default

theorem outOfRange_eq_zero (c : Config) :
    c.outOfRange = 0 ↔ ∀ p, inRange p (c.value p) = true := by
  have hcount (ps : List ConfigParam) (n : UInt32) :
      ps.foldl (fun n p => if inRange p (c.value p) then n else n + 1) n =
        n + UInt32.ofNat (ps.countP fun p => !inRange p (c.value p)) := by
    induction ps generalizing n with
    | nil => simp
    | cons p ps ih =>
      rw [List.foldl_cons, ih, List.countP_cons, UInt32.ofNat_add]
      cases inRange p (c.value p) with
      | true => simp
      | false =>
        simp only [Bool.false_eq_true, ↓reduceIte, Bool.not_false]
        rw [UInt32.add_assoc, UInt32.add_comm 1]
        rfl
  have hlt : ConfigParam.all.countP (fun p => !inRange p (c.value p)) < 2 ^ 32 :=
    lt_of_le_of_lt List.countP_le_length (by decide)
  rw [outOfRange, hcount, UInt32.zero_add, ← UInt32.toNat_inj, UInt32.toNat_ofNat_of_lt' hlt,
    UInt32.toNat_zero, List.countP_eq_zero]
  simp [ConfigParam.mem_all]

theorem sound_iff (c : Config) :
    Sound c ↔ computeCrc c.value = c.liveCrc ∧ c.outOfRange = 0 := by
  rw [outOfRange_eq_zero, and_comm, Sound]

theorem verify_of_sound {c : Config} (h : Sound c) (v : Svc) : verify c v = (.ok, c, v) := by
  unfold verify
  rw [if_pos ((sound_iff c).mp h)]

theorem sound_loadDefaults (c : Config) : Sound c.loadDefaults :=
  ⟨inRange_default, rfl⟩

theorem foldl_restore (image : ConfigImage) (ps : List ConfigParam) (c : Config) (v : Svc)
    (corrected : UInt32) :
    ∃ c' v', ps.foldl (restore image) (c, v, corrected) = (c', v', corrected +
        UInt32.ofNat (ps.countP fun p => !inRange p (image.value p))) ∧
      c'.storage = c.storage ∧ ∀ p, c'.value p =
        if p ∈ ps then
          if inRange p (image.value p) then image.value p else (configDef p).default
        else c.value p := by
  induction ps generalizing c v corrected with
  | nil => exact ⟨c, v, by simp⟩
  | cons q ps ih =>
    have hupdate (value : Int32) (p : ConfigParam) (hval : value =
        if inRange q (image.value q) then image.value q else (configDef q).default) :
        (if p ∈ ps then
          if inRange p (image.value p) then image.value p else (configDef p).default
        else Function.update c.value q value p) =
        if p ∈ q :: ps then
          if inRange p (image.value p) then image.value p else (configDef p).default
        else c.value p := by
      by_cases hpq : p = q
      · subst hpq
        simp [hval]
      · simp [hpq]
    rw [List.foldl_cons]
    by_cases hq : inRange q (image.value q) = true
    · obtain ⟨c', v', hfold, hstorage, hvalue⟩ :=
        ih { c with value := Function.update c.value q (image.value q) } v corrected
      refine ⟨c', v', ?_, hstorage, ?_⟩
      · simpa [restore, hq] using hfold
      · intro p
        rw [hvalue, hupdate _ p (by simp [hq])]
    · obtain ⟨c', v', hfold, hstorage, hvalue⟩ :=
        ih { c with
          value := Function.update c.value q (configDef q).default
          corrections := c.corrections + 1 } (v.report .config (UInt32.ofNat q.index))
          (corrected + 1)
      refine ⟨c', v', ?_, hstorage, ?_⟩
      · rw [List.countP_cons, UInt32.ofNat_add]
        simp only [restore, hq, Bool.false_eq_true, ↓reduceIte, hfold, Bool.not_false]
        rw [UInt32.add_assoc, UInt32.add_comm 1]
        rfl
      · intro p
        rw [hvalue, hupdate _ p (by simp [hq])]

def Legal (image : ConfigImage) : Prop :=
  ∀ p : ConfigParam, p.index < image.count.toNat → inRange p (image.value p) = true

/-- `read_params` on an intact image: everything it carries is taken or replaced by the default,
everything else stays. -/
theorem readParams_of_intact {storage : ConfigStorage} {mem : ℕ → UInt8} (c : Config) (v : Svc)
    (hread : storage.read ConfigImage.offsetParams ConfigImage.size = (.ok, mem))
    (hintact : ConfigImage.intact mem = true) :
    let image := ConfigImage.ofMemory mem
    ∃ st c' v', readParams storage c v = (st, c', v') ∧ (st = .ok ↔ Legal image) ∧
      c'.liveCrc = computeCrc c'.value ∧ ∀ p, c'.value p =
        if p.index < image.count.toNat then
          if inRange p (image.value p) then image.value p else (configDef p).default
        else c.value p := by
  intro image
  obtain ⟨n, hn⟩ : ∃ n, n = if image.count < ConfigParam.count then image.count else
    ConfigParam.count := ⟨_, rfl⟩
  have hmem (p : ConfigParam) : p ∈ ConfigParam.all.take n.toNat ↔ p.index < image.count.toNat := by
    rw [ConfigParam.mem_take_all, hn]
    split
    · rfl
    · rename_i hge
      have hcount : ConfigParam.count.toNat ≤ image.count.toNat := by
        simpa [UInt32.lt_iff_toNat_lt] using hge
      exact ⟨fun h => h.trans_le hcount, fun _ => p.index_lt⟩
  obtain ⟨c', v', hfold, -, hvalue⟩ :=
    foldl_restore image (ConfigParam.all.take n.toNat) c v 0
  obtain ⟨k, hk⟩ : ∃ k, k = 0 + UInt32.ofNat ((ConfigParam.all.take n.toNat).countP
    fun p => !inRange p (image.value p)) := ⟨_, rfl⟩
  rw [← hk] at hfold
  refine ⟨if k = 0 then .ok else .errRange, { c' with liveCrc := computeCrc c'.value }, v', ?_, ?_,
    rfl, ?_⟩
  · simp only [readParams, hread, hintact, ne_eq, not_true_eq_false, Bool.not_true,
      Bool.false_eq_true, ↓reduceIte]
    rw [← hn, hfold]
  · have hlt : (ConfigParam.all.take n.toNat).countP (fun p => !inRange p (image.value p)) < 2 ^ 32 :=
      lt_of_le_of_lt List.countP_le_length (lt_of_le_of_lt (List.length_take_le' ..) (by decide))
    have hzero : k = 0 ↔ Legal image := by
      rw [hk, UInt32.zero_add, ← UInt32.toNat_inj, UInt32.toNat_ofNat_of_lt' hlt,
        UInt32.toNat_zero, List.countP_eq_zero]
      simp [hmem, Legal]
    simp [← hzero]
  · intro p
    simp only [hvalue, hmem]

/-- The damage that verification leaves in place: a repair from an intact, legal image that does
not carry a parameter whose live value is not the default. -/
def Uncarried (c : Config) : Prop :=
  ¬ Sound c ∧ ∃ storage mem, c.storage = some storage ∧
    storage.read ConfigImage.offsetParams ConfigImage.size = (.ok, mem) ∧
    ConfigImage.intact mem = true ∧ Legal (ConfigImage.ofMemory mem) ∧
    ∃ p : ConfigParam, (ConfigImage.ofMemory mem).count.toNat ≤ p.index ∧
      c.value p ≠ (configDef p).default

/-- What one verification promises: a sound block, restored if anything was wrong, and nothing
left for the next verification to do. -/
def Verified (c : Config) (v : Svc) : Prop :=
  let r := verify c v
  Sound r.2.1 ∧ (r.1 ≠ .ok → Restored c r.2.1) ∧ verify r.2.1 r.2.2 = (.ok, r.2)

theorem verified_of_defaults {c c' : Config} {v v' : Svc} {st : Status}
    (h : verify c v = (st, c'.loadDefaults, v')) : Verified c v := by
  simp only [Verified, h]
  exact ⟨sound_loadDefaults c', fun _ _ => .inr rfl, verify_of_sound (sound_loadDefaults c') v'⟩

theorem verify_without_storage {c : Config} (v : Svc) (h : ¬ Sound c) (hs : c.storage = none) :
    ∃ (c' : Config) (v' : Svc), verify c v = (.errIntegrity, c'.loadDefaults, v') := by
  refine ⟨{ c with corrections := c.corrections + 1 }, v.report .config c.outOfRange, ?_⟩
  simp [verify, ← sound_iff, h, hs]

theorem verify_with_storage {c : Config} (v : Svc) (h : ¬ Sound c) {storage : ConfigStorage}
    (hs : c.storage = some storage) :
    ∃ (c₁ : Config) (v₁ : Svc) (st : Status) (c' : Config) (v' : Svc),
      c₁.value = c.value ∧ readParams storage c₁ v₁ = (st, c', v') ∧
        verify c v = (.errIntegrity, if st = .ok then c' else c'.loadDefaults, v') := by
  obtain ⟨⟨st, c', v'⟩, hread⟩ : ∃ r, readParams storage
      { c with corrections := c.corrections + 1 } (v.report .config c.outOfRange) = r := ⟨_, rfl⟩
  refine ⟨{ c with corrections := c.corrections + 1 }, _, st, c', v', rfl, hread, ?_⟩
  simp only [verify, ← sound_iff, h, hs, ↓reduceIte]
  simp only [hs] at hread
  rw [hread]
  split <;> rfl

theorem readParams_ok {storage : ConfigStorage} {c c' : Config} {v v' : Svc}
    (h : readParams storage c v = (.ok, c', v')) : ∃ mem,
    storage.read ConfigImage.offsetParams ConfigImage.size = (.ok, mem) ∧
      ConfigImage.intact mem = true ∧ Legal (ConfigImage.ofMemory mem) := by
  obtain ⟨⟨st, mem⟩, hread⟩ : ∃ r, storage.read ConfigImage.offsetParams ConfigImage.size = r :=
    ⟨_, rfl⟩
  have hst : st = .ok := by
    by_contra hne
    simp [readParams, hread, hne] at h
  subst hst
  have hintact : ConfigImage.intact mem = true := by
    cases hbad : ConfigImage.intact mem with
    | true => rfl
    | false => simp [readParams, hread, hbad] at h
  obtain ⟨st, c'', v'', hall, hok, -, -⟩ := readParams_of_intact c v hread hintact
  rw [hall] at h
  exact ⟨mem, hread, hintact, hok.mp (congrArg Prod.fst h)⟩

/-- A repair from an intact and legal image takes what the image carries. -/
theorem verify_of_read {c : Config} (v : Svc) (h : ¬ Sound c) {storage : ConfigStorage}
    {mem : ℕ → UInt8} (hs : c.storage = some storage)
    (hread : storage.read ConfigImage.offsetParams ConfigImage.size = (.ok, mem))
    (hintact : ConfigImage.intact mem = true) (hlegal : Legal (ConfigImage.ofMemory mem)) :
    ∃ (c' : Config) (v' : Svc), verify c v = (.errIntegrity, c', v') ∧
      c'.liveCrc = computeCrc c'.value ∧ ∀ p, c'.value p =
        if p.index < (ConfigImage.ofMemory mem).count.toNat then (ConfigImage.ofMemory mem).value p
        else c.value p := by
  obtain ⟨c₁, v₁, st, c', v', hvalue, hparams, hverify⟩ := verify_with_storage v h hs
  obtain ⟨st', c'', v'', hall, hok, hcrc, hafter⟩ := readParams_of_intact c₁ v₁ hread hintact
  rw [hparams] at hall
  cases hall
  rw [if_pos (hok.mpr hlegal)] at hverify
  refine ⟨c', v', hverify, hcrc, ?_⟩
  intro p
  rw [hafter, hvalue]
  split
  · rename_i hp
    exact if_pos (hlegal p hp)
  · rfl

theorem verified_of_read {c : Config} (v : Svc) (h : ¬ Sound c) {storage : ConfigStorage}
    {mem : ℕ → UInt8} (hs : c.storage = some storage)
    (hread : storage.read ConfigImage.offsetParams ConfigImage.size = (.ok, mem))
    (hintact : ConfigImage.intact mem = true) (hlegal : Legal (ConfigImage.ofMemory mem)) :
    Verified c v ↔ ∀ p : ConfigParam, (ConfigImage.ofMemory mem).count.toNat ≤ p.index →
      c.value p = (configDef p).default := by
  obtain ⟨c', v', hverify, hcrc, hvalue⟩ := verify_of_read v h hs hread hintact hlegal
  simp only [Verified, hverify]
  constructor
  · rintro ⟨-, hrestored, -⟩ p hp
    have hnot : ¬ p.index < (ConfigImage.ofMemory mem).count.toNat := Nat.not_lt.mpr hp
    rcases hrestored (by simp) p with hstored | hdef
    · simp [stored, hs, hread, hnot] at hstored
    · rwa [hvalue, if_neg hnot] at hdef
  · intro hdefault
    -- Carried values are legal, and the others are their own defaults.
    have hcarried (p : ConfigParam) : (p.index < (ConfigImage.ofMemory mem).count.toNat ∧
        c'.value p = (ConfigImage.ofMemory mem).value p) ∨ c'.value p = (configDef p).default := by
      rw [hvalue]
      split
      · rename_i hp
        exact .inl ⟨hp, rfl⟩
      · rename_i hp
        exact .inr (hdefault p (Nat.not_lt.mp hp))
    have hsound : Sound c' := by
      refine ⟨?_, hcrc.symm⟩
      intro p
      rcases hcarried p with ⟨hp, hval⟩ | hval
      · rw [hval]
        exact hlegal p hp
      · rw [hval]
        exact inRange_default p
    refine ⟨hsound, ?_, verify_of_sound hsound v'⟩
    intro _ p
    rcases hcarried p with ⟨hp, hval⟩ | hval
    · refine .inl ?_
      simp [stored, hs, hread, hintact, hp, hval]
    · exact .inr hval

/-- Verification keeps its promise exactly when there is no uncarried damage. -/
theorem verified_iff (c : Config) (v : Svc) : Verified c v ↔ ¬ Uncarried c := by
  by_cases hsound : Sound c
  · have hv := verify_of_sound hsound v
    simp only [Verified, Uncarried, hv, hsound, ne_eq, not_true_eq_false, false_implies, true_and,
      false_and, not_false_eq_true]
  cases hs : c.storage with
  | none =>
    obtain ⟨c', v', hdefaults⟩ := verify_without_storage v hsound hs
    exact iff_of_true (verified_of_defaults hdefaults) (by simp [Uncarried, hs])
  | some storage =>
    by_cases hgood : ∃ mem, storage.read ConfigImage.offsetParams ConfigImage.size = (.ok, mem) ∧
        ConfigImage.intact mem = true ∧ Legal (ConfigImage.ofMemory mem)
    · obtain ⟨mem, hread, hintact, hlegal⟩ := hgood
      rw [verified_of_read v hsound hs hread hintact hlegal]
      constructor
      · rintro hdefault ⟨-, s, mem', hs', hread', -, -, p, hp, hlive⟩
        obtain rfl : storage = s := Option.some.inj (hs.symm.trans hs')
        obtain rfl : mem = mem' := (Prod.mk.inj (hread.symm.trans hread')).2
        exact hlive (hdefault p hp)
      · intro hun p hp
        by_contra hne
        exact hun ⟨hsound, storage, mem, hs, hread, hintact, hlegal, p, hp, hne⟩
    · obtain ⟨c₁, v₁, st, c', v', -, hparams, hverify⟩ := verify_with_storage v hsound hs
      have hst : st ≠ .ok := by
        rintro rfl
        exact hgood (readParams_ok hparams)
      rw [if_neg hst] at hverify
      refine iff_of_true (verified_of_defaults hverify) ?_
      rintro ⟨-, s, mem, hs', hread, hintact, hlegal, -⟩
      obtain rfl : storage = s := Option.some.inj (hs.symm.trans hs')
      exact hgood ⟨mem, hread, hintact, hlegal⟩

def singleImage : ConfigImage where
  magic := ConfigImage.configMagic
  version := ConfigImage.configVersion
  count := 1
  reserved := 0
  value _ := 26000
  crc := 0

def overwritten : Config :=
  { init with
    value := Function.update init.value .dliLockRmsMrad 5000
    storage := some
      { read := fun _ _ => (.ok, fun i =>
          { singleImage with crc := Crc.crc32 singleImage.headBytes }.bytes.getD i 0)
        write := fun _ _ => .ok } }

/-- Verification reports the overwritten threshold and leaves it out of range. -/
theorem overwritten_not_restored :
    ¬ Verified overwritten {} ∧ (verify overwritten {}).1 = .errIntegrity ∧
      (verify overwritten {}).2.1.value .dliLockRmsMrad = 5000 := by
  have hvalue : (verify overwritten {}).2.1.value .dliLockRmsMrad = 5000 := by decide +kernel
  refine ⟨?_, by decide +kernel, hvalue⟩
  rintro ⟨⟨hrange, -⟩, -⟩
  have hlegal := hrange .dliLockRmsMrad
  rw [hvalue] at hlegal
  revert hlegal
  decide

end QiranFirmware.Config
