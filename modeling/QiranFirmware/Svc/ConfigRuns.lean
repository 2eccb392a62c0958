import QiranFirmware.Machine.Runs
import QiranFirmware.Svc.ConfigLoad

/-! # The live parameters over runs

Every way that `svc_config.c` has of changing a parameter checks the value, and records the checksum
of what it leaves. What the storage holds, and whether it answers, is for the run to say.
-/
namespace QiranFirmware

open Machine

inductive ConfigOp
  | init
  | setStorage (storage : Option ConfigStoragePointers)
  /-- The attached storage answers like this from now on. -/
  | answers (storage : ConfigStorage)
  | set (id : UInt32) (value : Int32)
  | lock
  | unlock
  | load
  | save
  | verify

namespace Configuration

open Config

def step (s : Configuration × Svc) : ConfigOp → Configuration × Svc
  | .init => (init, s.2)
  | .setStorage storage => ({ s.1 with params := (s.1.params.setStorage storage).2 }, s.2)
  | .answers storage =>
    ({ s.1 with params := { s.1.params with storage := s.1.params.storage.map fun _ => storage } }, s.2)
  | .set id value =>
    let (_, params, v) := s.1.params.setAt id value s.2
    ({ s.1 with params }, v)
  | .lock => ({ s.1 with params := s.1.params.lock }, s.2)
  | .unlock => ({ s.1 with params := s.1.params.unlock }, s.2)
  | .load => (s.1.load s.2).2
  | .save => s
  | .verify =>
    let (_, params, v) := s.1.params.verify s.2
    ({ s.1 with params }, v)

end Configuration

namespace Config

/-- A set is refused and leaves every parameter, or changes one that may be changed to a value within
its limits. -/
theorem setAt_cases (id : UInt32) (value : Int32) (c : Config) (v : Svc) :
    ((setAt id value c v).1 ≠ .ok ∧ (setAt id value c v).2.1.value = c.value ∧
      (setAt id value c v).2.1.liveCrc = c.liveCrc) ∨
    ∃ p, (setAt id value c v).1 = .ok ∧ inRange p value = true ∧
      (c.locked = true → (configDef p).writableInFlight = true) ∧
      (setAt id value c v).2.1.value = Function.update c.value p value ∧
      (setAt id value c v).2.1.liveCrc = computeCrc (Function.update c.value p value) := by
  unfold setAt
  cases ConfigParam.ofIndex id with
  | none => exact .inl ⟨by simp, rfl, rfl⟩
  | some p =>
    dsimp only [set]
    split
    · exact .inl ⟨by simp, rfl, rfl⟩
    rename_i hrange
    split
    · exact .inl ⟨by simp, rfl, rfl⟩
    rename_i hlocked
    refine .inr ⟨p, rfl, by simpa using hrange, ?_, rfl, rfl⟩
    intro h
    simpa [h] using hlocked

theorem Sound.congr {c c' : Config} (h : Sound c) (hvalue : c'.value = c.value)
    (hcrc : c'.liveCrc = c.liveCrc) : Sound c' := by
  rw [Sound, hvalue, hcrc]
  exact h

theorem sound_update {c c' : Config} (h : Sound c) {p : ConfigParam} {value : Int32}
    (hrange : inRange p value = true) (hvalue : c'.value = Function.update c.value p value)
    (hcrc : c'.liveCrc = computeCrc (Function.update c.value p value)) : Sound c' := by
  refine ⟨?_, by rw [hvalue, hcrc]⟩
  intro q
  rw [hvalue]
  by_cases hq : q = p
  · rw [hq, Function.update_self]
    exact hrange
  · rw [Function.update_of_ne hq]
    exact h.1 q

theorem sound_taken {c c' : Config} (h : Sound c) {image : ConfigImage}
    (hvalue : c'.value = taken image c) (hcrc : c'.liveCrc = computeCrc c'.value) : Sound c' := by
  refine ⟨?_, hcrc.symm⟩
  intro p
  rw [hvalue, taken]
  split
  · split
    · rename_i hrange
      exact hrange
    · exact inRange_default p
  · exact h.1 p

end Config

namespace Configuration

open Config

theorem sound_setStorage {c : Config} (h : Sound c) (storage : Option ConfigStoragePointers) :
    Sound (c.setStorage storage).2 := by
  unfold setStorage
  split
  · exact h.congr rfl rfl
  · exact h.congr rfl rfl
  · exact h

theorem sound_load {s : Configuration} (h : Sound s.params) (v : Svc) : Sound (s.load v).2.1.params := by
  cases hs : s.params.storage with
  | none =>
    unfold load
    rw [hs]
    exact h
  | some storage =>
    rw [(load_eq hs v).2]
    rcases loadParams_cases storage s.params v with ⟨-, -, hdefaults⟩ | ⟨image, -, -, hcrc, hvalue⟩
    · rw [hdefaults]
      exact sound_loadDefaults s.params
    · exact sound_taken h hvalue hcrc

theorem sound_step {s : Configuration × Svc} (h : Sound s.1.params) (op : ConfigOp) :
    Sound (step s op).1.params := by
  cases op with
  | init => exact sound_loadDefaults _
  | setStorage storage => exact sound_setStorage h storage
  | answers storage => exact h.congr rfl rfl
  | set id value =>
    rcases setAt_cases id value s.1.params s.2 with
      ⟨-, hvalue, hcrc⟩ | ⟨p, -, hrange, -, hvalue, hcrc⟩
    · exact h.congr hvalue hcrc
    · exact sound_update h hrange hvalue hcrc
  | lock => exact h.congr rfl rfl
  | unlock => exact h.congr rfl rfl
  | load => exact sound_load h s.2
  | save => exact h
  | verify =>
    have hverify := verify_of_sound h s.2
    simp only [step, hverify]
    exact h

theorem sound_run (s : Configuration × Svc) (ops : List ConfigOp) :
    Sound (run step s (.init :: ops)).1.params :=
  @run_keeps _ _ step (fun s => Sound s.1.params) (fun _ op hs => sound_step hs op) (step s .init)
    (sound_loadDefaults _) ops

/-- Once the module has been initialised, whatever is called, and whatever the storage answers: the
parameters are within their limits and have the checksum recorded, and verification finds nothing;
a set that is refused changes nothing, and one made while the block is locked changes nothing that
may not be changed in flight. -/
theorem parameters_kept (s₀ : Configuration × Svc) (ops : List ConfigOp) :
    let c := (run step s₀ (.init :: ops)).1.params
    (∀ p, inRange p (c.value p) = true) ∧ computeCrc c.value = c.liveCrc ∧
      (∀ v, (c.verify v).1 = .ok) ∧
      ∀ id value v, ((c.setAt id value v).1 ≠ .ok → (c.setAt id value v).2.1.value = c.value) ∧
        (c.locked = true → ∀ p, (configDef p).writableInFlight = false →
          (c.setAt id value v).2.1.value p = c.value p) := by
  intro c
  have hsound : Sound c := sound_run s₀ ops
  refine ⟨hsound.1, hsound.2, ?_, ?_⟩
  · intro v
    rw [verify_of_sound hsound v]
  intro id value v
  rcases setAt_cases id value c v with ⟨-, hvalue, -⟩ | ⟨p, hok, -, hwritable, hvalue, -⟩
  · refine ⟨fun _ => hvalue, fun _ q _ => ?_⟩
    rw [hvalue]
  · refine ⟨fun hrefused => absurd hok hrefused, ?_⟩
    intro hlocked q hfixed
    have hq : q ≠ p := by
      rintro rfl
      rw [hwritable hlocked] at hfixed
      cases hfixed
    rw [hvalue, Function.update_of_ne hq]

end Configuration

end QiranFirmware
