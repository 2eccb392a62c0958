import QiranFirmware.Data.DataPath

/-! # A completion names its region

`complete` in `data_path.c` takes the datum of the interrupt modulo the number of regions, so that
a datum which is no region's index stands for one nevertheless.
-/
namespace QiranFirmware.DataPath

open Machine Ddr

def completed (datum : UInt32) : DdrRegion :=
  (DdrRegion.ofCode (datum % UInt32.ofNat DdrRegion.all.length)).getD .rawCh0A

theorem ofCode_mod (datum : UInt32) :
    DdrRegion.ofCode (datum % UInt32.ofNat DdrRegion.all.length) = some (completed datum) := by
  have hlt : (datum % 7).toNat < 7 := by
    rw [UInt32.toNat_mod]
    exact Nat.mod_lt _ (by decide)
  have hsome : ∀ n < 7, (DdrRegion.ofCode (UInt32.ofNat n)).isSome = true := by decide
  have hcode := hsome _ hlt
  rw [UInt32.ofNat_toNat] at hcode
  obtain ⟨r, hr⟩ := Option.isSome_iff_exists.mp hcode
  have hmod : DdrRegion.ofCode (datum % UInt32.ofNat DdrRegion.all.length) = some r := hr
  rw [completed, hmod, Option.getD_some]

theorem completed_code (r : DdrRegion) : completed r.code = r := by
  cases r <;> rfl

theorem code_completed (datum : UInt32) : (completed datum).code = datum % 7 :=
  DdrRegion.code_of_ofCode (ofCode_mod datum)

def Filling (s : Ddr) (r : DdrRegion) : Prop := (s.region r).owner = .plDma

def handed (r : DdrRegion) (s : Ddr) : Ddr :=
  { s.put r { s.region r with owner := .psProcessing } with handoffs := s.handoffs + 1 }

inductive CompleteEffect (d : DataPath) (v : Svc) (r : DdrRegion) : DataPath → Svc → Prop
  | accepted (hbase : (d.ddr.region r).base ≠ 0) (hfilling : Filling d.ddr r)
      (hroom : d.ready.length < readySlots) :
      CompleteEffect d v r { d with
        ddr := handed r d.ddr
        ready := d.ready ++ [r.code]
        completions := d.completions + 1 } v
  | orphaned (hbase : (d.ddr.region r).base ≠ 0) (hfilling : Filling d.ddr r)
      (hfull : readySlots ≤ d.ready.length) :
      CompleteEffect d v r { d with ddr := handed r d.ddr, dropped := d.dropped + 1 }
        (v.report .ddrOverrun r.code)
  | unset (hbase : (d.ddr.region r).base = 0) :
      CompleteEffect d v r { d with dropped := d.dropped + 1 } v
  | disputed (hbase : (d.ddr.region r).base ≠ 0) (hfilling : ¬ Filling d.ddr r) (detail : UInt32) :
      CompleteEffect d v r
        { d with
          ddr := { d.ddr with violations := d.ddr.violations + 1 }
          dropped := d.dropped + 1 }
        (v.report .bufferOwnership detail)

theorem complete_effect (d : DataPath) (v : Svc) (datum : UInt32) :
    CompleteEffect d v (completed datum) (d.complete datum v).1 (d.complete datum v).2 := by
  have hregion := DdrRegion.code_of_ofCode (ofCode_mod datum)
  unfold complete
  simp only [handoff, ofCode_mod, DdrOwner.ofCode_code, owned]
  by_cases hbase : (d.ddr.region (completed datum)).base = 0
  · simp only [hbase, ↓reduceIte, ne_eq, reduceCtorEq, not_false_eq_true]
    exact .unset hbase
  simp only [hbase, ↓reduceIte]
  by_cases hfilling : (d.ddr.region (completed datum)).owner = .plDma
  · rw [if_neg (not_not.mpr (congrArg DdrOwner.code hfilling)), if_neg (not_not.mpr rfl)]
    split
    · rename_i hfull
      rw [← hregion]
      exact .orphaned hbase hfilling hfull
    · rename_i hroom
      rw [← hregion]
      exact .accepted hbase hfilling (Nat.not_le.mp hroom)
  · have howner : (d.ddr.region (completed datum)).owner.code ≠ DdrOwner.plDma.code :=
      mt DdrOwner.code_inj.mp hfilling
    simp only [ne_eq, howner, not_false_eq_true, ↓reduceIte, reduceCtorEq]
    exact .disputed hbase hfilling _

/-- What is asked of the handler: a region changes hands or a completion is recorded only where the
datum is the index of a region that the fabric owns, which is then the only one to change; and a
datum that is not is dropped, and reported. -/
structure Named (d : DataPath) (v : Svc) (datum : UInt32) : Prop where
  only : (d.complete datum v).1.ddr.region ≠ d.ddr.region ∨
      (d.complete datum v).1.ready ≠ d.ready ∨ (d.complete datum v).1.completions ≠ d.completions →
    ∃ r : DdrRegion, r.code = datum ∧ Filling d.ddr r ∧
      ∀ r', r' ≠ r → (d.complete datum v).1.ddr.region r' = d.ddr.region r'
  refused : (∀ r : DdrRegion, r.code = datum → ¬ Filling d.ddr r) →
    (d.complete datum v).1.ddr.region = d.ddr.region ∧ (d.complete datum v).1.ready = d.ready ∧
      (d.complete datum v).1.completions = d.completions ∧
      (d.complete datum v).1.dropped = d.dropped + 1 ∧
      ∃ id detail, (d.complete datum v).2.trace = v.trace ++ [.report id detail]

/-- The region that the datum stands for is owned by the fabric and has the datum as its index, or is
configured and not owned by the fabric. -/
def Wired (s : Ddr) (datum : UInt32) : Prop :=
  Filling s (completed datum) ∧ (completed datum).code = datum ∨
    ¬ Filling s (completed datum) ∧ (s.region (completed datum)).base ≠ 0

/-- A datum that is an index stands for the region whose index it is. -/
theorem not_filling_of_code {s : Ddr} {datum : UInt32}
    (h : Filling s (completed datum) → (completed datum).code ≠ datum) (r : DdrRegion)
    (hr : r.code = datum) : ¬ Filling s r := by
  subst hr
  rw [completed_code] at h
  exact fun hfilling => h hfilling rfl

theorem handed_of_ne {r r' : DdrRegion} (h : r' ≠ r) (s : Ddr) :
    (handed r s).region r' = s.region r' :=
  Function.update_of_ne h ..

theorem owner_handed (r : DdrRegion) (s : Ddr) : ((handed r s).region r).owner = .psProcessing := by
  rw [handed, put]
  dsimp only
  rw [Function.update_self]

theorem handed_ne {r : DdrRegion} {s : Ddr} (h : Filling s r) : (handed r s).region ≠ s.region := by
  intro hsame
  have howner := owner_handed r s
  rw [hsame, h] at howner
  cases howner

/-- The handler does what is asked of it exactly for the data that are wired to their regions. -/
theorem completion_named_iff (d : DataPath) (v : Svc) (datum : UInt32) :
    Named d v datum ↔ Wired d.ddr datum := by
  have heffect := complete_effect d v datum
  constructor
  · rintro ⟨honly, hrefused⟩
    -- a datum that the handler lets through is the index of what it stands for
    have hindex (hfilling : Filling d.ddr (completed datum))
        (hchanged : (d.complete datum v).1.ddr.region ≠ d.ddr.region) : Wired d.ddr datum := by
      obtain ⟨r, rfl, -, -⟩ := honly (.inl hchanged)
      exact .inl ⟨hfilling, congrArg _ (completed_code r)⟩
    by_contra hwired
    obtain ⟨hnamed, hset⟩ := not_or.mp hwired
    have hquiet := hrefused (not_filling_of_code fun hfilling hcode => hnamed ⟨hfilling, hcode⟩)
    generalize d.complete datum v = c at heffect hindex hquiet
    obtain ⟨d', v'⟩ := c
    cases heffect with
    | accepted hbase hfilling => exact hwired (hindex hfilling (handed_ne hfilling))
    | orphaned hbase hfilling => exact hwired (hindex hfilling (handed_ne hfilling))
    | unset hbase =>
      obtain ⟨-, -, -, -, id, detail, htrace⟩ := hquiet
      simp at htrace
    | disputed hbase hfilling => exact hset ⟨hfilling, hbase⟩
  · intro hwired
    generalize hc : d.complete datum v = c at heffect
    obtain ⟨d', v'⟩ := c
    have hhanded (hfilling : Filling d.ddr (completed datum)) :
        (completed datum).code = datum :=
      hwired.elim And.right fun h => absurd hfilling h.1
    cases heffect with
    | accepted hbase hfilling =>
      refine ⟨fun _ => ⟨_, hhanded hfilling, hfilling, ?_⟩, ?_⟩
      · rw [hc]
        exact fun r' hne => handed_of_ne hne d.ddr
      · exact fun hnone => absurd hfilling (hnone _ (hhanded hfilling))
    | orphaned hbase hfilling =>
      refine ⟨fun _ => ⟨_, hhanded hfilling, hfilling, ?_⟩, ?_⟩
      · rw [hc]
        exact fun r' hne => handed_of_ne hne d.ddr
      · exact fun hnone => absurd hfilling (hnone _ (hhanded hfilling))
    | unset hbase =>
      obtain ⟨hfilling, hcode⟩ := hwired.resolve_right fun h => h.2 hbase
      refine ⟨?_, fun hnone => absurd hfilling (hnone _ hcode)⟩
      rw [hc]
      rintro (h | h | h) <;> exact absurd rfl h
    | disputed hbase hfilling detail =>
      refine ⟨?_, fun _ => ?_⟩
      · rw [hc]
        rintro (h | h | h) <;> exact absurd rfl h
      · rw [hc]
        exact ⟨rfl, rfl, rfl, rfl, _, _, rfl⟩

def armed : DataPath := (run step ({}, {}) [.ddr (.setRegion 0 0x100 64), .arm 0]).1

/-- A datum that is no index hands over another region, and counts as its completion. -/
theorem miswired_datum_accepted :
    ¬ Named armed {} 7 ∧ (∀ r : DdrRegion, r.code ≠ 7) ∧
      ((armed.complete 7 {}).1.ddr.region .rawCh0A).owner = .psProcessing ∧
      (armed.complete 7 {}).1.ready = [0] ∧ (armed.complete 7 {}).1.dropped = 0 := by
  have hnone (r : DdrRegion) : r.code ≠ 7 := by
    cases r <;> decide
  have hready : (armed.complete 7 {}).1.ready = [0] := by decide +kernel
  refine ⟨?_, hnone, by decide +kernel, hready, by decide +kernel⟩
  rintro ⟨honly, -⟩
  obtain ⟨r, hr, -⟩ := honly (.inr (.inl (by rw [hready]; decide +kernel)))
  exact hnone r hr

end QiranFirmware.DataPath
