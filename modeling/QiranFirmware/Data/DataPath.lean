import QiranFirmware.Data.StorageDdr

/-! # The data path

`data_path.c`: the slots that the fabric is given to fill, and those it has filled. No slot is free
that has something in it, as long as no region is released full or written to while it is free.
-/
namespace QiranFirmware

/-- The statics of `data_path.c`, and the regions it works on. -/
structure DataPath where
  ddr : Ddr := {}
  ready : List UInt32 := []
  completions : UInt32 := 0
  armFailures : UInt32 := 0
  dropped : UInt32 := 0

inductive DataPathOp
  | ddr (op : DdrOp)
  | arm (channel : UInt32)
  | complete (datum : UInt32)
  | takeReady

namespace DataPath

open Machine Ddr

def readySlots : ℕ := DdrRegion.all.length

def arm (channel : UInt32) (d : DataPath) (v : Svc) : Status × DataPath × Svc :=
  let region := d.ddr.freeRawSlot channel
  if channels ≤ channel then (.errParam, d, v)
  else
    match region with
    | none => (.errBusy, { d with armFailures := d.armFailures + 1 }, v.report .ddrOverrun channel)
    | some r =>
      let (st, ddr, v) := d.ddr.handoff r.code DdrOwner.none.code DdrOwner.plDma.code v
      (st, { d with ddr }, v)

def takeReady (d : DataPath) : Option UInt32 × DataPath :=
  match d.ready with
  | [] => (none, d)
  | region :: ready => (some region, { d with ready })

def complete (datum : UInt32) (d : DataPath) (v : Svc) : DataPath × Svc :=
  let region := datum % UInt32.ofNat DdrRegion.all.length
  let (st, ddr, v) :=
    d.ddr.handoff region DdrOwner.plDma.code DdrOwner.psProcessing.code v
  if st ≠ .ok then ({ d with ddr, dropped := d.dropped + 1 }, v)
  else if readySlots ≤ d.ready.length then
    ({ d with ddr, dropped := d.dropped + 1 }, v.report .ddrOverrun region)
  else ({ d with ddr, ready := d.ready ++ [region], completions := d.completions + 1 }, v)

def step (s : DataPath × Svc) : DataPathOp → DataPath × Svc
  | .ddr op =>
    let (_, ddr, v) := s.1.ddr.call s.2 op
    ({ s.1 with ddr }, v)
  | .arm channel => (s.1.arm channel s.2).2
  | .complete datum => s.1.complete datum s.2
  | .takeReady => (s.1.takeReady.2, s.2)

/-- What `DDR_OWNER_NONE` says: free, and cleared. -/
def Cleared (s : Ddr) : Prop := ∀ r, (s.region r).owner = .none → (s.region r).used = 0

/-- The call does not give up a region that something is in, and does not put anything in a region
that is free. -/
def KeepsCleared (s : Ddr) : DdrOp → Prop
  | .handoff region expected next =>
    next = DdrOwner.none.code → ∀ r, DdrRegion.ofCode region = some r → (s.region r).base ≠ 0 →
      (s.region r).owner.code = expected → (s.region r).used = 0
  | .append region owner data len =>
    owner = DdrOwner.none.code → ∀ r, DdrRegion.ofCode region = some r → (s.region r).base ≠ 0 →
      (s.region r).owner = .none → data.isSome → len ≠ 0 →
        (s.region r).capacity - (s.region r).used < len
  | .setUsed region owner used =>
    owner = DdrOwner.none.code → ∀ r, DdrRegion.ofCode region = some r → (s.region r).base ≠ 0 →
      (s.region r).owner = .none → used = 0 ∨ (s.region r).capacity < used
  | .setRegion .. | .clear .. | .read .. => True

def Keeps (s : DataPath × Svc) : DataPathOp → Prop
  | .ddr op => KeepsCleared s.1.ddr op
  | .arm _ | .complete _ | .takeReady => True

theorem cleared_update {s s' : Ddr} (h : Cleared s) {r : DdrRegion} {x : Region}
    (hregion : s'.region = Function.update s.region r x) :
    Cleared s' ↔ (x.owner = .none → x.used = 0) := by
  constructor
  · intro h'
    have hr := h' r
    rwa [hregion, Function.update_self] at hr
  · intro hx r'
    rw [hregion]
    by_cases hr : r' = r
    · rw [hr, Function.update_self]
      exact hx
    · rw [Function.update_of_ne hr]
      exact h r'

/-- A region that is free and cleared stays so exactly when the call keeps to it. -/
theorem cleared_call {s : Ddr} (hbound : s.Bounded) (h : Cleared s) (v : Svc) (op : DdrOp) :
    Cleared (s.call v op).2.1 ↔ KeepsCleared s op := by
  have heffect := call_effect hbound v op
  have hok {r : DdrRegion} {x : Region} {memory : Buf} (hdone : Done s r op x memory) :
      (s.call v op).1 = .ok := call_of_done v hdone
  generalize s.call v op = c at heffect hok
  obtain ⟨st, s', v'⟩ := c
  dsimp only at heffect hok ⊢
  -- a call that changes no region was not one of those that would have cleared or filled one
  have hsame (hst : st ≠ .ok) (hregion : s'.region = s.region) : Cleared s' ↔ KeepsCleared s op := by
    have hkept : Cleared s' := fun r => hregion ▸ h r
    refine ⟨fun _ => ?_, fun _ => hkept⟩
    cases op with
    | setRegion region base bytes => trivial
    | clear region expected => trivial
    | read region owner out => trivial
    | handoff region expected next =>
      rintro hnext r hr hbase howner
      rw [hnext] at hok
      exact absurd (hok (.handoff ⟨hr, hbase, howner⟩ (DdrOwner.ofCode_code .none))) hst
    | append region owner data len =>
      rintro hnone r hr hbase howner hdata hlen
      obtain ⟨data, rfl⟩ := Option.isSome_iff_exists.mp hdata
      by_contra hroom
      exact hst (hok (.append ⟨hr, hbase, by rw [howner, hnone]⟩ hlen hroom))
    | setUsed region owner used =>
      rintro hnone r hr hbase howner
      by_contra hroom
      exact hst (hok (.setUsed ⟨hr, hbase, by rw [howner, hnone]⟩ (not_or.mp hroom).2))
  cases heffect with
  | refused hst => exact hsame hst rfl
  | disputed => exact hsame (by simp) rfl
  | overfull => exact hsame (by simp) rfl
  | @done r x memory hdone handoffs =>
    rw [cleared_update h rfl]
    cases hdone with
    | setRegion => exact ⟨fun _ => trivial, fun _ _ => rfl⟩
    | clear => exact ⟨fun _ => trivial, fun _ _ => rfl⟩
    | read => exact ⟨fun _ => trivial, fun _ => h r⟩
    | @handoff region expected next hheld owner hnext =>
      constructor
      · intro hx hnone r' hr' _ _
        obtain rfl := Option.some.inj (hheld.region.symm.trans hr')
        rw [hnone, DdrOwner.ofCode_code] at hnext
        exact hx (Option.some.inj hnext).symm
      · intro hkeeps howner
        refine hkeeps ?_ r hheld.region hheld.configured hheld.owner
        rw [← DdrOwner.code_of_ofCode hnext]
        exact congrArg _ howner
    | @append region owner len data hheld hlen hroom =>
      constructor
      · intro hx _ r' hr' _ howner
        obtain rfl := Option.some.inj (hheld.region.symm.trans hr')
        have hused := hx howner
        dsimp only at hused
        rw [h r howner, UInt32.zero_add] at hused
        exact absurd hused hlen
      · intro hkeeps howner
        have hnone : owner = DdrOwner.none.code := by rw [← hheld.owner]; exact congrArg _ howner
        exact absurd (hkeeps hnone r hheld.region hheld.configured howner rfl hlen) hroom
    | @setUsed region owner used hheld hroom =>
      constructor
      · intro hx _ r' hr' _ howner
        obtain rfl := Option.some.inj (hheld.region.symm.trans hr')
        exact .inl (hx howner)
      · intro hkeeps howner
        have hnone : owner = DdrOwner.none.code := by rw [← hheld.owner]; exact congrArg _ howner
        exact (hkeeps hnone r hheld.region hheld.configured howner).resolve_right hroom

/-- Arming and completing are hand-offs between the owners that the source says, none of which is
to nobody. -/
theorem arm_ddr (channel : UInt32) (d : DataPath) (v : Svc) :
    (d.arm channel v).2.1.ddr = d.ddr ∨ ∃ r, d.ddr.freeRawSlot channel = some r ∧
      (d.arm channel v).2.1.ddr =
        (d.ddr.call v (.handoff r.code DdrOwner.none.code DdrOwner.plDma.code)).2.1 := by
  unfold arm
  dsimp only
  split
  · exact .inl rfl
  split
  · exact .inl rfl
  · rename_i r hr
    exact .inr ⟨r, hr, rfl⟩

theorem complete_ddr (datum : UInt32) (d : DataPath) (v : Svc) :
    (d.complete datum v).1.ddr = (d.ddr.call v (.handoff (datum % UInt32.ofNat DdrRegion.all.length)
      DdrOwner.plDma.code DdrOwner.psProcessing.code)).2.1 := by
  unfold complete
  dsimp only [call]
  split
  · rfl
  split
  · rfl
  · rfl

theorem takeReady_ddr (d : DataPath) : d.takeReady.2.ddr = d.ddr := by
  unfold takeReady
  cases d.ready with
  | nil => rfl
  | cons region ready => rfl

/-- A step of the data path is a call on the regions, or none. -/
theorem ddr_step (s : DataPath × Svc) (op : DataPathOp) :
    ((step s op).1.ddr = s.1.ddr ∧ Keeps s op) ∨ ∃ op',
      (step s op).1.ddr = (s.1.ddr.call s.2 op').2.1 ∧ (KeepsCleared s.1.ddr op' ↔ Keeps s op) := by
  have hhandoff (region expected : UInt32) {o : DdrOwner} (ho : o ≠ .none) :
      KeepsCleared s.1.ddr (.handoff region expected o.code) :=
    fun hnone => absurd (DdrOwner.code_inj.mp hnone) ho
  cases op with
  | ddr op => exact .inr ⟨op, rfl, Iff.rfl⟩
  | arm channel =>
    rcases arm_ddr channel s.1 s.2 with hsame | ⟨r, -, harm⟩
    · exact .inl ⟨hsame, trivial⟩
    · exact .inr ⟨_, harm, fun _ => trivial, fun _ => hhandoff _ _ (by decide)⟩
  | complete datum =>
    exact .inr ⟨_, complete_ddr datum s.1 s.2, fun _ => trivial, fun _ => hhandoff _ _ (by decide)⟩
  | takeReady => exact .inl ⟨takeReady_ddr s.1, trivial⟩

theorem bounded_step (s : DataPath × Svc) (op : DataPathOp) (h : s.1.ddr.Bounded) :
    (step s op).1.ddr.Bounded := by
  rcases ddr_step s op with ⟨hsame, -⟩ | ⟨op', hcall, -⟩
  · exact hsame ▸ h
  · exact hcall ▸ bounded_call h s.2 op'

theorem cleared_step {s : DataPath × Svc} (hbound : s.1.ddr.Bounded) (h : Cleared s.1.ddr)
    (op : DataPathOp) : Cleared (step s op).1.ddr ↔ Keeps s op := by
  rcases ddr_step s op with ⟨hsame, hkeeps⟩ | ⟨op', hcall, hkeeps⟩
  · rw [hsame]
    exact iff_of_true h hkeeps
  · rw [hcall, cleared_call hbound h, hkeeps]

theorem freeRawSlot_free {s : Ddr} {channel : UInt32} {r : DdrRegion}
    (h : s.freeRawSlot channel = some r) : (s.region r).owner = .none := by
  unfold freeRawSlot at h
  split at h
  · simp at h
  · obtain ⟨i, -, hi⟩ := List.exists_of_findSome?_eq_some h
    have hfree := (Option.filter_eq_some_iff.mp hi).2
    simp only [Bool.and_eq_true, beq_iff_eq] at hfree
    exact hfree.2

def FreeEmpty (s : DataPath × Svc) : Prop :=
  Cleared s.1.ddr ∧
    ∀ channel r, s.1.ddr.freeRawSlot channel = some r → (s.1.ddr.region r).used = 0

theorem freeEmpty_iff {s : DataPath × Svc} : FreeEmpty s ↔ Cleared s.1.ddr :=
  ⟨fun h => h.1, fun h => ⟨h, fun _ r hr => h r (freeRawSlot_free hr)⟩⟩

/-- In every state of a run the free regions are empty exactly when every call of it keeps them so. -/
theorem free_regions_empty_iff (ops : List DataPathOp) :
    (∀ before after, ops = before ++ after → FreeEmpty (run step ({}, {}) before)) ↔
      Along step Keeps ({}, {}) ops := by
  have hinit : ({} : DataPath).ddr.Bounded := fun _ => UInt32.le_refl _
  have hbounded (before : List DataPathOp) : (run step ({}, {}) before).1.ddr.Bounded :=
    @run_keeps _ _ step (fun s => s.1.ddr.Bounded) bounded_step _ hinit before
  rw [← @reached_iff_along _ _ step Keeps (fun s => s.1.ddr.Bounded ∧ Cleared s.1.ddr) ?_ ({}, {}) ops
    ⟨hinit, fun _ _ => rfl⟩]
  · constructor
    · intro h before after heq
      exact ⟨hbounded before, (h before after heq).1⟩
    · intro h before after heq
      exact freeEmpty_iff.mpr (h before after heq).2
  · rintro s op ⟨hbound, hcleared⟩
    rw [← cleared_step hbound hcleared op]
    exact and_iff_right (bounded_step s op hbound)

def released : List DataPathOp :=
  [.ddr (.setRegion 0 0x100 64), .arm 0, .ddr (.setUsed 0 1 8), .complete 0, .ddr (.handoff 0 2 0)]

/-- The slot is armed again with the old data in it. -/
theorem released_slot_not_empty :
    ¬ (∀ before after, released ++ [.arm 0] = before ++ after →
      FreeEmpty (run step ({}, {}) before)) ∧
    ((run step ({}, {}) (released ++ [.arm 0])).1.ddr.region .rawCh0A).owner = .plDma ∧
    ((run step ({}, {}) (released ++ [.arm 0])).1.ddr.region .rawCh0A).used = 8 := by
  refine ⟨?_, by decide +kernel, by decide +kernel⟩
  intro h
  have hused := (h released [.arm 0] rfl).1 .rawCh0A (by decide +kernel)
  revert hused
  decide +kernel

end DataPath

end QiranFirmware
