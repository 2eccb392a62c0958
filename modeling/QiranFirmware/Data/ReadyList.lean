import QiranFirmware.Data.Completion

/-! # The list of completed buffers

A region enters the list when its completion takes it from the fabric to the processor, which is
where it stays as long as the processor hands on only what it has taken from the list. So no region
is there twice, and there is room for each.
-/
namespace QiranFirmware.DataPath

open Machine Ddr

/-- The data path, with what the code does not keep: the regions whose completions were accepted,
those taken from the list, both in order, and the ones taken that have not completed again. -/
structure Acquisition where
  path : DataPath := {}
  v : Svc := {}
  accepted : List UInt32 := []
  taken : List UInt32 := []
  held : List UInt32 := []

def handsOver (datum : UInt32) (s : Acquisition) : Bool :=
  (s.path.ddr.handoff (datum % UInt32.ofNat DdrRegion.all.length) DdrOwner.plDma.code
    DdrOwner.psProcessing.code s.v).1 == .ok

namespace Acquisition

def step (s : Acquisition) (op : DataPathOp) : Acquisition :=
  let (path, v) := DataPath.step (s.path, s.v) op
  let s' := { s with path, v }
  match op with
  | .complete datum =>
    if handsOver datum s then
      let region := datum % UInt32.ofNat DdrRegion.all.length
      { s' with accepted := s.accepted ++ [region], held := s.held.filter (· ≠ region) }
    else s'
  | .takeReady =>
    match s.path.takeReady.1 with
    | some region => { s' with taken := s.taken ++ [region], held := region :: s.held }
    | none => s'
  | .ddr _ | .arm _ => s'

end Acquisition

def Taken (s : Acquisition) : DataPathOp → Prop
  | .ddr (.handoff region _ _) | .ddr (.clear region _) => region ∈ s.held
  | .ddr (.setRegion ..) | .ddr (.append ..) | .ddr (.setUsed ..) | .ddr (.read ..) => True
  | .arm _ | .complete _ | .takeReady => True

instance (s : Acquisition) : ∀ op, Decidable (Taken s op)
  | .ddr (.handoff region _ _) => inferInstanceAs (Decidable (region ∈ s.held))
  | .ddr (.clear region _) => inferInstanceAs (Decidable (region ∈ s.held))
  | .ddr (.setRegion ..) | .ddr (.append ..) | .ddr (.setUsed ..) | .ddr (.read ..) => .isTrue trivial
  | .arm _ | .complete _ | .takeReady => .isTrue trivial

def Processing (s : Ddr) (n : UInt32) : Prop :=
  ∃ r : DdrRegion, r.code = n ∧ (s.region r).owner = .psProcessing

structure Listed (s : Acquisition) : Prop where
  bounded : s.path.ddr.Bounded
  order : s.accepted = s.taken ++ s.path.ready
  nodup : s.path.ready.Nodup
  owned : ∀ n ∈ s.path.ready, Processing s.path.ddr n
  counted : s.path.completions = UInt32.ofNat s.accepted.length
  apart : ∀ n ∈ s.held, n ∉ s.path.ready

theorem listed_init : Listed {} where
  bounded := fun _ => UInt32.le_refl _
  order := rfl
  nodup := List.nodup_nil
  owned := fun _ hn => absurd hn List.not_mem_nil
  counted := rfl
  apart := fun _ hn => absurd hn List.not_mem_nil

/-- No more regions are in the list than there are. -/
theorem Listed.length_le {s : Acquisition} (h : Listed s) {r : DdrRegion} (hr : r.code ∉ s.path.ready) :
    s.path.ready.length < readySlots := by
  have hnodup : (r.code :: s.path.ready).Nodup := List.nodup_cons.mpr ⟨hr, h.nodup⟩
  have hsub : r.code :: s.path.ready ⊆ DdrRegion.all.map DdrRegion.code := by
    intro n hn
    obtain ⟨r', rfl⟩ : ∃ r' : DdrRegion, r'.code = n := by
      rcases List.mem_cons.mp hn with rfl | hn
      · exact ⟨r, rfl⟩
      · obtain ⟨r', hr', -⟩ := h.owned n hn
        exact ⟨r', hr'⟩
    refine List.mem_map_of_mem ?_
    cases r' <;> decide
  have hle := (hnodup.subperm hsub).length_le
  rwa [List.length_cons, List.length_map] at hle

/-- What leaves the list alone, and takes none of its regions from the processor, keeps it in order. -/
theorem Listed.of_regions {s : Acquisition} (h : Listed s) {path : DataPath} (v : Svc)
    (hbounded : path.ddr.Bounded) (hready : path.ready = s.path.ready)
    (hcompletions : path.completions = s.path.completions)
    (hkept : ∀ r, r.code ∈ s.path.ready →
      (path.ddr.region r).owner = (s.path.ddr.region r).owner) : Listed { s with path, v } := by
  refine ⟨hbounded, hready ▸ h.order, hready ▸ h.nodup, ?_, hcompletions.trans h.counted,
    hready ▸ h.apart⟩
  intro n hn
  dsimp only at hn
  rw [hready] at hn
  obtain ⟨r, rfl, howner⟩ := h.owned n hn
  exact ⟨r, rfl, (hkept r hn).trans howner⟩

def gives : DdrOp → Option UInt32
  | .handoff region _ _ | .clear region _ => some region
  | .setRegion .. | .append .. | .setUsed .. | .read .. => none

/-- No other call changes the owner of a region, and these no other region's. -/
theorem owner_call {s : Ddr} (hbound : s.Bounded) (v : Svc) {op : DdrOp} {r : DdrRegion}
    (h : gives op ≠ some r.code) : ((s.call v op).2.1.region r).owner = (s.region r).owner := by
  have heffect := call_effect hbound v op
  generalize s.call v op = c at heffect
  obtain ⟨st, s', v'⟩ := c
  cases heffect with
  | refused => rfl
  | disputed => rfl
  | overfull => rfl
  | @done r' x memory hdone handoffs =>
    dsimp only
    by_cases hr : r = r'
    swap
    · rw [Function.update_of_ne hr]
    subst hr
    rw [Function.update_self]
    cases hdone with
    | setRegion => rfl
    | append => rfl
    | setUsed => rfl
    | read => rfl
    | handoff hheld => exact absurd (congrArg some (DdrRegion.code_of_ofCode hheld.region).symm) h
    | clear hr => exact absurd (congrArg some (DdrRegion.code_of_ofCode hr).symm) h

theorem Listed.call {s : Acquisition} (h : Listed s) {op : DdrOp}
    (hgives : ∀ n, gives op = some n → n ∉ s.path.ready) : Listed (s.step (.ddr op)) := by
  refine h.of_regions _ (bounded_call h.bounded s.v op) rfl rfl ?_
  intro r hr
  exact owner_call h.bounded s.v fun hop => hgives _ hop hr

theorem arm_list (channel : UInt32) (d : DataPath) (v : Svc) :
    (d.arm channel v).2.1.ready = d.ready ∧ (d.arm channel v).2.1.completions = d.completions := by
  unfold DataPath.arm
  dsimp only
  split
  · exact ⟨rfl, rfl⟩
  split
  · exact ⟨rfl, rfl⟩
  · exact ⟨rfl, rfl⟩

/-- A region that is armed is free, so it is not in the list. -/
theorem Listed.arm {s : Acquisition} (h : Listed s) (channel : UInt32) :
    Listed (s.step (.arm channel)) := by
  obtain ⟨hready, hcompletions⟩ := arm_list channel s.path s.v
  refine h.of_regions _ (bounded_step (s.path, s.v) (.arm channel) h.bounded) hready hcompletions ?_
  intro r hr
  rcases arm_ddr channel s.path s.v with hsame | ⟨r', hfree, harm⟩
  · exact congrArg (fun ddr : Ddr => (ddr.region r).owner) hsame
  · have hother : r' ≠ r := by
      rintro rfl
      obtain ⟨r'', hcode, howner⟩ := h.owned _ hr
      rw [DdrRegion.code_inj.mp hcode, freeRawSlot_free hfree] at howner
      cases howner
    refine (congrArg (fun ddr : Ddr => (ddr.region r).owner) harm).trans
      (owner_call h.bounded s.v fun hgives => hother ?_)
    exact DdrRegion.code_inj.mp (Option.some.inj hgives)

theorem handsOver_iff {s : Acquisition} {datum : UInt32} :
    handsOver datum s = true ↔ (s.path.ddr.region (completed datum)).base ≠ 0 ∧
      Filling s.path.ddr (completed datum) := by
  simp only [handsOver, handoff, ofCode_mod, DdrOwner.ofCode_code, owned, Filling]
  by_cases hbase : (s.path.ddr.region (completed datum)).base = 0
  · simp [hbase]
  by_cases howner : (s.path.ddr.region (completed datum)).owner = .plDma
  · simp [hbase, howner]
  · simp [hbase, howner, DdrOwner.code_inj]

theorem Listed.complete {s : Acquisition} (h : Listed s) (datum : UInt32) :
    Listed (s.step (.complete datum)) := by
  have heffect := complete_effect s.path s.v datum
  have hbounded := bounded_step (s.path, s.v) (.complete datum) h.bounded
  have hcode : datum % UInt32.ofNat DdrRegion.all.length = (completed datum).code :=
    (code_completed datum).symm
  simp only [Acquisition.step, DataPath.step, hcode] at hbounded ⊢
  -- what the fabric owns is not in the list
  have hnew (hfilling : Filling s.path.ddr (completed datum)) :
      (completed datum).code ∉ s.path.ready := by
    intro hin
    obtain ⟨r, hr, howner⟩ := h.owned _ hin
    rw [DdrRegion.code_inj.mp hr, hfilling] at howner
    cases howner
  generalize s.path.complete datum s.v = c at heffect hbounded
  obtain ⟨path, v⟩ := c
  dsimp only at heffect hbounded ⊢
  cases heffect with
  | accepted hbase hfilling =>
    rw [if_pos (handsOver_iff.mpr ⟨hbase, hfilling⟩)]
    refine ⟨hbounded, ?_, ?_, ?_, ?_, ?_⟩
    · simp only [h.order, List.append_assoc]
    · rw [(List.perm_append_singleton _ _).nodup_iff]
      exact List.nodup_cons.mpr ⟨hnew hfilling, h.nodup⟩
    · intro n hn
      rcases List.mem_append.mp hn with hold | hlast
      · obtain ⟨r, rfl, howner⟩ := h.owned n hold
        have hother : r ≠ completed datum := fun heq => hnew hfilling (heq ▸ hold)
        exact ⟨r, rfl, (congrArg Region.owner (handed_of_ne hother s.path.ddr)).trans howner⟩
      · obtain rfl := List.mem_singleton.mp hlast
        exact ⟨completed datum, rfl, owner_handed (completed datum) s.path.ddr⟩
    · simp only [h.counted, List.length_append, List.length_singleton, UInt32.ofNat_add]
      rfl
    · intro n hn hin
      obtain ⟨hheld, hne⟩ := List.mem_filter.mp hn
      rcases List.mem_append.mp hin with hold | hlast
      · exact h.apart n hheld hold
      · exact absurd (List.mem_singleton.mp hlast) (of_decide_eq_true hne)
  | orphaned hbase hfilling hfull =>
    exact absurd hfull (Nat.not_le.mpr (h.length_le (hnew hfilling)))
  | unset hbase =>
    rw [if_neg fun hover => (handsOver_iff.mp hover).1 hbase]
    exact h.of_regions _ hbounded rfl rfl fun _ _ => rfl
  | disputed hbase hfilling =>
    rw [if_neg fun hover => hfilling (handsOver_iff.mp hover).2]
    exact h.of_regions _ hbounded rfl rfl fun _ _ => rfl

theorem Listed.takeReady {s : Acquisition} (h : Listed s) : Listed (s.step .takeReady) := by
  have horder := h.order
  have hnodup := h.nodup
  have howned := h.owned
  have hapart := h.apart
  simp only [Acquisition.step, DataPath.step, DataPath.takeReady]
  cases hready : s.path.ready with
  | nil => exact h
  | cons region ready =>
    rw [hready] at horder hnodup howned hapart
    obtain ⟨hfirst, hrest⟩ := List.nodup_cons.mp hnodup
    refine ⟨h.bounded, ?_, hrest, ?_, h.counted, ?_⟩
    · rw [horder, List.append_assoc, List.singleton_append]
    · exact fun n hn => howned n (List.mem_cons_of_mem _ hn)
    · intro n hn hin
      rcases List.mem_cons.mp hn with rfl | hheld
      · exact hfirst hin
      · exact hapart n hheld (List.mem_cons_of_mem _ hin)

theorem listed_step {s : Acquisition} {op : DataPathOp} (h : Listed s) (hop : Taken s op) :
    Listed (s.step op) := by
  cases op with
  | arm channel => exact h.arm channel
  | complete datum => exact h.complete datum
  | takeReady => exact h.takeReady
  | ddr op =>
    refine h.call fun n hn => ?_
    cases op with
    | handoff region expected next => exact Option.some.inj hn ▸ h.apart region hop
    | clear region expected => exact Option.some.inj hn ▸ h.apart region hop
    | setRegion => cases hn
    | append => cases hn
    | setUsed => cases hn
    | read => cases hn

theorem listed_run {ops : List DataPathOp} (h : Along Acquisition.step Taken {} ops) :
    Listed (run Acquisition.step {} ops) :=
  @run_invariant _ _ Acquisition.step Taken Listed (fun _ _ hs hop => listed_step hs hop) {} ops
    listed_init h

/-- While the processor hands on only what it has taken: no region is in the list twice, each there
is the processor's, they are taken in the order of their completions, every completion accepted has
been taken or is in the list, and there is room there for every hand-over. -/
theorem ready_list_in_order {ops : List DataPathOp} (h : Along Acquisition.step Taken {} ops) :
    let s := run Acquisition.step {} ops
    s.path.ready.Nodup ∧ (∀ n ∈ s.path.ready, Processing s.path.ddr n) ∧
      s.accepted = s.taken ++ s.path.ready ∧
      s.path.completions = UInt32.ofNat s.taken.length + UInt32.ofNat s.path.ready.length ∧
      ∀ datum, handsOver datum s = true → s.path.ready.length < readySlots := by
  intro s
  have hs : Listed s := listed_run h
  refine ⟨hs.nodup, hs.owned, hs.order, ?_, ?_⟩
  · rw [hs.counted, hs.order, List.length_append, UInt32.ofNat_add]
  · intro datum hover
    refine @Listed.length_le s hs (completed datum) ?_
    intro hin
    obtain ⟨r, hr, howner⟩ := hs.owned _ hin
    rw [DdrRegion.code_inj.mp hr, (handsOver_iff.mp hover).2] at howner
    cases howner

def acquired : List DataPathOp :=
  [.ddr (.setRegion 0 0x100 64), .ddr (.setRegion 1 0x200 64), .arm 0, .arm 0, .complete 1, .complete 0,
   .complete 1, .complete 9, .takeReady, .ddr (.clear 1 2), .arm 0, .complete 1, .takeReady]

theorem ready_list_in_order_acquired :
    let s := run Acquisition.step {} acquired
    s.path.ready.Nodup ∧ (∀ n ∈ s.path.ready, Processing s.path.ddr n) ∧
      s.accepted = s.taken ++ s.path.ready ∧
      s.path.completions = UInt32.ofNat s.taken.length + UInt32.ofNat s.path.ready.length ∧
      ∀ datum, handsOver datum s = true → s.path.ready.length < readySlots :=
  ready_list_in_order (by decide +kernel)

example : (run Acquisition.step {} acquired).accepted = [1, 0, 1] ∧
    (run Acquisition.step {} acquired).taken = [1, 0] := by decide +kernel

end QiranFirmware.DataPath
