import QiranFirmware.Data.ReadyList
import QiranFirmware.Plat.IsrUart

/-! # The double buffers, from arming to reduction

`data_path.c` between the fabric and the processor: a slot is armed, the fabric fills it and raises one
interrupt with its index, the loop takes the event and hands the slot over, and what reduces the data
takes it from the list. Between two of these steps any of the others may come. A slot that the fabric
owns is one that it is filling or one whose event is queued, so there is always room for the event.
-/
namespace QiranFirmware

open Machine

namespace DataPath

open Ddr

/-- `data_path_service_interrupts`, for at most so many events. -/
def serviceInterrupts : ℕ → IrqSlot → DataPath → Svc → IrqSlot × DataPath × Svc
  | 0, irq, d, v => (irq, d, v)
  | n + 1, irq, d, v =>
    match irq.take with
    | none => (irq, d, v)
    | some (e, irq) => serviceInterrupts n irq (d.complete e.datum v).1 (d.complete e.datum v).2

def channelBuffers : List UInt32 :=
  [DdrRegion.rawCh0A, .rawCh0B, .rawCh1A, .rawCh1B].map DdrRegion.code

theorem freeRawSlot_raw {s : Ddr} {channel : UInt32} {r : DdrRegion}
    (h : s.freeRawSlot channel = some r) : (s.region r).base ≠ 0 ∧ r.code ∈ channelBuffers := by
  unfold freeRawSlot at h
  split at h
  · cases h
  rename_i hchannel
  obtain ⟨i, hi, hfound⟩ := List.exists_of_findSome?_eq_some h
  obtain ⟨hr, hfree⟩ := Option.filter_eq_some_iff.mp hfound
  simp only [Bool.and_eq_true, bne_iff_ne] at hfree
  refine ⟨hfree.1, ?_⟩
  rw [DdrRegion.code_of_ofCode hr]
  have hlt : channel.toNat < 2 := UInt32.lt_iff_toNat_lt.mp (UInt32.not_le.mp hchannel)
  have hall : ∀ c < 2, ∀ i ∈ List.range Ddr.rawSlots,
      UInt32.ofNat c * UInt32.ofNat Ddr.rawSlots + UInt32.ofNat i ∈ channelBuffers := by decide
  have hmem := hall _ hlt i hi
  rwa [UInt32.ofNat_toNat] at hmem

/-- A free slot is there to be armed, and then the fabric's. -/
theorem arm_of_free {d : DataPath} {channel : UInt32} {r : DdrRegion}
    (h : d.ddr.freeRawSlot channel = some r) (v : Svc) :
    d.arm channel v = (.ok, { d with ddr := { d.ddr.put r { d.ddr.region r with owner := .plDma } with
      handoffs := d.ddr.handoffs + 1 } }, v) := by
  have hchannel : ¬ channels ≤ channel := by
    intro hle
    rw [freeRawSlot, if_pos hle] at h
    cases h
  have hbase := (freeRawSlot_raw h).1
  have howner : (d.ddr.region r).owner.code = DdrOwner.none.code :=
    congrArg DdrOwner.code (freeRawSlot_free h)
  unfold arm
  simp only [if_neg hchannel, h, handoff, DdrRegion.ofCode_code, DdrOwner.ofCode_code, owned,
    if_neg hbase, howner, ne_eq, not_true_eq_false, ↓reduceIte]

theorem arm_of_none {d : DataPath} {channel : UInt32} (h : d.ddr.freeRawSlot channel = none) (v : Svc) :
    (d.arm channel v).1 ≠ .ok ∧ (d.arm channel v).2.1.ddr = d.ddr ∧
      (d.arm channel v).2.1.dropped = d.dropped := by
  unfold arm
  dsimp only
  split
  · exact ⟨Status.noConfusion, rfl, rfl⟩
  · rw [h]
    exact ⟨Status.noConfusion, rfl, rfl⟩

end DataPath

/-- The data path with the interrupt's events, and beside them what the fabric knows: the slots that it
has been given and has not finished, and those that it has finished, in order. -/
structure DoubleBuffer where
  irq : IrqSlot := {}
  acq : DataPath.Acquisition := {}
  armed : List UInt32 := []
  finished : List UInt32 := []

inductive BufferOp
  | arm (channel : UInt32)
  | interrupt (tick datum : UInt32) (kind : UInt16)
  | service
  | takeReady
  | ddr (op : DdrOp)

namespace DoubleBuffer

open DataPath Ddr

def given (channel : UInt32) (s : DoubleBuffer) : Option UInt32 :=
  if (s.acq.path.arm channel s.acq.v).1 = .ok then
    (s.acq.path.ddr.freeRawSlot channel).map DdrRegion.code
  else none

def step (s : DoubleBuffer) : BufferOp → DoubleBuffer
  | .arm channel =>
    { s with acq := s.acq.step (.arm channel), armed := s.armed ++ (s.given channel).toList }
  | .interrupt tick datum kind =>
    { s with
      irq := s.irq.publish tick datum kind
      armed := s.armed.erase datum
      finished := s.finished ++ [datum] }
  | .service =>
    match s.irq.take with
    | none => s
    | some (e, irq) => { s with irq, acq := s.acq.step (.complete e.datum) }
  | .takeReady => { s with acq := s.acq.step .takeReady }
  | .ddr op => { s with acq := s.acq.step (.ddr op) }

def queued (s : DoubleBuffer) : List UInt32 := s.irq.events.map IrqEvent.datum

/-- The slots that the fabric has: those it is filling, and those it has finished and the processor has
not seen. -/
def fabric (s : DoubleBuffer) : List UInt32 := s.armed ++ s.queued

def Apart : DdrOp → Prop
  | .handoff _ expected next => expected ≠ DdrOwner.plDma.code ∧ next ≠ DdrOwner.plDma.code
  | .clear _ expected => expected ≠ DdrOwner.plDma.code
  | .setRegion .. | .append .. | .setUsed .. | .read .. => True

instance : ∀ op, Decidable (Apart op)
  | .handoff _ _ _ => instDecidableAnd
  | .clear _ _ => instDecidableNot
  | .setRegion .. | .append .. | .setUsed .. | .read .. => .isTrue trivial

/-- The fabric raises an interrupt only for a slot that it is filling, and the processor hands on only
what it has taken, in its own name, and by `data_path_arm` alone to the fabric. -/
def Honest (s : DoubleBuffer) : BufferOp → Prop
  | .interrupt _ datum _ => datum ∈ s.armed
  | .ddr op => Taken s.acq (.ddr op) ∧ Apart op
  | .arm _ | .service | .takeReady => True

instance (s : DoubleBuffer) : ∀ op, Decidable (Honest s op)
  | .interrupt _ datum _ => inferInstanceAs (Decidable (datum ∈ s.armed))
  | .ddr _ => instDecidableAnd
  | .arm _ | .service | .takeReady => .isTrue trivial

structure Balanced (s : DoubleBuffer) : Prop where
  listed : Listed s.acq
  valid : s.irq.q.Valid
  mask : s.irq.q.mask = 7
  order : s.finished = s.acq.accepted ++ s.queued
  nodup : s.fabric.Nodup
  raw : s.fabric ⊆ channelBuffers
  owns : ∀ r, Filling s.acq.path.ddr r ↔ r.code ∈ s.fabric
  configured : ∀ r, Filling s.acq.path.ddr r → (s.acq.path.ddr.region r).base ≠ 0
  kept : s.irq.dropped = 0 ∧ s.acq.path.dropped = 0

theorem balanced_init : Balanced {} where
  listed := listed_init
  valid := ⟨⟨3, by decide, rfl⟩, by decide⟩
  mask := rfl
  order := rfl
  nodup := List.nodup_nil
  raw := List.nil_subset _
  owns r := iff_of_false (by simp [Filling]) List.not_mem_nil
  configured r h := absurd h (by simp [Filling])
  kept := ⟨rfl, rfl⟩

variable {s : DoubleBuffer}

/-- There are four slots to fill. -/
theorem Balanced.length_le (h : Balanced s) : s.armed.length + s.irq.events.length ≤ 4 := by
  have hle := (h.nodup.subperm h.raw).length_le
  rwa [fabric, List.length_append, queued, List.length_map] at hle

/-- What leaves the fabric its slots, and the accepted completions as they were. -/
theorem Balanced.of_regions (h : Balanced s) {acq : Acquisition} (hlisted : Listed acq)
    (haccepted : acq.accepted = s.acq.accepted) (hdropped : acq.path.dropped = s.acq.path.dropped)
    (hfilling : ∀ r, Filling acq.path.ddr r ↔ Filling s.acq.path.ddr r)
    (hbase : ∀ r, Filling s.acq.path.ddr r →
      (acq.path.ddr.region r).base = (s.acq.path.ddr.region r).base) :
    Balanced { s with acq } where
  listed := hlisted
  valid := h.valid
  mask := h.mask
  order := haccepted ▸ h.order
  nodup := h.nodup
  raw := h.raw
  owns r := (hfilling r).trans (h.owns r)
  configured r hr := by
    have hold := (hfilling r).mp hr
    exact fun hzero => h.configured r hold ((hbase r hold).symm.trans hzero)
  kept := ⟨h.kept.1, hdropped.trans h.kept.2⟩

/-- A call in the processor's name leaves the fabric what it has. -/
theorem filling_call {d : Ddr} (hbound : d.Bounded) (v : Svc) {op : DdrOp} (hop : Apart op)
    (r : DdrRegion) : (Filling (d.call v op).2.1 r ↔ Filling d r) ∧
      (Filling d r → ((d.call v op).2.1.region r).base = (d.region r).base) := by
  have heffect := call_effect hbound v op
  generalize d.call v op = c at heffect
  obtain ⟨st, d', v'⟩ := c
  cases heffect with
  | refused => exact ⟨Iff.rfl, fun _ => rfl⟩
  | disputed => exact ⟨Iff.rfl, fun _ => rfl⟩
  | overfull => exact ⟨Iff.rfl, fun _ => rfl⟩
  | @done r' x memory hdone handoffs =>
    simp only [Filling]
    by_cases hr : r = r'
    swap
    · rw [Function.update_of_ne hr]
      exact ⟨Iff.rfl, fun _ => rfl⟩
    subst hr
    rw [Function.update_self]
    cases hdone with
    | append => exact ⟨Iff.rfl, fun _ => rfl⟩
    | setUsed => exact ⟨Iff.rfl, fun _ => rfl⟩
    | read => exact ⟨Iff.rfl, fun _ => rfl⟩
    | setRegion hr hbase hbytes hfree =>
      refine ⟨Iff.rfl, fun hfilling => ?_⟩
      rw [hfree] at hfilling
      cases hfilling
    | @handoff region expected next hheld owner hnext =>
      refine ⟨iff_of_false ?_ ?_, fun _ => rfl⟩
      · rintro rfl
        exact hop.2 (DdrOwner.code_of_ofCode hnext).symm
      · intro hfilling
        exact hop.1 (hheld.owner.symm.trans (congrArg _ hfilling))
    | clear hr howner =>
      refine ⟨iff_of_false ?_ ?_, fun _ => rfl⟩
      · intro hfree
        cases hfree
      · intro hfilling
        exact hop (howner.symm.trans (congrArg _ hfilling))

theorem Balanced.ddr (h : Balanced s) {op : DdrOp} (htaken : Taken s.acq (.ddr op)) (hop : Apart op) :
    Balanced (s.step (.ddr op)) := by
  refine h.of_regions (listed_step h.listed htaken) rfl rfl ?_ ?_
  · exact fun r => (filling_call h.listed.bounded s.acq.v hop r).1
  · exact fun r => (filling_call h.listed.bounded s.acq.v hop r).2

theorem Balanced.takeReady (h : Balanced s) : Balanced (s.step .takeReady) := by
  have hlisted := h.listed.takeReady
  simp only [step, Acquisition.step, DataPath.step, DataPath.takeReady] at hlisted ⊢
  cases hready : s.acq.path.ready with
  | nil => exact h
  | cons region ready =>
    rw [hready] at hlisted
    exact h.of_regions hlisted rfl rfl (fun _ => Iff.rfl) fun _ _ => rfl

theorem given_of_free {channel : UInt32} {r : DdrRegion}
    (h : s.acq.path.ddr.freeRawSlot channel = some r) : s.given channel = some r.code := by
  rw [given, arm_of_free h, if_pos rfl, h]
  rfl

theorem given_of_none {channel : UInt32} (h : s.acq.path.ddr.freeRawSlot channel = none) :
    s.given channel = none :=
  if_neg (arm_of_none h s.acq.v).1

theorem Balanced.arm (h : Balanced s) (channel : UInt32) : Balanced (s.step (.arm channel)) := by
  have hlisted := h.listed.arm channel
  cases hfree : s.acq.path.ddr.freeRawSlot channel with
  | none =>
    obtain ⟨-, hddr, hdropped⟩ := arm_of_none hfree s.acq.v
    rw [step, given_of_none hfree, Option.toList_none, List.append_nil]
    refine h.of_regions hlisted rfl hdropped ?_ ?_
    · exact fun r => iff_of_eq (congrArg (Filling · r) hddr)
    · exact fun r _ => congrArg (fun d : Ddr => (d.region r).base) hddr
  | some r =>
    obtain ⟨hbase, hraw⟩ := freeRawSlot_raw hfree
    have hnew : r.code ∉ s.fabric := by
      intro hin
      have hfilling := (h.owns r).mpr hin
      rw [Filling, freeRawSlot_free hfree] at hfilling
      cases hfilling
    have hstep : s.step (.arm channel) = { s with
        acq := s.acq.step (.arm channel), armed := s.armed ++ [r.code] } := by
      rw [step, given_of_free hfree]
      rfl
    have hperm : (s.step (.arm channel)).fabric.Perm (r.code :: s.fabric) := by
      rw [hstep, fabric, List.append_assoc]
      exact List.perm_middle
    have hpath : (s.acq.step (.arm channel)).path = { s.acq.path with
        ddr := { s.acq.path.ddr.put r { s.acq.path.ddr.region r with owner := .plDma } with
          handoffs := s.acq.path.ddr.handoffs + 1 } } :=
      congrArg (fun x => x.2.1) (arm_of_free hfree s.acq.v)
    refine ⟨hlisted, h.valid, h.mask, h.order, ?_, ?_, ?_, ?_, h.kept.1, ?_⟩
    · rw [hperm.nodup_iff]
      exact List.nodup_cons.mpr ⟨hnew, h.nodup⟩
    · intro n hn
      rcases List.mem_cons.mp (hperm.subset hn) with rfl | hold
      · exact hraw
      · exact h.raw hold
    · intro r'
      rw [hperm.mem_iff, List.mem_cons, DdrRegion.code_inj, ← h.owns r', Filling, hstep, hpath]
      by_cases hr : r' = r
      · subst hr
        simp [put]
      · simp [put, hr, Filling]
    · intro r' hr'
      rw [hstep, hpath] at hr' ⊢
      by_cases hr : r' = r
      · subst hr
        simpa [put] using hbase
      · simp only [Filling, put, Function.update_of_ne hr] at hr' ⊢
        exact h.configured r' hr'
    · rw [hstep, hpath]
      exact h.kept.2

/-- An event takes the place of the slot that is being filled, so the fabric has what it had. -/
theorem Balanced.interrupt (h : Balanced s) {datum : UInt32} (hdatum : datum ∈ s.armed)
    (tick : UInt32) (kind : UInt16) : Balanced (s.step (.interrupt tick datum kind)) := by
  have hroom : s.irq.events.length ≤ s.irq.q.mask.toNat := by
    have hle := h.length_le
    rw [h.mask]
    exact (Nat.le_of_add_left_le hle).trans (by decide)
  obtain ⟨hvalid, hmask⟩ := IrqSlot.publish_spec h.valid tick datum kind
  obtain ⟨hevents, hdropped⟩ := IrqSlot.publish_of_room h.valid hroom tick datum kind
  have hqueued : (s.step (.interrupt tick datum kind)).queued = s.queued ++ [datum] := by
    simp only [queued, step, hevents, List.map_append, List.map_singleton]
  have hperm : (s.step (.interrupt tick datum kind)).fabric.Perm s.fabric := by
    rw [fabric, hqueued, fabric]
    have hback : (s.armed.erase datum ++ [datum]).Perm s.armed :=
      (List.perm_append_singleton _ _).trans (List.perm_cons_erase hdatum).symm
    have hmove : (s.queued ++ [datum]).Perm ([datum] ++ s.queued) := List.perm_append_comm
    apply (hmove.append_left _).trans
    rw [← List.append_assoc]
    exact hback.append_right _
  refine ⟨h.listed, hvalid, hmask.trans h.mask, ?_, ?_, ?_, ?_, h.configured, ?_, h.kept.2⟩
  · show s.finished ++ [datum] = s.acq.accepted ++ _
    rw [hqueued, ← List.append_assoc, h.order]
  · exact hperm.nodup_iff.mpr h.nodup
  · exact fun n hn => h.raw (hperm.subset hn)
  · exact fun r => (h.owns r).trans hperm.mem_iff.symm
  · exact hdropped.trans h.kept.1

/-- The event at the front of the queue names a slot that the fabric owns, and is accepted. -/
theorem Balanced.complete (h : Balanced s) {e : IrqEvent} {irq : IrqSlot}
    (htake : s.irq.take = some (e, irq)) : ∃ r : DdrRegion, r.code = e.datum ∧
      Filling s.acq.path.ddr r ∧ s.acq.path.complete e.datum s.acq.v = ({ s.acq.path with
        ddr := handed r s.acq.path.ddr
        ready := s.acq.path.ready ++ [r.code]
        completions := s.acq.path.completions + 1 }, s.acq.v) := by
  obtain ⟨-, -, hevents⟩ := IrqSlot.take_spec h.valid htake
  have hin : e.datum ∈ s.fabric := by
    rw [fabric, queued, hevents]
    exact List.mem_append_right _ List.mem_cons_self
  obtain ⟨r, -, hr⟩ := List.mem_map.mp (h.raw hin)
  have hfilling := (h.owns r).mpr (hr ▸ hin)
  refine ⟨r, hr, hfilling, ?_⟩
  have heffect := complete_effect s.acq.path s.acq.v e.datum
  rw [← hr, completed_code] at heffect
  rw [← hr]
  generalize s.acq.path.complete r.code s.acq.v = c at heffect ⊢
  obtain ⟨path, v⟩ := c
  cases heffect with
  | accepted => rfl
  | unset hbase => exact absurd hbase (h.configured r hfilling)
  | disputed hbase hnot => exact absurd hfilling hnot
  | orphaned hbase hfilling hfull =>
    refine absurd hfull (Nat.not_le.mpr (h.listed.length_le (r := r) ?_))
    intro hready
    obtain ⟨r', hr', howner⟩ := h.listed.owned _ hready
    rw [DdrRegion.code_inj.mp hr', hfilling] at howner
    cases howner

/-- What the completion makes of the data path, and that it is accepted and reports nothing. -/
theorem Balanced.accepts (h : Balanced s) {e : IrqEvent} {irq : IrqSlot}
    (htake : s.irq.take = some (e, irq)) : ∃ r : DdrRegion, r.code = e.datum ∧
      Filling s.acq.path.ddr r ∧
      (s.acq.step (.complete e.datum)).path.ddr = handed r s.acq.path.ddr ∧
      (s.acq.step (.complete e.datum)).path.dropped = s.acq.path.dropped ∧
      (s.acq.step (.complete e.datum)).accepted = s.acq.accepted ++ [r.code] ∧
      (s.acq.step (.complete e.datum)).v = s.acq.v := by
  obtain ⟨r, hr, hfilling, hcomplete⟩ := h.complete htake
  have hover : handsOver e.datum s.acq = true := by
    rw [handsOver_iff, ← hr, completed_code]
    exact ⟨h.configured r hfilling, hfilling⟩
  have hcode : e.datum % UInt32.ofNat DdrRegion.all.length = r.code := by
    rw [← hr, ← completed_code r]
    exact (code_completed _).symm.trans (by rw [completed_code, completed_code])
  refine ⟨r, hr, hfilling, ?_⟩
  simp [Acquisition.step, DataPath.step, hcomplete, hover, hcode]

theorem Balanced.service (h : Balanced s) : Balanced (s.step .service) := by
  cases htake : s.irq.take with
  | none =>
    rw [step, htake]
    exact h
  | some p =>
    obtain ⟨e, irq⟩ := p
    obtain ⟨hvalid, hmask, hevents⟩ := IrqSlot.take_spec h.valid htake
    obtain ⟨r, hr, hfilling, hddr, hdropped, haccepted, -⟩ := h.accepts htake
    have hlisted : Listed (s.acq.step (.complete e.datum)) := h.listed.complete e.datum
    simp only [step, htake]
    generalize s.acq.step (.complete e.datum) = acq at hddr hdropped haccepted hlisted ⊢
    have hqueued : s.queued = r.code :: irq.events.map IrqEvent.datum := by
      rw [queued, hevents, List.map_cons, hr]
    have hperm : s.fabric.Perm (r.code :: (s.armed ++ irq.events.map IrqEvent.datum)) := by
      rw [fabric, hqueued]
      exact List.perm_middle
    obtain ⟨hnew, hnodup⟩ := List.nodup_cons.mp (hperm.nodup_iff.mp h.nodup)
    refine ⟨hlisted, hvalid, hmask.trans h.mask, ?_, hnodup, ?_, ?_, ?_, ?_, ?_⟩
    · show s.finished = acq.accepted ++ irq.events.map IrqEvent.datum
      rw [h.order, hqueued, haccepted, List.append_assoc]
      rfl
    · exact fun n hn => h.raw (hperm.symm.subset (List.mem_cons_of_mem _ hn))
    · intro r'
      show Filling acq.path.ddr r' ↔ r'.code ∈ s.armed ++ irq.events.map IrqEvent.datum
      rw [hddr, Filling]
      by_cases hne : r' = r
      · subst hne
        rw [owner_handed]
        refine iff_of_false ?_ hnew
        intro hfilling
        cases hfilling
      · rw [handed_of_ne hne]
        apply (h.owns r').trans
        rw [hperm.mem_iff, List.mem_cons, DdrRegion.code_inj]
        exact or_iff_right hne
    · intro r' hr'
      dsimp only at hr' ⊢
      rw [hddr] at hr' ⊢
      have hne : r' ≠ r := by
        rintro rfl
        rw [Filling, owner_handed] at hr'
        cases hr'
      rw [Filling, handed_of_ne hne] at hr'
      rw [handed_of_ne hne]
      exact h.configured r' hr'
    · exact (IrqSlot.take_dropped htake).trans h.kept.1
    · exact hdropped.trans h.kept.2

theorem balanced_step {op : BufferOp} (h : Balanced s) (hop : Honest s op) : Balanced (s.step op) := by
  cases op with
  | arm channel => exact h.arm channel
  | interrupt tick datum kind => exact h.interrupt hop tick kind
  | service => exact h.service
  | takeReady => exact h.takeReady
  | ddr op => exact h.ddr hop.1 hop.2

theorem balanced_run {ops : List BufferOp} (h : Along step Honest {} ops) :
    Balanced (run step {} ops) :=
  @run_invariant _ _ step Honest Balanced (fun _ _ hs hop => balanced_step hs hop) {} ops
    balanced_init h

theorem serviceInterrupts_empty {irq : IrqSlot} (h : irq.take = none) (d : DataPath) (v : Svc) :
    ∀ n, serviceInterrupts n irq d v = (irq, d, v)
  | 0 => rfl
  | n + 1 => by rw [serviceInterrupts, h]

/-- The loop takes one turn after another. -/
theorem serviceInterrupts_eq (n : ℕ) (s : DoubleBuffer) :
    serviceInterrupts n s.irq s.acq.path s.acq.v =
      ((run step s (List.replicate n .service)).irq,
        (run step s (List.replicate n .service)).acq.path,
        (run step s (List.replicate n .service)).acq.v) := by
  induction n generalizing s with
  | zero => rfl
  | succ n ih =>
    rw [List.replicate_succ, run_cons, ← ih]
    cases htake : s.irq.take with
    | none =>
      rw [step, htake]
      dsimp only
      rw [serviceInterrupts_empty htake, serviceInterrupts_empty htake]
    | some p =>
      obtain ⟨e, irq⟩ := p
      have hcompleted : (s.acq.step (.complete e.datum)).path = (s.acq.path.complete e.datum s.acq.v).1 ∧
          (s.acq.step (.complete e.datum)).v = (s.acq.path.complete e.datum s.acq.v).2 := by
        simp only [Acquisition.step, DataPath.step]
        split
        · exact ⟨rfl, rfl⟩
        · exact ⟨rfl, rfl⟩
      rw [serviceInterrupts, step, htake]
      dsimp only
      rw [hcompleted.1, hcompleted.2]

/-- A turn of the loop takes one event off the queue, if there is one, and is silent. -/
theorem Balanced.turn (h : Balanced s) : (s.step .service).queued = s.queued.tail ∧
    (s.step .service).finished = s.finished ∧ (s.step .service).acq.taken = s.acq.taken ∧
      (s.step .service).acq.v = s.acq.v := by
  cases htake : s.irq.take with
  | none =>
    rw [step, htake, queued, IrqSlot.take_eq_none.mp htake]
    exact ⟨rfl, rfl, rfl, rfl⟩
  | some p =>
    obtain ⟨e, irq⟩ := p
    obtain ⟨-, -, hevents⟩ := IrqSlot.take_spec h.valid htake
    obtain ⟨r, -, -, -, -, -, hquiet⟩ := h.accepts htake
    have htaken : (s.acq.step (.complete e.datum)).taken = s.acq.taken := by
      simp only [Acquisition.step]
      split
      · rfl
      · rfl
    rw [step, htake, queued, queued, hevents]
    exact ⟨rfl, rfl, htaken, hquiet⟩

theorem Balanced.turns (h : Balanced s) (n : ℕ) :
    let s' := run step s (List.replicate n .service)
    Balanced s' ∧ s'.queued = s.queued.drop n ∧ s'.finished = s.finished ∧
      s'.acq.taken = s.acq.taken ∧ s'.acq.v = s.acq.v := by
  induction n generalizing s with
  | zero => exact ⟨h, rfl, rfl, rfl, rfl⟩
  | succ n ih =>
    rw [List.replicate_succ, run_cons]
    obtain ⟨hqueued, hfinished, htaken, hquiet⟩ := h.turn
    obtain ⟨hbalanced, hqueued', hfinished', htaken', hquiet'⟩ := ih h.service
    refine ⟨hbalanced, ?_, hfinished'.trans hfinished, htaken'.trans htaken, hquiet'.trans hquiet⟩
    rw [hqueued', hqueued, List.drop_tail]

/-- Four turns empty the queue into the list of what is ready. -/
theorem Balanced.drained (h : Balanced s) {n : ℕ} (hn : 4 ≤ n) :
    let c := serviceInterrupts n s.irq s.acq.path s.acq.v
    c.1.events = [] ∧ c.2.1.ready = s.acq.path.ready ++ s.queued ∧ c.2.1.dropped = 0 ∧
      c.2.2 = s.acq.v := by
  obtain ⟨hbalanced, hqueued, hfinished, htaken, hquiet⟩ := h.turns n
  rw [serviceInterrupts_eq]
  generalize run step s (List.replicate n .service) = s' at hbalanced hqueued hfinished htaken hquiet ⊢
  have hempty : s'.queued = [] := by
    rw [hqueued, List.drop_eq_nil_iff, queued, List.length_map]
    exact (Nat.le_of_add_left_le h.length_le).trans hn
  refine ⟨List.map_eq_nil_iff.mp hempty, ?_, hbalanced.kept.2, hquiet⟩
  have horder := hbalanced.order
  rw [hfinished, h.order, h.listed.order, hbalanced.listed.order, htaken, hempty, List.append_nil,
    List.append_assoc] at horder
  exact (List.append_cancel_left horder).symm

/-- However arming, interrupts, servicing and reduction interleave: no event is dropped and no completion
is, the slots come out of the list in the order in which the fabric finished them and each of them once,
no slot is in two places, at most four places of the queue are used, and the fabric owns just the slots
that it is filling or whose events wait. Servicing the interrupts then moves those that wait into the
list, and reports nothing. -/
theorem buffers_handed_on {ops : List BufferOp} (h : Along step Honest {} ops) :
    let s := run step {} ops
    s.irq.dropped = 0 ∧ s.acq.path.dropped = 0 ∧
    s.finished = s.acq.taken ++ s.acq.path.ready ++ s.queued ∧
    (s.armed ++ s.queued ++ s.acq.path.ready).Nodup ∧
    s.armed.length + s.irq.events.length ≤ 4 ∧
    (∀ r, Filling s.acq.path.ddr r ↔ r.code ∈ s.armed ++ s.queued) ∧
    ∀ n, 4 ≤ n →
      let c := serviceInterrupts n s.irq s.acq.path s.acq.v
      c.1.events = [] ∧ c.2.1.ready = s.acq.path.ready ++ s.queued ∧ c.2.1.dropped = 0 ∧
        c.2.2 = s.acq.v := by
  intro s
  have hs : Balanced s := balanced_run h
  refine ⟨hs.kept.1, hs.kept.2, ?_, ?_, hs.length_le, hs.owns, fun n hn => hs.drained hn⟩
  · rw [hs.order, hs.listed.order]
  · apply List.Nodup.append hs.nodup hs.listed.nodup
    intro n hfabric hready
    obtain ⟨r, rfl, howner⟩ := hs.listed.owned n hready
    have hfilling := (hs.owns r).mpr hfabric
    rw [Filling, howner] at hfilling
    cases hfilling

def overlapped : List BufferOp :=
  [.ddr (.setRegion 0 0x100 64), .ddr (.setRegion 1 0x200 64), .ddr (.setRegion 2 0x300 64), .arm 0,
   .arm 0, .arm 0, .interrupt 7 1 0, .service, .takeReady, .arm 1, .interrupt 9 2 0, .interrupt 9 0 0,
   .ddr (.clear 1 2), .arm 0, .service, .interrupt 12 1 0]

theorem buffers_handed_on_overlapped :
    let s := run step {} overlapped
    s.irq.dropped = 0 ∧ s.acq.path.dropped = 0 ∧
    s.finished = s.acq.taken ++ s.acq.path.ready ++ s.queued ∧
    (s.armed ++ s.queued ++ s.acq.path.ready).Nodup ∧
    s.armed.length + s.irq.events.length ≤ 4 ∧
    (∀ r, Filling s.acq.path.ddr r ↔ r.code ∈ s.armed ++ s.queued) ∧
    ∀ n, 4 ≤ n →
      let c := serviceInterrupts n s.irq s.acq.path s.acq.v
      c.1.events = [] ∧ c.2.1.ready = s.acq.path.ready ++ s.queued ∧ c.2.1.dropped = 0 ∧
        c.2.2 = s.acq.v :=
  buffers_handed_on (by decide +kernel)

example : (run step {} overlapped).finished = [1, 2, 0, 1] ∧
    (run step {} overlapped).acq.taken = [1] ∧ (run step {} overlapped).queued = [0, 1] := by
  decide +kernel

end DoubleBuffer

end QiranFirmware
