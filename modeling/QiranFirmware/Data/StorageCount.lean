import QiranFirmware.Data.StorageRun
import Mathlib.Data.List.Nodup

/-! # What the count of transferred records says

As long as the staging buffer is only filled while no descriptor of it is queued, the records that
the current transfer has counted are different ones, all of them before its offset, and each is on
its way or has been accepted.
-/
namespace QiranFirmware.Storage

open Machine

variable {γ : Type}

def StageFree (q : Output (Label ⊕ γ)) : Prop :=
  ∀ i < Output.depth, ∀ item ∈ q.slot i, item.data.isRight = true

instance decidableStageFree (q : Output (Label ⊕ γ)) : Decidable (StageFree q) :=
  inferInstanceAs (Decidable (∀ i < Output.depth, ∀ item ∈ q.slot i, item.data.isRight = true))

def Returns (s : Storage γ) (readHeader readData : Option NandRead) : Prop :=
  s.store.Described readHeader → ∀ r ∈ s.current,
    s.store.lengthRead readHeader = UInt32.ofNat r.payload.length ∧
      (s.store.Stages readHeader → s.store.Checked readHeader readData →
        (s.store.payloadRead readData).data.bytes 0 (s.store.lengthRead readHeader) = r.payload)

/-- A pass fills the staging buffer only while it is free, and the store is only erased of records while
it is free and the records counted as transferred are those of the device attached. -/
def Permitted (s : Storage γ) : StorageOp γ → Prop
  | .store _ payload _ _ => payload.length + 20 < 2 ^ 32
  | .transfer readHeader readData =>
    Returns s readHeader readData ∧ (s.store.Stages readHeader → StageFree s.queue)
  | .clear erase _ =>
    s.store.Erases erase → s.store.records ≠ 0 → s.stale = false ∧ StageFree s.queue
  | .setOps _ | .transferBegin | .submit .. | .output .. => True

structure Counted (s : Storage γ) (done : List Record) : Prop where
  length : s.stale = false → done.length = s.store.transferred.toNat
  sublist : done.Sublist s.stored
  issued : ∀ r ∈ done, ∃ l, Issued s.queue s.sends l ∧ l.record = some r
  running : s.store.Pending → ∀ l, Issued s.queue s.sends l → l.transfer = s.transfers →
    ∃ r ∈ done, l.record = some r
  position : s.store.Pending → ∃ i < s.stored.length,
    s.store.transferOffset.toNat = extent Record.size (s.stored.take i) ∧
      done.Sublist (s.stored.take i)

structure Inv (s : Storage γ) : Prop where
  delivery : Delivery s.store.stage s.queue s.ccsds s.sends
  used : s.store.used.toNat = extent Record.size s.stored
  fits : s.store.used ≤ s.store.capacity
  records : s.store.records.toNat = s.stored.length
  ids : (s.stored.map Record.id).Nodup
  numbered : ∀ r ∈ s.stored, r.id < s.stores
  begun : ∀ l, Issued s.queue s.sends l → l.transfer ≤ s.transfers
  counted : ∃ done, Counted s done

theorem size_pos (r : Record) : 0 < r.size := Nat.lt_of_lt_of_le (by decide) (Nat.le_add_right 20 _)

theorem queued_of_stageFree {s : Storage γ} (h : Inv s) (hfree : StageFree s.queue) (l : Label) :
    ¬ Queued s.queue l := by
  rintro ⟨i, item, hitem, hl⟩
  have hright := hfree i (h.delivery.bounded i item hitem) item hitem
  simp [hl] at hright

theorem inv_init : Inv ({} : Storage γ) := by
  have hnone (l : Label) : ¬ Issued ({} : Storage γ).queue ({} : Storage γ).sends l := by
    rintro (⟨i, item, hitem, -⟩ | hl)
    · simp at hitem
    · simp [accepted] at hl
  refine ⟨?_, rfl, UInt32.zero_le, rfl, List.nodup_nil, by simp, fun l hl => absurd hl (hnone l),
    [], ?_⟩
  · exact ⟨Ccsds.fits_init, by simp, by simp, by simp, by simp, List.nodup_nil, by simp [accepted]⟩
  · exact ⟨fun _ => rfl, List.Sublist.refl [], by simp, fun h => absurd h.1 (by simp),
      fun h => absurd h.1 (by simp)⟩

/-- Of the records of a device that has been attached, none has been transferred. -/
theorem inv_setOps {s : Storage γ} (h : Inv s) (ops : Option (UInt32 × Buf)) :
    Inv (step s (.setOps ops)) := by
  cases ops with
  | none =>
    refine ⟨h.delivery, rfl, UInt32.zero_le, rfl, List.nodup_nil, by simp [step, Store.setOps],
      h.begun, [], ?_⟩
    exact ⟨fun _ => rfl, List.Sublist.refl [], by simp,
      fun hp => absurd hp.1 (by simp [step, Store.setOps, Store.init]),
      fun hp => absurd hp.1 (by simp [step, Store.setOps, Store.init])⟩
  | some device =>
    obtain ⟨capacity, flash⟩ := device
    by_cases hzero : capacity = 0
    · simpa only [step, Store.setOps, hzero, ↓reduceIte, reduceCtorEq] using h
    · simp only [step, Store.setOps, hzero, ↓reduceIte]
      refine ⟨h.delivery, rfl, ?_, rfl, List.nodup_nil, by simp, h.begun, [], ?_⟩
      · exact UInt32.zero_le
      · refine ⟨fun hstale => ?_, List.Sublist.refl [], by simp,
          fun hp => absurd hp.2 UInt32.not_lt_zero, fun hp => absurd hp.2 UInt32.not_lt_zero⟩
        have hzero' : s.store.transferred = 0 := by simpa using hstale
        simp [hzero']

theorem inv_store {s : Storage γ} (h : Inv s) (type : NandType) (payload : List UInt8)
    (writeHeader writeData : Status) (hop : payload.length + 20 < 2 ^ 32) :
    Inv (step s (.store type payload writeHeader writeData)) := by
  obtain ⟨done, hdone⟩ := h.counted
  obtain ⟨⟨st, store, v⟩, hstore⟩ :
    ∃ r, s.store.store type payload writeHeader writeData s.v = r := ⟨_, rfl⟩
  have hcases := Store.store_cases type payload writeHeader writeData s.store s.v
  simp only [step]
  rw [hstore] at hcases ⊢
  rcases hcases with ⟨hst, writeFailures, flash, rfl, -⟩ | ⟨rfl, hidle, hroom, rfl⟩
  · rw [if_neg hst]
    exact ⟨h.delivery, h.used, h.fits, h.records, h.ids, h.numbered, h.begun, done, hdone.length,
      hdone.sublist, hdone.issued, hdone.running, hdone.position⟩
  · dsimp only at hidle hroom ⊢
    rw [if_pos rfl]
    obtain ⟨-, -, hnext, hend⟩ := Store.room_of_fits h.fits hop hroom
    have hused := h.used
    have hcapacity := s.store.capacity.toNat_lt
    have hcount : 20 * s.stored.length ≤ extent Record.size s.stored :=
      mul_length_le_extent fun r _ => Nat.le_add_right 20 _
    refine ⟨h.delivery, ?_, ?_, ?_, ?_, ?_, h.begun, done, hdone.length, ?_, hdone.issued, ?_, ?_⟩
    · rw [hnext, hused, extent_append, extent_cons, extent_nil, Nat.add_zero]
      rfl
    · rw [UInt32.le_iff_toNat_le, hnext]
      exact hend
    · rw [List.length_append, List.length_singleton, UInt32.toNat_add, h.records, UInt32.toNat_one]
      omega
    · rw [List.map_append]
      refine List.Nodup.append h.ids (List.nodup_singleton _) ?_
      intro i hi hid
      obtain ⟨r, hr, rfl⟩ := List.mem_map.mp hi
      have hlt := h.numbered r hr
      rw [List.mem_singleton.mp hid] at hlt
      exact absurd hlt (Nat.lt_irrefl _)
    · intro r hr
      rcases List.mem_append.mp hr with hr | hr
      · exact Nat.lt_succ_of_lt (h.numbered r hr)
      · rw [List.mem_singleton.mp hr]
        exact Nat.lt_succ_self _
    · exact hdone.sublist.trans (List.sublist_append_left ..)
    · intro hpending
      have hactive : s.store.transferActive = true := hpending.1
      simp [hidle] at hactive
    · intro hpending
      have hactive : s.store.transferActive = true := hpending.1
      simp [hidle] at hactive

theorem inv_transferBegin {s : Storage γ} (h : Inv s) : Inv (step s .transferBegin) := by
  obtain ⟨done, hdone⟩ := h.counted
  simp only [step, Store.transferBegin]
  split
  · exact h
  split
  · exact h
  · refine ⟨h.delivery, h.used, h.fits, h.records, h.ids, h.numbered, ?_, [], fun _ => rfl,
      List.nil_sublist _, by simp, ?_, ?_⟩
    · intro l hl
      exact Nat.le_succ_of_le (h.begun l hl)
    · intro _ l hl htransfer
      have hle := h.begun l hl
      exact absurd htransfer (Nat.ne_of_lt (Nat.lt_succ_of_le hle))
    · rintro ⟨-, hlt⟩
      have hpos : 0 < extent Record.size s.stored := by
        rw [← h.used]
        exact UInt32.lt_iff_toNat_lt.mp hlt
      refine ⟨0, ?_, rfl, List.nil_sublist _⟩
      refine Nat.pos_of_ne_zero ?_
      intro hzero
      rw [List.eq_nil_of_length_eq_zero hzero] at hpos
      exact absurd hpos (Nat.lt_irrefl 0)

/-- The queue and the packets sent matter by the labels issued. -/
theorem Inv.of_issued {s : Storage γ} (h : Inv s) {queue : Output (Label ⊕ γ)} {ccsds : Ccsds}
    {v : Svc} {sends : List (OutputSend (Label ⊕ γ))}
    (hdelivery : Delivery s.store.stage queue ccsds sends)
    (hissued : ∀ l, Issued queue sends l ↔ Issued s.queue s.sends l) :
    Inv { s with queue, ccsds, v, sends } := by
  obtain ⟨done, hdone⟩ := h.counted
  refine ⟨hdelivery, h.used, h.fits, h.records, h.ids, h.numbered, ?_, done, hdone.length,
    hdone.sublist, ?_, ?_, hdone.position⟩
  · intro l hl
    exact h.begun l ((hissued l).mp hl)
  · intro r hr
    obtain ⟨l, hl, hlr⟩ := hdone.issued r hr
    exact ⟨l, (hissued l).mpr hl, hlr⟩
  · intro hpending l hl
    exact hdone.running hpending l ((hissued l).mp hl)

theorem inv_submit {s : Storage γ} (h : Inv s) (cls : CcsdsClass) (data : γ) (len : UInt32) :
    Inv (step s (.submit cls data len)) := by
  obtain ⟨hdelivery, hissued⟩ := delivery_submit h.delivery cls data len s.v
  exact h.of_issued hdelivery hissued

theorem inv_output {s : Storage γ} (h : Inv s) (link : SpwLink) (other : γ → Buf)
    (answers : ℕ → Status) : Inv (step s (.output link other answers)) := by
  obtain ⟨hdelivery, hissued⟩ := delivery_output h.delivery link other answers
  exact h.of_issued hdelivery hissued

theorem inv_clear {s : Storage γ} (h : Inv s) (erase : Status) (flash : Buf) :
    Inv (step s (.clear erase flash)) := by
  obtain ⟨done, hdone⟩ := h.counted
  obtain ⟨⟨st, store, v⟩, hclear⟩ : ∃ r, s.store.clear erase flash s.v = r := ⟨_, rfl⟩
  have hcases := Store.clear_cases erase flash s.store s.v
  simp only [step]
  rw [hclear] at hcases ⊢
  rcases hcases with ⟨hst, writeFailures, flash', rfl⟩ | ⟨rfl, ⟨-, hidle, -, -⟩, rfl⟩
  · simp only [if_neg hst]
    exact ⟨h.delivery, h.used, h.fits, h.records, h.ids, h.numbered, h.begun, done, hdone.length,
      hdone.sublist, hdone.issued, hdone.running, hdone.position⟩
  · dsimp only at hidle ⊢
    simp only [↓reduceIte]
    refine ⟨h.delivery, rfl, UInt32.zero_le, rfl, List.nodup_nil, by simp, h.begun, [], fun _ => rfl,
      List.Sublist.refl [], by simp, ?_, ?_⟩
    · intro hpending
      have hactive : s.store.transferActive = true := hpending.1
      simp [hidle] at hactive
    · intro hpending
      have hactive : s.store.transferActive = true := hpending.1
      simp [hidle] at hactive

theorem Inv.nodup {s : Storage γ} (h : Inv s) : s.stored.Nodup := List.Nodup.of_map _ h.ids

/-- The record at the offset of a pass that has not reached the end. -/
theorem current_eq {s : Storage γ} {i : ℕ} (hi : i < s.stored.length)
    (hoffset : s.store.transferOffset.toNat = extent Record.size (s.stored.take i)) :
    s.current = some s.stored[i] := by
  rw [Storage.current, hoffset]
  exact itemAt_extent (fun r _ => size_pos r) hi

theorem Inv.next {s : Storage γ} (h : Inv s) {i : ℕ} (hi : i < s.stored.length)
    (hoffset : s.store.transferOffset.toNat = extent Record.size (s.stored.take i))
    {readHeader : Option NandRead}
    (hlen : s.store.lengthRead readHeader = UInt32.ofNat s.stored[i].payload.length) :
    (s.store.lengthRead readHeader).toNat = s.stored[i].payload.length ∧
      (s.store.next readHeader).toNat = extent Record.size (s.stored.take (i + 1)) := by
  have hend := extent_take_succ Record.size hi
  have hle := extent_take_le Record.size s.stored (i + 1)
  have hlt := s.store.used.toNat_lt
  rw [h.used] at hlt
  have hsize : s.stored[i].size = 20 + s.stored[i].payload.length := rfl
  have hread : (s.store.lengthRead readHeader).toNat = s.stored[i].payload.length := by
    rw [hlen]
    exact UInt32.toNat_ofNat_of_lt' (show s.stored[i].payload.length < 2 ^ 32 by omega)
  refine ⟨hread, ?_⟩
  rw [Store.next, UInt32.toNat_add, UInt32.toNat_add, hread, Store.toNat_headerBytes, hoffset, hend,
    hsize]
  omega

theorem Inv.position_next {s : Storage γ} (h : Inv s) {i : ℕ} {offset : UInt32}
    (hoffset : offset.toNat = extent Record.size (s.stored.take (i + 1)))
    (hlt : offset < s.store.used) : i + 1 < s.stored.length := by
  by_contra hle
  rw [UInt32.lt_iff_toNat_lt, hoffset, h.used, List.take_of_length_le (by omega)] at hlt
  exact absurd hlt (Nat.lt_irrefl _)

theorem Inv.unsubmitted {s : Storage γ} (h : Inv s) {readHeader readData : Option NandRead}
    (hreturns : Returns s readHeader readData) {store : Store} {queue : Output (Label ⊕ γ)} {v : Svc}
    (hkept : Store.Kept s.store store) (hdelivery : Delivery store.stage queue s.ccsds s.sends)
    (hissued : ∀ l, Issued queue s.sends l ↔ Issued s.queue s.sends l)
    (htransferred : store.transferred = s.store.transferred)
    (hactive : store.transferActive = true → s.store.transferActive = true)
    (hoffset : store.transferOffset = s.store.transferOffset ∨
      s.store.Described readHeader ∧ store.transferOffset = s.store.next readHeader) :
    Inv { s with store, queue, v } := by
  obtain ⟨done, hdone⟩ := h.counted
  have hpending : store.Pending → s.store.Pending := by
    rintro ⟨hrunning, hlt⟩
    rcases hoffset with hsame | ⟨hdescribed, -⟩
    · rw [hsame, hkept.used] at hlt
      exact ⟨hactive hrunning, hlt⟩
    · exact hdescribed.1
  refine ⟨hdelivery, ?_, ?_, ?_, h.ids, h.numbered, ?_, done, ?_, hdone.sublist, ?_, ?_, ?_⟩
  · exact hkept.used ▸ h.used
  · exact hkept.used ▸ hkept.capacity ▸ h.fits
  · exact hkept.records ▸ h.records
  · intro l hl
    exact h.begun l ((hissued l).mp hl)
  · exact fun hstale => htransferred ▸ hdone.length hstale
  · intro r hr
    obtain ⟨l, hl, hlr⟩ := hdone.issued r hr
    exact ⟨l, (hissued l).mpr hl, hlr⟩
  · intro hrunning l hl
    exact hdone.running (hpending hrunning) l ((hissued l).mp hl)
  · rintro ⟨hrunning, hlt⟩
    dsimp only at hrunning hlt ⊢
    rw [hkept.used] at hlt
    rcases hoffset with hsame | ⟨hdescribed, hnext⟩
    · rw [hsame] at hlt ⊢
      exact hdone.position ⟨hactive hrunning, hlt⟩
    · obtain ⟨i, hi, hat, hsub⟩ := hdone.position hdescribed.1
      obtain ⟨hlen, -⟩ := hreturns hdescribed _ (current_eq hi hat)
      obtain ⟨-, hend⟩ := h.next hi hat hlen
      rw [hnext] at hlt ⊢
      exact ⟨i + 1, h.position_next hend hlt, hend,
        hsub.trans (List.take_sublist_take_left (Nat.le_succ i))⟩

theorem Delivery.restage {stage stage' : Buf} {q : Output (Label ⊕ γ)} {p : Ccsds}
    {sends : List (OutputSend (Label ⊕ γ))} (h : Delivery stage q p sends)
    (hfree : ∀ l, ¬ Queued q l) : Delivery stage' q p sends :=
  ⟨h.fits, h.bounded, h.once, fun i a l ha hl => absurd ⟨i, a, ha, hl⟩ (hfree l), h.carries, h.nodup,
    h.fresh⟩

theorem Inv.submitted {s : Storage γ} (h : Inv s) {readHeader readData : Option NandRead}
    (hreturns : Returns s readHeader readData) (hfree : ∀ l, ¬ Queued s.queue l)
    (hstages : s.store.Stages readHeader) (hchecked : s.store.Checked readHeader readData)
    {store : Store} {queue : Output (Label ⊕ γ)} {v : Svc} (hkept : Store.Kept s.store store)
    (hstage : store.stage =
      s.store.stage.fill (s.store.lengthRead readHeader) (s.store.payloadRead readData).data)
    (htransferred : store.transferred = s.store.transferred + 1)
    (hoffset : store.transferOffset = s.store.next readHeader) {k : ℕ} {cls : CcsdsClass}
    (hk : k < Output.depth) (hslot : queue.slot =
      Function.update s.queue.slot k (some ⟨.inl s.label, s.store.lengthRead readHeader, cls⟩)) :
    Inv { s with store, queue, v } := by
  obtain ⟨done, hdone⟩ := h.counted
  obtain ⟨i, hi, hat, hsub⟩ := hdone.position hstages.1.1
  have hcurrent := current_eq hi hat
  obtain ⟨hlen, hpayload⟩ := hreturns hstages.1 _ hcurrent
  obtain ⟨hread, hend⟩ := h.next hi hat hlen
  have hrecord : s.label.record = some s.stored[i] := hcurrent
  have hnew : s.stored[i] ∉ done := by
    have hnodup := h.nodup.sublist (List.take_sublist (i + 1) s.stored)
    rw [List.take_succ_eq_append_getElem hi] at hnodup
    intro hmem
    exact List.disjoint_of_nodup_append hnodup (hsub.subset hmem) (List.mem_singleton_self _)
  have hunissued : s.label ∉ accepted s.sends := by
    intro haccepted
    obtain ⟨r, hr, hlabel⟩ := hdone.running hstages.1.1 s.label (.inr haccepted) rfl
    obtain rfl := Option.some.inj (hrecord.symm.trans hlabel)
    exact hnew hr
  have hbytes : store.stage.bytes 0 (s.store.lengthRead readHeader) = s.stored[i].payload := by
    rw [hstage, Buf.bytes_fill]
    exact hpayload hstages hchecked
  obtain ⟨hdelivery, hissued⟩ :=
    h.delivery.queue_labelled hfree hk hslot hrecord hread hstages.2 hbytes hunissued
  have hcount : 20 * s.stored.length ≤ extent Record.size s.stored :=
    mul_length_le_extent fun r _ => Nat.le_add_right 20 _
  have hdonele := hdone.sublist.length_le
  have hlt := s.store.used.toNat_lt
  rw [h.used] at hlt
  have hsucc : (done ++ [s.stored[i]]).Sublist (s.stored.take (i + 1)) := by
    rw [List.take_succ_eq_append_getElem hi]
    exact hsub.append (List.Sublist.refl _)
  refine ⟨hdelivery, hkept.used ▸ h.used, hkept.used ▸ hkept.capacity ▸ h.fits,
    hkept.records ▸ h.records, h.ids, h.numbered, ?_, done ++ [s.stored[i]], ?_, ?_, ?_, ?_, ?_⟩
  · intro l hl
    rcases (hissued l).mp hl with hl | rfl
    · exact h.begun l hl
    · exact Nat.le_refl _
  · intro hstale
    dsimp only
    rw [htransferred, UInt32.toNat_add, ← hdone.length hstale, UInt32.toNat_one, List.length_append,
      List.length_singleton]
    omega
  · exact hsucc.trans (List.take_sublist _ _)
  · intro r hr
    rcases List.mem_append.mp hr with hr | hr
    · obtain ⟨l, hl, hlr⟩ := hdone.issued r hr
      exact ⟨l, (hissued l).mpr (.inl hl), hlr⟩
    · rw [List.mem_singleton.mp hr]
      exact ⟨s.label, (hissued _).mpr (.inr rfl), hrecord⟩
  · intro _ l hl htransfer
    rcases (hissued l).mp hl with hl | rfl
    · obtain ⟨r, hr, hlr⟩ := hdone.running hstages.1.1 l hl htransfer
      exact ⟨r, List.mem_append_left _ hr, hlr⟩
    · exact ⟨s.stored[i], List.mem_append_right _ (List.mem_singleton_self _), hrecord⟩
  · rintro ⟨-, hpending⟩
    dsimp only at hpending ⊢
    rw [hkept.used, hoffset] at hpending
    rw [hoffset]
    exact ⟨i + 1, h.position_next hend hpending, hend, hsucc⟩

theorem inv_transfer {s : Storage γ} (h : Inv s) (readHeader readData : Option NandRead)
    (hop : Permitted s (.transfer readHeader readData)) :
    Inv (step s (.transfer readHeader readData)) := by
  obtain ⟨hreturns, hstagefree⟩ := hop
  have hfree (hstages : s.store.Stages readHeader) := queued_of_stageFree h (hstagefree hstages)
  have hfits := h.delivery.fits
  have heffect :=
    Store.transfer_effect (.inl s.label) readHeader readData s.store s.queue s.v
  obtain ⟨⟨store, queue, v⟩, hservice⟩ : ∃ r,
    s.store.transferService (.inl s.label) readHeader readData s.queue s.v = r := ⟨_, rfl⟩
  simp only [step]
  rw [hservice] at heffect ⊢
  cases heffect with
  | quiet hkept hstage hslot htransferred hactive hoffset =>
    obtain ⟨hdelivery, hissued⟩ := h.delivery.same_slots hfits hslot
    rw [← hstage] at hdelivery
    exact h.unsubmitted hreturns hkept hdelivery hissued htransferred hactive hoffset
  | staged hstages hkept hslot htransferred hoffset =>
    obtain ⟨hdelivery, hissued⟩ := (h.delivery.restage (hfree hstages)).same_slots hfits hslot
    exact h.unsubmitted hreturns hkept hdelivery hissued htransferred (fun _ => hstages.1.1.1)
      (hoffset.imp_right fun hnext => ⟨hstages.1, hnext⟩)
  | submitted hstages hchecked hkept hstage htransferred hoffset k cls hk _ hslot =>
    exact h.submitted hreturns (hfree hstages) hstages hchecked hkept hstage htransferred hoffset hk
      hslot

theorem inv_step {s : Storage γ} (h : Inv s) (op : StorageOp γ) (hop : Permitted s op) :
    Inv (step s op) := by
  cases op with
  | setOps ops => exact inv_setOps h ops
  | store type payload writeHeader writeData => exact inv_store h type payload writeHeader writeData hop
  | transferBegin => exact inv_transferBegin h
  | transfer readHeader readData => exact inv_transfer h readHeader readData hop
  | clear erase flash => exact inv_clear h erase flash
  | submit cls data len => exact inv_submit h cls data len
  | output link other answers => exact inv_output h link other answers

end QiranFirmware.Storage
