import QiranFirmware.Data.StorageEffects
import QiranFirmware.Machine.Layout
import QiranFirmware.Machine.Runs

/-! # Runs of the store and the queue behind it

The store, the outbound queue and the packets taken from it, with what a reader of the code would
want to know and the code does not keep: which records are stored, and which record each descriptor
of the staging buffer was queued for. Other producers name their buffers by `γ`.
-/
namespace QiranFirmware

open Machine

structure Record where
  id : ℕ
  type : NandType
  sequence : UInt32
  payload : List UInt8
  deriving DecidableEq, Repr

namespace Record

def size (r : Record) : ℕ := 20 + r.payload.length
def bytes (r : Record) : List UInt8 := Store.header r.type r.sequence r.payload ++ r.payload

theorem length_bytes (r : Record) : r.bytes.length = r.size := by
  rw [bytes, List.length_append]
  rfl

end Record

/-- What a descriptor of the staging buffer is for: a transfer, and the record at its offset. -/
structure Label where
  transfer : ℕ
  record : Option Record
  deriving DecidableEq, Repr

variable {γ : Type}

structure Storage (γ : Type) where
  store : Store := {}
  queue : Output (Label ⊕ γ) := {}
  ccsds : Ccsds := {}
  v : Svc := {}
  /-- The records stored since the last successful clear or the last attachment. -/
  stored : List Record := []
  /-- The stores and the transfers so far. -/
  stores : ℕ := 0
  transfers : ℕ := 0
  /-- What is counted as transferred has been left by the device before. -/
  stale : Bool := false
  sends : List (OutputSend (Label ⊕ γ)) := []

inductive StorageOp (γ : Type)
  | setOps (ops : Option (UInt32 × Buf))
  | store (type : NandType) (payload : List UInt8) (writeHeader writeData : Status)
  | transferBegin
  | transfer (readHeader readData : Option NandRead)
  | clear (erase : Status) (flash : Buf)
  | submit (cls : CcsdsClass) (data : γ) (len : UInt32)
  | output (link : SpwLink) (other : γ → Buf) (answers : ℕ → Status)

namespace Storage

def current (s : Storage γ) : Option Record :=
  itemAt Record.size s.stored s.store.transferOffset.toNat

def label (s : Storage γ) : Label := ⟨s.transfers, s.current⟩

def step (s : Storage γ) : StorageOp γ → Storage γ
  | .setOps ops =>
    let (st, store) := s.store.setOps ops
    { s with
      store
      stored := if st = .ok then [] else s.stored
      stale := if st = .ok then store.transferred != 0 else s.stale }
  | .store type payload writeHeader writeData =>
    let (st, store, v) := s.store.store type payload writeHeader writeData s.v
    if st = .ok then
      { s with
        store, v
        stored := s.stored ++ [⟨s.stores, type, s.store.sequence, payload⟩]
        stores := s.stores + 1 }
    else { s with store, v }
  | .transferBegin =>
    let (st, store) := s.store.transferBegin
    { s with
      store
      transfers := if st = .ok then s.transfers + 1 else s.transfers
      stale := if st = .ok then false else s.stale }
  | .transfer readHeader readData =>
    let (store, queue, v) :=
      s.store.transferService (.inl s.label) readHeader readData s.queue s.v
    { s with store, queue, v }
  | .clear erase flash =>
    let (st, store, v) := s.store.clear erase flash s.v
    { s with
      store, v
      stored := if st = .ok then [] else s.stored
      stale := if st = .ok then false else s.stale }
  | .submit cls data len =>
    let (_, queue, v) := Output.submit cls (.inr data) len s.queue s.v
    { s with queue, v }
  | .output link other answers =>
    let p := Output.service (Sum.elim (fun _ => s.store.stage) other) answers
      { queue := s.queue, ccsds := s.ccsds, link, v := s.v }
    { s with queue := p.queue, ccsds := p.ccsds, v := p.v, sends := s.sends ++ p.sends }

def serviceRunning : StorageOp Unit :=
  .output { opsSet := true, state := .run } (fun _ _ => 0) fun _ => .ok

def Queued (q : Output (Label ⊕ γ)) (l : Label) : Prop :=
  ∃ i item, q.slot i = some item ∧ item.data = .inl l

def acceptedLabel (x : OutputSend (Label ⊕ γ)) : Option Label :=
  match x.status, x.item.data with
  | .ok, .inl l => some l
  | _, _ => none

def accepted (sends : List (OutputSend (Label ⊕ γ))) : List Label := sends.filterMap acceptedLabel

def Issued (q : Output (Label ⊕ γ)) (sends : List (OutputSend (Label ⊕ γ))) (l : Label) : Prop :=
  Queued q l ∨ l ∈ accepted sends

def Carries (x : OutputSend (Label ⊕ γ)) (r : Record) : Prop :=
  x.item.len.toNat = r.payload.length ∧
    x.packet.bytes Ccsds.primaryHeaderBytes x.item.len = r.payload ∧ x.written = x.item.len + 10

/-- The staging buffer is queued at most once, for the record whose payload it holds, and every
accepted packet of it carries the record it was queued for. -/
structure Delivery (stage : Buf) (q : Output (Label ⊕ γ)) (p : Ccsds)
    (sends : List (OutputSend (Label ⊕ γ))) : Prop where
  fits : p.Fits
  bounded : ∀ i item, q.slot i = some item → i < Output.depth
  once : ∀ i j a b l m, q.slot i = some a → q.slot j = some b → a.data = .inl l → b.data = .inl m →
    i = j
  staged : ∀ i a l, q.slot i = some a → a.data = .inl l → ∃ r, l.record = some r ∧
    a.len.toNat = r.payload.length ∧ a.len ≤ Store.transferStage ∧ stage.bytes 0 a.len = r.payload
  carries : ∀ x ∈ sends, ∀ l, acceptedLabel x = some l → ∃ r, l.record = some r ∧ Carries x r
  nodup : (accepted sends).Nodup
  fresh : ∀ l, Queued q l → l ∉ accepted sends

variable {stage : Buf} {other : γ → Buf} {q q' : Output (Label ⊕ γ)} {p p' : Ccsds}
  {sends : List (OutputSend (Label ⊕ γ))}

theorem accepted_concat (x : OutputSend (Label ⊕ γ)) :
    accepted (sends ++ [x]) = accepted sends ++ (acceptedLabel x).toList := by
  rw [accepted, List.filterMap_append]
  cases h : acceptedLabel x <;> simp [accepted, h]

theorem acceptedLabel_eq_some {x : OutputSend (Label ⊕ γ)} {l : Label} :
    acceptedLabel x = some l ↔ x.status = .ok ∧ x.item.data = .inl l := by
  unfold acceptedLabel
  split
  · rename_i hstatus hdata
    simp [hstatus, hdata]
  · rename_i hnot
    constructor
    · intro h
      simp at h
    · rintro ⟨hstatus, hdata⟩
      exact absurd hdata (hnot l hstatus)

theorem queued_update_inr {i : ℕ} {item : Option (OutputItem (Label ⊕ γ))}
    (hold : ∀ a, q.slot i = some a → ∃ g, a.data = .inr g)
    (hnew : ∀ a, item = some a → ∃ g, a.data = .inr g)
    (h : q'.slot = Function.update q.slot i item) {j : ℕ} {a : OutputItem (Label ⊕ γ)} {l : Label}
    (hl : a.data = .inl l) : q'.slot j = some a ↔ q.slot j = some a := by
  rw [h]
  by_cases hji : j = i
  · subst hji
    rw [Function.update_self]
    constructor
    · intro ha
      obtain ⟨g, hg⟩ := hnew a ha
      simp [hl] at hg
    · intro ha
      obtain ⟨g, hg⟩ := hold a ha
      simp [hl] at hg
  · rw [Function.update_of_ne hji]

theorem Delivery.of_slots (h : Delivery stage q p sends) (hp : p'.Fits)
    (hbounded : ∀ i item, q'.slot i = some item → i < Output.depth)
    (hslot : ∀ {i a l}, a.data = .inl l → (q'.slot i = some a ↔ q.slot i = some a)) :
    Delivery stage q' p' sends ∧ ∀ l, Issued q' sends l ↔ Issued q sends l := by
  have hqueued (l : Label) : Queued q' l ↔ Queued q l := by
    constructor
    · rintro ⟨i, a, ha, hl⟩
      exact ⟨i, a, (hslot hl).mp ha, hl⟩
    · rintro ⟨i, a, ha, hl⟩
      exact ⟨i, a, (hslot hl).mpr ha, hl⟩
  refine ⟨⟨hp, hbounded, ?_, ?_, h.carries, h.nodup, ?_⟩, fun l => or_congr (hqueued l) Iff.rfl⟩
  · intro i j a b l m ha hb hl hm
    exact h.once i j a b l m ((hslot hl).mp ha) ((hslot hm).mp hb) hl hm
  · intro i a l ha hl
    exact h.staged i a l ((hslot hl).mp ha) hl
  · intro l hl
    exact h.fresh l ((hqueued l).mp hl)

theorem Delivery.concat_unlabelled (h : Delivery stage q p sends) {x : OutputSend (Label ⊕ γ)}
    (hx : acceptedLabel x = none) :
    Delivery stage q p (sends ++ [x]) ∧ ∀ l, Issued q (sends ++ [x]) l ↔ Issued q sends l := by
  have haccepted : accepted (sends ++ [x]) = accepted sends := by
    rw [accepted_concat, hx, Option.toList_none, List.append_nil]
  refine ⟨⟨h.fits, h.bounded, h.once, h.staged, ?_, ?_, ?_⟩, ?_⟩
  · intro y hy l hl
    rcases List.mem_append.mp hy with hy | hy
    · exact h.carries y hy l hl
    · rw [List.mem_singleton.mp hy, hx] at hl
      simp at hl
  · rw [haccepted]
    exact h.nodup
  · rw [haccepted]
    exact h.fresh
  · intro l
    rw [Issued, haccepted]
    rfl

/-- The descriptor of the staging buffer leaves the queue with an accepted packet. -/
theorem Delivery.concat_labelled (h : Delivery stage q p sends) {i : ℕ}
    {item : OutputItem (Label ⊕ γ)} {l : Label} {x : OutputSend (Label ⊕ γ)} {r : Record}
    (hitem : q.slot i = some item) (hl : item.data = .inl l) (hx : acceptedLabel x = some l)
    (hr : l.record = some r) (hcarries : Carries x r)
    (hslot : q'.slot = Function.update q.slot i none) :
    Delivery stage q' p (sends ++ [x]) ∧ ∀ m, Issued q' (sends ++ [x]) m ↔ Issued q sends m := by
  have haccepted : accepted (sends ++ [x]) = accepted sends ++ [l] := by
    rw [accepted_concat, hx, Option.toList_some]
  have hsub : ∀ j a, q'.slot j = some a → q.slot j = some a :=
    Output.forall_slot_update (fun _ _ ha => ha) (by simp) hslot
  have hnone (m : Label) : ¬ Queued q' m := by
    rintro ⟨j, a, ha, hm⟩
    obtain rfl := h.once j i a item m l (hsub j a ha) hitem hm hl
    simp [hslot] at ha
  refine ⟨⟨h.fits, fun j a ha => h.bounded j a (hsub j a ha), ?_, ?_, ?_, ?_, ?_⟩, ?_⟩
  · intro j k a b m n ha hb hm hn
    exact h.once j k a b m n (hsub j a ha) (hsub k b hb) hm hn
  · intro j a m ha hm
    exact h.staged j a m (hsub j a ha) hm
  · intro y hy m hm
    rcases List.mem_append.mp hy with hy | hy
    · exact h.carries y hy m hm
    · rw [List.mem_singleton.mp hy] at hm ⊢
      obtain rfl := Option.some.inj (hx.symm.trans hm)
      exact ⟨r, hr, hcarries⟩
  · rw [haccepted]
    refine List.Nodup.append h.nodup (List.nodup_singleton l) ?_
    intro m hm hml
    rw [List.mem_singleton.mp hml] at hm
    exact h.fresh l ⟨i, item, hitem, hl⟩ hm
  · intro m hm
    exact absurd hm (hnone m)
  · intro m
    rw [Issued, Issued, haccepted, List.mem_append, List.mem_singleton]
    constructor
    · rintro (hm | hm | rfl)
      · exact absurd hm (hnone m)
      · exact .inr hm
      · exact .inl ⟨i, item, hitem, hl⟩
    · rintro (⟨j, a, ha, hm⟩ | hm)
      · obtain rfl := h.once j i a item m l ha hitem hm hl
        obtain rfl := Option.some.inj (ha.symm.trans hitem)
        rw [hl] at hm
        exact .inr (.inr (Sum.inl.inj hm).symm)
      · exact .inr (.inl hm)

theorem Delivery.same_slots (h : Delivery stage q p sends) (hp : p'.Fits)
    (hslot : q'.slot = q.slot) :
    Delivery stage q' p' sends ∧ ∀ l, Issued q' sends l ↔ Issued q sends l :=
  h.of_slots hp (hslot ▸ h.bounded) (fun _ => by rw [hslot])

/-- A free staging buffer is filled and queued for a record whose packets are still to come. -/
theorem Delivery.queue_labelled (h : Delivery stage q p sends) (hfree : ∀ l, ¬ Queued q l)
    {stage' : Buf} {k : ℕ} {cls : CcsdsClass} {len : UInt32} {l : Label} {r : Record}
    (hk : k < Output.depth)
    (hslot : q'.slot = Function.update q.slot k (some ⟨.inl l, len, cls⟩))
    (hr : l.record = some r) (hlen : len.toNat = r.payload.length)
    (hshort : len ≤ Store.transferStage) (hbytes : stage'.bytes 0 len = r.payload)
    (hfresh : l ∉ accepted sends) :
    Delivery stage' q' p sends ∧ ∀ m, Issued q' sends m ↔ Issued q sends m ∨ m = l := by
  have honly : ∀ i a, q'.slot i = some a → ∀ m, a.data = .inl m → i = k ∧ m = l ∧ a.len = len := by
    refine Output.forall_slot_update ?_ ?_ hslot
    · intro i a ha m hm
      exact absurd ⟨i, a, ha, hm⟩ (hfree m)
    · intro a ha m hm
      obtain rfl := Option.some.inj ha
      exact ⟨rfl, (Sum.inl.inj hm).symm, rfl⟩
  refine ⟨⟨h.fits, Output.forall_slot_update h.bounded (fun _ _ => hk) hslot, ?_, ?_, h.carries,
    h.nodup, ?_⟩, ?_⟩
  · intro i j a b m n ha hb hm hn
    exact (honly i a ha m hm).1.trans (honly j b hb n hn).1.symm
  · intro i a m ha hm
    obtain ⟨-, rfl, rfl⟩ := honly i a ha m hm
    exact ⟨r, hr, hlen, hshort, hbytes⟩
  · rintro m ⟨i, a, ha, hm⟩
    rw [(honly i a ha m hm).2.1]
    exact hfresh
  · intro m
    constructor
    · rintro (⟨i, a, ha, hm⟩ | hm)
      · exact .inr (honly i a ha m hm).2.1
      · exact .inl (.inr hm)
    · rintro ((hm | hm) | rfl)
      · exact absurd hm (hfree m)
      · exact .inr hm
      · exact .inl ⟨k, _, by rw [hslot, Function.update_self], rfl⟩

/-- A turn of the service keeps the delivery right, and neither loses a descriptor of the staging
buffer nor makes one. -/
theorem delivery_turn {answer : Status} {old : List (OutputSend (Label ⊕ γ))}
    {s s' : Output.Pass (Label ⊕ γ)} (h : Delivery stage s.queue s.ccsds (old ++ s.sends))
    (hs' : s' = (Output.turn (Sum.elim (fun _ => stage) other) answer s).2) :
    Delivery stage s'.queue s'.ccsds (old ++ s'.sends) ∧
      ∀ l, Issued s'.queue (old ++ s'.sends) l ↔ Issued s.queue (old ++ s.sends) l := by
  have hturn := Output.turn_cases (Sum.elim (fun _ => stage) other) answer s
  rw [← hs'] at hturn
  rcases hturn with hstop | ⟨i, item, st, packet, written, ccsds, -, hi, hitem, hbuild, hcases⟩
  · rw [hs', congrArg Prod.snd hstop]
    exact ⟨h, fun l => Iff.rfl⟩
  have hfits : ccsds.Fits := by
    have hfits := Ccsds.fits_build item.cls (Sum.elim (fun _ => stage) other item.data) item.len
      s.queue.packet Output.packetBytes h.fits
    rwa [hbuild] at hfits
  cases hdata : item.data with
  | inl l =>
    obtain ⟨r, hr, hlen, hshort, hbytes⟩ := h.staged i item l hitem hdata
    have hsmall : item.len.toNat ≤ 512 := UInt32.le_iff_toNat_le.mp hshort
    have hpacket : Output.packetBytes.toNat = 1024 := rfl
    obtain ⟨hok, hcarried, hwritten⟩ := @Ccsds.build_of_fits item.cls
      (Sum.elim (fun _ => stage) other item.data) item.len s.queue.packet Output.packetBytes _ h.fits
      (by omega) (by omega)
    rw [hbuild] at hok hcarried hwritten
    rw [hdata, Sum.elim_inl, hbytes] at hcarried
    rcases hcases with ⟨hst, -⟩ | ⟨-, status, link, v, -, -, hslot, hccsds, hsends⟩
    · exact absurd hok hst
    rw [hccsds, hsends, ← List.append_assoc]
    by_cases hstatus : status = .ok
    · rw [if_pos hstatus] at hslot
      obtain ⟨hsame, -⟩ := h.same_slots hfits rfl
      refine hsame.concat_labelled hitem hdata ?_ hr ⟨hlen, hcarried, hwritten⟩ hslot
      simp [acceptedLabel, hstatus, hdata]
    · rw [if_neg hstatus] at hslot
      obtain ⟨hsame, hissued⟩ := h.same_slots hfits hslot
      obtain ⟨hnext, hissued'⟩ := hsame.concat_unlabelled (x := ⟨item, packet, written, status⟩)
        (by simp [acceptedLabel, hstatus])
      exact ⟨hnext, fun l => (hissued' l).trans (hissued l)⟩
  | inr g =>
    have hold (a : OutputItem (Label ⊕ γ)) (ha : s.queue.slot i = some a) : ∃ g, a.data = .inr g := by
      obtain rfl := Option.some.inj (hitem.symm.trans ha)
      exact ⟨g, hdata⟩
    have hfreed (hslot : s'.queue.slot = Function.update s.queue.slot i none) :
        Delivery stage s'.queue ccsds (old ++ s.sends) ∧
          ∀ l, Issued s'.queue (old ++ s.sends) l ↔ Issued s.queue (old ++ s.sends) l := by
      exact h.of_slots hfits (Output.forall_slot_update h.bounded (by simp) hslot)
        (queued_update_inr hold (by simp) hslot)
    rcases hcases with ⟨-, -, hslot, hccsds, hsends⟩ | ⟨-, status, link, v, -, -, hslot, hccsds, hsends⟩
    · rw [hccsds, hsends]
      exact hfreed hslot
    · rw [hccsds, hsends, ← List.append_assoc]
      have hunlabelled : acceptedLabel (⟨item, packet, written, status⟩ : OutputSend (Label ⊕ γ)) =
          none := by
        simp [acceptedLabel, hdata]
      have hsame : Delivery stage s'.queue ccsds (old ++ s.sends) ∧
          ∀ l, Issued s'.queue (old ++ s.sends) l ↔ Issued s.queue (old ++ s.sends) l := by
        by_cases hstatus : status = .ok
        · rw [if_pos hstatus] at hslot
          exact hfreed hslot
        · rw [if_neg hstatus] at hslot
          exact h.same_slots hfits hslot
      obtain ⟨hnext, hissued⟩ := hsame.1.concat_unlabelled hunlabelled
      exact ⟨hnext, fun l => (hissued l).trans (hsame.2 l)⟩

theorem delivery_service {answers : ℕ → Status} {old : List (OutputSend (Label ⊕ γ))}
    {s s' : Output.Pass (Label ⊕ γ)} (h : Delivery stage s.queue s.ccsds (old ++ s.sends))
    (hs' : s' = Output.service (Sum.elim (fun _ => stage) other) answers s) :
    Delivery stage s'.queue s'.ccsds (old ++ s'.sends) ∧
      ∀ l, Issued s'.queue (old ++ s'.sends) l ↔ Issued s.queue (old ++ s.sends) l := by
  rw [hs']
  refine @Output.loop_invariant _ (Sum.elim (fun _ => stage) other) answers
    (fun w => Delivery stage w.queue w.ccsds (old ++ w.sends) ∧
      ∀ l, Issued w.queue (old ++ w.sends) l ↔ Issued s.queue (old ++ s.sends) l) ?_
    (Output.depth + 1) s ⟨h, fun l => Iff.rfl⟩
  rintro w ⟨hw, hissued⟩
  obtain ⟨hnext, hissued'⟩ := delivery_turn hw rfl
  exact ⟨hnext, fun l => (hissued' l).trans (hissued l)⟩

theorem delivery_output {s : Storage γ} (h : Delivery s.store.stage s.queue s.ccsds s.sends)
    (link : SpwLink) (other : γ → Buf) (answers : ℕ → Status) :
    let s' := step s (.output link other answers)
    Delivery s.store.stage s'.queue s'.ccsds s'.sends ∧
      ∀ l, Issued s'.queue s'.sends l ↔ Issued s.queue s.sends l := by
  intro s'
  rw [← List.append_nil s.sends] at h
  obtain ⟨hdelivery, hissued⟩ := @delivery_service _ s.store.stage other answers s.sends
    { queue := s.queue, ccsds := s.ccsds, link, v := s.v } _ h rfl
  refine ⟨hdelivery, ?_⟩
  intro l
  have hl := hissued l
  rwa [List.append_nil] at hl

theorem delivery_submit (h : Delivery stage q p sends) (cls : CcsdsClass) (data : γ) (len : UInt32)
    (v : Svc) :
    Delivery stage (Output.submit cls (.inr data) len q v).2.1 p sends ∧
      ∀ l, Issued (Output.submit cls (.inr data) len q v).2.1 sends l ↔ Issued q sends l := by
  rcases Output.submit_cases cls (.inr data) len q v with ⟨-, hslot⟩ | ⟨-, -, i, hi, hfree, hslot⟩
  · exact h.same_slots h.fits hslot
  · refine h.of_slots h.fits (Output.forall_slot_update h.bounded (fun _ _ => hi) hslot)
      (queued_update_inr ?_ ?_ hslot)
    · intro a ha
      simp [hfree] at ha
    · intro a ha
      rw [← Option.some.inj ha]
      exact ⟨data, rfl⟩

end Storage

end QiranFirmware
