import QiranFirmware.Data.Staging

/-! # What is stored is sent

Records are stored on a device whose writes may fail half way, some of them decay, and a transfer
sends the rest. `Laid` relates the device to the records that are stored, through writes that fail
and are overwritten; `Decayed` says what the device holds when the transfer reads it.
-/
namespace QiranFirmware.Store

open Machine

variable {β : Type}

def transferComplete (s : Store) : Bool :=
  !s.transferActive && s.transferred == s.records && s.records != 0

/-- A call of `storage_nand_store`: the device's answers to its two writes, and what is left in the
range of one that fails. -/
structure StoreCall where
  type : NandType
  payload : List UInt8
  writeHeader : Status := .ok
  writeData : Status := .ok
  left : Buf := fun _ => 0xFF

def storeTorn (c : StoreCall) (s : Store) (v : Svc) : Status × Store × Svc :=
  let (st, s', v) := s.store c.type c.payload c.writeHeader c.writeData v
  if st ≠ .errHardware then (st, s', v)
  else if c.writeHeader ≠ .ok then
    (st, { s' with flash := s'.flash.overlay s.used (c.left.bytes 0 headerBytes) }, v)
  else
    (st, { s' with
      flash := s'.flash.overlay (s.used + headerBytes)
        (c.left.bytes 0 (UInt32.ofNat c.payload.length)) }, v)

/-- The store and the services, with the records stored, which the code does not keep. -/
structure Storing where
  store : Store
  v : Svc := {}
  stored : List Record := []

def storeStep (s : Storing) (c : StoreCall) : Storing :=
  let (st, store, v) := storeTorn c s.store s.v
  { store, v
    stored := if st = .ok then
      s.stored ++ [⟨s.stored.length, c.type, s.store.sequence, c.payload⟩] else s.stored }

structure Fresh (s : Store) : Prop where
  ready : s.ready = true
  idle : s.transferActive = false
  used : s.used = 0
  records : s.records = 0

structure Laid (s : Store) (stored : List Record) : Prop where
  ready : s.ready = true
  idle : s.transferActive = false
  image : s.flash.bytes 0 s.used = stored.flatMap Record.bytes
  used : s.used.toNat = extent Record.size stored
  fits : s.used ≤ s.capacity
  records : s.records.toNat = stored.length
  payloads : ∀ r ∈ stored, 1 ≤ r.payload.length ∧ r.payload.length ≤ 512

theorem laid_fresh {s : Store} (h : Fresh s) : Laid s [] := by
  refine ⟨h.ready, h.idle, ?_, ?_, ?_, ?_, by simp⟩
  · rw [h.used]
    rfl
  · rw [h.used]
    rfl
  · rw [h.used]
    exact UInt32.zero_le
  · rw [h.records]
    rfl

/-- A store leaves the device alone, or one of its writes fails and leaves something in its range, or
it succeeds; the latter two only with room for the record. -/
inductive TornEffect (c : StoreCall) (s : Store) : Status → Store → Prop
  | refused {st : Status} (hst : st ≠ .ok) : TornEffect c s st s
  | failed {st : Status} (hst : st ≠ .ok) (writeFailures : UInt32) (flash : Buf)
      (hroom : ¬ s.capacity - s.used < headerBytes + UInt32.ofNat c.payload.length)
      (hflash : flash = s.flash.overlay s.used (c.left.bytes 0 headerBytes) ∨
        flash = (s.flash.overlay s.used (header c.type s.sequence c.payload)).overlay
          (s.used + headerBytes) (c.left.bytes 0 (UInt32.ofNat c.payload.length))) :
      TornEffect c s st { s with writeFailures, flash }
  | stored (hsome : UInt32.ofNat c.payload.length ≠ 0)
      (hroom : ¬ s.capacity - s.used < headerBytes + UInt32.ofNat c.payload.length) :
      TornEffect c s .ok { s with
        flash := (s.flash.overlay s.used (header c.type s.sequence c.payload)).overlay
          (s.used + headerBytes) c.payload
        used := s.used + (headerBytes + UInt32.ofNat c.payload.length)
        records := s.records + 1
        sequence := s.sequence + 1 }

theorem storeTorn_effect (c : StoreCall) (s : Store) (v : Svc) :
    TornEffect c s (storeTorn c s v).1 (storeTorn c s v).2.1 := by
  have hrefused (st : Status) (w : Svc) (hst : st ≠ .ok) (hhard : st ≠ .errHardware)
      (hstore : s.store c.type c.payload c.writeHeader c.writeData v = (st, s, w)) :
      TornEffect c s (storeTorn c s v).1 (storeTorn c s v).2.1 := by
    simp only [storeTorn, hstore, if_pos hhard]
    exact .refused hst
  have hhardware : Status.errHardware ≠ .ok := by decide
  by_cases hsome : UInt32.ofNat c.payload.length = 0
  · exact hrefused .errParam v (by decide) (by decide) (by simp [store, hsome])
  by_cases hready : s.ready = true
  swap
  · exact hrefused .errUnsupported v (by decide) (by decide) (by simp [store, hsome, hready])
  by_cases hactive : s.transferActive = true
  · exact hrefused .errBusy v (by decide) (by decide) (by simp [store, hsome, hready, hactive])
  by_cases hroom : s.capacity - s.used < headerBytes + UInt32.ofNat c.payload.length
  · exact hrefused .errRange (v.report .nandWrite s.used) (by decide) (by decide)
      (by simp [store, hsome, hready, hactive, hroom])
  by_cases hheader : c.writeHeader = .ok
  swap
  · have hstore : s.store c.type c.payload c.writeHeader c.writeData v =
        (.errHardware, { s with writeFailures := s.writeFailures + 1 }, v.report .nandWrite s.used) := by
      simp [store, hsome, hready, hactive, hroom, hheader]
    unfold storeTorn
    rw [hstore]
    dsimp only
    rw [if_neg (not_not.mpr rfl), if_pos hheader]
    exact .failed hhardware _ _ hroom (.inl rfl)
  by_cases hdata : c.writeData = .ok
  · have hstore : s.store c.type c.payload c.writeHeader c.writeData v = (.ok, { s with
        flash := (s.flash.overlay s.used (header c.type s.sequence c.payload)).overlay
          (s.used + headerBytes) c.payload
        used := s.used + (headerBytes + UInt32.ofNat c.payload.length)
        records := s.records + 1
        sequence := s.sequence + 1 }, v) := by
      simp [store, hsome, hready, hactive, hroom, hheader, hdata]
    unfold storeTorn
    rw [hstore]
    dsimp only
    rw [if_pos hhardware.symm]
    exact .stored hsome hroom
  · have hstore : s.store c.type c.payload c.writeHeader c.writeData v = (.errHardware, { s with
        flash := s.flash.overlay s.used (header c.type s.sequence c.payload)
        writeFailures := s.writeFailures + 1 }, v.report .nandWrite s.used) := by
      simp [store, hsome, hready, hactive, hroom, hheader, hdata]
    unfold storeTorn
    rw [hstore]
    dsimp only
    rw [if_neg (not_not.mpr rfl), if_neg (not_not.mpr hheader)]
    exact .failed hhardware _ _ hroom (.inr rfl)

/-- A store that fails leaves the records as they stand, and one that succeeds adds its record. -/
theorem laid_storeStep {s : Storing} (h : Laid s.store s.stored) {c : StoreCall}
    (hshort : c.payload.length ≤ 512) :
    Laid (storeStep s c).store (storeStep s c).stored := by
  have heffect := storeTorn_effect c s.store s.v
  have hcapacity := s.store.capacity.toNat_lt
  have hlong : c.payload.length + 20 < 2 ^ 32 := by omega
  have hheader : (header c.type s.store.sequence c.payload).length = 20 := rfl
  obtain ⟨⟨st, store, v⟩, hstore⟩ : ∃ r, storeTorn c s.store s.v = r := ⟨_, rfl⟩
  unfold storeStep
  rw [hstore] at heffect ⊢
  dsimp only at heffect ⊢
  cases heffect with
  | refused hst =>
    rw [if_neg hst]
    exact h
  | failed hst writeFailures flash hroom hflash =>
    obtain ⟨hlen, hmid, -, hcap⟩ := room_of_fits h.fits hlong (UInt32.not_lt.mp hroom)
    have hbelow : flash.bytes 0 s.store.used = s.store.flash.bytes 0 s.store.used := by
      rcases hflash with rfl | rfl
      · refine Buf.bytes_overlay_of_le _ (Nat.le_refl _) ?_
        rw [Buf.length_bytes, toNat_headerBytes]
        omega
      · rw [Buf.bytes_overlay_of_le _ (by omega) (by rw [Buf.length_bytes, hlen, hmid]; omega),
          Buf.bytes_overlay_of_le _ (Nat.le_refl _) (by rw [hheader]; omega)]
    rw [if_neg hst]
    exact ⟨h.ready, h.idle, hbelow.trans h.image, h.used, h.fits, h.records, h.payloads⟩
  | stored hsome hroom =>
    obtain ⟨-, hmid, hnext, hcap⟩ := room_of_fits h.fits hlong (UInt32.not_lt.mp hroom)
    have hnonempty : 1 ≤ c.payload.length := by
      by_contra hzero
      rw [show c.payload.length = 0 by omega] at hsome
      exact hsome rfl
    have hsize : (⟨s.stored.length, c.type, s.store.sequence, c.payload⟩ : Record).size =
        20 + c.payload.length := rfl
    have hcount : 20 * s.stored.length ≤ extent Record.size s.stored :=
      mul_length_le_extent fun r _ => Nat.le_add_right 20 _
    have hused := h.used
    rw [if_pos rfl]
    refine ⟨h.ready, h.idle, ?_, ?_, ?_, ?_, ?_⟩
    · rw [Buf.bytes_overlay _ _ (by rw [hnext, hmid, Nat.add_assoc]), Buf.bytes_overlay _ _ (by rw [hmid, hheader]),
        h.image, List.flatMap_append, List.flatMap_singleton, Record.bytes, List.append_assoc]
    · rw [hnext, extent_append, extent_cons, extent_nil, hsize]
      omega
    · rw [UInt32.le_iff_toNat_le, hnext]
      exact hcap
    · rw [UInt32.toNat_add, h.records, UInt32.toNat_one, List.length_append, List.length_singleton]
      omega
    · intro r hr
      rcases List.mem_append.mp hr with hr | hr
      · exact h.payloads r hr
      · rw [List.mem_singleton.mp hr]
        exact ⟨hnonempty, hshort⟩

/-- What the passes of a transfer leave: the store, and what they have submitted to the queue, by
class and content. -/
structure Sending where
  store : Store
  submitted : List (CcsdsClass × List UInt8) := []

def Drained (q : Output β) : Prop := ∀ i, q.slot i = none

def pass (stage : β) (t : Sending) (c : Output β × Svc) : Sending :=
  let (store, q, _) := transferService stage none none t.store c.1 c.2
  { store
    submitted := t.submitted ++
      q.queued.map fun item => (item.cls, store.stage.bytes 0 item.len) }

def offsetOf (stored : List Record) (k : ℕ) : UInt32 :=
  UInt32.ofNat (extent Record.size (stored.take k))

/-- From `flash` to `flash'` the payloads of the records in `D` have changed so that their checksums
do not match, and nothing else of what is stored has. -/
structure Decayed (D : Record → Bool) (stored : List Record) (flash flash' : Buf) : Prop where
  header : ∀ k < stored.length,
    flash'.bytes (offsetOf stored k) headerBytes = flash.bytes (offsetOf stored k) headerBytes
  kept : ∀ k (hk : k < stored.length), D stored[k] = false →
    flash'.bytes (offsetOf stored k + headerBytes) (UInt32.ofNat stored[k].payload.length) =
      flash.bytes (offsetOf stored k + headerBytes) (UInt32.ofNat stored[k].payload.length)
  lost : ∀ k (hk : k < stored.length), D stored[k] = true →
    Crc.crc32 (flash'.bytes (offsetOf stored k + headerBytes)
      (UInt32.ofNat stored[k].payload.length)) ≠ Crc.crc32 stored[k].payload

def expected (D : Record → Bool) (stored : List Record) : List (CcsdsClass × List UInt8) :=
  (stored.filter fun r => !D r).map fun r => (classOf r.type.code, r.payload)

example : [NandType.raw, .processed, .health].map (fun type => classOf type.code) =
    [.scienceRaw, .scienceProcessed, .health] := by decide

theorem getU32_header (type : NandType) (sequence : UInt32) (payload : List UInt8) :
    (Buf.ofList (header type sequence payload)).getU32 0 = magic ∧
    (Buf.ofList (header type sequence payload)).getU32 4 = type.code ∧
    (Buf.ofList (header type sequence payload)).getU32 12 = UInt32.ofNat payload.length ∧
    (Buf.ofList (header type sequence payload)).getU32 16 = Crc.crc32 payload := by
  refine ⟨?_, ?_, ?_, ?_⟩
  · exact Buf.getU32_ofList [] (Buf.be32 type.code ++ Buf.be32 sequence ++
      Buf.be32 (UInt32.ofNat payload.length) ++ Buf.be32 (Crc.crc32 payload)) magic rfl (by decide)
  · exact Buf.getU32_ofList (Buf.be32 magic) (Buf.be32 sequence ++
      Buf.be32 (UInt32.ofNat payload.length) ++ Buf.be32 (Crc.crc32 payload)) type.code rfl
      (by simp [Buf.be32])
  · exact Buf.getU32_ofList (Buf.be32 magic ++ Buf.be32 type.code ++ Buf.be32 sequence)
      (Buf.be32 (Crc.crc32 payload)) _ rfl (by simp [Buf.be32])
  · exact Buf.getU32_ofList (Buf.be32 magic ++ Buf.be32 type.code ++ Buf.be32 sequence ++
      Buf.be32 (UInt32.ofNat payload.length)) [] _ rfl (by simp [Buf.be32])

structure Found (s : Store) (r : Record) (now : List UInt8) : Prop where
  active : s.transferActive = true
  header : s.flash.bytes s.transferOffset headerBytes = header r.type r.sequence r.payload
  now : s.flash.bytes (s.transferOffset + headerBytes) (UInt32.ofNat r.payload.length) = now
  within : s.transferOffset.toNat + 20 + r.payload.length ≤ s.used.toNat
  some : 1 ≤ r.payload.length
  short : r.payload.length ≤ 512

theorem submit_drained {cls : CcsdsClass} {data : β} {len : UInt32} {q : Output β} {v : Svc}
    (hq : Drained q) (hzero : len ≠ 0) (hlen : len ≤ transferStage) :
    ∃ q', q.submit cls data len v = (.ok, q', v) ∧ q'.queued = [⟨data, len, cls⟩] := by
  have hfind : (List.range Output.depth).find? (fun i => (q.slot i).isNone) = some 0 := by
    simp [Output.depth, List.range_succ, hq 0]
  refine ⟨_, by simp only [Output.submit, hzero, staged_fits hlen, hfind, ↓reduceIte]; rfl, ?_⟩
  simp [Output.queued, Output.depth, List.range_succ, Function.update_apply, hq _]

theorem queued_drained {q : Output β} (hq : Drained q) : q.queued = [] := by
  simp [Output.queued, hq _]

/-- The length, the checksum and the class that a pass reads are the record's, and the header
describes it. -/
theorem Found.reads {s : Store} {r : Record} {now : List UInt8} (h : Found s r now) :
    (s.read s.transferOffset none).data.getU32 12 = UInt32.ofNat r.payload.length ∧
      (s.read s.transferOffset none).data.getU32 16 = Crc.crc32 r.payload ∧
      (s.read s.transferOffset none).data.getU32 4 = r.type.code ∧
      s.describes (s.read s.transferOffset none).data = true := by
  obtain ⟨h0, h4, h12, h16⟩ := getU32_header r.type r.sequence r.payload
  have hword {i w : UInt32} (hi : i.toNat + 4 ≤ 20)
      (hw : (Buf.ofList (Store.header r.type r.sequence r.payload)).getU32 i = w) :
      (s.read s.transferOffset none).data.getU32 i = w := by
    rw [← hw, ← Buf.getU32_of_bytes_at h.header hi]
    exact Buf.getU32_shift ..
  have hmagic := hword (by decide) h0
  have htype := hword (by decide) h4
  have hlen := hword (by decide) h12
  refine ⟨hlen, hword (by decide) h16, htype, ?_⟩
  have hshort := h.short
  have hsome := h.some
  have hwithin := h.within
  have hused := s.used.toNat_lt
  have hnat : (UInt32.ofNat r.payload.length).toNat = r.payload.length :=
    UInt32.toNat_ofNat_of_lt' (show r.payload.length < 2 ^ 32 by omega)
  have hcode : r.type.code < 3 := by cases r.type <;> decide
  have hzero : UInt32.ofNat r.payload.length ≠ 0 := by
    rw [ne_eq, ← UInt32.toNat_inj, hnat, UInt32.toNat_zero]
    omega
  have hend : s.transferOffset + headerBytes + UInt32.ofNat r.payload.length ≤ s.used := by
    rw [UInt32.le_iff_toNat_le, UInt32.toNat_add, UInt32.toNat_add, toNat_headerBytes, hnat]
    omega
  simp [describes, hmagic, htype, hlen, hcode, hzero, hend]

def Found.next (s : Store) (r : Record) : UInt32 :=
  s.transferOffset + (headerBytes + UInt32.ofNat r.payload.length)

/-- A pass at a record submits it when its checksum matches, and goes on to the next. -/
theorem pass_found (stage : β) {t : Sending} {r : Record} {now : List UInt8} {c : Output β × Svc}
    (h : Found t.store r now) (hq : Drained c.1) :
    ∃ buf n, pass stage t c =
      if Crc.crc32 now = Crc.crc32 r.payload then
        ⟨{ t.store with
            stage := buf
            transferOffset := Found.next t.store r
            transferred := t.store.transferred + 1 },
          t.submitted ++ [(classOf r.type.code, now)]⟩
      else
        ⟨{ t.store with
            stage := buf, transferOffset := Found.next t.store r, readFailures := n },
          t.submitted⟩ := by
  obtain ⟨hlen, hcrc, htype, hdescribes⟩ := h.reads
  have hwithin := h.within
  have hnat : (UInt32.ofNat r.payload.length).toNat = r.payload.length :=
    UInt32.toNat_ofNat_of_lt' (show r.payload.length < 2 ^ 32 from by have := h.short; omega)
  have hpending : ¬ t.store.used ≤ t.store.transferOffset := by
    rw [UInt32.not_le, UInt32.lt_iff_toNat_lt]
    omega
  have hshort : UInt32.ofNat r.payload.length ≤ transferStage := by
    rw [UInt32.le_iff_toNat_le, hnat]
    exact h.short
  have hzero : UInt32.ofNat r.payload.length ≠ 0 := by
    rw [ne_eq, ← UInt32.toNat_inj, hnat, UInt32.toNat_zero]
    exact Nat.ne_of_gt h.some
  have hdata : (t.store.stage.fill (UInt32.ofNat r.payload.length)
      (t.store.read (t.store.transferOffset + headerBytes) none).data).bytes 0
        (UInt32.ofNat r.payload.length) = now := by
    rw [Buf.bytes_fill, ← h.now]
    exact Buf.bytes_shift ..
  refine ⟨t.store.stage.fill (UInt32.ofNat r.payload.length)
    (t.store.read (t.store.transferOffset + headerBytes) none).data, t.store.readFailures + 1, ?_⟩
  have hgood : ¬ ((t.store.read t.store.transferOffset none).status ≠ .ok ∨
      (!t.store.describes (t.store.read t.store.transferOffset none).data) = true) := by
    rw [hdescribes]
    simp [read]
  unfold pass transferService
  rw [if_neg (by simp [h.active]), if_neg hpending]
  dsimp only
  rw [if_neg hgood, hlen, if_neg (UInt32.not_lt.mpr hshort), if_neg (by simp [read]), hdata, hcrc,
    htype]
  by_cases hmatch : Crc.crc32 now = Crc.crc32 r.payload
  · obtain ⟨q', hsubmit, hqueued⟩ :=
      @submit_drained _ (classOf r.type.code) stage _ c.1 c.2 hq hzero hshort
    rw [if_neg (not_not.mpr hmatch), if_pos hmatch, hsubmit]
    dsimp only
    rw [if_neg (not_not.mpr rfl), hqueued]
    simp [hdata, Found.next]
  · rw [if_pos hmatch, if_neg hmatch]
    simp [queued_drained hq, Found.next]

section Transfer
variable {s : Store} {stored : List Record} {D : Record → Bool} {flash : Buf}

theorem expected_take_succ {k : ℕ} (hk : k < stored.length) :
    expected D (stored.take (k + 1)) = expected D (stored.take k) ++
      if D stored[k] then [] else [(classOf stored[k].type.code, stored[k].payload)] := by
  rw [List.take_succ_eq_append_getElem hk, expected, List.filter_append, List.map_append]
  by_cases hD : D stored[k] = true
  · simp [expected, hD]
  · simp [expected, hD]

/-- The record's place on the device, in the terms of the layout. -/
theorem Laid.place (h : Laid s stored) {k : ℕ} (hk : k < stored.length) :
    (offsetOf stored k).toNat = extent Record.size (stored.take k) ∧
      (offsetOf stored k).toNat + 20 + stored[k].payload.length ≤ s.used.toNat ∧
      offsetOf stored (k + 1) =
        offsetOf stored k + (headerBytes + UInt32.ofNat stored[k].payload.length) := by
  have hused := s.used.toNat_lt
  have hnext : extent Record.size (stored.take (k + 1)) =
      extent Record.size (stored.take k) + (20 + stored[k].payload.length) := extent_take_succ _ hk
  have hend : extent Record.size (stored.take (k + 1)) ≤ s.used.toNat := by
    rw [h.used]
    exact extent_take_le ..
  have hat : (offsetOf stored k).toNat = extent Record.size (stored.take k) :=
    UInt32.toNat_ofNat_of_lt' (show extent Record.size (stored.take k) < 2 ^ 32 by omega)
  refine ⟨hat, by omega, ?_⟩
  rw [offsetOf, hnext, UInt32.ofNat_add, UInt32.ofNat_add]
  rfl

/-- A record on the device that has not decayed is read back whole. -/
theorem Laid.read_back (h : Laid s stored) {k : ℕ} (hk : k < stored.length) :
    s.flash.bytes (offsetOf stored k) headerBytes =
        header stored[k].type stored[k].sequence stored[k].payload ∧
      s.flash.bytes (offsetOf stored k + headerBytes)
        (UInt32.ofNat stored[k].payload.length) = stored[k].payload := by
  obtain ⟨hat, hend, -⟩ := h.place hk
  have hused := s.used.toNat_lt
  have himage : s.flash.bytes 0 s.used = (stored.take k).flatMap Record.bytes ++
      stored[k].bytes ++ (stored.drop (k + 1)).flatMap Record.bytes := by
    rw [h.image]
    conv_lhs => rw [← List.take_append_drop (k + 1) stored, List.take_succ_eq_append_getElem hk]
    rw [List.flatMap_append, List.flatMap_append, List.flatMap_singleton]
  have hstart : ((stored.take k).flatMap Record.bytes).length = (offsetOf stored k).toNat := by
    rw [Storage.length_flatMap_bytes, hat]
  refine ⟨?_, ?_⟩
  · have hheader : s.flash.bytes 0 s.used = (stored.take k).flatMap Record.bytes ++
        header stored[k].type stored[k].sequence stored[k].payload ++
        (stored[k].payload ++ (stored.drop (k + 1)).flatMap Record.bytes) := by
      rw [himage, Record.bytes]
      simp only [List.append_assoc]
    exact Buf.bytes_of_append hheader hstart.symm rfl
  · refine Storage.image_payload himage hstart ?_
    exact UInt32.toNat_ofNat_of_lt' (show stored[k].payload.length < 2 ^ 32 by omega)

structure At (D : Record → Bool) (s : Store) (stored : List Record) (flash : Buf) (k : ℕ)
    (t : Sending) : Prop where
  active : t.store.transferActive = true
  flash : t.store.flash = flash
  used : t.store.used = s.used
  records : t.store.records = s.records
  offset : t.store.transferOffset = offsetOf stored k
  submitted : t.submitted = expected D (stored.take k)
  transferred : t.store.transferred.toNat = (expected D (stored.take k)).length

structure Ended (D : Record → Bool) (s : Store) (stored : List Record) (t : Sending) : Prop where
  inactive : t.store.transferActive = false
  records : t.store.records = s.records
  submitted : t.submitted = expected D stored
  transferred : t.store.transferred.toNat = (expected D stored).length

theorem length_expected_le (D : Record → Bool) (stored : List Record) :
    (expected D stored).length ≤ stored.length := by
  rw [expected, List.length_map]
  exact List.length_filter_le ..

theorem at_begin (h : Laid s stored) :
    At D s stored flash 0 ⟨{ s with flash }.transferBegin.2, []⟩ := by
  have hbegin : { s with flash }.transferBegin.2 =
      { s with flash, transferOffset := 0, transferred := 0, transferActive := true } := by
    simp [transferBegin, h.ready, h.idle]
  rw [hbegin]
  exact ⟨rfl, rfl, rfl, rfl, rfl, rfl, rfl⟩

/-- A pass goes on from one record to the next, whether or not that one has decayed. -/
theorem At.step (h : Laid s stored) (hD : Decayed D stored s.flash flash) (stage : β) {k : ℕ}
    (hk : k < stored.length) {t : Sending} (ht : At D s stored flash k t) {c : Output β × Svc}
    (hq : Drained c.1) : At D s stored flash (k + 1) (pass stage t c) := by
  obtain ⟨hat, hend, hnext⟩ := h.place hk
  obtain ⟨hheader, hpayload⟩ := h.read_back hk
  obtain ⟨hsome, hshort⟩ := h.payloads stored[k] (List.getElem_mem hk)
  have hfound : Found t.store stored[k] (flash.bytes (offsetOf stored k + headerBytes)
      (UInt32.ofNat stored[k].payload.length)) := by
    refine ⟨ht.active, ?_, ?_, ?_, hsome, hshort⟩
    · rw [ht.flash, ht.offset, hD.header k hk, hheader]
    · rw [ht.flash, ht.offset]
    · rw [ht.offset, ht.used]
      exact hend
  have hoffset : Found.next t.store stored[k] = offsetOf stored (k + 1) := by
    rw [Found.next, ht.offset, hnext]
  obtain ⟨buf, n, hpass⟩ := pass_found stage hfound hq
  have hexpected := @expected_take_succ stored D k hk
  rw [hpass]
  by_cases hlost : D stored[k] = true
  · rw [if_neg (hD.lost k hk hlost)]
    rw [if_pos hlost, List.append_nil] at hexpected
    refine ⟨ht.active, ht.flash, ht.used, ht.records, hoffset, ?_, ?_⟩
    · rw [hexpected, ← ht.submitted]
    · rw [hexpected, ← ht.transferred]
  · have hnow : flash.bytes (offsetOf stored k + headerBytes)
        (UInt32.ofNat stored[k].payload.length) = stored[k].payload := by
      rw [hD.kept k hk (Bool.eq_false_iff.mpr hlost), hpayload]
    have hcount : 20 * stored.length ≤ extent Record.size stored :=
      mul_length_le_extent fun r _ => Nat.le_add_right 20 _
    have hsent := (length_expected_le D (stored.take k)).trans (List.length_take_le ..)
    have hused := s.used.toNat_lt
    have hextent := h.used
    rw [if_neg hlost] at hexpected
    rw [if_pos (congrArg _ hnow)]
    refine ⟨ht.active, ht.flash, ht.used, ht.records, hoffset, ?_, ?_⟩
    · rw [hexpected, ht.submitted, hnow]
    · rw [hexpected, List.length_append, List.length_singleton, UInt32.toNat_add, ht.transferred,
        UInt32.toNat_one]
      omega

/-- The pass that finds no further record ends the transfer. -/
theorem At.finish (h : Laid s stored) (stage : β) {t : Sending}
    (ht : At D s stored flash stored.length t) {c : Output β × Svc} (hq : Drained c.1) :
    Ended D s stored (pass stage t c) := by
  have hdone : t.store.used ≤ t.store.transferOffset := by
    rw [ht.used, ht.offset, offsetOf, List.take_length, ← h.used, UInt32.ofNat_toNat]
    exact UInt32.le_refl _
  have hsubmitted := ht.submitted
  have htransferred := ht.transferred
  rw [List.take_length] at hsubmitted htransferred
  have hpass : pass stage t c = ⟨{ t.store with transferActive := false }, t.submitted⟩ := by
    simp [pass, transferService, ht.active, hdone, queued_drained hq]
  rw [hpass]
  exact ⟨rfl, ht.records, hsubmitted, htransferred⟩

theorem Ended.step (stage : β) {t : Sending} (ht : Ended D s stored t) {c : Output β × Svc}
    (hq : Drained c.1) : Ended D s stored (pass stage t c) := by
  have hpass : pass stage t c = t := by
    simp [pass, transferService, ht.inactive, queued_drained hq]
  rw [hpass]
  exact ht

theorem At.run (h : Laid s stored) (hD : Decayed D stored s.flash flash) (stage : β)
    {passes : List (Output β × Svc)} (hpasses : ∀ c ∈ passes, Drained c.1) {k : ℕ} {t : Sending}
    (ht : At D s stored flash k t) (hk : k ≤ stored.length)
    (hlong : stored.length < k + passes.length) :
    Ended D s stored (run (pass stage) t passes) := by
  induction passes generalizing k t with
  | nil =>
    rw [List.length_nil] at hlong
    omega
  | cons c passes ih =>
    have hq := hpasses c List.mem_cons_self
    have hrest : ∀ c ∈ passes, Drained c.1 := fun c hc => hpasses c (List.mem_cons_of_mem _ hc)
    rw [List.length_cons] at hlong
    rcases Nat.lt_or_eq_of_le hk with hlt | rfl
    · exact ih hrest (ht.step h hD stage hlt hq) hlt (by omega)
    · rw [run_cons]
      exact @run_invariant _ _ (pass stage) (fun _ c => Drained c.1) (Ended D s stored)
        (fun _ _ ht hq => ht.step stage hq) _ _ (ht.finish h stage hq) (along_of_forall hrest)

theorem Ended.complete (h : Laid s stored) {t : Sending} (ht : Ended D s stored t) :
    transferComplete t.store = true ↔ stored ≠ [] ∧ ∀ r ∈ stored, D r = false := by
  have hall : (expected D stored).length = stored.length ↔ ∀ r ∈ stored, D r = false := by
    rw [expected, List.length_map, List.length_filter_eq_length_iff]
    simp
  have hsome : t.store.records ≠ 0 ↔ stored ≠ [] := by
    rw [ht.records, ne_eq, ← UInt32.toNat_inj, h.records, UInt32.toNat_zero, ne_eq,
      List.length_eq_zero_iff]
  have hcount : t.store.transferred = t.store.records ↔ ∀ r ∈ stored, D r = false := by
    rw [← UInt32.toNat_inj, ht.transferred, ht.records, h.records, hall]
  simp only [transferComplete, ht.inactive, Bool.not_false, Bool.true_and, Bool.and_eq_true,
    beq_iff_eq, bne_iff_ne, hcount, hsome]
  exact and_comm

end Transfer

/-- Whatever writes failed, the transfer sends the records that were stored and have not decayed, in
order and under their classes, and is complete when there are some and none has decayed. -/
theorem stored_is_sent (stage : β) {s : Store} (hs : Fresh s) (v : Svc) {calls : List StoreCall}
    (hcalls : ∀ c ∈ calls, 1 ≤ c.payload.length ∧ c.payload.length ≤ 512) {D : Record → Bool}
    {flash : Buf} (hD : Decayed D (run storeStep { store := s, v } calls).stored
      (run storeStep { store := s, v } calls).store.flash flash)
    {passes : List (Output β × Svc)} (hpasses : ∀ c ∈ passes, Drained c.1)
    (hlong : (run storeStep { store := s, v } calls).stored.length < passes.length) :
    let w := run storeStep { store := s, v } calls
    let t := run (pass stage) ⟨{ w.store with flash }.transferBegin.2, []⟩ passes
    t.submitted = expected D w.stored ∧
      (transferComplete t.store = true ↔ w.stored ≠ [] ∧ ∀ r ∈ w.stored, D r = false) := by
  intro w t
  have hlaid : Laid w.store w.stored :=
    @run_invariant _ _ storeStep (fun _ c => 1 ≤ c.payload.length ∧ c.payload.length ≤ 512)
      (fun w => Laid w.store w.stored) (fun _ _ hw hc => laid_storeStep hw hc.2) _ _
      (laid_fresh hs) (along_of_forall hcalls)
  have hended : Ended D w.store w.stored t :=
    (at_begin hlaid).run hlaid hD stage hpasses (Nat.zero_le _)
      (by rwa [Nat.zero_add])
  exact ⟨hended.submitted, hended.complete hlaid⟩

def empty : Store := { ready := true, capacity := 4096, flash := fun _ => 0xFF }

def storeThree : List StoreCall :=
  [{ type := .raw, payload := [1] },
   { type := .processed, payload := [2, 2], writeData := .errHardware, left := fun _ => 7 },
   { type := .health, payload := [3] }]

theorem stored_is_sent_decayed :
    let w := run storeStep { store := empty, v := {} } storeThree
    let t := run (pass ()) ⟨{ w.store with flash := w.store.flash.overlay 20 [9] }.transferBegin.2, []⟩
      (List.replicate 3 ({}, {}))
    t.submitted = expected (fun r => r.id == 0) w.stored ∧
      (transferComplete t.store = true ↔
        w.stored ≠ [] ∧ ∀ r ∈ w.stored, (r.id == 0) = false) := by
  refine stored_is_sent () ⟨rfl, rfl, rfl, rfl⟩ {} (by decide)
    ⟨by decide +kernel, by decide +kernel, by decide +kernel⟩ ?_ (by decide +kernel)
  intro c hc i
  rw [List.eq_of_mem_replicate hc]

end QiranFirmware.Store
