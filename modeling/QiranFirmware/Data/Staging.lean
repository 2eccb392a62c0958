import QiranFirmware.Data.StorageCount

/-! # What a queued descriptor sends

A descriptor of the staging buffer sends what the buffer holds when its turn comes. On a device
without faults that is the record it was queued for, as long as no pass of the transfer fills the
buffer while a descriptor of it is queued.
-/
namespace QiranFirmware.Storage

open Machine

variable {γ : Type}

def attached (capacity : UInt32) (flash : Buf) : Storage γ :=
  step {} (.setOps (some (capacity, flash)))

def Faultless : StorageOp γ → Prop
  | .store _ payload writeHeader writeData =>
    payload.length ≤ 512 ∧ writeHeader = .ok ∧ writeData = .ok
  | .transfer readHeader readData => readHeader = none ∧ readData = none
  | .transferBegin | .submit .. | .output .. => True
  | .setOps _ | .clear .. => False

def Owned (s : Storage γ) : StorageOp γ → Prop
  | .transfer readHeader _ => s.store.Stages readHeader → StageFree s.queue
  | _ => True

structure Intact (s : Storage γ) : Prop where
  inv : Inv s
  image : s.store.flash.bytes 0 s.store.used = s.stored.flatMap Record.bytes
  known : ∀ l, Issued s.queue s.sends l → ∃ r ∈ s.stored, l.record = some r

theorem length_flatMap_bytes (records : List Record) :
    (records.flatMap Record.bytes).length = extent Record.size records := by
  rw [List.length_flatMap, extent]
  exact congrArg List.sum (List.map_congr_left fun r _ => r.length_bytes)

section Image
variable {flash : Buf} {used offset : UInt32} {before after : List UInt8} {r : Record}

theorem image_end (himage : flash.bytes 0 used = before ++ r.bytes ++ after)
    (hstart : before.length = offset.toNat) :
    offset.toNat + (20 + r.payload.length) ≤ used.toNat := by
  have hlength := congrArg List.length himage
  rw [Buf.length_bytes, List.length_append, List.length_append, r.length_bytes, Record.size]
    at hlength
  omega

theorem image_length (himage : flash.bytes 0 used = before ++ r.bytes ++ after)
    (hstart : before.length = offset.toNat) :
    flash.getU32 (offset + 12) = UInt32.ofNat r.payload.length := by
  have hend := image_end himage hstart
  have hused := used.toNat_lt
  have hat : (offset + 12).toNat = offset.toNat + 12 := by
    rw [UInt32.toNat_add]
    simp only [UInt32.reduceToNat]
    omega
  have hsplit : before ++ r.bytes ++ after =
      (before ++ (Buf.be32 Store.magic ++ Buf.be32 r.type.code ++ Buf.be32 r.sequence)) ++
        Buf.be32 (UInt32.ofNat r.payload.length) ++
        (Buf.be32 (Crc.crc32 r.payload) ++ r.payload ++ after) := by
    simp only [Record.bytes, Store.header, List.append_assoc]
  rw [Buf.getU32_of_bytes himage (by omega), hsplit]
  refine Buf.getU32_ofList _ _ _ ?_ ?_
  · rw [hat, List.length_append, hstart]
    rfl
  · rw [List.length_append, hstart]
    show offset.toNat + 12 + 4 ≤ 2 ^ 32
    omega

theorem image_payload (himage : flash.bytes 0 used = before ++ r.bytes ++ after)
    (hstart : before.length = offset.toNat) {len : UInt32} (hlen : len.toNat = r.payload.length) :
    flash.bytes (offset + Store.headerBytes) len = r.payload := by
  have hend := image_end himage hstart
  have hused := used.toNat_lt
  have hat : (offset + Store.headerBytes).toNat = offset.toNat + 20 := by
    rw [UInt32.toNat_add, Store.toNat_headerBytes]
    omega
  have hsplit : before ++ r.bytes ++ after =
      (before ++ Store.header r.type r.sequence r.payload) ++ r.payload ++ after := by
    simp only [Record.bytes, List.append_assoc]
  refine Buf.bytes_of_append (himage.trans hsplit) ?_ hlen
  rw [hat, List.length_append, hstart]
  rfl

end Image

/-- A pass reads what was stored. -/
theorem Intact.returns {s : Storage γ} (h : Intact s) : Returns s none none := by
  intro hdescribed r hr
  obtain ⟨done, hdone⟩ := h.inv.counted
  obtain ⟨i, hi, hat, -⟩ := hdone.position hdescribed.1
  obtain rfl := Option.some.inj ((current_eq hi hat).symm.trans hr)
  have himage : s.store.flash.bytes 0 s.store.used = (s.stored.take i).flatMap Record.bytes ++
      s.stored[i].bytes ++ (s.stored.drop (i + 1)).flatMap Record.bytes := by
    rw [h.image]
    conv_lhs => rw [← List.take_append_drop (i + 1) s.stored, List.take_succ_eq_append_getElem hi]
    rw [List.flatMap_append, List.flatMap_append, List.flatMap_singleton]
  have hstart : ((s.stored.take i).flatMap Record.bytes).length = s.store.transferOffset.toNat := by
    rw [length_flatMap_bytes, hat]
  have hlength : s.store.lengthRead none = UInt32.ofNat s.stored[i].payload.length :=
    (Buf.getU32_shift ..).trans (image_length himage hstart)
  refine ⟨hlength, ?_⟩
  intro _ _
  have hlen : (s.store.lengthRead none).toNat = s.stored[i].payload.length :=
    (h.inv.next hi hat hlength).1
  exact (Buf.bytes_shift ..).trans (image_payload himage hstart hlen)

theorem Intact.permitted {s : Storage γ} (h : Intact s) {op : StorageOp γ} (hop : Faultless op)
    (howned : Owned s op) : Permitted s op := by
  cases op with
  | setOps ops => exact absurd hop id
  | store type payload writeHeader writeData =>
    have hshort : payload.length ≤ 512 := hop.1
    show payload.length + 20 < 2 ^ 32
    omega
  | transfer readHeader readData =>
    obtain ⟨rfl, rfl⟩ := hop
    exact ⟨h.returns, howned⟩
  | clear erase flash => exact absurd hop id
  | transferBegin => trivial
  | submit cls data len => trivial
  | output link other answers => trivial

theorem image_store {s : Storage γ} (h : Intact s) (type : NandType) {payload : List UInt8}
    (hop : payload.length ≤ 512) :
    (step s (.store type payload .ok .ok)).store.flash.bytes 0
        (step s (.store type payload .ok .ok)).store.used =
      (step s (.store type payload .ok .ok)).stored.flatMap Record.bytes := by
  obtain ⟨⟨st, store, v⟩, hstore⟩ : ∃ r, s.store.store type payload .ok .ok s.v = r := ⟨_, rfl⟩
  have hcases := Store.store_cases type payload .ok .ok s.store s.v
  simp only [step]
  rw [hstore] at hcases ⊢
  rcases hcases with ⟨hst, writeFailures, flash, rfl, hflash⟩ | ⟨rfl, -, hroom, rfl⟩
  · rw [if_neg hst]
    dsimp only
    rw [hflash rfl rfl]
    exact h.image
  · dsimp only at hroom ⊢
    rw [if_pos rfl]
    obtain ⟨-, hmid, hnext, -⟩ :=
      Store.room_of_fits h.inv.fits (show payload.length + 20 < 2 ^ 32 by omega) hroom
    have hend : (s.store.used + (Store.headerBytes + UInt32.ofNat payload.length)).toNat =
        (s.store.used + Store.headerBytes).toNat + payload.length := by
      rw [hnext, hmid, Nat.add_assoc]
    rw [Buf.bytes_overlay _ _ hend, Buf.bytes_overlay _ _ hmid, h.image, List.flatMap_append,
      List.flatMap_singleton, Record.bytes, List.append_assoc]

theorem intact_store {s : Storage γ} (h : Intact s) (type : NandType) {payload : List UInt8}
    (hop : payload.length ≤ 512) (hinv : Inv (step s (.store type payload .ok .ok))) :
    Intact (step s (.store type payload .ok .ok)) := by
  refine ⟨hinv, image_store h type hop, ?_⟩
  simp only [step]
  split
  · intro l hl
    obtain ⟨r, hr, hrecord⟩ := h.known l hl
    exact ⟨r, List.mem_append_left _ hr, hrecord⟩
  · exact h.known

theorem intact_transfer {s : Storage γ} (h : Intact s) (readHeader readData : Option NandRead)
    (hinv : Inv (step s (.transfer readHeader readData))) :
    Intact (step s (.transfer readHeader readData)) := by
  have heffect :=
    Store.transfer_effect (.inl s.label) readHeader readData s.store s.queue s.v
  have hkept : Store.Kept s.store (step s (.transfer readHeader readData)).store := by
    cases heffect with
    | quiet hkept => exact hkept
    | staged _ hkept => exact hkept
    | submitted _ _ hkept => exact hkept
  refine ⟨hinv, ?_, ?_⟩
  · rw [hkept.flash, hkept.used]
    exact h.image
  rintro l (⟨j, a, ha, hl⟩ | hl)
  swap
  · exact h.known l (.inr hl)
  cases heffect with
  | quiet _ _ hslot =>
    have ha : s.queue.slot j = some a := hslot ▸ ha
    exact h.known l (.inl ⟨j, a, ha, hl⟩)
  | staged _ _ hslot =>
    have ha : s.queue.slot j = some a := hslot ▸ ha
    exact h.known l (.inl ⟨j, a, ha, hl⟩)
  | submitted hstages _ _ _ _ _ k cls _ _ hslot =>
    have ha := (congrFun hslot j).symm.trans ha
    by_cases hjk : j = k
    · rw [hjk, Function.update_self] at ha
      obtain rfl := Option.some.inj ha
      obtain rfl := Sum.inl.inj hl
      obtain ⟨done, hdone⟩ := h.inv.counted
      obtain ⟨i, hi, hat, -⟩ := hdone.position hstages.1.1
      exact ⟨s.stored[i], List.getElem_mem hi, current_eq hi hat⟩
    · rw [Function.update_of_ne hjk] at ha
      exact h.known l (.inl ⟨j, a, ha, hl⟩)

theorem intact_step {s : Storage γ} (h : Intact s) (op : StorageOp γ) (hop : Faultless op)
    (howned : Owned s op) : Intact (step s op) := by
  have hinv := inv_step h.inv op (h.permitted hop howned)
  cases op with
  | setOps ops => exact absurd hop id
  | clear erase flash => exact absurd hop id
  | store type payload writeHeader writeData =>
    obtain ⟨hshort, rfl, rfl⟩ := hop
    exact intact_store h type hshort hinv
  | transferBegin =>
    refine ⟨hinv, ?_, h.known⟩
    simp only [step, Store.transferBegin]
    split
    · exact h.image
    split
    · exact h.image
    · exact h.image
  | transfer readHeader readData => exact intact_transfer h readHeader readData hinv
  | submit cls data len =>
    obtain ⟨-, hissued⟩ := delivery_submit h.inv.delivery cls data len s.v
    exact ⟨hinv, h.image, fun l hl => h.known l ((hissued l).mp hl)⟩
  | output link other answers =>
    obtain ⟨-, hissued⟩ := delivery_output h.inv.delivery link other answers
    exact ⟨hinv, h.image, fun l hl => h.known l ((hissued l).mp hl)⟩

theorem intact_attached (capacity : UInt32) (flash : Buf) :
    Intact (attached capacity flash : Storage γ) := by
  refine ⟨inv_setOps inv_init _, ?_, ?_⟩
  · simp only [attached, step, Store.setOps]
    split <;> rfl
  · rintro l (⟨i, a, ha, -⟩ | hl)
    · simp [attached, step] at ha
    · simp [attached, step, accepted] at hl

/-- Every accepted packet of the staging buffer carries one stored record, whole and unchanged, and
within one transfer no record is carried twice. -/
theorem packets_carry_records (capacity : UInt32) (flash : Buf) {ops : List (StorageOp γ)}
    (h : Along step (fun s op => Faultless op ∧ Owned s op) (attached capacity flash) ops) :
    (∀ x ∈ (run step (attached capacity flash) ops).sends, ∀ l,
      x.status = .ok → x.item.data = .inl l →
        ∃ r ∈ (run step (attached capacity flash) ops).stored, l.record = some r ∧ Carries x r) ∧
    (accepted (run step (attached capacity flash) ops).sends).Nodup := by
  have hintact : Intact (run step (attached capacity flash) ops) :=
    @run_invariant _ _ step (fun s op => Faultless op ∧ Owned s op) Intact
      (fun _ op hs hop => intact_step hs op hop.1 hop.2) _ ops (intact_attached capacity flash) h
  refine ⟨?_, hintact.inv.delivery.nodup⟩
  intro x hx l hstatus hdata
  have hlabel : acceptedLabel x = some l := acceptedLabel_eq_some.mpr ⟨hstatus, hdata⟩
  obtain ⟨r, hr, hcarries⟩ := hintact.inv.delivery.carries x hx l hlabel
  obtain ⟨r', hstored, hr'⟩ := hintact.known l (.inr (List.mem_filterMap.mpr ⟨x, hx, hlabel⟩))
  obtain rfl := Option.some.inj (hr.symm.trans hr')
  exact ⟨r, hstored, hr, hcarries⟩

def storeTwo : List (StorageOp Unit) :=
  [.store .raw [1] .ok .ok, .store .raw [2] .ok .ok, .transferBegin]

def blank : Buf := fun _ => 0xFF

theorem packets_carry_two_records :
    (∀ x ∈ (run step (attached 4096 blank) (storeTwo ++ [.transfer none none, serviceRunning,
        .transfer none none, serviceRunning])).sends, ∀ l, x.status = .ok → x.item.data = .inl l →
      ∃ r ∈ (run step (attached 4096 blank) (storeTwo ++ [.transfer none none, serviceRunning,
        .transfer none none, serviceRunning])).stored, l.record = some r ∧ Carries x r) ∧
    (accepted (run step (attached 4096 blank) (storeTwo ++ [.transfer none none, serviceRunning,
      .transfer none none, serviceRunning])).sends).Nodup := by
  refine packets_carry_records 4096 blank ⟨⟨?_, trivial⟩, ⟨?_, trivial⟩, ⟨trivial, trivial⟩,
    ⟨⟨rfl, rfl⟩, fun _ => by decide +kernel⟩, ⟨trivial, trivial⟩,
    ⟨⟨rfl, rfl⟩, fun _ => by decide +kernel⟩, ⟨trivial, trivial⟩, trivial⟩
  · exact ⟨by decide, rfl, rfl⟩
  · exact ⟨by decide, rfl, rfl⟩

/-- With the link down for one pass, the second record is read over the first and leaves twice. -/
theorem overwritten_record_sent :
    ¬ ∀ x ∈ (run step (attached 4096 blank) (storeTwo ++ [.transfer none none,
        .transfer none none, serviceRunning])).sends, ∀ l,
      x.status = .ok → x.item.data = .inl l →
        ∃ r ∈ (run step (attached 4096 blank) (storeTwo ++ [.transfer none none,
          .transfer none none, serviceRunning])).stored, l.record = some r ∧ Carries x r := by
  have hsends : (run step (attached 4096 blank) (storeTwo ++ [.transfer none none,
        .transfer none none, serviceRunning])).sends.map (fun x => (x.status, x.item.data,
          x.packet.bytes Ccsds.primaryHeaderBytes x.item.len)) =
      [(.ok, .inl ⟨1, some ⟨0, .raw, 0, [1]⟩⟩, [2]), (.ok, .inl ⟨1, some ⟨1, .raw, 1, [2]⟩⟩, [2])] := by
    decide +kernel
  obtain ⟨x, rest, hx, hfirst, -⟩ := List.map_eq_cons_iff.mp hsends
  obtain ⟨hstatus, hfirst⟩ := Prod.mk.inj hfirst
  obtain ⟨hdata, hbytes⟩ := Prod.mk.inj hfirst
  intro h
  obtain ⟨r, -, hr, -, hcarried, -⟩ := h x (by rw [hx]; exact List.mem_cons_self) _ hstatus hdata
  rw [hbytes, ← Option.some.inj hr] at hcarried
  simp at hcarried

end QiranFirmware.Storage
