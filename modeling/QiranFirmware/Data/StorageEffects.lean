import QiranFirmware.Data.StorageNand

/-! # What one pass of the transfer does

A pass leaves the staging buffer and the queue alone, or fills the buffer and queues nothing, or
fills it and queues a descriptor of it. Only in the last case is a record counted as transferred.
-/
namespace QiranFirmware.Store

variable {β : Type}

/-- What fits the staging buffer fits a packet. -/
theorem staged_fits {len : UInt32} (h : len ≤ transferStage) :
    ¬ Output.packetBytes < len + Ccsds.primaryHeaderBytes + Ccsds.integrityBytes := by
  have hsmall : len.toNat ≤ 512 := UInt32.le_iff_toNat_le.mp h
  have hpacket : Output.packetBytes.toNat = 1024 := rfl
  rw [UInt32.lt_iff_toNat_lt, UInt32.toNat_add, UInt32.toNat_add, hpacket,
    Ccsds.toNat_primaryHeaderBytes, Ccsds.toNat_integrityBytes]
  omega

/-- The room that a store finds is within the device, and its offsets do not wrap. -/
theorem room_of_fits {s : Store} (h : s.used ≤ s.capacity) {payload : List UInt8}
    (hlong : payload.length + 20 < 2 ^ 32)
    (hroom : headerBytes + UInt32.ofNat payload.length ≤ s.capacity - s.used) :
    (UInt32.ofNat payload.length).toNat = payload.length ∧
      (s.used + headerBytes).toNat = s.used.toNat + 20 ∧
      (s.used + (headerBytes + UInt32.ofNat payload.length)).toNat =
        s.used.toNat + (20 + payload.length) ∧
      s.used.toNat + (20 + payload.length) ≤ s.capacity.toNat := by
  have hfits := UInt32.le_iff_toNat_le.mp h
  have hcapacity := s.capacity.toNat_lt
  have hlen : (UInt32.ofNat payload.length).toNat = payload.length :=
    UInt32.toNat_ofNat_of_lt' (show payload.length < 2 ^ 32 by omega)
  have hmore : (headerBytes + UInt32.ofNat payload.length).toNat = 20 + payload.length := by
    rw [UInt32.toNat_add, toNat_headerBytes, hlen]
    omega
  rw [UInt32.le_iff_toNat_le, hmore, UInt32.toNat_sub_of_le _ _ h] at hroom
  refine ⟨hlen, ?_, ?_, by omega⟩
  · rw [UInt32.toNat_add, toNat_headerBytes]
    omega
  · rw [UInt32.toNat_add, hmore]
    omega

/-- A store that does not succeed counts a failure at most, and reaches the device only where one
of the two writes fails. -/
theorem store_cases (type : NandType) (payload : List UInt8) (writeHeader writeData : Status)
    (s : Store) (v : Svc) :
    ((store type payload writeHeader writeData s v).1 ≠ .ok ∧ ∃ writeFailures flash,
      (store type payload writeHeader writeData s v).2.1 = { s with writeFailures, flash } ∧
        (writeHeader = .ok → writeData = .ok → flash = s.flash)) ∨
    ((store type payload writeHeader writeData s v).1 = .ok ∧ s.transferActive = false ∧
      headerBytes + UInt32.ofNat payload.length ≤ s.capacity - s.used ∧
      (store type payload writeHeader writeData s v).2.1 = { s with
        flash := (s.flash.overlay s.used (header type s.sequence payload)).overlay
          (s.used + headerBytes) payload
        used := s.used + (headerBytes + UInt32.ofNat payload.length)
        records := s.records + 1
        sequence := s.sequence + 1 }) := by
  unfold store
  dsimp only
  split
  · exact .inl ⟨by simp, _, _, rfl, fun _ _ => rfl⟩
  split
  · exact .inl ⟨by simp, _, _, rfl, fun _ _ => rfl⟩
  split
  · exact .inl ⟨by simp, _, _, rfl, fun _ _ => rfl⟩
  rename_i hactive
  split
  · exact .inl ⟨by simp, _, _, rfl, fun _ _ => rfl⟩
  rename_i hroom
  split
  · exact .inl ⟨by simp, _, _, rfl, fun _ _ => rfl⟩
  split
  · rename_i hdata
    exact .inl ⟨by simp, _, _, rfl, fun _ h => absurd h hdata⟩
  · exact .inr ⟨rfl, by simpa using hactive, UInt32.not_lt.mp hroom, rfl⟩

/-- The guards of `storage_nand_clear` let it through, every record stored being counted as transferred,
and the device erases. -/
structure Erases (erase : Status) (s : Store) : Prop where
  ready : s.ready = true
  idle : s.transferActive = false
  guard : s.records = 0 ∨ s.transferred = s.records
  erased : erase = .ok

theorem clear_cases (erase : Status) (flash : Buf) (s : Store) (v : Svc) :
    ((s.clear erase flash v).1 ≠ .ok ∧ ∃ writeFailures flash',
      (s.clear erase flash v).2.1 = { s with writeFailures, flash := flash' }) ∨
    ((s.clear erase flash v).1 = .ok ∧ s.Erases erase ∧
      (s.clear erase flash v).2.1 =
        { s with flash, used := 0, records := 0, transferred := 0, transferOffset := 0 }) := by
  unfold clear
  split
  · exact .inl ⟨by simp, _, _, rfl⟩
  rename_i hready
  split
  · exact .inl ⟨by simp, _, _, rfl⟩
  rename_i hactive
  split
  · exact .inl ⟨by simp, _, _, rfl⟩
  rename_i hguard
  dsimp only
  split
  · exact .inl ⟨by simp, _, _, rfl⟩
  · rename_i herase
    rw [not_and_or, not_not, not_not] at hguard
    exact .inr ⟨rfl, ⟨by simpa using hready, by simpa using hactive, hguard, not_not.mp herase⟩, rfl⟩

def Pending (s : Store) : Prop := s.transferActive = true ∧ s.transferOffset < s.used

def lengthRead (s : Store) (readHeader : Option NandRead) : UInt32 :=
  (s.read s.transferOffset readHeader).data.getU32 12

def next (s : Store) (readHeader : Option NandRead) : UInt32 :=
  s.transferOffset + (headerBytes + s.lengthRead readHeader)

def payloadRead (s : Store) (readData : Option NandRead) : NandRead :=
  s.read (s.transferOffset + headerBytes) readData

def Described (s : Store) (readHeader : Option NandRead) : Prop :=
  s.Pending ∧ (s.read s.transferOffset readHeader).status = .ok ∧
    s.describes (s.read s.transferOffset readHeader).data = true

def Stages (s : Store) (readHeader : Option NandRead) : Prop :=
  s.Described readHeader ∧ s.lengthRead readHeader ≤ transferStage

def Checked (s : Store) (readHeader readData : Option NandRead) : Prop :=
  (s.payloadRead readData).status = .ok ∧
    Crc.crc32 ((s.payloadRead readData).data.bytes 0 (s.lengthRead readHeader)) =
      (s.read s.transferOffset readHeader).data.getU32 16

structure Kept (s s' : Store) : Prop where
  ready : s'.ready = s.ready
  capacity : s'.capacity = s.capacity
  used : s'.used = s.used
  records : s'.records = s.records
  sequence : s'.sequence = s.sequence
  flash : s'.flash = s.flash

inductive TransferEffect (stage : β) (readHeader readData : Option NandRead) (s : Store)
    (q : Output β) (s' : Store) (q' : Output β) : Prop
  | quiet (hkept : Kept s s') (hstage : s'.stage = s.stage) (hslot : q'.slot = q.slot)
      (htransferred : s'.transferred = s.transferred)
      (hactive : s'.transferActive = true → s.transferActive = true)
      (hoffset : s'.transferOffset = s.transferOffset ∨
        s.Described readHeader ∧ s'.transferOffset = s.next readHeader)
  | staged (hstages : s.Stages readHeader) (hkept : Kept s s') (hslot : q'.slot = q.slot)
      (htransferred : s'.transferred = s.transferred)
      (hoffset : s'.transferOffset = s.transferOffset ∨ s'.transferOffset = s.next readHeader)
  | submitted (hstages : s.Stages readHeader) (hchecked : s.Checked readHeader readData)
      (hkept : Kept s s')
      (hstage : s'.stage = s.stage.fill (s.lengthRead readHeader) (s.payloadRead readData).data)
      (htransferred : s'.transferred = s.transferred + 1)
      (hoffset : s'.transferOffset = s.next readHeader)
      (i : ℕ) (cls : CcsdsClass) (hi : i < Output.depth) (hfree : q.slot i = none)
      (hslot : q'.slot =
        Function.update q.slot i (some ⟨stage, s.lengthRead readHeader, cls⟩))

theorem transfer_effect (stage : β) (readHeader readData : Option NandRead) (s : Store)
    (q : Output β) (v : Svc) :
    TransferEffect stage readHeader readData s q
      (transferService stage readHeader readData s q v).1
      (transferService stage readHeader readData s q v).2.1 := by
  unfold transferService
  split
  · exact .quiet ⟨rfl, rfl, rfl, rfl, rfl, rfl⟩ rfl rfl rfl id (.inl rfl)
  rename_i hactive
  have hactive : s.transferActive = true := by simpa using hactive
  split
  · exact .quiet ⟨rfl, rfl, rfl, rfl, rfl, rfl⟩ rfl rfl rfl (fun _ => hactive) (.inl rfl)
  rename_i hleft
  dsimp only
  split
  · exact .quiet ⟨rfl, rfl, rfl, rfl, rfl, rfl⟩ rfl rfl rfl (fun _ => hactive) (.inl rfl)
  rename_i hread
  have hdescribed : s.Described readHeader := by
    rw [not_or, not_not, Bool.not_eq_true, Bool.not_eq_false'] at hread
    exact ⟨⟨hactive, UInt32.not_le.mp hleft⟩, hread⟩
  split
  · exact .quiet ⟨rfl, rfl, rfl, rfl, rfl, rfl⟩ rfl rfl rfl (fun _ => hactive)
      (.inr ⟨hdescribed, rfl⟩)
  rename_i hlen
  have hstages : s.Stages readHeader := ⟨hdescribed, UInt32.not_lt.mp hlen⟩
  split
  · exact .staged hstages ⟨rfl, rfl, rfl, rfl, rfl, rfl⟩ rfl rfl (.inl rfl)
  rename_i hdata
  split
  · exact .staged hstages ⟨rfl, rfl, rfl, rfl, rfl, rfl⟩ rfl rfl (.inr rfl)
  rename_i hcrc
  rw [Buf.bytes_fill, not_not] at hcrc
  have hchecked : s.Checked readHeader readData := ⟨not_not.mp hdata, hcrc⟩
  obtain ⟨⟨st, q', v'⟩, hsubmit⟩ : ∃ r,
      q.submit (classOf ((s.read s.transferOffset readHeader).data.getU32 4)) stage
        ((s.read s.transferOffset readHeader).data.getU32 12) v = r := ⟨_, rfl⟩
  have hcases := Output.submit_cases (classOf ((s.read s.transferOffset readHeader).data.getU32 4))
    stage ((s.read s.transferOffset readHeader).data.getU32 12) q v
  rw [hsubmit] at hcases ⊢
  rcases hcases with ⟨hbusy, hslot⟩ | ⟨hok, -, i, hi, hfree, hslot⟩
  · rw [if_pos hbusy]
    exact .staged hstages ⟨rfl, rfl, rfl, rfl, rfl, rfl⟩ hslot rfl (.inl rfl)
  · rw [if_neg (not_not.mpr hok)]
    exact .submitted hstages hchecked ⟨rfl, rfl, rfl, rfl, rfl, rfl⟩ rfl rfl rfl i _ hi hfree
      hslot

end QiranFirmware.Store
