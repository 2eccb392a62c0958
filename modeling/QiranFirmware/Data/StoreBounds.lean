import QiranFirmware.Data.StorageEffects
import QiranFirmware.Machine.Runs

/-! # What a store writes to the device

`storage_nand_store` adds the header to the caller's length in 32 bits and compares the sum with the
room left. The comparison is exact as long as the sum does not wrap. A length that makes it wrap
asks for at most 19 bytes, and where these are found the payload is written past the end.
-/
namespace QiranFirmware.Store

open Machine

structure NandWrite where
  offset : UInt32
  bytes : List UInt8

def NandWrite.stop (w : NandWrite) : ℕ := w.offset.toNat + w.bytes.length

@[simp] theorem NandWrite.stop_mk (offset : UInt32) (bytes : List UInt8) :
    NandWrite.stop ⟨offset, bytes⟩ = offset.toNat + bytes.length := rfl

/-- `storage_nand_store` with its arguments as they are passed, `data` being null or what it points
to; first the writes that the device is given. -/
def storeAt (type : UInt32) (data : Option Buf) (len : UInt32) (writeHeader writeData : Status)
    (s : Store) (v : Svc) : List NandWrite × Status × Store × Svc :=
  match data with
  | none => ([], .errParam, s, v)
  | some data =>
    if 3 ≤ type ∨ len = 0 then ([], .errParam, s, v)
    else if !s.ready then ([], .errUnsupported, s, v)
    else if s.transferActive then ([], .errBusy, s, v)
    else if s.capacity - s.used < headerBytes + len then
      ([], .errRange, s, v.report .nandWrite s.used)
    else
      let payload := data.bytes 0 len
      let head := Buf.be32 magic ++ Buf.be32 type ++ Buf.be32 s.sequence ++ Buf.be32 len ++
        Buf.be32 (Crc.crc32 payload)
      let first : NandWrite := ⟨s.used, head⟩
      let second : NandWrite := ⟨s.used + headerBytes, payload⟩
      if writeHeader ≠ .ok then
        ([first], .errHardware, { s with writeFailures := s.writeFailures + 1 },
          v.report .nandWrite s.used)
      else
        let s := { s with flash := s.flash.overlay s.used head }
        if writeData ≠ .ok then
          ([first, second], .errHardware, { s with writeFailures := s.writeFailures + 1 },
            v.report .nandWrite s.used)
        else
          ([first, second], .ok, { s with
            flash := s.flash.overlay (s.used + headerBytes) payload
            used := s.used + (headerBytes + len)
            records := s.records + 1
            sequence := s.sequence + 1 }, v)

/-- A call with one of the three types and a payload that its length describes. -/
theorem storeAt_code (type : NandType) {data : Buf} {payload : List UInt8}
    (hdata : data.bytes 0 (UInt32.ofNat payload.length) = payload) (writeHeader writeData : Status)
    (s : Store) (v : Svc) :
    (storeAt type.code (some data) (UInt32.ofNat payload.length) writeHeader writeData s v).2 =
      store type payload writeHeader writeData s v := by
  have htype : ¬ 3 ≤ type.code := by cases type <;> decide
  simp only [storeAt, store, htype, false_or, hdata, header]
  split
  · rfl
  split
  · rfl
  split
  · rfl
  split
  · rfl
  split
  · rfl
  split
  · rfl
  · rfl

inductive StoreOp
  | setOps (ops : Option (UInt32 × Buf))
  | store (type : UInt32) (data : Option Buf) (len : UInt32) (writeHeader writeData : Status)
  | transferBegin
  | transferService (readHeader readData : Option NandRead) (queue : Output Unit)
  | clear (erase : Status) (flash : Buf)

def step (s : Store × Svc) : StoreOp → Store × Svc
  | .setOps ops => ((s.1.setOps ops).2, s.2)
  | .store type data len writeHeader writeData =>
    (s.1.storeAt type data len writeHeader writeData s.2).2.2
  | .transferBegin => (s.1.transferBegin.2, s.2)
  | .transferService readHeader readData queue =>
    let r := s.1.transferService () readHeader readData queue s.2
    (r.1, r.2.2)
  | .clear erase flash => (s.1.clear erase flash s.2).2

def Asks (type : UInt32) (data : Option Buf) (len : UInt32) (s : Store) : Prop :=
  type < 3 ∧ data ≠ none ∧ len ≠ 0 ∧ s.ready = true ∧ s.transferActive = false

inductive StoreAtEffect (type : UInt32) (data : Option Buf) (len : UInt32) (writeHeader : Status)
    (s : Store) : List NandWrite × Status × Store × Svc → Prop
  | refused {st : Status} {v : Svc} (hst : st ≠ .ok)
      (hchecks : ¬ (Asks type data len s ∧ headerBytes + len ≤ s.capacity - s.used)) :
      StoreAtEffect type data len writeHeader s ([], st, s, v)
  | half (hasks : Asks type data len s) (hroom : headerBytes + len ≤ s.capacity - s.used)
      (hheader : writeHeader ≠ .ok) {st : Status} {v : Svc} (hst : st ≠ .ok) {head : List UInt8}
      (hhead : head.length = 20) (writeFailures : UInt32) :
      StoreAtEffect type data len writeHeader s
        ([⟨s.used, head⟩], st, { s with writeFailures }, v)
  | both (hasks : Asks type data len s) (hroom : headerBytes + len ≤ s.capacity - s.used)
      (hheader : writeHeader = .ok) {st : Status} {v : Svc} {s' : Store} {head payload : List UInt8}
      (hhead : head.length = 20) (hpayload : payload.length = len.toNat)
      (hcapacity : s'.capacity = s.capacity)
      (hfailed : st ≠ .ok → s'.used = s.used ∧ s'.records = s.records ∧ s'.sequence = s.sequence)
      (hstored : st = .ok → s'.used = s.used + (headerBytes + len)) :
      StoreAtEffect type data len writeHeader s
        ([⟨s.used, head⟩, ⟨s.used + headerBytes, payload⟩], st, s', v)

theorem storeAt_effect (type : UInt32) (data : Option Buf) (len : UInt32)
    (writeHeader writeData : Status) (s : Store) (v : Svc) :
    StoreAtEffect type data len writeHeader s
      (storeAt type data len writeHeader writeData s v) := by
  cases data with
  | none => exact .refused (by decide) fun h => h.1.2.1 rfl
  | some data =>
    simp only [storeAt]
    split
    · rename_i hparam
      refine .refused (by decide) ?_
      rintro ⟨⟨htype, -, hlen, -⟩, -⟩
      rcases hparam with h | h
      · exact UInt32.not_le.mpr htype h
      · exact hlen h
    rename_i hparam
    rw [not_or, UInt32.not_le] at hparam
    split
    · rename_i hready
      exact .refused (by decide) fun h => by simp [h.1.2.2.2.1] at hready
    rename_i hready
    split
    · rename_i hactive
      exact .refused (by decide) fun h => by simp [h.1.2.2.2.2] at hactive
    rename_i hactive
    split
    · rename_i hroom
      exact .refused (by decide) fun h => UInt32.not_lt.mpr h.2 hroom
    rename_i hroom
    have hasks : Asks type (some data) len s :=
      ⟨hparam.1, by simp, hparam.2, by simpa using hready, by simpa using hactive⟩
    have hroom := UInt32.not_lt.mp hroom
    split
    · rename_i hheader
      exact .half hasks hroom hheader (by decide) rfl _
    rename_i hheader
    have hpayload := data.length_bytes 0 len
    split
    · exact .both hasks hroom (not_not.mp hheader) rfl hpayload rfl (fun _ => ⟨rfl, rfl, rfl⟩)
        (by simp)
    · exact .both hasks hroom (not_not.mp hheader) rfl hpayload rfl (by simp) fun _ => rfl

/-- The room left is a difference that does not wrap. -/
def Fits (s : Store) : Prop := s.used ≤ s.capacity

/-- Even a sum that has wrapped is only added where it fits. -/
theorem StoreAtEffect.fits {type : UInt32} {data : Option Buf} {len : UInt32} {writeHeader : Status}
    {s : Store} {r : List NandWrite × Status × Store × Svc}
    (heffect : StoreAtEffect type data len writeHeader s r) (h : s.Fits) : r.2.2.1.Fits := by
  cases heffect with
  | refused => exact h
  | half => exact h
  | @both hasks hroom hheader st v s' head payload hhead hpayload hcapacity hfailed hstored =>
    rw [Fits, hcapacity]
    by_cases hst : st = .ok
    · have hfits := UInt32.le_iff_toNat_le.mp h
      have hlt := s.capacity.toNat_lt
      rw [UInt32.le_iff_toNat_le, UInt32.toNat_sub_of_le _ _ h] at hroom
      rw [hstored hst, UInt32.le_iff_toNat_le, UInt32.toNat_add]
      omega
    · rw [(hfailed hst).1]
      exact h

theorem fits_step (s : Store × Svc) (op : StoreOp) (h : s.1.Fits) : (step s op).1.Fits := by
  cases op with
  | setOps ops =>
    cases ops with
    | none => exact UInt32.zero_le
    | some device =>
      simp only [step, setOps]
      split
      · exact h
      · exact UInt32.zero_le
  | store type data len writeHeader writeData =>
    exact (storeAt_effect type data len writeHeader writeData s.1 s.2).fits h
  | transferBegin =>
    simp only [step, transferBegin]
    split
    · exact h
    split
    · exact h
    · exact h
  | transferService readHeader readData queue =>
    have heffect := transfer_effect () readHeader readData s.1 queue s.2
    have hkept : Kept s.1 (s.1.transferService () readHeader readData queue s.2).1 := by
      cases heffect with
      | quiet hkept => exact hkept
      | staged _ hkept => exact hkept
      | submitted _ _ hkept => exact hkept
    rw [Fits, step, hkept.used, hkept.capacity]
    exact h
  | clear erase flash =>
    rcases clear_cases erase flash s.1 s.2 with ⟨-, writeFailures, flash', hstore⟩ | ⟨-, -, hstore⟩
    · rw [step, hstore]
      exact h
    · rw [step, hstore]
      exact UInt32.zero_le

theorem fits_run (ops : List StoreOp) : (run step ({}, {}) ops).1.Fits :=
  run_keeps fits_step UInt32.zero_le ops

structure WithinBounds (s : Store) (len : UInt32) (r : List NandWrite × Status × Store × Svc) :
    Prop where
  writes : ∀ w ∈ r.1, w.stop ≤ s.capacity.toNat
  stored : r.2.1 = .ok → r.2.2.1.used.toNat = s.used.toNat + (20 + len.toNat) ∧
    r.2.2.1.used.toNat ≤ s.capacity.toNat
  refused : r.2.1 ≠ .ok → r.2.2.1.used = s.used ∧ r.2.2.1.records = s.records ∧
    r.2.2.1.sequence = s.sequence

/-- The sum of header and length wraps to no more than the room left, and either the header itself
has no room or the device takes it. -/
def Wraps (type : UInt32) (data : Option Buf) (len : UInt32) (writeHeader : Status) (s : Store) :
    Prop :=
  Asks type data len s ∧ 2 ^ 32 ≤ 20 + len.toNat ∧
    20 + len.toNat - 2 ^ 32 ≤ s.capacity.toNat - s.used.toNat ∧
    (s.capacity.toNat - s.used.toNat < 20 ∨ writeHeader = .ok)

theorem room_iff {s : Store} (h : s.Fits) (len : UInt32) :
    headerBytes + len ≤ s.capacity - s.used ↔
      20 + len.toNat ≤ s.capacity.toNat - s.used.toNat ∨
        2 ^ 32 ≤ 20 + len.toNat ∧ 20 + len.toNat - 2 ^ 32 ≤ s.capacity.toNat - s.used.toNat := by
  have hlen := len.toNat_lt
  have hcapacity := s.capacity.toNat_lt
  rw [UInt32.le_iff_toNat_le, UInt32.toNat_sub_of_le _ _ h, UInt32.toNat_add, toNat_headerBytes]
  omega

theorem withinBounds_iff {s : Store} (h : s.Fits) {type : UInt32} {data : Option Buf} {len : UInt32}
    {writeHeader : Status} {r : List NandWrite × Status × Store × Svc}
    (heffect : StoreAtEffect type data len writeHeader s r) :
    WithinBounds s len r ↔ ¬ Wraps type data len writeHeader s := by
  have hfits := UInt32.le_iff_toNat_le.mp h
  have hlen := len.toNat_lt
  have hcapacity := s.capacity.toNat_lt
  cases heffect with
  | refused hst hchecks =>
    refine iff_of_true ⟨by simp, fun hok => absurd hok hst, fun _ => ⟨rfl, rfl, rfl⟩⟩ ?_
    rintro ⟨hasks, hwrap, hroom, -⟩
    exact hchecks ⟨hasks, (room_iff h len).mpr (.inr ⟨hwrap, hroom⟩)⟩
  | half hasks hroom hheader hst hhead writeFailures =>
    have hroom := (room_iff h len).mp hroom
    constructor
    · intro hbounds hwraps
      have hwrite := hbounds.writes _ List.mem_cons_self
      rw [NandWrite.stop_mk, hhead] at hwrite
      rcases hwraps.2.2.2 with hshort | hok
      · omega
      · exact hheader hok
    · intro hwraps
      refine ⟨?_, fun hok => absurd hok hst, fun _ => ⟨rfl, rfl, rfl⟩⟩
      have hlong : 20 ≤ s.capacity.toNat - s.used.toNat := by
        by_contra hshort
        rcases hroom with hroom | ⟨hwrap, hroom⟩
        · omega
        · exact hwraps ⟨hasks, hwrap, hroom, .inl (Nat.not_le.mp hshort)⟩
      intro w hw
      rw [List.mem_singleton.mp hw, NandWrite.stop_mk, hhead]
      omega
  | both hasks hroom hheader hhead hpayload hkept hfailed hstored =>
    have hroom := (room_iff h len).mp hroom
    constructor
    · intro hbounds hwraps
      -- Either the header ends past the device, or the payload after it does.
      have hfirst := hbounds.writes _ List.mem_cons_self
      have hsecond := hbounds.writes _ (List.mem_cons_of_mem _ List.mem_cons_self)
      have hwrap := hwraps.2.1
      rw [NandWrite.stop_mk, hhead] at hfirst
      rw [NandWrite.stop_mk, hpayload, UInt32.toNat_add, toNat_headerBytes] at hsecond
      omega
    · intro hwraps
      have hroom : 20 + len.toNat ≤ s.capacity.toNat - s.used.toNat := by
        rcases hroom with hroom | ⟨hwrap, hroom⟩
        · exact hroom
        · exact absurd ⟨hasks, hwrap, hroom, .inr hheader⟩ hwraps
      refine ⟨?_, ?_, hfailed⟩
      · intro w hw
        rcases List.mem_cons.mp hw with rfl | hw
        · rw [NandWrite.stop_mk, hhead]
          omega
        · rw [List.mem_singleton.mp hw, NandWrite.stop_mk, hpayload, UInt32.toNat_add,
            toNat_headerBytes]
          omega
      · intro hok
        rw [hstored hok, UInt32.toNat_add, UInt32.toNat_add, toNat_headerBytes]
        omega

/-- In every state that the calls of the module lead to, a store keeps within the device and its
counts exactly when its length does not wrap the room check. -/
theorem store_within_bounds_iff (ops : List StoreOp) (type : UInt32) (data : Option Buf)
    (len : UInt32) (writeHeader writeData : Status) :
    let s := run step ({}, {}) ops
    WithinBounds s.1 len (storeAt type data len writeHeader writeData s.1 s.2) ↔
      ¬ Wraps type data len writeHeader s.1 :=
  withinBounds_iff (fits_run ops) (storeAt_effect type data len writeHeader writeData _ _)

/-- On a device of 4096 bytes a payload of 2 ^ 32 - 20 bytes is accepted, written from 20 on, and
leaves the used mark where it was. -/
theorem wrapped_store_accepted :
    let s := run step ({}, {}) [.setOps (some (4096, fun _ => 0xFF))]
    let r := storeAt 0 (some fun _ => 0) 0xFFFFFFEC .ok .ok s.1 s.2
    r.2.1 = .ok ∧ r.2.2.1.used = s.1.used ∧ r.2.2.1.records = s.1.records + 1 ∧
      (∃ w ∈ r.1, w.offset = 20 ∧ w.bytes.length = 0xFFFFFFEC) ∧
      ¬ WithinBounds s.1 0xFFFFFFEC r := by
  intro s r
  have hlen : (0xFFFFFFEC : UInt32).toNat = 0xFFFFFFEC := by decide
  have hwrite : (⟨20, Buf.bytes (fun _ => 0) 0 0xFFFFFFEC⟩ : NandWrite) ∈ r.1 :=
    List.mem_cons_of_mem _ List.mem_cons_self
  refine ⟨rfl, rfl, rfl, ⟨_, hwrite, rfl, ?_⟩, ?_⟩
  · rw [Buf.length_bytes, hlen]
  · intro hbounds
    have hused : (0 : UInt32).toNat = (0 : UInt32).toNat + (20 + (0xFFFFFFEC : UInt32).toNat) :=
      (hbounds.stored rfl).1
    exact absurd hused (by decide)

end QiranFirmware.Store
