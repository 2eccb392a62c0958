import QiranFirmware.Comm.CcsdsRoute
import QiranFirmware.Comm.Output

/-! # The size checks of the two layers

Both layers add the header and the checksum to the caller's length in 32 bits. The sums wrap for the
longest lengths, which pass for short ones. `buildWithin` is `comm_ccsds_build` with every write
checked against the length of the buffer.
-/
namespace QiranFirmware.Ccsds

open Machine Process

def writeWithin (len i : UInt32) (b : UInt8) (buf : Buf) : Option Buf :=
  if i < len then some (buf.putU8 i b) else none

def putU16Within (len off : UInt32) (w : UInt16) (buf : Buf) : Option Buf := do
  let buf ← writeWithin len off (w >>> 8).toUInt8 buf
  writeWithin len (off + 1) w.toUInt8 buf

def putU32Within (len off : UInt32) (w : UInt32) (buf : Buf) : Option Buf := do
  let buf ← writeWithin len off (w >>> 24).toUInt8 buf
  let buf ← writeWithin len (off + 1) (w >>> 16).toUInt8 buf
  let buf ← writeWithin len (off + 2) (w >>> 8).toUInt8 buf
  writeWithin len (off + 3) w.toUInt8 buf

def copyWithin (app : Buf) (len : UInt32) (n : ℕ) (buf : Buf) : Option Buf :=
  (List.range n).foldlM (fun buf i => writeWithin len (primaryHeaderBytes + UInt32.ofNat i)
    (app (UInt32.ofNat i)) buf) buf

def buildHeaderWithin (h : CcsdsHeader) (buf : Buf) (len : UInt32) : Option (Status × Buf) :=
  if len < primaryHeaderBytes then some (.errParam, buf)
  else if 7 < h.version ∨ apidMax < h.apid ∨ seqCountMax < h.seqCount then some (.errRange, buf)
  else do
    let buf ← putU16Within len 0 (word0 h) buf
    let buf ← putU16Within len 2 (word1 h) buf
    let buf ← putU16Within len 4 h.dataLength buf
    return (.ok, buf)

def headerFor (cls : CcsdsClass) (appLen : UInt32) (p : Ccsds) : CcsdsHeader where
  version := 0
  type := .tm
  secondaryHeader := false
  apid := p.apid cls
  seqFlags := .unsegmented
  seqCount := p.txCount cls
  dataLength := (appLen + integrityBytes - 1).toUInt16

def buildWithin (cls : CcsdsClass) (app : Buf) (appLen : UInt32) (buf : Buf) (len : UInt32)
    (p : Ccsds) : Option (Status × Buf × UInt32 × Ccsds) :=
  let fieldLen := appLen + integrityBytes
  let total := primaryHeaderBytes + fieldLen
  if fieldLen = 0 ∨ dataFieldMax < fieldLen then some (.errRange, buf, 0, p)
  else if len < total then some (.errRange, buf, 0, p)
  else do
    let (st, buf) ← buildHeaderWithin (headerFor cls appLen p) buf len
    if st ≠ .ok then return (st, buf, 0, p)
    let buf ← copyWithin app len appLen.toNat buf
    let crc := Crc.crc32 (buf.bytes primaryHeaderBytes appLen)
    let buf ← putU32Within len (primaryHeaderBytes + appLen) crc buf
    return (.ok, buf, total, advance cls p)

section Writes
variable {len off : UInt32} {buf : Buf}

theorem writeWithin_eq (h : off.toNat < len.toNat) (b : UInt8) :
    writeWithin len off b buf = some (buf.putU8 off b) :=
  if_pos (UInt32.lt_iff_toNat_lt.mpr h)

theorem writeWithin_behind (h : len.toNat ≤ off.toNat) (b : UInt8) :
    writeWithin len off b buf = none :=
  if_neg (UInt32.not_lt.mpr (UInt32.le_iff_toNat_le.mpr h))

theorem putU16Within_eq (h : off.toNat + 2 ≤ len.toNat) (w : UInt16) :
    putU16Within len off w buf = some (buf.putU16 off w) := by
  have hlen := len.toNat_lt
  have hnext : (off + 1).toNat < len.toNat := by
    rw [UInt32.toNat_add, UInt32.toNat_one]
    omega
  rw [putU16Within, writeWithin_eq (by omega)]
  exact writeWithin_eq hnext _

theorem putU32Within_eq (h : off.toNat + 4 ≤ len.toNat) (w : UInt32) :
    putU32Within len off w buf = some (buf.putU32 off w) := by
  have hlen := len.toNat_lt
  have hnext (k : UInt32) (hk : k.toNat < 4) : (off + k).toNat < len.toNat := by
    rw [UInt32.toNat_add]
    omega
  simp only [putU32Within, writeWithin_eq (show off.toNat < len.toNat by omega),
    writeWithin_eq (hnext 1 (by decide)), writeWithin_eq (hnext 2 (by decide)),
    writeWithin_eq (hnext 3 (by decide)), Option.bind_eq_bind, Option.bind_some]
  rfl

/-- One more turn of the loop copies one more byte. -/
theorem copyData_succ (app : Buf) (buf : Buf) {n : ℕ} (hn : n + 1 < 2 ^ 32) :
    (copyData app (UInt32.ofNat n) buf).putU8 (primaryHeaderBytes + UInt32.ofNat n)
      (app (UInt32.ofNat n)) = copyData app (UInt32.ofNat (n + 1)) buf := by
  have hnat : (UInt32.ofNat n).toNat = n := UInt32.toNat_ofNat_of_lt' (Nat.lt_of_succ_lt hn)
  have hsucc : (UInt32.ofNat (n + 1)).toNat = n + 1 := UInt32.toNat_ofNat_of_lt' hn
  funext i
  by_cases hi : i = primaryHeaderBytes + UInt32.ofNat n
  · have hat : i - primaryHeaderBytes = UInt32.ofNat n := by grind
    rw [hi, Buf.putU8, Function.update_self, ← hi, copyData, hat, if_pos]
    rw [UInt32.lt_iff_toNat_lt, hnat, hsucc]
    exact Nat.lt_succ_self n
  · have hne : (i - primaryHeaderBytes).toNat ≠ n := by
      intro heq
      refine hi ?_
      rw [← hnat, UInt32.toNat_inj] at heq
      grind
    have hiff : i - primaryHeaderBytes < UInt32.ofNat n ↔
        i - primaryHeaderBytes < UInt32.ofNat (n + 1) := by
      rw [UInt32.lt_iff_toNat_lt, UInt32.lt_iff_toNat_lt, hnat, hsucc]
      omega
    rw [Buf.putU8, Function.update_of_ne hi, copyData, copyData]
    simp only [hiff]

theorem copyWithin_eq (app : Buf) {n : ℕ} (h : 6 + n ≤ len.toNat) :
    copyWithin app len n buf = some (copyData app (UInt32.ofNat n) buf) := by
  have hlen := len.toNat_lt
  induction n with
  | zero =>
    have hnone : copyData app 0 buf = buf := by
      funext i
      exact if_neg UInt32.not_lt_zero
    rw [show UInt32.ofNat 0 = 0 from rfl, hnone]
    rfl
  | succ n ih =>
    have hnat : (UInt32.ofNat n).toNat = n :=
      UInt32.toNat_ofNat_of_lt' (show n < 2 ^ 32 by omega)
    have hat : (primaryHeaderBytes + UInt32.ofNat n).toNat < len.toNat := by
      rw [UInt32.toNat_add, toNat_primaryHeaderBytes, hnat]
      omega
    have hpre := ih (by omega)
    rw [copyWithin] at hpre ⊢
    rw [List.range_succ, List.foldlM_append, hpre, Option.bind_eq_bind, Option.bind_some,
      List.foldlM_cons, writeWithin_eq hat, copyData_succ app buf (by omega)]
    rfl

theorem foldlM_eq_none {α β : Type} {f : α → β → Option α} {x : β} (hx : ∀ a, f a x = none) :
    ∀ {xs : List β}, x ∈ xs → ∀ a, xs.foldlM f a = none
  | y :: ys, hmem, a => by
    rw [List.foldlM_cons]
    rcases List.mem_cons.mp hmem with rfl | hmem
    · rw [hx]
      rfl
    · cases f a y with
      | none => rfl
      | some b => exact foldlM_eq_none hx hmem b

/-- A loop long enough reaches the end of the address space, which is behind every buffer. -/
theorem copyWithin_wrapped (app : Buf) {n : ℕ} (h : 2 ^ 32 - 6 ≤ n) :
    copyWithin app len n buf = none := by
  have hlen := len.toNat_lt
  have hlast : (primaryHeaderBytes + UInt32.ofNat (2 ^ 32 - 7)).toNat = 2 ^ 32 - 1 := by decide
  refine @foldlM_eq_none _ _ _ (2 ^ 32 - 7) ?_ _ (List.mem_range.mpr (by omega)) buf
  intro b
  refine writeWithin_behind ?_ _
  rw [hlast]
  omega

end Writes

def Room (appLen len : UInt32) : Prop :=
  appLen.toNat + 10 ≤ len.toNat ∧ appLen.toNat + 4 ≤ 65536

/-- The length wraps into a short one, for which there is room. -/
def Wraps (appLen len : UInt32) : Prop :=
  2 ^ 32 - 3 ≤ appLen.toNat ∧ appLen.toNat + 10 - 2 ^ 32 ≤ len.toNat

section Build
variable {cls : CcsdsClass} {app : Buf} {appLen : UInt32} {buf : Buf} {len : UInt32} {p : Ccsds}

/-- What the two checks let through. -/
theorem checks_iff : ¬ (appLen + integrityBytes = 0 ∨ dataFieldMax < appLen + integrityBytes) ∧
    ¬ len < primaryHeaderBytes + (appLen + integrityBytes) ↔
      Room appLen len ∨ Wraps appLen len := by
  have happ := appLen.toNat_lt
  have hlen := len.toNat_lt
  rw [← UInt32.toNat_inj, UInt32.lt_iff_toNat_lt, UInt32.lt_iff_toNat_lt, UInt32.toNat_add,
    UInt32.toNat_add, UInt32.toNat_zero, toNat_integrityBytes, toNat_dataFieldMax,
    toNat_primaryHeaderBytes, UInt32.toNat_add, toNat_integrityBytes, Room, Wraps]
  omega

theorem build_of_refused (h : ¬ (Room appLen len ∨ Wraps appLen len)) :
    build cls app appLen buf len p = (.errRange, buf, 0, p) ∧
      buildWithin cls app appLen buf len p = some (.errRange, buf, 0, p) := by
  rw [← checks_iff, not_and_or, not_not, not_not] at h
  rcases h with hfield | hroom
  · exact ⟨if_pos hfield, if_pos hfield⟩
  · by_cases hfield : appLen + integrityBytes = 0 ∨ dataFieldMax < appLen + integrityBytes
    · exact ⟨if_pos hfield, if_pos hfield⟩
    · exact ⟨(if_neg hfield).trans (if_pos hroom), (if_neg hfield).trans (if_pos hroom)⟩

theorem six_le (h : Room appLen len ∨ Wraps appLen len) : 6 ≤ len.toNat := by
  rcases h with h | h
  · exact Nat.le_trans (by omega) h.1
  · have hlong := h.1
    have hroom := h.2
    omega

theorem buildHeader_of_fits (hp : Fits p) (h : Room appLen len ∨ Wraps appLen len) :
    ∃ hdr, buildHeader (headerFor cls appLen p) buf len = (.ok, hdr) ∧
      buildHeaderWithin (headerFor cls appLen p) buf len = some (.ok, hdr) := by
  have hsix := six_le h
  have hlong : ¬ len < primaryHeaderBytes := by
    rw [UInt32.lt_iff_toNat_lt, toNat_primaryHeaderBytes]
    omega
  have hrange : ¬ (7 < (headerFor cls appLen p).version ∨
      apidMax < (headerFor cls appLen p).apid ∨ seqCountMax < (headerFor cls appLen p).seqCount) := by
    simp [headerFor, hp cls]
  have hput {off : UInt32} (hoff : off.toNat + 2 ≤ 6) (w : UInt16) (b : Buf) :
      putU16Within len off w b = some (b.putU16 off w) :=
    putU16Within_eq (by omega) w
  refine ⟨(((buf.putU16 0 (word0 (headerFor cls appLen p))).putU16 2
    (word1 (headerFor cls appLen p))).putU16 4 (headerFor cls appLen p).dataLength), ?_, ?_⟩
  · rw [buildHeader, if_neg hlong, if_neg hrange]
  · rw [buildHeaderWithin, if_neg hlong, if_neg hrange, hput (by decide), Option.bind_eq_bind,
      Option.bind_some, hput (by decide), Option.bind_some, hput (by decide)]
    rfl

/-- What passes the checks is built, whatever is written. -/
theorem build_of_passed (hp : Fits p) (h : Room appLen len ∨ Wraps appLen len) :
    ∃ hdr, build cls app appLen buf len p = (.ok,
        (copyData app appLen hdr).putU32 (primaryHeaderBytes + appLen)
          (Crc.crc32 ((copyData app appLen hdr).bytes primaryHeaderBytes appLen)),
        primaryHeaderBytes + (appLen + integrityBytes), advance cls p) ∧
      buildWithin cls app appLen buf len p = (do
        let buf ← copyWithin app len appLen.toNat hdr
        let crc := Crc.crc32 (buf.bytes primaryHeaderBytes appLen)
        let buf ← putU32Within len (primaryHeaderBytes + appLen) crc buf
        return (.ok, buf, primaryHeaderBytes + (appLen + integrityBytes), advance cls p)) := by
  obtain ⟨hfield, hroom⟩ := checks_iff.mpr h
  obtain ⟨hdr, hbuild, hwithin⟩ := @buildHeader_of_fits cls _ buf _ _ hp h
  refine ⟨hdr, ?_, ?_⟩
  · rw [headerFor] at hbuild
    simp only [build, if_neg hfield, if_neg hroom, hbuild, ne_eq, not_true_eq_false, ↓reduceIte]
    rfl
  · simp only [buildWithin, if_neg hfield, if_neg hroom, hwithin, Option.bind_eq_bind,
      Option.bind_some, ne_eq, not_true_eq_false, ↓reduceIte]

/-- With room for the packet no write is behind the buffer. -/
theorem buildWithin_of_room (hp : Fits p) (h : Room appLen len) :
    buildWithin cls app appLen buf len p = some (build cls app appLen buf len p) := by
  obtain ⟨hdr, hbuild, hwithin⟩ := @build_of_passed cls app _ buf _ _ hp (.inl h)
  have hroom := h.1
  have hoff : (primaryHeaderBytes + appLen).toNat + 4 ≤ len.toNat := by
    rw [toNat_header_add (by have hmax := h.2; omega)]
    omega
  rw [hbuild, hwithin, copyWithin_eq app (by omega), UInt32.ofNat_toNat, Option.bind_eq_bind,
    Option.bind_some]
  dsimp only
  rw [putU32Within_eq hoff]
  rfl

theorem buildWithin_of_wraps (hp : Fits p) (h : Wraps appLen len) :
    buildWithin cls app appLen buf len p = none := by
  obtain ⟨hdr, -, hwithin⟩ := @build_of_passed cls app _ buf _ _ hp (.inr h)
  have hlong := h.1
  rw [hwithin, copyWithin_wrapped app (by omega)]
  rfl

def BuildExact (cls : CcsdsClass) (app : Buf) (appLen : UInt32) (buf : Buf) (len : UInt32)
    (p : Ccsds) : Prop :=
  ((build cls app appLen buf len p).1 = .ok → Room appLen len) ∧
    buildWithin cls app appLen buf len p = some (build cls app appLen buf len p)

theorem buildExact_iff (hp : Fits p) :
    BuildExact cls app appLen buf len p ↔ ¬ Wraps appLen len := by
  constructor
  · rintro ⟨-, hwithin⟩ hwraps
    rw [buildWithin_of_wraps hp hwraps] at hwithin
    exact absurd hwithin (by simp)
  · intro hwraps
    by_cases hroom : Room appLen len
    · exact ⟨fun _ => hroom, buildWithin_of_room hp hroom⟩
    · obtain ⟨hbuild, hwithin⟩ := @build_of_refused cls app _ buf _ p (not_or.mpr ⟨hroom, hwraps⟩)
      rw [BuildExact, hbuild, hwithin]
      exact ⟨fun h => absurd h (by simp), rfl⟩

end Build

def SubmitExact {β : Type} (cls : CcsdsClass) (data : β) (len : UInt32) (q : Output β) (v : Svc) :
    Prop :=
  (q.submit cls data len v).1 = .ok → len.toNat + 10 ≤ 1024

theorem submitExact_iff {β : Type} (cls : CcsdsClass) (data : β) (len : UInt32) (q : Output β)
    (v : Svc) : SubmitExact cls data len q v ↔
      ¬ (2 ^ 32 - 10 ≤ len.toNat ∧ ∃ i < Output.depth, q.slot i = none) := by
  have hlen := len.toNat_lt
  have hmax : Output.packetBytes.toNat = 1024 := rfl
  have hsum : (len + primaryHeaderBytes + integrityBytes).toNat = (len.toNat + 10) % 2 ^ 32 := by
    rw [UInt32.toNat_add, UInt32.toNat_add, toNat_primaryHeaderBytes, toNat_integrityBytes]
    omega
  constructor
  · rintro hexact ⟨hlong, i, hi, hfree⟩
    have hsome : len ≠ 0 := by
      rintro rfl
      rw [UInt32.toNat_zero] at hlong
      omega
    have hfits : ¬ Output.packetBytes < len + primaryHeaderBytes + integrityBytes := by
      rw [UInt32.lt_iff_toNat_lt, hsum, hmax]
      omega
    have hok : (q.submit cls data len v).1 = .ok := by
      rw [Output.submit, if_neg hsome, if_neg hfits]
      cases hfind : (List.range Output.depth).find? fun i => (q.slot i).isNone with
      | some j => rfl
      | none =>
        have hused := List.find?_eq_none.mp hfind i (List.mem_range.mpr hi)
        simp [hfree] at hused
    have hroom := hexact hok
    omega
  · intro hlong hok
    rcases Output.submit_cases cls data len q v with ⟨hnot, -⟩ | ⟨-, -, i, hi, hfree, -⟩
    · exact absurd hok hnot
    have hfits : ¬ Output.packetBytes < len + primaryHeaderBytes + integrityBytes := by
      intro hover
      rw [Output.submit, if_pos hover] at hok
      split at hok
      · simp at hok
      · simp at hok
    have hshort : ¬ 2 ^ 32 - 10 ≤ len.toNat := fun hge => hlong ⟨hge, i, hi, hfree⟩
    rw [UInt32.lt_iff_toNat_lt, hsum, hmax] at hfits
    omega

/-- In every state of the packet module and of the queue, the checks of both layers are exact for all
lengths but those that wrap into an accepted one. -/
theorem size_checks_iff {β : Type} (ops : List PacketOp) (cls : CcsdsClass) (app : Buf)
    (appLen : UInt32) (buf : Buf) (len : UInt32) (q : Output β) (cls' : CcsdsClass) (data : β)
    (size : UInt32) (v : Svc) :
    (BuildExact cls app appLen buf len (run packetStep {} ops) ↔ ¬ Wraps appLen len) ∧
    (SubmitExact cls' data size q v ↔
      ¬ (2 ^ 32 - 10 ≤ size.toNat ∧ ∃ i < Output.depth, q.slot i = none)) :=
  ⟨buildExact_iff (assigned_run ops).fits, submitExact_iff cls' data size q v⟩

/-- A length that wraps is built into a buffer of 1024 bytes and queued, and the build writes behind
the buffer. -/
theorem wrapped_sizes_accepted :
    (build .health (fun _ => 0) 0xFFFFFFFD (fun _ => 0) 1024 {}).1 = .ok ∧
      buildWithin .health (fun _ => 0) 0xFFFFFFFD (fun _ => 0) 1024 {} = none ∧
      ¬ BuildExact .health (fun _ => 0) 0xFFFFFFFD (fun _ => 0) 1024 {} ∧
      (Output.submit .health () 0xFFFFFFFD {} {}).1 = .ok ∧
      ¬ SubmitExact .health () 0xFFFFFFFD {} {} := by
  have hwraps : Wraps 0xFFFFFFFD 1024 := by
    rw [Wraps]
    decide
  have hfree : (2 : ℕ) ^ 32 - 10 ≤ (0xFFFFFFFD : UInt32).toNat ∧
      ∃ i < Output.depth, ({} : Output Unit).slot i = none := ⟨by decide, 0, by decide, rfl⟩
  refine ⟨rfl, buildWithin_of_wraps fits_init hwraps, ?_, rfl, ?_⟩
  · exact fun h => (buildExact_iff fits_init).mp h hwraps
  · exact fun h => (submitExact_iff .health () _ {} {}).mp h hfree

end QiranFirmware.Ccsds
