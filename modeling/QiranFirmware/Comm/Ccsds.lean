import QiranFirmware.Comm.Bytes
import QiranFirmware.Svc.Crc
import QiranFirmware.Svc.Fdir
import Mathlib.Tactic.IntervalCases

/-! # Space packets

`comm_ccsds.c`: the primary header, the packets built from application data with a sequence count
for each class, and the checks on what is received.
-/
namespace QiranFirmware

inductive CcsdsType
  | tm | tc
  deriving DecidableEq, Repr

inductive CcsdsSeqFlags
  | continuation | first | last | unsegmented
  deriving DecidableEq, Repr

structure CcsdsHeader where
  version : UInt8
  type : CcsdsType
  secondaryHeader : Bool
  apid : UInt16
  seqFlags : CcsdsSeqFlags
  seqCount : UInt16
  dataLength : UInt16
  deriving DecidableEq, Repr

inductive CcsdsClass
  | command | scienceRaw | scienceProcessed | health | event | file
  deriving DecidableEq, Repr

namespace CcsdsClass

def code (c : CcsdsClass) : UInt32 := UInt32.ofNat c.ctorIdx

def all : List CcsdsClass := [command, scienceRaw, scienceProcessed, health, event, file]

def defaultApid : CcsdsClass → UInt16
  | command => 0x001
  | scienceRaw => 0x010
  | scienceProcessed => 0x011
  | health => 0x020
  | event => 0x030
  | file => 0x040

end CcsdsClass

/-- What a registered consumer does with the data it is handed: the faults it reports, and its
status. -/
structure ConsumerRun where
  reports : List (FaultId × UInt32) := []
  status : Status := .ok

/-- The statics of `comm_ccsds.c`. A class's consumer is only known to be registered or not.
`delivered` has no counterpart in the source: it lists the calls of consumers. -/
structure Ccsds where
  apid : CcsdsClass → UInt16 := CcsdsClass.defaultApid
  consumer : CcsdsClass → Bool := fun _ => false
  txCount : CcsdsClass → UInt16 := fun _ => 0
  rxSeen : CcsdsClass → Bool := fun _ => false
  rxExpect : CcsdsClass → UInt16 := fun _ => 0
  sent : CcsdsClass → UInt32 := fun _ => 0
  received : CcsdsClass → UInt32 := fun _ => 0
  gaps : UInt32 := 0
  integrityErrors : UInt32 := 0
  lengthErrors : UInt32 := 0
  unroutable : UInt32 := 0
  delivered : List (CcsdsClass × CcsdsHeader × List UInt8) := []

namespace Ccsds

def primaryHeaderBytes : UInt32 := 6
def integrityBytes : UInt32 := 4
def dataFieldMax : UInt32 := 65536

theorem toNat_primaryHeaderBytes : primaryHeaderBytes.toNat = 6 := rfl
theorem toNat_integrityBytes : integrityBytes.toNat = 4 := rfl
theorem toNat_dataFieldMax : dataFieldMax.toNat = 65536 := rfl

def apidMax : UInt16 := 0x7FF
def apidIdle : UInt16 := 0x7FF
def seqCountMax : UInt16 := 0x3FFF

def setApid (cls : CcsdsClass) (apid : UInt16) (p : Ccsds) : Status × Ccsds :=
  if apidMax < apid ∨ apid = apidIdle then (.errParam, p)
  else if CcsdsClass.all.any (fun c => c ≠ cls && p.apid c == apid) then (.errState, p)
  else (.ok, { p with apid := Function.update p.apid cls apid })

def classOf (p : Ccsds) (apid : UInt16) : Option CcsdsClass :=
  CcsdsClass.all.find? fun c => p.apid c == apid

def register (cls : CcsdsClass) (p : Ccsds) : Status × Ccsds :=
  if p.consumer cls then (.errState, p)
  else (.ok, { p with consumer := Function.update p.consumer cls true })

def word0 (h : CcsdsHeader) : UInt16 :=
  ((h.version &&& 0x07).toUInt16 <<< 13) ||| ((UInt16.ofNat h.type.ctorIdx &&& 0x01) <<< 12) |||
    ((if h.secondaryHeader then 1 else 0 : UInt16) <<< 11) ||| (h.apid &&& apidMax)

def word1 (h : CcsdsHeader) : UInt16 :=
  ((UInt16.ofNat h.seqFlags.ctorIdx &&& 0x03) <<< 14) ||| (h.seqCount &&& seqCountMax)

def buildHeader (h : CcsdsHeader) (buf : Buf) (len : UInt32) : Status × Buf :=
  if len < primaryHeaderBytes then (.errParam, buf)
  else if 7 < h.version ∨ apidMax < h.apid ∨ seqCountMax < h.seqCount then (.errRange, buf)
  else (.ok, ((buf.putU16 0 (word0 h)).putU16 2 (word1 h)).putU16 4 h.dataLength)

def parseHeader (buf : Buf) (len : UInt32) : Option CcsdsHeader :=
  if len < primaryHeaderBytes then none
  else
    let word0 := buf.getU16 0
    let word1 := buf.getU16 2
    some {
      version := ((word0 >>> 13) &&& 0x07).toUInt8
      type := if (word0 >>> 12) &&& 0x01 = 0 then .tm else .tc
      secondaryHeader := (word0 >>> 11) &&& 0x01 != 0
      apid := word0 &&& apidMax
      seqFlags := match ((word1 >>> 14) &&& 0x03).toNat with
        | 0 => .continuation
        | 1 => .first
        | 2 => .last
        | _ => .unsegmented
      seqCount := word1 &&& seqCountMax
      dataLength := buf.getU16 4 }

def copyData (app : Buf) (appLen : UInt32) (buf : Buf) : Buf := fun i =>
  if i - primaryHeaderBytes < appLen then app (i - primaryHeaderBytes) else buf i

def build (cls : CcsdsClass) (app : Buf) (appLen : UInt32) (buf : Buf) (len : UInt32) (p : Ccsds) :
    Status × Buf × UInt32 × Ccsds :=
  let fieldLen := appLen + integrityBytes
  let total := primaryHeaderBytes + fieldLen
  if fieldLen = 0 ∨ dataFieldMax < fieldLen then (.errRange, buf, 0, p)
  else if len < total then (.errRange, buf, 0, p)
  else
    let header : CcsdsHeader :=
      { version := 0
        type := .tm
        secondaryHeader := false
        apid := p.apid cls
        seqFlags := .unsegmented
        seqCount := p.txCount cls
        dataLength := (fieldLen - 1).toUInt16 }
    let (st, buf) := buildHeader header buf len
    if st ≠ .ok then (st, buf, 0, p)
    else
      let buf := copyData app appLen buf
      let crc := Crc.crc32 (buf.bytes primaryHeaderBytes appLen)
      let buf := buf.putU32 (primaryHeaderBytes + appLen) crc
      (.ok, buf, total,
        { p with
          txCount := Function.update p.txCount cls ((p.txCount cls + 1) &&& seqCountMax)
          sent := Function.update p.sent cls (p.sent cls + 1) })

/-- `comm_ccsds_receive` of `len` bytes, the consumer answering `run` if it is called. -/
def receive (packet : Buf) (len : UInt32) (run : ConsumerRun) (p : Ccsds) (v : Svc) :
    Status × Ccsds × Svc :=
  match parseHeader packet len with
  | none => (.errParam, p, v)
  | some header =>
    let fieldLen := header.dataLength.toUInt32 + 1
    if primaryHeaderBytes + fieldLen ≠ len ∨ fieldLen < integrityBytes then
      (.errIntegrity, { p with lengthErrors := p.lengthErrors + 1 },
        v.report .packetIntegrity fieldLen)
    else
      let appLen := fieldLen - integrityBytes
      let app := packet.bytes primaryHeaderBytes appLen
      if packet.getU32 (primaryHeaderBytes + appLen) ≠ Crc.crc32 app then
        (.errIntegrity, { p with integrityErrors := p.integrityErrors + 1 },
          v.report .packetIntegrity header.apid.toUInt32)
      else
        match p.classOf header.apid with
        | none =>
          (.errUnsupported, { p with unroutable := p.unroutable + 1 },
            v.report .packetIntegrity header.apid.toUInt32)
        | some cls =>
          let gap := p.rxSeen cls && header.seqCount != p.rxExpect cls
          let v := if gap then
              v.report .packetSequence
                (((p.rxExpect cls).toUInt32 <<< 16) ||| header.seqCount.toUInt32)
            else v
          let p := { p with
            gaps := if gap then p.gaps + 1 else p.gaps
            rxSeen := Function.update p.rxSeen cls true
            rxExpect := Function.update p.rxExpect cls ((header.seqCount + 1) &&& seqCountMax)
            received := Function.update p.received cls (p.received cls + 1) }
          if !p.consumer cls then (.errUnsupported, { p with unroutable := p.unroutable + 1 }, v)
          else
            (run.status, { p with delivered := p.delivered ++ [(cls, header, app)] },
              v.reportAll run.reports)

def Fits (p : Ccsds) : Prop := ∀ c, p.apid c ≤ apidMax ∧ p.txCount c ≤ seqCountMax

theorem and_seqCountMax_le (n : UInt16) : n &&& seqCountMax ≤ seqCountMax := by
  rw [UInt16.le_iff_toNat_le, UInt16.toNat_and]
  exact Nat.and_le_right

theorem low_bits (f c : UInt16) :
    ((f <<< 14) ||| (c &&& seqCountMax)) &&& seqCountMax = c &&& seqCountMax := by
  rw [← UInt16.toBitVec_inj]
  ext i hi
  simp only [seqCountMax]
  interval_cases i <;> simp

theorem and_of_le {n : UInt16} (h : n ≤ seqCountMax) : n &&& seqCountMax = n := by
  have hmask : seqCountMax.toNat = 2 ^ 14 - 1 := rfl
  rw [UInt16.le_iff_toNat_le, hmask] at h
  rw [← UInt16.toNat_inj, UInt16.toNat_and, hmask, Nat.and_two_pow_sub_one_eq_mod]
  omega

theorem toNat_header_add {n : UInt32} (h : n.toNat ≤ 65535) :
    (primaryHeaderBytes + n).toNat = 6 + n.toNat := by
  rw [UInt32.toNat_add, toNat_primaryHeaderBytes]
  omega

theorem behind_header (app buf : Buf) {appLen : UInt32} (crc i : UInt32)
    (happ : appLen.toNat ≤ 65532) (hi : i.toNat < 6) :
    (copyData app appLen buf).putU32 (primaryHeaderBytes + appLen) crc i = buf i := by
  have hoff := toNat_header_add (show appLen.toNat ≤ 65535 by omega)
  have hcopy : ¬ i - primaryHeaderBytes < appLen := by
    rw [UInt32.lt_iff_toNat_lt, UInt32.toNat_sub, toNat_primaryHeaderBytes]
    omega
  rw [Buf.putU32_of_ne, copyData, if_neg hcopy]
  rintro k hk rfl
  rw [UInt32.toNat_add, hoff] at hi
  omega

/-- The words of a header read back, whatever stands behind it. -/
theorem getU16_header {packet buf : Buf} {h : CcsdsHeader}
    (hahead : ∀ i : UInt32, i.toNat < 6 → packet i =
      (((buf.putU16 0 (word0 h)).putU16 2 (word1 h)).putU16 4 h.dataLength) i) :
    packet.getU16 0 = word0 h ∧ packet.getU16 2 = word1 h ∧ packet.getU16 4 = h.dataLength := by
  refine ⟨?_, ?_, ?_⟩
  · rw [Buf.getU16_congr (hahead 0 (by decide)) (hahead (0 + 1) (by decide)),
      Buf.getU16_congr (Buf.putU16_of_ne (by decide) (by decide))
        (Buf.putU16_of_ne (by decide) (by decide)),
      Buf.getU16_congr (Buf.putU16_of_ne (by decide) (by decide))
        (Buf.putU16_of_ne (by decide) (by decide)), Buf.getU16_putU16]
  · rw [Buf.getU16_congr (hahead 2 (by decide)) (hahead (2 + 1) (by decide)),
      Buf.getU16_congr (Buf.putU16_of_ne (by decide) (by decide))
        (Buf.putU16_of_ne (by decide) (by decide)), Buf.getU16_putU16]
  · rw [Buf.getU16_congr (hahead 4 (by decide)) (hahead (4 + 1) (by decide)), Buf.getU16_putU16]

/-- A build fails and changes nothing, or succeeds and carries the count its class has reached. -/
theorem build_cases (cls : CcsdsClass) (app : Buf) {appLen : UInt32} (buf : Buf) (len : UInt32)
    {p : Ccsds} (hp : Fits p) (happ : appLen.toNat < 2 ^ 32 - 3) :
    (∃ st, st ≠ .ok ∧ build cls app appLen buf len p = (st, buf, 0, p)) ∨
    ∃ buf' total header, build cls app appLen buf len p = (.ok, buf', total,
        { p with
          txCount := Function.update p.txCount cls ((p.txCount cls + 1) &&& seqCountMax)
          sent := Function.update p.sent cls (p.sent cls + 1) }) ∧
      parseHeader buf' total = some header ∧ header.seqCount = p.txCount cls := by
  obtain ⟨hapid, hcount⟩ := hp cls
  by_cases hfield : appLen + integrityBytes = 0 ∨ dataFieldMax < appLen + integrityBytes
  · exact .inl ⟨.errRange, by simp, by simp only [build, hfield, ↓reduceIte]⟩
  by_cases hroom : len < primaryHeaderBytes + (appLen + integrityBytes)
  · exact .inl ⟨.errRange, by simp, by simp only [build, hfield, hroom, ↓reduceIte]⟩
  obtain ⟨header, hheader⟩ : ∃ header : CcsdsHeader, header =
    { version := 0, type := .tm, secondaryHeader := false, apid := p.apid cls,
      seqFlags := .unsegmented, seqCount := p.txCount cls,
      dataLength := (appLen + integrityBytes - 1).toUInt16 } := ⟨_, rfl⟩
  have hrange : ¬ (7 < header.version ∨ apidMax < header.apid ∨ seqCountMax < header.seqCount) := by
    subst hheader
    simp [hapid, hcount]
  have hsmall : appLen.toNat ≤ 65532 := by
    obtain ⟨hzero, hle⟩ := not_or.mp hfield
    rw [← UInt32.toNat_inj, UInt32.toNat_add, toNat_integrityBytes, UInt32.toNat_zero] at hzero
    rw [UInt32.lt_iff_toNat_lt, UInt32.toNat_add, toNat_dataFieldMax, toNat_integrityBytes] at hle
    omega
  by_cases hlen : len < primaryHeaderBytes
  · refine .inl ⟨.errParam, by simp, ?_⟩
    simp [build, hfield, hroom, buildHeader, hlen]
  right
  obtain ⟨hdr, hhdr⟩ : ∃ hdr : Buf, hdr =
    ((buf.putU16 0 (word0 header)).putU16 2 (word1 header)).putU16 4 header.dataLength := ⟨_, rfl⟩
  have hbuild : buildHeader header buf len = (.ok, hdr) := by
    rw [buildHeader, if_neg hlen, if_neg hrange, hhdr]
  obtain ⟨crc, hcrc⟩ : ∃ crc, crc =
    Crc.crc32 ((copyData app appLen hdr).bytes primaryHeaderBytes appLen) := ⟨_, rfl⟩
  obtain ⟨buf', hbuf'⟩ : ∃ buf' : Buf, buf' =
    (copyData app appLen hdr).putU32 (primaryHeaderBytes + appLen) crc := ⟨_, rfl⟩
  have hahead : ∀ i : UInt32, i.toNat < 6 → buf' i = hdr i := by
    intro i hi
    rw [hbuf']
    exact behind_header app hdr crc i hsmall hi
  rw [hhdr] at hahead
  obtain ⟨-, hword, -⟩ := getU16_header hahead
  have htotal : ¬ primaryHeaderBytes + (appLen + integrityBytes) < primaryHeaderBytes := by
    rw [UInt32.lt_iff_toNat_lt, UInt32.toNat_add, UInt32.toNat_add, toNat_primaryHeaderBytes,
      toNat_integrityBytes]
    omega
  have hcarried : word1 header &&& seqCountMax = p.txCount cls := by
    rw [word1, low_bits, hheader, and_of_le hcount]
  refine ⟨buf', primaryHeaderBytes + (appLen + integrityBytes), ?_⟩
  simp only [parseHeader, htotal, ↓reduceIte, hword, hcarried, Option.some.injEq]
  refine ⟨_, ?_, rfl, rfl⟩
  simp only [build, hfield, hroom, ↓reduceIte, ← hheader, hbuild, ne_eq, not_true_eq_false, hbuf',
    hcrc]

theorem fits_init : Fits {} := by
  intro c
  cases c <;> exact ⟨by decide, by decide⟩

theorem fits_build (cls : CcsdsClass) (app : Buf) (appLen : UInt32) (buf : Buf) (len : UInt32)
    {p : Ccsds} (hp : Fits p) : Fits (build cls app appLen buf len p).2.2.2 := by
  unfold build
  dsimp only
  split
  · exact hp
  split
  · exact hp
  split
  · exact hp
  · intro c
    refine ⟨(hp c).1, ?_⟩
    dsimp only
    by_cases hc : c = cls
    · rw [hc, Function.update_self]
      exact and_seqCountMax_le _
    · rw [Function.update_of_ne hc]
      exact (hp c).2

/-- The data field of a packet, as far as the checksum behind it, is the application data. -/
theorem bytes_data (app buf : Buf) {appLen : UInt32} (crc : UInt32) (happ : appLen.toNat ≤ 65532) :
    ((copyData app appLen buf).putU32 (primaryHeaderBytes + appLen) crc).bytes primaryHeaderBytes
      appLen = app.bytes 0 appLen := by
  refine Buf.bytes_congr ?_
  intro i hi
  have hoff := toNat_header_add (show appLen.toNat ≤ 65535 by omega)
  have hat := toNat_header_add (show i.toNat ≤ 65535 by omega)
  have hsub : primaryHeaderBytes + i - primaryHeaderBytes = i := by grind
  rw [Buf.putU32_of_ne, copyData, hsub, if_pos (UInt32.lt_iff_toNat_lt.mpr hi), UInt32.zero_add]
  intro k hk heq
  have hnat := congrArg UInt32.toNat heq
  rw [UInt32.toNat_add _ k, hoff, hat] at hnat
  omega

/-- Data that fits the buffer is always built into a packet, which carries it. -/
theorem build_of_fits (cls : CcsdsClass) (app : Buf) {appLen : UInt32} (buf : Buf) {len : UInt32}
    {p : Ccsds} (hp : Fits p) (hlen : len.toNat ≤ 65535) (happ : appLen.toNat + 10 ≤ len.toNat) :
    (build cls app appLen buf len p).1 = .ok ∧
      (build cls app appLen buf len p).2.1.bytes primaryHeaderBytes appLen = app.bytes 0 appLen ∧
      (build cls app appLen buf len p).2.2.1 = appLen + 10 := by
  have hsix := toNat_primaryHeaderBytes
  have hfour := toNat_integrityBytes
  have hmax := toNat_dataFieldMax
  have hfield : ¬ (appLen + integrityBytes = 0 ∨ dataFieldMax < appLen + integrityBytes) := by
    rw [← UInt32.toNat_inj, UInt32.lt_iff_toNat_lt, UInt32.toNat_add, UInt32.toNat_zero, hfour, hmax]
    omega
  have hroom : ¬ len < primaryHeaderBytes + (appLen + integrityBytes) := by
    rw [UInt32.lt_iff_toNat_lt, UInt32.toNat_add, UInt32.toNat_add, hsix, hfour]
    omega
  have hheader : ¬ len < primaryHeaderBytes := by
    rw [UInt32.lt_iff_toNat_lt, hsix]
    omega
  have htotal : primaryHeaderBytes + (appLen + integrityBytes) = appLen + 10 := by
    rw [← UInt32.toNat_inj, UInt32.toNat_add, UInt32.toNat_add, UInt32.toNat_add, hsix, hfour]
    simp only [UInt32.reduceToNat]
    omega
  have hrange : ¬ ((7 : UInt8) < 0 ∨ apidMax < p.apid cls ∨ seqCountMax < p.txCount cls) := by
    simp [hp cls]
  unfold build
  simp only [hfield, hroom, ↓reduceIte, buildHeader, hheader, hrange, ne_eq, not_true_eq_false]
  exact ⟨trivial, bytes_data app _ _ (by omega), htotal⟩

end Ccsds

end QiranFirmware
