import QiranFirmware.Comm.Ccsds

/-! # What is built is received

A packet that `comm_ccsds_build` makes passes every check of `comm_ccsds_receive`, and the consumer
of its class is handed the application data it was made from.
-/
namespace QiranFirmware

namespace Buf

theorem getU32_putU32 (buf : Buf) (off : UInt32) (w : UInt32) : (buf.putU32 off w).getU32 off = w := by
  have hne (i j : UInt32) (h : i ≠ j) : off + i ≠ off + j := by
    intro heq
    exact h (by grind)
  have h0 : (buf.putU32 off w) off = (w >>> 24).toUInt8 := by
    have h01 := hne 0 1 (by decide)
    have h02 := hne 0 2 (by decide)
    have h03 := hne 0 3 (by decide)
    rw [UInt32.add_zero] at h01 h02 h03
    rw [putU32, putU8_of_ne h03, putU8_of_ne h02, putU8_of_ne h01, putU8, Function.update_self]
  have h1 : (buf.putU32 off w) (off + 1) = (w >>> 16).toUInt8 := by
    rw [putU32, putU8_of_ne (hne 1 3 (by decide)), putU8_of_ne (hne 1 2 (by decide)), putU8,
      Function.update_self]
  have h2 : (buf.putU32 off w) (off + 2) = (w >>> 8).toUInt8 := by
    rw [putU32, putU8_of_ne (hne 2 3 (by decide)), putU8, Function.update_self]
  have h3 : (buf.putU32 off w) (off + 3) = w.toUInt8 := by
    rw [putU32, putU8, Function.update_self]
  rw [getU32, h0, h1, h2, h3]
  exact join_split32 w

end Buf

namespace Ccsds

/-- Identifiers and counts are within their fields, and no two classes share an identifier. -/
structure Assigned (p : Ccsds) : Prop where
  fits : p.Fits
  distinct : ∀ c d, p.apid c = p.apid d → c = d

theorem Assigned.classOf_iff {p : Ccsds} (h : Assigned p) {apid : UInt16} {cls : CcsdsClass} :
    p.classOf apid = some cls ↔ p.apid cls = apid := by
  constructor
  · intro hfind
    have hapid := List.find?_some hfind
    simpa using hapid
  · rintro rfl
    cases hfind : p.classOf (p.apid cls) with
    | none =>
      have hmem : cls ∈ CcsdsClass.all := by cases cls <;> decide
      have hnot := List.find?_eq_none.mp hfind cls hmem
      simp at hnot
    | some d =>
      have hapid := List.find?_some hfind
      rw [h.distinct d cls (by simpa using hapid)]

theorem assigned_init : Assigned {} where
  fits := fits_init
  distinct := by
    intro c d h
    revert h
    cases c <;> cases d <;> decide

theorem assigned_setApid {p : Ccsds} (h : Assigned p) (cls : CcsdsClass) (apid : UInt16) :
    Assigned (setApid cls apid p).2 := by
  unfold setApid
  split
  · exact h
  rename_i hvalid
  split
  · exact h
  rename_i hfree
  have hother : ∀ c, c ≠ cls → p.apid c ≠ apid := by
    intro c hc heq
    have hmem : c ∈ CcsdsClass.all := by cases c <;> decide
    exact hfree (List.any_eq_true.mpr ⟨c, hmem, by simp [hc, heq]⟩)
  refine ⟨?_, ?_⟩
  · intro c
    refine ⟨?_, (h.fits c).2⟩
    by_cases hc : c = cls
    · subst hc
      simp only [Function.update_self]
      exact UInt16.not_lt.mp (not_or.mp hvalid).1
    · simp only [Function.update_of_ne hc]
      exact (h.fits c).1
  · intro c d hcd
    by_cases hc : c = cls
    · by_cases hd : d = cls
      · exact hc.trans hd.symm
      · subst hc
        simp only [Function.update_self, Function.update_of_ne hd] at hcd
        exact absurd hcd.symm (hother d hd)
    · by_cases hd : d = cls
      · subst hd
        simp only [Function.update_self, Function.update_of_ne hc] at hcd
        exact absurd hcd (hother c hc)
      · simp only [Function.update_of_ne hc, Function.update_of_ne hd] at hcd
        exact h.distinct c d hcd

def advance (cls : CcsdsClass) (p : Ccsds) : Ccsds :=
  { p with
    txCount := Function.update p.txCount cls ((p.txCount cls + 1) &&& seqCountMax)
    sent := Function.update p.sent cls (p.sent cls + 1) }

structure Carries (cls : CcsdsClass) (app : List UInt8) (p : Ccsds) (packet : Buf) (len : UInt32) :
    Prop where
  length : len.toNat = app.length + 10
  header : ∃ header, parseHeader packet len = some header ∧ header.apid = p.apid cls ∧
    header.seqCount = p.txCount cls ∧ header.dataLength.toNat = app.length + 3
  data : packet.bytes primaryHeaderBytes (UInt32.ofNat app.length) = app
  checksum : packet.getU32 (primaryHeaderBytes + UInt32.ofNat app.length) = Crc.crc32 app

theorem word0_apid {h : CcsdsHeader} (hversion : h.version = 0) (htype : h.type = .tm)
    (hsecondary : h.secondaryHeader = false) (hapid : h.apid ≤ apidMax) :
    word0 h &&& apidMax = h.apid := by
  have hmask : apidMax.toNat = 2 ^ 11 - 1 := rfl
  have hword : word0 h = h.apid &&& apidMax := by
    have htm : (UInt16.ofNat CcsdsType.tm.ctorIdx &&& 0x01) <<< 12 = 0 := rfl
    simp [word0, hversion, htype, hsecondary, htm]
  rw [UInt16.le_iff_toNat_le, hmask] at hapid
  rw [hword, ← UInt16.toNat_inj, UInt16.toNat_and, UInt16.toNat_and, hmask,
    Nat.and_two_pow_sub_one_eq_mod, Nat.and_two_pow_sub_one_eq_mod]
  omega

theorem bytes_copyData (app buf : Buf) (appLen : UInt32) :
    (copyData app appLen buf).bytes primaryHeaderBytes appLen = app.bytes 0 appLen := by
  refine Buf.bytes_congr ?_
  intro i hi
  have hsub : primaryHeaderBytes + i - primaryHeaderBytes = i := by grind
  rw [copyData, hsub, if_pos (UInt32.lt_iff_toNat_lt.mpr hi), UInt32.zero_add]

theorem carries_build (cls : CcsdsClass) {app : List UInt8} (buf : Buf) {len : UInt32} {p : Ccsds}
    (hp : Fits p) (happ : app.length ≤ 65532) (hlen : app.length + 10 ≤ len.toNat) :
    ∃ packet written, build cls (Buf.ofList app) (UInt32.ofNat app.length) buf len p =
      (.ok, packet, written, advance cls p) ∧ Carries cls app p packet written := by
  obtain ⟨hapid, hcount⟩ := hp cls
  have hsix := toNat_primaryHeaderBytes
  have hfour := toNat_integrityBytes
  have hmax := toNat_dataFieldMax
  obtain ⟨appLen, happLen⟩ : ∃ appLen, appLen = UInt32.ofNat app.length := ⟨_, rfl⟩
  have hnat : appLen.toNat = app.length := by
    rw [happLen]
    exact UInt32.toNat_ofNat_of_lt' (show app.length < 2 ^ 32 by omega)
  have hfield : ¬ (appLen + integrityBytes = 0 ∨ dataFieldMax < appLen + integrityBytes) := by
    rw [← UInt32.toNat_inj, UInt32.lt_iff_toNat_lt, UInt32.toNat_add, UInt32.toNat_zero, hfour, hmax]
    omega
  have htotal : (primaryHeaderBytes + (appLen + integrityBytes)).toNat = app.length + 10 := by
    rw [UInt32.toNat_add, UInt32.toNat_add, hsix, hfour]
    omega
  have hroom : ¬ len < primaryHeaderBytes + (appLen + integrityBytes) := by
    rw [UInt32.lt_iff_toNat_lt, htotal]
    omega
  have hheader : ¬ len < primaryHeaderBytes := by
    rw [UInt32.lt_iff_toNat_lt, hsix]
    omega
  obtain ⟨header, hh⟩ : ∃ header : CcsdsHeader, header =
    { version := 0, type := .tm, secondaryHeader := false, apid := p.apid cls,
      seqFlags := .unsegmented, seqCount := p.txCount cls,
      dataLength := (appLen + integrityBytes - 1).toUInt16 } := ⟨_, rfl⟩
  have hrange : ¬ (7 < header.version ∨ apidMax < header.apid ∨ seqCountMax < header.seqCount) := by
    subst hh
    simp [hapid, hcount]
  obtain ⟨hdr, hhdr⟩ : ∃ hdr : Buf, hdr =
    ((buf.putU16 0 (word0 header)).putU16 2 (word1 header)).putU16 4 header.dataLength := ⟨_, rfl⟩
  have hbuild : buildHeader header buf len = (.ok, hdr) := by
    rw [buildHeader, if_neg hheader, if_neg hrange, hhdr]
  obtain ⟨crc, hcrc⟩ : ∃ crc, crc =
    Crc.crc32 ((copyData (Buf.ofList app) appLen hdr).bytes primaryHeaderBytes appLen) := ⟨_, rfl⟩
  have hall : (Buf.ofList app).bytes 0 appLen = app := by
    rw [Buf.bytes_ofList app (by rw [hnat, UInt32.toNat_zero, Nat.zero_add])
      (by rw [hnat, UInt32.toNat_zero]; omega), hnat, UInt32.toNat_zero, List.drop_zero,
      List.take_length]
  have hcopy : (copyData (Buf.ofList app) appLen hdr).bytes primaryHeaderBytes appLen = app := by
    rw [bytes_copyData, hall]
  obtain ⟨packet, hpacket⟩ : ∃ packet : Buf, packet =
    (copyData (Buf.ofList app) appLen hdr).putU32 (primaryHeaderBytes + appLen) crc := ⟨_, rfl⟩
  have hahead : ∀ i : UInt32, i.toNat < 6 → packet i = hdr i := by
    intro i hi
    rw [hpacket]
    exact behind_header _ _ _ _ (by omega) hi
  rw [hhdr] at hahead
  obtain ⟨h0, h2, h4⟩ := getU16_header hahead
  refine ⟨packet, primaryHeaderBytes + (appLen + integrityBytes), ?_, htotal, ?_, ?_, ?_⟩
  · simp only [← happLen, build, hfield, hroom, ↓reduceIte, ← hh, hbuild, ne_eq,
      not_true_eq_false, ← hcrc, advance, hpacket]
  · have hparse : ¬ primaryHeaderBytes + (appLen + integrityBytes) < primaryHeaderBytes := by
      rw [UInt32.lt_iff_toNat_lt, htotal, hsix]
      omega
    rw [parseHeader, if_neg hparse]
    refine ⟨_, rfl, ?_, ?_, ?_⟩
    · dsimp only
      rw [h0, word0_apid (by rw [hh]) (by rw [hh]) (by rw [hh]) (by rw [hh]; exact hapid), hh]
    · dsimp only
      rw [h2, word1, low_bits, hh, and_of_le hcount]
    · dsimp only
      have hsum : (appLen + integrityBytes - 1).toNat = app.length + 3 := by
        rw [UInt32.toNat_sub, UInt32.toNat_add, hfour, hnat, UInt32.toNat_one]
        omega
      rw [h4, hh, UInt32.toNat_toUInt16, hsum]
      omega
  · rw [← happLen, hpacket]
    rw [bytes_data _ _ _ (by omega), hall]
  · rw [← happLen, hpacket, Buf.getU32_putU32, hcrc, hcopy]

def sequenceNote (cls : CcsdsClass) (count : UInt16) (p : Ccsds) (v : Svc) : Svc :=
  if p.rxSeen cls && count != p.rxExpect cls then
    v.report .packetSequence (((p.rxExpect cls).toUInt32 <<< 16) ||| count.toUInt32)
  else v

/-- A packet made at one end passes every check at the other, and is delivered. -/
theorem receive_carried {cls : CcsdsClass} {app : List UInt8} {b p : Ccsds} {packet : Buf}
    {len : UInt32} (h : Carries cls app b packet len) (happ : app.length ≤ 65532)
    (hroute : p.classOf (b.apid cls) = some cls) (hconsumer : p.consumer cls = true)
    (run : ConsumerRun) (v : Svc) :
    (receive packet len run p v).1 = run.status ∧
      (∃ header, header.apid = b.apid cls ∧ header.seqCount = b.txCount cls ∧
        (receive packet len run p v).2.1.delivered = p.delivered ++ [(cls, header, app)]) ∧
      (receive packet len run p v).2.2 =
        (sequenceNote cls (b.txCount cls) p v).reportAll run.reports := by
  obtain ⟨header, hparse, hapid, hcount, hlength⟩ := h.header
  have hfield : (header.dataLength.toUInt32 + 1).toNat = app.length + 4 := by
    rw [UInt32.toNat_add, UInt16.toNat_toUInt32, hlength, UInt32.toNat_one]
    omega
  have happLen : header.dataLength.toUInt32 + 1 - integrityBytes = UInt32.ofNat app.length := by
    rw [← UInt32.toNat_inj, UInt32.toNat_sub, hfield, toNat_integrityBytes, UInt32.toNat_ofNat']
    omega
  have htotal : ¬ (primaryHeaderBytes + (header.dataLength.toUInt32 + 1) ≠ len ∨
      header.dataLength.toUInt32 + 1 < integrityBytes) := by
    rw [ne_eq, ← UInt32.toNat_inj, UInt32.lt_iff_toNat_lt, UInt32.toNat_add, hfield, h.length,
      toNat_primaryHeaderBytes, toNat_integrityBytes]
    omega
  unfold receive
  simp only [hparse, htotal, ↓reduceIte, happLen, h.data, h.checksum, ne_eq, not_true_eq_false, hapid,
    hroute, hconsumer, hcount, Bool.not_true, Bool.false_eq_true]
  exact ⟨trivial, ⟨header, hapid, hcount, rfl⟩, rfl⟩

end Ccsds

end QiranFirmware
