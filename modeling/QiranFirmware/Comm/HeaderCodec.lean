import QiranFirmware.Comm.CcsdsGrammar
import QiranFirmware.Comm.SizeChecks

/-! # The primary header and its six bytes

`comm_ccsds_build_header` and `comm_ccsds_parse_header` undo each other. The two words of identification
and sequence are told by arithmetic: a field is what is left of its word below it and modulo its width.
-/
namespace QiranFirmware

namespace Buf

/-- Words that are the same have the same bytes. -/
theorem bytes_of_getU16 {buf buf' : Buf} {off : UInt32} (h : buf.getU16 off = buf'.getU16 off) :
    buf off = buf' off ∧ buf (off + 1) = buf' (off + 1) := by
  have hword (b : Buf) : (b.getU16 off).toNat = (b off).toNat * 256 + (b (off + 1)).toNat := by
    have hlt := (b off).toNat_lt
    have hhigh : ((b off).toUInt16 <<< 8).toNat = (b off).toNat <<< 8 := by
      simp [Nat.shiftLeft_eq]
      omega
    rw [getU16, UInt16.toNat_or, hhigh, UInt8.toNat_toUInt16,
      ← Nat.shiftLeft_add_eq_or_of_lt (b (off + 1)).toNat_lt, Nat.shiftLeft_eq]
  have heq := congrArg UInt16.toNat h
  rw [hword, hword] at heq
  have hlow := (buf (off + 1)).toNat_lt
  have hlow' := (buf' (off + 1)).toNat_lt
  exact ⟨UInt8.toNat_inj.mp (by omega), UInt8.toNat_inj.mp (by omega)⟩

end Buf

namespace Ccsds

def packetBytes (h : CcsdsHeader) : UInt32 := primaryHeaderBytes + h.dataLength.toUInt32 + 1

/-- The checks of `comm_ccsds_build_header` on the fields. -/
structure InRange (h : CcsdsHeader) : Prop where
  version : h.version.toNat < 2 ^ 3
  apid : h.apid.toNat < 2 ^ 11
  seqCount : h.seqCount.toNat < 2 ^ 14

theorem inRange_iff {h : CcsdsHeader} :
    InRange h ↔ ¬ (7 < h.version ∨ apidMax < h.apid ∨ seqCountMax < h.seqCount) := by
  have hapid : apidMax.toNat = 2047 := rfl
  have hcount : seqCountMax.toNat = 16383 := rfl
  rw [UInt8.lt_iff_toNat_lt, UInt16.lt_iff_toNat_lt, UInt16.lt_iff_toNat_lt, hapid, hcount]
  simp only [UInt8.reduceToNat]
  constructor
  · rintro ⟨hv, ha, hs⟩
    omega
  · intro hrange
    exact ⟨by omega, by omega, by omega⟩

/-- Fields side by side are their weighted sum. -/
theorem or_fields (v : ℕ) {t s a : ℕ} (ht : t < 2 ^ 1) (hs : s < 2 ^ 1) (ha : a < 2 ^ 11) :
    v <<< 13 ||| t <<< 12 ||| s <<< 11 ||| a = ((v * 2 + t) * 2 + s) * 2048 + a := by
  have hvt : v <<< 13 ||| t <<< 12 = (v <<< 1 + t) <<< 12 := by
    rw [Nat.shiftLeft_add_eq_or_of_lt ht, Nat.shiftLeft_or_distrib, ← Nat.shiftLeft_add]
  have hvts : (v <<< 1 + t) <<< 12 ||| s <<< 11 = ((v <<< 1 + t) <<< 1 + s) <<< 11 := by
    rw [Nat.shiftLeft_add_eq_or_of_lt hs, Nat.shiftLeft_or_distrib, ← Nat.shiftLeft_add]
  rw [hvt, hvts, ← Nat.shiftLeft_add_eq_or_of_lt ha]
  simp only [Nat.shiftLeft_eq]

theorem and_low {n : ℕ} (x : ℕ) {mask : ℕ} (hmask : mask = 2 ^ n - 1) : x &&& mask = x % 2 ^ n := by
  rw [hmask, Nat.and_two_pow_sub_one_eq_mod]

theorem toNat_word0 (h : CcsdsHeader) : (word0 h).toNat =
    ((h.version.toNat % 8 * 2 + h.type.ctorIdx) * 2 + h.secondaryHeader.toNat) * 2048 +
      h.apid.toNat % 2048 := by
  have hversion : ((h.version &&& 0x07).toUInt16 <<< 13).toNat = (h.version.toNat % 8) <<< 13 := by
    have hand : (h.version &&& 0x07).toNat = h.version.toNat % 8 := and_low (n := 3) _ rfl
    rw [UInt16.toNat_shiftLeft, UInt8.toNat_toUInt16, hand]
    simp only [UInt16.reduceToNat, Nat.shiftLeft_eq, Nat.reduceMod, Nat.reducePow]
    omega
  have htype : ((UInt16.ofNat h.type.ctorIdx &&& 0x01) <<< 12).toNat = h.type.ctorIdx <<< 12 := by
    cases h.type <;> rfl
  have hsecondary : ((if h.secondaryHeader then 1 else 0 : UInt16) <<< 11).toNat =
      h.secondaryHeader.toNat <<< 11 := by
    cases h.secondaryHeader <;> rfl
  have hapid : (h.apid &&& apidMax).toNat = h.apid.toNat % 2048 := and_low (n := 11) _ rfl
  rw [word0, UInt16.toNat_or, UInt16.toNat_or, UInt16.toNat_or, hversion, htype, hsecondary, hapid,
    or_fields _ (by cases h.type <;> decide) (by cases h.secondaryHeader <;> decide)
      (show h.apid.toNat % 2048 < 2 ^ 11 from Nat.mod_lt _ (by decide))]

theorem toNat_word1 (h : CcsdsHeader) :
    (word1 h).toNat = h.seqFlags.ctorIdx * 16384 + h.seqCount.toNat % 16384 := by
  have hflags : ((UInt16.ofNat h.seqFlags.ctorIdx &&& 0x03) <<< 14).toNat =
      h.seqFlags.ctorIdx <<< 14 := by
    cases h.seqFlags <;> rfl
  have hcount : (h.seqCount &&& seqCountMax).toNat = h.seqCount.toNat % 16384 := and_low (n := 14) _ rfl
  rw [word1, UInt16.toNat_or, hflags, hcount,
    ← Nat.shiftLeft_add_eq_or_of_lt (Nat.mod_lt _ (by decide)), Nat.shiftLeft_eq]

/-- A field of so many bits at a place in its word. -/
theorem toNat_field (w : UInt16) {k mask : UInt16} {n : ℕ} (hk : k.toNat < 16)
    (hmask : mask.toNat = 2 ^ n - 1) :
    ((w >>> k) &&& mask).toNat = w.toNat / 2 ^ k.toNat % 2 ^ n := by
  rw [UInt16.toNat_and, and_low _ hmask, UInt16.toNat_shiftRight, Nat.mod_eq_of_lt hk,
    Nat.shiftRight_eq_div_pow]

theorem ctorIdx_type (w : UInt16) :
    (if (w >>> 12) &&& 0x01 = 0 then CcsdsType.tm else .tc).ctorIdx = w.toNat / 4096 % 2 := by
  have hfield : ((w >>> 12) &&& 0x01).toNat = w.toNat / 4096 % 2 :=
    toNat_field (k := 12) (n := 1) w (by decide) rfl
  split
  · rename_i hzero
    rw [← hfield, hzero]
    rfl
  · rename_i hone
    have hne : w.toNat / 4096 % 2 ≠ 0 := by
      rw [← hfield]
      exact fun h => hone (UInt16.toNat_inj.mp h)
    exact (Nat.mod_two_ne_zero.mp hne).symm

theorem toNat_secondary (w : UInt16) :
    ((w >>> 11) &&& 0x01 != 0).toNat = w.toNat / 2048 % 2 := by
  have hfield : ((w >>> 11) &&& 0x01).toNat = w.toNat / 2048 % 2 :=
    toNat_field (k := 11) (n := 1) w (by decide) rfl
  by_cases hzero : (w >>> 11) &&& 0x01 = 0
  · rw [← hfield, hzero]
    rfl
  · have hne : w.toNat / 2048 % 2 ≠ 0 := by
      rw [← hfield]
      exact fun h => hzero (UInt16.toNat_inj.mp h)
    rw [bne_iff_ne.mpr hzero, Nat.mod_two_ne_zero.mp hne]
    rfl

theorem ctorIdx_flags (n : ℕ) (hn : n < 4) :
    (match n with
      | 0 => CcsdsSeqFlags.continuation
      | 1 => .first
      | 2 => .last
      | _ => .unsegmented).ctorIdx = n := by
  interval_cases n <;> rfl

theorem eq_of_fields {g h : CcsdsHeader} (hversion : g.version.toNat = h.version.toNat)
    (htype : g.type.ctorIdx = h.type.ctorIdx)
    (hsecondary : g.secondaryHeader.toNat = h.secondaryHeader.toNat)
    (hapid : g.apid.toNat = h.apid.toNat) (hflags : g.seqFlags.ctorIdx = h.seqFlags.ctorIdx)
    (hcount : g.seqCount.toNat = h.seqCount.toNat) (hlength : g.dataLength = h.dataLength) : g = h := by
  obtain ⟨version, type, secondary, apid, flags, count, length⟩ := g
  obtain ⟨version', type', secondary', apid', flags', count', length'⟩ := h
  have e1 : version = version' := UInt8.toNat_inj.mp hversion
  have e2 : type = type' := by cases type <;> cases type' <;> first | rfl | cases htype
  have e3 : secondary = secondary' := by
    cases secondary <;> cases secondary' <;> first | rfl | cases hsecondary
  have e4 : apid = apid' := UInt16.toNat_inj.mp hapid
  have e5 : flags = flags' := by cases flags <;> cases flags' <;> first | rfl | cases hflags
  have e6 : count = count' := UInt16.toNat_inj.mp hcount
  rw [e1, e2, e3, e4, e5, e6, show length = length' from hlength]

section Fields
variable (w w' d : UInt16)

theorem headerOf_version : (headerOf w w' d).version.toNat = w.toNat / 8192 := by
  have hlt := w.toNat_lt
  have hfield : ((w >>> 13) &&& 0x07).toNat = w.toNat / 8192 % 8 :=
    toNat_field (k := 13) (n := 3) w (by decide) rfl
  rw [headerOf, UInt16.toNat_toUInt8, hfield]
  omega

theorem headerOf_apid : (headerOf w w' d).apid.toNat = w.toNat % 2048 := and_low (n := 11) _ rfl

theorem headerOf_flags : (headerOf w w' d).seqFlags.ctorIdx = w'.toNat / 16384 := by
  have hlt := w'.toNat_lt
  have hfield : ((w' >>> 14) &&& 0x03).toNat = w'.toNat / 16384 % 4 :=
    toNat_field (k := 14) (n := 2) w' (by decide) rfl
  have hflags := ctorIdx_flags ((w' >>> 14) &&& 0x03).toNat (by omega)
  refine hflags.trans ?_
  rw [hfield]
  omega

theorem headerOf_seqCount : (headerOf w w' d).seqCount.toNat = w'.toNat % 16384 :=
  and_low (n := 14) _ rfl

/-- A header made of two words is in range and packs into them. -/
theorem inRange_headerOf : InRange (headerOf w w' d) := by
  have hlt := w.toNat_lt
  refine ⟨?_, ?_, ?_⟩
  · rw [headerOf_version]
    omega
  · rw [headerOf_apid]
    omega
  · rw [headerOf_seqCount]
    omega

theorem word0_headerOf : word0 (headerOf w w' d) = w := by
  have hlt := w.toNat_lt
  have htype : (headerOf w w' d).type.ctorIdx = w.toNat / 4096 % 2 := ctorIdx_type w
  have hsecondary : (headerOf w w' d).secondaryHeader.toNat = w.toNat / 2048 % 2 := toNat_secondary w
  rw [← UInt16.toNat_inj, toNat_word0, headerOf_version, headerOf_apid, htype, hsecondary]
  omega

theorem word1_headerOf : word1 (headerOf w w' d) = w' := by
  rw [← UInt16.toNat_inj, toNat_word1, headerOf_flags, headerOf_seqCount]
  omega

end Fields

/-- The words of a header in range are those of no other. -/
theorem headerOf_words {h : CcsdsHeader} (hrange : InRange h) :
    headerOf (word0 h) (word1 h) h.dataLength = h := by
  obtain ⟨hversion, hapid, hcount⟩ := hrange
  have hword := toNat_word0 h
  have hword' := toNat_word1 h
  have htype : h.type.ctorIdx < 2 := by cases h.type <;> decide
  have hsecondary : h.secondaryHeader.toNat < 2 := by cases h.secondaryHeader <;> decide
  have htype' : (headerOf (word0 h) (word1 h) h.dataLength).type.ctorIdx =
      (word0 h).toNat / 4096 % 2 := ctorIdx_type _
  have hsecondary' : (headerOf (word0 h) (word1 h) h.dataLength).secondaryHeader.toNat =
      (word0 h).toNat / 2048 % 2 := toNat_secondary _
  refine eq_of_fields ?_ ?_ ?_ ?_ ?_ ?_ rfl
  · rw [headerOf_version]
    omega
  · rw [htype']
    omega
  · rw [hsecondary']
    omega
  · rw [headerOf_apid]
    omega
  · rw [headerOf_flags]
    omega
  · rw [headerOf_seqCount]
    omega

theorem parseHeader_eq {buf : Buf} {len : UInt32} (hlen : 6 ≤ len.toNat) :
    parseHeader buf len = some (headerIn buf) := by
  have hlong : ¬ len < primaryHeaderBytes := by
    rw [UInt32.lt_iff_toNat_lt, toNat_primaryHeaderBytes]
    omega
  rw [parseHeader, if_neg hlong]
  rfl

/-- A header is built when there is room for it and its fields fit, and then its words are written. -/
theorem buildHeader_ok_iff {h : CcsdsHeader} {buf packet : Buf} {len : UInt32} :
    buildHeader h buf len = (.ok, packet) ↔ 6 ≤ len.toNat ∧ InRange h ∧
      packet = ((buf.putU16 0 (word0 h)).putU16 2 (word1 h)).putU16 4 h.dataLength := by
  have hsix : len < primaryHeaderBytes ↔ len.toNat < 6 := UInt32.lt_iff_toNat_lt
  rw [buildHeader, inRange_iff]
  split
  · rename_i hshort
    refine iff_of_false (by simp) ?_
    rintro ⟨hlong, -⟩
    have := hsix.mp hshort
    omega
  rename_i hlong
  rw [hsix] at hlong
  split
  · rename_i hout
    exact iff_of_false (by simp) fun h => h.2.1 hout
  · rename_i hrange
    rw [Prod.mk.injEq, and_iff_right rfl, eq_comm]
    exact ⟨fun heq => ⟨by omega, hrange, heq⟩, fun h => h.2.2⟩

/-- The words of a header are read back from where they have been written. -/
theorem headerIn_written {h : CcsdsHeader} (hrange : InRange h) {buf packet : Buf}
    (hahead : ∀ i : UInt32, i.toNat < 6 → packet i =
      (((buf.putU16 0 (word0 h)).putU16 2 (word1 h)).putU16 4 h.dataLength) i) :
    headerIn packet = h := by
  obtain ⟨h0, h2, h4⟩ := getU16_header hahead
  rw [headerIn, h0, h2, h4]
  exact headerOf_words hrange

/-- The six bytes of a header are its three words. -/
theorem bytes_of_words {buf buf' : Buf} (h0 : buf.getU16 0 = buf'.getU16 0)
    (h2 : buf.getU16 2 = buf'.getU16 2) (h4 : buf.getU16 4 = buf'.getU16 4) :
    buf.bytes 0 6 = buf'.bytes 0 6 := by
  obtain ⟨b0, b1⟩ := Buf.bytes_of_getU16 h0
  obtain ⟨b2, b3⟩ := Buf.bytes_of_getU16 h2
  obtain ⟨b4, b5⟩ := Buf.bytes_of_getU16 h4
  have hsix (b : Buf) : b.bytes 0 6 = [b 0, b (0 + 1), b 2, b (2 + 1), b 4, b (4 + 1)] := rfl
  rw [hsix, hsix, b0, b1, b2, b3, b4, b5]

/-- What a successful build declares as the size of its packet. -/
theorem packetBytes_headerFor (cls : CcsdsClass) {appLen : UInt32} (p : Ccsds)
    (hfield : ¬ (appLen + integrityBytes = 0 ∨ dataFieldMax < appLen + integrityBytes)) :
    packetBytes (headerFor cls appLen p) = primaryHeaderBytes + (appLen + integrityBytes) := by
  have hfour := toNat_integrityBytes
  rw [← UInt32.toNat_inj, UInt32.lt_iff_toNat_lt, UInt32.toNat_add, UInt32.toNat_zero, hfour,
    toNat_dataFieldMax] at hfield
  have happ := appLen.toNat_lt
  have hlength : (headerFor cls appLen p).dataLength.toUInt32 = appLen + integrityBytes - 1 := by
    rw [← UInt32.toNat_inj, UInt16.toNat_toUInt32, headerFor, UInt32.toNat_toUInt16, UInt32.toNat_sub,
      UInt32.toNat_add, hfour, UInt32.toNat_one]
    omega
  rw [packetBytes, hlength]
  grind

/-- What a successful build has checked and written. -/
theorem of_build_ok {cls : CcsdsClass} {app : Buf} {appLen : UInt32} {buf : Buf} {len : UInt32}
    {p p' : Ccsds} {packet : Buf} {written : UInt32}
    (h : build cls app appLen buf len p = (.ok, packet, written, p')) :
    ¬ (appLen + integrityBytes = 0 ∨ dataFieldMax < appLen + integrityBytes) ∧
      ¬ len < primaryHeaderBytes + (appLen + integrityBytes) ∧
      written = primaryHeaderBytes + (appLen + integrityBytes) ∧
      ∃ hdr crc, buildHeader (headerFor cls appLen p) buf len = (.ok, hdr) ∧
        packet = (copyData app appLen hdr).putU32 (primaryHeaderBytes + appLen) crc := by
  unfold build at h
  dsimp only at h
  split at h
  · cases h
  rename_i hfield
  split at h
  · cases h
  rename_i hroom
  split at h
  · rename_i hst
    exact absurd (congrArg Prod.fst h) hst
  · rename_i hst
    cases h
    exact ⟨hfield, hroom, rfl, _, _, Prod.ext (not_not.mp hst) rfl, rfl⟩

/-- Every header that is built is parsed from its six bytes, every six bytes are those of the header parsed
from them, and a packet built is as long as its header says; unless the length of its data wraps, that header
is the one parsed from the packet. -/
theorem header_codec :
    (∀ h buf len packet, buildHeader h buf len = (.ok, packet) →
      parseHeader packet 6 = some h ∧ ∀ i : UInt32, 6 ≤ i.toNat → packet i = buf i) ∧
    (∀ buf len, 6 ≤ len.toNat → ∃ h, parseHeader buf len = some h ∧
      ∀ buf' len', 6 ≤ len'.toNat → ∃ packet, buildHeader h buf' len' = (.ok, packet) ∧
        packet.bytes 0 6 = buf.bytes 0 6) ∧
    ∀ cls app appLen buf len p packet written p',
      build cls app appLen buf len p = (.ok, packet, written, p') →
        ∃ h hdr, buildHeader h buf len = (.ok, hdr) ∧ parseHeader hdr len = some h ∧
          packetBytes h = written ∧ (¬ Wraps appLen len → parseHeader packet written = some h) := by
  refine ⟨?_, ?_, ?_⟩
  · intro h buf len packet hbuild
    obtain ⟨-, hrange, rfl⟩ := buildHeader_ok_iff.mp hbuild
    refine ⟨?_, ?_⟩
    · rw [parseHeader_eq (by decide), headerIn_written hrange fun _ _ => rfl]
    · intro i hi
      have hne {k : UInt32} (hk : k.toNat < 6) : i ≠ k := by
        rintro rfl
        omega
      rw [Buf.putU16_of_ne (hne (by decide)) (hne (by decide)),
        Buf.putU16_of_ne (hne (by decide)) (hne (by decide)),
        Buf.putU16_of_ne (hne (by decide)) (hne (by decide))]
  · intro buf len hlen
    refine ⟨headerIn buf, parseHeader_eq hlen, ?_⟩
    intro buf' len' hlen'
    refine ⟨_, buildHeader_ok_iff.mpr ⟨hlen', inRange_headerOf _ _ _, rfl⟩, ?_⟩
    obtain ⟨h0, h2, h4⟩ := @getU16_header _ buf' (headerIn buf) fun _ _ => rfl
    refine bytes_of_words ?_ ?_ ?_
    · rw [h0]
      exact word0_headerOf _ _ _
    · rw [h2]
      exact word1_headerOf _ _ _
    · rw [h4]
      rfl
  · intro cls app appLen buf len p packet written p' hbuild
    obtain ⟨hfield, hroom, rfl, hdr, crc, hhdr, rfl⟩ := of_build_ok hbuild
    obtain ⟨hlen, hrange, rfl⟩ := buildHeader_ok_iff.mp hhdr
    refine ⟨_, _, hhdr, ?_, packetBytes_headerFor cls p hfield, ?_⟩
    · rw [parseHeader_eq hlen, headerIn_written hrange fun _ _ => rfl]
    · intro hwraps
      have hsmall : Room appLen len := (checks_iff.mp ⟨hfield, hroom⟩).resolve_right hwraps
      have happ := hsmall.2
      have hlong : 6 ≤ (primaryHeaderBytes + (appLen + integrityBytes)).toNat := by
        rw [UInt32.toNat_add, UInt32.toNat_add, toNat_primaryHeaderBytes, toNat_integrityBytes]
        omega
      rw [parseHeader_eq hlong, headerIn_written hrange fun i hi => behind_header app _ crc i (by omega) hi]

end Ccsds

end QiranFirmware
