import QiranFirmware.Comm.CcsdsRoundTrip

/-! # What is accepted as a packet

A packet is a header whose length field is seven less than the packet's length, data, and the
checksum of the data. `WellFormed` says so of a byte string; what `comm_ccsds_receive` does with one
that is not leaves everything but its own error counts as it was.
-/
namespace QiranFirmware.Ccsds

def readWithin (packet : Buf) (len i : UInt32) : Option UInt8 :=
  if i < len then some (packet i) else none

def getU16Within (packet : Buf) (len off : UInt32) : Option UInt16 := do
  let b0 ← readWithin packet len off
  let b1 ← readWithin packet len (off + 1)
  return (b0.toUInt16 <<< 8) ||| b1.toUInt16

def getU32Within (packet : Buf) (len off : UInt32) : Option UInt32 := do
  let b0 ← readWithin packet len off
  let b1 ← readWithin packet len (off + 1)
  let b2 ← readWithin packet len (off + 2)
  let b3 ← readWithin packet len (off + 3)
  return (b0.toUInt32 <<< 24) ||| (b1.toUInt32 <<< 16) ||| (b2.toUInt32 <<< 8) ||| b3.toUInt32

def bytesWithin (packet : Buf) (len off n : UInt32) : Option (List UInt8) :=
  (List.range n.toNat).mapM fun i => readWithin packet len (off + UInt32.ofNat i)

def headerOf (word0 word1 dataLength : UInt16) : CcsdsHeader where
  version := ((word0 >>> 13) &&& 0x07).toUInt8
  type := if (word0 >>> 12) &&& 0x01 = 0 then .tm else .tc
  secondaryHeader := (word0 >>> 11) &&& 0x01 != 0
  apid := word0 &&& apidMax
  seqFlags := match ((word1 >>> 14) &&& 0x03).toNat with
    | 0 => .continuation
    | 1 => .first
    | 2 => .last
    | _ => .unsegmented
  seqCount := word1 &&& seqCountMax
  dataLength

/-- What `comm_ccsds_receive` does with a packet that has passed its checks. -/
def route (header : CcsdsHeader) (app : List UInt8) (run : ConsumerRun) (p : Ccsds) (v : Svc) :
    Status × Ccsds × Svc :=
  match p.classOf header.apid with
  | none =>
    (.errUnsupported, { p with unroutable := p.unroutable + 1 },
      v.report .packetIntegrity header.apid.toUInt32)
  | some cls =>
    let gap := p.rxSeen cls && header.seqCount != p.rxExpect cls
    let v := if gap then
        v.report .packetSequence (((p.rxExpect cls).toUInt32 <<< 16) ||| header.seqCount.toUInt32)
      else v
    let p := { p with
      gaps := if gap then p.gaps + 1 else p.gaps
      rxSeen := Function.update p.rxSeen cls true
      rxExpect := Function.update p.rxExpect cls ((header.seqCount + 1) &&& seqCountMax)
      received := Function.update p.received cls (p.received cls + 1) }
    if !p.consumer cls then (.errUnsupported, { p with unroutable := p.unroutable + 1 }, v)
    else
      (run.status, { p with delivered := p.delivered ++ [(cls, header, app)] },
        v.reportAll run.reports)

def receiveWithin (packet : Buf) (len : UInt32) (run : ConsumerRun) (p : Ccsds) (v : Svc) :
    Option (Status × Ccsds × Svc) :=
  if len < primaryHeaderBytes then some (.errParam, p, v)
  else do
    let word0 ← getU16Within packet len 0
    let word1 ← getU16Within packet len 2
    let dataLength ← getU16Within packet len 4
    let header := headerOf word0 word1 dataLength
    let fieldLen := header.dataLength.toUInt32 + 1
    if primaryHeaderBytes + fieldLen ≠ len ∨ fieldLen < integrityBytes then
      return (.errIntegrity, { p with lengthErrors := p.lengthErrors + 1 },
        v.report .packetIntegrity fieldLen)
    let appLen := fieldLen - integrityBytes
    let stored ← getU32Within packet len (primaryHeaderBytes + appLen)
    let app ← bytesWithin packet len primaryHeaderBytes appLen
    if stored ≠ Crc.crc32 app then
      return (.errIntegrity, { p with integrityErrors := p.integrityErrors + 1 },
        v.report .packetIntegrity header.apid.toUInt32)
    return route header app run p v

theorem readWithin_eq {packet : Buf} {len i : UInt32} (h : i.toNat < len.toNat) :
    readWithin packet len i = some (packet i) :=
  if_pos (UInt32.lt_iff_toNat_lt.mpr h)

theorem getU16Within_eq {packet : Buf} {len off : UInt32} (h : off.toNat + 2 ≤ len.toNat) :
    getU16Within packet len off = some (packet.getU16 off) := by
  have hlen := len.toNat_lt
  have hnext : (off + 1).toNat < len.toNat := by
    rw [UInt32.toNat_add, UInt32.toNat_one]
    omega
  rw [getU16Within, readWithin_eq (by omega), readWithin_eq hnext]
  rfl

theorem getU32Within_eq {packet : Buf} {len off : UInt32} (h : off.toNat + 4 ≤ len.toNat) :
    getU32Within packet len off = some (packet.getU32 off) := by
  have hlen := len.toNat_lt
  have hnext (k : UInt32) (hk : k.toNat < 4) : (off + k).toNat < len.toNat := by
    rw [UInt32.toNat_add]
    omega
  rw [getU32Within, readWithin_eq (by omega), readWithin_eq (hnext 1 (by decide)),
    readWithin_eq (hnext 2 (by decide)), readWithin_eq (hnext 3 (by decide))]
  rfl

theorem mapM_eq_some {α β : Type} {f : α → Option β} {g : α → β} {xs : List α}
    (h : ∀ x ∈ xs, f x = some (g x)) : xs.mapM f = some (xs.map g) := by
  induction xs with
  | nil => rfl
  | cons x xs ih =>
    rw [List.mapM_cons, h x List.mem_cons_self, ih fun y hy => h y (List.mem_cons_of_mem x hy)]
    rfl

theorem bytesWithin_eq {packet : Buf} {len off n : UInt32} (h : off.toNat + n.toNat ≤ len.toNat) :
    bytesWithin packet len off n = some (packet.bytes off n) := by
  have hlen := len.toNat_lt
  have hread : ∀ i ∈ List.range n.toNat, readWithin packet len (off + UInt32.ofNat i) =
      some (packet (off + UInt32.ofNat i)) := by
    intro i hi
    have hi := List.mem_range.mp hi
    refine readWithin_eq ?_
    rw [UInt32.toNat_add, UInt32.toNat_ofNat']
    omega
  exact mapM_eq_some hread

/-- The header, the length and the checksum of a packet as the standard and the integrity field
ask for them. -/
structure WellFormed (packet : Buf) (len : UInt32) : Prop where
  long : 10 ≤ len.toNat
  length : (packet.getU16 4).toNat = len.toNat - 7
  checksum : packet.getU32 (len - 4) = Crc.crc32 (packet.bytes 6 (len - 10))

def identifier (packet : Buf) : UInt16 := packet.getU16 0 &&& apidMax

def headerIn (packet : Buf) : CcsdsHeader :=
  headerOf (packet.getU16 0) (packet.getU16 2) (packet.getU16 4)

/-- The data field of a packet whose length field is its own. -/
theorem fieldLen_of_length {packet : Buf} {len : UInt32} (hlong : 10 ≤ len.toNat)
    (hlength : (packet.getU16 4).toNat = len.toNat - 7) :
    primaryHeaderBytes + ((packet.getU16 4).toUInt32 + 1) = len ∧
      ¬ (packet.getU16 4).toUInt32 + 1 < integrityBytes ∧
      (packet.getU16 4).toUInt32 + 1 - integrityBytes = len - 10 ∧
      primaryHeaderBytes + (len - 10) = len - 4 := by
  have hlen := len.toNat_lt
  have hword := (packet.getU16 4).toNat_lt
  have hfield : ((packet.getU16 4).toUInt32 + 1).toNat = len.toNat - 6 := by
    rw [UInt32.toNat_add, UInt16.toNat_toUInt32, hlength, UInt32.toNat_one]
    omega
  have hten : (len - 10).toNat = len.toNat - 10 := by
    rw [UInt32.toNat_sub]
    simp only [UInt32.reduceToNat]
    omega
  refine ⟨?_, ?_, ?_, ?_⟩
  · rw [← UInt32.toNat_inj, UInt32.toNat_add, hfield, toNat_primaryHeaderBytes]
    omega
  · rw [UInt32.lt_iff_toNat_lt, hfield, toNat_integrityBytes]
    omega
  · rw [← UInt32.toNat_inj, UInt32.toNat_sub, hfield, hten, toNat_integrityBytes]
    omega
  · rw [← UInt32.toNat_inj, UInt32.toNat_add, hten, UInt32.toNat_sub, toNat_primaryHeaderBytes]
    simp only [UInt32.reduceToNat]
    omega

/-- The two checks of the length let through what is long enough and declares its own length. -/
theorem length_checks_iff {packet : Buf} {len : UInt32} (hheader : ¬ len < primaryHeaderBytes) :
    (primaryHeaderBytes + ((packet.getU16 4).toUInt32 + 1) ≠ len ∨
        (packet.getU16 4).toUInt32 + 1 < integrityBytes) ↔
      ¬ (10 ≤ len.toNat ∧ (packet.getU16 4).toNat = len.toNat - 7) := by
  have hword := (packet.getU16 4).toNat_lt
  have hfield : ((packet.getU16 4).toUInt32 + 1).toNat = (packet.getU16 4).toNat + 1 := by
    rw [UInt32.toNat_add, UInt16.toNat_toUInt32, UInt32.toNat_one]
    omega
  rw [UInt32.lt_iff_toNat_lt, toNat_primaryHeaderBytes] at hheader
  rw [ne_eq, ← UInt32.toNat_inj, UInt32.lt_iff_toNat_lt, UInt32.toNat_add, hfield,
    toNat_primaryHeaderBytes, toNat_integrityBytes]
  omega

section Receive
variable {packet : Buf} {len : UInt32} {run : ConsumerRun} {p : Ccsds} {v : Svc}

theorem receive_of_wellFormed (h : WellFormed packet len) :
    receive packet len run p v = route (headerIn packet) (packet.bytes 6 (len - 10)) run p v := by
  obtain ⟨hfield, hmin, happ, hat⟩ := fieldLen_of_length h.long h.length
  have hheader : ¬ len < primaryHeaderBytes := by
    have hlong := h.long
    rw [UInt32.lt_iff_toNat_lt, toNat_primaryHeaderBytes]
    omega
  have hparse : parseHeader packet len = some (headerIn packet) := if_neg hheader
  have hdata : (headerIn packet).dataLength = packet.getU16 4 := rfl
  unfold receive
  simp only [hparse, hdata, hfield, hmin, happ, hat, ne_eq, not_true_eq_false, or_self, ↓reduceIte,
    h.checksum]
  exact if_neg (not_not.mpr rfl)

/-- A string that is no packet is counted as one error at most, and reported as such. -/
theorem receive_of_not_wellFormed (h : ¬ WellFormed packet len) :
    ∃ lengthErrors integrityErrors,
      (receive packet len run p v).2.1 = { p with lengthErrors, integrityErrors } ∧
        ((receive packet len run p v).2.2 = v ∨
          ∃ detail, (receive packet len run p v).2.2 = v.report .packetIntegrity detail) := by
  by_cases hheader : len < primaryHeaderBytes
  · have hparse : parseHeader packet len = none := if_pos hheader
    simp only [receive, hparse]
    exact ⟨_, _, rfl, .inl trivial⟩
  have hparse : parseHeader packet len = some (headerIn packet) := if_neg hheader
  have hdata : (headerIn packet).dataLength = packet.getU16 4 := rfl
  unfold receive
  simp only [hparse, hdata]
  by_cases hlength : 10 ≤ len.toNat ∧ (packet.getU16 4).toNat = len.toNat - 7
  swap
  · rw [if_pos ((length_checks_iff hheader).mpr hlength)]
    exact ⟨_, _, rfl, .inr ⟨_, rfl⟩⟩
  obtain ⟨-, -, happ, hat⟩ := fieldLen_of_length hlength.1 hlength.2
  rw [if_neg (mt (length_checks_iff hheader).mp (not_not.mpr hlength)), happ, hat, if_pos]
  · exact ⟨_, _, rfl, .inr ⟨_, rfl⟩⟩
  · intro hchecksum
    exact h ⟨hlength.1, hlength.2, hchecksum⟩

/-- No read is outside the packet. -/
theorem receiveWithin_eq : receiveWithin packet len run p v = some (receive packet len run p v) := by
  by_cases hheader : len < primaryHeaderBytes
  · have hparse : parseHeader packet len = none := if_pos hheader
    simp only [receiveWithin, receive, hheader, hparse, ↓reduceIte]
  have hparse : parseHeader packet len = some (headerIn packet) := if_neg hheader
  have hdata : (headerIn packet).dataLength = packet.getU16 4 := rfl
  have hsix : 6 ≤ len.toNat := by
    rwa [UInt32.not_lt, UInt32.le_iff_toNat_le] at hheader
  have hwords : receiveWithin packet len run p v =
      (if primaryHeaderBytes + ((packet.getU16 4).toUInt32 + 1) ≠ len ∨
          (packet.getU16 4).toUInt32 + 1 < integrityBytes then
        return (.errIntegrity, { p with lengthErrors := p.lengthErrors + 1 },
          v.report .packetIntegrity ((packet.getU16 4).toUInt32 + 1))
      else do
        let appLen := (packet.getU16 4).toUInt32 + 1 - integrityBytes
        let stored ← getU32Within packet len (primaryHeaderBytes + appLen)
        let app ← bytesWithin packet len primaryHeaderBytes appLen
        if stored ≠ Crc.crc32 app then
          return (.errIntegrity, { p with integrityErrors := p.integrityErrors + 1 },
            v.report .packetIntegrity (headerIn packet).apid.toUInt32)
        return route (headerIn packet) app run p v) := by
    rw [receiveWithin, if_neg hheader, getU16Within_eq (by simp only [UInt32.reduceToNat]; omega),
      getU16Within_eq (by simp only [UInt32.reduceToNat]; omega),
      getU16Within_eq (by simp only [UInt32.reduceToNat]; omega)]
    rfl
  rw [hwords]
  by_cases hlength : 10 ≤ len.toNat ∧ (packet.getU16 4).toNat = len.toNat - 7
  swap
  · have hchecks := (length_checks_iff hheader).mpr hlength
    unfold receive
    simp only [hparse, hdata]
    rw [if_pos hchecks, if_pos hchecks]
    rfl
  obtain ⟨-, -, happ, hat⟩ := fieldLen_of_length hlength.1 hlength.2
  have hten : (len - 10).toNat = len.toNat - 10 := by
    have hlen := len.toNat_lt
    rw [UInt32.toNat_sub]
    simp only [UInt32.reduceToNat]
    omega
  have hfour : (len - 4).toNat = len.toNat - 4 := by
    have hlen := len.toNat_lt
    rw [UInt32.toNat_sub]
    simp only [UInt32.reduceToNat]
    omega
  have hstored : getU32Within packet len (len - 4) = some (packet.getU32 (len - 4)) :=
    getU32Within_eq (by omega)
  have hbytes : bytesWithin packet len primaryHeaderBytes (len - 10) =
      some (packet.bytes primaryHeaderBytes (len - 10)) :=
    bytesWithin_eq (by rw [toNat_primaryHeaderBytes]; omega)
  rw [if_neg (mt (length_checks_iff hheader).mp (not_not.mpr hlength)), happ]
  dsimp only
  rw [hat, hstored, hbytes]
  by_cases hchecksum :
      packet.getU32 (len - 4) = Crc.crc32 (packet.bytes primaryHeaderBytes (len - 10))
  · rw [receive_of_wellFormed ⟨hlength.1, hlength.2, hchecksum⟩]
    exact if_neg (not_not.mpr hchecksum)
  · unfold receive
    simp only [hparse, hdata]
    rw [if_neg (mt (length_checks_iff hheader).mp (not_not.mpr hlength)), happ, hat,
      if_pos hchecksum]
    exact if_pos hchecksum

/-- What is read of a packet is the string itself. -/
theorem receive_congr {packet' : Buf} (h : ∀ i < len, packet i = packet' i) :
    receive packet len run p v = receive packet' len run p v := by
  have hread : readWithin packet len = readWithin packet' len := by
    funext i
    by_cases hi : i < len
    · rw [readWithin, readWithin, if_pos hi, if_pos hi, h i hi]
    · rw [readWithin, readWithin, if_neg hi, if_neg hi]
  have hwithin : receiveWithin packet len run p v = receiveWithin packet' len run p v := by
    simp only [receiveWithin, getU16Within, getU32Within, bytesWithin, hread]
  rw [receiveWithin_eq, receiveWithin_eq] at hwithin
  exact Option.some.inj hwithin

theorem route_delivered (header : CcsdsHeader) (app : List UInt8) (run : ConsumerRun) (p : Ccsds)
    (v : Svc) : (route header app run p v).2.1.delivered = match p.classOf header.apid with
      | some cls => if p.consumer cls then p.delivered ++ [(cls, header, app)] else p.delivered
      | none => p.delivered := by
  unfold route
  cases p.classOf header.apid with
  | none => rfl
  | some cls =>
    dsimp only
    cases p.consumer cls with
    | true => rfl
    | false => rfl

end Receive

/-- A consumer is called exactly for what is well formed and carries the identifier of a class that
has one, with the data between the header and the checksum; what is not well formed, or carries an
unknown identifier, leaves what is expected and counted of every class as it was. -/
theorem accepts_grammar (packet : Buf) (len : UInt32) (run : ConsumerRun) (p : Ccsds) (v : Svc) :
    receiveWithin packet len run p v = some (receive packet len run p v) ∧
    ((receive packet len run p v).2.1.delivered ≠ p.delivered ↔ WellFormed packet len ∧
      ∃ cls, p.classOf (identifier packet) = some cls ∧ p.consumer cls = true) ∧
    (∀ cls, WellFormed packet len → p.classOf (identifier packet) = some cls →
      p.consumer cls = true → (receive packet len run p v).1 = run.status ∧
        (receive packet len run p v).2.1.delivered =
          p.delivered ++ [(cls, headerIn packet, packet.bytes 6 (len - 10))]) ∧
    (¬ WellFormed packet len ∨ p.classOf (identifier packet) = none →
      (receive packet len run p v).2.1.rxSeen = p.rxSeen ∧
      (receive packet len run p v).2.1.rxExpect = p.rxExpect ∧
      (receive packet len run p v).2.1.received = p.received ∧
      (receive packet len run p v).2.1.gaps = p.gaps) := by
  have hid : (headerIn packet).apid = identifier packet := rfl
  refine ⟨receiveWithin_eq, ?_, ?_, ?_⟩
  · by_cases h : WellFormed packet len
    · rw [receive_of_wellFormed h, route_delivered, hid]
      cases p.classOf (identifier packet) with
      | none => simp
      | some cls =>
        by_cases hconsumer : p.consumer cls = true
        · simp [h, hconsumer]
        · simp [hconsumer]
    · obtain ⟨lengthErrors, integrityErrors, hkept, -⟩ := @receive_of_not_wellFormed _ _ run p v h
      simp [hkept, h]
  · intro cls h hcls hconsumer
    rw [receive_of_wellFormed h, route_delivered, hid, hcls]
    simp [route, hid, hcls, hconsumer]
  · rintro (h | hnone)
    · obtain ⟨lengthErrors, integrityErrors, hkept, -⟩ := @receive_of_not_wellFormed _ _ run p v h
      rw [hkept]
      exact ⟨rfl, rfl, rfl, rfl⟩
    · by_cases h : WellFormed packet len
      · rw [receive_of_wellFormed h]
        simp only [route, hid, hnone]
        exact ⟨trivial, trivial, trivial, trivial⟩
      · obtain ⟨lengthErrors, integrityErrors, hkept, -⟩ := @receive_of_not_wellFormed _ _ run p v h
        rw [hkept]
        exact ⟨rfl, rfl, rfl, rfl⟩

end QiranFirmware.Ccsds
