import QiranFirmware.Comm.CcsdsGrammar
import QiranFirmware.Comm.Process

/-! # Packets through the module and back

Under every assignment of identifiers that the module lets itself be given, what is built for a
class comes back to the consumer of that class.
-/
namespace QiranFirmware.Ccsds

open Machine Process

/-- Only the application data is read of the buffer that it stands in. -/
theorem build_congr (cls : CcsdsClass) (data : Buf) (appLen : UInt32) (buf : Buf) (len : UInt32)
    (p : Ccsds) : build cls data appLen buf len p =
      build cls (Buf.ofList (data.bytes 0 appLen)) appLen buf len p := by
  have hcopy (b : Buf) : copyData data appLen b =
      copyData (Buf.ofList (data.bytes 0 appLen)) appLen b := by
    funext i
    by_cases hi : i - primaryHeaderBytes < appLen
    · rw [copyData, copyData, if_pos hi, if_pos hi,
        @Buf.apply_of_bytes data appLen _ rfl _ (UInt32.lt_iff_toNat_lt.mp hi)]
    · rw [copyData, copyData, if_neg hi, if_neg hi]
  simp only [build, hcopy]

theorem buildHeader_beyond (h : CcsdsHeader) (buf : Buf) (len : UInt32) {i : UInt32}
    (hi : 6 ≤ i.toNat) : (buildHeader h buf len).2 i = buf i := by
  have hne (k : UInt32) (hk : k.toNat < 6) : i ≠ k := by
    rintro rfl
    omega
  unfold buildHeader
  split
  · rfl
  split
  · rfl
  dsimp only
  rw [Buf.putU16_of_ne (hne 4 (by decide)) (hne (4 + 1) (by decide)),
    Buf.putU16_of_ne (hne 2 (by decide)) (hne (2 + 1) (by decide)),
    Buf.putU16_of_ne (hne 0 (by decide)) (hne (0 + 1) (by decide))]

/-- Nothing behind the packet is written. -/
theorem build_beyond (cls : CcsdsClass) (data : Buf) {appLen : UInt32} (buf : Buf) (len : UInt32)
    (p : Ccsds) (happ : appLen.toNat ≤ 65532) {i : UInt32} (hi : appLen.toNat + 10 ≤ i.toNat) :
    (build cls data appLen buf len p).2.1 i = buf i := by
  have hoff := toNat_header_add (show appLen.toNat ≤ 65535 by omega)
  have hbehind (k : UInt32) (hk : k.toNat < 4) : i ≠ primaryHeaderBytes + appLen + k := by
    rintro rfl
    rw [UInt32.toNat_add, hoff] at hi
    omega
  have hcopy : ¬ i - primaryHeaderBytes < appLen := by
    have hlt := i.toNat_lt
    rw [UInt32.lt_iff_toNat_lt, UInt32.toNat_sub, toNat_primaryHeaderBytes]
    omega
  unfold build
  dsimp only
  split
  · rfl
  split
  · rfl
  split
  · exact buildHeader_beyond _ _ _ (by omega)
  dsimp only
  rw [Buf.putU32_of_ne hbehind, copyData, if_neg hcopy]
  exact buildHeader_beyond _ _ _ (by omega)

theorem assigned_run (ops : List PacketOp) : Assigned (run packetStep {} ops) :=
  @run_keeps _ _ packetStep Assigned (fun _ op h => assigned_step h op) {} assigned_init ops

/-- Whatever identifiers the classes have been given, every class's packet is built, as long as its
data and ten bytes, and is received by the consumer of that class alone, with the data and the
identifier and the count that it was built with. -/
theorem packet_round_trip (ops : List PacketOp) (cls : CcsdsClass) (data : Buf) {appLen : UInt32}
    (happ : appLen.toNat ≤ 65532) (buf : Buf) {len : UInt32} (hlen : appLen.toNat + 10 ≤ len.toNat) :
    let p := run packetStep {} ops
    (∃ packet written, build cls data appLen buf len p = (.ok, packet, written, advance cls p) ∧
      written.toNat = 10 + appLen.toNat ∧ (∀ i, written ≤ i → packet i = buf i) ∧
      ∀ (packet' : Buf) p' run v, (∀ i < written, packet' i = packet i) → p'.apid = p.apid →
        p'.consumer cls = true → (receive packet' written run p' v).1 = run.status ∧
          ∃ header, header.apid = p.apid cls ∧ header.seqCount = p.txCount cls ∧
            (receive packet' written run p' v).2.1.delivered =
              p'.delivered ++ [(cls, header, data.bytes 0 appLen)]) ∧
    ∀ c d, p.classOf (p.apid c) = some d ↔ d = c := by
  intro p
  have hp : Assigned p := assigned_run ops
  refine ⟨?_, ?_⟩
  · have hlength : (data.bytes 0 appLen).length = appLen.toNat := Buf.length_bytes ..
    have hsize : UInt32.ofNat (data.bytes 0 appLen).length = appLen := by
      rw [hlength, UInt32.ofNat_toNat]
    obtain ⟨packet, written, hbuild, hcarries⟩ := @carries_build cls (data.bytes 0 appLen) buf len p
      hp.fits (by rwa [hlength]) (by rwa [hlength])
    have hwritten := hcarries.length
    rw [hsize, ← build_congr] at hbuild
    rw [hlength] at hwritten
    refine ⟨packet, written, hbuild, by rw [hwritten, Nat.add_comm], ?_, ?_⟩
    · intro i hi
      rw [UInt32.le_iff_toNat_le, hwritten] at hi
      have hbeyond := build_beyond cls data buf len p happ hi
      rwa [hbuild] at hbeyond
    · intro packet' p' run v hsame hapid hconsumer
      have hroute : p'.classOf (p.apid cls) = some cls := by
        rw [classOf, hapid]
        exact hp.classOf_iff.mpr rfl
      obtain ⟨hstatus, hheader, -⟩ :=
        receive_carried hcarries (by rwa [hlength]) hroute hconsumer run v
      rw [receive_congr hsame]
      exact ⟨hstatus, hheader⟩
  · intro c d
    rw [hp.classOf_iff]
    exact ⟨hp.distinct d c, fun h => h ▸ rfl⟩
def exchange : List PacketOp :=
  [.setApid .health 0x123, .setApid .event 0x020, .setApid .health 0x030, .register .health]

theorem packet_round_trip_exchanged :
    let p := run packetStep {} exchange
    (∃ packet written, build .health (Buf.ofList [1, 2, 3]) 3 (fun _ => 0) 64 p =
        (.ok, packet, written, advance .health p) ∧
      written.toNat = 10 + (3 : UInt32).toNat ∧ (∀ i, written ≤ i → packet i = 0) ∧
      ∀ (packet' : Buf) p' run v, (∀ i < written, packet' i = packet i) → p'.apid = p.apid →
        p'.consumer .health = true → (receive packet' written run p' v).1 = run.status ∧
          ∃ header, header.apid = p.apid .health ∧ header.seqCount = p.txCount .health ∧
            (receive packet' written run p' v).2.1.delivered =
              p'.delivered ++ [(.health, header, (Buf.ofList [1, 2, 3]).bytes 0 3)]) ∧
    ∀ c d, p.classOf (p.apid c) = some d ↔ d = c :=
  packet_round_trip exchange .health (Buf.ofList [1, 2, 3])
    (show (3 : UInt32).toNat ≤ 65532 by decide) (fun _ => 0)
    (show (3 : UInt32).toNat + 10 ≤ (64 : UInt32).toNat by decide)

end QiranFirmware.Ccsds
