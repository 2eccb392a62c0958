import QiranFirmware.Comm.CcsdsRoute
import QiranFirmware.Machine.Succession

/-! # Gaps in the sequence counts received

The packets of a class that pass the checks of length, checksum and routing make up a sequence of
their own, whatever arrives between them. A gap is counted and reported where two neighbours of
such a sequence have counts that do not follow each other.
-/
namespace QiranFirmware

instance : Fintype CcsdsClass where
  elems := ⟨CcsdsClass.all, by decide⟩
  complete c := by cases c <;> decide

namespace Ccsds

open Machine Process

instance decidableWellFormed (packet : Buf) (len : UInt32) : Decidable (WellFormed packet len) :=
  decidable_of_iff (10 ≤ len.toNat ∧ (packet.getU16 4).toNat = len.toNat - 7 ∧
    packet.getU32 (len - 4) = Crc.crc32 (packet.bytes 6 (len - 10)))
    ⟨fun h => ⟨h.1, h.2.1, h.2.2⟩, fun h => ⟨h.long, h.length, h.checksum⟩⟩

def nextCount (n : ℕ) : ℕ := (n + 1) % 2 ^ 14

/-- The class and the count of a packet that passes the checks of length, checksum and routing. -/
def passing (apid : CcsdsClass → UInt16) (packet : Buf) (len : UInt32) : Option (CcsdsClass × ℕ) :=
  if WellFormed packet len then
    (classOf { apid } (identifier packet)).map fun cls => (cls, (headerIn packet).seqCount.toNat)
  else none

def arrival (apid : CcsdsClass → UInt16) : PacketOp → Option (CcsdsClass × ℕ)
  | .receive packet len _ _ => passing apid packet len
  | .setApid .. | .register _ | .build .. => none

def arrivals (apid : CcsdsClass → UInt16) (ops : List PacketOp) : List (CcsdsClass × ℕ) :=
  ops.filterMap (arrival apid)

def Settled : PacketOp → Prop
  | .setApid .. => False
  | .register _ | .build .. | .receive .. => True

instance decidableSettled : ∀ op, Decidable (Settled op)
  | .setApid .. => .isFalse id
  | .register _ | .build .. | .receive .. => .isTrue trivial

structure Tracks (apid : CcsdsClass → UInt16) (xs : List (CcsdsClass × ℕ)) (p : Ccsds) : Prop where
  apid : p.apid = apid
  unseen : ∀ c, (ofKey c xs).getLast? = none → p.rxSeen c = false
  expects : ∀ c, ∀ n ∈ (ofKey c xs).getLast?, p.rxSeen c = true ∧ (p.rxExpect c).toNat = nextCount n
  gaps : p.gaps = UInt32.ofNat (∑ c, breaks nextCount (ofKey c xs))

section Step
variable {apid : CcsdsClass → UInt16} {xs : List (CcsdsClass × ℕ)} {p : Ccsds} {packet : Buf}
  {len : UInt32} {run : ConsumerRun} {v : Svc}

theorem Tracks.classOf_eq (h : Tracks apid xs p) (id : UInt16) :
    p.classOf id = classOf { apid } id := by
  rw [classOf, h.apid, classOf]

/-- The code's test for a gap. -/
theorem Tracks.gap_iff (h : Tracks apid xs p) (c : CcsdsClass) (count : UInt16) :
    (p.rxSeen c && count != p.rxExpect c) = true ↔ ¬ Follows nextCount (ofKey c xs) count.toNat := by
  cases hlast : (ofKey c xs).getLast? with
  | none => simp [Follows, hlast, h.unseen c hlast]
  | some n =>
    obtain ⟨hseen, hexpect⟩ := h.expects c n hlast
    simp [Follows, hlast, hseen, ← hexpect, UInt16.toNat_inj]

theorem toNat_nextCount (count : UInt16) :
    ((count + 1) &&& seqCountMax).toNat = nextCount count.toNat := by
  have hmask : seqCountMax.toNat = 2 ^ 14 - 1 := rfl
  rw [UInt16.toNat_and, hmask, Nat.and_two_pow_sub_one_eq_mod, UInt16.toNat_add, UInt16.toNat_one,
    nextCount]
  omega

theorem passing_eq_some {c : CcsdsClass} {n : ℕ} : passing apid packet len = some (c, n) ↔
    WellFormed packet len ∧ classOf { apid } (identifier packet) = some c ∧
      (headerIn packet).seqCount.toNat = n := by
  unfold passing
  split
  · rename_i hwell
    simp [hwell]
  · rename_i hnot
    simp [hnot]

/-- What does not pass is reported as damaged at most, and nothing is expected otherwise. -/
theorem receive_of_not_passing (h : Tracks apid xs p) (hnone : passing apid packet len = none) :
    Tracks apid xs (receive packet len run p v).2.1 ∧
      ((receive packet len run p v).2.2 = v ∨
        ∃ detail, (receive packet len run p v).2.2 = v.report .packetIntegrity detail) := by
  by_cases hwell : WellFormed packet len
  · rw [passing, if_pos hwell, Option.map_eq_none_iff, ← h.classOf_eq] at hnone
    rw [receive_of_wellFormed hwell]
    have hid : (headerIn packet).apid = identifier packet := rfl
    simp only [route, hid, hnone]
    exact ⟨⟨h.apid, h.unseen, h.expects, h.gaps⟩, .inr ⟨_, rfl⟩⟩
  · obtain ⟨lengthErrors, integrityErrors, hkept, hreport⟩ :=
      @receive_of_not_wellFormed _ _ run p v hwell
    rw [hkept]
    exact ⟨⟨h.apid, h.unseen, h.expects, h.gaps⟩, hreport⟩

/-- What the module does with a packet of a class, but for the counts that do not matter here. -/
theorem receive_routed {c : CcsdsClass} (hwell : WellFormed packet len)
    (hcls : p.classOf (identifier packet) = some c) :
    ∃ unroutable delivered,
      (receive packet len run p v).2.1 = { p with
        gaps := if p.rxSeen c && (headerIn packet).seqCount != p.rxExpect c then p.gaps + 1
          else p.gaps
        rxSeen := Function.update p.rxSeen c true
        rxExpect := Function.update p.rxExpect c (((headerIn packet).seqCount + 1) &&& seqCountMax)
        received := Function.update p.received c (p.received c + 1)
        unroutable, delivered } ∧
      (receive packet len run p v).2.2 =
        (if p.rxSeen c && (headerIn packet).seqCount != p.rxExpect c then v.report .packetSequence
          (((p.rxExpect c).toUInt32 <<< 16) ||| (headerIn packet).seqCount.toUInt32)
        else v).reportAll (if p.consumer c then run.reports else []) := by
  have hid : (headerIn packet).apid = identifier packet := rfl
  rw [receive_of_wellFormed hwell]
  simp only [route, hid, hcls]
  cases p.consumer c with
  | true => exact ⟨_, _, rfl, rfl⟩
  | false => exact ⟨_, _, rfl, rfl⟩

/-- A count that has arrived is the last one of its class, and breaks its sequence or not. -/
theorem Tracks.adopt (h : Tracks apid xs p) {p' : Ccsds} {c : CcsdsClass} {count : UInt16}
    (hapid : p'.apid = p.apid) (hseen : p'.rxSeen = Function.update p.rxSeen c true)
    (hexpect : p'.rxExpect = Function.update p.rxExpect c ((count + 1) &&& seqCountMax))
    (hgaps : p'.gaps = p.gaps + if Follows nextCount (ofKey c xs) count.toNat then 0 else 1) :
    Tracks apid (xs ++ [(c, count.toNat)]) p' := by
  refine ⟨hapid.trans h.apid, ?_, ?_, ?_⟩
  · intro d hnone
    by_cases hd : d = c
    · subst hd
      simp at hnone
    · rw [ofKey_concat_of_ne (Ne.symm hd)] at hnone
      rw [hseen, Function.update_of_ne hd]
      exact h.unseen d hnone
  · intro d m hm
    rw [hseen, hexpect]
    by_cases hd : d = c
    · subst hd
      rw [ofKey_concat_self, List.getLast?_concat] at hm
      obtain rfl := Option.some.inj hm
      rw [Function.update_self, Function.update_self]
      exact ⟨rfl, toNat_nextCount count⟩
    · rw [ofKey_concat_of_ne (Ne.symm hd)] at hm
      rw [Function.update_of_ne hd, Function.update_of_ne hd]
      exact h.expects d m hm
  · rw [hgaps, h.gaps, sum_breaks_concat, UInt32.ofNat_add]
    split
    · rfl
    · rfl

/-- The packet's count is adopted, and it is a gap counted and reported unless it follows the last
one of its class. -/
theorem receive_of_passing (h : Tracks apid xs p) {c : CcsdsClass} {n : ℕ}
    (hsome : passing apid packet len = some (c, n)) :
    Tracks apid (xs ++ [(c, n)]) (receive packet len run p v).2.1 ∧
      (receive packet len run p v).2.2 =
        (if Follows nextCount (ofKey c xs) n then v
        else v.report .packetSequence
          (((p.rxExpect c).toUInt32 <<< 16) ||| (headerIn packet).seqCount.toUInt32)).reportAll
            (if p.consumer c then run.reports else []) := by
  obtain ⟨hwell, hcls, rfl⟩ := passing_eq_some.mp hsome
  rw [← h.classOf_eq] at hcls
  have hgap := h.gap_iff c (headerIn packet).seqCount
  obtain ⟨unroutable, delivered, hstate, hreports⟩ := @receive_routed p packet len run v c hwell hcls
  rw [hstate, hreports]
  by_cases hfollows : Follows nextCount (ofKey c xs) (headerIn packet).seqCount.toNat
  · have hnone := fun hyes => hgap.mp hyes hfollows
    rw [if_neg hnone, if_neg hnone, if_pos hfollows]
    refine ⟨h.adopt rfl rfl rfl ?_, rfl⟩
    rw [if_pos hfollows, UInt32.add_zero]
  · have hsome := hgap.mpr hfollows
    rw [if_pos hsome, if_pos hsome, if_neg hfollows]
    refine ⟨h.adopt rfl rfl rfl ?_, rfl⟩
    rw [if_neg hfollows]

theorem tracks_step (h : Tracks apid xs p) (op : PacketOp) (hop : Settled op) :
    Tracks apid (xs ++ (arrival apid op).toList) (packetStep p op) := by
  cases op with
  | setApid c id => exact absurd hop not_false
  | register c =>
    rw [arrival, Option.toList_none, List.append_nil, packetStep, register]
    split
    · exact h
    · exact ⟨h.apid, h.unseen, h.expects, h.gaps⟩
  | build cls app appLen buf len =>
    rw [arrival, Option.toList_none, List.append_nil, packetStep, build]
    dsimp only
    split
    · exact h
    split
    · exact h
    split
    · exact h
    · exact ⟨h.apid, h.unseen, h.expects, h.gaps⟩
  | receive packet len run v =>
    rw [arrival, packetStep]
    cases hpassing : passing apid packet len with
    | none =>
      rw [Option.toList_none, List.append_nil]
      exact (receive_of_not_passing h hpassing).1
    | some x => exact (receive_of_passing h hpassing).1

end Step

theorem tracks_run (apid : CcsdsClass → UInt16) (consumer : CcsdsClass → Bool) (ops : List PacketOp)
    (h : ∀ op ∈ ops, Settled op) :
    Tracks apid (arrivals apid ops) (run packetStep { apid, consumer } ops) := by
  induction ops using List.reverseRecOn with
  | nil => exact ⟨rfl, fun _ _ => rfl, by simp [arrivals], by simp [arrivals]⟩
  | append_singleton ops op ih =>
    have hpre := ih fun op' hop' => h op' (List.mem_append_left _ hop')
    have hnext := tracks_step hpre op (h op (by simp))
    rw [run_append, arrivals, List.filterMap_append]
    cases harrival : arrival apid op with
    | none => simpa [harrival, arrivals] using hnext
    | some x => simpa [harrival, arrivals] using hnext

/-- As long as the identifiers stay assigned as they are, the gaps counted are the neighbours in the
sequences of the classes that do not follow each other. A packet that passes is reported once as a
gap if it does not follow the last one of its class, and not otherwise; what does not pass is never
reported as one. -/
theorem gaps_counted (apid : CcsdsClass → UInt16) (consumer : CcsdsClass → Bool)
    (ops : List PacketOp) (h : ∀ op ∈ ops, Settled op) :
    let p := run packetStep { apid, consumer } ops
    p.gaps = UInt32.ofNat (∑ c, breaks nextCount (ofKey c (arrivals apid ops))) ∧
    ∀ packet len answer v, match passing apid packet len with
      | none => (receive packet len answer p v).2.2 = v ∨
          ∃ detail, (receive packet len answer p v).2.2 = v.report .packetIntegrity detail
      | some (c, n) => (receive packet len answer p v).2.2 =
          (if Follows nextCount (ofKey c (arrivals apid ops)) n then v
          else v.report .packetSequence
            (((p.rxExpect c).toUInt32 <<< 16) ||| (headerIn packet).seqCount.toUInt32)).reportAll
              (if p.consumer c then answer.reports else []) := by
  have htracks := tracks_run apid consumer ops h
  refine ⟨htracks.gaps, ?_⟩
  intro packet len answer v
  cases hpassing : passing apid packet len with
  | none => exact (receive_of_not_passing htracks hpassing).2
  | some x => exact (receive_of_passing htracks hpassing).2

def emptyPacket (count : UInt8) : PacketOp :=
  .receive (Buf.ofList [0x00, 0x20, 0xC0, count, 0x00, 0x03, 0x00, 0x00, 0x00, 0x00]) 10 {} {}

theorem gaps_counted_skipped :
    (run packetStep { apid := CcsdsClass.defaultApid, consumer := fun _ => false }
      [emptyPacket 5, emptyPacket 6, emptyPacket 8, emptyPacket 9]).gaps = 1 :=
  (gaps_counted CcsdsClass.defaultApid (fun _ => false)
    [emptyPacket 5, emptyPacket 6, emptyPacket 8, emptyPacket 9] (by decide)).1.trans
      (by decide +kernel)

end Ccsds

end QiranFirmware
