import QiranFirmware.Comm.Output
import QiranFirmware.Machine.Runs
import QiranFirmware.Machine.Trace

/-! # Sequence counts of the packets that leave

Every packet the link is offered carries the number of packets of its class offered before it,
accepted or refused. So what the far end sees is without gaps exactly when the refused ones are
a whole number of turns of the fourteen-bit count.
-/
namespace QiranFirmware.Output

open Machine

variable {β : Type}

structure Outbound (β : Type) where
  queue : Output β := {}
  ccsds : Ccsds := {}
  v : Svc := {}
  sends : List (OutputSend β) := []

inductive OutboundOp (β : Type)
  | submit (cls : CcsdsClass) (data : β) (len : UInt32)
  | service (link : SpwLink) (mem : β → Buf) (answers : ℕ → Status)

def outboundStep (s : Outbound β) : OutboundOp β → Outbound β
  | .submit cls data len =>
    let (_, queue, v) := submit cls data len s.queue s.v
    { s with queue, v }
  | .service link mem answers =>
    let p := service mem answers { queue := s.queue, ccsds := s.ccsds, link, v := s.v }
    { queue := p.queue, ccsds := p.ccsds, v := p.v, sends := s.sends ++ p.sends }

def Sized : OutboundOp β → Prop
  | .submit _ _ len => len.toNat < 2 ^ 32 - 3
  | .service .. => True

def count (x : OutputSend β) : Option UInt16 :=
  (Ccsds.parseHeader x.packet x.written).map (·.seqCount)

def ofClass (c : CcsdsClass) (x : OutputSend β) : Bool := x.item.cls == c
def accepted (c : CcsdsClass) (x : OutputSend β) : Bool := x.item.cls == c && x.status == .ok
def refused (c : CcsdsClass) (x : OutputSend β) : Bool := x.item.cls == c && x.status != .ok

def toCount (n : ℕ) : UInt16 := UInt16.ofNat (n % 2 ^ 14)

theorem toNat_toCount (n : ℕ) : (toCount n).toNat = n % 2 ^ 14 := by
  rw [toCount, UInt16.toNat_ofNat']
  omega

theorem toCount_le (n : ℕ) : toCount n ≤ Ccsds.seqCountMax := by
  have hmax : Ccsds.seqCountMax.toNat = 2 ^ 14 - 1 := rfl
  rw [UInt16.le_iff_toNat_le, toNat_toCount, hmax]
  omega

theorem toCount_succ (n : ℕ) : (toCount n + 1) &&& Ccsds.seqCountMax = toCount (n + 1) := by
  have hmax : Ccsds.seqCountMax.toNat = 2 ^ 14 - 1 := rfl
  rw [← UInt16.toNat_inj, UInt16.toNat_and, hmax, Nat.and_two_pow_sub_one_eq_mod, UInt16.toNat_add,
    toNat_toCount, toNat_toCount, UInt16.toNat_one]
  omega

structure Numbered (q : Output β) (p : Ccsds) (sends : List (OutputSend β)) : Prop where
  sized : ∀ i item, q.slot i = some item → item.len.toNat < 2 ^ 32 - 3
  apid : ∀ c, p.apid c ≤ Ccsds.apidMax
  next : ∀ c, p.txCount c = toCount (sends.countP (ofClass c))
  each : EachAfter (fun before x =>
    count x = some (toCount (before.countP (ofClass x.item.cls)))) sends

theorem Numbered.fits {q : Output β} {p : Ccsds} {sends : List (OutputSend β)}
    (h : Numbered q p sends) : p.Fits := by
  intro c
  refine ⟨h.apid c, ?_⟩
  rw [h.next c]
  exact toCount_le _

theorem numbered_turn {old : List (OutputSend β)} {mem : β → Buf} {answer : Status} {s : Pass β}
    (h : Numbered s.queue s.ccsds (old ++ s.sends)) :
    Numbered (turn mem answer s).2.queue (turn mem answer s).2.ccsds
      (old ++ (turn mem answer s).2.sends) := by
  rcases turn_cases mem answer s with
    hstop | ⟨i, item, st, packet, written, ccsds, -, -, hitem, hbuild, hcases⟩
  · rw [hstop]
    exact h
  have hlen := h.sized i item hitem
  rcases Ccsds.build_cases item.cls (mem item.data) s.queue.packet packetBytes h.fits hlen with
    ⟨st', hne, hfail⟩ | ⟨buf', total, header, hok, hparse, hseq⟩
  · obtain ⟨rfl, -, -, rfl⟩ := by simpa only [Prod.mk.injEq] using hbuild.symm.trans hfail
    rcases hcases with ⟨-, -, hslot, hccsds, hsends⟩ | ⟨hst, -⟩
    · rw [hccsds, hsends]
      exact ⟨forall_slot_update h.sized (by simp) hslot, h.apid, h.next, h.each⟩
    · exact absurd hst hne
  · obtain ⟨rfl, rfl, rfl, rfl⟩ := by simpa only [Prod.mk.injEq] using hbuild.symm.trans hok
    rcases hcases with ⟨hst, -⟩ | ⟨-, status, link, v, -, -, hslot, hccsds, hsends⟩
    · exact absurd rfl hst
    rw [hccsds, hsends, ← List.append_assoc]
    refine ⟨?_, h.apid, ?_, eachAfter_concat.mpr ⟨h.each, ?_⟩⟩
    · split at hslot
      · exact forall_slot_update h.sized (by simp) hslot
      · rw [hslot]
        exact h.sized
    · intro c
      rw [List.countP_append, List.countP_singleton]
      by_cases hc : c = item.cls
      · subst hc
        simp only [Function.update_self, h.next, toCount_succ, ofClass, beq_self_eq_true, ↓reduceIte]
      · simp [Function.update_of_ne hc, h.next, ofClass, Ne.symm hc]
    · rw [count, hparse, Option.map_some, hseq, h.next]

theorem numbered_service {old : List (OutputSend β)} {mem : β → Buf} {answers : ℕ → Status}
    {s : Pass β} (h : Numbered s.queue s.ccsds (old ++ s.sends)) :
    Numbered (service mem answers s).queue (service mem answers s).ccsds
      (old ++ (service mem answers s).sends) :=
  @loop_invariant _ mem answers (fun s => Numbered s.queue s.ccsds (old ++ s.sends))
    (fun _ hs => numbered_turn hs) (depth + 1) s h

theorem numbered_init : Numbered ({} : Output β) {} [] where
  sized _ _ h := absurd h (by simp)
  apid c := (Ccsds.fits_init c).1
  next _ := rfl
  each := eachAfter_nil _

theorem numbered_step {s : Outbound β} {op : OutboundOp β} (h : Numbered s.queue s.ccsds s.sends)
    (hop : Sized op) :
    Numbered (outboundStep s op).queue (outboundStep s op).ccsds (outboundStep s op).sends := by
  cases op with
  | submit cls data len =>
    refine ⟨?_, h.apid, h.next, h.each⟩
    simp only [outboundStep]
    rcases submit_cases cls data len s.queue s.v with ⟨-, hslot⟩ | ⟨-, -, j, -, -, hslot⟩
    · rw [hslot]
      exact h.sized
    · refine forall_slot_update h.sized ?_ hslot
      intro item hitem
      obtain rfl := Option.some.inj hitem
      exact hop
  | service link mem answers =>
    refine numbered_service ?_
    simpa using h

def Gapless (sends : List (OutputSend β)) : Prop :=
  EachAfter (fun before x => x.status = .ok →
    count x = some (toCount (before.countP (accepted x.item.cls)))) sends

/-- Before every packet that the link accepts, it has refused a whole number of turns of the count
of the packet's class. -/
def WholeTurns (sends : List (OutputSend β)) : Prop :=
  EachAfter (fun before x => x.status = .ok → 2 ^ 14 ∣ before.countP (refused x.item.cls)) sends

theorem countP_ofClass (c : CcsdsClass) (sends : List (OutputSend β)) :
    sends.countP (ofClass c) = sends.countP (accepted c) + sends.countP (refused c) := by
  induction sends with
  | nil => rfl
  | cons x sends ih =>
    simp only [List.countP_cons, ih, ofClass, accepted, refused]
    by_cases hc : x.item.cls = c
    · by_cases hs : x.status = .ok
      · simp [hc, hs]
        omega
      · simp [hc, hs]
        omega
    · simp [hc]

/-- The accepted packets are numbered without a gap exactly when the refused ones are a whole
number of turns. -/
theorem gapless_iff {ops : List (OutboundOp β)} (h : Along outboundStep (fun _ op => Sized op) {} ops) :
    Gapless (run outboundStep {} ops).sends ↔ WholeTurns (run outboundStep {} ops).sends := by
  have hnumbered := @run_invariant _ _ outboundStep (fun (_ : Outbound β) op => Sized op)
    (fun s => Numbered s.queue s.ccsds s.sends) (fun _ _ hs hop => numbered_step hs hop) {} ops
    numbered_init h
  have heach (before : List (OutputSend β)) (x : OutputSend β) :
      count x = some (toCount (before.countP (ofClass x.item.cls))) →
      (count x = some (toCount (before.countP (accepted x.item.cls))) ↔
        2 ^ 14 ∣ before.countP (refused x.item.cls)) := by
    intro hcount
    rw [hcount, Option.some.injEq, ← UInt16.toNat_inj, toNat_toCount, toNat_toCount, countP_ofClass]
    omega
  constructor
  · intro hgap before x after heq hok
    exact (heach before x (hnumbered.each before x after heq)).mp (hgap before x after heq hok)
  · intro hwhole before x after heq hok
    exact (heach before x (hnumbered.each before x after heq)).mpr (hwhole before x after heq hok)

def submitStatus : OutboundOp Unit := .submit .health () 8

def serviceAll (answer : Status) : OutboundOp Unit :=
  .service { opsSet := true, state := .run } (fun _ _ => 0x44) fun _ => answer

theorem gapless_iff_accepted :
    Gapless (run outboundStep {} [submitStatus, serviceAll .ok]).sends ↔
      WholeTurns (run outboundStep {} [submitStatus, serviceAll .ok]).sends :=
  gapless_iff ⟨show (8 : UInt32).toNat < 2 ^ 32 - 3 by decide, trivial, trivial⟩

/-- A packet that the link refuses once leaves with count 1, and no packet with count 0 does. -/
theorem refused_send_skips_count :
    ¬ Gapless (run outboundStep {} [submitStatus, serviceAll .errHardware, serviceAll .ok]).sends := by
  have hsends : (run outboundStep {} [submitStatus, serviceAll .errHardware, serviceAll .ok]).sends.map
      (fun x => (x.item.cls, x.status, count x)) =
      [(.health, .errHardware, some 0), (.health, .ok, some 1)] := by decide +kernel
  intro h
  obtain ⟨x, rest, hxs, hx, hrest⟩ := List.map_eq_cons_iff.mp hsends
  obtain ⟨y, tail, hys, hy, -⟩ := List.map_eq_cons_iff.mp hrest
  obtain ⟨-, hy⟩ := Prod.mk.inj hy
  obtain ⟨hok, hcount⟩ := Prod.mk.inj hy
  obtain ⟨-, hx⟩ := Prod.mk.inj hx
  have hgap := h [x] y tail (by rw [hxs, hys]; rfl) hok
  have hnone : [x].countP (accepted y.item.cls) = 0 := by
    simp [accepted, (Prod.mk.inj hx).1]
  rw [hcount, hnone, Option.some.injEq] at hgap
  exact absurd hgap (by decide)

end QiranFirmware.Output
