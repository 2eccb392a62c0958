import QiranFirmware.Comm.OutputPartition
import QiranFirmware.Comm.SequenceGaps

/-! # What the far end receives

The packets that the link accepts come to a packet module at its far end, some of them lost on the way.
Those that arrive are handed on with the data that stood in the buffers when they were sent, which is what
was submitted where the buffers are left alone. The gaps counted there are told from the numbers of the
packets between, refused or lost.
-/
namespace QiranFirmware.Output

open Machine

variable {β : Type}

/-- A packet as the link was offered it, with the data that stood in the item's buffer then, and the
number of packets of its class that had been offered before. -/
structure Offer (β : Type) where
  send : OutputSend β
  app : List UInt8
  number : ℕ

namespace Offer

def cls (x : Offer β) : CcsdsClass := x.send.item.cls

def accepted (x : Offer β) : Bool := x.send.status == .ok

def place (x : Offer β) : CcsdsClass × ℕ := (x.cls, x.number)

end Offer

/-- The outbound side, the items of the submissions accepted, and all that the link has been offered. -/
structure Wire (β : Type) where
  out : Outbound β := {}
  taken : List (OutputItem β) := []
  offers : List (Offer β) := []

def offer (mem : β → Buf) (offers : List (Offer β)) (x : OutputSend β) : List (Offer β) :=
  offers ++ [⟨x, (mem x.item.data).bytes 0 x.item.len, offers.countP (·.cls == x.item.cls)⟩]

def wireStep (s : Wire β) (op : OutboundOp β) : Wire β where
  out := outboundStep s.out op
  taken :=
    match op with
    | .submit cls data len =>
      if (submit cls data len s.out.queue s.out.v).1 = .ok then s.taken ++ [⟨data, len, cls⟩] else s.taken
    | .service .. => s.taken
  offers :=
    match op with
    | .submit .. => s.offers
    | .service link mem answers =>
      let p := service mem answers { queue := s.out.queue, ccsds := s.out.ccsds, link, v := s.out.v }
      p.sends.foldl (offer mem) s.offers

def Wire.start (p : Ccsds) : Wire β := { out := { ccsds := p } }

def arrive (far : Ccsds) (x : Offer β) : Ccsds := (far.receive x.send.packet x.send.written {} {}).2.1

def farEnd (apid : CcsdsClass → UInt16) (arrived : List (Offer β)) : Ccsds :=
  arrived.foldl arrive { apid, consumer := fun _ => true }

def numbered (apid : CcsdsClass → UInt16) (n : ℕ) : Ccsds := { apid, txCount := fun _ => toCount n }

structure Offer.Good (apid : CcsdsClass → UInt16) (x : Offer β) : Prop where
  short : x.app.length ≤ 65532
  carries : Ccsds.Carries x.cls x.app (numbered apid x.number) x.send.packet x.send.written

structure Offering (apid : CcsdsClass → UInt16) (q : Output β) (p : Ccsds) (offers : List (Offer β)) :
    Prop where
  fitting : ∀ i item, q.slot i = some item → Fitting item
  assignment : p.apid = apid
  next : ∀ c, p.txCount c = toCount (offers.countP (·.cls == c))
  good : ∀ x ∈ offers, x.Good apid
  places : ∀ c, ofKey c (offers.map Offer.place) = List.range (offers.countP (·.cls == c))

section Run
variable {apid : CcsdsClass → UInt16}

theorem Offering.fits {q : Output β} {p : Ccsds} {offers : List (Offer β)}
    (h : Offering apid q p offers) (hapid : ∀ c, apid c ≤ Ccsds.apidMax) : p.Fits := by
  intro c
  rw [h.assignment, h.next]
  exact ⟨hapid c, toCount_le _⟩

theorem places_offer {offers : List (Offer β)} (c : CcsdsClass)
    (h : ofKey c (offers.map Offer.place) = List.range (offers.countP (·.cls == c)))
    (mem : β → Buf) (x : OutputSend β) :
    ofKey c ((offer mem offers x).map Offer.place) =
      List.range ((offer mem offers x).countP (·.cls == c)) := by
  rw [offer, List.map_append, List.countP_append, List.map_singleton, List.countP_singleton]
  by_cases hc : x.item.cls = c
  · subst hc
    rw [Offer.place, Offer.cls, ofKey_concat_self, h, beq_self_eq_true, if_pos rfl]
    exact List.range_succ.symm
  · rw [Offer.place, Offer.cls, ofKey_concat_of_ne hc, h, if_neg (by simpa using hc), Nat.add_zero]

/-- A packet that has been built is offered, with the count that its class has reached. -/
theorem Offering.offer {q : Output β} {p : Ccsds} {offers : List (Offer β)}
    (h : Offering apid q p offers) (hapid : ∀ c, apid c ≤ Ccsds.apidMax) {mem : β → Buf}
    {item : OutputItem β} (hfit : Fitting item) {st status : Status} {packet : Buf} {written : UInt32}
    {ccsds : Ccsds} {buf : Buf}
    (hbuild : Ccsds.build item.cls (mem item.data) item.len buf packetBytes p =
      (st, packet, written, ccsds)) :
    Offering apid q ccsds (Output.offer mem offers ⟨item, packet, written, status⟩) := by
  have hlength : ((mem item.data).bytes 0 item.len).length = item.len.toNat := Buf.length_bytes ..
  have hpacket : packetBytes.toNat = 1024 := rfl
  have hroom : ((mem item.data).bytes 0 item.len).length + 10 ≤ packetBytes.toNat := by
    rw [hlength]
    exact hfit
  obtain ⟨packet', written', hok, hcarries⟩ := @Ccsds.carries_build item.cls
    ((mem item.data).bytes 0 item.len) buf packetBytes p (h.fits hapid) (by omega) hroom
  rw [hlength, UInt32.ofNat_toNat, ← Ccsds.build_congr, hbuild] at hok
  obtain ⟨rfl, rfl, rfl, rfl⟩ := by simpa only [Prod.mk.injEq] using hok
  refine ⟨h.fitting, h.assignment, ?_, ?_, fun c => places_offer c (h.places c) mem _⟩
  · intro c
    rw [Output.offer, List.countP_append, List.countP_singleton]
    by_cases hc : c = item.cls
    · subst hc
      simp only [Ccsds.advance, Function.update_self, h.next, toCount_succ, Offer.cls,
        beq_self_eq_true, ↓reduceIte]
    · simp [Ccsds.advance, Function.update_of_ne hc, h.next, Offer.cls, Ne.symm hc]
  · intro x hx
    rw [Output.offer] at hx
    rcases List.mem_append.mp hx with hx | hx
    · exact h.good x hx
    · rw [List.mem_singleton.mp hx]
      obtain ⟨hlen, ⟨header, hparse, hid, hcount, hfield⟩, hdata, hcrc⟩ := hcarries
      have hshort : ((mem item.data).bytes 0 item.len).length ≤ 65532 := by omega
      refine ⟨hshort, hlen, ⟨header, hparse, ?_, ?_, hfield⟩, hdata, hcrc⟩
      · rw [hid, h.assignment]
        rfl
      · rw [hcount, h.next]
        rfl

theorem offering_turn {mem : β → Buf} {answer : Status} {s : Pass β} {old : List (Offer β)}
    (hapid : ∀ c, apid c ≤ Ccsds.apidMax)
    (h : Offering apid s.queue s.ccsds (s.sends.foldl (offer mem) old)) :
    Offering apid (turn mem answer s).2.queue (turn mem answer s).2.ccsds
      ((turn mem answer s).2.sends.foldl (offer mem) old) := by
  rcases turn_cases mem answer s with
    hstop | ⟨i, item, st, packet, written, ccsds, -, -, hitem, hbuild, hcases⟩
  · rw [hstop]
    exact h
  have hfit := h.fitting i item hitem
  have hok := (@Ccsds.build_of_fits item.cls (mem item.data) _ s.queue.packet packetBytes _
    (h.fits hapid) (by decide) hfit).1
  rw [hbuild] at hok
  rcases hcases with ⟨hst, -⟩ | ⟨-, status, link, v, -, -, hslot, hccsds, hsends⟩
  · exact absurd hok hst
  have hnext := @Offering.offer _ apid _ _ _ h hapid mem item hfit st status packet written ccsds
    s.queue.packet hbuild
  rw [hccsds, hsends, List.foldl_append]
  refine ⟨?_, hnext.assignment, hnext.next, hnext.good, hnext.places⟩
  split at hslot
  · exact forall_slot_update h.fitting (by simp) hslot
  · rw [hslot]
    exact h.fitting

theorem fitting_of_submit {cls : CcsdsClass} {data : β} {len : UInt32} {q : Output β} {v : Svc}
    (hok : (submit cls data len q v).1 = .ok) (hsmall : len.toNat < 2 ^ 31) :
    Fitting (⟨data, len, cls⟩ : OutputItem β) := by
  unfold submit at hok
  split at hok
  · cases hok
  split at hok
  · cases hok
  · rename_i hfits
    exact fitting_of_small hsmall hfits

theorem offering_step {s : Wire β} {op : OutboundOp β} (hapid : ∀ c, apid c ≤ Ccsds.apidMax)
    (h : Offering apid s.out.queue s.out.ccsds s.offers) (hop : Small op) :
    Offering apid (wireStep s op).out.queue (wireStep s op).out.ccsds (wireStep s op).offers := by
  cases op with
  | submit cls data len =>
    refine ⟨?_, h.assignment, h.next, h.good, h.places⟩
    simp only [wireStep, outboundStep]
    rcases submit_cases cls data len s.out.queue s.out.v with ⟨-, hslot⟩ | ⟨hok, -, j, -, -, hslot⟩
    · rw [hslot]
      exact h.fitting
    · refine forall_slot_update h.fitting ?_ hslot
      intro item hitem
      obtain rfl := Option.some.inj hitem
      exact fitting_of_submit hok hop
  | service link mem answers =>
    exact @loop_invariant _ mem answers
      (fun p => Offering apid p.queue p.ccsds (p.sends.foldl (offer mem) s.offers))
      (fun _ hs => offering_turn hapid hs) (depth + 1) _ h

theorem offering_run {p : Ccsds} (hp : p.Assigned) (hstart : ∀ c, p.txCount c = 0)
    {ops : List (OutboundOp β)} (hsmall : ∀ op ∈ ops, Small op) :
    Offering p.apid (run wireStep (Wire.start p) ops).out.queue
      (run wireStep (Wire.start p) ops).out.ccsds (run wireStep (Wire.start p) ops).offers := by
  have hapid (c : CcsdsClass) : p.apid c ≤ Ccsds.apidMax := (hp.fits c).1
  refine @run_invariant _ _ wireStep (fun _ op => Small op)
    (fun s => Offering p.apid s.out.queue s.out.ccsds s.offers)
    (fun _ _ hs hop => offering_step hapid hs hop) _ ops ?_ (along_of_forall hsmall)
  exact ⟨by simp [Wire.start], rfl, hstart, by simp [Wire.start], fun _ => rfl⟩

/-- The items offered are those of the sends, and what has been taken is what the link has accepted and what
is queued. -/
structure Stocked (s : Wire β) : Prop where
  sends : s.offers.map Offer.send = s.out.sends
  settled : Settled s.taken s.out.sends s.out.queue s.out.ccsds

theorem sends_offers (mem : β → Buf) (sends : List (OutputSend β)) (offers : List (Offer β)) :
    (sends.foldl (offer mem) offers).map Offer.send = offers.map Offer.send ++ sends := by
  induction sends generalizing offers with
  | nil => exact (List.append_nil _).symm
  | cons x sends ih =>
    rw [List.foldl_cons, ih, offer, List.map_append, List.append_assoc]
    rfl

theorem stocked_step {s : Wire β} (h : Stocked s) {op : OutboundOp β} (hop : Small op) :
    Stocked (wireStep s op) := by
  cases op with
  | submit cls data len => exact ⟨h.sends, settled_submit h.settled cls data s.out.v hop⟩
  | service link mem answers =>
    obtain ⟨pass, hpass⟩ : ∃ pass : Pass β, pass =
        { queue := s.out.queue, ccsds := s.out.ccsds, link, v := s.out.v } := ⟨_, rfl⟩
    have hsettled : Settled s.taken (s.out.sends ++ pass.sends) pass.queue pass.ccsds := by
      rw [hpass, List.append_nil]
      exact h.settled
    have hserved := @settled_service _ _ _ mem answers _ hsettled
    rw [hpass] at hserved
    refine ⟨?_, hserved⟩
    simp only [wireStep, outboundStep]
    rw [sends_offers, h.sends]

theorem stocked_run {p : Ccsds} (hp : p.Assigned) {ops : List (OutboundOp β)}
    (hsmall : ∀ op ∈ ops, Small op) : Stocked (run wireStep (Wire.start p) ops) := by
  refine @run_invariant _ _ wireStep (fun _ op => Small op) Stocked
    (fun _ _ hs hop => stocked_step hs hop) _ ops ?_ (along_of_forall hsmall)
  exact ⟨rfl, hp.fits, by simp [Wire.start], .refl _, rfl, rfl, rfl, rfl⟩

def Unchanged (m : β → Buf) : OutboundOp β → Prop
  | .submit .. => True
  | .service _ mem _ => mem = m

theorem app_run (m : β → Buf) (s : Wire β) {ops : List (OutboundOp β)} (hops : ∀ op ∈ ops, Unchanged m op)
    (hs : ∀ x ∈ s.offers, x.app = (m x.send.item.data).bytes 0 x.send.item.len) :
    ∀ x ∈ (run wireStep s ops).offers, x.app = (m x.send.item.data).bytes 0 x.send.item.len := by
  refine @run_invariant _ _ wireStep (fun _ op => Unchanged m op)
    (fun s => ∀ x ∈ s.offers, x.app = (m x.send.item.data).bytes 0 x.send.item.len) ?_ s ops hs
    (along_of_forall hops)
  intro s op hs hop
  cases op with
  | submit cls data len => exact hs
  | service link mem answers =>
    obtain rfl : mem = m := hop
    simp only [wireStep]
    generalize (service mem answers { queue := s.out.queue, ccsds := s.out.ccsds, link, v := s.out.v }).sends = sends
    generalize s.offers = offers at hs
    induction sends generalizing offers with
    | nil => exact hs
    | cons y sends ih =>
      refine ih (offer mem offers y) fun x hx => ?_
      rcases List.mem_append.mp hx with hx | hx
      · exact hs x hx
      · rw [List.mem_singleton.mp hx]

end Run

section Arrive
variable {apid : CcsdsClass → UInt16} {far : Ccsds} {x : Offer β} {arrived : List (Offer β)}

def counts (arrived : List (Offer β)) : List (CcsdsClass × ℕ) :=
  arrived.map fun x => (x.cls, x.number % 2 ^ 14)

/-- What has arrived has been handed on, and nothing has been found wrong with it but the gaps. -/
structure Receiving (apid : CcsdsClass → UInt16) (arrived : List (Offer β)) (far : Ccsds) : Prop where
  tracks : Ccsds.Tracks apid (counts arrived) far
  consumer : ∀ c, far.consumer c = true
  handed : far.delivered.map (fun d => (d.1, d.2.2)) = arrived.map fun x => (x.cls, x.app)
  lengths : far.lengthErrors = 0
  checksums : far.integrityErrors = 0
  routes : far.unroutable = 0

theorem arrive_eq (hx : x.Good apid) (hroute : far.classOf (apid x.cls) = some x.cls)
    (hconsumer : far.consumer x.cls = true) : ∃ header, arrive far x = { far with
      gaps := if far.rxSeen x.cls && toCount x.number != far.rxExpect x.cls then far.gaps + 1
        else far.gaps
      rxSeen := Function.update far.rxSeen x.cls true
      rxExpect := Function.update far.rxExpect x.cls
        ((toCount x.number + 1) &&& Ccsds.seqCountMax)
      received := Function.update far.received x.cls (far.received x.cls + 1)
      delivered := far.delivered ++ [(x.cls, header, x.app)] } := by
  obtain ⟨hshort, hlength, ⟨header, hparse, hid, hcount, hfieldLen⟩, hdata, hcrc⟩ := hx
  have hfield : (header.dataLength.toUInt32 + 1).toNat = x.app.length + 4 := by
    rw [UInt32.toNat_add, UInt16.toNat_toUInt32, hfieldLen, UInt32.toNat_one]
    omega
  have happLen : header.dataLength.toUInt32 + 1 - Ccsds.integrityBytes =
      UInt32.ofNat x.app.length := by
    rw [← UInt32.toNat_inj, UInt32.toNat_sub, hfield, Ccsds.toNat_integrityBytes, UInt32.toNat_ofNat']
    omega
  have htotal : ¬ (Ccsds.primaryHeaderBytes + (header.dataLength.toUInt32 + 1) ≠ x.send.written ∨
      header.dataLength.toUInt32 + 1 < Ccsds.integrityBytes) := by
    rw [ne_eq, ← UInt32.toNat_inj, UInt32.lt_iff_toNat_lt, UInt32.toNat_add, hfield, hlength,
      Ccsds.toNat_primaryHeaderBytes, Ccsds.toNat_integrityBytes]
    omega
  have hid' : header.apid = apid x.cls := hid
  have hcount' : header.seqCount = toCount x.number := hcount
  refine ⟨header, ?_⟩
  unfold arrive Ccsds.receive
  simp only [hparse, htotal, ↓reduceIte, happLen, hdata, hcrc, ne_eq, not_true_eq_false, hid', hroute,
    hconsumer, hcount', Bool.not_true, Bool.false_eq_true]

theorem receiving_arrive (h : Receiving apid arrived far) (hx : x.Good apid)
    (hroute : far.classOf (apid x.cls) = some x.cls) :
    Receiving apid (arrived ++ [x]) (arrive far x) := by
  obtain ⟨header, heq⟩ := arrive_eq hx hroute (h.consumer _)
  have hgap := h.tracks.gap_iff x.cls (toCount x.number)
  have hcounts : counts (arrived ++ [x]) = counts arrived ++ [(x.cls, (toCount x.number).toNat)] := by
    rw [counts, List.map_append, toNat_toCount]
    rfl
  rw [heq]
  refine ⟨?_, h.consumer, ?_, h.lengths, h.checksums, h.routes⟩
  · rw [hcounts]
    refine h.tracks.adopt rfl rfl rfl ?_
    by_cases hfollows : Follows Ccsds.nextCount (ofKey x.cls (counts arrived)) (toCount x.number).toNat
    · rw [if_pos hfollows, if_neg fun hyes => hgap.mp hyes hfollows]
      exact (UInt32.add_zero _).symm
    · rw [if_neg hfollows, if_pos (hgap.mpr hfollows)]
  · rw [List.map_append, h.handed, List.map_append]
    rfl

theorem receiving_farEnd (hp : Ccsds.Assigned { apid }) (hgood : ∀ x ∈ arrived, x.Good apid) :
    Receiving apid arrived (farEnd apid arrived) := by
  induction arrived using List.reverseRecOn with
  | nil =>
    have htracks : Ccsds.Tracks apid (counts ([] : List (Offer β))) (farEnd apid ([] : List (Offer β))) :=
      ⟨rfl, fun _ _ => rfl, by simp [counts], by simp [counts, farEnd]⟩
    exact ⟨htracks, fun _ => rfl, rfl, rfl, rfl, rfl⟩
  | append_singleton arrived x ih =>
    have hbefore := ih fun y hy => hgood y (List.mem_append_left _ hy)
    have hroute : (farEnd apid arrived).classOf (apid x.cls) = some x.cls := by
      rw [hbefore.tracks.classOf_eq]
      exact hp.classOf_iff.mpr rfl
    rw [farEnd, List.foldl_append]
    exact receiving_arrive hbefore (hgood x (by simp)) hroute

end Arrive

/-- Whatever is submitted, and whichever packets the link refuses or loses, those that arrive are handed
on at the far end in the order they left, each to its class with the data its item stood for when it was
sent; where the buffers are left alone, that is the data it was submitted with. Nothing arrives more often
than it has been submitted. Nothing is counted but gaps, and of these as many as there are neighbours of
one class between which the packets refused or lost are not a whole number of turns of the count. -/
theorem received_as_sent {p : Ccsds} (hp : p.Assigned) (hstart : ∀ c, p.txCount c = 0)
    {ops : List (OutboundOp β)} (hsmall : ∀ op ∈ ops, Small op) {arrived : List (Offer β)}
    (harrived : arrived.Sublist ((run wireStep (Wire.start p) ops).offers.filter Offer.accepted)) :
    (farEnd p.apid arrived).delivered.map (fun d => (d.1, d.2.2)) =
      arrived.map (fun x => (x.cls, x.app)) ∧
    (farEnd p.apid arrived).lengthErrors = 0 ∧ (farEnd p.apid arrived).integrityErrors = 0 ∧
    (farEnd p.apid arrived).unroutable = 0 ∧
    (farEnd p.apid arrived).gaps =
      UInt32.ofNat (∑ c, skips (2 ^ 14) (ofKey c (arrived.map Offer.place))) ∧
    (arrived.map (·.send.item)).Subperm (run wireStep (Wire.start p) ops).taken ∧
    ∀ m, (∀ op ∈ ops, Unchanged m op) →
      ∀ x ∈ arrived, x.app = (m x.send.item.data).bytes 0 x.send.item.len := by
  have hoffers := offering_run hp hstart hsmall
  obtain ⟨hsends, hsettled⟩ := stocked_run hp hsmall
  have happ (m : β → Buf) (hops : ∀ op ∈ ops, Unchanged m op) :=
    app_run m (Wire.start p) hops (by simp [Wire.start])
  generalize run wireStep (Wire.start p) ops = s at hoffers hsends hsettled happ harrived ⊢
  have hpart : arrived.Sublist s.offers := harrived.trans List.filter_sublist
  have hassigned : Ccsds.Assigned { apid := p.apid } := by
    refine ⟨fun c => ⟨(hp.fits c).1, ?_⟩, hp.distinct⟩
    exact UInt16.zero_le
  have hfar := receiving_farEnd hassigned fun x hx => hoffers.good x (hpart.subset hx)
  refine ⟨hfar.handed, hfar.lengths, hfar.checksums, hfar.routes, ?_, ?_, ?_⟩
  · rw [hfar.tracks.gaps]
    have hclass (c : CcsdsClass) : breaks Ccsds.nextCount (ofKey c (counts arrived)) =
        skips (2 ^ 14) (ofKey c (arrived.map Offer.place)) := by
      have hmod : ofKey c (counts arrived) = (ofKey c (arrived.map Offer.place)).map (· % 2 ^ 14) := by
        simp only [ofKey, counts, List.filter_map, List.map_map]
        rfl
      have hrange : (ofKey c (arrived.map Offer.place)).Sublist
          (List.range (s.offers.countP (·.cls == c))) := by
        rw [← hoffers.places]
        exact ofKey_sublist c (hpart.map _)
      rw [hmod]
      exact breaks_mod (List.pairwise_lt_range.sublist hrange)
    simp only [hclass]
  · have hdelivered : delivered s.out.sends = (s.offers.filter Offer.accepted).map (·.send.item) := by
      rw [delivered, ← hsends, List.filter_map, List.map_map]
      rfl
    have hqueued : (delivered s.out.sends).Subperm s.taken :=
      (List.sublist_append_left _ _).subperm.trans hsettled.split.symm.subperm
    rw [hdelivered] at hqueued
    exact (harrived.map _).subperm.trans hqueued
  · intro m hops x hx
    exact happ m hops x (hpart.subset hx)

/-- A packet that arrives after the link has refused it twice. -/
theorem received_as_sent_refused :
    let s := run wireStep (Wire.start {})
      [submitStatus, serviceAll .errHardware, serviceAll .errBusy, serviceAll .ok]
    let arrived := s.offers.filter Offer.accepted
    (farEnd CcsdsClass.defaultApid arrived).delivered.map (fun d => (d.1, d.2.2)) =
      arrived.map (fun x => (x.cls, x.app)) ∧
    (farEnd CcsdsClass.defaultApid arrived).lengthErrors = 0 ∧
    (farEnd CcsdsClass.defaultApid arrived).integrityErrors = 0 ∧
    (farEnd CcsdsClass.defaultApid arrived).unroutable = 0 ∧
    (farEnd CcsdsClass.defaultApid arrived).gaps =
      UInt32.ofNat (∑ c, skips (2 ^ 14) (ofKey c (arrived.map Offer.place))) ∧
    (arrived.map (·.send.item)).Subperm s.taken ∧
    ∀ m, (∀ op ∈ [submitStatus, serviceAll .errHardware, serviceAll .errBusy, serviceAll .ok],
      Unchanged m op) → ∀ x ∈ arrived, x.app = (m x.send.item.data).bytes 0 x.send.item.len := by
  refine received_as_sent Ccsds.assigned_init (fun _ => rfl) ?_ (List.Sublist.refl _)
  simp [submitStatus, serviceAll, Small]

end QiranFirmware.Output
