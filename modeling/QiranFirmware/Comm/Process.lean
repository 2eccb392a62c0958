import QiranFirmware.Comm.CcsdsRoundTrip
import QiranFirmware.Comm.CmdFraming

/-! # Commands over both links

`comm_process.c` registers the command sequence as the consumer of command packets. A frame that
comes over the serial line and one that comes in a space packet are both handed to it after the
checks of their link, which a frame made by `comm_cmd_build` passes.
-/
namespace QiranFirmware.Process

open Machine Cmd

def consumeCommand (answers : ℕ → HandlerRun) (stage : Stage) (_header : CcsdsHeader)
    (app : List UInt8) (c : Cmd) (v : Svc) : Status × Cmd × Svc :=
  submit answers stage app c v

def init : Ccsds := (Ccsds.register .command {}).2

/-- `comm_ccsds_receive` with the consumer of commands. The consumer is the last thing it calls, and
its status is the answer, so it is called here with what has been delivered. -/
def receive (answers : ℕ → HandlerRun) (stage : Stage) (packet : Buf) (len : UInt32) (p : Ccsds)
    (c : Cmd) (v : Svc) : Status × Ccsds × Cmd × Svc :=
  let (st, p', v) := Ccsds.receive packet len {} p v
  match p'.delivered.drop p.delivered.length with
  | (.command, header, app) :: _ =>
    let (st, c, v) := consumeCommand answers stage header app c v
    (st, p', c, v)
  | _ => (st, p', c, v)

inductive PacketOp
  | setApid (cls : CcsdsClass) (apid : UInt16)
  | register (cls : CcsdsClass)
  | build (cls : CcsdsClass) (app : Buf) (appLen : UInt32) (buf : Buf) (len : UInt32)
  | receive (packet : Buf) (len : UInt32) (run : ConsumerRun) (v : Svc)

def packetStep (p : Ccsds) : PacketOp → Ccsds
  | .setApid cls apid => (Ccsds.setApid cls apid p).2
  | .register cls => (Ccsds.register cls p).2
  | .build cls app appLen buf len => (Ccsds.build cls app appLen buf len p).2.2.2
  | .receive packet len run v => (Ccsds.receive packet len run p v).2.1

structure Routed (p : Ccsds) : Prop where
  fits : p.Fits
  distinct : ∀ c d, p.apid c = p.apid d → c = d
  consumer : p.consumer .command = true

theorem Routed.assigned {p : Ccsds} (h : Routed p) : p.Assigned := ⟨h.fits, h.distinct⟩

theorem build_frame (cls : CcsdsClass) (app : Buf) (appLen : UInt32) (buf : Buf) (len : UInt32)
    (p : Ccsds) : (Ccsds.build cls app appLen buf len p).2.2.2.apid = p.apid ∧
      (Ccsds.build cls app appLen buf len p).2.2.2.consumer = p.consumer := by
  unfold Ccsds.build
  dsimp only
  split
  · exact ⟨rfl, rfl⟩
  split
  · exact ⟨rfl, rfl⟩
  split
  · exact ⟨rfl, rfl⟩
  · exact ⟨rfl, rfl⟩

theorem receive_frame (packet : Buf) (len : UInt32) (run : ConsumerRun) (p : Ccsds) (v : Svc) :
    (Ccsds.receive packet len run p v).2.1.apid = p.apid ∧
      (Ccsds.receive packet len run p v).2.1.consumer = p.consumer ∧
      (Ccsds.receive packet len run p v).2.1.txCount = p.txCount := by
  unfold Ccsds.receive
  split
  · exact ⟨rfl, rfl, rfl⟩
  dsimp only
  split
  · exact ⟨rfl, rfl, rfl⟩
  split
  · exact ⟨rfl, rfl, rfl⟩
  split
  · exact ⟨rfl, rfl, rfl⟩
  split
  · exact ⟨rfl, rfl, rfl⟩
  · exact ⟨rfl, rfl, rfl⟩

theorem assigned_step {p : Ccsds} (h : p.Assigned) (op : PacketOp) : (packetStep p op).Assigned := by
  cases op with
  | setApid cls apid => exact Ccsds.assigned_setApid h cls apid
  | register cls =>
    simp only [packetStep, Ccsds.register]
    split
    · exact h
    · exact ⟨h.fits, h.distinct⟩
  | build cls app appLen buf len =>
    obtain ⟨hapid, -⟩ := build_frame cls app appLen buf len p
    exact ⟨Ccsds.fits_build cls app appLen buf len h.fits, hapid ▸ h.distinct⟩
  | receive packet len run v =>
    obtain ⟨hapid, -, hcount⟩ := receive_frame packet len run p v
    refine ⟨?_, hapid ▸ h.distinct⟩
    intro c
    simp only [packetStep, hapid, hcount]
    exact h.fits c

/-- A consumer that is registered stays so. -/
theorem consumer_step {p : Ccsds} {cls : CcsdsClass} (h : p.consumer cls = true) (op : PacketOp) :
    (packetStep p op).consumer cls = true := by
  cases op with
  | setApid c apid =>
    simp only [packetStep, Ccsds.setApid]
    split
    · exact h
    split
    · exact h
    · exact h
  | register c =>
    simp only [packetStep, Ccsds.register]
    split
    · exact h
    · dsimp only
      by_cases hc : cls = c
      · rw [hc, Function.update_self]
      · rw [Function.update_of_ne hc, h]
  | build c app appLen buf len =>
    simp only [packetStep, (build_frame c app appLen buf len p).2, h]
  | receive packet len run v =>
    simp only [packetStep, (receive_frame packet len run p v).2.1, h]

theorem routed_init : Routed init :=
  ⟨Ccsds.assigned_init.fits, Ccsds.assigned_init.distinct, rfl⟩

theorem routed_step {p : Ccsds} (h : Routed p) (op : PacketOp) : Routed (packetStep p op) :=
  have hassigned := assigned_step h.assigned op
  ⟨hassigned.fits, hassigned.distinct, consumer_step h.consumer op⟩

theorem routed_run (ops : List PacketOp) : Routed (run packetStep init ops) :=
  @run_keeps _ _ packetStep Routed (fun _ op h => routed_step h op) init routed_init ops

section Serial
variable {answers : ℕ → HandlerRun} {stage : Stage}

theorem dispatch_asm (id : CmdId) (parameter : UInt32) (sequence : UInt16) (receiptMs : UInt32)
    (c : Cmd) (v : Svc) (asm : List UInt8) :
    dispatch answers stage id parameter sequence receiptMs { c with asm } v =
      ({ (dispatch answers stage id parameter sequence receiptMs c v).1 with asm },
        (dispatch answers stage id parameter sequence receiptMs c v).2) := by
  unfold dispatch
  cases c.handler id with
  | none => rfl
  | some h =>
    have hinvoke : invoke h answers stage true id parameter { c with asm } v =
        ((invoke h answers stage true id parameter c v).1,
          { (invoke h answers stage true id parameter c v).2.1 with asm },
          (invoke h answers stage true id parameter c v).2.2) := rfl
    simp only [hinvoke]
    cases (invoke h answers stage true id parameter c v).1 <;> rfl

/-- What the assembler holds plays no part in processing a frame. -/
theorem process_asm (frame : List UInt8) (c : Cmd) (v : Svc) (asm : List UInt8) :
    process answers stage frame { c with asm } v =
      ({ (process answers stage frame c v).1 with asm }, (process answers stage frame c v).2) := by
  unfold process
  dsimp only
  split
  · rfl
  split
  · rfl
  split
  · rfl
  split
  · rfl
  split
  · rfl
  · exact dispatch_asm _ _ _ _ { c with
      received := c.received + 1
      lastReceiptMs := v.nowMs.toUInt32
      processed := c.processed ++ [frame] } _ asm

/-- Bytes that do not complete a frame are kept. -/
theorem foldl_takeByte_short {bytes : List UInt8} {c : Cmd} (v : Svc) (hheld : c.asm ≠ [])
    (hshort : (c.asm ++ bytes).length < frameBytes) :
    bytes.foldl (takeByte answers stage) (c, v) = ({ c with asm := c.asm ++ bytes }, v) := by
  induction bytes generalizing c with
  | nil => rw [List.append_nil]; rfl
  | cons b bytes ih =>
    have hone : (c.asm ++ [b]).length ≠ frameBytes := by
      simp only [List.length_append, List.length_cons, List.length_nil] at hshort ⊢
      omega
    have hbyte : takeByte answers stage (c, v) b = ({ c with asm := c.asm ++ [b] }, v) := by
      unfold takeByte
      rw [if_neg (fun h => hheld h.1)]
      dsimp only
      rw [if_neg hone]
    rw [List.foldl_cons, hbyte]
    have hrest := @ih { c with asm := c.asm ++ [b] } (by simp) (by simpa using hshort)
    rw [hrest, List.append_assoc, List.singleton_append]

theorem submit_valid {frame : List UInt8} (hframe : ValidFrame frame) (c : Cmd) (v : Svc) :
    submit answers stage frame c v = (.ok, process answers stage frame c v) := by
  have hstart : Buf.ofList frame 0 = packetId := by
    rw [Buf.ofList_apply, UInt32.toNat_zero, List.getD_eq_getElem?_getD, ← List.head?_eq_getElem?,
      hframe.start]
    rfl
  simp only [submit, hframe.length, hstart, hframe.checked, ne_eq, not_true_eq_false, ↓reduceIte,
    Bool.not_true, Bool.false_eq_true]

/-- The bytes of a frame, with nothing held before them, are a submission of it. -/
theorem foldl_takeByte_frame {frame : List UInt8} (hframe : ValidFrame frame) {c : Cmd} (v : Svc)
    (hempty : c.asm = []) : frame.foldl (takeByte answers stage) (c, v) =
      (submit answers stage frame c v).2 := by
  obtain ⟨b, mid, last, hsplit⟩ : ∃ b mid last, frame = b :: (mid ++ [last]) := by
    obtain ⟨b, tail, hcons⟩ := List.exists_cons_of_length_eq_add_one hframe.length
    have hlength := hframe.length
    rw [hcons, List.length_cons] at hlength
    obtain ⟨mid, last, hconcat⟩ := List.eq_nil_or_concat tail |>.resolve_left fun hnil => by
      rw [hnil] at hlength
      exact absurd hlength (by decide)
    exact ⟨b, mid, last, by rw [hcons, hconcat, List.concat_eq_append]⟩
  have hb : b = packetId := by
    have hstart := hframe.start
    rw [hsplit] at hstart
    exact Option.some.inj hstart
  have hlength := hframe.length
  simp only [hsplit, List.length_cons, List.length_append, List.length_nil] at hlength
  have hfirst : takeByte answers stage (c, v) b = ({ c with asm := [packetId] }, v) := by
    unfold takeByte
    rw [if_neg (fun h => h.2 hb), hempty, hb]
    rfl
  have hmid := @foldl_takeByte_short answers stage mid { c with asm := [packetId] } v (by simp)
    (by simp only [List.length_append, List.length_singleton]; omega)
  have hfull : [packetId] ++ mid ++ [last] = frame := by
    rw [hsplit, hb]
    rfl
  have hlast : takeByte answers stage ({ c with asm := [packetId] ++ mid }, v) last =
      ({ (process answers stage frame { c with asm := frame } v).1 with asm := [] },
        (process answers stage frame { c with asm := frame } v).2) := by
    unfold takeByte
    rw [if_neg (by simp)]
    dsimp only
    rw [hfull, if_pos hframe.length, if_pos hframe.checked]
  have hkept := @process_asm answers stage frame c v []
  have hsame : { c with asm := [] } = c := by rw [← hempty]
  rw [hsame] at hkept
  have hfold : frame.foldl (takeByte answers stage) (c, v) =
      takeByte answers stage ({ c with asm := [packetId] ++ mid }, v) last := by
    rw [hsplit, List.foldl_cons, hfirst, List.foldl_append, hmid]
    rfl
  rw [hfold, hlast, submit_valid hframe, process_asm]
  exact hkept.symm

/-- A frame is all that the ring holds after it has come over an idle line. -/
theorem assemble_frame {frame : List UInt8} (hframe : ValidFrame frame) {u : Uart} (hu : u.Valid)
    (hidle : u.rx.contents = []) {c : Cmd} (v : Svc) (hempty : c.asm = []) :
    (assemble answers stage (u.drain frame).rx c v).2 = (submit answers stage frame c v).2 := by
  obtain ⟨hvalid, hcontents⟩ := Uart.drain_spec hu frame (by
    rw [hidle, hframe.length]
    decide)
  rw [hidle, List.nil_append] at hcontents
  obtain ⟨-, -, -, htaken⟩ := assembleLoop_spec answers stage 5 (c, v) hvalid.rx hvalid.contents_lt
  rw [assemble, assembleLoop_taken, htaken, hcontents]
  exact foldl_takeByte_frame hframe v hempty

theorem assemble_idle {u : Uart} (hu : u.Valid) (hidle : u.rx.contents = []) (c : Cmd) (v : Svc) :
    (assemble answers stage u.rx c v).2 = (c, v) := by
  obtain ⟨-, -, -, htaken⟩ := assembleLoop_spec answers stage 5 (c, v) hu.rx hu.contents_lt
  rw [assemble, assembleLoop_taken, htaken, hidle]
  rfl

theorem service_snd (u : Uart) (c : Cmd) (v : Svc) :
    (service answers stage u c v).2 =
      (assemble answers stage u.rx (track answers stage c v).1 (track answers stage c v).2).2 := rfl

end Serial

/-- A packet made from the frame is a submission of it, after the packet module's own report of a
packet out of sequence. -/
theorem receive_frame_packet {answers : ℕ → HandlerRun} {stage : Stage} {frame : List UInt8}
    (hframe : ValidFrame frame) {b p : Ccsds} {packet : Buf} {len : UInt32} (hp : Routed p)
    (hsame : b.apid .command = p.apid .command) (h : Ccsds.Carries .command frame b packet len)
    (c : Cmd) (v : Svc) :
    (receive answers stage packet len p c v).1 = .ok ∧
      (receive answers stage packet len p c v).2.2 =
        (submit answers stage frame c (Ccsds.sequenceNote .command (b.txCount .command) p v)).2 := by
  obtain ⟨-, ⟨header, -, -, hdelivered⟩, hv⟩ := Ccsds.receive_carried h
    (by rw [hframe.length]; decide) (hp.assigned.classOf_iff.mpr hsame.symm) hp.consumer {} v
  have hnew : (Ccsds.receive packet len {} p v).2.1.delivered.drop p.delivered.length =
      [(.command, header, frame)] := by
    rw [hdelivered, List.drop_left]
  simp only [receive, hnew, hv, consumeCommand, submit_valid hframe]
  exact ⟨trivial, rfl⟩

def InSequence (p : Ccsds) : Prop :=
  p.rxSeen .command = true → p.txCount .command = p.rxExpect .command

theorem sequenceNote_of_inSequence {p : Ccsds} (h : InSequence p) (v : Svc) :
    Ccsds.sequenceNote .command (p.txCount .command) p v = v := by
  refine if_neg ?_
  simp only [Bool.and_eq_true, bne_iff_ne, ne_eq, not_and, not_not]
  exact h

/-- A frame made by `comm_cmd_build` does to the command module and to the services the same as a
packet and as bytes on the line, whatever state they are in; the packet module may add its own
report of a packet out of sequence. With that, a service that finds the frame on the line does what
a service without it and then the packet do. -/
theorem links_share_sequence (ops : List PacketOp) (id : CmdId) (parameter : UInt32)
    (sequence : UInt16) (answers : ℕ → HandlerRun) (stage : Stage) (buf : Buf) {len : UInt32}
    (hlen : 23 ≤ len.toNat) {u : Uart} (hu : u.Valid) (hidle : u.rx.contents = []) :
    ∃ packet written p', Ccsds.build .command (Buf.ofList (build id parameter sequence)) 13 buf len
        (run packetStep init ops) = (.ok, packet, written, p') ∧
      ∀ c v, c.asm = [] →
        (receive answers stage packet written p' c v).2.2 =
          (assemble answers stage (u.drain (build id parameter sequence)).rx c
            (Ccsds.sequenceNote .command ((run packetStep init ops).txCount .command) p' v)).2 ∧
        (InSequence (run packetStep init ops) →
          (service answers stage (u.drain (build id parameter sequence)) c v).2 =
            (receive answers stage packet written p' (service answers stage u c v).2.1
              (service answers stage u c v).2.2).2.2) := by
  have hrouted := routed_run ops
  generalize run packetStep init ops = p at hrouted ⊢
  have hframe := validFrame_build id parameter sequence
  have hsize : UInt32.ofNat (build id parameter sequence).length = 13 := by
    rw [hframe.length]
    rfl
  obtain ⟨packet, written, hbuild, hcarries⟩ := Ccsds.carries_build .command buf hrouted.fits
    (by rw [hframe.length]; decide) (by rw [hframe.length]; exact hlen)
  have hafter : Routed (Ccsds.advance .command p) := by
    have hstep := routed_step hrouted (.build .command (Buf.ofList (build id parameter sequence))
      (UInt32.ofNat (build id parameter sequence).length) buf len)
    rwa [packetStep, hbuild] at hstep
  have hsame : p.apid .command = (Ccsds.advance .command p).apid .command := rfl
  have hpacket := @receive_frame_packet answers stage _ hframe _ _ _ _ hafter hsame hcarries
  rw [hsize] at hbuild
  refine ⟨packet, written, Ccsds.advance .command p, hbuild, ?_⟩
  intro c v hempty
  constructor
  · rw [(hpacket c v).2, assemble_frame hframe hu hidle _ hempty]
  · intro hseq
    have htracked := (track_line answers stage c v).asm.trans hempty
    have hserial : (service answers stage (u.drain (build id parameter sequence)) c v).2 =
        (submit answers stage (build id parameter sequence) (track answers stage c v).1
          (track answers stage c v).2).2 := by
      rw [service_snd, assemble_frame hframe hu hidle _ htracked]
    have hquiet : (service answers stage u c v).2 = track answers stage c v := by
      rw [service_snd, assemble_idle hu hidle]
    have hnote (w : Svc) : Ccsds.sequenceNote .command (p.txCount .command)
        (Ccsds.advance .command p) w = w := sequenceNote_of_inSequence hseq w
    rw [hserial, (hpacket _ _).2, hnote, hquiet]

theorem links_share_sequence_mode :
    ∃ packet written p', Ccsds.build .command (Buf.ofList (build .mode 0 7)) 13 (fun _ => 0) 64
        (run packetStep init []) = (.ok, packet, written, p') ∧
      ∀ c v, c.asm = [] →
        (receive (fun _ => {}) .boot packet written p' c v).2.2 =
          (assemble (fun _ => {}) .boot (({} : Uart).drain (build .mode 0 7)).rx c
            (Ccsds.sequenceNote .command ((run packetStep init []).txCount .command) p' v)).2 ∧
        (InSequence (run packetStep init []) →
          (service (fun _ => {}) .boot (({} : Uart).drain (build .mode 0 7)) c v).2 =
            (receive (fun _ => {}) .boot packet written p' (service (fun _ => {}) .boot {} c v).2.1
              (service (fun _ => {}) .boot {} c v).2.2).2.2) :=
  links_share_sequence [] .mode 0 7 (fun _ => {}) .boot (fun _ => 0)
    (show 23 ≤ (64 : UInt32).toNat by decide) Uart.valid_init (by simp [Ring.contents, SlotRing.contents])

end QiranFirmware.Process
