import QiranFirmware.Comm.Cmd
import QiranFirmware.Machine.Runs

/-! # Frames on the serial line

A stream of whole valid frames goes through the receive ring into the assembler. What the
assembler, the ring and the line hold is at every moment the bytes of the frames not processed yet,
as long as no gap event is drained while the assembler holds bytes.
-/
namespace QiranFirmware.Cmd

open Machine

structure ValidFrame (frame : List UInt8) : Prop where
  length : frame.length = frameBytes
  start : frame.head? = some packetId
  checked : checked frame = true

theorem validFrame_build (id : CmdId) (parameter : UInt32) (sequence : UInt16) :
    ValidFrame (build id parameter sequence) where
  length := rfl
  start := rfl
  checked := by
    have hread (body : List UInt8) (h : body.length = 9) :
        (Buf.ofList (body ++ Buf.be32 (Crc.crc32 body))).getU32 9 = Crc.crc32 body := by
      have hword := @Buf.getU32_ofList body [] (Crc.crc32 body) 9 h.symm (by omega)
      rwa [List.append_nil] at hword
    rw [Cmd.checked, build, hread _ rfl]
    exact beq_self_eq_true _

structure SameLine (c c' : Cmd) : Prop where
  asm : c'.asm = c.asm
  processed : c'.processed = c.processed

variable (answers : ℕ → HandlerRun) (stage : Stage)

theorem dispatch_line (id : CmdId) (parameter : UInt32) (sequence : UInt16) (receiptMs : UInt32)
    (c : Cmd) (v : Svc) : SameLine c (dispatch answers stage id parameter sequence receiptMs c v).1 := by
  unfold dispatch
  split
  · exact ⟨rfl, rfl⟩
  · dsimp only
    split <;> exact ⟨rfl, rfl⟩

theorem process_line (frame : List UInt8) (c : Cmd) (v : Svc) :
    SameLine { c with processed := c.processed ++ [frame] } (process answers stage frame c v).1 := by
  unfold process
  dsimp only
  split
  · exact ⟨rfl, rfl⟩
  split
  · exact ⟨rfl, rfl⟩
  split
  · exact ⟨rfl, rfl⟩
  split
  · exact ⟨rfl, rfl⟩
  split
  · exact ⟨rfl, rfl⟩
  · exact ⟨(dispatch_line ..).asm, (dispatch_line ..).processed⟩

theorem track_line (c : Cmd) (v : Svc) : SameLine c (track answers stage c v).1 := by
  unfold track
  split
  · exact ⟨rfl, rfl⟩
  split
  · exact ⟨rfl, rfl⟩
  · dsimp only
    split
    · split <;> exact ⟨rfl, rfl⟩
    · exact ⟨rfl, rfl⟩
    · exact ⟨rfl, rfl⟩

/-- The assembler has processed `done`, and with the bytes `rest` still to come it holds those of
`todo`. -/
structure Framed (done todo : List (List UInt8)) (rest : List UInt8) (c : Cmd) : Prop where
  processed : c.processed = done
  short : c.asm.length < frameBytes
  bytes : c.asm ++ rest = todo.flatten

/-- A byte more either completes the next frame or becomes part of it. -/
theorem framed_takeByte {done todo : List (List UInt8)} {b : UInt8} {rest : List UInt8}
    {s : Cmd × Svc} (hvalid : ∀ f ∈ todo, ValidFrame f) (h : Framed done todo (b :: rest) s.1) :
    ∃ new todo', todo = new ++ todo' ∧
      Framed (done ++ new) todo' rest (takeByte answers stage s b).1 := by
  cases todo with
  | nil => simpa using h.bytes
  | cons f todo =>
    have hf := hvalid f List.mem_cons_self
    have hshort := h.short
    obtain ⟨tail, hasm⟩ : s.1.asm ++ [b] <+: f := by
      refine @List.prefix_of_prefix_length_le _ _ _ (f :: todo).flatten ?_ ?_ ?_
      · exact ⟨rest, by rw [← h.bytes]; simp⟩
      · exact List.prefix_append ..
      · rw [List.length_append, hf.length]
        exact hshort
    have hstart : ¬ (s.1.asm = [] ∧ b ≠ packetId) := by
      rintro ⟨hempty, hne⟩
      have hhead := hf.start
      rw [← hasm, hempty] at hhead
      exact hne (Option.some.inj hhead)
    have hrest : tail ++ todo.flatten = rest := by
      have hall := h.bytes
      rw [List.flatten_cons, ← hasm, List.append_assoc, List.append_assoc] at hall
      exact (List.cons.inj (List.append_cancel_left hall)).2.symm
    have hlength : (s.1.asm ++ [b]).length + tail.length = frameBytes := by
      rw [← List.length_append, hasm, hf.length]
    unfold takeByte
    rw [if_neg hstart]
    dsimp only
    split
    · rename_i hfull
      obtain rfl : tail = [] := List.eq_nil_of_length_eq_zero (by omega)
      rw [List.append_nil] at hasm
      rw [hasm, if_pos hf.checked]
      refine ⟨[f], todo, rfl, ?_, Nat.succ_pos 12, hrest.symm⟩
      rw [← h.processed]
      exact (process_line ..).processed
    · rename_i hpart
      refine ⟨[], f :: todo, rfl, ?_, ?_, ?_⟩
      · rw [List.append_nil]
        exact h.processed
      · dsimp only
        omega
      · rw [List.flatten_cons, ← hasm, ← hrest, List.append_assoc, List.append_assoc,
          List.append_assoc]

theorem framed_chunk {done todo : List (List UInt8)} {chunk rest : List UInt8} {s : Cmd × Svc}
    (hvalid : ∀ f ∈ todo, ValidFrame f) (h : Framed done todo (chunk ++ rest) s.1) :
    ∃ new todo', todo = new ++ todo' ∧
      Framed (done ++ new) todo' rest (chunk.foldl (takeByte answers stage) s).1 := by
  induction chunk generalizing done todo s with
  | nil => exact ⟨[], todo, rfl, by rwa [List.append_nil]⟩
  | cons b chunk ih =>
    obtain ⟨new, todo', rfl, hbyte⟩ := framed_takeByte answers stage hvalid h
    obtain ⟨new', todo'', rfl, hchunk⟩ :=
      ih (fun f hf => hvalid f (List.mem_append_right _ hf)) hbyte
    exact ⟨new ++ new', todo'', by rw [List.append_assoc], by rwa [← List.append_assoc]⟩

def taken : ℕ → Ring → List UInt8
  | 0, _ => []
  | fuel + 1, rx =>
    let (chunk, rx) := rx.read 64
    chunk ++ if chunk.length = 64 then taken fuel rx else []

def drained : ℕ → IrqSlot → List IrqEvent
  | 0, _ => []
  | fuel + 1, irq =>
    match irq.take with
    | none => []
    | some (e, irq) => e :: drained fuel irq

theorem assembleLoop_taken (fuel : ℕ) (rx : Ring) (s : Cmd × Svc) :
    (assembleLoop answers stage fuel (rx, s)).2 = (taken fuel rx).foldl (takeByte answers stage) s := by
  induction fuel generalizing rx s with
  | zero => rfl
  | succ fuel ih =>
    simp only [assembleLoop, taken, List.foldl_append]
    split
    · exact ih ..
    · rfl

theorem interruptsLoop_drained (fuel : ℕ) (irq : IrqSlot) (c : Cmd) :
    (interruptsLoop fuel (irq, c)).2 = (drained fuel irq).foldl onEvent c := by
  induction fuel generalizing irq c with
  | zero => rfl
  | succ fuel ih =>
    simp only [interruptsLoop, drained]
    cases irq.take with
    | none => rfl
    | some p => exact ih p.2 (onEvent c p.1)

theorem assembleLoop_spec (fuel : ℕ) {rx : Ring} (s : Cmd × Svc) (hvalid : rx.cells.Valid)
    (hfuel : rx.contents.length < 64 * fuel) :
    (assembleLoop answers stage fuel (rx, s)).1.contents = [] ∧
      (assembleLoop answers stage fuel (rx, s)).1.cells.Valid ∧
      (assembleLoop answers stage fuel (rx, s)).1.cells.mask = rx.cells.mask ∧
      taken fuel rx = rx.contents := by
  induction fuel generalizing rx s with
  | zero => exact absurd hfuel (Nat.not_lt_zero _)
  | succ fuel ih =>
    obtain ⟨hchunk, hleft, hvalid', hmask⟩ := Ring.read_spec hvalid 64
    have hsplit := List.take_append_drop 64 rx.contents
    simp only [assembleLoop, taken]
    split
    · rename_i hfull
      rw [hchunk, List.length_take] at hfull
      obtain ⟨hempty, hvalid'', hmask', htaken⟩ :=
        ih ((rx.read 64).1.foldl (takeByte answers stage) s) hvalid'
          (by rw [hleft, List.length_drop]; omega)
      refine ⟨hempty, hvalid'', hmask'.trans hmask, ?_⟩
      rw [htaken, hchunk, hleft, hsplit]
    · rename_i hpart
      rw [hchunk, List.length_take] at hpart
      have hshort : rx.contents.length ≤ 64 := by omega
      refine ⟨?_, hvalid', hmask, ?_⟩
      · rw [hleft, List.drop_eq_nil_of_le hshort]
      · rw [hchunk, List.take_of_length_le hshort, List.append_nil]

theorem interruptsLoop_spec (fuel : ℕ) {irq : IrqSlot} (c : Cmd) (hvalid : irq.q.Valid)
    (hfuel : irq.events.length < fuel) :
    (interruptsLoop fuel (irq, c)).1.events = [] ∧ (interruptsLoop fuel (irq, c)).1.q.Valid ∧
      (interruptsLoop fuel (irq, c)).1.q.mask = irq.q.mask ∧ drained fuel irq = irq.events := by
  induction fuel generalizing irq c with
  | zero => exact absurd hfuel (Nat.not_lt_zero _)
  | succ fuel ih =>
    simp only [interruptsLoop, drained]
    cases htake : irq.take with
    | none =>
      have hempty := IrqSlot.take_eq_none.mp htake
      exact ⟨hempty, hvalid, rfl, hempty.symm⟩
    | some p =>
      obtain ⟨e, irq'⟩ := p
      obtain ⟨hvalid', hmask, hevents⟩ := IrqSlot.take_spec hvalid htake
      rw [hevents, List.length_cons] at hfuel
      obtain ⟨hempty, hvalid'', hmask', hdrained⟩ := ih (onEvent c e) hvalid' (by omega)
      refine ⟨hempty, hvalid'', hmask'.trans hmask, ?_⟩
      rw [hevents, ← hdrained]

/-- A service takes all that the ring holds. -/
theorem service_taken (u : Uart) (c : Cmd) (v : Svc) :
    (service answers stage u c v).2 =
      (taken 5 u.rx).foldl (takeByte answers stage) (track answers stage c v) :=
  assembleLoop_taken answers stage 5 u.rx (track answers stage c v)

theorem foldl_onEvent_quiet {events : List IrqEvent} {c : Cmd}
    (h : (∃ e ∈ events, e.kind = uartKindGap) → c.asm = []) : events.foldl onEvent c = c := by
  induction events with
  | nil => rfl
  | cons e events ih =>
    have hfirst : onEvent c e = c := by
      refine if_neg ?_
      rintro ⟨hgap, hheld⟩
      exact hheld (h ⟨e, List.mem_cons_self, hgap⟩)
    rw [List.foldl_cons, hfirst]
    refine ih ?_
    rintro ⟨e', he', hgap⟩
    exact h ⟨e', List.mem_cons_of_mem e he', hgap⟩

/-- The serial line: what has come over it so far, what is behind the receive interrupt, and the
assembler. -/
structure Serial where
  uart : Uart := {}
  cmd : Cmd := {}
  pushed : ℕ := 0

inductive SerialOp
  | receive (n : ℕ)
  | event (tick datum : UInt32) (kind : UInt16)
  | interrupts
  | service (answers : ℕ → HandlerRun) (stage : Stage) (v : Svc)

def arriving (frames : List (List UInt8)) (s : Serial) (n : ℕ) : List UInt8 :=
  (frames.flatten.drop s.pushed).take n

def serialStep (frames : List (List UInt8)) (s : Serial) : SerialOp → Serial
  | .receive n =>
    { s with
      uart := s.uart.drain (arriving frames s n)
      pushed := s.pushed + (arriving frames s n).length }
  | .event tick datum kind => { s with uart := s.uart.publish tick datum kind }
  | .interrupts =>
    let (uart, cmd) := serviceInterrupts s.uart s.cmd
    { s with uart, cmd }
  | .service answers stage v =>
    let (uart, cmd, _) := service answers stage s.uart s.cmd v
    { s with uart, cmd }

def consumed (s : Serial) : ℕ := s.pushed - s.uart.rx.contents.length

def Fits (frames : List (List UInt8)) (s : Serial) : SerialOp → Prop
  | .receive n => s.uart.rx.contents.length + (arriving frames s n).length ≤ 256
  | _ => True

instance decidableFits (frames : List (List UInt8)) (s : Serial) :
    ∀ op, Decidable (Fits frames s op)
  | .receive _ => inferInstanceAs (Decidable (_ ≤ _))
  | .event .. | .interrupts | .service .. => .isTrue trivial

def Quiet (s : Serial) : SerialOp → Prop
  | .interrupts => (∃ e ∈ s.uart.irq.events, e.kind = uartKindGap) → s.cmd.asm = []
  | _ => True

structure InOrder (frames : List (List UInt8)) (s : Serial) : Prop where
  uart : s.uart.Valid
  pushed : s.pushed ≤ frames.flatten.length
  framed : ∃ done todo, frames = done ++ todo ∧
    Framed done todo (s.uart.rx.contents ++ frames.flatten.drop s.pushed) s.cmd

theorem arriving_append (frames : List (List UInt8)) (s : Serial) (n : ℕ) :
    arriving frames s n ++ frames.flatten.drop (s.pushed + (arriving frames s n).length) =
      frames.flatten.drop s.pushed := by
  rw [← List.drop_drop]
  exact List.prefix_iff_eq_append.mp (List.take_prefix n _)

theorem inOrder_receive {frames : List (List UInt8)} {s : Serial} (h : InOrder frames s) {n : ℕ}
    (hfits : Fits frames s (.receive n)) : InOrder frames (serialStep frames s (.receive n)) := by
  obtain ⟨hvalid, hcontents⟩ := Uart.drain_spec h.uart (arriving frames s n) hfits
  obtain ⟨done, todo, heq, hframed⟩ := h.framed
  have hsplit := arriving_append frames s n
  refine ⟨hvalid, ?_, done, todo, heq, hframed.processed, hframed.short, ?_⟩
  · have hpushed := h.pushed
    have hlength := congrArg List.length hsplit
    simp only [List.length_append, List.length_drop] at hlength
    simp only [serialStep]
    omega
  · simp only [serialStep]
    rw [hcontents, List.append_assoc, hsplit]
    exact hframed.bytes

theorem inOrder_interrupts {frames : List (List UInt8)} {s : Serial} (h : InOrder frames s)
    (hquiet : Quiet s .interrupts) : InOrder frames (serialStep frames s .interrupts) := by
  obtain ⟨-, hvalid, hmask, hdrained⟩ := interruptsLoop_spec 9 s.cmd h.uart.irq h.uart.events_lt
  have hfold := interruptsLoop_drained 9 s.uart.irq s.cmd
  rw [hdrained, foldl_onEvent_quiet hquiet] at hfold
  obtain ⟨done, todo, heq, hframed⟩ := h.framed
  refine ⟨⟨h.uart.rx, h.uart.rxMask, hvalid, hmask.trans h.uart.irqMask⟩, h.pushed, done, todo, heq, ?_⟩
  simp only [serialStep, serviceInterrupts]
  rw [hfold]
  exact hframed

theorem inOrder_service {frames : List (List UInt8)} {s : Serial}
    (hvalid : ∀ f ∈ frames, ValidFrame f) (h : InOrder frames s) (answers : ℕ → HandlerRun)
    (stage : Stage) (v : Svc) : InOrder frames (serialStep frames s (.service answers stage v)) := by
  obtain ⟨htracked, hprocessed⟩ := track_line answers stage s.cmd v
  obtain ⟨hempty, hring, hmask, htaken⟩ := assembleLoop_spec answers stage 5
    (track answers stage s.cmd v) h.uart.rx h.uart.contents_lt
  have hfold := assembleLoop_taken answers stage 5 s.uart.rx (track answers stage s.cmd v)
  rw [htaken] at hfold
  obtain ⟨done, todo, rfl, hframed⟩ := h.framed
  have hstart : Framed done todo (s.uart.rx.contents ++ (done ++ todo).flatten.drop s.pushed)
      (track answers stage s.cmd v).1 :=
    ⟨hprocessed.trans hframed.processed, htracked ▸ hframed.short, htracked ▸ hframed.bytes⟩
  obtain ⟨new, todo', rfl, hend⟩ := framed_chunk answers stage
    (fun f hf => hvalid f (List.mem_append_right _ hf)) hstart
  refine ⟨⟨hring, hmask.trans h.uart.rxMask, h.uart.irq, h.uart.irqMask⟩, h.pushed, done ++ new,
    todo', (List.append_assoc ..).symm, ?_⟩
  simp only [serialStep, service, assemble]
  rw [← hfold] at hend
  rw [hempty, List.nil_append]
  exact hend

theorem inOrder_step {frames : List (List UInt8)} (hvalid : ∀ f ∈ frames, ValidFrame f) (s : Serial)
    (op : SerialOp) (h : InOrder frames s) (hop : Fits frames s op ∧ Quiet s op) :
    InOrder frames (serialStep frames s op) := by
  cases op with
  | receive n => exact inOrder_receive h hop.1
  | event tick datum kind => exact ⟨Uart.publish_valid h.uart tick datum kind, h.pushed, h.framed⟩
  | interrupts => exact inOrder_interrupts h hop.2
  | service answers stage v => exact inOrder_service hvalid h answers stage v

theorem length_flatten {frames : List (List UInt8)} (h : ∀ f ∈ frames, ValidFrame f) :
    frames.flatten.length = frameBytes * frames.length := by
  induction frames with
  | nil => rfl
  | cons f frames ih =>
    have hrest := ih fun g hg => h g (List.mem_cons_of_mem f hg)
    rw [List.flatten_cons, List.length_append, (h f List.mem_cons_self).length, hrest,
      List.length_cons, Nat.mul_succ, Nat.add_comm]

/-- Every frame whose bytes have been consumed has been processed, once and in order. -/
theorem frames_processed {frames : List (List UInt8)} (hvalid : ∀ f ∈ frames, ValidFrame f)
    (handler : CmdId → Option Handler) (transmit : Bool) {ops : List SerialOp}
    (h : Along (serialStep frames) (fun s op => Fits frames s op ∧ Quiet s op)
      { cmd := { handler, transmit } } ops) :
    (run (serialStep frames) { cmd := { handler, transmit } } ops).cmd.processed =
      frames.take (consumed (run (serialStep frames) { cmd := { handler, transmit } } ops) /
        frameBytes) := by
  have hstart : InOrder frames { cmd := { handler, transmit } } :=
    ⟨Uart.valid_init, Nat.zero_le _, [], frames, rfl, rfl, Nat.succ_pos 12,
      by simp [Ring.contents, SlotRing.contents]⟩
  have hinv := run_invariant (inOrder_step hvalid) hstart h
  generalize run (serialStep frames) { cmd := { handler, transmit } } ops = s at hinv ⊢
  obtain ⟨done, todo, rfl, hframed⟩ := hinv.framed
  have hpushed := hinv.pushed
  have hbytes := congrArg List.length hframed.bytes
  rw [List.flatten_append] at hpushed hbytes
  have hdone := length_flatten fun f hf => hvalid f (List.mem_append_left todo hf)
  simp only [List.length_append, List.length_drop] at hpushed hbytes
  have hshort := hframed.short
  have hcount : consumed s / frameBytes = done.length := by
    rw [consumed]
    unfold frameBytes at *
    omega
  rw [hcount, hframed.processed, List.take_left']
  rfl

def twoFrames : List (List UInt8) := [build .mode 0 1, build .mode 0 2]

theorem validFrame_twoFrames : ∀ f ∈ twoFrames, ValidFrame f := by
  intro f hf
  rcases List.mem_cons.mp hf with rfl | hf
  · exact validFrame_build ..
  · rw [List.mem_singleton.mp hf]
    exact validFrame_build ..

def serviceBoot : SerialOp := .service (fun _ => {}) .boot {}

theorem frames_processed_between_gaps :
    (run (serialStep twoFrames) {} [.receive 13, .event 0 0 uartKindGap, .interrupts, serviceBoot,
      .receive 13, serviceBoot]).cmd.processed =
    twoFrames.take (consumed (run (serialStep twoFrames) {} [.receive 13,
      .event 0 0 uartKindGap, .interrupts, serviceBoot, .receive 13, serviceBoot]) / frameBytes) :=
  frames_processed validFrame_twoFrames _ false
    ⟨⟨by decide +kernel, trivial⟩, ⟨trivial, trivial⟩, ⟨trivial, fun _ => rfl⟩, ⟨trivial, trivial⟩,
      ⟨by decide +kernel, trivial⟩, ⟨trivial, trivial⟩, trivial⟩

def BetweenFrames (s : Serial) : SerialOp → Prop
  | .event _ _ kind => kind = uartKindGap → frameBytes ∣ s.pushed
  | _ => True

def EventFits (s : Serial) : SerialOp → Prop
  | .event .. => s.uart.irq.events.length < 8
  | _ => True

instance decidableBetweenFrames (s : Serial) : ∀ op, Decidable (BetweenFrames s op)
  | .event .. => inferInstanceAs (Decidable (_ → _))
  | .receive _ | .interrupts | .service .. => .isTrue trivial

instance decidableEventFits (s : Serial) : ∀ op, Decidable (EventFits s op)
  | .event .. => inferInstanceAs (Decidable (_ < _))
  | .receive _ | .interrupts | .service .. => .isTrue trivial

/-- The gap after the first frame is published after the cycle's drain of the events; by the next
drain the assembler holds the start of the second frame, which is thrown away. -/
def lateGap : List SerialOp :=
  [.interrupts, .receive 13, .event 0 0 uartKindGap, .receive 5, .event 0 0 uartKindData,
   serviceBoot, .interrupts, .receive 8, .event 0 0 uartKindData, serviceBoot]

theorem late_gap_drops_frame :
    Along (serialStep twoFrames)
        (fun s op => Fits twoFrames s op ∧ EventFits s op ∧ BetweenFrames s op) {} lateGap ∧
      consumed (run (serialStep twoFrames) {} lateGap) = 2 * frameBytes ∧
      (run (serialStep twoFrames) {} lateGap).cmd.processed = twoFrames.take 1 := by
  exact ⟨by decide +kernel, by decide +kernel, by decide +kernel⟩

end QiranFirmware.Cmd
