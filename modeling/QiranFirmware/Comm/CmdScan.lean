import QiranFirmware.Comm.CmdFraming
import QiranFirmware.Machine.WindowScan

/-! # Frames in a stream of any bytes

The scan of everything that the assembler has been given goes on from what it holds, whatever comes
next; and what it processes is what the scan finds.
-/
namespace QiranFirmware.Cmd

open Machine

/-- A window that is a frame: it begins with the packet identifier and carries its checksum. -/
def isFrame (w : List UInt8) : Bool :=
  w.length == frameBytes && w.head? == some packetId && checked w

def frames (stream : List UInt8) : List (List UInt8) := windows isFrame frameBytes 0 stream

theorem length_of_isFrame {w : List UInt8} (h : isFrame w = true) : w.length = frameBytes := by
  simp only [isFrame, Bool.and_eq_true, beq_iff_eq] at h
  exact h.1.1

theorem not_isFrame {x : UInt8} (xs : List UInt8) (h : decide (x ≠ packetId) = true) :
    ¬ isFrame ((x :: xs).take frameBytes) = true := by
  have hne := of_decide_eq_true h
  simp [isFrame, frameBytes, hne]

theorem frames_frame {w : List UInt8} (h : isFrame w = true) (rest : List UInt8) :
    frames (w ++ rest) = w :: frames rest :=
  windows_hit h (length_of_isFrame h) (Nat.succ_pos 12) rest

theorem frames_miss {x : UInt8} {xs : List UInt8} (h : ¬ isFrame ((x :: xs).take frameBytes) = true) :
    frames (x :: xs) = frames xs :=
  windows_miss h

theorem frames_short {xs : List UInt8} (h : xs.length < frameBytes) : frames xs = [] :=
  windows_short (fun _ hw => length_of_isFrame hw) h

theorem frames_dropWhile (xs rest : List UInt8) :
    frames (xs.dropWhile (· ≠ packetId) ++ rest) = frames (xs ++ rest) :=
  windows_dropWhile (fun _ bs => not_isFrame bs) xs rest

/-- With the bytes `past` given, the scan goes on from what the assembler holds. -/
structure Scanned (past asm : List UInt8) : Prop where
  short : asm.length < frameBytes
  start : ∀ b, asm.head? = some b → b = packetId
  scan : ∀ rest, frames (past ++ rest) = frames past ++ frames (asm ++ rest)

namespace Scanned
variable {past asm asm' bytes : List UInt8}

theorem nil : Scanned [] [] := ⟨Nat.succ_pos 12, by simp, fun _ => rfl⟩

theorem trans (h : Scanned past asm) (k : Scanned (asm ++ bytes) asm') :
    Scanned (past ++ bytes) asm' where
  short := k.short
  start := k.start
  scan rest := by
    rw [List.append_assoc, h.scan, ← List.append_assoc, k.scan, h.scan bytes, List.append_assoc]

theorem drop_frames (h : Scanned past asm) (bytes : List UInt8) :
    (frames (past ++ bytes)).drop (frames past).length = frames (asm ++ bytes) := by
  rw [h.scan, List.drop_left]

end Scanned

section Bytes
variable (answers : ℕ → HandlerRun) (stage : Stage)

/-- The resynchronisation drops a byte at which no frame starts, and those after it that start
none. -/
theorem scanned_resync {c : Cmd} (hlength : c.asm.length = frameBytes) (hbad : ¬ isFrame c.asm = true) :
    frames c.asm = [] ∧ Scanned c.asm c.resync.asm := by
  obtain ⟨x, tail, hasm⟩ := List.exists_cons_of_length_eq_add_one hlength
  have hdrop : c.resync.asm = tail.dropWhile (· ≠ packetId) := by
    simp [resync, hasm]
  rw [hasm] at hlength hbad
  have hmiss (rest : List UInt8) : frames (x :: (tail ++ rest)) = frames (tail ++ rest) := by
    refine frames_miss ?_
    rwa [← List.cons_append, List.take_left' hlength]
  have hnone : frames c.asm = [] := by
    have hall := hmiss []
    rw [List.append_nil] at hall
    rw [hasm, hall, frames_short (Nat.lt_of_succ_le hlength.le)]
  refine ⟨hnone, ?_, ?_, ?_⟩
  · have hle := (List.dropWhile_sublist (p := fun b => decide (b ≠ packetId)) (l := tail)).length_le
    rw [hdrop]
    rw [List.length_cons] at hlength
    omega
  · intro b hb
    have hhead := List.head?_dropWhile_not (fun b => decide (b ≠ packetId)) tail
    rw [hdrop] at hb
    rw [hb] at hhead
    simpa using hhead
  · intro rest
    rw [hnone, hdrop, hasm, frames_dropWhile, List.cons_append, hmiss]
    rfl

/-- A byte more, and the frame that it completes if it does. -/
theorem scanned_takeByte {past : List UInt8} {s : Cmd × Svc} (h : Scanned past s.1.asm) (b : UInt8) :
    Scanned (past ++ [b]) (takeByte answers stage s b).1.asm ∧
      (takeByte answers stage s b).1.processed = s.1.processed ++ frames (s.1.asm ++ [b]) := by
  suffices hbyte : Scanned (s.1.asm ++ [b]) (takeByte answers stage s b).1.asm ∧
      (takeByte answers stage s b).1.processed = s.1.processed ++ frames (s.1.asm ++ [b]) from
    ⟨h.trans hbyte.1, hbyte.2⟩
  have hhead : s.1.asm ≠ [] ∨ b = packetId → ∀ x, (s.1.asm ++ [b]).head? = some x → x = packetId := by
    intro hstart x hx
    cases hasm : s.1.asm with
    | nil =>
      rw [hasm, List.nil_append] at hx
      rw [← Option.some.inj hx]
      exact hstart.resolve_left (by simp [hasm])
    | cons y ys =>
      rw [hasm] at hx
      exact h.start x (by rw [hasm]; exact hx)
  unfold takeByte
  by_cases hnoise : s.1.asm = [] ∧ b ≠ packetId
  · rw [if_pos hnoise]
    obtain ⟨hempty, hb⟩ := hnoise
    have hnone : frames [b] = [] := frames_short (show 1 < 13 by omega)
    rw [hempty, List.nil_append, hnone]
    refine ⟨⟨Nat.succ_pos 12, by simp, ?_⟩, (List.append_nil _).symm⟩
    intro rest
    rw [hnone, List.singleton_append, frames_miss (not_isFrame rest (decide_eq_true hb))]
    rfl
  rw [if_neg hnoise]
  have hstart : s.1.asm ≠ [] ∨ b = packetId := by
    by_cases hb : b = packetId
    · exact .inr hb
    · exact .inl fun hempty => hnoise ⟨hempty, hb⟩
  dsimp only
  split
  · rename_i hfull
    split
    · rename_i hchecked
      have hframe : isFrame (s.1.asm ++ [b]) = true := by
        obtain ⟨x, tail, hasm⟩ := List.exists_cons_of_length_eq_add_one hfull
        have hx := hhead hstart x (by rw [hasm]; rfl)
        have hmarked : (s.1.asm ++ [b]).head? = some packetId := by rw [hasm, hx]; rfl
        simp only [isFrame, hfull, hchecked, hmarked, beq_self_eq_true, Bool.and_true]
      have hone : frames (s.1.asm ++ [b]) = [s.1.asm ++ [b]] := by
        have hall := frames_frame hframe []
        rwa [List.append_nil] at hall
      rw [hone]
      refine ⟨⟨Nat.succ_pos 12, by simp, fun rest => ?_⟩, (process_line ..).processed⟩
      rw [hone, frames_frame hframe]
      rfl
    · rename_i hunchecked
      have hbad : ¬ isFrame (s.1.asm ++ [b]) = true := by
        simp only [isFrame, Bool.and_eq_true]
        rintro ⟨-, hchecked⟩
        exact hunchecked hchecked
      obtain ⟨hnone, hresync⟩ := @scanned_resync { s.1 with asm := s.1.asm ++ [b] } hfull hbad
      dsimp only at hnone hresync
      rw [hnone, List.append_nil]
      exact ⟨hresync, rfl⟩
  · rename_i hpart
    have hshort := h.short
    rw [List.length_append, List.length_singleton] at hpart
    have hless : (s.1.asm ++ [b]).length < frameBytes := by
      rw [List.length_append, List.length_singleton]
      omega
    have hnone := frames_short hless
    rw [hnone]
    exact ⟨⟨hless, hhead hstart, fun rest => by rw [hnone]; rfl⟩, (List.append_nil _).symm⟩

theorem scanned_chunk {past : List UInt8} {s : Cmd × Svc} (h : Scanned past s.1.asm)
    (chunk : List UInt8) :
    Scanned (past ++ chunk) (chunk.foldl (takeByte answers stage) s).1.asm ∧
      (chunk.foldl (takeByte answers stage) s).1.processed =
        s.1.processed ++ (frames (past ++ chunk)).drop (frames past).length := by
  induction chunk generalizing past s with
  | nil => exact ⟨by rwa [List.append_nil], by simp⟩
  | cons b chunk ih =>
    obtain ⟨hbyte, hprocessed⟩ := scanned_takeByte answers stage h b
    obtain ⟨hchunk, hrest⟩ := ih hbyte
    rw [← List.append_cons] at hchunk hrest
    refine ⟨hchunk, ?_⟩
    have hfirst := h.drop_frames [b]
    have hmore : frames (past ++ b :: chunk) = frames (past ++ [b]) ++
        frames ((takeByte answers stage s b).1.asm ++ chunk) := by
      rw [List.append_cons, hbyte.scan]
    have hone : frames (past ++ [b]) = frames past ++ frames (s.1.asm ++ [b]) := h.scan [b]
    rw [List.foldl_cons, hrest, hprocessed, hmore, List.drop_left, hone, List.append_assoc,
      List.append_assoc, List.drop_left]

end Bytes

def NoGap : SerialOp → Prop
  | .event _ _ kind => kind ≠ uartKindGap
  | _ => True

structure Scanning (stream : List UInt8) (s : Serial) : Prop where
  uart : s.uart.Valid
  gapless : ∀ e ∈ s.uart.irq.events, e.kind ≠ uartKindGap
  pushed : s.pushed ≤ stream.length
  scanned : ∃ past, past ++ s.uart.rx.contents = stream.take s.pushed ∧ Scanned past s.cmd.asm ∧
    s.cmd.processed = frames past

variable {stream : List UInt8} {s : Serial}

theorem take_arriving (stream : List UInt8) (s : Serial) (n : ℕ) :
    stream.take (s.pushed + (arriving [stream] s n).length) =
      stream.take s.pushed ++ arriving [stream] s n := by
  have hflat : [stream].flatten = stream := by simp
  have hpre : arriving [stream] s n <+: stream.drop s.pushed := by
    rw [arriving, hflat]
    exact List.take_prefix ..
  rw [List.take_add, ← List.prefix_iff_eq_take.mp hpre]

theorem scanning_receive (h : Scanning stream s) {n : ℕ} (hfits : Fits [stream] s (.receive n)) :
    Scanning stream (serialStep [stream] s (.receive n)) := by
  obtain ⟨hvalid, hcontents⟩ := Uart.drain_spec h.uart (arriving [stream] s n) hfits
  obtain ⟨past, hpast, hscanned, hprocessed⟩ := h.scanned
  have htake := take_arriving stream s n
  refine ⟨hvalid, h.gapless, ?_, past, ?_, hscanned, hprocessed⟩
  · have hlength := congrArg List.length htake
    have hpushed := h.pushed
    rw [List.length_append, List.length_take, List.length_take] at hlength
    simp only [serialStep]
    omega
  · simp only [serialStep]
    rw [hcontents, htake, ← List.append_assoc, hpast]

theorem scanning_interrupts (h : Scanning stream s) :
    Scanning stream (serialStep [stream] s .interrupts) := by
  obtain ⟨hempty, hvalid, hmask, hdrained⟩ := interruptsLoop_spec 9 s.cmd h.uart.irq h.uart.events_lt
  have hfold := interruptsLoop_drained 9 s.uart.irq s.cmd
  rw [hdrained, foldl_onEvent_quiet] at hfold
  · obtain ⟨past, hpast, hscanned⟩ := h.scanned
    refine ⟨⟨h.uart.rx, h.uart.rxMask, hvalid, hmask.trans h.uart.irqMask⟩, ?_, h.pushed, past, hpast,
      ?_⟩
    · simp only [serialStep, serviceInterrupts]
      rw [hempty]
      simp
    · simp only [serialStep, serviceInterrupts]
      rwa [hfold]
  · rintro ⟨e, he, hgap⟩
    exact absurd hgap (h.gapless e he)

/-- A service takes all that the ring holds, and leaves it empty. -/
theorem scanning_service (h : Scanning stream s) (answers : ℕ → HandlerRun) (stage : Stage)
    (v : Svc) : Scanning stream (serialStep [stream] s (.service answers stage v)) ∧
      consumed (serialStep [stream] s (.service answers stage v)) = s.pushed := by
  obtain ⟨hempty, hring, hmask, htaken⟩ := assembleLoop_spec answers stage 5
    (track answers stage s.cmd v) h.uart.rx h.uart.contents_lt
  have hfold := assembleLoop_taken answers stage 5 s.uart.rx (track answers stage s.cmd v)
  rw [htaken] at hfold
  obtain ⟨past, hpast, hscanned, hprocessed⟩ := h.scanned
  obtain ⟨hasm, hsame⟩ := track_line answers stage s.cmd v
  rw [← hasm] at hscanned
  obtain ⟨hchunk, hmore⟩ := scanned_chunk answers stage hscanned s.uart.rx.contents
  rw [← hfold] at hchunk hmore
  refine ⟨⟨⟨hring, hmask.trans h.uart.rxMask, h.uart.irq, h.uart.irqMask⟩, h.gapless, h.pushed,
    past ++ s.uart.rx.contents, ?_, hchunk, ?_⟩, ?_⟩
  · simp only [serialStep, service, assemble]
    rw [hempty, List.append_nil, hpast]
  · have hsplit := hscanned.scan s.uart.rx.contents
    simp only [serialStep, service, assemble]
    rw [hmore, hsame, hprocessed, hsplit, List.drop_left]
  · simp only [consumed, serialStep, service, assemble]
    rw [hempty]
    rfl

theorem scanning_step (stream : List UInt8) (s : Serial) (op : SerialOp) (h : Scanning stream s)
    (hop : Fits [stream] s op ∧ NoGap op) : Scanning stream (serialStep [stream] s op) := by
  cases op with
  | receive n => exact scanning_receive h hop.1
  | event tick datum kind =>
    refine ⟨Uart.publish_valid h.uart tick datum kind, ?_, h.pushed, h.scanned⟩
    intro e he
    rcases IrqSlot.mem_publish h.uart.irq he with hold | hkind
    · exact h.gapless e hold
    · rw [hkind]
      exact hop.2
  | interrupts => exact scanning_interrupts h
  | service answers stage v => exact (scanning_service h answers stage v).1

/-- The frames processed are those that the scan finds in the bytes consumed, which after a service are
all that have come; and whatever bytes a service is given, the next one is stored below index 13. -/
theorem processed_eq_frames (stream : List UInt8) (handler : CmdId → Option Handler)
    (transmit : Bool) {ops : List SerialOp}
    (h : Along (serialStep [stream]) (fun s op => Fits [stream] s op ∧ NoGap op)
      { cmd := { handler, transmit } } ops) :
    (run (serialStep [stream]) { cmd := { handler, transmit } } ops).cmd.processed =
        frames (stream.take
          (consumed (run (serialStep [stream]) { cmd := { handler, transmit } } ops))) ∧
      (∀ answers stage v, consumed (serialStep [stream]
        (run (serialStep [stream]) { cmd := { handler, transmit } } ops) (.service answers stage v)) =
          (run (serialStep [stream]) { cmd := { handler, transmit } } ops).pushed) ∧
      ∀ answers stage v bytes, (List.foldl (takeByte answers stage) (track answers stage
        (run (serialStep [stream]) { cmd := { handler, transmit } } ops).cmd v) bytes).1.asm.length <
          frameBytes := by
  have hstart : Scanning stream { cmd := { handler, transmit } } :=
    ⟨Uart.valid_init, by simp [IrqSlot.events, SlotRing.contents], Nat.zero_le _, [],
      by simp [Ring.contents, SlotRing.contents], .nil, rfl⟩
  have hinv := run_invariant (scanning_step stream) hstart h
  generalize run (serialStep [stream]) { cmd := { handler, transmit } } ops = s at hinv ⊢
  obtain ⟨past, hpast, hscanned, hprocessed⟩ := hinv.scanned
  refine ⟨?_, fun answers stage v => (scanning_service hinv answers stage v).2, ?_⟩
  · have hlength := congrArg List.length hpast
    have hpushed := hinv.pushed
    rw [List.length_append, List.length_take] at hlength
    have hconsumed : consumed s = past.length := by
      rw [consumed]
      omega
    have hpre : past <+: stream := by
      refine List.IsPrefix.trans ⟨_, hpast⟩ (List.take_prefix ..)
    rw [hconsumed, ← List.prefix_iff_eq_take.mp hpre]
    exact hprocessed
  · intro answers stage v bytes
    rw [← (track_line answers stage s.cmd v).asm] at hscanned
    exact (scanned_chunk answers stage hscanned bytes).1.short

def noisy : List UInt8 := [0x00, packetId, packetId] ++ build .mode 0 1

example : frames noisy = [build .mode 0 1] := by decide +kernel

def cutUp : List SerialOp := [.receive 2, serviceBoot, .receive 9, serviceBoot, .receive 9, serviceBoot]

theorem processed_eq_frames_noisy :
    (run (serialStep [noisy]) {} cutUp).cmd.processed =
        frames (noisy.take (consumed (run (serialStep [noisy]) {} cutUp))) ∧
      (∀ answers stage v, consumed (serialStep [noisy] (run (serialStep [noisy]) {} cutUp)
        (.service answers stage v)) = (run (serialStep [noisy]) {} cutUp).pushed) ∧
      ∀ answers stage v bytes, (List.foldl (takeByte answers stage) (track answers stage
        (run (serialStep [noisy]) {} cutUp).cmd v) bytes).1.asm.length < frameBytes :=
  processed_eq_frames noisy _ false
    ⟨⟨by decide +kernel, trivial⟩, ⟨trivial, trivial⟩, ⟨by decide +kernel, trivial⟩,
      ⟨trivial, trivial⟩, ⟨by decide +kernel, trivial⟩, ⟨trivial, trivial⟩, trivial⟩

end QiranFirmware.Cmd
