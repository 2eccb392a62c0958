import QiranFirmware.Comm.HkFrames
import QiranFirmware.Svc.FdirOver

/-! # The housekeeping link

`comm_rs485_hk.c`: a frame is staged when its interval has passed and sent on a later cycle; a status
report is sent at once. What the link does with the bytes it is given is the environment's.
-/
namespace QiranFirmware

structure TransmitRun where
  status : Status := .ok
  reports : List (FaultId × UInt32) := []

/-- The statics of `comm_rs485_hk.c`. The transmit function is only known to be registered or not.
`wire` has no counterpart in the source: it lists what the link has been given, with its answers. -/
structure HkLink extends Hk where
  tx : Bool := false
  interlock : Fin Hk.interlocks → InterlockStatus := fun _ => .unevaluated
  frames : UInt32 := 0
  statusFrames : UInt32 := 0
  txFailures : UInt32 := 0
  lastAttemptMs : UInt64 := 0
  attempted : Bool := false
  frame : Buf := fun _ => 0
  staged : UInt32 := 0
  status : Buf := fun _ => 0
  wire : List (List UInt8 × Status) := []

namespace HkLink

def setSampler (sampler : Option HkSampler) (l : HkLink) : HkLink := { l with sampler }

def setTransmit (attach : Bool) (l : HkLink) : HkLink := { l with tx := attach }

def setInterlock (index : UInt32) (status : InterlockStatus) (l : HkLink) : HkLink :=
  { l with interlock := fun i => if i.val = index.toNat then status else l.interlock i }

/-- `transmit`; the `k`th time that it is called, the link answers `answers k`. -/
def transmit (answers : ℕ → TransmitRun) (data : List UInt8) (l : HkLink) (v : Svc) :
    Status × HkLink × Svc :=
  if !l.tx then
    (.errUnsupported, { l with txFailures := l.txFailures + 1 }, v.report .hkTransmit 0)
  else
    let answer := answers l.wire.length
    let l := { l with wire := l.wire ++ [(data, answer.status)] }
    let v := v.reportAll answer.reports
    if answer.status ≠ .ok then
      (answer.status, { l with txFailures := l.txFailures + 1 },
        v.report .hkTransmit answer.status.code)
    else (answer.status, l, v)

def recent (period : UInt32) (now : UInt64) (l : HkLink) : Bool :=
  l.attempted && decide (now - l.lastAttemptMs < period.toUInt64)

def lagging (lag : UInt32) (v : Svc) : Svc := { v.collectTime with rawTick := v.rawTick + lag }

/-- `comm_rs485_hk_stage`. `lag` ticks are counted between its reading of the time and the frame's, and
`late` between the two readings of the frame. -/
def hkStage (period : UInt32) (w : Watchdog) (lag late : UInt32) (l : HkLink) (v : Svc) :
    HkLink × Svc :=
  if l.recent period v.nowMs then (l, v.collectTime)
  else
    let (b, k, v') := Hk.build w late l.frame Hk.frameBytes l.toHk (lagging lag v)
    ({ l with
        toHk := k
        lastAttemptMs := v.nowMs
        attempted := true
        frame := b.buf
        staged := if b.status = .ok then b.written else l.staged }, v')

def hkTransmit (answers : ℕ → TransmitRun) (l : HkLink) (v : Svc) : HkLink × Svc :=
  if l.staged = 0 then (l, v)
  else
    let (st, l, v) := l.transmit answers (l.frame.bytes 0 l.staged) v
    ({ l with frames := if st = .ok then l.frames + 1 else l.frames, staged := 0 }, v)

def statusSend (answers : ℕ → TransmitRun) (report : StatusReport) (l : HkLink) (v : Svc) :
    Status × HkLink × Svc :=
  let (b, v) := Hk.statusBuild report l.status Hk.statusBytes v
  let l := { l with status := b.buf }
  if b.status ≠ .ok then (b.status, l, v)
  else
    let (st, l, v) := l.transmit answers (b.buf.bytes 0 b.written) v
    (st, { l with statusFrames := if st = .ok then l.statusFrames + 1 else l.statusFrames }, v)

section Uplink
variable (payload : PayloadStatus) (health : HealthVerdict)

/-- `fill_current`, and the fault and the severity that its callers add. -/
def fillCurrent (fault : FaultId) (severity : Severity) (l : HkLink) : StatusReport :=
  { payload, health, interlock := l.interlock, fault, severity }

/-- What `uplink_report` and `uplink_power_reset` report for a call. -/
def reported (call : UplinkCall) (l : HkLink) : StatusReport :=
  match call with
  | .reportFlag id severity _ => fillCurrent payload health id severity l
  | .requestPowerReset id => fillCurrent payload health id .severe l

/-- `k_uplink`, while the mission and the health service give these answers. -/
def uplink (answers : ℕ → TransmitRun) : UplinkOver HkLink := fun call l v =>
  l.statusSend answers (l.reported payload health call) v

end Uplink

def frameBytes (fields : List FrameField) : List UInt8 :=
  FrameField.encode (fields ++ [.u32 (Crc.crc32 (FrameField.encode fields))])

section Effects
variable (answers : ℕ → TransmitRun) (l : HkLink) (v : Svc)

/-- Reading the board calls no uplink. -/
theorem quiet_sample (k : Hk) : v.Quiet (k.sample v).2.2 := by
  unfold Hk.sample
  cases k.sampler with
  | none => exact .report ..
  | some sampler =>
    dsimp only
    split
    · exact .reportAll ..
    · exact (Svc.Quiet.reportAll ..).trans (.report ..)

/-- The services after a frame has been built. -/
theorem build_svc (w : Watchdog) (late : UInt32) (buf : Buf) (k : Hk) :
    (Hk.build w late buf Hk.frameBytes k v).2.2 = { (k.sample v).2.2 with
      rawTick := v.rawTick + late
      time := (v.time.collect v.rawTick).collect (v.rawTick + late) } := by
  have hsample := Hk.sample_svc k v
  rw [Hk.build, if_neg (UInt32.lt_irrefl _)]
  simp only
  rw [hsample]
  rfl

/-- A frame that is due is always staged. -/
theorem hkStage_of_due {period : UInt32} (w : Watchdog) (lag late : UInt32)
    (hdue : l.recent period v.nowMs = false) :
    ∃ k frame, hkStage period w lag late l v = ({ l with
        toHk := k
        lastAttemptMs := v.nowMs
        attempted := true
        frame
        staged := 56 }, (Hk.build w late l.frame Hk.frameBytes l.toHk (lagging lag v)).2.2) ∧
      frame.bytes 0 56 = frameBytes (Hk.frameOf w late l.toHk (lagging lag v)).fields := by
  have hframed := Hk.framed_build w late l.frame l.toHk (lagging lag v) (UInt32.le_refl _)
  refine ⟨(Hk.build w late l.frame Hk.frameBytes l.toHk (lagging lag v)).2.1,
    (Hk.build w late l.frame Hk.frameBytes l.toHk (lagging lag v)).1.buf, ?_, hframed.bytes⟩
  have hstaged : (if (Hk.build w late l.frame Hk.frameBytes l.toHk (lagging lag v)).1.status = .ok then
      (Hk.build w late l.frame Hk.frameBytes l.toHk (lagging lag v)).1.written else l.staged) = 56 := by
    rw [if_pos hframed.status, hframed.written]
    rfl
  simp only [hkStage, hdue, Bool.false_eq_true, ↓reduceIte, hstaged]

theorem hkStage_of_recent {period : UInt32} (w : Watchdog) (lag late : UInt32)
    (hrecent : l.recent period v.nowMs = true) :
    hkStage period w lag late l v = (l, v.collectTime) := by
  simp only [hkStage, hrecent, ↓reduceIte]

/-- What a status report puts on the link. -/
theorem statusSend_eq (report : StatusReport) :
    ∃ status, statusSend answers report l v =
      let r := transmit answers (frameBytes (Hk.statusFrameOf report v).fields)
        { l with status } v.collectTime
      (r.1, { r.2.1 with
        statusFrames := if r.1 = .ok then r.2.1.statusFrames + 1 else r.2.1.statusFrames }, r.2.2) := by
  have hframed := Hk.framed_statusBuild report l.status v (UInt32.le_refl _)
  have hsvc : (Hk.statusBuild report l.status Hk.statusBytes v).2 = v.collectTime := rfl
  refine ⟨(Hk.statusBuild report l.status Hk.statusBytes v).1.buf, ?_⟩
  simp only [statusSend, hframed.status, hframed.written, hframed.bytes, hsvc, ne_eq,
    not_true_eq_false, ↓reduceIte]
  rfl

end Effects

end HkLink

end QiranFirmware
