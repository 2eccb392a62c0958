import QiranFirmware.Comm.Bytes
import QiranFirmware.Mission.Seq
import QiranFirmware.Plat.IsrUart
import QiranFirmware.Svc.Crc

/-! # Telecommands

`comm_cmd.c`: frames are assembled from the receive ring, checked, and dispatched to the handler
of the command they carry. A handler that is still busy is called again on later cycles.
-/
namespace QiranFirmware

inductive CmdId
  | payloadOn | processorOn | payloadOff | laserOn | laserOff | heatersOn | heatersOff | mode
  | processorReset | powerOnReset | flightModeReset
  deriving DecidableEq, Repr

inductive CmdResult
  | completed | accepted | rejectFormat | rejectUnknown | rejectState | rejectParam | rejectBusy
  | failed | timeout
  deriving DecidableEq, Repr

def CmdResult.code : CmdResult → UInt8
  | .completed => 0
  | .accepted => 1
  | .rejectFormat => 16
  | .rejectUnknown => 17
  | .rejectState => 18
  | .rejectParam => 19
  | .rejectBusy => 20
  | .failed => 32
  | .timeout => 33

structure CmdDef where
  stageMask : UInt32
  takesParameter : Bool
  paramMin : Int32
  paramMax : Int32
  budgetMs : UInt32
  deriving DecidableEq, Repr

namespace CmdId

def code (id : CmdId) : UInt8 := UInt8.ofNat id.ctorIdx

def all : List CmdId :=
  [payloadOn, processorOn, payloadOff, laserOn, laserOff, heatersOn, heatersOff, mode,
   processorReset, powerOnReset, flightModeReset]

def ofCode (raw : UInt8) : Option CmdId := all[raw.toNat]?

def stageBit (s : Stage) : UInt32 := 1 <<< UInt32.ofNat s.index
def anyStage : UInt32 := ((1 : UInt32) <<< 13) - 1
def earlyOnly : UInt32 := stageBit .boot ||| stageBit .precond

def cmdDef : CmdId → CmdDef
  | payloadOn => ⟨earlyOnly, false, 0, 0, 2000⟩
  | processorOn => ⟨earlyOnly, false, 0, 0, 2000⟩
  | payloadOff => ⟨anyStage, false, 0, 0, 2000⟩
  | laserOn => ⟨earlyOnly, false, 0, 0, 5000⟩
  | laserOff => ⟨anyStage, false, 0, 0, 1000⟩
  | heatersOn => ⟨earlyOnly, false, 0, 0, 2000⟩
  | heatersOff => ⟨anyStage, false, 0, 0, 1000⟩
  | mode => ⟨anyStage, true, 0, 0, 1000⟩
  | processorReset => ⟨anyStage, false, 0, 0, 1000⟩
  | powerOnReset => ⟨anyStage, false, 0, 0, 1000⟩
  | flightModeReset => ⟨anyStage, false, 0, 0, 1000⟩

def legalIn (id : CmdId) (stage : Stage) : Bool := id.cmdDef.stageMask &&& stageBit stage ≠ 0

end CmdId

/-- A registered handler: `mode_handler`, or one that hardware stands behind. -/
inductive Handler
  | mode | registered
  deriving DecidableEq, Repr

structure HandlerRun where
  reports : List (FaultId × UInt32) := []
  status : Status := .ok

structure Inflight where
  id : CmdId
  parameter : UInt32
  sequence : UInt16
  receiptMs : UInt32
  budget : Timeout
  deriving DecidableEq, Repr

/-- A call of a handler: the stage it was made in, whether by `dispatch` or by `track`, and what
it answered. -/
structure HandlerCall where
  id : CmdId
  parameter : UInt32
  stage : Stage
  first : Bool
  status : Status
  deriving DecidableEq, Repr

/-- The statics of `comm_cmd.c`. `asm` is as much of `s_asm` as `s_asm_len` counts. `sent`,
`calls` and `processed` have no counterparts in the source: they list the result frames
transmitted, the calls of handlers and the frames given to `process`. -/
structure Cmd where
  handler : CmdId → Option Handler := Function.update (fun _ => none) .mode (some .mode)
  transmit : Bool := false
  asm : List UInt8 := []
  inflight : Option Inflight := none
  received : UInt32 := 0
  completed : UInt32 := 0
  rejected : UInt32 := 0
  failed : UInt32 := 0
  resyncs : UInt32 := 0
  lastReceiptMs : UInt32 := 0
  sent : List (List UInt8) := []
  calls : List HandlerCall := []
  processed : List (List UInt8) := []

namespace Cmd

def packetId : UInt8 := 0xC5
def resultId : UInt8 := 0xC6
def version : UInt8 := 1
def frameBytes : ℕ := 13

def register (id : CmdId) (c : Cmd) : Status × Cmd :=
  if (c.handler id).isSome then (.errState, c)
  else (.ok, { c with handler := Function.update c.handler id (some .registered) })

def build (id : CmdId) (parameter : UInt32) (sequence : UInt16) : List UInt8 :=
  let body := [packetId, version, id.code] ++ Buf.be32 parameter ++ Buf.be16 sequence
  body ++ Buf.be32 (Crc.crc32 body)

def resultFrame (id : UInt8) (sequence : UInt16) (receiptMs : UInt32) (result : CmdResult)
    (detail : UInt32) : List UInt8 :=
  let body := [resultId, version] ++ Buf.be32 receiptMs ++ Buf.be16 sequence ++
    [id, result.code] ++ Buf.be32 detail
  body ++ Buf.be32 (Crc.crc32 body)

def sendResult (id : UInt8) (sequence : UInt16) (receiptMs : UInt32) (result : CmdResult)
    (detail : UInt32) (c : Cmd) (v : Svc) : Cmd × Svc :=
  ({ c with
      sent := if c.transmit then c.sent ++ [resultFrame id sequence receiptMs result detail]
        else c.sent },
    v.logEvent ((id.toUInt32 <<< 8) ||| result.code.toUInt32).toUInt16 detail)

def reject (id : UInt8) (sequence : UInt16) (receiptMs : UInt32) (result : CmdResult)
    (detail : UInt32) (c : Cmd) (v : Svc) : Cmd × Svc :=
  sendResult id sequence receiptMs result detail { c with rejected := c.rejected + 1 }
    (v.report .commandRejected ((id.toUInt32 <<< 8) ||| result.code.toUInt32))

/-- A call of a handler; the `k`th there has been is answered `answers k`. -/
def invoke (h : Handler) (answers : ℕ → HandlerRun) (stage : Stage) (first : Bool) (id : CmdId)
    (parameter : UInt32) (c : Cmd) (v : Svc) : Status × Cmd × Svc :=
  let r : HandlerRun := match h with
    | .mode => {}
    | .registered => answers c.calls.length
  (r.status, { c with calls := c.calls ++ [⟨id, parameter, stage, first, r.status⟩] },
    v.reportAll r.reports)

def dispatch (answers : ℕ → HandlerRun) (stage : Stage) (id : CmdId) (parameter : UInt32)
    (sequence : UInt16) (receiptMs : UInt32) (c : Cmd) (v : Svc) : Cmd × Svc :=
  match c.handler id with
  | none =>
    sendResult id.code sequence receiptMs .failed Status.errUnsupported.code
      { c with failed := c.failed + 1 } (v.report .commandFailed id.code.toUInt32)
  | some h =>
    let (st, c, v) := invoke h answers stage true id parameter c v
    match st with
    | .ok =>
      sendResult id.code sequence receiptMs .completed 0 { c with completed := c.completed + 1 } v
    | .errBusy =>
      let budget := .arm v.nowMs id.cmdDef.budgetMs
      sendResult id.code sequence receiptMs .accepted 0
        { c with inflight := some { id, parameter, sequence, receiptMs, budget } } v.collectTime
    | st =>
      sendResult id.code sequence receiptMs .failed st.code { c with failed := c.failed + 1 }
        (v.report .commandFailed id.code.toUInt32)

/-- `process`: format, decode, legality, parameter, dispatch. -/
def process (answers : ℕ → HandlerRun) (stage : Stage) (frame : List UInt8) (c : Cmd) (v : Svc) :
    Cmd × Svc :=
  let buf := Buf.ofList frame
  let rawId := buf 2
  let parameter := buf.getU32 3
  let sequence := buf.getU16 7
  let receiptMs := v.nowMs.toUInt32
  let v := v.collectTime
  let c := { c with
    received := c.received + 1
    lastReceiptMs := receiptMs
    processed := c.processed ++ [frame] }
  if buf 1 ≠ version then reject rawId sequence receiptMs .rejectFormat (buf 1).toUInt32 c v
  else
    match CmdId.ofCode rawId with
    | none => reject rawId sequence receiptMs .rejectUnknown rawId.toUInt32 c v
    | some id =>
      match c.inflight with
      | some i => reject rawId sequence receiptMs .rejectBusy i.id.code.toUInt32 c v
      | none =>
        if !id.legalIn stage then
          reject rawId sequence receiptMs .rejectState (UInt32.ofNat stage.index) c v
        else if id.cmdDef.takesParameter ∧
            (parameter.toInt32 < id.cmdDef.paramMin ∨ id.cmdDef.paramMax < parameter.toInt32) then
          reject rawId sequence receiptMs .rejectParam parameter c v
        else dispatch answers stage id parameter sequence receiptMs c v

def checked (frame : List UInt8) : Bool :=
  (Buf.ofList frame).getU32 9 == Crc.crc32 (frame.take 9)

def submit (answers : ℕ → HandlerRun) (stage : Stage) (frame : List UInt8) (c : Cmd) (v : Svc) :
    Status × Cmd × Svc :=
  if frame.length ≠ frameBytes then (.errParam, c, v)
  else if Buf.ofList frame 0 ≠ packetId then (.errParam, c, v)
  else if !checked frame then (.errIntegrity, c, v)
  else
    let (c, v) := process answers stage frame c v
    (.ok, c, v)

def resync (c : Cmd) : Cmd :=
  { c with resyncs := c.resyncs + 1, asm := (c.asm.drop 1).dropWhile (· ≠ packetId) }

/-- The body of the loop in `assemble` over the bytes of a chunk. -/
def takeByte (answers : ℕ → HandlerRun) (stage : Stage) (s : Cmd × Svc) (b : UInt8) : Cmd × Svc :=
  if s.1.asm = [] ∧ b ≠ packetId then s
  else
    let c := { s.1 with asm := s.1.asm ++ [b] }
    if c.asm.length = frameBytes then
      if checked c.asm then
        let (c, v) := process answers stage c.asm c s.2
        ({ c with asm := [] }, v)
      else (c.resync, s.2)
    else (c, s.2)

def assembleLoop (answers : ℕ → HandlerRun) (stage : Stage) :
    ℕ → Ring × Cmd × Svc → Ring × Cmd × Svc
  | 0, s => s
  | fuel + 1, (rx, s) =>
    let (chunk, rx) := rx.read 64
    let s := chunk.foldl (takeByte answers stage) s
    if chunk.length = 64 then assembleLoop answers stage fuel (rx, s) else (rx, s)

/-- `assemble`. The ring holds four chunks, so the fifth is always short. -/
def assemble (answers : ℕ → HandlerRun) (stage : Stage) (rx : Ring) (c : Cmd) (v : Svc) :
    Ring × Cmd × Svc :=
  assembleLoop answers stage 5 (rx, c, v)

def track (answers : ℕ → HandlerRun) (stage : Stage) (c : Cmd) (v : Svc) : Cmd × Svc :=
  match c.inflight with
  | none => (c, v)
  | some i =>
    match c.handler i.id with
    | none => (c, v)
    | some h =>
      let (st, c, v) := invoke h answers stage false i.id i.parameter c v
      match st with
      | .errBusy =>
        let (expired, v) := Svc.timeoutExpired i.budget v
        if expired then
          sendResult i.id.code i.sequence i.receiptMs .timeout i.id.cmdDef.budgetMs
            { c with inflight := none, failed := c.failed + 1 }
            (v.report .commandFailed i.id.code.toUInt32)
        else (c, v)
      | .ok =>
        sendResult i.id.code i.sequence i.receiptMs .completed 0
          { c with inflight := none, completed := c.completed + 1 } v
      | st =>
        sendResult i.id.code i.sequence i.receiptMs .failed st.code
          { c with inflight := none, failed := c.failed + 1 }
          (v.report .commandFailed i.id.code.toUInt32)

def onEvent (c : Cmd) (e : IrqEvent) : Cmd :=
  if e.kind = uartKindGap ∧ c.asm ≠ [] then { c with asm := [], resyncs := c.resyncs + 1 } else c

def interruptsLoop : ℕ → IrqSlot × Cmd → IrqSlot × Cmd
  | 0, s => s
  | fuel + 1, (irq, c) =>
    match irq.take with
    | none => (irq, c)
    | some (e, irq) => interruptsLoop fuel (irq, onEvent c e)

/-- `comm_cmd_service_interrupts`. The queue holds eight events, so the ninth take fails. -/
def serviceInterrupts (u : Uart) (c : Cmd) : Uart × Cmd :=
  let (irq, c) := interruptsLoop 9 (u.irq, c)
  ({ u with irq }, c)

def service (answers : ℕ → HandlerRun) (stage : Stage) (u : Uart) (c : Cmd) (v : Svc) :
    Uart × Cmd × Svc :=
  let (c, v) := track answers stage c v
  let (rx, c, v) := assemble answers stage u.rx c v
  ({ u with rx }, c, v)

end Cmd

end QiranFirmware
