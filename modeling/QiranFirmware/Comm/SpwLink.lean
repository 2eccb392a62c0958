import QiranFirmware.Comm.Ccsds
import QiranFirmware.Svc.Config

/-! # The serial data link

`comm_spw_link.c`: bringing the link up, watching it, and handing on what it receives. The fabric
behind it answers each call; its answers are arguments here.
-/
namespace QiranFirmware

inductive SpwState
  | down | starting | run | failed
  deriving DecidableEq, Repr

/-- One call of the device's `receive`: the length it returns, the bytes it leaves in the buffer,
and what a consumer of the packet answers. -/
structure SpwReceived where
  length : UInt32
  packet : Buf
  run : ConsumerRun := {}

/-- The device's answers during one `comm_spw_link_service`: the status of a start, the status and
the two values that reading the status leaves, and the packets that are waiting. -/
structure SpwAnswers where
  start : Status := .ok
  status : Status := .ok
  running : Bool := false
  statusWord : UInt32 := 0
  received : List SpwReceived := []

structure SpwLink where
  opsSet : Bool := false
  state : SpwState := .down
  startBudget : Timeout := {}
  attempts : UInt32 := 0
  disconnects : UInt32 := 0
  errors : UInt32 := 0
  sent : UInt32 := 0
  received : UInt32 := 0
  statusWord : UInt32 := 0
  errorWord : UInt32 := 0
  deriving DecidableEq, Repr

namespace SpwLink

def rxBytes : UInt32 := 512

def init : SpwLink := {}

def setOps (attach : Bool) (l : SpwLink) : SpwLink :=
  if attach then { l with opsSet := true, state := .down } else init

def running (l : SpwLink) : Bool := l.state == .run

def send (answer : Status) (len : UInt32) (l : SpwLink) (v : Svc) : Status × SpwLink × Svc :=
  if len = 0 then (.errParam, l, v)
  else if l.state ≠ .run then (.errState, l, v)
  else if answer = .ok then (answer, { l with sent := l.sent + 1 }, v)
  else (answer, { l with errors := l.errors + 1 }, v.report .spwLink answer.code)

def serviceInterrupts (events : List UInt32) (l : SpwLink) (v : Svc) : SpwLink × Svc :=
  if !l.opsSet then (l, v)
  else
    events.foldl (fun (l, v) datum =>
      ({ l with errors := l.errors + 1, errorWord := datum }, v.report .spwLink datum)) (l, v)

/-- `deliver_received`; a device with nothing waiting returns 0. -/
def deliverReceived : List SpwReceived → SpwLink → Ccsds → Svc → SpwLink × Ccsds × Svc
  | [], l, p, v => (l, p, v)
  | r :: rest, l, p, v =>
    let (l, p, v) :=
      if r.length ≠ 0 then
        let (_, p, v) := p.receive r.packet r.length r.run v
        ({ l with received := l.received + 1 }, p, v)
      else (l, p, v)
    if r.length = rxBytes then deliverReceived rest l p v else (l, p, v)

def service (config : ConfigParam → Int32) (ans : SpwAnswers) (l : SpwLink) (p : Ccsds) (v : Svc) :
    SpwLink × Ccsds × Svc :=
  if !l.opsSet then (l, p, v)
  else
    match l.state with
    | .down =>
      let l := { l with attempts := l.attempts + 1 }
      if ans.start ≠ .ok then
        let v := v.report .spwLink 0
        let l := { l with errors := l.errors + 1 }
        if v.retriesExhausted .spwLink then ({ l with state := .failed }, p, v) else (l, p, v)
      else
        ({ l with
            startBudget := .arm v.nowMs (config .spwStartTimeoutMs).toUInt32
            state := .starting }, p, v.collectTime)
    | .starting =>
      let l := { l with statusWord := ans.statusWord }
      if ans.status ≠ .ok then
        ({ l with errors := l.errors + 1, state := .down }, p, v.report .spwLink 0)
      else if ans.running then
        ({ l with state := .run, startBudget := l.startBudget.disarm }, p,
          v.logEvent 0 ans.statusWord)
      else
        let (expired, v) := Svc.timeoutExpired l.startBudget v
        if expired then
          let v := v.report .spwLink ans.statusWord
          ({ l with
              errorWord := ans.statusWord
              state := if v.retriesExhausted .spwLink then .failed else .down }, p, v)
        else (l, p, v)
    | .run =>
      let l := { l with statusWord := ans.statusWord }
      if ans.status ≠ .ok ∨ ans.running = false then
        ({ l with disconnects := l.disconnects + 1, errorWord := ans.statusWord, state := .down }, p,
          v.report .spwLink ans.statusWord)
      else deliverReceived ans.received l p v
    | .failed => (l, p, v)

end SpwLink

end QiranFirmware
