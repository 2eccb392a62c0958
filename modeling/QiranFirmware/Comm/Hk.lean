import QiranFirmware.Comm.Packing
import QiranFirmware.Svc.Health

/-! # Housekeeping and status frames

`comm_rs485_hk.c`: the two frames of the RS-485 link, packed field by field. The board is read through
a sampler, and a frame goes out whether or not it can be read.
-/
namespace QiranFirmware

inductive InterlockStatus
  | unevaluated | pass | fail
  deriving DecidableEq, Repr

namespace Hk

def packetId : UInt8 := 0xA5

def statusId : UInt8 := 0xA6

def packetVersion : UInt8 := 1

def frameBytes : UInt32 := 56

def statusBytes : UInt32 := 20

def rails : ℕ := 5

def boardSensors : ℕ := 2

def interlocks : ℕ := 5

def plErrorBytes : ℕ := 8

end Hk

@[ext]
structure HkSample where
  railMv : Fin Hk.rails → UInt16
  psTempC100 : Int16
  boardTempC100 : Fin Hk.boardSensors → Int16
  ddrTempC100 : Int16
  psClockHz : UInt32
  plClockHz : UInt32
  porStatus : UInt8
  plConfigDone : UInt8
  overcurrentFlags : UInt8
  brownoutFlags : UInt8
  plError : Fin Hk.plErrorBytes → UInt8
  bootMode : UInt8

@[ext]
structure StatusReport where
  payload : PayloadStatus
  health : HealthVerdict
  interlock : Fin Hk.interlocks → InterlockStatus
  fault : FaultId
  severity : Severity

/-- What a sampler does with the sample it is handed: its status, what it leaves in the sample, and
the faults it reports. -/
structure SampleRun where
  status : Status := .ok
  sample : HkSample
  reports : List (FaultId × UInt32) := []

abbrev HkSampler := HkSample → SampleRun

/-- The statics of `comm_rs485_hk.c` that building a frame uses. -/
structure Hk where
  sampler : Option HkSampler := none
  sampleFailures : UInt32 := 0

/-- What a build leaves: the buffer, and the number of bytes written where it succeeds. -/
structure FrameBuild where
  status : Status
  buf : Buf
  written : UInt32

/-- The end of both builds: the status of a packing that should have come to `expected` bytes. -/
def Packing.built (expected : UInt32) (p : Packing) : FrameBuild :=
  ⟨if p.off = expected then .ok else .errIntegrity, p.buf, p.off⟩

namespace Hk

def zeroSample : HkSample where
  railMv _ := 0
  psTempC100 := 0
  boardTempC100 _ := 0
  ddrTempC100 := 0
  psClockHz := 0
  plClockHz := 0
  porStatus := 0
  plConfigDone := 0
  overcurrentFlags := 0
  brownoutFlags := 0
  plError _ := 0
  bootMode := 0

/-- The part of `comm_rs485_hk_build` that reads the board. -/
def sample (k : Hk) (v : Svc) : HkSample × Hk × Svc :=
  let failed := { k with sampleFailures := k.sampleFailures + 1 }
  match k.sampler with
  | none => (zeroSample, failed, v.report .hkSample 0)
  | some sampler =>
    let run := sampler zeroSample
    let v := v.reportAll run.reports
    if run.status = .ok then (run.sample, k, v) else (zeroSample, failed, v.report .hkSample 1)

/-- `comm_rs485_hk_build`. `late` is the number of ticks that the timer counts between the frame's two
readings of the time. -/
def build (w : Watchdog) (late : UInt32) (buf : Buf) (len : UInt32) (k : Hk) (v : Svc) :
    FrameBuild × Hk × Svc :=
  if len < frameBytes then (⟨.errParam, buf, 0⟩, k, v)
  else
    let (sample, k, v) := k.sample v
    let p : Packing := ⟨buf, 0⟩
    let p := p.putU8 packetId
    let p := p.putU8 packetVersion
    let p := p.putU32 v.nowMs.toUInt32
    let v := v.collectTime
    let p := p.putEach Packing.putU16 sample.railMv
    let p := p.putI16 sample.psTempC100
    let p := p.putEach Packing.putI16 sample.boardTempC100
    let p := p.putI16 sample.ddrTempC100
    let p := p.putU32 sample.psClockHz
    let p := p.putU32 sample.plClockHz
    let p := p.putU8 sample.porStatus
    let p := p.putU8 sample.plConfigDone
    let p := p.putU8 (if w.armed then 1 else 0)
    let p := p.putU8 sample.overcurrentFlags
    let p := p.putU8 sample.brownoutFlags
    let p := p.putEach Packing.putU8 sample.plError
    let p := p.putU8 sample.bootMode
    let v := { v with rawTick := v.rawTick + late }
    let p := p.putU32 (v.nowMs / 1000).toUInt32
    let v := v.collectTime
    let faults := v.log.faultTotal
    let p := p.putU16 (if 0xFFFF < faults then 0xFFFF else faults.toUInt16)
    let p := p.putCrc
    (p.built frameBytes, k, v)

def statusBuild (report : StatusReport) (buf : Buf) (len : UInt32) (v : Svc) : FrameBuild × Svc :=
  if len < statusBytes then (⟨.errParam, buf, 0⟩, v)
  else
    let p : Packing := ⟨buf, 0⟩
    let p := p.putU8 statusId
    let p := p.putU8 packetVersion
    let p := p.putU32 v.nowMs.toUInt32
    let v := v.collectTime
    let p := p.putU8 (UInt8.ofNat report.payload.ctorIdx)
    let p := p.putU8 (UInt8.ofNat report.health.ctorIdx)
    let p := p.putEach Packing.putU8 fun i => UInt8.ofNat (report.interlock i).ctorIdx
    let p := p.putU16 report.fault.code
    let p := p.putU8 (UInt8.ofNat report.severity.ctorIdx)
    let p := p.putCrc
    (p.built statusBytes, v)

end Hk

@[ext]
structure HkFrame where
  packetId : UInt8
  version : UInt8
  timestamp : UInt32
  sample : HkSample
  watchdog : UInt8
  uptime : UInt32
  faults : UInt16

def HkFrame.read (buf : Buf) : HkFrame where
  packetId := buf 0
  version := buf 1
  timestamp := buf.getU32 2
  sample :=
    { railMv := fun i => buf.getU16 (UInt32.ofNat (6 + 2 * i))
      psTempC100 := (buf.getU16 16).toInt16
      boardTempC100 := fun i => (buf.getU16 (UInt32.ofNat (18 + 2 * i))).toInt16
      ddrTempC100 := (buf.getU16 22).toInt16
      psClockHz := buf.getU32 24
      plClockHz := buf.getU32 28
      porStatus := buf 32
      plConfigDone := buf 33
      overcurrentFlags := buf 35
      brownoutFlags := buf 36
      plError := fun i => buf (UInt32.ofNat (37 + i))
      bootMode := buf 45 }
  watchdog := buf 34
  uptime := buf.getU32 46
  faults := buf.getU16 50

@[ext]
structure StatusFrame where
  packetId : UInt8
  version : UInt8
  timestamp : UInt32
  payload : UInt8
  health : UInt8
  interlock : Fin Hk.interlocks → UInt8
  fault : UInt16
  severity : UInt8

def StatusFrame.read (buf : Buf) : StatusFrame where
  packetId := buf 0
  version := buf 1
  timestamp := buf.getU32 2
  payload := buf 6
  health := buf 7
  interlock i := buf (UInt32.ofNat (8 + i))
  fault := buf.getU16 13
  severity := buf 15

end QiranFirmware
