import QiranFirmware.Comm.Output

/-! # The non-volatile store

`storage_nand.c`: records laid end to end in a memory device, and their transfer to the outbound
queue through one staging buffer.
-/
namespace QiranFirmware

inductive NandType
  | raw | processed | health
  deriving DecidableEq, Repr

def NandType.code (t : NandType) : UInt32 := UInt32.ofNat t.ctorIdx

/-- A read of the device that does not go as it should: the status, and what it leaves in the
destination. -/
structure NandRead where
  status : Status
  data : Buf

/-- The statics of `storage_nand.c`, and in `flash` what the attached device holds. -/
structure Store where
  ready : Bool := false
  capacity : UInt32 := 0
  used : UInt32 := 0
  records : UInt32 := 0
  sequence : UInt32 := 0
  transferActive : Bool := false
  transferOffset : UInt32 := 0
  transferred : UInt32 := 0
  writeFailures : UInt32 := 0
  readFailures : UInt32 := 0
  stage : Buf := fun _ => 0
  flash : Buf := fun _ => 0

namespace Store

variable {β : Type}

def magic : UInt32 := 0x514E4452
def headerBytes : UInt32 := 20
def transferStage : UInt32 := 512

theorem toNat_headerBytes : headerBytes.toNat = 20 := rfl

def init (s : Store) : Store := { stage := s.stage, flash := s.flash }

def setOps (ops : Option (UInt32 × Buf)) (s : Store) : Status × Store :=
  match ops with
  | none => (.ok, s.init)
  | some (capacity, flash) =>
    if capacity = 0 then (.errParam, s)
    else (.ok, { s with capacity, flash, ready := true, used := 0, records := 0 })

def classOf (type : UInt32) : CcsdsClass :=
  if type = 1 then .scienceProcessed else if type = 2 then .health else .scienceRaw

def header (type : NandType) (sequence : UInt32) (payload : List UInt8) : List UInt8 :=
  Buf.be32 magic ++ Buf.be32 type.code ++ Buf.be32 sequence ++
    Buf.be32 (UInt32.ofNat payload.length) ++ Buf.be32 (Crc.crc32 payload)

/-- `storage_nand_store` of a payload that is not null, the device answering its two writes. -/
def store (type : NandType) (payload : List UInt8) (writeHeader writeData : Status) (s : Store)
    (v : Svc) : Status × Store × Svc :=
  let len := UInt32.ofNat payload.length
  if len = 0 then (.errParam, s, v)
  else if !s.ready then (.errUnsupported, s, v)
  else if s.transferActive then (.errBusy, s, v)
  else if s.capacity - s.used < headerBytes + len then (.errRange, s, v.report .nandWrite s.used)
  else if writeHeader ≠ .ok then
    (.errHardware, { s with writeFailures := s.writeFailures + 1 }, v.report .nandWrite s.used)
  else
    let s := { s with flash := s.flash.overlay s.used (header type s.sequence payload) }
    if writeData ≠ .ok then
      (.errHardware, { s with writeFailures := s.writeFailures + 1 }, v.report .nandWrite s.used)
    else
      (.ok, { s with
        flash := s.flash.overlay (s.used + headerBytes) payload
        used := s.used + (headerBytes + len)
        records := s.records + 1
        sequence := s.sequence + 1 }, v)

def transferBegin (s : Store) : Status × Store :=
  if !s.ready then (.errUnsupported, s)
  else if s.transferActive then (.errBusy, s)
  else (.ok, { s with transferOffset := 0, transferred := 0, transferActive := true })

/-- A read of the device from an offset: as it holds it, unless it answers otherwise. -/
def read (s : Store) (off : UInt32) (answer : Option NandRead) : NandRead :=
  answer.getD { status := .ok, data := fun i => s.flash (off + i) }

def describes (s : Store) (h : Buf) : Bool :=
  h.getU32 0 == magic && h.getU32 4 < 3 && h.getU32 12 != 0 &&
    s.transferOffset + headerBytes + h.getU32 12 ≤ s.used

/-- The failures on which `storage_nand_transfer_service` gives up. -/
def abandon (s : Store) (v : Svc) : Store × Svc :=
  ({ s with readFailures := s.readFailures + 1, transferActive := false },
    v.report .nandWrite s.transferOffset)

/-- `storage_nand_transfer_service`, the device answering its two reads. `stage` names the staging
buffer. -/
def transferService (stage : β) (readHeader readData : Option NandRead) (s : Store) (q : Output β)
    (v : Svc) : Store × Output β × Svc :=
  if !s.transferActive then (s, q, v)
  else if s.used ≤ s.transferOffset then
    ({ s with transferActive := false }, q, v.logEvent 0 s.transferred)
  else
    let h := s.read s.transferOffset readHeader
    let len := h.data.getU32 12
    let next := s.transferOffset + (headerBytes + len)
    if h.status ≠ .ok ∨ !s.describes h.data then
      let (s, v) := s.abandon v
      (s, q, v)
    else if transferStage < len then
      ({ s with readFailures := s.readFailures + 1, transferOffset := next }, q,
        v.report .nandWrite len)
    else
      let d := s.read (s.transferOffset + headerBytes) readData
      let s := { s with stage := s.stage.fill len d.data }
      if d.status ≠ .ok then
        let (s, v) := s.abandon v
        (s, q, v)
      else if Crc.crc32 (s.stage.bytes 0 len) ≠ h.data.getU32 16 then
        ({ s with readFailures := s.readFailures + 1, transferOffset := next }, q,
          v.report .packetIntegrity s.transferOffset)
      else
        let (st, q, v) := q.submit (classOf (h.data.getU32 4)) stage len v
        if st ≠ .ok then (s, q, v)
        else ({ s with transferOffset := next, transferred := s.transferred + 1 }, q, v)

def clear (erase : Status) (flash : Buf) (s : Store) (v : Svc) : Status × Store × Svc :=
  if !s.ready then (.errUnsupported, s, v)
  else if s.transferActive then (.errBusy, s, v)
  else if s.records ≠ 0 ∧ s.transferred ≠ s.records then (.errState, s, v)
  else
    let s := { s with flash }
    if erase ≠ .ok then
      (.errHardware, { s with writeFailures := s.writeFailures + 1 }, v.report .nandWrite 0)
    else (.ok, { s with used := 0, records := 0, transferred := 0, transferOffset := 0 }, v)

end Store

end QiranFirmware
