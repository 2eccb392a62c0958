import Mathlib.Data.UInt

/-! # The tick handover

`exec_core.c`: the timer interrupt counts ticks and major boundaries, and the loop collects what
has been counted. The interrupt may come between any two accesses of the loop, so the two functions
that collect are given one statement at a time, each with at most one access of what the interrupt
writes: `Point` is where the loop is in one of them, with what it holds in local variables.
-/
namespace QiranFirmware

/-- The statics of `exec_core.c`, as `exec_init` leaves them. -/
structure Exec where
  isrTicks : UInt32 := 0
  isrMajors : UInt32 := 0
  isrPosition : UInt8 := 0
  consumed : UInt32 := 0
  consumedMajors : UInt32 := 0
  elapsedMinor : UInt64 := 0
  slot : UInt32 := 0
  majorCycles : UInt64 := 0
  majorDue : Bool := false
  bodyStart : UInt32 := 0
  bodyStarted : Bool := false
  bodyLast : UInt32 := 0
  bodyWorst : UInt32 := 0
  overrunEvents : UInt32 := 0
  overrunLost : UInt32 := 0
  overrunWorst : UInt32 := 0
  deriving DecidableEq, Repr

inductive ExecCycle
  | minor | major | spread
  deriving DecidableEq, Repr

/-- An entry of the task table, less its name and estimate. -/
structure ExecTaskDef where
  cycle : ExecCycle
  periodSlots : UInt16
  phaseSlot : UInt16
  deriving DecidableEq, Repr

namespace Exec

def minorPerMajor : UInt32 := 25

theorem toNat_minorPerMajor : minorPerMajor.toNat = 25 := rfl

/-- The loop in `advance`, which runs no more often than the slot is high. -/
def wrapSlot : ℕ → UInt32 → UInt32
  | 0, slot => slot
  | fuel + 1, slot =>
    if minorPerMajor ≤ slot then wrapSlot fuel (slot - minorPerMajor) else slot

def advance (pending : UInt32) (e : Exec) : Exec :=
  let slot := e.slot + pending
  { e with
    slot := wrapSlot slot.toNat slot
    elapsedMinor := e.elapsedMinor + pending.toUInt64 }

def onMinorTick (e : Exec) : Exec :=
  let e := { e with isrTicks := e.isrTicks + 1, isrPosition := e.isrPosition + 1 }
  if minorPerMajor.toUInt8 ≤ e.isrPosition then
    { e with isrPosition := 0, isrMajors := e.isrMajors + 1 }
  else e

def accountBody (cycles : UInt32) (e : Exec) : Exec :=
  if e.bodyStarted then
    let body := cycles - e.bodyStart
    { e with bodyLast := body, bodyWorst := if e.bodyWorst < body then body else e.bodyWorst }
  else e

def startBody (cycles : UInt32) (e : Exec) : Exec := { e with bodyStart := cycles, bodyStarted := true }

def accountOverrun (pending : UInt32) (e : Exec) : Exec :=
  if 1 < pending then
    let lost := pending - 1
    { e with
      overrunEvents := e.overrunEvents + 1
      overrunLost := e.overrunLost + lost
      overrunWorst := if e.overrunWorst < lost then lost else e.overrunWorst }
  else e

def noteMajors (majors : UInt32) (e : Exec) : Exec :=
  if majors ≠ e.consumedMajors then
    { e with consumedMajors := majors, majorDue := true, majorCycles := e.majorCycles + 1 }
  else e

/-- Where the loop is: outside the two functions, or before a statement of one of them. -/
inductive Point
  | out
  | resyncTicks
  | resyncAdvance (raw : UInt32)
  | resyncConsumed (raw : UInt32)
  | resyncMajors
  | resyncConsumedMajors (majors : UInt32)
  | resyncDue
  | resyncBody
  | waitBody
  | waitDue
  | waitTicks
  | waitOverrun (raw pending : UInt32)
  | waitConsumed (raw pending : UInt32)
  | waitAdvance (pending : UInt32)
  | waitMajors
  | waitNote (majors : UInt32)
  | waitStart
  deriving DecidableEq, Repr

/-- One statement of `exec_resync` or of `exec_wait_for_minor_tick`, and where the loop is after it.
`cycles` is what `plat_cpu_cycle_count` returns if it is read. -/
def access (cycles : UInt32) (e : Exec) : Point → Point × Exec
  | .out => (.out, e)
  | .resyncTicks => (.resyncAdvance e.isrTicks, e)
  | .resyncAdvance raw => (.resyncConsumed raw, e.advance (raw - e.consumed))
  | .resyncConsumed raw => (.resyncMajors, { e with consumed := raw })
  | .resyncMajors => (.resyncConsumedMajors e.isrMajors, e)
  | .resyncConsumedMajors majors => (.resyncDue, { e with consumedMajors := majors })
  | .resyncDue => (.resyncBody, { e with majorDue := false })
  | .resyncBody => (.out, e.startBody cycles)
  | .waitBody => (.waitDue, e.accountBody cycles)
  | .waitDue => (.waitTicks, { e with majorDue := false })
  | .waitTicks =>
    let raw := e.isrTicks
    let pending := raw - e.consumed
    -- with nothing pending the processor waits for an interrupt, and the counter is read again
    (if pending ≠ 0 then .waitOverrun raw pending else .waitTicks, e)
  | .waitOverrun raw pending => (.waitConsumed raw pending, e.accountOverrun pending)
  | .waitConsumed raw pending => (.waitAdvance pending, { e with consumed := raw })
  | .waitAdvance pending => (.waitMajors, e.advance pending)
  | .waitMajors => (.waitNote e.isrMajors, e)
  | .waitNote majors => (.waitStart, e.noteMajors majors)
  | .waitStart => (.out, e.startBody cycles)

def dueAtSlot (t : ExecTaskDef) (slot : UInt32) : Bool :=
  match t.cycle with
  | .minor => true
  | .major => slot == 0
  | .spread =>
    if t.periodSlots = 0 then false else slot % t.periodSlots.toUInt32 == t.phaseSlot.toUInt32

def majorTask : ExecTaskDef := ⟨.major, 25, 0⟩

theorem toNat_wrapSlot (fuel : ℕ) {slot : UInt32} (h : slot.toNat ≤ fuel) :
    (wrapSlot fuel slot).toNat = slot.toNat % 25 := by
  induction fuel generalizing slot with
  | zero =>
    rw [wrapSlot, Nat.le_zero.mp h]
  | succ fuel ih =>
    rw [wrapSlot]
    split
    · rename_i hle
      have hfull : 25 ≤ slot.toNat := UInt32.le_iff_toNat_le.mp hle
      have hsub : (slot - minorPerMajor).toNat = slot.toNat - 25 := by
        rw [UInt32.toNat_sub_of_le _ _ hle, toNat_minorPerMajor]
      rw [ih (by omega), hsub]
      omega
    · rename_i hlt
      have hlow : slot.toNat < 25 := UInt32.lt_iff_toNat_lt.mp (UInt32.not_le.mp hlt)
      exact (Nat.mod_eq_of_lt hlow).symm

/-- Collecting ticks keeps the slot at the elapsed count modulo the major cycle, while their sum
with the slot is within 32 bits. -/
theorem advance_slot {pending : UInt32} {e : Exec} (h : e.slot.toNat + pending.toNat < 2 ^ 32) :
    (e.advance pending).slot.toNat = (e.slot.toNat + pending.toNat) % 25 := by
  have hsum : (e.slot + pending).toNat = e.slot.toNat + pending.toNat := by
    rw [UInt32.toNat_add]
    omega
  rw [advance, toNat_wrapSlot _ (Nat.le_refl _), hsum]

end Exec

end QiranFirmware
