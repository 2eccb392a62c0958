import QiranFirmware.Exec.Core
import QiranFirmware.Machine.Runs
import QiranFirmware.Machine.Trace

/-! # Every tick is collected once

The loop's own counters follow the true number of ticks at the moment it last sampled the
interrupt's counter, whatever interrupts come between its accesses and however often that counter
has wrapped. `Counted` says what the counters are at each point of the two functions.
-/
namespace QiranFirmware.Exec

open Machine

/-- A call that has returned: whether it waited for a tick, the ticks there had been when it sampled
the counter, and the statics before and after it. -/
structure Collection where
  wait : Bool
  sampled : ℕ
  before : Exec
  after : Exec
  deriving DecidableEq, Repr

/-- The executive and the loop that calls it. `ticks`, `sampled`, `before` and `collections` have no
counterpart in the source: they are the interrupts so far, those there had been at the last sample,
the statics when the last call began, and the calls that have returned. -/
structure Loop where
  exec : Exec := {}
  point : Point := .out
  ticks : ℕ := 0
  sampled : ℕ := 0
  before : Exec := {}
  collections : List Collection := []
  deriving DecidableEq, Repr

inductive LoopOp
  | tick
  | resync
  | wait
  | access (cycles : UInt32)
  deriving DecidableEq, Repr

namespace Loop

def samples (s : Loop) : Bool :=
  match s.point with
  | .resyncTicks => true
  | .waitTicks => s.exec.isrTicks - s.exec.consumed ≠ 0
  | _ => false

def returns (s : Loop) : Option Bool :=
  match s.point with
  | .resyncBody => some false
  | .waitStart => some true
  | _ => none

def access (cycles : UInt32) (s : Loop) : Loop :=
  let (point, exec) := s.exec.access cycles s.point
  { s with
    exec, point
    sampled := if s.samples then s.ticks else s.sampled
    collections := match s.returns with
      | none => s.collections
      | some wait => s.collections ++ [⟨wait, s.sampled, s.before, exec⟩] }

def step (s : Loop) : LoopOp → Loop
  | .tick => { s with exec := s.exec.onMinorTick, ticks := s.ticks + 1 }
  | .resync => if s.point = .out then { s with point := .resyncTicks, before := s.exec } else s
  | .wait => if s.point = .out then { s with point := .waitBody, before := s.exec } else s
  | .access cycles => s.access cycles

end Loop

def lastSampled (collections : List Collection) : ℕ :=
  (collections.getLast?.map (·.sampled)).getD 0

theorem lastSampled_concat (collections : List Collection) (c : Collection) :
    lastSampled (collections ++ [c]) = c.sampled := by
  simp [lastSampled]

section Access

variable {s : Loop} {cycles : UInt32}

theorem step_go (hsamples : s.samples = false) (hreturns : s.returns = none) :
    s.step (.access cycles) = { s with
      exec := (s.exec.access cycles s.point).2
      point := (s.exec.access cycles s.point).1 } := by
  simp only [Loop.step, Loop.access, hsamples, hreturns]
  rfl

theorem step_sample (hsamples : s.samples = true) (hreturns : s.returns = none) :
    s.step (.access cycles) = { s with
      exec := (s.exec.access cycles s.point).2
      point := (s.exec.access cycles s.point).1
      sampled := s.ticks } := by
  simp only [Loop.step, Loop.access, hsamples, hreturns]
  rfl

theorem step_leave {wait : Bool} (hsamples : s.samples = false) (hreturns : s.returns = some wait) :
    s.step (.access cycles) = { s with
      exec := (s.exec.access cycles s.point).2
      point := (s.exec.access cycles s.point).1
      collections := s.collections ++
        [⟨wait, s.sampled, s.before, (s.exec.access cycles s.point).2⟩] } := by
  simp only [Loop.step, Loop.access, hsamples, hreturns]
  rfl

end Access

def Point.steady : Point → Bool
  | .resyncTicks | .resyncBody | .waitTicks | .waitStart => false
  | _ => true

theorem Loop.steady {s : Loop} {point : Point} (hpoint : s.point = point)
    (hsteady : point.steady = true) : s.samples = false ∧ s.returns = none := by
  subst hpoint
  unfold Loop.samples Loop.returns
  cases hpoint : s.point with
  | resyncTicks | resyncBody | waitTicks | waitStart =>
    rw [hpoint] at hsteady
    cases hsteady
  | out | resyncAdvance | resyncConsumed | resyncMajors | resyncConsumedMajors | resyncDue | waitBody
  | waitDue | waitOverrun | waitConsumed | waitAdvance | waitMajors | waitNote => exact ⟨rfl, rfl⟩

def Loop.gap (s : Loop) : ℕ := s.ticks - lastSampled s.collections

def ReadsTicks (s : Loop) : LoopOp → Prop
  | .access _ => s.point = .resyncTicks ∨ s.point = .waitTicks
  | .tick => False
  | .resync => False
  | .wait => False

instance (s : Loop) : ∀ op, Decidable (ReadsTicks s op)
  | .access _ => inferInstanceAs (Decidable (_ ∨ _))
  | .tick => .isFalse id
  | .resync => .isFalse id
  | .wait => .isFalse id

/-- When the loop reads the counter, the slot and what has come since the last collection are
within 32 bits together. -/
def Timely (s : Loop) (op : LoopOp) : Prop :=
  ReadsTicks s op → lastSampled s.collections % 25 + s.gap < 2 ^ 32

structure Ticked (n : ℕ) (e : Exec) : Prop where
  ticks : e.isrTicks = UInt32.ofNat n
  majors : e.isrMajors = UInt32.ofNat (n / 25)
  position : e.isrPosition.toNat = n % 25

theorem ticked_onMinorTick {n : ℕ} {e : Exec} (h : Ticked n e) : Ticked (n + 1) e.onMinorTick := by
  have hposition : (e.isrPosition + 1).toNat = n % 25 + 1 := by
    rw [UInt8.toNat_add, h.position, UInt8.toNat_one]
    omega
  have hticks : e.isrTicks + 1 = UInt32.ofNat (n + 1) := by
    rw [h.ticks, UInt32.ofNat_add]
    rfl
  have hfull : minorPerMajor.toUInt8 ≤ e.isrPosition + 1 ↔ 25 ≤ n % 25 + 1 := by
    rw [UInt8.le_iff_toNat_le, hposition]
    rfl
  unfold onMinorTick
  dsimp only
  split
  · rename_i hle
    rw [hfull] at hle
    refine ⟨hticks, ?_, ?_⟩
    · have hmajors : (n + 1) / 25 = n / 25 + 1 := by omega
      rw [hmajors, UInt32.ofNat_add, ← h.majors]
      rfl
    · rw [UInt8.toNat_zero]
      omega
  · rename_i hlt
    rw [hfull] at hlt
    refine ⟨hticks, ?_, ?_⟩
    · have hmajors : (n + 1) / 25 = n / 25 := by omega
      rw [hmajors, ← h.majors]
    · rw [hposition]
      omega

/-- The statics that only the interrupt writes are the same, or those that only the loop writes. -/
structure SameTicks (e e' : Exec) : Prop where
  ticks : e'.isrTicks = e.isrTicks
  majors : e'.isrMajors = e.isrMajors
  position : e'.isrPosition = e.isrPosition

structure SameLoop (e e' : Exec) : Prop where
  consumed : e'.consumed = e.consumed
  consumedMajors : e'.consumedMajors = e.consumedMajors
  elapsedMinor : e'.elapsedMinor = e.elapsedMinor
  slot : e'.slot = e.slot
  majorDue : e'.majorDue = e.majorDue
  overrunLost : e'.overrunLost = e.overrunLost

theorem sameLoop_onMinorTick (e : Exec) : SameLoop e e.onMinorTick := by
  unfold onMinorTick
  dsimp only
  split
  · exact ⟨rfl, rfl, rfl, rfl, rfl, rfl⟩
  · exact ⟨rfl, rfl, rfl, rfl, rfl, rfl⟩

theorem sameLoop_accountBody (cycles : UInt32) (e : Exec) : SameLoop e (e.accountBody cycles) := by
  unfold accountBody
  split
  · exact ⟨rfl, rfl, rfl, rfl, rfl, rfl⟩
  · exact ⟨rfl, rfl, rfl, rfl, rfl, rfl⟩

theorem sameTicks_access (cycles : UInt32) (e : Exec) (point : Point) :
    SameTicks e (e.access cycles point).2 := by
  cases point with
  | waitBody =>
    simp only [access, accountBody]
    split
    · exact ⟨rfl, rfl, rfl⟩
    · exact ⟨rfl, rfl, rfl⟩
  | waitOverrun raw pending =>
    simp only [access, accountOverrun]
    split
    · exact ⟨rfl, rfl, rfl⟩
    · exact ⟨rfl, rfl, rfl⟩
  | waitNote majors =>
    simp only [access, noteMajors]
    split
    · exact ⟨rfl, rfl, rfl⟩
    · exact ⟨rfl, rfl, rfl⟩
  | out | resyncTicks | resyncAdvance | resyncConsumed | resyncMajors | resyncConsumedMajors
  | resyncDue | resyncBody | waitDue | waitTicks | waitConsumed | waitAdvance | waitMajors
  | waitStart => exact ⟨rfl, rfl, rfl⟩

theorem Ticked.of_same {n : ℕ} {e e' : Exec} (h : Ticked n e) (hsame : SameTicks e e') :
    Ticked n e' :=
  ⟨hsame.ticks.trans h.ticks, hsame.majors.trans h.majors, hsame.position ▸ h.position⟩

/-- A call that began after `p` ticks had been collected has sampled the counter at `q` ticks. -/
structure Span (p q : ℕ) : Prop where
  le : p ≤ q
  lt : p % 25 + (q - p) < 2 ^ 32

/-- The mirror of the interrupt's counter is at `m` ticks, the time and the slot are at `n`. -/
structure At (m n : ℕ) (e : Exec) : Prop where
  consumed : e.consumed = UInt32.ofNat m
  elapsed : e.elapsedMinor = UInt64.ofNat n
  slot : e.slot.toNat = n % 25

/-- What the loop's own counters are at a point of a call that began with `before`, the ticks
collected then being `p` and those last sampled `q`. -/
def Here (p q : ℕ) (before e : Exec) : Point → Prop
  | .out => At p p e
  | .resyncTicks | .waitBody | .waitDue | .waitTicks =>
    At p p e ∧ e.overrunLost = before.overrunLost
  | .resyncAdvance raw =>
    At p p e ∧ e.overrunLost = before.overrunLost ∧ Span p q ∧ raw = UInt32.ofNat q
  | .resyncConsumed raw =>
    At p q e ∧ e.overrunLost = before.overrunLost ∧ Span p q ∧ raw = UInt32.ofNat q
  | .resyncMajors | .resyncConsumedMajors _ | .resyncDue | .resyncBody =>
    At q q e ∧ e.overrunLost = before.overrunLost ∧ Span p q
  | .waitOverrun raw pending =>
    At p p e ∧ e.overrunLost = before.overrunLost ∧ Span p q ∧ p < q ∧ raw = UInt32.ofNat q ∧
      pending = UInt32.ofNat (q - p)
  | .waitConsumed raw pending =>
    At p p e ∧ e.overrunLost = before.overrunLost + UInt32.ofNat (q - p - 1) ∧ Span p q ∧ p < q ∧
      raw = UInt32.ofNat q ∧ pending = UInt32.ofNat (q - p)
  | .waitAdvance pending =>
    At q p e ∧ e.overrunLost = before.overrunLost + UInt32.ofNat (q - p - 1) ∧ Span p q ∧ p < q ∧
      pending = UInt32.ofNat (q - p)
  | .waitMajors | .waitNote _ | .waitStart =>
    At q q e ∧ e.overrunLost = before.overrunLost + UInt32.ofNat (q - p - 1) ∧ Span p q ∧ p < q

theorem At.of_same {m n : ℕ} {e e' : Exec} (h : At m n e) (hsame : SameLoop e e') : At m n e' :=
  ⟨hsame.consumed.trans h.consumed, hsame.elapsedMinor.trans h.elapsed, hsame.slot ▸ h.slot⟩

theorem Here.of_same {p q : ℕ} {before e e' : Exec} {point : Point} (h : Here p q before e point)
    (hsame : SameLoop e e') : Here p q before e' point := by
  cases point with
  | out => exact At.of_same h hsame
  | resyncTicks | waitBody | waitDue | waitTicks | resyncAdvance | resyncConsumed | resyncMajors
  | resyncConsumedMajors | resyncDue | resyncBody | waitOverrun | waitConsumed | waitAdvance
  | waitMajors | waitNote | waitStart =>
    exact ⟨h.1.of_same hsame, hsame.overrunLost ▸ h.2⟩

structure Exact (previous : ℕ) (c : Collection) : Prop where
  began : c.before.elapsedMinor.toNat = previous % 2 ^ 64
  elapsed : c.after.elapsedMinor.toNat = c.sampled % 2 ^ 64
  slot : c.after.slot.toNat = c.sampled % 25
  order : previous ≤ c.sampled
  waited : c.wait = true → previous < c.sampled ∧
    (c.after.overrunLost - c.before.overrunLost).toNat = c.sampled - previous - 1
  resynced : c.wait = false → c.after.overrunLost = c.before.overrunLost

structure Counted (s : Loop) : Prop where
  ticked : Ticked s.ticks s.exec
  past : lastSampled s.collections ≤ s.ticks
  sampled : s.sampled ≤ s.ticks
  began : s.point ≠ .out →
    s.before.elapsedMinor = UInt64.ofNat (lastSampled s.collections)
  here : Here (lastSampled s.collections) s.sampled s.before s.exec s.point
  each : EachAfter (fun before c => Exact (lastSampled before) c) s.collections

theorem At.advance {m p q : ℕ} {e : Exec} {pending : UInt32} (h : At m p e) (hspan : Span p q)
    (hpending : pending = UInt32.ofNat (q - p)) : At m q (e.advance pending) := by
  obtain ⟨hle, hlt⟩ := hspan
  have hnat : pending.toNat = q - p := by
    rw [hpending]
    exact UInt32.toNat_ofNat_of_lt' (show q - p < 2 ^ 32 by omega)
  refine ⟨h.consumed, ?_, ?_⟩
  · have hwide : pending.toUInt64 = UInt64.ofNat (q - p) := by
      rw [← UInt64.toNat_inj, UInt32.toNat_toUInt64, hnat, UInt64.toNat_ofNat']
      omega
    rw [Exec.advance, h.elapsed, hwide, ← UInt64.ofNat_add, Nat.add_sub_cancel' hle]
  · rw [advance_slot (by rw [h.slot, hnat]; exact hlt), h.slot, hnat]
    omega

theorem counted_init : Counted {} where
  ticked := ⟨rfl, rfl, rfl⟩
  past := Nat.le_refl 0
  sampled := Nat.le_refl 0
  began := fun hout => absurd rfl hout
  here := ⟨rfl, rfl, rfl⟩
  each := eachAfter_nil _

theorem Counted.tick {s : Loop} (h : Counted s) : Counted (s.step .tick) where
  ticked := ticked_onMinorTick h.ticked
  past := Nat.le_succ_of_le h.past
  sampled := Nat.le_succ_of_le h.sampled
  began := h.began
  here := h.here.of_same (sameLoop_onMinorTick s.exec)
  each := h.each

/-- Both functions begin a call with the statics that they find. -/
theorem Counted.call {s : Loop} (h : Counted s) {point : Point}
    (hpoint : point = .resyncTicks ∨ point = .waitBody) :
    Counted (if s.point = .out then { s with point, before := s.exec } else s) := by
  split
  · rename_i hout
    have hhere := h.here
    rw [hout] at hhere
    refine ⟨h.ticked, h.past, h.sampled, fun _ => hhere.elapsed, ?_, h.each⟩
    rcases hpoint with rfl | rfl
    · exact ⟨hhere, rfl⟩
    · exact ⟨hhere, rfl⟩
  · exact h

theorem Counted.go {s : Loop} (h : Counted s) {cycles : UInt32} {point : Point}
    (hpoint : s.point = point) (hsteady : s.samples = false ∧ s.returns = none) (hcalled : point ≠ .out)
    (hhere : Here (lastSampled s.collections) s.sampled s.before (s.exec.access cycles point).2
      (s.exec.access cycles point).1) : Counted (s.step (.access cycles)) := by
  subst hpoint
  rw [step_go hsteady.1 hsteady.2]
  exact ⟨h.ticked.of_same (sameTicks_access ..), h.past, h.sampled, fun _ => h.began hcalled, hhere,
    h.each⟩

theorem Counted.sample {s : Loop} (h : Counted s) {cycles : UInt32} {point : Point}
    (hpoint : s.point = point) (hsamples : s.samples = true ∧ s.returns = none) (hcalled : point ≠ .out)
    (hhere : Here (lastSampled s.collections) s.ticks s.before (s.exec.access cycles point).2
      (s.exec.access cycles point).1) : Counted (s.step (.access cycles)) := by
  subst hpoint
  rw [step_sample hsamples.1 hsamples.2]
  exact ⟨h.ticked.of_same (sameTicks_access ..), h.past, Nat.le_refl _, fun _ => h.began hcalled,
    hhere, h.each⟩

theorem Counted.leave {s : Loop} (h : Counted s) {cycles : UInt32} {wait : Bool}
    (hsamples : s.samples = false) (hreturns : s.returns = some wait)
    (hpoint : (s.exec.access cycles s.point).1 = .out)
    (hat : At s.sampled s.sampled (s.exec.access cycles s.point).2)
    (hexact : Exact (lastSampled s.collections)
      ⟨wait, s.sampled, s.before, (s.exec.access cycles s.point).2⟩) :
    Counted (s.step (.access cycles)) := by
  rw [step_leave hsamples hreturns, hpoint]
  refine ⟨h.ticked.of_same (sameTicks_access ..), ?_, h.sampled, fun hout => absurd rfl hout, ?_,
    eachAfter_concat.mpr ⟨h.each, hexact⟩⟩
  · rw [lastSampled_concat]
    exact h.sampled
  · rw [lastSampled_concat]
    exact hat

theorem Exact.of_at {p q : ℕ} {wait : Bool} {before e : Exec} (h : At q q e) (hle : p ≤ q)
    (hbegan : before.elapsedMinor = UInt64.ofNat p)
    (hwaited : wait = true → p < q ∧ (e.overrunLost - before.overrunLost).toNat = q - p - 1)
    (hresynced : wait = false → e.overrunLost = before.overrunLost) :
    Exact p ⟨wait, q, before, e⟩ :=
  ⟨by rw [hbegan, UInt64.toNat_ofNat'], by rw [h.elapsed, UInt64.toNat_ofNat'], h.slot, hle, hwaited,
    hresynced⟩

/-- All but one of the ticks since the last collection are charged as lost, which none are when there is
one only. -/
theorem At.accountOverrun {p q : ℕ} {before e : Exec} {pending : UInt32} (h : At p p e)
    (hlost : e.overrunLost = before.overrunLost) (hspan : Span p q)
    (hpending : pending = UInt32.ofNat (q - p)) : At p p (e.accountOverrun pending) ∧
      (e.accountOverrun pending).overrunLost = before.overrunLost + UInt32.ofNat (q - p - 1) := by
  have hwithin := hspan.lt
  have hmany : 1 < pending ↔ 1 < q - p := by
    rw [UInt32.lt_iff_toNat_lt, hpending, UInt32.toNat_one,
      UInt32.toNat_ofNat_of_lt' (show _ < 2 ^ 32 by omega)]
  unfold Exec.accountOverrun
  split
  · rename_i hlt
    rw [hmany] at hlt
    have hless : pending - 1 = UInt32.ofNat (q - p - 1) := by
      rw [hpending, UInt32.ofNat_sub (show 1 ≤ q - p by omega)]
      rfl
    exact ⟨⟨h.consumed, h.elapsed, h.slot⟩, by rw [← hless, ← hlost]⟩
  · rename_i hfew
    rw [hmany] at hfew
    have hnone : q - p - 1 = 0 := by omega
    refine ⟨h, ?_⟩
    rw [hlost, hnone]
    exact (UInt32.add_zero _).symm

/-- What a wait has charged is the growth of the count of lost cycles. -/
theorem Span.lost {p q : ℕ} (hspan : Span p q) {before e : Exec}
    (hlost : e.overrunLost = before.overrunLost + UInt32.ofNat (q - p - 1)) :
    (e.overrunLost - before.overrunLost).toNat = q - p - 1 := by
  have hwithin := hspan.lt
  have hgrowth : e.overrunLost - before.overrunLost = UInt32.ofNat (q - p - 1) := by grind
  rw [hgrowth, UInt32.toNat_ofNat_of_lt' (show _ < 2 ^ 32 by omega)]

theorem Counted.access {s : Loop} (h : Counted s) (cycles : UInt32)
    (htimely : Timely s (.access cycles)) : Counted (s.step (.access cycles)) := by
  have hhere := h.here
  have hpast := h.past
  have hspan (hreads : ReadsTicks s (.access cycles)) :
      Span (lastSampled s.collections) s.ticks := ⟨hpast, htimely hreads⟩
  cases hpoint : s.point with
  | out =>
    have hsame : s.step (.access cycles) = s := by
      rw [step_go (Loop.steady hpoint rfl).1 (Loop.steady hpoint rfl).2, hpoint]
      exact congrArg (fun point => { s with point }) hpoint.symm
    rwa [hsame]
  | resyncTicks =>
    rw [hpoint] at hhere
    obtain ⟨hat, hlost⟩ := hhere
    refine h.sample hpoint ⟨by simp [Loop.samples, hpoint], by simp [Loop.returns, hpoint]⟩ (by simp) ?_
    exact ⟨hat, hlost, hspan (.inl hpoint), h.ticked.ticks⟩
  | resyncAdvance raw =>
    rw [hpoint] at hhere
    obtain ⟨hat, hlost, hspan, hraw⟩ := hhere
    refine h.go hpoint (Loop.steady hpoint rfl) (by simp) ?_
    refine ⟨hat.advance hspan ?_, hlost, hspan, hraw⟩
    rw [hat.consumed, hraw, UInt32.ofNat_sub hspan.le]
  | resyncConsumed raw =>
    rw [hpoint] at hhere
    obtain ⟨hat, hlost, hspan, hraw⟩ := hhere
    refine h.go hpoint (Loop.steady hpoint rfl) (by simp) ?_
    exact ⟨⟨hraw, hat.elapsed, hat.slot⟩, hlost, hspan⟩
  | resyncMajors | resyncConsumedMajors majors | resyncDue =>
    rw [hpoint] at hhere
    obtain ⟨hat, hlost, hspan⟩ := hhere
    refine h.go hpoint (Loop.steady hpoint rfl) (by simp) ?_
    exact ⟨⟨hat.consumed, hat.elapsed, hat.slot⟩, hlost, hspan⟩
  | resyncBody =>
    rw [hpoint] at hhere
    obtain ⟨hat, hlost, hspan⟩ := hhere
    have hstart : At s.sampled s.sampled (s.exec.access cycles s.point).2 := by
      rw [hpoint]
      exact ⟨hat.consumed, hat.elapsed, hat.slot⟩
    have hreturns : s.returns = some false := by simp [Loop.returns, hpoint]
    refine h.leave (by simp [Loop.samples, hpoint]) hreturns (by rw [hpoint]; rfl) hstart
      (.of_at hstart hspan.le (h.began (by simp [hpoint])) (by simp) ?_)
    intro _
    rw [hpoint]
    exact hlost
  | waitBody =>
    rw [hpoint] at hhere
    obtain ⟨hat, hlost⟩ := hhere
    have hsame := sameLoop_accountBody cycles s.exec
    refine h.go hpoint (Loop.steady hpoint rfl) (by simp) ?_
    exact ⟨hat.of_same hsame, hsame.overrunLost.trans hlost⟩
  | waitDue =>
    rw [hpoint] at hhere
    obtain ⟨hat, hlost⟩ := hhere
    refine h.go hpoint (Loop.steady hpoint rfl) (by simp) ?_
    exact ⟨⟨hat.consumed, hat.elapsed, hat.slot⟩, hlost⟩
  | waitTicks =>
    rw [hpoint] at hhere
    obtain ⟨hat, hlost⟩ := hhere
    have hpending : s.exec.isrTicks - s.exec.consumed =
        UInt32.ofNat (s.ticks - lastSampled s.collections) := by
      rw [h.ticked.ticks, hat.consumed, UInt32.ofNat_sub hpast]
    by_cases hnone : s.exec.isrTicks - s.exec.consumed = 0
    · refine h.go hpoint ⟨by simp [Loop.samples, hpoint, hnone], by simp [Loop.returns, hpoint]⟩
        (by simp) ?_
      simp only [Exec.access, hnone, ne_eq, not_true_eq_false, ↓reduceIte]
      exact ⟨hat, hlost⟩
    · refine h.sample hpoint ⟨by simp [Loop.samples, hpoint, hnone], by simp [Loop.returns, hpoint]⟩
        (by simp) ?_
      simp only [Exec.access, ne_eq, hnone, not_false_eq_true, ↓reduceIte]
      refine ⟨hat, hlost, hspan (.inr hpoint), ?_, h.ticked.ticks, hpending⟩
      refine Nat.lt_of_le_of_ne hpast ?_
      intro heq
      rw [hpending, ← heq, Nat.sub_self] at hnone
      exact hnone rfl
  | waitOverrun raw pending =>
    rw [hpoint] at hhere
    obtain ⟨hat, hlost, hspan, hlt, hraw, hpending⟩ := hhere
    obtain ⟨hsame, hcharged⟩ := hat.accountOverrun hlost hspan hpending
    refine h.go hpoint (Loop.steady hpoint rfl) (by simp) ?_
    exact ⟨hsame, hcharged, hspan, hlt, hraw, hpending⟩
  | waitConsumed raw pending =>
    rw [hpoint] at hhere
    obtain ⟨hat, hlost, hspan, hlt, hraw, hpending⟩ := hhere
    refine h.go hpoint (Loop.steady hpoint rfl) (by simp) ?_
    exact ⟨⟨hraw, hat.elapsed, hat.slot⟩, hlost, hspan, hlt, hpending⟩
  | waitAdvance pending =>
    rw [hpoint] at hhere
    obtain ⟨hat, hlost, hspan, hlt, hpending⟩ := hhere
    refine h.go hpoint (Loop.steady hpoint rfl) (by simp) ?_
    exact ⟨hat.advance hspan hpending, hlost, hspan, hlt⟩
  | waitMajors =>
    rw [hpoint] at hhere
    refine h.go hpoint (Loop.steady hpoint rfl) (by simp) ?_
    exact hhere
  | waitNote majors =>
    rw [hpoint] at hhere
    obtain ⟨hat, hlost, hspan, hlt⟩ := hhere
    refine h.go hpoint (Loop.steady hpoint rfl) (by simp) ?_
    simp only [Exec.access, noteMajors]
    split
    · exact ⟨⟨hat.consumed, hat.elapsed, hat.slot⟩, hlost, hspan, hlt⟩
    · exact ⟨hat, hlost, hspan, hlt⟩
  | waitStart =>
    rw [hpoint] at hhere
    obtain ⟨hat, hlost, hspan, hlt⟩ := hhere
    have hstart : At s.sampled s.sampled (s.exec.access cycles s.point).2 := by
      rw [hpoint]
      exact ⟨hat.consumed, hat.elapsed, hat.slot⟩
    have hreturns : s.returns = some true := by simp [Loop.returns, hpoint]
    refine h.leave (by simp [Loop.samples, hpoint]) hreturns (by rw [hpoint]; rfl) hstart
      (.of_at hstart hspan.le (h.began (by simp [hpoint])) ?_ (by simp))
    intro _
    rw [hpoint]
    exact ⟨hlt, hspan.lost (e := s.exec.startBody cycles) hlost⟩

theorem counted_step {s : Loop} {op : LoopOp} (h : Counted s) (hop : Timely s op) :
    Counted (s.step op) := by
  cases op with
  | tick => exact h.tick
  | resync => exact h.call (.inl rfl)
  | wait => exact h.call (.inr rfl)
  | access cycles => exact h.access cycles hop

theorem counted_run {ops : List LoopOp} (h : Along Loop.step Timely {} ops) :
    Counted (run Loop.step {} ops) :=
  @run_invariant _ _ Loop.step Timely Counted (fun _ _ hs hop => counted_step hs hop) {} ops
    counted_init h

/-- Whatever interrupts come between the accesses, every collection leaves the time and the slot of
the ticks there had been when it sampled the counter, and a wait has charged all but one of those
since the collection before as lost. -/
theorem ticks_accounted {ops : List LoopOp}
    (h : Along Loop.step (fun s op => ReadsTicks s op → s.gap < 2 ^ 31) {} ops) :
    EachAfter (fun before c => Exact (lastSampled before) c) (run Loop.step {} ops).collections := by
  refine (counted_run (h.mono ?_)).each
  intro s op hop hreads
  have hgap := hop hreads
  omega

def resyncCall : List LoopOp := .resync :: List.replicate 7 (.access 0)

def waitCall (late : ℕ) : List LoopOp :=
  .wait :: List.replicate 3 (.access 0) ++ List.replicate late .tick ++ List.replicate 6 (.access 0)

/-- A backlog is dropped by a resync, and an overrun by a wait that a tick comes into. -/
def overrun : List LoopOp :=
  List.replicate 30 .tick ++ resyncCall ++ List.replicate 3 .tick ++ waitCall 1

theorem ticks_accounted_overrun :
    EachAfter (fun before c => Exact (lastSampled before) c) (run Loop.step {} overrun).collections :=
  ticks_accounted (by decide +kernel)

example : (run Loop.step {} overrun).collections.map
    (fun c => (c.wait, c.sampled, c.after.elapsedMinor, c.after.slot, c.after.overrunLost)) =
      [(false, 30, 30, 5, 0), (true, 33, 33, 8, 2)] := by decide +kernel

end QiranFirmware.Exec
