import QiranFirmware.Exec.Ticks

/-! # The minor cycles executed

`exec_stats_get` gives the elapsed time less the cycles lost to overruns. A wait adds to the first
one more than it does to the second; a resync adds to the first only, so that what it drops stays in
the figure.
-/
namespace QiranFirmware

structure ExecStats where
  minorCycles : UInt64
  majorCycles : UInt64
  overrunEvents : UInt32
  overrunCyclesLost : UInt32
  overrunWorst : UInt32
  bodyCyclesLast : UInt32
  bodyCyclesWorst : UInt32
  deriving DecidableEq, Repr

namespace Exec

open Machine

def statsGet (e : Exec) : ExecStats where
  minorCycles := e.elapsedMinor - e.overrunLost.toUInt64
  majorCycles := e.majorCycles
  overrunEvents := e.overrunEvents
  overrunCyclesLost := e.overrunLost
  overrunWorst := e.overrunWorst
  bodyCyclesLast := e.bodyLast
  bodyCyclesWorst := e.bodyWorst

def waits (collections : List Collection) : ℕ := collections.countP (·.wait)

def Collection.lost (c : Collection) : ℕ :=
  if c.wait then (c.after.overrunLost - c.before.overrunLost).toNat else 0

def Collection.dropped (c : Collection) : ℕ :=
  if c.wait then 0 else (c.after.elapsedMinor - c.before.elapsedMinor).toNat

def lost (collections : List Collection) : ℕ := (collections.map (·.lost)).sum
def dropped (collections : List Collection) : ℕ := (collections.map (·.dropped)).sum

structure Unmoved (before e : Exec) : Prop where
  elapsed : e.elapsedMinor = before.elapsedMinor
  lost : e.overrunLost = before.overrunLost

/-- They have moved as a resync moves them, or a wait, that finds so many ticks pending. -/
structure Resynced (pending : UInt32) (before e : Exec) : Prop where
  elapsed : e.elapsedMinor = before.elapsedMinor + pending.toUInt64
  lost : e.overrunLost = before.overrunLost

structure Waited (pending : UInt32) (before e : Exec) : Prop where
  elapsed : e.elapsedMinor = before.elapsedMinor + pending.toUInt64
  lost : e.overrunLost = before.overrunLost + (pending - 1)

/-- How far they have moved at a point of a call that began with `before`, where each resync finds
ticks pending as `P` says. -/
def Moved (P : UInt32 → Prop) (before e : Exec) : Point → Prop
  | .out => True
  | .resyncTicks | .waitBody | .waitDue | .waitTicks => Unmoved before e
  | .resyncAdvance raw => Unmoved before e ∧ P (raw - e.consumed)
  | .resyncConsumed _ | .resyncMajors | .resyncConsumedMajors _ | .resyncDue | .resyncBody =>
    ∃ pending, P pending ∧ Resynced pending before e
  | .waitOverrun _ pending => Unmoved before e ∧ pending ≠ 0
  | .waitConsumed _ pending | .waitAdvance pending =>
    e.elapsedMinor = before.elapsedMinor ∧ e.overrunLost = before.overrunLost + (pending - 1) ∧
      pending ≠ 0
  | .waitMajors | .waitNote _ | .waitStart => ∃ pending, pending ≠ 0 ∧ Waited pending before e

def Collected (P : UInt32 → Prop) (c : Collection) : Prop :=
  ∃ pending, if c.wait then pending ≠ 0 ∧ Waited pending c.before c.after
    else P pending ∧ Resynced pending c.before c.after

structure Tally (collections : List Collection) (e : Exec) : Prop where
  elapsed : e.elapsedMinor = UInt64.ofNat (waits collections + lost collections + dropped collections)
  lost : e.overrunLost = UInt32.ofNat (Exec.lost collections)

/-- The statics when the last call began, or now if there is none under way. -/
def Loop.base (s : Loop) : Exec := if s.point = .out then s.exec else s.before

structure Tallied (P : UInt32 → Prop) (s : Loop) : Prop where
  moved : Moved P s.before s.exec s.point
  tally : Tally s.collections s.base
  each : ∀ c ∈ s.collections, Collected P c

def ResyncFinds (P : UInt32 → Prop) (s : Loop) : LoopOp → Prop
  | .access _ => s.point = .resyncTicks → P (s.exec.isrTicks - s.exec.consumed)
  | .tick => True
  | .resync => True
  | .wait => True

variable {P : UInt32 → Prop}

theorem Unmoved.of_same {before e e' : Exec} (h : Unmoved before e) (hsame : SameLoop e e') :
    Unmoved before e' :=
  ⟨hsame.elapsedMinor.trans h.elapsed, hsame.overrunLost.trans h.lost⟩

theorem Moved.of_same {before e e' : Exec} {point : Point} (h : Moved P before e point)
    (hsame : SameLoop e e') : Moved P before e' point := by
  have helapsed := hsame.elapsedMinor
  have hlost := hsame.overrunLost
  cases point with
  | out => trivial
  | resyncTicks | waitBody | waitDue | waitTicks => exact Unmoved.of_same h hsame
  | resyncAdvance raw => exact ⟨h.1.of_same hsame, hsame.consumed ▸ h.2⟩
  | resyncConsumed | resyncMajors | resyncConsumedMajors | resyncDue | resyncBody =>
    obtain ⟨pending, hP, hmoved⟩ := h
    exact ⟨pending, hP, helapsed.trans hmoved.elapsed, hlost.trans hmoved.lost⟩
  | waitOverrun => exact ⟨h.1.of_same hsame, h.2⟩
  | waitConsumed | waitAdvance => exact ⟨helapsed.trans h.1, hlost.trans h.2.1, h.2.2⟩
  | waitMajors | waitNote | waitStart =>
    obtain ⟨pending, hpending, hmoved⟩ := h
    exact ⟨pending, hpending, helapsed.trans hmoved.elapsed, hlost.trans hmoved.lost⟩

theorem Tally.of_same {collections : List Collection} {e e' : Exec} (h : Tally collections e)
    (helapsed : e'.elapsedMinor = e.elapsedMinor) (hlost : e'.overrunLost = e.overrunLost) :
    Tally collections e' :=
  ⟨helapsed.trans h.elapsed, hlost.trans h.lost⟩

theorem tallied_init : Tallied P {} where
  moved := trivial
  tally := ⟨rfl, rfl⟩
  each := fun _ hc => absurd hc List.not_mem_nil

theorem Tallied.tick {s : Loop} (h : Tallied P s) : Tallied P (s.step .tick) where
  moved := h.moved.of_same (sameLoop_onMinorTick s.exec)
  tally := by
    have htally := h.tally
    have hsame := sameLoop_onMinorTick s.exec
    by_cases hout : s.point = .out
    · have hbase : (s.step .tick).base = s.exec.onMinorTick := if_pos hout
      rw [Loop.base, if_pos hout] at htally
      rw [hbase]
      exact htally.of_same hsame.elapsedMinor hsame.overrunLost
    · have hbase : (s.step .tick).base = s.before := if_neg hout
      rw [Loop.base, if_neg hout] at htally
      rw [hbase]
      exact htally
  each := h.each

theorem Tallied.call {s : Loop} (h : Tallied P s) (hout : s.point = .out) {point : Point}
    (hpoint : point = .resyncTicks ∨ point = .waitBody) :
    Tallied P { s with point, before := s.exec } := by
  have htally := h.tally
  rw [Loop.base, if_pos hout] at htally
  rcases hpoint with rfl | rfl
  · exact ⟨⟨rfl, rfl⟩, htally, h.each⟩
  · exact ⟨⟨rfl, rfl⟩, htally, h.each⟩

theorem Tallied.go {s : Loop} (h : Tallied P s) {cycles : UInt32} {point : Point}
    (hpoint : s.point = point) (hreturns : s.returns = none) (hcalled : point ≠ .out)
    (hnext : (s.exec.access cycles point).1 ≠ .out)
    (hmoved : Moved P s.before (s.exec.access cycles point).2 (s.exec.access cycles point).1) :
    Tallied P (s.step (.access cycles)) := by
  subst hpoint
  have htally := h.tally
  rw [Loop.base, if_neg hcalled] at htally
  simp only [Loop.step, Loop.access, hreturns]
  refine ⟨hmoved, ?_, h.each⟩
  rw [Loop.base, if_neg hnext]
  exact htally

theorem waits_concat (collections : List Collection) (c : Collection) :
    waits (collections ++ [c]) = waits collections + if c.wait then 1 else 0 := by
  rw [waits, List.countP_append, List.countP_singleton]
  rfl

theorem lost_concat (collections : List Collection) (c : Collection) :
    lost (collections ++ [c]) = lost collections + c.lost := by
  simp [lost]

theorem dropped_concat (collections : List Collection) (c : Collection) :
    dropped (collections ++ [c]) = dropped collections + c.dropped := by
  simp [dropped]

theorem Resynced.dropped {pending : UInt32} {before e : Exec} (h : Resynced pending before e) :
    (e.elapsedMinor - before.elapsedMinor).toNat = pending.toNat := by
  rw [h.elapsed, UInt64.add_comm, UInt64.add_sub_cancel]
  exact UInt32.toNat_toUInt64 pending

theorem Waited.lost_eq {pending : UInt32} {before e : Exec} (h : Waited pending before e)
    (hpending : pending ≠ 0) : (e.overrunLost - before.overrunLost).toNat + 1 = pending.toNat := by
  have hpos : 1 ≤ pending.toNat := Nat.one_le_iff_ne_zero.mpr fun hzero =>
    hpending (UInt32.toNat_inj.mp hzero)
  have hone : 1 ≤ pending := UInt32.le_iff_toNat_le.mpr hpos
  rw [h.lost, UInt32.add_comm, UInt32.add_sub_cancel, UInt32.toNat_sub_of_le _ _ hone,
    UInt32.toNat_one]
  omega

/-- A call that returns adds itself, what it has lost and what it has dropped. -/
theorem Tally.concat {collections : List Collection} {c : Collection} (h : Tally collections c.before)
    (hc : Collected P c) : Tally (collections ++ [c]) c.after := by
  obtain ⟨pending, hc⟩ := hc
  have hwide : pending.toUInt64 = UInt64.ofNat pending.toNat := by
    rw [← UInt64.toNat_inj, UInt32.toNat_toUInt64, UInt64.toNat_ofNat']
    exact (Nat.mod_eq_of_lt (pending.toNat_lt.trans (by decide))).symm
  constructor
  · rw [waits_concat, lost_concat, dropped_concat, Collection.lost, Collection.dropped]
    by_cases hwait : c.wait = true
    · rw [if_pos hwait] at hc
      obtain ⟨hpending, hmoved⟩ := hc
      have hsum := hmoved.lost_eq hpending
      rw [if_pos hwait, if_pos hwait, if_pos hwait, hmoved.elapsed, h.elapsed, hwide, ← UInt64.ofNat_add]
      exact congrArg UInt64.ofNat (by omega)
    · rw [if_neg hwait] at hc
      rw [if_neg hwait, if_neg hwait, if_neg hwait, hc.2.dropped, hc.2.elapsed, h.elapsed, hwide,
        ← UInt64.ofNat_add]
      exact congrArg UInt64.ofNat (by omega)
  · rw [lost_concat, Collection.lost]
    by_cases hwait : c.wait = true
    · rw [if_pos hwait] at hc
      rw [if_pos hwait, UInt32.ofNat_add, ← h.lost, UInt32.ofNat_toNat]
      grind
    · rw [if_neg hwait] at hc
      rw [if_neg hwait, Nat.add_zero, ← h.lost, hc.2.lost]

theorem Tallied.leave {s : Loop} (h : Tallied P s) {cycles : UInt32} {wait : Bool}
    (hreturns : s.returns = some wait) (hcalled : s.point ≠ .out)
    (hnext : (s.exec.access cycles s.point).1 = .out)
    (hc : ∀ sampled, Collected P ⟨wait, sampled, s.before, (s.exec.access cycles s.point).2⟩) :
    Tallied P (s.step (.access cycles)) := by
  have htally := h.tally
  rw [Loop.base, if_neg hcalled] at htally
  simp only [Loop.step, Loop.access, hreturns, hnext]
  refine ⟨trivial, htally.concat (hc _), ?_⟩
  intro c hin
  rcases List.mem_append.mp hin with hold | hlast
  · exact h.each c hold
  · rw [List.mem_singleton.mp hlast]
    exact hc _

theorem Tallied.access {s : Loop} (h : Tallied P s) (cycles : UInt32)
    (hfinds : ResyncFinds P s (.access cycles)) : Tallied P (s.step (.access cycles)) := by
  have hmoved := h.moved
  cases hpoint : s.point with
  | out =>
    have hsame : s.step (.access cycles) = s := by
      rw [step_go (Loop.steady hpoint rfl).1 (Loop.steady hpoint rfl).2, hpoint]
      exact congrArg (fun point => { s with point }) hpoint.symm
    rwa [hsame]
  | resyncTicks =>
    rw [hpoint] at hmoved
    refine h.go hpoint (by simp [Loop.returns, hpoint]) (by simp) (by simp [Exec.access]) ?_
    exact ⟨hmoved, hfinds hpoint⟩
  | resyncAdvance raw =>
    rw [hpoint] at hmoved
    obtain ⟨hunmoved, hP⟩ := hmoved
    refine h.go hpoint (Loop.steady hpoint rfl).2 (by simp) (by simp [Exec.access]) ?_
    refine ⟨raw - s.exec.consumed, hP, ?_, hunmoved.lost⟩
    simp only [Exec.access, Exec.advance, hunmoved.elapsed]
  | resyncConsumed raw | resyncMajors | resyncConsumedMajors majors | resyncDue =>
    rw [hpoint] at hmoved
    obtain ⟨pending, hP, hresynced⟩ := hmoved
    refine h.go hpoint (Loop.steady hpoint rfl).2 (by simp) (by simp [Exec.access]) ?_
    exact ⟨pending, hP, hresynced.elapsed, hresynced.lost⟩
  | resyncBody =>
    rw [hpoint] at hmoved
    obtain ⟨pending, hP, hresynced⟩ := hmoved
    have hreturns : s.returns = some false := by simp [Loop.returns, hpoint]
    refine h.leave hreturns (by simp [hpoint]) (by simp [hpoint, Exec.access]) fun sampled => ?_
    rw [hpoint]
    exact ⟨pending, hP, hresynced.elapsed, hresynced.lost⟩
  | waitBody =>
    rw [hpoint] at hmoved
    have hsame := sameLoop_accountBody cycles s.exec
    refine h.go hpoint (Loop.steady hpoint rfl).2 (by simp) (by simp [Exec.access]) ?_
    exact Unmoved.of_same hmoved hsame
  | waitDue =>
    rw [hpoint] at hmoved
    refine h.go hpoint (Loop.steady hpoint rfl).2 (by simp) (by simp [Exec.access]) ?_
    exact ⟨hmoved.elapsed, hmoved.lost⟩
  | waitTicks =>
    rw [hpoint] at hmoved
    refine h.go hpoint (by simp [Loop.returns, hpoint]) (by simp) ?_ ?_
    · simp only [Exec.access]
      split <;> simp
    · simp only [Exec.access]
      split
      · rename_i hpending
        exact ⟨hmoved, hpending⟩
      · exact hmoved
  | waitOverrun raw pending =>
    rw [hpoint] at hmoved
    obtain ⟨hunmoved, hpending⟩ := hmoved
    refine h.go hpoint (Loop.steady hpoint rfl).2 (by simp) (by simp [Exec.access]) ?_
    simp only [Exec.access, accountOverrun]
    split
    · exact ⟨hunmoved.elapsed, congrArg (· + (pending - 1)) hunmoved.lost, hpending⟩
    · rename_i hfew
      have hone : pending = 1 := by
        rw [UInt32.not_lt, UInt32.le_iff_toNat_le, UInt32.toNat_one] at hfew
        have hne : pending.toNat ≠ 0 := fun hzero => hpending (UInt32.toNat_inj.mp hzero)
        exact UInt32.toNat_inj.mp (show pending.toNat = 1 by omega)
      refine ⟨hunmoved.elapsed, ?_, hpending⟩
      rw [hone, UInt32.sub_self, UInt32.add_zero]
      exact hunmoved.lost
  | waitConsumed raw pending =>
    rw [hpoint] at hmoved
    refine h.go hpoint (Loop.steady hpoint rfl).2 (by simp) (by simp [Exec.access]) ?_
    exact hmoved
  | waitAdvance pending =>
    rw [hpoint] at hmoved
    obtain ⟨helapsed, hlost, hpending⟩ := hmoved
    refine h.go hpoint (Loop.steady hpoint rfl).2 (by simp) (by simp [Exec.access]) ?_
    exact ⟨pending, hpending, congrArg (· + pending.toUInt64) helapsed, hlost⟩
  | waitMajors =>
    rw [hpoint] at hmoved
    refine h.go hpoint (Loop.steady hpoint rfl).2 (by simp) (by simp [Exec.access]) ?_
    exact hmoved
  | waitNote majors =>
    rw [hpoint] at hmoved
    obtain ⟨pending, hpending, hwaited⟩ := hmoved
    refine h.go hpoint (Loop.steady hpoint rfl).2 (by simp) (by simp [Exec.access]) ?_
    simp only [Exec.access, noteMajors]
    split
    · exact ⟨pending, hpending, hwaited.elapsed, hwaited.lost⟩
    · exact ⟨pending, hpending, hwaited⟩
  | waitStart =>
    rw [hpoint] at hmoved
    obtain ⟨pending, hpending, hwaited⟩ := hmoved
    have hreturns : s.returns = some true := by simp [Loop.returns, hpoint]
    refine h.leave hreturns (by simp [hpoint]) (by simp [hpoint, Exec.access]) fun sampled => ?_
    rw [hpoint]
    exact ⟨pending, hpending, hwaited.elapsed, hwaited.lost⟩

theorem tallied_step {s : Loop} {op : LoopOp} (h : Tallied P s) (hop : ResyncFinds P s op) :
    Tallied P (s.step op) := by
  cases op with
  | tick => exact h.tick
  | resync =>
    simp only [Loop.step]
    split
    · rename_i hout
      exact h.call hout (.inl rfl)
    · exact h
  | wait =>
    simp only [Loop.step]
    split
    · rename_i hout
      exact h.call hout (.inr rfl)
    · exact h
  | access cycles => exact h.access cycles hop

theorem tallied_run {ops : List LoopOp} (h : Along Loop.step (ResyncFinds P) {} ops) :
    Tallied P (run Loop.step {} ops) :=
  @run_invariant _ _ Loop.step (ResyncFinds P) (Tallied P) (fun _ _ hs hop => tallied_step hs hop) {}
    ops tallied_init h

/-- The figure counts what has been dropped as executed. -/
theorem minorCycles_of_tally {collections : List Collection} {e : Exec} (h : Tally collections e)
    (hlost : lost collections < 2 ^ 32) :
    e.statsGet.minorCycles = UInt64.ofNat (waits collections + dropped collections) := by
  have hwide : e.overrunLost.toUInt64 = UInt64.ofNat (Exec.lost collections) := by
    rw [← UInt64.toNat_inj, UInt32.toNat_toUInt64, h.lost, UInt64.toNat_ofNat',
      UInt32.toNat_ofNat_of_lt' hlost]
    exact (Nat.mod_eq_of_lt (hlost.trans (by decide))).symm
  rw [statsGet, h.elapsed, hwide, Nat.add_right_comm, UInt64.ofNat_add _ (Exec.lost collections),
    UInt64.add_sub_cancel]

theorem dropped_eq_zero {collections : List Collection}
    (h : ∀ c ∈ collections, Collected (· = 0) c) : dropped collections = 0 := by
  refine List.sum_eq_zero_iff_forall_eq_nat.mpr fun n hn => ?_
  obtain ⟨c, hc, rfl⟩ := List.mem_map.mp hn
  obtain ⟨pending, hmoved⟩ := h c hc
  unfold Collection.dropped
  split
  · rfl
  · rename_i hwait
    rw [if_neg hwait] at hmoved
    rw [hmoved.2.dropped, hmoved.1]
    rfl

/-- Between calls, the figure of minor cycles is the number of waits that have returned exactly when
the ticks dropped by resyncs are a multiple of 2^64, and so it is in a run whose resyncs each find
nothing to drop. -/
theorem minor_cycles_iff {ops : List LoopOp} (hout : (run Loop.step {} ops).point = .out)
    (hlost : lost (run Loop.step {} ops).collections < 2 ^ 32) :
    ((run Loop.step {} ops).exec.statsGet.minorCycles =
        UInt64.ofNat (waits (run Loop.step {} ops).collections) ↔
      2 ^ 64 ∣ dropped (run Loop.step {} ops).collections) ∧
    (Along Loop.step (ResyncFinds (· = 0)) {} ops →
      (run Loop.step {} ops).exec.statsGet.minorCycles =
        UInt64.ofNat (waits (run Loop.step {} ops).collections)) := by
  have hany : Along Loop.step (ResyncFinds fun _ => True) {} ops := by
    refine (along_of_forall (P := fun _ => True) fun _ _ => trivial).mono ?_
    rintro s (_ | _ | _ | cycles) -
    · trivial
    · trivial
    · trivial
    · exact fun _ => trivial
  have htally := (tallied_run hany).tally
  rw [Loop.base, if_pos hout] at htally
  have hfigure := minorCycles_of_tally htally hlost
  have hiff : (run Loop.step {} ops).exec.statsGet.minorCycles =
        UInt64.ofNat (waits (run Loop.step {} ops).collections) ↔
      2 ^ 64 ∣ dropped (run Loop.step {} ops).collections := by
    rw [hfigure, UInt64.ofNat_add, UInt64.add_eq_left, ← UInt64.toNat_inj, UInt64.toNat_ofNat']
    exact (Nat.dvd_iff_mod_eq_zero ..).symm
  refine ⟨hiff, fun hnothing => hiff.mpr ?_⟩
  rw [dropped_eq_zero (tallied_run hnothing).each]
  exact dvd_zero _

def caughtUp : List LoopOp :=
  List.replicate 3 .tick ++ waitCall 0 ++ resyncCall ++ List.replicate 2 .tick ++ waitCall 1

theorem minor_cycles_iff_caughtUp :
    ((run Loop.step {} caughtUp).exec.statsGet.minorCycles =
        UInt64.ofNat (waits (run Loop.step {} caughtUp).collections) ↔
      2 ^ 64 ∣ dropped (run Loop.step {} caughtUp).collections) ∧
    (Along Loop.step (ResyncFinds (· = 0)) {} caughtUp →
      (run Loop.step {} caughtUp).exec.statsGet.minorCycles =
        UInt64.ofNat (waits (run Loop.step {} caughtUp).collections)) :=
  minor_cycles_iff (by decide +kernel) (by decide +kernel)

example : (run Loop.step {} caughtUp).exec.statsGet.minorCycles = 2 ∧
    waits (run Loop.step {} caughtUp).collections = 2 ∧
    lost (run Loop.step {} caughtUp).collections = 3 := by decide +kernel

def backlog : List LoopOp := List.replicate 30 .tick ++ resyncCall

/-- They are counted as minor cycles executed. -/
theorem backlog_counted_executed :
    ¬ (∀ ops : List LoopOp, (run Loop.step {} ops).point = .out →
      lost (run Loop.step {} ops).collections < 2 ^ 32 →
      (run Loop.step {} ops).exec.statsGet.minorCycles =
        UInt64.ofNat (waits (run Loop.step {} ops).collections)) ∧
    (run Loop.step {} backlog).exec.statsGet.minorCycles = 30 ∧
    waits (run Loop.step {} backlog).collections = 0 := by
  have hfigure : (run Loop.step {} backlog).exec.statsGet.minorCycles = 30 := by decide +kernel
  have hwaits : waits (run Loop.step {} backlog).collections = 0 := by decide +kernel
  refine ⟨?_, hfigure, hwaits⟩
  intro h
  have hbacklog := h backlog (by decide +kernel) (by decide +kernel)
  rw [hfigure, hwaits] at hbacklog
  exact absurd hbacklog (by decide)

end Exec

end QiranFirmware
