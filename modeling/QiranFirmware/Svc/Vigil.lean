import QiranFirmware.Exec.MajorBoundary
import QiranFirmware.Exec.MinorCycles
import QiranFirmware.Exec.Overruns
import QiranFirmware.Svc.HealthGate

/-! # The watchdog behind the loop

The loop waits for a tick, lets the health service check itself and the rest, and services the watchdog.
The check of the timing sees the overruns that the executive has counted, so that what the interrupt does
between the accesses of the loop decides in the end whether the watchdog is serviced.
-/
namespace QiranFirmware

open Machine

def checkExecTiming (stats : ExecStats) (seen : UInt32) : CheckRun × UInt32 :=
  if stats.overrunEvents ≠ seen then
    ({ status := .errTimeout, value := stats.overrunEvents }, stats.overrunEvents)
  else ({ value := stats.overrunEvents }, seen)

/-- The executive, the health service and the watchdog. `owed` stands for the loop's place: a wait has
returned, and the passes of its cycle are still to come. `passes` has no counterpart in the source: it
lists what the checks would have answered in each cycle. -/
structure Vigil where
  loop : Exec.Loop := {}
  owed : Bool := false
  seen : UInt32 := 0
  supervision : Supervision
  passes : List (ℕ → CheckRun) := []

inductive VigilOp
  | exec (op : Exec.LoopOp)
  | cycle (answers : ℕ → CheckRun)

namespace Vigil

open Exec

def start (backend : Option WatchdogBackend) (rs : List Registration) (v : Svc) : Vigil where
  supervision :=
    { health := Health.registerAll rs Health.init, watchdog := (Watchdog.init backend).2, v }

def ready (s : Vigil) : Bool := s.owed && s.loop.point == .out

def cycle (answers : ℕ → CheckRun) (s : Vigil) : Vigil :=
  let (timing, seen) := checkExecTiming s.loop.exec.statsGet s.seen
  let answers := Function.update answers 0 timing
  let supervision := s.supervision.cycle answers
  { s with
    owed := false
    seen := if 0 ∈ supervision.health.called then seen else s.seen
    supervision
    passes := s.passes ++ [answers] }

def step (s : Vigil) : VigilOp → Vigil
  | .exec .tick => { s with loop := s.loop.step .tick }
  | .exec .wait => if s.owed then s else { s with loop := s.loop.step .wait }
  | .exec .resync => { s with loop := s.loop.step .resync }
  | .exec (.access cycles) =>
    { s with loop := s.loop.step (.access cycles), owed := s.owed || s.loop.returns == some true }
  | .cycle answers => if s.ready then s.cycle answers else s

def Timely (s : Vigil) : VigilOp → Prop
  | .exec op => Exec.Timely s.loop op
  | .cycle _ => True

instance (s : Vigil) : ∀ op, Decidable (Timely s op)
  | .exec op => inferInstanceAs (Decidable (Exec.Timely s.loop op))
  | .cycle _ => .isTrue trivial

def flags (s : Vigil) : List Bool := s.passes.map fun answers => failed (answers 0).status

end Vigil

def Exec.Point.waiting : Exec.Point → Bool
  | .waitBody | .waitDue | .waitTicks | .waitOverrun .. | .waitConsumed .. | .waitAdvance _
  | .waitMajors | .waitNote _ | .waitStart => true
  | .out | .resyncTicks | .resyncAdvance _ | .resyncConsumed _ | .resyncMajors
  | .resyncConsumedMajors _ | .resyncDue | .resyncBody => false

namespace Vigil

open Exec

/-- The passes have found every late wait, but for the one that they are still owed. -/
structure Kept (first : Supervision) (s : Vigil) : Prop where
  counted : Counted s.loop
  noticed : Noticed s.loop
  supervision : s.supervision = run Supervision.cycle first s.passes
  owed : s.owed = true → s.loop.point.waiting = false
  flags : ∃ rest, lateness s.loop.collections = s.flags ++ rest ∧ rest.length = s.owed.toNat
  seen : s.seen = UInt32.ofNat (s.flags.countP id)

theorem kept_start (backend : Option WatchdogBackend) (rs : List Registration) (v : Svc) :
    Kept (start backend rs v).supervision (start backend rs v) :=
  ⟨counted_init, noticed_init, rfl, fun h => Bool.noConfusion h, ⟨[], rfl, rfl⟩, rfl⟩

variable {first : Supervision} {s : Vigil}

theorem waiting_access (cycles : UInt32) (e : Exec) {point : Point} (h : point.waiting = false) :
    (e.access cycles point).1.waiting = false := by
  cases point with
  | out | resyncTicks | resyncAdvance | resyncConsumed | resyncMajors | resyncConsumedMajors
  | resyncDue | resyncBody => rfl
  | waitBody | waitDue | waitTicks | waitOverrun | waitConsumed | waitAdvance | waitMajors | waitNote
  | waitStart => cases h

theorem waits_iff (s : Loop) : s.returns = some true ↔ s.point = .waitStart := by
  unfold Loop.returns
  cases s.point <;> simp

/-- What the executive does while it returns from no wait. -/
theorem Kept.exec (h : Kept first s) {op : LoopOp} (hop : Exec.Timely s.loop op)
    (howed : s.owed = true → (s.loop.step op).point.waiting = false)
    (hlate : lateness (s.loop.step op).collections = lateness s.loop.collections) :
    Kept first { s with loop := s.loop.step op } := by
  obtain ⟨rest, hrest, hlength⟩ := h.flags
  exact ⟨counted_step h.counted hop, h.noticed.step h.counted op, h.supervision, howed,
    ⟨rest, hlate.trans hrest, hlength⟩, h.seen⟩

theorem Kept.access (h : Kept first s) (cycles : UInt32)
    (hop : Exec.Timely s.loop (.access cycles)) :
    Kept first (s.step (.exec (.access cycles))) := by
  by_cases hwait : s.loop.returns = some true
  · have hpoint := (waits_iff s.loop).mp hwait
    have hidle : s.owed = false := by
      refine Bool.eq_false_iff.mpr fun howed => ?_
      have hnot := h.owed howed
      rw [hpoint] at hnot
      cases hnot
    obtain ⟨rest, hrest, hlength⟩ := h.flags
    have hnone : rest = [] := by
      rw [hidle] at hlength
      exact List.eq_nil_of_length_eq_zero hlength
    have hleave := @step_leave s.loop cycles true (by rw [Loop.samples, hpoint]) hwait
    rw [hpoint] at hleave
    have howed : (s.owed || s.loop.returns == some true) = true := by
      rw [hwait, Bool.or_eq_true]
      exact .inr rfl
    refine ⟨counted_step h.counted hop, h.noticed.step h.counted _, h.supervision, ?_, ?_, h.seen⟩
    · intro _
      show (s.loop.step (.access cycles)).point.waiting = false
      rw [hleave]
      rfl
    · refine ⟨[decide (lastSampled s.loop.collections + 1 < s.loop.sampled)], ?_, ?_⟩
      · show lateness (s.loop.step (.access cycles)).collections = s.flags ++ _
        rw [hleave, lateness_concat, hrest, hnone, List.append_nil]
        rfl
      · show _ = (s.owed || s.loop.returns == some true).toNat
        rw [howed]
        rfl
  · have hsame : s.step (.exec (.access cycles)) = { s with loop := s.loop.step (.access cycles) } := by
      have hnot : (s.loop.returns == some true) = false := beq_eq_false_iff_ne.mpr hwait
      rw [step, hnot, Bool.or_false]
    rw [hsame]
    refine h.exec hop ?_ ?_
    · intro howed
      exact waiting_access cycles s.loop.exec (h.owed howed)
    · show lateness (s.loop.access cycles).collections = _
      unfold Loop.access
      dsimp only
      split
      · rfl
      · rename_i wait hreturns
        cases wait with
        | true => exact absurd hreturns hwait
        | false => rw [lateness_concat, if_neg Bool.false_ne_true, List.append_nil]

structure Timed (first : Supervision) : Prop where
  loaded : first.health.Loaded
  timing : ∃ m, first.health.monitors[0]? = some m ∧ m.period = 1 ∧ m.tolerance = 2 ∧ m.gating = true

theorem register_getElem? {h : Health} {i : ℕ} {m : Monitor} (hm : h.monitors[i]? = some m)
    (r : Registration) : (Health.register r h).2.monitors[i]? = some m := by
  unfold Health.register
  split
  · exact hm
  split
  · exact hm
  · obtain ⟨hi, -⟩ := List.getElem?_eq_some_iff.mp hm
    exact (List.getElem?_append_left hi).trans hm

theorem registerAll_getElem? (rs : List Registration) {h : Health} {i : ℕ} {m : Monitor}
    (hm : h.monitors[i]? = some m) : (Health.registerAll rs h).monitors[i]? = some m := by
  induction rs generalizing h with
  | nil => exact hm
  | cons r rs ih => exact ih (register_getElem? hm r)

theorem timed_start (backend : Option WatchdogBackend) (rs : List Registration) (v : Svc) :
    Timed (start backend rs v).supervision where
  loaded := Health.loaded_registerAll rs (Health.loaded_registerAll Health.builtIn Health.loaded_empty)
  timing := ⟨_, registerAll_getElem? rs rfl, rfl, rfl, rfl⟩

/-- The check of the timing is called in every cycle. -/
theorem Timed.called (ht : Timed first) (cs : List (ℕ → CheckRun)) (answers : ℕ → CheckRun) :
    0 ∈ ((run Supervision.cycle first cs).cycle answers).health.called := by
  obtain ⟨m, hm, hperiod, -, -⟩ := ht.timing
  rw [called_iff ht.loaded cs answers hm, hperiod, UInt32.toNat_one, Nat.mod_one, Nat.mod_one]

theorem ofNat_succ_ne (n : ℕ) : UInt32.ofNat (n + 1) ≠ UInt32.ofNat n := by
  intro heq
  have hnat := congrArg UInt32.toNat heq
  rw [UInt32.toNat_ofNat', UInt32.toNat_ofNat'] at hnat
  omega

/-- The check fails when one more wait was late than it had seen, and has then seen it. -/
theorem checkExecTiming_eq {stats : ExecStats} {seen : UInt32} {n : ℕ} {late : Bool}
    (hseen : seen = UInt32.ofNat n) (hstats : stats.overrunEvents = UInt32.ofNat (n + late.toNat)) :
    failed (checkExecTiming stats seen).1.status = late ∧
      (checkExecTiming stats seen).2 = UInt32.ofNat (n + late.toNat) := by
  unfold checkExecTiming
  rw [hstats, hseen]
  cases late with
  | true =>
    rw [Bool.toNat_true, if_pos (ofNat_succ_ne n)]
    exact ⟨rfl, rfl⟩
  | false =>
    rw [Bool.toNat_false, Nat.add_zero, if_neg (not_not.mpr rfl)]
    exact ⟨rfl, rfl⟩

/-- The wait whose passes are owed, when the loop comes to them. -/
theorem Kept.owing (h : Kept first s) (hready : s.ready = true) :
    ∃ late : Bool, lateness s.loop.collections = s.flags ++ [late] ∧
      failed (checkExecTiming s.loop.exec.statsGet s.seen).1.status = late ∧
      (checkExecTiming s.loop.exec.statsGet s.seen).2 =
        UInt32.ofNat ((lateness s.loop.collections).countP id) := by
  obtain ⟨howed, hout⟩ := Bool.and_eq_true_iff.mp hready
  obtain ⟨rest, hrest, hlength⟩ := h.flags
  rw [howed] at hlength
  obtain ⟨late, rfl⟩ := List.length_eq_one_iff.mp hlength
  have hcount : (lateness s.loop.collections).countP id = s.flags.countP id + late.toNat := by
    rw [hrest, List.countP_append]
    cases late <;> rfl
  have hevents := h.noticed.count (eq_of_beq hout)
  rw [hcount] at hevents ⊢
  obtain ⟨hfailed, hseen⟩ := @checkExecTiming_eq s.loop.exec.statsGet _ _ _ h.seen hevents
  exact ⟨late, hrest, hfailed, hseen⟩

theorem flags_cycle (answers : ℕ → CheckRun) (s : Vigil) : (s.cycle answers).flags =
    s.flags ++ [failed (checkExecTiming s.loop.exec.statsGet s.seen).1.status] := by
  simp [flags, cycle]

/-- After the passes every late wait has been found. -/
theorem Kept.cycle (h : Kept first s) (ht : Timed first) (hready : s.ready = true)
    (answers : ℕ → CheckRun) :
    Kept first (s.cycle answers) ∧ (s.cycle answers).flags = lateness s.loop.collections := by
  obtain ⟨late, hlate, hfailed, hseen⟩ := h.owing hready
  have hflags : (s.cycle answers).flags = lateness s.loop.collections := by
    rw [flags_cycle, hfailed, hlate]
  have hcalled := ht.called s.passes
    (Function.update answers 0 (checkExecTiming s.loop.exec.statsGet s.seen).1)
  rw [← h.supervision] at hcalled
  refine ⟨⟨h.counted, h.noticed, ?_, fun howed => Bool.noConfusion howed, ?_, ?_⟩, hflags⟩
  · simp only [Vigil.cycle, run_append, run_cons, run_nil, h.supervision]
  · exact ⟨[], (List.append_nil _ ▸ hflags.symm), rfl⟩
  · rw [hflags, ← hseen]
    exact if_pos hcalled

theorem Kept.step (h : Kept first s) (ht : Timed first) {op : VigilOp} (hop : Timely s op) :
    Kept first (s.step op) := by
  cases op with
  | cycle answers =>
    simp only [Vigil.step]
    split
    · rename_i hready
      exact (h.cycle ht hready answers).1
    · exact h
  | exec op =>
    cases op with
    | tick => exact h.exec hop h.owed rfl
    | resync =>
      refine h.exec hop ?_ ?_
      · intro howed
        simp only [Loop.step]
        split
        · rfl
        · exact h.owed howed
      · simp only [Loop.step]
        split
        · rfl
        · rfl
    | wait =>
      simp only [Vigil.step]
      split
      · exact h
      · rename_i hidle
        refine h.exec hop (fun howed => absurd howed hidle) ?_
        simp only [Loop.step]
        split
        · rfl
        · rfl
    | access cycles => exact h.access cycles hop

theorem kept_run (ht : Timed first) (hs : Kept first s) {ops : List VigilOp}
    (h : Along Vigil.step Timely s ops) : Kept first (run Vigil.step s ops) :=
  @run_invariant _ _ Vigil.step Timely (Kept first) (fun _ _ hs hop => hs.step ht hop) s ops hs h

theorem streak_map {α β : Type*} (p : β → Bool) (f : α → β) (xs : List α) :
    streak p (xs.map f) = streak (fun x => p (f x)) xs := by
  induction xs using List.reverseRecOn with
  | nil => rfl
  | append_singleton xs x ih =>
    rw [List.map_append, List.map_singleton, streak_concat, streak_concat, ih]

/-- The failures in a row of the timing are the late waits in a row. -/
theorem failing_timing {m : Monitor} (hperiod : m.period = 1) (s : Vigil) :
    failing s.passes 0 m = streak id s.flags := by
  rw [failing, Monitor.statuses, hperiod, UInt32.toNat_one, Nat.zero_mod, results_one, streak_map,
    streak_map, flags, streak_map]
  rfl

/-- The state that a cycle leaves is that of the gating monitors alone. -/
theorem healthy_iff {first : Supervision} (h : first.health.Loaded) (cs : List (ℕ → CheckRun))
    (answers : ℕ → CheckRun) :
    (run Supervision.cycle first (cs ++ [answers])).health.state = .healthy ↔
      GatingWithin first.health.monitors fun i m => failing (cs ++ [answers]) i m % 2 ^ 32 := by
  have hstate : (run Supervision.cycle first (cs ++ [answers])).health.state =
      (run Supervision.cycle first (cs ++ [answers])).health.verdict := by
    rw [run_append, run_cons, run_nil, Supervision.cycle_health, Health.consolidate_state,
      Health.verdict, Health.verdict, (Health.consolidate_monitors _ _).1]
  rw [hstate, Health.verdict_eq_healthy]
  constructor
  · intro hnone i m hm
    obtain ⟨m', hm', hafter⟩ := cycles_of_registered h (cs ++ [answers]) hm
    exact hafter.contributing_iff.mp (hnone m' (List.mem_of_getElem? hm'))
  · intro hwithin m' hmem
    obtain ⟨i, hm'⟩ := List.mem_iff_getElem?.mp hmem
    obtain ⟨m, hm, hafter⟩ := after_cycles h (cs ++ [answers]) hm'
    exact hafter.contributing_iff.mpr (hwithin i m hm)

def OthersWithin (ms : List Monitor) (cs : List (ℕ → CheckRun)) : Prop :=
  ∀ i m, 0 < i → ms[i]? = some m → m.gating = true → failing cs i m % 2 ^ 32 ≤ m.tolerance.toNat

theorem Timed.gating_iff (ht : Timed first) {s : Vigil} :
    (GatingWithin first.health.monitors fun i m => failing s.passes i m % 2 ^ 32) ↔
      streak id s.flags % 2 ^ 32 ≤ 2 ∧ OthersWithin first.health.monitors s.passes := by
  obtain ⟨m, hm, hperiod, htolerance, hgating⟩ := ht.timing
  have htwo : m.tolerance.toNat = 2 := by rw [htolerance]; rfl
  constructor
  · intro hwithin
    have htiming : failing s.passes 0 m % 2 ^ 32 ≤ m.tolerance.toNat := hwithin 0 m hm hgating
    rw [failing_timing hperiod, htwo] at htiming
    exact ⟨htiming, fun i m _ hm => hwithin i m hm⟩
  · rintro ⟨htiming, hothers⟩ i m' hm' hgating'
    rcases Nat.eq_zero_or_pos i with rfl | hpos
    · obtain rfl := Option.some.inj (hm.symm.trans hm')
      show failing s.passes 0 m % 2 ^ 32 ≤ m.tolerance.toNat
      rw [failing_timing hperiod, htwo]
      exact htiming
    · exact hothers i m' hpos hm' hgating'

/-- Whatever interrupts come between the accesses of the loop, the cycle after a wait services the
watchdog that is armed, and otherwise counts that it has not: it does as long as no more than two waits in a
row were late up to this one, counted in 32 bits, and no other gating monitor has failed more often than
it may. -/
theorem serviced_iff (backend : Option WatchdogBackend) (rs : List Registration) (v : Svc)
    {ops : List VigilOp} (h : Along step Timely (start backend rs v) ops)
    (hready : (run step (start backend rs v) ops).ready = true) (answers : ℕ → CheckRun) :
    let first := start backend rs v
    let s := run step first ops
    let after := s.step (.cycle answers)
    (after.supervision.health.state = .healthy ↔
      streak id (lateness s.loop.collections) % 2 ^ 32 ≤ 2 ∧
        OthersWithin first.supervision.health.monitors after.passes) ∧
    (∃ timing, after.passes = s.passes ++ [Function.update answers 0 timing]) ∧
    after.supervision.watchdog =
      s.supervision.watchdog.tickleIfHealthy after.supervision.health.state := by
  intro first s after
  have ht : Timed first.supervision := timed_start backend rs v
  have hkept : Kept first.supervision s := kept_run ht (kept_start backend rs v) h
  have hafter : after = s.cycle answers := if_pos hready
  obtain ⟨hkept', hflags⟩ := hkept.cycle ht hready answers
  rw [← hafter] at hkept' hflags
  have hpasses : after.passes = s.passes ++
      [Function.update answers 0 (checkExecTiming s.loop.exec.statsGet s.seen).1] := by
    rw [hafter]
    rfl
  refine ⟨?_, ⟨_, hpasses⟩, ?_⟩
  · rw [← hflags, ← ht.gating_iff, hkept'.supervision, hpasses]
    exact healthy_iff ht.loaded _ _
  · rw [hafter]
    rfl

def lateWait : List VigilOp :=
  [.exec .tick, .exec .tick, .exec .wait] ++ List.replicate 9 (.exec (.access 0))

/-- The third late wait in a row withholds the service of the watchdog. -/
theorem serviced_third_late :
    let ops := lateWait ++ [.cycle fun _ => {}] ++ lateWait ++ [.cycle fun _ => {}] ++ lateWait
    ((run step (start none [] {}) ops).step (.cycle fun _ => {})).supervision.health.state ≠ .healthy := by
  intro ops hhealthy
  have htimely : Along step Timely (start none [] {}) ops := by decide
  have hready : (run step (start none [] {}) ops).ready = true := by decide
  have hwithin := ((serviced_iff none [] {} htimely hready fun _ => {}).1.mp hhealthy).1
  have hlate : lateness (run step (start none [] {}) ops).loop.collections = [true, true, true] := by
    decide
  rw [hlate] at hwithin
  exact absurd hwithin (by decide)

end Vigil

end QiranFirmware
