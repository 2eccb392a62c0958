import QiranFirmware.Machine.Countdown
import QiranFirmware.Machine.Runs
import QiranFirmware.Svc.Health

/-! # What the watchdog is kicked for

Every monitor goes through the cycles on its own: when it is due depends on its index and its period
alone, and its failures in a row on what its own check has answered at those times. The verdict of a
cycle is that of the failures in a row of the gating monitors, which are counted in 32 bits.
-/
namespace QiranFirmware

open Machine

def failed (st : Status) : Bool := st ≠ .ok

namespace Monitor

def due (m : Monitor) : Bool := !decide (1 < m.countdown)

def next (m : Monitor) (run : CheckRun) : Monitor := (m.check run {}).2.1

theorem check_eq (run : CheckRun) (m : Monitor) (v : Svc) :
    (m.check run v).1 = m.due ∧ (m.check run v).2.1 = m.next run := by
  unfold next check due
  split
  · rename_i hcount
    exact ⟨by simp [hcount], rfl⟩
  rename_i hcount
  dsimp only
  split
  · exact ⟨by simp [hcount], rfl⟩
  · exact ⟨by simp [hcount], rfl⟩

theorem next_of_not_due {m : Monitor} (h : 1 < m.countdown) (run : CheckRun) :
    m.next run = { m with countdown := m.countdown - 1 } := by
  rw [next, check, if_pos h]

theorem next_of_due {m : Monitor} (h : ¬ 1 < m.countdown) (run : CheckRun) :
    (m.next run).countdown = m.period ∧ (m.next run).consecutive =
      if failed run.status then m.consecutive + 1 else 0 := by
  rw [next, check, if_neg h]
  by_cases hok : run.status = .ok
  · simp [hok, failed]
  · simp [hok, failed]

structure Same (m m' : Monitor) : Prop where
  period : m'.period = m.period
  tolerance : m'.tolerance = m.tolerance
  gating : m'.gating = m.gating

theorem Same.next {m m' : Monitor} (h : Same m m') (run : CheckRun) : Same m (m'.next run) := by
  unfold Monitor.next check
  split
  · exact ⟨h.period, h.tolerance, h.gating⟩
  dsimp only
  split
  · exact ⟨h.period, h.tolerance, h.gating⟩
  · exact ⟨h.period, h.tolerance, h.gating⟩

def statuses (i : ℕ) (m : Monitor) (answers : List CheckRun) : List Status :=
  results m.period.toNat (i % m.period.toNat) CheckRun.status answers

/-- A monitor after cycles in which its check would have answered so. -/
structure After (i : ℕ) (m : Monitor) (answers : List CheckRun) (m' : Monitor) : Prop where
  same : Same m m'
  counts : Counts m.period.toNat (i % m.period.toNat) answers.length m'.countdown.toNat
  consecutive : m'.consecutive = UInt32.ofNat (streak failed (statuses i m answers))

theorem After.due_iff {i : ℕ} {m m' : Monitor} {answers : List CheckRun}
    (h : After i m answers m') :
    m'.due = true ↔ answers.length % m.period.toNat = i % m.period.toNat := by
  rw [← h.counts.due_iff, due, Bool.not_eq_true', decide_eq_false_iff_not, UInt32.lt_iff_toNat_lt,
    UInt32.toNat_one]
  have hpos := h.counts.pos
  omega

theorem After.next {i : ℕ} {m m' : Monitor} {answers : List CheckRun} (h : After i m answers m')
    (run : CheckRun) : After i m (answers ++ [run]) (m'.next run) := by
  have hdue := h.due_iff
  rw [due, Bool.not_eq_true', decide_eq_false_iff_not] at hdue
  refine ⟨h.same.next run, ?_, ?_⟩
  · rw [List.length_append, List.length_singleton]
    by_cases hcount : 1 < m'.countdown
    · have hle : 1 ≤ m'.countdown := UInt32.le_of_lt hcount
      rw [next_of_not_due hcount, UInt32.toNat_sub_of_le _ _ hle]
      exact h.counts.lower (UInt32.lt_iff_toNat_lt.mp hcount)
    · have hlast : m'.countdown.toNat = 1 := h.counts.due_iff.mpr (hdue.mp hcount)
      rw [(next_of_due hcount run).1, h.same.period]
      exact h.counts.reload hlast
  · rw [statuses, results_concat]
    by_cases hcount : 1 < m'.countdown
    · rw [if_neg (fun hk => hdue.mpr hk hcount), next_of_not_due hcount]
      exact h.consecutive
    · rw [if_pos (hdue.mp hcount), streak_concat, (next_of_due hcount run).2]
      split
      · rw [h.consecutive, statuses, UInt32.ofNat_add]
        rfl
      · rfl

structure Registered (i : ℕ) (m : Monitor) : Prop where
  period : 0 < m.period.toNat
  countdown : m.countdown.toNat = i % m.period.toNat + 1
  consecutive : m.consecutive = 0

theorem after_run {i : ℕ} {m : Monitor} (h : Registered i m) (answers : List CheckRun) :
    After i m answers (run next m answers) := by
  induction answers using List.reverseRecOn with
  | nil =>
    refine ⟨⟨rfl, rfl, rfl⟩, ?_, h.consecutive⟩
    rw [run_nil, h.countdown]
    exact counts_start i h.period
  | append_singleton answers answer ih =>
    rw [run_append]
    exact ih.next answer

end Monitor

namespace Health

def Loaded (h : Health) : Prop :=
  h.monitors.length ≤ monitorMax ∧ h.state = .healthy ∧
    ∀ i (m : Monitor), h.monitors[i]? = some m → m.Registered i

theorem loaded_register {h : Health} (hload : Loaded h) (r : Registration) :
    Loaded (register r h).2 := by
  obtain ⟨hlen, hstate, hms⟩ := hload
  unfold register
  split
  · exact ⟨hlen, hstate, hms⟩
  rename_i hperiod
  split
  · exact ⟨hlen, hstate, hms⟩
  rename_i hroom
  have hmax : monitorMax = 16 := rfl
  refine ⟨by simp only [List.length_append, List.length_singleton]; omega, hstate, ?_⟩
  intro i m hm
  dsimp only at hm
  rcases Nat.lt_or_ge i h.monitors.length with hi | hi
  · rw [List.getElem?_append_left hi] at hm
    exact hms i m hm
  · rw [List.getElem?_append_right hi, List.getElem?_singleton] at hm
    split at hm
    swap
    · simp at hm
    rename_i hlast
    obtain rfl := Option.some.inj hm
    have hi : i = h.monitors.length := by omega
    have hpos : 0 < r.period.toNat := by
      refine Nat.pos_of_ne_zero fun hzero => hperiod ?_
      rwa [← UInt32.toNat_inj]
    have hlt := Nat.mod_le i r.period.toNat
    refine ⟨hpos, ?_, rfl⟩
    dsimp only
    rw [UInt32.toNat_add, UInt32.toNat_mod, UInt32.toNat_ofNat', UInt32.toNat_one, ← hi,
      Nat.mod_eq_of_lt (show i < 2 ^ 32 by omega)]
    omega

theorem loaded_registerAll (rs : List Registration) {h : Health} (hload : Loaded h) :
    Loaded (registerAll rs h) := by
  induction rs generalizing h with
  | nil => exact hload
  | cons r rs ih => exact ih (loaded_register hload r)

/-- Behind the monitors of `svc_health_init` others are registered as behind any. -/
theorem registerAll_init (rs : List Registration) :
    registerAll rs init = registerAll (builtIn ++ rs) {} := (List.foldl_append ..).symm

theorem loaded_empty : Loaded {} := ⟨Nat.zero_le _, rfl, by simp⟩

/-- A pass takes every monitor to its next state, whatever the others do. -/
theorem checkFrom_monitors (answers : ℕ → CheckRun) (i : ℕ) (ms : List Monitor) (v : Svc) :
    (checkFrom answers i ms v).1 = ms.mapIdx fun j m => m.next (answers (i + j)) := by
  induction ms generalizing i v with
  | nil => rfl
  | cons m ms ih =>
    rw [List.mapIdx_cons, Nat.add_zero, ← (Monitor.check_eq (answers i) m v).2]
    simp only [checkFrom, ih, Nat.add_right_comm, Nat.add_assoc]

/-- It calls the checks of the monitors that are due. -/
theorem checkFrom_called (answers : ℕ → CheckRun) (i : ℕ) (ms : List Monitor) (v : Svc) :
    (checkFrom answers i ms v).2.1 = ((ms.zipIdx i).filter fun x => x.1.due).map Prod.snd := by
  induction ms generalizing i v with
  | nil => rfl
  | cons m ms ih =>
    have htail := ih (i + 1) (m.check (answers i) v).2.2
    have hcalls := (Monitor.check_eq (answers i) m v).1
    cases hdue : m.due with
    | true => simp [checkFrom, hcalls, hdue, htail]
    | false => simp [checkFrom, hcalls, hdue, htail]

theorem check_monitors (answers : ℕ → CheckRun) (h : Health) (v : Svc) :
    (h.check answers v).1.monitors = h.monitors.mapIdx fun i m => m.next (answers i) := by
  have hloop := checkFrom_monitors answers 0 h.monitors v
  simp only [Nat.zero_add] at hloop
  exact hloop

theorem mem_check_called (answers : ℕ → CheckRun) (h : Health) (v : Svc) (i : ℕ) :
    i ∈ (h.check answers v).1.called ↔ ∃ m, h.monitors[i]? = some m ∧ m.due = true := by
  have hloop : (h.check answers v).1.called = _ := checkFrom_called answers 0 h.monitors v
  simp [hloop, List.mem_zipIdx_iff_getElem?]

theorem consolidate_monitors (h : Health) (v : Svc) : (h.consolidate v).1.monitors = h.monitors ∧
    (h.consolidate v).1.called = h.called := by
  unfold consolidate
  split
  · exact ⟨rfl, rfl⟩
  · exact ⟨rfl, rfl⟩

/-- The state is the verdict just formed, whether it was so before or not. -/
theorem consolidate_state (h : Health) (v : Svc) : (h.consolidate v).1.state = h.verdict := by
  unfold consolidate
  split
  · rfl
  · rename_i hsame
    exact (not_not.mp hsame).symm

theorem verdict_eq_healthy (h : Health) :
    h.verdict = .healthy ↔ ∀ m ∈ h.monitors, m.contributing = false := by
  unfold verdict
  split
  · rename_i hany
    obtain ⟨m, hm, hcontributing⟩ := List.any_eq_true.mp hany
    refine iff_of_false (by simp) ?_
    intro hnone
    simp [hnone m hm] at hcontributing
  · rename_i hnot
    refine iff_of_true rfl ?_
    intro m hm
    rw [Bool.not_eq_true, List.any_eq_false] at hnot
    exact Bool.eq_false_iff.mpr (hnot m hm)

end Health

namespace Supervision

open Health

theorem cycle_health (s : Supervision) (answers : ℕ → CheckRun) : (s.cycle answers).health =
    ((s.health.check answers s.v).1.consolidate (s.health.check answers s.v).2).1 := rfl

theorem cycle_watchdog (s : Supervision) (answers : ℕ → CheckRun) : (s.cycle answers).watchdog =
    s.watchdog.tickleIfHealthy (s.cycle answers).health.state := rfl

theorem cycle_monitors (s : Supervision) (answers : ℕ → CheckRun) :
    (s.cycle answers).health.monitors =
      s.health.monitors.mapIdx fun i m => m.next (answers i) := by
  rw [cycle_health, (consolidate_monitors _ _).1, check_monitors]

theorem mem_cycle_called (s : Supervision) (answers : ℕ → CheckRun) (i : ℕ) :
    i ∈ (s.cycle answers).health.called ↔ ∃ m, s.health.monitors[i]? = some m ∧ m.due = true := by
  rw [cycle_health, (consolidate_monitors _ _).2, mem_check_called]

/-- Every monitor has a run of its own. -/
theorem run_monitors (s : Supervision) (cs : List (ℕ → CheckRun)) :
    (run cycle s cs).health.monitors =
      s.health.monitors.mapIdx fun i m => run Monitor.next m (cs.map fun answers => answers i) := by
  induction cs using List.reverseRecOn with
  | nil =>
    refine List.ext_getElem? fun i => ?_
    rw [List.getElem?_mapIdx]
    cases h : s.health.monitors[i]? <;> simp [h]
  | append_singleton cs answers ih =>
    rw [run_append, run_cons, run_nil, cycle_monitors, ih, List.mapIdx_mapIdx]
    simp only [List.map_append, List.map_singleton, run_append, run_cons, run_nil,
      Function.comp_def]

theorem run_armed {s : Supervision} (h : s.watchdog.armed = true) (cs : List (ℕ → CheckRun)) :
    (run cycle s cs).watchdog.armed = true := by
  refine @run_keeps _ _ cycle (fun s => s.watchdog.armed = true) ?_ s h cs
  intro s answers harmed
  rw [cycle_watchdog, Watchdog.tickleIfHealthy]
  split
  · exact harmed
  · exact harmed

def Kicks (s : Supervision) (answers : ℕ → CheckRun) : Prop :=
  (s.cycle answers).watchdog.kicks = s.watchdog.kicks + 1

theorem kicks_iff_none_contributing {s : Supervision} (h : s.watchdog.armed = true)
    (answers : ℕ → CheckRun) : s.Kicks answers ↔
      ∀ m ∈ (s.cycle answers).health.monitors, m.contributing = false := by
  have hstate : (s.cycle answers).health.state = (s.cycle answers).health.verdict := by
    rw [cycle_health, consolidate_state, verdict, verdict, (consolidate_monitors _ _).1]
  rw [← verdict_eq_healthy, ← hstate, Kicks, cycle_watchdog, Watchdog.tickleIfHealthy]
  split
  · rename_i hfailed
    exact iff_of_false (by simp) hfailed
  · rename_i hhealthy
    exact iff_of_true rfl (not_not.mp hhealthy)

end Supervision

open Health Supervision

/-- The failures in a row of the monitor registered at `i`, over the cycles so far. -/
def failing (cs : List (ℕ → CheckRun)) (i : ℕ) (m : Monitor) : ℕ :=
  streak failed (m.statuses i (cs.map fun answers => answers i))

def GatingWithin (ms : List Monitor) (count : ℕ → Monitor → ℕ) : Prop :=
  ∀ i m, ms[i]? = some m → m.gating = true → count i m ≤ m.tolerance.toNat

/-- A monitor of the table after some cycles. -/
theorem after_cycles {s : Supervision} (h : s.health.Loaded) (cs : List (ℕ → CheckRun)) {i : ℕ}
    {m' : Monitor} (hm' : (run cycle s cs).health.monitors[i]? = some m') :
    ∃ m, s.health.monitors[i]? = some m ∧ m.After i (cs.map fun answers => answers i) m' := by
  rw [run_monitors, List.getElem?_mapIdx, Option.map_eq_some_iff] at hm'
  obtain ⟨m, hm, rfl⟩ := hm'
  exact ⟨m, hm, Monitor.after_run (h.2.2 i m hm) _⟩

theorem cycles_of_registered {s : Supervision} (h : s.health.Loaded) (cs : List (ℕ → CheckRun))
    {i : ℕ} {m : Monitor} (hm : s.health.monitors[i]? = some m) :
    ∃ m', (run cycle s cs).health.monitors[i]? = some m' ∧
      m.After i (cs.map fun answers => answers i) m' := by
  refine ⟨run Monitor.next m (cs.map fun answers => answers i), ?_,
    Monitor.after_run (h.2.2 i m hm) _⟩
  rw [run_monitors, List.getElem?_mapIdx, hm]
  rfl

/-- The check of a monitor is called in the cycles of its phase. -/
theorem called_iff {s : Supervision} (h : s.health.Loaded) (cs : List (ℕ → CheckRun))
    (answers : ℕ → CheckRun) {i : ℕ} {m : Monitor} (hm : s.health.monitors[i]? = some m) :
    i ∈ ((run cycle s cs).cycle answers).health.called ↔
      cs.length % m.period.toNat = i % m.period.toNat := by
  obtain ⟨m', hm', hafter⟩ := cycles_of_registered h cs hm
  rw [mem_cycle_called, hm', ← List.length_map fun answers : ℕ → CheckRun => answers i,
    ← hafter.due_iff]
  simp

/-- What is compared with the tolerance is the count in 32 bits. -/
theorem Monitor.After.contributing_iff {i : ℕ} {m m' : Monitor} {answers : List CheckRun}
    (h : m.After i answers m') : m'.contributing = false ↔
      (m.gating = true → streak failed (m.statuses i answers) % 2 ^ 32 ≤ m.tolerance.toNat) := by
  rw [Monitor.contributing, h.same.gating, h.same.tolerance, h.consecutive]
  cases m.gating with
  | true =>
    rw [Bool.true_and, decide_eq_false_iff_not, UInt32.not_lt, UInt32.le_iff_toNat_le,
      UInt32.toNat_ofNat']
    exact ⟨fun hle _ => hle, fun hle => hle rfl⟩
  | false => simp

theorem kicks_iff {s : Supervision} (h : s.health.Loaded) (harmed : s.watchdog.armed = true)
    (cs : List (ℕ → CheckRun)) (answers : ℕ → CheckRun) : (run cycle s cs).Kicks answers ↔
      GatingWithin s.health.monitors fun i m => failing (cs ++ [answers]) i m % 2 ^ 32 := by
  have hrun : (run cycle s cs).cycle answers = run cycle s (cs ++ [answers]) := by
    rw [run_append, run_cons, run_nil]
  rw [kicks_iff_none_contributing (run_armed harmed cs), hrun]
  constructor
  · intro hnone i m hm
    obtain ⟨m', hm', hafter⟩ := cycles_of_registered h (cs ++ [answers]) hm
    exact hafter.contributing_iff.mp (hnone m' (List.mem_of_getElem? hm'))
  · intro hwithin m' hmem
    obtain ⟨i, hm'⟩ := List.mem_iff_getElem?.mp hmem
    obtain ⟨m, hm, hafter⟩ := after_cycles h (cs ++ [answers]) hm'
    exact hafter.contributing_iff.mpr (hwithin i m hm)

def supervised (rs : List Registration) (v : Svc) : Supervision where
  health := registerAll rs {}
  watchdog := (Watchdog.init (some { arm := some .ok, kick := true })).2
  v := v

/-- A monitor's check is called in the cycles of its phase. A cycle kicks the watchdog if and only if no
gating monitor has failed more often in a row than it may, unless all that have look as if they had
not in 32 bits; none does that has failed less than 2 ^ 32 times. -/
theorem watchdog_gate_iff (rs : List Registration) (v : Svc) (cs : List (ℕ → CheckRun))
    (answers : ℕ → CheckRun) :
    let s := supervised rs v
    let ms := s.health.monitors
    let count := failing (cs ++ [answers])
    (∀ i m, ms[i]? = some m → (i ∈ ((run cycle s cs).cycle answers).health.called ↔
      cs.length % m.period.toNat = i % m.period.toNat)) ∧
    (((run cycle s cs).Kicks answers ↔ GatingWithin ms count) ↔
      (GatingWithin ms (fun i m => count i m % 2 ^ 32) → GatingWithin ms count)) ∧
    ((∀ i m, ms[i]? = some m → m.gating = true → count i m < 2 ^ 32) →
      ((run cycle s cs).Kicks answers ↔ GatingWithin ms count)) := by
  intro s ms count
  have hload : s.health.Loaded := loaded_registerAll rs loaded_empty
  have hkicks : (run cycle s cs).Kicks answers ↔ GatingWithin ms fun i m => count i m % 2 ^ 32 :=
    kicks_iff hload rfl cs answers
  have hwrapped : GatingWithin ms count → GatingWithin ms fun i m => count i m % 2 ^ 32 := by
    intro hwithin i m hm hgating
    exact Nat.le_trans (Nat.mod_le _ _) (hwithin i m hm hgating)
  refine ⟨fun i m hm => called_iff hload cs answers hm, ?_, ?_⟩
  · rw [hkicks]
    exact ⟨fun hiff => hiff.mp, fun hshown => ⟨hshown, hwrapped⟩⟩
  · intro hshort
    rw [hkicks]
    refine ⟨fun hwithin i m hm hgating => ?_, hwrapped⟩
    have hle : count i m % 2 ^ 32 ≤ m.tolerance.toNat := hwithin i m hm hgating
    rwa [Nat.mod_eq_of_lt (hshort i m hm hgating)] at hle

def strict : List Registration := [{ name := "gate", cls := .gating, period := 1, tolerance := 0 }]

def failAll : ℕ → CheckRun := fun _ => { status := .errHardware }

theorem failing_strict (n : ℕ) {m : Monitor} (hperiod : m.period.toNat = 1) :
    failing (List.replicate n failAll) 0 m = n := by
  have hstatuses : m.statuses 0 ((List.replicate n failAll).map fun answers => answers 0) =
      List.replicate n .errHardware := by
    rw [Monitor.statuses, hperiod, Nat.zero_mod, results_one, List.map_replicate,
      List.map_replicate]
    rfl
  rw [failing, hstatuses, streak_of_forall, List.length_replicate]
  intro st hst
  rw [List.eq_of_mem_replicate hst]
  rfl

/-- The last of 2 ^ 32 cycles in which the check fails kicks the watchdog. -/
theorem endless_failure_kicks :
    let cs := List.replicate (2 ^ 32 - 1) failAll
    (run cycle (supervised strict {}) cs).Kicks failAll ∧
      ¬ GatingWithin (supervised strict {}).health.monitors (failing (cs ++ [failAll])) := by
  intro cs
  have hcs : cs ++ [failAll] = List.replicate (2 ^ 32) failAll := List.replicate_succ'.symm
  have honly : ∀ i m, (supervised strict {}).health.monitors[i]? = some m →
      i = 0 ∧ m.period.toNat = 1 ∧ m.gating = true ∧ m.tolerance.toNat = 0 := by
    intro i m hm
    cases i with
    | zero =>
      obtain rfl := Option.some.inj hm
      exact ⟨rfl, rfl, rfl, rfl⟩
    | succ i =>
      have hnone : (supervised strict {}).health.monitors[i + 1]? = none := rfl
      simp [hnone] at hm
  refine ⟨?_, ?_⟩
  · rw [kicks_iff (loaded_registerAll strict loaded_empty) rfl, hcs]
    intro i m hm _
    obtain ⟨rfl, hperiod, -, -⟩ := honly i m hm
    dsimp only
    rw [failing_strict _ hperiod]
    exact Nat.zero_le _
  · intro hwithin
    obtain ⟨-, hperiod, hgating, htolerance⟩ := honly 0 _ rfl
    have hle := hwithin 0 _ rfl hgating
    rw [hcs, failing_strict _ hperiod, htolerance] at hle
    exact absurd hle (by decide)

end QiranFirmware
