import Mathlib.Algebra.Order.BigOperators.Group.List
import Mathlib.Algebra.Order.Ring.Nat
import QiranFirmware.Exec.Sched
import QiranFirmware.Machine.Runs

/-! # The cycles that have been measured

The main loop takes the time of each task it runs. Every cycle runs the tasks of the minor cycle, and those
of the major cycle when a boundary has been passed, whatever slot the loop is in by then. The worst times
of the tasks are kept apart, so that the figure of the worst slot is none that has been measured; it is a
bound on all that have.
-/
namespace QiranFirmware.Exec

open Machine

def Sched.meanCycles (id : ℕ) (s : Sched) : UInt32 :=
  if h : id < execTaskCount then
    let stat := s.stat[id]
    if stat.runs = 0 then 0 else (stat.cyclesTotal / stat.runs.toUInt64).toUInt32
  else 0

def cycleTasks (majorDue : Bool) : List ℕ := List.range 9 ++ (if majorDue then [9] else []) ++ [10]

/-- What the cycle counter shows as the tasks of a cycle are entered and left. -/
structure TimedCycle where
  majorDue : Bool
  entered : ℕ → UInt32
  left : ℕ → UInt32

def Sched.runTask (c : TimedCycle) (s : Sched) (id : ℕ) : Sched :=
  (s.enter id (c.entered id)).leave id (c.left id)

def Sched.cycle (s : Sched) (c : TimedCycle) : Sched :=
  (cycleTasks c.majorDue).foldl (Sched.runTask c) s

namespace TimedCycle

def elapsed (c : TimedCycle) (id : ℕ) : UInt32 := c.left id - c.entered id

def times (c : TimedCycle) : List (ℕ × UInt32) :=
  (cycleTasks c.majorDue).map fun id => (id, c.elapsed id)

def total (c : TimedCycle) : ℕ := (c.times.map fun x => x.2.toNat).sum

end TimedCycle

def timesOf (id : ℕ) (times : List (ℕ × UInt32)) : List UInt32 :=
  times.filterMap fun x => if x.1 = id then some x.2 else none

structure Figures (times : List UInt32) (stat : ExecTaskStat) : Prop where
  runs : stat.runs = UInt32.ofNat times.length
  last : stat.cyclesLast = times.getLastD 0
  total : stat.cyclesTotal = UInt64.ofNat (times.map (·.toNat)).sum
  worst : IsGreatest (insert 0 {t | t ∈ times}) stat.cyclesWorst

theorem figures_init : Figures [] {} := by
  refine ⟨rfl, rfl, rfl, Set.mem_insert 0 _, ?_⟩
  rintro t (rfl | ht)
  · exact UInt32.le_refl 0
  · cases ht

/-- One more time. -/
theorem Figures.concat {times : List UInt32} {stat : ExecTaskStat} (h : Figures times stat)
    (elapsed : UInt32) : Figures (times ++ [elapsed])
      { runs := stat.runs + 1
        cyclesLast := elapsed
        cyclesTotal := stat.cyclesTotal + elapsed.toUInt64
        cyclesWorst := if stat.cyclesWorst < elapsed then elapsed else stat.cyclesWorst } := by
  obtain ⟨hmem, hle⟩ := h.worst
  refine ⟨?_, ?_, ?_, ?_, ?_⟩
  · rw [List.length_append, UInt32.ofNat_add, ← h.runs]
    rfl
  · simp
  · have hwide : elapsed.toUInt64 = UInt64.ofNat elapsed.toNat := by
      apply UInt64.toNat_inj.mp
      have hlt := elapsed.toNat_lt
      rw [UInt32.toNat_toUInt64, UInt64.toNat_ofNat', Nat.mod_eq_of_lt (by omega)]
    rw [List.map_append, List.sum_append, UInt64.ofNat_add, ← h.total, hwide]
    simp
  · dsimp only
    split
    · exact .inr (List.mem_append_right _ List.mem_cons_self)
    · exact hmem.imp_right fun hold => List.mem_append_left _ hold
  · intro t ht
    have hold : t = elapsed ∨ t ≤ stat.cyclesWorst := by
      rcases ht with rfl | ht
      · exact .inr UInt32.zero_le
      · rcases List.mem_append.mp ht with ht | ht
        · exact .inr (hle (.inr ht))
        · exact .inl (List.mem_singleton.mp ht)
    dsimp only
    split
    · rename_i hlt
      rcases hold with rfl | hold
      · exact UInt32.le_refl t
      · exact UInt32.le_trans hold (UInt32.le_of_lt hlt)
    · rename_i hnot
      rcases hold with rfl | hold
      · exact UInt32.not_lt.mp hnot
      · exact hold

/-- The mean is that of the times, and not above the worst of them. -/
theorem Figures.mean {times : List UInt32} {stat : ExecTaskStat} (h : Figures times stat)
    (hlength : times.length < 2 ^ 32) :
    (stat.cyclesTotal / stat.runs.toUInt64).toUInt32.toNat = (times.map (·.toNat)).sum / times.length ∧
      (times.map (·.toNat)).sum / times.length ≤ stat.cyclesWorst.toNat := by
  have hbound : (times.map (·.toNat)).sum ≤ times.length * stat.cyclesWorst.toNat := by
    have hsum := List.sum_le_card_nsmul (times.map (·.toNat)) stat.cyclesWorst.toNat (by
      intro n hn
      obtain ⟨t, ht, rfl⟩ := List.mem_map.mp hn
      exact UInt32.le_iff_toNat_le.mp (h.worst.2 (.inr ht)))
    rw [List.length_map] at hsum
    exact hsum
  have hmean : (times.map (·.toNat)).sum / times.length ≤ stat.cyclesWorst.toNat :=
    Nat.div_le_of_le_mul hbound
  have hworst := stat.cyclesWorst.toNat_lt
  have htotal : (times.map (·.toNat)).sum < 2 ^ 64 := by
    refine hbound.trans_lt ?_
    calc times.length * stat.cyclesWorst.toNat
        < 2 ^ 32 * 2 ^ 32 := Nat.mul_lt_mul'' hlength hworst
      _ = 2 ^ 64 := rfl
  refine ⟨?_, hmean⟩
  rw [UInt64.toNat_toUInt32, UInt64.toNat_div, h.total, h.runs, UInt32.toNat_toUInt64,
    UInt64.toNat_ofNat_of_lt' htotal, UInt32.toNat_ofNat_of_lt' hlength,
    Nat.mod_eq_of_lt (hmean.trans_lt hworst)]

def Measured (times : List (ℕ × UInt32)) (s : Sched) : Prop :=
  ∀ id (h : id < execTaskCount), Figures (timesOf id times) s.stat[id]

theorem measured_init : Measured [] {} := by
  intro id h
  have hstat : ({} : Sched).stat[id] = {} := Vector.getElem_replicate h
  rw [hstat]
  exact figures_init

theorem timesOf_append (id : ℕ) (xs ys : List (ℕ × UInt32)) :
    timesOf id (xs ++ ys) = timesOf id xs ++ timesOf id ys := List.filterMap_append

theorem runTask_eq (c : TimedCycle) (s : Sched) {id : ℕ} (hid : id < execTaskCount) :
    s.runTask c id =
      { stat := s.stat.set id
          { runs := s.stat[id].runs + 1
            cyclesLast := c.elapsed id
            cyclesTotal := s.stat[id].cyclesTotal + (c.elapsed id).toUInt64
            cyclesWorst :=
              if s.stat[id].cyclesWorst < c.elapsed id then c.elapsed id else s.stat[id].cyclesWorst } hid
        entered := s.entered.set id (c.entered id) hid } := by
  rw [Sched.runTask, Sched.enter, dif_pos hid, Sched.leave, dif_pos hid]
  simp only [Vector.getElem_set_self]
  rfl

theorem measured_runTask {times : List (ℕ × UInt32)} {s : Sched} (h : Measured times s) (c : TimedCycle)
    {id : ℕ} (hid : id < execTaskCount) :
    Measured (times ++ [(id, c.elapsed id)]) (s.runTask c id) := by
  intro j hj
  have hold := h j hj
  rw [timesOf_append]
  by_cases hself : id = j
  · subst hself
    have hnew : timesOf id [(id, c.elapsed id)] = [c.elapsed id] := by simp [timesOf]
    simp only [hnew, runTask_eq c s hid, Vector.getElem_set_self]
    exact hold.concat (c.elapsed id)
  · have hnew : timesOf j [(id, c.elapsed id)] = [] := by simp [timesOf, hself]
    simp only [hnew, runTask_eq c s hid, List.append_nil, Vector.getElem_set_ne hid hj hself]
    exact hold

theorem cycleTasks_sublist (majorDue : Bool) :
    (cycleTasks majorDue).Sublist (List.range execTaskCount) := by
  cases majorDue <;> decide

theorem measured_cycle {times : List (ℕ × UInt32)} {s : Sched} (h : Measured times s)
    (c : TimedCycle) : Measured (times ++ c.times) (s.cycle c) := by
  have htasks : ∀ id ∈ cycleTasks c.majorDue, id < execTaskCount := fun id hid =>
    List.mem_range.mp ((cycleTasks_sublist c.majorDue).subset hid)
  unfold Sched.cycle TimedCycle.times
  generalize cycleTasks c.majorDue = ids at htasks
  induction ids generalizing times s with
  | nil =>
    rw [List.map_nil, List.append_nil]
    exact h
  | cons id ids ih =>
    obtain ⟨hid, hids⟩ := List.forall_mem_cons.mp htasks
    rw [List.map_cons, List.append_cons]
    exact ih (measured_runTask h c hid) hids

theorem measured_run (cycles : List TimedCycle) :
    Measured (cycles.flatMap TimedCycle.times) (run Sched.cycle {} cycles) := by
  induction cycles using List.reverseRecOn with
  | nil => exact measured_init
  | append_singleton cycles c ih =>
    rw [List.flatMap_append, run_append, run_cons, run_nil, List.flatMap_singleton]
    exact measured_cycle ih c

/-- A task of a cycle has one time in it. -/
theorem timesOf_times (id : ℕ) (c : TimedCycle) :
    timesOf id c.times = if id ∈ cycleTasks c.majorDue then [c.elapsed id] else [] := by
  have honce : (cycleTasks c.majorDue).Nodup := (cycleTasks_sublist c.majorDue).nodup List.nodup_range
  unfold timesOf TimedCycle.times
  generalize cycleTasks c.majorDue = ids at honce ⊢
  induction ids with
  | nil => rfl
  | cons i ids ih =>
    obtain ⟨hi, hids⟩ := List.nodup_cons.mp honce
    rw [List.map_cons, List.filterMap_cons, ih hids]
    by_cases hself : i = id
    · subst hself
      simp [hi]
    · simp [hself, Ne.symm hself]

theorem length_timesOf (id : ℕ) (cycles : List TimedCycle) :
    (timesOf id (cycles.flatMap TimedCycle.times)).length =
      cycles.countP fun c => decide (id ∈ cycleTasks c.majorDue) := by
  induction cycles with
  | nil => rfl
  | cons c cycles ih =>
    rw [List.flatMap_cons, timesOf_append, List.length_append, ih, timesOf_times, List.countP_cons]
    split
    · rename_i hmem
      rw [if_pos (decide_eq_true hmem), List.length_singleton, Nat.add_comm]
    · rename_i hmem
      rw [if_neg (by simpa using hmem), List.length_nil, Nat.zero_add, Nat.add_zero]

/-- The load of the slot in which all tasks are due. -/
def fullLoad (s : Sched) : ℕ := slotLoad taskDefs s.stat.toList (UInt32.ofNat execTaskCount) 0

theorem fullLoad_eq (s : Sched) : fullLoad s = (s.stat.toList.map (·.cyclesWorst.toNat)).sum := by
  have hdue : ∀ t ∈ taskDefs, dueAtSlot t 0 = true := by decide
  have hlength : taskDefs.length = s.stat.toList.length := s.stat.length_toList.symm
  have hall : (taskDefs.zip s.stat.toList).take (UInt32.ofNat execTaskCount).toNat =
      taskDefs.zip s.stat.toList := by
    apply List.take_of_length_le
    rw [List.length_zip, hlength, Nat.min_self, Vector.length_toList]
    exact Nat.le_refl _
  have hworst : (taskDefs.zip s.stat.toList).map
      (fun e => if dueAtSlot e.1 0 then e.2.cyclesWorst.toNat else 0) =
        (taskDefs.zip s.stat.toList).map fun e => e.2.cyclesWorst.toNat := by
    refine List.map_congr_left fun e he => ?_
    exact if_pos (hdue e.1 (List.of_mem_zip he).1)
  have hsnd : (taskDefs.zip s.stat.toList).map (fun e => e.2.cyclesWorst.toNat) =
      ((taskDefs.zip s.stat.toList).map Prod.snd).map (·.cyclesWorst.toNat) := by
    rw [List.map_map]
    rfl
  rw [fullLoad, slotLoad, hall, hworst, hsnd, List.map_snd_zip hlength.ge]

/-- No slot has more than that one. -/
theorem slotLoad_le_fullLoad (s : Sched) (slot : UInt32) :
    slotLoad taskDefs s.stat.toList (UInt32.ofNat execTaskCount) slot ≤ fullLoad s := by
  have hdue : ∀ t ∈ taskDefs, dueAtSlot t 0 = true := by decide
  refine List.sum_le_sum fun e he => ?_
  rw [if_pos (hdue e.1 (List.of_mem_zip (List.mem_of_mem_take he)).1)]
  split
  · exact Nat.le_refl _
  · exact Nat.zero_le _

/-- What a cycle has taken is within the worst times of the tasks, in whatever slot it was. -/
theorem total_le_fullLoad {cycles : List TimedCycle} {s : Sched}
    (h : Measured (cycles.flatMap TimedCycle.times) s) {c : TimedCycle} (hc : c ∈ cycles) :
    c.total ≤ fullLoad s := by
  obtain ⟨worst, hworst⟩ : ∃ worst : ℕ → ℕ,
      ∀ id (h : id < execTaskCount), worst id = s.stat[id].cyclesWorst.toNat :=
    ⟨fun id => if h : id < execTaskCount then s.stat[id].cyclesWorst.toNat else 0, fun id h => dif_pos h⟩
  have hfull : fullLoad s = ((List.range execTaskCount).map worst).sum := by
    rw [fullLoad_eq]
    congr 1
    refine List.ext_getElem (by simp) fun id hid _ => ?_
    rw [List.length_map, Vector.length_toList] at hid
    simp [hworst id hid]
  have htotal : c.total = ((cycleTasks c.majorDue).map fun id => (c.elapsed id).toNat).sum := by
    rw [TimedCycle.total, TimedCycle.times, List.map_map]
    rfl
  calc c.total
      = ((cycleTasks c.majorDue).map fun id => (c.elapsed id).toNat).sum := htotal
    _ ≤ ((cycleTasks c.majorDue).map worst).sum := by
      refine List.sum_le_sum fun id hid => ?_
      have hlt : id < execTaskCount := List.mem_range.mp ((cycleTasks_sublist c.majorDue).subset hid)
      have hmem : c.elapsed id ∈ timesOf id (cycles.flatMap TimedCycle.times) := by
        refine List.mem_filterMap.mpr ⟨(id, c.elapsed id), ?_, if_pos rfl⟩
        exact List.mem_flatMap.mpr ⟨c, hc, List.mem_map.mpr ⟨id, hid, rfl⟩⟩
      rw [hworst id hlt]
      exact UInt32.le_iff_toNat_le.mp ((h id hlt).worst.2 (.inr hmem))
    _ ≤ ((List.range execTaskCount).map worst).sum := by
      apply ((cycleTasks_sublist c.majorDue).map worst).sum_le_sum
      intro _ _
      exact Nat.zero_le _
    _ = fullLoad s := hfull.symm

/-- Where 32 bits hold that load, the check is of it. -/
theorem fits_iff {s : Sched} (h : fullLoad s < 2 ^ 32) (cyclesPerUs : UInt32) :
    (s.check cyclesPerUs).worstSlotCycles.toNat = fullLoad s ∧
      ((s.check cyclesPerUs).fits = true ↔ fullLoad s ≤ (budgetCycles cyclesPerUs).toNat) := by
  obtain ⟨⟨⟨slot, -, hslot⟩, hmax⟩, -, -⟩ :=
    worstSlotScan_exact fun slot _ => (slotLoad_le_fullLoad s slot).trans_lt h
  have hworst : (s.check cyclesPerUs).worstSlotCycles.toNat = fullLoad s := by
    apply Nat.le_antisymm
    · show (worstSlotScan taskDefs s.stat.toList (UInt32.ofNat execTaskCount)).1.toNat ≤ fullLoad s
      rw [← hslot]
      exact slotLoad_le_fullLoad s slot
    · exact hmax ⟨0, by decide, rfl⟩
  refine ⟨hworst, ?_⟩
  rw [← hworst, ← UInt32.le_iff_toNat_le]
  exact decide_eq_true_iff

/-- The check is complete when there has been a cycle, if the count of the runs shows it. -/
theorem complete_iff {cycles : List TimedCycle} {s : Sched}
    (h : Measured (cycles.flatMap TimedCycle.times) s) (cyclesPerUs : UInt32) :
    (s.check cyclesPerUs).complete = true ↔ cycles.length % 2 ^ 32 ≠ 0 := by
  have hruns (id : ℕ) (hid : id < execTaskCount) (hminor : ∀ majorDue, id ∈ cycleTasks majorDue) :
      s.stat[id].runs = 0 ↔ cycles.length % 2 ^ 32 = 0 := by
    have hall : cycles.countP (fun c => decide (id ∈ cycleTasks c.majorDue)) = cycles.length := by
      refine List.countP_eq_length.mpr fun c _ => ?_
      exact decide_eq_true (hminor c.majorDue)
    rw [(h id hid).runs, length_timesOf, hall, ← UInt32.toNat_inj, UInt32.toNat_ofNat']
    rfl
  have hminor : ∀ id < execTaskCount, ∀ hid : id < kTask.length, kTask[id].cycle = .minor →
      ∀ majorDue, id ∈ cycleTasks majorDue := by decide
  have hfirst : kTask[0].cycle = .minor := rfl
  rw [Sched.check, List.all_eq_true, List.forall_mem_iff_forall_getElem]
  simp only [List.getElem_zip, Vector.getElem_toList, List.length_zip, Vector.length_toList,
    decide_eq_true_eq]
  constructor
  · intro hall hzero
    have hnot := hall 0 (by decide)
    exact hnot ⟨hfirst, (hruns 0 (by decide) (hminor 0 (by decide) (by decide) hfirst)).mpr hzero⟩
  · intro hsome id hid hnone
    have hboth := Nat.lt_min.mp hid
    exact hsome ((hruns id hboth.2 (hminor id hboth.2 hboth.1 hnone.1)).mp hnone.2)

/-- The mean of a task that has run in less than 2 ^ 32 cycles, or in none. -/
theorem meanCycles_eq {cycles : List TimedCycle} {s : Sched}
    (h : Measured (cycles.flatMap TimedCycle.times) s) (hlength : cycles.length < 2 ^ 32) {id : ℕ}
    (hid : id < execTaskCount) :
    let times := timesOf id (cycles.flatMap TimedCycle.times)
    (s.meanCycles id).toNat = (times.map (·.toNat)).sum / times.length ∧
      s.meanCycles id ≤ s.stat[id].cyclesWorst := by
  intro times
  have hfigures : Figures times s.stat[id] := h id hid
  have hshort : times.length < 2 ^ 32 := by
    rw [length_timesOf]
    exact List.countP_le_length.trans_lt hlength
  have hnone : s.stat[id].runs = 0 ↔ times = [] := by
    rw [hfigures.runs, ← UInt32.toNat_inj, UInt32.toNat_ofNat_of_lt' hshort, UInt32.toNat_zero,
      List.length_eq_zero_iff]
  rw [Sched.meanCycles, dif_pos hid]
  dsimp only
  by_cases hempty : times = []
  · rw [if_pos (hnone.mpr hempty), hempty]
    exact ⟨rfl, UInt32.zero_le⟩
  · rw [if_neg (mt hnone.mp hempty)]
    obtain ⟨hmean, hworst⟩ := hfigures.mean hshort
    refine ⟨hmean, UInt32.le_iff_toNat_le.mpr ?_⟩
    rw [hmean]
    exact hworst

end QiranFirmware.Exec
