import Mathlib.Algebra.BigOperators.Group.List.Basic
import Mathlib.Data.Vector.Basic
import Mathlib.Order.Bounds.Basic
import QiranFirmware.Exec.Core
import QiranFirmware.Machine.Words

/-! # The schedulability figure

`exec_sched.c`: what each task has taken, and the slot of the major cycle whose tasks take longest. The
times of a slot are added up in 32 bits, while the total of one task has 64.
-/
namespace QiranFirmware

structure ExecTaskStat where
  runs : UInt32 := 0
  cyclesLast : UInt32 := 0
  cyclesWorst : UInt32 := 0
  cyclesTotal : UInt64 := 0
  deriving DecidableEq, Repr

structure ExecTask extends ExecTaskDef where
  estimateUs : UInt32 := 0
  deriving DecidableEq, Repr

structure SchedCheck where
  worstSlotCycles : UInt32
  worstSlot : UInt32
  budgetCycles : UInt32
  marginCycles : UInt32
  estimateSumUs : UInt32
  fits : Bool
  complete : Bool
  deriving DecidableEq, Repr

namespace Exec

def execTaskCount : ℕ := 11

/-- The statics of `exec_sched.c`, as `exec_sched_init` leaves them. -/
structure Sched where
  stat : Vector ExecTaskStat execTaskCount := Vector.replicate _ {}
  entered : Vector UInt32 execTaskCount := Vector.replicate _ 0
  deriving DecidableEq, Repr

def everyCycle : ExecTask := { cycle := .minor, periodSlots := 1, phaseSlot := 0 }

def kTask : List ExecTask :=
  List.replicate 9 everyCycle ++ [{ majorTask with estimateUs := 0 }, everyCycle]

def Sched.enter (id : ℕ) (now : UInt32) (s : Sched) : Sched :=
  if h : id < execTaskCount then { s with entered := s.entered.set id now h } else s

def Sched.leave (id : ℕ) (now : UInt32) (s : Sched) : Sched :=
  if h : id < execTaskCount then
    let elapsed := now - s.entered[id]
    let stat := s.stat[id]
    { s with
      stat := s.stat.set id
        { runs := stat.runs + 1
          cyclesLast := elapsed
          cyclesTotal := stat.cyclesTotal + elapsed.toUInt64
          cyclesWorst := if stat.cyclesWorst < elapsed then elapsed else stat.cyclesWorst } h }
  else s

section Scan
variable (tasks : List ExecTaskDef) (stats : List ExecTaskStat) (count : UInt32)

/-- The inner loop of `worst_slot_scan`, over the entries of the two tables below the count. -/
def slotSum (slot : UInt32) : UInt32 :=
  ((tasks.zip stats).take count.toNat).foldl
    (fun sum e => if dueAtSlot e.1 slot then sum + e.2.cyclesWorst else sum) 0

def slots : List UInt32 := (List.range minorPerMajor.toNat).map UInt32.ofNat

def worstSlotScan : UInt32 × UInt32 :=
  slots.foldl (fun worst slot =>
    let sum := slotSum tasks stats count slot
    if worst.1 < sum then (sum, slot) else worst) (0, 0)

def slotLoad (slot : UInt32) : ℕ :=
  (((tasks.zip stats).take count.toNat).map
    fun e => if dueAtSlot e.1 slot then e.2.cyclesWorst.toNat else 0).sum

end Scan

def slotLoads (tasks : List ExecTaskDef) (stats : List ExecTaskStat) (count : UInt32) : Set ℕ :=
  {n | ∃ slot < 25, slotLoad tasks stats count slot = n}

def minorCycleMs : UInt32 := 20

def budgetCycles (cyclesPerUs : UInt32) : UInt32 := cyclesPerUs * 1000 * minorCycleMs

def taskDefs : List ExecTaskDef := kTask.map (·.toExecTaskDef)

def Sched.check (cyclesPerUs : UInt32) (s : Sched) : SchedCheck :=
  let worst := worstSlotScan taskDefs s.stat.toList (UInt32.ofNat execTaskCount)
  let budget := budgetCycles cyclesPerUs
  { worstSlotCycles := worst.1
    worstSlot := worst.2
    budgetCycles := budget
    estimateSumUs := kTask.foldl (fun sum t => sum + t.estimateUs) 0
    fits := worst.1 ≤ budget
    marginCycles := if worst.1 ≤ budget then budget - worst.1 else 0
    complete := (kTask.zip s.stat.toList).all fun e => ¬ (e.1.cycle = .minor ∧ e.2.runs = 0) }

theorem mem_slots {slot : UInt32} : slot ∈ slots ↔ slot < 25 := Machine.mem_map_ofNat_range

section Keep
variable {ι : Type*} (g : ι → UInt32)

def keep (best : UInt32 × ι) (i : ι) : UInt32 × ι := if best.1 < g i then (g i, i) else best

theorem keep_cases (best : UInt32 × ι) (i : ι) :
    (keep g best i = best ∨ keep g best i = (g i, i)) ∧ best.1 ≤ (keep g best i).1 ∧
      g i ≤ (keep g best i).1 := by
  unfold keep
  split
  · rename_i h
    exact ⟨.inr rfl, UInt32.le_of_lt h, UInt32.le_refl _⟩
  · rename_i h
    exact ⟨.inl rfl, UInt32.le_refl _, UInt32.not_lt.mp h⟩

theorem foldl_keep (is : List ι) (best : UInt32 × ι) :
    (is.foldl (keep g) best = best ∨ ∃ i ∈ is, is.foldl (keep g) best = (g i, i)) ∧
      best.1 ≤ (is.foldl (keep g) best).1 ∧ ∀ i ∈ is, g i ≤ (is.foldl (keep g) best).1 := by
  induction is generalizing best with
  | nil => exact ⟨.inl rfl, UInt32.le_refl _, fun i hi => by cases hi⟩
  | cons i is ih =>
    obtain ⟨hstep, hbest, hi⟩ := keep_cases g best i
    obtain ⟨hrest, hle, hall⟩ := ih (keep g best i)
    rw [List.foldl_cons, List.forall_mem_cons]
    refine ⟨?_, UInt32.le_trans hbest hle, UInt32.le_trans hi hle, hall⟩
    rcases hrest with hrest | ⟨j, hj, hrest⟩
    · rw [hrest]
      exact hstep.imp id fun hnew => ⟨i, List.mem_cons_self, hnew⟩
    · exact .inr ⟨j, List.mem_cons_of_mem _ hj, hrest⟩

end Keep

variable {tasks : List ExecTaskDef} {stats : List ExecTaskStat} {count : UInt32}

/-- The sum of a slot is what its tasks take, less what does not fit into 32 bits. -/
theorem toNat_slotSum (slot : UInt32) :
    (slotSum tasks stats count slot).toNat = slotLoad tasks stats count slot % 2 ^ 32 := by
  have hfold (entries : List (ExecTaskDef × ExecTaskStat)) (sum : UInt32) :
      (entries.foldl (fun sum e => if dueAtSlot e.1 slot then sum + e.2.cyclesWorst else sum) sum).toNat =
        (sum.toNat + (entries.map
          fun e => if dueAtSlot e.1 slot then e.2.cyclesWorst.toNat else 0).sum) % 2 ^ 32 := by
    induction entries generalizing sum with
    | nil => exact (Nat.mod_eq_of_lt sum.toNat_lt).symm
    | cons e entries ih =>
      rw [List.foldl_cons, ih, List.map_cons, List.sum_cons]
      split
      · rw [UInt32.toNat_add, Nat.mod_add_mod, Nat.add_assoc]
      · rw [Nat.zero_add]
  rw [slotSum, hfold, slotLoad]
  simp

theorem worstSlotScan_spec (tasks : List ExecTaskDef) (stats : List ExecTaskStat) (count : UInt32) :
    (worstSlotScan tasks stats count).2 < 25 ∧
      (worstSlotScan tasks stats count).1 = slotSum tasks stats count (worstSlotScan tasks stats count).2 ∧
      ∀ slot < 25, slotSum tasks stats count slot ≤ (worstSlotScan tasks stats count).1 := by
  have hscan : worstSlotScan tasks stats count = slots.foldl (keep (slotSum tasks stats count)) (0, 0) := rfl
  obtain ⟨hfrom, -, hall⟩ := foldl_keep (slotSum tasks stats count) slots (0, 0)
  rw [← hscan] at hfrom hall
  have hmax : ∀ slot < 25, slotSum tasks stats count slot ≤ (worstSlotScan tasks stats count).1 :=
    fun slot hslot => hall slot (mem_slots.mpr hslot)
  rcases hfrom with hnone | ⟨slot, hslot, hfrom⟩
  · rw [hnone] at hmax ⊢
    exact ⟨by decide, (UInt32.le_antisymm (hmax 0 (by decide)) UInt32.zero_le).symm, hmax⟩
  · rw [hfrom] at hmax ⊢
    exact ⟨mem_slots.mp hslot, rfl, hmax⟩

/-- The worst slot is found where no slot takes more than 32 bits can count. -/
theorem worstSlotScan_exact (h : ∀ slot < 25, slotLoad tasks stats count slot < 2 ^ 32) :
    IsGreatest (slotLoads tasks stats count) (worstSlotScan tasks stats count).1.toNat ∧
      (worstSlotScan tasks stats count).2 < 25 ∧
      slotLoad tasks stats count (worstSlotScan tasks stats count).2 =
        (worstSlotScan tasks stats count).1.toNat := by
  obtain ⟨hslot, hat, hmax⟩ := worstSlotScan_spec tasks stats count
  have hsum (slot : UInt32) (hslot : slot < 25) :
      (slotSum tasks stats count slot).toNat = slotLoad tasks stats count slot := by
    rw [toNat_slotSum, Nat.mod_eq_of_lt (h slot hslot)]
  have hattained : slotLoad tasks stats count (worstSlotScan tasks stats count).2 =
      (worstSlotScan tasks stats count).1.toNat := by
    rw [hat, hsum _ hslot]
  refine ⟨⟨⟨_, hslot, hattained⟩, ?_⟩, hslot, hattained⟩
  rintro n ⟨slot, hslot, rfl⟩
  rw [← hsum slot hslot]
  exact UInt32.le_iff_toNat_le.mp (hmax slot hslot)

theorem lt_of_isGreatest {w : ℕ} (h : IsGreatest (slotLoads tasks stats count) w) (hw : w < 2 ^ 32)
    (slot : UInt32) (hslot : slot < 25) : slotLoad tasks stats count slot < 2 ^ 32 :=
  (h.2 ⟨slot, hslot, rfl⟩).trans_lt hw

theorem Sched.budget_eq_add_margin (s : Sched) (cyclesPerUs : UInt32)
    (h : (s.check cyclesPerUs).fits = true) :
    (s.check cyclesPerUs).budgetCycles.toNat =
      (s.check cyclesPerUs).worstSlotCycles.toNat + (s.check cyclesPerUs).marginCycles.toNat := by
  have hle : (s.check cyclesPerUs).worstSlotCycles ≤ (s.check cyclesPerUs).budgetCycles :=
    of_decide_eq_true h
  have hmargin : (s.check cyclesPerUs).marginCycles =
      (s.check cyclesPerUs).budgetCycles - (s.check cyclesPerUs).worstSlotCycles := if_pos hle
  rw [hmargin, UInt32.toNat_sub_of_le _ _ hle]
  exact (Nat.add_sub_cancel' (UInt32.le_iff_toNat_le.mp hle)).symm

/-- The scan gives the greatest sum over the slots, and a slot that has it, exactly where every sum fits
into 32 bits. What the check then says of the budget is right exactly there, and where the 32 bits that
are left of some sum exceed the budget all the same. -/
theorem schedulability_iff (tasks : List ExecTaskDef) (stats : List ExecTaskStat) (count : UInt32)
    (s : Sched) (cyclesPerUs : UInt32) :
    (IsGreatest (slotLoads tasks stats count) (worstSlotScan tasks stats count).1.toNat ∧
          (worstSlotScan tasks stats count).2 < 25 ∧
          slotLoad tasks stats count (worstSlotScan tasks stats count).2 =
            (worstSlotScan tasks stats count).1.toNat ↔
        ∀ slot < 25, slotLoad tasks stats count slot < 2 ^ 32) ∧
      (((s.check cyclesPerUs).fits = true →
          ∃ w, IsGreatest (slotLoads taskDefs s.stat.toList (UInt32.ofNat execTaskCount)) w ∧
            w ≤ (budgetCycles cyclesPerUs).toNat ∧
            (s.check cyclesPerUs).budgetCycles.toNat =
              (s.check cyclesPerUs).worstSlotCycles.toNat + (s.check cyclesPerUs).marginCycles.toNat) ↔
        (∀ slot < 25, slotLoad taskDefs s.stat.toList (UInt32.ofNat execTaskCount) slot < 2 ^ 32) ∨
          ∃ slot < 25, (budgetCycles cyclesPerUs).toNat <
            slotLoad taskDefs s.stat.toList (UInt32.ofNat execTaskCount) slot % 2 ^ 32) := by
  refine ⟨⟨fun h => ?_, worstSlotScan_exact⟩, ?_⟩
  · exact lt_of_isGreatest h.1 (UInt32.toNat_lt _)
  · have hfits : (s.check cyclesPerUs).fits = true ↔
        (worstSlotScan taskDefs s.stat.toList (UInt32.ofNat execTaskCount)).1 ≤ budgetCycles cyclesPerUs :=
      decide_eq_true_iff
    obtain ⟨hslot, hat, hmax⟩ := worstSlotScan_spec taskDefs s.stat.toList (UInt32.ofNat execTaskCount)
    rw [hfits]
    constructor
    · intro hcheck
      by_cases hle : (worstSlotScan taskDefs s.stat.toList (UInt32.ofNat execTaskCount)).1 ≤
          budgetCycles cyclesPerUs
      · obtain ⟨w, hw, hbudget, -⟩ := hcheck hle
        exact .inl (lt_of_isGreatest hw (hbudget.trans_lt (UInt32.toNat_lt _)))
      · refine .inr ⟨_, hslot, ?_⟩
        rw [← toNat_slotSum, ← hat]
        exact UInt32.lt_iff_toNat_lt.mp (UInt32.not_le.mp hle)
    · rintro (hsmall | ⟨slot, hslot, hover⟩) hle
      · exact ⟨_, (worstSlotScan_exact hsmall).1, UInt32.le_iff_toNat_le.mp hle,
          s.budget_eq_add_margin cyclesPerUs (hfits.mpr hle)⟩
      · rw [← toNat_slotSum] at hover
        have hsum := UInt32.le_iff_toNat_le.mp (hmax slot hslot)
        exact absurd (hsum.trans (UInt32.le_iff_toNat_le.mp hle)) (Nat.not_le.mpr hover)

def twoLongTasks : Sched :=
  (((({} : Sched).enter 0 0).leave 0 0x80000000).enter 1 0x80000000).leave 1 0

/-- Every slot takes `2 ^ 32` cycles, which the scan gives as none, and which the check says to fit. -/
theorem twoLongTasks_fits :
    (worstSlotScan taskDefs twoLongTasks.stat.toList (UInt32.ofNat execTaskCount)).1 = 0 ∧
      slotLoad taskDefs twoLongTasks.stat.toList (UInt32.ofNat execTaskCount) 1 = 2 ^ 32 ∧
      (twoLongTasks.check 667).fits = true ∧
      ¬ ∃ w, IsGreatest (slotLoads taskDefs twoLongTasks.stat.toList (UInt32.ofNat execTaskCount)) w ∧
        w ≤ (budgetCycles 667).toNat := by
  have hload : slotLoad taskDefs twoLongTasks.stat.toList (UInt32.ofNat execTaskCount) 1 = 2 ^ 32 := by
    decide +kernel
  refine ⟨by decide +kernel, hload, by decide +kernel, ?_⟩
  rintro ⟨w, hw, hle⟩
  have hone := hw.2 ⟨1, by decide, rfl⟩
  have hbudget : (budgetCycles 667).toNat < 2 ^ 32 := UInt32.toNat_lt _
  rw [hload] at hone
  omega

end Exec

end QiranFirmware
