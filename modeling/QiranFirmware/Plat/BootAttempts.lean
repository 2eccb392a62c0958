import QiranFirmware.Plat.BootPower

/-! # The attempts of the boot steps

The boot sequence again, with steps that may do anything to the services while they run, and with the
steps that have been run in their order. The occurrences of a step's class are its failed attempts as long
as nothing else reports the class: a pass over what is new leaves them as they are.
-/
namespace QiranFirmware

/-- One run of a step: how it ends, what it does to the services, the platform counters that a pass after
it reads, and what goes on until the next attempt or step begins. -/
structure BootRun where
  status : Status := .ok
  effect : Svc → Svc := id
  counters : PlatformCounters := {}
  pause : Svc → Svc := id

/-- The report, the services, and the steps run so far, each as often as it has been. -/
structure BootCourse where
  report : BootReport := {}
  svc : Svc
  ran : List BootStep := []

def Attempt.toBootRun (a : Attempt) : BootRun where
  status := a.status
  effect := Boot.elapse a.ticks
  counters := a.counters
  pause := Boot.elapse a.pause

namespace Boot

section Course
variable (env : BootStep → ℕ → BootRun) (up : Option Uplink)

def retryCourse (s : BootStep) (stepStarted : UInt64) : ℕ → ℕ → BootCourse → Option (Bool × BootCourse)
  | 0, _, _ => none
  | fuel + 1, k, c =>
    let started := c.svc.nowMs
    let v := (env s k).effect c.svc.collectTime
    let elapsed := (v.nowMs - started).toUInt32
    let v := v.collectTime
    let r := { c.report with
      attempts := Function.update c.report.attempts s (c.report.attempts s + 1) }
    let ran := c.ran ++ [s]
    if (env s k).status = .ok then
      let late := decide (s.budgetMs < elapsed)
      let r := { r with
        durationMs := Function.update r.durationMs s (v.nowMs - stepStarted).toUInt32
        overBudget := Function.update r.overBudget s late }
      let v := v.collectTime
      let v := if late then v.report s.fault elapsed |>.errorHandlingService up (env s k).counters else v
      some (true, ⟨r, (env s k).pause v, ran⟩)
    else
      let v := v.report s.fault (env s k).status.code |>.errorHandlingService up (env s k).counters
      if s.retryable = false ∨ v.retriesExhausted s.fault = true then
        let r := { r with
          durationMs := Function.update r.durationMs s (v.nowMs - stepStarted).toUInt32
          failedStep := some s }
        some (false, ⟨r, (env s k).pause v.collectTime, ran⟩)
      else retryCourse s stepStarted fuel (k + 1) ⟨r, (env s k).pause v, ran⟩

def stepCourse (fuel : ℕ) (s : BootStep) (c : BootCourse) : Option (Bool × BootCourse) :=
  retryCourse env up s c.svc.nowMs fuel 0 { c with svc := c.svc.collectTime }

def stepsCourse (fuel : ℕ) (started : UInt64) : List BootStep → BootCourse → Option (Status × BootCourse)
  | [], c =>
    let r := { c.report with outcome := .success, totalMs := (c.svc.nowMs - started).toUInt32 }
    some (.ok, ⟨r, BootStep.all.foldl (fun v s => v.clear s.fault) c.svc.collectTime, c.ran⟩)
  | s :: steps, c =>
    match stepCourse env up fuel s c with
    | none => none
    | some (true, c) => stepsCourse fuel started steps c
    | some (false, c) =>
      let r := { c.report with outcome := .terminal, totalMs := (c.svc.nowMs - started).toUInt32 }
      some (.errHardware,
        ⟨r, c.svc.collectTime.logEvent FaultId.devinit.code r.totalMs, c.ran⟩)

def bootCourse (fuel : ℕ) (v : Svc) : Option (Status × BootCourse) :=
  stepsCourse env up fuel v.nowMs BootStep.all { svc := v.collectTime }

end Course

section Plain
variable (env : BootStep → ℕ → Attempt) (up : Option Uplink)

def runs : BootStep → ℕ → BootRun := fun s k => (env s k).toBootRun

theorem retryCourse_runs (s : BootStep) (t : UInt64) (fuel k : ℕ) (c : BootCourse) :
    (retryCourse (runs env) up s t fuel k c).map (fun e => (e.1, e.2.report, e.2.svc)) =
      retry env up s t fuel k c.report c.svc := by
  induction fuel generalizing k c with
  | zero => rfl
  | succ fuel ih =>
    have hstatus : (runs env s k).status = (env s k).status := rfl
    have heffect : (runs env s k).effect = elapse (env s k).ticks := rfl
    have hcounters : (runs env s k).counters = (env s k).counters := rfl
    rw [retryCourse, retry]
    by_cases hok : (env s k).status = .ok
    · simp only [hstatus, if_pos hok]
      rfl
    · simp only [hstatus, heffect, hcounters, if_neg hok]
      split
      · rfl
      · exact ih (k + 1) _

theorem stepsCourse_runs (fuel : ℕ) (started : UInt64) (steps : List BootStep) (c : BootCourse) :
    (stepsCourse (runs env) up fuel started steps c).map (fun e => (e.1, e.2.report, e.2.svc)) =
      bootSteps env up fuel started steps c.report c.svc := by
  induction steps generalizing c with
  | nil => rfl
  | cons s steps ih =>
    have hstep := retryCourse_runs env up s c.svc.nowMs fuel 0 { c with svc := c.svc.collectTime }
    rw [stepsCourse, stepCourse, bootSteps, runStep, ← hstep]
    cases retryCourse (runs env) up s c.svc.nowMs fuel 0 { c with svc := c.svc.collectTime } with
    | none => rfl
    | some e =>
      obtain ⟨passed, c'⟩ := e
      cases passed with
      | true => exact ih c'
      | false => rfl

/-- Where the steps only take time, this is the boot sequence of `Plat.Boot`. -/
theorem bootCourse_runs (fuel : ℕ) (v : Svc) :
    (bootCourse (runs env) up fuel v).map (fun e => (e.1, e.2.report, e.2.svc)) =
      bootAndInit env up fuel v := stepsCourse_runs ..

end Plain

/-- The attempts that a step has: its class's limit, or one where the class has none. -/
def allowance (s : BootStep) : ℕ :=
  if (policy s.fault).limit = 0 then 1 else (policy s.fault).limit.toNat

section Attempts
variable (env : BootStep → ℕ → BootRun)

def Succeeds (s : BootStep) : Prop := ∃ k < allowance s, (env s k).status = .ok

instance (s : BootStep) : Decidable (Succeeds env s) := inferInstanceAs (Decidable (∃ k < _, _))

def tries (s : BootStep) : ℕ :=
  min ((List.range (allowance s)).findIdx (fun k => (env s k).status = .ok) + 1) (allowance s)

def begun : List BootStep → List BootStep
  | [] => []
  | s :: steps => if Succeeds env s then s :: begun steps else [s]

variable {env} {s : BootStep} {k : ℕ}

theorem begun_subset (steps : List BootStep) : begun env steps ⊆ steps := by
  induction steps with
  | nil => exact List.Subset.refl _
  | cons s steps ih =>
    rw [begun]
    split
    · exact List.cons_subset_cons s ih
    · exact List.cons_subset_cons s (List.nil_subset _)

theorem allowance_pos (s : BootStep) : 0 < allowance s := by
  cases s <;> decide

theorem tries_of_ok (hk : k < allowance s) (hbefore : ∀ j < k, (env s j).status ≠ .ok)
    (hok : (env s k).status = .ok) : tries env s = k + 1 := by
  have hfirst : (List.range (allowance s)).findIdx (fun k => (env s k).status = .ok) = k := by
    rw [List.findIdx_eq (by simpa using hk)]
    refine ⟨by simpa using hok, fun j hj => ?_⟩
    simpa using hbefore j hj
  rw [tries, hfirst]
  omega

theorem tries_of_forall (h : ∀ j < allowance s, (env s j).status ≠ .ok) : tries env s = allowance s := by
  have hnone : (List.range (allowance s)).findIdx (fun k => (env s k).status = .ok) = allowance s := by
    rw [List.findIdx_eq_length_of_false (by simpa using h), List.length_range]
  rw [tries, hnone]
  omega

end Attempts

open Svc SvcCall

/-- Nothing but `run_step` reports or clears the class of a step before the step has ended: a run of a
step and what goes on after it leave the occurrences of its class and of those of later steps as they are,
and no delivery over the uplink reports a class of a step. -/
structure Undisturbed (env : BootStep → ℕ → BootRun) (up : Option Uplink) : Prop where
  effect : ∀ s k (t : BootStep), s.ctorIdx ≤ t.ctorIdx →
    ∀ v, ((env s k).effect v).occurrences t.fault = v.occurrences t.fault
  pause : ∀ s k (t : BootStep), s.ctorIdx ≤ t.ctorIdx →
    ∀ v, ((env s k).pause v).occurrences t.fault = v.occurrences t.fault
  uplink : ∀ u ∈ up, ∀ call, ∀ f ∈ (u call).2, ∀ t : BootStep, f.1 ≠ t.fault

variable {env : BootStep → ℕ → BootRun} {up : Option Uplink}

/-- A pass neither adds to the occurrences of a class that nothing reports meanwhile, nor takes any. -/
theorem occurrences_pass (hup : ∀ u ∈ up, ∀ call, ∀ f ∈ (u call).2, ∀ t : BootStep, f.1 ≠ t.fault)
    (pc : PlatformCounters) (v : Svc) (t : BootStep) :
    (errorHandlingService up pc v).occurrences t.fault = v.occurrences t.fault := by
  have hclass (w : Svc) (id : FaultId) :
      (serviceClass up w id).occurrences t.fault = w.occurrences t.fault := by
    by_cases hnew : w.unserviced id = 0
    · rw [serviceClass_of_eq hnew]
    · refine (serviceClass_of_ne up hnew).counted.eq_of_quiet fun d hd => ?_
      rcases List.mem_cons.mp hd with hd | hd
      · cases hd
      · obtain ⟨u, hu, call, hcall⟩ := report_mem_dueCalls hd
        exact hup u hu call _ hcall t rfl
  have hloop (ids : List FaultId) (w : Svc) :
      (ids.foldl (serviceClass up) w).occurrences t.fault = w.occurrences t.fault := by
    induction ids generalizing w with
    | nil => rfl
    | cons id ids ih => exact (ih _).trans (hclass w id)
  obtain ⟨calls, hcollect, hplatform⟩ := platformReporting_collect pc v
  refine (hloop _ _).trans (hcollect.counted.eq_of_quiet fun d hd => ?_)
  obtain ⟨id, e, heq, hid⟩ := hplatform _ hd
  cases heq
  revert hid
  cases t <;> decide

theorem occurrences_collectTime (v : Svc) (c : FaultId) : v.collectTime.occurrences c = v.occurrences c := rfl

theorem occurrences_report (v : Svc) (s t : BootStep) (d : UInt32) :
    (v.report s.fault d).occurrences t.fault = v.occurrences t.fault + if t = s then 1 else 0 := by
  rw [(reporting_report s.fault d v).count]
  by_cases hts : t = s
  · subst hts
    simp [isReport]
  · have hne : s.fault ≠ t.fault := fun he => hts (fault_inj he).symm
    simp [isReport, hne, hts]

/-- With so many occurrences of its class, the step is given up after its last attempt. -/
theorem givesUp_iff {p : Svc} (hk : k < allowance s) (hcount : p.occurrences s.fault = UInt32.ofNat (k + 1)) :
    s.retryable = false ∨ p.retriesExhausted s.fault = true ↔ k + 1 = allowance s := by
  have hlimit : (policy s.fault).limit.toNat < 65536 := (policy s.fault).limit.toNat_lt
  rw [retriesExhausted_iff, hcount, BootStep.retryable, decide_eq_false_iff_not]
  unfold allowance at hk ⊢
  by_cases hzero : (policy s.fault).limit = 0
  · rw [if_pos hzero] at hk ⊢
    refine iff_of_true (.inl ?_) (by omega)
    rw [hzero]
    decide
  · rw [if_neg hzero] at hk ⊢
    have hpos : 0 < (policy s.fault).limit := by
      rw [UInt16.lt_iff_toNat_lt]
      exact Nat.pos_of_ne_zero fun h => hzero (UInt16.toNat_inj.mp h)
    rw [or_iff_right (not_not.mpr hpos), and_iff_right hzero, UInt32.le_iff_toNat_le,
      UInt16.toNat_toUInt32, UInt32.toNat_ofNat_of_lt' (by simp only [UInt32.size]; omega)]
    omega

structure Turned (s : BootStep) (c c' : BootCourse) : Prop where
  ran : c'.ran = c.ran ++ [s]
  attempts : c'.report.attempts = Function.update c.report.attempts s (c.report.attempts s + 1)
  later : ∀ t : BootStep, s.ctorIdx < t.ctorIdx →
    c'.svc.occurrences t.fault = c.svc.occurrences t.fault

variable {c : BootCourse} {fuel : ℕ} {t : UInt64}

theorem retryCourse_ok (fuel : ℕ) (h : Undisturbed env up) (hok : (env s k).status = .ok) :
    ∃ c', retryCourse env up s t (fuel + 1) k c = some (true, c') ∧ Turned s c c' := by
  rw [retryCourse]
  simp only [if_pos hok]
  refine ⟨_, rfl, rfl, rfl, fun u hu => ?_⟩
  have hne : u ≠ s := fun he => absurd (he ▸ hu) (lt_irrefl _)
  refine (h.pause s k u hu.le _).trans ?_
  split
  · rw [occurrences_pass h.uplink, occurrences_report, if_neg hne]
    exact (UInt32.add_zero _).trans (h.effect s k u hu.le _)
  · exact h.effect s k u hu.le _

theorem retryCourse_failed (fuel : ℕ) (h : Undisturbed env up) (hfail : (env s k).status ≠ .ok)
    (hk : k < allowance s) (hcount : c.svc.occurrences s.fault = UInt32.ofNat k) :
    (k + 1 = allowance s ∧
        ∃ c', retryCourse env up s t (fuel + 1) k c = some (false, c') ∧ Turned s c c') ∨
      k + 1 < allowance s ∧
        ∃ c', retryCourse env up s t (fuel + 1) k c = retryCourse env up s t fuel (k + 1) c' ∧
          Turned s c c' ∧ c'.svc.occurrences s.fault = UInt32.ofNat (k + 1) := by
  have hpass (u : BootStep) (hu : s.ctorIdx ≤ u.ctorIdx) :
      (errorHandlingService up (env s k).counters (report s.fault (env s k).status.code
        ((env s k).effect c.svc.collectTime).collectTime)).occurrences u.fault =
      c.svc.occurrences u.fault + if u = s then 1 else 0 := by
    rw [occurrences_pass h.uplink, occurrences_report, occurrences_collectTime, h.effect s k u hu]
    rfl
  have hlater (u : BootStep) (hu : s.ctorIdx < u.ctorIdx) :
      c.svc.occurrences u.fault + (if u = s then 1 else 0) = c.svc.occurrences u.fault := by
    rw [if_neg fun he => absurd (he ▸ hu) (lt_irrefl _)]
    exact UInt32.add_zero _
  have hown := hpass s le_rfl
  rw [if_pos rfl, hcount] at hown
  have hnext : UInt32.ofNat k + 1 = UInt32.ofNat (k + 1) := (UInt32.ofNat_add k 1).symm
  have hgives := givesUp_iff hk (hown.trans hnext)
  rw [retryCourse]
  simp only [if_neg hfail]
  by_cases hend : k + 1 = allowance s
  · rw [if_pos (hgives.mpr hend)]
    refine .inl ⟨hend, _, rfl, rfl, rfl, fun u hu => ?_⟩
    rw [h.pause s k u hu.le, occurrences_collectTime, hpass u hu.le, hlater u hu]
  · rw [if_neg fun he => hend (hgives.mp he)]
    refine .inr ⟨by omega, _, rfl, ⟨rfl, rfl, fun u hu => ?_⟩, ?_⟩
    · rw [h.pause s k u hu.le, hpass u hu.le, hlater u hu]
    · rw [h.pause s k s le_rfl, hown, hnext]

structure StepEnds (env : BootStep → ℕ → BootRun) (s : BootStep) (k : ℕ) (c : BootCourse) (passed : Bool)
    (c' : BootCourse) : Prop where
  passed : passed = true ↔ Succeeds env s
  ran : c'.ran = c.ran ++ List.replicate (tries env s - k) s
  attempts : c'.report.attempts =
    Function.update c.report.attempts s (c.report.attempts s + UInt32.ofNat (tries env s - k))
  later : ∀ t : BootStep, s.ctorIdx < t.ctorIdx →
    c'.svc.occurrences t.fault = c.svc.occurrences t.fault

theorem Turned.ends {c' : BootCourse} (h : Turned s c c') (htries : tries env s = k + 1) {passed : Bool}
    (hpassed : passed = true ↔ Succeeds env s) : StepEnds env s k c passed c' := by
  have hone : tries env s - k = 1 := by omega
  refine ⟨hpassed, ?_, ?_, h.later⟩
  · rw [hone]
    exact h.ran
  · rw [hone]
    exact h.attempts

theorem Turned.trans_ends {c' c'' : BootCourse} {passed : Bool} (h : Turned s c c')
    (hrest : StepEnds env s (k + 1) c' passed c'') (htries : k + 1 < tries env s) :
    StepEnds env s k c passed c'' := by
  have hsucc : tries env s - k = tries env s - (k + 1) + 1 := by omega
  refine ⟨hrest.passed, ?_, ?_, fun t ht => (hrest.later t ht).trans (h.later t ht)⟩
  · rw [hrest.ran, h.ran, hsucc, List.replicate_succ, List.append_assoc]
    rfl
  · rw [hrest.attempts, h.attempts, hsucc, Function.update_idem, Function.update_self, UInt32.ofNat_add]
    congr 1
    rw [UInt32.add_assoc, UInt32.add_comm 1]
    rfl

theorem lt_tries (hk : k < allowance s) (hbefore : ∀ j < k, (env s j).status ≠ .ok) : k < tries env s := by
  have hlength : k < (List.range (allowance s)).length := by simpa using hk
  have hle : k ≤ (List.range (allowance s)).findIdx (fun k => (env s k).status = .ok) := by
    refine List.le_findIdx_of_not hlength fun j hj => ?_
    simpa using hbefore j hj
  exact lt_min (Nat.lt_succ_of_le hle) hk

theorem retryCourse_ends (h : Undisturbed env up) (hk : k < allowance s)
    (hfuel : allowance s ≤ k + fuel) (hbefore : ∀ j < k, (env s j).status ≠ .ok)
    (hcount : c.svc.occurrences s.fault = UInt32.ofNat k) :
    ∃ passed c', retryCourse env up s t fuel k c = some (passed, c') ∧ StepEnds env s k c passed c' := by
  induction fuel generalizing k c with
  | zero => omega
  | succ fuel ih =>
    by_cases hok : (env s k).status = .ok
    · obtain ⟨c', hrun, hturn⟩ := retryCourse_ok (c := c) (t := t) fuel h hok
      exact ⟨true, c', hrun, hturn.ends (tries_of_ok hk hbefore hok) (iff_of_true rfl ⟨k, hk, hok⟩)⟩
    · have hbefore' : ∀ j < k + 1, (env s j).status ≠ .ok := by
        intro j hj
        rcases Nat.lt_succ_iff_lt_or_eq.mp hj with hj | rfl
        · exact hbefore j hj
        · exact hok
      rcases retryCourse_failed (t := t) fuel h hok hk hcount with
        ⟨hlast, c', hrun, hturn⟩ | ⟨hmore, c', hrun, hturn, hcount'⟩
      · rw [hlast] at hbefore'
        refine ⟨false, c', hrun, hturn.ends (by rw [tries_of_forall hbefore', hlast]) ?_⟩
        refine iff_of_false Bool.false_ne_true ?_
        rintro ⟨j, hj, hsuccess⟩
        exact hbefore' j hj hsuccess
      · obtain ⟨passed, c'', hrest, hends⟩ := ih hmore (by omega) hbefore' hcount'
        exact ⟨passed, c'', hrun.trans hrest, hturn.trans_ends hends (lt_tries hmore hbefore')⟩

theorem allowance_le (s : BootStep) : allowance s ≤ 3 := by
  cases s <;> decide

theorem occurrences_clears (steps : List BootStep) (v : Svc) (t : BootStep) :
    (steps.foldl (fun v s => v.clear s.fault) v).occurrences t.fault =
      if t ∈ steps then 0 else v.occurrences t.fault := by
  induction steps generalizing v with
  | nil => rfl
  | cons s steps ih =>
    rw [List.foldl_cons, ih, occurrences_clear]
    by_cases ht : t = s
    · simp [ht]
    · have hne : t.fault ≠ s.fault := fun he => ht (fault_inj he)
      simp [ht, hne]

/-- What is counted of a first step and of the rest, each step having a count of its own. -/
theorem counts_cons (n : BootStep → UInt32) {s : BootStep} {rest : List BootStep} (hs : s ∉ rest)
    (r : BootStep) :
    (if r = s then n s else 0) + (if r ∈ rest then n r else 0) = if r ∈ s :: rest then n r else 0 := by
  by_cases hr : r = s
  · subst hr
    simp [hs]
  · simp [hr]

/-- The steps run as often as they have to, in their order, up to the one that does not succeed. -/
theorem stepsCourse_spec (h : Undisturbed env up) (hfuel : 3 ≤ fuel) (started : UInt64)
    {steps : List BootStep} (horder : steps.Pairwise fun a b => a.ctorIdx < b.ctorIdx)
    (hcount : ∀ s ∈ steps, c.svc.occurrences s.fault = 0) :
    ∃ st c', stepsCourse env up fuel started steps c = some (st, c') ∧
      c'.ran = c.ran ++ (begun env steps).flatMap (fun s => List.replicate (tries env s) s) ∧
      (∀ s, c'.report.attempts s =
        c.report.attempts s + if s ∈ begun env steps then UInt32.ofNat (tries env s) else 0) ∧
      (st = .ok ↔ ∀ s ∈ steps, Succeeds env s) ∧
      (st = .ok → ∀ s : BootStep, c'.svc.occurrences s.fault = 0) := by
  induction steps generalizing c with
  | nil =>
    refine ⟨_, _, rfl, (List.append_nil _).symm, fun s => (UInt32.add_zero _).symm, by simp, ?_⟩
    intro _ s
    rw [occurrences_clears, if_pos (by cases s <;> decide)]
  | cons s steps ih =>
    obtain ⟨hlater, horder⟩ := List.pairwise_cons.mp horder
    have hown : ({ c with svc := c.svc.collectTime } : BootCourse).svc.occurrences s.fault =
        UInt32.ofNat 0 := hcount s List.mem_cons_self
    have henough : allowance s ≤ 0 + fuel := by
      have hle := allowance_le s
      omega
    obtain ⟨passed, c', hrun, hends⟩ :=
      retryCourse_ends (t := c.svc.nowMs) h (allowance_pos s) henough (by simp) hown
    have hattempts (r : BootStep) : c'.report.attempts r =
        c.report.attempts r + if r = s then UInt32.ofNat (tries env s) else 0 := by
      rw [hends.attempts]
      by_cases hr : r = s
      · subst hr
        simp
      · simp [hr]
    rw [stepsCourse, stepCourse, hrun, begun]
    cases passed with
    | true =>
      have hsucceeds := hends.passed.mp rfl
      have hfresh : ∀ t ∈ steps, c'.svc.occurrences t.fault = 0 := by
        intro t ht
        exact (hends.later t (hlater t ht)).trans (hcount t (List.mem_cons_of_mem _ ht))
      obtain ⟨st, c'', hrest, hran, hcounts, hok, hclear⟩ := ih horder hfresh
      refine ⟨st, c'', hrest, ?_, fun r => ?_, ?_, hclear⟩
      · rw [hran, hends.ran, if_pos hsucceeds, List.flatMap_cons, List.append_assoc]
        rfl
      · have hnot : s ∉ begun env steps := fun hmem =>
          absurd (hlater s (begun_subset steps hmem)) (lt_irrefl _)
        have hcons := counts_cons (fun s => UInt32.ofNat (tries env s)) hnot r
        rw [hcounts, hattempts, if_pos hsucceeds, UInt32.add_assoc, hcons]
      · rw [hok, List.forall_mem_cons, and_iff_right hsucceeds]
    | false =>
      have hfails : ¬ Succeeds env s := fun hs => Bool.false_ne_true (hends.passed.mpr hs)
      refine ⟨_, _, rfl, ?_, fun r => ?_, ?_, ?_⟩
      · rw [if_neg hfails, List.flatMap_singleton]
        exact hends.ran
      · have hcons := counts_cons (s := s) (fun s => UInt32.ofNat (tries env s)) List.not_mem_nil r
        rw [if_neg hfails, ← hcons]
        exact (hattempts r).trans (congrArg (c.report.attempts r + ·) (UInt32.add_zero _).symm)
      · refine iff_of_false (by decide) fun hall => hfails (hall s List.mem_cons_self)
      · intro hst
        cases hst

/-- From fresh fault state the boot sequence ends. It has run the steps in order, each up to its first
success and no more than its class allows, and none after one that did not succeed; it succeeds if every
step does, and then leaves no occurrences of their classes. -/
theorem bootCourse_spec (h : Undisturbed env up) (hfuel : 3 ≤ fuel) (v : Svc) (hfresh : v.fdir = {}) :
    ∃ st c, bootCourse env up fuel v = some (st, c) ∧
      c.ran = (begun env BootStep.all).flatMap (fun s => List.replicate (tries env s) s) ∧
      (∀ s, c.report.attempts s =
        if s ∈ begun env BootStep.all then UInt32.ofNat (tries env s) else 0) ∧
      (st = .ok ↔ ∀ s, Succeeds env s) ∧
      (st = .ok → ∀ s : BootStep, c.svc.occurrences s.fault = 0) := by
  have hnone (s : BootStep) : v.collectTime.occurrences s.fault = 0 := by
    rw [occurrences_collectTime, Svc.occurrences, Svc.unserviced, hfresh]
    change (0 : UInt32) + (0 - 0) = 0
    decide
  obtain ⟨st, c, hrun, hran, hattempts, hok, hclear⟩ :=
    stepsCourse_spec (c := { svc := v.collectTime }) h hfuel v.nowMs
      (by decide : BootStep.all.Pairwise fun a b => a.ctorIdx < b.ctorIdx) fun s _ => hnone s
  refine ⟨st, c, hrun, hran, fun s => (hattempts s).trans (UInt32.zero_add _), hok.trans ?_, hclear⟩
  exact ⟨fun hall s => hall s (by cases s <;> decide), fun hall s _ => hall s⟩

def slowDevices : BootStep → ℕ → BootRun
  | .devices, 0 => { status := .errHardware }
  | _, _ => {}

theorem slowDevices_undisturbed : Undisturbed slowDevices none := by
  refine ⟨fun s k t _ v => ?_, fun s k t _ v => ?_, by simp⟩
  · unfold slowDevices
    split <;> rfl
  · unfold slowDevices
    split <;> rfl

theorem slowDevices_spec :
    ∃ st c, bootCourse slowDevices none 3 {} = some (st, c) ∧
      c.ran = (begun slowDevices BootStep.all).flatMap
        (fun s => List.replicate (tries slowDevices s) s) ∧
      (∀ s, c.report.attempts s =
        if s ∈ begun slowDevices BootStep.all then UInt32.ofNat (tries slowDevices s) else 0) ∧
      (st = .ok ↔ ∀ s, Succeeds slowDevices s) ∧
      (st = .ok → ∀ s : BootStep, c.svc.occurrences s.fault = 0) :=
  bootCourse_spec slowDevices_undisturbed (by decide) {} rfl

def reportsEarly : BootStep → ℕ → BootRun
  | .platform, _ => { effect := fun v => (v.report .devinit 0).report .devinit 0 }
  | s, k => slowDevices s k

/-- No step reports its own class and every step would succeed in time, but the devices are given up
after one attempt. -/
theorem reportsEarly_givenUp :
    (∀ s k v, ((reportsEarly s k).effect v).occurrences s.fault = v.occurrences s.fault) ∧
      (∀ s, Succeeds reportsEarly s) ∧
      (bootCourse reportsEarly none 3 {}).map (fun e => (e.1, e.2.ran)) =
        some (.errHardware, [.safeOutputs, .platform, .post, .devices]) := by
  refine ⟨fun s k v => ?_, fun s => ?_, by decide +kernel⟩
  · have hother (w : Svc) : (w.report .devinit 0).occurrences BootStep.platform.fault =
        w.occurrences BootStep.platform.fault := by
      have hreport := occurrences_report w .devices .platform 0
      rw [if_neg (by decide)] at hreport
      exact hreport.trans (UInt32.add_zero _)
    cases s with
    | platform => exact (hother _).trans (hother v)
    | devices => cases k <;> rfl
    | _ => rfl
  · cases s <;> decide

end Boot

end QiranFirmware
