import QiranFirmware.Mission.Answers

/-! # When the observer hears of a re-entry

Going back to an earlier stage adds one to the count of re-entries of the whole sequence, and past
the limit escalates the class that the answer is about. What that class's policy makes of an
escalation decides whether the observer is called.
-/
namespace QiranFirmware.Mission

open Machine Svc SvcCall

variable {s : Mission × Svc} {u v w : Svc}

def Reenters (s : Mission × Svc) : MissionOp → Prop
  | .step _ _ r => s.1.Running ∧ r.out.result = .back ∧ r.out.backTo < s.1.stage.index
  | .register _ => False
  | .abort _ => False
  | .fault _ => False

instance (s : Mission × Svc) : ∀ op, Decidable (Reenters s op)
  | .step .. => inferInstanceAs (Decidable (_ ∧ _ ∧ _))
  | .register _ => .isFalse id
  | .abort _ => .isFalse id
  | .fault _ => .isFalse id

def causeOf (s : Mission × Svc) : MissionOp → FaultId
  | .step _ _ r => faultOf s.1.stage r.out
  | .register _ => .none
  | .abort _ => .none
  | .fault _ => .none

def Attached : MissionOp → Prop
  | .step _ up _ => up.isSome = true
  | .register _ => True
  | .abort _ => True
  | .fault _ => True

def ObserverCalled (s : Mission × Svc) (op : MissionOp) : Prop :=
  ∃ call, .uplink call ∈ (missionStep s op).2.trace.drop s.2.trace.length

def Noticed (s : Mission × Svc) (op : MissionOp) : Prop :=
  Reenters s op → (ObserverCalled s op ↔ reentryLimit < (missionStep s op).2.fdir.reentries)

/-- If the operation is a re-entry for which the count has no room, its cause is a class that is
escalated to the observer. -/
def CauseEscalated (s : Mission × Svc) (op : MissionOp) : Prop :=
  Reenters s op → reentryLimit < s.2.fdir.reentries + 1 →
    (policy (causeOf s op)).escalation ≠ .logOnly

instance (s : Mission × Svc) (op : MissionOp) : Decidable (CauseEscalated s op) :=
  inferInstanceAs (Decidable (_ → _ → _))

structure Unnoticed (v w : Svc) : Prop where
  trace : ∃ new, w.trace = v.trace ++ new ∧ ∀ call, .uplink call ∉ new
  reentries : w.fdir.reentries = v.fdir.reentries

namespace Unnoticed

theorem refl (v : Svc) : Unnoticed v v := ⟨⟨[], by simp⟩, rfl⟩

theorem trans (h : Unnoticed u v) (k : Unnoticed v w) : Unnoticed u w := by
  obtain ⟨⟨a, ha, hna⟩, hra⟩ := h
  obtain ⟨⟨b, hb, hnb⟩, hrb⟩ := k
  refine ⟨⟨a ++ b, by rw [hb, ha, List.append_assoc], ?_⟩, hrb.trans hra⟩
  intro call hmem
  rcases List.mem_append.mp hmem with hmem | hmem
  · exact hna call hmem
  · exact hnb call hmem

theorem report (id : FaultId) (detail : UInt32) (v : Svc) : Unnoticed v (v.report id detail) :=
  ⟨⟨[.report id detail], rfl, by simp⟩, rfl⟩

theorem logFault (id : FaultId) (severity : Severity) (detail : UInt32) (v : Svc) :
    Unnoticed v (v.logFault id severity detail) :=
  ⟨⟨[.logFault id severity detail], rfl, by simp⟩, rfl⟩

theorem collectTime (v : Svc) : Unnoticed v v.collectTime := ⟨⟨[], by simp [Svc.collectTime]⟩, rfl⟩

theorem reportAll (faults : List (FaultId × UInt32)) (v : Svc) :
    Unnoticed v (v.reportAll faults) := by
  induction faults generalizing v with
  | nil => exact refl v
  | cons f faults ih => exact (report f.1 f.2 v).trans (ih _)

theorem enter (stage : Stage) (m : Mission) (v : Svc) : Unnoticed v (Mission.enter stage m v).2 :=
  (collectTime v).trans ⟨⟨[.logEvent ..], rfl, by simp⟩, rfl⟩

theorem checkBudget (config : ConfigParam → Int32) (m : Mission) (v : Svc) :
    Unnoticed v (Mission.checkBudget config m v).2 := by
  unfold Mission.checkBudget
  cases m.stage.budget with
  | none => exact refl v
  | some param =>
    dsimp only
    split
    · exact refl v
    split
    · exact refl v
    split
    · exact (collectTime v).trans (report ..)
    · exact collectTime v

theorem call (r : StepRun) (m : Mission) (v : Svc) : Unnoticed v (Mission.call r m v).2 := by
  unfold Mission.call
  cases r.abort with
  | none => exact reportAll r.reports v
  | some cause =>
    simp only [abort]
    split
    · exact reportAll r.reports v
    · exact (reportAll r.reports v).trans (logFault ..)

end Unnoticed

theorem uplink_mem_reentryCalls (up : Uplink) (cause : FaultId) (n : UInt32) :
    (∃ call, .uplink call ∈ reentryCalls (some up) cause n) ↔
      reentryLimit < n ∧ (policy cause).escalation ≠ .logOnly := by
  unfold reentryCalls
  by_cases hlimit : reentryLimit < n
  · rw [if_pos hlimit]
    constructor
    · rintro ⟨call, hmem⟩
      refine ⟨hlimit, ?_⟩
      intro hlog
      simp [escalateCalls, hlog] at hmem
    · rintro ⟨-, hesc⟩
      obtain ⟨x, hmem, hup⟩ := uplink_mem_escalateCalls up n hesc
      obtain ⟨call, rfl⟩ : ∃ call, x = .uplink call := by
        cases x <;> simp_all [isUplink]
      exact ⟨call, List.mem_cons_of_mem _ hmem⟩
  · simp [hlimit]

theorem reentries_escalate (up : Option Uplink) (id : FaultId) (detail : UInt32) (v : Svc) :
    (Svc.escalate up id detail v).fdir.reentries = v.fdir.reentries := by
  have hdeliver (call : UplinkCall) (v : Svc) :
      (deliver up call v).fdir.reentries = v.fdir.reentries := by
    cases up with
    | none => rfl
    | some up =>
      have hall := (Unnoticed.reportAll (up call).2 { v with trace := v.trace ++ [.uplink call] })
      simp only [deliver]
      split
      · exact hall.reentries
      · exact hall.reentries
  unfold Svc.escalate
  dsimp only
  split
  · exact hdeliver _ _
  · exact hdeliver _ _
  · rfl

theorem reentries_reentryNote (up : Option Uplink) (cause : FaultId) (v : Svc) :
    (reentryNote up cause v).fdir.reentries = v.fdir.reentries + 1 := by
  unfold reentryNote
  dsimp only
  split
  · exact reentries_escalate ..
  · rfl

/-- A re-entry counts once, and calls the observer as the note of it does. -/
theorem reenters_step {config : ConfigParam → Int32} {up : Uplink} {r : StepRun}
    (h : Reenters s (.step config (some up) r)) :
    (step config (some up) r s.1 s.2).2.fdir.reentries = s.2.fdir.reentries + 1 ∧
      (ObserverCalled s (.step config (some up) r) ↔ ∃ call, .uplink call ∈
        reentryCalls (some up) (faultOf s.1.stage r.out) (s.2.fdir.reentries + 1)) := by
  obtain ⟨hrun, hback, hlt⟩ := h
  obtain ⟨v₁, hv₁⟩ : ∃ v₁, v₁ = ((call r (checkBudget config s.1 s.2).1
      (checkBudget config s.1 s.2).2).2.report (faultOf s.1.stage r.out) r.out.detail) := ⟨_, rfl⟩
  have hbefore : Unnoticed s.2 v₁ :=
    hv₁ ▸ ((Unnoticed.checkBudget config s.1 s.2).trans (Unnoticed.call ..)).trans (.report ..)
  obtain ⟨hstage, -⟩ := asked_frame config r s.1 s.2
  obtain ⟨stage, m, hstep⟩ : ∃ stage m, step config (some up) r s.1 s.2 =
      enter stage m (reentryNote (some up) (faultOf s.1.stage r.out) v₁) := by
    rw [step_eq_apply config (some up) r hrun s.2]
    simp only [apply, hback, hstage, Nat.not_le.mpr hlt, ↓reduceIte, ← hv₁]
    exact ⟨_, _, rfl⟩
  obtain ⟨⟨old, hold, hnold⟩, hcount⟩ := hbefore
  obtain ⟨⟨new, hnew, hnnew⟩, hsame⟩ :=
    Unnoticed.enter stage m (reentryNote (some up) (faultOf s.1.stage r.out) v₁)
  have hnote := (reporting_reentryNote (some up) (faultOf s.1.stage r.out) v₁).trace
  refine ⟨?_, ?_⟩
  · rw [hstep, hsame, reentries_reentryNote, hcount]
  · rw [ObserverCalled, missionStep, hstep, hnew, hnote, hold, hcount]
    simp [hnold, hnnew]

theorem noticed_iff (s : Mission × Svc) (op : MissionOp) (h : Attached op) :
    Noticed s op ↔ CauseEscalated s op := by
  cases op with
  | register | abort | fault => exact ⟨fun _ hre => hre.elim, fun _ hre => hre.elim⟩
  | step config up r =>
    obtain ⟨up, rfl⟩ := Option.isSome_iff_exists.mp h
    refine forall_congr' fun hre => ?_
    obtain ⟨hcount, hcalled⟩ := reenters_step hre
    have hafter : (missionStep s (.step config (some up) r)).2.fdir.reentries =
      s.2.fdir.reentries + 1 := hcount
    rw [hcalled, uplink_mem_reentryCalls, hafter, causeOf]
    exact and_iff_left_iff_imp

/-- The observer hears of every re-entry above the limit, and of no other, exactly when none of
those above the limit has a cause that is only logged. -/
theorem reentries_noticed_iff {ops : List MissionOp}
    (h : Along missionStep (fun _ op => Attached op) s ops) :
    Along missionStep Noticed s ops ↔ Along missionStep CauseEscalated s ops :=
  along_congr noticed_iff h

def deaf : Uplink := fun _ => (.errHardware, [])

def reply (result : StepResult) (fault : FaultId) : MissionOp :=
  .step (fun _ => 0) (some deaf) { out := { result, fault } }

def sentBack (last : FaultId) : List MissionOp :=
  [.register .boot, .register .precond, reply .done .none] ++
    (List.replicate 5 [reply .back .none, reply .done .none]).flatten ++ [reply .back last]

theorem reentries_noticed_iff_precond :
    Along missionStep Noticed (init {}) (sentBack .precond) ↔
      Along missionStep CauseEscalated (init {}) (sentBack .precond) :=
  reentries_noticed_iff (by simp [sentBack, reply, Attached])

/-- The re-entry that first goes above the limit is not heard of when it is for the dark count. -/
theorem dark_count_reentry_unnoticed :
    ¬ Along missionStep Noticed (init {}) (sentBack .spadDarkCount) := by
  have hattached : Along missionStep (fun _ op => Attached op) (init {}) (sentBack .spadDarkCount) := by
    simp [sentBack, reply, Attached]
  rw [along_congr noticed_iff hattached]
  decide +kernel

end QiranFirmware.Mission
