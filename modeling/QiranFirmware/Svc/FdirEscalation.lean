import QiranFirmware.Svc.Reports

/-! # What a class is escalated for

A run of reports, clears and passes, with the reports of each class that passes have found since
its clear: `found` has no counterpart in the source. What a pass does to one class depends on the
reports since the clear when the pass comes to it and on what was found before; to the other
classes it only adds the reports its deliveries make.
-/
namespace QiranFirmware

def SvcCall.isService (c : FaultId) : SvcCall → Bool
  | logFault id _ _ => id == c
  | escalate id _ => id == c
  | clear id => id == c
  | _ => false

namespace Svc

open Machine SvcCall

/-- The state in which a pass comes to the class. -/
def examined (up : Option Uplink) (c : PlatformCounters) (id : FaultId) (v : Svc) : Svc :=
  (FaultId.serviced.takeWhile (· != id)).foldl (serviceClass up) (collectPlatformCounters c v)

structure Watch where
  svc : Svc := {}
  found : FaultId → ℕ := fun _ => 0

inductive WatchOp
  | report (id : FaultId) (detail : UInt32)
  | clear (id : FaultId)
  | service (up : Option Uplink) (c : PlatformCounters)
  | tick

def watchStep (s : Watch) : WatchOp → Watch
  | .report id detail => { s with svc := s.svc.report id detail }
  | .clear id => { svc := s.svc.clear id, found := Function.update s.found id 0 }
  | .service up c =>
    { svc := errorHandlingService up c s.svc
      found := fun id => since id (examined up c id s.svc).trace }
  | .tick => { s with svc := s.svc.tick }

def WatchOp.events : WatchOp → List FaultOp
  | .report id detail => [.report id detail]
  | .clear id => [.clear id]
  | .service up c => pass up c
  | .tick => [.tick]

theorem svc_watchStep (s : Watch) (op : WatchOp) : (watchStep s op).svc = run faultStep s.svc op.events := by
  cases op with
  | service up c => simp only [watchStep, WatchOp.events, run_pass]
  | report | clear | tick => rfl

/-- The trace has what the operations called, one report for each that was made. -/
theorem trace_watched (s : Watch) (ops : List WatchOp) : (run watchStep s ops).svc.trace =
    s.svc.trace ++ callsOf s.svc (ops.flatMap WatchOp.events) := by
  have hevents : (run watchStep s ops).svc = run faultStep s.svc (ops.flatMap WatchOp.events) := by
    induction ops generalizing s with
    | nil => rfl
    | cons op ops ih => rw [run_cons, ih, svc_watchStep, List.flatMap_cons, run_append]
  rw [hevents, trace_run]

variable {id : FaultId} {v w : Svc} {n m : ℕ} {up : Option Uplink}

theorem isClear_of_isService {x : SvcCall} (h : x.isService id = false) : x.isClear id = false := by
  cases x <;> simp_all [isService, isClear]

theorem isEscalation_of_isService {x : SvcCall} (h : x.isService id = false) :
    x.isEscalation id = false := by
  cases x <;> simp_all [isService, isEscalation]

theorem isLogFault_of_isService {x : SvcCall} (h : x.isService id = false) :
    x.isLogFault id = false := by
  cases x <;> simp_all [isService, isLogFault]

theorem countP_escalateCalls (up : Option Uplink) (id : FaultId) (detail : UInt32) :
    (escalateCalls up id detail).countP (isEscalation id) = 1 := by
  obtain ⟨calls, heq, hcalls⟩ := escalateCalls_eq up id detail
  have hnone : calls.countP (isEscalation id) = 0 := by
    refine List.countP_eq_zero.mpr ?_
    intro x hx
    rcases hcalls x hx with ⟨call, rfl⟩ | ⟨f, e, rfl⟩
    · exact Bool.false_ne_true
    · exact Bool.false_ne_true
  rw [heq, List.countP_cons_of_pos (by simp [isEscalation]), hnone]

theorem mem_serviceCalls {d : FaultId} {x : SvcCall} (hx : x ∈ serviceCalls up d v) :
    x = .logFault d (policy d).severity (v.fdir.detail d) ∨ x = .escalate d (v.fdir.detail d) ∨
      (∃ call, x = .uplink call) ∨ ∃ f e, x = .report f e :=
  (List.mem_cons.mp hx).imp_right mem_dueCalls

theorem not_isClear_of_mem_serviceCalls {d : FaultId} {x : SvcCall} (hx : x ∈ serviceCalls up d v) :
    x.isClear id = false := by
  rcases mem_serviceCalls hx with rfl | rfl | ⟨call, rfl⟩ | ⟨f, e, rfl⟩ <;> rfl

theorem since_serviced (h : Servicing up id v w) :
    since id w.trace = since id v.trace + (serviceCalls up id v).countP (isReport id) := by
  rw [h.trace]
  exact pending_append_of_forall_not fun x hx => not_isClear_of_mem_serviceCalls hx

theorem since_le_serviceClass (up : Option Uplink) (v : Svc) :
    since id v.trace ≤ since id (serviceClass up v id).trace := by
  by_cases hnew : v.unserviced id = 0
  · rw [serviceClass_of_eq hnew]
  · rw [since_serviced (serviceClass_of_ne up hnew)]
    exact Nat.le_add_right _ _

/-- `w` is `v` after calls none of which serviced or cleared the class. -/
structure Apart (id : FaultId) (new : List SvcCall) (v w : Svc) : Prop where
  trace : w.trace = v.trace ++ new
  calls : ∀ x ∈ new, x.isService id = false
  unserviced : w.unserviced id = v.unserviced id + UInt32.ofNat (new.countP (isReport id))
  occurrences : (w.fdir.record id).occurrences = (v.fdir.record id).occurrences
  elevated : (w.fdir.record id).elevated = (v.fdir.record id).elevated

namespace Apart
variable {a b : List SvcCall} {u : Svc}

theorem of_reporting (h : Reporting a v w) (hcalls : ∀ x ∈ a, x.isService id = false) :
    Apart id a v w :=
  ⟨h.trace, hcalls, h.unserviced id, h.occurrences id, h.elevated id⟩

theorem refl (v : Svc) : Apart id [] v v := of_reporting (.refl v) (by simp)

theorem trans (h : Apart id a u v) (k : Apart id b v w) : Apart id (a ++ b) u w where
  trace := by rw [k.trace, h.trace, List.append_assoc]
  calls x hx := (List.mem_append.mp hx).elim (h.calls x) (k.calls x)
  unserviced := by
    rw [k.unserviced, h.unserviced, List.countP_append, UInt32.ofNat_add]
    grind
  occurrences := k.occurrences.trans h.occurrences
  elevated := k.elevated.trans h.elevated

theorem since (h : Apart id a v w) :
    since id w.trace = since id v.trace + a.countP (isReport id) := by
  rw [h.trace]
  exact pending_append_of_forall_not fun x hx => isClear_of_isService (h.calls x hx)

theorem escalations (h : Apart id a v w) :
    pending (isEscalation id) (isClear id) w.trace =
      pending (isEscalation id) (isClear id) v.trace := by
  have hnone : a.countP (isEscalation id) = 0 :=
    List.countP_eq_zero.mpr fun x hx => by simp [isEscalation_of_isService (h.calls x hx)]
  rw [h.trace, pending_append_of_forall_not fun x hx => isClear_of_isService (h.calls x hx), hnone]
  rfl

theorem report (f : FaultId) (detail : UInt32) (v : Svc) :
    Apart id [.report f detail] v (v.report f detail) :=
  of_reporting (reporting_report f detail v) (by simp [isService])

theorem clear {d : FaultId} (hd : d ≠ id) (v : Svc) : Apart id [.clear d] v (v.clear d) where
  trace := rfl
  calls := by simp [isService, hd]
  unserviced := by simp [unserviced_clear, hd.symm, isReport]
  occurrences := by simp [Svc.clear, hd.symm]
  elevated := by simp [Svc.clear, hd.symm]

theorem collect (c : PlatformCounters) (v : Svc) :
    ∃ new, Apart id new v (collectPlatformCounters c v) := by
  obtain ⟨new, hnew, hall⟩ := platformReporting_collect c v
  refine ⟨new, of_reporting hnew ?_⟩
  intro x hx
  obtain ⟨f, d, rfl, -⟩ := hall x hx
  rfl

theorem serviceClass {d : FaultId} (hd : d ≠ id) (up : Option Uplink) (v : Svc) :
    ∃ new, Apart id new v (serviceClass up v d) := by
  by_cases hnew : v.unserviced d = 0
  · rw [serviceClass_of_eq hnew]
    exact ⟨[], refl v⟩
  · have hserv := serviceClass_of_ne up hnew
    refine ⟨serviceCalls up d v, hserv.trace, ?_, ?_, ?_, ?_⟩
    · intro x hx
      rcases mem_serviceCalls hx with rfl | rfl | ⟨call, rfl⟩ | ⟨f, e, rfl⟩
      · exact beq_false_of_ne hd
      · exact beq_false_of_ne hd
      · rfl
      · rfl
    · rw [hserv.unserviced, if_neg hd.symm]
    · rw [hserv.occurrences, if_neg hd.symm]
    · rw [Bool.eq_iff_iff, hserv.elevated]
      simp [hd.symm]

theorem loop {ids : List FaultId} (hids : id ∉ ids) (up : Option Uplink) (v : Svc) :
    ∃ new, Apart id new v (ids.foldl (Svc.serviceClass up) v) := by
  induction ids generalizing v with
  | nil => exact ⟨[], refl v⟩
  | cons d ids ih =>
    obtain ⟨hd, hids⟩ := not_or.mp (mt List.mem_cons.mpr hids)
    obtain ⟨a, ha⟩ := serviceClass (Ne.symm hd) up v
    obtain ⟨b, hb⟩ := ih hids (Svc.serviceClass up v d)
    exact ⟨a ++ b, ha.trans hb⟩

end Apart

/-- The escalations that finding the class at `m` reports brings, when `n` were found before. -/
def escalationsFor (id : FaultId) (n m : ℕ) : ℕ :=
  match (policy id).severity with
  | .severe => if n < m then 1 else 0
  | .critical => if n < (policy id).limit.toNat ∧ (policy id).limit.toNat ≤ m then 1 else 0
  | .medium => 0
  | .minor => 0

theorem escalationsFor_self (id : FaultId) (n : ℕ) : escalationsFor id n n = 0 := by
  unfold escalationsFor
  cases (policy id).severity with
  | severe => simp
  | critical => simp
  | medium => rfl
  | minor => rfl

/-- Passes have found `n` of the reports of the class since its clear. -/
structure Standing (id : FaultId) (n : ℕ) (v : Svc) : Prop where
  le : n ≤ since id v.trace
  unserviced : v.unserviced id = UInt32.ofNat (since id v.trace - n)
  occurrences : (v.fdir.record id).occurrences = UInt32.ofNat n
  elevated : (policy id).severity = .critical →
    ((v.fdir.record id).elevated = true ↔ (policy id).limit.toNat ≤ n)
  escalations : (policy id).severity = .critical →
    pending (isEscalation id) (isClear id) v.trace = if (policy id).limit.toNat ≤ n then 1 else 0

namespace Standing

theorem not_limit_le_zero (h : (policy id).severity = .critical) : ¬ (policy id).limit.toNat ≤ 0 := by
  have hlimit := (limit_ne_zero_iff id).mpr h
  rw [ne_eq, ← UInt16.toNat_inj] at hlimit
  exact fun hle => hlimit (Nat.le_zero.mp hle)

theorem init (id : FaultId) : Standing id 0 {} where
  le := Nat.zero_le _
  unserviced := show (0 : UInt32) - 0 = UInt32.ofNat (0 - 0) by decide
  occurrences := rfl
  elevated h := by simp [not_limit_le_zero h]
  escalations h := by
    rw [if_neg (not_limit_le_zero h)]
    rfl

theorem apart {new : List SvcCall} (h : Standing id n v) (k : Apart id new v w) :
    Standing id n w where
  le := by
    rw [k.since]
    exact h.le.trans (Nat.le_add_right _ _)
  unserviced := by
    rw [k.unserviced, k.since, h.unserviced, ← UInt32.ofNat_add, ← Nat.sub_add_comm h.le]
  occurrences := k.occurrences.trans h.occurrences
  elevated := by
    rw [k.elevated]
    exact h.elevated
  escalations := by
    rw [k.escalations]
    exact h.escalations

theorem clear (id : FaultId) (v : Svc) : Standing id 0 (v.clear id) := by
  have hpending (p : SvcCall → Bool) : pending p (isClear id) (v.clear id).trace = 0 := by
    simp [Svc.clear, isClear]
  refine ⟨Nat.zero_le _, ?_, ?_, ?_, ?_⟩
  · rw [since, hpending, unserviced_clear, if_pos rfl]
    rfl
  · simp [Svc.clear]
  · intro h
    simp [Svc.clear, not_limit_le_zero h]
  · intro h
    rw [hpending, if_neg (not_limit_le_zero h)]

theorem count (h : Standing id n v) : v.occurrences id = UInt32.ofNat (since id v.trace) := by
  rw [Svc.occurrences, h.occurrences, h.unserviced, ← UInt32.ofNat_add, Nat.add_sub_cancel' h.le]

theorem due_iff (h : Standing id n v) (hlt : since id v.trace < 2 ^ 32) :
    Due id v ↔ (policy id).severity = .severe ∨ (policy id).severity = .critical ∧
      n < (policy id).limit.toNat ∧ (policy id).limit.toNat ≤ since id v.trace := by
  have hlimit : (policy id).limit.toUInt32 ≤ v.occurrences id ↔
      (policy id).limit.toNat ≤ since id v.trace := by
    rw [h.count, UInt32.le_iff_toNat_le, UInt32.toNat_ofNat_of_lt' hlt, UInt16.toNat_toUInt32]
  rw [Due, hlimit]
  refine or_congr_right (and_congr_right fun hcritical => ?_)
  rw [← Bool.not_eq_true, h.elevated hcritical, Nat.not_le, and_comm]

theorem countP_serviceCalls (h : Standing id n v) (hlt : since id v.trace < 2 ^ 32)
    (hfound : n < since id v.trace) :
    (serviceCalls up id v).countP (isEscalation id) = escalationsFor id n (since id v.trace) := by
  have hcalls : (serviceCalls up id v).countP (isEscalation id) = if Due id v then 1 else 0 := by
    rw [serviceCalls, List.countP_cons_of_neg (by simp [isEscalation]), dueCalls]
    split
    · exact countP_escalateCalls ..
    · rfl
  simp only [hcalls, escalationsFor, h.due_iff hlt]
  cases (policy id).severity with
  | severe => simp [hfound]
  | critical => simp
  | medium => simp
  | minor => simp

/-- Servicing the class: the escalations due, and one log entry, where anything new was found. -/
theorem serviced (h : Standing id n v) (hlt : since id v.trace < 2 ^ 32) (up : Option Uplink) :
    Standing id (since id v.trace) (serviceClass up v id) ∧
    ∃ new, (serviceClass up v id).trace = v.trace ++ new ∧ new.countP (isLogFault id) ≤ 1 ∧
      new.countP (isEscalation id) = escalationsFor id n (since id v.trace) := by
  rcases Nat.eq_or_lt_of_le h.le with hsame | hfound
  · have hnothing : v.unserviced id = 0 := by
      rw [h.unserviced, hsame, Nat.sub_self]
      rfl
    rw [serviceClass_of_eq hnothing, ← hsame]
    exact ⟨h, [], by simp, by simp, (escalationsFor_self id n).symm⟩
  · have hsome : v.unserviced id ≠ 0 := by
      intro hzero
      have hmod := congrArg UInt32.toNat (h.unserviced.symm.trans hzero)
      rw [UInt32.toNat_ofNat_of_lt' (lt_of_le_of_lt (Nat.sub_le _ _) hlt), UInt32.toNat_zero] at hmod
      omega
    have hserv := serviceClass_of_ne up hsome
    have hcount : (serviceCalls up id v).countP (isEscalation id) =
        escalationsFor id n (since id v.trace) := h.countP_serviceCalls hlt hfound
    have hsince := since_serviced hserv
    refine ⟨⟨?_, ?_, ?_, ?_, ?_⟩, serviceCalls up id v, hserv.trace, ?_, hcount⟩
    · omega
    · rw [hserv.unserviced, if_pos rfl, hsince, Nat.add_sub_cancel_left, UInt32.zero_add]
    · rw [hserv.occurrences, if_pos rfl, h.count]
    · intro hcritical
      rw [hserv.elevated, h.elevated hcritical, h.due_iff hlt]
      simp only [hcritical, true_and, reduceCtorEq, false_or]
      omega
    · intro hcritical
      rw [hserv.trace, pending_append_of_forall_not fun x hx => not_isClear_of_mem_serviceCalls hx,
        h.escalations hcritical, hcount, escalationsFor, hcritical]
      dsimp only
      split_ifs <;> omega
    · rw [serviceCalls, List.countP_cons, List.countP_eq_zero.mpr fun x hx => by
        simp [not_isLogFault_of_mem_dueCalls hx id]]
      split
      · exact le_rfl
      · exact Nat.zero_le _

end Standing

def Serviced (id : FaultId) (n m : ℕ) (v w : Svc) : Prop :=
  ∃ new, w.trace = v.trace ++ new ∧ new.countP (isLogFault id) ≤ 1 ∧
    new.countP (isEscalation id) = escalationsFor id n m

theorem serviced_split (h : id ≠ .none) : ∃ post, id ∉ post ∧
    id ∉ FaultId.serviced.takeWhile (· != id) ∧
    FaultId.serviced = FaultId.serviced.takeWhile (· != id) ++ id :: post := by
  refine ⟨(FaultId.serviced.dropWhile (· != id)).tail, ?_⟩
  revert h
  cases id <;> decide

namespace Apart
variable {a b : List SvcCall} {u x : Svc}

theorem countP_isEscalation (h : Apart id a v w) : a.countP (isEscalation id) = 0 :=
  List.countP_eq_zero.mpr fun x hx => by simp [isEscalation_of_isService (h.calls x hx)]

theorem countP_isLogFault (h : Apart id a v w) : a.countP (isLogFault id) = 0 :=
  List.countP_eq_zero.mpr fun x hx => by simp [isLogFault_of_isService (h.calls x hx)]

/-- What a class undergoes is not changed by what happens to the others before and after it. -/
theorem serviced (h : Apart id a u v) (hvw : Serviced id n m v w) (k : Apart id b w x) :
    Serviced id n m u x := by
  obtain ⟨new, htrace, hlog, hesc⟩ := hvw
  refine ⟨a ++ new ++ b, ?_, ?_, ?_⟩
  · rw [k.trace, htrace, h.trace]
    simp only [List.append_assoc]
  · rw [List.countP_append, List.countP_append, h.countP_isLogFault, k.countP_isLogFault]
    omega
  · rw [List.countP_append, List.countP_append, h.countP_isEscalation, k.countP_isEscalation, hesc]
    omega

end Apart

/-- A pass is what comes before the class, its own servicing, and what comes after it. -/
theorem pass_split (hid : id ≠ .none) (up : Option Uplink) (c : PlatformCounters) (v : Svc) :
    ∃ a b, Apart id a v (examined up c id v) ∧
      Apart id b (serviceClass up (examined up c id v) id) (errorHandlingService up c v) := by
  obtain ⟨post, hpost, hpre, hsplit⟩ := serviced_split hid
  obtain ⟨a, ha⟩ : ∃ a, Apart id a v (collectPlatformCounters c v) := Apart.collect c v
  obtain ⟨b, hb⟩ := Apart.loop hpre up (collectPlatformCounters c v)
  have hpass : errorHandlingService up c v =
      post.foldl (serviceClass up) (serviceClass up (examined up c id v) id) := by
    rw [errorHandlingService, hsplit, List.foldl_append]
    rfl
  obtain ⟨d, hafter⟩ := Apart.loop hpost up (serviceClass up (examined up c id v) id)
  rw [← hpass] at hafter
  exact ⟨a ++ b, d, ha.trans hb, hafter⟩

theorem since_examined (hid : id ≠ .none) (up : Option Uplink) (c : PlatformCounters) (v : Svc) :
    since id v.trace ≤ since id (examined up c id v).trace ∧
      since id (examined up c id v).trace ≤ since id (errorHandlingService up c v).trace := by
  obtain ⟨a, b, hbefore, hafter⟩ := pass_split hid up c v
  have hown := @since_le_serviceClass id up (examined up c id v)
  rw [hafter.since, hbefore.since] at *
  omega

theorem Standing.pass (hid : id ≠ .none) (h : Standing id n v) {c : PlatformCounters}
    (hlt : since id (errorHandlingService up c v).trace < 2 ^ 32) :
    Standing id (since id (examined up c id v).trace) (errorHandlingService up c v) ∧
    Serviced id n (since id (examined up c id v).trace) v (errorHandlingService up c v) := by
  obtain ⟨a, b, hbefore, hafter⟩ := pass_split hid up c v
  have hgrow := (since_examined hid up c v).2
  obtain ⟨hstanding, hserviced⟩ := (h.apart hbefore).serviced (by omega) up
  exact ⟨hstanding.apart hafter, hbefore.serviced hserviced hafter⟩

theorem Serviced.of_apart {new : List SvcCall} (h : Apart id new v w) (hnone : escalationsFor id n m = 0) :
    Serviced id n m v w :=
  ⟨new, h.trace, h.countP_isLogFault.trans_le (Nat.zero_le 1), h.countP_isEscalation.trans hnone.symm⟩

theorem escalationsFor_minor (h : (policy id).severity = .medium ∨ (policy id).severity = .minor)
    (n m : ℕ) : escalationsFor id n m = 0 := by
  rcases h with h | h <;> rw [escalationsFor, h]

structure Watched (id : FaultId) (s : Watch) : Prop where
  standing : id ≠ .none → Standing id (s.found id) s.svc
  unescalated : (policy id).severity = .medium ∨ (policy id).severity = .minor →
    s.svc.trace.countP (isEscalation id) = 0

namespace Watched
variable {s : Watch}

theorem serviced (h : Watched id s) (up : Option Uplink) (c : PlatformCounters)
    (hlt : since id (errorHandlingService up c s.svc).trace < 2 ^ 32) :
    Serviced id (s.found id) (since id (examined up c id s.svc).trace) s.svc
      (errorHandlingService up c s.svc) := by
  by_cases hid : id = .none
  · obtain ⟨a, ha⟩ : ∃ a, Apart id a s.svc (collectPlatformCounters c s.svc) := Apart.collect c s.svc
    obtain ⟨b, hb⟩ := Apart.loop (show id ∉ FaultId.serviced by rw [hid]; decide) up
      (collectPlatformCounters c s.svc)
    exact .of_apart (ha.trans hb) (escalationsFor_minor (by rw [hid]; decide) _ _)
  · exact ((h.standing hid).pass hid hlt).2

theorem apart (h : Watched id s) {new : List SvcCall} {w : Svc} (k : Apart id new s.svc w)
    {found : FaultId → ℕ} (hfound : found id = s.found id) : Watched id ⟨w, found⟩ where
  standing hid := by
    show Standing id (found id) w
    rw [hfound]
    exact (h.standing hid).apart k
  unescalated hsev := by
    rw [k.trace, List.countP_append, h.unescalated hsev, k.countP_isEscalation]

theorem step (h : Watched id s) {op : WatchOp}
    (hlt : since id (watchStep s op).svc.trace < 2 ^ 32) : Watched id (watchStep s op) := by
  cases op with
  | report f detail => exact h.apart (.report f detail s.svc) rfl
  | tick => exact h.apart (.of_reporting (reporting_tick s.svc) (by simp)) rfl
  | clear d =>
    by_cases hd : d = id
    · subst hd
      refine ⟨?_, ?_⟩
      · intro _
        have hzero : (watchStep s (.clear d)).found d = 0 := Function.update_self ..
        rw [hzero]
        exact .clear d s.svc
      · intro hsev
        simp [watchStep, Svc.clear, h.unescalated hsev, isEscalation]
    · exact h.apart (.clear hd s.svc) (Function.update_of_ne (Ne.symm hd) ..)
  | service up c =>
    simp only [watchStep] at hlt ⊢
    refine ⟨?_, ?_⟩
    · intro hid
      dsimp only
      exact ((h.standing hid).pass hid hlt).1
    · intro hsev
      obtain ⟨new, htrace, -, hesc⟩ := h.serviced up c hlt
      dsimp only
      rw [htrace, List.countP_append, h.unescalated hsev, hesc, escalationsFor_minor hsev]

theorem init (id : FaultId) : Watched id {} := ⟨fun _ => .init id, fun _ => rfl⟩

end Watched

/-- Between two clears a critical class has been escalated once if its reports since the clear had
reached the limit when a pass came to it, and not otherwise; the pass that escalates it is the one
that first finds the limit reached. A severe class is escalated once in each pass that finds new
reports, a medium or minor class never, and a pass makes at most one log entry for each class. -/
theorem escalated_as_found (id : FaultId) {ops : List WatchOp}
    (h : Along watchStep (fun s op => since id (watchStep s op).svc.trace < 2 ^ 32) {} ops) :
    let s := run watchStep {} ops
    ((policy id).severity = .critical → pending (isEscalation id) (isClear id) s.svc.trace =
      if (policy id).limit.toNat ≤ s.found id then 1 else 0) ∧
    ((policy id).severity = .medium ∨ (policy id).severity = .minor →
      s.svc.trace.countP (isEscalation id) = 0) ∧
    ∀ up c, since id (errorHandlingService up c s.svc).trace < 2 ^ 32 →
      Serviced id (s.found id) (since id (examined up c id s.svc).trace) s.svc
        (errorHandlingService up c s.svc) := by
  intro s
  have hs : Watched id s := run_invariant (fun _ _ hs hok => hs.step hok) (.init id) h
  refine ⟨?_, hs.unescalated, hs.serviced⟩
  intro hcritical
  refine (hs.standing ?_).escalations hcritical
  rintro rfl
  exact absurd hcritical (by decide)

def failingUplink : Uplink := fun _ => (.errHardware, [(.hkTransmit, 0)])

def thirdFailure : List WatchOp :=
  [.report .spwLink 0, .report .spwLink 0, .service (some failingUplink) {}, .report .spwLink 0,
    .service (some failingUplink) {}]

theorem escalated_as_found_third :
    let s := run watchStep {} thirdFailure
    ((policy .spwLink).severity = .critical →
      pending (isEscalation .spwLink) (isClear .spwLink) s.svc.trace =
        if (policy .spwLink).limit.toNat ≤ s.found .spwLink then 1 else 0) ∧
    ((policy .spwLink).severity = .medium ∨ (policy .spwLink).severity = .minor →
      s.svc.trace.countP (isEscalation .spwLink) = 0) ∧
    ∀ up c, since .spwLink (errorHandlingService up c s.svc).trace < 2 ^ 32 →
      Serviced .spwLink (s.found .spwLink) (since .spwLink (examined up c .spwLink s.svc).trace) s.svc
        (errorHandlingService up c s.svc) :=
  escalated_as_found .spwLink (by decide +kernel)

end Svc

end QiranFirmware
