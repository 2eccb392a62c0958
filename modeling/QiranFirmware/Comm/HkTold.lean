import QiranFirmware.Comm.HkRefines
import QiranFirmware.Svc.FdirEscalation

/-! # From the reports of a fault to the observer

A critical class has a limit. Between two clears one status report naming the class is put on the link
once a pass has found its limit reached, and none before, whatever the link answers and whatever faults
its own failures bring.
-/
namespace QiranFirmware

open Machine

namespace Svc

open SvcCall

variable {id : FaultId} {u v w : Svc}

/-- Between `v` and `w` the class has not been cleared, and each of its escalations has called the
uplink once. -/
def Escalated (id : FaultId) (v w : Svc) : Prop :=
  ∃ new, w.trace = v.trace ++ new ∧ (∀ x ∈ new, x.isClear id = false) ∧
    new.countP (isUplink id) = new.countP (isEscalation id)

namespace Escalated

theorem refl (v : Svc) : Escalated id v v := ⟨[], (List.append_nil _).symm, by simp, rfl⟩

theorem trans (h : Escalated id u v) (k : Escalated id v w) : Escalated id u w := by
  obtain ⟨a, ha, haclear, hacount⟩ := h
  obtain ⟨b, hb, hbclear, hbcount⟩ := k
  refine ⟨a ++ b, ?_, ?_, ?_⟩
  · rw [hb, ha, List.append_assoc]
  · intro x hx
    exact (List.mem_append.mp hx).elim (haclear x) (hbclear x)
  · rw [List.countP_append, List.countP_append, hacount, hbcount]

/-- Calls that are neither escalations, nor calls of the uplink, nor clears. -/
theorem of_others {new : List SvcCall} (htrace : w.trace = v.trace ++ new)
    (h : ∀ x ∈ new, x.isClear id = false ∧ x.isUplink id = false ∧ x.isEscalation id = false) :
    Escalated id v w := by
  refine ⟨new, htrace, fun x hx => (h x hx).1, ?_⟩
  rw [List.countP_eq_zero.mpr fun x hx => by simp [(h x hx).2.1],
    List.countP_eq_zero.mpr fun x hx => by simp [(h x hx).2.2]]

theorem deliver_calls (up : Uplink) (call : UplinkCall) :
    (deliverCalls (some up) call).countP (isUplink id) = if call.fault = id then 1 else 0 := by
  have hnone : ((up call).2.map fun f => SvcCall.report f.1 f.2).countP (isUplink id) = 0 := by
    refine List.countP_eq_zero.mpr ?_
    intro x hx
    obtain ⟨f, -, rfl⟩ := List.mem_map.mp hx
    exact Bool.false_ne_true
  rw [deliverCalls, List.countP_cons, hnone, isUplink]
  simp

theorem escalate_calls (up : Uplink) (hid : (policy id).escalation ≠ .logOnly) (d : FaultId)
    (detail : UInt32) : (escalateCalls (some up) d detail).countP (isUplink id) =
      (escalateCalls (some up) d detail).countP (isEscalation id) := by
  by_cases hd : d = id
  · subst hd
    rw [countP_escalateCalls, escalateCalls, List.countP_cons_of_neg (by simp [isUplink])]
    cases hpolicy : (policy d).escalation with
    | report => exact (deliver_calls ..).trans (if_pos rfl)
    | powerReset => exact (deliver_calls ..).trans (if_pos rfl)
    | logOnly => exact absurd hpolicy hid
  · obtain ⟨calls, heq, hcalls⟩ := escalateCalls_eq (some up) d detail
    have hescalation : (escalateCalls (some up) d detail).countP (isEscalation id) = 0 := by
      rw [heq]
      refine List.countP_eq_zero.mpr ?_
      intro x hx
      rcases List.mem_cons.mp hx with rfl | hx
      · simp [isEscalation, hd]
      · rcases hcalls x hx with ⟨call, rfl⟩ | ⟨f, e, rfl⟩ <;> exact Bool.false_ne_true
    rw [hescalation, escalateCalls, List.countP_cons_of_neg (by simp [isUplink])]
    cases (policy d).escalation with
    | report => exact (deliver_calls ..).trans (if_neg hd)
    | powerReset => exact (deliver_calls ..).trans (if_neg hd)
    | logOnly => rfl

theorem escalate_clears {up : Option Uplink} {d : FaultId} {detail : UInt32} {x : SvcCall}
    (hx : x ∈ escalateCalls up d detail) : x.isClear id = false := by
  obtain ⟨calls, heq, hcalls⟩ := escalateCalls_eq up d detail
  rw [heq] at hx
  rcases List.mem_cons.mp hx with rfl | hx
  · rfl
  · rcases hcalls x hx with ⟨call, rfl⟩ | ⟨f, e, rfl⟩ <;> rfl

theorem serviceClass (up : Uplink) (hid : (policy id).escalation ≠ .logOnly) (v : Svc)
    (d : FaultId) : Escalated id v (serviceClass (some up) v d) := by
  by_cases hnew : v.unserviced d = 0
  · rw [serviceClass_of_eq hnew]
    exact refl v
  · refine ⟨_, (serviceClass_of_ne (some up) hnew).trace,
      fun x hx => not_isClear_of_mem_serviceCalls hx, ?_⟩
    rw [serviceCalls, List.countP_cons_of_neg (by simp [isUplink]),
      List.countP_cons_of_neg (by simp [isEscalation]), dueCalls]
    split
    · exact escalate_calls up hid d _
    · rfl

theorem foldl (up : Uplink) (hid : (policy id).escalation ≠ .logOnly) (ids : List FaultId) (v : Svc) :
    Escalated id v (ids.foldl (Svc.serviceClass (some up)) v) := by
  induction ids generalizing v with
  | nil => exact refl v
  | cons d ids ih => exact (serviceClass up hid v d).trans (ih _)

theorem pass (up : Uplink) (hid : (policy id).escalation ≠ .logOnly) (c : PlatformCounters) (v : Svc) :
    Escalated id v (errorHandlingService (some up) c v) := by
  obtain ⟨new, hnew, hcalls⟩ := platformReporting_collect c v
  have hcollect : Escalated id v (collectPlatformCounters c v) := by
    refine of_others hnew.trace ?_
    intro x hx
    obtain ⟨d, e, rfl, -⟩ := hcalls x hx
    exact ⟨rfl, rfl, rfl⟩
  exact hcollect.trans (foldl up hid _ _)

theorem reentry (up : Uplink) (hid : (policy id).escalation ≠ .logOnly) (cause : FaultId) (v : Svc) :
    Escalated id v (reentryNote (some up) cause v) := by
  refine ⟨_, (reporting_reentryNote (some up) cause v).trace, ?_, ?_⟩
  · intro x hx
    rw [reentryCalls] at hx
    rcases List.mem_cons.mp hx with rfl | hx
    · rfl
    · split at hx
      · exact escalate_clears hx
      · cases hx
  · rw [reentryCalls, List.countP_cons_of_neg (by simp [isUplink]),
      List.countP_cons_of_neg (by simp [isEscalation])]
    split
    · exact escalate_calls up hid cause _
    · rfl

theorem serviceStep (hid : (policy id).escalation ≠ .logOnly) (v : Svc) {op : ServiceOp}
    (hclear : op.asked ≠ some (.clear id)) : Escalated id v (serviceStep v op) := by
  cases op with
  | report d detail =>
    refine @of_others id v _ [.report d detail] rfl ?_
    simp [isClear, isUplink, isEscalation]
  | tick => exact refl v
  | clear d =>
    have hd : d ≠ id := by
      rintro rfl
      exact hclear rfl
    refine @of_others id v _ [.clear d] rfl ?_
    simp [isClear, isUplink, isEscalation, hd]
  | pass up c => exact pass up hid c v
  | reentry up cause => exact reentry up hid cause v

end Escalated

/-- The class has been told since there were `r` reports of it and `e` calls of the uplink for it, which
is when it was last cleared. -/
structure Followed (id : FaultId) (r e : ℕ) (v : Svc) : Prop where
  standing : ∃ n, Standing id n v
  reports : v.trace.countP (isReport id) = r + since id v.trace
  told : v.trace.countP (isUplink id) = e + pending (isEscalation id) (isClear id) v.trace

theorem Escalated.run (hid : (policy id).escalation ≠ .logOnly) {ops : List ServiceOp}
    (hops : ∀ op ∈ ops, op.asked ≠ some (.clear id)) (v : Svc) :
    Escalated id v (Machine.run Svc.serviceStep v ops) := by
  induction ops generalizing v with
  | nil => exact .refl v
  | cons op ops ih =>
    obtain ⟨hop, hrest⟩ := List.forall_mem_cons.mp hops
    exact (Escalated.serviceStep hid v hop).trans (ih hrest _)

theorem Escalated.follows (hid : (policy id).escalation ≠ .logOnly) {asked : List Asked}
    (h : Follows asked v w) (hclear : .clear id ∉ asked) : Escalated id v w := by
  obtain ⟨ops, time, rfl, rfl⟩ := h
  refine (Escalated.run hid ?_ v).trans ⟨[], (List.append_nil _).symm, by simp, rfl⟩
  intro op hop hasked
  exact hclear (List.mem_filterMap.mpr ⟨op, hop, hasked⟩)

theorem Escalated.since_le (h : Escalated id v w) : since id v.trace ≤ since id w.trace := by
  obtain ⟨new, htrace, hclear, -⟩ := h
  rw [since, since, htrace, pending_append_of_forall_not hclear]
  exact Nat.le_add_right _ _

namespace Followed
variable {r e : ℕ}

theorem cleared (id : FaultId) (v : Svc) : Followed id (v.trace.countP (isReport id))
    (v.trace.countP (isUplink id)) (v.clear id) := by
  refine ⟨⟨0, .clear id v⟩, ?_, ?_⟩
  · simp [Svc.clear, isReport, since, isClear]
  · simp [Svc.clear, isUplink, isClear]

theorem init (rawTick : UInt32) (time : Time) : Followed id 0 0 { rawTick, time } := by
  obtain ⟨hle, hunserviced, hoccurrences, helevated, hescalations⟩ := Standing.init id
  exact ⟨⟨0, hle, hunserviced, hoccurrences, helevated, hescalations⟩, rfl, rfl⟩

theorem atTime (h : Followed id r e v) (time : Time) : Followed id r e (v.atTime time) := by
  obtain ⟨⟨n, hle, hunserviced, hoccurrences, helevated, hescalations⟩, hreports, htold⟩ := h
  exact ⟨⟨n, hle, hunserviced, hoccurrences, helevated, hescalations⟩, hreports, htold⟩

theorem reports_of (h : Followed id r e v) (hw : Escalated id v w) :
    w.trace.countP (isReport id) = r + since id w.trace := by
  obtain ⟨new, htrace, hclear, -⟩ := hw
  rw [since, htrace, pending_append_of_forall_not hclear, List.countP_append, h.reports, Nat.add_assoc]
  rfl

theorem next (h : Followed id r e v) (hstanding : ∃ n, Standing id n w) (hw : Escalated id v w) :
    Followed id r e w := by
  refine ⟨hstanding, h.reports_of hw, ?_⟩
  obtain ⟨new, htrace, hclear, hcount⟩ := hw
  rw [htrace, pending_append_of_forall_not hclear, List.countP_append, h.told, hcount, Nat.add_assoc]

theorem apart (h : Followed id r e v) {new : List SvcCall} (k : Apart id new v w)
    (hw : Escalated id v w) : Followed id r e w := by
  obtain ⟨n, hn⟩ := h.standing
  exact h.next ⟨n, hn.apart k⟩ hw

theorem apart_reentry {cause : FaultId} (hne : cause ≠ id) (up : Uplink) (v : Svc) :
    Apart id (reentryCalls (some up) cause (v.fdir.reentries + 1)) v (reentryNote (some up) cause v) := by
  refine .of_reporting (reporting_reentryNote (some up) cause v) ?_
  intro x hx
  rw [reentryCalls] at hx
  rcases List.mem_cons.mp hx with rfl | hx
  · rfl
  · split at hx
    · obtain ⟨calls, heq, hcalls⟩ := escalateCalls_eq (some up) cause (v.fdir.reentries + 1)
      rw [heq] at hx
      rcases List.mem_cons.mp hx with rfl | hx
      · simp [isService, hne]
      · rcases hcalls x hx with ⟨call, rfl⟩ | ⟨f, d, rfl⟩ <;> rfl
    · cases hx

theorem serviceStep (hid : (policy id).severity = .critical) (h : Followed id r e v) {op : ServiceOp}
    (hclear : op.asked ≠ some (.clear id)) (hreentry : op.asked ≠ some (.reentry id))
    (hlt : since id (serviceStep v op).trace < 2 ^ 32) : Followed id r e (serviceStep v op) := by
  have hescalated := Escalated.serviceStep (escalation_ne_logOnly (.inl hid)) v hclear
  have hnone : id ≠ .none := by
    rintro rfl
    cases hid
  cases op with
  | report d detail => exact h.apart (.report d detail v) hescalated
  | tick => exact h.apart (.of_reporting (reporting_tick v) (by simp)) hescalated
  | clear d =>
    have hd : d ≠ id := by
      rintro rfl
      exact hclear rfl
    exact h.apart (.clear hd v) hescalated
  | pass up c =>
    obtain ⟨n, hn⟩ := h.standing
    exact h.next ⟨_, (hn.pass hnone hlt).1⟩ hescalated
  | reentry up cause =>
    have hcause : cause ≠ id := by
      rintro rfl
      exact hreentry rfl
    exact h.apart (apart_reentry hcause up v) hescalated

theorem run (hid : (policy id).severity = .critical) (h : Followed id r e v) {ops : List ServiceOp}
    (hops : ∀ op ∈ ops, op.asked ≠ some (.clear id) ∧ op.asked ≠ some (.reentry id))
    (hlt : since id (Machine.run Svc.serviceStep v ops).trace < 2 ^ 32) :
    Followed id r e (Machine.run Svc.serviceStep v ops) := by
  induction ops using List.reverseRecOn with
  | nil => exact h
  | append_singleton ops op ih =>
    obtain ⟨hclear, hreentry⟩ := hops op (by simp)
    rw [run_append] at hlt ⊢
    have hle := (Escalated.serviceStep (escalation_ne_logOnly (.inl hid))
      (Machine.run Svc.serviceStep v ops) hclear).since_le
    refine (ih ?_ (hle.trans_lt hlt)).serviceStep hid hclear hreentry hlt
    intro x hx
    exact hops x (List.mem_append_left _ hx)

theorem follows (hid : (policy id).severity = .critical) (h : Followed id r e v) {asked : List Asked}
    (k : Follows asked v w) (hclear : .clear id ∉ asked) (hreentry : .reentry id ∉ asked)
    (hlt : w.trace.countP (isReport id) < r + 2 ^ 32) : Followed id r e w := by
  rw [h.reports_of (.follows (escalation_ne_logOnly (.inl hid)) k hclear)] at hlt
  obtain ⟨ops, time, rfl, rfl⟩ := k
  refine (h.run hid ?_ (Nat.add_lt_add_iff_left.mp hlt)).atTime time
  intro op hop
  refine ⟨?_, ?_⟩
  · intro hasked
    exact hclear (List.mem_filterMap.mpr ⟨op, hop, hasked⟩)
  · intro hasked
    exact hreentry (List.mem_filterMap.mpr ⟨op, hop, hasked⟩)

/-- One status report since the clear at most, and one only once the limit has been reached. -/
theorem bounds (hid : (policy id).severity = .critical) (h : Followed id r e v) :
    v.trace.countP (isUplink id) ≤ e + 1 ∧
      (e < v.trace.countP (isUplink id) →
        r + (policy id).limit.toNat ≤ v.trace.countP (isReport id)) := by
  obtain ⟨n, hn⟩ := h.standing
  rw [h.told, h.reports, hn.escalations hid]
  have hle := hn.le
  split <;> omega

/-- A pass tells a class that has reached its limit, unless that has been done. -/
theorem pass (hid : (policy id).severity = .critical) (h : Followed id r e v) (up : Uplink)
    (c : PlatformCounters)
    (hlt : (errorHandlingService (some up) c v).trace.countP (isReport id) < r + 2 ^ 32)
    (hlimit : r + (policy id).limit.toNat ≤ v.trace.countP (isReport id)) :
    (errorHandlingService (some up) c v).trace.countP (isUplink id) = e + 1 := by
  have hnone : id ≠ .none := by
    rintro rfl
    cases hid
  obtain ⟨n, hn⟩ := h.standing
  have hescalated := Escalated.pass up (escalation_ne_logOnly (.inl hid)) c v
  rw [h.reports_of hescalated] at hlt
  have hpass := (hn.pass hnone (Nat.add_lt_add_iff_left.mp hlt)).1
  have hnext := h.next ⟨_, hpass⟩ hescalated
  have hfound := (since_examined hnone (some up) c v).1
  rw [h.reports] at hlimit
  rw [hnext.told, hpass.escalations hid, if_pos (by omega)]

end Followed

end Svc

namespace HkNode

open Svc HkLink

variable {answers : ℕ → TransmitRun} {id : FaultId}

/-- The status reports on the link that name the fault, and the reports that have been made of it. -/
def toldOf (id : FaultId) (s : HkNode) : ℕ := (faultsOn s.link.wire).countP (·.1 == id)

def reportsOf (id : FaultId) (s : HkNode) : ℕ := s.v.trace.countP (SvcCall.isReport id)

theorem countP_notices (v : Svc) :
    v.notices.countP (·.1 == id) = v.trace.countP (SvcCall.isUplink id) := by
  rw [Svc.notices, List.countP_filterMap]
  apply List.countP_congr
  intro x _
  cases x with
  | uplink call => cases call <;> rfl
  | report | clear | logFault | logEvent | escalate => rfl

def Fresh (answers : ℕ → TransmitRun) (rawTick : UInt32) (id : FaultId) (s : HkNode) : Prop :=
  s = start rawTick ∨
    ∃ before, s = (run (step answers) (start rawTick) before).step answers (.clear id)

def Leaves (id : FaultId) (op : HkOp) : Prop :=
  asked op ≠ some (.clear id) ∧ asked op ≠ some (.reentry id)

variable {rawTick : UInt32} {s : HkNode}

theorem Fresh.keeps (h : Fresh answers rawTick id s) : s.Keeps := by
  rcases h with rfl | ⟨before, rfl⟩
  · exact keeps_start rawTick
  · exact keeps_step (keeps_run rawTick before) _

theorem toldOf_eq (h : s.Keeps) : toldOf id s = s.v.trace.countP (SvcCall.isUplink id) := by
  rw [toldOf, h.1.told, countP_notices]

theorem Fresh.followed (h : Fresh answers rawTick id s) :
    Followed id (reportsOf id s) (toldOf id s) s.v := by
  rw [toldOf_eq h.keeps]
  rcases h with rfl | ⟨before, rfl⟩
  · exact .init ..
  · have hcleared := Followed.cleared id (run (step answers) (start rawTick) before).v
    have hreports : reportsOf id ((run (step answers) (start rawTick) before).step answers (.clear id)) =
        (run (step answers) (start rawTick) before).v.trace.countP (SvcCall.isReport id) := by
      simp [reportsOf, step, Svc.clear, SvcCall.isReport]
    have htold : ((run (step answers) (start rawTick) before).step answers (.clear id)).v.trace.countP
        (SvcCall.isUplink id) =
        (run (step answers) (start rawTick) before).v.trace.countP (SvcCall.isUplink id) := by
      simp [step, Svc.clear, SvcCall.isUplink]
    rw [hreports, htold]
    exact hcleared

theorem keeps_after (h : s.Keeps) (ops : List HkOp) : (run (step answers) s ops).Keeps :=
  @run_keeps _ _ (step answers) Keeps (fun _ op h => keeps_step h op) _ h ops

theorem not_mem_asked {ops : List HkOp} (h : ∀ op ∈ ops, Leaves id op) :
    .clear id ∉ ops.filterMap asked ∧ .reentry id ∉ ops.filterMap asked := by
  refine ⟨?_, ?_⟩
  · intro hmem
    obtain ⟨op, hop, heq⟩ := List.mem_filterMap.mp hmem
    exact (h op hop).1 heq
  · intro hmem
    obtain ⟨op, hop, heq⟩ := List.mem_filterMap.mp hmem
    exact (h op hop).2 heq

/-- The reports and the status reports only grow in number while the class is left alone. -/
theorem grows (hid : (policy id).severity = .critical) (s : HkNode) {ops : List HkOp}
    (hops : ∀ op ∈ ops, Leaves id op) : reportsOf id s ≤ reportsOf id (run (step answers) s ops) ∧
      s.v.trace.countP (SvcCall.isUplink id) ≤
        (run (step answers) s ops).v.trace.countP (SvcCall.isUplink id) := by
  obtain ⟨new, htrace, -, -⟩ := Escalated.follows (escalation_ne_logOnly (.inl hid))
    (@follows_run answers s ops) (not_mem_asked hops).1
  rw [reportsOf, reportsOf, htrace, List.countP_append, List.countP_append]
  exact ⟨Nat.le_add_right _ _, Nat.le_add_right _ _⟩

theorem followed_after (hid : (policy id).severity = .critical) (hs : Fresh answers rawTick id s)
    {ops : List HkOp} (hops : ∀ op ∈ ops, Leaves id op)
    (hlt : reportsOf id (run (step answers) s ops) < reportsOf id s + 2 ^ 32) :
    Followed id (reportsOf id s) (toldOf id s) (run (step answers) s ops).v := by
  obtain ⟨hclear, hreentry⟩ := not_mem_asked hops
  exact hs.followed.follows hid (follows_run s ops) hclear hreentry hlt

/-- Between two clears of a critical class, a pass that finds its limit reached leaves one status report
of it on the link, and there is none before the limit has been reached. -/
theorem limit_told (hid : (policy id).severity = .critical) (hs : Fresh answers rawTick id s)
    {ops : List HkOp} (hops : ∀ op ∈ ops, Leaves id op)
    (hlt : reportsOf id (run (step answers) s ops) < reportsOf id s + 2 ^ 32) :
    let t := run (step answers) s ops
    toldOf id s ≤ toldOf id t ∧ toldOf id t ≤ toldOf id s + 1 ∧
      (toldOf id s < toldOf id t → reportsOf id s + (policy id).limit.toNat ≤ reportsOf id t) ∧
      ∀ xs c ys, ops = xs ++ .pass c :: ys →
        reportsOf id s + (policy id).limit.toNat ≤ reportsOf id (run (step answers) s xs) →
          toldOf id t = toldOf id s + 1 := by
  intro t
  have hkeeps : t.Keeps := keeps_after hs.keeps ops
  have hbounds := (followed_after hid hs hops hlt).bounds hid
  have hgrows := (@grows answers id hid s ops hops).2
  rw [← toldOf_eq hs.keeps] at hgrows
  rw [← toldOf_eq hkeeps] at hbounds hgrows
  refine ⟨hgrows, hbounds.1, hbounds.2, ?_⟩
  rintro xs c ys rfl hlimit
  have hxs : ∀ op ∈ xs, Leaves id op := fun op hop => hops op (List.mem_append_left _ hop)
  have hys : ∀ op ∈ ys, Leaves id op := fun op hop =>
    hops op (List.mem_append_right _ (List.mem_cons_of_mem _ hop))
  have hall : ∀ op ∈ HkOp.pass c :: ys, Leaves id op := fun op hop =>
    hops op (List.mem_append_right _ hop)
  obtain ⟨before, hbefore⟩ : ∃ b, b = run (step answers) s xs := ⟨_, rfl⟩
  have ht : t = run (step answers) before (.pass c :: ys) := by rw [hbefore, ← run_append]
  have hreached := @grows answers id hid before _ hall
  have htail := @grows answers id hid (before.step answers (.pass c)) ys fun op hop =>
    hall op (List.mem_cons_of_mem _ hop)
  rw [← ht] at hreached
  rw [← run_cons, ← ht] at htail
  have hfollowed := followed_after hid hs hxs (by rw [← hbefore]; exact hreached.1.trans_lt hlt)
  obtain ⟨u, time, hpass⟩ := @pass_refines answers before c
  rw [reportsOf, hpass, trace_atTime] at htail
  rw [← hbefore] at hlimit hfollowed
  have htold := hfollowed.pass hid u c (htail.1.trans_lt hlt) hlimit
  apply le_antisymm hbounds.1
  rw [toldOf_eq hkeeps, ← htold]
  exact htail.2

def fourFailures : List HkOp :=
  [.report .spwLink 0, .report .spwLink 0, .report .spwLink 0, .pass {}, .report .spwLink 0, .pass {}]

theorem limit_told_refused : let t := run (step fun _ => { status := .errHardware }) (start 0) fourFailures
    toldOf .spwLink (start 0) ≤ toldOf .spwLink t ∧ toldOf .spwLink t ≤ toldOf .spwLink (start 0) + 1 ∧
      (toldOf .spwLink (start 0) < toldOf .spwLink t →
        reportsOf .spwLink (start 0) + (policy .spwLink).limit.toNat ≤ reportsOf .spwLink t) ∧
      ∀ xs c ys, fourFailures = xs ++ .pass c :: ys →
        reportsOf .spwLink (start 0) + (policy .spwLink).limit.toNat ≤
          reportsOf .spwLink (run (step fun _ => { status := .errHardware }) (start 0) xs) →
        toldOf .spwLink t = toldOf .spwLink (start 0) + 1 :=
  limit_told (by decide) (.inl rfl) (by simp [fourFailures, Leaves, asked]) (by decide +kernel)

end HkNode

end QiranFirmware
