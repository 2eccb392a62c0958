import QiranFirmware.Svc.Reports
import Mathlib.Algebra.BigOperators.Group.Finset.Piecewise

/-! # The accounting of reported faults

A report moves `reported`, a service pass moves `serviced` up to it, and the tier totals follow
what was serviced. `Accounts` relates the three to the reports in the trace, which by `trace_run` has one
for each that was made; it survives every order of reports and passes, and every clear of a class that
has nothing unserviced.
-/
namespace QiranFirmware.Svc

open Machine SvcCall

def outstanding (id : FaultId) (v : Svc) : ℕ := pending (isReport id) (isLogFault id) v.trace

/-- No class is cleared over an unserviced report, none is left unserviced for a whole turn of
its counter, and `QIRAN_FAULT_NONE` is not reported. -/
def Orderly (v : Svc) : FaultOp → Prop
  | .report id _ => id ≠ .none
  | .clear id => v.unserviced id = 0
  | .collect _ => True
  | .service up id => outstanding id v < 2 ^ 32 ∧ ∀ u ∈ up, ∀ call, ∀ f ∈ (u call).2, f.1 ≠ .none
  | .tick => True

def tierTotal (f : FaultId → UInt32) (s : Severity) : UInt32 :=
  ∑ c with (policy c).severity = s, f c

theorem tierTotal_update (f : FaultId → UInt32) (id : FaultId) (n : UInt32) (s : Severity) :
    tierTotal (Function.update f id n) s =
      if (policy id).severity = s then tierTotal f s + (n - f id) else tierTotal f s := by
  have hrest : ∀ c ∈ Finset.univ.erase id,
      Function.update f id n c = f c := by
    intro c hc
    exact Function.update_of_ne (Finset.ne_of_mem_erase hc) ..
  have hsplit (g : FaultId → UInt32) : tierTotal g s =
      (if (policy id).severity = s then g id else 0) +
        ∑ c ∈ Finset.univ.erase id, if (policy c).severity = s then g c else 0 := by
    rw [tierTotal, Finset.sum_filter, ← Finset.add_sum_erase _ _ (Finset.mem_univ id)]
  rw [hsplit, hsplit f, Finset.sum_congr rfl (fun c hc => by rw [hrest c hc]),
    Function.update_self]
  split <;> grind

theorem tierTotal_count (t : List SvcCall) (s : Severity) :
    tierTotal (fun c => UInt32.ofNat (t.countP (isReport c))) s =
      UInt32.ofNat (t.countP (isTierReport s)) := by
  induction t with
  | nil => simp [tierTotal]
  | cons x t ih =>
    have hone : tierTotal (fun c => if isReport c x then 1 else 0) s =
        if isTierReport s x then 1 else 0 := by
      cases x with
      | report id detail =>
        simp [tierTotal, isReport, isTierReport]
      | _ => simp [tierTotal, isReport, isTierReport]
    have hcons (p : SvcCall → Bool) : UInt32.ofNat ((x :: t).countP p) =
        UInt32.ofNat (t.countP p) + if p x then 1 else 0 := by
      rw [List.countP_cons, UInt32.ofNat_add]
      split <;> simp
    simp only [hcons, ← hone, ← ih, tierTotal, Finset.sum_add_distrib]

structure Accounts (v : Svc) : Prop where
  noNone : ∀ x ∈ v.trace, x.isReport .none = false
  reported : ∀ c, v.fdir.reported c = UInt32.ofNat (v.trace.countP (isReport c))
  unserviced : ∀ c, v.unserviced c = UInt32.ofNat (outstanding c v)
  totals : ∀ s, v.fdir.bySeverity s = tierTotal v.fdir.serviced s
  escalated : ∀ c, (policy c).severity = .severe →
    Answered (isLogFault c · = true) (isEscalation c · = true) v.trace

namespace Accounts
variable {v w : Svc}

theorem init : Accounts {} where
  noNone _ hx := absurd hx List.not_mem_nil
  reported _ := rfl
  unserviced _ := by simp [Svc.unserviced, outstanding]
  totals s := by simp [tierTotal]
  escalated _ _ := answered_nil _ _

theorem reporting (hv : Accounts v) {new : List SvcCall} (h : Reporting new v w)
    (hnone : ∀ x ∈ new, x.isReport .none = false)
    (hlog : ∀ x ∈ new, ∀ c, x.isLogFault c = false) : Accounts w where
  noNone x hx := by
    rw [h.trace] at hx
    exact (List.mem_append.mp hx).elim (hv.noNone x) (hnone x)
  reported c := by
    rw [h.reported, hv.reported, h.trace, List.countP_append, UInt32.ofNat_add]
  unserviced c := by
    have hpend : outstanding c w = outstanding c v + new.countP (isReport c) := by
      simp only [outstanding, h.trace]
      exact pending_append_of_forall_not fun x hx => hlog x hx c
    rw [h.unserviced, hv.unserviced, hpend, UInt32.ofNat_add]
  totals s := by rw [h.bySeverity, h.serviced, hv.totals]
  escalated c hc := by
    rw [h.trace]
    exact (hv.escalated c hc).append
      (answered_of_forall_not fun x hx => by simp [hlog x hx c])

theorem clear (hv : Accounts v) {id : FaultId} (h : v.unserviced id = 0) :
    Accounts (v.clear id) := by
  have hserv : Function.update v.fdir.serviced id (v.fdir.reported id) = v.fdir.serviced := by
    have he : v.fdir.reported id = v.fdir.serviced id := by
      simp only [Svc.unserviced] at h
      grind
    rw [he, Function.update_eq_self]
  have hpend (c : FaultId) : outstanding c (v.clear id) = outstanding c v := by
    simp [outstanding, Svc.clear, isReport, isLogFault]
  refine ⟨?_, ?_, ?_, ?_, ?_⟩
  · intro x hx
    rcases List.mem_append.mp hx with hx | hx
    · exact hv.noNone x hx
    · rw [List.mem_singleton.mp hx]
      rfl
  · intro c
    simpa [Svc.clear, isReport] using hv.reported c
  · intro c
    rw [hpend, ← hv.unserviced]
    simp only [Svc.unserviced, Svc.clear, hserv]
  · intro s
    simp only [Svc.clear, hserv, hv.totals]
  · intro c hc
    exact (hv.escalated c hc).append (answered_of_forall_not (by simp [isLogFault]))

theorem outstanding_servicing {up : Option Uplink} {id : FaultId} (h : Servicing up id v w)
    (c : FaultId) : outstanding c w =
      (if c = id then 0 else outstanding c v) + (dueCalls up id v).countP (isReport c) := by
  have htrace : w.trace = (v.trace ++ [.logFault id (policy id).severity (v.fdir.detail id)]) ++
      dueCalls up id v := by
    rw [h.trace, serviceCalls, List.append_assoc, List.singleton_append]
  simp only [outstanding, htrace]
  rw [pending_append_of_forall_not fun x hx => not_isLogFault_of_mem_dueCalls hx c,
    pending_concat]
  simp only [isLogFault, isReport, beq_iff_eq, Bool.false_eq_true, ↓reduceIte, @eq_comm _ c id]

theorem servicing (hv : Accounts v) {up : Option Uplink} {id : FaultId}
    (h : Servicing up id v w) (hup : ∀ u ∈ up, ∀ call, ∀ f ∈ (u call).2, f.1 ≠ .none) :
    Accounts w := by
  have hcount (c : FaultId) :
      (serviceCalls up id v).countP (isReport c) = (dueCalls up id v).countP (isReport c) := by
    simp [serviceCalls, isReport]
  refine ⟨?_, ?_, ?_, ?_, ?_⟩
  · intro x hx
    rw [h.trace, serviceCalls] at hx
    rcases List.mem_append.mp hx with hx | hx
    · exact hv.noNone x hx
    rcases List.mem_cons.mp hx with rfl | hx
    · rfl
    cases x with
    | report f d =>
      obtain ⟨u, hu, call, hf⟩ := report_mem_dueCalls hx
      simpa [isReport] using hup u hu call _ hf
    | _ => rfl
  · intro c
    rw [h.reported, hv.reported, h.trace, List.countP_append, UInt32.ofNat_add]
  · intro c
    have hunserv := hv.unserviced c
    rw [outstanding_servicing h, UInt32.ofNat_add]
    simp only [Svc.unserviced, h.reported, h.serviced, hcount] at hunserv ⊢
    by_cases hc : c = id
    · subst hc
      simp only [Function.update_self, ↓reduceIte]
      grind
    · simp only [Function.update_of_ne hc, hc, ↓reduceIte, ← hunserv]
      grind
  · intro s
    rw [h.bySeverity, h.serviced, tierTotal_update]
    by_cases hs : (policy id).severity = s
    · subst hs
      simp only [Function.update_self, ↓reduceIte, hv.totals, Svc.unserviced]
    · simp only [Function.update_of_ne (Ne.symm hs), hs, ↓reduceIte, hv.totals]
  · intro c hc
    rw [h.trace, serviceCalls]
    refine (hv.escalated c hc).append (answered_cons.mpr ⟨?_, ?_⟩)
    · intro hx
      have hid : id = c := by simpa [isLogFault] using hx
      subst hid
      refine ⟨.escalate id (v.fdir.detail id), ?_, by simp [isEscalation]⟩
      have hdue : Due id v := .inl hc
      simp [dueCalls, hdue, escalateCalls]
    · exact answered_of_forall_not fun x hx => by simp [not_isLogFault_of_mem_dueCalls hx c]

theorem step (hv : Accounts v) {op : FaultOp} (h : Orderly v op) : Accounts (faultStep v op) := by
  cases op with
  | report id detail =>
    refine hv.reporting (reporting_report id detail v) ?_ ?_
    · intro x hx
      rw [List.mem_singleton.mp hx]
      exact beq_false_of_ne h
    · intro x hx c
      rw [List.mem_singleton.mp hx]
      rfl
  | clear id => exact hv.clear h
  | collect c =>
    obtain ⟨new, hnew, hall⟩ := platformReporting_collect c v
    refine hv.reporting hnew ?_ ?_
    · intro x hx
      obtain ⟨id, d, rfl, hid⟩ := hall x hx
      have hne : id ≠ .none := by
        rintro rfl
        simp at hid
      exact beq_false_of_ne hne
    · intro x hx _
      obtain ⟨id, d, rfl, -⟩ := hall x hx
      rfl
  | service up id =>
    by_cases hnew : v.unserviced id = 0
    · rwa [faultStep, serviceClass_of_eq hnew]
    · exact hv.servicing (serviceClass_of_ne up hnew) h.2
  | tick => exact ⟨hv.noNone, hv.reported, hv.unserviced, hv.totals, hv.escalated⟩

theorem of_along {ops : List FaultOp} (hv : Accounts v) (h : Along faultStep Orderly v ops) :
    Accounts (run faultStep v ops) :=
  @run_invariant _ _ faultStep Orderly Accounts (fun _ _ hv hok => hv.step hok) _ _ hv h

theorem outstanding_service (hv : Accounts v) {up : Option Uplink} {id : FaultId}
    (hquiet : ∀ u ∈ up, ∀ call, (u call).2 = []) (h : outstanding id v < 2 ^ 32) (c : FaultId) :
    outstanding c (serviceClass up v id) = if c = id then 0 else outstanding c v := by
  by_cases hnew : v.unserviced id = 0
  · rw [serviceClass_of_eq hnew]
    have hzero : outstanding id v = 0 := by
      have hmod := congrArg UInt32.toNat (hv.unserviced id)
      rw [hnew, UInt32.toNat_ofNat_of_lt' h] at hmod
      exact hmod.symm
    split
    · rename_i hc
      rw [hc, hzero]
    · rfl
  · have hnone : (dueCalls up id v).countP (isReport c) = 0 := by
      refine List.countP_eq_zero.mpr ?_
      intro x hx
      cases x with
      | report f d =>
        obtain ⟨u, hu, call, hf⟩ := report_mem_dueCalls hx
        simp [hquiet u hu call] at hf
      | _ => simp [isReport]
    rw [outstanding_servicing (serviceClass_of_ne up hnew), hnone, Nat.add_zero]

theorem outstanding_loop {up : Option Uplink} (hquiet : ∀ u ∈ up, ∀ call, (u call).2 = [])
    {ids : List FaultId} (hv : Accounts v) (h : Along faultStep Orderly v (ids.map (.service up)))
    {c : FaultId} (hc : c ∈ ids ∨ outstanding c v = 0) :
    outstanding c (run faultStep v (ids.map (.service up))) = 0 := by
  induction ids generalizing v with
  | nil => exact hc.resolve_left List.not_mem_nil
  | cons id ids ih =>
    obtain ⟨hid, hrest⟩ := h
    refine ih (hv.step hid) hrest ?_
    have hstep := hv.outstanding_service hquiet hid.1 c
    by_cases hcid : c = id
    · exact .inr (by rw [faultStep, hstep, if_pos hcid])
    · rcases hc with hc | hc
      · exact .inl ((List.mem_cons.mp hc).resolve_left hcid)
      · exact .inr (by rw [faultStep, hstep, if_neg hcid, hc])

end Accounts

/-- No reported fault is lost: a pass over an uplink that reports nothing itself leaves the
totals of every tier equal to the reports made, every report logged, and every report of a
severe class escalated, whatever happened before in whichever order. -/
theorem reports_accounted {ops : List FaultOp} {up : Option Uplink} {c : PlatformCounters}
    (hquiet : ∀ u ∈ up, ∀ call, (u call).2 = [])
    (h : Along faultStep Orderly {} (ops ++ pass up c)) :
    let v := errorHandlingService up c (run faultStep {} ops)
    (∀ s, v.fdir.bySeverity s = UInt32.ofNat (v.trace.countP (isTierReport s))) ∧
    ∀ id, Answered (isReport id · = true) (isLogFault id · = true) v.trace ∧
      ((policy id).severity = .severe →
        Answered (isReport id · = true) (isEscalation id · = true) v.trace) := by
  intro v
  have hv : v = run faultStep (run faultStep {} ops) (pass up c) := (run_pass up c _).symm
  clear_value v
  obtain ⟨hops, hpass⟩ := along_append.mp h
  have hbefore := Accounts.init.of_along hops
  have hafter : Accounts v := hv ▸ hbefore.of_along hpass
  have hzero (id : FaultId) : outstanding id v = 0 := by
    by_cases hid : id = .none
    · subst hid
      have hnone : v.trace.countP (isReport .none) = 0 :=
        List.countP_eq_zero.mpr fun x hx => by simp [hafter.noNone x hx]
      have hle : outstanding .none v ≤ v.trace.countP (isReport .none) := pending_le_countP _
      omega
    · rw [hv, pass, run_cons]
      exact (hbefore.step hpass.1).outstanding_loop hquiet hpass.2
        (.inl (FaultId.mem_serviced.mpr hid))
  have hlogged (id : FaultId) : Answered (isReport id · = true) (isLogFault id · = true) v.trace :=
    (pending_eq_zero fun x hx => isLogFault_of_isReport hx).mp (hzero id)
  refine ⟨?_, fun id => ⟨hlogged id, ?_⟩⟩
  · intro s
    have hserv : v.fdir.serviced = fun id => UInt32.ofNat (v.trace.countP (isReport id)) := by
      funext id
      have hid := hafter.unserviced id
      rw [hzero id, Svc.unserviced, hafter.reported id] at hid
      grind
    rw [hafter.totals, hserv, tierTotal_count]
  · intro hsev
    exact (hlogged id).trans (hafter.escalated id hsev)

theorem reports_accounted_overcurrent :
    let v := errorHandlingService none {} (run faultStep {} [.report .overcurrent 0])
    (∀ s, v.fdir.bySeverity s = UInt32.ofNat (v.trace.countP (isTierReport s))) ∧
    ∀ id, Answered (isReport id · = true) (isLogFault id · = true) v.trace ∧
      ((policy id).severity = .severe →
        Answered (isReport id · = true) (isEscalation id · = true) v.trace) :=
  reports_accounted (by simp) (by
    simp only [pass, FaultId.serviced, List.map_cons, List.map_nil, List.cons_append,
      List.nil_append, along_cons, along_nil, Orderly]
    simp only [Option.mem_def, reduceCtorEq, false_implies, implies_true, and_true, true_and]
    decide +kernel)

/-- A clear between the report and the pass loses the report: no total counts it, and no pass
logs or escalates it. -/
theorem cleared_report_lost :
    let v := errorHandlingService none {}
      (run faultStep {} [.report .overcurrent 0, .clear .overcurrent])
    v.trace.countP (isTierReport .severe) = 1 ∧ v.fdir.bySeverity .severe = 0 ∧
    ¬ Answered (isReport .overcurrent · = true) (isLogFault .overcurrent · = true) v.trace ∧
    ¬ Answered (isReport .overcurrent · = true) (isEscalation .overcurrent · = true) v.trace := by
  have htrace : (errorHandlingService none {} (run faultStep {}
      [.report .overcurrent 0, .clear .overcurrent])).trace =
      [.report .overcurrent 0, .clear .overcurrent] := by decide +kernel
  have hunanswered (q : SvcCall → Bool) (hq : q (.clear .overcurrent) = false) :
      ¬ Answered (isReport .overcurrent · = true) (q · = true)
        [.report .overcurrent 0, .clear .overcurrent] := by
    intro h
    obtain ⟨y, hy, hqy⟩ := h [] _ _ rfl rfl
    rw [List.mem_singleton.mp hy, hq] at hqy
    exact Bool.false_ne_true hqy
  refine ⟨by decide +kernel, by decide +kernel, ?_, ?_⟩
  · rw [htrace]
    exact hunanswered _ rfl
  · rw [htrace]
    exact hunanswered _ rfl

end QiranFirmware.Svc
