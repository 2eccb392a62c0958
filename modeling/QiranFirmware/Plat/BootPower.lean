import QiranFirmware.Plat.Boot
import QiranFirmware.Svc.FdirEscalation

/-! # When boot asks for a power cycle

During boot only the steps report classes that are escalated by a power cycle, each its own, and
one report a pass. So the count of a class is the number of its step's failed attempts, and one
more if the attempt that succeeds is late.
-/
namespace QiranFirmware.Boot

open Machine Svc SvcCall

def accepting : Uplink := fun _ => (.ok, [])

def isPowerRequest (c : FaultId) : SvcCall → Bool
  | .uplink (.requestPowerReset id) => id == c
  | _ => false

def Requested (v : Svc) : Prop := ∃ c, .uplink (.requestPowerReset c) ∈ v.trace

def CyclesPower (c : FaultId) : Prop := (policy c).escalation = .powerReset

instance (c : FaultId) : Decidable (CyclesPower c) := inferInstanceAs (Decidable (_ = _))

theorem CyclesPower.ne_none {c : FaultId} (h : CyclesPower c) : c ≠ .none := by
  rintro rfl
  exact absurd h (by decide)

theorem CyclesPower.not_platform {c : FaultId} (h : CyclesPower c) :
    c ∉ [FaultId.cycleOverrun, .uartRxOverflow, .irqOverflow] := by
  intro hmem
  revert h
  simp only [List.mem_cons, List.not_mem_nil, or_false] at hmem
  rcases hmem with rfl | rfl | rfl <;> decide

/-- A power cycle is requested as often as a class that asks for one is escalated, and only the
platform's classes are reported. -/
structure Plain (calls : List SvcCall) : Prop where
  requests : ∀ c, calls.countP (isPowerRequest c) =
    if CyclesPower c then calls.countP (isEscalation c) else 0
  reports : ∀ c, CyclesPower c → calls.countP (isReport c) = 0
  clears : ∀ x ∈ calls, ∀ c, x.isClear c = false

namespace Plain

theorem append {a b : List SvcCall} (ha : Plain a) (hb : Plain b) : Plain (a ++ b) where
  requests c := by
    rw [List.countP_append, List.countP_append, ha.requests, hb.requests]
    split <;> rfl
  reports c hc := by rw [List.countP_append, ha.reports c hc, hb.reports c hc]
  clears x hx := (List.mem_append.mp hx).elim (ha.clears x) (hb.clears x)

theorem nil : Plain [] := ⟨by simp, by simp, by simp⟩

theorem of_reports {calls : List SvcCall} (h : ∀ x ∈ calls, ∃ id d, x = .report id d ∧
    id ∈ [FaultId.cycleOverrun, .uartRxOverflow, .irqOverflow]) : Plain calls := by
  have hzero (p : SvcCall → Bool) (hp : ∀ id d, p (.report id d) = false) : calls.countP p = 0 := by
    refine List.countP_eq_zero.mpr ?_
    intro x hx
    obtain ⟨id, d, rfl, -⟩ := h x hx
    simp [hp]
  refine ⟨?_, ?_, ?_⟩
  · intro c
    rw [hzero (isPowerRequest c) fun _ _ => rfl, hzero (isEscalation c) fun _ _ => rfl]
    split <;> rfl
  · intro c hc
    refine List.countP_eq_zero.mpr ?_
    intro x hx
    obtain ⟨id, d, rfl, hid⟩ := h x hx
    have hne : id ≠ c := by
      rintro rfl
      exact hc.not_platform hid
    simp [isReport, hne]
  · intro x hx c
    obtain ⟨id, d, rfl, -⟩ := h x hx
    rfl

theorem escalate {id : FaultId} {detail : UInt32} {rest : List SvcCall}
    (hcalls : ∀ x ∈ rest, ∃ call, x = .uplink call)
    (hrest : ∀ c, rest.countP (isPowerRequest c) = if id = c ∧ CyclesPower c then 1 else 0) :
    Plain (.escalate id detail :: rest) where
  requests c := by
    have hnone : rest.countP (isEscalation c) = 0 := by
      refine List.countP_eq_zero.mpr ?_
      intro x hx
      obtain ⟨call, rfl⟩ := hcalls x hx
      exact Bool.false_ne_true
    rw [List.countP_cons_of_neg (by simp [isPowerRequest]), hrest]
    by_cases hc : id = c
    · simp [hc, isEscalation, hnone]
    · simp [hc, isEscalation, hnone]
  reports c _ := by
    refine List.countP_eq_zero.mpr ?_
    intro x hx
    rcases List.mem_cons.mp hx with rfl | hx
    · exact Bool.false_ne_true
    · obtain ⟨call, rfl⟩ := hcalls x hx
      exact Bool.false_ne_true
  clears x hx c := by
    rcases List.mem_cons.mp hx with rfl | hx
    · rfl
    · obtain ⟨call, rfl⟩ := hcalls x hx
      rfl

theorem serviceCalls (id : FaultId) (v : Svc) : Plain (serviceCalls (some accepting) id v) := by
  have hlog : Plain [.logFault id (policy id).severity (v.fdir.detail id)] := by
    refine ⟨?_, ?_, ?_⟩ <;> simp [isPowerRequest, isEscalation, isReport, isClear]
  have hescalate : Plain (escalateCalls (some accepting) id (v.fdir.detail id)) := by
    have hnot (h : (policy id).escalation ≠ .powerReset) (c : FaultId) :
        ¬ (id = c ∧ CyclesPower c) := by
      rintro ⟨rfl, hc⟩
      exact h hc
    cases he : (policy id).escalation with
    | report =>
      simp only [escalateCalls, he, deliverCalls, accepting, List.map_nil]
      exact escalate (by simp) fun c => by simp [isPowerRequest, hnot (by simp [he]) c]
    | powerReset =>
      simp only [escalateCalls, he, deliverCalls, accepting, List.map_nil]
      refine escalate (by simp) ?_
      intro c
      by_cases hc : id = c
      · subst hc
        simp [isPowerRequest, CyclesPower, he]
      · simp [isPowerRequest, hc]
    | logOnly =>
      simp only [escalateCalls, he]
      exact escalate (by simp) fun c => by simp [hnot (by simp [he]) c]
  rw [Svc.serviceCalls, ← List.singleton_append, dueCalls]
  refine hlog.append ?_
  split
  · exact hescalate
  · exact nil

theorem loop (ids : List FaultId) (v : Svc) :
    ∃ new, (ids.foldl (serviceClass (some accepting)) v).trace = v.trace ++ new ∧ Plain new := by
  induction ids generalizing v with
  | nil => exact ⟨[], by simp, nil⟩
  | cons id ids ih =>
    obtain ⟨rest, hrest, hplain⟩ := ih (serviceClass (some accepting) v id)
    by_cases hnew : v.unserviced id = 0
    · rw [serviceClass_of_eq hnew] at hrest
      exact ⟨rest, by rw [List.foldl_cons, serviceClass_of_eq hnew, hrest], hplain⟩
    · refine ⟨Svc.serviceCalls (some accepting) id v ++ rest, ?_, (serviceCalls id v).append hplain⟩
      rw [List.foldl_cons, hrest, (serviceClass_of_ne _ hnew).trace, List.append_assoc]

theorem pass (pc : PlatformCounters) (v : Svc) :
    ∃ new, (errorHandlingService (some accepting) pc v).trace = v.trace ++ new ∧ Plain new := by
  obtain ⟨a, ha, hreports⟩ := platformReporting_collect pc v
  obtain ⟨b, hb, hplain⟩ := loop FaultId.serviced (collectPlatformCounters pc v)
  refine ⟨a ++ b, ?_, (of_reports hreports).append hplain⟩
  rw [errorHandlingService, hb, ha.trace, List.append_assoc]

end Plain

structure Level (c : FaultId) (n : ℕ) (v : Svc) : Prop where
  standing : Standing c n v
  reports : since c v.trace = n
  escalations : v.trace.countP (isEscalation c) = if n ≠ 0 ∧ (policy c).limit.toNat ≤ n then 1 else 0

variable {c f : FaultId} {n : ℕ} {v w : Svc}

theorem Level.init (c : FaultId) {rawTick : UInt32} {log : Log} {time : Time} :
    Level c 0 { rawTick, log, time } := by
  have h := Standing.init c
  exact ⟨⟨h.le, h.unserviced, h.occurrences, h.elevated, h.escalations⟩, rfl, by simp⟩

/-- Steps that neither report nor service a class leave it where it was. -/
theorem Level.quiet (h : Level c n v) (hw : Reporting [] v w) : Level c n w where
  standing := h.standing.apart (.of_reporting hw (by simp))
  reports := by rw [hw.trace, List.append_nil, h.reports]
  escalations := by rw [hw.trace, List.append_nil, h.escalations]

theorem Level.exhausted (h : Level c n v) (hlimit : (policy c).limit ≠ 0) (hlt : n < 2 ^ 32) :
    v.retriesExhausted c = true ↔ (policy c).limit.toNat ≤ n := by
  rw [retriesExhausted_iff, h.standing.count, h.reports, UInt32.le_iff_toNat_le,
    UInt32.toNat_ofNat_of_lt' hlt, UInt16.toNat_toUInt32]
  exact and_iff_right hlimit

/-- A pass finds what has been reported of a class, and reports nothing of it. -/
theorem Standing.found {m : ℕ} (h : Standing c n v) (hc : CyclesPower c) (hm : since c v.trace = m)
    (hlt : m < 2 ^ 32) (pc : PlatformCounters) :
    Standing c m (errorHandlingService (some accepting) pc v) ∧
    since c (errorHandlingService (some accepting) pc v).trace = m ∧
    (errorHandlingService (some accepting) pc v).trace.countP (isEscalation c) =
      v.trace.countP (isEscalation c) + escalationsFor c n m := by
  obtain ⟨calls, htrace, hplain⟩ := Plain.pass pc v
  have hafter : since c (errorHandlingService (some accepting) pc v).trace = m := by
    have hgrow := pending_append_of_forall_not (p := isReport c) (s := v.trace)
      fun x hx => hplain.clears x hx c
    rw [hplain.reports c hc, Nat.add_zero] at hgrow
    rw [htrace]
    exact hgrow.trans hm
  obtain ⟨hbefore, hthen⟩ := since_examined hc.ne_none (some accepting) pc v
  have hfound : since c (examined (some accepting) pc c v).trace = m := by omega
  have hlt : since c (errorHandlingService (some accepting) pc v).trace < 2 ^ 32 := by omega
  obtain ⟨hstanding, new, hnew, -, hesc⟩ := h.pass hc.ne_none hlt
  rw [hfound] at hstanding hesc
  refine ⟨hstanding, hafter, ?_⟩
  rw [hnew, List.countP_append, hesc]

/-- A report and the pass after it. -/
theorem Level.attempt (h : Level c n v) (hc : CyclesPower c) (hf : c = f → (policy c).severity = .critical)
    (hlt : n + 1 < 2 ^ 32) (detail : UInt32) (pc : PlatformCounters) :
    Level c (if c = f then n + 1 else n)
      ((v.report f detail).errorHandlingService (some accepting) pc) := by
  have hreport : Apart c [.report f detail] v (v.report f detail) := .report f detail v
  have hsince : since c (v.report f detail).trace = if c = f then n + 1 else n := by
    rw [hreport.since, h.reports]
    by_cases hcf : c = f
    · simp [hcf, isReport]
    · simp [hcf, isReport, Ne.symm hcf]
  obtain ⟨hstanding, hafter, hesc⟩ := Standing.found (h.standing.apart hreport) hc hsince
    (by split <;> omega) pc
  refine ⟨hstanding, hafter, ?_⟩
  rw [hesc, hreport.trace, List.countP_append, h.escalations, hreport.countP_isEscalation]
  by_cases hcf : c = f
  · have hcritical := hf hcf
    have hlimit := Standing.not_limit_le_zero hcritical
    simp only [hcf, if_true] at *
    rw [escalationsFor, hcritical]
    dsimp only
    split_ifs <;> omega
  · simp only [if_neg hcf, escalationsFor_self, Nat.add_zero]

structure Levels (count : FaultId → ℕ) (v : Svc) : Prop where
  level : ∀ c, CyclesPower c → Level c (count c) v
  requests : ∀ c, v.trace.countP (isPowerRequest c) =
    if CyclesPower c then v.trace.countP (isEscalation c) else 0
  le : ∀ c, CyclesPower c → count c ≤ (policy c).limit.toNat

namespace Levels
variable {count : FaultId → ℕ}

theorem init {rawTick : UInt32} {log : Log} {time : Time} :
    Levels (fun _ => 0) { rawTick, log, time } where
  level c _ := .init c
  requests c := by simp
  le _ _ := Nat.zero_le _

theorem quiet (h : Levels count v) (hw : Reporting [] v w) : Levels count w where
  level c hc := (h.level c hc).quiet hw
  requests c := by rw [hw.trace, List.append_nil, h.requests]
  le := h.le

theorem attempt (h : Levels count v)
    (hf : CyclesPower f → (policy f).severity = .critical ∧ count f < (policy f).limit.toNat)
    (detail : UInt32) (pc : PlatformCounters) :
    Levels (Function.update count f (count f + 1))
      ((v.report f detail).errorHandlingService (some accepting) pc) where
  level c hc := by
    have hlimit : (policy c).limit.toNat < 65536 := (policy c).limit.toNat_lt
    have hle := h.le c hc
    have hc' := (h.level c hc).attempt hc (f := f) (by rintro rfl; exact (hf hc).1) (by omega) detail pc
    by_cases hcf : c = f
    · subst hcf
      simpa using hc'
    · simpa [hcf] using hc'
  requests c := by
    obtain ⟨calls, htrace, hplain⟩ := Plain.pass pc (v.report f detail)
    have hreport : (v.report f detail).trace = v.trace ++ [.report f detail] := rfl
    rw [htrace, List.countP_append, hplain.requests, hreport]
    simp only [List.countP_append, h.requests, List.countP_singleton, isPowerRequest, isEscalation]
    split <;> simp
  le c hc := by
    by_cases hcf : c = f
    · subst hcf
      rw [Function.update_self]
      exact (hf hc).2
    · rw [Function.update_of_ne hcf]
      exact h.le c hc

theorem requested_iff (h : Levels count v) :
    Requested v ↔ ∃ c, CyclesPower c ∧ count c ≠ 0 ∧ (policy c).limit.toNat ≤ count c := by
  have hmem (c : FaultId) : .uplink (.requestPowerReset c) ∈ v.trace ↔
      0 < v.trace.countP (isPowerRequest c) := by
    rw [List.countP_pos_iff]
    constructor
    · intro hx
      exact ⟨_, hx, by simp [isPowerRequest]⟩
    · rintro ⟨x, hx, hc⟩
      unfold isPowerRequest at hc
      split at hc
      · rename_i id
        rwa [← beq_iff_eq.mp hc]
      · simp at hc
  refine exists_congr fun c => ?_
  rw [hmem, h.requests]
  by_cases hc : CyclesPower c
  · rw [if_pos hc, (h.level c hc).escalations, and_iff_right hc]
    split
    · rename_i hreset
      exact iff_of_true Nat.one_pos hreset
    · rename_i hreset
      exact iff_of_false (Nat.lt_irrefl 0) hreset
  · simp [hc]

end Levels

theorem reporting_elapse (ticks : UInt32) (v : Svc) : Reporting [] v (elapse ticks v) := by
  constructor <;> simp [elapse]

theorem elapsed_eq (ticks : UInt32) (v : Svc) :
    (elapse ticks v.collectTime).nowMs - v.nowMs = ticks.toUInt64 * minorCycleMs := by
  have hraw : v.rawTick + ticks - v.rawTick = ticks := by grind
  simp only [elapse, Svc.nowMs, Svc.collectTime, Time.nowMs, Time.collect, hraw]
  grind

def elapsedMs (a : Attempt) : UInt32 := (a.ticks.toUInt64 * minorCycleMs).toUInt32

section Steps
variable (env : BootStep → ℕ → Attempt) (up : Option Uplink) {s : BootStep} {t : UInt64}
  {fuel k : ℕ} {r : BootReport}

def Late (s : BootStep) (k : ℕ) : Prop := s.budgetMs < elapsedMs (env s k)

instance (s : BootStep) (k : ℕ) : Decidable (Late env s k) := inferInstanceAs (Decidable (_ < _))

theorem retry_ok (hok : (env s k).status = .ok) (r : BootReport) (v : Svc) :
    ∃ r' u w, retry env up s t (fuel + 1) k r v = some (true, r', w) ∧
      r'.outcome = r.outcome ∧ r'.failedStep = r.failedStep ∧ Reporting [] v u ∧
      Reporting [] (if Late env s k then
        (u.report s.fault (elapsedMs (env s k))).errorHandlingService up (env s k).counters else u) w := by
  have helapsed := elapsed_eq (env s k).ticks v
  have hu : Reporting [] v (elapse (env s k).ticks v.collectTime).collectTime.collectTime := by
    have h₁ := (reporting_collectTime v).trans_nil (reporting_elapse (env s k).ticks v.collectTime)
    exact (h₁.trans_nil (reporting_collectTime _)).trans_nil (reporting_collectTime _)
  rw [retry]
  simp only [hok, if_true, helapsed, decide_eq_true_eq]
  refine ⟨_, _, _, rfl, rfl, rfl, hu, ?_⟩
  exact reporting_elapse _ _

/-- After a failed attempt, its report and the pass, the step is given up or tried again. -/
theorem retry_failed (hfail : (env s k).status ≠ .ok) (r : BootReport) (v : Svc) :
    ∃ u p, Reporting [] v u ∧
      p = (u.report s.fault (env s k).status.code).errorHandlingService up (env s k).counters ∧
      (s.retryable = false ∨ p.retriesExhausted s.fault = true →
        ∃ r' w, retry env up s t (fuel + 1) k r v = some (false, r', w) ∧
          r'.outcome = r.outcome ∧ r'.failedStep = some s ∧ Reporting [] p w) ∧
      (¬ (s.retryable = false ∨ p.retriesExhausted s.fault = true) →
        ∃ r' w, retry env up s t (fuel + 1) k r v = retry env up s t fuel (k + 1) r' w ∧
          r'.outcome = r.outcome ∧ r'.failedStep = r.failedStep ∧ Reporting [] p w) := by
  have hu : Reporting [] v (elapse (env s k).ticks v.collectTime).collectTime :=
    ((reporting_collectTime v).trans_nil (reporting_elapse (env s k).ticks v.collectTime)).trans_nil
      (reporting_collectTime _)
  refine ⟨_, _, hu, rfl, ?_, ?_⟩
  · intro hend
    rw [retry]
    simp only [hfail, if_false]
    rw [if_pos hend]
    exact ⟨_, _, rfl, rfl, rfl, (reporting_collectTime _).trans_nil (reporting_elapse _ _)⟩
  · intro hagain
    rw [retry]
    simp only [hfail, if_false]
    rw [if_neg hagain]
    exact ⟨_, _, rfl, rfl, rfl, reporting_elapse _ _⟩

end Steps

def limit (s : BootStep) : ℕ := (policy s.fault).limit.toNat

variable (env : BootStep → ℕ → Attempt)

def Spent (s : BootStep) : Prop := ∀ j < limit s, (env s j).status ≠ .ok

def LateLast (s : BootStep) : Prop :=
  (∀ j < limit s - 1, (env s j).status ≠ .ok) ∧ (env s (limit s - 1)).status = .ok ∧
    Late env s (limit s - 1)

theorem cyclesPower_of_retryable {s : BootStep} (h : s.retryable = true) :
    CyclesPower s.fault ∧ (policy s.fault).severity = .critical ∧ (policy s.fault).limit ≠ 0 := by
  cases s <;> revert h <;> decide

variable {env} {s : BootStep} {t : UInt64} {fuel k : ℕ} {count : FaultId → ℕ} {r : BootReport}

theorem passed_spec (hok : (env s k).status = .ok) (hv : Levels count v) (hcount : count s.fault = k)
    (hs : s.retryable = true) (hk : k < limit s) (hbefore : ∀ j < k, (env s j).status ≠ .ok) :
    ∃ passed r' w n, retry env (some accepting) s t (fuel + 1) k r v = some (passed, r', w) ∧
      (passed = false ↔ Spent env s) ∧ r'.outcome = r.outcome ∧
      r'.failedStep = (if passed then r.failedStep else some s) ∧
      Levels (Function.update count s.fault n) w ∧
      (limit s ≤ n ↔ Spent env s ∨ LateLast env s) := by
  obtain ⟨hpower, hcritical, -⟩ := cyclesPower_of_retryable hs
  have hspent : ¬ Spent env s := fun h => h k hk hok
  obtain ⟨r', u, w, hretry, houtcome, hfailed, hu, hw⟩ := retry_ok env (some accepting) hok r v
  have hlast (h : LateLast env s) : k = limit s - 1 := by
    by_contra hne
    exact h.1 k (by omega) hok
  by_cases hlate : Late env s k
  · rw [if_pos hlate] at hw
    refine ⟨true, r', w, k + 1, hretry, by simp [hspent], houtcome, hfailed, ?_, ?_⟩
    · have hstep := (hv.quiet hu).attempt (f := s.fault) (fun _ => ⟨hcritical, hcount ▸ hk⟩)
        (elapsedMs (env s k)) (env s k).counters
      rw [hcount] at hstep
      exact hstep.quiet hw
    · rw [or_iff_right hspent]
      constructor
      · intro hle
        obtain rfl : k = limit s - 1 := by omega
        exact ⟨hbefore, hok, hlate⟩
      · intro h
        have hk' := hlast h
        omega
  · rw [if_neg hlate] at hw
    refine ⟨true, r', w, k, hretry, by simp [hspent], houtcome, hfailed, ?_, ?_⟩
    · rw [← hcount, Function.update_eq_self]
      exact (hv.quiet hu).quiet hw
    · rw [or_iff_right hspent]
      refine iff_of_false (by omega) ?_
      intro h
      exact hlate (hlast h ▸ h.2.2)

theorem failed_spec (hfail : (env s k).status ≠ .ok) (hv : Levels count v) (hcount : count s.fault = k)
    (hs : s.retryable = true) (hk : k < limit s) (r : BootReport) :
    (k + 1 = limit s → ∃ r' w, retry env (some accepting) s t (fuel + 1) k r v = some (false, r', w) ∧
      r'.outcome = r.outcome ∧ r'.failedStep = some s ∧
      Levels (Function.update count s.fault (k + 1)) w) ∧
    (k + 1 < limit s → ∃ r' w, retry env (some accepting) s t (fuel + 1) k r v =
        retry env (some accepting) s t fuel (k + 1) r' w ∧
      r'.outcome = r.outcome ∧ r'.failedStep = r.failedStep ∧
      Levels (Function.update count s.fault (k + 1)) w) := by
  obtain ⟨hpower, hcritical, hlimit⟩ := cyclesPower_of_retryable hs
  obtain ⟨u, p, hu, hp, hend, hagain⟩ := retry_failed env (some accepting) hfail r v
  have hstep := (hv.quiet hu).attempt (f := s.fault) (fun _ => ⟨hcritical, hcount ▸ hk⟩)
    (env s k).status.code (env s k).counters
  rw [hcount, ← hp] at hstep
  have hexhausted : p.retriesExhausted s.fault = true ↔ limit s ≤ k + 1 := by
    have hlt : limit s < 65536 := (policy s.fault).limit.toNat_lt
    have hlevel := hstep.level s.fault hpower
    rw [Function.update_self] at hlevel
    exact hlevel.exhausted hlimit (by omega)
  constructor
  · intro hlast
    obtain ⟨r', w, hretry, houtcome, hfailed, hw⟩ := hend (.inr (hexhausted.mpr hlast.ge))
    exact ⟨r', w, hretry, houtcome, hfailed, hstep.quiet hw⟩
  · intro hmore
    have hnot : ¬ (s.retryable = false ∨ p.retriesExhausted s.fault = true) := by
      rw [hexhausted, hs]
      simpa using hmore
    obtain ⟨r', w, hretry, houtcome, hfailed, hw⟩ := hagain hnot
    exact ⟨r', w, hretry, houtcome, hfailed, hstep.quiet hw⟩

/-- The loop of a retryable step ends within its limit, given up if every attempt failed, and its
class has reached the limit then, or if the last attempt allowed succeeded late. -/
theorem retry_spec (hs : s.retryable = true) (m : ℕ) (hk : k + (m + 1) = limit s) (hfuel : m < fuel)
    (hv : Levels count v) (hcount : count s.fault = k) (hbefore : ∀ j < k, (env s j).status ≠ .ok) :
    ∃ passed r' w n, retry env (some accepting) s t fuel k r v = some (passed, r', w) ∧
      (passed = false ↔ Spent env s) ∧ r'.outcome = r.outcome ∧
      r'.failedStep = (if passed then r.failedStep else some s) ∧
      Levels (Function.update count s.fault n) w ∧
      (limit s ≤ n ↔ Spent env s ∨ LateLast env s) := by
  induction m generalizing fuel k count r v with
  | zero =>
    obtain ⟨fuel, rfl⟩ := Nat.exists_eq_succ_of_ne_zero (Nat.ne_of_gt hfuel)
    by_cases hok : (env s k).status = .ok
    · exact passed_spec hok hv hcount hs (by omega) hbefore
    · obtain ⟨r', w, hretry, houtcome, hfailed, hw⟩ := (failed_spec hok hv hcount hs (by omega) r).1 hk
      have hspent : Spent env s := by
        intro j hj
        rcases Nat.lt_or_eq_of_le (show j ≤ k by omega) with hlt | rfl
        · exact hbefore j hlt
        · exact hok
      exact ⟨false, r', w, k + 1, hretry, iff_of_true rfl hspent, houtcome, hfailed, hw,
        iff_of_true hk.ge (.inl hspent)⟩
  | succ m ih =>
    obtain ⟨fuel, rfl⟩ := Nat.exists_eq_succ_of_ne_zero (Nat.ne_of_gt (Nat.zero_lt_of_lt hfuel))
    by_cases hok : (env s k).status = .ok
    · exact passed_spec hok hv hcount hs (by omega) hbefore
    · obtain ⟨r₁, w₁, hretry, houtcome, hfailed, hw⟩ :=
        (failed_spec hok hv hcount hs (by omega) r).2 (by omega)
      have hbefore' : ∀ j < k + 1, (env s j).status ≠ .ok := by
        intro j hj
        rcases Nat.lt_or_eq_of_le (Nat.le_of_lt_succ hj) with hlt | rfl
        · exact hbefore j hlt
        · exact hok
      obtain ⟨passed, r', w, n, hrest, hpassed, hout, hstep, hlevels, hn⟩ :=
        ih (by omega) (Nat.lt_of_succ_lt_succ hfuel) hw (Function.update_self ..) hbefore'
      rw [Function.update_idem] at hlevels
      refine ⟨passed, r', w, n, hretry.trans hrest, hpassed, hout.trans houtcome, ?_, hlevels, hn⟩
      rw [hstep, hfailed]

theorem not_cyclesPower_of_not_retryable (h : s.retryable = false) : ¬ CyclesPower s.fault := by
  cases s <;> revert h <;> decide

theorem Levels.congr {count' : FaultId → ℕ} (h : Levels count v)
    (hcount : ∀ c, CyclesPower c → count' c = count c) : Levels count' v where
  level c hc := by
    rw [hcount c hc]
    exact h.level c hc
  requests := h.requests
  le c hc := by
    rw [hcount c hc]
    exact h.le c hc

/-- A step with no tolerance is given up at its first failure, and asks for nothing. -/
theorem single_spec (hs : s.retryable = false) (hv : Levels count v) :
    ∃ passed r' w, retry env (some accepting) s t (fuel + 1) 0 r v = some (passed, r', w) ∧
      (passed = false ↔ (env s 0).status ≠ .ok) ∧ r'.outcome = r.outcome ∧
      r'.failedStep = (if passed then r.failedStep else some s) ∧ Levels count w := by
  have hpower := not_cyclesPower_of_not_retryable hs
  have hreport {u : Svc} (hu : Levels count u) (detail : UInt32) (pc : PlatformCounters) :
      Levels count ((u.report s.fault detail).errorHandlingService (some accepting) pc) := by
    refine (hu.attempt (f := s.fault) (fun h => absurd h hpower) detail pc).congr ?_
    intro c hc
    rw [Function.update_of_ne]
    rintro rfl
    exact hpower hc
  by_cases hok : (env s 0).status = .ok
  · obtain ⟨r', u, w, hretry, houtcome, hfailed, hu, hw⟩ := retry_ok env (some accepting) hok r v
    refine ⟨true, r', w, hretry, by simp [hok], houtcome, hfailed, ?_⟩
    split at hw
    · exact (hreport (hv.quiet hu) _ _).quiet hw
    · exact (hv.quiet hu).quiet hw
  · obtain ⟨u, p, hu, hp, hend, -⟩ := retry_failed env (some accepting) hok r v
    obtain ⟨r', w, hretry, houtcome, hfailed, hw⟩ := hend (.inl hs)
    rw [hp] at hw
    exact ⟨false, r', w, hretry, by simp [hok], houtcome, hfailed, (hreport (hv.quiet hu) _ _).quiet hw⟩

variable (env) in
def GivenUp (s : BootStep) : Prop :=
  if s.retryable then Spent env s else (env s 0).status ≠ .ok

def Reached (count : FaultId → ℕ) : Prop :=
  ∃ c, CyclesPower c ∧ count c ≠ 0 ∧ (policy c).limit.toNat ≤ count c

theorem reached_update (hf : CyclesPower f) (hlimit : (policy f).limit ≠ 0) (hcount : count f = 0) :
    Reached (Function.update count f n) ↔ Reached count ∨ (policy f).limit.toNat ≤ n := by
  constructor
  · rintro ⟨c, hc, hne, hle⟩
    by_cases hcf : c = f
    · subst hcf
      rw [Function.update_self] at hle
      exact .inr hle
    · rw [Function.update_of_ne hcf] at hne hle
      exact .inl ⟨c, hc, hne, hle⟩
  · rintro (⟨c, hc, hne, hle⟩ | hle)
    · have hcf : c ≠ f := by
        rintro rfl
        exact hne hcount
      exact ⟨c, hc, by rwa [Function.update_of_ne hcf], by rwa [Function.update_of_ne hcf]⟩
    · rw [ne_eq, ← UInt16.toNat_inj] at hlimit
      refine ⟨f, hf, ?_, ?_⟩
      · rw [Function.update_self]
        rintro rfl
        exact hlimit (Nat.le_zero.mp hle)
      · rwa [Function.update_self]

theorem runStep_spec (hfuel : 3 ≤ fuel) (hv : Levels count v) (hcount : count s.fault = 0) :
    ∃ passed r' w count', runStep env (some accepting) fuel s r v = some (passed, r', w) ∧
      (passed = false ↔ GivenUp env s) ∧ r'.outcome = r.outcome ∧
      r'.failedStep = (if passed then r.failedStep else some s) ∧
      Levels count' w ∧ (∀ c, c ≠ s.fault → count' c = count c) ∧
      (Reached count' ↔ Reached count ∨ s.retryable = true ∧ (Spent env s ∨ LateLast env s)) := by
  have hquiet := hv.quiet (reporting_collectTime v)
  obtain ⟨fuel, rfl⟩ := Nat.exists_eq_add_of_le' (show 1 ≤ fuel by omega)
  cases hs : s.retryable with
  | false =>
    obtain ⟨passed, r', w, hretry, hpassed, houtcome, hfailed, hw⟩ :=
      @single_spec _ env s v.nowMs fuel count r hs hquiet
    refine ⟨passed, r', w, count, hretry, ?_, houtcome, hfailed, hw, fun _ _ => rfl, by simp⟩
    rw [hpassed, GivenUp, hs]
    rfl
  | true =>
    obtain ⟨hpower, -, hlimit⟩ := cyclesPower_of_retryable hs
    have hthree : limit s = 3 := by cases s <;> revert hs <;> decide
    obtain ⟨passed, r', w, n, hretry, hpassed, houtcome, hfailed, hw, hn⟩ :=
      @retry_spec _ env s v.nowMs (fuel + 1) 0 count r hs 2 (by omega) (by omega) hquiet hcount (by simp)
    refine ⟨passed, r', w, _, hretry, ?_, houtcome, hfailed, hw,
      fun c hc => Function.update_of_ne hc .., ?_⟩
    · rw [hpassed, GivenUp, hs]
      rfl
    · rw [reached_update hpower hlimit hcount, and_iff_right rfl]
      exact or_congr_right hn

/-- How the boot from these steps on ends, and whether a power cycle was requested by then: it was
if some class had reached its limit before, if the step it ends at was given up after its
retries, or if a step before that was late at its last attempt. -/
def Ends (env : BootStep → ℕ → Attempt) (steps : List BootStep) (count : FaultId → ℕ)
    (r : BootReport) (w : Svc) : Prop :=
  (r.outcome = .success ∧ (∀ s ∈ steps, ¬ GivenUp env s) ∧
    (Requested w ↔ Reached count ∨ ∃ s ∈ steps, s.retryable = true ∧ LateLast env s)) ∨
  ∃ pre s post, steps = pre ++ s :: post ∧ r.outcome = .terminal ∧ r.failedStep = some s ∧
    GivenUp env s ∧ (Requested w ↔ Reached count ∨ s.retryable = true ∨
      ∃ p ∈ pre, p.retryable = true ∧ LateLast env p)

theorem requested_of_reporting {new : List SvcCall} (h : Reporting new v w)
    (hnew : ∀ c, .uplink (.requestPowerReset c) ∉ new) : Requested w ↔ Requested v := by
  refine exists_congr fun c => ?_
  rw [h.trace, List.mem_append, or_iff_left (hnew c)]

theorem requested_clear (id : FaultId) (v : Svc) : Requested (v.clear id) ↔ Requested v := by
  refine exists_congr fun c => ?_
  simp [Svc.clear]

theorem requested_clears (steps : List BootStep) (v : Svc) :
    Requested (steps.foldl (fun v s => v.clear s.fault) v) ↔ Requested v := by
  induction steps generalizing v with
  | nil => exact Iff.rfl
  | cons s steps ih => exact (ih _).trans (requested_clear s.fault v)

theorem fault_inj {a b : BootStep} (h : a.fault = b.fault) : a = b := by
  cases a <;> cases b <;> first | rfl | exact absurd h (by decide)

theorem spent_of_givenUp (h : GivenUp env s) (hs : s.retryable = true) : Spent env s := by
  rwa [GivenUp, hs] at h

theorem givenUp_of_spent (h : Spent env s) (hs : s.retryable = true) : GivenUp env s := by
  rwa [GivenUp, hs]

theorem bootSteps_spec {started : UInt64} (hfuel : 3 ≤ fuel) {steps : List BootStep}
    (hsteps : steps.Nodup) (hv : Levels count v) (hcount : ∀ s ∈ steps, count s.fault = 0) :
    ∃ st r' w, bootSteps env (some accepting) fuel started steps r v = some (st, r', w) ∧
      Ends env steps count r' w := by
  induction steps generalizing count r v with
  | nil =>
    refine ⟨_, _, _, rfl, .inl ⟨rfl, by simp, ?_⟩⟩
    rw [requested_clears, requested_of_reporting (reporting_collectTime v) (by simp), hv.requested_iff]
    simp [Reached]
  | cons s steps ih =>
    obtain ⟨hnot, hsteps⟩ := List.nodup_cons.mp hsteps
    obtain ⟨passed, r₁, w₁, count', hrun, hpassed, houtcome, hfailed, hlevels, hsame, hreached⟩ :=
      @runStep_spec v env s fuel count r hfuel hv (hcount s (by simp))
    cases passed with
    | true =>
      have hgo : ¬ GivenUp env s := by simpa using hpassed
      have hkeep : s.retryable = true ∧ (Spent env s ∨ LateLast env s) ↔
          s.retryable = true ∧ LateLast env s :=
        and_congr_right fun hs => or_iff_right fun h => hgo (givenUp_of_spent h hs)
      rw [hkeep] at hreached
      have hfresh : ∀ a ∈ steps, count' a.fault = 0 := by
        intro a ha
        rw [hsame _ fun h => hnot (fault_inj h ▸ ha)]
        exact hcount a (by simp [ha])
      obtain ⟨st, r', w, hrest, hends⟩ := ih hsteps hlevels hfresh (r := r₁)
      refine ⟨st, r', w, ?_, ?_⟩
      · rw [bootSteps, hrun]
        exact hrest
      rcases hends with ⟨hout, hall, hreq⟩ | ⟨pre, a, post, rfl, hout, hat, hup, hreq⟩
      · refine .inl ⟨hout, ?_, ?_⟩
        · intro a ha
          rcases List.mem_cons.mp ha with rfl | ha
          · exact hgo
          · exact hall a ha
        · rw [hreq, hreached, or_assoc, List.exists_mem_cons_iff]
      · refine .inr ⟨s :: pre, a, post, rfl, hout, hat, hup, ?_⟩
        rw [hreq, hreached, List.exists_mem_cons_iff, or_assoc]
        exact or_congr_right or_left_comm
    | false =>
      have hup : GivenUp env s := hpassed.mp rfl
      refine ⟨.errHardware, { r₁ with
        outcome := .terminal, totalMs := (w₁.nowMs - started).toUInt32 }, _, by rw [bootSteps, hrun],
        .inr ⟨[], s, steps, rfl, rfl, hfailed, hup, ?_⟩⟩
      have hlog := (reporting_collectTime w₁).trans (reporting_logEvent FaultId.devinit.code
        (w₁.nowMs - started).toUInt32 w₁.collectTime)
      rw [requested_of_reporting hlog (by simp), hlevels.requested_iff]
      have hkeep : s.retryable = true ∧ (Spent env s ∨ LateLast env s) ↔ s.retryable = true :=
        and_iff_left_of_imp fun hs => .inl (spent_of_givenUp hup hs)
      rw [hkeep] at hreached
      exact hreached.trans (by simp)

/-- A power cycle is requested exactly when boot ends at a step that was retried, and never by a
boot that ends in success. -/
def Honest (r : BootReport) (w : Svc) : Prop :=
  (Requested w ↔ r.outcome = .terminal ∧ ∃ s, r.failedStep = some s ∧ s.retryable = true) ∧
    (r.outcome = .success → ¬ Requested w)

/-- Boot ends, and it is honest about the power cycle unless it gets past every step and some
retryable step succeeded at its last attempt but too late: that report brings the class to its
limit. -/
theorem honest_iff (env : BootStep → ℕ → Attempt) (rawTick : UInt32) (log : Log) (time : Time)
    (fuel : ℕ) : ∃ st r w,
      bootAndInit env (some accepting) (fuel + 3) { rawTick, log, time } = some (st, r, w) ∧
      (Honest r w ↔ (env .safeOutputs 0).status ≠ .ok ∨
        (∃ s, s.retryable = true ∧ Spent env s) ∨ ∀ s, s.retryable = true → ¬ LateLast env s) := by
  obtain ⟨st, r, w, hboot, hends⟩ := @bootSteps_spec _ env (fuel + 3) (fun _ => 0) {}
    { rawTick, log, time : Svc }.nowMs (Nat.le_add_left 3 fuel) BootStep.all (by decide)
    (Levels.init.quiet (reporting_collectTime { rawTick, log, time })) (by simp)
  refine ⟨st, r, w, hboot, ?_⟩
  have hnone : ¬ Reached fun _ => 0 := fun ⟨c, hc, hne, _⟩ => hne rfl
  have hsafe : GivenUp env .safeOutputs ↔ (env .safeOutputs 0).status ≠ .ok := Iff.rfl
  have hall (s : BootStep) : s ∈ BootStep.all := by cases s <;> decide
  rcases hends with ⟨hout, hpassed, hreq⟩ | ⟨pre, s, post, hsplit, hout, hat, hup, hreq⟩
  · rw [or_iff_right hnone] at hreq
    have hhonest : Honest r w ↔ ¬ Requested w := by
      rw [Honest, hout]
      simp
    have hfirst : ¬ (env .safeOutputs 0).status ≠ .ok := hsafe.not.mp (hpassed _ (hall _))
    have hspent : ¬ ∃ s, s.retryable = true ∧ Spent env s := by
      rintro ⟨s, hs, h⟩
      exact hpassed s (hall s) (givenUp_of_spent h hs)
    rw [hhonest, hreq, or_iff_right hfirst, or_iff_right hspent]
    constructor
    · intro h s hs hlate
      exact h ⟨s, hall s, hs, hlate⟩
    · rintro h ⟨s, -, hs, hlate⟩
      exact h s hs hlate
  · rw [or_iff_right hnone] at hreq
    cases hs : s.retryable with
    | true =>
      rw [hs] at hreq
      refine iff_of_true ⟨?_, ?_⟩ (.inr (.inl ⟨s, hs, spent_of_givenUp hup hs⟩))
      · exact iff_of_true (hreq.mpr (.inl rfl)) ⟨hout, s, hat, hs⟩
      · intro h
        rw [hout] at h
        cases h
    | false =>
      obtain rfl : s = .safeOutputs := by
        cases s with
        | safeOutputs => rfl
        | platform | post | devices | links => exact absurd hs (by decide)
      obtain rfl : pre = [] := by
        cases pre with
        | nil => rfl
        | cons p pre =>
          obtain ⟨-, htail⟩ := List.cons.inj hsplit
          have hmem : BootStep.safeOutputs ∈ [BootStep.platform, .post, .devices, .links] := by
            rw [htail]
            simp
          exact absurd hmem (by decide)
      have hno : ¬ Requested w := by simp [hreq, hs]
      refine iff_of_true ⟨iff_of_false hno ?_, fun _ => hno⟩ (.inl (hsafe.mp hup))
      rintro ⟨-, a, ha, hretry⟩
      rw [hat] at ha
      rw [← Option.some.inj ha, hs] at hretry
      cases hretry

/-- The self test fails twice and then succeeds in six seconds of its five. -/
def lateRecovery : BootStep → ℕ → Attempt
  | .post, 0 => { status := .errHardware }
  | .post, 1 => { status := .errHardware }
  | .post, 2 => { ticks := 300 }
  | _, _ => {}

/-- Boot succeeds, and has asked for a power cycle. -/
theorem late_recovery_requests : ¬ ∀ env rawTick log time fuel st r w,
    bootAndInit env (some accepting) fuel { rawTick, log, time } = some (st, r, w) → Honest r w := by
  intro h
  have hrun : (bootAndInit lateRecovery (some accepting) 3 {}).any (fun (_, r, w) =>
      r.outcome = .success ∧ .uplink (.requestPowerReset .post) ∈ w.trace) = true := by decide +kernel
  obtain ⟨⟨st, r, w⟩, hboot, hrequested⟩ := (Option.any_eq_true _ _).mp hrun
  obtain ⟨hout, hmem⟩ := of_decide_eq_true hrequested
  exact (h lateRecovery 0 Log.init {} 3 st r w hboot).2 hout ⟨.post, hmem⟩

end QiranFirmware.Boot
