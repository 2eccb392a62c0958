import QiranFirmware.Mission.Answers
import QiranFirmware.Mission.RetryBound

/-! # The retries a stage is allowed when it is entered again

Two counts say how many attempts a stage has failed: `attempts`, which entering another stage
resets, and the count of the stage's fault class, which decides and is only cleared when a step
function says that the class's stage has finished. While a stage is the current one both grow
with its retries, so the count that decides stays at or below the attempts provided that it is zero
whenever the stage is entered.
-/
namespace QiranFirmware

namespace Svc

open SvcCall

variable {c : FaultId} {v w : Svc}

def Silent (c : FaultId) (up : Option Uplink) : Prop := ∀ u ∈ up, ∀ call, ∀ f ∈ (u call).2, f.1 ≠ c

def FaultOp.Unreported (c : FaultId) : FaultOp → Prop
  | .report id _ => id ≠ c
  | .clear _ => True
  | .collect _ => c ∉ [FaultId.cycleOverrun, .uartRxOverflow, .irqOverflow]
  | .service up _ => Silent c up
  | .tick => True

theorem Counted.same {new : List SvcCall} (h : Counted new v w)
    (hnone : ∀ d, .report c d ∉ new) : w.occurrences c = v.occurrences c := by
  have hzero : new.countP (isReport c) = 0 := by
    refine List.countP_eq_zero.mpr ?_
    intro x hx hrep
    cases x with
    | report id d =>
      rw [isReport, beq_iff_eq] at hrep
      exact hnone d (hrep ▸ hx)
    | _ => exact Bool.false_ne_true hrep
  rw [h.count, hzero]
  exact UInt32.add_zero _

theorem occurrences_faultStep {op : FaultOp} (h : op.Unreported c) (v : Svc) :
    (faultStep v op).occurrences c = v.occurrences c ∨ (faultStep v op).occurrences c = 0 := by
  cases op with
  | report id detail =>
    refine .inl ((reporting_report id detail v).counted.same ?_)
    intro d hd
    cases List.mem_singleton.mp hd
    exact h rfl
  | clear id =>
    simp only [faultStep, occurrences_clear]
    split
    · exact .inr rfl
    · exact .inl rfl
  | collect pc =>
    obtain ⟨new, hnew, hplatform⟩ := platformReporting_collect pc v
    refine .inl (hnew.counted.same ?_)
    intro d hd
    obtain ⟨id, e, he, hid⟩ := hplatform _ hd
    cases he
    exact h hid
  | service up id =>
    refine .inl ?_
    by_cases hnew : v.unserviced id = 0
    · rw [faultStep, serviceClass_of_eq hnew]
    · refine (serviceClass_of_ne up hnew).counted.same ?_
      intro d hd
      rcases List.mem_cons.mp hd with hd | hd
      · cases hd
      · obtain ⟨u, hu, call, hf⟩ := report_mem_dueCalls hd
        exact h u hu call _ hf rfl
  | tick => exact .inl ((reporting_tick v).counted.same (by simp))

end Svc

namespace Mission

open Machine Svc

variable {s : Mission × Svc} {c : FaultId} {k : Stage} {t : ℕ}

def Unreported (c : FaultId) : MissionOp → Prop
  | .step _ up r => (∀ f ∈ r.reports, f.1 ≠ c) ∧ Silent c up
  | .register _ => True
  | .abort _ => True
  | .fault op => op.Unreported c

/-- If the answer enters a stage of the class, or restarts the last one, the class's count is zero
afterwards. -/
def Fresh (c : FaultId) (s : Mission × Svc) : MissionOp → Prop
  | .step _ _ r => s.1.Running → r.abort = none →
      (r.out.result = .done → s.1.stage.next.fault = c →
        faultOf s.1.stage r.out = c ∨ s.2.occurrences c = 0) ∧
      (r.out.result = .back → r.out.backTo < s.1.stage.index →
        (Stage.ofIndex r.out.backTo).fault = c →
        faultOf s.1.stage r.out ≠ c ∧ s.2.occurrences c = 0)
  | .register _ => True
  | .abort _ => True
  | .fault _ => True

instance (c : FaultId) (s : Mission × Svc) : ∀ op, Decidable (Fresh c s op)
  | .step .. => inferInstanceAs (Decidable (_ → _ → _ ∧ _))
  | .register _ => .isTrue trivial
  | .abort _ => .isTrue trivial
  | .fault _ => .isTrue trivial

def Tries (s : Mission × Svc) : MissionOp → Prop
  | .step _ _ r => s.1.Running ∧ r.out.result = .retry
  | .register _ => False
  | .abort _ => False
  | .fault _ => False

instance (s : Mission × Svc) : ∀ op, Decidable (Tries s op)
  | .step .. => inferInstanceAs (Decidable (_ ∧ _))
  | .register _ => .isFalse id
  | .abort _ => .isFalse id
  | .fault _ => .isFalse id

def retries : Mission × Svc → List MissionOp → ℕ
  | _, [] => 0
  | s, op :: ops => (if Tries s op then 1 else 0) + retries (missionStep s op) ops

theorem retries_append (s : Mission × Svc) (xs ys : List MissionOp) :
    retries s (xs ++ ys) = retries s xs + retries (run missionStep s xs) ys := by
  induction xs generalizing s with
  | nil => simp [retries]
  | cons op xs ih => simp only [List.cons_append, retries, run_cons, ih, Nat.add_assoc]

def Alive (s : Mission × Svc) : Prop := s.1.aborted = false ∧ s.1.stalled = false

def Allowed (c : FaultId) (t : ℕ) (s : Mission × Svc) : Prop :=
  ∃ n a : ℕ, s.2.occurrences c = UInt32.ofNat n ∧ s.1.attempts = UInt32.ofNat a ∧ n ≤ a ∧ a ≤ t

theorem Allowed.mono {u : ℕ} (h : Allowed c t s) (htu : t ≤ u) : Allowed c u s := by
  obtain ⟨n, a, hn, ha, hna, hat⟩ := h
  exact ⟨n, a, hn, ha, hna, hat.trans htu⟩

theorem allowed_zero (hcount : s.2.occurrences c = 0) (hattempts : s.1.attempts = 0) :
    Allowed c 0 s :=
  ⟨0, 0, hcount, hattempts, Nat.le_refl _, Nat.le_refl _⟩

theorem Allowed.congr {w : Mission × Svc} (h : Allowed c t s)
    (hcount : w.2.occurrences c = s.2.occurrences c ∨ w.2.occurrences c = 0)
    (hattempts : w.1.attempts = s.1.attempts) : Allowed c t w := by
  obtain ⟨n, a, hn, ha, hna, hat⟩ := h
  rcases hcount with hcount | hcount
  · exact ⟨n, a, hcount.trans hn, hattempts.trans ha, hna, hat⟩
  · exact ⟨0, a, hcount, hattempts.trans ha, Nat.zero_le _, hat⟩

theorem Alive.of_missionStep {op : MissionOp} (h : Alive (missionStep s op)) : Alive s := by
  constructor
  · by_contra habort
    have hend := aborted_run (Bool.not_eq_false _ ▸ habort) [op]
    exact Bool.false_ne_true (h.1.symm.trans hend)
  · by_contra hstall
    have hend := (stalled_missionStep (Bool.not_eq_false _ ▸ hstall) op).1
    exact Bool.false_ne_true (h.2.symm.trans hend)

theorem Alive.of_run {ops : List MissionOp} (h : Alive (run missionStep s ops)) : Alive s := by
  induction ops generalizing s with
  | nil => exact h
  | cons op ops ih => exact (ih h).of_missionStep

/-- The count of the class when the step function's answer is about to be applied. -/
theorem asked_count {config : ConfigParam → Int32} {r : StepRun} {m : Mission} {v v₁ : Svc}
    (hcount : v₁.occurrences c = v.occurrences c +
      (if m.overruns config v = true ∧ c = .stageTimeout then 1 else 0) +
        UInt32.ofNat (r.reports.countP (·.1 == c)))
    (hreports : ∀ f ∈ r.reports, f.1 ≠ c) (hc : c ≠ .stageTimeout) :
    v₁.occurrences c = v.occurrences c := by
  have hnone : r.reports.countP (·.1 == c) = 0 :=
    List.countP_eq_zero.mpr fun f hf => by simpa using hreports f hf
  simp [hcount, hnone, hc]

section Answers

variable {m : Mission} {v : Svc} {out : StepOut} (up : Option Uplink)

theorem allowed_done (hr : out.result = .done)
    (hentered : faultOf m.stage out = c ∨ v.occurrences c = 0) : Allowed c 0 (apply up out m v) := by
  obtain ⟨-, hzero, -, -, -, -, -, -, hcleared⟩ := done_eq up hr m v
  refine allowed_zero ?_ hzero
  rw [hcleared]
  split
  · rfl
  · rename_i hother
    exact hentered.resolve_left (Ne.symm hother)

theorem Allowed.retried (h : Allowed c t (m, v)) (hr : out.result = .retry) :
    Allowed c (t + 1) (apply up out m v) := by
  obtain ⟨n, a, hn, ha, hna, hat⟩ := h
  obtain ⟨-, hmore, -, -, -, -, -, hreport⟩ := retry_eq up hr m v
  dsimp only at hn ha
  refine ⟨n + if c = faultOf m.stage out then 1 else 0, a + 1, ?_, ?_, ?_, by omega⟩
  · rw [hreport, hn, UInt32.ofNat_add]
    split <;> rfl
  · rw [hmore, ha, UInt32.ofNat_add]
    rfl
  · split <;> omega

theorem allowed_back (hr : out.result = .back) (hback : out.backTo < m.stage.index)
    (hup : Silent c up) (hother : faultOf m.stage out ≠ c) (hcount : v.occurrences c = 0) :
    Allowed c 0 (apply up out m v) := by
  obtain ⟨-, hzero, -, -, -, hreport⟩ := back_eq up hr m v hback
  refine allowed_zero ?_ hzero
  rw [hreport c hup, hcount, if_neg (Ne.symm hother)]
  rfl

end Answers

/-- One operation of a run that goes on: it enters a stage of the class with its count at zero, or
stays in the stage and keeps the count at or below the attempts. -/
theorem allowed_missionStep {op : MissionOp} (hclass : (missionStep s op).1.stage.fault = c)
    (hop : Unreported c op) (hfresh : Fresh c s op) (halive : Alive (missionStep s op)) :
    Allowed c 0 (missionStep s op) ∨
      (missionStep s op).1.stage = s.1.stage ∧
        ∀ t, Allowed c t s → Allowed c (t + if Tries s op then 1 else 0) (missionStep s op) := by
  have hc : c ≠ .stageTimeout := hclass ▸ Stage.fault_ne_stageTimeout _
  cases op with
  | step config up r =>
    simp only [missionStep] at hclass halive ⊢
    by_cases hrun : s.1.Running
    · obtain ⟨v₁, hstep, hcount⟩ := step_of_running config up r hrun s.2
      have hsame := asked_count (hcount c) hop.1 hc
      obtain ⟨hstage, -, hattempts, -, -⟩ := asked_frame config r s.1 s.2
      obtain ⟨haborted, -⟩ := asked_abort config r hrun.1 s.2
      rw [hstep] at hclass halive ⊢
      have hnone : r.abort = none := by
        have hnot : r.abort.isSome = false :=
          haborted.symm.trans ((apply_frame up r.out _ v₁).2.1.symm.trans halive.1)
        simpa using hnot
      have hkept (t : ℕ) (ht : Allowed c t s) : Allowed c t (asked config r s.1 s.2, v₁) :=
        ht.congr (.inl hsame) hattempts
      rcases answer_cases (asked config r s.1 s.2) r.out with hr | hr | hr | ⟨hr, hback⟩ | hstuck
      · rw [apply_working hr]
        exact .inr ⟨hstage, fun t ht => by simpa [Tries, hr] using hkept t ht⟩
      · rw [(done_eq up hr _ v₁).1, hstage] at hclass
        refine .inl (allowed_done up hr ?_)
        rw [hstage, hsame]
        exact (hfresh hrun hnone).1 hr hclass
      · refine .inr ⟨(retry_eq up hr _ v₁).1.trans hstage, ?_⟩
        intro t ht
        have htried : Tries s (.step config up r) := ⟨hrun, hr⟩
        rw [if_pos htried]
        exact (hkept t ht).retried up hr
      · rw [(back_eq up hr _ v₁ hback).1] at hclass
        obtain ⟨hother, hzero⟩ := (hfresh hrun hnone).2 hr (hstage ▸ hback) hclass
        exact .inl (allowed_back up hr hback hop.2 (by rwa [hstage]) (hsame.trans hzero))
      · have hstalls := stuck_eq up (asked config r s.1 s.2) v₁ hstuck
        exact absurd halive.2 (by simp [hstalls])
    · obtain ⟨late, hstep, hsame⟩ := step_of_not_running config up r hrun s.2
      refine .inr ⟨by rw [hstep], ?_⟩
      intro t ht
      have hkept : Allowed c t (step config up r s.1 s.2) :=
        ht.congr (.inl (hsame c hc)) (by rw [hstep])
      simpa [Tries, hrun] using hkept
  | register stage =>
    refine .inr ⟨?_, fun t ht => ?_⟩
    · simp only [missionStep, register]
      split <;> rfl
    · refine ht.congr (.inl rfl) ?_
      simp only [missionStep, register]
      split <;> rfl
  | abort cause =>
    have hidle := halive.1
    simp only [missionStep, abort] at hidle
    split at hidle
    · rename_i habort
      exact absurd (hidle.symm.trans habort) Bool.false_ne_true
    · exact absurd hidle (by simp)
  | fault op =>
    refine .inr ⟨rfl, ?_⟩
    intro t ht
    have hkept : Allowed c t (missionStep s (.fault op)) :=
      ht.congr (occurrences_faultStep hop s.2) rfl
    simpa [Tries] using hkept

theorem allowed_run {ops : List MissionOp} (hstart : Allowed k.fault t s)
    (hops : ∀ op ∈ ops, Unreported k.fault op) (hfresh : Along missionStep (Fresh k.fault) s ops)
    (hstay : Along missionStep (fun s _ => s.1.stage = k) s ops)
    (hend : (run missionStep s ops).1.stage = k) (halive : Alive (run missionStep s ops)) :
    Allowed k.fault (t + retries s ops) (run missionStep s ops) := by
  induction ops generalizing s t with
  | nil => exact hstart
  | cons op ops ih =>
    have hstage : (missionStep s op).1.stage = k := by
      cases ops with
      | nil => exact hend
      | cons next ops => exact hstay.2.1
    have hgoes : Alive (missionStep s op) := @Alive.of_run _ ops halive
    have hone : Allowed k.fault (t + if Tries s op then 1 else 0) (missionStep s op) := by
      rcases allowed_missionStep (by rw [hstage]) (hops op (by simp)) hfresh.1 hgoes with
        hzero | ⟨-, hmore⟩
      · exact hzero.mono (Nat.zero_le _)
      · exact hmore t hstart
    have hrest := ih hone (fun op hop => hops op (List.mem_cons_of_mem _ hop)) hfresh.2 hstay.2
      hend halive
    rw [run_cons, retries, ← Nat.add_assoc]
    exact hrest

/-- What happens in the stage from when it is entered: `before` ends with an operation that enters
it from another one, or is empty where the stage is the first, and each of `ops` happens in it. -/
def Stay (k : Stage) (before ops : List MissionOp) : Prop :=
  (before = [] ∨ ∃ earlier op, before = earlier ++ [op] ∧
    (run missionStep (init {}) earlier).1.stage ≠ k) ∧
  Along missionStep (fun s _ => s.1.stage = k) (run missionStep (init {}) before) ops

/-- Whatever happened before the stage was entered, both counts start from zero there. -/
theorem Stay.allowed {before ops : List MissionOp} (h : Stay k before ops)
    (hops : ∀ op ∈ before, Unreported k.fault op)
    (hfresh : Along missionStep (Fresh k.fault) (init {}) before)
    (hk : (run missionStep (init {}) before).1.stage = k)
    (halive : Alive (run missionStep (init {}) before)) :
    Allowed k.fault 0 (run missionStep (init {}) before) := by
  rcases h.1 with rfl | ⟨earlier, op, rfl, hother⟩
  · exact allowed_zero (by simp [init, collectTime, Svc.occurrences, Svc.unserviced]) rfl
  · obtain ⟨-, hop, -⟩ := along_append.mp hfresh
    rw [run_append, run_cons, run_nil] at hk halive ⊢
    rcases allowed_missionStep (by rw [hk]) (hops op (by simp)) hop halive with hzero | ⟨hsame, -⟩
    · exact hzero
    · exact absurd (hsame.symm.trans hk) hother

/-- A failed attempt of the stage's own class that stalls it is one more of both counts, and the
count that decides has reached the limit. -/
theorem Allowed.stalled {w : Mission × Svc} {config : ConfigParam → Int32} {up : Option Uplink}
    {r : StepRun} (h : Allowed k.fault t w) (hrun : w.1.Running) (hk : w.1.stage = k)
    (hreports : ∀ f ∈ r.reports, f.1 ≠ k.fault) (hretry : r.out.result = .retry)
    (hplain : r.out.fault = .none) (hafter : (step config up r w.1 w.2).1.stalled = true) :
    (policy k.fault).limit.toNat ≤ t + 1 ∧ (t + 1 < 2 ^ 32 →
      (policy k.fault).limit.toUInt32 ≤ (step config up r w.1 w.2).1.attempts) := by
  obtain ⟨n, a, hn, ha, hna, hat⟩ := h
  obtain ⟨v₁, hstep, hcount⟩ := step_of_running config up r hrun w.2
  obtain ⟨hstage, -, hattempts, hstalled, -⟩ := asked_frame config r w.1 w.2
  obtain ⟨-, hmore, -, -, -, -, hcases, -⟩ :=
    retry_eq up hretry (asked config r w.1 w.2) v₁
  have hown : faultOf (asked config r w.1 w.2).stage r.out = k.fault := by
    rw [hstage, hk]
    simp [faultOf, hplain]
  have hsame := asked_count (hcount k.fault) hreports (Stage.fault_ne_stageTimeout k)
  rw [hstep] at hafter ⊢
  rw [hown, hsame, hn] at hcases
  rcases hcases with ⟨⟨-, hspent⟩, -⟩ | ⟨-, hopen, -⟩
  · have hone : (1 : UInt32) = UInt32.ofNat 1 := rfl
    rw [hone, ← UInt32.ofNat_add, UInt32.le_iff_toNat_le, UInt16.toNat_toUInt32,
      UInt32.toNat_ofNat'] at hspent
    refine ⟨by omega, ?_⟩
    intro hlt
    rw [hmore, hattempts, ha, hone, ← UInt32.ofNat_add, UInt32.le_iff_toNat_le,
      UInt16.toNat_toUInt32, UInt32.toNat_ofNat']
    omega
  · exact absurd (hrun.2.1.symm.trans (hstalled.symm.trans (hopen.symm.trans hafter)))
      Bool.false_ne_true

/-- In a run in which only the sequencer reports the stage's class, and whose every step meets
`Fresh`, a failed attempt that names no class of its own stalls the stage only when as many have
failed since the stage was entered as its class allows, and the attempts say so too. -/
theorem full_allowance {before after : List MissionOp} {config : ConfigParam → Int32}
    {up : Option Uplink} {r : StepRun}
    (hops : ∀ op ∈ before ++ after ++ [.step config up r], Unreported k.fault op)
    (hfresh : Along missionStep (Fresh k.fault) (init {}) (before ++ after ++ [.step config up r]))
    (hstay : Stay k before (after ++ [.step config up r]))
    (hretry : r.out.result = .retry) (hplain : r.out.fault = .none)
    (hbefore : (run missionStep (init {}) (before ++ after)).1.stalled = false)
    (hafter : (run missionStep (init {}) (before ++ after ++ [.step config up r])).1.stalled = true) :
    let tries := retries (run missionStep (init {}) before) (after ++ [.step config up r])
    (policy k.fault).limit.toNat ≤ tries ∧
    (tries < 2 ^ 32 → (policy k.fault).limit.toUInt32 ≤
      (run missionStep (init {}) (before ++ after ++ [.step config up r])).1.attempts) := by
  intro tries
  obtain ⟨hstays, hhere, -⟩ := along_append.mp hstay.2
  obtain ⟨hfreshBefore, hfreshAfter⟩ := along_append.mp (along_append.mp hfresh).1
  obtain ⟨s, hs⟩ : ∃ s, run missionStep (init {}) before = s := ⟨_, rfl⟩
  obtain ⟨w, hw⟩ : ∃ w, run missionStep s after = w := ⟨_, rfl⟩
  rw [run_append, hs, hw] at hbefore
  rw [run_append, run_append, hs, hw, run_cons, run_nil] at hafter ⊢
  rw [hs] at hstays hhere hfreshAfter
  rw [hw] at hhere
  have hrun : w.1.Running := by
    by_contra hidle
    obtain ⟨late, hstep, -⟩ := step_of_not_running config up r hidle w.2
    simp only [missionStep, hstep] at hafter
    exact Bool.false_ne_true (hbefore.symm.trans hafter)
  have halive : Alive (run missionStep s after) := hw ▸ ⟨hrun.1, hrun.2.1⟩
  have hk : s.1.stage = k := by
    cases after with
    | nil => rwa [← hw] at hhere
    | cons op after => exact hstays.1
  have hstart : Allowed k.fault 0 s := by
    have hgoes : Alive s := halive.of_run
    rw [← hs] at hk hgoes ⊢
    exact hstay.allowed (fun op hop => hops op (by simp [hop])) hfreshBefore hk hgoes
  have hkept : Allowed k.fault (retries s after) w := by
    have hall := allowed_run hstart (fun op hop => hops op (by simp [hop])) hfreshAfter hstays
      (by rwa [hw]) halive
    rwa [Nat.zero_add, hw] at hall
  have htries : tries = retries s after + 1 := by
    have hlast : Tries w (.step config up r) := ⟨hrun, hretry⟩
    simp only [tries, hs, retries_append, hw, retries, if_pos hlast]
  rw [htries]
  exact hkept.stalled hrun hhere (hops (.step config up r) (by simp)).1 hretry hplain hafter

def answering (out : StepOut) : MissionOp := .step (fun _ => 0) none { out }

/-- The laser's stage is entered, and sent back to the one before it after `tries` failed attempts,
with this class for the reason; when that has finished the laser's stage is entered again. -/
def reenterLaser (tries : ℕ) (fault : FaultId) : List MissionOp :=
  [.register .boot, .register .precond, .register .laserBringup, answering { result := .done },
    answering { result := .done }] ++ List.replicate tries (answering { result := .retry }) ++
    [answering { result := .back, backTo := 1, fault }, answering { result := .done }]

/-- Sent back for the earlier stage's class, the laser's stage has its three attempts. -/
theorem full_allowance_laser :
    (policy .laserTec).limit.toNat ≤
      retries (run missionStep (init {}) (reenterLaser 0 .precond))
        (List.replicate 2 (answering { result := .retry }) ++ [answering { result := .retry }]) :=
  (@full_allowance .laserBringup (reenterLaser 0 .precond)
    (List.replicate 2 (answering { result := .retry })) (fun _ => 0) none
    { out := { result := .retry } }
    (by simp [reenterLaser, answering, Unreported, Silent]) (by decide +kernel)
    ⟨.inr ⟨(reenterLaser 0 .precond).dropLast, answering { result := .done }, rfl,
      by decide +kernel⟩, by decide +kernel⟩
    rfl rfl (by decide +kernel) (by decide +kernel)).1

/-- Sent back for its own class after two failed attempts, the laser's stage has its count at the
limit when it is entered again, and stalls at the first attempt that fails. -/
theorem reentry_stalls_at_first_retry :
    let before := reenterLaser 2 .none
    let retry := answering { result := .retry }
    (∀ op ∈ before ++ [retry], Unreported Stage.laserBringup.fault op) ∧
      Stay .laserBringup before [retry] ∧
      (run missionStep (init {}) before).1.attempts = 0 ∧
      (run missionStep (init {}) before).1.stalled = false ∧
      (run missionStep (init {}) (before ++ [retry])).1.stalled = true ∧
      (run missionStep (init {}) (before ++ [retry])).1.attempts = 1 ∧
      retries (run missionStep (init {}) before) [retry] = 1 ∧
      (policy Stage.laserBringup.fault).limit = 3 :=
  ⟨by simp [reenterLaser, answering, Unreported, Silent],
    ⟨.inr ⟨(reenterLaser 2 .none).dropLast, answering { result := .done }, rfl, by decide +kernel⟩,
    by decide +kernel⟩, by decide +kernel, by decide +kernel, by decide +kernel, by decide +kernel,
    by decide +kernel, by decide⟩

end Mission

end QiranFirmware
