import QiranFirmware.Mission.Answers
import QiranFirmware.Mission.RetryBound

/-! # When an abort is final

An aborted sequence calls no step function, so nothing that comes after the operation in which
`mission_abort` is called changes it. In that operation itself the answer of a step function that
has called `mission_abort` is applied all the same: the abort is final when that answer leaves the
sequence where it is.
-/
namespace QiranFirmware.Mission

open Machine Svc

variable {s : Mission × Svc} {cause : FaultId} {m : Mission}

def Aborts (s : Mission × Svc) (cause : FaultId) : MissionOp → Prop
  | .step _ _ r => s.1.Running ∧ r.abort = some cause
  | .register _ => False
  | .abort c => s.1.aborted = false ∧ c = cause
  | .fault _ => False

instance (s : Mission × Svc) (cause : FaultId) : ∀ op, Decidable (Aborts s cause op)
  | .step .. => inferInstanceAs (Decidable (_ ∧ _))
  | .register _ => .isFalse id
  | .abort _ => inferInstanceAs (Decidable (_ ∧ _))
  | .fault _ => .isFalse id

/-- The answer of a step function does not enter a stage: a retry is the last that its class
allows, with what the step itself reports. -/
def Settled (s : Mission × Svc) : MissionOp → Prop
  | .step config _ r => match r.out.result with
    | .working => True
    | .done => 12 ≤ s.1.stage.index
    | .retry => (policy (faultOf s.1.stage r.out)).limit ≠ 0 ∧
        (policy (faultOf s.1.stage r.out)).limit.toUInt32 ≤
          s.2.occurrences (faultOf s.1.stage r.out) +
            (if s.1.overruns config s.2 = true ∧ faultOf s.1.stage r.out = .stageTimeout
              then 1 else 0) +
            UInt32.ofNat (r.reports.countP (·.1 == faultOf s.1.stage r.out)) + 1
    | .back => s.1.stage.index ≤ r.out.backTo
    | .abort => True
  | .register _ => True
  | .abort _ => True
  | .fault _ => True

structure Kept (cause : FaultId) (m w : Mission) : Prop where
  aborted : w.aborted = true
  cause : w.abortCause = cause
  stage : w.stage = m.stage
  entries : w.entries = m.entries
  reentries : w.reentries = m.reentries
  payload : w.payload ≠ .operational

theorem Kept.next (h : Kept cause m s.1) (op : MissionOp) :
    Kept cause m (missionStep s op).1 := by
  cases op with
  | step config up r =>
    have hidle : step config up r s.1 s.2 = s := by simp [step, h.aborted]
    simpa only [missionStep, hidle] using h
  | register stage =>
    simp only [missionStep, register]
    split
    · exact h
    · exact ⟨h.aborted, h.cause, h.stage, h.entries, h.reentries, h.payload⟩
  | abort c =>
    have hidle : abort c s.1 s.2 = s := by simp [abort, h.aborted]
    simpa only [missionStep, hidle] using h
  | fault op => exact h

theorem Kept.stall {w : Mission} (h : Kept cause m w) : Kept cause m { w with stalled := true } :=
  ⟨h.aborted, h.cause, h.stage, h.entries, h.reentries, h.payload⟩

theorem Kept.run (h : Kept cause m s.1) (ops : List MissionOp) :
    Kept cause m (run missionStep s ops).1 :=
  @run_keeps _ _ missionStep (fun s => Kept cause m s.1) (fun _ op hs => hs.next op) _ h ops

section Answers

variable {w : Mission} {out : StepOut} (up : Option Uplink) (v : Svc)

theorem Kept.done_iff (h : Kept cause m w) (hr : out.result = .done) :
    Kept cause m (apply up out w v).1 ↔ 12 ≤ m.stage.index := by
  obtain ⟨hnext, -, -, hab, hre, hca, hpay, hlast, -⟩ := done_eq up hr w v
  rw [h.stage] at hnext hpay hlast
  constructor
  · intro hkept
    by_contra hlt
    have hmoved := congrArg Stage.index (hnext.symm.trans hkept.stage)
    rw [Stage.next, if_pos (Nat.lt_of_not_le hlt), Stage.index_ofIndex (by omega)] at hmoved
    omega
  · intro hle
    have hstay : m.stage.next = m.stage := if_neg (Nat.not_lt.mpr hle)
    have hspad : m.stage ≠ .spadEnable := by
      intro hspad
      rw [hspad] at hle
      exact absurd hle (by decide)
    refine ⟨hab.trans h.aborted, hca.trans h.cause, hnext.trans hstay, (hlast hle).trans h.entries,
      hre.trans h.reentries, ?_⟩
    rw [hpay, if_neg hspad]
    exact h.payload

theorem Kept.retry_iff (h : Kept cause m w) (hr : out.result = .retry) :
    Kept cause m (apply up out w v).1 ↔ (policy (faultOf m.stage out)).limit ≠ 0 ∧
      (policy (faultOf m.stage out)).limit.toUInt32 ≤ v.occurrences (faultOf m.stage out) + 1 := by
  obtain ⟨hsame, -, hab, hre, hca, hpay, hcases, -⟩ := retry_eq up hr w v
  rw [h.stage] at hsame hcases
  rcases hcases with ⟨hspent, -, hent⟩ | ⟨hopen, -, hent⟩
  · refine iff_of_true ?_ hspent
    exact ⟨hab.trans h.aborted, hca.trans h.cause, hsame, hent.trans h.entries,
      hre.trans h.reentries, fun hop => h.payload (hpay.symm.trans hop)⟩
  · refine iff_of_false ?_ hopen
    intro hkept
    have hentry := congrFun (hent.symm.trans hkept.entries) m.stage
    rw [h.entries, Function.update_self] at hentry
    grind

theorem Kept.back_iff (h : Kept cause m w) (hr : out.result = .back) :
    Kept cause m (apply up out w v).1 ↔ m.stage.index ≤ out.backTo := by
  by_cases hback : out.backTo < w.stage.index
  · obtain ⟨hto, -⟩ := back_eq up hr w v hback
    rw [h.stage] at hback
    refine iff_of_false ?_ (Nat.not_le.mpr hback)
    intro hkept
    have hmoved := congrArg Stage.index (hto.symm.trans hkept.stage)
    rw [Stage.index_ofIndex (hback.trans m.stage.index_lt)] at hmoved
    omega
  · have hle := Nat.le_of_not_lt hback
    rw [stuck_eq up w v (.inr ⟨hr, hle⟩)]
    exact iff_of_true h.stall (h.stage ▸ hle)

end Answers

theorem kept_iff_settled {op : MissionOp} (h : Aborts s cause op) :
    Kept cause s.1 (missionStep s op).1 ↔ Settled s op := by
  cases op with
  | step config up r =>
    obtain ⟨hrun, habort⟩ := h
    obtain ⟨v₁, hstep, hcount⟩ := step_of_running config up r hrun s.2
    obtain ⟨hstage, hentries, -, -, hreentries⟩ := asked_frame config r s.1 s.2
    obtain ⟨haborted, hcause, hpayload⟩ := asked_abort config r hrun.1 s.2
    rw [habort] at haborted hcause hpayload
    have hasked : Kept cause s.1 (asked config r s.1 s.2) :=
      ⟨haborted, hcause, hstage, hentries, hreentries, by simp [hpayload]⟩
    simp only [missionStep, hstep, Settled]
    cases hr : r.out.result with
    | working =>
      rw [apply_working hr]
      exact iff_of_true hasked trivial
    | done => exact hasked.done_iff up v₁ hr
    | retry =>
      have hretry := hasked.retry_iff up v₁ hr
      rwa [hcount] at hretry
    | back => exact hasked.back_iff up v₁ hr
    | abort =>
      rw [stuck_eq up _ _ (.inl hr)]
      exact iff_of_true hasked.stall trivial
  | register stage => exact h.elim
  | abort c =>
    obtain ⟨hnot, rfl⟩ := h
    refine iff_of_true ?_ trivial
    simp only [missionStep, abort, hnot, Bool.false_eq_true, ↓reduceIte]
    exact ⟨rfl, rfl, rfl, rfl, rfl, fun hpayload => PayloadStatus.noConfusion hpayload⟩
  | fault op => exact h.elim

/-- From the call of `mission_abort` on, the rest of the operation it is made in included, nothing
changes the stage, an entry count, the re-entry count or the cause, or makes the payload
operational: exactly when the answer the abort comes with is settled. -/
theorem abort_final_iff {v : Svc} {before : List MissionOp} {op : MissionOp}
    (h : Aborts (run missionStep (init v) before) cause op) :
    (∀ after, Kept cause (run missionStep (init v) before).1
      (run missionStep (init v) (before ++ op :: after)).1) ↔
    Settled (run missionStep (init v) before) op := by
  rw [← kept_iff_settled h]
  constructor
  · intro hall
    simpa using hall []
  · intro hkept after
    rw [run_append, run_cons]
    exact hkept.run after

def stepAnswering (cause : Option FaultId) (out : StepOut) : MissionOp :=
  .step (fun _ => 0) none { abort := cause, out }

/-- A stage that aborts the run and says that it cannot proceed: neither a later step nor a later
abort changes anything. -/
theorem abort_final_stuck :
    Kept .overcurrent (run missionStep (init {}) reachSpad).1
      (run missionStep (init {}) (reachSpad ++ stepAnswering (some .overcurrent) { result := .abort } ::
        [stepAnswering none { result := .done }, .abort .post])).1 :=
  (@abort_final_iff .overcurrent {} reachSpad (stepAnswering (some .overcurrent) { result := .abort })
    (by decide +kernel)).mpr trivial _

/-- A stage that aborts the run and answers that it has finished: the sequence enters the next stage
and the payload is operational, in an aborted run. -/
theorem abort_then_operational :
    let s := run missionStep (init {}) reachSpad
    let op := stepAnswering (some .overcurrent) { result := .done }
    Aborts s .overcurrent op ∧ (missionStep s op).1.aborted = true ∧
      s.1.stage = .spadEnable ∧ (missionStep s op).1.stage = .pvsT1 ∧
      (missionStep s op).1.entries .pvsT1 ≠ s.1.entries .pvsT1 ∧
      (missionStep s op).1.payload = .operational :=
  ⟨by decide +kernel, by decide +kernel, by decide +kernel, by decide +kernel, by decide +kernel,
    by decide +kernel⟩

end QiranFirmware.Mission
