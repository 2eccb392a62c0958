import QiranFirmware.Exec.Ticks

/-! # The waits that come late

A wait is late when more than one tick has come since the last collection. The executive has counted an
overrun for each of the late waits and for no other, whatever interrupts come between its accesses.
-/
namespace QiranFirmware.Exec

open Machine

/-- Of the waits that have returned, which were late; `previous` ticks had been collected before. -/
def latenessFrom (previous : ℕ) : List Collection → List Bool
  | [] => []
  | c :: cs =>
    (if c.wait then [decide (previous + 1 < c.sampled)] else []) ++ latenessFrom c.sampled cs

def lateness (collections : List Collection) : List Bool := latenessFrom 0 collections

theorem lateness_concat (collections : List Collection) (c : Collection) :
    lateness (collections ++ [c]) = lateness collections ++
      if c.wait then [decide (lastSampled collections + 1 < c.sampled)] else [] := by
  have hfrom (cs : List Collection) (previous : ℕ) : latenessFrom previous (cs ++ [c]) =
      latenessFrom previous cs ++
        if c.wait then [decide ((cs.getLast?.map (·.sampled)).getD previous + 1 < c.sampled)] else [] := by
    induction cs generalizing previous with
    | nil =>
      rw [List.nil_append, latenessFrom, latenessFrom, latenessFrom, List.append_nil]
      rfl
    | cons d cs ih =>
      have hlast : ((d :: cs).getLast?.map (·.sampled)).getD previous =
          (cs.getLast?.map (·.sampled)).getD d.sampled := by
        cases cs with
        | nil => rfl
        | cons x cs => simp [List.getLast?_cons]
      rw [List.cons_append, latenessFrom, ih, latenessFrom, hlast, List.append_assoc]
  exact hfrom collections 0

def Point.charged : Point → Bool
  | .waitConsumed .. | .waitAdvance _ | .waitMajors | .waitNote _ | .waitStart => true
  | .out | .resyncTicks | .resyncAdvance _ | .resyncConsumed _ | .resyncMajors
  | .resyncConsumedMajors _ | .resyncDue | .resyncBody | .waitBody | .waitDue | .waitTicks
  | .waitOverrun .. => false

def Loop.late (s : Loop) : Bool := decide (lastSampled s.collections + 1 < s.sampled)

def Noticed (s : Loop) : Prop :=
  s.exec.overrunEvents = UInt32.ofNat ((lateness s.collections).countP id +
    if s.point.charged && s.late then 1 else 0)

theorem overrunEvents_onMinorTick (e : Exec) : e.onMinorTick.overrunEvents = e.overrunEvents := by
  unfold onMinorTick
  dsimp only
  split <;> rfl

/-- Only one access counts overruns. -/
theorem overrunEvents_access (cycles : UInt32) (e : Exec) {point : Point}
    (h : ∀ raw pending, point ≠ .waitOverrun raw pending) :
    (e.access cycles point).2.overrunEvents = e.overrunEvents := by
  cases point with
  | waitOverrun raw pending => exact absurd rfl (h raw pending)
  | waitBody =>
    simp only [access, accountBody]
    split <;> rfl
  | waitNote majors =>
    simp only [access, noteMajors]
    split <;> rfl
  | out | resyncTicks | resyncAdvance | resyncConsumed | resyncMajors | resyncConsumedMajors
  | resyncDue | resyncBody | waitDue | waitTicks | waitConsumed | waitAdvance | waitMajors
  | waitStart => rfl

theorem noticed_init : Noticed {} := rfl

theorem Noticed.call {s : Loop} (h : Noticed s) (hout : s.point = .out) {point : Point}
    (hpoint : point.charged = false) (before : Exec) : Noticed { s with point, before } := by
  rw [Noticed, hout] at h
  rw [Noticed, hpoint]
  exact h

/-- An access that counts nothing and does not return leads from one point to another of the kind. -/
theorem Noticed.go {s : Loop} (h : Noticed s) {cycles : UInt32} {point : Point}
    (hpoint : s.point = point) (hreturns : s.returns = none) (hsamples : s.samples = true → point.charged = false)
    (hother : ∀ raw pending, point ≠ .waitOverrun raw pending)
    (hcharged : (s.exec.access cycles point).1.charged = point.charged) :
    Noticed (s.step (.access cycles)) := by
  subst hpoint
  have hevents := overrunEvents_access cycles s.exec hother
  cases hsample : s.samples with
  | true =>
    have hnot := hsamples hsample
    rw [step_sample hsample hreturns, Noticed]
    dsimp only
    rw [hevents, hcharged, hnot]
    rw [Noticed, hnot] at h
    exact h
  | false =>
    rw [step_go hsample hreturns, Noticed]
    dsimp only
    rw [hevents, hcharged]
    exact h

theorem Noticed.access {s : Loop} (h : Noticed s) (hcounted : Counted s) (cycles : UInt32) :
    Noticed (s.step (.access cycles)) := by
  cases hpoint : s.point with
  | out =>
    have hsame : s.step (.access cycles) = s := by
      rw [step_go (Loop.steady hpoint rfl).1 (Loop.steady hpoint rfl).2, hpoint]
      exact congrArg (fun point => { s with point }) hpoint.symm
    rwa [hsame]
  | resyncTicks =>
    exact h.go hpoint (by simp [Loop.returns, hpoint]) (fun _ => rfl) (by simp) rfl
  | waitTicks =>
    refine h.go hpoint (by simp [Loop.returns, hpoint]) (fun _ => rfl) (by simp) ?_
    simp only [Exec.access]
    split <;> rfl
  | resyncAdvance | resyncConsumed | resyncMajors | resyncConsumedMajors | resyncDue | waitBody
  | waitDue | waitConsumed | waitAdvance | waitMajors | waitNote =>
    have hsteady := Loop.steady hpoint rfl
    refine h.go hpoint hsteady.2 ?_ (by simp) rfl
    intro hsamples
    rw [hsteady.1] at hsamples
    cases hsamples
  | waitOverrun raw pending =>
    have hsteady := Loop.steady hpoint rfl
    have hhere := hcounted.here
    rw [hpoint] at hhere
    obtain ⟨-, -, hspan, -, -, hpending⟩ := hhere
    have hmany : 1 < pending ↔ s.late = true := by
      have hwithin := hspan.lt
      rw [UInt32.lt_iff_toNat_lt, hpending, UInt32.toNat_one,
        UInt32.toNat_ofNat_of_lt' (show _ < 2 ^ 32 by omega), Loop.late, decide_eq_true_eq]
      omega
    rw [Noticed, hpoint] at h
    rw [step_go hsteady.1 hsteady.2, hpoint]
    show (s.exec.accountOverrun pending).overrunEvents =
      UInt32.ofNat ((lateness s.collections).countP id + if s.late then 1 else 0)
    have hbefore : s.exec.overrunEvents = UInt32.ofNat ((lateness s.collections).countP id) := h
    unfold accountOverrun
    split
    · rename_i hlt
      rw [if_pos (hmany.mp hlt), UInt32.ofNat_add, ← hbefore]
      rfl
    · rename_i hnot
      rw [if_neg fun hlate => hnot (hmany.mpr hlate)]
      exact hbefore
  | waitStart =>
    have hreturns : s.returns = some true := by simp [Loop.returns, hpoint]
    rw [Noticed, hpoint] at h
    rw [step_leave (by simp [Loop.samples, hpoint]) hreturns, hpoint, Noticed]
    dsimp only
    rw [overrunEvents_access cycles s.exec (by simp), lateness_concat, if_pos rfl, List.countP_append,
      List.countP_singleton]
    exact h
  | resyncBody =>
    have hreturns : s.returns = some false := by simp [Loop.returns, hpoint]
    rw [Noticed, hpoint] at h
    rw [step_leave (by simp [Loop.samples, hpoint]) hreturns, hpoint, Noticed]
    dsimp only
    rw [overrunEvents_access cycles s.exec (by simp), lateness_concat, if_neg Bool.false_ne_true,
      List.append_nil]
    exact h

theorem Noticed.step {s : Loop} (h : Noticed s) (hcounted : Counted s) (op : LoopOp) :
    Noticed (s.step op) := by
  cases op with
  | tick =>
    rw [Loop.step, Noticed]
    dsimp only
    rw [overrunEvents_onMinorTick]
    exact h
  | resync =>
    simp only [Loop.step]
    split
    · rename_i hout
      exact h.call hout rfl s.exec
    · exact h
  | wait =>
    simp only [Loop.step]
    split
    · rename_i hout
      exact h.call hout rfl s.exec
    · exact h
  | access cycles => exact h.access hcounted cycles

/-- Between calls the count is that of the late waits. -/
theorem Noticed.count {s : Loop} (h : Noticed s) (hout : s.point = .out) :
    s.exec.overrunEvents = UInt32.ofNat ((lateness s.collections).countP id) := by
  rw [Noticed, hout] at h
  exact h

end QiranFirmware.Exec
