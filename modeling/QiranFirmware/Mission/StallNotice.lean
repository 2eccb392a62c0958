import QiranFirmware.Mission.Effects
import QiranFirmware.Svc.FdirPass

/-! # A stalled mission has been reported

Runs of cycles, each a step of the sequence and then a service pass with an uplink attached. The
run remembers where in the trace the current stage was entered from another one, and which
classes have been elevated without a clear since before that: those are the ones a stall can no
longer have reported.
-/
namespace QiranFirmware.Mission

open Machine Svc SvcCall

/-- The sequence and the fault service, with the length of the trace when the current stage was
last entered from another one and the classes elevated ever since before that. -/
structure Watch where
  m : Mission
  v : Svc
  mark : ℕ := 0
  stale : FaultId → Bool := fun _ => false

inductive WatchOp
  | cycle (config : ConfigParam → Int32) (up : Uplink) (r : StepRun) (pc : PlatformCounters)
  | report (id : FaultId) (detail : UInt32)
  | register (stage : Stage)
  | tick

namespace Watch

def init : Watch where
  m := (Mission.init {}).1
  v := (Mission.init {}).2

def cycle (config : ConfigParam → Int32) (up : Uplink) (r : StepRun) (pc : PlatformCounters)
    (s : Watch) : Watch :=
  let (m, v) := step config (some up) r s.m s.v
  let entered := decide (m.stage ≠ s.m.stage)
  { m
    v := errorHandlingService (some up) pc v
    mark := if entered then v.trace.length else s.mark
    stale := fun c => (v.fdir.record c).elevated && (entered || s.stale c) }

def step (s : Watch) : WatchOp → Watch
  | .cycle config up r pc => s.cycle config up r pc
  | .report id detail => { s with v := s.v.report id detail }
  | .register stage => { s with m := (register stage s.m).2 }
  | .tick => { s with v := s.v.tick }

/-- A report of the class now brings the uplink's call with it, or the call has gone out since the
stage was entered. -/
def Escalates (s : Watch) (c : FaultId) : Prop :=
  (policy c).severity = .severe ∨ (policy c).severity = .critical ∧ s.stale c = false ∧
    ((s.v.fdir.record c).elevated = true ∨
      (policy c).limit.toNat ≤ (s.v.occurrences c).toNat + 1)

def Reached (s : Watch) (c : FaultId) (v : Svc) : Prop :=
  (policy c).severity = .severe ∨ (policy c).severity = .critical ∧ s.stale c = false ∧
    ((s.v.fdir.record c).elevated = true ∨ (policy c).limit.toUInt32 ≤ v.occurrences c)

/-- Every answer that may stall the stage is about a class whose report escalates. A retry stalls
only at its class's limit, so there it is enough that the class is not stale. -/
def Heard (s : Watch) : WatchOp → Prop
  | .cycle _ _ r _ => match r.out.result with
    | .retry => s.stale (faultOf s.m.stage r.out) = false
    | .back => s.m.stage.index ≤ r.out.backTo → s.Escalates (faultOf s.m.stage r.out)
    | .abort => s.Escalates (faultOf s.m.stage r.out)
    | .working => True
    | .done => True
  | _ => True

structure Noticed (s : Watch) : Prop where
  bounded : Bounded s.v
  mark : s.mark ≤ s.v.trace.length
  elevated : ∀ c, (s.v.fdir.record c).elevated = true → s.stale c = true ∨ Alerted s.mark c s.v

theorem noticed_init : Noticed init where
  bounded := bounded_init
  mark := Nat.zero_le _
  elevated c h := by simp [init, Mission.init, collectTime] at h

end Watch

theorem elevated_step (config : ConfigParam → Int32) (up : Option Uplink) (r : StepRun)
    (m : Mission) (v : Svc) {c : FaultId}
    (h : ((Mission.step config up r m v).2.fdir.record c).elevated = true) :
    (v.fdir.record c).elevated = true := by
  have hreporting {new : List SvcCall} {u w : Svc} (hnew : Reporting new u w)
      (hw : (w.fdir.record c).elevated = true) : (u.fdir.record c).elevated = true :=
    (hnew.elevated c).symm.trans hw
  rcases step_cases config up r m v with ⟨-, new, hnew, -⟩ | ⟨-, -, -, new, m₁, v₁, hnew, -, he⟩
  · exact hreporting hnew h
  rw [he] at h
  refine hreporting hnew ?_
  cases hr : r.out.result with
  | working => simpa [apply, hr] using h
  | done =>
    obtain ⟨b, hb, -⟩ := apply_done up m₁ v₁ hr
    have hclear := hreporting hb h
    by_cases hc : c = faultOf m₁.stage r.out
    · simp [Svc.clear, hc] at hclear
    · simpa [Svc.clear, hc] using hclear
  | retry =>
    obtain ⟨b, hb, -⟩ := apply_retry up m₁ v₁ hr
    exact hreporting hb h
  | back =>
    obtain ⟨b, hb, -⟩ := apply_back up m₁ v₁ hr
    exact hreporting hb h
  | abort => exact hreporting (apply_abort up m₁ v₁ hr).1 h

namespace Watch

theorem Noticed.step {s : Watch} (hs : Noticed s) (op : WatchOp) : Noticed (s.step op) := by
  cases op with
  | cycle config up r pc =>
    obtain ⟨⟨m, v⟩, hmv⟩ : ∃ p, Mission.step config (some up) r s.m s.v = p := ⟨_, rfl⟩
    have hmoves : Moves s.v v := by
      have h := moves_step config (some up) r s.m s.v
      rwa [hmv] at h
    have hold {c : FaultId} (h : (v.fdir.record c).elevated = true) :
        (s.v.fdir.record c).elevated = true := by
      refine elevated_step config (some up) r s.m s.v ?_
      rwa [hmv]
    obtain ⟨w, hw⟩ : ∃ w, errorHandlingService (some up) pc v = w := ⟨_, rfl⟩
    have hpass : Moves v w := hw ▸ moves_errorHandlingService (some up) pc v
    have hnew {mark : ℕ} {c : FaultId} (hmark : mark ≤ v.trace.length)
        (h : (w.fdir.record c).elevated = true) :
        (v.fdir.record c).elevated = true ∨ Alerted mark c w := by
      rw [← hw] at h ⊢
      exact elevated_errorHandlingService hmark h
    have hcycle : s.step (.cycle config up r pc) = s.cycle config up r pc := rfl
    simp only [hcycle, cycle, hmv, hw]
    by_cases hentered : m.stage = s.m.stage
    · have hmark : s.mark ≤ v.trace.length := hs.mark.trans hmoves.isPrefix.length_le
      simp only [hentered, ne_eq, not_true_eq_false, decide_false, Bool.false_eq_true, ↓reduceIte,
        Bool.false_or]
      refine ⟨hpass.bounded (hmoves.bounded hs.bounded), hmark.trans hpass.isPrefix.length_le,
        ?_⟩
      intro c hc
      rcases hnew hmark hc with h | h
      · rcases hs.elevated c (hold h) with hstale | halert
        · exact .inl (by simp [h, hstale])
        · exact .inr (halert.mono (hmoves.trans hpass).isPrefix)
      · exact .inr h
    · simp only [hentered, ne_eq, not_false_eq_true, decide_true, ↓reduceIte, Bool.true_or,
        Bool.and_true]
      refine ⟨hpass.bounded (hmoves.bounded hs.bounded), hpass.isPrefix.length_le, ?_⟩
      intro c hc
      exact hnew (Nat.le_refl _) hc
  | report id detail =>
    have hrep := reporting_report id detail s.v
    refine ⟨(Moves.reporting hrep).bounded hs.bounded,
      hs.mark.trans (Moves.reporting hrep).isPrefix.length_le, ?_⟩
    intro c hc
    exact (hs.elevated c ((hrep.elevated c).symm.trans hc)).imp_right fun h =>
      h.mono (Moves.reporting hrep).isPrefix
  | register stage => exact ⟨hs.bounded, hs.mark, hs.elevated⟩
  | tick =>
    exact ⟨(Moves.reporting (reporting_tick s.v)).bounded hs.bounded, hs.mark, hs.elevated⟩

/-- A class reported by the step has been escalated by the end of the cycle, or since the stage
was entered. -/
theorem Noticed.alerted {s : Watch} (hs : Noticed s) {up : Uplink} {pc : PlatformCounters}
    {c : FaultId} {detail : UInt32} {new : List SvcCall} {v w : Svc} (hnew : Reporting new s.v v)
    (hmem : .report c detail ∈ new) (hw : errorHandlingService (some up) pc v = w)
    (hlt : w.trace.countP (isReport c) < 2 ^ 32)
    (hesc : s.Reached c v) : Alerted s.mark c w := by
  have hne : c ≠ .none := by
    rintro rfl
    simp [Reached, policy] at hesc
  have hmoves := Moves.reporting hnew
  have hpass : Moves v w := hw ▸ moves_errorHandlingService (some up) pc v
  have hmark := hs.mark.trans hmoves.isPrefix.length_le
  have hunserviced : v.unserviced c ≠ 0 := by
    have hle := hpass.isPrefix.sublist.countP_le (p := isReport c)
    have hpos := countP_isReport_pos hmem
    have hbound := (hs.bounded c).1
    rw [hnew.trace, List.countP_append] at hle
    rw [hnew.unserviced, ne_eq, ← UInt32.toNat_inj, UInt32.toNat_add, UInt32.toNat_ofNat',
      UInt32.toNat_zero]
    omega
  have hdue (hdue : Due c v) : Alerted s.mark c w := by
    rw [← hw] at hlt ⊢
    exact alerted_errorHandlingService pc hne ⟨hdue, hunserviced⟩ (hmoves.bounded hs.bounded)
      hmark hlt
  rcases hesc with hsevere | ⟨hcrit, hstale, hreached⟩
  · exact hdue (.inl hsevere)
  · cases helev : (s.v.fdir.record c).elevated with
    | true =>
      rcases hs.elevated c helev with h | h
      · simp [hstale] at h
      · exact h.mono (hmoves.trans hpass).isPrefix
    | false =>
      refine hdue (.inr ⟨hcrit, hreached.resolve_left (by simp [helev]), ?_⟩)
      rw [hnew.elevated, helev]

theorem Escalates.reached {s : Watch} {c : FaultId} (h : s.Escalates c) (hs : Bounded s.v)
    {detail : UInt32} {new : List SvcCall} {v : Svc} (hnew : Reporting new s.v v)
    (hmem : .report c detail ∈ new) (hlt : v.trace.countP (isReport c) < 2 ^ 32) :
    s.Reached c v := by
  have hcount := hnew.counted.grow hs hlt
  have hpos := countP_isReport_pos hmem
  refine h.imp_right fun ⟨hcrit, hstale, hreached⟩ => ⟨hcrit, hstale, hreached.imp_right ?_⟩
  intro h
  rw [UInt32.le_iff_toNat_le, UInt16.toNat_toUInt32]
  omega

/-- A cycle that stalls the sequence has had the uplink called, by its end and since the stage was
entered, for the class that the step named. -/
theorem stall_noticed {ops : List WatchOp} {config : ConfigParam → Int32} {up : Uplink}
    {r : StepRun} {pc : PlatformCounters}
    (h : Along step Heard init (ops ++ [.cycle config up r pc]))
    (hreports : ∀ c, ((run step init ops).cycle config up r pc).v.trace.countP (isReport c) < 2 ^ 32)
    (hbefore : (run step init ops).m.stalled = false)
    (hafter : ((run step init ops).cycle config up r pc).m.stalled = true) :
    Alerted ((run step init ops).cycle config up r pc).mark
      (faultOf (run step init ops).m.stage r.out)
      ((run step init ops).cycle config up r pc).v := by
  obtain ⟨s, hs⟩ : ∃ s, run step init ops = s := ⟨_, rfl⟩
  obtain ⟨hops, hheard⟩ := along_append.mp h
  have hnoticed : Noticed s := hs ▸ @run_invariant _ _ step Heard Noticed
    (fun _ op hs _ => hs.step op) _ _ noticed_init hops
  rw [hs] at hheard hreports hbefore hafter ⊢
  obtain ⟨hheard, -⟩ := hheard
  obtain ⟨⟨m, v⟩, hmv⟩ : ∃ p, Mission.step config (some up) r s.m s.v = p := ⟨_, rfl⟩
  obtain ⟨w, hw⟩ : ∃ w, errorHandlingService (some up) pc v = w := ⟨_, rfl⟩
  have hpass : Moves v w := hw ▸ moves_errorHandlingService (some up) pc v
  simp only [cycle, hmv, hw] at hreports hafter ⊢
  have hlt : v.trace.countP (isReport (faultOf s.m.stage r.out)) < 2 ^ 32 :=
    lt_of_le_of_lt hpass.isPrefix.sublist.countP_le (hreports _)
  obtain ⟨hstage, ⟨new, hnew, hmem⟩, hcases⟩ := stall_cases hbefore hmv hafter
  have hreached : s.Reached (faultOf s.m.stage r.out) v := by
    simp only [Heard] at hheard
    rcases hcases with ⟨hr, hex⟩ | ⟨hr, hle⟩ | hr
    · rw [hr] at hheard
      obtain ⟨hlimit, hreached⟩ := retriesExhausted_iff.mp hex
      exact .inr ⟨(limit_ne_zero_iff _).mp hlimit, hheard, .inr hreached⟩
    · rw [hr] at hheard
      exact (hheard hle).reached hnoticed.bounded hnew hmem hlt
    · rw [hr] at hheard
      exact Escalates.reached hheard hnoticed.bounded hnew hmem hlt
  -- The stall leaves the stage as it is, so the mark stays where it was.
  simp only [hstage, ne_eq, not_true_eq_false, decide_false, Bool.false_eq_true, ↓reduceIte]
  exact hnoticed.alerted hnew hmem hw (hreports _) hreached

def accepting : Uplink := fun _ => (.ok, [])

def plainCycle (result : StepResult) : WatchOp :=
  .cycle (fun _ => 0) accepting { out := { result } } {}

/-- A boot stage whose third attempt fails: the power reset has been requested. -/
theorem stall_noticed_retries :
    let s := run step init [.register .boot, plainCycle .retry, plainCycle .retry]
    let w := s.cycle (fun _ => 0) accepting { out := { result := .retry } } {}
    faultOf s.m.stage { result := .retry } = .devinit ∧
      Alerted w.mark (faultOf s.m.stage { result := .retry }) w.v :=
  have hfresh (s : Watch) (h : s.stale (faultOf s.m.stage { result := .retry }) = false) :
      Heard s (plainCycle .retry) := h
  ⟨by decide +kernel, stall_noticed
    ⟨trivial, hfresh _ (by decide +kernel), hfresh _ (by decide +kernel),
      hfresh _ (by decide +kernel), trivial⟩
    (by decide +kernel) (by decide +kernel) (by decide +kernel)⟩

/-- A boot stage that cannot proceed stalls below its class's limit, and nothing is called. -/
theorem abort_stalls_silently :
    let w := run step init [.register .boot, plainCycle .abort]
    w.m.stalled = true ∧ w.m.stage = .boot ∧ w.mark = 0 ∧ ¬ Alerted w.mark .devinit w.v := by
  refine ⟨by decide +kernel, by decide +kernel, by decide +kernel, ?_⟩
  rintro ⟨x, hx, hc⟩
  have hnone : ∀ x ∈ (run step init [.register .boot, plainCycle .abort]).v.trace,
      x.isUplink .devinit = false := by decide +kernel
  rw [hnone x (List.mem_of_mem_drop hx)] at hc
  exact Bool.false_ne_true hc

end Watch

end QiranFirmware.Mission
