import QiranFirmware.Comm.HkRuns

/-! # The link as the fault service sees it

For the services a run over the housekeeping link is a run over uplinks that only answer: the same
calls of the fault service in the same order, with reports and ticks between them.
-/
namespace QiranFirmware

open Machine

namespace Svc

inductive ServiceOp
  | report (id : FaultId) (detail : UInt32)
  | tick
  | clear (id : FaultId)
  | pass (up : Uplink) (c : PlatformCounters)
  | reentry (up : Uplink) (cause : FaultId)

def serviceStep (v : Svc) : ServiceOp → Svc
  | .report id detail => v.report id detail
  | .tick => v.tick
  | .clear id => v.clear id
  | .pass up c => errorHandlingService (some up) c v
  | .reentry up cause => reentryNote (some up) cause v

inductive Asked
  | clear (id : FaultId)
  | pass (c : PlatformCounters)
  | reentry (cause : FaultId)

def ServiceOp.asked : ServiceOp → Option Asked
  | .report .. | .tick => none
  | .clear id => some (.clear id)
  | .pass _ c => some (.pass c)
  | .reentry _ cause => some (.reentry cause)

section AtTime
variable (time : Time) (v : Svc)

theorem iterate_atTime {f : Svc → Svc} (hf : ∀ v, f (v.atTime time) = (f v).atTime time) (n : ℕ) :
    f^[n] (v.atTime time) = (f^[n] v).atTime time := by
  induction n generalizing v with
  | zero => rfl
  | succ n ih =>
    rw [Function.iterate_succ_apply, Function.iterate_succ_apply, hf]
    exact ih _

theorem collectOverruns_atTime (c : PlatformCounters) :
    collectOverruns c (v.atTime time) = (collectOverruns c v).atTime time := by
  unfold collectOverruns
  by_cases hseen : c.overrunEvents ≠ v.fdir.seenOverruns
  · rw [if_pos hseen]
    refine (if_pos hseen).trans ?_
    exact @iterate_atTime time { v with fdir := { v.fdir with seenOverruns := c.overrunEvents } }
      (report .cycleOverrun c.overrunCyclesLost) (fun _ => rfl) _
  · rw [if_neg hseen]
    exact if_neg hseen

theorem collectUartOverflow_atTime (c : PlatformCounters) :
    collectUartOverflow c (v.atTime time) = (collectUartOverflow c v).atTime time := by
  unfold collectUartOverflow
  by_cases hseen : c.uartOverflow ≠ v.fdir.seenUartOverflow
  · rw [if_pos hseen]
    exact if_pos hseen
  · rw [if_neg hseen]
    exact if_neg hseen

theorem collectIrqDropped_atTime (c : PlatformCounters) (i : IrqId) :
    collectIrqDropped c (v.atTime time) i = (collectIrqDropped c v i).atTime time := by
  unfold collectIrqDropped
  by_cases hseen : c.irqDropped i ≠ v.fdir.seenIrqDropped i
  · rw [if_pos hseen]
    exact if_pos hseen
  · rw [if_neg hseen]
    exact if_neg hseen

theorem foldl_atTime {ι : Type} {f : Svc → ι → Svc}
    (hf : ∀ v i, f (v.atTime time) i = (f v i).atTime time) (is : List ι) :
    is.foldl f (v.atTime time) = (is.foldl f v).atTime time := by
  induction is generalizing v with
  | nil => rfl
  | cons i is ih =>
    rw [List.foldl_cons, hf]
    exact ih _

theorem pass_atTime (up : Option Uplink) (c : PlatformCounters) :
    errorHandlingService up c (v.atTime time) = (errorHandlingService up c v).atTime time := by
  have hcollect : collectPlatformCounters c (v.atTime time) =
      (collectPlatformCounters c v).atTime time := by
    rw [collectPlatformCounters, collectOverruns_atTime, collectUartOverflow_atTime]
    exact foldl_atTime time _ (fun v i => collectIrqDropped_atTime time v c i) _
  rw [errorHandlingService, hcollect]
  exact foldl_serviceClass_atTime time _ up _

theorem reentryNote_atTime (up : Option Uplink) (cause : FaultId) :
    reentryNote up cause (v.atTime time) = (reentryNote up cause v).atTime time := by
  unfold reentryNote
  by_cases hover : reentryLimit < v.fdir.reentries + 1
  · refine (if_pos hover).trans ?_
    rw [if_pos hover]
    exact escalate_atTime time (logEvent cause.code (v.fdir.reentries + 1)
      { v with fdir := { v.fdir with reentries := v.fdir.reentries + 1 } }) up cause _
  · refine (if_neg hover).trans ?_
    rw [if_neg hover]
    rfl

theorem serviceStep_atTime (op : ServiceOp) :
    serviceStep (v.atTime time) op = (serviceStep v op).atTime time := by
  cases op with
  | report | tick | clear => rfl
  | pass up c => exact pass_atTime time v (some up) c
  | reentry up cause => exact reentryNote_atTime time v (some up) cause

end AtTime

theorem reentryNoteOver_refines {τ : Type} {up : UplinkOver τ} (h : Replies up) (cause : FaultId)
    (t : τ) (v : Svc) : ∃ (u : Uplink) (time : Time),
      (reentryNoteOver up cause t v).2 = (reentryNote (some u) cause v).atTime time := by
  unfold reentryNoteOver reentryNote
  dsimp only
  split
  · obtain ⟨r, time, heq⟩ := escalateOver_refines h cause (v.fdir.reentries + 1) t
      (logEvent cause.code (v.fdir.reentries + 1)
        { v with fdir := { v.fdir with reentries := v.fdir.reentries + 1 } })
    exact ⟨fun _ => r, time, heq⟩
  · exact ⟨fun _ => (.ok, []), v.time, rfl⟩

/-- The two services differ in nothing but the time, and have been asked for this. -/
def Follows (asked : List Asked) (v w : Svc) : Prop :=
  ∃ ops time, ops.filterMap ServiceOp.asked = asked ∧ w = (run serviceStep v ops).atTime time

namespace Follows
variable {u v w : Svc} {a b : List Asked}

theorem run_atTime (time : Time) (v : Svc) (ops : List ServiceOp) :
    run serviceStep (v.atTime time) ops = (run serviceStep v ops).atTime time :=
  foldl_atTime time v (fun v op => serviceStep_atTime time v op) ops

theorem trans (h : Follows a u v) (k : Follows b v w) : Follows (a ++ b) u w := by
  obtain ⟨xs, time, rfl, rfl⟩ := h
  obtain ⟨ys, time', rfl, rfl⟩ := k
  refine ⟨xs ++ ys, time', List.filterMap_append, ?_⟩
  rw [run_atTime, run_append]
  rfl

theorem single (op : ServiceOp) (time : Time) (v : Svc) :
    Follows op.asked.toList v ((serviceStep v op).atTime time) := by
  refine ⟨[op], time, ?_, rfl⟩
  cases h : op.asked <;> simp [h]

theorem atTime (time : Time) (v : Svc) : Follows [] v (v.atTime time) := ⟨[], time, rfl, rfl⟩

theorem refl (v : Svc) : Follows [] v v := atTime v.time v

theorem reports (faults : List (FaultId × UInt32)) (v : Svc) : Follows [] v (v.reportAll faults) := by
  refine ⟨faults.map fun f => .report f.1 f.2, (v.reportAll faults).time, ?_, ?_⟩
  · rw [List.filterMap_map]
    exact List.filterMap_eq_nil_iff.mpr fun _ _ => rfl
  · rw [run, List.foldl_map]
    rfl

theorem ticks (n : UInt32) (v : Svc) : Follows [] v { v with rawTick := v.rawTick + n } := by
  have hticks (k : ℕ) (v : Svc) : run serviceStep v (List.replicate k .tick) =
      { v with rawTick := v.rawTick + UInt32.ofNat k } := by
    induction k generalizing v with
    | zero =>
      show v = { v with rawTick := v.rawTick + 0 }
      rw [UInt32.add_zero]
    | succ k ih =>
      rw [List.replicate_succ, run_cons, ih, Nat.add_comm, UInt32.ofNat_add, ← UInt32.add_assoc]
      rfl
  refine ⟨List.replicate n.toNat .tick, v.time, ?_, ?_⟩
  · exact List.filterMap_eq_nil_iff.mpr fun x hx => by rw [List.eq_of_mem_replicate hx]; rfl
  · rw [hticks, UInt32.ofNat_toNat]
    rfl

end Follows

end Svc

namespace HkLink
variable {answers : ℕ → TransmitRun} {l : HkLink} {v : Svc}

open Svc (Follows)

theorem follows_sample (k : Hk) : Follows [] v (k.sample v).2.2 := by
  unfold Hk.sample
  cases k.sampler with
  | none => exact .reports [(.hkSample, 0)] v
  | some sampler =>
    dsimp only
    split
    · exact .reports _ v
    · exact (Follows.reports (sampler Hk.zeroSample).reports v).trans (.reports [(.hkSample, 1)] _)

theorem transmit_reports (data : List UInt8) :
    ∃ faults, (transmit answers data l v).2.2 = v.reportAll faults := by
  unfold transmit
  split
  · exact ⟨[(.hkTransmit, 0)], rfl⟩
  · dsimp only
    split
    · refine ⟨(answers l.wire.length).reports ++ [(.hkTransmit, (answers l.wire.length).status.code)], ?_⟩
      rw [Svc.reportAll, Svc.reportAll, List.foldl_append]
      rfl
    · exact ⟨(answers l.wire.length).reports, rfl⟩

theorem statusSend_reports (report : StatusReport) : ∃ faults time,
    (statusSend answers report l v).2.2 = (v.reportAll faults).atTime time := by
  obtain ⟨status, heq⟩ := statusSend_eq answers l v report
  obtain ⟨faults, htransmit⟩ := @transmit_reports answers { l with status } v.collectTime
    (frameBytes (Hk.statusFrameOf report v).fields)
  refine ⟨faults, v.collectTime.time, ?_⟩
  rw [heq]
  exact htransmit.trans (Svc.reportAll_atTime _ v faults)

theorem replies_uplink (payload : PayloadStatus) (health : HealthVerdict) :
    Svc.Replies (uplink payload health answers) := by
  intro call l v
  rw [uplink]
  exact statusSend_reports (reported payload health call l)

theorem follows_stage (period : UInt32) (w : Watchdog) (lag late : UInt32) :
    Follows [] v (hkStage period w lag late l v).2 := by
  cases hrecent : l.recent period v.nowMs with
  | true =>
    rw [hkStage_of_recent l v w lag late hrecent]
    exact .atTime _ v
  | false =>
    obtain ⟨k, frame, heq, -⟩ := hkStage_of_due l v w lag late hrecent
    have hlag : Follows [] v (lagging lag v) := (Follows.ticks lag v).trans (.atTime (v.collectTime).time _)
    have hsample : Follows [] v (l.toHk.sample (lagging lag v)).2.2 := hlag.trans (follows_sample l.toHk)
    have hlate := Follows.ticks late (l.toHk.sample (lagging lag v)).2.2
    rw [(quiet_sample (lagging lag v) l.toHk).rawTick] at hlate
    rw [heq, build_svc]
    exact hsample.trans (hlate.trans (.atTime _ _))

theorem follows_hkTransmit : Follows [] v (hkTransmit answers l v).2 := by
  obtain ⟨faults, heq⟩ := @transmit_reports answers l v (l.frame.bytes 0 l.staged)
  unfold hkTransmit
  split
  · exact .refl v
  · dsimp only
    rw [heq]
    exact .reports faults v

theorem follows_statusSend (report : StatusReport) :
    Follows [] v (statusSend answers report l v).2.2 := by
  obtain ⟨faults, time, heq⟩ := @statusSend_reports answers l v report
  rw [heq]
  exact (Follows.reports faults v).trans (.atTime time _)

end HkLink

namespace HkNode
variable {answers : ℕ → TransmitRun}

open Svc (Asked Follows)

def asked : HkOp → Option Asked
  | .clear id => some (.clear id)
  | .pass c => some (.pass c)
  | .reentry cause => some (.reentry cause)
  | .tick | .report .. | .stage .. | .transmit | .ready | .setSampler _ | .setInterlock .. |
    .setState .. => none

theorem pass_refines (s : HkNode) (c : PlatformCounters) : ∃ (u : Uplink) (time : Time),
    (s.step answers (.pass c)).v = (Svc.errorHandlingService (some u) c s.v).atTime time := by
  have hreplies : Svc.Replies (s.uplink answers) := HkLink.replies_uplink s.payload s.health
  obtain ⟨u, time, heq⟩ := Svc.errorHandlingServiceOver_refines hreplies c s.link s.v
  exact ⟨u, time, by rw [step_pass, heq]⟩

theorem follows_step (s : HkNode) (op : HkOp) :
    Follows (asked op).toList s.v (s.step answers op).v := by
  cases op with
  | tick => exact .single .tick s.v.time s.v
  | report id detail => exact .single (.report id detail) s.v.time s.v
  | clear id => exact .single (.clear id) s.v.time s.v
  | pass c =>
    obtain ⟨u, time, heq⟩ := pass_refines s c
    rw [heq]
    exact .single (.pass u c) time s.v
  | reentry cause =>
    have hreplies : Svc.Replies (s.uplink answers) := HkLink.replies_uplink s.payload s.health
    obtain ⟨u, time, heq⟩ := Svc.reentryNoteOver_refines hreplies cause s.link s.v
    rw [step_reentry, heq]
    exact .single (.reentry u cause) time s.v
  | stage period w lag late =>
    have hstage := @HkLink.follows_stage s.link s.v period w lag late
    cases hrecent : s.link.recent period s.v.nowMs with
    | true =>
      rw [step_stage_of_recent w lag late hrecent]
      exact .atTime _ s.v
    | false =>
      rw [step_stage_of_due w lag late hrecent]
      exact hstage
  | transmit =>
    rw [step_transmit]
    exact HkLink.follows_hkTransmit
  | ready =>
    have hsend := @HkLink.follows_statusSend answers s.link s.v (readyReport s.payload s.health)
    simp only [step_ready]
    exact hsend
  | setSampler | setInterlock | setState => exact .refl s.v

theorem follows_run (s : HkNode) (ops : List HkOp) :
    Follows (ops.filterMap asked) s.v (run (step answers) s ops).v := by
  induction ops generalizing s with
  | nil => exact .refl s.v
  | cons op ops ih =>
    have hasked : (op :: ops).filterMap asked = (asked op).toList ++ ops.filterMap asked := by
      rw [List.filterMap_cons]
      cases asked op <;> rfl
    rw [hasked]
    exact (follows_step s op).trans (ih _)

/-- A run over the link is a run over uplinks that only answer, asked for the same in the same order. The
status reports on the link name the faults that this has called its uplinks for, in their order, and the
fault service has counted as undelivered those of them that the link has refused. -/
theorem run_refines (answers : ℕ → TransmitRun) (rawTick : UInt32) (ops : List HkOp) :
    ∃ calls time, calls.filterMap Svc.ServiceOp.asked = ops.filterMap asked ∧
      let s := run (step answers) (start rawTick) ops
      let w := run Svc.serviceStep (start rawTick).v calls
      s.v = w.atTime time ∧ HkLink.faultsOn s.link.wire = w.notices ∧
        w.fdir.undelivered =
          UInt32.ofNat (s.link.wire.countP fun x => HkLink.isFault x && !HkLink.taken x) := by
  obtain ⟨calls, time, hasked, heq⟩ := @follows_run answers (start rawTick) ops
  obtain ⟨h, -⟩ := @keeps_run answers rawTick ops
  have htold := h.told
  have hundelivered := h.undelivered
  rw [heq] at htold hundelivered
  exact ⟨calls, time, hasked, heq, htold, hundelivered⟩

end HkNode

end QiranFirmware
