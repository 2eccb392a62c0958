import QiranFirmware.Comm.Cmd
import QiranFirmware.Machine.Trace
import QiranFirmware.Mission.Effects

/-! # The stages a handler is called in

A handler is called by `dispatch`, behind the stage check, and again by `track` while it answers
BUSY. `CallEffect` says what one call of the module can do to the calls made and to the command in
flight; the rest follows from it.
-/
namespace QiranFirmware.Cmd

open Machine

def Leaves (x : HandlerCall) (i : Inflight) : Prop :=
  x.id = i.id ∧ x.parameter = i.parameter ∧ x.status = .errBusy

inductive CallEffect (c c' : Cmd) : Prop
  | quiet (hcalls : c'.calls = c.calls) (hinflight : c'.inflight = c.inflight)
  | dispatched (x : HandlerCall) (hidle : c.inflight = none) (hfirst : x.first = true)
      (hlegal : x.id.legalIn x.stage = true) (hcalls : c'.calls = c.calls ++ [x])
      (hinflight : ∀ i, c'.inflight = some i → Leaves x i)
  | tracked (x : HandlerCall) (i : Inflight) (hi : c.inflight = some i) (hfirst : x.first = false)
      (hid : x.id = i.id) (hparameter : x.parameter = i.parameter)
      (hcalls : c'.calls = c.calls ++ [x]) (hinflight : ∀ j, c'.inflight = some j → Leaves x j)

variable {answers : ℕ → HandlerRun} {stage : Stage}

theorem invoke_spec (h : Handler) (first : Bool) (id : CmdId) (parameter : UInt32) (c : Cmd)
    (v : Svc) : ∃ st v', invoke h answers stage first id parameter c v =
      (st, { c with calls := c.calls ++ [⟨id, parameter, stage, first, st⟩] }, v') :=
  ⟨_, _, rfl⟩

theorem dispatch_effect (id : CmdId) (parameter : UInt32) (sequence : UInt16) (receiptMs : UInt32)
    {c : Cmd} (v : Svc) (hidle : c.inflight = none) (hlegal : id.legalIn stage = true) :
    CallEffect c (dispatch answers stage id parameter sequence receiptMs c v).1 := by
  unfold dispatch
  split
  · exact .quiet rfl rfl
  · rename_i h _
    obtain ⟨st, v', hinvoke⟩ := @invoke_spec answers stage h true id parameter c v
    have hnone (i : Inflight) (hi : c.inflight = some i) : False := by
      rw [hidle] at hi
      cases hi
    rw [hinvoke]
    dsimp only
    split
    · exact .dispatched _ hidle rfl hlegal rfl fun i hi => (hnone i hi).elim
    · refine .dispatched _ hidle rfl hlegal rfl ?_
      intro i hi
      obtain rfl := Option.some.inj hi
      exact ⟨rfl, rfl, rfl⟩
    · exact .dispatched _ hidle rfl hlegal rfl fun i hi => (hnone i hi).elim

theorem process_effect (frame : List UInt8) (c : Cmd) (v : Svc) :
    CallEffect c (process answers stage frame c v).1 := by
  unfold process
  dsimp only
  split
  · exact .quiet rfl rfl
  split
  · exact .quiet rfl rfl
  split
  · exact .quiet rfl rfl
  rename_i id _ _ hidle
  split
  · exact .quiet rfl rfl
  rename_i hlegal
  split
  · exact .quiet rfl rfl
  · rcases @dispatch_effect answers stage id ((Buf.ofList frame).getU32 3)
      ((Buf.ofList frame).getU16 7) v.nowMs.toUInt32 { c with
        received := c.received + 1
        lastReceiptMs := v.nowMs.toUInt32
        processed := c.processed ++ [frame] } v.collectTime hidle (by simpa using hlegal) with
      ⟨hcalls, hinflight⟩ | ⟨x, _, hfirst, hlegal, hcalls, hinflight⟩ | ⟨x, i, hi, _⟩
    · exact .quiet hcalls hinflight
    · exact .dispatched x hidle hfirst hlegal hcalls hinflight
    · exact absurd (hidle.symm.trans hi) (by simp)

theorem track_effect (c : Cmd) (v : Svc) : CallEffect c (track answers stage c v).1 := by
  unfold track
  split
  · exact .quiet rfl rfl
  rename_i i hi
  split
  · exact .quiet rfl rfl
  · rename_i h _
    obtain ⟨st, v', hinvoke⟩ := @invoke_spec answers stage h false i.id i.parameter c v
    rw [hinvoke]
    dsimp only
    split
    · split
      · exact .tracked _ i hi rfl rfl rfl rfl fun j hj => by simp [sendResult] at hj
      · refine .tracked _ i hi rfl rfl rfl rfl ?_
        intro j hj
        obtain rfl : i = j := Option.some.inj (hi.symm.trans hj)
        exact ⟨rfl, rfl, rfl⟩
    · exact .tracked _ i hi rfl rfl rfl rfl fun j hj => by simp [sendResult] at hj
    · exact .tracked _ i hi rfl rfl rfl rfl fun j hj => by simp [sendResult] at hj

def BusyAfter (calls : List HandlerCall) (id : CmdId) (parameter : UInt32) : Prop :=
  ∃ y, calls.getLast? = some y ∧ y.id = id ∧ y.parameter = parameter ∧ y.status = .errBusy

/-- A call is the first one of its command, in a stage that permits it, or repeats the call
before it. -/
def Follows (before : List HandlerCall) (x : HandlerCall) : Prop :=
  x.first = true ∧ x.id.legalIn x.stage = true ∨
    x.first = false ∧ BusyAfter before x.id x.parameter

structure Tracked (c : Cmd) : Prop where
  inflight : ∀ i, c.inflight = some i → BusyAfter c.calls i.id i.parameter
  each : EachAfter Follows c.calls

theorem Tracked.effect {c c' : Cmd} (h : Tracked c) (he : CallEffect c c') : Tracked c' := by
  have hlast (x : HandlerCall) (hcalls : c'.calls = c.calls ++ [x])
      (hinflight : ∀ i, c'.inflight = some i → Leaves x i) (i : Inflight)
      (hi : c'.inflight = some i) : BusyAfter c'.calls i.id i.parameter := by
    rw [hcalls]
    exact ⟨x, by simp, hinflight i hi⟩
  cases he with
  | quiet hcalls hinflight =>
    refine ⟨?_, hcalls ▸ h.each⟩
    intro i hi
    rw [hcalls]
    exact h.inflight i (hinflight ▸ hi)
  | dispatched x hidle hfirst hlegal hcalls hinflight =>
    refine ⟨hlast x hcalls hinflight, ?_⟩
    rw [hcalls]
    exact eachAfter_concat.mpr ⟨h.each, .inl ⟨hfirst, hlegal⟩⟩
  | tracked x i hi hfirst hid hparameter hcalls hinflight =>
    refine ⟨hlast x hcalls hinflight, ?_⟩
    rw [hcalls]
    refine eachAfter_concat.mpr ⟨h.each, .inr ⟨hfirst, ?_⟩⟩
    rw [hid, hparameter]
    exact h.inflight i hi

theorem Tracked.quiet {c c' : Cmd} (h : Tracked c) (hcalls : c'.calls = c.calls)
    (hinflight : c'.inflight = c.inflight) : Tracked c' :=
  h.effect (.quiet hcalls hinflight)

theorem tracked_takeByte {s : Cmd × Svc} (h : Tracked s.1) (b : UInt8) :
    Tracked (takeByte answers stage s b).1 := by
  unfold takeByte
  dsimp only
  split
  · exact h
  split
  · split
    · have hheld : Tracked { s.1 with asm := s.1.asm ++ [b] } := h.quiet rfl rfl
      exact (hheld.effect (process_effect ..)).quiet rfl rfl
    · exact h.quiet rfl rfl
  · exact h.quiet rfl rfl

theorem tracked_assembleLoop (fuel : ℕ) {s : Ring × Cmd × Svc} (h : Tracked s.2.1) :
    Tracked (assembleLoop answers stage fuel s).2.1 := by
  induction fuel generalizing s with
  | zero => exact h
  | succ fuel ih =>
    obtain ⟨rx, s⟩ := s
    have hchunk : ∀ (chunk : List UInt8) {s : Cmd × Svc}, Tracked s.1 →
        Tracked (chunk.foldl (takeByte answers stage) s).1 := by
      intro chunk
      induction chunk with
      | nil => exact id
      | cons b chunk ihc => exact fun hs => ihc (tracked_takeByte hs b)
    simp only [assembleLoop]
    split
    · exact ih (hchunk _ h)
    · exact hchunk _ h

theorem tracked_service (u : Uart) {c : Cmd} (v : Svc) (h : Tracked c) :
    Tracked (service answers stage u c v).2.1 := by
  have htrack : Tracked (track answers stage c v).1 := h.effect (track_effect c v)
  exact tracked_assembleLoop 5 (s := (u.rx, track answers stage c v)) htrack

theorem tracked_interruptsLoop (fuel : ℕ) {s : IrqSlot × Cmd} (h : Tracked s.2) :
    Tracked (interruptsLoop fuel s).2 := by
  induction fuel generalizing s with
  | zero => exact h
  | succ fuel ih =>
    simp only [interruptsLoop]
    split
    · exact h
    · refine ih ?_
      unfold onEvent
      split
      · exact h.quiet rfl rfl
      · exact h

theorem tracked_submit (frame : List UInt8) {c : Cmd} (v : Svc) (h : Tracked c) :
    Tracked (submit answers stage frame c v).2.1 := by
  unfold submit
  split
  · exact h
  split
  · exact h
  split
  · exact h
  · exact h.effect (process_effect frame c v)

/-- The call repeats one that `dispatch` made in a stage that permits it: the same command with the
same parameter, called by nothing but `track` and answered BUSY every time since. -/
def Repeats (before : List HandlerCall) (x : HandlerCall) : Prop :=
  x.first = false ∧ ∃ pre y mid, before = pre ++ y :: mid ∧
    y.first = true ∧ y.id.legalIn y.stage = true ∧ (∀ z ∈ mid, z.first = false) ∧
    ∀ z ∈ y :: mid, z.id = x.id ∧ z.parameter = x.parameter ∧ z.status = .errBusy

/-- Going back from one repetition to the one before it ends at a dispatch. -/
theorem repeats_of_follows {before : List HandlerCall} {x : HandlerCall}
    (h : EachAfter Follows before) (hx : Follows before x) :
    (x.first = true ∧ x.id.legalIn x.stage = true) ∨ Repeats before x := by
  induction before using List.reverseRecOn generalizing x with
  | nil =>
    rcases hx with hfirst | ⟨-, y, hy, -⟩
    · exact .inl hfirst
    · simp at hy
  | append_singleton before w ih =>
    rcases hx with hfirst | ⟨hx, y, hy, hbusy⟩
    · exact .inl hfirst
    obtain rfl : w = y := by simpa using hy
    obtain ⟨hid, hparameter, hstatus⟩ := hbusy
    obtain ⟨hbefore, hw⟩ := eachAfter_concat.mp h
    rcases ih hbefore hw with ⟨hfirst, hlegal⟩ | ⟨hwlater, pre, y, mid, heq, hfirst, hlegal, hmid, hsame⟩
    · refine .inr ⟨hx, before, w, [], rfl, hfirst, hlegal, by simp, ?_⟩
      intro z hz
      obtain rfl := List.mem_singleton.mp hz
      exact ⟨hid, hparameter, hstatus⟩
    · refine .inr ⟨hx, pre, y, mid ++ [w], by simp [heq], hfirst, hlegal, ?_, ?_⟩
      · intro z hz
        rcases List.mem_append.mp hz with hz | hz
        · exact hmid z hz
        · rw [List.mem_singleton.mp hz, hwlater]
      · intro z hz
        rw [← List.cons_append] at hz
        rcases List.mem_append.mp hz with hz | hz
        · obtain ⟨hzid, hzparameter, hzbusy⟩ := hsame z hz
          exact ⟨hzid.trans hid, hzparameter.trans hparameter, hzbusy⟩
        · rw [List.mem_singleton.mp hz]
          exact ⟨hid, hparameter, hstatus⟩

structure Commanding where
  cmd : Cmd := {}
  mission : Mission := {}
  v : Svc := {}

inductive CommandingOp
  | register (id : CmdId)
  | submit (answers : ℕ → HandlerRun) (frame : List UInt8)
  | interrupts (u : Uart)
  | service (answers : ℕ → HandlerRun) (u : Uart)
  | mission (op : Mission.MissionOp)

def commandingStep (s : Commanding) : CommandingOp → Commanding
  | .register id => { s with cmd := (register id s.cmd).2 }
  | .submit answers frame =>
    let (_, cmd, v) := submit answers s.mission.stage frame s.cmd s.v
    { s with cmd, v }
  | .interrupts u => { s with cmd := (serviceInterrupts u s.cmd).2 }
  | .service answers u =>
    let (_, cmd, v) := service answers s.mission.stage u s.cmd s.v
    { s with cmd, v }
  | .mission op =>
    let (mission, v) := Mission.missionStep (s.mission, s.v) op
    { s with mission, v }

theorem tracked_step {s : Commanding} (h : Tracked s.cmd) (op : CommandingOp) :
    Tracked (commandingStep s op).cmd := by
  cases op with
  | register id =>
    simp only [commandingStep, register]
    split
    · exact h
    · exact h.quiet rfl rfl
  | submit answers frame => exact tracked_submit frame s.v h
  | interrupts u => exact tracked_interruptsLoop 9 (s := (u.irq, s.cmd)) h
  | service answers u => exact tracked_service u s.v h
  | mission op => exact h

def AppliesEnergy (id : CmdId) : Prop :=
  id = .payloadOn ∨ id = .processorOn ∨ id = .laserOn ∨ id = .heatersOn

theorem legalIn_of_appliesEnergy {id : CmdId} (h : AppliesEnergy id) (stage : Stage) :
    id.legalIn stage = true ↔ stage.index ≤ Stage.precond.index := by
  rcases h with rfl | rfl | rfl | rfl <;> cases stage <;> decide

/-- A handler is first called in a stage its command's mask permits, so no energy is first applied
past PRECOND; every other call repeats such a one that has been BUSY ever since. -/
theorem called_when_permitted (mission : Mission) (v : Svc) (ops : List CommandingOp) :
    EachAfter (fun before x => x.first = true ∧ x.id.legalIn x.stage = true ∨ Repeats before x)
        (run commandingStep { mission, v } ops).cmd.calls ∧
      ∀ x ∈ (run commandingStep { mission, v } ops).cmd.calls, x.first = true →
        AppliesEnergy x.id → x.stage.index ≤ Stage.precond.index := by
  have htracked : Tracked (run commandingStep { mission, v } ops).cmd :=
    @run_keeps _ _ commandingStep (fun s => Tracked s.cmd) (fun _ op hs => tracked_step hs op)
      { mission, v } ⟨fun i hi => absurd hi (by simp), eachAfter_nil _⟩ ops
  constructor
  · intro before x after heq
    have heach := htracked.each
    rw [heq] at heach
    exact repeats_of_follows heach.left (heach before x after rfl)
  · intro x hx hfirst henergy
    obtain ⟨before, after, heq⟩ := List.append_of_mem hx
    rcases htracked.each before x after heq with ⟨-, hlegal⟩ | ⟨hlater, -⟩
    · exact (legalIn_of_appliesEnergy henergy _).mp hlegal
    · simp [hfirst] at hlater

/-- `heaters_on` is given at boot and stays busy while the sequence moves on to bringing up the
laser, where its handler is called again. -/
theorem called_past_precond : ∃ x ∈ (run commandingStep {} [
      .register .heatersOn,
      .mission (.register .boot),
      .mission (.register .precond),
      .submit (fun _ => { status := .errBusy }) (build .heatersOn 0 1),
      .mission (.step (fun _ => 0) none { out := { result := .done } }),
      .mission (.step (fun _ => 0) none { out := { result := .done } }),
      .service (fun _ => {}) {}]).cmd.calls,
    AppliesEnergy x.id ∧ Stage.precond.index < x.stage.index ∧ x.id.legalIn x.stage = false := by
  refine ⟨⟨.heatersOn, 0, .laserBringup, false, .ok⟩, ?_, .inr (.inr (.inr rfl)), ?_⟩
  · decide +kernel
  · decide

end QiranFirmware.Cmd
