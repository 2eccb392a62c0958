import QiranFirmware.Svc.FdirEffects
import QiranFirmware.Machine.Preempt

/-! # The fault service with an interrupt between any two accesses

`svc_fdir.c` once more, one read or write of a static at a time. Run alone, each program does what
the function of `Svc` does. However their accesses are interleaved with interrupts, the count of
a class is that of its reports since it was cleared.
-/
namespace QiranFirmware.Svc

open Machine SvcCall

abbrev FdirProg (α : Type) := Prog Svc UplinkCall Status α

namespace Access

def report (id : FaultId) (detail : UInt32) : FdirProg Unit := do
  let prior ← Prog.disable
  let n ← Prog.get (·.fdir.reported id)
  Prog.modify fun v => { v with
    fdir := { v.fdir with reported := Function.update v.fdir.reported id (n + 1) }
    trace := v.trace ++ [.report id detail] }
  Prog.modify fun v => { v with
    fdir := { v.fdir with detail := Function.update v.fdir.detail id detail } }
  let now ← Prog.get (·.rawTick)
  Prog.modify fun v => { v with fdir := { v.fdir with tick := Function.update v.fdir.tick id now } }
  Prog.restore prior

/-- The body of `svc_log` has interrupts disabled throughout. -/
def logFault (id : FaultId) (severity : Severity) (detail : UInt32) : FdirProg Unit := do
  let prior ← Prog.disable
  Prog.modify (Svc.logFault id severity detail)
  Prog.restore prior

def setRecord (id : FaultId) (f : FaultRecord → FaultRecord) : FdirProg Unit :=
  Prog.modify fun v => { v with
    fdir := { v.fdir with record := Function.update v.fdir.record id (f (v.fdir.record id)) } }

def undelivered : FdirProg Unit := do
  let n ← Prog.get (·.fdir.undelivered)
  Prog.modify fun v => { v with fdir := { v.fdir with undelivered := n + 1 } }

def deliver (attached : Bool) (call : UplinkCall) : FdirProg Unit :=
  if attached then do
    Prog.modify fun v => { v with trace := v.trace ++ [.uplink call] }
    let st ← Prog.call call
    if st = .ok then pure () else undelivered
  else undelivered

def escalate (attached : Bool) (id : FaultId) (detail : UInt32) : FdirProg Unit := do
  let n ← Prog.get fun v => (v.fdir.record id).escalations
  Prog.modify fun v => { v with
    fdir := { v.fdir with
      record := Function.update v.fdir.record id { v.fdir.record id with escalations := n + 1 } }
    trace := v.trace ++ [.escalate id detail] }
  match (policy id).escalation with
  | .report => deliver attached (.reportFlag id (policy id).severity detail)
  | .powerReset => deliver attached (.requestPowerReset id)
  | .logOnly => pure ()

def noteFields (id : FaultId) (occurrences detail : UInt32) : FdirProg Unit := do
  setRecord id fun r => { r with lastDetail := detail }
  let tick ← Prog.get (·.fdir.tick id)
  setRecord id fun r => { r with lastTick := tick }
  setRecord id fun r => { r with flag := true }
  let severity := (policy id).severity
  let total ← Prog.get (·.fdir.bySeverity severity)
  Prog.modify fun v => { v with fdir := { v.fdir with
    bySeverity := Function.update v.fdir.bySeverity severity (total + occurrences) } }
  logFault id severity detail

def elevate (attached : Bool) (id : FaultId) (detail : UInt32) : FdirProg Unit :=
  match (policy id).severity with
  | .severe => escalate attached id detail
  | .critical =>
    if (policy id).limit ≠ 0 then do
      let count ← Prog.get fun v => (v.fdir.record id).occurrences
      let elevated ← Prog.get fun v => (v.fdir.record id).elevated
      if (policy id).limit.toUInt32 ≤ count ∧ elevated = false then do
        setRecord id fun r => { r with elevated := true }
        escalate attached id detail
      else pure ()
    else pure ()
  | .medium => pure ()
  | .minor => pure ()

def classify (attached : Bool) (id : FaultId) (occurrences : UInt32) : FdirProg Unit := do
  let detail ← Prog.get (·.fdir.detail id)
  let count ← Prog.get fun v => (v.fdir.record id).occurrences
  setRecord id fun r => { r with occurrences := count + occurrences }
  noteFields id occurrences detail
  elevate attached id detail

def collectOverruns (c : PlatformCounters) : FdirProg Unit := do
  let seen ← Prog.get (·.fdir.seenOverruns)
  if c.overrunEvents ≠ seen then do
    let seen ← Prog.get (·.fdir.seenOverruns)
    Prog.modify fun v => { v with fdir := { v.fdir with seenOverruns := c.overrunEvents } }
    Prog.each (fun _ => report .cycleOverrun c.overrunCyclesLost)
      (List.replicate (c.overrunEvents - seen).toNat ())
  else pure ()

def collectUartOverflow (c : PlatformCounters) : FdirProg Unit := do
  let seen ← Prog.get (·.fdir.seenUartOverflow)
  if c.uartOverflow ≠ seen then do
    Prog.modify fun v => { v with fdir := { v.fdir with seenUartOverflow := c.uartOverflow } }
    report .uartRxOverflow c.uartOverflow
  else pure ()

def collectIrqDropped (c : PlatformCounters) (i : IrqId) : FdirProg Unit := do
  let seen ← Prog.get (·.fdir.seenIrqDropped i)
  if c.irqDropped i ≠ seen then do
    Prog.modify fun v => { v with fdir := { v.fdir with
      seenIrqDropped := Function.update v.fdir.seenIrqDropped i (c.irqDropped i) } }
    report .irqOverflow i.code
  else pure ()

def collectPlatformCounters (c : PlatformCounters) : FdirProg Unit := do
  collectOverruns c
  collectUartOverflow c
  Prog.each (collectIrqDropped c) IrqId.all

def serviceClass (attached : Bool) (id : FaultId) : FdirProg Unit := do
  let reported ← Prog.get (·.fdir.reported id)
  let serviced ← Prog.get (·.fdir.serviced id)
  let nnew := reported - serviced
  if nnew = 0 then pure ()
  else do
    Prog.modify fun v => { v with
      fdir := { v.fdir with serviced := Function.update v.fdir.serviced id reported } }
    classify attached id nnew

def errorHandlingService (attached : Bool) (c : PlatformCounters) : FdirProg Unit := do
  collectPlatformCounters c
  Prog.each (serviceClass attached) FaultId.serviced

def occurrences (id : FaultId) : FdirProg UInt32 := do
  let count ← Prog.get fun v => (v.fdir.record id).occurrences
  let reported ← Prog.get (·.fdir.reported id)
  let serviced ← Prog.get (·.fdir.serviced id)
  pure (count + (reported - serviced))

def retriesExhausted (id : FaultId) : FdirProg Bool :=
  if (policy id).limit = 0 then pure false
  else do
    let n ← occurrences id
    pure (decide ((policy id).limit.toUInt32 ≤ n))

def clear (id : FaultId) : FdirProg Unit := do
  let prior ← Prog.disable
  let reported ← Prog.get (·.fdir.reported id)
  Prog.modify fun v => { v with
    fdir := { v.fdir with serviced := Function.update v.fdir.serviced id reported }
    trace := v.trace ++ [.clear id] }
  Prog.restore prior
  setRecord id fun r => { r with occurrences := 0 }
  setRecord id fun r => { r with flag := false }
  setRecord id fun r => { r with elevated := false }

end Access

section Alone

/-- The uplink as what a program calls out to. Without one nothing is called out. -/
def reply (up : Option Uplink) (call : UplinkCall) (v : Svc) : Status × Svc :=
  match up with
  | none => (.errUnsupported, v)
  | some up => ((up call).1, reportAll (up call).2 v)

variable (up : Option Uplink) (id : FaultId) (v : Svc)

theorem alone_report (detail : UInt32) :
    ((Access.report id detail).alone (reply up) v).2 = v.report id detail := rfl

theorem alone_clear : ((Access.clear id).alone (reply up) v).2 = v.clear id := by
  simp [Access.clear, Access.setRecord, Prog.disable, Prog.get, Prog.modify, Prog.restore, Prog.bind,
    Prog.alone, Svc.clear]

theorem alone_occurrences :
    (Access.occurrences id).alone (reply up) v = (v.occurrences id, v) := rfl

theorem alone_retriesExhausted :
    (Access.retriesExhausted id).alone (reply up) v = (v.retriesExhausted id, v) := by
  unfold Access.retriesExhausted Svc.retriesExhausted
  split
  · rfl
  · rfl

theorem alone_deliver (call : UplinkCall) :
    ((Access.deliver up.isSome call).alone (reply up) v).2 = deliver up call v := by
  cases up with
  | none => rfl
  | some up =>
    show ((if (up call).1 = .ok then pure () else Access.undelivered : FdirProg Unit).alone
      (reply (some up)) (reportAll (up call).2 { v with trace := v.trace ++ [.uplink call] })).2 = _
    rw [deliver]
    split
    · rfl
    · rfl

theorem alone_escalate (detail : UInt32) :
    ((Access.escalate up.isSome id detail).alone (reply up) v).2 = escalate up id detail v := by
  simp only [Access.escalate, escalate, Prog.bind_def, Prog.alone_get, Prog.alone_modify]
  cases (policy id).escalation with
  | report => exact alone_deliver up _ _
  | powerReset => exact alone_deliver up _ _
  | logOnly => rfl

theorem alone_noteFields (occurrences : UInt32) :
    ((Access.noteFields id occurrences (v.fdir.detail id)).alone (reply up)
      { v with fdir := { v.fdir with record := Function.update v.fdir.record id { v.fdir.record id with
          occurrences := (v.fdir.record id).occurrences + occurrences } } }).2 =
      note id occurrences v := by
  simp [Access.noteFields, Prog.get, Access.setRecord, Prog.modify, Access.logFault, Prog.alone,
    Prog.bind, Prog.disable, Prog.restore, note]

theorem alone_elevate (detail : UInt32) : ((Access.elevate up.isSome id detail).alone (reply up) v).2 =
    match (policy id).severity with
    | .severe => escalate up id detail v
    | .critical =>
      if (policy id).limit ≠ 0 ∧ (policy id).limit.toUInt32 ≤ (v.fdir.record id).occurrences ∧
          (v.fdir.record id).elevated = false then
        escalate up id detail (elevate id v)
      else v
    | .medium => v
    | .minor => v := by
  unfold Access.elevate
  cases (policy id).severity with
  | severe => exact alone_escalate up id _ _
  | critical =>
    by_cases hlimit : (policy id).limit = 0
    · simp [hlimit, Prog.alone_ret]
    · simp only [hlimit, ne_eq, not_false_eq_true, if_true, true_and, Prog.bind_def, Prog.alone_get]
      split
      · exact alone_escalate up id _ _
      · rfl
  | medium => rfl
  | minor => rfl

theorem alone_classify (occurrences : UInt32) :
    ((Access.classify up.isSome id occurrences).alone (reply up) v).2 =
      classify up id occurrences v := by
  simp only [Access.classify, Prog.bind_def, Prog.alone_get, Access.setRecord, Prog.alone_modify]
  rw [Prog.alone_bind, alone_noteFields, alone_elevate]
  rfl

theorem alone_serviceClass :
    ((Access.serviceClass up.isSome id).alone (reply up) v).2 = serviceClass up v id := by
  simp only [Access.serviceClass, Prog.bind_def, Prog.alone_get]
  by_cases hnew : v.fdir.reported id - v.fdir.serviced id = 0
  · rw [if_pos hnew, serviceClass_of_eq hnew]
    rfl
  · rw [if_neg hnew, Prog.alone_modify, alone_classify]
    exact (if_neg hnew).symm

theorem alone_collect (c : PlatformCounters) :
    ((Access.collectPlatformCounters c).alone (reply up) v).2 = collectPlatformCounters c v := by
  have hreports (v : Svc) (n : ℕ) : ((Prog.each (fun _ => Access.report .cycleOverrun
      c.overrunCyclesLost) (List.replicate n ())).alone (reply up) v).2 =
        (Svc.report .cycleOverrun c.overrunCyclesLost)^[n] v := by
    rw [Prog.alone_each]
    induction n generalizing v with
    | zero => rfl
    | succ n ih => exact ih _
  have hoverruns (v : Svc) :
      ((Access.collectOverruns c).alone (reply up) v).2 = collectOverruns c v := by
    simp only [Access.collectOverruns, Prog.bind_def, Prog.alone_get, collectOverruns]
    split
    · exact hreports _ _
    · rfl
  have huart (v : Svc) :
      ((Access.collectUartOverflow c).alone (reply up) v).2 = collectUartOverflow c v := by
    simp only [Access.collectUartOverflow, Prog.bind_def, Prog.alone_get, collectUartOverflow]
    split
    · rfl
    · rfl
  have hirq (v : Svc) (i : IrqId) :
      ((Access.collectIrqDropped c i).alone (reply up) v).2 = collectIrqDropped c v i := by
    simp only [Access.collectIrqDropped, Prog.bind_def, Prog.alone_get, collectIrqDropped]
    split
    · rfl
    · rfl
  simp only [Access.collectPlatformCounters, Prog.bind_def, Prog.alone_bind, Prog.alone_each,
    hoverruns, huart, hirq, collectPlatformCounters]

/-- With no interrupts the program of the service is the service. -/
theorem alone_errorHandlingService (c : PlatformCounters) :
    ((Access.errorHandlingService up.isSome c).alone (reply up) v).2 =
      errorHandlingService up c v := by
  simp only [Access.errorHandlingService, Prog.bind_def, Prog.alone_bind, Prog.alone_each,
    alone_collect, alone_serviceClass, errorHandlingService]

end Alone

/-- Nothing has been done but reports, and what no count depends on. -/
def Adds (v w : Svc) : Prop := ∃ new, Reporting new v w ∧ ∀ x ∈ new, ∀ c, x.isClear c = false

/-- `owed` is what the count of each class lacks of its reports since it was cleared. -/
def Tally (owed : FaultId → UInt32) (v : Svc) : Prop :=
  ∀ c, v.occurrences c + owed c = UInt32.ofNat (since c v.trace)

def Balanced : Svc → Prop := Tally fun _ => 0

variable {v w : Svc} {owed : FaultId → UInt32}

theorem Adds.of_reporting {new : List SvcCall} (h : Reporting new v w)
    (hclear : ∀ x ∈ new, ∀ c, x.isClear c = false) : Adds v w := ⟨new, h, hclear⟩

theorem Adds.isPrefix (h : Adds v w) : v.trace <+: w.trace := by
  obtain ⟨new, hnew, -⟩ := h
  exact ⟨new, hnew.trace.symm⟩

theorem Adds.serviced (h : Adds v w) : w.fdir.serviced = v.fdir.serviced := by
  obtain ⟨new, hnew, -⟩ := h
  exact hnew.serviced

theorem Adds.record (h : Adds v w) (c : FaultId) :
    (w.fdir.record c).occurrences = (v.fdir.record c).occurrences := by
  obtain ⟨new, hnew, -⟩ := h
  exact hnew.occurrences c

theorem Tally.adds (h : Adds v w) (hv : Tally owed v) : Tally owed w := by
  obtain ⟨new, hnew, hclear⟩ := h
  intro c
  rw [hnew.count, hnew.since fun x hx => hclear x hx c, UInt32.ofNat_add, ← hv c]
  grind

theorem Tally.congr (hv : Tally owed v) (hcount : ∀ c, w.occurrences c = v.occurrences c)
    (hsince : ∀ c, since c w.trace = since c v.trace) : Tally owed w := by
  intro c
  rw [hcount, hsince]
  exact hv c

theorem interference : Interference Adds Balanced where
  refl v := ⟨[], .refl v, by simp⟩
  trans := by
    rintro s t u ⟨a, ha, hac⟩ ⟨b, hb, hbc⟩
    refine ⟨a ++ b, ha.trans hb, ?_⟩
    intro x hx
    exact (List.mem_append.mp hx).elim (hac x) (hbc x)
  keeps h := Tally.adds h

theorem adds_report (id : FaultId) (detail : UInt32) (v : Svc) : Adds v (v.report id detail) := by
  refine .of_reporting (reporting_report id detail v) ?_
  intro x hx c
  rw [List.mem_singleton.mp hx]
  rfl

/-- Whatever comes between its accesses, a report adds its own entry to the trace, once, and one to the
count of its class at that moment. -/
theorem report_once (id : FaultId) (detail : UInt32) (e : Bool) (v : Svc) :
    (Access.report id detail).Meets Adds Balanced
      (fun _ e' w => e' = e ∧ ∃ s, Adds v s ∧ Adds (s.report id detail) w) e v := by
  rintro s hs _ rfl _ rfl _ rfl _ rfl _ rfl _ rfl t ht
  exact ⟨rfl, s, interference.of_rely hs, interference.of_rely ht⟩

theorem meets_report (id : FaultId) (detail : UInt32) (e : Bool) (v : Svc) :
    (Access.report id detail).Meets Adds Balanced (fun _ e' w => e' = e ∧ Adds v w) e v := by
  refine (report_once id detail e v).mono ?_
  rintro _ e' w ⟨he, s, hvs, hsw⟩
  have hreport : Adds s (s.report id detail) := adds_report id detail s
  exact ⟨he, interference.trans hvs (interference.trans hreport hsw)⟩

abbrev KeepsBalance {α : Type} (p : FdirProg α) : Prop := p.Keeps Adds Balanced Balanced

namespace KeepsBalance
open Access

variable {α β : Type}

theorem pure (a : α) : KeepsBalance (pure a) := Prog.Keeps.ret interference interference.keeps a

theorem get (f : Svc → α) : KeepsBalance (Prog.get f) :=
  Prog.Keeps.get interference interference.keeps f

theorem bind {p : FdirProg α} {g : α → FdirProg β} (hp : KeepsBalance p)
    (hg : ∀ a, KeepsBalance (g a)) : KeepsBalance (p >>= g) :=
  Prog.Keeps.bind interference hp hg

theorem modify {f : Svc → Svc} (hcount : ∀ v c, (f v).occurrences c = v.occurrences c)
    (hsince : ∀ v c, since c (f v).trace = since c v.trace) : KeepsBalance (Prog.modify f) :=
  Prog.Keeps.modify interference interference.keeps fun v hv => hv.congr (hcount v) (hsince v)

/-- A write that adds one call to the trace, which is neither a report nor a clear. -/
theorem note {f : Svc → Svc} {x : Svc → SvcCall} (hcount : ∀ v c, (f v).occurrences c = v.occurrences c)
    (htrace : ∀ v, (f v).trace = v.trace ++ [x v])
    (hx : ∀ v c, (x v).isReport c = false ∧ (x v).isClear c = false) :
    KeepsBalance (Prog.modify f) := by
  refine modify hcount ?_
  intro v c
  rw [htrace, since, pending_concat, (hx v c).1, (hx v c).2]
  rfl

theorem setRecord (id : FaultId) {f : FaultRecord → FaultRecord}
    (hf : ∀ r, (f r).occurrences = r.occurrences) : KeepsBalance (Access.setRecord id f) := by
  refine modify ?_ fun _ _ => rfl
  intro v c
  simp only [Svc.occurrences, Svc.unserviced, Function.update_apply]
  split
  · rename_i hc
    rw [hf, hc]
  · rfl

theorem report (id : FaultId) (detail : UInt32) : KeepsBalance (Access.report id detail) := by
  intro e v hv
  refine (meets_report id detail e v).mono ?_
  rintro _ e' w ⟨he, hw⟩
  exact ⟨he, hv.adds hw⟩

theorem logFault (id : FaultId) (severity : Severity) (detail : UInt32) :
    KeepsBalance (Access.logFault id severity detail) := by
  refine Prog.Keeps.guarded interference interference.keeps ?_
  intro v hv
  refine hv.adds (.of_reporting (reporting_logFault id severity detail v) ?_)
  intro x hx c
  rw [List.mem_singleton.mp hx]
  rfl

theorem undelivered : KeepsBalance Access.undelivered :=
  (get _).bind fun _ => modify (fun _ _ => rfl) fun _ _ => rfl

theorem deliver (attached : Bool) (call : UplinkCall) :
    KeepsBalance (Access.deliver attached call) := by
  unfold Access.deliver
  split
  · refine bind (note (fun _ _ => rfl) (fun _ => rfl) fun _ _ => ⟨rfl, rfl⟩) fun _ => ?_
    refine bind (Prog.Keeps.call interference call) fun st => ?_
    split
    · exact pure ()
    · exact undelivered
  · exact undelivered

theorem escalate (attached : Bool) (id : FaultId) (detail : UInt32) :
    KeepsBalance (Access.escalate attached id detail) := by
  refine bind (get _) fun n => bind (note ?_ (fun _ => rfl) fun _ _ => ⟨rfl, rfl⟩) fun _ => ?_
  · intro v c
    simp only [Svc.occurrences, Svc.unserviced, Function.update_apply]
    split
    · rename_i hc
      rw [hc]
    · rfl
  · cases (policy id).escalation with
    | report => exact deliver attached _
    | powerReset => exact deliver attached _
    | logOnly => exact pure ()

theorem noteFields (id : FaultId) (occurrences detail : UInt32) :
    KeepsBalance (Access.noteFields id occurrences detail) := by
  refine bind (setRecord id fun _ => rfl) fun _ => bind (get _) fun _ => ?_
  refine bind (setRecord id fun _ => rfl) fun _ => bind (setRecord id fun _ => rfl) fun _ => ?_
  exact bind (get _) fun _ => bind (modify (fun _ _ => rfl) fun _ _ => rfl) fun _ => logFault id _ detail

theorem elevate (attached : Bool) (id : FaultId) (detail : UInt32) :
    KeepsBalance (Access.elevate attached id detail) := by
  unfold Access.elevate
  cases (policy id).severity with
  | severe => exact escalate attached id detail
  | critical =>
    by_cases hlimit : (policy id).limit ≠ 0
    · simp only [if_pos hlimit]
      refine (get _).bind fun count => (get _).bind fun elevated => ?_
      split
      · exact bind (setRecord id fun _ => rfl) fun _ => escalate attached id detail
      · exact pure ()
    · simp only [if_neg hlimit]
      exact pure ()
  | medium => exact pure ()
  | minor => exact pure ()

/-- Between the snapshot and the record the new reports are owed. -/
theorem serviceClass (attached : Bool) (id : FaultId) :
    KeepsBalance (Access.serviceClass attached id) := by
  intro e v hv v₁ h₁ v₂ h₂
  have hv₂ := (hv.adds (interference.of_rely h₁)).adds (interference.of_rely h₂)
  show (if v₁.fdir.reported id - v₂.fdir.serviced id = 0 then _ else _ : FdirProg Unit).Meets
    Adds Balanced _ e v₂
  split
  · exact pure () e v₂ hv₂
  intro v₃ h₃ v₄ h₄ v₅ h₅ v₆ h₆
  have hv₃ := hv₂.adds (interference.of_rely h₃)
  have howed : Tally (Function.update (fun _ => 0) id (v₁.fdir.reported id - v₂.fdir.serviced id))
      { v₃ with fdir := { v₃.fdir with
        serviced := Function.update v₃.fdir.serviced id (v₁.fdir.reported id) } } := by
    intro c
    have hc := hv₃ c
    simp only [Svc.occurrences, Svc.unserviced, (interference.of_rely h₃).serviced,
      Function.update_apply] at hc ⊢
    split
    · rename_i hid
      subst hid
      grind
    · exact hc
  have hcount := ((interference.of_rely h₆).record id)
  have hv₆ := ((howed.adds (interference.of_rely h₄)).adds (interference.of_rely h₅)).adds
    (interference.of_rely h₆)
  refine (noteFields id _ _).bind (fun _ => elevate attached id _) e _ ?_
  intro c
  have hc := hv₆ c
  simp only [Svc.occurrences, Svc.unserviced, Function.update_apply] at hc ⊢
  split
  · rename_i hid
    subst hid
    grind
  · grind

theorem errorHandlingService (attached : Bool) (c : PlatformCounters) :
    KeepsBalance (Access.errorHandlingService attached c) := by
  have hoverruns : KeepsBalance (Access.collectOverruns c) := by
    refine (get _).bind fun seen => ?_
    split
    · refine bind (get _) fun _ => bind (modify (fun _ _ => rfl) fun _ _ => rfl) fun _ => ?_
      exact Prog.Keeps.each interference interference.keeps (fun _ => report _ _) _
    · exact pure ()
  have huart : KeepsBalance (Access.collectUartOverflow c) := by
    refine (get _).bind fun seen => ?_
    split
    · exact bind (modify (fun _ _ => rfl) fun _ _ => rfl) fun _ => report _ _
    · exact pure ()
  have hirq (i : IrqId) : KeepsBalance (Access.collectIrqDropped c i) := by
    refine (get _).bind fun seen => ?_
    split
    · exact bind (modify (fun _ _ => rfl) fun _ _ => rfl) fun _ => report _ _
    · exact pure ()
  have hcollect : KeepsBalance (Access.collectPlatformCounters c) :=
    hoverruns.bind fun _ => huart.bind fun _ =>
      Prog.Keeps.each interference interference.keeps hirq _
  exact hcollect.bind fun _ =>
    Prog.Keeps.each interference interference.keeps (serviceClass attached) _

/-- From the snapshot until the record is written, the count of the class is over by the record. -/
theorem clear (id : FaultId) : KeepsBalance (Access.clear id) := by
  rintro e v hv v₁ h₁ _ rfl _ rfl _ rfl v₂ h₂
  have hv₁ := hv.adds (interference.of_rely h₁)
  have howed : Tally (Function.update (fun _ => 0) id (-(v₁.fdir.record id).occurrences))
      { v₁ with
        fdir := { v₁.fdir with
          serviced := Function.update v₁.fdir.serviced id (v₁.fdir.reported id) }
        trace := v₁.trace ++ [.clear id] } := by
    intro c
    have hc := hv₁ c
    simp only [Svc.occurrences, Svc.unserviced, since, pending_concat, isClear, isReport,
      Function.update_apply] at hc ⊢
    by_cases hid : c = id
    · subst hid
      simp
    · simpa [hid, Ne.symm hid] using hc
  have hcount := (interference.of_rely h₂).record id
  have hv₂ := howed.adds (interference.of_rely h₂)
  have hrest : KeepsBalance (do
      Access.setRecord id fun r => { r with flag := false }
      Access.setRecord id fun r => { r with elevated := false }) :=
    bind (setRecord id fun _ => rfl) fun _ => setRecord id fun _ => rfl
  refine hrest e _ ?_
  intro c
  have hc := hv₂ c
  simp only [Svc.occurrences, Svc.unserviced, Function.update_apply] at hc ⊢
  split
  · rename_i hid
    subst hid
    grind
  · grind

end KeepsBalance

inductive FdirCall
  | report (id : FaultId) (detail : UInt32)
  | tick
  | clear (id : FaultId)
  | errorHandlingService (attached : Bool) (c : PlatformCounters)
  | occurrences (id : FaultId)
  | retriesExhausted (id : FaultId)

inductive FdirAnswer
  | none
  | count (n : UInt32)
  | exhausted (spent : Bool)
  deriving DecidableEq, Repr

namespace FdirCall

def isr : FdirCall → Bool
  | report _ _ => true
  | tick => true
  | _ => false

def code : FdirCall → FdirProg FdirAnswer
  | report id detail => do Access.report id detail; pure .none
  | tick => do Prog.modify Svc.tick; pure .none
  | clear id => do Access.clear id; pure .none
  | errorHandlingService attached c => do Access.errorHandlingService attached c; pure .none
  | occurrences id => do pure (.count (← Access.occurrences id))
  | retriesExhausted id => do pure (.exhausted (← Access.retriesExhausted id))

def AtSomeMoment (before after : Svc) (P : List SvcCall → Prop) : Prop :=
  ∃ t, before.trace <+: t ∧ t <+: after.trace ∧ P t

def asks : FdirCall → Option (FaultId × (ℕ → FdirAnswer))
  | occurrences id => some (id, fun n => .count (UInt32.ofNat n))
  | retriesExhausted id => some (id, fun n => .exhausted
      (decide ((policy id).limit ≠ 0 ∧ (policy id).limit.toUInt32 ≤ UInt32.ofNat n)))
  | _ => none

def Answers (call : FdirCall) (before : Svc) (value : FdirAnswer) (after : Svc) : Prop :=
  ∀ id answer, call.asks = some (id, answer) →
    AtSomeMoment before after fun t => value = answer (since id t)

theorem meets_occurrences (id : FaultId) (e : Bool) {v : Svc} (hv : v.Balanced) :
    (Access.occurrences id).Meets Adds Balanced (fun n e' w => e' = e ∧ w.Balanced ∧
      AtSomeMoment v w fun t => n = UInt32.ofNat (since id t)) e v := by
  intro v₁ h₁ v₂ h₂ v₃ h₃ v₄ h₄
  have h₁₂ := interference.trans (interference.of_rely h₁) (interference.of_rely h₂)
  have h₂₄ := interference.trans (interference.of_rely h₃) (interference.of_rely h₄)
  have hv₂ := hv.adds h₁₂
  refine ⟨rfl, hv₂.adds h₂₄, v₂.trace, h₁₂.isPrefix, h₂₄.isPrefix, ?_⟩
  show (v₁.fdir.record id).occurrences + (v₂.fdir.reported id - v₃.fdir.serviced id) = _
  rw [← hv₂ id, (interference.of_rely h₃).serviced, ← (interference.of_rely h₂).record id,
    Svc.occurrences, Svc.unserviced, UInt32.add_zero]

theorem meets_retriesExhausted (id : FaultId) (e : Bool) {v : Svc} (hv : v.Balanced) :
    (Access.retriesExhausted id).Meets Adds Balanced (fun b e' w => e' = e ∧ w.Balanced ∧
      AtSomeMoment v w fun t => b = decide
        ((policy id).limit ≠ 0 ∧ (policy id).limit.toUInt32 ≤ UInt32.ofNat (since id t))) e v := by
  unfold Access.retriesExhausted
  split
  · rename_i hlimit
    intro w hw
    have hadds := interference.of_rely hw
    exact ⟨rfl, hv.adds hadds, v.trace, List.prefix_rfl, hadds.isPrefix, by simp [hlimit]⟩
  · rename_i hlimit
    refine interference.meets_bind ((meets_occurrences id e hv).mono ?_)
    rintro n e' w ⟨rfl, hw, t, hbefore, hafter, rfl⟩ u hu
    have hadds := interference.of_rely hu
    exact ⟨rfl, hw.adds hadds, t, hbefore, hafter.trans hadds.isPrefix, by simp [hlimit]⟩

theorem guarded : Guarded Adds Balanced code isr Answers where
  toInterference := interference
  handlers := by
    intro i hi e v
    cases i with
    | report id detail =>
      refine interference.meets_bind ((meets_report id detail e v).mono ?_)
      rintro _ e' w ⟨rfl, hw⟩ t ht
      exact interference.trans hw (interference.of_rely ht)
    | tick =>
      intro s hs t ht
      have htick : Adds s s.tick := .of_reporting (reporting_tick s) (by simp)
      exact interference.trans (interference.of_rely hs)
        (interference.trans htick (interference.of_rely ht))
    | clear | errorHandlingService | occurrences | retriesExhausted => simp [isr] at hi
  calls := by
    intro i e v hv
    have hkeeps (call : FdirCall) (hcall : call.asks = none) {p : FdirProg Unit} (hp : KeepsBalance p) :
        (do p; pure FdirAnswer.none).Meets Adds Balanced
          (fun a e' w => e' = e ∧ w.Balanced ∧ Answers call v a w) e v := by
      refine (KeepsBalance.bind hp (fun _ => KeepsBalance.pure _) e v hv).mono ?_
      rintro a e' w ⟨he, hw⟩
      exact ⟨he, hw, by simp [Answers, hcall]⟩
    cases i with
    | report id detail => exact hkeeps (.report id detail) rfl (.report id detail)
    | tick => exact hkeeps .tick rfl (.modify (fun _ _ => rfl) fun _ _ => rfl)
    | clear id => exact hkeeps (.clear id) rfl (.clear id)
    | errorHandlingService attached c =>
      exact hkeeps (.errorHandlingService attached c) rfl (.errorHandlingService attached c)
    | occurrences id =>
      refine interference.meets_bind ((meets_occurrences id e hv).mono ?_)
      rintro n e' w ⟨rfl, hw, t, hbefore, hafter, rfl⟩ u hu
      have hadds := interference.of_rely hu
      refine ⟨rfl, hw.adds hadds, ?_⟩
      rintro _ _ ⟨⟩
      exact ⟨t, hbefore, hafter.trans hadds.isPrefix, rfl⟩
    | retriesExhausted id =>
      refine interference.meets_bind ((meets_retriesExhausted id e hv).mono ?_)
      rintro b e' w ⟨rfl, hw, t, hbefore, hafter, rfl⟩ u hu
      have hadds := interference.of_rely hu
      refine ⟨rfl, hw.adds hadds, ?_⟩
      rintro _ _ ⟨⟩
      exact ⟨t, hbefore, hafter.trans hadds.isPrefix, rfl⟩

end FdirCall

theorem balanced_init : Balanced {} := by
  intro c
  show (0 : UInt32) + (0 - 0) + 0 = UInt32.ofNat 0
  decide

def schedule (turns : List (Turn FdirCall Status)) :
    Cpu Svc UplinkCall Status FdirCall FdirAnswer :=
  run (Cpu.step FdirCall.code FdirCall.isr) { shared := {} } turns

/-- An interrupt between the first two reads of a question is counted in its answer. -/
example : (schedule (.call (.occurrences .controlLoop) :: .access ::
    .interrupt (.report .controlLoop 0) false :: List.replicate 11 .access)).returns.map (·.value) =
      [.count 1] := by
  decide +kernel

end QiranFirmware.Svc
