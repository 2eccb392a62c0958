import QiranFirmware.Comm.HkLink
import QiranFirmware.Machine.Mailbox

/-! # What the observer reads off the housekeeping link

The frames and the status reports share the link. The frames that have been given to it are those that
were staged, each once, and the status reports that name a fault are the calls of the uplink that the
fault service has made, in their order.
-/
namespace QiranFirmware

open Machine

structure HkAttempt where
  ticks : ℕ
  period : UInt32
  frame : HkFrame

/-- The link and the services, and what the mission and the health service answer. `ticks`, `attempts`
and `mail` have no counterparts in the source: they are the ticks since the start, the attempts made,
and what has been done with a place for one frame. -/
structure HkNode where
  link : HkLink := {}
  v : Svc := {}
  payload : PayloadStatus := .nonOperational
  health : HealthVerdict := .healthy
  ticks : ℕ := 0
  attempts : List HkAttempt := []
  mail : List (MailOp HkFrame) := []

inductive HkOp
  | tick
  | report (id : FaultId) (detail : UInt32)
  | clear (id : FaultId)
  | pass (c : PlatformCounters)
  | reentry (cause : FaultId)
  | stage (period : UInt32) (w : Watchdog) (lag late : UInt32)
  | transmit
  | ready
  | setSampler (sampler : Option HkSampler)
  | setInterlock (index : UInt32) (status : InterlockStatus)
  | setState (payload : PayloadStatus) (health : HealthVerdict)

def readyReport (payload : PayloadStatus) (health : HealthVerdict) : StatusReport :=
  { payload, health, interlock := fun _ => .unevaluated, fault := .none, severity := .minor }

namespace HkNode

def uplink (answers : ℕ → TransmitRun) (s : HkNode) : UplinkOver HkLink :=
  HkLink.uplink s.payload s.health answers

def step (answers : ℕ → TransmitRun) (s : HkNode) : HkOp → HkNode
  | .tick => { s with v := s.v.tick, ticks := s.ticks + 1 }
  | .report id detail => { s with v := s.v.report id detail }
  | .clear id => { s with v := s.v.clear id }
  | .pass c =>
    let r := Svc.errorHandlingServiceOver (s.uplink answers) c s.link s.v
    { s with link := r.1, v := r.2 }
  | .reentry cause =>
    let r := Svc.reentryNoteOver (s.uplink answers) cause s.link s.v
    { s with link := r.1, v := r.2 }
  | .stage period w lag late =>
    let r := HkLink.hkStage period w lag late s.link s.v
    if s.link.recent period s.v.nowMs then { s with link := r.1, v := r.2 }
    else
      let frame := Hk.frameOf w late s.link.toHk (HkLink.lagging lag s.v)
      { s with
        link := r.1
        v := r.2
        ticks := s.ticks + lag.toNat + late.toNat
        attempts := s.attempts ++ [⟨s.ticks, period, frame⟩]
        mail := s.mail ++ [.put frame] }
  | .transmit =>
    let r := HkLink.hkTransmit answers s.link s.v
    { s with link := r.1, v := r.2, mail := s.mail ++ [.take] }
  | .ready =>
    let r := HkLink.statusSend answers (readyReport s.payload s.health) s.link s.v
    { s with link := r.2.1, v := r.2.2 }
  | .setSampler sampler => { s with link := s.link.setSampler sampler }
  | .setInterlock index status => { s with link := s.link.setInterlock index status }
  | .setState payload health => { s with payload, health }

end HkNode

namespace HkLink

def isHk (x : List UInt8 × Status) : Bool := x.1.head? == some Hk.packetId

def isStatus (x : List UInt8 × Status) : Bool := x.1.head? == some Hk.statusId

def statusOf (x : List UInt8 × Status) : StatusReport := (StatusFrame.read (Buf.ofList x.1)).report

def isFault (x : List UInt8 × Status) : Bool := isStatus x && (statusOf x).fault != .none

def taken (x : List UInt8 × Status) : Bool := x.2 == .ok

def framesOn (wire : List (List UInt8 × Status)) : List HkFrame :=
  (wire.filter isHk).map fun x => HkFrame.read (Buf.ofList x.1)

def faultsOn (wire : List (List UInt8 × Status)) : List (FaultId × Severity) :=
  (wire.filter isFault).map fun x => ((statusOf x).fault, (statusOf x).severity)

end HkLink

def UplinkCall.notice : UplinkCall → FaultId × Severity
  | .reportFlag id severity _ => (id, severity)
  | .requestPowerReset id => (id, .severe)

def SvcCall.notice : SvcCall → Option (FaultId × Severity)
  | .uplink call => some call.notice
  | .report .. | .clear _ | .logFault .. | .logEvent .. | .escalate .. => none

def Svc.notices (v : Svc) : List (FaultId × Severity) := v.trace.filterMap SvcCall.notice

theorem Svc.Quiet.notices {v w : Svc} (h : v.Quiet w) : w.notices = v.notices := by
  obtain ⟨new, htrace, hnone⟩ := h.trace
  have hnew : new.filterMap SvcCall.notice = [] := by
    apply List.filterMap_eq_nil_iff.mpr
    intro x hx
    cases x with
    | uplink call => exact absurd rfl (hnone _ hx call)
    | report | clear | logFault | logEvent | escalate => rfl
  rw [Svc.notices, htrace, List.filterMap_append, hnew, List.append_nil]
  rfl

namespace HkLink

section Bytes

theorem laid_frameBytes {fields : List FrameField} (hlt : extent FrameField.width fields + 4 < 2 ^ 32) :
    FrameField.Laid (Buf.ofList (frameBytes fields)) 0 fields := by
  have hlength : (frameBytes fields).length = extent FrameField.width fields + 4 := by
    rw [frameBytes, FrameField.length_encode, extent_append]
    rfl
  have hnat : (UInt32.ofNat (frameBytes fields).length).toNat = (frameBytes fields).length :=
    UInt32.toNat_ofNat_of_lt' (show _ < 2 ^ 32 by omega)
  have hbytes : (Buf.ofList (frameBytes fields)).bytes 0 (UInt32.ofNat (frameBytes fields).length) =
      [] ++ frameBytes fields := by
    rw [Buf.bytes_ofList _ (by rw [hnat, UInt32.toNat_zero, Nat.zero_add])
      (by rw [hnat, UInt32.toNat_zero]; omega), hnat, UInt32.toNat_zero, List.drop_zero,
      List.take_length]
    rfl
  exact ((FrameField.laid_append ..).mp (FrameField.laid_of_bytes hbytes)).1

theorem read_hk (f : HkFrame) : HkFrame.read (Buf.ofList (frameBytes f.fields)) = f := by
  apply HkFrame.read_of_laid (laid_frameBytes _)
  rw [HkFrame.extent_fields]
  decide

theorem read_status (report : StatusReport) (v : Svc) (status : Status) :
    statusOf (frameBytes (Hk.statusFrameOf report v).fields, status) = report := by
  have hread := StatusFrame.read_of_laid (@laid_frameBytes (Hk.statusFrameOf report v).fields
    (by rw [StatusFrame.extent_fields]; decide))
  rw [statusOf, hread, Hk.report_statusFrameOf]

theorem head_hk (f : HkFrame) : (frameBytes f.fields).head? = some f.packetId := rfl

theorem head_status (report : StatusReport) (v : Svc) :
    (frameBytes (Hk.statusFrameOf report v).fields).head? = some Hk.statusId := rfl

end Bytes

section Transmit
variable {answers : ℕ → TransmitRun} {l : HkLink}

/-- What the link is given, and what is counted of its answer. -/
theorem transmit_of_tx (htx : l.tx = true) (data : List UInt8) (v : Svc) :
    ∃ w, transmit answers data l v = ((answers l.wire.length).status, { l with
        txFailures := if (answers l.wire.length).status = .ok then l.txFailures else l.txFailures + 1
        wire := l.wire ++ [(data, (answers l.wire.length).status)] }, w) ∧ v.Quiet w := by
  by_cases hok : (answers l.wire.length).status = .ok
  · refine ⟨v.reportAll (answers l.wire.length).reports, ?_, .reportAll ..⟩
    simp [transmit, htx, hok]
  · refine ⟨(v.reportAll (answers l.wire.length).reports).report .hkTransmit
      (answers l.wire.length).status.code, ?_, (Svc.Quiet.reportAll _ v).trans (.report ..)⟩
    simp [transmit, htx, hok]

theorem statusSend_of_tx (htx : l.tx = true) (report : StatusReport) (v : Svc) :
    ∃ status w, statusSend answers report l v = ((answers l.wire.length).status, { l with
        status
        statusFrames := if (answers l.wire.length).status = .ok then l.statusFrames + 1
          else l.statusFrames
        txFailures := if (answers l.wire.length).status = .ok then l.txFailures else l.txFailures + 1
        wire := l.wire ++ [(frameBytes (Hk.statusFrameOf report v).fields,
          (answers l.wire.length).status)] }, w) ∧ v.collectTime.Quiet w := by
  obtain ⟨status, heq⟩ := statusSend_eq answers l v report
  obtain ⟨w, htransmit, hquiet⟩ := @transmit_of_tx answers { l with status } htx
    (frameBytes (Hk.statusFrameOf report v).fields) v.collectTime
  refine ⟨status, w, ?_, hquiet⟩
  rw [heq, htransmit]

theorem statusSend_quiet (htx : l.tx = true) (report : StatusReport) (v : Svc) : ∃ l' w,
    statusSend answers report l v = ((answers l.wire.length).status, l', w) ∧ v.collectTime.Quiet w := by
  obtain ⟨status, w, heq, hquiet⟩ := @statusSend_of_tx answers l htx report v
  exact ⟨_, w, heq, hquiet⟩

theorem hkTransmit_of_staged (htx : l.tx = true) (hstaged : l.staged ≠ 0) (v : Svc) :
    ∃ w, hkTransmit answers l v = ({ l with
        staged := 0
        frames := if (answers l.wire.length).status = .ok then l.frames + 1 else l.frames
        txFailures := if (answers l.wire.length).status = .ok then l.txFailures else l.txFailures + 1
        wire := l.wire ++ [(l.frame.bytes 0 l.staged, (answers l.wire.length).status)] }, w) ∧
      v.Quiet w := by
  obtain ⟨w, htransmit, hquiet⟩ := @transmit_of_tx answers l htx (l.frame.bytes 0 l.staged) v
  refine ⟨w, ?_, hquiet⟩
  rw [hkTransmit, if_neg hstaged, htransmit]

end Transmit

def Holds : Option HkFrame → HkLink → Prop
  | none, l => l.staged = 0
  | some f, l =>
    f.packetId = Hk.packetId ∧ l.staged = 56 ∧ l.frame.bytes 0 56 = frameBytes f.fields

/-- The link has been given what the place for one frame has let go, and what the fault service has asked
to be made known; and the counters say what the link has made of it. -/
structure Linked (mail : List (MailOp HkFrame)) (l : HkLink) (v : Svc) : Prop where
  tx : l.tx = true
  out : framesOn l.wire = (run Mailbox.step {} mail).out
  held : Holds (run Mailbox.step {} mail).held l
  told : faultsOn l.wire = v.notices
  undelivered : v.fdir.undelivered = UInt32.ofNat (l.wire.countP fun x => isFault x && !taken x)
  frames : l.frames = UInt32.ofNat (l.wire.countP fun x => isHk x && taken x)
  statusFrames : l.statusFrames = UInt32.ofNat (l.wire.countP fun x => isStatus x && taken x)
  failures : l.txFailures = UInt32.ofNat (l.wire.countP fun x => !taken x)

section Concat
variable (wire : List (List UInt8 × Status)) (x : List UInt8 × Status)

theorem framesOn_concat : framesOn (wire ++ [x]) =
    framesOn wire ++ if isHk x then [HkFrame.read (Buf.ofList x.1)] else [] := by
  rw [framesOn, List.filter_append, List.map_append]
  cases h : isHk x <;> simp [framesOn, h]

theorem faultsOn_concat : faultsOn (wire ++ [x]) =
    faultsOn wire ++ if isFault x then [((statusOf x).fault, (statusOf x).severity)] else [] := by
  rw [faultsOn, List.filter_append, List.map_append]
  cases h : isFault x <;> simp [faultsOn, h]

theorem count_concat (p : List UInt8 × Status → Bool) : UInt32.ofNat ((wire ++ [x]).countP p) =
    if p x then UInt32.ofNat (wire.countP p) + 1 else UInt32.ofNat (wire.countP p) := by
  rw [List.countP_append, List.countP_singleton]
  cases p x with
  | true => exact UInt32.ofNat_add ..
  | false => rfl

end Concat

section Steps
variable {answers : ℕ → TransmitRun} {mail : List (MailOp HkFrame)} {l : HkLink} {v w : Svc}

theorem Linked.same (h : Linked mail l v) (hnotices : w.notices = v.notices)
    (hundelivered : w.fdir.undelivered = v.fdir.undelivered) : Linked mail l w :=
  ⟨h.tx, h.out, h.held, h.told.trans hnotices.symm, hundelivered.trans h.undelivered, h.frames,
    h.statusFrames, h.failures⟩

theorem Linked.quiet (h : Linked mail l v) (hw : v.Quiet w) : Linked mail l w :=
  h.same hw.notices hw.undelivered

theorem holds_congr {f : Option HkFrame} {l l' : HkLink} (hframe : l'.frame = l.frame)
    (hstaged : l'.staged = l.staged) (h : Holds f l) : Holds f l' := by
  cases f with
  | none => exact hstaged.trans h
  | some f => exact ⟨h.1, hstaged.trans h.2.1, hframe ▸ h.2.2⟩

/-- What the sampler and the interlocks are is no matter. -/
theorem Linked.setSampler (h : Linked mail l v) (sampler : Option HkSampler) :
    Linked mail (l.setSampler sampler) v :=
  ⟨h.tx, h.out, @holds_congr _ l _ rfl rfl h.held, h.told, h.undelivered, h.frames, h.statusFrames,
    h.failures⟩

theorem Linked.setInterlock (h : Linked mail l v) (index : UInt32) (status : InterlockStatus) :
    Linked mail (l.setInterlock index status) v :=
  ⟨h.tx, h.out, @holds_congr _ l _ rfl rfl h.held, h.told, h.undelivered, h.frames, h.statusFrames,
    h.failures⟩

/-- A status report is on the link, whoever has asked for it. -/
theorem Linked.send (h : Linked mail l v) (report : StatusReport) (u : Svc)
    {l' : HkLink} {st : Status} (hsend : (statusSend answers report l u).2.1 = l')
    (hst : (statusSend answers report l u).1 = st)
    (htold : w.notices =
      v.notices ++ if report.fault = .none then [] else [(report.fault, report.severity)])
    (hundelivered : w.fdir.undelivered = if report.fault ≠ .none ∧ st ≠ .ok then
      v.fdir.undelivered + 1 else v.fdir.undelivered) : Linked mail l' w := by
  obtain ⟨status, w', heq, -⟩ := @statusSend_of_tx answers l h.tx report u
  rw [heq] at hsend hst
  dsimp only at hsend hst
  subst hsend hst
  obtain ⟨x, hx⟩ : ∃ x, x = (frameBytes (Hk.statusFrameOf report u).fields,
    (answers l.wire.length).status) := ⟨_, rfl⟩
  have hof : statusOf x = report := by
    rw [hx]
    exact read_status report u _
  have hhk : isHk x = false := by
    rw [isHk, hx, head_status]
    decide
  have hstatus : isStatus x = true := by
    rw [isStatus, hx, head_status]
    decide
  have hfault : isFault x = (report.fault != .none) := by rw [isFault, hstatus, hof, Bool.true_and]
  have htaken : taken x = decide ((answers l.wire.length).status = .ok) := by
    rw [hx, taken]
    exact beq_eq_decide ..
  rw [← hx]
  refine ⟨h.tx, ?_, ?_, ?_, ?_, ?_, ?_, ?_⟩
  · dsimp only
    rw [framesOn_concat, hhk, h.out]
    simp
  · exact @holds_congr _ l _ rfl rfl h.held
  · dsimp only
    rw [faultsOn_concat, hfault, hof, h.told, htold]
    by_cases hnone : report.fault = .none <;> simp [hnone]
  · dsimp only
    rw [count_concat, ← h.undelivered, hundelivered, hfault, htaken]
    by_cases hnone : report.fault = .none <;> by_cases hok : (answers l.wire.length).status = .ok <;>
      simp [hnone, hok]
  · dsimp only
    rw [count_concat, ← h.frames, hhk]
    simp
  · dsimp only
    rw [count_concat, ← h.statusFrames, hstatus, htaken]
    simp
  · dsimp only
    rw [count_concat, ← h.failures, htaken]
    by_cases hok : (answers l.wire.length).status = .ok <;> simp [hok]

theorem notice_reported (payload : PayloadStatus) (health : HealthVerdict) (call : UplinkCall) :
    ((reported payload health call l).fault, (reported payload health call l).severity) = call.notice ∧
      (reported payload health call l).fault = call.fault := by
  cases call with
  | reportFlag id severity detail => exact ⟨rfl, rfl⟩
  | requestPowerReset id => exact ⟨rfl, rfl⟩

theorem deliverOver_uplink (payload : PayloadStatus) (health : HealthVerdict)
    (answers : ℕ → TransmitRun) (call : UplinkCall) (l : HkLink) (v : Svc) {st : Status} {l' : HkLink}
    {w : Svc} (h : statusSend answers (reported payload health call l) l
      { v with trace := v.trace ++ [.uplink call] } = (st, l', w)) :
    Svc.deliverOver (uplink payload health answers) call l v = (l', if st = .ok then w else
      { w with fdir := { w.fdir with undelivered := w.fdir.undelivered + 1 } }) := by
  rw [Svc.deliverOver, uplink, h]
  dsimp only
  split <;> rfl

theorem linked_kept (payload : PayloadStatus) (health : HealthVerdict) (answers : ℕ → TransmitRun)
    (mail : List (MailOp HkFrame)) :
    Svc.KeptOver (uplink payload health answers) (Linked mail) where
  quiet _ _ _ hw h := h.quiet hw
  deliver call l v hcall h := by
    obtain ⟨hnotice, hfault⟩ := @notice_reported l payload health call
    obtain ⟨report, hreport⟩ : ∃ report, report = reported payload health call l := ⟨_, rfl⟩
    obtain ⟨called, hcalled⟩ : ∃ u : Svc, u = { v with trace := v.trace ++ [.uplink call] } := ⟨_, rfl⟩
    obtain ⟨l', w, heq, hquiet⟩ := @statusSend_quiet answers l h.tx report called
    have hw : w.notices = v.notices ++ [call.notice] := by
      rw [hquiet.notices, hcalled]
      simp [Svc.notices, Svc.collectTime, SvcCall.notice]
    have hundelivered : w.fdir.undelivered = v.fdir.undelivered := by
      rw [hquiet.undelivered, hcalled]
      rfl
    have hne : report.fault ≠ .none := by
      rw [hreport, hfault]
      exact hcall
    rw [← hreport] at hnotice
    rw [hreport, hcalled] at heq
    rw [deliverOver_uplink payload health answers call l v heq]
    rw [← hreport, ← hcalled] at heq
    apply h.send report called (congrArg (·.2.1) heq) (congrArg (·.1) heq)
    · rw [if_neg hne, hnotice]
      split <;> exact hw
    · by_cases hok : (answers l.wire.length).status = .ok
      · simp [hok, hundelivered]
      · simp [hok, hne, hundelivered]

theorem Linked.hkTransmit (h : Linked mail l v) :
    Linked (mail ++ [.take]) (hkTransmit answers l v).1 (hkTransmit answers l v).2 := by
  have htake : run Mailbox.step {} (mail ++ [MailOp.take]) =
      (run Mailbox.step {} mail).step .take := by rw [run_append]; rfl
  cases hheld : (run Mailbox.step {} mail).held with
  | none =>
    have hempty := h.held
    rw [hheld] at hempty
    rw [HkLink.hkTransmit, if_pos (show l.staged = 0 from hempty)]
    refine ⟨h.tx, ?_, ?_, h.told, h.undelivered, h.frames, h.statusFrames, h.failures⟩
    · rw [htake, h.out]
      simp [Mailbox.step, hheld]
    · rw [htake]
      exact hempty
  | some f =>
    have hholds := h.held
    rw [hheld] at hholds
    obtain ⟨hid, hstaged, hbytes⟩ := hholds
    have hne : l.staged ≠ 0 := by
      rw [hstaged]
      decide
    obtain ⟨w, heq, hquiet⟩ := @hkTransmit_of_staged answers l h.tx hne v
    rw [hstaged, hbytes] at heq
    obtain ⟨x, hx⟩ : ∃ x, x = (frameBytes f.fields, (answers l.wire.length).status) := ⟨_, rfl⟩
    have hread : HkFrame.read (Buf.ofList x.1) = f := by
      rw [hx]
      exact read_hk f
    have hhk : isHk x = true := by
      rw [isHk, hx, head_hk, hid]
      decide
    have hstatus : isStatus x = false := by
      rw [isStatus, hx, head_hk, hid]
      decide
    have hfault : isFault x = false := by rw [isFault, hstatus, Bool.false_and]
    have htaken : taken x = decide ((answers l.wire.length).status = .ok) := by
      rw [hx, taken]
      exact beq_eq_decide ..
    rw [heq, ← hx]
    refine ⟨h.tx, ?_, ?_, ?_, ?_, ?_, ?_, ?_⟩
    · dsimp only
      rw [framesOn_concat, hhk, hread, h.out, htake]
      simp [Mailbox.step, hheld]
    · rw [htake]
      exact rfl
    · dsimp only
      rw [faultsOn_concat, hfault, h.told, hquiet.notices]
      simp
    · dsimp only
      rw [count_concat, hquiet.undelivered, ← h.undelivered, hfault]
      simp
    · dsimp only
      rw [count_concat, ← h.frames, hhk, htaken]
      simp
    · dsimp only
      rw [count_concat, ← h.statusFrames, hstatus]
      simp
    · dsimp only
      rw [count_concat, ← h.failures, htaken]
      by_cases hok : (answers l.wire.length).status = .ok <;> simp [hok]

/-- A frame that is due takes the place of the one that is staged. -/
theorem Linked.hkStage_of_due (h : Linked mail l v) {period : UInt32} (w : Watchdog)
    (lag late : UInt32) (hdue : l.recent period v.nowMs = false) :
    Linked (mail ++ [.put (Hk.frameOf w late l.toHk (lagging lag v))])
      (hkStage period w lag late l v).1 (hkStage period w lag late l v).2 := by
  have hput (f : HkFrame) : run Mailbox.step {} (mail ++ [MailOp.put f]) =
      (run Mailbox.step {} mail).step (.put f) := by rw [run_append]; rfl
  obtain ⟨k, frame, heq, hbytes⟩ := HkLink.hkStage_of_due l v w lag late hdue
  have hquiet := quiet_sample (lagging lag v) l.toHk
  rw [heq]
  refine ⟨h.tx, ?_, ?_, ?_, ?_, h.frames, h.statusFrames, h.failures⟩
  · rw [hput]
    exact h.out
  · rw [hput]
    exact ⟨rfl, rfl, hbytes⟩
  · rw [build_svc]
    exact h.told.trans hquiet.notices.symm
  · rw [build_svc]
    exact hquiet.undelivered.trans h.undelivered

end Steps

end HkLink

namespace HkNode

open HkLink

def start (rawTick : UInt32) : HkNode :=
  { link := { tx := true }, v := { rawTick, time := Time.init rawTick } }

def Keeps (s : HkNode) : Prop :=
  Linked s.mail s.link s.v ∧ Mailbox.puts s.mail = s.attempts.map HkAttempt.frame

theorem keeps_start (rawTick : UInt32) : (start rawTick).Keeps :=
  ⟨⟨rfl, rfl, rfl, rfl, rfl, rfl, rfl, rfl⟩, rfl⟩

section Step
variable {answers : ℕ → TransmitRun} {s : HkNode}

theorem step_pass (c : PlatformCounters) : s.step answers (.pass c) = { s with
    link := (Svc.errorHandlingServiceOver (s.uplink answers) c s.link s.v).1
    v := (Svc.errorHandlingServiceOver (s.uplink answers) c s.link s.v).2 } := rfl

theorem step_reentry (cause : FaultId) : s.step answers (.reentry cause) = { s with
    link := (Svc.reentryNoteOver (s.uplink answers) cause s.link s.v).1
    v := (Svc.reentryNoteOver (s.uplink answers) cause s.link s.v).2 } := rfl

theorem step_transmit : s.step answers .transmit = { s with
    link := (hkTransmit answers s.link s.v).1
    v := (hkTransmit answers s.link s.v).2
    mail := s.mail ++ [.take] } := rfl

theorem step_ready : s.step answers .ready = { s with
    link := (statusSend answers (readyReport s.payload s.health) s.link s.v).2.1
    v := (statusSend answers (readyReport s.payload s.health) s.link s.v).2.2 } := rfl

theorem step_stage_of_due {period : UInt32} (w : Watchdog) (lag late : UInt32)
    (hdue : s.link.recent period s.v.nowMs = false) :
    s.step answers (.stage period w lag late) =
      let frame := Hk.frameOf w late s.link.toHk (lagging lag s.v)
      { s with
        link := (hkStage period w lag late s.link s.v).1
        v := (hkStage period w lag late s.link s.v).2
        ticks := s.ticks + lag.toNat + late.toNat
        attempts := s.attempts ++ [⟨s.ticks, period, frame⟩]
        mail := s.mail ++ [.put frame] } := by
  rw [step, hdue]
  rfl

theorem step_stage_of_recent {period : UInt32} (w : Watchdog) (lag late : UInt32)
    (hrecent : s.link.recent period s.v.nowMs = true) :
    s.step answers (.stage period w lag late) = { s with v := s.v.collectTime } := by
  simp only [step, hkStage_of_recent _ _ _ _ _ hrecent, hrecent, ↓reduceIte]

theorem keeps_of_linked {l : HkLink} {v : Svc} (h : Linked s.mail l v)
    (hputs : Mailbox.puts s.mail = s.attempts.map HkAttempt.frame) :
    Keeps { s with link := l, v } := ⟨h, hputs⟩

theorem keeps_step (h : s.Keeps) (op : HkOp) : (s.step answers op).Keeps := by
  obtain ⟨hlinked, hputs⟩ := h
  cases op with
  | tick => exact ⟨hlinked.same rfl rfl, hputs⟩
  | report id detail => exact ⟨hlinked.quiet (.report id detail s.v), hputs⟩
  | clear id =>
    refine ⟨hlinked.quiet ⟨rfl, rfl, rfl, [.clear id], rfl, ?_⟩, hputs⟩
    simp
  | pass c =>
    have hkept : Svc.KeptOver (s.uplink answers) (Linked s.mail) := linked_kept ..
    have hpass := hkept.errorHandlingService c hlinked
    rw [step_pass]
    exact keeps_of_linked hpass hputs
  | reentry cause =>
    have hkept : Svc.KeptOver (s.uplink answers) (Linked s.mail) := linked_kept ..
    have hnote := hkept.reentryNote cause hlinked
    rw [step_reentry]
    exact keeps_of_linked hnote hputs
  | stage period w lag late =>
    cases hrecent : s.link.recent period s.v.nowMs with
    | true =>
      rw [step_stage_of_recent w lag late hrecent]
      exact ⟨hlinked.same rfl rfl, hputs⟩
    | false =>
      rw [step_stage_of_due w lag late hrecent]
      refine ⟨hlinked.hkStage_of_due w lag late hrecent, ?_⟩
      rw [Mailbox.puts_append, hputs, List.map_append]
      rfl
  | transmit =>
    rw [step_transmit]
    refine ⟨hlinked.hkTransmit, ?_⟩
    rw [Mailbox.puts_append, hputs]
    exact List.append_nil _
  | ready =>
    obtain ⟨l', w, heq, hquiet⟩ := @statusSend_quiet answers _ hlinked.tx
      (readyReport s.payload s.health) s.v
    have hsend := hlinked.send (w := w) (readyReport s.payload s.health) s.v
      (congrArg (·.2.1) heq) (congrArg (·.1) heq)
    rw [step_ready, heq]
    refine ⟨hsend ?_ ?_, hputs⟩
    · exact hquiet.notices.trans (List.append_nil _).symm
    · rw [if_neg fun hboth => hboth.1 rfl]
      exact hquiet.undelivered
  | setSampler sampler => exact ⟨hlinked.setSampler sampler, hputs⟩
  | setInterlock index status => exact ⟨hlinked.setInterlock index status, hputs⟩
  | setState payload health => exact ⟨hlinked, hputs⟩

theorem keeps_run (rawTick : UInt32) (ops : List HkOp) :
    (run (step answers) (start rawTick) ops).Keeps :=
  @run_keeps _ _ (step answers) Keeps (fun _ op h => keeps_step h op) _ (keeps_start rawTick) ops

end Step

structure FramesSent (s : HkNode) : Prop where
  once : (framesOn s.link.wire).Sublist (s.attempts.map HkAttempt.frame)
  frames : s.link.frames = UInt32.ofNat (s.link.wire.countP fun x => isHk x && taken x)
  statusFrames : s.link.statusFrames = UInt32.ofNat (s.link.wire.countP fun x => isStatus x && taken x)
  failures : s.link.txFailures = UInt32.ofNat (s.link.wire.countP fun x => !taken x)

theorem framesSent_run (answers : ℕ → TransmitRun) (rawTick : UInt32) (ops : List HkOp) :
    FramesSent (run (step answers) (start rawTick) ops) := by
  obtain ⟨h, hputs⟩ := keeps_run rawTick ops
  refine ⟨?_, h.frames, h.statusFrames, h.failures⟩
  rw [h.out, ← hputs]
  apply (List.sublist_append_left _ _).trans
  exact Mailbox.all_sublist

end HkNode

end QiranFirmware
