import QiranFirmware.Machine.Runs
import QiranFirmware.Mission.Answers
import QiranFirmware.Svc.Clock
import QiranFirmware.Svc.FdirOver
import QiranFirmware.Svc.PlatformLosses

/-! # The time that a stage is given

`mission_seq.c` against the clock. Beside the sequence stand its visits: the stages it has entered, each
with the ticks there had been and with the looks at its budget since. A visit is reported at its first look
that comes behind the budget then in force, and no second time.
-/
namespace QiranFirmware

open Machine Svc Mission

/-- A stay in a stage: when it was entered, and each look at the budget, with what the budget was. Times
are in ticks. -/
structure Visit where
  stage : Stage
  entered : ℕ
  looks : List (ℕ × Int32) := []
  deriving DecidableEq, Repr

namespace Visit

def elapsedMs (visit : Visit) (tick : ℕ) : UInt32 := UInt32.ofNat (20 * (tick - visit.entered))

def late (visit : Visit) (look : ℕ × Int32) : Bool :=
  !decide (look.2 ≤ 0) && decide (look.2.toUInt32 < visit.elapsedMs look.1)

def detail (visit : Visit) (tick : ℕ) : UInt32 :=
  (UInt32.ofNat visit.stage.index <<< 24) ||| (visit.elapsedMs tick &&& 0x00FFFFFF)

def reports (visit : Visit) : List UInt32 :=
  ((visit.looks.find? visit.late).map fun look => visit.detail look.1).toList

def look (visit : Visit) (x : ℕ × Int32) : Visit := { visit with looks := visit.looks ++ [x] }

theorem reports_look (visit : Visit) (x : ℕ × Int32) :
    (visit.look x).reports = visit.reports ++
      if !visit.looks.any visit.late && visit.late x then [visit.detail x.1] else [] := by
  have hlate : (visit.look x).late = visit.late := rfl
  have hdetail : (visit.look x).detail = visit.detail := rfl
  have hlooks : (visit.look x).looks = visit.looks ++ [x] := rfl
  rw [reports, reports, hlooks, hlate, hdetail, List.find?_append]
  cases hfind : visit.looks.find? visit.late with
  | some y =>
    have hany : visit.looks.any visit.late = true :=
      List.any_eq_true.mpr ⟨y, List.mem_of_find?_eq_some hfind, List.find?_some hfind⟩
    simp [hany]
  | none =>
    have hany : visit.looks.any visit.late = false := by
      rw [← Bool.not_eq_true, List.any_eq_true]
      rintro ⟨y, hy, hlatey⟩
      exact List.find?_eq_none.mp hfind y hy hlatey
    cases hx : visit.late x with
    | true => simp [hany, hx]
    | false => simp [hx]

end Visit

/-- The sequence and the services, and what has happened: `ticks` interrupts, and the visits. -/
structure Schedule where
  mission : Mission
  v : Svc
  ticks : ℕ := 0
  past : List Visit := []
  now : Visit := { stage := .boot, entered := 0 }

inductive ScheduleOp
  | tick (n : UInt32)
  | ask
  | mission (op : MissionOp)

namespace Schedule

def start (rawTick : UInt32) : Schedule where
  mission := (Mission.init { rawTick, time := Time.init rawTick }).1
  v := (Mission.init { rawTick, time := Time.init rawTick }).2

def looked (s : Schedule) : MissionOp → Visit
  | .step config _ _ =>
    if s.mission.aborted || s.mission.stalled then s.now
    else
      match s.mission.stage.budget with
      | none => s.now
      | some param => s.now.look (s.ticks, config param)
  | .register _ | .abort _ | .fault _ => s.now

/-- The sequence has come to be so, in a new visit if the entries say so. -/
def arrive (mission : Mission) (v : Svc) (s : Schedule) : Schedule :=
  if mission.entries mission.stage = s.mission.entries mission.stage then { s with mission, v }
  else
    { s with
      mission, v
      past := s.past ++ [s.now]
      now := { stage := mission.stage, entered := s.ticks } }

/-- `ask` is a reading of the time by another module. -/
def step (s : Schedule) : ScheduleOp → Schedule
  | .tick n => { s with ticks := s.ticks + n.toNat, v := { s.v with rawTick := s.v.rawTick + n } }
  | .ask => { s with v := s.v.collectTime }
  | .mission op =>
    arrive (missionStep (s.mission, s.v) op).1 (missionStep (s.mission, s.v) op).2
      { s with now := s.looked op }

def Timely (s : Schedule) : ScheduleOp → Prop
  | .ask => InTime s.ticks s.v
  | .mission (.step _ up r) => InTime s.ticks s.v ∧ OwnFaults [.stageTimeout] up ∧
      (∀ f ∈ r.reports, f.1 ∉ [FaultId.stageTimeout]) ∧ r.out.fault ≠ .stageTimeout
  | .mission (.fault (.report id _)) => id ∉ [FaultId.stageTimeout]
  | .mission (.fault (.service up _)) => OwnFaults [.stageTimeout] up
  | .mission (.fault .tick) => False
  | .tick _ | .mission (.register _) | .mission (.abort _) | .mission (.fault (.clear _)) |
    .mission (.fault (.collect _)) => True

def visits (s : Schedule) : List Visit := s.past ++ [s.now]

structure Kept (s : Schedule) : Prop where
  clocked : Clocked s.ticks s.v
  stage : s.now.stage = s.mission.stage
  began : s.now.entered ≤ s.ticks
  enteredMs : s.mission.enteredMs = UInt64.ofNat (20 * s.now.entered)
  timedOut : s.mission.timedOut = s.now.looks.any s.now.late
  told : s.v.details .stageTimeout = s.visits.flatMap Visit.reports
  entries : ∀ stage, s.mission.entries stage =
    UInt32.ofNat (s.visits.countP fun visit => visit.stage = stage)
  looked : ∀ visit ∈ s.visits, ∀ look ∈ visit.looks, visit.entered ≤ look.1

theorem telling_init (rawTick : UInt32) : Telling 0 { rawTick, time := Time.init rawTick } := by
  refine ⟨⟨le_rfl, (UInt32.add_zero rawTick).symm⟩, ?_, ?_⟩
  · show (0 : ℕ) < 0 + 2 ^ 32
    norm_num
  · norm_num

theorem kept_start (rawTick : UInt32) : (start rawTick).Kept where
  clocked := (telling_init rawTick).collectTime.1
  stage := rfl
  began := le_rfl
  enteredMs := (telling_init rawTick).nowMs
  timedOut := rfl
  told := rfl
  entries stage := by cases stage <;> rfl
  looked := by simp [visits, start]

variable {s : Schedule}

theorem Kept.elapsedMs (h : s.Kept) (htime : InTime s.ticks s.v) :
    s.mission.elapsedMs s.v = s.now.elapsedMs s.ticks := by
  have hnow : s.v.nowMs = UInt64.ofNat (20 * s.ticks) := Telling.nowMs ⟨h.clocked, htime⟩
  rw [Mission.elapsedMs, hnow, h.enteredMs, Visit.elapsedMs]
  obtain ⟨past, hpast⟩ := Nat.exists_eq_add_of_le h.began
  have hsum : UInt64.ofNat (20 * s.ticks) = UInt64.ofNat (20 * s.now.entered) + UInt64.ofNat (20 * past) := by
    rw [hpast, Nat.mul_add, UInt64.ofNat_add]
  have hdiff : s.ticks - s.now.entered = past := by omega
  rw [hsum, hdiff, UInt64.add_comm, UInt64.add_sub_cancel, UInt64.toUInt32_ofNat']

inductive Moved (n : ℕ) (m m' : Mission) : Prop
  | stays (stage : m'.stage = m.stage) (entries : m'.entries = m.entries)
      (enteredMs : m'.enteredMs = m.enteredMs) (timedOut : m'.timedOut = m.timedOut)
  | enters (entries : m'.entries = Function.update m.entries m'.stage (m.entries m'.stage + 1))
      (enteredMs : m'.enteredMs = UInt64.ofNat (20 * n)) (timedOut : m'.timedOut = false)

theorem Moved.of_counters {n : ℕ} {m m' m'' : Mission} (h : Moved n m' m'') (stage : m'.stage = m.stage)
    (entries : m'.entries = m.entries) (enteredMs : m'.enteredMs = m.enteredMs)
    (timedOut : m'.timedOut = m.timedOut) : Moved n m m'' := by
  cases h with
  | stays stage' entries' enteredMs' timedOut' =>
    exact .stays (stage'.trans stage) (entries'.trans entries) (enteredMs'.trans enteredMs)
      (timedOut'.trans timedOut)
  | enters entries' enteredMs' timedOut' =>
    rw [entries] at entries'
    exact .enters entries' enteredMs' timedOut'

theorem Kept.arrive (h : s.Kept) {m : Mission} {v : Svc} (hmoved : Moved s.ticks s.mission m)
    (hclocked : Clocked s.ticks v) (hdetails : v.details .stageTimeout = s.v.details .stageTimeout) :
    (s.arrive m v).Kept := by
  cases hmoved with
  | stays stage entries enteredMs timedOut =>
    have hsame : s.arrive m v = { s with mission := m, v } := if_pos (congrFun entries _)
    rw [hsame]
    exact { h with
      clocked := hclocked
      stage := h.stage.trans stage.symm
      enteredMs := enteredMs.trans h.enteredMs
      timedOut := timedOut.trans h.timedOut
      told := hdetails.trans h.told
      entries := fun stage => (congrFun entries stage).trans (h.entries stage) }
  | enters entries enteredMs timedOut =>
    have hmore : m.entries m.stage ≠ s.mission.entries m.stage := by
      rw [entries, Function.update_self]
      grind
    have hnew : s.arrive m v = { s with
        mission := m, v
        past := s.past ++ [s.now]
        now := { stage := m.stage, entered := s.ticks } } := if_neg hmore
    rw [hnew]
    refine ⟨hclocked, rfl, le_rfl, enteredMs, timedOut, ?_, fun stage => ?_, ?_⟩
    · have htold := h.told
      rw [visits] at htold
      simp only [hdetails, htold, visits, List.flatMap_append, List.flatMap_singleton]
      exact (List.append_nil _).symm
    · have hbefore := h.entries stage
      rw [visits] at hbefore
      rw [entries, visits, List.countP_append, UInt32.ofNat_add, ← hbefore]
      by_cases hstage : stage = m.stage
      · subst hstage
        simp
      · simp [hstage, Ne.symm hstage]
    · intro visit hvisit look hlook
      rcases List.mem_append.mp hvisit with hvisit | hvisit
      · exact h.looked visit hvisit look hlook
      · rw [List.mem_singleton.mp hvisit] at hlook
        cases hlook

variable {n : ℕ} {m : Mission} {v : Svc} {config : ConfigParam → Int32} {up : Option Uplink}

/-- Looking at the budget reports the stage, if it is found to be over it for the first time. -/
theorem checkBudget_told (htold : Telling n v) :
    Telling n (checkBudget config m v).2 ∧
      (checkBudget config m v).2.details .stageTimeout = v.details .stageTimeout ++
        if m.overruns config v then
          [(UInt32.ofNat m.stage.index <<< 24) ||| (m.elapsedMs v &&& 0x00FFFFFF)]
        else [] := by
  unfold checkBudget overruns
  cases m.stage.budget with
  | none => exact ⟨htold, (List.append_nil _).symm⟩
  | some param =>
    dsimp only
    split
    · rename_i hout
      refine ⟨htold, ?_⟩
      simp [hout]
    split
    · rename_i hoff
      refine ⟨htold, ?_⟩
      simp [hoff]
    rename_i hout hon
    have hread : Telling n v.collectTime := htold.collectTime
    split
    · rename_i hover
      refine ⟨hread.congr rfl rfl, ?_⟩
      rw [details_report, if_pos rfl]
      simp [hout, hon, hover, collectTime, details]
    · rename_i hunder
      refine ⟨hread, ?_⟩
      simp [hunder, collectTime, details]

theorem enter_moved (htold : Telling n v) (stage : Stage) (m : Mission) :
    let w := enter stage m v
    Clocked n w.2 ∧ w.2.details .stageTimeout = v.details .stageTimeout ∧ Moved n m w.1 := by
  have hlog : Elsewhere [.stageTimeout] v.collectTime (enter stage m v).2 := elsewhere_logEvent ..
  refine ⟨htold.collectTime.1.congr hlog.rawTick hlog.time, hlog.details _ (List.mem_singleton_self _), ?_⟩
  exact .enters rfl htold.nowMs rfl

theorem call_stays {r : StepRun} (h : ∀ f ∈ r.reports, f.1 ∉ [FaultId.stageTimeout]) (m : Mission) (v : Svc) :
    let c := call r m v
    Elsewhere [.stageTimeout] v c.2 ∧ c.1.stage = m.stage ∧ c.1.entries = m.entries ∧
      c.1.enteredMs = m.enteredMs ∧ c.1.timedOut = m.timedOut := by
  have hreports := elsewhere_reportAll h v
  unfold call
  cases r.abort with
  | none => exact ⟨hreports, rfl, rfl, rfl, rfl⟩
  | some cause =>
    simp only [abort]
    split
    · exact ⟨hreports, rfl, rfl, rfl, rfl⟩
    · exact ⟨hreports.trans (elsewhere_logFault ..), rfl, rfl, rfl, rfl⟩

theorem apply_moved (htold : Telling n v) (hup : OwnFaults [.stageTimeout] up) {out : StepOut}
    (hfault : faultOf m.stage out ∉ [FaultId.stageTimeout]) :
    let w := apply up out m v
    Clocked n w.2 ∧ w.2.details .stageTimeout = v.details .stageTimeout ∧ Moved n m w.1 := by
  have hmem : FaultId.stageTimeout ∈ [FaultId.stageTimeout] := List.mem_singleton_self _
  have hreport : Elsewhere [.stageTimeout] v (v.report (faultOf m.stage out) out.detail) :=
    elsewhere_report hfault out.detail v
  have hreported : Telling n (v.report (faultOf m.stage out) out.detail) :=
    htold.congr hreport.rawTick hreport.time
  have hstays {m' : Mission} (hm : Moved n m m') : Clocked n (v.report (faultOf m.stage out) out.detail) ∧
      (v.report (faultOf m.stage out) out.detail).details .stageTimeout = v.details .stageTimeout ∧
      Moved n m m' := ⟨hreported.1, hreport.details _ hmem, hm⟩
  unfold apply
  cases out.result with
  | working => exact ⟨htold.1, rfl, .stays rfl rfl rfl rfl⟩
  | abort => exact hstays (.stays rfl rfl rfl rfl)
  | done =>
    have hclear : Elsewhere [.stageTimeout] v (v.clear (faultOf m.stage out)) := elsewhere_clear ..
    have hcleared : Telling n (v.clear (faultOf m.stage out)) := htold.congr hclear.rawTick hclear.time
    dsimp only
    split
    · obtain ⟨hclocked, hdetails, hmoved⟩ := enter_moved hcleared (.ofIndex (m.stage.index + 1)) { m with
        attempts := 0
        payload := if m.stage = .spadEnable then .operational else m.payload }
      exact ⟨hclocked, hdetails.trans (hclear.details _ hmem), hmoved.of_counters rfl rfl rfl rfl⟩
    · exact ⟨hcleared.1, hclear.details _ hmem, .stays rfl rfl rfl rfl⟩
  | retry =>
    dsimp only
    split
    · exact hstays (.stays rfl rfl rfl rfl)
    · obtain ⟨hclocked, hdetails, hmoved⟩ := enter_moved hreported m.stage { m with attempts := m.attempts + 1 }
      exact ⟨hclocked, hdetails.trans (hreport.details _ hmem), hmoved.of_counters rfl rfl rfl rfl⟩
  | back =>
    dsimp only
    split
    · exact hstays (.stays rfl rfl rfl rfl)
    · have hnote := elsewhere_reentryNote hup (faultOf m.stage out) (v.report (faultOf m.stage out) out.detail)
      obtain ⟨hclocked, hdetails, hmoved⟩ := enter_moved (hreported.congr hnote.rawTick hnote.time)
        (.ofIndex out.backTo) { m with attempts := 0, reentries := m.reentries + 1 }
      exact ⟨hclocked, (hdetails.trans (hnote.details _ hmem)).trans (hreport.details _ hmem),
        hmoved.of_counters rfl rfl rfl rfl⟩

/-- A step that is not idle looks at the budget first. -/
theorem Kept.look (h : s.Kept) (htime : InTime s.ticks s.v) (config : ConfigParam → Int32)
    (up : Option Uplink) (r : StepRun) (hactive : ¬ (s.mission.aborted || s.mission.stalled) = true) :
    Kept { s with
      mission := (checkBudget config s.mission s.v).1
      v := (checkBudget config s.mission s.v).2
      now := s.looked (.step config up r) } := by
  obtain ⟨hmission, -⟩ := checkBudget_eq config s.mission s.v
  obtain ⟨htelling, hdetails⟩ := @checkBudget_told _ s.mission _ config ⟨h.clocked, htime⟩
  have helapsed := h.elapsedMs htime
  have hlooked : s.looked (.step config up r) = match s.mission.stage.budget with
      | none => s.now
      | some param => s.now.look (s.ticks, config param) := if_neg hactive
  rw [hmission, hlooked]
  cases hbudget : s.mission.stage.budget with
  | none =>
    have hover : s.mission.overruns config s.v = false := by rw [overruns, hbudget]
    rw [hover] at hdetails ⊢
    refine { h with clocked := htelling.1, timedOut := ?_, told := ?_ }
    · exact (Bool.or_false _).trans h.timedOut
    · exact (hdetails.trans (List.append_nil _)).trans h.told
  | some param =>
    have hover : s.mission.overruns config s.v =
        (!s.now.looks.any s.now.late && s.now.late (s.ticks, config param)) := by
      rw [overruns, hbudget, ← h.timedOut, Visit.late, ← helapsed]
      exact Bool.and_assoc ..
    have htold := h.told
    have hlookedIn := h.looked
    rw [visits] at htold hlookedIn
    rw [hover] at hdetails ⊢
    refine ⟨htelling.1, h.stage, h.began, h.enteredMs, ?_, ?_, fun stage => ?_, ?_⟩
    · have hany : (s.now.look (s.ticks, config param)).looks.any s.now.late =
          (s.now.looks.any s.now.late || s.now.late (s.ticks, config param)) := by
        simp [Visit.look]
      have hlate : (s.now.look (s.ticks, config param)).late = s.now.late := rfl
      dsimp only
      rw [hlate, hany, h.timedOut]
      cases s.now.looks.any s.now.late <;> rfl
    · have hdetail : (UInt32.ofNat s.mission.stage.index <<< 24) |||
          (s.mission.elapsedMs s.v &&& 0x00FFFFFF) = s.now.detail s.ticks := by
        rw [helapsed, ← h.stage]
        rfl
      dsimp only [visits]
      rw [hdetails, htold, hdetail]
      simp only [List.flatMap_append, List.flatMap_singleton, Visit.reports_look, List.append_assoc]
    · have hentries := h.entries stage
      rw [visits, List.countP_append] at hentries
      dsimp only [visits]
      rw [List.countP_append]
      exact hentries
    · intro visit hvisit look hlook
      rcases List.mem_append.mp hvisit with hvisit | hvisit
      · exact hlookedIn visit (List.mem_append_left _ hvisit) look hlook
      · rw [List.mem_singleton.mp hvisit] at hlook ⊢
        rcases List.mem_append.mp hlook with hlook | hlook
        · exact hlookedIn s.now (List.mem_append_right _ (List.mem_singleton_self _)) look hlook
        · rw [List.mem_singleton.mp hlook]
          exact h.began

theorem Kept.missionStep (h : s.Kept) (htime : InTime s.ticks s.v) (hup : OwnFaults [.stageTimeout] up)
    {r : StepRun} (hreports : ∀ f ∈ r.reports, f.1 ∉ [FaultId.stageTimeout])
    (hfault : r.out.fault ≠ .stageTimeout) :
    Kept (s.step (.mission (.step config up r))) := by
  by_cases hactive : (s.mission.aborted || s.mission.stalled) = true
  · have hidle : Mission.step config up r s.mission s.v = (s.mission, s.v) := if_pos hactive
    have hlooked : s.looked (.step config up r) = s.now := if_pos hactive
    have hstep : s.step (.mission (.step config up r)) = s := by
      rw [step, hlooked, Mission.missionStep, hidle]
      exact if_pos rfl
    rw [hstep]
    exact h
  have hlook := h.look htime config up r hactive
  obtain ⟨hmission, -⟩ := checkBudget_eq config s.mission s.v
  obtain ⟨htelling, -⟩ := @checkBudget_told _ s.mission _ config ⟨h.clocked, htime⟩
  have hentries : (checkBudget config s.mission s.v).1.entries = s.mission.entries := by rw [hmission]
  -- what follows the look does not depend on where the look has left the sequence
  have harrive (m : Mission) (v : Svc) : Schedule.arrive m v { s with
        mission := (checkBudget config s.mission s.v).1
        v := (checkBudget config s.mission s.v).2
        now := s.looked (.step config up r) } =
      Schedule.arrive m v { s with now := s.looked (.step config up r) } := by
    simp only [Schedule.arrive, hentries]
  have hstep : Mission.step config up r s.mission s.v =
      if !(checkBudget config s.mission s.v).1.registered (checkBudget config s.mission s.v).1.stage then
        checkBudget config s.mission s.v
      else
        let c := call r (checkBudget config s.mission s.v).1 (checkBudget config s.mission s.v).2
        apply up r.out c.1 c.2 := if_neg hactive
  rw [step, ← harrive, Mission.missionStep, hstep]
  generalize checkBudget config s.mission s.v = b at hlook htelling ⊢
  split
  · exact hlook.arrive (.stays rfl rfl rfl rfl) htelling.1 rfl
  · obtain ⟨hcall, stage, entries, enteredMs, timedOut⟩ := call_stays hreports b.1 b.2
    have hmem : FaultId.stageTimeout ∈ [FaultId.stageTimeout] := List.mem_singleton_self _
    dsimp only
    generalize call r b.1 b.2 = c at hcall stage entries enteredMs timedOut ⊢
    have hanswer : faultOf c.1.stage r.out ∉ [FaultId.stageTimeout] := by
      rw [List.mem_singleton, faultOf]
      split
      · exact hfault
      · exact c.1.stage.fault_ne_stageTimeout
    obtain ⟨hclocked, hdetails, hmoved⟩ :=
      apply_moved (htelling.congr hcall.rawTick hcall.time) hup hanswer
    exact hlook.arrive (hmoved.of_counters stage entries enteredMs timedOut) hclocked
      (hdetails.trans (hcall.details _ hmem))

theorem kept_step {op : ScheduleOp} (h : s.Kept) (hop : s.Timely op) : (s.step op).Kept := by
  have hmem : FaultId.stageTimeout ∈ [FaultId.stageTimeout] := List.mem_singleton_self _
  cases op with
  | tick n => exact { h with clocked := h.clocked.later n, began := Nat.le_add_right_of_le h.began }
  | ask => exact { h with clocked := (Telling.collectTime ⟨h.clocked, hop⟩).1 }
  | mission op =>
    cases op with
    | step config up r => exact h.missionStep hop.1 hop.2.1 hop.2.2.1 hop.2.2.2
    | register stage =>
      refine h.arrive ?_ h.clocked rfl
      simp only [missionStep, register]
      split <;> exact .stays rfl rfl rfl rfl
    | abort cause =>
      simp only [step, missionStep, abort]
      split
      · exact h.arrive (.stays rfl rfl rfl rfl) h.clocked rfl
      · have hlog : Elsewhere [.stageTimeout] s.v (s.v.logFault cause .severe
            (UInt32.ofNat s.mission.stage.index)) := elsewhere_logFault ..
        exact h.arrive (.stays rfl rfl rfl rfl) (h.clocked.congr hlog.rawTick hlog.time)
          (hlog.details _ hmem)
    | fault op =>
      have helsewhere (v : Svc) (hv : Elsewhere [.stageTimeout] s.v v) :
          (Schedule.arrive s.mission v s).Kept :=
        h.arrive (.stays rfl rfl rfl rfl) (h.clocked.congr hv.rawTick hv.time) (hv.details _ hmem)
      cases op with
      | report id detail => exact helsewhere _ (elsewhere_report hop detail s.v)
      | clear id => exact helsewhere _ (elsewhere_clear id s.v)
      | collect c =>
        have hquiet := Quiet.collect c s.v
        exact h.arrive (.stays rfl rfl rfl rfl) (h.clocked.congr hquiet.rawTick hquiet.time)
          (details_collect c (by decide) s.v)
      | service up id => exact helsewhere _ (elsewhere_serviceClass hop s.v id)
      | tick => exact absurd hop id

theorem kept_run {rawTick : UInt32} {ops : List ScheduleOp} (h : Along step Timely (start rawTick) ops) :
    (run step (start rawTick) ops).Kept :=
  @run_invariant _ _ step Timely Kept (fun _ _ hs hop => kept_step hs hop) _ ops (kept_start rawTick) h

/-- In every run in which the time is read in time and nobody else reports the class, the reports that a
stage is over its budget are those of the visits, in their order: one for each visit that was looked at
behind a budget in force, at the first such look, with the stage and the time it had taken by then. The
visits are the entries that the sequence counts, and the time it gives for the present one is right. -/
theorem budgets_told {rawTick : UInt32} {ops : List ScheduleOp} (h : Along step Timely (start rawTick) ops) :
    let s := run step (start rawTick) ops
    s.v.details .stageTimeout = s.visits.flatMap Visit.reports ∧
    (∀ visit ∈ s.visits, ∀ look ∈ visit.looks, visit.entered ≤ look.1) ∧
    s.now.stage = s.mission.stage ∧
    (∀ stage, s.mission.entries stage = UInt32.ofNat (s.visits.countP fun visit => visit.stage = stage)) ∧
    s.mission.timedOut = s.now.looks.any s.now.late ∧
    (InTime s.ticks s.v → s.mission.elapsedMs s.v = s.now.elapsedMs s.ticks) := by
  intro s
  have hs : s.Kept := kept_run h
  exact ⟨hs.told, hs.looked, hs.stage, hs.entries, hs.timedOut, hs.elapsedMs⟩

def answered (result : StepResult) : ScheduleOp :=
  .mission (.step (fun _ => 1000) none { out := { result } })

theorem timely_answered (result : StepResult) (h : InTime s.ticks s.v) : Timely s (answered result) :=
  ⟨h, nofun, nofun, nofun⟩

theorem timely_ask (h : InTime s.ticks s.v) : Timely s .ask := h

def overstayed : List ScheduleOp :=
  [.mission (.register .boot), .mission (.register .precond), .mission (.register .laserBringup),
    answered .done, answered .done, .tick 50, answered .working, .tick 1, answered .working, .tick 9,
    answered .retry, .tick 60, .ask, answered .working]

theorem budgets_told_overstayed :
    let s := run step (start 0xFFFFFFF0) overstayed
    s.v.details .stageTimeout = s.visits.flatMap Visit.reports ∧
    (∀ visit ∈ s.visits, ∀ look ∈ visit.looks, visit.entered ≤ look.1) ∧
    s.now.stage = s.mission.stage ∧
    (∀ stage, s.mission.entries stage = UInt32.ofNat (s.visits.countP fun visit => visit.stage = stage)) ∧
    s.mission.timedOut = s.now.looks.any s.now.late ∧
    (InTime s.ticks s.v → s.mission.elapsedMs s.v = s.now.elapsedMs s.ticks) := by
  refine budgets_told ⟨trivial, trivial, trivial, timely_answered _ ?_, timely_answered _ ?_, trivial,
    timely_answered _ ?_, trivial, timely_answered _ ?_, trivial, timely_answered _ ?_, trivial,
    timely_ask ?_, timely_answered _ ?_, trivial⟩
  all_goals decide +kernel

example : (run step (start 0xFFFFFFF0) overstayed).v.details .stageTimeout =
    [0x020003FC, 0x020004B0] := by
  decide +kernel

end Schedule

end QiranFirmware
