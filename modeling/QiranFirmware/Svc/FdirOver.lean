import QiranFirmware.Svc.FdirEffects

/-! # The fault service over an uplink with a state of its own

`svc_fdir.c` calls the uplink that has been registered, and the module behind it has its own state,
which a pass may change class by class. The functions that escalate are given here with that state
passed along. For the services they do what they do over an uplink that only answers.
-/
namespace QiranFirmware

/-- A registered uplink: its status, and what a call makes of the module behind it and of the services. -/
abbrev UplinkOver (τ : Type) := UplinkCall → τ → Svc → Status × τ × Svc

namespace Svc

open SvcCall

def escalating (id : FaultId) (detail : UInt32) (v : Svc) : Svc :=
  let r := v.fdir.record id
  { v with
    fdir := { v.fdir with
      record := Function.update v.fdir.record id { r with escalations := r.escalations + 1 } }
    trace := v.trace ++ [.escalate id detail] }

section Over
variable {τ : Type} (up : UplinkOver τ)

def deliverOver (call : UplinkCall) (t : τ) (v : Svc) : τ × Svc :=
  let (st, t, v) := up call t { v with trace := v.trace ++ [.uplink call] }
  if st = .ok then (t, v)
  else (t, { v with fdir := { v.fdir with undelivered := v.fdir.undelivered + 1 } })

theorem fst_deliverOver (call : UplinkCall) (t : τ) (v : Svc) : (deliverOver up call t v).1 =
    (up call t { v with trace := v.trace ++ [.uplink call] }).2.1 := by
  unfold deliverOver
  dsimp only
  split <;> rfl

def escalateOver (id : FaultId) (detail : UInt32) (t : τ) (v : Svc) : τ × Svc :=
  match (policy id).escalation with
  | .report => deliverOver up (.reportFlag id (policy id).severity detail) t (escalating id detail v)
  | .powerReset => deliverOver up (.requestPowerReset id) t (escalating id detail v)
  | .logOnly => (t, escalating id detail v)

def classifyOver (id : FaultId) (occurrences : UInt32) (t : τ) (v : Svc) : τ × Svc :=
  let detail := v.fdir.detail id
  let v := note id occurrences v
  match (policy id).severity with
  | .severe => escalateOver up id detail t v
  | .critical =>
    if (policy id).limit ≠ 0 ∧ (policy id).limit.toUInt32 ≤ (v.fdir.record id).occurrences ∧
        (v.fdir.record id).elevated = false then
      escalateOver up id detail t (elevate id v)
    else (t, v)
  | .medium => (t, v)
  | .minor => (t, v)

def serviceClassOver (s : τ × Svc) (id : FaultId) : τ × Svc :=
  let nnew := s.2.unserviced id
  if nnew = 0 then s
  else
    classifyOver up id nnew s.1 { s.2 with fdir := { s.2.fdir with
      serviced := Function.update s.2.fdir.serviced id (s.2.fdir.reported id) } }

def errorHandlingServiceOver (c : PlatformCounters) (t : τ) (v : Svc) : τ × Svc :=
  FaultId.serviced.foldl (serviceClassOver up) (t, collectPlatformCounters c v)

def reentryNoteOver (cause : FaultId) (t : τ) (v : Svc) : τ × Svc :=
  let n := v.fdir.reentries + 1
  let v := logEvent cause.code n { v with fdir := { v.fdir with reentries := n } }
  if reentryLimit < n then escalateOver up cause n t v else (t, v)

end Over

def atTime (time : Time) (v : Svc) : Svc := { v with time }

section AtTime
variable (time : Time) (v : Svc)

@[simp] theorem trace_atTime : (v.atTime time).trace = v.trace := rfl

theorem report_atTime (id : FaultId) (detail : UInt32) :
    (v.atTime time).report id detail = (v.report id detail).atTime time := rfl

theorem reportAll_atTime (faults : List (FaultId × UInt32)) :
    reportAll faults (v.atTime time) = (reportAll faults v).atTime time := by
  induction faults generalizing v with
  | nil => rfl
  | cons f faults ih => exact ih (v.report f.1 f.2)

theorem deliver_atTime (up : Option Uplink) (call : UplinkCall) :
    deliver up call (v.atTime time) = (deliver up call v).atTime time := by
  cases up with
  | none => rfl
  | some u =>
    have hall := reportAll_atTime time { v with trace := v.trace ++ [.uplink call] } (u call).2
    rw [atTime] at hall
    simp only [deliver, atTime, hall]
    split <;> rfl

theorem escalate_eq (up : Option Uplink) (id : FaultId) (detail : UInt32) :
    escalate up id detail v = match (policy id).escalation with
      | .report => deliver up (.reportFlag id (policy id).severity detail) (escalating id detail v)
      | .powerReset => deliver up (.requestPowerReset id) (escalating id detail v)
      | .logOnly => escalating id detail v := rfl

theorem escalate_atTime (up : Option Uplink) (id : FaultId) (detail : UInt32) :
    escalate up id detail (v.atTime time) = (escalate up id detail v).atTime time := by
  rw [escalate_eq, escalate_eq]
  cases (policy id).escalation with
  | report => exact deliver_atTime time (escalating id detail v) up _
  | powerReset => exact deliver_atTime time (escalating id detail v) up _
  | logOnly => rfl

theorem classify_atTime (up : Option Uplink) (id : FaultId) (occurrences : UInt32) :
    classify up id occurrences (v.atTime time) = (classify up id occurrences v).atTime time := by
  unfold classify
  cases (policy id).severity with
  | severe => exact escalate_atTime time (note id occurrences v) up id (v.fdir.detail id)
  | critical =>
    dsimp only
    by_cases hdue : (policy id).limit ≠ 0 ∧
        (policy id).limit.toUInt32 ≤ ((note id occurrences v).fdir.record id).occurrences ∧
        ((note id occurrences v).fdir.record id).elevated = false
    · rw [if_pos hdue]
      exact (if_pos hdue).trans (escalate_atTime time (elevate id (note id occurrences v)) up id
        (v.fdir.detail id))
    · rw [if_neg hdue]
      exact if_neg hdue
  | medium => rfl
  | minor => rfl

theorem serviceClass_atTime (up : Option Uplink) (id : FaultId) :
    serviceClass up (v.atTime time) id = (serviceClass up v id).atTime time := by
  unfold serviceClass
  by_cases hnone : v.unserviced id = 0
  · rw [if_pos hnone]
    exact if_pos hnone
  · rw [if_neg hnone]
    exact (if_neg hnone).trans (classify_atTime time { v with fdir := { v.fdir with
      serviced := Function.update v.fdir.serviced id (v.fdir.reported id) } } up id (v.unserviced id))

theorem foldl_serviceClass_atTime (up : Option Uplink) (ids : List FaultId) :
    ids.foldl (serviceClass up) (v.atTime time) = (ids.foldl (serviceClass up) v).atTime time := by
  induction ids generalizing v with
  | nil => rfl
  | cons id ids ih =>
    rw [List.foldl_cons, serviceClass_atTime]
    exact ih _

end AtTime

section Congr
variable {u u' : Uplink} {id : FaultId}

theorem escalate_congr (h : ∀ call, call.fault = id → u call = u' call) (detail : UInt32) (v : Svc) :
    escalate (some u) id detail v = escalate (some u') id detail v := by
  have hflag := h (.reportFlag id (policy id).severity detail) rfl
  have hreset := h (.requestPowerReset id) rfl
  simp only [escalate, deliver, hflag, hreset]

/-- The class asks the uplink for nothing but itself. -/
theorem serviceClass_congr (h : ∀ call, call.fault = id → u call = u' call) (v : Svc) :
    serviceClass (some u) v id = serviceClass (some u') v id := by
  simp only [serviceClass, classify, escalate_congr h]

theorem foldl_serviceClass_congr {ids : List FaultId}
    (h : ∀ call, call.fault ∈ ids → u call = u' call) (v : Svc) :
    ids.foldl (serviceClass (some u)) v = ids.foldl (serviceClass (some u')) v := by
  induction ids generalizing v with
  | nil => rfl
  | cons id ids ih =>
    have hid : ∀ call, call.fault = id → u call = u' call := by
      rintro call rfl
      exact h call List.mem_cons_self
    rw [List.foldl_cons, List.foldl_cons, serviceClass_congr hid]
    exact ih (fun call hcall => h call (List.mem_cons_of_mem _ hcall)) _

end Congr

section Refines
variable {τ : Type} {up : UplinkOver τ}

/-- A call may ask for the time and report faults, and does nothing else to the services. -/
def Replies (up : UplinkOver τ) : Prop :=
  ∀ call t v, ∃ reports time, (up call t v).2.2 = (reportAll reports v).atTime time

theorem deliverOver_refines (h : Replies up) (call : UplinkCall) (t : τ) (v : Svc) :
    ∃ r : Status × List (FaultId × UInt32), ∃ time,
      (deliverOver up call t v).2 = (deliver (some fun _ => r) call v).atTime time := by
  obtain ⟨reports, time, heq⟩ := h call t { v with trace := v.trace ++ [.uplink call] }
  refine ⟨((up call t { v with trace := v.trace ++ [.uplink call] }).1, reports), time, ?_⟩
  by_cases hok : (up call t { v with trace := v.trace ++ [.uplink call] }).1 = .ok
  · simp only [deliverOver, deliver, hok, ↓reduceIte, heq]
  · simp only [deliverOver, deliver, hok, ↓reduceIte, heq]
    rfl

theorem escalateOver_refines (h : Replies up) (id : FaultId) (detail : UInt32) (t : τ) (v : Svc) :
    ∃ r : Status × List (FaultId × UInt32), ∃ time,
      (escalateOver up id detail t v).2 = (escalate (some fun _ => r) id detail v).atTime time := by
  rw [escalateOver]
  simp only [escalate_eq]
  cases (policy id).escalation with
  | report => exact deliverOver_refines h _ t _
  | powerReset => exact deliverOver_refines h _ t _
  | logOnly => exact ⟨(.ok, []), v.time, rfl⟩

theorem classifyOver_refines (h : Replies up) (id : FaultId) (n : UInt32) (t : τ) (v : Svc) :
    ∃ r : Status × List (FaultId × UInt32), ∃ time,
      (classifyOver up id n t v).2 = (classify (some fun _ => r) id n v).atTime time := by
  unfold classifyOver classify
  cases (policy id).severity with
  | severe => exact escalateOver_refines h id _ t _
  | critical =>
    dsimp only
    split
    · exact escalateOver_refines h id _ t _
    · exact ⟨(.ok, []), v.time, rfl⟩
  | medium => exact ⟨(.ok, []), v.time, rfl⟩
  | minor => exact ⟨(.ok, []), v.time, rfl⟩

theorem serviceClassOver_refines (h : Replies up) (s : τ × Svc) (id : FaultId) :
    ∃ r : Status × List (FaultId × UInt32), ∃ time,
      (serviceClassOver up s id).2 = (serviceClass (some fun _ => r) s.2 id).atTime time := by
  unfold serviceClassOver serviceClass
  dsimp only
  split
  · exact ⟨(.ok, []), s.2.time, rfl⟩
  · exact classifyOver_refines h id _ s.1 _

/-- A pass calls the uplink for each class at most once, so that one that answers by the class alone
gives the same answers. -/
theorem foldl_serviceClassOver_refines (h : Replies up) {ids : List FaultId} (hnodup : ids.Nodup)
    (s : τ × Svc) : ∃ (u : Uplink) (time : Time),
      (ids.foldl (serviceClassOver up) s).2 = (ids.foldl (serviceClass (some u)) s.2).atTime time := by
  induction ids generalizing s with
  | nil => exact ⟨fun _ => (.ok, []), s.2.time, rfl⟩
  | cons id ids ih =>
    obtain ⟨hid, hrest⟩ := List.nodup_cons.mp hnodup
    obtain ⟨r, time, hstep⟩ := serviceClassOver_refines h s id
    obtain ⟨u, time', hfold⟩ := ih hrest (serviceClassOver up s id)
    have hfirst : ∀ call : UplinkCall, call.fault = id →
        (if call.fault = id then r else u call) = r := fun _ hcall => if_pos hcall
    have hothers : ∀ call : UplinkCall, call.fault ∈ ids →
        (if call.fault = id then r else u call) = u call :=
      fun call hcall => if_neg fun heq => hid (by rwa [heq] at hcall)
    refine ⟨fun call => if call.fault = id then r else u call, time', ?_⟩
    rw [List.foldl_cons, List.foldl_cons, hfold, hstep, foldl_serviceClass_atTime,
      @serviceClass_congr _ (fun _ => r) id hfirst, @foldl_serviceClass_congr _ u ids hothers]
    rfl

theorem nodup_serviced : FaultId.serviced.Nodup := by decide

theorem errorHandlingServiceOver_refines (h : Replies up) (c : PlatformCounters) (t : τ) (v : Svc) :
    ∃ (u : Uplink) (time : Time), (errorHandlingServiceOver up c t v).2 =
      (errorHandlingService (some u) c v).atTime time :=
  foldl_serviceClassOver_refines h nodup_serviced _

end Refines

structure Quiet (v w : Svc) : Prop where
  rawTick : w.rawTick = v.rawTick
  time : w.time = v.time
  undelivered : w.fdir.undelivered = v.fdir.undelivered
  trace : ∃ new, w.trace = v.trace ++ new ∧ ∀ x ∈ new, ∀ call, x ≠ .uplink call

namespace Quiet
variable {u v w : Svc}

theorem refl (v : Svc) : Quiet v v := ⟨rfl, rfl, rfl, [], (List.append_nil _).symm, by simp⟩

theorem trans (h : Quiet u v) (k : Quiet v w) : Quiet u w := by
  obtain ⟨a, ha, hall⟩ := h.trace
  obtain ⟨b, hb, hbll⟩ := k.trace
  refine ⟨k.rawTick.trans h.rawTick, k.time.trans h.time, k.undelivered.trans h.undelivered,
    a ++ b, ?_, ?_⟩
  · rw [hb, ha, List.append_assoc]
  · intro x hx
    exact (List.mem_append.mp hx).elim (hall x) (hbll x)

theorem report (id : FaultId) (detail : UInt32) (v : Svc) : Quiet v (v.report id detail) :=
  ⟨rfl, rfl, rfl, [.report id detail], rfl, by simp⟩

theorem reportAll (faults : List (FaultId × UInt32)) (v : Svc) : Quiet v (v.reportAll faults) := by
  induction faults generalizing v with
  | nil => exact refl v
  | cons f faults ih => exact (report f.1 f.2 v).trans (ih _)

theorem iterate {f : Svc → Svc} (hf : ∀ v, Quiet v (f v)) (n : ℕ) (v : Svc) : Quiet v (f^[n] v) := by
  induction n generalizing v with
  | zero => exact refl v
  | succ n ih => exact (hf v).trans (ih (f v))

theorem foldl {ι : Type} {f : Svc → ι → Svc} (hf : ∀ v i, Quiet v (f v i)) (is : List ι) (v : Svc) :
    Quiet v (is.foldl f v) := by
  induction is generalizing v with
  | nil => exact refl v
  | cons i is ih => exact (hf v i).trans (ih (f v i))

theorem collect (c : PlatformCounters) (v : Svc) : Quiet v (collectPlatformCounters c v) := by
  have hseen (v : Svc) (fdir : Fdir) (h : fdir.undelivered = v.fdir.undelivered) :
      Quiet v { v with fdir } := ⟨rfl, rfl, h, [], (List.append_nil _).symm, by simp⟩
  have hover (v : Svc) : Quiet v (collectOverruns c v) := by
    unfold collectOverruns
    split
    · refine trans ?_ (iterate (report _ _) _ _)
      exact hseen v _ rfl
    · exact refl v
  have huart (v : Svc) : Quiet v (collectUartOverflow c v) := by
    unfold collectUartOverflow
    split
    · refine trans ?_ (report _ _ _)
      exact hseen v _ rfl
    · exact refl v
  have hirq (v : Svc) (i : IrqId) : Quiet v (collectIrqDropped c v i) := by
    unfold collectIrqDropped
    split
    · refine trans ?_ (report _ _ _)
      exact hseen v _ rfl
    · exact refl v
  exact ((hover v).trans (huart _)).trans (foldl hirq _ _)

end Quiet

section Keeps
variable {τ : Type} {up : UplinkOver τ} {P : τ → Svc → Prop}

structure KeptOver (up : UplinkOver τ) (P : τ → Svc → Prop) : Prop where
  quiet : ∀ t v w, Quiet v w → P t v → P t w
  deliver : ∀ call t v, call.fault ≠ .none → P t v →
    P (deliverOver up call t v).1 (deliverOver up call t v).2

namespace KeptOver

theorem escalate (h : KeptOver up P) (id : FaultId) (detail : UInt32) {t : τ} {v : Svc} (hP : P t v) :
    P (escalateOver up id detail t v).1 (escalateOver up id detail t v).2 := by
  have hcall : P t (escalating id detail v) :=
    h.quiet t v _ ⟨rfl, rfl, rfl, [.escalate id detail], rfl, by simp⟩ hP
  unfold escalateOver
  cases hpolicy : (policy id).escalation with
  | report =>
    refine h.deliver _ t _ ?_ hcall
    rintro rfl
    cases hpolicy
  | powerReset =>
    refine h.deliver _ t _ ?_ hcall
    rintro rfl
    cases hpolicy
  | logOnly => exact hcall

theorem classify (h : KeptOver up P) (id : FaultId) (n : UInt32) {t : τ} {v : Svc} (hP : P t v) :
    P (classifyOver up id n t v).1 (classifyOver up id n t v).2 := by
  have hnote : P t (note id n v) :=
    h.quiet t v _ ⟨rfl, rfl, rfl, [.logFault id _ _], rfl, by simp⟩ hP
  unfold classifyOver
  cases (policy id).severity with
  | severe => exact h.escalate id _ hnote
  | critical =>
    dsimp only
    split
    · refine h.escalate id _ (h.quiet t (note id n v) _ ?_ hnote)
      exact ⟨rfl, rfl, rfl, [], (List.append_nil _).symm, by simp⟩
    · exact hnote
  | medium => exact hnote
  | minor => exact hnote

theorem serviceClass (h : KeptOver up P) (id : FaultId) {s : τ × Svc} (hP : P s.1 s.2) :
    P (serviceClassOver up s id).1 (serviceClassOver up s id).2 := by
  unfold serviceClassOver
  dsimp only
  split
  · exact hP
  · refine h.classify id _ (h.quiet s.1 s.2 _ ?_ hP)
    exact ⟨rfl, rfl, rfl, [], (List.append_nil _).symm, by simp⟩

theorem foldl (h : KeptOver up P) (ids : List FaultId) {s : τ × Svc} (hP : P s.1 s.2) :
    P (ids.foldl (serviceClassOver up) s).1 (ids.foldl (serviceClassOver up) s).2 := by
  induction ids generalizing s with
  | nil => exact hP
  | cons id ids ih => exact ih (h.serviceClass id hP)

theorem errorHandlingService (h : KeptOver up P) (c : PlatformCounters) {t : τ} {v : Svc}
    (hP : P t v) : P (errorHandlingServiceOver up c t v).1 (errorHandlingServiceOver up c t v).2 :=
  h.foldl FaultId.serviced (h.quiet t v _ (Quiet.collect c v) hP)

theorem reentryNote (h : KeptOver up P) (cause : FaultId) {t : τ} {v : Svc} (hP : P t v) :
    P (reentryNoteOver up cause t v).1 (reentryNoteOver up cause t v).2 := by
  have hlog : P t (logEvent cause.code (v.fdir.reentries + 1)
      { v with fdir := { v.fdir with reentries := v.fdir.reentries + 1 } }) :=
    h.quiet t v _ ⟨rfl, rfl, rfl, [.logEvent _ _], rfl, by simp⟩ hP
  unfold reentryNoteOver
  dsimp only
  split
  · exact h.escalate cause _ hlog
  · exact hlog

end KeptOver

end Keeps

end Svc

end QiranFirmware
