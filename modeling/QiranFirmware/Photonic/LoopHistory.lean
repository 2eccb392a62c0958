import QiranFirmware.Photonic.Loops

/-! # The control loops by their history

What the scheduler holds of a loop is told from what has happened to it. A service is called only while
its loop is enabled, and it is the one that the loop was registered with.
-/
namespace QiranFirmware

open Machine

variable {ι : Type}

namespace LoopEvent

def about : LoopEvent ι → LoopId
  | registered id _ _ | enabled id | disabled id | calling id _ | returned id _ _ | reported id _ _ => id

@[simp] theorem active_concat (id : LoopId) (t : List (LoopEvent ι)) (e : LoopEvent ι) :
    active id (t ++ [e]) = match e with
      | enabled i => if i = id then true else active id t
      | disabled i => if i = id then false else active id t
      | _ => active id t := by
  rw [active, List.foldl_append]
  rfl

/-- The failures of the loop since it last succeeded or was enabled. -/
def failing (id : LoopId) (t : List (LoopEvent ι)) : ℕ := pending (isFailure id) (isReset id) t

def IsRegistered (t : List (LoopEvent ι)) (id : LoopId) : Prop := ∃ f fault, .registered id f fault ∈ t

def Permitted (before : List (LoopEvent ι)) : LoopEvent ι → Prop
  | registered id _ _ => ¬ IsRegistered before id
  | enabled id => IsRegistered before id
  | disabled _ => True
  | calling id service => active id before = true ∧
      ∃ f fault, service = some f ∧ .registered id f fault ∈ before
  | returned .. => True
  | reported id fault detail => (∃ f, .registered id f fault ∈ before) ∧
      (∃ b status elapsed, before = b ++ [.returned id status elapsed] ∧ status ≠ .ok) ∧
      detail = UInt32.ofNat (failing id before)

end LoopEvent

open LoopEvent

structure Recorded (t : List (LoopEvent ι)) (id : LoopId) (l : ControlLoop ι) : Prop where
  registered : l.registered = true ↔ IsRegistered t id
  service : ∀ f fault, .registered id f fault ∈ t → l.service = some f ∧ l.fault = fault
  enabled : l.enabled = active id t
  permitted : l.enabled = true → l.registered = true
  runs : l.runs = UInt32.ofNat (t.countP (isReturn id))
  failures : l.failures = UInt32.ofNat (t.countP (isFailure id))
  consecutive : l.consecutive = UInt32.ofNat (failing id t)
  reported : t.countP (isReported id) = t.countP (isFailure id)
  worst : ∀ status e, .returned id status e ∈ t → e ≤ l.cyclesWorst

namespace Recorded
variable {t : List (LoopEvent ι)} {id : LoopId} {l : ControlLoop ι}

theorem init (id : LoopId) : Recorded ([] : List (LoopEvent ι)) id { name := id.defaultName } where
  registered := by simp [IsRegistered]
  service := by simp
  enabled := rfl
  permitted h := h
  runs := rfl
  failures := rfl
  consecutive := rfl
  reported := rfl
  worst := by simp

structure Alike (id : LoopId) (t t' : List (LoopEvent ι)) : Prop where
  registered : ∀ f fault, .registered id f fault ∈ t' ↔ .registered id f fault ∈ t
  active : active id t' = active id t
  returns : t'.countP (isReturn id) = t.countP (isReturn id)
  failures : t'.countP (isFailure id) = t.countP (isFailure id)
  failing : failing id t' = failing id t
  reported : t'.countP (isReported id) = t.countP (isReported id)
  returned : ∀ status e, .returned id status e ∈ t' ↔ .returned id status e ∈ t

theorem alike (h : Recorded t id l) {t' : List (LoopEvent ι)} (ht : Alike id t t') :
    Recorded t' id l := by
  have hregistered : IsRegistered t' id ↔ IsRegistered t id := by
    simp only [IsRegistered, ht.registered]
  refine ⟨h.registered.trans hregistered.symm, ?_, h.enabled.trans ht.active.symm, h.permitted, ?_, ?_, ?_, ?_, ?_⟩
  · intro f fault hmem
    exact h.service f fault ((ht.registered f fault).mp hmem)
  · rw [ht.returns]
    exact h.runs
  · rw [ht.failures]
    exact h.failures
  · rw [ht.failing]
    exact h.consecutive
  · rw [ht.reported, ht.failures]
    exact h.reported
  · intro status e hmem
    exact h.worst status e ((ht.returned status e).mp hmem)

/-- An event that no view of the loop sees. -/
theorem alike_concat {e : LoopEvent ι} (hregistered : ∀ f fault, e ≠ .registered id f fault)
    (hactive : LoopEvent.active id (t ++ [e]) = LoopEvent.active id t)
    (hreturned : ∀ status n, e ≠ .returned id status n) (hreset : isReset id e = false)
    (hreported : isReported id e = false) : Alike id t (t ++ [e]) := by
  have hreturn : isReturn id e = false := by
    cases e with
    | returned i status n =>
      have hne : i ≠ id := by
        rintro rfl
        exact hreturned status n rfl
      simp [isReturn, hne]
    | registered | enabled | disabled | calling | reported => rfl
  have hfailure : isFailure id e = false := by
    cases e with
    | returned i status n =>
      rw [isFailure, show (i == id) = false from hreturn, Bool.false_and]
    | registered | enabled | disabled | calling | reported => rfl
  refine ⟨?_, hactive, ?_, ?_, ?_, ?_, ?_⟩
  · intro f fault
    rw [List.mem_append, List.mem_singleton, or_iff_left (Ne.symm (hregistered f fault))]
  · rw [List.countP_append, List.countP_singleton, hreturn]
    rfl
  · rw [List.countP_append, List.countP_singleton, hfailure]
    rfl
  · rw [LoopEvent.failing, pending_concat, hreset, hfailure]
    rfl
  · rw [List.countP_append, List.countP_singleton, hreported]
    rfl
  · intro status n
    rw [List.mem_append, List.mem_singleton, or_iff_left (Ne.symm (hreturned status n))]

theorem of_other (h : Recorded t id l) {e : LoopEvent ι} (he : e.about ≠ id) :
    Recorded (t ++ [e]) id l := by
  refine h.alike (alike_concat ?_ ?_ ?_ ?_ ?_)
  · rintro f fault rfl
    exact he rfl
  · rw [active_concat]
    cases e with
    | enabled i => exact if_neg he
    | disabled i => exact if_neg he
    | registered | calling | returned | reported => rfl
  · rintro status n rfl
    exact he rfl
  · cases e with
    | enabled i => exact beq_false_of_ne he
    | returned i status n =>
      have hne : (i == id) = false := beq_false_of_ne he
      rw [isReset, hne, Bool.false_and]
    | registered | disabled | calling | reported => rfl
  · cases e with
    | reported i fault detail => exact beq_false_of_ne he
    | registered | enabled | disabled | calling | returned => rfl

theorem of_others (h : Recorded t id l) {es : List (LoopEvent ι)} (hes : ∀ e ∈ es, e.about ≠ id) :
    Recorded (t ++ es) id l := by
  induction es generalizing t with
  | nil => rwa [List.append_nil]
  | cons e es ih =>
    obtain ⟨he, hrest⟩ := List.forall_mem_cons.mp hes
    rw [List.append_cons]
    exact ih (h.of_other he) hrest

theorem calling (h : Recorded t id l) (service : Option ι) : Recorded (t ++ [.calling id service]) id l := by
  refine h.alike (alike_concat ?_ ?_ ?_ rfl rfl)
  · simp
  · rw [active_concat]
  · simp

theorem register (h : Recorded t id l) (hnew : l.registered = false) (name : String) (f : ι)
    (fault : FaultId) : Recorded (t ++ [.registered id f fault]) id
      { l with name, service := some f, fault, registered := true } := by
  have hnone : ¬ IsRegistered t id := by
    rw [← h.registered, hnew]
    exact Bool.false_ne_true
  refine ⟨?_, ?_, ?_, fun _ => rfl, ?_, ?_, ?_, ?_, ?_⟩
  · exact ⟨fun _ => ⟨f, fault, by simp⟩, fun _ => rfl⟩
  · intro f' fault' hmem
    rcases List.mem_append.mp hmem with hmem | hmem
    · exact absurd ⟨f', fault', hmem⟩ hnone
    · cases List.mem_singleton.mp hmem
      exact ⟨rfl, rfl⟩
  · rw [active_concat]
    exact h.enabled
  · simp [isReturn, h.runs]
  · simp [isFailure, h.failures]
  · simp [LoopEvent.failing, isFailure, isReset, h.consecutive]
  · simp [isReported, isFailure, h.reported]
  · simpa using h.worst

theorem enable (h : Recorded t id l) (hregistered : l.registered = true) :
    Recorded (t ++ [.enabled id]) id { l with enabled := true, consecutive := 0 } := by
  refine ⟨?_, ?_, ?_, fun _ => hregistered, ?_, ?_, ?_, ?_, ?_⟩
  · simpa [IsRegistered] using h.registered
  · simpa using h.service
  · rw [active_concat]
    exact (if_pos rfl).symm
  · simp [isReturn, h.runs]
  · simp [isFailure, h.failures]
  · simp [LoopEvent.failing, isReset]
  · simp [isReported, isFailure, h.reported]
  · simpa using h.worst

theorem disable (h : Recorded t id l) :
    Recorded (t ++ [.disabled id]) id { l with enabled := false } := by
  refine ⟨?_, ?_, ?_, fun hon => Bool.noConfusion hon, ?_, ?_, ?_, ?_, ?_⟩
  · simpa [IsRegistered] using h.registered
  · simpa using h.service
  · rw [active_concat]
    exact (if_pos rfl).symm
  · simp [isReturn, h.runs]
  · simp [isFailure, h.failures]
  · simp [LoopEvent.failing, isFailure, isReset, h.consecutive]
  · simp [isReported, isFailure, h.reported]
  · simpa using h.worst

def counted (elapsed : UInt32) (l : ControlLoop ι) : ControlLoop ι :=
  { l with
    runs := l.runs + 1
    cyclesLast := elapsed
    cyclesWorst := if l.cyclesWorst < elapsed then elapsed else l.cyclesWorst }

theorem worst_counted (h : Recorded t id l) (elapsed : UInt32) {status : Status} {e : UInt32}
    (hmem : .returned id status e ∈ t ∨ e = elapsed) : e ≤ (counted elapsed l).cyclesWorst := by
  rw [counted]
  dsimp only
  rcases hmem with hmem | rfl
  · have hworst := h.worst status e hmem
    split
    · rename_i hlt
      exact UInt32.le_trans hworst (UInt32.le_of_lt hlt)
    · exact hworst
  · split
    · exact UInt32.le_refl e
    · rename_i hnot
      exact UInt32.not_lt.mp hnot

theorem succeed (h : Recorded t id l) (elapsed : UInt32) :
    Recorded (t ++ [.returned id .ok elapsed]) id { counted elapsed l with consecutive := 0 } := by
  refine ⟨?_, ?_, ?_, h.permitted, ?_, ?_, ?_, ?_, ?_⟩
  · simpa [IsRegistered, counted] using h.registered
  · simpa [counted] using h.service
  · rw [active_concat]
    exact h.enabled
  · rw [List.countP_append, UInt32.ofNat_add, ← h.runs]
    simp [isReturn, counted]
  · simp [isFailure, counted, h.failures]
  · simp [LoopEvent.failing, isReset]
  · simp [isReported, isFailure, h.reported]
  · intro status e hmem
    simp only [List.mem_append, List.mem_singleton, LoopEvent.returned.injEq] at hmem
    apply h.worst_counted elapsed
    exact hmem.imp_right fun heq => heq.2.2

theorem fail (h : Recorded t id l) (elapsed : UInt32) {status : Status} (hstatus : status ≠ .ok) :
    Recorded (t ++ [.returned id status elapsed] ++ [.reported id l.fault (l.consecutive + 1)]) id
      { counted elapsed l with failures := l.failures + 1, consecutive := l.consecutive + 1 } := by
  have hfailing : LoopEvent.failing id (t ++ [.returned id status elapsed] ++
      [.reported id l.fault (l.consecutive + 1)]) = LoopEvent.failing id t + 1 := by
    simp [LoopEvent.failing, isFailure, isReset, hstatus, -List.append_assoc]
  refine ⟨?_, ?_, ?_, h.permitted, ?_, ?_, ?_, ?_, ?_⟩
  · simpa [IsRegistered, counted] using h.registered
  · simpa [counted] using h.service
  · rw [active_concat, active_concat]
    exact h.enabled
  · rw [List.countP_append, List.countP_append, UInt32.ofNat_add, UInt32.ofNat_add, ← h.runs]
    simp [isReturn, counted]
  · rw [List.countP_append, List.countP_append, UInt32.ofNat_add, UInt32.ofNat_add, ← h.failures]
    simp [isFailure, hstatus]
  · rw [hfailing, UInt32.ofNat_add, ← h.consecutive]
    rfl
  · simp [isReported, isFailure, hstatus, h.reported]
  · intro status' e hmem
    simp only [List.append_assoc, List.mem_append, List.mem_singleton, LoopEvent.returned.injEq,
      reduceCtorEq, or_false] at hmem
    apply h.worst_counted elapsed
    exact hmem.imp_right fun heq => heq.2.2

end Recorded

namespace LoopSched

theorem trace_apply (s : LoopSched ι) (c : LoopCall ι) : s.trace <+: (s.apply c).trace := by
  have hdisable (ids : List LoopId) (s : LoopSched ι) :
      s.trace <+: (ids.foldl (fun s id => s.disable id) s).trace := by
    induction ids generalizing s with
    | nil => exact List.prefix_rfl
    | cons id ids ih => exact (List.prefix_append _ _).trans (ih (s.disable id))
  cases c with
  | register id name service fault =>
    unfold apply register
    cases service with
    | none => exact List.prefix_rfl
    | some f =>
      dsimp only
      split
      · exact List.prefix_rfl
      · exact List.prefix_append _ _
  | enable id =>
    unfold apply enable
    dsimp only
    split
    · exact List.prefix_rfl
    · exact List.prefix_append _ _
  | disable id => exact List.prefix_append _ _
  | disableAll => exact hdisable LoopId.all s

theorem trace_foldl_apply (calls : List (LoopCall ι)) (s : LoopSched ι) :
    s.trace <+: (calls.foldl apply s).trace := by
  induction calls generalizing s with
  | nil => exact List.prefix_rfl
  | cons c calls ih => exact (trace_apply s c).trans (ih _)

structure History (s : LoopSched ι) : Prop where
  loops : ∀ id, Recorded s.trace id (s.loop id)
  permitted : EachAfter Permitted s.trace

namespace History
variable {s : LoopSched ι} {id : LoopId}

theorem init : History ({} : LoopSched ι) := ⟨Recorded.init, eachAfter_nil _⟩

/-- What happens to one loop leaves the others as they are. -/
theorem put (h : History s) {l : ControlLoop ι} {es : List (LoopEvent ι)}
    (habout : ∀ e ∈ es, e.about = id) (hl : Recorded (s.trace ++ es) id l)
    (hes : EachAfter Permitted (s.trace ++ es)) :
    History ⟨Function.update s.loop id l, s.trace ++ es⟩ where
  loops i := by
    dsimp only
    by_cases hi : i = id
    · subst hi
      rw [Function.update_self]
      exact hl
    · rw [Function.update_of_ne hi]
      refine (h.loops i).of_others ?_
      intro e he
      rw [habout e he]
      exact Ne.symm hi
  permitted := hes

theorem put_one (h : History s) {l : ControlLoop ι} {e : LoopEvent ι} (habout : e.about = id)
    (hl : Recorded (s.trace ++ [e]) id l) (he : Permitted s.trace e) :
    History ((s.set id l).note e) :=
  h.put (by simp [habout]) hl (eachAfter_concat.mpr ⟨h.permitted, he⟩)

theorem register (h : History s) (id : LoopId) (name : Option String) (service : Option ι)
    (fault : FaultId) : History (s.register id name service fault).2 := by
  unfold LoopSched.register
  cases service with
  | none => exact h
  | some f =>
    dsimp only
    split
    · exact h
    · rename_i hnew
      rw [Bool.not_eq_true] at hnew
      refine h.put_one rfl ((h.loops id).register hnew _ f fault) ?_
      rw [Permitted, ← (h.loops id).registered, hnew]
      exact Bool.false_ne_true

theorem enable (h : History s) (id : LoopId) : History (s.enable id).2 := by
  unfold LoopSched.enable
  cases hregistered : (s.loop id).registered with
  | false => exact h
  | true => exact h.put_one rfl ((h.loops id).enable hregistered) ((h.loops id).registered.mp hregistered)

theorem disable (h : History s) (id : LoopId) : History (s.disable id) :=
  h.put_one rfl (h.loops id).disable trivial

theorem disableAll (h : History s) : History s.disableAll := by
  unfold LoopSched.disableAll
  generalize LoopId.all = ids
  induction ids generalizing s with
  | nil => exact h
  | cons id ids ih => exact ih (h.disable id)

theorem apply (h : History s) (c : LoopCall ι) : History (s.apply c) := by
  cases c with
  | register id name service fault => exact h.register id name service fault
  | enable id => exact h.enable id
  | disable id => exact h.disable id
  | disableAll => exact h.disableAll

theorem foldl_apply (h : History s) (calls : List (LoopCall ι)) : History (calls.foldl LoopSched.apply s) := by
  induction calls generalizing s with
  | nil => exact h
  | cons c calls ih => exact ih (h.apply c)

theorem calling (h : History s) (henabled : (s.loop id).enabled = true) :
    History (s.note (.calling id (s.loop id).service)) := by
  have hrecorded := h.loops id
  obtain ⟨f, fault, hmem⟩ := hrecorded.registered.mp (hrecorded.permitted henabled)
  have hput : History ((s.set id (s.loop id)).note (.calling id (s.loop id).service)) :=
    h.put_one rfl (hrecorded.calling (s.loop id).service)
      ⟨hrecorded.enabled.symm.trans henabled, f, fault, (hrecorded.service f fault hmem).1, hmem⟩
  rwa [LoopSched.set, Function.update_eq_self] at hput

/-- A return, and the report of a failure, of a loop that has been registered. -/
theorem settle (h : History s) (hregistered : (s.loop id).registered = true) (run : LoopRun ι) :
    History (s.settle id run) := by
  obtain ⟨f, fault, hmem⟩ := (h.loops id).registered.mp hregistered
  have hreturned : EachAfter Permitted (s.trace ++ [.returned id run.status run.elapsed]) :=
    eachAfter_concat.mpr ⟨h.permitted, trivial⟩
  unfold LoopSched.settle
  dsimp only
  split
  · rename_i hok
    rw [hok] at hreturned ⊢
    exact h.put (by simp [about]) ((h.loops id).succeed run.elapsed) hreturned
  · rename_i hbad
    have hfault : (s.loop id).fault = fault := ((h.loops id).service f fault hmem).2
    have hreported : Permitted (s.trace ++ [.returned id run.status run.elapsed])
        (.reported id (s.loop id).fault ((s.loop id).consecutive + 1)) := by
      refine ⟨⟨f, ?_⟩, ⟨s.trace, run.status, run.elapsed, rfl, hbad⟩, ?_⟩
      · rw [hfault]
        exact List.mem_append_left _ hmem
      · rw [(h.loops id).consecutive]
        simp [failing, isFailure, isReset, hbad]
    have hall := eachAfter_concat.mpr ⟨hreturned, hreported⟩
    have hloop := (h.loops id).fail run.elapsed hbad
    rw [List.append_assoc] at hall hloop
    have hput := h.put (by simp [about]) hloop hall
    rwa [← List.append_assoc] at hput

theorem registered_of_prefix (h : History s) {s' : LoopSched ι} (h' : History s')
    (hpre : s.trace <+: s'.trace) (hregistered : (s.loop id).registered = true) :
    (s'.loop id).registered = true := by
  obtain ⟨f, fault, hmem⟩ := (h.loops id).registered.mp hregistered
  exact (h'.loops id).registered.mpr ⟨f, fault, hpre.subset hmem⟩

theorem serviceLoop (h : History s) (answers : ℕ → LoopRun ι) (id : LoopId) :
    History (LoopSched.serviceLoop answers s id) := by
  unfold LoopSched.serviceLoop
  cases henabled : (s.loop id).enabled with
  | false => exact h
  | true =>
    have hcalling := h.calling henabled
    have hasked := hcalling.foldl_apply (answers (s.trace.countP isCalling)).calls
    have hregistered := hcalling.registered_of_prefix hasked (trace_foldl_apply ..)
      ((h.loops id).permitted henabled)
    exact hasked.settle hregistered _

theorem step (h : History s) (answers : ℕ → LoopRun ι) (op : ControlOp ι) : History (s.step answers op) := by
  cases op with
  | call c => exact h.apply c
  | service =>
    rw [LoopSched.step, controlLoopServiceCalls]
    generalize LoopId.all = ids
    induction ids generalizing s with
    | nil => exact h
    | cons id ids ih => exact ih (h.serviceLoop answers id)

end History

/-- Whatever is asked of the scheduler, by whomever and whatever the services answer, its loops are as
their history says: a service is called only while its loop is enabled, it is the one the loop has been
registered with, and every failure is reported once with the number of failures in a row. -/
theorem history_run (answers : ℕ → LoopRun ι) (ops : List (ControlOp ι)) :
    History (run (step answers) ({} : LoopSched ι) ops) :=
  run_keeps (fun _ op h => h.step answers op) .init ops

/-- Between two states no service has been called but of these loops, in this order. -/
def Calls (ids : List LoopId) (s s' : LoopSched ι) : Prop :=
  ∃ new, s'.trace = s.trace ++ new ∧ new.filterMap called = ids

namespace Calls
variable {s s' s'' : LoopSched ι} {xs ys : List LoopId}

theorem refl (s : LoopSched ι) : Calls [] s s := ⟨[], (List.append_nil _).symm, rfl⟩

theorem trans (h : Calls xs s s') (k : Calls ys s' s'') : Calls (xs ++ ys) s s'' := by
  obtain ⟨a, ha, rfl⟩ := h
  obtain ⟨b, hb, rfl⟩ := k
  exact ⟨a ++ b, by rw [hb, ha, List.append_assoc], List.filterMap_append⟩

theorem note (s : LoopSched ι) (e : LoopEvent ι) : Calls (called e).toList s (s.note e) := by
  refine ⟨[e], rfl, ?_⟩
  cases h : called e <;> simp [h]

theorem disableAll (s : LoopSched ι) : Calls [] s s.disableAll := by
  unfold LoopSched.disableAll
  generalize LoopId.all = ids
  induction ids generalizing s with
  | nil => exact refl s
  | cons id ids ih =>
    have hone : Calls [] s (s.disable id) := ⟨[.disabled id], rfl, rfl⟩
    exact hone.trans (ih _)

theorem apply (s : LoopSched ι) (c : LoopCall ι) : Calls [] s (s.apply c) := by
  cases c with
  | register id name service fault =>
    unfold LoopSched.apply register
    cases service with
    | none => exact refl s
    | some f =>
      dsimp only
      split
      · exact refl s
      · exact ⟨[.registered id f fault], rfl, rfl⟩
  | enable id =>
    unfold LoopSched.apply enable
    dsimp only
    split
    · exact refl s
    · exact ⟨[.enabled id], rfl, rfl⟩
  | disable id => exact ⟨[.disabled id], rfl, rfl⟩
  | disableAll => exact disableAll s

theorem foldl_apply (calls : List (LoopCall ι)) (s : LoopSched ι) :
    Calls [] s (calls.foldl LoopSched.apply s) := by
  induction calls generalizing s with
  | nil => exact refl s
  | cons c calls ih => exact (apply s c).trans (ih _)

theorem settle (id : LoopId) (run : LoopRun ι) (s : LoopSched ι) : Calls [] s (s.settle id run) := by
  unfold LoopSched.settle
  dsimp only
  split
  · exact ⟨[.returned id run.status run.elapsed], rfl, rfl⟩
  · refine ⟨[.returned id run.status run.elapsed,
      .reported id (s.loop id).fault ((s.loop id).consecutive + 1)], ?_, rfl⟩
    exact List.append_assoc ..

theorem serviceLoop (answers : ℕ → LoopRun ι) (s : LoopSched ι) (id : LoopId) :
    Calls (if (s.loop id).enabled then [id] else []) s (LoopSched.serviceLoop answers s id) := by
  unfold LoopSched.serviceLoop
  cases (s.loop id).enabled with
  | false => exact refl s
  | true => exact (note s _).trans ((foldl_apply _ _).trans (settle id _ _))

end Calls

section Pass
variable (answers : ℕ → LoopRun ι)

/-- The loops that are found enabled when their turns come. -/
def turns (s : LoopSched ι) : List LoopId → List LoopId
  | [] => []
  | id :: ids => (if (s.loop id).enabled then [id] else []) ++ turns (serviceLoop answers s id) ids

variable {answers}

theorem calls_foldl (ids : List LoopId) (s : LoopSched ι) :
    Calls (turns answers s ids) s (ids.foldl (serviceLoop answers) s) := by
  induction ids generalizing s with
  | nil => exact .refl s
  | cons id ids ih => exact (Calls.serviceLoop answers s id).trans (ih _)

theorem turns_sublist (ids : List LoopId) (s : LoopSched ι) : (turns answers s ids).Sublist ids := by
  induction ids generalizing s with
  | nil => exact .refl _
  | cons id ids ih =>
    rw [turns]
    cases (s.loop id).enabled with
    | false => exact (ih _).cons _
    | true => exact (ih _).cons_cons _

theorem mem_turns {xs ys : List LoopId} {id : LoopId} (hnodup : (xs ++ id :: ys).Nodup)
    (s : LoopSched ι) : id ∈ turns answers s (xs ++ id :: ys) ↔
      ((xs.foldl (serviceLoop answers) s).loop id).enabled = true := by
  induction xs generalizing s with
  | nil =>
    have hrest : id ∉ turns answers (serviceLoop answers s id) ys := fun hmem =>
      (List.nodup_cons.mp hnodup).1 ((turns_sublist ys _).subset hmem)
    rw [List.nil_append, turns, List.mem_append, or_iff_left hrest]
    cases h : (s.loop id).enabled <;> simp [h]
  | cons x xs ih =>
    obtain ⟨hx, hrest⟩ := List.nodup_cons.mp hnodup
    have hne : id ≠ x := by
      rintro rfl
      exact hx (by simp)
    have hfirst : id ∉ if (s.loop x).enabled then [x] else [] := by
      split <;> simp [hne]
    rw [List.cons_append, turns, List.mem_append, or_iff_right hfirst]
    exact ih hrest _

theorem enabled_serviceLoop (h : ∀ k, (answers k).calls = []) (s : LoopSched ι) (id i : LoopId) :
    ((serviceLoop answers s id).loop i).enabled = (s.loop i).enabled := by
  have hset (l : ControlLoop ι) (hl : l.enabled = (s.loop id).enabled) :
      (Function.update s.loop id l i).enabled = (s.loop i).enabled := by
    by_cases hi : i = id
    · subst hi
      rw [Function.update_self, hl]
    · rw [Function.update_of_ne hi]
  unfold serviceLoop
  split
  · rfl
  · dsimp only
    rw [h, List.foldl_nil, settle]
    dsimp only
    split <;> exact hset _ rfl

theorem turns_of_quiet (h : ∀ k, (answers k).calls = []) (ids : List LoopId) (s : LoopSched ι) :
    turns answers s ids = ids.filter fun id => (s.loop id).enabled := by
  induction ids generalizing s with
  | nil => rfl
  | cons id ids ih =>
    rw [turns, ih, List.filter_cons]
    simp only [enabled_serviceLoop h]
    split <;> rfl

/-- A pass calls the services in the order of the loops, none twice, and those whose loops are enabled
when their turns come; where no service asks anything of the scheduler these are the enabled ones. -/
theorem pass_calls (answers : ℕ → LoopRun ι) (s : LoopSched ι) :
    ∃ ids, Calls ids s (s.controlLoopServiceCalls answers) ∧ ids.Sublist LoopId.all ∧
      (∀ xs id ys, LoopId.all = xs ++ id :: ys →
        (id ∈ ids ↔ ((xs.foldl (serviceLoop answers) s).loop id).enabled = true)) ∧
      ((∀ k, (answers k).calls = []) → ids = LoopId.all.filter fun id => (s.loop id).enabled) := by
  refine ⟨turns answers s LoopId.all, calls_foldl LoopId.all s, turns_sublist LoopId.all s, ?_, ?_⟩
  · intro xs id ys hall
    have hnodup : LoopId.all.Nodup := by decide
    rw [hall] at hnodup ⊢
    exact mem_turns hnodup s
  · intro h
    exact turns_of_quiet h LoopId.all s

end Pass

end LoopSched

end QiranFirmware
