import QiranFirmware.Types

/-! # Device initialisation

`plat_devinit.c`: initialisers registered with a stage each, run stage by stage and within a stage in the
order of their registration. `Ran` says what calling some of the entries, in some order, leaves behind; a
stage is such a list of entries, and so is a whole run.
-/
namespace QiranFirmware

inductive DevinitStage
  | bus | device | board | link
  deriving DecidableEq, Repr

def DevinitStage.all : List DevinitStage := [bus, device, board, link]

/-- `devinit_entry_t`, with any type for the initialisers. -/
structure DevinitEntry (ι : Type) where
  name : String
  stage : DevinitStage
  fn : ι
  required : Bool
  deriving DecidableEq, Repr

structure DevinitResult where
  name : Option String := none
  stage : DevinitStage := .bus
  result : Status := .ok
  required : Bool := false
  ran : Bool := false
  deriving DecidableEq, Repr

/-- The statics of `plat_devinit.c`. `called` has no counterpart in the source: it lists the entries whose
initialisers have been called. -/
structure Devinit (ι : Type) where
  entries : List (DevinitEntry ι) := []
  result : ℕ → DevinitResult := fun _ => {}
  failures : UInt32 := 0
  firstFailure : Option String := none
  called : List ℕ := []

namespace Devinit

variable {ι : Type}

def maxEntries : ℕ := 32

def init (d : Devinit ι) : Devinit ι := { d with entries := [], failures := 0, firstFailure := none }

def register (name : Option String) (stage : DevinitStage) (fn : Option ι) (required : Bool)
    (d : Devinit ι) : Status × Devinit ι :=
  match name, fn with
  | some name, some fn =>
    if maxEntries ≤ d.entries.length then (.errRange, d)
    else (.ok, { d with entries := d.entries ++ [{ name, stage, fn, required }] })
  | _, _ => (.errParam, d)

section Run
variable (outcome : ℕ → ι → Status)

/-- The call of an entry's initialiser, which answers as `outcome` says, and what is kept of it. -/
def callEntry (i : ℕ) (e : DevinitEntry ι) (d : Devinit ι) : Devinit ι :=
  let st := outcome i e.fn
  let d := { d with
    called := d.called ++ [i]
    result := Function.update d.result i
      { name := some e.name, stage := e.stage, result := st, required := e.required, ran := true } }
  if st ≠ .ok then
    { d with
      failures := d.failures + 1
      firstFailure := match d.firstFailure with
        | none => some e.name
        | some name => some name }
  else d

def runEntry (stage : DevinitStage) (acc : Status × Devinit ι) (i : ℕ) : Status × Devinit ι :=
  match acc.2.entries[i]? with
  | none => acc
  | some e =>
    if e.stage ≠ stage then acc
    else (if outcome i e.fn ≠ .ok ∧ e.required = true then outcome i e.fn else acc.1,
      callEntry outcome i e acc.2)

def runStage (stage : DevinitStage) (d : Devinit ι) : Status × Devinit ι :=
  (List.range d.entries.length).foldl (runEntry outcome stage) (.ok, d)

def runStages : List DevinitStage → Devinit ι → Status × Devinit ι
  | [], d => (.ok, d)
  | stage :: stages, d =>
    let (st, d) := runStage outcome stage d
    if st ≠ .ok then (st, d) else runStages stages d

def run (d : Devinit ι) : Status × Devinit ι :=
  runStages outcome DevinitStage.all { d with failures := 0, firstFailure := none }

end Run

def resultGet (i : ℕ) (d : Devinit ι) : Option DevinitResult :=
  if d.entries.length ≤ i then none else some (d.result i)

section Ran
variable (outcome : ℕ → ι → Status) (entries : List (DevinitEntry ι))

def answer (i : ℕ) : DevinitResult :=
  match entries[i]? with
  | none => {}
  | some e =>
    { name := some e.name, stage := e.stage, result := outcome i e.fn, required := e.required, ran := true }

def Failed (i : ℕ) : Prop := ∃ e ∈ entries[i]?, outcome i e.fn ≠ .ok

def FailedRequired (i : ℕ) : Prop := ∃ e ∈ entries[i]?, outcome i e.fn ≠ .ok ∧ e.required = true

instance (i : ℕ) : Decidable (Failed outcome entries i) :=
  decidable_of_iff ((entries[i]?).any (fun e => outcome i e.fn != .ok) = true) <| by
    cases h : entries[i]? <;> simp [Failed, h]

instance (i : ℕ) : Decidable (FailedRequired outcome entries i) :=
  decidable_of_iff ((entries[i]?).any (fun e => outcome i e.fn != .ok && e.required) = true) <| by
    cases h : entries[i]? <;> simp [FailedRequired, h]

def ofStage (stage : DevinitStage) (i : ℕ) : Bool := entries[i]?.any (·.stage == stage)

def entriesOf (stage : DevinitStage) : List ℕ := (List.range entries.length).filter (ofStage entries stage)

variable {outcome entries}

theorem failed_iff {i : ℕ} {e : DevinitEntry ι} (he : entries[i]? = some e) :
    Failed outcome entries i ↔ outcome i e.fn ≠ .ok := by
  simp [Failed, he]

theorem failedRequired_iff {i : ℕ} {e : DevinitEntry ι} (he : entries[i]? = some e) :
    FailedRequired outcome entries i ↔ outcome i e.fn ≠ .ok ∧ e.required = true := by
  simp [FailedRequired, he]

theorem ofStage_iff {stage : DevinitStage} {i : ℕ} :
    ofStage entries stage i = true ↔ ∃ e, entries[i]? = some e ∧ e.stage = stage := by
  cases h : entries[i]? <;> simp [ofStage, h]

theorem mem_entriesOf {stage : DevinitStage} {i : ℕ} :
    i ∈ entriesOf entries stage ↔ ∃ e, entries[i]? = some e ∧ e.stage = stage := by
  rw [entriesOf, List.mem_filter, List.mem_range, ofStage_iff, and_iff_right_iff_imp]
  rintro ⟨e, he, -⟩
  exact (List.getElem?_eq_some_iff.mp he).1

variable (outcome) in
structure Ran (is : List ℕ) (d d' : Devinit ι) : Prop where
  entries : d'.entries = d.entries
  called : d'.called = d.called ++ is
  result : ∀ i, d'.result i = if i ∈ is then answer outcome d.entries i else d.result i
  failures : d'.failures = d.failures + UInt32.ofNat (is.countP fun i => Failed outcome d.entries i)

variable {d d' d'' : Devinit ι} {is js : List ℕ}

theorem Ran.refl (d : Devinit ι) : Ran outcome [] d d :=
  ⟨rfl, (List.append_nil _).symm, fun _ => rfl, (UInt32.add_zero _).symm⟩

theorem Ran.trans (h : Ran outcome is d d') (k : Ran outcome js d' d'') :
    Ran outcome (is ++ js) d d'' := by
  obtain ⟨kentries, kcalled, kresult, kfailures⟩ := k
  rw [h.entries] at kentries kresult kfailures
  refine ⟨kentries, ?_, fun i => ?_, ?_⟩
  · rw [kcalled, h.called, List.append_assoc]
  · rw [kresult, h.result]
    by_cases hjs : i ∈ js
    · simp [hjs]
    · simp [hjs]
  · rw [kfailures, h.failures, List.countP_append, UInt32.ofNat_add, UInt32.add_assoc]

theorem ran_callEntry {i : ℕ} {e : DevinitEntry ι} (he : d.entries[i]? = some e) :
    Ran outcome [i] d (callEntry outcome i e d) := by
  have hanswer : answer outcome d.entries i =
      { name := some e.name, stage := e.stage, result := outcome i e.fn, required := e.required, ran := true } := by
    rw [answer, he]
  have hresult (j : ℕ) : Function.update d.result i (answer outcome d.entries i) j =
      if j ∈ [i] then answer outcome d.entries j else d.result j := by
    by_cases hj : j = i
    · subst hj
      simp
    · simp [hj]
  rw [hanswer] at hresult
  unfold callEntry
  dsimp only
  by_cases hok : outcome i e.fn = .ok
  · rw [if_neg (not_not.mpr hok)]
    refine ⟨rfl, rfl, hresult, ?_⟩
    rw [List.countP_singleton, decide_eq_false fun h => (failed_iff he).mp h hok]
    exact (UInt32.add_zero _).symm
  · rw [if_pos hok]
    refine ⟨rfl, rfl, hresult, ?_⟩
    rw [List.countP_singleton, decide_eq_true ((failed_iff he).mpr hok)]
    rfl

/-- A turn of the loop calls the entry if it is of the stage. -/
theorem runEntry_spec {stage : DevinitStage} (st : Status) {i : ℕ} {e : DevinitEntry ι}
    (he : d.entries[i]? = some e) (hstage : e.stage = stage) :
    Ran outcome [i] d (runEntry outcome stage (st, d) i).2 ∧
      ((runEntry outcome stage (st, d) i).1 = .ok ↔
        st = .ok ∧ ¬ FailedRequired outcome d.entries i) := by
  rw [failedRequired_iff he, runEntry]
  simp only [he, hstage, ne_eq, not_true_eq_false, ↓reduceIte]
  refine ⟨ran_callEntry he, ?_⟩
  split
  · rename_i hfailed
    exact iff_of_false hfailed.1 fun h => h.2 hfailed
  · rename_i hpassed
    exact (and_iff_left hpassed).symm

theorem runEntries_spec {stage : DevinitStage} (is : List ℕ) (st : Status) (d : Devinit ι) :
    Ran outcome (is.filter (ofStage d.entries stage)) d (is.foldl (runEntry outcome stage) (st, d)).2 ∧
      ((is.foldl (runEntry outcome stage) (st, d)).1 = .ok ↔
        st = .ok ∧ ∀ i ∈ is.filter (ofStage d.entries stage), ¬ FailedRequired outcome d.entries i) := by
  induction is generalizing st d with
  | nil => exact ⟨Ran.refl d, by simp⟩
  | cons i is ih =>
    rw [List.foldl_cons]
    by_cases hstage : ofStage d.entries stage i = true
    · obtain ⟨e, he, hof⟩ := ofStage_iff.mp hstage
      obtain ⟨hran, hst⟩ := @runEntry_spec _ outcome d stage st i e he hof
      obtain ⟨hrest, hst'⟩ := ih (runEntry outcome stage (st, d) i).1 (runEntry outcome stage (st, d) i).2
      rw [hran.entries] at hrest hst'
      rw [List.filter_cons_of_pos hstage]
      refine ⟨hran.trans hrest, hst'.trans ?_⟩
      rw [hst, List.forall_mem_cons, and_assoc]
    · have hsame : runEntry outcome stage (st, d) i = (st, d) := by
        rw [runEntry]
        split
        · rfl
        · rename_i e he
          exact if_pos fun hof => hstage (ofStage_iff.mpr ⟨e, he, hof⟩)
      rw [hsame, List.filter_cons_of_neg hstage]
      exact ih st d

/-- A stage calls its entries, and succeeds if no required one of them fails. -/
theorem runStage_spec (stage : DevinitStage) (d : Devinit ι) :
    Ran outcome (entriesOf d.entries stage) d (runStage outcome stage d).2 ∧
      ((runStage outcome stage d).1 = .ok ↔
        ∀ i ∈ entriesOf d.entries stage, ¬ FailedRequired outcome d.entries i) := by
  obtain ⟨hran, hst⟩ := @runEntries_spec _ outcome stage (List.range d.entries.length) .ok d
  exact ⟨hran, hst.trans (and_iff_right rfl)⟩

variable (outcome entries)

def StageFails (stage : DevinitStage) : Prop :=
  ∃ i ∈ entriesOf entries stage, FailedRequired outcome entries i

def Reached (stage : DevinitStage) : Prop :=
  ∀ t ∈ DevinitStage.all, t.ctorIdx < stage.ctorIdx → ¬ StageFails outcome entries t

instance (stage : DevinitStage) : Decidable (StageFails outcome entries stage) :=
  inferInstanceAs (Decidable (∃ i ∈ entriesOf entries stage, FailedRequired outcome entries i))

instance (stage : DevinitStage) : Decidable (Reached outcome entries stage) :=
  inferInstanceAs (Decidable (∀ t ∈ DevinitStage.all, t.ctorIdx < stage.ctorIdx → _))

/-- The entries of the stages up to the first that fails, in the order of their stages and, within a
stage, of their registration. -/
def executed : List ℕ :=
  (DevinitStage.all.filter fun stage => Reached outcome entries stage).flatMap (entriesOf entries)

variable {outcome entries}

theorem mem_executed {i : ℕ} : i ∈ executed outcome entries ↔
    ∃ e, entries[i]? = some e ∧ Reached outcome entries e.stage := by
  rw [executed, List.mem_flatMap]
  constructor
  · rintro ⟨stage, hstage, hi⟩
    obtain ⟨e, he, rfl⟩ := mem_entriesOf.mp hi
    exact ⟨e, he, decide_eq_true_eq.mp (List.mem_filter.mp hstage).2⟩
  · rintro ⟨e, he, hreached⟩
    refine ⟨e.stage, List.mem_filter.mpr ⟨?_, decide_eq_true hreached⟩, mem_entriesOf.mpr ⟨e, he, rfl⟩⟩
    cases e.stage <;> decide

theorem runStages_spec {stages : List DevinitStage}
    (horder : stages.Pairwise fun s t => s.ctorIdx < t.ctorIdx) (d : Devinit ι)
    (hreached : ∀ s ∈ stages, Reached outcome d.entries s ↔
      ∀ t ∈ stages, t.ctorIdx < s.ctorIdx → ¬ StageFails outcome d.entries t) :
    Ran outcome ((stages.filter fun s => Reached outcome d.entries s).flatMap (entriesOf d.entries)) d
        (runStages outcome stages d).2 ∧
      ((runStages outcome stages d).1 = .ok ↔
        ∀ i ∈ (stages.filter fun s => Reached outcome d.entries s).flatMap (entriesOf d.entries),
          ¬ FailedRequired outcome d.entries i) := by
  induction stages generalizing d with
  | nil => exact ⟨Ran.refl d, by simp [runStages]⟩
  | cons stage stages ih =>
    obtain ⟨hfirst, horder⟩ := List.pairwise_cons.mp horder
    obtain ⟨hran, hst⟩ := @runStage_spec _ outcome stage d
    have hhere : Reached outcome d.entries stage := by
      rw [hreached stage List.mem_cons_self]
      intro t ht hlt
      rcases List.mem_cons.mp ht with rfl | ht
      · exact absurd hlt (lt_irrefl _)
      · exact absurd hlt (hfirst t ht).le.not_gt
    have hcons : (stage :: stages).filter (fun s => Reached outcome d.entries s) =
        stage :: stages.filter fun s => Reached outcome d.entries s :=
      List.filter_cons_of_pos (decide_eq_true hhere)
    rw [hcons, List.flatMap_cons, runStages]
    dsimp only
    split
    · rename_i hfailed
      -- no later stage is reached
      rw [ne_eq, hst] at hfailed
      have hfails : StageFails outcome d.entries stage := by simpa [StageFails] using hfailed
      have hnone : stages.filter (fun s => Reached outcome d.entries s) = [] := by
        rw [List.filter_eq_nil_iff]
        intro s hs
        rw [decide_eq_true_eq, hreached s (List.mem_cons_of_mem _ hs)]
        exact fun h => h stage List.mem_cons_self (hfirst s hs) hfails
      rw [hnone, List.flatMap_nil, List.append_nil]
      exact ⟨hran, hst⟩
    · rename_i hpassed
      have hpassed := hst.mp (not_not.mp hpassed)
      have hnot : ¬ StageFails outcome d.entries stage := by simpa [StageFails] using hpassed
      have hrest : ∀ s ∈ stages, Reached outcome d.entries s ↔
          ∀ t ∈ stages, t.ctorIdx < s.ctorIdx → ¬ StageFails outcome d.entries t := by
        intro s hs
        rw [hreached s (List.mem_cons_of_mem _ hs), List.forall_mem_cons]
        exact and_iff_right fun _ => hnot
      rw [← hran.entries] at hrest
      obtain ⟨hran', hst'⟩ := ih horder (runStage outcome stage d).2 hrest
      rw [hran.entries] at hran' hst'
      refine ⟨hran.trans hran', hst'.trans ?_⟩
      simp only [List.mem_append]
      exact ⟨fun h i hi => hi.elim (hpassed i) (h i), fun h i hi => h i (.inr hi)⟩

theorem run_spec (d : Devinit ι) :
    Ran outcome (executed outcome d.entries) { d with failures := 0, firstFailure := none }
        (run outcome d).2 ∧
      ((run outcome d).1 = .ok ↔
        ∀ i ∈ executed outcome d.entries, ¬ FailedRequired outcome d.entries i) :=
  @runStages_spec _ outcome DevinitStage.all (by decide) { d with failures := 0, firstFailure := none }
    fun _ _ => Iff.rfl

end Ran

/-- A run calls the entries it is to call, in their order; it succeeds if none of those that are required
fails; and the results say of these entries, and of no others, that they ran, with the status of this run. -/
structure Faithful (outcome : ℕ → ι → Status) (d : Devinit ι) (r : Status × Devinit ι) : Prop where
  called : r.2.called = d.called ++ executed outcome d.entries
  status : r.1 = .ok ↔ ∀ i ∈ executed outcome d.entries, ¬ FailedRequired outcome d.entries i
  results : ∀ i e res, d.entries[i]? = some e → r.2.resultGet i = some res →
    (res.ran = true ↔ i ∈ executed outcome d.entries) ∧
      (i ∈ executed outcome d.entries → res.result = outcome i e.fn)

/-- In any state, and so after any registrations and runs, a run is recorded faithfully if it reaches the
stages of the entries that are marked as run already. -/
theorem run_faithful_iff (outcome : ℕ → ι → Status) (d : Devinit ι) :
    Faithful outcome d (run outcome d) ↔
      ∀ i e, d.entries[i]? = some e → (d.result i).ran = true → Reached outcome d.entries e.stage := by
  obtain ⟨hran, hst⟩ := @run_spec _ outcome d
  have hget {i : ℕ} {e : DevinitEntry ι} (he : d.entries[i]? = some e) :
      (run outcome d).2.resultGet i = some ((run outcome d).2.result i) := by
    have hlt := (List.getElem?_eq_some_iff.mp he).1
    rw [resultGet, hran.entries, if_neg (Nat.not_le.mpr hlt)]
  constructor
  · intro h i e he hmarked
    obtain ⟨hiff, -⟩ := h.results i e _ he (hget he)
    rw [hran.result] at hiff
    by_cases hmem : i ∈ executed outcome d.entries
    · obtain ⟨e', he', hreached⟩ := mem_executed.mp hmem
      rw [he] at he'
      obtain rfl := Option.some.inj he'
      exact hreached
    · rw [if_neg hmem] at hiff
      exact absurd (hiff.mp hmarked) hmem
  · intro h
    refine ⟨hran.called, hst, ?_⟩
    intro i e res he hres
    rw [hget he, Option.some.injEq, hran.result] at hres
    by_cases hmem : i ∈ executed outcome d.entries
    · rw [if_pos hmem, answer] at hres
      simp only [he] at hres
      rw [← hres]
      exact ⟨iff_of_true rfl hmem, fun _ => rfl⟩
    · rw [if_neg hmem] at hres
      rw [← hres]
      refine ⟨iff_of_false (fun hmarked => ?_) hmem, fun hmem' => absurd hmem' hmem⟩
      exact hmem (mem_executed.mpr ⟨e, he, h i e he hmarked⟩)

def busAndDevice : Devinit Unit :=
  (register (some "dev") .device (some ()) true
    (register (some "bus") .bus (some ()) true (init {})).2).2

/-- The first run succeeds; in the second the bus fails, and the device is not tried again. -/
theorem failedRetry_keeps_result :
    (run (fun _ _ => .ok) busAndDevice).1 = .ok ∧
      (run (fun i _ => if i = 0 then .errHardware else .ok) (run (fun _ _ => .ok) busAndDevice).2).2.called =
        [0, 1, 0] ∧
      (run (fun i _ => if i = 0 then .errHardware else .ok)
        (run (fun _ _ => .ok) busAndDevice).2).2.resultGet 1 =
        some { name := some "dev", stage := .device, result := .ok, required := true, ran := true } ∧
      ¬ Faithful (fun i _ => if i = 0 then .errHardware else .ok) (run (fun _ _ => .ok) busAndDevice).2
        (run (fun i _ => if i = 0 then .errHardware else .ok) (run (fun _ _ => .ok) busAndDevice).2) := by
  refine ⟨by decide, by decide, by decide, ?_⟩
  intro h
  obtain ⟨hiff, -⟩ := h.results 1 ⟨"dev", .device, (), true⟩ _ rfl rfl
  exact absurd (hiff.mp (by decide)) (by decide)

end Devinit

end QiranFirmware
