import QiranFirmware.Machine.Critical
import QiranFirmware.Svc.Log

/-! # The log between interrupts and the loop

`push` and `svc_log_read` of `svc_log.c` one access at a time. Any interrupt may push a record, as the loop
may, with interrupts disabled from the first access to the last; the loop alone reads, and interrupts come
between any two of its accesses. Beside the log stands what has happened to it: a record is accepted when
the head moves past it, and taken when the tail does.
-/
namespace QiranFirmware

open Machine

structure SharedLog extends Log where
  accepted : List LogRecord := []
  /-- The records dropped, each with how many were unread. -/
  refused : List (LogRecord × UInt32) := []
  taken : List LogRecord := []

inductive LogCall
  | push (r : LogRecord)
  | read (max : ℕ)

namespace SharedLog

abbrev Code (α : Type) := Prog SharedLog Empty Unit α

def drop (n : UInt32) (r : LogRecord) (seen : UInt32) (s : SharedLog) : SharedLog :=
  { s with dropped := n, refused := s.refused ++ [(r, seen)] }

def fill (head : UInt32) (f : LogRecord → LogRecord) (s : SharedLog) : SharedLog :=
  let i := (head &&& Log.mask).toNat
  { s with ring := { s.ring with slot := Function.update s.ring.slot i (f (s.ring.slot i)) } }

def publish (head : UInt32) (r : LogRecord) (s : SharedLog) : SharedLog :=
  { s with ring := { s.ring with head }, accepted := s.accepted ++ [r] }

def release (tail : UInt32) (r : LogRecord) (s : SharedLog) : SharedLog :=
  { s with ring := { s.ring with tail }, taken := s.taken ++ [r] }

/-- The record goes into the cell of the head, one field at a time. -/
def keep (r : LogRecord) (head : UInt32) : Code Unit := do
  Prog.modify (fill head fun e => { e with tick := r.tick })
  Prog.modify (fill head fun e => { e with detail := r.detail })
  Prog.modify (fill head fun e => { e with code := r.code })
  Prog.modify (fill head fun e => { e with severity := r.severity })
  Prog.modify (fill head fun e => { e with category := r.category })
  Prog.modify (publish (head + 1) r)

def keepOrDrop (r : LogRecord) (head tail : UInt32) : Code Unit :=
  if Log.mask < head - tail then do
    let dropped ← Prog.get fun s => s.dropped
    Prog.modify (drop (dropped + 1) r (head - tail))
  else keep r head

def countFault (r : LogRecord) : Code Unit :=
  if r.category = .fault then do
    let faultTotal ← Prog.get fun s => s.faultTotal
    Prog.modify fun s => { s with faultTotal := faultTotal + 1 }
  else return ()

def guarded (r : LogRecord) : Code Unit := do
  let head ← Prog.get fun s => s.ring.head
  let tail ← Prog.get fun s => s.ring.tail
  keepOrDrop r head tail
  let total ← Prog.get fun s => s.total
  Prog.modify fun s => { s with total := total + 1 }
  countFault r

def take : Code (Option LogRecord) := do
  let tail ← Prog.get fun s => s.ring.tail
  let head ← Prog.get fun s => s.ring.head
  if head = tail then
    return none
  else
    let tick ← Prog.get fun s => (s.ring.slot (tail &&& Log.mask).toNat).tick
    let detail ← Prog.get fun s => (s.ring.slot (tail &&& Log.mask).toNat).detail
    let code ← Prog.get fun s => (s.ring.slot (tail &&& Log.mask).toNat).code
    let severity ← Prog.get fun s => (s.ring.slot (tail &&& Log.mask).toNat).severity
    let category ← Prog.get fun s => (s.ring.slot (tail &&& Log.mask).toNat).category
    Prog.modify (release (tail + 1) { tick, detail, code, severity, category })
    return some { tick, detail, code, severity, category }

def read : ℕ → Code (List LogRecord)
  | 0 => return []
  | max + 1 => do
    match ← take with
    | none => return []
    | some r =>
      let rest ← read max
      return r :: rest

def code : LogCall → Code (List LogRecord)
  | .push r => do
    Prog.critical (guarded r)
    return []
  | .read max => read max

def isr : LogCall → Bool
  | .push _ => true
  | .read _ => false

def start (slot : ℕ → LogRecord) (index : UInt32) : SharedLog :=
  { ring := { slot, mask := Log.mask, head := index, tail := index } }

def pushed (r : LogRecord) (s : SharedLog) : SharedLog :=
  let kept := if Log.mask < s.ring.head - s.ring.tail then
      drop (s.dropped + 1) r (s.ring.head - s.ring.tail) s
    else publish (s.ring.head + 1) r (fill s.ring.head (fun _ => r) s)
  { kept with
    total := kept.total + 1
    faultTotal := if r.category = .fault then kept.faultTotal + 1 else kept.faultTotal }

theorem fill_fill (head : UInt32) (f g : LogRecord → LogRecord) (s : SharedLog) :
    fill head g (fill head f s) = fill head (fun e => g (f e)) s := by
  simp [fill]

theorem keep_alone (r : LogRecord) (head : UInt32) (s : SharedLog) :
    ((keep r head).alone (fun c _ => c.elim) s).2 = publish (head + 1) r (fill head (fun _ => r) s) := by
  have hfields : ((keep r head).alone (fun c _ => c.elim) s).2 = publish (head + 1) r (fill head
      (fun e => { e with category := r.category }) (fill head (fun e => { e with severity := r.severity })
        (fill head (fun e => { e with code := r.code }) (fill head (fun e => { e with detail := r.detail })
          (fill head (fun e => { e with tick := r.tick }) s))))) := rfl
  rw [hfields, fill_fill, fill_fill, fill_fill, fill_fill]

theorem keepOrDrop_alone (r : LogRecord) (head tail : UInt32) (s : SharedLog) :
    ((keepOrDrop r head tail).alone (fun c _ => c.elim) s).2 =
      if Log.mask < head - tail then drop (s.dropped + 1) r (head - tail) s
      else publish (head + 1) r (fill head (fun _ => r) s) := by
  unfold keepOrDrop
  split
  · rfl
  · exact keep_alone r head s

theorem countFault_alone (r : LogRecord) (s : SharedLog) :
    ((countFault r).alone (fun c _ => c.elim) s).2 =
      { s with faultTotal := if r.category = .fault then s.faultTotal + 1 else s.faultTotal } := by
  unfold countFault
  split
  · rfl
  · rfl

theorem guarded_pushed (r : LogRecord) (s : SharedLog) :
    ((guarded r).alone (fun c _ => c.elim) s).2 = pushed r s := by
  obtain ⟨t, ht⟩ : ∃ t, t = ((keepOrDrop r s.ring.head s.ring.tail).alone (fun c _ => c.elim) s).2 := ⟨_, rfl⟩
  have hrest : (guarded r).alone (fun c _ => c.elim) s =
      (countFault r).alone (fun c _ => c.elim) { t with total := t.total + 1 } := by
    rw [ht]
    exact Prog.alone_bind _ (keepOrDrop r s.ring.head s.ring.tail) _ s
  rw [hrest, countFault_alone, ht, keepOrDrop_alone]
  rfl

/-- With nothing in between, a push is the one of `Log`. -/
theorem pushed_log (r : LogRecord) {s : SharedLog} (hmask : s.ring.mask = Log.mask) :
    (pushed r s).toLog = s.toLog.push r.tick r.code r.category r.severity r.detail := by
  unfold pushed Log.push SlotRing.push
  rw [hmask]
  by_cases hfull : Log.mask < s.ring.head - s.ring.tail
  · simp only [if_pos hfull]
    rfl
  · simp only [if_neg hfull, publish, fill, hmask]

theorem push_alone (r : LogRecord) {s : SharedLog} (hmask : s.ring.mask = Log.mask) :
    ((code (.push r)).alone (fun c _ => c.elim) s).2.toLog =
      s.toLog.push r.tick r.code r.category r.severity r.detail := by
  rw [code, Prog.bind_def, Prog.alone_bind, Prog.alone_critical, ← pushed_log r hmask, ← guarded_pushed]
  rfl

theorem plain_guarded (r : LogRecord) : (guarded r).Plain := by
  refine (Prog.plain_get _).bind fun head => (Prog.plain_get _).bind fun tail => ?_
  refine Prog.Plain.bind ?_ fun _ => (Prog.plain_get _).bind fun total =>
    (Prog.plain_modify _).bind fun _ => ?_
  · unfold keepOrDrop
    split
    · exact (Prog.plain_get _).bind fun dropped => Prog.plain_modify _
    · trivial
  · unfold countFault
    split
    · exact (Prog.plain_get _).bind fun faultTotal => Prog.plain_modify _
    · trivial

structure Intact (s : SharedLog) : Prop where
  valid : s.ring.Valid
  mask_eq : s.ring.mask = Log.mask
  fifo : s.accepted = s.taken ++ s.ring.contents
  refused : ∀ e ∈ s.refused, e.2.toNat = 128
  dropped : s.dropped = UInt32.ofNat s.refused.length
  total : s.total = UInt32.ofNat (s.accepted.length + s.refused.length)
  faultTotal : s.faultTotal =
    UInt32.ofNat ((s.accepted ++ s.refused.map Prod.fst).countP fun r => r.category = .fault)

structure Grew (s t : SharedLog) : Prop where
  tail : t.ring.tail = s.ring.tail
  taken : t.taken = s.taken
  contents : s.ring.contents <+: t.ring.contents
  accepted : s.accepted <+: t.accepted
  refused : s.refused <+: t.refused

namespace Grew

theorem refl (s : SharedLog) : Grew s s :=
  ⟨rfl, rfl, List.prefix_rfl, List.prefix_rfl, List.prefix_rfl⟩

theorem trans {s t u : SharedLog} (h : Grew s t) (k : Grew t u) : Grew s u where
  tail := k.tail.trans h.tail
  taken := k.taken.trans h.taken
  contents := h.contents.trans k.contents
  accepted := h.accepted.trans k.accepted
  refused := h.refused.trans k.refused

end Grew

def Handled (s t : SharedLog) : Prop := Intact s → Intact t ∧ Grew s t

theorem interference : Interference Handled Intact where
  refl s h := ⟨h, Grew.refl s⟩
  trans := by
    intro s t u hst htu h
    obtain ⟨ht, hgrew⟩ := hst h
    obtain ⟨hu, hgrew'⟩ := htu ht
    exact ⟨hu, hgrew.trans hgrew'⟩
  keeps hst h := (hst h).1

def Entered (r : LogRecord) (s t : SharedLog) : Prop :=
  (t.accepted = s.accepted ++ [r] ∧ t.refused = s.refused) ∨
    (t.accepted = s.accepted ∧ ∃ seen, t.refused = s.refused ++ [(r, seen)])

theorem countP_concat_fault (rs : List LogRecord) (r : LogRecord) :
    UInt32.ofNat ((rs ++ [r]).countP fun r => r.category = .fault) =
      if r.category = .fault then UInt32.ofNat (rs.countP fun r => r.category = .fault) + 1
      else UInt32.ofNat (rs.countP fun r => r.category = .fault) := by
  rw [List.countP_append, List.countP_singleton]
  by_cases hfault : r.category = .fault
  · rw [if_pos (decide_eq_true hfault), if_pos hfault, UInt32.ofNat_add]
    rfl
  · rw [if_neg (by simpa using hfault), if_neg hfault, Nat.add_zero]

theorem Intact.refuse {s : SharedLog} (h : Intact s) (r : LogRecord)
    (hfull : Log.mask < s.ring.head - s.ring.tail) :
    Intact (s.pushed r) ∧ Grew s (s.pushed r) ∧ Entered r s (s.pushed r) := by
  have hcount := h.valid.count_le
  have hmask : Log.mask.toNat = 127 := rfl
  rw [h.mask_eq] at hcount
  unfold SharedLog.pushed
  rw [if_pos hfull]
  rw [UInt32.lt_iff_toNat_lt] at hfull
  refine ⟨⟨h.valid, h.mask_eq, h.fifo, ?_, ?_, ?_, ?_⟩, ?_, .inr ⟨rfl, _, rfl⟩⟩
  · intro e he
    rcases List.mem_append.mp he with he | he
    · exact h.refused e he
    · rw [List.mem_singleton.mp he]
      dsimp only
      omega
  · show s.dropped + 1 = UInt32.ofNat (s.refused ++ [_]).length
    rw [List.length_append, UInt32.ofNat_add, ← h.dropped]
    rfl
  · show s.total + 1 = UInt32.ofNat (s.accepted.length + (s.refused ++ [_]).length)
    rw [List.length_append, ← Nat.add_assoc, UInt32.ofNat_add, ← h.total]
    rfl
  · show (if r.category = .fault then s.faultTotal + 1 else s.faultTotal) =
      UInt32.ofNat ((s.accepted ++ (s.refused ++ [(r, _)]).map Prod.fst).countP _)
    rw [List.map_append, ← List.append_assoc, List.map_singleton, countP_concat_fault, ← h.faultTotal]
  · exact ⟨rfl, rfl, List.prefix_rfl, List.prefix_rfl, List.prefix_append ..⟩

theorem Intact.accept {s : SharedLog} (h : Intact s) (r : LogRecord)
    (hroom : ¬ Log.mask < s.ring.head - s.ring.tail) :
    Intact (s.pushed r) ∧ Grew s (s.pushed r) ∧ Entered r s (s.pushed r) := by
  have hpush : s.ring.push r = some (publish (s.ring.head + 1) r (fill s.ring.head (fun _ => r) s)).ring := by
    rw [SlotRing.push, h.mask_eq, if_neg hroom]
    simp only [publish, fill, h.mask_eq]
  obtain ⟨hvalid, hmask, hcontents⟩ := SlotRing.push_spec h.valid hpush
  have hfaults : ((s.accepted ++ [r]) ++ s.refused.map Prod.fst).countP (fun r => r.category = .fault) =
      ((s.accepted ++ s.refused.map Prod.fst) ++ [r]).countP fun r => r.category = .fault := by
    apply List.Perm.countP_eq
    rw [List.append_assoc, List.append_assoc]
    exact List.perm_append_comm.append_left s.accepted
  unfold SharedLog.pushed
  rw [if_neg hroom]
  refine ⟨⟨hvalid, hmask.trans h.mask_eq, ?_, h.refused, h.dropped, ?_, ?_⟩, ?_, .inl ⟨rfl, rfl⟩⟩
  · show s.accepted ++ [r] = s.taken ++ _
    rw [hcontents, h.fifo, List.append_assoc]
  · show s.total + 1 = UInt32.ofNat ((s.accepted ++ [r]).length + s.refused.length)
    rw [List.length_append, List.length_singleton, Nat.add_right_comm, UInt32.ofNat_add, ← h.total]
    rfl
  · show (if r.category = .fault then s.faultTotal + 1 else s.faultTotal) =
      UInt32.ofNat (((s.accepted ++ [r]) ++ s.refused.map Prod.fst).countP _)
    rw [hfaults, countP_concat_fault, ← h.faultTotal]
  · refine ⟨rfl, rfl, ?_, List.prefix_append .., List.prefix_rfl⟩
    rw [hcontents]
    exact List.prefix_append ..

theorem Intact.pushed {s : SharedLog} (h : Intact s) (r : LogRecord) :
    Intact (s.pushed r) ∧ Grew s (s.pushed r) ∧ Entered r s (s.pushed r) := by
  by_cases hfull : Log.mask < s.ring.head - s.ring.tail
  · exact h.refuse r hfull
  · exact h.accept r hfull

/-- A push is one step, whoever makes it. -/
theorem push_meets (r : LogRecord) (e : Bool) {Q : List LogRecord → Bool → SharedLog → Prop} {s : SharedLog}
    (h : ∀ t, Handled s t → ∀ u, Handled (t.pushed r) u → Q [] e u) :
    (code (.push r)).Meets Handled Intact Q e s := by
  refine interference.meets_bind ?_
  refine Prog.meets_critical interference (fun c _ => c.elim) (plain_guarded r) ?_
  intro t ht u hu v hv
  rw [guarded_pushed] at hu
  exact h t ht v (interference.trans hu (interference.of_rely hv))

theorem Intact.release {s : SharedLog} (h : Intact s) {r : LogRecord}
    (hfirst : s.ring.contents.head? = some r) :
    s.ring.slot (s.ring.tail &&& Log.mask).toNat = r ∧ Intact (s.release (s.ring.tail + 1) r) ∧
      s.ring.contents = r :: (s.release (s.ring.tail + 1) r).ring.contents := by
  have hsome : s.ring.contents ≠ [] := by
    intro he
    rw [he] at hfirst
    cases hfirst
  obtain ⟨hcontents, hvalid⟩ := SlotRing.contents_release h.valid hsome
  rw [hcontents, List.head?_cons, Option.some.injEq] at hfirst
  rw [hfirst] at hcontents
  rw [← h.mask_eq]
  refine ⟨hfirst, ⟨hvalid, h.mask_eq, ?_, h.refused, h.dropped, h.total, h.faultTotal⟩, hcontents⟩
  show s.accepted = (s.taken ++ [r]) ++ _
  rw [h.fifo, List.append_assoc, List.singleton_append]
  exact congrArg _ hcontents

structure Taking (s₀ : SharedLog) (r : LogRecord) (s : SharedLog) : Prop where
  first : s₀.ring.contents.head? = some r
  grew : Grew s₀ s
  intact : Intact s

theorem Taking.rely {s₀ s t : SharedLog} {r : LogRecord} {e : Bool} (h : Taking s₀ r s)
    (ht : Rely Handled e s t) : Taking s₀ r t := by
  obtain ⟨hintact, hgrew⟩ := interference.of_rely ht h.intact
  exact ⟨h.first, h.grew.trans hgrew, hintact⟩

theorem Taking.release {s₀ s : SharedLog} {r : LogRecord} (h : Taking s₀ r s) :
    s.ring.slot (s₀.ring.tail &&& Log.mask).toNat = r ∧ Intact (s.release (s₀.ring.tail + 1) r) ∧
      s.ring.contents = r :: (s.release (s₀.ring.tail + 1) r).ring.contents := by
  have hfirst : s.ring.contents.head? = some r := by
    obtain ⟨later, hlater⟩ := h.grew.contents
    rw [← hlater, List.head?_append, h.first]
    rfl
  rw [← h.grew.tail]
  exact h.intact.release hfirst

/-- The rule for reading one field: what an interrupt writes is never the record that is being copied. -/
theorem meets_field {α β : Type} {Q : α → Bool → SharedLog → Prop} {e : Bool} {s₀ s : SharedLog}
    {r : LogRecord} {field : LogRecord → β} {g : β → Code α} (h : Taking s₀ r s)
    (k : ∀ t, Taking s₀ r t → (g (field r)).Meets Handled Intact Q e t) :
    ((Prog.get fun s => field (s.ring.slot (s₀.ring.tail &&& Log.mask).toNat)).bind g).Meets
      Handled Intact Q e s := by
  refine Prog.meets_get fun t ht => ?_
  have htaking := h.rely ht
  rw [htaking.release.1]
  exact k t htaking

structure Took (s : SharedLog) (rs : List LogRecord) (t : SharedLog) : Prop where
  intact : Intact t
  taken : t.taken = s.taken ++ rs
  rest : ∃ later, rs ++ t.ring.contents = s.ring.contents ++ later

theorem Took.handled {s t u : SharedLog} {rs : List LogRecord} (h : Took s rs t) (k : Handled t u) :
    Took s rs u := by
  obtain ⟨hintact, hgrew⟩ := k h.intact
  obtain ⟨later, hlater⟩ := h.rest
  obtain ⟨more, hmore⟩ := hgrew.contents
  refine ⟨hintact, hgrew.taken.trans h.taken, later ++ more, ?_⟩
  rw [← hmore, ← List.append_assoc, hlater, List.append_assoc]

theorem Took.of_handled {s t u : SharedLog} {rs : List LogRecord} (hs : Intact s) (h : Handled s t)
    (k : Took t rs u) : Took s rs u := by
  obtain ⟨-, hgrew⟩ := h hs
  obtain ⟨later, hlater⟩ := k.rest
  obtain ⟨more, hmore⟩ := hgrew.contents
  refine ⟨k.intact, k.taken.trans (congrArg (· ++ rs) hgrew.taken), more ++ later, ?_⟩
  rw [hlater, ← hmore, List.append_assoc]

/-- A record is taken whole, and none only if none was unread. -/
theorem take_meets (e : Bool) {s : SharedLog} (hs : Intact s) :
    take.Meets Handled Intact (fun r e' t => e' = e ∧ Took s r.toList t ∧
      (r = none → s.ring.contents = [])) e s := by
  -- the tail, and then the head
  refine Prog.meets_get fun s₁ h₁ => Prog.meets_get fun s₂ h₂ => ?_
  have hreached : Handled s s₂ := interference.trans (interference.of_rely h₁) (interference.of_rely h₂)
  obtain ⟨hintact₁, -⟩ := interference.of_rely h₁ hs
  obtain ⟨hintact, hgrew⟩ := interference.of_rely h₂ hintact₁
  rw [← hgrew.tail]
  split
  · rename_i hsame
    have hempty : s₂.ring.contents = [] := SlotRing.contents_eq_nil.mpr hsame
    intro t ht
    have hhere : Took s₂ [] s₂ := ⟨hintact, (List.append_nil _).symm, [], (List.append_nil _).symm⟩
    refine ⟨rfl, (hhere.handled (interference.of_rely ht)).of_handled hs hreached, fun _ => ?_⟩
    exact List.prefix_nil.mp (hempty ▸ (hreached hs).2.contents)
  · rename_i hne
    obtain ⟨r, hfirst⟩ : ∃ r, s₂.ring.contents.head? = some r := by
      cases hcontents : s₂.ring.contents with
      | cons r rest => exact ⟨r, rfl⟩
      | nil => exact absurd (SlotRing.contents_eq_nil.mp hcontents) hne
    have hstart : Taking s₂ r s₂ := ⟨hfirst, Grew.refl s₂, hintact⟩
    -- the record, field by field
    refine meets_field hstart fun s₃ h₃ => meets_field h₃ fun s₄ h₄ => meets_field h₄ fun s₅ h₅ => ?_
    refine meets_field h₅ fun s₆ h₆ => meets_field h₆ fun s₇ h₇ => ?_
    -- and then the tail
    refine Prog.meets_modify fun s₈ h₈ => ?_
    have hlast := h₇.rely h₈
    obtain ⟨-, hreleased, hcontents⟩ := hlast.release
    have htook : Took s₂ [r] (s₈.release (s₂.ring.tail + 1) r) := by
      refine ⟨hreleased, congrArg (· ++ [r]) hlast.grew.taken, ?_⟩
      obtain ⟨later, hlater⟩ := hlast.grew.contents
      exact ⟨later, by rw [hlater, hcontents, List.singleton_append]⟩
    intro t ht
    exact ⟨rfl, (htook.handled (interference.of_rely ht)).of_handled hs hreached, fun hnone => by cases hnone⟩

theorem Took.append {s t u : SharedLog} {rs rs' : List LogRecord} (h : Took s rs t) (k : Took t rs' u) :
    Took s (rs ++ rs') u := by
  obtain ⟨later, hlater⟩ := h.rest
  obtain ⟨later', hlater'⟩ := k.rest
  refine ⟨k.intact, ?_, later ++ later', ?_⟩
  · rw [k.taken, h.taken, List.append_assoc]
  · rw [List.append_assoc, hlater', ← List.append_assoc, hlater, List.append_assoc]

/-- A read returns the records that it takes, which are all that were unread when it was called unless it
was asked for fewer. -/
theorem read_meets (max : ℕ) (e : Bool) {s : SharedLog} (hs : Intact s) :
    (read max).Meets Handled Intact (fun rs e' t => e' = e ∧ Took s rs t ∧ rs.length ≤ max ∧
      (rs.length < max → s.ring.contents <+: rs)) e s := by
  induction max generalizing s with
  | zero =>
    intro t ht
    have hhere : Took s [] s := ⟨hs, (List.append_nil _).symm, [], (List.append_nil _).symm⟩
    refine ⟨rfl, hhere.handled (interference.of_rely ht), Nat.le_refl 0, fun hlt => ?_⟩
    exact absurd hlt (Nat.lt_irrefl 0)
  | succ max ih =>
    refine interference.meets_bind ((take_meets e hs).mono ?_)
    rintro r e' t ⟨rfl, htook, hnone⟩
    cases r with
    | none =>
      intro u hu
      refine ⟨rfl, htook.handled (interference.of_rely hu), Nat.zero_le _, fun _ => ?_⟩
      exact hnone rfl ▸ List.prefix_rfl
    | some r =>
      refine interference.meets_bind ((ih htook.intact).mono ?_)
      rintro rs e' u ⟨rfl, htook', hlength, hall⟩
      intro v hv
      refine ⟨rfl, (htook.append htook').handled (interference.of_rely hv), Nat.succ_le_succ hlength, ?_⟩
      intro hlt
      obtain ⟨later, hlater⟩ := htook.rest
      have hfirst : s.ring.contents <+: r :: t.ring.contents := ⟨later, hlater.symm⟩
      refine hfirst.trans ?_
      apply (List.prefix_cons_inj r).mpr
      exact hall (Nat.lt_of_succ_lt_succ hlt)

def Spec : LogCall → SharedLog → List LogRecord → SharedLog → Prop
  | .push r, s, _, t => ∃ s₁ s₂, Grew s s₁ ∧ Entered r s₁ s₂ ∧ Grew s₂ t
  | .read max, s, rs, t => Took s rs t ∧ rs.length ≤ max ∧ (rs.length < max → s.ring.contents <+: rs)

theorem guarded_code : Guarded Handled Intact code isr Spec where
  toInterference := interference
  handlers := by
    intro i hisr e s
    cases i with
    | read max => cases hisr
    | push r =>
      apply push_meets
      intro t ht u hu
      refine interference.trans ht (interference.trans ?_ hu)
      intro hintact
      obtain ⟨hpushed, hgrew, -⟩ := hintact.pushed r
      exact ⟨hpushed, hgrew⟩
  calls := by
    intro i e s hs
    cases i with
    | read max =>
      refine (read_meets max e hs).mono ?_
      rintro rs e' t ⟨rfl, htook, hread⟩
      exact ⟨rfl, htook.intact, htook, hread⟩
    | push r =>
      apply push_meets
      intro t ht u hu
      obtain ⟨hintact, hgrew⟩ := ht hs
      obtain ⟨hpushed, -, hentered⟩ := hintact.pushed r
      obtain ⟨hlast, hgrew'⟩ := hu hpushed
      exact ⟨rfl, hlast, t, t.pushed r, hgrew, hentered, hgrew'⟩

theorem intact_start (slot : ℕ → LogRecord) (index : UInt32) : Intact (start slot index) := by
  have hcount : (index - index).toNat = 0 := by
    rw [UInt32.sub_self]
    rfl
  have hempty : (start slot index).ring.contents = [] := SlotRing.contents_eq_nil.mpr rfl
  refine ⟨⟨⟨7, by decide, rfl⟩, hcount.trans_le (Nat.zero_le _)⟩, rfl, ?_, by simp [start], rfl, rfl, rfl⟩
  rw [hempty]
  rfl

/-- Whatever interrupts push between the accesses of the loop, and wherever the indices have wrapped, the
records read are those accepted, whole and in order; all are counted, and one is dropped only when the log
holds as many as it can. Every read returns all that was unread when it was called, as far as it was asked
for so many. -/
theorem log_in_order (slot : ℕ → LogRecord) (index : UInt32) (turns : List (Turn LogCall Unit)) :
    let m := run (Cpu.step code isr) { shared := start slot index } turns
    (m.stack = [] → Intact m.shared) ∧ ∀ r ∈ m.returns, Spec r.call r.before r.value r.after := by
  intro m
  have hkeeps : Guarded.Keeps Handled Intact Spec m := guarded_code.keeps_run (intact_start slot index) turns
  refine ⟨?_, hkeeps.returns⟩
  intro hidle
  have hsafe := hkeeps.safe
  rw [hidle] at hsafe
  exact hsafe

end SharedLog

end QiranFirmware
