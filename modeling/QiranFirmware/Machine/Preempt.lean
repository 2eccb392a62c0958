import QiranFirmware.Machine.Runs

/-! # Programs that interrupts come between

A program reads and writes a shared state one access at a time, disables interrupts and restores
what they were, and calls out of its module. One processor runs a stack of such programs: while
interrupts are enabled a handler may be pushed before any access, and where a program has called
out further calls may be. `Prog.Meets` is what a program ends with when handlers move the state by
`R` between its accesses; `Guarded.returns` carries it to every schedule.
-/
namespace Machine

variable {σ γ ρ ι α β : Type}

inductive Prog (σ γ ρ α : Type)
  | ret (a : α)
  | read (k : σ → Prog σ γ ρ α)
  | write (f : σ → σ) (k : Prog σ γ ρ α)
  | irqDisable (k : Bool → Prog σ γ ρ α)
  | irqRestore (prior : Bool) (k : Prog σ γ ρ α)
  | callout (c : γ) (k : ρ → Prog σ γ ρ α)

namespace Prog

def bind : Prog σ γ ρ α → (α → Prog σ γ ρ β) → Prog σ γ ρ β
  | ret a, g => g a
  | read k, g => read fun s => (k s).bind g
  | write f k, g => write f (k.bind g)
  | irqDisable k, g => irqDisable fun e => (k e).bind g
  | irqRestore prior k, g => irqRestore prior (k.bind g)
  | callout c k, g => callout c fun r => (k r).bind g

instance : Monad (Prog σ γ ρ) where
  pure := ret
  bind := bind

@[simp] theorem pure_def (a : α) : (pure a : Prog σ γ ρ α) = ret a := rfl
@[simp] theorem bind_def (p : Prog σ γ ρ α) (g : α → Prog σ γ ρ β) : p >>= g = p.bind g := rfl

def get (f : σ → α) : Prog σ γ ρ α := read fun s => ret (f s)

def modify (f : σ → σ) : Prog σ γ ρ Unit := write f (ret ())

def disable : Prog σ γ ρ Bool := irqDisable ret
def restore (prior : Bool) : Prog σ γ ρ Unit := irqRestore prior (ret ())
def call (c : γ) : Prog σ γ ρ ρ := callout c ret

def each (g : α → Prog σ γ ρ Unit) : List α → Prog σ γ ρ Unit
  | [] => ret ()
  | a :: as => (g a).bind fun _ => each g as

/-- The program run with no interrupts, and `reply` for what is called out. -/
def alone (reply : γ → σ → ρ × σ) : Prog σ γ ρ α → σ → α × σ
  | ret a, s => (a, s)
  | read k, s => (k s).alone reply s
  | write f k, s => k.alone reply (f s)
  | irqDisable k, s => (k true).alone reply s
  | irqRestore _ k, s => k.alone reply s
  | callout c k, s => (k (reply c s).1).alone reply (reply c s).2

theorem alone_bind (reply : γ → σ → ρ × σ) (p : Prog σ γ ρ α) (g : α → Prog σ γ ρ β) (s : σ) :
    (p.bind g).alone reply s = (g (p.alone reply s).1).alone reply (p.alone reply s).2 := by
  induction p generalizing s with
  | ret a => rfl
  | read k ih => exact ih s s
  | write f k ih => exact ih (f s)
  | irqDisable k ih => exact ih true s
  | irqRestore prior k ih => exact ih s
  | callout c k ih => exact ih _ _

theorem alone_ret (reply : γ → σ → ρ × σ) (a : α) (s : σ) : (ret a).alone reply s = (a, s) := rfl

theorem alone_get (reply : γ → σ → ρ × σ) (f : σ → α) (g : α → Prog σ γ ρ β) (s : σ) :
    ((get f).bind g).alone reply s = (g (f s)).alone reply s := rfl

theorem alone_modify (reply : γ → σ → ρ × σ) (f : σ → σ) (g : Unit → Prog σ γ ρ β) (s : σ) :
    ((modify f).bind g).alone reply s = (g ()).alone reply (f s) := rfl

theorem alone_each (reply : γ → σ → ρ × σ) (g : α → Prog σ γ ρ Unit) (as : List α) (s : σ) :
    ((each g as).alone reply s).2 = as.foldl (fun s a => ((g a).alone reply s).2) s := by
  induction as generalizing s with
  | nil => rfl
  | cons a as ih =>
    rw [each, alone_bind]
    exact ih _

end Prog

/-- What handlers may do to the state before the next access. -/
def Rely (R : σ → σ → Prop) : Bool → σ → σ → Prop
  | true => R
  | false => Eq

section Meets
variable (R : σ → σ → Prop) (I : σ → Prop)

/-- Under the interference `R` the program ends only as `Q` says, and it calls out only where `I`
holds, counting on no more than `I` when the call comes back. -/
def Prog.Meets (Q : α → Bool → σ → Prop) : Prog σ γ ρ α → Bool → σ → Prop
  | ret a, e, s => ∀ t, Rely R e s t → Q a e t
  | read k, e, s => ∀ t, Rely R e s t → (k t).Meets Q e t
  | write f k, e, s => ∀ t, Rely R e s t → k.Meets Q e (f t)
  | irqDisable k, e, s => ∀ t, Rely R e s t → (k e).Meets Q false t
  | irqRestore prior k, e, s => ∀ t, Rely R e s t → k.Meets Q prior t
  | callout _ k, e, s => I s ∧ ∀ t, I t → ∀ r, (k r).Meets Q e t

end Meets

theorem Prog.Meets.mono {R : σ → σ → Prop} {I : σ → Prop} {Q Q' : α → Bool → σ → Prop}
    (hQ : ∀ a e t, Q a e t → Q' a e t) {p : Prog σ γ ρ α} {e : Bool} {s : σ}
    (hp : p.Meets R I Q e s) : p.Meets R I Q' e s := by
  induction p generalizing e s with
  | ret a => exact fun t ht => hQ a e t (hp t ht)
  | read k ih => exact fun t ht => ih t (hp t ht)
  | write f k ih => exact fun t ht => ih (hp t ht)
  | irqDisable k ih => exact fun t ht => ih e (hp t ht)
  | irqRestore prior k ih => exact fun t ht => ih (hp t ht)
  | callout c k ih => exact ⟨hp.1, fun t ht r => ih r (hp.2 t ht r)⟩

structure Interference (R : σ → σ → Prop) (I : σ → Prop) : Prop where
  refl : ∀ s, R s s
  trans : ∀ {s t u}, R s t → R t u → R s u
  keeps : ∀ {s t}, R s t → I s → I t

namespace Interference
variable {R : σ → σ → Prop} {I : σ → Prop} (hR : Interference R I)
include hR

theorem rely_refl (e : Bool) (s : σ) : Rely R e s s := by
  cases e with
  | true => exact hR.refl s
  | false => rfl

theorem rely_trans {e : Bool} {s t u : σ} (h : Rely R e s t) (k : Rely R e t u) :
    Rely R e s u := by
  cases e with
  | true => exact hR.trans h k
  | false => exact h.trans k

theorem of_rely {e : Bool} {s t : σ} (h : Rely R e s t) : R s t := by
  cases e with
  | true => exact h
  | false =>
    obtain rfl : s = t := h
    exact hR.refl s

theorem meets_of_rely {Q : α → Bool → σ → Prop} {p : Prog σ γ ρ α} {e : Bool} {s t : σ}
    (h : Rely R e s t) (hp : p.Meets R I Q e s) : p.Meets R I Q e t := by
  cases p with
  | callout c k => exact ⟨hR.keeps (hR.of_rely h) hp.1, hp.2⟩
  | ret | read | write | irqDisable | irqRestore => exact fun u hu => hp u (hR.rely_trans h hu)

theorem meets_bind {Q : β → Bool → σ → Prop} {p : Prog σ γ ρ α} {g : α → Prog σ γ ρ β} {e : Bool}
    {s : σ} (hp : p.Meets R I (fun a e t => (g a).Meets R I Q e t) e s) :
    (p.bind g).Meets R I Q e s := by
  induction p generalizing e s with
  | ret a => exact hp s (hR.rely_refl e s)
  | read k ih => exact fun t ht => ih t (hp t ht)
  | write f k ih => exact fun t ht => ih (hp t ht)
  | irqDisable k ih => exact fun t ht => ih e (hp t ht)
  | irqRestore prior k ih => exact fun t ht => ih (hp t ht)
  | callout c k ih => exact ⟨hp.1, fun t ht r => ih r (hp.2 t ht r)⟩

end Interference

def Prog.Keeps (R : σ → σ → Prop) (I J : σ → Prop) (p : Prog σ γ ρ α) : Prop :=
  ∀ e s, J s → p.Meets R I (fun _ e' t => e' = e ∧ J t) e s

namespace Prog.Keeps
variable {R : σ → σ → Prop} {I J : σ → Prop} (hR : Interference R I) (hJ : ∀ {s t}, R s t → J s → J t)
include hR hJ

theorem ret (a : α) : (Prog.ret a : Prog σ γ ρ α).Keeps R I J :=
  fun _ _ hs _ ht => ⟨rfl, hJ (hR.of_rely ht) hs⟩

theorem get (f : σ → α) : (Prog.get f : Prog σ γ ρ α).Keeps R I J :=
  fun _ _ hs t ht => ret hR hJ (f t) _ t (hJ (hR.of_rely ht) hs)

theorem modify {f : σ → σ} (hf : ∀ s, J s → J (f s)) : (Prog.modify f : Prog σ γ ρ Unit).Keeps R I J :=
  fun _ _ hs t ht => ret hR hJ () _ _ (hf t (hJ (hR.of_rely ht) hs))

omit hJ in
theorem bind {p : Prog σ γ ρ α} {g : α → Prog σ γ ρ β} (hp : p.Keeps R I J)
    (hg : ∀ a, (g a).Keeps R I J) : (p.bind g).Keeps R I J := by
  intro e s hs
  refine hR.meets_bind ((hp e s hs).mono ?_)
  rintro a e' t ⟨rfl, ht⟩
  exact hg a e' t ht

theorem each {g : α → Prog σ γ ρ Unit} (hg : ∀ a, (g a).Keeps R I J) (as : List α) :
    (Prog.each g as).Keeps R I J := by
  induction as with
  | nil => exact ret hR hJ ()
  | cons a as ih => exact (hg a).bind hR fun _ => ih

/-- A write between disabling and restoring the interrupts. -/
theorem guarded {f : σ → σ} (hf : ∀ s, J s → J (f s)) : (Prog.disable.bind fun prior =>
    (Prog.modify f).bind fun _ => Prog.restore prior : Prog σ γ ρ Unit).Keeps R I J := by
  intro e s hs t ht _ h₁ _ h₂
  obtain rfl := h₁
  obtain rfl := h₂
  exact ret hR hJ () e _ (hf t (hJ (hR.of_rely ht) hs))

omit hJ in
theorem call (c : γ) : (Prog.call c : Prog σ γ ρ ρ).Keeps R I I :=
  fun e _ hs => ⟨hs, fun t ht r => ret hR hR.keeps r e t ht⟩

end Prog.Keeps

structure Frame (σ γ ρ ι β : Type) where
  call : ι
  before : σ
  handler : Bool
  prog : Prog σ γ ρ β

structure Return (σ ι β : Type) where
  call : ι
  before : σ
  value : β
  after : σ

structure Cpu (σ γ ρ ι β : Type) where
  shared : σ
  enabled : Bool := true
  stack : List (Frame σ γ ρ ι β) := []
  returns : List (Return σ ι β) := []

/-- What happens next: one access of the topmost program, a handler with or without interrupts
disabled in it, a call by the loop or by what has been called out, the reply to a call out. -/
inductive Turn (ι ρ : Type)
  | access
  | interrupt (i : ι) (enabled : Bool)
  | call (i : ι)
  | reply (r : ρ)

namespace Cpu
variable (code : ι → Prog σ γ ρ β) (isr : ι → Bool)

def push (i : ι) (handler enabled : Bool) (m : Cpu σ γ ρ ι β) : Cpu σ γ ρ ι β :=
  { m with enabled, stack := ⟨i, m.shared, handler, code i⟩ :: m.stack }

def access (m : Cpu σ γ ρ ι β) (f : Frame σ γ ρ ι β) (rest : List (Frame σ γ ρ ι β)) :
    Cpu σ γ ρ ι β :=
  match f.prog with
  | .ret b =>
    -- a handler is taken only with interrupts enabled, which its return puts back
    if f.handler then { m with enabled := true, stack := rest }
    else { m with stack := rest, returns := m.returns ++ [⟨f.call, f.before, b, m.shared⟩] }
  | .read k => { m with stack := { f with prog := k m.shared } :: rest }
  | .write g k => { m with shared := g m.shared, stack := { f with prog := k } :: rest }
  | .irqDisable k =>
    { m with enabled := false, stack := { f with prog := k m.enabled } :: rest }
  | .irqRestore prior k => { m with enabled := prior, stack := { f with prog := k } :: rest }
  | .callout _ _ => m

def step (m : Cpu σ γ ρ ι β) : Turn ι ρ → Cpu σ γ ρ ι β
  | .access =>
    match m.stack with
    | [] => m
    | f :: rest => m.access f rest
  | .interrupt i enabled => if m.enabled && isr i then m.push code i true enabled else m
  | .call i =>
    match m.stack with
    | [] => m.push code i false m.enabled
    | ⟨_, _, _, .callout _ _⟩ :: _ => m.push code i false m.enabled
    | _ => m
  | .reply r =>
    match m.stack with
    | ⟨j, s, handler, .callout _ k⟩ :: rest => { m with stack := ⟨j, s, handler, k r⟩ :: rest }
    | _ => m

end Cpu

/-- Every handler moves the state by `R`; every call keeps `I`, leaves interrupts as they were
and returns as `Spec` says. -/
structure Guarded (R : σ → σ → Prop) (I : σ → Prop) (code : ι → Prog σ γ ρ β) (isr : ι → Bool)
    (Spec : ι → σ → β → σ → Prop) : Prop extends Interference R I where
  handlers : ∀ i, isr i = true → ∀ e s, (code i).Meets R I (fun _ _ t => R s t) e s
  calls : ∀ i e s, I s → (code i).Meets R I (fun b e' t => e' = e ∧ I t ∧ Spec i s b t) e s

namespace Guarded
variable {R : σ → σ → Prop} {I : σ → Prop} {code : ι → Prog σ γ ρ β} {isr : ι → Bool}
  {Spec : ι → σ → β → σ → Prop}

/-- Every program of the stack still meets its part, and leaves the rest of the stack to. -/
def Safe (R : σ → σ → Prop) (I : σ → Prop) (Spec : ι → σ → β → σ → Prop) :
    List (Frame σ γ ρ ι β) → Bool → σ → Prop
  | [], _, s => I s
  | f :: rest, e, s => f.prog.Meets R I (fun b e' t =>
      if f.handler then Safe R I Spec rest true t
      else Safe R I Spec rest e' t ∧ Spec f.call f.before b t) e s

structure Keeps (R : σ → σ → Prop) (I : σ → Prop) (Spec : ι → σ → β → σ → Prop)
    (m : Cpu σ γ ρ ι β) : Prop where
  safe : Safe R I Spec m.stack m.enabled m.shared
  returns : ∀ r ∈ m.returns, Spec r.call r.before r.value r.after

theorem safe_of_rely (h : Guarded R I code isr Spec) {stack : List (Frame σ γ ρ ι β)} {e : Bool}
    {s t : σ} (ht : Rely R e s t) (hs : Safe R I Spec stack e s) : Safe R I Spec stack e t := by
  cases stack with
  | nil => exact h.keeps (h.of_rely ht) hs
  | cons f rest => exact h.meets_of_rely ht hs

theorem keeps_access (h : Guarded R I code isr Spec) {m : Cpu σ γ ρ ι β} {f : Frame σ γ ρ ι β}
    {rest : List (Frame σ γ ρ ι β)} (hstack : m.stack = f :: rest) (hm : Keeps R I Spec m) :
    Keeps R I Spec (m.access f rest) := by
  obtain ⟨hsafe, hreturns⟩ := hm
  rw [hstack] at hsafe
  obtain ⟨call, before, handler, prog⟩ := f
  have hhere := h.rely_refl m.enabled m.shared
  cases prog with
  | ret b =>
    have hend := hsafe m.shared hhere
    cases handler with
    | true => exact ⟨hend, hreturns⟩
    | false =>
      refine ⟨hend.1, ?_⟩
      intro r hr
      rcases List.mem_append.mp hr with hr | hr
      · exact hreturns r hr
      · rw [List.mem_singleton.mp hr]
        exact hend.2
  | read k => exact ⟨hsafe m.shared hhere, hreturns⟩
  | write g k => exact ⟨hsafe m.shared hhere, hreturns⟩
  | irqDisable k => exact ⟨hsafe m.shared hhere, hreturns⟩
  | irqRestore prior k => exact ⟨hsafe m.shared hhere, hreturns⟩
  | callout c k =>
    refine ⟨?_, hreturns⟩
    rw [Cpu.access, hstack]
    exact hsafe

/-- A call on top of a stack that goes on from any state with the invariant. -/
theorem keeps_push (h : Guarded R I code isr Spec) {m : Cpu σ γ ρ ι β} (hm : Keeps R I Spec m)
    (hI : I m.shared) (hback : ∀ t, I t → Safe R I Spec m.stack m.enabled t) (i : ι) :
    Keeps R I Spec (m.push code i false m.enabled) := by
  refine ⟨(h.calls i m.enabled m.shared hI).mono ?_, hm.returns⟩
  rintro b e' t ⟨rfl, ht, hspec⟩
  exact ⟨hback t ht, hspec⟩

theorem keeps_step (h : Guarded R I code isr Spec) {m : Cpu σ γ ρ ι β} (hm : Keeps R I Spec m)
    (turn : Turn ι ρ) : Keeps R I Spec (m.step code isr turn) := by
  cases turn with
  | access =>
    rw [Cpu.step]
    split
    · exact hm
    · rename_i f rest hstack
      exact h.keeps_access hstack hm
  | interrupt i enabled =>
    rw [Cpu.step]
    split
    · rename_i hon
      obtain ⟨hon, hisr⟩ := Bool.and_eq_true_iff.mp hon
      refine ⟨(h.handlers i hisr enabled m.shared).mono ?_, hm.returns⟩
      intro _ _ t ht
      have hsafe := hm.safe
      rw [hon] at hsafe
      exact h.safe_of_rely (show Rely R true m.shared t from ht) hsafe
    · exact hm
  | call i =>
    have hsafe := hm.safe
    rw [Cpu.step]
    split
    · rename_i hstack
      rw [hstack] at hsafe
      refine h.keeps_push hm hsafe ?_ i
      intro t ht
      rwa [hstack]
    · rename_i hstack
      rw [hstack] at hsafe
      refine h.keeps_push hm hsafe.1 ?_ i
      intro t ht
      rw [hstack]
      exact ⟨ht, hsafe.2⟩
    · exact hm
  | reply r =>
    have hsafe := hm.safe
    rw [Cpu.step]
    split
    · rename_i hstack
      rw [hstack] at hsafe
      exact ⟨hsafe.2 m.shared hsafe.1 r, hm.returns⟩
    · exact hm

/-- Whatever the schedule, every call has returned as specified, and the invariant holds whenever
nothing is running. -/
theorem keeps_run (h : Guarded R I code isr Spec) {s : σ} (hs : I s) (turns : List (Turn ι ρ)) :
    Keeps R I Spec (run (Cpu.step code isr) { shared := s } turns) :=
  have hstart : Keeps R I Spec ({ shared := s } : Cpu σ γ ρ ι β) := ⟨hs, by simp⟩
  @run_keeps _ _ _ (Keeps R I Spec) (fun _ turn hm => h.keeps_step hm turn) _ hstart turns

end Guarded

end Machine
