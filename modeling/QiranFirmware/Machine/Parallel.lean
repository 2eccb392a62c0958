import QiranFirmware.Machine.Preempt
import Mathlib.Logic.Function.Basic

/-! # Programs that run in parallel

Threads share a state, and the accesses of their programs come in any order. A thread runs one program
at a time, and keeps what each has returned. Every thread relies on what the others guarantee: a program
that upholds its part between the accesses of the others does so in every run.
-/
namespace Machine

section Upholds
variable {σ α β : Type} (R G : σ → σ → Prop) (I : σ → Prop)

/-- While others move the state by `R` and keep `I`, the program moves it by `G`, keeps `I`, and returns
as `Q` says. -/
def Prog.Upholds (Q : α → σ → Prop) : Prog σ Empty Unit α → σ → Prop
  | .ret a, s => ∀ t, R s t → Q a t
  | .read k, s => ∀ t, R s t → I t → (k t).Upholds Q t
  | .write f k, s => ∀ t, R s t → I t → G t (f t) ∧ I (f t) ∧ k.Upholds Q (f t)
  -- disabling interrupts does not keep other threads from running
  | .irqDisable k, s => ∀ t, R s t → I t → (k true).Upholds Q t
  | .irqRestore _ k, s => ∀ t, R s t → I t → k.Upholds Q t
  | .callout c _, _ => c.elim

variable {R G I}

theorem Prog.Upholds.mono {Q Q' : α → σ → Prop} (hQ : ∀ a t, Q a t → Q' a t) {p : Prog σ Empty Unit α}
    {s : σ} (hp : p.Upholds R G I Q s) : p.Upholds R G I Q' s := by
  induction p generalizing s with
  | ret a => exact fun t ht => hQ a t (hp t ht)
  | read k ih => exact fun t ht hI => ih t (hp t ht hI)
  | write f k ih => exact fun t ht hI => ⟨(hp t ht hI).1, (hp t ht hI).2.1, ih (hp t ht hI).2.2⟩
  | irqDisable k ih => exact fun t ht hI => ih true (hp t ht hI)
  | irqRestore prior k ih => exact fun t ht hI => ih (hp t ht hI)
  | callout c k => exact c.elim

theorem Prog.Upholds.of_rely (htrans : ∀ s t u, R s t → R t u → R s u) {Q : α → σ → Prop}
    {p : Prog σ Empty Unit α} {s t : σ} (ht : R s t) (hp : p.Upholds R G I Q s) :
    p.Upholds R G I Q t := by
  cases p with
  | callout c k => exact c.elim
  | ret | read | write | irqDisable | irqRestore => exact fun u hu => hp u (htrans s t u ht hu)

theorem Prog.Upholds.bind (hrefl : ∀ s, R s s) {Q : β → σ → Prop} {p : Prog σ Empty Unit α}
    {g : α → Prog σ Empty Unit β} {s : σ}
    (hp : p.Upholds R G I (fun a t => (g a).Upholds R G I Q t) s) :
    (p.bind g).Upholds R G I Q s := by
  induction p generalizing s with
  | ret a => exact hp s (hrefl s)
  | read k ih => exact fun t ht hI => ih t (hp t ht hI)
  | write f k ih => exact fun t ht hI => ⟨(hp t ht hI).1, (hp t ht hI).2.1, ih (hp t ht hI).2.2⟩
  | irqDisable k ih => exact fun t ht hI => ih true (hp t ht hI)
  | irqRestore prior k ih => exact fun t ht hI => ih (hp t ht hI)
  | callout c k => exact c.elim

theorem Prog.Upholds.get {γ : Type} {Q : β → σ → Prop} {f : σ → γ} {g : γ → Prog σ Empty Unit β} {s : σ}
    (h : ∀ t, R s t → I t → (g (f t)).Upholds R G I Q t) :
    ((Prog.get f).bind g).Upholds R G I Q s := h

theorem Prog.Upholds.modify {Q : β → σ → Prop} {f : σ → σ} {g : Unit → Prog σ Empty Unit β} {s : σ}
    (h : ∀ t, R s t → I t → G t (f t) ∧ I (f t) ∧ (g ()).Upholds R G I Q (f t)) :
    ((Prog.modify f).bind g).Upholds R G I Q s := h

end Upholds

structure Thread (σ ι β : Type) where
  running : Option (ι × Prog σ Empty Unit β) := none
  returns : List (ι × β) := []

namespace Thread
variable {σ ι β : Type}

def access (s : σ) (th : Thread σ ι β) : σ × Thread σ ι β :=
  match th.running with
  | none => (s, th)
  | some (c, .ret b) => (s, { running := none, returns := th.returns ++ [(c, b)] })
  | some (c, .read k) => (s, { th with running := some (c, k s) })
  | some (c, .write f k) => (f s, { th with running := some (c, k) })
  | some (c, .irqDisable k) => (s, { th with running := some (c, k true) })
  | some (c, .irqRestore _ k) => (s, { th with running := some (c, k) })
  | some (_, .callout c _) => c.elim

variable (R G : σ → σ → Prop) (I : σ → Prop) (J : List (ι × β) → σ → Prop)

/-- Between calls the thread knows `J` of what has been returned; in a call the program upholds its part
and comes to know it. -/
def Safe (th : Thread σ ι β) (s : σ) : Prop :=
  match th.running with
  | none => J th.returns s
  | some (c, p) => p.Upholds R G I (fun b t => J (th.returns ++ [(c, b)]) t) s

variable {R G I J}

theorem safe_access (hrefl : ∀ s, R s s) {th : Thread σ ι β} {s : σ} (hI : I s)
    (hsafe : th.Safe R G I J s) :
    ((th.access s).1 = s ∨ G s (th.access s).1) ∧ I (th.access s).1 ∧
      (th.access s).2.Safe R G I J (th.access s).1 := by
  obtain ⟨running, returns⟩ := th
  match running with
  | none => exact ⟨.inl rfl, hI, hsafe⟩
  | some (c, .ret b) => exact ⟨.inl rfl, hI, hsafe s (hrefl s)⟩
  | some (c, .read k) => exact ⟨.inl rfl, hI, hsafe s (hrefl s) hI⟩
  | some (c, .write f k) =>
    obtain ⟨hG, hI, hrest⟩ := hsafe s (hrefl s) hI
    exact ⟨.inr hG, hI, hrest⟩
  | some (c, .irqDisable k) => exact ⟨.inl rfl, hI, hsafe s (hrefl s) hI⟩
  | some (c, .irqRestore _ k) => exact ⟨.inl rfl, hI, hsafe s (hrefl s) hI⟩
  | some (_, .callout c _) => exact c.elim

end Thread

structure Threads (σ : Type) {θ : Type} (ι β : θ → Type) where
  shared : σ
  thread : ∀ i, Thread σ (ι i) (β i) := fun _ => {}

namespace Threads
variable {σ θ : Type} {ι β : θ → Type} [DecidableEq θ]

inductive Turn (ι : θ → Type)
  | call (i : θ) (c : ι i)
  | access (i : θ)

def step (code : ∀ i, ι i → Prog σ Empty Unit (β i)) (m : Threads σ ι β) : Turn ι → Threads σ ι β
  | .call i c =>
    match (m.thread i).running with
    | none =>
      { m with thread := Function.update m.thread i { m.thread i with running := some (c, code i c) } }
    | some _ => m
  | .access i =>
    { shared := ((m.thread i).access m.shared).1
      thread := Function.update m.thread i ((m.thread i).access m.shared).2 }

end Threads

/-- What each thread relies on holds over any number of moves of the others, which guarantee it. -/
structure Cooperation {σ θ : Type} {ι β : θ → Type} (R G : θ → σ → σ → Prop) (I : σ → Prop)
    (J : ∀ i, List (ι i × β i) → σ → Prop) (code : ∀ i, ι i → Prog σ Empty Unit (β i)) : Prop where
  refl : ∀ i s, R i s s
  trans : ∀ i s t u, R i s t → R i t u → R i s u
  guarantee : ∀ {i j}, i ≠ j → ∀ {s t}, G i s t → R j s t
  rest : ∀ i l {s t}, R i s t → J i l s → J i l t
  calls : ∀ i c l s, J i l s → (code i c).Upholds (R i) (G i) I (fun b t => J i (l ++ [(c, b)]) t) s

namespace Cooperation
variable {σ θ : Type} {ι β : θ → Type} {R G : θ → σ → σ → Prop} {I : σ → Prop}
  {J : ∀ i, List (ι i × β i) → σ → Prop} {code : ∀ i, ι i → Prog σ Empty Unit (β i)}

theorem safe_of_rely (h : Cooperation R G I J code) {i : θ} {th : Thread σ (ι i) (β i)} {s t : σ}
    (ht : R i s t) (hsafe : th.Safe (R i) (G i) I (J i) s) : th.Safe (R i) (G i) I (J i) t := by
  obtain ⟨running, returns⟩ := th
  match running with
  | none => exact h.rest i returns ht hsafe
  | some (c, p) => exact Prog.Upholds.of_rely (h.trans i) ht hsafe

def Keeps (R G : θ → σ → σ → Prop) (I : σ → Prop) (J : ∀ i, List (ι i × β i) → σ → Prop)
    (m : Threads σ ι β) : Prop :=
  I m.shared ∧ ∀ i, (m.thread i).Safe (R i) (G i) I (J i) m.shared

variable [DecidableEq θ]

theorem keeps_step (h : Cooperation R G I J code) {m : Threads σ ι β} (hm : Keeps R G I J m)
    (turn : Threads.Turn ι) : Keeps R G I J (m.step code turn) := by
  obtain ⟨hI, hsafe⟩ := hm
  cases turn with
  | call i c =>
    rw [Threads.step]
    split
    swap
    · exact ⟨hI, hsafe⟩
    rename_i hidle
    refine ⟨hI, fun j => ?_⟩
    by_cases hj : j = i
    · subst hj
      have hrest := hsafe j
      rw [Thread.Safe, hidle] at hrest
      simp only [Function.update_self]
      exact h.calls j c _ _ hrest
    · simp only [Function.update_of_ne hj]
      exact hsafe j
  | access i =>
    obtain ⟨hmove, hI', hhere⟩ := Thread.safe_access (h.refl i) hI (hsafe i)
    refine ⟨hI', fun j => ?_⟩
    by_cases hj : j = i
    · subst hj
      simp only [Threads.step, Function.update_self]
      exact hhere
    · simp only [Threads.step, Function.update_of_ne hj]
      refine h.safe_of_rely ?_ (hsafe j)
      rcases hmove with hmove | hmove
      · rw [hmove]
        exact h.refl j _
      · exact h.guarantee (Ne.symm hj) hmove

/-- A turn leaves the state, or is a move that some thread guarantees. -/
theorem moves_step (h : Cooperation R G I J code) {m : Threads σ ι β} (hm : Keeps R G I J m)
    (turn : Threads.Turn ι) :
    (m.step code turn).shared = m.shared ∨ ∃ i, G i m.shared (m.step code turn).shared := by
  cases turn with
  | call i c =>
    rw [Threads.step]
    split
    · exact .inl rfl
    · exact .inl rfl
  | access i =>
    obtain ⟨hmove, -⟩ := Thread.safe_access (h.refl i) hm.1 (hm.2 i)
    exact hmove.imp_right fun hG => ⟨i, hG⟩

/-- However the accesses interleave, the invariant holds after each, and every thread that is in no call
knows what its returns say. -/
theorem keeps_run (h : Cooperation R G I J code) {s : σ} (hI : I s) (hJ : ∀ i, J i [] s)
    (turns : List (Threads.Turn ι)) : Keeps R G I J (run (Threads.step code) { shared := s } turns) :=
  have hstart : Keeps R G I J ({ shared := s } : Threads σ ι β) := ⟨hI, hJ⟩
  @run_keeps _ _ _ (Keeps R G I J) (fun _ turn hm => h.keeps_step hm turn) _ hstart turns

end Cooperation

end Machine
