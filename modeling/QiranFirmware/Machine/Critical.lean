import QiranFirmware.Machine.Preempt

/-! # Critical sections

A program that neither touches the interrupts nor calls out, run between disabling them and restoring
what they were, is one step: what it ends with is what it ends with alone.
-/
namespace Machine

variable {σ γ ρ α β : Type}

namespace Prog

def Plain : Prog σ γ ρ α → Prop
  | ret _ => True
  | read k => ∀ s, (k s).Plain
  | write _ k => k.Plain
  | irqDisable _ | irqRestore _ _ | callout _ _ => False

theorem Plain.bind {p : Prog σ γ ρ α} {g : α → Prog σ γ ρ β} (hp : p.Plain) (hg : ∀ a, (g a).Plain) :
    (p.bind g).Plain := by
  induction p with
  | ret a => exact hg a
  | read k ih => exact fun s => ih s (hp s)
  | write f k ih => exact ih hp
  | irqDisable | irqRestore | callout => exact hp.elim

theorem plain_get (f : σ → α) : (Prog.get f : Prog σ γ ρ α).Plain := fun _ => trivial

theorem plain_modify (f : σ → σ) : (Prog.modify f : Prog σ γ ρ Unit).Plain := trivial

/-- With interrupts disabled it ends as it does alone. -/
theorem Plain.meets {R : σ → σ → Prop} {I : σ → Prop} (reply : γ → σ → ρ × σ)
    {Q : α → Bool → σ → Prop} {p : Prog σ γ ρ α} (hp : p.Plain) {s : σ}
    (h : Q (p.alone reply s).1 false (p.alone reply s).2) : p.Meets R I Q false s := by
  induction p generalizing s with
  | ret a =>
    intro t ht
    obtain rfl : s = t := ht
    exact h
  | read k ih =>
    intro t ht
    obtain rfl : s = t := ht
    exact ih s (hp s) h
  | write f k ih =>
    intro t ht
    obtain rfl : s = t := ht
    exact ih hp h
  | irqDisable | irqRestore | callout => exact hp.elim

theorem meets_get {R : σ → σ → Prop} {I : σ → Prop} {Q : β → Bool → σ → Prop} {f : σ → α}
    {g : α → Prog σ γ ρ β} {e : Bool} {s : σ}
    (h : ∀ t, Rely R e s t → (g (f t)).Meets R I Q e t) :
    ((Prog.get f).bind g).Meets R I Q e s := h

theorem meets_modify {R : σ → σ → Prop} {I : σ → Prop} {Q : β → Bool → σ → Prop} {f : σ → σ}
    {g : Unit → Prog σ γ ρ β} {e : Bool} {s : σ}
    (h : ∀ t, Rely R e s t → (g ()).Meets R I Q e (f t)) :
    ((Prog.modify f).bind g).Meets R I Q e s := h

def critical (p : Prog σ γ ρ α) : Prog σ γ ρ α := do
  let prior ← disable
  let a ← p
  restore prior
  return a

theorem alone_critical (reply : γ → σ → ρ × σ) (p : Prog σ γ ρ α) (s : σ) :
    (critical p).alone reply s = p.alone reply s := by
  show (p.bind fun a => (restore true).bind fun _ => ret a).alone reply s = _
  rw [alone_bind]
  rfl

/-- Handlers come before it and after it. -/
theorem meets_critical {R : σ → σ → Prop} {I : σ → Prop} (hR : Interference R I)
    (reply : γ → σ → ρ × σ) {Q : α → Bool → σ → Prop} {p : Prog σ γ ρ α} (hp : p.Plain) {e : Bool} {s : σ}
    (h : ∀ t, R s t → ∀ u, R (p.alone reply t).2 u → Q (p.alone reply t).1 e u) :
    (critical p).Meets R I Q e s := by
  intro t ht
  show (p.bind fun a => (restore e).bind fun _ => ret a).Meets R I Q false t
  refine hR.meets_bind (hp.meets reply ?_)
  intro u hu
  obtain rfl : _ = u := hu
  intro v hv
  exact h t (hR.of_rely ht) v (hR.of_rely hv)

end Prog

end Machine
