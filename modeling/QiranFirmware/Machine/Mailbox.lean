import QiranFirmware.Machine.Runs

/-! # A place for one message

What is put into an occupied place takes the place of what stood there, and taking empties it. What is
taken out is part of what was put in, in its order, and all of it as long as nothing is put into an
occupied place.
-/
namespace Machine

variable {α : Type*}

/-- The message in the place, and what has been taken out of it. -/
structure Mailbox (α : Type*) where
  held : Option α := none
  out : List α := []

inductive MailOp (α : Type*)
  | put (x : α)
  | take

namespace Mailbox

def step (m : Mailbox α) : MailOp α → Mailbox α
  | .put x => { m with held := some x }
  | .take => { held := none, out := m.out ++ m.held.toList }

def all (m : Mailbox α) : List α := m.out ++ m.held.toList

def puts (ops : List (MailOp α)) : List α :=
  ops.filterMap fun
    | .put x => some x
    | .take => none

@[simp] theorem puts_nil : puts ([] : List (MailOp α)) = [] := rfl

theorem puts_append (xs ys : List (MailOp α)) : puts (xs ++ ys) = puts xs ++ puts ys :=
  List.filterMap_append

theorem all_take (m : Mailbox α) : (m.step .take).all = m.all := by
  simp [step, all]

theorem all_put (m : Mailbox α) (x : α) : (m.step (.put x)).all = m.out ++ [x] := rfl

theorem all_sublist {m : Mailbox α} {ops : List (MailOp α)} :
    (run step m ops).all.Sublist (m.all ++ puts ops) := by
  induction ops generalizing m with
  | nil =>
    rw [puts_nil, List.append_nil]
    exact .refl _
  | cons op ops ih =>
    rw [run_cons]
    apply ih.trans
    cases op with
    | take =>
      rw [all_take]
      exact .refl _
    | put x =>
      have hputs : puts (.put x :: ops) = [x] ++ puts ops := rfl
      rw [all_put, hputs, ← List.append_assoc]
      apply List.Sublist.append_right
      exact (List.sublist_append_left m.out _).append (.refl _)

def Free (m : Mailbox α) : MailOp α → Prop
  | .put _ => m.held = none
  | .take => True

theorem all_of_free {m : Mailbox α} {ops : List (MailOp α)} (h : Along step Free m ops) :
    (run step m ops).all = m.all ++ puts ops := by
  induction ops generalizing m with
  | nil =>
    rw [puts_nil, List.append_nil]
    rfl
  | cons op ops ih =>
    obtain ⟨hfree, hrest⟩ := h
    rw [run_cons, ih hrest]
    cases op with
    | take =>
      rw [all_take]
      rfl
    | put x =>
      have hempty : m.held = none := hfree
      have hall : m.all = m.out := by rw [all, hempty, Option.toList_none, List.append_nil]
      rw [all_put, hall, List.append_assoc]
      rfl

end Mailbox

end Machine
