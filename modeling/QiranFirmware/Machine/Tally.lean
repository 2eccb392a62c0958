import Mathlib.Algebra.BigOperators.Group.List.Basic
import Mathlib.Data.UInt

/-! # A counter that is looked at

A free-running counter counts events, and who looks at it now and then keeps what it showed. The looks
divide the events into spans. What a look tells by the difference to the last one is the events of its
span, as long as there are fewer of them than the counter has values.
-/
namespace Machine

/-- The events of each span that a look has ended, and those since the last look. -/
structure Tally where
  past : List ℕ := []
  now : ℕ := 0

namespace Tally

def total (t : Tally) : ℕ := t.past.sum + t.now

def bump (t : Tally) : Tally := { t with now := t.now + 1 }

def look (t : Tally) : Tally := { past := t.past ++ [t.now], now := 0 }

def busy (t : Tally) : ℕ := t.past.countP fun n => 0 < n

theorem sum_look (t : Tally) : t.look.past.sum = t.past.sum + t.now := by
  rw [look, List.sum_append, List.sum_singleton]

theorem busy_look (t : Tally) : t.look.busy = t.busy + if 0 < t.now then 1 else 0 := by
  rw [busy, look, List.countP_append, List.countP_singleton]
  simp only [decide_eq_true_eq]
  rfl

theorem total_look (t : Tally) : t.look.total = t.total := by
  rw [total, sum_look]
  rfl

theorem total_bump (t : Tally) : t.bump.total = t.total + 1 := rfl

structure Shown (t : Tally) (counter seen : UInt32) : Prop where
  counter : counter = UInt32.ofNat t.total
  seen : seen = UInt32.ofNat t.past.sum

variable {t : Tally} {counter seen : UInt32}

theorem shown_init : Shown {} 0 0 := ⟨rfl, rfl⟩

theorem Shown.bump (h : Shown t counter seen) : Shown t.bump (counter + 1) seen := by
  refine ⟨?_, h.seen⟩
  rw [h.counter, total_bump, UInt32.ofNat_add]
  rfl

theorem Shown.look (h : Shown t counter seen) : Shown t.look counter counter := by
  refine ⟨h.counter.trans (congrArg _ t.total_look.symm), ?_⟩
  rw [sum_look]
  exact h.counter

theorem Shown.sub (h : Shown t counter seen) (hlt : t.now < 2 ^ 32) :
    (counter - seen).toNat = t.now := by
  have hnow : counter - seen = UInt32.ofNat t.now := by
    rw [h.counter, h.seen, total, UInt32.ofNat_add]
    grind
  rw [hnow]
  exact UInt32.toNat_ofNat_of_lt' hlt

theorem Shown.ne_iff (h : Shown t counter seen) (hlt : t.now < 2 ^ 32) :
    counter ≠ seen ↔ 0 < t.now := by
  rw [← h.sub hlt, Nat.pos_iff_ne_zero, not_iff_not]
  constructor
  · rintro rfl
    rw [UInt32.sub_self]
    rfl
  · intro hzero
    have hsub : counter - seen = 0 := UInt32.toNat_inj.mp hzero
    grind

end Tally

end Machine
