import Mathlib.Data.List.Basic

/-! # The greedy scan for windows

From left to right, a window of the given width that is a hit is taken and skipped, and a miss
advances by one element. An assembler that keeps the part of the input it has not decided yet is
correct when the scan of all input is what it has taken and then the scan of what it keeps, whatever
comes next.
-/
namespace Machine

variable {α : Type*} (hit : List α → Bool) (width : ℕ)

/-- The windows found, after the given number of elements still to be skipped. -/
def windows : ℕ → List α → List (List α)
  | _, [] => []
  | skip + 1, _ :: rest => windows skip rest
  | 0, x :: rest =>
    if hit ((x :: rest).take width) then (x :: rest).take width :: windows (width - 1) rest
    else windows 0 rest

variable {hit width}

theorem windows_skip (skip : ℕ) (xs : List α) :
    windows hit width skip xs = windows hit width 0 (xs.drop skip) := by
  induction skip generalizing xs with
  | zero => rfl
  | succ skip ih =>
    cases xs with
    | nil => rfl
    | cons x xs => rw [windows, ih, List.drop_succ_cons]

theorem windows_hit {w : List α} (hw : hit w = true) (hlength : w.length = width) (hpos : 0 < width)
    (rest : List α) : windows hit width 0 (w ++ rest) = w :: windows hit width 0 rest := by
  cases w with
  | nil => simp [← hlength] at hpos
  | cons x w =>
    have htake : (x :: (w ++ rest)).take width = x :: w := by
      rw [← List.cons_append, List.take_left' hlength]
    have hdrop : (w ++ rest).drop (width - 1) = rest := by
      rw [← hlength, List.length_cons, Nat.add_sub_cancel, List.drop_left]
    rw [List.cons_append, windows, htake, if_pos hw, windows_skip, hdrop]

theorem windows_miss {x : α} {xs : List α} (h : ¬ hit ((x :: xs).take width) = true) :
    windows hit width 0 (x :: xs) = windows hit width 0 xs := by
  rw [windows, if_neg h]

theorem windows_short (hfull : ∀ w, hit w = true → w.length = width) {xs : List α}
    (h : xs.length < width) : windows hit width 0 xs = [] := by
  induction xs with
  | nil => rfl
  | cons x xs ih =>
    have hmiss : ¬ hit ((x :: xs).take width) = true := by
      intro hhit
      have hlength := hfull _ hhit
      rw [List.length_take] at hlength
      omega
    rw [windows_miss hmiss]
    exact ih (Nat.lt_of_succ_lt h)

/-- Elements at which no window starts can be dropped from the front. -/
theorem windows_dropWhile {p : α → Bool}
    (hstart : ∀ x xs, p x = true → ¬ hit ((x :: xs).take width) = true) (xs rest : List α) :
    windows hit width 0 (xs.dropWhile p ++ rest) = windows hit width 0 (xs ++ rest) := by
  induction xs with
  | nil => rfl
  | cons x xs ih =>
    by_cases hx : p x = true
    · rw [List.dropWhile_cons_of_pos hx, ih, List.cons_append, windows_miss (hstart x _ hx)]
    · rw [List.dropWhile_cons_of_neg hx]

end Machine
