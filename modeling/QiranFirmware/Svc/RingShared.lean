import QiranFirmware.Machine.Parallel
import QiranFirmware.Svc.Ring

/-! # The byte ring between two threads

The functions of `svc_ring.c` one access of an index or a cell at a time, by a producer and a consumer
whose accesses come in any order. Beside the ring stands what has happened to it: a byte is accepted when
the head moves past it, and taken when the tail does. The mask is never written, and is read along with
an index or a cell.
-/
namespace QiranFirmware

open Machine

structure SharedRing extends Ring where
  accepted : List UInt8 := []
  /-- The bytes refused, each with how many unread the producer has seen. -/
  refused : List (UInt8 × UInt32) := []
  taken : List UInt8 := []

inductive Side
  | producer | consumer
  deriving DecidableEq, Repr

inductive TakeCall
  | pop
  | read (max : ℕ)
  deriving DecidableEq, Repr

namespace SharedRing

abbrev Code (α : Type) := Prog SharedRing Empty Unit α

def count (s : SharedRing) : UInt32 := s.cells.head - s.cells.tail

def free (s : SharedRing) : UInt32 := (s.cells.mask + 1) - (s.cells.head - s.cells.tail)

def drop (n : UInt32) (b : UInt8) (seen : UInt32) (s : SharedRing) : SharedRing :=
  { s with dropped := n, refused := s.refused ++ [(b, seen)] }

def store (head : UInt32) (b : UInt8) (s : SharedRing) : SharedRing :=
  { s with cells := { s.cells with slot := Function.update s.cells.slot (head &&& s.cells.mask).toNat b } }

def publish (head : UInt32) (b : UInt8) (s : SharedRing) : SharedRing :=
  { s with cells := { s.cells with head }, accepted := s.accepted ++ [b] }

def release (tail : UInt32) (b : UInt8) (s : SharedRing) : SharedRing :=
  { s with cells := { s.cells with tail }, taken := s.taken ++ [b] }

def push (b : UInt8) : Code Bool := do
  let head ← Prog.get fun s => s.cells.head
  let (tail, mask) ← Prog.get fun s => (s.cells.tail, s.cells.mask)
  if mask < head - tail then
    let dropped ← Prog.get fun s => s.dropped
    Prog.modify (drop (dropped + 1) b (head - tail))
    return false
  else
    Prog.modify (store head b)
    Prog.modify (publish (head + 1) b)
    return true

def pop : Code (Option UInt8) := do
  let tail ← Prog.get fun s => s.cells.tail
  let head ← Prog.get fun s => s.cells.head
  if head = tail then
    return none
  else
    let b ← Prog.get fun s => s.cells.slot (tail &&& s.cells.mask).toNat
    Prog.modify (release (tail + 1) b)
    return some b

def read : ℕ → Code (List UInt8)
  | 0 => return []
  | max + 1 => do
    match ← pop with
    | none => return []
    | some b =>
      let rest ← read max
      return b :: rest

/-- What a thread calls, and what it gets back: whether a byte has been accepted, or the bytes taken. -/
def Call : Side → Type
  | .producer => UInt8
  | .consumer => TakeCall

def Reply : Side → Type
  | .producer => Bool
  | .consumer => List UInt8

def code : ∀ i, Call i → Code (Reply i)
  | .producer, b => push b
  | .consumer, .pop => do return (← pop).toList
  | .consumer, .read max => read max

/-- A ring of `2 ^ k` cells as `svc_ring_init` leaves it, but for where the indices stand. -/
def start (k : ℕ) (slot : ℕ → UInt8) (index : UInt32) : SharedRing :=
  { cells := { slot, mask := UInt32.ofNat (2 ^ k - 1), head := index, tail := index } }

theorem toNat_mask {k : ℕ} (hk : k ≤ 31) : (UInt32.ofNat (2 ^ k - 1)).toNat + 1 = 2 ^ k := by
  have hpos := Nat.two_pow_pos k
  have hpow : 2 ^ k ≤ 2 ^ 31 := Nat.pow_le_pow_right (by decide) hk
  rw [UInt32.toNat_ofNat_of_lt' (by simp only [UInt32.size]; omega)]
  omega

/-- What a ring starts as is what `svc_ring_init` makes of a capacity that it accepts. -/
theorem init_eq_start {slot : ℕ → UInt8} {capacity : UInt32} {r : Ring}
    (h : (Ring.init slot capacity r).1 = .ok) :
    ∃ k ≤ 31, capacity.toNat = 2 ^ k ∧ (Ring.init slot capacity r).2 = (start k slot 0).toRing := by
  obtain ⟨k, hk, hcapacity⟩ := Ring.init_ok_iff.mp h
  have hmask : capacity - 1 = UInt32.ofNat (2 ^ k - 1) := by
    apply UInt32.toNat_inj.mp
    have hpos := Nat.two_pow_pos k
    have hle : (1 : UInt32) ≤ capacity := UInt32.le_iff_toNat_le.mpr (by simp; omega)
    have hlast := toNat_mask hk
    rw [UInt32.toNat_sub_of_le _ _ hle, UInt32.toNat_one]
    omega
  refine ⟨k, hk, hcapacity, ?_⟩
  rw [Ring.init_of_ok h, hmask]
  rfl

/-- With nothing in between, a push is the one of `Ring`. -/
theorem push_alone (b : UInt8) (s : SharedRing) :
    ((push b).alone (fun c _ => c.elim) s).1 = (s.toRing.push b).1 ∧
      ((push b).alone (fun c _ => c.elim) s).2.toRing = (s.toRing.push b).2 := by
  unfold push Ring.push SlotRing.push
  by_cases hfull : s.cells.mask < s.cells.head - s.cells.tail
  · simp only [Prog.bind_def, Prog.alone_get, if_pos hfull]
    exact ⟨rfl, rfl⟩
  · simp only [Prog.bind_def, Prog.alone_get, if_neg hfull]
    exact ⟨rfl, rfl⟩

theorem pop_alone (s : SharedRing) :
    pop.alone (fun c _ => c.elim) s =
      match s.cells.pop with
      | none => (none, s)
      | some (b, cells) => (some b, { s with cells, taken := s.taken ++ [b] }) := by
  unfold pop SlotRing.pop
  by_cases hempty : s.cells.head = s.cells.tail
  · simp only [Prog.bind_def, Prog.alone_get, if_pos hempty]
    rfl
  · simp only [Prog.bind_def, Prog.alone_get, if_neg hempty]
    rfl

/-- With nothing in between, a read is the one of `Ring`. -/
theorem read_alone (max : ℕ) (s : SharedRing) :
    ((read max).alone (fun c _ => c.elim) s).1 = (s.toRing.read max).1 ∧
      ((read max).alone (fun c _ => c.elim) s).2.toRing = (s.toRing.read max).2 := by
  induction max generalizing s with
  | zero => exact ⟨rfl, rfl⟩
  | succ max ih =>
    rw [read, Prog.bind_def, Prog.alone_bind, pop_alone, Ring.read]
    cases hpop : s.cells.pop with
    | none => exact ⟨rfl, rfl⟩
    | some taken =>
      obtain ⟨b, cells⟩ := taken
      obtain ⟨hread, hleft⟩ := ih { s with cells, taken := s.taken ++ [b] }
      simp only [Prog.bind_def, Prog.alone_bind]
      exact ⟨congrArg (b :: ·) hread, hleft⟩

structure TailMoves (s t : SharedRing) : Prop where
  head : t.cells.head = s.cells.head
  slot : t.cells.slot = s.cells.slot
  mask : t.cells.mask = s.cells.mask
  dropped : t.dropped = s.dropped
  accepted : t.accepted = s.accepted
  refused : t.refused = s.refused
  contents : t.contents <:+ s.contents

structure HeadMoves (s t : SharedRing) : Prop where
  tail : t.cells.tail = s.cells.tail
  mask : t.cells.mask = s.cells.mask
  taken : t.taken = s.taken
  contents : s.contents <+: t.contents

theorem TailMoves.refl (s : SharedRing) : TailMoves s s :=
  ⟨rfl, rfl, rfl, rfl, rfl, rfl, List.suffix_rfl⟩

theorem TailMoves.trans {s t u : SharedRing} (h : TailMoves s t) (k : TailMoves t u) : TailMoves s u :=
  ⟨k.head.trans h.head, k.slot.trans h.slot, k.mask.trans h.mask, k.dropped.trans h.dropped,
    k.accepted.trans h.accepted, k.refused.trans h.refused, k.contents.trans h.contents⟩

theorem HeadMoves.refl (s : SharedRing) : HeadMoves s s := ⟨rfl, rfl, rfl, List.prefix_rfl⟩

theorem HeadMoves.trans {s t u : SharedRing} (h : HeadMoves s t) (k : HeadMoves t u) : HeadMoves s u :=
  ⟨k.tail.trans h.tail, k.mask.trans h.mask, k.taken.trans h.taken, h.contents.trans k.contents⟩

/-- What has been accepted has been taken or is in the ring, and whoever was refused has seen it full. -/
structure Intact (mask : UInt32) (s : SharedRing) : Prop where
  valid : s.cells.Valid
  mask_eq : s.cells.mask = mask
  fifo : s.accepted = s.taken ++ s.contents
  dropped : s.dropped = UInt32.ofNat s.refused.length
  refused : ∀ e ∈ s.refused, e.2.toNat = mask.toNat + 1

variable {mask : UInt32}

theorem length_contents (s : SharedRing) : s.contents.length = (s.cells.head - s.cells.tail).toNat :=
  SlotRing.length_contents _

/-- There is no less room once the consumer has moved the tail. -/
theorem TailMoves.room {s t : SharedRing} (h : TailMoves s t)
    (hroom : (s.cells.head - s.cells.tail).toNat ≤ s.cells.mask.toNat) :
    (t.cells.head - t.cells.tail).toNat ≤ t.cells.mask.toNat :=
  SlotRing.room_of_suffix h.mask h.contents hroom

theorem Intact.drop {s : SharedRing} (h : Intact mask s) (b : UInt8) {seen : UInt32}
    (hseen : seen.toNat = mask.toNat + 1) : Intact mask (s.drop (s.dropped + 1) b seen) := by
  refine ⟨h.valid, h.mask_eq, h.fifo, ?_, ?_⟩
  · have hlength : (s.drop (s.dropped + 1) b seen).refused.length = s.refused.length + 1 :=
      List.length_append
    rw [hlength, UInt32.ofNat_add, ← h.dropped]
    rfl
  · intro e he
    rcases List.mem_append.mp he with he | he
    · exact h.refused e he
    · rw [List.mem_singleton.mp he]
      exact hseen

theorem contents_store {s : SharedRing} (h : Intact mask s)
    (hroom : (s.cells.head - s.cells.tail).toNat ≤ s.cells.mask.toNat) (b : UInt8) :
    (s.store s.cells.head b).contents = s.contents := SlotRing.contents_write h.valid hroom b

theorem Intact.store {s : SharedRing} (h : Intact mask s)
    (hroom : (s.cells.head - s.cells.tail).toNat ≤ s.cells.mask.toNat) (b : UInt8) :
    Intact mask (s.store s.cells.head b) := by
  refine ⟨⟨h.valid.pow, h.valid.count_le⟩, h.mask_eq, ?_, h.dropped, h.refused⟩
  rw [contents_store h hroom]
  exact h.fifo

theorem contents_publish {s : SharedRing} (h : Intact mask s)
    (hroom : (s.cells.head - s.cells.tail).toNat ≤ s.cells.mask.toNat) {b : UInt8}
    (hcell : s.cells.slot (s.cells.head &&& s.cells.mask).toNat = b) :
    (s.publish (s.cells.head + 1) b).contents = s.contents ++ [b] := by
  rw [← hcell]
  exact SlotRing.contents_publish h.valid hroom

theorem Intact.publish {s : SharedRing} (h : Intact mask s)
    (hroom : (s.cells.head - s.cells.tail).toNat ≤ s.cells.mask.toNat) {b : UInt8}
    (hcell : s.cells.slot (s.cells.head &&& s.cells.mask).toNat = b) :
    Intact mask (s.publish (s.cells.head + 1) b) := by
  refine ⟨h.valid.publish hroom, h.mask_eq, ?_, h.dropped, h.refused⟩
  rw [contents_publish h hroom hcell]
  show s.accepted ++ [b] = s.taken ++ (s.contents ++ [b])
  rw [h.fifo, List.append_assoc]

/-- Moving the tail on takes the first of the unread bytes, which its cell holds. -/
theorem contents_release {s : SharedRing} (h : Intact mask s) (hsome : s.contents ≠ []) :
    s.contents = s.cells.slot (s.cells.tail &&& s.cells.mask).toNat ::
      (s.release (s.cells.tail + 1) (s.cells.slot (s.cells.tail &&& s.cells.mask).toNat)).contents ∧
    SlotRing.Valid (s.release (s.cells.tail + 1)
      (s.cells.slot (s.cells.tail &&& s.cells.mask).toNat)).cells :=
  SlotRing.contents_release h.valid hsome

theorem Intact.release {s : SharedRing} (h : Intact mask s) {b : UInt8} (hfirst : s.contents.head? = some b) :
    Intact mask (s.release (s.cells.tail + 1) b) ∧
      s.contents = b :: (s.release (s.cells.tail + 1) b).contents := by
  have hsome : s.contents ≠ [] := by
    intro he
    rw [he] at hfirst
    cases hfirst
  obtain ⟨hcontents, hvalid⟩ := contents_release h hsome
  obtain rfl : s.cells.slot (s.cells.tail &&& s.cells.mask).toNat = b := by
    rw [hcontents] at hfirst
    exact Option.some.inj hfirst
  refine ⟨⟨hvalid, h.mask_eq, ?_, h.dropped, h.refused⟩, hcontents⟩
  show s.accepted = (s.taken ++ [_]) ++ _
  rw [h.fifo, List.append_assoc, List.singleton_append, ← hcontents]

open Prog.Upholds

theorem push_upholds (b : UInt8) (s : SharedRing) :
    (push b).Upholds TailMoves HeadMoves (Intact mask)
      (fun pushed t => t.accepted = s.accepted ++ (if pushed then [b] else []) ∧
        t.refused.map Prod.fst = s.refused.map Prod.fst ++ (if pushed then [] else [b])) s := by
  -- the head, and then the tail
  refine get fun s₁ h₁ hs₁ => get fun s₂ h₂ hs₂ => ?_
  change Prog.Upholds _ _ _ _ (if s₂.cells.mask < s₁.cells.head - s₂.cells.tail then _ else _) s₂
  rw [← h₂.head]
  split
  · rename_i hfull
    have hseen : (s₂.cells.head - s₂.cells.tail).toNat = mask.toNat + 1 := by
      have hle := hs₂.valid.count_le
      have hlt := UInt32.lt_iff_toNat_lt.mp hfull
      rw [← hs₂.mask_eq]
      omega
    -- the count of the bytes dropped is read and written
    refine get fun s₃ h₃ hs₃ => modify fun s₄ h₄ hs₄ => ?_
    have hafter := ((h₁.trans h₂).trans h₃).trans h₄
    rw [← h₄.dropped]
    refine ⟨⟨rfl, rfl, rfl, List.prefix_rfl⟩, hs₄.drop b hseen, fun t ht => ⟨?_, ?_⟩⟩
    · rw [ht.accepted, if_neg Bool.false_ne_true, List.append_nil]
      exact hafter.accepted
    · rw [ht.refused, if_neg Bool.false_ne_true, ← hafter.refused]
      exact List.map_append
  · rename_i hroom
    have hroom := Nat.not_lt.mp fun h => hroom (UInt32.lt_iff_toNat_lt.mpr h)
    -- the cell, and then the head
    refine modify fun s₃ h₃ hs₃ => ?_
    have hroom₃ := h₃.room hroom
    rw [← h₃.head]
    refine ⟨⟨rfl, rfl, rfl, ?_⟩, hs₃.store hroom₃ b, ?_⟩
    · exact (contents_store hs₃ hroom₃ b).symm ▸ List.prefix_rfl
    refine modify fun s₄ h₄ hs₄ => ?_
    have hroom₄ := h₄.room hroom₃
    have hcell : s₄.cells.slot (s₄.cells.head &&& s₄.cells.mask).toNat = b := by
      rw [h₄.slot, h₄.head, h₄.mask]
      exact Function.update_self ..
    have hhead : s₃.cells.head = s₄.cells.head := h₄.head.symm
    have haccepted : s₄.accepted = s.accepted := h₄.accepted.trans ((h₁.trans h₂).trans h₃).accepted
    have hrefused : s₄.refused = s.refused := h₄.refused.trans ((h₁.trans h₂).trans h₃).refused
    rw [hhead]
    refine ⟨⟨rfl, rfl, rfl, ?_⟩, hs₄.publish hroom₄ hcell, fun t ht => ⟨?_, ?_⟩⟩
    · rw [contents_publish hs₄ hroom₄ hcell]
      exact List.prefix_append ..
    · rw [ht.accepted, if_pos rfl, ← haccepted]
      rfl
    · rw [ht.refused, if_pos rfl, List.append_nil, ← hrefused]
      rfl

theorem pop_upholds (s : SharedRing) :
    pop.Upholds HeadMoves TailMoves (Intact mask) (fun b t => t.taken = s.taken ++ b.toList) s := by
  -- the tail, and then the head
  refine get fun s₁ h₁ hs₁ => get fun s₂ h₂ hs₂ => ?_
  rw [← h₂.tail]
  split
  · intro t ht
    rw [((h₁.trans h₂).trans ht).taken]
    exact (List.append_nil _).symm
  · rename_i hne
    have hsome : s₂.contents ≠ [] := by
      intro he
      apply hne
      exact SlotRing.contents_eq_nil.mp he
    -- the cell, and then the tail
    refine get fun s₃ h₃ hs₃ => ?_
    rw [← h₃.tail]
    have hsome₃ : s₃.contents ≠ [] := fun he => hsome (List.prefix_nil.mp (he ▸ h₃.contents))
    obtain ⟨hcontents, -⟩ := contents_release hs₃ hsome₃
    generalize s₃.cells.slot (s₃.cells.tail &&& s₃.cells.mask).toNat = b at hcontents ⊢
    refine modify fun s₄ h₄ hs₄ => ?_
    have hfirst : s₄.contents.head? = some b := by
      obtain ⟨later, hlater⟩ := h₄.contents
      rw [← hlater, hcontents]
      rfl
    obtain ⟨hintact, hrest⟩ := hs₄.release hfirst
    rw [← h₄.tail]
    refine ⟨⟨rfl, rfl, rfl, rfl, rfl, rfl, ?_⟩, hintact, fun t ht => ?_⟩
    · rw [hrest]
      exact List.suffix_cons ..
    · show t.taken = s.taken ++ [b]
      rw [ht.taken, ← (((h₁.trans h₂).trans h₃).trans h₄).taken]
      rfl

theorem read_upholds (max : ℕ) (s : SharedRing) :
    (read max).Upholds HeadMoves TailMoves (Intact mask) (fun bs t => t.taken = s.taken ++ bs) s := by
  induction max generalizing s with
  | zero =>
    intro t ht
    rw [ht.taken, List.append_nil]
  | succ max ih =>
    refine bind HeadMoves.refl ((pop_upholds s).mono fun b t ht => ?_)
    cases b with
    | none =>
      intro u hu
      rw [hu.taken]
      exact ht
    | some b =>
      refine bind HeadMoves.refl ((ih t).mono fun rest u hu => ?_)
      intro v hv
      rw [hv.taken, hu, ht]
      exact List.append_assoc ..

def Rely : Side → SharedRing → SharedRing → Prop
  | .producer => TailMoves
  | .consumer => HeadMoves

def Guarantee : Side → SharedRing → SharedRing → Prop
  | .producer => HeadMoves
  | .consumer => TailMoves

def acceptedBy (returns : List (UInt8 × Bool)) : List UInt8 := (returns.filter fun e => e.2).map Prod.fst

def refusedBy (returns : List (UInt8 × Bool)) : List UInt8 := (returns.filter fun e => !e.2).map Prod.fst

def takenBy (returns : List (TakeCall × List UInt8)) : List UInt8 := returns.flatMap Prod.snd

/-- What a thread knows between calls: what it was told has happened, and nothing else of its doing. -/
def Knows : ∀ i, List (Call i × Reply i) → SharedRing → Prop
  | .producer, returns, s => s.accepted = acceptedBy returns ∧ s.refused.map Prod.fst = refusedBy returns
  | .consumer, returns, s => s.taken = takenBy returns

theorem acceptedBy_concat (returns : List (UInt8 × Bool)) (b : UInt8) (pushed : Bool) :
    acceptedBy (returns ++ [(b, pushed)]) = acceptedBy returns ++ if pushed then [b] else [] := by
  unfold acceptedBy
  cases pushed with
  | true => simp
  | false => simp

theorem refusedBy_concat (returns : List (UInt8 × Bool)) (b : UInt8) (pushed : Bool) :
    refusedBy (returns ++ [(b, pushed)]) = refusedBy returns ++ if pushed then [] else [b] := by
  unfold refusedBy
  cases pushed with
  | true => simp
  | false => simp

theorem takenBy_concat (returns : List (TakeCall × List UInt8)) (c : TakeCall) (bs : List UInt8) :
    takenBy (returns ++ [(c, bs)]) = takenBy returns ++ bs := by simp [takenBy]

theorem cooperation (mask : UInt32) : Cooperation Rely Guarantee (Intact mask) Knows code where
  refl := by
    rintro (_ | _) s
    · exact TailMoves.refl s
    · exact HeadMoves.refl s
  trans := by
    rintro (_ | _) s t u h k
    · exact TailMoves.trans h k
    · exact HeadMoves.trans h k
  guarantee := by
    rintro (_ | _) (_ | _) hne s t h
    · exact absurd rfl hne
    · exact h
    · exact h
    · exact absurd rfl hne
  rest := by
    rintro (_ | _) returns s t h hknows
    · exact ⟨h.accepted.trans hknows.1, (congrArg _ h.refused).trans hknows.2⟩
    · exact h.taken.trans hknows
  calls := by
    rintro (_ | _) c returns s hknows
    · refine (push_upholds c s).mono ?_
      rintro pushed t ⟨haccepted, hrefused⟩
      refine ⟨?_, ?_⟩
      · rw [haccepted, hknows.1]
        exact (acceptedBy_concat ..).symm
      · rw [hrefused, hknows.2]
        exact (refusedBy_concat ..).symm
    · have hread {bs : List UInt8} {t : SharedRing} (ht : t.taken = s.taken ++ bs) :
          Knows .consumer (returns ++ [(c, show Reply .consumer from bs)]) t := by
        have hknows : s.taken = takenBy returns := hknows
        rw [hknows] at ht
        exact ht.trans (takenBy_concat ..).symm
      cases c with
      | pop =>
        refine bind HeadMoves.refl ((pop_upholds s).mono fun b t ht => ?_)
        intro u hu
        exact hread (hu.taken.trans ht)
      | read max => exact (read_upholds max s).mono fun bs t ht => hread ht

def reached (k : ℕ) (slot : ℕ → UInt8) (index : UInt32) (turns : List (Threads.Turn Call)) :
    Threads SharedRing Call Reply :=
  run (Threads.step code) { shared := start k slot index } turns

theorem intact_start {k : ℕ} (hk : k ≤ 31) (slot : ℕ → UInt8) (index : UInt32) :
    Intact (UInt32.ofNat (2 ^ k - 1)) (start k slot index) := by
  have hcount : (index - index).toNat = 0 := by
    rw [UInt32.sub_self]
    rfl
  have hempty : (start k slot index).contents = [] := SlotRing.contents_eq_nil.mpr rfl
  refine ⟨⟨⟨k, by omega, toNat_mask hk⟩, ?_⟩, rfl, ?_, rfl, by simp [start]⟩
  · exact hcount.trans_le (Nat.zero_le _)
  · rw [hempty]
    rfl

structure HandsOn (k : ℕ) (m : Threads SharedRing Call Reply) : Prop where
  fifo : m.shared.accepted = m.shared.taken ++ m.shared.contents
  refused : ∀ e ∈ m.shared.refused, e.2.toNat = 2 ^ k
  count_le : m.shared.count.toNat ≤ 2 ^ k
  count_add_free : m.shared.count.toNat + m.shared.free.toNat = 2 ^ k
  dropped : m.shared.dropped = UInt32.ofNat m.shared.refused.length
  pushed : (m.thread .producer).running = none →
    m.shared.accepted = acceptedBy (m.thread .producer).returns ∧
      m.shared.refused.map Prod.fst = refusedBy (m.thread .producer).returns
  attempted : (m.thread .producer).running = none →
    m.shared.accepted.length + m.shared.refused.length = (m.thread .producer).returns.length ∧
      UInt32.ofNat m.shared.accepted.length + m.shared.dropped =
        UInt32.ofNat (m.thread .producer).returns.length
  popped : (m.thread .consumer).running = none → m.shared.taken = takenBy (m.thread .consumer).returns

theorem length_acceptedBy (returns : List (UInt8 × Bool)) :
    (acceptedBy returns).length + (refusedBy returns).length = returns.length := by
  rw [acceptedBy, refusedBy, List.length_map, List.length_map]
  exact (List.length_eq_length_filter_add _).symm

theorem Intact.count_add_free {s : SharedRing} (h : Intact mask s) :
    s.count.toNat ≤ mask.toNat + 1 ∧ s.count.toNat + s.free.toNat = mask.toNat + 1 := by
  have hcount : s.count.toNat ≤ mask.toNat + 1 := by
    rw [← h.mask_eq]
    exact h.valid.count_le
  have hcapacity : (s.cells.mask + 1).toNat = mask.toNat + 1 := by
    have hle := SlotRing.capacity_le h.valid
    rw [h.mask_eq] at hle ⊢
    rw [UInt32.toNat_add, UInt32.toNat_one, Nat.mod_eq_of_lt (by omega)]
  refine ⟨hcount, ?_⟩
  have hfree : s.free.toNat = (mask.toNat + 1) - s.count.toNat := by
    rw [← hcapacity]
    exact UInt32.toNat_sub_of_le _ _ (UInt32.le_iff_toNat_le.mpr (hcapacity ▸ hcount))
  omega

def alternating (b : UInt8) : List (Threads.Turn Call) :=
  Threads.Turn.call Side.producer b :: Threads.Turn.call Side.consumer TakeCall.pop ::
    (List.replicate 5 [Threads.Turn.access Side.producer, Threads.Turn.access Side.consumer]).flatten

end SharedRing

end QiranFirmware
