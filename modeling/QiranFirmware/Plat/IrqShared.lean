import QiranFirmware.Machine.Parallel
import QiranFirmware.Machine.Succession
import QiranFirmware.Plat.IsrUart

/-! # An event queue between the interrupt and the loop

`irq_handler` and `plat_irq_take` of `plat_irq.c` one access at a time, on one source: the handler runs
for one interrupt after another, the loop takes, and their accesses come in any order. Beside the slot
stands what has happened to it: an interrupt is entered in the history where its event is published or
dropped, and an event is delivered where the tail moves past it. The sequence number and the count of
interrupts are the handler's alone, so each relates to the history between the handler's runs.
-/
namespace QiranFirmware

open Machine

/-- What the handler captures: the raw tick, and what the device's acknowledge answers. -/
structure Capture where
  tick : UInt32
  datum : UInt32
  kind : UInt16
  deriving DecidableEq, Repr

def Capture.event (c : Capture) (seq : UInt16) : IrqEvent :=
  { tick := c.tick, datum := c.datum, kind := c.kind, seq }

def IrqEvent.capture (e : IrqEvent) : Capture := ⟨e.tick, e.datum, e.kind⟩

structure SharedIrq extends IrqSlot where
  /-- The event of every interrupt, and whether the queue has accepted it. -/
  history : List (IrqEvent × Bool) := []
  delivered : List IrqEvent := []

inductive IrqSide
  | handler | loop
  deriving DecidableEq, Repr

namespace SharedIrq

abbrev Code (α : Type) := Prog SharedIrq Empty Unit α

def qMask : UInt32 := 7

def enter (taken : UInt32) (s : SharedIrq) : SharedIrq := { s with taken }

def drop (dropped : UInt32) (c : Capture) (s : SharedIrq) : SharedIrq :=
  { s with dropped, history := s.history ++ [(c.event s.seq, false)] }

def fill (head : UInt32) (f : IrqEvent → IrqEvent) (s : SharedIrq) : SharedIrq :=
  { s with q := { s.q with
      slot := Function.update s.q.slot (head &&& qMask).toNat (f (s.q.slot (head &&& qMask).toNat)) } }

def publish (head : UInt32) (c : Capture) (s : SharedIrq) : SharedIrq :=
  { s with q := { s.q with head }, history := s.history ++ [(c.event s.seq, true)] }

def number (seq : UInt16) (s : SharedIrq) : SharedIrq := { s with seq }

def release (tail : UInt32) (e : IrqEvent) (s : SharedIrq) : SharedIrq :=
  { s with q := { s.q with tail }, delivered := s.delivered ++ [e] }

def refuse (c : Capture) : Code Unit := do
  let dropped ← Prog.get fun s => s.dropped
  Prog.modify (drop (dropped + 1) c)

def accept (c : Capture) (head : UInt32) : Code Unit := do
  Prog.modify (fill head fun e => { e with tick := c.tick })
  Prog.modify (fill head fun e => { e with datum := c.datum })
  Prog.modify (fill head fun e => { e with kind := c.kind })
  let seq ← Prog.get fun s => s.seq
  Prog.modify (fill head fun e => { e with seq })
  Prog.modify (publish (head + 1) c)

/-- `irq_handler`, less its own timing. -/
def handler (c : Capture) : Code Unit := do
  let taken ← Prog.get fun s => s.taken
  Prog.modify (enter (taken + 1))
  let head ← Prog.get fun s => s.q.head
  let tail ← Prog.get fun s => s.q.tail
  (if qMask < head - tail then refuse c else accept c head : Code Unit)
  let seq ← Prog.get fun s => s.seq
  Prog.modify (number (seq + 1))

def take : Code (Option IrqEvent) := do
  let tail ← Prog.get fun s => s.q.tail
  let head ← Prog.get fun s => s.q.head
  if head = tail then
    return none
  else
    let tick ← Prog.get fun s => (s.q.slot (tail &&& qMask).toNat).tick
    let datum ← Prog.get fun s => (s.q.slot (tail &&& qMask).toNat).datum
    let kind ← Prog.get fun s => (s.q.slot (tail &&& qMask).toNat).kind
    let seq ← Prog.get fun s => (s.q.slot (tail &&& qMask).toNat).seq
    Prog.modify (release (tail + 1) { tick, datum, kind, seq })
    return some { tick, datum, kind, seq }

def pending (s : SharedIrq) : UInt32 := s.q.head - s.q.tail

def Call : IrqSide → Type
  | .handler => Capture
  | .loop => Unit

def Reply : IrqSide → Type
  | .handler => Unit
  | .loop => Option IrqEvent

def code : ∀ i, Call i → Code (Reply i)
  | .handler, c => handler c
  | .loop, _ => take

/-- A slot as `plat_irq_init` leaves it, but for where the indices and the sequence number stand. -/
def start (slot : ℕ → IrqEvent) (index : UInt32) (seq : UInt16) : SharedIrq :=
  { q := { slot, mask := qMask, head := index, tail := index }, seq }

/-- With nothing in between, the handler is the one of `IrqSlot`. -/
theorem handler_alone (c : Capture) {s : SharedIrq} (hmask : s.q.mask = qMask) :
    ((handler c).alone (fun c _ => c.elim) s).2.toIrqSlot =
      s.toIrqSlot.publish c.tick c.datum c.kind := by
  obtain ⟨⟨⟨slot, mask, head, tail⟩, taken, dropped, seq⟩, history, delivered⟩ := s
  obtain rfl : mask = qMask := hmask
  unfold handler IrqSlot.publish SlotRing.push
  by_cases hfull : qMask < head - tail
  · simp only [Prog.bind_def, Prog.alone_get, Prog.alone_modify, enter, if_pos hfull]
    rfl
  · simp only [Prog.bind_def, Prog.alone_get, Prog.alone_modify, enter, if_neg hfull]
    rw [Prog.alone_bind]
    simp only [accept, Prog.bind_def, Prog.alone_get, Prog.alone_modify, fill, Function.update_idem,
      Function.update_self]
    rfl

theorem take_alone {s : SharedIrq} (hmask : s.q.mask = qMask) :
    (take.alone (fun c _ => c.elim) s).1 = s.toIrqSlot.take.map Prod.fst ∧
      (take.alone (fun c _ => c.elim) s).2.toIrqSlot =
        (s.toIrqSlot.take.map Prod.snd).getD s.toIrqSlot := by
  obtain ⟨⟨⟨slot, mask, head, tail⟩, taken, dropped, seq⟩, history, delivered⟩ := s
  obtain rfl : mask = qMask := hmask
  unfold take IrqSlot.take SlotRing.pop
  by_cases hempty : head = tail
  · simp only [Prog.bind_def, Prog.alone_get, if_pos hempty]
    exact ⟨rfl, rfl⟩
  · simp only [Prog.bind_def, Prog.alone_get, if_neg hempty]
    exact ⟨rfl, rfl⟩

structure TailMoves (s t : SharedIrq) : Prop where
  head : t.q.head = s.q.head
  slot : t.q.slot = s.q.slot
  mask : t.q.mask = s.q.mask
  taken : t.taken = s.taken
  dropped : t.dropped = s.dropped
  seq : t.seq = s.seq
  history : t.history = s.history
  contents : t.q.contents <:+ s.q.contents

structure HeadMoves (s t : SharedIrq) : Prop where
  tail : t.q.tail = s.q.tail
  mask : t.q.mask = s.q.mask
  delivered : t.delivered = s.delivered
  contents : s.q.contents <+: t.q.contents

theorem TailMoves.refl (s : SharedIrq) : TailMoves s s :=
  ⟨rfl, rfl, rfl, rfl, rfl, rfl, rfl, List.suffix_rfl⟩

theorem TailMoves.trans {s t u : SharedIrq} (h : TailMoves s t) (k : TailMoves t u) : TailMoves s u :=
  ⟨k.head.trans h.head, k.slot.trans h.slot, k.mask.trans h.mask, k.taken.trans h.taken,
    k.dropped.trans h.dropped, k.seq.trans h.seq, k.history.trans h.history,
    k.contents.trans h.contents⟩

theorem HeadMoves.refl (s : SharedIrq) : HeadMoves s s := ⟨rfl, rfl, rfl, List.prefix_rfl⟩

theorem HeadMoves.trans {s t u : SharedIrq} (h : HeadMoves s t) (k : HeadMoves t u) : HeadMoves s u :=
  ⟨k.tail.trans h.tail, k.mask.trans h.mask, k.delivered.trans h.delivered,
    h.contents.trans k.contents⟩

def drops (history : List (IrqEvent × Bool)) : ℕ := history.countP fun e => !e.2

/-- What has been accepted has been delivered or is in the queue, and the events of a history carry
their places in it. -/
structure Intact (seq : UInt16) (s : SharedIrq) : Prop where
  valid : s.q.Valid
  mask_eq : s.q.mask = qMask
  fifo : kept s.history = s.delivered ++ s.q.contents
  dropped : s.dropped = UInt32.ofNat (drops s.history)
  numbered : Numbered (fun i => seq + UInt16.ofNat i) (fun e => e.1.seq) s.history

structure Counted (seq : UInt16) (s : SharedIrq) : Prop where
  taken : s.taken = UInt32.ofNat s.history.length
  seq : s.seq = seq + UInt16.ofNat s.history.length

variable {seq₀ : UInt16}

theorem Intact.enter {s : SharedIrq} (h : Intact seq₀ s) (taken : UInt32) :
    Intact seq₀ (s.enter taken) :=
  ⟨h.valid, h.mask_eq, h.fifo, h.dropped, h.numbered⟩

theorem Intact.number {s : SharedIrq} (h : Intact seq₀ s) (seq : UInt16) :
    Intact seq₀ (s.number seq) :=
  ⟨h.valid, h.mask_eq, h.fifo, h.dropped, h.numbered⟩

theorem Intact.drop {s : SharedIrq} (h : Intact seq₀ s)
    (hseq : s.seq = seq₀ + UInt16.ofNat s.history.length) (c : Capture) :
    Intact seq₀ (s.drop (s.dropped + 1) c) := by
  refine ⟨h.valid, h.mask_eq, ?_, ?_, h.numbered.concat hseq⟩
  · show kept (s.history ++ [(c.event s.seq, false)]) = _
    rw [kept_concat, if_neg Bool.false_ne_true, List.append_nil]
    exact h.fifo
  · show s.dropped + 1 = UInt32.ofNat (drops (s.history ++ [(c.event s.seq, false)]))
    rw [drops, List.countP_append, UInt32.ofNat_add, h.dropped]
    rfl

structure Filling (s₀ : SharedIrq) (e : IrqEvent) (s : SharedIrq) : Prop where
  head : s.q.head = s₀.q.head
  room : (s.q.head - s.q.tail).toNat ≤ s.q.mask.toNat
  cell : s.q.slot (s.q.head &&& s.q.mask).toNat = e
  taken : s.taken = s₀.taken
  seq : s.seq = s₀.seq
  history : s.history = s₀.history

/-- There is no less room once the loop has moved the tail. -/
theorem TailMoves.room {s t : SharedIrq} (h : TailMoves s t)
    (hroom : (s.q.head - s.q.tail).toNat ≤ s.q.mask.toNat) :
    (t.q.head - t.q.tail).toNat ≤ t.q.mask.toNat :=
  SlotRing.room_of_suffix h.mask h.contents hroom

theorem Filling.rely {s₀ s t : SharedIrq} {e : IrqEvent} (h : Filling s₀ e s) (k : TailMoves s t) :
    Filling s₀ e t where
  head := k.head.trans h.head
  room := k.room h.room
  cell := by
    rw [k.slot, k.head, k.mask]
    exact h.cell
  taken := k.taken.trans h.taken
  seq := k.seq.trans h.seq
  history := k.history.trans h.history

theorem Filling.contents_fill {s₀ s : SharedIrq} {e : IrqEvent} (h : Filling s₀ e s)
    (hs : Intact seq₀ s) (f : IrqEvent → IrqEvent) :
    (s.fill s₀.q.head f).q.contents = s.q.contents := by
  rw [← h.head, fill, ← hs.mask_eq]
  exact SlotRing.contents_write hs.valid h.room _

open Prog.Upholds

/-- The rule for writing one field. -/
theorem upholds_fill {α : Type} {Q : α → SharedIrq → Prop} {s₀ s : SharedIrq} {e : IrqEvent}
    {f : IrqEvent → IrqEvent} {g : Unit → Code α} (h : Filling s₀ e s)
    (k : ∀ t, Filling s₀ (f e) t → (g ()).Upholds TailMoves HeadMoves (Intact seq₀) Q t) :
    ((Prog.modify (fill s₀.q.head f)).bind g).Upholds TailMoves HeadMoves (Intact seq₀) Q s := by
  refine modify fun t ht hI => ?_
  have hfill := h.rely ht
  have hcontents := hfill.contents_fill hI f
  refine ⟨⟨rfl, rfl, rfl, hcontents ▸ List.prefix_rfl⟩, ?_, k _ ?_⟩
  · refine ⟨⟨hI.valid.pow, hI.valid.count_le⟩, hI.mask_eq, ?_, hI.dropped, hI.numbered⟩
    rw [hcontents]
    exact hI.fifo
  · refine ⟨hfill.head, hfill.room, ?_, hfill.taken, hfill.seq, hfill.history⟩
    rw [← hfill.cell, ← hfill.head, fill, ← hI.mask_eq]
    exact Function.update_self ..

structure Entered (c : Capture) (s t : SharedIrq) : Prop where
  history : ∃ accepted, t.history = s.history ++ [(c.event s.seq, accepted)]
  seq : t.seq = s.seq
  taken : t.taken = s.taken

theorem refuse_upholds (c : Capture) {s : SharedIrq}
    (hseq : s.seq = seq₀ + UInt16.ofNat s.history.length) :
    (refuse c).Upholds TailMoves HeadMoves (Intact seq₀) (fun _ t => Entered c s t) s := by
  -- the count of the drops is read and written
  refine get fun s₁ h₁ _ => modify fun s₂ h₂ hs₂ => ?_
  have hafter := h₁.trans h₂
  rw [← h₂.dropped]
  refine ⟨⟨rfl, rfl, rfl, List.prefix_rfl⟩, hs₂.drop ?_ c, fun t ht => ⟨⟨false, ?_⟩, ?_, ?_⟩⟩
  · rw [hafter.seq, hafter.history]
    exact hseq
  · rw [← hafter.history, ← hafter.seq]
    exact ht.history
  · exact ht.seq.trans hafter.seq
  · exact ht.taken.trans hafter.taken

theorem Filling.publish {s₀ s : SharedIrq} {c : Capture} (h : Filling s₀ (c.event s₀.seq) s)
    (hs : Intact seq₀ s) (hseq : s₀.seq = seq₀ + UInt16.ofNat s₀.history.length) :
    Intact seq₀ (s.publish (s₀.q.head + 1) c) ∧ HeadMoves s (s.publish (s₀.q.head + 1) c) := by
  have hcontents : (s.publish (s₀.q.head + 1) c).q.contents = s.q.contents ++ [c.event s.seq] := by
    rw [h.seq, ← h.cell, ← h.head]
    exact SlotRing.contents_publish hs.valid h.room
  refine ⟨⟨?_, hs.mask_eq, ?_, ?_, hs.numbered.concat ?_⟩, rfl, rfl, rfl, ?_⟩
  · rw [← h.head]
    exact hs.valid.publish h.room
  · show kept (s.history ++ [(c.event s.seq, true)]) = s.delivered ++ _
    rw [hcontents, kept_concat, if_pos rfl, hs.fifo, List.append_assoc]
  · show s.dropped = UInt32.ofNat (drops (s.history ++ [(c.event s.seq, true)]))
    rw [drops, List.countP_append, hs.dropped]
    rfl
  · show s.seq = _
    rw [h.seq, hseq, h.history]
  · rw [hcontents]
    exact List.prefix_append ..

theorem accept_upholds (c : Capture) {s : SharedIrq}
    (hroom : (s.q.head - s.q.tail).toNat ≤ s.q.mask.toNat)
    (hseq : s.seq = seq₀ + UInt16.ofNat s.history.length) :
    (accept c s.q.head).Upholds TailMoves HeadMoves (Intact seq₀) (fun _ t => Entered c s t) s := by
  have hstart : Filling s (s.q.slot (s.q.head &&& s.q.mask).toNat) s :=
    ⟨rfl, hroom, rfl, rfl, rfl, rfl⟩
  -- the cell, field by field
  refine upholds_fill hstart fun s₁ h₁ => upholds_fill h₁ fun s₂ h₂ => upholds_fill h₂ fun s₃ h₃ => ?_
  refine get fun s₄ hs₄ _ => ?_
  have h₄ := h₃.rely hs₄
  rw [h₄.seq]
  refine upholds_fill h₄ fun s₅ h₅ => ?_
  -- and then the head
  refine modify fun s₆ hs₆ hI => ?_
  have h₆ : Filling s (c.event s.seq) s₆ := h₅.rely hs₆
  obtain ⟨hintact, hmoves⟩ := h₆.publish hI hseq
  refine ⟨hmoves, hintact, fun t ht => ⟨⟨true, ?_⟩, ht.seq.trans h₆.seq, ht.taken.trans h₆.taken⟩⟩
  rw [← h₆.history, ← h₆.seq]
  exact ht.history

theorem handler_upholds (c : Capture) {s : SharedIrq} (h : Counted seq₀ s) :
    (handler c).Upholds TailMoves HeadMoves (Intact seq₀)
      (fun _ t => Counted seq₀ t ∧ t.history.map (fun e => e.1.capture) =
        s.history.map (fun e => e.1.capture) ++ [c]) s := by
  -- the count of the interrupts, then the head and the tail
  refine get fun s₁ h₁ _ => modify fun s₂ h₂ hs₂ => ?_
  have hbefore := h₁.trans h₂
  refine ⟨⟨rfl, rfl, rfl, List.prefix_rfl⟩, hs₂.enter _, ?_⟩
  refine get fun s₃ h₃ _ => get fun s₄ h₄ hs₄ => ?_
  have hseq : s₄.seq = s.seq := (h₄.seq.trans h₃.seq).trans hbefore.seq
  have hhistory : s₄.history = s.history := (h₄.history.trans h₃.history).trans hbefore.history
  have htaken : s₄.taken = s.taken + 1 := by
    rw [h₄.taken, h₃.taken, ← h₁.taken]
    rfl
  have hcount : s₄.seq = seq₀ + UInt16.ofNat s₄.history.length := by
    rw [hseq, hhistory]
    exact h.seq
  have hinsert : (if qMask < s₃.q.head - s₄.q.tail then refuse c else accept c s₃.q.head).Upholds
      TailMoves HeadMoves (Intact seq₀) (fun _ t => Entered c s₄ t) s₄ := by
    rw [← h₄.head]
    split
    · exact refuse_upholds c hcount
    · rename_i hroom
      apply accept_upholds c _ hcount
      rw [hs₄.mask_eq]
      exact Nat.not_lt.mp fun hlt => hroom (UInt32.lt_iff_toNat_lt.mpr hlt)
  refine bind TailMoves.refl (hinsert.mono fun _ t ht => ?_)
  -- the sequence number, whether or not there was room
  refine get fun s₅ h₅ _ => modify fun s₆ h₆ hs₆ => ?_
  have hafter := h₅.trans h₆
  refine ⟨⟨rfl, rfl, rfl, List.prefix_rfl⟩, hs₆.number _, fun u hu => ?_⟩
  obtain ⟨accepted, hentered⟩ := ht.history
  have hlast : u.history = s.history ++ [(c.event s₄.seq, accepted)] := by
    rw [hu.history, ← hhistory, ← hentered]
    exact hafter.history
  have hlength : u.history.length = s.history.length + 1 := by
    rw [hlast]
    exact List.length_append
  refine ⟨⟨?_, ?_⟩, ?_⟩
  · rw [hlength, UInt32.ofNat_add, ← h.taken, hu.taken]
    exact (hafter.taken.trans ht.taken).trans htaken
  · rw [hlength, UInt16.ofNat_add, ← UInt16.add_assoc, ← h.seq, hu.seq, ← hseq, ← ht.seq, ← h₅.seq]
    rfl
  · rw [hlast, List.map_append]
    rfl

structure Taking (s₀ : SharedIrq) (e : IrqEvent) (s : SharedIrq) : Prop where
  tail : s.q.tail = s₀.q.tail
  front : s.q.contents.head? = some e
  delivered : s.delivered = s₀.delivered

theorem Taking.rely {s₀ s t : SharedIrq} {e : IrqEvent} (h : Taking s₀ e s) (k : HeadMoves s t) :
    Taking s₀ e t := by
  refine ⟨k.tail.trans h.tail, ?_, k.delivered.trans h.delivered⟩
  obtain ⟨later, hlater⟩ := k.contents
  rw [← hlater, List.head?_append, h.front]
  rfl

/-- Its cell holds it, and the others come behind it. -/
theorem Taking.cell {s₀ s : SharedIrq} {e : IrqEvent} (h : Taking s₀ e s) (hs : Intact seq₀ s) :
    s.q.slot (s₀.q.tail &&& qMask).toNat = e ∧
      s.q.contents = e :: (s.release (s₀.q.tail + 1) e).q.contents ∧
      (s.release (s₀.q.tail + 1) e).q.Valid := by
  have hsome : s.q.contents ≠ [] := by
    intro he
    have hfront := h.front
    rw [he] at hfront
    cases hfront
  obtain ⟨hcontents, hvalid⟩ := SlotRing.contents_release hs.valid hsome
  have hcell : s.q.slot (s.q.tail &&& s.q.mask).toNat = e := by
    have hfront := h.front
    rw [hcontents] at hfront
    exact Option.some.inj hfront
  rw [hcell] at hcontents
  rw [← h.tail]
  refine ⟨?_, hcontents, hvalid⟩
  rw [← hs.mask_eq]
  exact hcell

/-- The rule for reading one field. -/
theorem upholds_field {α β : Type} {Q : α → SharedIrq → Prop} {s₀ s : SharedIrq} {e : IrqEvent}
    {field : IrqEvent → β} {g : β → Code α} (h : Taking s₀ e s)
    (k : ∀ t, Taking s₀ e t → (g (field e)).Upholds HeadMoves TailMoves (Intact seq₀) Q t) :
    ((Prog.get fun s => field (s.q.slot (s₀.q.tail &&& qMask).toNat)).bind g).Upholds
      HeadMoves TailMoves (Intact seq₀) Q s := by
  refine get fun t ht hI => ?_
  have htaking := h.rely ht
  rw [(htaking.cell hI).1]
  exact k t htaking

theorem take_upholds (s : SharedIrq) :
    take.Upholds HeadMoves TailMoves (Intact seq₀)
      (fun e t => t.delivered = s.delivered ++ e.toList) s := by
  -- the tail, and then the head
  refine get fun s₁ h₁ _ => get fun s₂ h₂ hs₂ => ?_
  split
  · intro t ht
    rw [((h₁.trans h₂).trans ht).delivered]
    exact (List.append_nil _).symm
  · rename_i hne
    obtain ⟨e, hfront⟩ : ∃ e, s₂.q.contents.head? = some e := by
      cases hcontents : s₂.q.contents with
      | cons e rest => exact ⟨e, rfl⟩
      | nil =>
        have hsame := SlotRing.contents_eq_nil.mp hcontents
        rw [h₂.tail] at hsame
        exact absurd hsame hne
    have hstart : Taking s₁ e s₂ := ⟨h₂.tail, hfront, h₂.delivered⟩
    -- the event, field by field
    refine upholds_field hstart fun s₃ h₃ => upholds_field h₃ fun s₄ h₄ => ?_
    refine upholds_field h₄ fun s₅ h₅ => upholds_field h₅ fun s₆ h₆ => ?_
    -- and then the tail
    refine modify fun s₇ h₇ hs₇ => ?_
    have hlast := h₆.rely h₇
    obtain ⟨-, hcontents, hvalid⟩ := hlast.cell hs₇
    refine ⟨⟨rfl, rfl, rfl, rfl, rfl, rfl, rfl, ?_⟩, ⟨hvalid, hs₇.mask_eq, ?_, hs₇.dropped,
      hs₇.numbered⟩, fun t ht => ?_⟩
    · rw [hcontents]
      exact List.suffix_cons ..
    · show kept s₇.history = (s₇.delivered ++ [e]) ++ _
      rw [hs₇.fifo, List.append_assoc, List.singleton_append]
      exact congrArg _ hcontents
    · show t.delivered = s.delivered ++ [e]
      rw [ht.delivered, ← h₁.delivered, ← hlast.delivered]
      rfl

def Rely : IrqSide → SharedIrq → SharedIrq → Prop
  | .handler => TailMoves
  | .loop => HeadMoves

def Guarantee : IrqSide → SharedIrq → SharedIrq → Prop
  | .handler => HeadMoves
  | .loop => TailMoves

def capturedBy (returns : List (Capture × Unit)) : List Capture := returns.map Prod.fst

def takenBy (returns : List (Unit × Option IrqEvent)) : List IrqEvent :=
  returns.flatMap fun r => r.2.toList

theorem capturedBy_concat (returns : List (Capture × Unit)) (r : Capture × Unit) :
    capturedBy (returns ++ [r]) = capturedBy returns ++ [r.1] :=
  List.map_append

theorem takenBy_concat (returns : List (Unit × Option IrqEvent)) (r : Unit × Option IrqEvent) :
    takenBy (returns ++ [r]) = takenBy returns ++ r.2.toList := by
  simp [takenBy]

/-- What a side knows between its calls: the handler, that its counters and the history say what it
has captured; the loop, that it has been handed what was delivered. -/
def Knows (seq : UInt16) : ∀ i, List (Call i × Reply i) → SharedIrq → Prop
  | .handler, returns, s =>
    Counted seq s ∧ s.history.map (fun e => e.1.capture) = capturedBy returns
  | .loop, returns, s => s.delivered = takenBy returns

theorem cooperation (seq : UInt16) :
    Cooperation Rely Guarantee (Intact seq) (Knows seq) code where
  refl := by
    rintro (_ | _) s
    · exact TailMoves.refl s
    · exact HeadMoves.refl s
  trans := by
    rintro (_ | _) s t u h k
    · exact TailMoves.trans h k
    · exact HeadMoves.trans h k
  guarantee := by
    rintro (_ | _) (_ | _) hne s t h
    · exact absurd rfl hne
    · exact h
    · exact h
    · exact absurd rfl hne
  rest := by
    rintro (_ | _) returns s t h hknows
    · obtain ⟨⟨htaken, hseq⟩, hcaptured⟩ := hknows
      rw [← h.history] at htaken hseq hcaptured
      exact ⟨⟨h.taken.trans htaken, h.seq.trans hseq⟩, hcaptured⟩
    · exact h.delivered.trans hknows
  calls := by
    rintro (_ | _) c returns s hknows
    · refine (handler_upholds c hknows.1).mono fun _ t ht => ⟨ht.1, ?_⟩
      rw [ht.2, hknows.2]
      exact (capturedBy_concat returns (c, ())).symm
    · refine (take_upholds s).mono fun e t ht => ?_
      have hdelivered : s.delivered = takenBy returns := hknows
      rw [hdelivered] at ht
      exact ht.trans (takenBy_concat returns (c, e)).symm

def reached (slot : ℕ → IrqEvent) (index : UInt32) (seq : UInt16)
    (turns : List (Threads.Turn Call)) : Threads SharedIrq Call Reply :=
  run (Threads.step code) { shared := start slot index seq } turns

theorem intact_start (slot : ℕ → IrqEvent) (index : UInt32) (seq : UInt16) :
    Intact seq (start slot index seq) := by
  have hcount : (index - index).toNat = 0 := by
    rw [UInt32.sub_self]
    rfl
  have hempty : (start slot index seq).q.contents = [] := SlotRing.contents_eq_nil.mpr rfl
  refine ⟨⟨⟨3, by decide, rfl⟩, hcount.trans_le (Nat.zero_le _)⟩, rfl, ?_, rfl, ?_⟩
  · rw [hempty]
    rfl
  · intro before x after h
    exact absurd h.symm (List.append_ne_nil_of_right_ne_nil _ (List.cons_ne_nil x after))

structure HandsOn (m : Threads SharedIrq Call Reply) : Prop where
  fifo : kept m.shared.history = m.shared.delivered ++ m.shared.q.contents
  taken : (m.thread .loop).running = none →
    m.shared.delivered = takenBy (m.thread .loop).returns
  captured : (m.thread .handler).running = none →
    m.shared.history.map (fun e => e.1.capture) = capturedBy (m.thread .handler).returns
  counted : (m.thread .handler).running = none →
    m.shared.taken = UInt32.ofNat (m.thread .handler).returns.length ∧
      m.shared.taken =
        UInt32.ofNat m.shared.delivered.length + m.shared.pending + m.shared.dropped
  dropped : m.shared.dropped = UInt32.ofNat (drops m.shared.history)
  unread : ∀ turn, m.shared.q.contents <+: (m.step code turn).shared.q.contents ∨
    (m.step code turn).shared.q.contents <:+ m.shared.q.contents
  gap : ∀ pre e e' post, m.shared.delivered = pre ++ e :: e' :: post →
    ∃ before lost after, m.shared.history = before ++ (e, true) :: (lost ++ (e', true) :: after) ∧
      kept before = pre ∧ (∀ x ∈ lost, x.2 = false) ∧
        e'.seq - e.seq = 1 + UInt16.ofNat lost.length

theorem length_kept (history : List (IrqEvent × Bool)) :
    history.length = (kept history).length + drops history := by
  rw [kept, List.length_map, drops, List.countP_eq_length_filter]
  exact List.length_eq_length_filter_add _

theorem Intact.counted {s : SharedIrq} (h : Intact seq₀ s)
    (htaken : s.taken = UInt32.ofNat s.history.length) :
    s.taken = UInt32.ofNat s.delivered.length + s.pending + s.dropped := by
  have hpending : UInt32.ofNat s.q.contents.length = s.pending := by
    rw [SlotRing.length_contents, UInt32.ofNat_toNat]
    rfl
  rw [htaken, length_kept, h.fifo, List.length_append, UInt32.ofNat_add, UInt32.ofNat_add, hpending,
    h.dropped]

/-- The sequence numbers of two events tell how far apart their interrupts were. -/
theorem Intact.gap {s : SharedIrq} (h : Intact seq₀ s) {before lost after : List (IrqEvent × Bool)}
    {e e' : IrqEvent} (hsplit : s.history = before ++ (e, true) :: (lost ++ (e', true) :: after)) :
    e'.seq - e.seq = 1 + UInt16.ofNat lost.length := by
  have hfirst : e.seq = seq₀ + UInt16.ofNat before.length := h.numbered before (e, true) _ hsplit
  have hsecond : e'.seq = seq₀ + UInt16.ofNat (before ++ (e, true) :: lost).length :=
    h.numbered (before ++ (e, true) :: lost) (e', true) after (by
      rw [hsplit, List.append_assoc]
      rfl)
  rw [List.length_append, List.length_cons, UInt16.ofNat_add, UInt16.ofNat_add] at hsecond
  rw [hfirst, hsecond]
  grind

/-- However the accesses of the interrupts and of the loop interleave. -/
theorem queue_handsOn (slot : ℕ → IrqEvent) (index : UInt32) (seq : UInt16)
    (turns : List (Threads.Turn Call)) : HandsOn (reached slot index seq turns) := by
  have hstart : ∀ i, Knows seq i [] (start slot index seq) := by
    rintro (_ | _)
    · exact ⟨⟨rfl, (UInt16.add_zero seq).symm⟩, rfl⟩
    · rfl
  have hkeeps := (cooperation seq).keeps_run (intact_start slot index seq) hstart turns
  have hmoves := (cooperation seq).moves_step hkeeps
  obtain ⟨hintact, hsafe⟩ := hkeeps
  change Intact seq (reached slot index seq turns).shared at hintact
  change ∀ i, ((reached slot index seq turns).thread i).Safe _ _ _ _
    (reached slot index seq turns).shared at hsafe
  change ∀ turn, ((reached slot index seq turns).step code turn).shared =
    (reached slot index seq turns).shared ∨ ∃ i, Guarantee i (reached slot index seq turns).shared
      ((reached slot index seq turns).step code turn).shared at hmoves
  generalize reached slot index seq turns = m at hintact hsafe hmoves ⊢
  have hknows (i : IrqSide) (hidle : (m.thread i).running = none) :
      Knows seq i (m.thread i).returns m.shared := by
    have hrest := hsafe i
    rwa [Thread.Safe, hidle] at hrest
  refine ⟨hintact.fifo, hknows .loop, fun hidle => (hknows .handler hidle).2, ?_,
    hintact.dropped, ?_, ?_⟩
  · intro hidle
    obtain ⟨⟨htaken, -⟩, hcaptured⟩ := hknows .handler hidle
    have hlength : m.shared.history.length = (m.thread .handler).returns.length :=
      calc m.shared.history.length
        _ = (m.shared.history.map fun e => e.1.capture).length := (List.length_map _).symm
        _ = (capturedBy (m.thread .handler).returns).length := congrArg List.length hcaptured
        _ = (m.thread .handler).returns.length := List.length_map _
    refine ⟨?_, hintact.counted htaken⟩
    rw [htaken, hlength]
  · intro turn
    rcases hmoves turn with hsame | ⟨_ | _, hmove⟩
    · rw [hsame]
      exact .inl List.prefix_rfl
    · exact .inl (HeadMoves.contents hmove)
    · exact .inr (TailMoves.contents hmove)
  · intro pre e e' post hdelivered
    have hkept : kept m.shared.history = pre ++ e :: e' :: (post ++ m.shared.q.contents) := by
      rw [hintact.fifo, hdelivered, List.append_assoc]
      rfl
    obtain ⟨before, lost, after, hsplit, hbefore, hlost⟩ := split_of_kept hkept
    exact ⟨before, lost, after, hsplit, hbefore, hlost, hintact.gap hsplit⟩

end SharedIrq

end QiranFirmware
