import QiranFirmware.Svc.Ring

/-! # The serial receive interrupt

`plat_isr_uart.c` over the event queue of `plat_irq.c`. The interrupt moves the received bytes
into a ring and publishes one event that classifies what it saw; the loop drains the two at
different points of its cycle.
-/
namespace QiranFirmware

open Machine

structure IrqEvent where
  tick : UInt32 := 0
  datum : UInt32 := 0
  kind : UInt16 := 0
  seq : UInt16 := 0
  deriving DecidableEq, Repr

structure IrqSlot where
  q : SlotRing IrqEvent := { slot := fun _ => {}, mask := 7 }
  taken : UInt32 := 0
  dropped : UInt32 := 0
  seq : UInt16 := 0

namespace IrqSlot

/-- `irq_handler`, once the device has been acknowledged with `datum` and `kind`. -/
def publish (tick datum : UInt32) (kind : UInt16) (s : IrqSlot) : IrqSlot :=
  let s' := { s with taken := s.taken + 1, seq := s.seq + 1 }
  match s.q.push { tick, datum, kind, seq := s.seq } with
  | none => { s' with dropped := s.dropped + 1 }
  | some q => { s' with q }

def take (s : IrqSlot) : Option (IrqEvent × IrqSlot) :=
  match s.q.pop with
  | none => none
  | some (e, q) => some (e, { s with q })

def events (s : IrqSlot) : List IrqEvent := s.q.contents

theorem take_eq_none {s : IrqSlot} : s.take = none ↔ s.events = [] := by
  rw [events, ← SlotRing.pop_eq_none, take]
  cases s.q.pop <;> simp

theorem take_spec {s s' : IrqSlot} {e : IrqEvent} (h : s.q.Valid) (htake : s.take = some (e, s')) :
    s'.q.Valid ∧ s'.q.mask = s.q.mask ∧ s.events = e :: s'.events := by
  unfold take at htake
  cases hpop : s.q.pop with
  | none => simp [hpop] at htake
  | some p =>
    obtain ⟨a, q⟩ := p
    rw [hpop] at htake
    cases htake
    exact SlotRing.pop_spec h hpop

theorem publish_spec {s : IrqSlot} (h : s.q.Valid) (tick datum : UInt32) (kind : UInt16) :
    (s.publish tick datum kind).q.Valid ∧ (s.publish tick datum kind).q.mask = s.q.mask := by
  unfold publish
  cases hpush : s.q.push { tick, datum, kind, seq := s.seq } with
  | none => exact ⟨h, rfl⟩
  | some q =>
    obtain ⟨hvalid, hmask, -⟩ := SlotRing.push_spec h hpush
    exact ⟨hvalid, hmask⟩

/-- What is queued after a publication was queued before it or is of its kind. -/
theorem mem_publish {s : IrqSlot} (h : s.q.Valid) {tick datum : UInt32} {kind : UInt16}
    {e : IrqEvent} (he : e ∈ (s.publish tick datum kind).events) : e ∈ s.events ∨ e.kind = kind := by
  unfold publish at he
  cases hpush : s.q.push { tick, datum, kind, seq := s.seq } with
  | none =>
    rw [hpush] at he
    exact .inl he
  | some q =>
    rw [hpush] at he
    obtain ⟨-, -, hcontents⟩ := SlotRing.push_spec h hpush
    have he' : e ∈ q.contents := he
    rw [hcontents] at he'
    rcases List.mem_append.mp he' with hold | hnew
    · exact .inl hold
    · rw [List.mem_singleton.mp hnew]
      exact .inr rfl

theorem publish_of_full {s : IrqSlot} (h : s.q.mask < s.q.head - s.q.tail) (tick datum : UInt32)
    (kind : UInt16) : s.publish tick datum kind =
      { s with taken := s.taken + 1, dropped := s.dropped + 1, seq := s.seq + 1 } := by
  rw [publish, SlotRing.push, if_pos h]

theorem publish_of_room {s : IrqSlot} (h : s.q.Valid) (hroom : s.events.length ≤ s.q.mask.toNat)
    (tick datum : UInt32) (kind : UInt16) :
    (s.publish tick datum kind).events = s.events ++ [{ tick, datum, kind, seq := s.seq }] ∧
      (s.publish tick datum kind).dropped = s.dropped := by
  unfold publish
  cases hpush : s.q.push { tick, datum, kind, seq := s.seq } with
  | none =>
    have hfull : s.events.length = s.q.mask.toNat + 1 := (SlotRing.push_eq_none h).mp hpush
    omega
  | some q =>
    obtain ⟨-, -, hcontents⟩ := SlotRing.push_spec h hpush
    exact ⟨hcontents, rfl⟩

theorem take_dropped {s s' : IrqSlot} {e : IrqEvent} (h : s.take = some (e, s')) :
    s'.dropped = s.dropped := by
  unfold take at h
  cases hpop : s.q.pop with
  | none => simp [hpop] at h
  | some p =>
    rw [hpop] at h
    cases h
    rfl

end IrqSlot

def uartKindData : UInt16 := 0
def uartKindGap : UInt16 := 1
def uartKindError : UInt16 := 2

structure Uart where
  rx : Ring := { cells := { slot := fun _ => 0, mask := 255 } }
  irq : IrqSlot := {}

namespace Uart

/-- The drain that `uart_ack` hands to the device: the bytes it has received go into the ring. -/
def drain (bytes : List UInt8) (u : Uart) : Uart :=
  { u with rx := bytes.foldl (fun r b => (r.push b).2) u.rx }

def publish (tick datum : UInt32) (kind : UInt16) (u : Uart) : Uart :=
  { u with irq := u.irq.publish tick datum kind }

structure Valid (u : Uart) : Prop where
  rx : u.rx.cells.Valid
  rxMask : u.rx.cells.mask = 255
  irq : u.irq.q.Valid
  irqMask : u.irq.q.mask = 7

theorem Valid.events_lt {u : Uart} (h : u.Valid) : u.irq.events.length < 9 := by
  have hle := h.irq.count_le
  rw [h.irqMask] at hle
  rw [IrqSlot.events, SlotRing.length_contents]
  exact Nat.lt_succ_of_le hle

theorem Valid.contents_lt {u : Uart} (h : u.Valid) : u.rx.contents.length < 64 * 5 := by
  have hle := h.rx.count_le
  have hmask : u.rx.cells.mask.toNat = 255 := by rw [h.rxMask]; rfl
  rw [Ring.contents, SlotRing.length_contents]
  omega

theorem valid_init : Valid {} where
  rx := ⟨⟨8, by decide⟩, by decide⟩
  rxMask := rfl
  irq := ⟨⟨3, by decide⟩, by decide⟩
  irqMask := rfl

/-- Bytes that fit are all in the ring afterwards, in their order. -/
theorem drain_spec {u : Uart} (h : u.Valid) (bytes : List UInt8)
    (hroom : u.rx.contents.length + bytes.length ≤ 256) :
    (u.drain bytes).Valid ∧ (u.drain bytes).rx.contents = u.rx.contents ++ bytes := by
  induction bytes generalizing u with
  | nil => exact ⟨h, (List.append_nil _).symm⟩
  | cons b bytes ih =>
    have hmask : u.rx.cells.mask.toNat = 255 := by rw [h.rxMask]; rfl
    rw [List.length_cons] at hroom
    obtain ⟨hvalid, hsame, hpush⟩ := Ring.push_spec h.rx (by omega) b
    have hnext : Valid { u with rx := (u.rx.push b).2 } :=
      ⟨hvalid, hsame.trans h.rxMask, h.irq, h.irqMask⟩
    obtain ⟨hvalid', hrest⟩ := ih hnext (by rw [hpush, List.length_append]; simpa using by omega)
    refine ⟨hvalid', ?_⟩
    rw [hpush, List.append_assoc] at hrest
    exact hrest

theorem publish_valid {u : Uart} (h : u.Valid) (tick datum : UInt32) (kind : UInt16) :
    (u.publish tick datum kind).Valid := by
  obtain ⟨hvalid, hmask⟩ := IrqSlot.publish_spec h.irq tick datum kind
  exact ⟨h.rx, h.rxMask, hvalid, hmask.trans h.irqMask⟩

end Uart

end QiranFirmware
