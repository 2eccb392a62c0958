import QiranFirmware.Comm.SpwLink
import Mathlib.Data.Finset.Card

/-! # The outbound queue

`comm_output.c`: sixteen descriptors, sent in the order of their class's priority. A descriptor
names a buffer; `β` is whatever names buffers, and what the buffers hold is an argument of the
service that reads them.
-/
namespace QiranFirmware

variable {β : Type}

structure OutputItem (β : Type) where
  data : β
  len : UInt32
  cls : CcsdsClass
  deriving DecidableEq, Repr

/-- An attempt to send a packet: the item it was built from, the packet as the link was given it,
and the link's answer. -/
structure OutputSend (β : Type) where
  item : OutputItem β
  packet : Buf
  written : UInt32
  status : Status

structure Output (β : Type) where
  slot : ℕ → Option (OutputItem β) := fun _ => none
  pending : UInt32 := 0
  highWater : UInt32 := 0
  submitted : UInt32 := 0
  sent : UInt32 := 0
  rejected : UInt32 := 0
  failed : UInt32 := 0
  packet : Buf := fun _ => 0

namespace Output

def priority : CcsdsClass → UInt8
  | .command => 3
  | .scienceRaw => 4
  | .scienceProcessed => 2
  | .health => 1
  | .event => 0
  | .file => 4

def depth : ℕ := 16
def packetBytes : UInt32 := 1024

def submit (cls : CcsdsClass) (data : β) (len : UInt32) (q : Output β) (v : Svc) :
    Status × Output β × Svc :=
  if len = 0 then (.errParam, q, v)
  else if packetBytes < len + Ccsds.primaryHeaderBytes + Ccsds.integrityBytes then (.errRange, q, v)
  else
    match (List.range depth).find? fun i => (q.slot i).isNone with
    | some i =>
      (.ok, { q with
        slot := Function.update q.slot i (some { data, len, cls })
        pending := q.pending + 1
        submitted := q.submitted + 1
        highWater := if q.highWater < q.pending + 1 then q.pending + 1 else q.highWater }, v)
    | none => (.errBusy, { q with rejected := q.rejected + 1 }, v.report .outputQueue cls.code)

/-- The body of the loop in `pick`, over the best index and priority so far. -/
def better (q : Output β) (best : Option ℕ × UInt8) (i : ℕ) : Option ℕ × UInt8 :=
  match q.slot i with
  | none => best
  | some item => if priority item.cls < best.2 then (some i, priority item.cls) else best

def pick (q : Output β) : Option ℕ := ((List.range depth).foldl (better q) (none, 0xFF)).1

/-- The statics that `comm_output_service` works on: the queue, the packet counts, the link and
the services. `sends` has no counterpart in the source: it lists the attempts made. -/
structure Pass (β : Type) where
  queue : Output β
  ccsds : Ccsds
  link : SpwLink
  v : Svc
  sends : List (OutputSend β) := []

/-- One turn of the loop in `comm_output_service`, and whether it goes on. The buffers hold `mem`
and the device answers `answer`. -/
def turn (mem : β → Buf) (answer : Status) (s : Pass β) : Bool × Pass β :=
  if !s.link.running then (false, s)
  else
    match s.queue.pick with
    | none => (false, s)
    | some i =>
      match s.queue.slot i with
      | none => (false, s)
      | some item =>
        let freed := { s.queue with
          slot := Function.update s.queue.slot i none
          pending := s.queue.pending - 1 }
        let (st, packet, written, ccsds) :=
          Ccsds.build item.cls (mem item.data) item.len s.queue.packet packetBytes s.ccsds
        if st ≠ .ok then
          (true, { s with
            queue := { freed with failed := s.queue.failed + 1, packet }
            ccsds
            v := s.v.report .outputQueue item.cls.code })
        else
          let (st, link, v) := s.link.send answer written s.v
          let sends := s.sends ++ [{ item, packet, written, status := st }]
          if st ≠ .ok then
            (false, { queue := { s.queue with packet }, ccsds, link, v, sends })
          else
            (true, { queue := { freed with sent := s.queue.sent + 1, packet }, ccsds, link, v, sends })

def loop (mem : β → Buf) (answers : ℕ → Status) : ℕ → Pass β → Pass β
  | 0, s => s
  | fuel + 1, s =>
    match turn mem (answers s.sends.length) s with
    | (true, s) => loop mem answers fuel s
    | (false, s) => s

/-- `comm_output_service`. Every turn that goes on frees a slot, so one turn more than there are
slots is always enough. -/
def service (mem : β → Buf) (answers : ℕ → Status) (s : Pass β) : Pass β :=
  loop mem answers (depth + 1) s

theorem submit_cases (cls : CcsdsClass) (data : β) (len : UInt32) (q : Output β) (v : Svc) :
    ((submit cls data len q v).1 ≠ .ok ∧ (submit cls data len q v).2.1.slot = q.slot) ∨
    (submit cls data len q v).1 = .ok ∧ (submit cls data len q v).2.2 = v ∧
      ∃ i < depth, q.slot i = none ∧
        (submit cls data len q v).2.1.slot = Function.update q.slot i (some ⟨data, len, cls⟩) := by
  unfold submit
  split
  · exact .inl ⟨by simp, rfl⟩
  split
  · exact .inl ⟨by simp, rfl⟩
  split
  · rename_i i hfind
    obtain ⟨hfree, hrange⟩ := And.intro (List.find?_some hfind) (List.mem_of_find?_eq_some hfind)
    exact .inr ⟨rfl, rfl, i, List.mem_range.mp hrange, Option.isNone_iff_eq_none.mp hfree, rfl⟩
  · exact .inl ⟨by simp, rfl⟩

/-- What holds of every used slot still does after one of them has been written. -/
theorem forall_slot_update {P : ℕ → OutputItem β → Prop} {q q' : Output β}
    (h : ∀ i item, q.slot i = some item → P i item) {k : ℕ} {x : Option (OutputItem β)}
    (hx : ∀ item, x = some item → P k item) (hslot : q'.slot = Function.update q.slot k x) (i : ℕ)
    (item : OutputItem β) (hi : q'.slot i = some item) : P i item := by
  rw [hslot] at hi
  by_cases hik : i = k
  · subst hik
    rw [Function.update_self] at hi
    exact hx item hi
  · rw [Function.update_of_ne hik] at hi
    exact h i item hi

/-- The best slot so far is a used one among those scanned. -/
theorem better_spec (q : Output β) (is : List ℕ) (best : Option ℕ × UInt8)
    (hbest : ∀ i, best.1 = some i → (q.slot i).isSome = true) {i : ℕ}
    (h : (is.foldl (better q) best).1 = some i) :
    (q.slot i).isSome = true ∧ (best.1 = some i ∨ i ∈ is) := by
  induction is generalizing best with
  | nil => exact ⟨hbest i h, .inl h⟩
  | cons j is ih =>
    have hnext : ∀ i, (better q best j).1 = some i →
        (q.slot i).isSome = true ∧ (best.1 = some i ∨ i = j) := by
      intro i hi
      unfold better at hi
      split at hi
      · exact ⟨hbest i hi, .inl hi⟩
      · rename_i item hitem
        split at hi
        · obtain rfl := Option.some.inj hi
          exact ⟨by simp [hitem], .inr rfl⟩
        · exact ⟨hbest i hi, .inl hi⟩
    obtain ⟨hused, hwhere⟩ := ih (better q best j) (fun i hi => (hnext i hi).1) h
    refine ⟨hused, ?_⟩
    rcases hwhere with hi | hi
    · rcases (hnext i hi).2 with hold | rfl
      · exact .inl hold
      · exact .inr List.mem_cons_self
    · exact .inr (List.mem_cons_of_mem j hi)

theorem pick_spec {q : Output β} {i : ℕ} (h : q.pick = some i) :
    i < depth ∧ ∃ item, q.slot i = some item := by
  obtain ⟨hused, hi⟩ := better_spec q (List.range depth) (none, 0xFF) (by simp) h
  refine ⟨List.mem_range.mp (hi.resolve_left (by simp)), ?_⟩
  exact Option.isSome_iff_exists.mp hused

/-- What one turn does: it stops with nothing tried, or drops an item that cannot be built, or
sends one. -/
theorem turn_cases (mem : β → Buf) (answer : Status) (s : Pass β) :
    turn mem answer s = (false, s) ∨
    ∃ i item st packet written ccsds, s.link.running = true ∧ s.queue.pick = some i ∧
      s.queue.slot i = some item ∧
      Ccsds.build item.cls (mem item.data) item.len s.queue.packet packetBytes s.ccsds =
        (st, packet, written, ccsds) ∧
      ((st ≠ .ok ∧ (turn mem answer s).1 = true ∧
          (turn mem answer s).2.queue.slot = Function.update s.queue.slot i none ∧
          (turn mem answer s).2.ccsds = ccsds ∧ (turn mem answer s).2.sends = s.sends) ∨
        st = .ok ∧ ∃ status link v, s.link.send answer written s.v = (status, link, v) ∧
          (turn mem answer s).1 = decide (status = .ok) ∧
          (turn mem answer s).2.queue.slot =
            (if status = .ok then Function.update s.queue.slot i none else s.queue.slot) ∧
          (turn mem answer s).2.ccsds = ccsds ∧
          (turn mem answer s).2.sends = s.sends ++ [⟨item, packet, written, status⟩]) := by
  by_cases hrun : s.link.running = true
  swap
  · exact .inl (by simp [turn, hrun])
  cases hpick : s.queue.pick with
  | none => exact .inl (by simp [turn, hrun, hpick])
  | some i =>
    obtain ⟨-, item, hitem⟩ := pick_spec hpick
    obtain ⟨⟨st, packet, written, ccsds⟩, hbuild⟩ : ∃ r, Ccsds.build item.cls (mem item.data)
        item.len s.queue.packet packetBytes s.ccsds = r := ⟨_, rfl⟩
    refine .inr ⟨i, item, st, packet, written, ccsds, hrun, rfl, hitem, hbuild, ?_⟩
    by_cases hst : st = .ok
    · obtain ⟨⟨status, link, v⟩, hsend⟩ : ∃ r, s.link.send answer written s.v = r := ⟨_, rfl⟩
      refine .inr ⟨hst, status, link, v, hsend, ?_⟩
      by_cases hok : status = .ok
      · simp [turn, hrun, hpick, hitem, hbuild, hst, hsend, hok]
      · simp [turn, hrun, hpick, hitem, hbuild, hst, hsend, hok]
    · refine .inl ⟨hst, ?_⟩
      simp [turn, hrun, hpick, hitem, hbuild, hst]

def used (q : Output β) : ℕ := ((Finset.range depth).filter fun i => (q.slot i).isSome).card

def queued (q : Output β) : List (OutputItem β) := (List.range depth).filterMap q.slot

theorem length_queued (q : Output β) : q.queued.length = used q := by
  rw [queued, List.length_filterMap_eq_countP, used, Finset.card_def, Finset.filter_val,
    ← Multiset.countP_eq_card_filter, Finset.range_val, Multiset.range, Multiset.coe_countP]
  simp

/-- An item put in a free slot joins the others. -/
theorem queued_fill {q q' : Output β} {k : ℕ} {x : OutputItem β} (hk : k < depth)
    (hfree : q.slot k = none) (hslot : q'.slot = Function.update q.slot k (some x)) :
    q'.queued.Perm (x :: q.queued) := by
  have hrange : (List.range depth).Perm (k :: (List.range depth).erase k) :=
    List.perm_cons_erase (List.mem_range.mpr hk)
  have hothers : ((List.range depth).erase k).filterMap q'.slot =
      ((List.range depth).erase k).filterMap q.slot := by
    refine List.filterMap_congr ?_
    intro i hi
    have hne : i ≠ k := (List.nodup_range.mem_erase_iff.mp hi).1
    rw [hslot, Function.update_of_ne hne]
  have hafter := hrange.filterMap q'.slot
  have hbefore := hrange.filterMap q.slot
  rw [List.filterMap_cons_some (by rw [hslot, Function.update_self]), hothers] at hafter
  rw [List.filterMap_cons_none hfree] at hbefore
  exact hafter.trans (hbefore.symm.cons x)

/-- An item that leaves its slot leaves the others. -/
theorem queued_free {q q' : Output β} {k : ℕ} {x : OutputItem β} (hk : k < depth)
    (hitem : q.slot k = some x) (hslot : q'.slot = Function.update q.slot k none) :
    q.queued.Perm (x :: q'.queued) := by
  refine queued_fill hk (by rw [hslot, Function.update_self]) ?_
  rw [hslot, Function.update_idem, ← hitem, Function.update_eq_self]

theorem used_le (q : Output β) : used q ≤ depth :=
  (Finset.card_filter_le _ _).trans (Finset.card_range depth).le

theorem used_free {q q' : Output β} {i : ℕ} (hi : i < depth) (hused : (q.slot i).isSome = true)
    (h : q'.slot = Function.update q.slot i none) : used q' < used q := by
  refine Finset.card_lt_card ((Finset.ssubset_iff_of_subset ?_).mpr ⟨i, ?_, ?_⟩)
  · intro j hj
    obtain ⟨hrange, hsome⟩ := Finset.mem_filter.mp hj
    refine Finset.mem_filter.mpr ⟨hrange, ?_⟩
    by_cases hji : j = i
    · simp [h, hji] at hsome
    · simpa [h, hji] using hsome
  · exact Finset.mem_filter.mpr ⟨Finset.mem_range.mpr hi, hused⟩
  · simp [h]

theorem used_turn {mem : β → Buf} {answer : Status} {s : Pass β}
    (h : (turn mem answer s).1 = true) : used (turn mem answer s).2.queue < used s.queue := by
  rcases turn_cases mem answer s with
    hstop | ⟨i, item, st, packet, written, ccsds, -, hpick, hitem, -, hcases⟩
  · simp [hstop] at h
  · have hi := (pick_spec hpick).1
    have hused : (s.queue.slot i).isSome = true := by simp [hitem]
    rcases hcases with ⟨-, -, hslot, -⟩ | ⟨-, status, link, v, -, hgo, hslot, -⟩
    · exact used_free hi hused hslot
    · rw [hgo] at h
      rw [if_pos (of_decide_eq_true h)] at hslot
      exact used_free hi hused hslot

/-- More turns than there are used slots change nothing: the loop has stopped by itself. -/
theorem loop_enough (mem : β → Buf) (answers : ℕ → Status) {fuel : ℕ} (more : ℕ) {s : Pass β}
    (h : used s.queue < fuel) : loop mem answers (fuel + more) s = loop mem answers fuel s := by
  induction fuel generalizing s with
  | zero => exact absurd h (Nat.not_lt_zero _)
  | succ fuel ih =>
    rw [Nat.succ_add]
    simp only [loop]
    split
    · rename_i s' heq
      have hless : used s'.queue < used s.queue := by
        have hturn := used_turn (congrArg Prod.fst heq)
        rwa [heq] at hturn
      exact ih (by omega)
    · rfl

theorem service_enough (mem : β → Buf) (answers : ℕ → Status) (more : ℕ) (s : Pass β) :
    loop mem answers (depth + 1 + more) s = service mem answers s :=
  loop_enough mem answers more (Nat.lt_succ_of_le (used_le s.queue))

theorem loop_invariant {mem : β → Buf} {answers : ℕ → Status} {inv : Pass β → Prop}
    (hturn : ∀ s, inv s → inv (turn mem (answers s.sends.length) s).2) (fuel : ℕ) {s : Pass β}
    (hs : inv s) : inv (loop mem answers fuel s) := by
  induction fuel generalizing s with
  | zero => exact hs
  | succ fuel ih =>
    have hnext := hturn s hs
    unfold loop
    split
    · rename_i s' heq
      rw [heq] at hnext
      exact ih hnext
    · rename_i s' heq
      rw [heq] at hnext
      exact hnext

end Output

end QiranFirmware
