import QiranFirmware.Data.StorageDdr

/-! # Ownership is enforced on every access

A call changes the region that it names and no other, and only when it names the region's owner.
That one region's contents are not another's rests on the platform, which gives each its own range
of the memory.
-/
namespace QiranFirmware

namespace Buf

theorem bytes_overlay_apart (buf : Buf) {xs : List UInt8} {off off' len : UInt32}
    (hend : off.toNat + xs.length ≤ 2 ^ 32) (hend' : off'.toNat + len.toNat ≤ 2 ^ 32)
    (h : off.toNat + xs.length ≤ off'.toNat ∨ off'.toNat + len.toNat ≤ off.toNat) :
    (buf.overlay off xs).bytes off' len = buf.bytes off' len := by
  refine bytes_congr fun i hi => if_neg ?_
  have hoff := off.toNat_lt
  rw [UInt32.toNat_sub, UInt32.toNat_add]
  omega

theorem overlay_shift (buf : Buf) (b off : UInt32) (xs : List UInt8) :
    (fun i => buf.overlay (b + off) xs (b + i)) = overlay (fun i => buf (b + i)) off xs := by
  funext i
  have hsub : b + i - (b + off) = i - off := by grind
  simp only [overlay, hsub]

/-- What is written at the end of a range is read at the end of what was there. -/
theorem bytes_overlay_at (buf : Buf) (b : UInt32) {xs : List UInt8} {off len : UInt32}
    (hlen : len.toNat = off.toNat + xs.length) :
    (buf.overlay (b + off) xs).bytes b len = buf.bytes b off ++ xs := by
  rw [← bytes_shift, overlay_shift, bytes_overlay _ _ hlen, bytes_shift]

end Buf

namespace Ddr

open Machine

def Apart (base bytes base' bytes' : UInt32) : Prop :=
  base.toNat + bytes.toNat ≤ base'.toNat ∨ base'.toNat + bytes'.toNat ≤ base.toNat

/-- The range that a region comes to be given is memory, and none of it is another region's. -/
def Sited (s : Ddr) : DdrOp → Prop
  | .setRegion region base bytes =>
    (s.setRegion region base bytes).1 = .ok → base.toNat + bytes.toNat ≤ 2 ^ 32 ∧
      ∀ r, DdrRegion.ofCode region ≠ some r →
        Apart base bytes (s.region r).base (s.region r).capacity
  | .handoff .. | .clear .. | .append .. | .setUsed .. | .read .. => True

structure Mapped (s : Ddr) : Prop where
  bounded : s.Bounded
  ends : ∀ r, (s.region r).base.toNat + (s.region r).capacity.toNat ≤ 2 ^ 32
  apart : ∀ r r', r ≠ r' → Apart (s.region r).base (s.region r).capacity (s.region r').base
    (s.region r').capacity

theorem Apart.symm {base bytes base' bytes' : UInt32} (h : Apart base bytes base' bytes') :
    Apart base' bytes' base bytes :=
  Or.symm h

theorem mapped_init : Mapped {} := by
  refine ⟨fun _ => UInt32.le_refl _, fun _ => Nat.zero_le _, ?_⟩
  intro r r' _
  exact .inl (Nat.le_refl 0)

/-- Only `storage_ddr_set_region` moves a region. -/
theorem Done.placed {s : Ddr} {r : DdrRegion} {op : DdrOp} {x : Region} {memory : Buf}
    (h : Done s r op x memory) :
    (x.base = (s.region r).base ∧ x.capacity = (s.region r).capacity) ∨
      ∃ region base bytes, op = .setRegion region base bytes ∧ DdrRegion.ofCode region = some r ∧
        x.base = base ∧ x.capacity = bytes := by
  cases h with
  | setRegion hr => exact .inr ⟨_, _, _, rfl, hr, rfl, rfl⟩
  | handoff => exact .inl ⟨rfl, rfl⟩
  | clear => exact .inl ⟨rfl, rfl⟩
  | append => exact .inl ⟨rfl, rfl⟩
  | setUsed => exact .inl ⟨rfl, rfl⟩
  | read => exact .inl ⟨rfl, rfl⟩

theorem Mapped.put {s : Ddr} (h : s.Mapped) {r : DdrRegion} {x : Region} (hused : x.used ≤ x.capacity)
    (hend : x.base.toNat + x.capacity.toNat ≤ 2 ^ 32)
    (hapart : ∀ r', r' ≠ r → Apart x.base x.capacity (s.region r').base (s.region r').capacity)
    {s' : Ddr} (hregion : s'.region = Function.update s.region r x) : s'.Mapped := by
  refine ⟨?_, ?_, ?_⟩
  · intro r'
    rw [hregion]
    by_cases hr : r' = r
    · rw [hr, Function.update_self]
      exact hused
    · rw [Function.update_of_ne hr]
      exact h.bounded r'
  · intro r'
    rw [hregion]
    by_cases hr : r' = r
    · rw [hr, Function.update_self]
      exact hend
    · rw [Function.update_of_ne hr]
      exact h.ends r'
  · intro r₁ r₂ hne
    rw [hregion]
    by_cases h₁ : r₁ = r
    · subst h₁
      rw [Function.update_self, Function.update_of_ne (Ne.symm hne)]
      exact hapart r₂ (Ne.symm hne)
    · rw [Function.update_of_ne h₁]
      by_cases h₂ : r₂ = r
      · subst h₂
        rw [Function.update_self]
        exact (hapart r₁ h₁).symm
      · rw [Function.update_of_ne h₂]
        exact h.apart r₁ r₂ hne

theorem mapped_call {s : Ddr} (h : s.Mapped) (v : Svc) {op : DdrOp} (hop : s.Sited op) :
    (s.call v op).2.1.Mapped := by
  have heffect := call_effect h.bounded v op
  generalize s.call v op = c at heffect
  obtain ⟨st, s', v'⟩ := c
  cases heffect with
  | refused => exact h
  | disputed => exact ⟨h.bounded, h.ends, h.apart⟩
  | overfull => exact ⟨h.bounded, h.ends, h.apart⟩
  | @done r x memory hdone handoffs =>
    have hok := call_of_done v hdone
    refine h.put (hdone.bounded h.bounded) ?_ ?_ rfl
    · rcases hdone.placed with ⟨hbase, hcapacity⟩ | ⟨region, base, bytes, rfl, -, rfl, rfl⟩
      · rw [hbase, hcapacity]
        exact h.ends r
      · exact (hop hok).1
    · intro r' hne
      rcases hdone.placed with ⟨hbase, hcapacity⟩ | ⟨region, base, bytes, rfl, hr, rfl, rfl⟩
      · rw [hbase, hcapacity]
        exact h.apart r r' (Ne.symm hne)
      · refine (hop hok).2 r' ?_
        rw [hr]
        exact fun heq => hne (Option.some.inj heq).symm

/-- The memory of another region is left alone. -/
theorem Done.frame {s : Ddr} (hs : s.Mapped) {r r' : DdrRegion} {op : DdrOp} {x : Region} {memory : Buf}
    (h : Done s r op x memory) (hne : r' ≠ r) :
    memory.bytes (s.region r').base (s.region r').used = s.contents r' := by
  cases h with
  | setRegion => rfl
  | handoff => rfl
  | clear => rfl
  | setUsed => rfl
  | read => rfl
  | @append region owner len data hheld hlen hroom =>
    obtain ⟨hend, -⟩ := room_of_append (hs.bounded r) hroom
    have hused := UInt32.le_iff_toNat_le.mp (hs.bounded r')
    have hcap := hs.ends r
    have hcap' := hs.ends r'
    have hbase := (s.region r).base.toNat_lt
    have hat : ((s.region r).base + (s.region r).used).toNat =
        (s.region r).base.toNat + (s.region r).used.toNat := by
      have hpos : len.toNat ≠ 0 := fun hzero => hlen (UInt32.toNat_inj.mp hzero)
      rw [UInt32.toNat_add]
      omega
    refine Buf.bytes_overlay_apart _ ?_ (by omega) ?_
    · rw [hat, Buf.length_bytes]
      omega
    · rw [hat, Buf.length_bytes]
      rcases hs.apart r r' (Ne.symm hne) with hbelow | habove
      · left
        omega
      · right
        omega

def Changed (s s' : Ddr) (r : DdrRegion) : Prop :=
  s'.region r ≠ s.region r ∨ s'.contents r ≠ s.contents r

def Permitted (s : Ddr) (op : DdrOp) (r : DdrRegion) : Prop :=
  op.owner = some (s.region r).owner.code ∨ op.owner = none ∧ (s.region r).owner = .none

theorem Done.permitted {s : Ddr} {r : DdrRegion} {op : DdrOp} {x : Region} {memory : Buf}
    (h : Done s r op x memory) : DdrRegion.ofCode op.region = some r ∧ s.Permitted op r := by
  cases h with
  | setRegion hr hbase hbytes hfree => exact ⟨hr, .inr ⟨rfl, hfree⟩⟩
  | handoff hheld => exact ⟨hheld.region, .inl (congrArg some hheld.owner.symm)⟩
  | clear hr howner => exact ⟨hr, .inl (congrArg some howner.symm)⟩
  | append hheld => exact ⟨hheld.region, .inl (congrArg some hheld.owner.symm)⟩
  | setUsed hheld => exact ⟨hheld.region, .inl (congrArg some hheld.owner.symm)⟩
  | read hheld => exact ⟨hheld.region, .inl (congrArg some hheld.owner.symm)⟩

/-- A call that succeeds is permitted, and leaves the other regions where they are, whose they are and
as far used as they were. -/
theorem succeeds_permitted {s : Ddr} (hs : s.Bounded) {v : Svc} {op : DdrOp}
    (hok : (s.call v op).1 = .ok) : ∃ r, DdrRegion.ofCode op.region = some r ∧ s.Permitted op r ∧
      ∀ r', r' ≠ r → (s.call v op).2.1.region r' = s.region r' := by
  obtain ⟨r, x, memory, handoffs, hdone, hafter⟩ := done_of_ok hs hok
  obtain ⟨hr, hpermitted⟩ := hdone.permitted
  refine ⟨r, hr, hpermitted, ?_⟩
  intro r' hne
  rw [hafter]
  exact Function.update_of_ne hne ..

/-- With the regions apart in the memory it changes nothing of another. -/
theorem others_unchanged {s : Ddr} (hs : s.Mapped) {v : Svc} {op : DdrOp} (hok : (s.call v op).1 = .ok)
    {r' : DdrRegion} (hother : DdrRegion.ofCode op.region ≠ some r') :
    ¬ Changed s (s.call v op).2.1 r' := by
  obtain ⟨r, x, memory, handoffs, hdone, hafter⟩ := done_of_ok hs.bounded hok
  have hne : r' ≠ r := by
    rintro rfl
    exact hother hdone.permitted.1
  rw [hafter]
  rintro (hregion | hcontents)
  · exact hregion (Function.update_of_ne hne ..)
  · refine hcontents ?_
    rw [contents]
    dsimp only
    rw [Function.update_of_ne hne]
    exact hdone.frame hs hne

/-- A call that fails changes no region, and is counted for what it failed for. -/
theorem fails_counted {s : Ddr} (hs : s.Bounded) {v : Svc} {op : DdrOp} (hfail : (s.call v op).1 ≠ .ok) :
    (s.call v op).2.1.region = s.region ∧ (s.call v op).2.1.memory = s.memory ∧
      (s.Disputed op → (s.call v op).2.1.violations = s.violations + 1 ∧
        (s.call v op).2.1.overruns = s.overruns) ∧
      (s.Overfull op → (s.call v op).2.1.violations = s.violations ∧
        (s.call v op).2.1.overruns = s.overruns + 1) ∧
      (¬ s.Disputed op → ¬ s.Overfull op → ¬ s.ClearsUnset op →
        (s.call v op).2.1.violations = s.violations ∧ (s.call v op).2.1.overruns = s.overruns) := by
  have heffect := call_effect hs v op
  generalize s.call v op = c at heffect hfail
  obtain ⟨st, s', v'⟩ := c
  dsimp only at heffect hfail ⊢
  have hapart : s.Disputed op → ¬ s.Overfull op := by
    rintro hdisputed ⟨-, r, owner, howner, hheld, -⟩
    exact not_disputed_of_held howner hheld hdisputed
  have hunset : s.ClearsUnset op → ¬ s.Overfull op := by
    rintro ⟨region, expected, r, rfl, -⟩ ⟨-, r', owner, -, -, hlt⟩
    exact absurd hlt (Nat.not_lt_zero _)
  cases heffect with
  | done => exact absurd rfl hfail
  | refused hst hquiet =>
    refine ⟨rfl, rfl, ?_, ?_, fun _ _ _ => ⟨rfl, rfl⟩⟩
    · exact fun h => absurd (.inl h) hquiet
    · exact fun h => absurd (.inr h) hquiet
  | disputed h =>
    refine ⟨rfl, rfl, fun _ => ⟨rfl, rfl⟩, ?_, ?_⟩
    · exact fun hover => absurd hover (h.elim hapart hunset)
    · exact fun hnot _ hset => absurd h (not_or.mpr ⟨hnot, hset⟩)
  | overfull h =>
    refine ⟨rfl, rfl, ?_, fun _ => ⟨rfl, rfl⟩, ?_⟩
    · exact fun hdisputed => absurd h (hapart hdisputed)
    · exact fun _ hnot => absurd h hnot

def appendedBy (r : DdrRegion) (s : Ddr × Svc) : DdrOp → List UInt8
  | .append region owner (some data) len =>
    if DdrRegion.ofCode region = some r ∧
        (s.1.call s.2 (.append region owner (some data) len)).1 = .ok then data.bytes 0 len
    else []
  | .append _ _ none _ | .setRegion .. | .handoff .. | .clear .. | .setUsed .. | .read .. => []

def appended (r : DdrRegion) : Ddr × Svc → List DdrOp → List UInt8
  | _, [] => []
  | s, op :: ops => appendedBy r s op ++ appended r (step s op) ops

def Appending (r : DdrRegion) (s : Ddr × Svc) (op : DdrOp) : Prop :=
  (s.1.call s.2 op).1 = .ok → DdrRegion.ofCode op.region = some r →
    match op with
    | .setRegion .. | .clear .. | .setUsed .. => False
    | .handoff .. | .append .. | .read .. => True

theorem appendedBy_eq_nil {r : DdrRegion} {s : Ddr × Svc} {op : DdrOp}
    (h : ¬ (DdrRegion.ofCode op.region = some r ∧ (s.1.call s.2 op).1 = .ok)) :
    appendedBy r s op = [] := by
  cases op with
  | append region owner data len =>
    cases data with
    | none => rfl
    | some data => exact if_neg h
  | setRegion => rfl
  | handoff => rfl
  | clear => rfl
  | setUsed => rfl
  | read => rfl

/-- A call adds to the region's contents what it appends, and leaves them as they were otherwise. -/
theorem contents_call {s : Ddr} (hs : s.Mapped) {v : Svc} {op : DdrOp} {r : DdrRegion}
    (hop : Appending r (s, v) op) :
    (s.call v op).2.1.contents r = s.contents r ++ appendedBy r (s, v) op := by
  by_cases hok : (s.call v op).1 = .ok
  swap
  · obtain ⟨hregion, hmemory, -⟩ := fails_counted hs.bounded hok
    rw [appendedBy_eq_nil fun h => hok h.2, List.append_nil, contents, hregion, hmemory, contents]
  by_cases hr' : DdrRegion.ofCode op.region = some r
  swap
  · have hsame := not_or.mp (others_unchanged hs hok hr')
    rw [appendedBy_eq_nil fun h => hr' h.1, List.append_nil]
    exact not_not.mp hsame.2
  have hmine := hop hok hr'
  obtain ⟨r', x, memory, handoffs, hdone, hafter⟩ := done_of_ok hs.bounded hok
  obtain rfl := Option.some.inj (hr'.symm.trans hdone.permitted.1)
  rw [hafter, contents]
  dsimp only
  rw [Function.update_self]
  cases hdone with
  | setRegion => exact absurd hmine id
  | clear => exact absurd hmine id
  | setUsed => exact absurd hmine id
  | handoff =>
    rw [appendedBy, List.append_nil]
    rfl
  | read =>
    rw [appendedBy, List.append_nil]
    rfl
  | @append region owner len data hheld hlen hroom =>
    obtain ⟨-, hsum⟩ := room_of_append (hs.bounded r) hroom
    have hwritten : appendedBy r (s, v) (.append region owner (some data) len) = data.bytes 0 len :=
      if_pos ⟨hr', hok⟩
    rw [hwritten]
    exact Buf.bytes_overlay_at _ _ (by rw [hsum, Buf.length_bytes])

theorem clear_empties {s : Ddr} (hs : s.Bounded) {v : Svc} {region expected : UInt32} {r : DdrRegion}
    (hok : (s.call v (.clear region expected)).1 = .ok) (hr : DdrRegion.ofCode region = some r) :
    (s.call v (.clear region expected)).2.1.contents r = [] := by
  obtain ⟨r', x, memory, handoffs, hdone, hafter⟩ := done_of_ok hs hok
  cases hdone with
  | clear hr' =>
    obtain rfl := Option.some.inj (hr.symm.trans hr')
    rw [hafter, contents]
    dsimp only
    rw [Function.update_self]
    rfl

theorem contents_run {r : DdrRegion} {ops : List DdrOp} {s : Ddr × Svc} (hs : s.1.Mapped)
    (h : Along step (fun s op => s.1.Sited op ∧ Appending r s op) s ops) :
    (run step s ops).1.contents r = s.1.contents r ++ appended r s ops := by
  induction ops generalizing s with
  | nil => rw [run_nil, appended, List.append_nil]
  | cons op ops ih =>
    obtain ⟨⟨hsited, hop⟩, hrest⟩ := h
    have hcall : (step s op).1.contents r = s.1.contents r ++ appendedBy r s op := contents_call hs hop
    have hnext : (step s op).1.Mapped := mapped_call hs s.2 hsited
    rw [run_cons, ih hnext hrest, hcall, appended, List.append_assoc]

theorem mapped_run {ops : List DdrOp} {s : Ddr × Svc} (hs : s.1.Mapped)
    (h : Along step (fun s op => s.1.Sited op) s ops) : (run step s ops).1.Mapped :=
  @run_invariant _ _ step (fun s op => s.1.Sited op) (fun s => s.1.Mapped)
    (fun s _ hs hop => mapped_call hs s.2 hop) s ops hs h

theorem bounded_run (ops : List DdrOp) : (run step ({}, {}) ops).1.Bounded :=
  @run_keeps _ _ step (fun s => s.1.Bounded) (fun s op h => bounded_call h s.2 op) _
    mapped_init.bounded ops

/-- What is used is within its region, an append writes within it, a call that succeeds names the
owner and moves, hands over and counts its own region only, one that fails changes none and is counted
for what it failed for. Where the regions lie apart a call changes nothing that another holds, and
between clears a region holds what was appended. -/
theorem ownership_enforced (ops : List DdrOp) (op : DdrOp) :
    let s := run step ({}, {}) ops
    let c := s.1.call s.2 op
    (∀ r, (s.1.region r).used ≤ (s.1.region r).capacity) ∧
    (∀ region owner data len, op = .append region owner (some data) len → c.1 = .ok →
      ∃ r, DdrRegion.ofCode region = some r ∧
        (s.1.region r).used.toNat + len.toNat ≤ (s.1.region r).capacity.toNat ∧
        c.2.1.memory = s.1.memory.overlay ((s.1.region r).base + (s.1.region r).used)
          (data.bytes 0 len)) ∧
    (c.1 = .ok → ∃ r, DdrRegion.ofCode op.region = some r ∧ s.1.Permitted op r ∧
      ∀ r', r' ≠ r → c.2.1.region r' = s.1.region r') ∧
    (c.1 ≠ .ok → (∀ r, ¬ Changed s.1 c.2.1 r) ∧
      (s.1.Disputed op →
        c.2.1.violations = s.1.violations + 1 ∧ c.2.1.overruns = s.1.overruns) ∧
      (s.1.Overfull op →
        c.2.1.violations = s.1.violations ∧ c.2.1.overruns = s.1.overruns + 1) ∧
      (¬ s.1.Disputed op → ¬ s.1.Overfull op → ¬ s.1.ClearsUnset op →
        c.2.1.violations = s.1.violations ∧ c.2.1.overruns = s.1.overruns)) ∧
    (Along step (fun s op => s.1.Sited op) ({}, {}) (ops ++ [op]) →
      (c.1 = .ok → ∀ r', DdrRegion.ofCode op.region ≠ some r' → ¬ Changed s.1 c.2.1 r') ∧
      ∀ region expected r later, op = .clear region expected → c.1 = .ok →
        DdrRegion.ofCode region = some r →
        Along step (fun s op => s.1.Sited op ∧ Appending r s op) c.2 later →
          (run step c.2 later).1.contents r = appended r c.2 later) := by
  intro s c
  have hs : s.1.Bounded := bounded_run ops
  refine ⟨hs, ?_, succeeds_permitted hs, ?_, ?_⟩
  · rintro region owner data len rfl hok
    obtain ⟨r, x, memory, handoffs, hdone, hafter⟩ := done_of_ok hs hok
    have hmemory : c.2.1.memory = memory := congrArg Ddr.memory hafter
    rw [hmemory]
    cases hdone with
    | append hheld hlen hroom =>
      exact ⟨r, hheld.region, (room_of_append (hs r) hroom).1, rfl⟩
  · intro hfail
    obtain ⟨hregion, hmemory, hcounts⟩ := fails_counted hs hfail
    refine ⟨?_, hcounts⟩
    rintro r (hplace | hcontents)
    · exact hplace (congrFun hregion r)
    · refine hcontents ?_
      rw [contents, hregion, hmemory, contents]
  · intro h
    obtain ⟨hbefore, ⟨hop, -⟩⟩ := along_append.mp h
    have hmapped : s.1.Mapped := mapped_run mapped_init hbefore
    refine ⟨fun hok r' => others_unchanged hmapped hok, ?_⟩
    rintro region expected r later rfl hok hr hlater
    have hafter : c.2.1.Mapped := mapped_call hmapped s.2 hop
    have hempty : c.2.1.contents r = [] := clear_empties hs hok hr
    rw [contents_run hafter hlater, hempty, List.nil_append]

def sideBySide : List DdrOp := [.setRegion 0 0x100 64, .setRegion 1 0x140 64, .clear 0 0]

theorem ownership_enforced_side_by_side :
    Along step (fun s op => s.1.Sited op) ({}, {}) sideBySide ∧ ∀ later,
      Along step (fun s op => s.1.Sited op ∧ Appending .rawCh0A s op) (run step ({}, {}) sideBySide) later →
        (run step (run step ({}, {}) sideBySide) later).1.contents .rawCh0A =
          appended .rawCh0A (run step ({}, {}) sideBySide) later := by
  have hsited : Along step (fun s op => s.1.Sited op) ({}, {}) sideBySide := by
    refine ⟨fun _ => ⟨by decide, ?_⟩, fun _ => ⟨by decide, ?_⟩, trivial, trivial⟩
    · intro r _
      right
      cases r <;> decide
    · intro r hr
      right
      cases r <;> first | exact absurd rfl hr | decide
  obtain ⟨-, -, -, -, hapart⟩ :=
    ownership_enforced [.setRegion 0 0x100 64, .setRegion 1 0x140 64] (.clear 0 0)
  exact ⟨hsited, fun later => (hapart hsited).2 0 0 .rawCh0A later rfl (by decide +kernel) rfl⟩

def letter : Option Buf := some fun _ => 0x61

def filling : List DdrOp := [.setRegion 0 0x100 64, .handoff 0 0 1]

def overlapping : List DdrOp := [.setRegion 0 0x100 64, .setRegion 1 0x100 64, .setUsed 0 0 1]

def recounted : List DdrOp :=
  [.setRegion 0 0x100 64, .clear 0 0, .append 0 0 letter 1, .setUsed 0 0 0, .append 0 0 letter 1]

/-- An append of nothing is refused before its owner is looked at; a region changes with another that
has its memory; a count set by hand drops what was appended before; and a clear counts a violation
of a region that is not configured. -/
theorem ownership_limits :
    (((run step ({}, {}) filling).1.call {} (.append 0 4 letter 0)).1 = .errParam ∧
      ((run step ({}, {}) filling).1.region .rawCh0A).base ≠ 0 ∧
      ((run step ({}, {}) filling).1.region .rawCh0A).owner.code ≠ 4 ∧
      ((run step ({}, {}) filling).1.call {} (.append 0 4 letter 0)).2.1.violations =
        (run step ({}, {}) filling).1.violations) ∧
    (((run step ({}, {}) overlapping).1.call {} (.append 1 0 letter 1)).1 = .ok ∧
      Changed (run step ({}, {}) overlapping).1
        ((run step ({}, {}) overlapping).1.call {} (.append 1 0 letter 1)).2.1 .rawCh0A) ∧
    (run step ({}, {}) recounted).1.contents .rawCh0A = [0x61] ∧
    ((({} : Ddr).region .rawCh0A).base = 0 ∧ (({} : Ddr).call {} (.clear 0 1)).1 = .errState ∧
      (({} : Ddr).call {} (.clear 0 1)).2.1.violations = 1) := by
  refine ⟨by decide +kernel, ⟨by decide +kernel, .inr ?_⟩, by decide +kernel, by decide +kernel⟩
  decide +kernel

end Ddr

end QiranFirmware
