import QiranFirmware.Exec.Ticks

/-! # When the major cycle is due

A wait samples the ticks and then, some accesses later, the major boundaries. When no boundary
comes between the two, in this call and in those before it, the mirror of the boundaries stands at
the multiples of the major cycle among the ticks collected, and the major cycle is due exactly when
the call has collected one of them.
-/
namespace QiranFirmware.Exec

open Machine

def Point.divided : Point → Bool
  | .resyncAdvance _ | .resyncConsumed _ | .resyncMajors => true
  | .waitOverrun _ _ | .waitConsumed _ _ | .waitAdvance _ | .waitMajors => true
  | _ => false

def Undivided (s : Loop) : LoopOp → Prop
  | .tick => s.point.divided = true → ¬ 25 ∣ s.ticks + 1
  | .resync => True
  | .wait => True
  | .access _ => True

instance (s : Loop) : ∀ op, Decidable (Undivided s op)
  | .tick => inferInstanceAs (Decidable (_ → ¬ _))
  | .resync => .isTrue trivial
  | .wait => .isTrue trivial
  | .access _ => .isTrue trivial

instance (s : Loop) (op : LoopOp) : Decidable (Timely s op) :=
  inferInstanceAs (Decidable (_ → _))

/-- What the mirror of the boundaries is at a point of a call, `p` ticks having been collected when
it began, `q` when it sampled them last, and `n` by now. -/
def Mirror (p q n : ℕ) (e : Exec) : Point → Prop
  | .out | .resyncTicks | .waitBody | .waitDue => e.consumedMajors = UInt32.ofNat (p / 25)
  | .waitTicks => e.consumedMajors = UInt32.ofNat (p / 25) ∧ e.majorDue = false
  | .resyncAdvance _ | .resyncConsumed _ | .resyncMajors => n / 25 = q / 25
  | .resyncConsumedMajors majors => majors = UInt32.ofNat (q / 25)
  | .resyncDue | .resyncBody => e.consumedMajors = UInt32.ofNat (q / 25)
  | .waitOverrun _ _ | .waitConsumed _ _ | .waitAdvance _ | .waitMajors =>
    e.consumedMajors = UInt32.ofNat (p / 25) ∧ e.majorDue = false ∧ n / 25 = q / 25
  | .waitNote majors =>
    e.consumedMajors = UInt32.ofNat (p / 25) ∧ e.majorDue = false ∧ majors = UInt32.ofNat (q / 25)
  | .waitStart =>
    e.consumedMajors = UInt32.ofNat (q / 25) ∧ (e.majorDue = true ↔ p / 25 ≠ q / 25)

/-- After a wait the major cycle is due exactly when the ticks it has collected, those after the
`previous` ones, include one that ends a major cycle; when it has collected one tick, that is in the
slot that the task table gives to the major task. -/
structure MajorDue (previous : ℕ) (c : Collection) : Prop where
  began : c.before.elapsedMinor.toNat = previous % 2 ^ 64
  elapsed : c.after.elapsedMinor.toNat = c.sampled % 2 ^ 64
  due : c.after.majorDue = true ↔ ∃ n, previous < n ∧ n ≤ c.sampled ∧ 25 ∣ n
  slot : c.sampled = previous + 1 → (c.after.majorDue = true ↔ c.after.slot = 0)
  table : c.sampled = previous + 1 → c.after.majorDue = dueAtSlot majorTask c.after.slot

structure Mirrored (s : Loop) : Prop extends Counted s where
  mirror : Mirror (lastSampled s.collections) s.sampled s.ticks s.exec s.point
  majors : EachAfter (fun before c => c.wait = true → MajorDue (lastSampled before) c) s.collections

theorem mirrored_init : Mirrored {} where
  toCounted := counted_init
  mirror := rfl
  majors := eachAfter_nil _

theorem Mirror.tick {p q n : ℕ} {e : Exec} {point : Point} (h : Mirror p q n e point)
    (hwhole : point.divided = true → ¬ 25 ∣ n + 1) : Mirror p q (n + 1) e.onMinorTick point := by
  obtain ⟨-, hmajors, -, -, hdue, -⟩ := sameLoop_onMinorTick e
  have hsame (hnot : ¬ 25 ∣ n + 1) : (n + 1) / 25 = n / 25 := by omega
  cases point with
  | out | resyncTicks | waitBody | waitDue | resyncDue | resyncBody => exact hmajors.trans h
  | waitTicks => exact ⟨hmajors.trans h.1, hdue.trans h.2⟩
  | resyncAdvance | resyncConsumed | resyncMajors => exact (hsame (hwhole rfl)).trans h
  | resyncConsumedMajors majors => exact h
  | waitOverrun | waitConsumed | waitAdvance | waitMajors =>
    exact ⟨hmajors.trans h.1, hdue.trans h.2.1, (hsame (hwhole rfl)).trans h.2.2⟩
  | waitNote majors => exact ⟨hmajors.trans h.1, hdue.trans h.2.1, h.2.2⟩
  | waitStart => exact ⟨hmajors.trans h.1, hdue ▸ h.2⟩

theorem exists_boundary_iff {p q : ℕ} (h : p ≤ q) :
    (∃ n, p < n ∧ n ≤ q ∧ 25 ∣ n) ↔ p / 25 ≠ q / 25 := by
  constructor
  · rintro ⟨n, hp, hq, k, rfl⟩
    omega
  · intro hne
    exact ⟨25 * (q / 25), by omega, by omega, Nat.dvd_mul_right ..⟩

/-- What the last access of a wait leaves behind. -/
theorem MajorDue.of_exact {p : ℕ} {c : Collection} (h : Exact p c)
    (hdue : c.after.majorDue = true ↔ p / 25 ≠ c.sampled / 25) : MajorDue p c := by
  have hslot (hone : c.sampled = p + 1) : c.after.majorDue = true ↔ c.after.slot = 0 := by
    rw [hdue, ← UInt32.toNat_inj, h.slot, UInt32.toNat_zero]
    omega
  refine ⟨h.began, h.elapsed, hdue.trans (exists_boundary_iff h.order).symm, hslot, ?_⟩
  intro hone
  rw [Bool.eq_iff_iff, hslot hone]
  simp [dueAtSlot, majorTask]

theorem Mirrored.go {s : Loop} (h : Mirrored s) {cycles : UInt32} {point : Point}
    (hcounted : Counted (s.step (.access cycles))) (hpoint : s.point = point)
    (hsteady : s.samples = false ∧ s.returns = none)
    (hmirror : Mirror (lastSampled s.collections) s.sampled s.ticks (s.exec.access cycles point).2
      (s.exec.access cycles point).1) : Mirrored (s.step (.access cycles)) := by
  subst hpoint
  refine ⟨hcounted, ?_, ?_⟩
  · rw [step_go hsteady.1 hsteady.2]
    exact hmirror
  · rw [step_go hsteady.1 hsteady.2]
    exact h.majors

theorem Mirrored.sample {s : Loop} (h : Mirrored s) {cycles : UInt32} {point : Point}
    (hcounted : Counted (s.step (.access cycles))) (hpoint : s.point = point)
    (hsamples : s.samples = true ∧ s.returns = none)
    (hmirror : Mirror (lastSampled s.collections) s.ticks s.ticks (s.exec.access cycles point).2
      (s.exec.access cycles point).1) : Mirrored (s.step (.access cycles)) := by
  subst hpoint
  refine ⟨hcounted, ?_, ?_⟩
  · rw [step_sample hsamples.1 hsamples.2]
    exact hmirror
  · rw [step_sample hsamples.1 hsamples.2]
    exact h.majors

theorem Mirrored.leave {s : Loop} (h : Mirrored s) {cycles : UInt32} {wait : Bool}
    (hcounted : Counted (s.step (.access cycles))) (hsamples : s.samples = false)
    (hreturns : s.returns = some wait) (hpoint : (s.exec.access cycles s.point).1 = .out)
    (hmirror : (s.exec.access cycles s.point).2.consumedMajors = UInt32.ofNat (s.sampled / 25))
    (hdue : wait = true → ((s.exec.access cycles s.point).2.majorDue = true ↔
      lastSampled s.collections / 25 ≠ s.sampled / 25)) :
    Mirrored (s.step (.access cycles)) := by
  have heach := hcounted.each
  refine ⟨hcounted, ?_, ?_⟩
  · rw [step_leave hsamples hreturns, hpoint]
    simp only [Mirror, lastSampled_concat]
    exact hmirror
  · rw [step_leave hsamples hreturns] at heach ⊢
    obtain ⟨-, hexact⟩ := eachAfter_concat.mp heach
    exact eachAfter_concat.mpr ⟨h.majors, fun hwait => .of_exact hexact (hdue hwait)⟩

/-- Major counts that are less than 32 bits apart tell the boundaries apart. -/
theorem ofNat_majors_ne_iff {p q : ℕ} (h : Span p q) :
    UInt32.ofNat (q / 25) ≠ UInt32.ofNat (p / 25) ↔ p / 25 ≠ q / 25 := by
  obtain ⟨hle, hlt⟩ := h
  rw [not_iff_not, ← UInt32.toNat_inj, UInt32.toNat_ofNat', UInt32.toNat_ofNat']
  omega

theorem Mirrored.access {s : Loop} (h : Mirrored s) (cycles : UInt32)
    (htimely : Timely s (.access cycles)) : Mirrored (s.step (.access cycles)) := by
  have hcounted := h.toCounted.access cycles htimely
  have hhere := h.here
  have hmirror := h.mirror
  cases hpoint : s.point with
  | out =>
    rw [hpoint] at hmirror
    refine h.go hcounted hpoint (Loop.steady hpoint rfl) ?_
    exact hmirror
  | resyncTicks =>
    refine h.sample hcounted hpoint
      ⟨by simp [Loop.samples, hpoint], by simp [Loop.returns, hpoint]⟩ ?_
    exact rfl
  | resyncAdvance raw | resyncConsumed raw =>
    rw [hpoint] at hmirror
    refine h.go hcounted hpoint (Loop.steady hpoint rfl) ?_
    exact hmirror
  | resyncMajors =>
    rw [hpoint] at hmirror
    refine h.go hcounted hpoint (Loop.steady hpoint rfl) ?_
    exact h.ticked.majors.trans (congrArg UInt32.ofNat hmirror)
  | resyncConsumedMajors majors | resyncDue =>
    rw [hpoint] at hmirror
    refine h.go hcounted hpoint (Loop.steady hpoint rfl) ?_
    exact hmirror
  | resyncBody =>
    rw [hpoint] at hmirror
    have hreturns : s.returns = some false := by simp [Loop.returns, hpoint]
    refine h.leave hcounted (by simp [Loop.samples, hpoint]) hreturns (by rw [hpoint]; rfl) ?_
      (by simp)
    rw [hpoint]
    exact hmirror
  | waitBody =>
    rw [hpoint] at hmirror
    refine h.go hcounted hpoint (Loop.steady hpoint rfl) ?_
    exact (sameLoop_accountBody cycles s.exec).consumedMajors.trans hmirror
  | waitDue =>
    rw [hpoint] at hmirror
    refine h.go hcounted hpoint (Loop.steady hpoint rfl) ?_
    exact ⟨hmirror, rfl⟩
  | waitTicks =>
    rw [hpoint] at hmirror
    by_cases hnone : s.exec.isrTicks - s.exec.consumed = 0
    · refine h.go hcounted hpoint
        ⟨by simp [Loop.samples, hpoint, hnone], by simp [Loop.returns, hpoint]⟩ ?_
      simp only [Exec.access, hnone, ne_eq, not_true_eq_false, ↓reduceIte]
      exact hmirror
    · refine h.sample hcounted hpoint
        ⟨by simp [Loop.samples, hpoint, hnone], by simp [Loop.returns, hpoint]⟩ ?_
      simp only [Exec.access, ne_eq, hnone, not_false_eq_true, ↓reduceIte]
      exact ⟨hmirror.1, hmirror.2, rfl⟩
  | waitOverrun raw pending =>
    rw [hpoint] at hmirror
    refine h.go hcounted hpoint (Loop.steady hpoint rfl) ?_
    simp only [Exec.access, accountOverrun]
    split
    · exact hmirror
    · exact hmirror
  | waitConsumed raw pending | waitAdvance pending =>
    rw [hpoint] at hmirror
    refine h.go hcounted hpoint (Loop.steady hpoint rfl) ?_
    exact hmirror
  | waitMajors =>
    rw [hpoint] at hmirror
    obtain ⟨hconsumed, hdue, hwhole⟩ := hmirror
    refine h.go hcounted hpoint (Loop.steady hpoint rfl) ?_
    exact ⟨hconsumed, hdue, h.ticked.majors.trans (congrArg UInt32.ofNat hwhole)⟩
  | waitNote majors =>
    rw [hpoint] at hhere hmirror
    obtain ⟨hconsumed, hdue, rfl⟩ := hmirror
    have hmajors := ofNat_majors_ne_iff hhere.2.2.1
    refine h.go hcounted hpoint (Loop.steady hpoint rfl) ?_
    simp only [Exec.access, noteMajors]
    split
    · rename_i hnew
      rw [hconsumed] at hnew
      exact ⟨rfl, iff_of_true rfl (hmajors.mp hnew)⟩
    · rename_i hold
      rw [hconsumed] at hold
      refine ⟨hconsumed.trans (not_not.mp hold).symm, ?_⟩
      rw [hdue]
      exact iff_of_false Bool.false_ne_true (mt hmajors.mpr hold)
  | waitStart =>
    rw [hpoint] at hmirror
    have hreturns : s.returns = some true := by simp [Loop.returns, hpoint]
    refine h.leave hcounted (by simp [Loop.samples, hpoint]) hreturns (by rw [hpoint]; rfl) ?_ ?_
    · rw [hpoint]
      exact hmirror.1
    · intro _
      rw [hpoint]
      exact hmirror.2

theorem mirrored_step {s : Loop} {op : LoopOp} (h : Mirrored s) (htimely : Timely s op)
    (hwhole : Undivided s op) : Mirrored (s.step op) := by
  have hcounted := counted_step h.toCounted htimely
  have hmirror := h.mirror
  cases op with
  | tick => exact ⟨hcounted, hmirror.tick hwhole, h.majors⟩
  | resync | wait =>
    simp only [Loop.step] at hcounted ⊢
    split
    · rename_i hout
      rw [if_pos hout] at hcounted
      rw [hout] at hmirror
      exact ⟨hcounted, hmirror, h.majors⟩
    · exact h
  | access cycles => exact h.access cycles htimely

/-- When no call has a major boundary between its two reads, the major cycle is due after a wait
exactly when the ticks that it has collected include a boundary. -/
theorem major_due_iff {ops : List LoopOp}
    (h : Along Loop.step (fun s op => Timely s op ∧ Undivided s op) {} ops) :
    EachAfter (fun before c => c.wait = true → MajorDue (lastSampled before) c)
      (run Loop.step {} ops).collections :=
  (@run_invariant _ _ Loop.step (fun s op => Timely s op ∧ Undivided s op) Mirrored
    (fun _ _ hs hop => mirrored_step hs hop.1 hop.2) {} ops mirrored_init h).majors

theorem major_due_iff_overrun :
    EachAfter (fun before c => c.wait = true → MajorDue (lastSampled before) c)
      (run Loop.step {} overrun).collections :=
  major_due_iff (by decide +kernel)

/-- After 23 ticks the loop is resynchronised; it waits for tick 24, and tick 25 comes when it has
sampled the ticks. -/
def boundaryBetweenReads : List LoopOp :=
  List.replicate 23 .tick ++ resyncCall ++ [.tick] ++ waitCall 1 ++ waitCall 0

/-- The major cycle is due in slot 24, and not in slot 0 which follows. -/
theorem boundary_between_reads :
    ¬ EachAfter (fun before c => c.wait = true → MajorDue (lastSampled before) c)
        (run Loop.step {} boundaryBetweenReads).collections ∧
      (run Loop.step {} boundaryBetweenReads).collections.map
        (fun c => (c.wait, c.sampled, c.after.slot, c.after.majorDue)) =
          [(false, 23, 23, false), (true, 24, 24, true), (true, 25, 0, false)] := by
  have hruns : (run Loop.step {} boundaryBetweenReads).collections.map
      (fun c => (c.wait, c.sampled, c.after.slot, c.after.majorDue)) =
        [(false, 23, 23, false), (true, 24, 24, true), (true, 25, 0, false)] := by decide +kernel
  refine ⟨?_, hruns⟩
  intro h
  obtain ⟨x, rest, hx, hxeq, hrest⟩ := List.map_eq_cons_iff.mp hruns
  obtain ⟨y, tail, hy, hyeq, -⟩ := List.map_eq_cons_iff.mp hrest
  simp only [Prod.mk.injEq] at hxeq hyeq
  obtain ⟨hwait, hsampled, hslot, hdue⟩ := hyeq
  have hlast : lastSampled [x] = 23 := hxeq.2.1
  have hone := (h [x] y tail (by rw [hx, hy]; rfl) hwait).slot (by rw [hsampled, hlast])
  rw [hdue, hslot] at hone
  exact absurd (hone.mp rfl) (by decide)

end QiranFirmware.Exec
