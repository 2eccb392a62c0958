import QiranFirmware.Machine.Runs
import QiranFirmware.Svc.Time
import Mathlib.Data.UInt

/-! # Uptime, the epoch and the timeouts over a run

Ticks come between the queries of `svc_time.c`, in any order and number. The collections follow the
number of ticks as long as no 2^32 of them come between two queries, and what the queries answer is told
from the ticks there have been.
-/
namespace QiranFirmware

open Machine

/-- The tick counter of the interrupt, the statics of `svc_time.c`, and the timeouts of the callers. `ticks`
and `asked` have no counterpart in the source: they are the ticks since `svc_time_init`, and those there had
been at the last query. -/
structure Uptime (ι : Type) where
  raw : UInt32
  time : Time
  timeout : ι → Timeout
  ticks : ℕ := 0
  asked : ℕ := 0

inductive TimeOp (ι : Type)
  | tick
  | now
  | epochSet (obcTimeMs : UInt64)
  | epoch
  | arm (t : ι) (durationMs : UInt32)
  | disarm (t : ι)
  | expired (t : ι)
  | remaining (t : ι)
  | elapsed (t : ι) (durationMs : UInt32)

namespace Uptime

variable {ι : Type}

def start (raw : UInt32) (timeout : ι → Timeout) : Uptime ι := { raw, time := Time.init raw, timeout }

def nowMs (s : Uptime ι) : UInt64 := s.time.nowMs s.raw

def epochMs (s : Uptime ι) : UInt64 := s.time.epochNowMs s.raw

def expired (t : ι) (s : Uptime ι) : Bool := (s.timeout t).expired s.nowMs

def remainingMs (t : ι) (s : Uptime ι) : UInt32 := (s.timeout t).remainingMs s.nowMs

def elapsedMs (t : ι) (durationMs : UInt32) (s : Uptime ι) : UInt32 :=
  (s.timeout t).elapsedMs durationMs s.nowMs

/-- The operation asks for the time; of a timeout that is not armed it does not. -/
def asks (s : Uptime ι) : TimeOp ι → Bool
  | .tick | .disarm _ => false
  | .now | .epochSet _ | .epoch | .arm _ _ => true
  | .expired t | .remaining t | .elapsed t _ => (s.timeout t).armed

def query (s : Uptime ι) : Uptime ι := { s with time := s.time.collect s.raw, asked := s.ticks }

def Timely (s : Uptime ι) (op : TimeOp ι) : Prop := s.asks op = true → s.ticks - s.asked < 2 ^ 32

instance (s : Uptime ι) (op : TimeOp ι) : Decidable (Timely s op) := inferInstanceAs (Decidable (_ → _))

structure Counted (raw : UInt32) (s : Uptime ι) : Prop where
  past : s.asked ≤ s.ticks
  raw_eq : s.raw = raw + UInt32.ofNat s.ticks
  last : s.time.lastRaw = raw + UInt32.ofNat s.asked
  ticks : s.time.ticks = UInt64.ofNat s.asked

theorem counted_start (raw : UInt32) (timeout : ι → Timeout) : Counted raw (start raw timeout) :=
  ⟨le_rfl, (UInt32.add_zero raw).symm, (UInt32.add_zero raw).symm, rfl⟩

variable {raw : UInt32} {s : Uptime ι}

/-- A collection in time counts every tick. -/
theorem Counted.collect (h : Counted raw s) (hlt : s.ticks - s.asked < 2 ^ 32) :
    (s.time.collect s.raw).ticks = UInt64.ofNat s.ticks := by
  have hsplit : UInt32.ofNat s.ticks = UInt32.ofNat s.asked + UInt32.ofNat (s.ticks - s.asked) := by
    rw [← UInt32.ofNat_add, Nat.add_sub_cancel' h.past]
  have hgap : s.raw - s.time.lastRaw = UInt32.ofNat (s.ticks - s.asked) := by
    rw [h.raw_eq, h.last, hsplit]
    grind
  have hwide : (UInt32.ofNat (s.ticks - s.asked)).toUInt64 = UInt64.ofNat (s.ticks - s.asked) := by
    rw [← UInt64.toNat_inj, UInt32.toNat_toUInt64, UInt32.toNat_ofNat_of_lt' hlt, UInt64.toNat_ofNat']
    omega
  rw [Time.collect, hgap, hwide, h.ticks, ← UInt64.ofNat_add, Nat.add_sub_cancel' h.past]

theorem Counted.query (h : Counted raw s) (hlt : s.ticks - s.asked < 2 ^ 32) : Counted raw s.query :=
  ⟨le_rfl, h.raw_eq, h.raw_eq, h.collect hlt⟩

/-- The time is told from the ticks, in 64 bits. -/
theorem Counted.nowMs (h : Counted raw s) (hlt : s.ticks - s.asked < 2 ^ 32) :
    s.nowMs = UInt64.ofNat (20 * s.ticks) := by
  rw [Uptime.nowMs, Time.nowMs, h.collect hlt, Nat.mul_comm, UInt64.ofNat_mul]
  rfl

variable [DecidableEq ι]

def step (s : Uptime ι) (op : TimeOp ι) : Uptime ι :=
  match op with
  | .tick => { s with raw := s.raw + 1, ticks := s.ticks + 1 }
  | .epochSet obcTimeMs => { s.query with time := s.time.epochSet obcTimeMs s.raw }
  | .arm t durationMs =>
    { s.query with timeout := Function.update s.timeout t (Timeout.arm s.nowMs durationMs) }
  | .disarm t => { s with timeout := Function.update s.timeout t (s.timeout t).disarm }
  | .now | .epoch | .expired _ | .remaining _ | .elapsed _ _ => if s.asks op then s.query else s

theorem counted_step (h : Counted raw s) {op : TimeOp ι} (htimely : Timely s op) :
    Counted raw (s.step op) := by
  have hquery (hasks : s.asks op = true) : Counted raw s.query := h.query (htimely hasks)
  cases op with
  | tick =>
    refine ⟨Nat.le_succ_of_le h.past, ?_, h.last, h.ticks⟩
    rw [step, h.raw_eq, UInt32.ofNat_add]
    exact UInt32.add_assoc ..
  | disarm t => exact ⟨h.past, h.raw_eq, h.last, h.ticks⟩
  | epochSet obcTimeMs =>
    obtain ⟨hpast, hraw, hlast, hticks⟩ := hquery rfl
    exact ⟨hpast, hraw, hlast, hticks⟩
  | arm t durationMs =>
    obtain ⟨hpast, hraw, hlast, hticks⟩ := hquery rfl
    exact ⟨hpast, hraw, hlast, hticks⟩
  | now | epoch => exact hquery rfl
  | expired t | remaining t | elapsed t durationMs =>
    rw [step]
    split
    · rename_i hasks
      exact hquery hasks
    · exact h

theorem ticks_le_run (s : Uptime ι) (ops : List (TimeOp ι)) : s.ticks ≤ (run step s ops).ticks := by
  have hstep (s' : Uptime ι) (op : TimeOp ι) (hle : s.ticks ≤ s'.ticks) : s.ticks ≤ (s'.step op).ticks := by
    refine hle.trans ?_
    cases op with
    | tick => exact Nat.le_succ _
    | now | epoch | epochSet | arm | disarm => exact le_rfl
    | expired | remaining | elapsed =>
      rw [step]
      split <;> exact le_rfl
  exact run_keeps hstep le_rfl ops

def Leaves (t : ι) : TimeOp ι → Prop
  | .arm u _ | .disarm u => u ≠ t
  | _ => True

theorem timeout_step {t : ι} {op : TimeOp ι} (h : Leaves t op) (s : Uptime ι) :
    (s.step op).timeout t = s.timeout t := by
  cases op with
  | arm u durationMs => exact Function.update_of_ne (Ne.symm h) _ _
  | disarm u => exact Function.update_of_ne (Ne.symm h) _ _
  | tick | now | epoch | epochSet => rfl
  | expired | remaining | elapsed =>
    rw [step]
    split <;> rfl

theorem timeout_run {t : ι} {ops : List (TimeOp ι)} (h : ∀ op ∈ ops, Leaves t op) (s : Uptime ι) :
    (run step s ops).timeout t = s.timeout t := by
  have hstep (s' : Uptime ι) (op : TimeOp ι) (heq : s'.timeout t = s.timeout t) (hleaves : Leaves t op) :
      (s'.step op).timeout t = s.timeout t := (timeout_step hleaves s').trans heq
  exact run_invariant hstep rfl (along_of_forall h)

def KeepsEpoch : TimeOp ι → Prop
  | .epochSet _ => False
  | _ => True

theorem epoch_step {op : TimeOp ι} (h : KeepsEpoch op) (s : Uptime ι) :
    (s.step op).time.epochMs = s.time.epochMs := by
  cases op with
  | epochSet => exact h.elim
  | tick | now | epoch | arm | disarm => rfl
  | expired | remaining | elapsed =>
    rw [step]
    split <;> rfl

theorem epoch_run {ops : List (TimeOp ι)} (h : ∀ op ∈ ops, KeepsEpoch op) (s : Uptime ι) :
    (run step s ops).time.epochMs = s.time.epochMs := by
  have hstep (s' : Uptime ι) (op : TimeOp ι) (heq : s'.time.epochMs = s.time.epochMs)
      (hkeeps : KeepsEpoch op) : (s'.step op).time.epochMs = s.time.epochMs :=
    (epoch_step hkeeps s').trans heq
  exact run_invariant hstep rfl (along_of_forall h)

end Uptime

/-- A timeout armed after `a` ticks and asked after `b`, both in milliseconds. -/
theorem Timeout.armed_spec {a b : ℕ} {d : UInt32} (hle : a ≤ b) (hnow : b < 2 ^ 64)
    (hdeadline : a + d.toNat < 2 ^ 64) :
    ((Timeout.arm (UInt64.ofNat a) d).expired (UInt64.ofNat b) = true ↔ d.toNat ≤ b - a) ∧
      ((Timeout.arm (UInt64.ofNat a) d).remainingMs (UInt64.ofNat b)).toNat = d.toNat - (b - a) := by
  have hlt := d.toNat_lt
  have hend : (UInt64.ofNat a + d.toUInt64).toNat = a + d.toNat := by
    rw [UInt64.toNat_add, UInt64.toNat_ofNat', UInt32.toNat_toUInt64]
    omega
  have hhere : (UInt64.ofNat b).toNat = b := UInt64.toNat_ofNat_of_lt' hnow
  have hpast : UInt64.ofNat a + d.toUInt64 ≤ UInt64.ofNat b ↔ d.toNat ≤ b - a := by
    rw [UInt64.le_iff_toNat_le, hend, hhere]
    omega
  refine ⟨?_, ?_⟩
  · simp [Timeout.arm, expired, hpast]
  · rw [Timeout.arm, remainingMs, if_neg (by simp)]
    split
    · rename_i hover
      rw [hpast] at hover
      rw [UInt32.toNat_zero]
      omega
    · rename_i hleft
      have hle' : UInt64.ofNat b ≤ UInt64.ofNat a + d.toUInt64 := UInt64.not_lt.mp fun h => hleft (UInt64.le_of_lt h)
      rw [hpast] at hleft
      rw [UInt64.toNat_toUInt32, UInt64.toNat_sub_of_le _ _ hle', hend, hhere]
      omega

namespace Uptime

variable {ι : Type} [DecidableEq ι] {raw : UInt32} {timeout : ι → Timeout}

/-- At every point of a schedule in time the ticks are counted, and the next query is in time. -/
theorem counted_run {xs ys : List (TimeOp ι)} {op : TimeOp ι}
    (h : Along step Timely (start raw timeout) (xs ++ op :: ys)) :
    Counted raw (run step (start raw timeout) xs) ∧ Timely (run step (start raw timeout) xs) op := by
  obtain ⟨hxs, hrest⟩ := along_append.mp h
  have hcounted : Counted raw (run step (start raw timeout) xs) :=
    @run_invariant _ _ step Timely (Counted raw) (fun _ _ hs htimely => counted_step hs htimely) _ _
      (counted_start raw timeout) hxs
  exact ⟨hcounted, hrest.1⟩

theorem nowMs_run {xs ys : List (TimeOp ι)} {op : TimeOp ι}
    (h : Along step Timely (start raw timeout) (xs ++ op :: ys))
    (hasks : (run step (start raw timeout) xs).asks op = true) :
    (run step (start raw timeout) xs).nowMs =
      UInt64.ofNat (20 * (run step (start raw timeout) xs).ticks) := by
  obtain ⟨hcounted, htimely⟩ := counted_run h
  exact hcounted.nowMs (htimely hasks)

def AsksOf (t : ι) : TimeOp ι → Prop
  | .expired u | .remaining u | .elapsed u _ => u = t
  | _ => False

structure Told (s : Uptime ι) (ops : List (TimeOp ι)) : Prop where
  now : ∀ xs ys, ops = xs ++ .now :: ys →
    (run step s xs).nowMs = UInt64.ofNat (20 * (run step s xs).ticks)
  order : ∀ xs ys zs, ops = xs ++ .now :: (ys ++ .now :: zs) →
    20 * (run step s (xs ++ .now :: ys)).ticks < 2 ^ 64 →
      (run step s xs).nowMs ≤ (run step s (xs ++ .now :: ys)).nowMs
  epoch : ∀ xs obcTimeMs ys zs, ops = xs ++ .epochSet obcTimeMs :: (ys ++ .epoch :: zs) →
    (∀ op ∈ ys, KeepsEpoch op) →
      (run step s (xs ++ .epochSet obcTimeMs :: ys)).epochMs = obcTimeMs +
        UInt64.ofNat (20 * ((run step s (xs ++ .epochSet obcTimeMs :: ys)).ticks - (run step s xs).ticks))
  timeout : ∀ xs t d ys q zs, ops = xs ++ .arm t d :: (ys ++ q :: zs) → AsksOf t q →
    (∀ op ∈ ys, Leaves t op) → 20 * (run step s (xs ++ .arm t d :: ys)).ticks < 2 ^ 64 →
      20 * (run step s xs).ticks + d.toNat < 2 ^ 64 →
        ((run step s (xs ++ .arm t d :: ys)).expired t = true ↔
          d.toNat ≤ 20 * ((run step s (xs ++ .arm t d :: ys)).ticks - (run step s xs).ticks)) ∧
        (run step s (xs ++ .arm t d :: ys)).elapsedMs t d +
          (run step s (xs ++ .arm t d :: ys)).remainingMs t = d ∧
        ((run step s (xs ++ .arm t d :: ys)).elapsedMs t d).toNat =
          min d.toNat (20 * ((run step s (xs ++ .arm t d :: ys)).ticks - (run step s xs).ticks))

theorem ticks_le_append (s : Uptime ι) (xs : List (TimeOp ι)) (op : TimeOp ι) (ys : List (TimeOp ι)) :
    (run step s xs).ticks ≤ (run step s (xs ++ op :: ys)).ticks := by
  rw [run_append]
  exact ticks_le_run _ _

theorem epochMs_run {xs ys zs : List (TimeOp ι)} {obcTimeMs : UInt64}
    (h : Along step Timely (start raw timeout) (xs ++ .epochSet obcTimeMs :: (ys ++ .epoch :: zs)))
    (hkeeps : ∀ op ∈ ys, KeepsEpoch op) :
    (run step (start raw timeout) (xs ++ .epochSet obcTimeMs :: ys)).epochMs = obcTimeMs +
      UInt64.ofNat (20 * ((run step (start raw timeout) (xs ++ .epochSet obcTimeMs :: ys)).ticks -
        (run step (start raw timeout) xs).ticks)) := by
  have hset := nowMs_run h rfl
  rw [← List.cons_append, ← List.append_assoc] at h
  have hnow := nowMs_run h rfl
  have hle := ticks_le_append (start raw timeout) xs (.epochSet obcTimeMs) ys
  have hepoch : (run step (start raw timeout) (xs ++ .epochSet obcTimeMs :: ys)).time.epochMs =
      obcTimeMs - (run step (start raw timeout) xs).nowMs := by
    rw [run_append, run_cons, epoch_run hkeeps]
    rfl
  have hsplit : UInt64.ofNat (20 * (run step (start raw timeout) (xs ++ .epochSet obcTimeMs :: ys)).ticks) =
      UInt64.ofNat (20 * (run step (start raw timeout) xs).ticks) +
        UInt64.ofNat (20 * ((run step (start raw timeout) (xs ++ .epochSet obcTimeMs :: ys)).ticks -
          (run step (start raw timeout) xs).ticks)) := by
    rw [← UInt64.ofNat_add, ← Nat.mul_add, Nat.add_sub_cancel' hle]
  rw [Uptime.nowMs] at hnow
  rw [Uptime.epochMs, Time.epochNowMs, hepoch, hnow, hsplit, hset]
  grind

theorem timeout_of_arm (s : Uptime ι) (xs : List (TimeOp ι)) {ys : List (TimeOp ι)} {t : ι}
    (d : UInt32) (hleaves : ∀ op ∈ ys, Leaves t op) :
    (run step s (xs ++ .arm t d :: ys)).timeout t = Timeout.arm (run step s xs).nowMs d := by
  rw [run_append, run_cons, timeout_run hleaves, step]
  exact Function.update_self ..

/-- In a schedule with fewer than 2^32 ticks between two queries every query is answered as it ought to
be, for as long as the uptime and the deadlines fit in 64 bits. -/
theorem told_of_timely (raw : UInt32) (timeout : ι → Timeout) {ops : List (TimeOp ι)}
    (h : Along step Timely (start raw timeout) ops) : Told (start raw timeout) ops := by
  refine ⟨?_, ?_, ?_, ?_⟩
  · rintro xs ys rfl
    exact nowMs_run h rfl
  · rintro xs ys zs rfl hbound
    have hfirst := nowMs_run h rfl
    rw [← List.cons_append, ← List.append_assoc] at h
    have hle := ticks_le_append (start raw timeout) xs .now ys
    have hmul := Nat.mul_le_mul_left 20 hle
    rw [hfirst, nowMs_run h rfl, UInt64.le_iff_toNat_le, UInt64.toNat_ofNat_of_lt' hbound,
      UInt64.toNat_ofNat_of_lt' (hmul.trans_lt hbound)]
    exact hmul
  · rintro xs obcTimeMs ys zs rfl hkeeps
    exact epochMs_run h hkeeps
  · rintro xs t d ys q zs rfl hq hleaves hnow hdeadline
    have harm := nowMs_run h rfl
    have harmed := timeout_of_arm (start raw timeout) xs d hleaves
    rw [← List.cons_append, ← List.append_assoc] at h
    have hasks : (run step (start raw timeout) (xs ++ .arm t d :: ys)).asks q = true := by
      cases q with
      | tick | now | epochSet | epoch | arm | disarm => exact hq.elim
      | expired | remaining | elapsed =>
        obtain rfl := hq
        rw [asks, harmed]
        rfl
    have hhere := nowMs_run h hasks
    have hle := ticks_le_append (start raw timeout) xs (.arm t d) ys
    obtain ⟨hexpired, hremaining⟩ := Timeout.armed_spec (Nat.mul_le_mul_left 20 hle) hnow hdeadline
    rw [← Nat.mul_sub] at hexpired hremaining
    rw [harm] at harmed
    rw [expired, elapsedMs, remainingMs, Timeout.elapsedMs, harmed, hhere]
    refine ⟨hexpired, ?_, ?_⟩
    · grind
    · rw [UInt32.toNat_sub_of_le _ _ (UInt32.le_iff_toNat_le.mpr (by omega)), hremaining]
      omega

/-- The raw counter wraps, and a timeout runs out two ticks after it has been armed. -/
theorem told_across_wrap : Told (start 0xFFFFFFFE fun _ : Unit => {})
    [.tick, .now, .epochSet 1000, .arm () 40, .tick, .expired (), .tick, .expired (), .epoch] :=
  told_of_timely 0xFFFFFFFE _ (by decide)

def everyTick (n : ℕ) : List (TimeOp ι) := (List.replicate n [.tick, .now]).flatten

theorem everyTick_run (n : ℕ) {s : Uptime ι} (h : s.asked = s.ticks) :
    Along step Timely s (everyTick n) ∧ (run step s (everyTick n)).ticks = s.ticks + n ∧
      (run step s (everyTick n)).asked = (run step s (everyTick n)).ticks := by
  induction n generalizing s with
  | zero => exact ⟨trivial, rfl, h⟩
  | succ n ih =>
    have hhead : everyTick (n + 1) = [.tick, .now] ++ everyTick (ι := ι) n := by
      rw [everyTick, List.replicate_succ, List.flatten_cons]
      rfl
    have htimely : Along step Timely s [.tick, .now] := by
      refine along_cons.mpr ⟨fun hasks => Bool.noConfusion hasks, along_cons.mpr ⟨fun _ => ?_, trivial⟩⟩
      show s.ticks + 1 - s.asked < 2 ^ 32
      omega
    obtain ⟨halong, hticks, hasked⟩ := ih (s := run step s [.tick, .now]) rfl
    rw [hhead, run_append]
    refine ⟨along_append.mpr ⟨htimely, halong⟩, hticks.trans ?_, hasked⟩
    exact Nat.add_right_comm s.ticks 1 n

theorem everyTick_nowMs (n : ℕ) (raw : UInt32) (timeout : ι → Timeout) :
    Along step Timely (start raw timeout) (everyTick n ++ [.now]) ∧
      (run step (start raw timeout) (everyTick n)).nowMs = UInt64.ofNat (20 * n) := by
  obtain ⟨halong, hticks, hasked⟩ := everyTick_run n (rfl : (start raw timeout).asked = _)
  have hall : Along step Timely (start raw timeout) (everyTick n ++ [.now]) := by
    refine along_append.mpr ⟨halong, along_cons.mpr ⟨fun _ => ?_, trivial⟩⟩
    rw [hasked, Nat.sub_self]
    decide
  refine ⟨hall, ?_⟩
  rw [nowMs_run hall rfl, hticks]
  exact congrArg (fun k => UInt64.ofNat (20 * k)) (Nat.zero_add n)

/-- After more than 500 million years the uptime starts again at zero. -/
theorem uptime_wraps :
    Along step Timely (start 0 fun _ : Unit => {}) (everyTick 922337203685477581 ++ [.now]) ∧
      (run step (start 0 fun _ : Unit => {}) (everyTick 922337203685477581)).ticks = 922337203685477581 ∧
      (run step (start 0 fun _ : Unit => {}) (everyTick 922337203685477580)).nowMs = 18446744073709551600 ∧
      (run step (start 0 fun _ : Unit => {}) (everyTick 922337203685477581)).nowMs = 4 := by
  obtain ⟨halong, hlast⟩ := everyTick_nowMs 922337203685477581 0 fun _ : Unit => ({} : Timeout)
  obtain ⟨-, hbefore⟩ := everyTick_nowMs 922337203685477580 0 fun _ : Unit => ({} : Timeout)
  obtain ⟨-, hticks, -⟩ := everyTick_run 922337203685477581
    (rfl : (start 0 fun _ : Unit => ({} : Timeout)).asked = _)
  refine ⟨halong, hticks.trans (Nat.zero_add _), hbefore.trans (by decide), hlast.trans (by decide)⟩

end Uptime

end QiranFirmware
