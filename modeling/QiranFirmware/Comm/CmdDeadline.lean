import QiranFirmware.Comm.CmdAnswers
import QiranFirmware.Svc.Clock
import QiranFirmware.Svc.FdirOver

/-! # Every command is answered in time

The command in flight is looked at in each service of the module. Its budget runs from the tick it was
accepted in, and the first service at which the budget is spent ends it. As a service comes once in a
cycle, it takes no more services than the budget has cycles.
-/
namespace QiranFirmware.Cmd

open Machine

section Proceeds

/-- What a part of the module does at a time: it may accept a command if there is none in flight. -/
def Proceeds (n : ℕ) (s s' : Cmd × Svc) : Prop :=
  Telling n s.2 → Telling n s'.2 ∧ s'.1.handler = s.1.handler ∧
    (s'.1.inflight = s.1.inflight ∨ s.1.inflight = none ∧ ∃ i, s'.1.inflight = some i ∧
      i.budget = .arm (UInt64.ofNat (20 * n)) i.id.cmdDef.budgetMs ∧ (s.1.handler i.id).isSome = true)

namespace Proceeds
variable {n : ℕ} {s s' s'' : Cmd × Svc}

theorem refl (s : Cmd × Svc) : Proceeds n s s := fun h => ⟨h, rfl, .inl rfl⟩

theorem trans (h : Proceeds n s s') (h' : Proceeds n s' s'') : Proceeds n s s'' := by
  intro htold
  obtain ⟨htold', hhandler, hinflight⟩ := h htold
  obtain ⟨htold'', hhandler', hinflight'⟩ := h' htold'
  refine ⟨htold'', hhandler'.trans hhandler, ?_⟩
  rw [hhandler] at hinflight'
  rcases hinflight with hsame | ⟨hnone, i, hi, haccepted⟩
  · rw [hsame] at hinflight'
    exact hinflight'
  · rcases hinflight' with hsame' | ⟨hnone', -⟩
    · exact .inr ⟨hnone, i, hsame'.trans hi, haccepted⟩
    · rw [hi] at hnone'
      cases hnone'

theorem foldl {κ : Type} {turn : Cmd × Svc → κ → Cmd × Svc} (h : ∀ s k, Proceeds n s (turn s k))
    (ks : List κ) (s : Cmd × Svc) : Proceeds n s (ks.foldl turn s) := by
  induction ks generalizing s with
  | nil => exact refl s
  | cons k ks ih => exact (h s k).trans (ih (turn s k))

end Proceeds

variable (answers : ℕ → HandlerRun) (stage : Stage) {n : ℕ}

theorem telling_invoke {v : Svc} (h : Telling n v) (handler : Handler) (first : Bool) (id : CmdId)
    (parameter : UInt32) (c : Cmd) :
    Telling n (invoke handler answers stage first id parameter c v).2.2 := by
  have hquiet (faults : List (FaultId × UInt32)) := Svc.Quiet.reportAll faults v
  exact h.congr (hquiet _).rawTick (hquiet _).time

theorem proceeds_dispatch (id : CmdId) (parameter : UInt32) (sequence : UInt16) (receiptMs : UInt32)
    (c : Cmd) (v : Svc) (hidle : c.inflight = none) :
    Proceeds n (c, v) (dispatch answers stage id parameter sequence receiptMs c v) := by
  intro htold
  unfold dispatch
  cases hhandler : c.handler id with
  | none => exact ⟨htold.congr rfl rfl, rfl, .inl rfl⟩
  | some h =>
    have hcall := telling_invoke answers stage htold h true id parameter c
    dsimp only
    split
    · exact ⟨hcall.congr rfl rfl, rfl, .inl rfl⟩
    · refine ⟨hcall.collectTime.congr rfl rfl, rfl, .inr ⟨hidle, _, rfl, ?_, ?_⟩⟩
      · rw [hcall.nowMs]
      · rw [hhandler]
        rfl
    · exact ⟨hcall.congr rfl rfl, rfl, .inl rfl⟩

theorem proceeds_process (frame : List UInt8) (c : Cmd) (v : Svc) :
    Proceeds n (c, v) (process answers stage frame c v) := by
  intro htold
  have hread : Telling n v.collectTime := Telling.collectTime htold
  unfold process
  dsimp only
  split
  · exact ⟨hread.congr rfl rfl, rfl, .inl rfl⟩
  split
  · exact ⟨hread.congr rfl rfl, rfl, .inl rfl⟩
  split
  · exact ⟨hread.congr rfl rfl, rfl, .inl rfl⟩
  rename_i hidle
  split
  · exact ⟨hread.congr rfl rfl, rfl, .inl rfl⟩
  split
  · exact ⟨hread.congr rfl rfl, rfl, .inl rfl⟩
  · exact proceeds_dispatch answers stage _ _ _ _ _ _ hidle hread

theorem proceeds_takeByte (s : Cmd × Svc) (b : UInt8) :
    Proceeds n s (takeByte answers stage s b) := by
  unfold takeByte
  split
  · exact .refl s
  dsimp only
  split
  · split
    · intro htold
      exact proceeds_process answers stage (s.1.asm ++ [b]) { s.1 with asm := s.1.asm ++ [b] } s.2 htold
    · exact fun htold => ⟨htold, rfl, .inl rfl⟩
  · exact fun htold => ⟨htold, rfl, .inl rfl⟩

theorem proceeds_assembleLoop (fuel : ℕ) (rx : Ring) (s : Cmd × Svc) :
    Proceeds n s (assembleLoop answers stage fuel (rx, s)).2 := by
  rw [assembleLoop_taken]
  exact .foldl (proceeds_takeByte answers stage) _ s

theorem proceeds_submit (frame : List UInt8) (c : Cmd) (v : Svc) :
    Proceeds n (c, v) (submit answers stage frame c v).2 := by
  unfold submit
  split
  · exact .refl _
  split
  · exact .refl _
  split
  · exact .refl _
  · exact proceeds_process answers stage frame c v

/-- The command that is still in flight behind a look at it has not spent its budget. -/
theorem track_spec {v : Svc} (htold : Telling n v) (c : Cmd) :
    Telling n (track answers stage c v).2 ∧ (track answers stage c v).1.handler = c.handler ∧
      ∀ i, (track answers stage c v).1.inflight = some i → c.inflight = some i ∧
        ((c.handler i.id).isSome = true → i.budget.expired (UInt64.ofNat (20 * n)) = false) := by
  unfold track
  cases hinflight : c.inflight with
  | none => exact ⟨htold, rfl, fun i hi => absurd (hinflight.symm.trans hi) (by simp)⟩
  | some i =>
    dsimp only
    cases hhandler : c.handler i.id with
    | none =>
      refine ⟨htold, rfl, fun j hj => ?_⟩
      obtain rfl : i = j := Option.some.inj (hinflight.symm.trans hj)
      rw [hhandler]
      exact ⟨rfl, fun h => absurd h (by simp)⟩
    | some h =>
      have hcall := telling_invoke answers stage htold h false i.id i.parameter c
      have hended {j : Inflight} {P : Prop} (hj : (none : Option Inflight) = some j) : P := by cases hj
      dsimp only
      split
      · have hexpired : (Svc.timeoutExpired i.budget (invoke h answers stage false i.id i.parameter c v).2.2).1 =
            i.budget.expired (UInt64.ofNat (20 * n)) := by
          rw [Svc.timeoutExpired, hcall.nowMs]
        have hasked : Telling n
            (Svc.timeoutExpired i.budget (invoke h answers stage false i.id i.parameter c v).2.2).2 := by
          rw [Svc.timeoutExpired]
          split
          · exact hcall.collectTime
          · exact hcall
        split
        · exact ⟨hasked.congr rfl rfl, rfl, fun j hj => hended hj⟩
        · rename_i hleft
          rw [hexpired, Bool.not_eq_true] at hleft
          refine ⟨hasked, rfl, fun j hj => ?_⟩
          obtain rfl : i = j := Option.some.inj (hinflight.symm.trans hj)
          exact ⟨rfl, fun _ => hleft⟩
      · exact ⟨hcall.congr rfl rfl, rfl, fun j hj => hended hj⟩
      · exact ⟨hcall.congr rfl rfl, rfl, fun j hj => hended hj⟩

end Proceeds

/-- The command module and the services in the time that passes, with the frames received and the line
as in `Answering`. `ticks` is what the interrupt has counted; `accepted` is when the command in flight was
accepted, `looks` how many services have looked at it since, and `served` when the last service was. -/
structure Clock where
  cmd : Cmd
  v : Svc
  received : List (List UInt8 × UInt32) := []
  line : List UInt8 := []
  ticks : ℕ := 0
  accepted : ℕ := 0
  looks : ℕ := 0
  served : Option ℕ := none

/-- A tick, the operations of the module, a reading of the time by another module, and whatever other
modules do to the faults and the log. -/
inductive ClockOp
  | tick
  | register (id : CmdId)
  | submit (answers : ℕ → HandlerRun) (stage : Stage) (frame : List UInt8)
  | interrupts (u : Uart)
  | service (answers : ℕ → HandlerRun) (stage : Stage) (u : Uart)
  | readTime
  | others (fdir : Fdir) (log : Log) (trace : List SvcCall)

namespace Clock

def start (transmit : Bool) (rawTick : UInt32) : Clock where
  cmd := { transmit }
  v := { rawTick, time := Time.init rawTick }

def noted (before : Option Inflight) (s : Clock) : Clock :=
  if before = none then { s with accepted := s.ticks, looks := 0 } else s

def taking (op : AnsweringOp) (r : Cmd × Svc) (s : Clock) : Clock :=
  { s with
    cmd := r.1
    v := r.2
    received := s.received ++ (op.frames s.line).map (·, op.nowMs)
    line := op.lineAfter s.line }

def step (s : Clock) : ClockOp → Clock
  | .tick => { s with v := { s.v with rawTick := s.v.rawTick + 1 }, ticks := s.ticks + 1 }
  | .register id => { s with cmd := (Cmd.register id s.cmd).2 }
  | .submit answers stage frame =>
    (s.taking (.submit answers stage frame s.v) (Cmd.submit answers stage frame s.cmd s.v).2).noted
      s.cmd.inflight
  | .interrupts u =>
    { s with
      cmd := (serviceInterrupts u s.cmd).2
      line := (AnsweringOp.interrupts u).lineAfter s.line }
  | .service answers stage u =>
    { s.taking (.service answers stage u s.v) (Cmd.service answers stage u s.cmd s.v).2 with
      looks := s.looks + 1, served := some s.ticks }.noted (track answers stage s.cmd s.v).1.inflight
  | .readTime => { s with v := s.v.collectTime }
  | .others fdir log trace => { s with v := { s.v with fdir, log, trace } }

def isService : ClockOp → Bool
  | .service .. => true
  | _ => false

/-- The time is read often enough, and a service comes once in a cycle at most. -/
def Regular (s : Clock) (op : ClockOp) : Prop :=
  InTime s.ticks s.v ∧ 20 * s.ticks + 2 ^ 32 < 2 ^ 64 ∧ (isService op = true → ∀ t ∈ s.served, t < s.ticks)

instance (s : Clock) (op : ClockOp) : Decidable (Regular s op) :=
  inferInstanceAs (Decidable (InTime _ _ ∧ _ ∧ (_ → _)))

structure Timed (s : Clock) (i : Inflight) : Prop where
  budget : i.budget = .arm (UInt64.ofNat (20 * s.accepted)) i.id.cmdDef.budgetMs
  handled : (s.cmd.handler i.id).isSome = true
  past : s.accepted ≤ s.ticks
  looks : s.looks = 0 ∨ ∃ t ∈ s.served, s.accepted + s.looks ≤ t + 1 ∧
    20 * (t - s.accepted) < i.id.cmdDef.budgetMs.toNat

structure Keeps (s : Clock) : Prop where
  clocked : Clocked s.ticks s.v
  timed : ∀ i, s.cmd.inflight = some i → s.Timed i
  scanned : Scanned s.line s.cmd.asm
  accounted : ∃ replies, Accounted (ledger s.cmd) s.received replies

theorem keeps_start (transmit : Bool) (rawTick : UInt32) : (start transmit rawTick).Keeps where
  clocked := ⟨le_rfl, (UInt32.add_zero rawTick).symm⟩
  timed i hi := absurd hi (by simp [start])
  scanned := .nil
  accounted := ⟨[], accounted_init transmit⟩

theorem handler_interruptsLoop (fuel : ℕ) (r : IrqSlot × Cmd) :
    (interruptsLoop fuel r).2.handler = r.2.handler := by
  induction fuel generalizing r with
  | zero => rfl
  | succ fuel ih =>
    simp only [interruptsLoop]
    split
    · rfl
    · rw [ih]
      unfold onEvent
      split <;> rfl

theorem handled_register (id : CmdId) {c : Cmd} {id' : CmdId} (h : (c.handler id').isSome = true) :
    ((Cmd.register id c).2.handler id').isSome = true := by
  unfold Cmd.register
  split
  · exact h
  · dsimp only
    by_cases he : id' = id
    · rw [he, Function.update_self]
      rfl
    · rw [Function.update_of_ne he]
      exact h

variable {s : Clock}

theorem Keeps.noted {before : Option Inflight} (hclocked : Clocked s.ticks s.v)
    (htimed : ∀ i, s.cmd.inflight = some i → (s.noted before).Timed i) (hscanned : Scanned s.line s.cmd.asm)
    (haccounted : ∃ replies, Accounted (ledger s.cmd) s.received replies) : (s.noted before).Keeps := by
  unfold Clock.noted at htimed ⊢
  split
  · rename_i hnone
    rw [if_pos hnone] at htimed
    exact ⟨hclocked, htimed, hscanned, haccounted⟩
  · rename_i hsome
    rw [if_neg hsome] at htimed
    exact ⟨hclocked, htimed, hscanned, haccounted⟩

/-- A command accepted now, or the one in flight. -/
theorem timed_noted {n : ℕ} {c c' : Cmd} {v v' : Svc} {r : Clock} (hproceeds : Proceeds n (c, v) (c', v'))
    (htold : Telling n v) (hcmd : r.cmd = c') (hticks : r.ticks = n)
    (hkept : ∀ i, c.inflight = some i → (c'.handler i.id).isSome = true → r.Timed i) (i : Inflight)
    (hhandled : ∀ i, c.inflight = some i → (c.handler i.id).isSome = true) (hi : c'.inflight = some i) :
    (r.noted c.inflight).Timed i := by
  obtain ⟨-, hhandler, hinflight⟩ := hproceeds htold
  dsimp only at hhandler hinflight
  cases hbefore : c.inflight with
  | none =>
    rw [noted, if_pos rfl]
    rcases hinflight with hsame | ⟨-, j, hj, hbudget, hsome⟩
    · rw [hi, hbefore] at hsame
      cases hsame
    · obtain rfl : i = j := Option.some.inj (hi.symm.trans hj)
      refine ⟨?_, ?_, le_rfl, .inl rfl⟩
      · rw [hticks]
        exact hbudget
      · rw [hcmd, hhandler]
        exact hsome
  | some j =>
    rw [noted, if_neg (by simp)]
    rcases hinflight with hsame | ⟨hnone, -⟩
    · refine hkept i (hsame.symm.trans hi) ?_
      rw [hhandler]
      exact hhandled i (hsame.symm.trans hi)
    · rw [hbefore] at hnone
      cases hnone

theorem Timed.looked {i : Inflight} (h : s.Timed i) (hsmall : 20 * s.ticks + 2 ^ 32 < 2 ^ 64)
    (hserved : ∀ t ∈ s.served, t < s.ticks) (hleft : i.budget.expired (UInt64.ofNat (20 * s.ticks)) = false)
    {r : Clock} (hhandled : (r.cmd.handler i.id).isSome = true) (hr : r.accepted = s.accepted ∧
      r.ticks = s.ticks ∧ r.looks = s.looks + 1 ∧ r.served = some s.ticks) : r.Timed i := by
  obtain ⟨haccepted, hticks, hlooks, hserved'⟩ := hr
  have hlt := i.id.cmdDef.budgetMs.toNat_lt
  have hpast := h.past
  have hspent := (Timeout.armed_spec (Nat.mul_le_mul_left 20 hpast)
    (show 20 * s.ticks < 2 ^ 64 by omega)
    (show 20 * s.accepted + i.id.cmdDef.budgetMs.toNat < 2 ^ 64 by omega)).1
  rw [← h.budget, hleft] at hspent
  have hless : ¬ i.id.cmdDef.budgetMs.toNat ≤ 20 * s.ticks - 20 * s.accepted :=
    fun hle => Bool.false_ne_true (hspent.mpr hle)
  refine ⟨?_, hhandled, ?_, .inr ⟨s.ticks, hserved', ?_, ?_⟩⟩
  · rw [haccepted]
    exact h.budget
  · rw [haccepted, hticks]
    exact hpast
  · rw [haccepted, hlooks]
    rcases h.looks with hnone | ⟨t, ht, hle, -⟩
    · omega
    · have hbefore := hserved t ht
      omega
  · rw [haccepted]
    omega

theorem Timed.later {r : Clock} {i : Inflight} (h : s.Timed i) (hhandled : (r.cmd.handler i.id).isSome = true)
    (haccepted : r.accepted = s.accepted) (hticks : s.ticks ≤ r.ticks) (hlooks : r.looks = s.looks)
    (hserved : r.served = s.served) : r.Timed i := by
  obtain ⟨hbudget, -, hpast, hlooked⟩ := h
  refine ⟨?_, hhandled, ?_, ?_⟩
  · rw [haccepted]
    exact hbudget
  · rw [haccepted]
    exact hpast.trans hticks
  · rw [hlooks, hserved, haccepted]
    exact hlooked

/-- An operation that has nothing to do with the command in flight. -/
theorem Keeps.next (h : s.Keeps) {c : Cmd} {v : Svc} {n : ℕ} (hclocked : Clocked n v) (hn : s.ticks ≤ n)
    (hinflight : c.inflight = s.cmd.inflight)
    (hhandler : ∀ id, (s.cmd.handler id).isSome = true → (c.handler id).isSome = true)
    (hledger : ledger c = ledger s.cmd) {line : List UInt8} (hscanned : Scanned line c.asm) :
    Keeps { s with cmd := c, v, line, ticks := n } where
  clocked := hclocked
  timed i hi := by
    have hi' : s.cmd.inflight = some i := hinflight.symm.trans hi
    exact (h.timed i hi').later (hhandler i.id (h.timed i hi').handled) rfl hn rfl rfl
  scanned := hscanned
  accounted := by
    rw [hledger]
    exact h.accounted

theorem keeps_step (h : s.Keeps) {op : ClockOp} (hop : s.Regular op) : (s.step op).Keeps := by
  obtain ⟨hintime, hsmall, hserved⟩ := hop
  have htold : Telling s.ticks s.v := ⟨h.clocked, hintime⟩
  have hsome (i : Inflight) (hi : s.cmd.inflight = some i) : (s.cmd.handler i.id).isSome = true :=
    (h.timed i hi).handled
  cases op with
  | tick => exact h.next (h.clocked.later 1) (Nat.le_succ _) rfl (fun _ hid => hid) rfl h.scanned
  | register id =>
    have hscanned := (scanned_op (.register id) h.scanned).1
    simp only [AnsweringOp.lineAfter, AnsweringOp.bytes, List.append_nil] at hscanned
    refine h.next h.clocked le_rfl ?_ ?_ ?_ hscanned
    · unfold Cmd.register
      split <;> rfl
    · exact fun _ hid => handled_register id hid
    · unfold Cmd.register
      split <;> rfl
  | interrupts u =>
    have hledger : ledger (serviceInterrupts u s.cmd).2 = ledger s.cmd := ledger_interruptsLoop 9 (u.irq, s.cmd)
    have hscanned := (scanned_op (.interrupts u) h.scanned).1
    refine h.next h.clocked le_rfl (congrArg Ledger.inflight hledger) ?_ hledger hscanned
    intro id hid
    rw [serviceInterrupts, handler_interruptsLoop]
    exact hid
  | submit answers stage frame =>
    have hproceeds := @proceeds_submit answers stage s.ticks frame s.cmd s.v
    have haccounted := accounted_op (.submit answers stage frame s.v) h.scanned h.accounted
    have hscanned := (scanned_op (.submit answers stage frame s.v) h.scanned).1
    obtain ⟨st, c, v, hsubmit⟩ : ∃ st c v, Cmd.submit answers stage frame s.cmd s.v = (st, c, v) :=
      ⟨_, _, _, rfl⟩
    simp only [AnsweringOp.run, hsubmit] at hproceeds haccounted hscanned
    simp only [step, hsubmit]
    refine Keeps.noted (hproceeds htold).1.1 ?_ hscanned haccounted
    intro i hi
    refine timed_noted hproceeds htold ?_ ?_ ?_ i hsome hi
    · rfl
    · rfl
    · intro j hj hhandled
      exact (h.timed j hj).later hhandled rfl le_rfl rfl rfl
  | service answers stage u =>
    have haccounted := accounted_op (.service answers stage u s.v) h.scanned h.accounted
    have hscanned := (scanned_op (.service answers stage u s.v) h.scanned).1
    obtain ⟨htracked, hhandler, hlooked⟩ := track_spec answers stage htold s.cmd
    obtain ⟨c, v, htrack⟩ : ∃ c v, track answers stage s.cmd s.v = (c, v) := ⟨_, _, rfl⟩
    have hproceeds := @proceeds_assembleLoop answers stage s.ticks 5 u.rx (c, v)
    obtain ⟨rx, c', v', hassemble⟩ : ∃ rx c' v', assembleLoop answers stage 5 (u.rx, c, v) = (rx, c', v') :=
      ⟨_, _, _, rfl⟩
    simp only [AnsweringOp.run, service, htrack, assemble, hassemble] at haccounted hscanned
    rw [htrack] at htracked hhandler hlooked
    rw [hassemble] at hproceeds
    simp only [step, service, htrack, assemble, hassemble]
    refine Keeps.noted (hproceeds htracked).1.1 ?_ hscanned haccounted
    intro i hi
    refine timed_noted hproceeds htracked ?_ ?_ ?_ i ?_ hi
    · rfl
    · rfl
    · intro j hj hhandled
      obtain ⟨hj', hleft⟩ := hlooked j hj
      exact (h.timed j hj').looked hsmall (hserved rfl) (hleft (hsome j hj')) hhandled ⟨rfl, rfl, rfl, rfl⟩
    · intro j hj
      dsimp only at hhandler
      rw [hhandler]
      exact hsome j (hlooked j hj).1
  | readTime => exact h.next htold.collectTime.1 le_rfl rfl (fun _ hid => hid) rfl h.scanned
  | others fdir log trace =>
    have hclocked : Clocked s.ticks { s.v with fdir, log, trace } := h.clocked.congr rfl rfl
    exact h.next hclocked le_rfl rfl (fun _ hid => hid) rfl h.scanned

def Busy (answers : ℕ → HandlerRun) (stage : Stage) (i : Inflight) (s : Clock) : Prop :=
  ∃ h ∈ s.cmd.handler i.id, (invoke h answers stage false i.id i.parameter s.cmd s.v).1 = .errBusy

instance (answers : ℕ → HandlerRun) (stage : Stage) (i : Inflight) (s : Clock) :
    Decidable (s.Busy answers stage i) := inferInstanceAs (Decidable (∃ _ ∈ _, _))

theorem track_busy {answers : ℕ → HandlerRun} {stage : Stage} {i : Inflight} (htold : Telling s.ticks s.v)
    (hi : s.cmd.inflight = some i) (hbusy : s.Busy answers stage i) :
    (track answers stage s.cmd s.v).1.inflight = none ↔
      i.budget.expired (UInt64.ofNat (20 * s.ticks)) = true := by
  obtain ⟨h, hhandler, hbusy⟩ := hbusy
  have hcall := telling_invoke answers stage htold h false i.id i.parameter s.cmd
  have hexpired : (Svc.timeoutExpired i.budget (invoke h answers stage false i.id i.parameter s.cmd s.v).2.2).1 =
      i.budget.expired (UInt64.ofNat (20 * s.ticks)) := by
    rw [Svc.timeoutExpired, hcall.nowMs]
  have hkept : (invoke h answers stage false i.id i.parameter s.cmd s.v).2.1.inflight = some i := hi
  unfold track
  simp only [hi, Option.mem_def.mp hhandler, hbusy, hexpired]
  split
  · rename_i hspent
    exact iff_of_true rfl hspent
  · rename_i hleft
    exact iff_of_false (fun hnone => by cases hkept.symm.trans hnone) hleft

def Awaited (s : Clock) (i : Inflight) : Prop :=
  20 * (s.looks - 1) < i.id.cmdDef.budgetMs.toNat ∧
    (s.looks = 0 ∨ ∃ t ∈ s.served, 20 * (t - s.accepted) < i.id.cmdDef.budgetMs.toNat)

theorem budget_pos (id : CmdId) : 0 < id.cmdDef.budgetMs.toNat := by
  cases id <;> decide

theorem Timed.awaited {i : Inflight} (h : s.Timed i) : s.Awaited i := by
  have hpos := budget_pos i.id
  rcases h.looks with hnone | ⟨t, ht, hle, hlt⟩
  · refine ⟨?_, .inl hnone⟩
    rw [hnone]
    exact hpos
  · exact ⟨by omega, .inr ⟨t, ht, hlt⟩⟩

/-- In every run in which time is read often enough and a service comes at most once a cycle: every frame
submitted or found on the line has its one final answer but for the command in flight, and that one has not
been looked at longer than its budget. While its handler is busy, a service ends it just when its budget is spent. -/
theorem answered_in_time {transmit : Bool} {rawTick : UInt32} {ops : List ClockOp}
    (h : Along step Regular (start transmit rawTick) ops) :
    let s := run step (start transmit rawTick) ops
    ∃ replies, Accounted (ledger s.cmd) s.received replies ∧
      (∀ k < s.received.length, Settled replies k ∨ ∃ i, s.cmd.inflight = some i ∧
        answersTo replies k = [.accepted] ∧ s.Awaited i) ∧
      ∀ i answers stage u, s.cmd.inflight = some i → s.Regular (.service answers stage u) →
        s.Busy answers stage i →
        ((track answers stage s.cmd s.v).1.inflight = none ↔
          i.id.cmdDef.budgetMs.toNat ≤ 20 * (s.ticks - s.accepted)) := by
  have hkeeps : (run step (start transmit rawTick) ops).Keeps :=
    @run_invariant _ _ step Regular Keeps (fun _ _ hs hop => keeps_step hs hop) _ _
      (keeps_start transmit rawTick) h
  obtain ⟨s, hs⟩ : ∃ s, run step (start transmit rawTick) ops = s := ⟨_, rfl⟩
  rw [hs] at hkeeps ⊢
  obtain ⟨hclocked, htimed, -, replies, haccounted⟩ := hkeeps
  refine ⟨replies, haccounted, fun k hk => ?_, fun i answers stage u hi hregular hbusy => ?_⟩
  · cases hinflight : s.cmd.inflight with
    | none => exact .inl (haccounted.idle hinflight k hk)
    | some i =>
      obtain ⟨j, r, -, -, hj, hothers⟩ := haccounted.busy i hinflight
      by_cases hkj : k = j
      · subst hkj
        exact .inr ⟨i, rfl, hj, (htimed i hinflight).awaited⟩
      · exact .inl (hothers k hk hkj)
  · obtain ⟨hintime, hsmall, -⟩ := hregular
    have hlt := i.id.cmdDef.budgetMs.toNat_lt
    have hpast := (htimed i hi).past
    have hspent := (Timeout.armed_spec (Nat.mul_le_mul_left 20 hpast)
      (show 20 * s.ticks < 2 ^ 64 by omega)
      (show 20 * s.accepted + i.id.cmdDef.budgetMs.toNat < 2 ^ 64 by omega)).1
    rw [track_busy ⟨hclocked, hintime⟩ hi hbusy, (htimed i hi).budget, hspent, Nat.mul_sub]

/-- A command that stays busy, in the first service after it has been accepted. -/
theorem answered_in_time_busy :
    let s := run step (start true 0) [.register .laserOn,
      .submit (fun _ => { status := .errBusy }) .precond (build .laserOn 0 7), .tick,
      .service (fun _ => { status := .errBusy }) .precond { }]
    s.cmd.inflight.isSome = true ∧ ∃ replies, Accounted (ledger s.cmd) s.received replies ∧
      ∀ k < s.received.length, Settled replies k ∨ ∃ i, s.cmd.inflight = some i ∧
        answersTo replies k = [.accepted] ∧ s.Awaited i := by
  obtain ⟨replies, haccounted, hall, -⟩ := @answered_in_time true 0 [.register .laserOn,
    .submit (fun _ => { status := .errBusy }) .precond (build .laserOn 0 7), .tick,
    .service (fun _ => { status := .errBusy }) .precond { }] (by decide +kernel)
  exact ⟨by decide +kernel, replies, haccounted, hall⟩

end Clock

end QiranFirmware.Cmd
