import QiranFirmware.Comm.HkRefines
import QiranFirmware.Svc.Clock
import Mathlib.Data.List.Chain

/-! # The order and the pace of the frames

The loop sends what is staged before it stages the next frame, so that no frame is replaced before it
has been sent. A frame is due when its interval has passed since the last attempt.
-/
namespace QiranFirmware

open Machine

namespace HkLink

def stagedFrames (l : HkLink) : List HkFrame :=
  if l.staged = 0 then [] else [HkFrame.read l.frame]

theorem read_staged {l : HkLink} {f : HkFrame} (h : Holds (some f) l) : HkFrame.read l.frame = f := by
  have hbytes : l.frame.bytes 0 56 = [] ++ frameBytes f.fields := h.2.2
  exact HkFrame.read_of_laid ((FrameField.laid_append ..).mp (FrameField.laid_of_bytes hbytes)).1

theorem toList_held {held : Option HkFrame} {l : HkLink} (h : Holds held l) :
    held.toList = l.stagedFrames := by
  cases held with
  | none => exact (if_pos h).symm
  | some f =>
    have hne : l.staged ≠ 0 := by
      rw [h.2.1]
      decide
    rw [stagedFrames, if_neg hne, read_staged h]
    rfl

variable {answers : ℕ → TransmitRun} {l : HkLink} {v : Svc}

structure Unstaged (l l' : HkLink) : Prop where
  staged : l'.staged = l.staged
  attempted : l'.attempted = l.attempted
  lastAttemptMs : l'.lastAttemptMs = l.lastAttemptMs

theorem unstaged_transmit (data : List UInt8) : Unstaged l (transmit answers data l v).2.1 := by
  unfold transmit
  split
  · exact ⟨rfl, rfl, rfl⟩
  · dsimp only
    split <;> exact ⟨rfl, rfl, rfl⟩

theorem unstaged_statusSend (report : StatusReport) :
    Unstaged l (statusSend answers report l v).2.1 := by
  obtain ⟨status, heq⟩ := statusSend_eq answers l v report
  obtain ⟨hstaged, hattempted, hlast⟩ := @unstaged_transmit answers { l with status } v.collectTime
    (frameBytes (Hk.statusFrameOf report v).fields)
  rw [heq]
  exact ⟨hstaged, hattempted, hlast⟩

theorem unstaged_hkTransmit : (hkTransmit answers l v).1.attempted = l.attempted ∧
    (hkTransmit answers l v).1.lastAttemptMs = l.lastAttemptMs := by
  obtain ⟨-, hattempted, hlast⟩ := @unstaged_transmit answers l v (l.frame.bytes 0 l.staged)
  unfold hkTransmit
  split
  · exact ⟨rfl, rfl⟩
  · exact ⟨hattempted, hlast⟩

theorem Unstaged.trans {l' l'' : HkLink} (h : Unstaged l l') (k : Unstaged l' l'') : Unstaged l l'' :=
  ⟨k.staged.trans h.staged, k.attempted.trans h.attempted, k.lastAttemptMs.trans h.lastAttemptMs⟩

theorem unstaged_kept (payload : PayloadStatus) (health : HealthVerdict) (l : HkLink) :
    Svc.KeptOver (uplink payload health answers) fun l' _ => Unstaged l l' where
  quiet _ _ _ _ h := h
  deliver call l' v _ h := by
    have hsend := @unstaged_statusSend answers l' { v with trace := v.trace ++ [.uplink call] }
      (reported payload health call l')
    rw [Svc.fst_deliverOver, uplink]
    exact h.trans hsend

end HkLink

namespace HkNode
variable {answers : ℕ → TransmitRun} {s : HkNode}

open HkLink

def isStage : HkOp → Bool
  | .stage .. => true
  | _ => false

/-- What does not stage a frame leaves the place for it as it is or empties it. -/
theorem unstaged_step {op : HkOp} (hstage : isStage op = false) (htransmit : op ≠ .transmit) :
    Unstaged s.link (s.step answers op).link ∧ (s.step answers op).mail = s.mail := by
  cases op with
  | tick | report | clear | setState => exact ⟨⟨rfl, rfl, rfl⟩, rfl⟩
  | setSampler | setInterlock => exact ⟨⟨rfl, rfl, rfl⟩, rfl⟩
  | pass c =>
    have hkept : Svc.KeptOver (s.uplink answers) fun l' _ => Unstaged s.link l' :=
      unstaged_kept s.payload s.health s.link
    have hpass := hkept.errorHandlingService c (v := s.v) ⟨rfl, rfl, rfl⟩
    simp only [step_pass]
    exact ⟨hpass, trivial⟩
  | reentry cause =>
    have hkept : Svc.KeptOver (s.uplink answers) fun l' _ => Unstaged s.link l' :=
      unstaged_kept s.payload s.health s.link
    have hnote := hkept.reentryNote cause (v := s.v) ⟨rfl, rfl, rfl⟩
    simp only [step_reentry]
    exact ⟨hnote, trivial⟩
  | ready =>
    have hsend := @unstaged_statusSend answers s.link s.v (readyReport s.payload s.health)
    simp only [step_ready]
    exact ⟨hsend, trivial⟩
  | stage => cases hstage
  | transmit => exact absurd rfl htransmit

theorem staged_transmit (s : HkNode) : (s.step answers .transmit).link.staged = 0 := by
  simp only [step_transmit, hkTransmit]
  split
  · assumption
  · rfl

/-- No frame is staged over one that waits to be sent. -/
def Unhurried (s : HkNode) : HkOp → Prop
  | .stage period _ _ _ => s.link.recent period s.v.nowMs = false → s.link.staged = 0
  | _ => True

theorem held_eq_none (h : s.Keeps) (hstaged : s.link.staged = 0) :
    (run Mailbox.step {} s.mail).held = none := by
  have hheld := h.1.held
  cases heq : (run Mailbox.step {} s.mail).held with
  | none => rfl
  | some f =>
    rw [heq] at hheld
    exact absurd (hheld.2.1.symm.trans hstaged) (by decide)

theorem free_step (h : s.Keeps) (hfree : Along Mailbox.step Mailbox.Free {} s.mail) {op : HkOp}
    (hop : Unhurried s op) : Along Mailbox.step Mailbox.Free {} (s.step answers op).mail := by
  by_cases hstage : isStage op = true
  · cases op with
    | stage period w lag late =>
      cases hrecent : s.link.recent period s.v.nowMs with
      | true =>
        rw [step_stage_of_recent w lag late hrecent]
        exact hfree
      | false =>
        have hnone := held_eq_none h (hop hrecent)
        rw [step_stage_of_due w lag late hrecent]
        exact along_append.mpr ⟨hfree, hnone, trivial⟩
    | tick | report | clear | pass | reentry | transmit | ready | setSampler | setInterlock |
      setState => cases hstage
  · by_cases htransmit : op = .transmit
    · subst htransmit
      rw [step_transmit]
      exact along_append.mpr ⟨hfree, trivial, trivial⟩
    · rw [(unstaged_step (Bool.not_eq_true _ ▸ hstage) htransmit).2]
      exact hfree

def MinorCycle (ops : List HkOp) : Prop :=
  ∃ before between after period w lag late,
    ops = before ++ .transmit :: (between ++ .stage period w lag late :: after) ∧
      ∀ op ∈ before ++ between ++ after, isStage op = false

theorem along_of_no_stage {ops : List HkOp} (h : ∀ op ∈ ops, isStage op = false) :
    Along (step answers) Unhurried s ops := by
  refine (along_of_forall h).mono ?_
  intro s op hop
  cases op with
  | stage => cases hop
  | tick | report | clear | pass | reentry | transmit | ready | setSampler | setInterlock |
    setState => trivial

theorem staged_run {ops : List HkOp} (h : ∀ op ∈ ops, isStage op = false)
    (hstaged : s.link.staged = 0) : (run (step answers) s ops).link.staged = 0 := by
  have hstep (s : HkNode) (op : HkOp) (hzero : s.link.staged = 0) (hop : isStage op = false) :
      (s.step answers op).link.staged = 0 := by
    by_cases htransmit : op = .transmit
    · subst htransmit
      exact staged_transmit s
    · rw [(unstaged_step hop htransmit).1.staged]
      exact hzero
  exact run_invariant hstep hstaged (along_of_forall h)

theorem along_minorCycle {ops : List HkOp} (h : MinorCycle ops) :
    Along (step answers) Unhurried s ops := by
  obtain ⟨before, between, after, period, w, lag, late, rfl, hall⟩ := h
  have hbefore : ∀ op ∈ before, isStage op = false := fun op hop => hall op (by simp [hop])
  have hbetween : ∀ op ∈ between, isStage op = false := fun op hop => hall op (by simp [hop])
  have hafter : ∀ op ∈ after, isStage op = false := fun op hop => hall op (by simp [hop])
  refine along_append.mpr ⟨along_of_no_stage hbefore, trivial, ?_⟩
  refine along_append.mpr ⟨along_of_no_stage hbetween, ?_, along_of_no_stage hafter⟩
  intro _
  exact staged_run hbetween (staged_transmit _)

theorem along_cycles {cycles : List (List HkOp)} (h : ∀ ops ∈ cycles, MinorCycle ops) :
    Along (step answers) Unhurried s cycles.flatten := by
  induction cycles generalizing s with
  | nil => trivial
  | cons ops cycles ih =>
    obtain ⟨hops, hrest⟩ := List.forall_mem_cons.mp h
    exact along_append.mpr ⟨along_minorCycle hops, ih hrest⟩

def InCycles (ops : List HkOp) : Prop :=
  ∃ cycles : List (List HkOp), ops = cycles.flatten ∧ ∀ cycle ∈ cycles, MinorCycle cycle

theorem all_of_cycles {rawTick : UInt32} {ops : List HkOp} (h : InCycles ops) :
    framesOn (run (step answers) (start rawTick) ops).link.wire ++
        (run (step answers) (start rawTick) ops).link.stagedFrames =
      (run (step answers) (start rawTick) ops).attempts.map HkAttempt.frame := by
  obtain ⟨cycles, rfl, hcycles⟩ := h
  have hstep (s : HkNode) (op : HkOp)
      (h : s.Keeps ∧ Along Mailbox.step Mailbox.Free {} s.mail) (hop : Unhurried s op) :
      (s.step answers op).Keeps ∧ Along Mailbox.step Mailbox.Free {} (s.step answers op).mail :=
    ⟨keeps_step h.1 op, free_step h.1 h.2 hop⟩
  obtain ⟨⟨hlinked, hputs⟩, hfree⟩ := run_invariant hstep ⟨keeps_start rawTick, trivial⟩
    (along_cycles hcycles)
  rw [← hputs, hlinked.out, ← toList_held hlinked.held]
  exact Mailbox.all_of_free hfree

section Pace

def Timely (s : HkNode) (_ : HkOp) : Prop := InTime s.ticks s.v

instance (s : HkNode) (op : HkOp) : Decidable (Timely s op) := inferInstanceAs (Decidable (InTime _ _))

theorem telling_statusSend {n : ℕ} {l : HkLink} {v : Svc} (h : Telling n v) (report : StatusReport) :
    Telling n (statusSend answers report l v).2.2 := by
  obtain ⟨status, heq⟩ := statusSend_eq answers l v report
  obtain ⟨faults, htransmit⟩ := @transmit_reports answers { l with status } v.collectTime
    (frameBytes (Hk.statusFrameOf report v).fields)
  have hquiet := Svc.Quiet.reportAll faults v.collectTime
  rw [heq]
  dsimp only
  rw [htransmit]
  exact h.collectTime.congr hquiet.rawTick hquiet.time

theorem telling_kept (n : ℕ) (payload : PayloadStatus) (health : HealthVerdict) :
    Svc.KeptOver (HkLink.uplink payload health answers) fun _ v => Telling n v where
  quiet _ _ _ hw h := h.congr hw.rawTick hw.time
  deliver call l v _ h := by
    have hcalled : Telling n { v with trace := v.trace ++ [.uplink call] } := h.congr rfl rfl
    have hsend := @telling_statusSend answers n l _ hcalled (reported payload health call l)
    obtain ⟨⟨st, l', w⟩, heq⟩ : ∃ r, statusSend answers (reported payload health call l) l
        { v with trace := v.trace ++ [.uplink call] } = r := ⟨_, rfl⟩
    rw [heq] at hsend
    rw [deliverOver_uplink payload health answers call l v heq]
    dsimp only
    split
    · exact hsend
    · exact hsend.congr rfl rfl

def Spaced (a b : HkAttempt) : Prop := a.ticks ≤ b.ticks ∧ b.period.toNat ≤ 20 * (b.ticks - a.ticks)

def Due (period : UInt32) (s : HkNode) : Prop :=
  ∀ a ∈ s.attempts.getLast?, period.toNat ≤ 20 * (s.ticks - a.ticks)

instance (period : UInt32) (s : HkNode) : Decidable (s.Due period) :=
  inferInstanceAs (Decidable (∀ _ ∈ _, _))

structure Paced (s : HkNode) : Prop where
  clocked : Clocked s.ticks s.v
  attempted : s.link.attempted = !s.attempts.isEmpty
  last : ∀ a ∈ s.attempts.getLast?,
    s.link.lastAttemptMs = UInt64.ofNat (20 * a.ticks) ∧ a.ticks ≤ s.ticks
  spaced : s.attempts.IsChain Spaced

theorem paced_start (rawTick : UInt32) : (start rawTick).Paced := by
  refine ⟨⟨le_rfl, ?_⟩, rfl, ?_, .nil⟩
  · exact (UInt32.add_zero rawTick).symm
  · intro a ha
    cases ha

theorem Paced.recent_iff (h : s.Paced) (hlt : InTime s.ticks s.v) (period : UInt32) :
    s.link.recent period s.v.nowMs = false ↔ s.Due period := by
  obtain ⟨hgap, hbound⟩ := hlt
  rw [h.clocked.nowMs hgap, recent, h.attempted, Due]
  cases hlast : s.attempts.getLast? with
  | none =>
    rw [List.getLast?_eq_none_iff.mp hlast]
    simp
  | some a =>
    have hne : s.attempts.isEmpty = false := by
      cases hattempts : s.attempts with
      | nil =>
        rw [hattempts] at hlast
        cases hlast
      | cons => rfl
    obtain ⟨hms, hle⟩ := h.last a hlast
    have hsplit := UInt64.ofNat_add (20 * a.ticks) (20 * (s.ticks - a.ticks))
    rw [← Nat.mul_add, Nat.add_sub_cancel' hle] at hsplit
    have hdiff : UInt64.ofNat (20 * s.ticks) - UInt64.ofNat (20 * a.ticks) =
        UInt64.ofNat (20 * (s.ticks - a.ticks)) := by
      rw [hsplit]
      grind
    have hlt : UInt64.ofNat (20 * (s.ticks - a.ticks)) < period.toUInt64 ↔
        20 * (s.ticks - a.ticks) < period.toNat := by
      rw [UInt64.lt_iff_toNat_lt, UInt64.toNat_ofNat_of_lt' (show _ < 2 ^ 64 by omega),
        UInt32.toNat_toUInt64]
    rw [hms, hne, hdiff, Bool.not_false, Bool.true_and, decide_eq_false_iff_not, hlt, Nat.not_lt]
    simp

theorem clocked_stage (h : Clocked s.ticks s.v) (hlt : InTime s.ticks s.v) {period : UInt32}
    (w : Watchdog) (lag late : UInt32) (hdue : s.link.recent period s.v.nowMs = false) :
    Clocked (s.ticks + lag.toNat + late.toNat) (hkStage period w lag late s.link s.v).2 := by
  obtain ⟨hgap, hbound⟩ := hlt
  have hlag := lag.toNat_lt
  obtain ⟨hread, hticks⟩ := h.collectTime hgap (by omega)
  have hframe : Clocked (s.ticks + lag.toNat) (lagging lag s.v) := hread.later lag
  have hasked : (lagging lag s.v).time.ticks.toNat = s.ticks := hticks
  obtain ⟨hread', hticks'⟩ := hframe.collectTime (by omega) (by omega)
  have hlater := hread'.later late
  have hlate := late.toNat_lt
  have hread'' := (hlater.collectTime (show _ < (lagging lag s.v).collectTime.time.ticks.toNat + 2 ^ 32 by
    omega) (by omega)).1
  obtain ⟨k, frame, heq, -⟩ := hkStage_of_due s.link s.v w lag late hdue
  rw [heq, build_svc]
  exact hread''.congr rfl rfl

theorem clocked_hkTransmit {n : ℕ} {l : HkLink} {v : Svc} (h : Clocked n v) :
    Clocked n (hkTransmit answers l v).2 := by
  obtain ⟨faults, heq⟩ := @transmit_reports answers l v (l.frame.bytes 0 l.staged)
  have hquiet := Svc.Quiet.reportAll faults v
  unfold hkTransmit
  split
  · exact h
  · dsimp only
    rw [heq]
    exact h.congr hquiet.rawTick hquiet.time

/-- What makes no attempt. -/
theorem Paced.next (h : s.Paced) {l : HkLink} {v : Svc} {mail : List (MailOp HkFrame)}
    (hclocked : Clocked s.ticks v) (hattempted : l.attempted = s.link.attempted)
    (hlast : l.lastAttemptMs = s.link.lastAttemptMs) : Paced { s with link := l, v, mail } where
  clocked := hclocked
  attempted := hattempted.trans h.attempted
  last a ha := ⟨hlast.trans (h.last a ha).1, (h.last a ha).2⟩
  spaced := h.spaced

theorem Paced.unstaged (h : s.Paced) {l : HkLink} {v : Svc} (hclocked : Clocked s.ticks v)
    (hl : Unstaged s.link l) : Paced { s with link := l, v } :=
  h.next hclocked hl.attempted hl.lastAttemptMs

theorem Paced.attempt (h : s.Paced) {period : UInt32} (hlt : InTime s.ticks s.v)
    (hdue : s.Due period) {n : ℕ} (hle : s.ticks ≤ n) {l : HkLink} {v : Svc} {frame : HkFrame}
    {mail : List (MailOp HkFrame)} (hclocked : Clocked n v) (hattempted : l.attempted = true)
    (hlast : l.lastAttemptMs = s.v.nowMs) : Paced { s with
      link := l, v, ticks := n, attempts := s.attempts ++ [⟨s.ticks, period, frame⟩], mail } where
  clocked := hclocked
  attempted := by simp [hattempted]
  last a ha := by
    rw [List.getLast?_concat] at ha
    obtain rfl := Option.mem_some_iff.mp ha
    exact ⟨hlast.trans (h.clocked.nowMs hlt.1), hle⟩
  spaced := by
    refine List.isChain_append.mpr ⟨h.spaced, .singleton _, ?_⟩
    intro a ha b hb
    obtain rfl := Option.mem_some_iff.mp hb
    exact ⟨(h.last a ha).2, hdue a ha⟩

theorem paced_step (h : s.Paced) {op : HkOp} (hlt : Timely s op) : (s.step answers op).Paced := by
  have htelling : Telling s.ticks s.v := ⟨h.clocked, hlt⟩
  cases op with
  | tick =>
    exact ⟨h.clocked.later 1, h.attempted, fun a ha => ⟨(h.last a ha).1, Nat.le_succ_of_le (h.last a ha).2⟩,
      h.spaced⟩
  | report id detail => exact h.next (h.clocked.congr rfl rfl) rfl rfl
  | clear id => exact h.next (h.clocked.congr rfl rfl) rfl rfl
  | setSampler sampler => exact h.unstaged h.clocked ⟨rfl, rfl, rfl⟩
  | setInterlock index status => exact h.unstaged h.clocked ⟨rfl, rfl, rfl⟩
  | setState payload health => exact ⟨h.clocked, h.attempted, h.last, h.spaced⟩
  | pass c =>
    have hunstaged := (@unstaged_step answers s (.pass c) rfl (by simp)).1
    have hkept : Svc.KeptOver (s.uplink answers) fun _ v => Telling s.ticks v :=
      telling_kept s.ticks s.payload s.health
    have hpass := hkept.errorHandlingService c (t := s.link) htelling
    simp only [step_pass] at hunstaged ⊢
    exact h.unstaged hpass.1 hunstaged
  | reentry cause =>
    have hunstaged := (@unstaged_step answers s (.reentry cause) rfl (by simp)).1
    have hkept : Svc.KeptOver (s.uplink answers) fun _ v => Telling s.ticks v :=
      telling_kept s.ticks s.payload s.health
    have hnote := hkept.reentryNote cause (t := s.link) htelling
    simp only [step_reentry] at hunstaged ⊢
    exact h.unstaged hnote.1 hunstaged
  | ready =>
    have hunstaged := (@unstaged_step answers s .ready rfl (by simp)).1
    have hsend := @telling_statusSend answers s.ticks s.link s.v htelling (readyReport s.payload s.health)
    simp only [step_ready] at hunstaged ⊢
    exact h.unstaged hsend.1 hunstaged
  | transmit =>
    have hunstaged := @unstaged_hkTransmit answers s.link s.v
    rw [step_transmit]
    exact h.next (clocked_hkTransmit h.clocked) hunstaged.1 hunstaged.2
  | stage period w lag late =>
    cases hrecent : s.link.recent period s.v.nowMs with
    | true =>
      rw [step_stage_of_recent w lag late hrecent]
      exact h.unstaged htelling.collectTime.1 ⟨rfl, rfl, rfl⟩
    | false =>
      have hclocked := clocked_stage h.clocked hlt w lag late hrecent
      obtain ⟨k, frame, heq, -⟩ := hkStage_of_due s.link s.v w lag late hrecent
      rw [step_stage_of_due w lag late hrecent]
      rw [heq] at hclocked ⊢
      exact h.attempt hlt ((h.recent_iff hlt period).mp hrecent) (by omega) hclocked rfl rfl

theorem paced_run {rawTick : UInt32} {ops : List HkOp}
    (h : Along (step answers) Timely (start rawTick) ops) :
    (run (step answers) (start rawTick) ops).Paced :=
  @run_invariant _ _ (step answers) Timely Paced (fun _ _ hs hok => paced_step hs hok) _ _
    (paced_start rawTick) h

/-- With intervals of at least `p` milliseconds so many attempts take their time. -/
theorem length_spaced {p : ℕ} {as : List HkAttempt} (h : as.IsChain Spaced)
    (hperiod : ∀ a ∈ as, p ≤ a.period.toNat) : ∀ b ∈ as.getLast?, (as.length - 1) * p ≤ 20 * b.ticks := by
  induction as using List.reverseRecOn with
  | nil => simp
  | append_singleton as b ih =>
    intro b' hb
    rw [List.getLast?_concat] at hb
    obtain rfl := Option.mem_some_iff.mp hb
    obtain ⟨hchain, -, hlast⟩ := List.isChain_append.mp h
    cases hprev : as.getLast? with
    | none =>
      rw [List.getLast?_eq_none_iff.mp hprev]
      simp
    | some a =>
      obtain ⟨hle, hgap⟩ := hlast a hprev b rfl
      have hpre := ih hchain (fun x hx => hperiod x (List.mem_append_left _ hx)) a hprev
      obtain ⟨k, hlength⟩ : ∃ k, as.length = k + 1 := by
        cases as with
        | nil => cases hprev
        | cons x as => exact ⟨as.length, rfl⟩
      have hb := hperiod b (by simp)
      rw [hlength, Nat.add_sub_cancel] at hpre
      rw [List.length_append, List.length_singleton, Nat.add_sub_cancel, hlength, Nat.add_mul, Nat.one_mul]
      omega

structure KeepsPace (answers : ℕ → TransmitRun) (s : HkNode) (ops : List HkOp) : Prop where
  spaced : (run (step answers) s ops).attempts.IsChain Spaced
  rate : ∀ p, (∀ a ∈ (run (step answers) s ops).attempts, p ≤ a.period.toNat) →
    ((framesOn (run (step answers) s ops).link.wire).length - 1) * p ≤
      20 * (run (step answers) s ops).ticks
  due : ∀ xs period w lag late ys, ops = xs ++ .stage period w lag late :: ys →
    (run (step answers) s (xs ++ [.stage period w lag late])).attempts =
      (run (step answers) s xs).attempts ++ if (run (step answers) s xs).Due period then
        [⟨(run (step answers) s xs).ticks, period, Hk.frameOf w late (run (step answers) s xs).link.toHk
          (lagging lag (run (step answers) s xs).v)⟩] else []

theorem keepsPace_of_timely (answers : ℕ → TransmitRun) (rawTick : UInt32) {ops : List HkOp}
    (h : Along (step answers) Timely (start rawTick) ops) :
    KeepsPace answers (start rawTick) ops := by
  have hpaced := paced_run h
  refine ⟨hpaced.spaced, ?_, ?_⟩
  · intro p hperiod
    have hsent := (framesSent_run answers rawTick ops).once.length_le
    rw [List.length_map] at hsent
    have hmul := Nat.mul_le_mul_right p (Nat.sub_le_sub_right hsent 1)
    cases hlast : (run (step answers) (start rawTick) ops).attempts.getLast? with
    | none =>
      rw [List.getLast?_eq_none_iff.mp hlast] at hmul
      simp only [List.length_nil, Nat.zero_sub, Nat.zero_mul] at hmul
      omega
    | some a =>
      have hlength := length_spaced hpaced.spaced hperiod a hlast
      have hle := (hpaced.last a hlast).2
      omega
  · rintro xs period w lag late ys rfl
    obtain ⟨hxs, htimely, -⟩ := along_append.mp h
    have hrecent := (paced_run hxs).recent_iff htimely period
    rw [run_append]
    by_cases hdue : (run (step answers) (start rawTick) xs).Due period
    · rw [if_pos hdue, run_cons, run_nil, step_stage_of_due w lag late (hrecent.mpr hdue)]
    · have hearly := Bool.of_not_eq_false fun hfalse => hdue (hrecent.mp hfalse)
      rw [if_neg hdue, run_cons, run_nil, step_stage_of_recent w lag late hearly, List.append_nil]

/-- The tick counter wraps between two frames 40 ms apart. -/
theorem keepsPace_across_wrap : KeepsPace (fun _ => {}) (start 0xFFFFFFFF)
    [.stage 40 {} 0 0, .transmit, .tick, .stage 40 {} 0 0, .tick, .stage 40 {} 0 0, .transmit] :=
  keepsPace_of_timely _ _ (by decide +kernel)

end Pace

end HkNode

end QiranFirmware
