import QiranFirmware.Comm.OutputCounts

/-! # The order in which packets leave

Among equal priorities the lowest slot is sent first, and a submission takes the lowest free slot.
So packets leave in the order of their submission as long as no submission finds a free slot below
a queued item of its own priority, which a partial drain can leave behind. Every buffer's name is
paired here with the time of its submission; the queue never looks at it.
-/
namespace QiranFirmware.Output

open Machine

variable {β : Type}

structure Queueing (β : Type) where
  out : Outbound (β × ℕ) := {}
  now : ℕ := 0

def stamp (now : ℕ) : OutboundOp β → OutboundOp (β × ℕ)
  | .submit cls data len => .submit cls (data, now) len
  | .service link mem answers => .service link (fun b => mem b.1) answers

def queueStep (s : Queueing β) (op : OutboundOp β) : Queueing β :=
  { out := outboundStep s.out (stamp s.now op), now := s.now + 1 }

def passOf (s : Queueing β) (link : SpwLink) : Pass (β × ℕ) :=
  { queue := s.out.queue, ccsds := s.out.ccsds, link, v := s.out.v }

section Erase
variable {γ : Type} (f : β → γ)

def renameItem (x : OutputItem β) : OutputItem γ := { data := f x.data, len := x.len, cls := x.cls }

def rename (q : Output β) : Output γ := { q with slot := fun i => (q.slot i).map (renameItem f) }

def renameSend (x : OutputSend β) : OutputSend γ := { x with item := renameItem f x.item }

def renamePass (p : Pass β) : Pass γ :=
  { p with queue := rename f p.queue, sends := p.sends.map (renameSend f) }

theorem update_rename (q : Output β) (k : ℕ) (x : Option (OutputItem β)) :
    (fun i => (Function.update q.slot k x i).map (renameItem f)) =
      Function.update (rename f q).slot k (x.map (renameItem f)) := by
  funext i
  by_cases hi : i = k
  · subst hi
    simp
  · simp [Function.update_of_ne hi, rename]

theorem submit_rename (cls : CcsdsClass) (data : β) (len : UInt32) (q : Output β) (v : Svc) :
    submit cls (f data) len (rename f q) v =
      ((submit cls data len q v).1, rename f (submit cls data len q v).2.1,
        (submit cls data len q v).2.2) := by
  have hfree : (List.range depth).find? (fun i => ((rename f q).slot i).isNone) =
      (List.range depth).find? fun i => (q.slot i).isNone := by
    simp [rename]
  unfold submit
  rw [hfree]
  split
  · rfl
  split
  · rfl
  cases (List.range depth).find? fun i => (q.slot i).isNone with
  | none => rfl
  | some i =>
    simp only [rename, update_rename]
    rfl

theorem pick_rename (q : Output β) : (rename f q).pick = q.pick := by
  have hbetter : better (rename f q) = better q := by
    funext best i
    unfold better
    simp only [rename]
    cases q.slot i <;> rfl
  rw [pick, pick, hbetter]

theorem turn_rename (mem : γ → Buf) (answer : Status) (p : Pass β) :
    turn mem answer (renamePass f p) =
      ((turn (mem ∘ f) answer p).1, renamePass f (turn (mem ∘ f) answer p).2) := by
  by_cases hrun : p.link.running = true
  swap
  · simp [turn, renamePass, hrun]
  cases hpick : p.queue.pick with
  | none => simp [turn, renamePass, pick_rename, hrun, hpick]
  | some i =>
    obtain ⟨-, item, hitem⟩ := pick_spec hpick
    have hitem' : (rename f p.queue).slot i = some (renameItem f item) := by
      simp [rename, hitem]
    have hfreed : Function.update (rename f p.queue).slot i none =
        fun j => (Function.update p.queue.slot i none j).map (renameItem f) :=
      (update_rename f p.queue i none).symm
    obtain ⟨⟨st, packet, written, ccsds⟩, hbuild⟩ : ∃ r, Ccsds.build item.cls (mem (f item.data))
        item.len p.queue.packet packetBytes p.ccsds = r := ⟨_, rfl⟩
    have hbuild' : Ccsds.build (renameItem f item).cls (mem (renameItem f item).data)
        (renameItem f item).len (rename f p.queue).packet packetBytes p.ccsds =
        (st, packet, written, ccsds) := hbuild
    obtain ⟨⟨status, link, v⟩, hsend⟩ : ∃ r, p.link.send answer written p.v = r := ⟨_, rfl⟩
    by_cases hst : st = .ok
    · by_cases hok : status = .ok
      · simp [turn, renamePass, renameSend, pick_rename, hrun, hpick, hitem, hitem', hbuild, hbuild',
          hst, hsend, hok, hfreed]
        rfl
      · simp [turn, renamePass, renameSend, pick_rename, hrun, hpick, hitem, hitem', hbuild, hbuild',
          hst, hsend, hok]
        rfl
    · simp [turn, renamePass, pick_rename, hrun, hpick, hitem, hitem', hbuild, hbuild', hst, hfreed]
      exact ⟨rfl, rfl⟩

theorem service_rename (mem : γ → Buf) (answers : ℕ → Status) (p : Pass β) :
    service mem answers (renamePass f p) = renamePass f (service (mem ∘ f) answers p) := by
  have hloop : ∀ fuel p, loop mem answers fuel (renamePass f p) =
      renamePass f (loop (mem ∘ f) answers fuel p) := by
    intro fuel
    induction fuel with
    | zero => exact fun p => rfl
    | succ fuel ih =>
      intro p
      have hlength : (renamePass f p).sends.length = p.sends.length := by simp [renamePass]
      simp only [loop, turn_rename, hlength]
      cases turn (mem ∘ f) (answers p.sends.length) p with
      | mk go p' =>
        cases go with
        | true => exact ih p'
        | false => rfl
  exact hloop (depth + 1) p

end Erase

def erase (s : Outbound (β × ℕ)) : Outbound β :=
  { s with queue := rename Prod.fst s.queue, sends := s.sends.map (renameSend Prod.fst) }

/-- Without the times it is the queue as it was. -/
theorem erase_run (ops : List (OutboundOp β)) :
    erase (run queueStep {} ops).out = run outboundStep {} ops := by
  have hstep : ∀ (s : Queueing β) op, erase (queueStep s op).out = outboundStep (erase s.out) op := by
    intro s op
    cases op with
    | submit cls data len =>
      have hsubmit := submit_rename Prod.fst cls (data, s.now) len s.out.queue s.out.v
      simp only [queueStep, stamp, outboundStep, erase]
      rw [hsubmit]
    | service link mem answers =>
      have hservice := service_rename Prod.fst mem answers (passOf s link)
      simp only [renamePass, passOf, List.map_nil] at hservice
      simp only [queueStep, stamp, outboundStep, erase, List.map_append, hservice]
      rfl
  induction ops using List.reverseRecOn with
  | nil => rfl
  | append_singleton ops op ih =>
    rw [run_append, run_append, run_cons, run_cons, run_nil, run_nil, hstep, ih]

def turns (mem : β → Buf) (answers : ℕ → Status) : ℕ → Pass β → List (Pass β)
  | 0, _ => []
  | fuel + 1, s =>
    s :: match turn mem (answers s.sends.length) s with
      | (true, s) => turns mem answers fuel s
      | (false, _) => []

/-- If the link accepts a packet in this turn, no queued item is of a higher priority, and none of
equal priority was submitted before it. -/
def SendsFirst (mem : β → Buf) (answer : Status) (p : Pass (β × ℕ)) : Prop :=
  ∀ x, (turn (fun b => mem b.1) answer p).2.sends = p.sends ++ [x] → x.status = .ok →
    ∀ i < depth, ∀ item, p.queue.slot i = some item →
      priority x.item.cls ≤ priority item.cls ∧
        (priority x.item.cls = priority item.cls → x.item.data.2 ≤ item.data.2)

def LeavesInOrder (ops : List (OutboundOp β)) : Prop :=
  ∀ before link mem answers after, ops = before ++ .service link mem answers :: after →
    ∀ p ∈ turns (fun b => mem b.1) answers (depth + 1) (passOf (run queueStep {} before) link),
      SendsFirst mem (answers p.sends.length) p

/-- A submission that is accepted finds no free slot below a queued item of its priority. -/
def TakesBehind (s : Queueing β) : OutboundOp β → Prop
  | .submit cls _ len =>
    len ≠ 0 → len + Ccsds.primaryHeaderBytes + Ccsds.integrityBytes ≤ packetBytes →
      ∀ i < depth, (s.out.queue.slot i).isNone → ∀ j < depth, ∀ item ∈ s.out.queue.slot j,
        priority item.cls = priority cls → j < i
  | .service .. => True

instance decidableTakesBehind (s : Queueing β) : ∀ op, Decidable (TakesBehind s op)
  | .submit .. => inferInstanceAs (Decidable (_ → _))
  | .service .. => .isTrue trivial

theorem priority_lt (c : CcsdsClass) : priority c < 0xFF := by
  cases c <;> decide

structure Best (q : Output β) (n : ℕ) (best : Option ℕ × UInt8) : Prop where
  none : best.1 = none → best.2 = 0xFF ∧ ∀ j < n, q.slot j = none
  some : ∀ i, best.1 = some i → i < n ∧ ∃ item, q.slot i = some item ∧ best.2 = priority item.cls ∧
    ∀ j < n, ∀ other, q.slot j = some other →
      priority item.cls < priority other.cls ∨ priority item.cls = priority other.cls ∧ i ≤ j

theorem best_better {q : Output β} {n : ℕ} {best : Option ℕ × UInt8} (h : Best q n best) :
    Best q (n + 1) (better q best n) := by
  unfold better
  cases hn : q.slot n with
  | none =>
    constructor
    · intro hbest
      obtain ⟨hmax, hempty⟩ := h.none hbest
      refine ⟨hmax, ?_⟩
      intro j hj
      rcases Nat.lt_succ_iff_lt_or_eq.mp hj with hj | rfl
      · exact hempty j hj
      · exact hn
    · intro i hbest
      obtain ⟨hlt, item, hitem, hprio, hleast⟩ := h.some i hbest
      refine ⟨Nat.lt_succ_of_lt hlt, item, hitem, hprio, ?_⟩
      intro j hj other hother
      rcases Nat.lt_succ_iff_lt_or_eq.mp hj with hj | rfl
      · exact hleast j hj other hother
      · simp [hn] at hother
  | some item =>
    dsimp only
    split
    · rename_i hlt
      refine ⟨by simp, ?_⟩
      rintro i hi
      obtain rfl := Option.some.inj hi
      refine ⟨Nat.lt_succ_self n, item, hn, rfl, ?_⟩
      intro j hj other hother
      rcases Nat.lt_succ_iff_lt_or_eq.mp hj with hj | rfl
      · left
        cases hbest : best.1 with
        | none => simp [(h.none hbest).2 j hj] at hother
        | some k =>
          obtain ⟨-, old, -, hprio, hleast⟩ := h.some k hbest
          rw [hprio] at hlt
          rcases hleast j hj other hother with hless | ⟨heq, -⟩
          · exact UInt8.lt_trans hlt hless
          · rwa [← heq]
      · obtain rfl := Option.some.inj (hn.symm.trans hother)
        exact .inr ⟨rfl, le_rfl⟩
    · rename_i hge
      constructor
      · intro hbest
        rw [(h.none hbest).1] at hge
        exact absurd (priority_lt item.cls) hge
      · intro i hbest
        obtain ⟨hlt, old, hold, hprio, hleast⟩ := h.some i hbest
        refine ⟨Nat.lt_succ_of_lt hlt, old, hold, hprio, ?_⟩
        intro j hj other hother
        rcases Nat.lt_succ_iff_lt_or_eq.mp hj with hj | rfl
        · exact hleast j hj other hother
        · obtain rfl := Option.some.inj (hn.symm.trans hother)
          rw [hprio] at hge
          by_cases heq : priority old.cls = priority item.cls
          · exact .inr ⟨heq, hlt.le⟩
          · exact .inl (UInt8.lt_of_le_of_ne (UInt8.not_lt.mp hge) heq)

/-- `pick` finds the lowest of the slots with the best priority. -/
theorem pick_best {q : Output β} {i : ℕ} (h : q.pick = some i) :
    ∃ item, q.slot i = some item ∧ ∀ j < depth, ∀ other, q.slot j = some other →
      priority item.cls < priority other.cls ∨ priority item.cls = priority other.cls ∧ i ≤ j := by
  have hscan : ∀ n, Best q n ((List.range n).foldl (better q) (none, 0xFF)) := by
    intro n
    induction n with
    | zero => exact ⟨fun _ => ⟨rfl, by simp⟩, by simp⟩
    | succ n ih =>
      rw [List.range_succ, List.foldl_append]
      exact best_better ih
  obtain ⟨-, item, hitem, -, hleast⟩ := (hscan depth).some i h
  exact ⟨item, hitem, hleast⟩

structure Lined (q : Output (β × ℕ)) (now : ℕ) : Prop where
  inside : ∀ i item, q.slot i = some item → i < depth
  past : ∀ i item, q.slot i = some item → item.data.2 < now
  sorted : ∀ i j x y, i < j → q.slot i = some x → q.slot j = some y →
    priority x.cls = priority y.cls → x.data.2 < y.data.2

theorem Lined.free {q q' : Output (β × ℕ)} {now k : ℕ} (h : Lined q now)
    (hslot : q'.slot = Function.update q.slot k none) : Lined q' now := by
  have hleft : ∀ i item, q'.slot i = some item → q.slot i = some item := by
    intro i item hitem
    rw [hslot] at hitem
    by_cases hi : i = k
    · simp [hi] at hitem
    · rwa [Function.update_of_ne hi] at hitem
  refine ⟨?_, ?_, ?_⟩
  · intro i item hitem
    exact h.inside i item (hleft i item hitem)
  · intro i item hitem
    exact h.past i item (hleft i item hitem)
  · intro i j x y hij hx hy hprio
    exact h.sorted i j x y hij (hleft i x hx) (hleft j y hy) hprio

theorem lined_turn {mem : β × ℕ → Buf} {answer : Status} {p : Pass (β × ℕ)} {now : ℕ}
    (h : Lined p.queue now) : Lined (turn mem answer p).2.queue now := by
  rcases turn_cases mem answer p with
    hstop | ⟨i, item, st, packet, written, ccsds, -, -, -, -, hcases⟩
  · rwa [hstop]
  rcases hcases with ⟨-, -, hslot, -⟩ | ⟨-, status, link, v, -, -, hslot, -⟩
  · exact h.free hslot
  · split at hslot
    · exact h.free hslot
    · exact ⟨hslot ▸ h.inside, hslot ▸ h.past, hslot ▸ h.sorted⟩

/-- What a turn sends is the best item there is. -/
theorem sendsFirst_of_lined {mem : β → Buf} {answer : Status} {p : Pass (β × ℕ)} {now : ℕ}
    (h : Lined p.queue now) : SendsFirst mem answer p := by
  intro x hsend hok j hj other hother
  rcases turn_cases (fun b => mem b.1) answer p with
    hstop | ⟨i, item, st, packet, written, ccsds, -, hpick, hitem, -, hcases⟩
  · simp [hstop] at hsend
  rcases hcases with ⟨-, -, -, -, hsends⟩ | ⟨-, status, link, v, -, -, -, -, hsends⟩
  · simp [hsends] at hsend
  · obtain rfl := List.singleton_inj.mp (List.append_cancel_left (hsends.symm.trans hsend))
    obtain ⟨item', hitem', hleast⟩ := pick_best hpick
    obtain rfl := Option.some.inj (hitem.symm.trans hitem')
    rcases hleast j hj other hother with hless | ⟨heq, hij⟩
    · refine ⟨UInt8.le_of_lt hless, ?_⟩
      intro heq
      rw [heq] at hless
      exact absurd hless (UInt8.lt_irrefl _)
    · refine ⟨heq ▸ UInt8.le_rfl, ?_⟩
      intro _
      rcases hij.lt_or_eq with hij | rfl
      · exact (h.sorted i j item other hij hitem hother heq).le
      · rw [Option.some.inj (hitem.symm.trans hother)]

theorem sendsFirst_turns {mem : β → Buf} {answers : ℕ → Status} {now : ℕ} (fuel : ℕ)
    {s : Pass (β × ℕ)} (h : Lined s.queue now) :
    ∀ p ∈ turns (fun b => mem b.1) answers fuel s, SendsFirst mem (answers p.sends.length) p := by
  induction fuel generalizing s with
  | zero => simp [turns]
  | succ fuel ih =>
    intro p hp
    rw [turns] at hp
    rcases List.mem_cons.mp hp with rfl | hp
    · exact sendsFirst_of_lined h
    · have hnext := @lined_turn _ (fun b => mem b.1) (answers s.sends.length) s now h
      split at hp
      · rename_i s' heq
        rw [heq] at hnext
        exact ih hnext p hp
      · simp at hp

theorem lined_service {mem : β × ℕ → Buf} {answers : ℕ → Status} {now : ℕ} {s : Pass (β × ℕ)}
    (h : Lined s.queue now) : Lined (service mem answers s).queue now :=
  @loop_invariant _ mem answers (fun s => Lined s.queue now) (fun _ hs => lined_turn hs) (depth + 1)
    s h

theorem Lined.later {q : Output (β × ℕ)} {now now' : ℕ} (h : Lined q now) (hle : now ≤ now') :
    Lined q now' :=
  ⟨h.inside, fun i item hitem => (h.past i item hitem).trans_le hle, h.sorted⟩

theorem submit_accepts {cls : CcsdsClass} {data : β} {len : UInt32} {q : Output β} {v : Svc}
    (h : (submit cls data len q v).1 = .ok) :
    len ≠ 0 ∧ len + Ccsds.primaryHeaderBytes + Ccsds.integrityBytes ≤ packetBytes := by
  unfold submit at h
  split at h
  · simp at h
  rename_i hlen
  split at h
  · simp at h
  rename_i hfits
  exact ⟨hlen, UInt32.not_lt.mp hfits⟩

/-- A new item keeps the line when it takes a slot behind the queued ones of its priority. -/
theorem Lined.append {q q' : Output (β × ℕ)} {now k : ℕ} (h : Lined q now) (hk : k < depth)
    (hfree : q.slot k = none) {new : OutputItem (β × ℕ)} (hnow : new.data.2 = now)
    (hbehind : ∀ j < depth, ∀ item, q.slot j = some item → priority item.cls = priority new.cls →
      j < k)
    (hslot : q'.slot = Function.update q.slot k (some new)) : Lined q' (now + 1) := by
  have horigin : ∀ i item, q'.slot i = some item → i = k ∧ item = new ∨ q.slot i = some item := by
    intro i item hitem
    rw [hslot] at hitem
    by_cases hi : i = k
    · subst hi
      rw [Function.update_self] at hitem
      exact .inl ⟨rfl, (Option.some.inj hitem).symm⟩
    · rw [Function.update_of_ne hi] at hitem
      exact .inr hitem
  refine ⟨?_, ?_, ?_⟩
  · intro i item hitem
    rcases horigin i item hitem with ⟨rfl, -⟩ | hold
    · exact hk
    · exact h.inside i item hold
  · intro i item hitem
    rcases horigin i item hitem with ⟨-, rfl⟩ | hold
    · exact hnow ▸ Nat.lt_succ_self _
    · exact Nat.lt_succ_of_lt (h.past i item hold)
  · intro i j x y hij hx hy hprio
    rcases horigin i x hx with ⟨rfl, rfl⟩ | hx
    · rcases horigin j y hy with ⟨rfl, -⟩ | hy
      · exact absurd hij (lt_irrefl _)
      · exact absurd (hbehind j (h.inside j y hy) y hy hprio.symm) hij.not_gt
    · rcases horigin j y hy with ⟨rfl, rfl⟩ | hy
      · exact hnow ▸ h.past i x hx
      · exact h.sorted i j x y hij hx hy hprio

theorem lined_step {s : Queueing β} {op : OutboundOp β} (h : Lined s.out.queue s.now)
    (hop : TakesBehind s op) : Lined (queueStep s op).out.queue (queueStep s op).now := by
  cases op with
  | service link mem answers =>
    exact (lined_service (s := passOf s link) h).later (Nat.le_succ _)
  | submit cls data len =>
    simp only [queueStep, stamp, outboundStep]
    rcases submit_cases cls (data, s.now) len s.out.queue s.out.v with
      ⟨-, hslot⟩ | ⟨hok, -, k, hk, hfree, hslot⟩
    · have hkept : Lined (submit cls (data, s.now) len s.out.queue s.out.v).2.1 s.now :=
        ⟨hslot ▸ h.inside, hslot ▸ h.past, hslot ▸ h.sorted⟩
      exact hkept.later (Nat.le_succ _)
    · obtain ⟨hlen, hfits⟩ := submit_accepts hok
      refine h.append hk hfree rfl ?_ hslot
      intro j hj item hitem hprio
      exact hop hlen hfits k hk (Option.isNone_iff_eq_none.mpr hfree) j hj item hitem hprio

theorem lined_init : Lined ({} : Output (β × ℕ)) 0 :=
  ⟨fun _ _ h => absurd h (by simp), fun _ _ h => absurd h (by simp),
    fun _ _ _ _ _ h => absurd h (by simp)⟩

/-- Packets leave by priority and, within a priority, in the order of their submission, when every
submission is placed behind the queued items of its priority. -/
theorem leaves_in_order {ops : List (OutboundOp β)} (h : Along queueStep TakesBehind {} ops) :
    LeavesInOrder ops := by
  rintro before link mem answers after rfl
  obtain ⟨hbefore, -⟩ := along_append.mp h
  have hlined := @run_invariant _ _ queueStep (TakesBehind (β := β))
    (fun s => Lined s.out.queue s.now) (fun _ _ hs hop => lined_step hs hop) {} before lined_init
    hbefore
  exact sendsFirst_turns (depth + 1) hlined

def running : SpwLink := { opsSet := true, state := .run }

/-- A drain that ends after its first packet: the link refuses the second. -/
def drainOne : OutboundOp Unit :=
  .service running (fun _ _ => 0x44) fun n => if n = 0 then .ok else .errHardware

def drainAll : OutboundOp Unit := .service running (fun _ _ => 0x44) fun _ => .ok

theorem leaves_in_order_refilled :
    LeavesInOrder [.submit .health () 8, .submit .health () 9, drainAll, .submit .event () 10,
      drainAll] :=
  leaves_in_order (by decide)

def refill : List (OutboundOp Unit) :=
  [.submit .event () 8, .submit .health () 9, drainOne, .submit .health () 10]

/-- The event's slot is free after the first drain; the second status packet takes it and leaves
before the first. -/
theorem later_submission_overtakes : ¬ LeavesInOrder (refill ++ [drainAll]) := by
  intro h
  obtain ⟨p, hp⟩ : ∃ p, p = passOf (run queueStep {} refill) running := ⟨_, rfl⟩
  have hturn := h refill running (fun _ _ => 0x44) (fun _ => .ok) [] rfl p (by simp [turns, hp])
  have hsend : (turn (fun _ _ => 0x44) .ok p).2.sends.map
      (fun x => (x.item.cls, x.item.data.2, x.status)) = [(.health, 3, .ok)] := by
    rw [hp]
    decide +kernel
  have hwaits : (p.queue.slot 1).map (fun item => (item.cls, item.data.2)) = some (.health, 1) := by
    rw [hp]
    decide +kernel
  obtain ⟨x, hsends, hx⟩ := List.map_eq_singleton_iff.mp hsend
  obtain ⟨item, hitem, hfirst⟩ := Option.map_eq_some_iff.mp hwaits
  simp only [Prod.mk.injEq] at hx hfirst
  obtain ⟨-, hearlier⟩ := hturn x (by rw [hsends, hp]; rfl) hx.2.2 1 (by decide) item hitem
  have hle := hearlier (by rw [hx.1, hfirst.1])
  rw [hx.2.1, hfirst.2] at hle
  exact absurd hle (by decide)

end QiranFirmware.Output
