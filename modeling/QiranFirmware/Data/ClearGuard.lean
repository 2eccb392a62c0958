import QiranFirmware.Data.StorageCount

/-! # What a clear may destroy

The guard of `storage_nand_clear` compares two counts. What the counts are of is not the packets
the link has taken but the descriptors queued, and attaching a device resets only one of them.
-/
namespace QiranFirmware.Storage

open Machine

variable {γ : Type}

def Sent (sends : List (OutputSend (Label ⊕ γ))) (r : Record) : Prop :=
  ∃ x ∈ sends, x.status = .ok ∧ (∃ l, x.item.data = .inl l ∧ l.record = some r) ∧ Carries x r

def AllSent (s : Storage γ) : Prop := ∀ r ∈ s.stored, Sent s.sends r

theorem Delivery.sent {stage : Buf} {q : Output (Label ⊕ γ)} {p : Ccsds}
    {sends : List (OutputSend (Label ⊕ γ))} (h : Delivery stage q p sends) {l : Label} {r : Record}
    (hl : l ∈ accepted sends) (hr : l.record = some r) : Sent sends r := by
  obtain ⟨x, hx, hlabel⟩ := List.mem_filterMap.mp hl
  obtain ⟨r', hr', hcarries⟩ := h.carries x hx l hlabel
  obtain rfl := Option.some.inj (hr.symm.trans hr')
  obtain ⟨hstatus, hdata⟩ := acceptedLabel_eq_some.mp hlabel
  exact ⟨x, hx, hstatus, ⟨l, hdata, hr⟩, hcarries⟩

/-- When as many records are counted as transferred as are stored and none is still queued, every
one has been sent. -/
theorem Inv.sent {s : Storage γ} (h : Inv s) (hstale : s.stale = false)
    (hcount : s.store.transferred = s.store.records) (hfree : StageFree s.queue) : AllSent s := by
  obtain ⟨done, hdone⟩ := h.counted
  have hall : done = s.stored := by
    refine hdone.sublist.eq_of_length ?_
    rw [hdone.length hstale, hcount, h.records]
  intro r hr
  rw [← hall] at hr
  obtain ⟨l, hissued, hrecord⟩ := hdone.issued r hr
  rcases hissued with hqueued | haccepted
  · exact absurd hqueued (queued_of_stageFree h hfree l)
  · exact h.delivery.sent haccepted hrecord

/-- An erase destroys nothing that has not been sent. -/
theorem cleared_only_when_sent {ops : List (StorageOp γ)} {erase : Status} {flash : Buf}
    (h : Along step Permitted {} (ops ++ [.clear erase flash]))
    (hok : ((run step {} ops).store.clear erase flash (run step {} ops).v).1 = .ok) :
    AllSent (run step {} ops) := by
  obtain ⟨hops, hclear, -⟩ := along_append.mp h
  have hinv : Inv (run step {} ops) :=
    @run_invariant _ _ step Permitted Inv (fun _ op hs hop => inv_step hs op hop) {} ops inv_init hops
  rcases Store.clear_cases erase flash (run step {} ops).store (run step {} ops).v with
    ⟨hfail, -⟩ | ⟨-, herases, -⟩
  · exact absurd hok hfail
  by_cases hnone : (run step {} ops).store.records = 0
  · have hlength := hinv.records
    rw [hnone, UInt32.toNat_zero] at hlength
    intro r hr
    rw [List.eq_nil_of_length_eq_zero hlength.symm] at hr
    simp at hr
  · obtain ⟨hstale, hfree⟩ := hclear herases hnone
    exact hinv.sent hstale (herases.guard.resolve_left hnone) hfree

def storeOne : List (StorageOp Unit) :=
  [.setOps (some (4096, fun _ => 0xFF)), .store .raw [7] .ok .ok, .transferBegin]

theorem cleared_only_when_sent_one : AllSent (run step {} (storeOne ++ [.transfer none none,
    serviceRunning, .transfer none none])) := by
  have hpermitted : Along step Permitted {} ((storeOne ++ [.transfer none none, serviceRunning,
      .transfer none none]) ++ [.clear .ok fun _ => 0xFF]) := by
    refine ⟨trivial, show 1 + 20 < 2 ^ 32 by decide, trivial, ⟨?_, fun _ => by decide +kernel⟩,
      trivial, ⟨?_, ?_⟩, fun _ _ => ⟨rfl, by decide +kernel⟩, trivial⟩
    · intro _ r hr
      have hcurrent : (run step {} storeOne).current = some ⟨0, .raw, 0, [7]⟩ := by decide +kernel
      obtain rfl := Option.some.inj (hcurrent.symm.trans hr)
      exact ⟨by decide +kernel, fun _ _ => by decide +kernel⟩
    · intro hend
      exact absurd hend.1.2 (by decide +kernel)
    · intro hend
      exact absurd hend.1.1.2 (by decide +kernel)
  exact cleared_only_when_sent hpermitted (by decide +kernel)

/-- A transfer whose descriptor is still queued counts as complete, and its record is erased. -/
theorem cleared_unsent :
    ((run step {} (storeOne ++ [.transfer none none, .transfer none none])).store.clear .ok
      (fun _ => 0xFF) {}).1 = .ok ∧
    ¬ AllSent (run step {} (storeOne ++ [.transfer none none, .transfer none none])) := by
  have hstored : (run step {} (storeOne ++ [.transfer none none, .transfer none none])).stored =
      [⟨0, .raw, 0, [7]⟩] := by decide +kernel
  have hsends : (run step {} (storeOne ++ [.transfer none none, .transfer none none])).sends = [] :=
    rfl
  refine ⟨by decide +kernel, ?_⟩
  intro h
  obtain ⟨x, hx, -⟩ := h ⟨0, .raw, 0, [7]⟩ (by rw [hstored]; exact List.mem_cons_self)
  rw [hsends] at hx
  simp at hx

example :
    let s := run step {} (storeOne ++ [.transfer none none, serviceRunning, .transfer none none,
      .setOps (some (4096, fun _ => 0xFF)), .store .raw [9] .ok .ok])
    (s.store.clear .ok (fun _ => 0xFF) {}).1 = .ok ∧ s.stored = [⟨1, .raw, 1, [9]⟩] ∧
      accepted s.sends = [⟨1, some ⟨0, .raw, 0, [7]⟩⟩] := by
  decide +kernel

end QiranFirmware.Storage
