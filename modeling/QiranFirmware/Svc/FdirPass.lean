import QiranFirmware.Svc.FdirEffects

/-! # What a service pass escalates

A class that is due for escalation when a pass begins, with a report it has not been serviced
for, has the uplink called by the end of it; and no class becomes elevated in a pass without the
uplink being called.
-/
namespace QiranFirmware.Svc

open SvcCall

variable {v w : Svc} {c : FaultId} {mark : ℕ}

/-- The uplink has been called for the class since the trace had this length. -/
def Alerted (mark : ℕ) (c : FaultId) (v : Svc) : Prop :=
  ∃ x ∈ v.trace.drop mark, x.isUplink c = true

theorem Alerted.mono (h : Alerted mark c v) (hvw : v.trace <+: w.trace) : Alerted mark c w := by
  obtain ⟨x, hx, hc⟩ := h
  obtain ⟨new, hnew⟩ := hvw
  refine ⟨x, ?_, hc⟩
  rw [← hnew, List.drop_append]
  exact List.mem_append_left _ hx

theorem alerted_of_mem {new : List SvcCall} (hw : w.trace = v.trace ++ new)
    (hmark : mark ≤ v.trace.length) {x : SvcCall} (hx : x ∈ new) (hc : x.isUplink c = true) :
    Alerted mark c w := by
  refine ⟨x, ?_, hc⟩
  rw [hw, List.drop_append_of_le_length hmark]
  exact List.mem_append_right _ hx

theorem alerted_servicing {up : Uplink} (h : Servicing (some up) c v w) (hdue : Due c v)
    (hmark : mark ≤ v.trace.length) : Alerted mark c w := by
  have hesc : (policy c).escalation ≠ .logOnly :=
    escalation_ne_logOnly (hdue.elim .inr fun h => .inl h.1)
  obtain ⟨x, hx, hc⟩ := uplink_mem_escalateCalls up (v.fdir.detail c) hesc
  refine alerted_of_mem h.trace hmark (List.mem_cons_of_mem _ ?_) hc
  simpa [dueCalls, hdue] using hx

structure Pressing (c : FaultId) (v : Svc) : Prop where
  due : Due c v
  unserviced : v.unserviced c ≠ 0

/-- Reports alone do not take the pressure off, short of a wrap. -/
theorem Pressing.grow (h : Pressing c v) (hv : Bounded v) {k : ℕ}
    (hlt : v.trace.countP (isReport c) + k < 2 ^ 32)
    (hun : w.unserviced c = v.unserviced c + UInt32.ofNat k)
    (hocc : w.occurrences c = v.occurrences c + UInt32.ofNat k)
    (helev : (w.fdir.record c).elevated = (v.fdir.record c).elevated) : Pressing c w := by
  have hk : (UInt32.ofNat k).toNat = k := UInt32.toNat_ofNat_of_lt' (lt_of_le_of_lt (by omega) hlt)
  obtain ⟨hbun, hbocc⟩ := hv c
  constructor
  · rcases h.due with hsevere | ⟨hcrit, hlimit, hnot⟩
    · exact .inl hsevere
    · refine .inr ⟨hcrit, ?_, helev.trans hnot⟩
      rw [UInt32.le_iff_toNat_le] at hlimit ⊢
      rw [hocc, UInt32.toNat_add, hk, Nat.mod_eq_of_lt (by omega)]
      omega
  · intro hzero
    have hpos : (v.unserviced c).toNat ≠ 0 := fun h0 => h.unserviced (UInt32.toNat_inj.mp h0)
    have hsum := congrArg UInt32.toNat hzero
    rw [hun, UInt32.toNat_add, hk, Nat.mod_eq_of_lt (by omega), UInt32.toNat_zero] at hsum
    omega

theorem Pressing.reporting (h : Pressing c v) (hv : Bounded v) {new : List SvcCall}
    (hw : Reporting new v w) (hlt : w.trace.countP (isReport c) < 2 ^ 32) : Pressing c w := by
  rw [hw.trace, List.countP_append] at hlt
  exact h.grow hv hlt (hw.unserviced c) (hw.count c) (hw.elevated c)

theorem moves_loop (up : Option Uplink) (ids : List FaultId) (v : Svc) :
    Moves v (ids.foldl (serviceClass up) v) := by
  induction ids generalizing v with
  | nil => exact .refl v
  | cons id ids ih => exact .trans (moves_serviceClass up id v) (ih _)

theorem moves_errorHandlingService (up : Option Uplink) (pc : PlatformCounters) (v : Svc) :
    Moves v (errorHandlingService up pc v) :=
  .trans (moves_collect pc v) (moves_loop up _ _)

/-- A pressing class has the uplink called once the loop comes to it. -/
theorem alerted_loop {up : Uplink} {ids : List FaultId} (hc : c ∈ ids) (h : Pressing c v)
    (hv : Bounded v) (hmark : mark ≤ v.trace.length)
    (hlt : (ids.foldl (serviceClass (some up)) v).trace.countP (isReport c) < 2 ^ 32) :
    Alerted mark c (ids.foldl (serviceClass (some up)) v) := by
  induction ids generalizing v with
  | nil => exact absurd hc List.not_mem_nil
  | cons id ids ih =>
    rw [List.foldl_cons] at hlt ⊢
    have hrest := (moves_loop (some up) ids (serviceClass (some up) v id)).isPrefix
    by_cases hid : id = c
    · subst hid
      exact (alerted_servicing (serviceClass_of_ne (some up) h.unserviced) h.due hmark).mono hrest
    · have hmoves := moves_serviceClass (some up) id v
      have hpressing : Pressing c (serviceClass (some up) v id) := by
        by_cases hnew : v.unserviced id = 0
        · rwa [serviceClass_of_eq hnew]
        · have hserv := serviceClass_of_ne (some up) hnew
          have hle := hrest.sublist.countP_le (p := isReport c)
          rw [hserv.trace, List.countP_append] at hle
          have hne : c ≠ id := Ne.symm hid
          refine h.grow hv (lt_of_le_of_lt hle hlt) ?_ (hserv.counted.count c) ?_
          · rw [hserv.unserviced, if_neg hne]
          · rw [Bool.eq_iff_iff, hserv.elevated]
            simp [hne]
      exact ih ((List.mem_cons.mp hc).resolve_left (Ne.symm hid)) hpressing (hmoves.bounded hv)
        (hmark.trans hmoves.isPrefix.length_le) hlt

theorem alerted_errorHandlingService {up : Uplink} (pc : PlatformCounters) (hc : c ≠ .none)
    (h : Pressing c v) (hv : Bounded v) (hmark : mark ≤ v.trace.length)
    (hlt : (errorHandlingService (some up) pc v).trace.countP (isReport c) < 2 ^ 32) :
    Alerted mark c (errorHandlingService (some up) pc v) := by
  obtain ⟨new, hnew, -⟩ := platformReporting_collect pc v
  have hmoves := moves_collect pc v
  have hloop := moves_loop (some up) FaultId.serviced (collectPlatformCounters pc v)
  have hcount := lt_of_le_of_lt (hloop.isPrefix.sublist.countP_le) hlt
  exact alerted_loop (FaultId.mem_serviced.mpr hc) (h.reporting hv hnew hcount) (hmoves.bounded hv)
    (hmark.trans hmoves.isPrefix.length_le) hlt

theorem elevated_loop {up : Uplink} {ids : List FaultId} (hmark : mark ≤ v.trace.length)
    (h : ((ids.foldl (serviceClass (some up)) v).fdir.record c).elevated = true) :
    (v.fdir.record c).elevated = true ∨ Alerted mark c (ids.foldl (serviceClass (some up)) v) := by
  induction ids generalizing v with
  | nil => exact .inl h
  | cons id ids ih =>
    rw [List.foldl_cons] at h ⊢
    have hmoves := moves_serviceClass (some up) id v
    have hrest := moves_loop (some up) ids (serviceClass (some up) v id)
    rcases ih (hmark.trans hmoves.isPrefix.length_le) h with helev | halert
    · by_cases hnew : v.unserviced id = 0
      · rw [serviceClass_of_eq hnew] at helev
        exact .inl helev
      · have hserv := serviceClass_of_ne (some up) hnew
        rcases (hserv.elevated c).mp helev with hold | ⟨rfl, -, hdue⟩
        · exact .inl hold
        · exact .inr ((alerted_servicing hserv hdue hmark).mono hrest.isPrefix)
    · exact .inr halert

theorem elevated_errorHandlingService {up : Uplink} {pc : PlatformCounters}
    (hmark : mark ≤ v.trace.length)
    (h : ((errorHandlingService (some up) pc v).fdir.record c).elevated = true) :
    (v.fdir.record c).elevated = true ∨ Alerted mark c (errorHandlingService (some up) pc v) := by
  obtain ⟨new, hnew, -⟩ := platformReporting_collect pc v
  have hlength := hmark.trans (moves_collect pc v).isPrefix.length_le
  rw [errorHandlingService] at h ⊢
  rcases elevated_loop hlength h with helev | halert
  · exact .inl ((hnew.elevated c).symm.trans helev)
  · exact .inr halert

end QiranFirmware.Svc
