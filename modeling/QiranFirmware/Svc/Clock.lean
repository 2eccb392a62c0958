import QiranFirmware.Svc.Fdir
import QiranFirmware.Svc.Uptime

/-! # The time that the modules are told

The services among the modules that use them: the ticks there have been, of which the time knows those up
to its last reading. Read in time, it is 20 ms for each of them.
-/
namespace QiranFirmware

structure Clocked (n : ℕ) (v : Svc) : Prop where
  past : v.time.ticks.toNat ≤ n
  rawTick : v.rawTick = v.time.lastRaw + UInt32.ofNat (n - v.time.ticks.toNat)

namespace Clocked
variable {n : ℕ} {v w : Svc}

theorem congr (h : Clocked n v) (hraw : w.rawTick = v.rawTick) (htime : w.time = v.time) :
    Clocked n w := by
  obtain ⟨hpast, hticks⟩ := h
  rw [← htime] at hpast hticks
  exact ⟨hpast, hraw.trans hticks⟩

theorem later (h : Clocked n v) (k : UInt32) :
    Clocked (n + k.toNat) { v with rawTick := v.rawTick + k } := by
  have hpast := h.past
  refine ⟨Nat.le_add_right_of_le hpast, ?_⟩
  have hsum : n + k.toNat - v.time.ticks.toNat = n - v.time.ticks.toNat + k.toNat := by omega
  dsimp only
  rw [hsum, UInt32.ofNat_add, UInt32.ofNat_toNat, h.rawTick]
  exact UInt32.add_assoc ..

theorem counted (h : Clocked n v) :
    Uptime.Counted (v.time.lastRaw - UInt32.ofNat v.time.ticks.toNat)
      (⟨v.rawTick, v.time, fun _ => {}, n, v.time.ticks.toNat⟩ : Uptime Unit) := by
  have hsum := UInt32.ofNat_add v.time.ticks.toNat (n - v.time.ticks.toNat)
  rw [Nat.add_sub_cancel' h.past] at hsum
  have hraw := h.rawTick
  refine ⟨h.past, ?_, ?_, UInt64.ofNat_toNat.symm⟩
  · dsimp only
    rw [hraw, hsum]
    grind
  · grind

theorem nowMs (h : Clocked n v) (hgap : n < v.time.ticks.toNat + 2 ^ 32) :
    v.nowMs = UInt64.ofNat (20 * n) :=
  h.counted.nowMs (show n - v.time.ticks.toNat < 2 ^ 32 by omega)

theorem collectTime (h : Clocked n v) (hgap : n < v.time.ticks.toNat + 2 ^ 32) (hn : n < 2 ^ 64) :
    Clocked n v.collectTime ∧ v.collectTime.time.ticks.toNat = n := by
  have hticks : v.collectTime.time.ticks.toNat = n := by
    rw [Svc.collectTime, h.counted.collect (show n - v.time.ticks.toNat < 2 ^ 32 by omega)]
    exact UInt64.toNat_ofNat_of_lt' hn
  refine ⟨⟨hticks.le, ?_⟩, hticks⟩
  rw [hticks, Nat.sub_self]
  exact (UInt32.add_zero _).symm

end Clocked

/-- Fewer than 2^32 ticks have come since the time was last read, and the milliseconds fit in 64 bits. -/
def InTime (n : ℕ) (v : Svc) : Prop := n < v.time.ticks.toNat + 2 ^ 32 ∧ 20 * n < 2 ^ 64

instance (n : ℕ) (v : Svc) : Decidable (InTime n v) := inferInstanceAs (Decidable (_ ∧ _))

def Telling (n : ℕ) (v : Svc) : Prop := Clocked n v ∧ InTime n v

theorem Telling.nowMs {n : ℕ} {v : Svc} (h : Telling n v) : v.nowMs = UInt64.ofNat (20 * n) :=
  h.1.nowMs h.2.1

theorem Telling.congr {n : ℕ} {v w : Svc} (h : Telling n v) (hraw : w.rawTick = v.rawTick)
    (htime : w.time = v.time) : Telling n w := by
  refine ⟨h.1.congr hraw htime, ?_⟩
  rw [InTime, htime]
  exact h.2

theorem Telling.collectTime {n : ℕ} {v : Svc} (h : Telling n v) : Telling n v.collectTime := by
  obtain ⟨hclocked, hgap, hbound⟩ := h
  obtain ⟨hclocked', hticks⟩ := hclocked.collectTime hgap (by omega)
  refine ⟨hclocked', ?_, hbound⟩
  rw [hticks]
  omega

end QiranFirmware
