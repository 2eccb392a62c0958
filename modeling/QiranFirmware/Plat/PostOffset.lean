import QiranFirmware.Plat.PostExact

/-! # The offset that a failed memory test reports

The phases over the address lines and over the cells name the word that they have found. The phase over
the data lines names the bit that it has walked to, and has accessed no word but the first.
-/
namespace QiranFirmware.Post

open Machine FaultyMemory Access

variable {κ : Type} [DecidableEq κ] {f : MemoryFaults κ} {words : UInt32}

theorem dataLines_succ (n : ℕ) (bit out : UInt32) (m : Memory κ) :
    dataLines f (n + 1) bit out m =
      if f.shows (f.cell 0) (1 <<< bit) = 1 <<< bit then
        dataLines f n (bit + 1) out ((m.write f.wiring 0 (1 <<< bit)).read f.wiring 0)
      else (.errHardware, bit, (m.write f.wiring 0 (1 <<< bit)).read f.wiring 0) := by
  rw [dataLines, check_singleton, value_write]
  by_cases h : f.wiring.shows (f.wiring.reach 0) (1 <<< bit) = 1 <<< bit
  · rw [if_pos h]
    exact (if_pos h).symm
  · rw [if_neg h]
    exact (if_neg h).symm

theorem address_dataLines (n : ℕ) (bit out : UInt32) (m : Memory κ) {x : Access UInt32 UInt32}
    (hx : x ∈ (dataLines f n bit out m).2.2.trace) : x ∈ m.trace ∨ x.address = 0 := by
  induction n generalizing bit m with
  | zero => exact .inl hx
  | succ n ih =>
    have hturn {y : Access UInt32 UInt32}
        (hy : y ∈ ((m.write f.wiring 0 (1 <<< bit)).read f.wiring 0).trace) :
        y ∈ m.trace ∨ y.address = 0 := by
      rcases List.mem_append.mp hy with hy | hy
      · rcases List.mem_append.mp hy with hy | hy
        · exact .inl hy
        · rw [List.mem_singleton.mp hy]
          exact .inr rfl
      · rw [List.mem_singleton.mp hy]
        exact .inr rfl
    rw [dataLines_succ] at hx
    split at hx
    · rcases ih _ _ hx with hx | hx
      · exact hturn hx
      · exact .inr hx
    · exact hturn hx

/-- Every bit of the walk reads back, or the walk ends at one that does not. -/
theorem dataLines_cases (n j : ℕ) (out : UInt32) (m : Memory κ) :
    (dataLines f n (UInt32.ofNat j) out m).1 = .ok ∧
        (∀ k, j ≤ k → k < j + n → f.shows (f.cell 0) (1 <<< UInt32.ofNat k) = 1 <<< UInt32.ofNat k) ∨
      ∃ k, k < j + n ∧ (dataLines f n (UInt32.ofNat j) out m).1 = .errHardware ∧
        (dataLines f n (UInt32.ofNat j) out m).2.1 = UInt32.ofNat k ∧
        f.shows (f.cell 0) (1 <<< UInt32.ofNat k) ≠ 1 <<< UInt32.ofNat k := by
  induction n generalizing j m with
  | zero => exact .inl ⟨rfl, fun k hjk hk => absurd hk (Nat.not_lt.mpr hjk)⟩
  | succ n ih =>
    rw [dataLines_succ]
    by_cases hbit : f.shows (f.cell 0) (1 <<< UInt32.ofNat j) = 1 <<< UInt32.ofNat j
    · have hnext : UInt32.ofNat j + 1 = UInt32.ofNat (j + 1) := (UInt32.ofNat_add j 1).symm
      rw [if_pos hbit, hnext]
      rcases ih (j + 1) _ with ⟨hok, hall⟩ | ⟨k, hk, hfail⟩
      · refine .inl ⟨hok, fun k hjk hk => ?_⟩
        rcases Nat.eq_or_lt_of_le hjk with rfl | hlt
        · exact hbit
        · exact hall k hlt (by omega)
      · exact .inr ⟨k, by omega, hfail⟩
    · rw [if_neg hbit]
      exact .inr ⟨j, by omega, rfl, rfl, hbit⟩

def Names (words : UInt32) (r : Status × UInt32 × Memory κ) : Prop :=
  r.1 ≠ .ok → r.2.1 < words ∧ r.2.2.Differs r.2.1

theorem testAddressLines_names (hwords : 2 ≤ words.toNat) (hmax : words.toNat ≤ 2 ^ 30) {fuel : ℕ}
    (hfuel : 32 ≤ fuel) {out : UInt32} {m : Memory κ} {r : Status × UInt32 × Memory κ}
    (h : testAddressLines f words fuel out m = some r) : Names words r := by
  obtain ⟨is, his, hmem⟩ := lineOffsets_spec hmax (k := 0) (by decide) hfuel (rfl : (1 : UInt32).toNat = 2 ^ 0)
  have hzero := zero_lt_words hwords
  rw [testAddressLines, his] at h
  simp only at h
  have hlast (i : UInt32) :
      lastWritten i ((m.fill f.wiring linePattern is).write f.wiring 0 antiPattern).trace =
        if 0 = i then some antiPattern
        else if i ∈ is then some (linePattern i) else lastWritten i m.trace := by
    rw [FaultyMemory.write, lastWritten_write, lastWritten_fill]
  generalize (m.fill f.wiring linePattern is).write f.wiring 0 antiPattern = m' at h hlast
  have hanti : ∀ i ∈ [(0 : UInt32)], lastWritten i m'.trace = some antiPattern := by
    intro i hi
    rw [List.mem_singleton.mp hi, hlast, if_pos rfl]
  rcases hfirst : m'.check f.wiring (fun _ => antiPattern) [0] with ⟨_ | i, m₁⟩
  · rw [hfirst] at h
    simp only at h
    have hlines : ∀ i ∈ is, lastWritten i m₁.trace = some (linePattern i) := by
      intro i hi
      have hchecked := lastWritten_check f.wiring (fun _ => antiPattern) [0] m' i
      rw [hfirst] at hchecked
      rw [hchecked, hlast, if_neg (Ne.symm (hmem i hi).1), if_pos hi]
    rcases hsecond : m₁.check f.wiring linePattern is with ⟨_ | i, m₂⟩
    · rw [hsecond] at h
      cases h
      exact fun hne => absurd rfl hne
    · rw [hsecond] at h
      cases h
      obtain ⟨hi, hdiffers⟩ := differs_of_check hlines (congrArg Prod.fst hsecond)
      rw [hsecond] at hdiffers
      exact fun _ => ⟨(hmem i hi).2, hdiffers⟩
  · rw [hfirst] at h
    cases h
    obtain ⟨hi, hdiffers⟩ := differs_of_check hanti (congrArg Prod.fst hfirst)
    rw [hfirst, List.mem_singleton.mp hi] at hdiffers
    exact fun _ => ⟨hzero, hdiffers⟩

theorem cellPasses_names (out : UInt32) (passes : List ℕ) (m : Memory κ) :
    Names words (cellPasses f words out passes m) := by
  induction passes generalizing m with
  | nil => exact fun hne => absurd rfl hne
  | cons pass rest ih =>
    have hlast : ∀ i ∈ offsets words,
        lastWritten i (m.fill f.wiring (cellPattern pass) (offsets words)).trace = some (cellPattern pass i) := by
      intro i hi
      rw [lastWritten_fill, if_pos hi]
    rw [cellPasses]
    split
    · rename_i i m' hfail
      obtain ⟨hi, hdiffers⟩ := differs_of_check hlast (congrArg Prod.fst hfail)
      rw [hfail] at hdiffers
      exact fun _ => ⟨mem_offsets.mp hi, hdiffers⟩
    · exact ih _

/-- A failed memory test reports a word that has not read back as it was written exactly where the walk
over the data lines has nothing to find, or finds it with its first bit: any later bit is reported as an
offset too. -/
theorem memoryTest_names_iff (f : MemoryFaults κ) {words : UInt32} (hwords : 2 ≤ words.toNat)
    (hmax : words.toNat ≤ 2 ^ 30) {fuel : ℕ} (hfuel : 32 ≤ fuel) (out : UInt32) (cells : κ → UInt32) :
    ∃ st out' m', memoryTest f words fuel out { cell := cells } = some (st, out', m') ∧
      ((st = .errHardware → out' < words ∧ m'.Differs out') ↔
        f.stuck (f.cell 0) = 0 ∨ f.shows (f.cell 0) 1 ≠ 1) := by
  obtain ⟨st, out', m', hrun, hphase⟩ := memoryTest_cases f hwords hmax hfuel out { cell := cells }
  refine ⟨st, out', m', hrun, ?_⟩
  have hwalk := dataLines_cases (f := f) 32 0 0 { cell := cells }
  rcases hphase with ⟨hdata, hst⟩ | ⟨out₁, m₁, hdata, hlater⟩
  · have hdata : dataLines f 32 (UInt32.ofNat 0) 0 { cell := cells } = (st, out', m') := hdata
    rw [hdata] at hwalk
    obtain ⟨k, hk, herr, hout, hbad⟩ := hwalk.resolve_left fun h => hst h.1
    by_cases hone : f.shows (f.cell 0) 1 = 1
    · refine iff_of_false (fun hnames => ?_) ?_
      · -- the bit is a later one, and only the first word has been accessed
        obtain ⟨x, hx, hxout⟩ := (hnames herr).2.address_mem
        have hdone : (dataLines f 32 (UInt32.ofNat 0) 0 { cell := cells }).2.2 = m' := by rw [hdata]
        rw [← hdone] at hx
        rcases address_dataLines _ _ _ _ hx with hx | hx
        · cases hx
        · have hzero : UInt32.ofNat k = 0 := hout.symm.trans (hxout.symm.trans hx)
          rw [hzero] at hbad
          exact hbad hone
      · rintro (hstuck | hother)
        · exact hbad (f.shows_of_stuck_eq_zero hstuck _)
        · exact hother hone
    · refine iff_of_true (fun _ => ?_) (.inr hone)
      have hfirst : (1 : UInt32) <<< UInt32.ofNat 0 = 1 := rfl
      rw [dataLines_succ, hfirst, if_neg hone] at hdata
      cases hdata
      refine ⟨zero_lt_words hwords, [.write 0 1], [], _, 1, rfl, rfl, ?_⟩
      rw [value_write]
      exact hone
  · have hdata : dataLines f 32 (UInt32.ofNat 0) 0 { cell := cells } = (.ok, out₁, m₁) := hdata
    rw [hdata] at hwalk
    have hstuck : f.stuck (f.cell 0) = 0 := by
      rcases hwalk with ⟨-, hall⟩ | ⟨k, -, herr, -⟩
      · exact f.stuck_eq_zero_of_walk fun k hk => hall k (Nat.zero_le k) (by omega)
      · cases herr
    have hnames : Names words (st, out', m') := by
      rcases hlater with ⟨haddress, -⟩ | ⟨out₂, m₂, -, hcells⟩
      · exact testAddressLines_names hwords hmax hfuel haddress
      · rw [← hcells]
        exact cellPasses_names _ _ _
    refine iff_of_true (fun herr => hnames ?_) (.inl hstuck)
    rw [herr]
    exact Status.noConfusion

def highBitStuck : MemoryFaults UInt32 where
  cell := id
  stuck := fun c => if c = 0 then 0x80000000 else 0

/-- A region of two words, with 31 as the offset that fails. -/
theorem highBitStuck_reported :
    (memoryTest highBitStuck 2 32 0 { cell := fun _ => 0 }).map (fun r => (r.1, r.2.1)) =
        some (.errHardware, 31) ∧ ¬ (31 : UInt32) < 2 := by
  decide +kernel

theorem highBitStuck_names_iff :
    ∃ st out' m', memoryTest highBitStuck 2 32 0 { cell := fun _ => 0 } = some (st, out', m') ∧
      ((st = .errHardware → out' < 2 ∧ m'.Differs out') ↔
        highBitStuck.stuck (highBitStuck.cell 0) = 0 ∨ highBitStuck.shows (highBitStuck.cell 0) 1 ≠ 1) :=
  memoryTest_names_iff highBitStuck (by decide) (by decide) (by decide) 0 fun _ => 0

end QiranFirmware.Post
