import QiranFirmware.Plat.Post

/-! # What the memory test finds

The pass over the cells alone decides: two addresses that reach one cell cannot both read as themselves,
and a bit that is stuck agrees with an address or with its complement, never with both. Where there is no
fault every phase reads back what it has written.
-/
namespace QiranFirmware

open Machine FaultyMemory

namespace MemoryFaults
variable {κ : Type} (f : MemoryFaults κ) {c : κ} {a : UInt32}

theorem getLsbD_shows (k : ℕ) :
    (f.shows c a).toBitVec.getLsbD k =
      if (f.stuck c).toBitVec.getLsbD k then (f.level c).toBitVec.getLsbD k else a.toBitVec.getLsbD k := by
  unfold shows
  simp only [UInt32.toBitVec_or, UInt32.toBitVec_and, UInt32.toBitVec_not, BitVec.getLsbD_or,
    BitVec.getLsbD_and, BitVec.getLsbD_not]
  cases hstuck : (f.stuck c).toBitVec.getLsbD k with
  | true => simp
  | false =>
    by_cases hk : k < 32
    · simp [hk]
    · simp [hk, BitVec.getLsbD_of_ge a.toBitVec k (Nat.not_lt.mp hk)]

/-- A word reads back where it agrees with the levels of the stuck bits. -/
theorem level_of_shows (h : f.shows c a = a) {k : ℕ}
    (hstuck : (f.stuck c).toBitVec.getLsbD k = true) :
    (f.level c).toBitVec.getLsbD k = a.toBitVec.getLsbD k := by
  have hbit := f.getLsbD_shows k (c := c) (a := a)
  rw [h, if_pos hstuck] at hbit
  exact hbit.symm

theorem shows_of_stuck_eq_zero (h : f.stuck c = 0) (a : UInt32) : f.shows c a = a := by
  rw [shows, h]
  simp

/-- No level of a stuck bit agrees with a word and with its complement. -/
theorem stuck_eq_zero_of_complement (h : f.shows c a = a) (hnot : f.shows c (~~~ a) = ~~~ a) :
    f.stuck c = 0 := by
  apply UInt32.toBitVec_inj.mp
  refine BitVec.eq_of_getLsbD_eq fun k hk => ?_
  by_contra hne
  have hstuck : (f.stuck c).toBitVec.getLsbD k = true := by simpa using hne
  have hsame := (f.level_of_shows h hstuck).symm.trans (f.level_of_shows hnot hstuck)
  simp [hk] at hsame

theorem getLsbD_walk {j : ℕ} (hj : j < 32) (k : ℕ) :
    ((1 : UInt32) <<< UInt32.ofNat j).toBitVec.getLsbD k = decide (j = k) := by
  have hword : ((1 : UInt32) <<< UInt32.ofNat j).toBitVec = BitVec.twoPow 32 j := by
    rw [UInt32.toBitVec_shiftLeft, BitVec.twoPow_eq]
    simp [Nat.mod_eq_of_lt hj]
  rw [hword, BitVec.getLsbD_twoPow, decide_eq_true hj, Bool.true_and]

/-- No level of a stuck bit agrees with every position of a walking one. -/
theorem stuck_eq_zero_of_walk (h : ∀ k < 32, f.shows c (1 <<< UInt32.ofNat k) = 1 <<< UInt32.ofNat k) :
    f.stuck c = 0 := by
  apply UInt32.toBitVec_inj.mp
  refine BitVec.eq_of_getLsbD_eq fun k hk => ?_
  by_contra hne
  have hstuck : (f.stuck c).toBitVec.getLsbD k = true := by simpa using hne
  have hat (j : ℕ) (hj : j < 32) : (f.level c).toBitVec.getLsbD k = decide (j = k) := by
    rw [f.level_of_shows (h j hj) hstuck, getLsbD_walk hj]
  obtain ⟨j, hj, hjk⟩ : ∃ j < 32, j ≠ k := by
    by_cases hzero : k = 0
    · exact ⟨1, by decide, by omega⟩
    · exact ⟨0, by decide, Ne.symm hzero⟩
  have hhere := hat k hk
  rw [hat j hj] at hhere
  simp [hjk] at hhere

end MemoryFaults

namespace Post
variable {κ : Type} [DecidableEq κ] {f : MemoryFaults κ} {words : UInt32}

omit [DecidableEq κ] in
theorem faultless_iff :
    Faultless f.wiring {i | i < words} ↔
      Set.InjOn f.cell {i | i < words} ∧ ∀ i < words, f.stuck (f.cell i) = 0 := by
  constructor
  · intro h
    exact ⟨h.injective, fun i hi => f.stuck_eq_zero_of_complement (h.shows i hi 0) (h.shows i hi _)⟩
  · rintro ⟨hinj, hstuck⟩
    exact ⟨hinj, fun i hi a => f.shows_of_stuck_eq_zero (hstuck i hi) a⟩

theorem cellPattern_injective (pass : ℕ) : Function.Injective (cellPattern pass) := by
  intro i j h
  unfold cellPattern at h
  split at h
  · exact h
  · exact UInt32.not_inj.mp h

/-- The two passes over the cells tell whether there is a fault. -/
theorem testCells_ok_iff (out : UInt32) (m : Memory κ) :
    (testCells f words out m).1 = .ok ↔ Faultless f.wiring {i | i < words} := by
  constructor
  · intro h
    rw [testCells, cellPasses] at h
    split at h
    · cases h
    · rename_i m₁ hfirst
      rw [cellPasses] at h
      split at h
      · cases h
      · rename_i m₂ hsecond
        obtain ⟨hinj, hword⟩ := injective_of_check (fun i _ j _ hij => cellPattern_injective 0 hij)
          (congrArg Prod.fst hfirst)
        obtain ⟨-, hnot⟩ := injective_of_check (fun i _ j _ hij => cellPattern_injective 1 hij)
          (congrArg Prod.fst hsecond)
        refine faultless_iff.mpr ⟨?_, ?_⟩
        · intro i hi j hj hcell
          exact hinj i (mem_offsets.mpr hi) j (mem_offsets.mpr hj) hcell
        · intro i hi
          exact f.stuck_eq_zero_of_complement (hword i (mem_offsets.mpr hi)) (hnot i (mem_offsets.mpr hi))
  · intro h
    have hread (pass : ℕ) (m : Memory κ) : ∀ i ∈ offsets words,
        (m.fill f.wiring (cellPattern pass) (offsets words)).value f.wiring i = cellPattern pass i :=
      fun i hi => h.value_fill (fun j hj => mem_offsets.mp hj) hi m
    have hpass (pass : ℕ) (m : Memory κ) := check_eq_none (hread pass m)
    rw [testCells, cellPasses, hpass]
    simp only
    rw [cellPasses, hpass]
    rfl

theorem dataLines_of_faultless (h : Faultless f.wiring {i | i < words}) (hwords : 0 < words) (n : ℕ)
    (bit out : UInt32) (m : Memory κ) : ∃ m', dataLines f n bit out m = (.ok, out, m') := by
  induction n generalizing bit m with
  | zero => exact ⟨m, rfl⟩
  | succ n ih =>
    have hread : ∀ i ∈ [(0 : UInt32)], (m.write f.wiring 0 (1 <<< bit)).value f.wiring i = 1 <<< bit := by
      intro i hi
      rw [List.mem_singleton.mp hi]
      exact h.value_write hwords _ m
    rw [dataLines, check_eq_none hread]
    exact ih (bit + 1) _

theorem testAddressLines_of_faultless (h : Faultless f.wiring {i | i < words})
    (hwords : 2 ≤ words.toNat) (hmax : words.toNat ≤ 2 ^ 30) {fuel : ℕ} (hfuel : 32 ≤ fuel)
    (out : UInt32) (m : Memory κ) : ∃ m', testAddressLines f words fuel out m = some (.ok, out, m') := by
  obtain ⟨is, his, hmem⟩ := lineOffsets_spec hmax (k := 0) (by decide) hfuel (rfl : (1 : UInt32).toNat = 2 ^ 0)
  have hzero := zero_lt_words hwords
  rw [testAddressLines, his]
  simp only
  generalize hm' : (m.fill f.wiring linePattern is).write f.wiring 0 antiPattern = m'
  have hfirst : ∀ i ∈ [(0 : UInt32)], m'.value f.wiring i = antiPattern := by
    intro i hi
    rw [List.mem_singleton.mp hi, ← hm']
    exact h.value_write hzero _ _
  have hrest : ∀ i ∈ is, (m'.check f.wiring (fun _ => antiPattern) [0]).2.value f.wiring i =
      linePattern i := by
    intro i hi
    rw [value_check, ← hm', h.value_write_of_ne (hmem i hi).2 hzero (hmem i hi).1]
    exact h.value_fill (fun j hj => (hmem j hj).2) hi m
  rw [check_eq_none hfirst]
  simp only
  rw [check_eq_none hrest]
  exact ⟨_, rfl⟩

theorem testAddressLines_some (hmax : words.toNat ≤ 2 ^ 30) {fuel : ℕ} (hfuel : 32 ≤ fuel)
    (out : UInt32) (m : Memory κ) :
    ∃ st out' m', testAddressLines f words fuel out m = some (st, out', m') := by
  obtain ⟨is, his, -⟩ := lineOffsets_spec hmax (k := 0) (by decide) hfuel (rfl : (1 : UInt32).toNat = 2 ^ 0)
  rw [testAddressLines, his]
  simp only
  split
  · exact ⟨_, _, _, rfl⟩
  · split
    · exact ⟨_, _, _, rfl⟩
    · exact ⟨_, _, _, rfl⟩

/-- The memory test ends with the phase that fails, or with the last. -/
theorem memoryTest_cases (f : MemoryFaults κ) {words : UInt32} (hwords : 2 ≤ words.toNat)
    (hmax : words.toNat ≤ 2 ^ 30) {fuel : ℕ} (hfuel : 32 ≤ fuel) (out : UInt32) (m : Memory κ) :
    ∃ st out' m', memoryTest f words fuel out m = some (st, out', m') ∧
      (testDataLines f 0 m = (st, out', m') ∧ st ≠ .ok ∨
        ∃ out₁ m₁, testDataLines f 0 m = (.ok, out₁, m₁) ∧
          (testAddressLines f words fuel out₁ m₁ = some (st, out', m') ∧ st ≠ .ok ∨
            ∃ out₂ m₂, testAddressLines f words fuel out₁ m₁ = some (.ok, out₂, m₂) ∧
              testCells f words out₂ m₂ = (st, out', m'))) := by
  have hparam : ¬ words < 2 := by
    rw [UInt32.lt_iff_toNat_lt]
    exact Nat.not_lt.mpr hwords
  rw [memoryTest, if_neg hparam]
  rcases hdata : testDataLines f 0 m with ⟨st, out₁, m₁⟩
  cases st with
  | ok =>
    obtain ⟨st, out₂, m₂, haddress⟩ := testAddressLines_some (f := f) hmax hfuel out₁ m₁
    simp only [haddress]
    cases st with
    | ok => exact ⟨_, _, _, rfl, .inr ⟨_, _, rfl, .inr ⟨_, _, haddress, rfl⟩⟩⟩
    | _ => exact ⟨_, _, _, rfl, .inr ⟨_, _, rfl, .inl ⟨haddress, by decide⟩⟩⟩
  | _ => exact ⟨_, _, _, rfl, .inl ⟨rfl, by decide⟩⟩

/-- The memory test succeeds exactly where the addresses of the region reach cells of their own, and no
cell that they reach has a bit stuck. -/
theorem memoryTest_ok_iff (f : MemoryFaults κ) {words : UInt32} (hwords : 2 ≤ words.toNat)
    (hmax : words.toNat ≤ 2 ^ 30) {fuel : ℕ} (hfuel : 32 ≤ fuel) (out : UInt32) (m : Memory κ) :
    ∃ st out' m', memoryTest f words fuel out m = some (st, out', m') ∧
      (st = .ok ↔ Set.InjOn f.cell {i | i < words} ∧ ∀ i < words, f.stuck (f.cell i) = 0) := by
  obtain ⟨st, out', m', hrun, hphase⟩ := memoryTest_cases f hwords hmax hfuel out m
  refine ⟨st, out', m', hrun, ?_⟩
  rw [← faultless_iff]
  rcases hphase with ⟨hdata, hst⟩ | ⟨out₁, m₁, -, ⟨haddress, hst⟩ | ⟨out₂, m₂, -, hcells⟩⟩
  · refine iff_of_false hst fun h => hst ?_
    obtain ⟨m'', hok⟩ := dataLines_of_faultless h (zero_lt_words hwords) 32 0 0 m
    rw [testDataLines, hok] at hdata
    exact (congrArg Prod.fst hdata).symm
  · refine iff_of_false hst fun h => hst ?_
    obtain ⟨m'', hok⟩ := testAddressLines_of_faultless h hwords hmax hfuel out₁ m₁
    rw [hok] at haddress
    exact (congrArg Prod.fst (Option.some.inj haddress)).symm
  · rw [← testCells_ok_iff out₂ m₂, hcells]

theorem memoryTest_ok_iff_of_plain_memory :
    ∃ st out' m', memoryTest { cell := id : MemoryFaults UInt32 } 2 32 7 { cell := fun _ => 0 } =
        some (st, out', m') ∧
      (st = .ok ↔ Set.InjOn id {i : UInt32 | i < 2} ∧ ∀ i < (2 : UInt32), (0 : UInt32) = 0) :=
  memoryTest_ok_iff { cell := id } (by decide) (by decide) (by decide) 7 { cell := fun _ => 0 }

end Post

end QiranFirmware
