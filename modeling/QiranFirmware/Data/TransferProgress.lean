import QiranFirmware.Data.StorageEffects
import QiranFirmware.Machine.Runs

/-! # Whether a transfer gets on

A pass of the transfer goes on to where the header that it has read says the next record starts. The
sum is taken in 32 bits: when it does not wrap, the offset moves forward by at least a header and a
byte, and the transfer ends. `Moves` says what a pass makes of the offset.
-/
namespace QiranFirmware.Store

open Machine

variable {β : Type}

/-- One pass: how the device answers its two reads, the queue it finds, and the services. -/
structure TransferCall (β : Type) where
  readHeader : Option NandRead := none
  readData : Option NandRead := none
  queue : Output β := {}
  v : Svc := {}

def transferCall (stage : β) (s : Store) (c : TransferCall β) : Store :=
  (transferService stage c.readHeader c.readData s c.queue c.v).1

def HasRoom (q : Output β) : Prop := ∃ i < Output.depth, q.slot i = none

def Refused (s : Store) (c : TransferCall β) : Prop :=
  s.Stages c.readHeader ∧ s.Checked c.readHeader c.readData ∧ ¬ HasRoom c.queue

def Passes (s : Store) (c : TransferCall β) : Prop :=
  s.Described c.readHeader ∧ ¬ Refused s c ∧
    (s.lengthRead c.readHeader ≤ transferStage → (s.payloadRead c.readData).status = .ok)

def Progresses (s s' : Store) : Prop :=
  s'.transferActive = false ∨
    s.transferOffset < s'.transferOffset ∧ s'.transferOffset ≤ s'.used

/-- A pass of an active transfer gets on, unless the queue refuses the record. -/
def Advances (stage : β) (s : Store) (c : TransferCall β) : Prop :=
  s.transferActive = true → ¬ Refused s c → Progresses s (transferCall stage s c)

def Within (s : Store) (c : TransferCall β) : Prop :=
  Passes s c → s.transferOffset.toNat + 20 + (s.lengthRead c.readHeader).toNat < 2 ^ 32

/-- Where the next record starts is ahead, if the pass goes on to it: the sum in 32 bits of the
sizes of header and payload is not zero, and does not wrap when it is added to the offset. -/
def Ahead (s : Store) (c : TransferCall β) : Prop :=
  Passes s c → headerBytes + s.lengthRead c.readHeader ≠ 0 ∧
    s.transferOffset.toNat + (headerBytes + s.lengthRead c.readHeader).toNat < 2 ^ 32

theorem submit_hasRoom (cls : CcsdsClass) (data : β) {len : UInt32} (q : Output β) (v : Svc)
    (hzero : len ≠ 0) (hlen : len ≤ transferStage) :
    (q.submit cls data len v).1 = .ok ↔ HasRoom q := by
  simp only [Output.submit, hzero, staged_fits hlen, ↓reduceIte]
  split
  · rename_i i hfind
    have hi := List.mem_range.mp (List.mem_of_find?_eq_some hfind)
    have hfree := List.find?_some hfind
    exact iff_of_true rfl ⟨i, hi, Option.isNone_iff_eq_none.mp hfree⟩
  · rename_i hnone
    refine iff_of_false (by simp) ?_
    rintro ⟨i, hi, hfree⟩
    have hused := List.find?_eq_none.mp hnone i (List.mem_range.mpr hi)
    simp [hfree] at hused

inductive Moves (s : Store) (c : TransferCall β) (s' : Store) : Prop
  | ended (hactive : s'.transferActive = false) (hpasses : ¬ Passes s c)
  | refused (hrefused : Refused s c) (hactive : s'.transferActive = true)
      (hoffset : s'.transferOffset = s.transferOffset) (hused : s'.used = s.used)
  | passed (hpasses : Passes s c) (hactive : s'.transferActive = true)
      (hoffset : s'.transferOffset = s.next c.readHeader) (hused : s'.used = s.used)

theorem moves_transferCall (stage : β) {s : Store} (hactive : s.transferActive = true)
    (c : TransferCall β) : Moves s c (transferCall stage s c) := by
  unfold transferCall transferService
  rw [if_neg (by simp [hactive])]
  split
  · rename_i hend
    exact .ended rfl fun hp => absurd hp.1.1.2 (UInt32.not_lt.mpr hend)
  rename_i hleft
  dsimp only
  split
  · rename_i hread
    refine .ended rfl ?_
    rintro ⟨⟨-, hstatus, hdescribes⟩, -⟩
    simp [hstatus, hdescribes] at hread
  rename_i hread
  have hdescribed : s.Described c.readHeader := by
    rw [not_or, not_not, Bool.not_eq_true, Bool.not_eq_false'] at hread
    exact ⟨⟨hactive, UInt32.not_le.mp hleft⟩, hread⟩
  split
  · rename_i hlong
    refine .passed ⟨hdescribed, ?_, fun hle => absurd hlong (UInt32.not_lt.mpr hle)⟩ hactive rfl rfl
    rintro ⟨hstages, -⟩
    exact absurd hlong (UInt32.not_lt.mpr hstages.2)
  rename_i hlen
  have hlen := UInt32.not_lt.mp hlen
  split
  · rename_i hdata
    exact .ended rfl fun hp => hdata (hp.2.2 hlen)
  rename_i hdata
  have hdata := not_not.mp hdata
  split
  · rename_i hcrc
    rw [Buf.bytes_fill] at hcrc
    exact .passed ⟨hdescribed, fun hrefused => hcrc hrefused.2.1.2, fun _ => hdata⟩ hactive rfl rfl
  rename_i hcrc
  rw [Buf.bytes_fill, not_not] at hcrc
  have hzero : (s.read s.transferOffset c.readHeader).data.getU32 12 ≠ 0 := by
    have hdescribes := hdescribed.2.2
    simp only [describes, Bool.and_eq_true, bne_iff_ne] at hdescribes
    exact hdescribes.1.2
  have hroom := submit_hasRoom (classOf ((s.read s.transferOffset c.readHeader).data.getU32 4))
    stage c.queue c.v hzero hlen
  by_cases hok : HasRoom c.queue
  · rw [if_neg (not_not.mpr (hroom.mpr hok))]
    exact .passed ⟨hdescribed, fun hrefused => hrefused.2.2 hok, fun _ => hdata⟩ hactive rfl rfl
  · rw [if_pos (mt hroom.mp hok)]
    exact .refused ⟨⟨hdescribed, hlen⟩, ⟨hdata, hcrc⟩, hok⟩ hactive rfl rfl

theorem next_le_used {s : Store} {readHeader : Option NandRead} (h : s.Described readHeader) :
    s.next readHeader ≤ s.used ∧ s.lengthRead readHeader ≠ 0 := by
  have hdescribes := h.2.2
  simp only [describes, Bool.and_eq_true, bne_iff_ne, decide_eq_true_eq] at hdescribes
  refine ⟨?_, hdescribes.1.2⟩
  rw [next, ← UInt32.add_assoc]
  exact hdescribes.2

theorem lt_next_iff {s : Store} {readHeader : Option NandRead} :
    s.transferOffset < s.next readHeader ↔ headerBytes + s.lengthRead readHeader ≠ 0 ∧
      s.transferOffset.toNat + (headerBytes + s.lengthRead readHeader).toNat < 2 ^ 32 := by
  have hoffset := s.transferOffset.toNat_lt
  have hsum := (headerBytes + s.lengthRead readHeader).toNat_lt
  rw [next, UInt32.lt_iff_toNat_lt, UInt32.toNat_add, ne_eq,
    ← UInt32.toNat_inj (a := headerBytes + s.lengthRead readHeader), UInt32.toNat_zero]
  omega

theorem advances_iff (stage : β) (s : Store) (c : TransferCall β) :
    Advances stage s c ↔ Ahead s c := by
  by_cases hactive : s.transferActive = true
  swap
  · exact iff_of_true (fun h => absurd h hactive) fun hp => absurd hp.1.1.1 hactive
  rcases moves_transferCall stage hactive c with
    ⟨hended, hpasses⟩ | ⟨hrefused, hgoes, -, -⟩ | ⟨hpasses, hgoes, hoffset, hused⟩
  · exact iff_of_true (fun _ _ => .inl hended) fun hp => absurd hp hpasses
  · exact iff_of_true (fun _ hnot => absurd hrefused hnot) fun hp => absurd hrefused hp.2.1
  · have hle := (next_le_used hpasses.1).1
    constructor
    · intro h _
      rcases h hactive hpasses.2.1 with hended | ⟨hlt, -⟩
      · simp [hgoes] at hended
      · rw [hoffset] at hlt
        exact lt_next_iff.mp hlt
    · intro h _ _
      right
      rw [hoffset, hused]
      exact ⟨lt_next_iff.mpr (h hpasses), hle⟩

theorem Within.next {s : Store} {c : TransferCall β} (h : Within s c) (hpasses : Passes s c) :
    s.transferOffset.toNat + 21 ≤ (s.next c.readHeader).toNat := by
  have hwithin := h hpasses
  have hzero := (next_le_used hpasses.1).2
  rw [ne_eq, ← UInt32.toNat_inj, UInt32.toNat_zero] at hzero
  rw [Store.next, UInt32.toNat_add, UInt32.toNat_add, toNat_headerBytes]
  omega

theorem Within.ahead {s : Store} {c : TransferCall β} (h : Within s c) : Ahead s c := by
  intro hpasses
  have hnext := h.next hpasses
  exact lt_next_iff.mp (UInt32.lt_iff_toNat_lt.mpr (by omega))

theorem run_inactive (stage : β) {s : Store} (h : s.transferActive = false)
    (calls : List (TransferCall β)) : (run (transferCall stage) s calls).transferActive = false := by
  refine @run_keeps _ _ (transferCall stage) (fun s => s.transferActive = false) ?_ s h calls
  intro s c hs
  simp [transferCall, transferService, hs]

/-- Every pass that finds room leaves a transfer that goes on a header and a byte further. -/
theorem run_active (stage : β) {s : Store} {calls : List (TransferCall β)}
    (hwithin : Along (transferCall stage) Within s calls) (hroom : ∀ c ∈ calls, HasRoom c.queue)
    (hactive : (run (transferCall stage) s calls).transferActive = true) :
    calls = [] ∨ s.transferOffset.toNat + 21 * calls.length ≤ s.used.toNat := by
  induction calls generalizing s with
  | nil => exact .inl rfl
  | cons c calls ih =>
    right
    obtain ⟨hhere, hrest⟩ := hwithin
    rw [run_cons] at hactive
    have hgoes : s.transferActive = true ∧ (transferCall stage s c).transferActive = true := by
      constructor
      · by_contra hidle
        have hend := run_inactive stage (Bool.not_eq_true _ ▸ hidle) (c :: calls)
        rw [run_cons, hactive] at hend
        exact Bool.false_ne_true hend.symm
      · by_contra hidle
        have hend := run_inactive stage (Bool.not_eq_true _ ▸ hidle) calls
        rw [hactive] at hend
        exact Bool.false_ne_true hend.symm
    rcases moves_transferCall stage hgoes.1 c with
      ⟨hended, -⟩ | ⟨hrefused, -⟩ | ⟨hpasses, -, hoffset, hused⟩
    · simp [hgoes.2] at hended
    · exact absurd (hroom c List.mem_cons_self) hrefused.2.2
    · have hnext := hhere.next hpasses
      have hle := UInt32.le_iff_toNat_le.mp (next_le_used hpasses.1).1
      rcases ih hrest (fun d hd => hroom d (List.mem_cons_of_mem c hd)) hactive with rfl | hfar
      · rw [List.length_singleton]
        omega
      · rw [hoffset, hused] at hfar
        rw [List.length_cons]
        omega

/-- A transfer gets on in every pass exactly when every record that a pass goes on to is ahead; and
when none of these passes wraps, it has ended after a pass for every 21 bytes used and one more, if
the queue has room in each. -/
theorem transfer_progresses (stage : β) (s : Store) (calls : List (TransferCall β)) :
    (Along (transferCall stage) (Advances stage) s calls ↔ Along (transferCall stage) Ahead s calls) ∧
    (Along (transferCall stage) Within s calls →
      Along (transferCall stage) (Advances stage) s calls ∧
      ((∀ c ∈ calls, HasRoom c.queue) → s.used.toNat / 21 + 1 ≤ calls.length →
        (run (transferCall stage) s calls).transferActive = false)) := by
  have hall : Along (transferCall stage) (fun _ _ => True) s calls := by
    induction calls generalizing s with
    | nil => trivial
    | cons c calls ih => exact ⟨trivial, ih _⟩
  have hiff := along_congr (fun s c (_ : True) => advances_iff stage s c) hall
  refine ⟨hiff, ?_⟩
  intro hwithin
  refine ⟨hiff.mpr (hwithin.mono fun _ _ h => h.ahead), ?_⟩
  intro hroom hlong
  by_contra hactive
  rcases run_active stage hwithin hroom (Bool.not_eq_false _ ▸ hactive) with rfl | hfar
  · simp at hlong
  · omega

def damaged (len : UInt32) : Store :=
  { ready := true, capacity := 4096, used := 25, records := 1, sequence := 1
    flash := .ofList (Buf.be32 magic ++ Buf.be32 0 ++ Buf.be32 0 ++ Buf.be32 len ++ Buf.be32 0) }

def transferring (len : UInt32) : Store := (damaged len).transferBegin.2

/-- With the length that takes the next record to the same place, a transfer of 25 bytes stands
still, and has not ended after two passes. -/
theorem damaged_length_stands_still :
    ¬ Along (transferCall ()) (Advances ()) (transferring 0xFFFFFFEC) [{}, {}] ∧
      (transferring 0xFFFFFFEC).used.toNat / 21 + 1 ≤ [({} : TransferCall Unit), {}].length ∧
      (∀ c ∈ [({} : TransferCall Unit), {}], HasRoom c.queue) ∧
      (run (transferCall ()) (transferring 0xFFFFFFEC) [{}, {}]).transferActive = true := by
  have hstill : (transferCall () (transferring 0xFFFFFFEC) {}).transferActive = true ∧
      (transferCall () (transferring 0xFFFFFFEC) {}).transferOffset = 0 := by decide +kernel
  refine ⟨?_, by decide, ?_, by decide +kernel⟩
  · rintro ⟨h, -⟩
    have hunrefused : ¬ Refused (transferring 0xFFFFFFEC) ({} : TransferCall Unit) := by
      rintro ⟨⟨-, hle⟩, -⟩
      exact absurd hle (by decide)
    rcases h rfl hunrefused with hended | ⟨hlt, -⟩
    · simp [hstill.1] at hended
    · rw [hstill.2] at hlt
      exact absurd hlt (by decide)
  · intro c hc
    rw [List.mem_pair.mp hc |>.elim id id]
    exact ⟨0, by decide, rfl⟩

end QiranFirmware.Store
