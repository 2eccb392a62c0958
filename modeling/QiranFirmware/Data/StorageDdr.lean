import QiranFirmware.Comm.Bytes
import QiranFirmware.Machine.Runs
import QiranFirmware.Svc.Fdir

/-! # Regions of external memory

`storage_ddr.c`: who owns each region, and how much of it is used. The enumerators that a call
names arrive as the numbers that they are, so that the range checks have their branches.
-/
namespace QiranFirmware

inductive DdrOwner
  | none | plDma | psProcessing | storage | comms
  deriving DecidableEq, Repr

inductive DdrRegion
  | rawCh0A | rawCh0B | rawCh1A | rawCh1B | processed | txPacket | scratch
  deriving DecidableEq, Repr

def DdrOwner.code (o : DdrOwner) : UInt32 := UInt32.ofNat o.ctorIdx
def DdrRegion.code (r : DdrRegion) : UInt32 := UInt32.ofNat r.ctorIdx

def DdrOwner.all : List DdrOwner := [none, plDma, psProcessing, storage, comms]

def DdrRegion.all : List DdrRegion :=
  [rawCh0A, rawCh0B, rawCh1A, rawCh1B, processed, txPacket, scratch]

def DdrOwner.ofCode (n : UInt32) : Option DdrOwner := all.find? fun o => o.code == n

def DdrRegion.ofCode (n : UInt32) : Option DdrRegion := all.find? fun r => r.code == n

/-- `region_t`; a base is an address in the external memory, `NULL` the address 0. -/
structure Region where
  base : UInt32 := 0
  capacity : UInt32 := 0
  used : UInt32 := 0
  owner : DdrOwner := .none

structure Ddr where
  region : DdrRegion → Region := fun _ => {}
  violations : UInt32 := 0
  handoffs : UInt32 := 0
  overruns : UInt32 := 0
  memory : Buf := fun _ => 0

namespace Ddr

def channels : UInt32 := 2
def rawSlots : ℕ := 2

def put (r : DdrRegion) (x : Region) (s : Ddr) : Ddr := { s with region := Function.update s.region r x }

def setRegion (region base bytes : UInt32) (s : Ddr) : Status × Ddr :=
  match DdrRegion.ofCode region with
  | none => (.errParam, s)
  | some r =>
    if base = 0 ∨ bytes = 0 then (.errParam, s)
    else if (s.region r).owner ≠ .none then (.errState, s)
    else (.ok, s.put r { s.region r with base, capacity := bytes, used := 0 })

def violation (r : DdrRegion) (expected : UInt32) (s : Ddr) (v : Svc) : Ddr × Svc :=
  ({ s with violations := s.violations + 1 },
    v.report .bufferOwnership ((r.code <<< 16) ||| (expected <<< 8) ||| (s.region r).owner.code))

/-- The checks that all but `storage_ddr_set_region` and `storage_ddr_clear` make of a region. -/
def owned (r : DdrRegion) (owner : UInt32) (s : Ddr) (v : Svc) (body : Status × Ddr × Svc) :
    Status × Ddr × Svc :=
  if (s.region r).base = 0 then (.errUnsupported, s, v)
  else if (s.region r).owner.code ≠ owner then
    let (s, v) := s.violation r owner v
    (.errState, s, v)
  else body

def handoff (region expected next : UInt32) (s : Ddr) (v : Svc) : Status × Ddr × Svc :=
  match DdrRegion.ofCode region, DdrOwner.ofCode expected, DdrOwner.ofCode next with
  | some r, some _, some owner =>
    s.owned r expected v
      (.ok, { s.put r { s.region r with owner } with handoffs := s.handoffs + 1 }, v)
  | _, _, _ => (.errParam, s, v)

/-- `storage_ddr_clear`, which does not look whether the region is configured. -/
def clear (region expected : UInt32) (s : Ddr) (v : Svc) : Status × Ddr × Svc :=
  match DdrRegion.ofCode region, DdrOwner.ofCode expected with
  | some r, some _ =>
    if (s.region r).owner.code ≠ expected then
      let (s, v) := s.violation r expected v
      (.errState, s, v)
    else (.ok, s.put r { s.region r with used := 0, owner := .none }, v)
  | _, _ => (.errParam, s, v)

def overrun (r : DdrRegion) (s : Ddr) (v : Svc) : Status × Ddr × Svc :=
  (.errRange, { s with overruns := s.overruns + 1 }, v.report .ddrOverrun r.code)

def append (region owner : UInt32) (data : Option Buf) (len : UInt32) (s : Ddr) (v : Svc) :
    Status × Ddr × Svc :=
  match DdrRegion.ofCode region, data with
  | some r, some data =>
    if len = 0 then (.errParam, s, v)
    else s.owned r owner v <|
      if (s.region r).capacity - (s.region r).used < len then s.overrun r v
      else
        (.ok, { s.put r { s.region r with used := (s.region r).used + len } with
          memory := s.memory.overlay ((s.region r).base + (s.region r).used) (data.bytes 0 len) }, v)
  | _, _ => (.errParam, s, v)

def setUsed (region owner used : UInt32) (s : Ddr) (v : Svc) : Status × Ddr × Svc :=
  match DdrRegion.ofCode region with
  | none => (.errParam, s, v)
  | some r =>
    s.owned r owner v <|
      if (s.region r).capacity < used then s.overrun r v
      else (.ok, s.put r { s.region r with used }, v)

/-- `storage_ddr_read`, as far as it changes the module; where it succeeds it gives out the base and
the used count. `out` says whether there is somewhere to put them. -/
def read (region owner : UInt32) (out : Bool) (s : Ddr) (v : Svc) : Status × Ddr × Svc :=
  match DdrRegion.ofCode region, out with
  | some r, true => s.owned r owner v (.ok, s, v)
  | _, _ => (.errParam, s, v)

def contents (s : Ddr) (r : DdrRegion) : List UInt8 := s.memory.bytes (s.region r).base (s.region r).used

def freeRawSlot (channel : UInt32) (s : Ddr) : Option DdrRegion :=
  if channels ≤ channel then none
  else
    (List.range rawSlots).findSome? fun i =>
      (DdrRegion.ofCode (channel * UInt32.ofNat rawSlots + UInt32.ofNat i)).filter fun r =>
        (s.region r).base != 0 && (s.region r).owner == .none

end Ddr

inductive DdrOp
  | setRegion (region base bytes : UInt32)
  | handoff (region expected next : UInt32)
  | clear (region expected : UInt32)
  | append (region owner : UInt32) (data : Option Buf) (len : UInt32)
  | setUsed (region owner used : UInt32)
  | read (region owner : UInt32) (out : Bool)

namespace Ddr

def call (s : Ddr) (v : Svc) : DdrOp → Status × Ddr × Svc
  | .setRegion region base bytes =>
    let (st, s) := s.setRegion region base bytes
    (st, s, v)
  | .handoff region expected next => s.handoff region expected next v
  | .clear region expected => s.clear region expected v
  | .append region owner data len => s.append region owner data len v
  | .setUsed region owner used => s.setUsed region owner used v
  | .read region owner out => s.read region owner out v

def step (s : Ddr × Svc) (op : DdrOp) : Ddr × Svc := (s.1.call s.2 op).2

end Ddr

@[simp] theorem DdrRegion.ofCode_code (r : DdrRegion) : ofCode r.code = some r := by
  cases r <;> rfl

@[simp] theorem DdrOwner.ofCode_code (o : DdrOwner) : ofCode o.code = some o := by
  cases o <;> rfl

theorem DdrOwner.code_of_ofCode {n : UInt32} {o : DdrOwner} (h : ofCode n = some o) : o.code = n := by
  have hcode := List.find?_some h
  simpa using hcode

theorem DdrOwner.code_inj {o o' : DdrOwner} : o.code = o'.code ↔ o = o' := by
  constructor
  · intro h
    have hsome := congrArg ofCode h
    simpa using hsome
  · exact fun h => h ▸ rfl

theorem DdrRegion.code_of_ofCode {n : UInt32} {r : DdrRegion} (h : ofCode n = some r) : r.code = n := by
  have hcode := List.find?_some h
  simpa using hcode

theorem DdrRegion.code_inj {r r' : DdrRegion} : r.code = r'.code ↔ r = r' := by
  constructor
  · intro h
    have hsome := congrArg ofCode h
    simpa using hsome
  · exact fun h => h ▸ rfl

namespace DdrOp

def region : DdrOp → UInt32
  | .setRegion region .. | .handoff region .. | .clear region .. | .append region ..
  | .setUsed region .. | .read region .. => region

def owner : DdrOp → Option UInt32
  | .setRegion .. => none
  | .handoff _ owner _ | .clear _ owner | .append _ owner .. | .setUsed _ owner _
  | .read _ owner _ => some owner

def valid : DdrOp → Bool
  | .setRegion _ base bytes => base != 0 && bytes != 0
  | .handoff _ expected next => (DdrOwner.ofCode expected).isSome && (DdrOwner.ofCode next).isSome
  | .clear _ expected => (DdrOwner.ofCode expected).isSome
  | .append _ _ data len => data.isSome && len != 0
  | .setUsed .. => true
  | .read _ _ out => out

def reach (used : UInt32) : DdrOp → ℕ
  | .append _ _ _ len => used.toNat + len.toNat
  | .setUsed _ _ used => used.toNat
  | .setRegion .. | .handoff .. | .clear .. | .read .. => 0

end DdrOp

namespace Ddr

structure Held (s : Ddr) (r : DdrRegion) (region owner : UInt32) : Prop where
  region : DdrRegion.ofCode region = some r
  configured : (s.region r).base ≠ 0
  owner : (s.region r).owner.code = owner

def Disputed (s : Ddr) (op : DdrOp) : Prop :=
  op.valid = true ∧ ∃ r owner, DdrRegion.ofCode op.region = some r ∧ op.owner = some owner ∧
    (s.region r).base ≠ 0 ∧ (s.region r).owner.code ≠ owner

def Overfull (s : Ddr) (op : DdrOp) : Prop :=
  op.valid = true ∧ ∃ r owner, op.owner = some owner ∧ s.Held r op.region owner ∧
    (s.region r).capacity.toNat < op.reach (s.region r).used

/-- A clear that names another owner than nobody for a region that is not configured. -/
def ClearsUnset (s : Ddr) (op : DdrOp) : Prop :=
  ∃ region expected r, op = .clear region expected ∧ (DdrOwner.ofCode expected).isSome ∧
    DdrRegion.ofCode region = some r ∧ (s.region r).base = 0 ∧ (s.region r).owner.code ≠ expected

inductive Done (s : Ddr) (r : DdrRegion) : DdrOp → Region → Buf → Prop
  | setRegion {region base bytes : UInt32} (hr : DdrRegion.ofCode region = some r) (hbase : base ≠ 0)
      (hbytes : bytes ≠ 0) (hfree : (s.region r).owner = .none) :
      Done s r (.setRegion region base bytes)
        { s.region r with base, capacity := bytes, used := 0 } s.memory
  | handoff {region expected next : UInt32} (h : s.Held r region expected) {owner : DdrOwner}
      (hnext : DdrOwner.ofCode next = some owner) :
      Done s r (.handoff region expected next) { s.region r with owner } s.memory
  | clear {region expected : UInt32} (hr : DdrRegion.ofCode region = some r)
      (howner : (s.region r).owner.code = expected) :
      Done s r (.clear region expected) { s.region r with used := 0, owner := .none } s.memory
  | append {region owner len : UInt32} {data : Buf} (h : s.Held r region owner) (hlen : len ≠ 0)
      (hroom : ¬ (s.region r).capacity - (s.region r).used < len) :
      Done s r (.append region owner (some data) len)
        { s.region r with used := (s.region r).used + len }
        (s.memory.overlay ((s.region r).base + (s.region r).used) (data.bytes 0 len))
  | setUsed {region owner used : UInt32} (h : s.Held r region owner)
      (hroom : ¬ (s.region r).capacity < used) :
      Done s r (.setUsed region owner used) { s.region r with used } s.memory
  | read {region owner : UInt32} (h : s.Held r region owner) :
      Done s r (.read region owner true) (s.region r) s.memory

inductive Effect (s : Ddr) (op : DdrOp) : Status → Ddr → Prop
  | done {r : DdrRegion} {x : Region} {memory : Buf} (h : Done s r op x memory) (handoffs : UInt32) :
      Effect s op .ok { s with region := Function.update s.region r x, memory, handoffs }
  | refused {st : Status} (hst : st ≠ .ok) (hquiet : ¬ (s.Disputed op ∨ s.Overfull op)) :
      Effect s op st s
  | disputed (h : s.Disputed op ∨ s.ClearsUnset op) :
      Effect s op .errState { s with violations := s.violations + 1 }
  | overfull (h : s.Overfull op) : Effect s op .errRange { s with overruns := s.overruns + 1 }

theorem not_disputed_of_held {s : Ddr} {r : DdrRegion} {op : DdrOp} {owner : UInt32}
    (hop : op.owner = some owner) (h : s.Held r op.region owner) : ¬ s.Disputed op := by
  rintro ⟨-, r', owner', hr', howner', -, hne⟩
  obtain rfl := Option.some.inj (h.region.symm.trans hr')
  obtain rfl := Option.some.inj (hop.symm.trans howner')
  exact hne h.owner

/-- The checks let a call through to its body, or refuse it for what they find. -/
theorem owned_effect {s : Ddr} {r : DdrRegion} (op : DdrOp) {owner : UInt32}
    (hr : DdrRegion.ofCode op.region = some r) (hop : op.owner = some owner) (hvalid : op.valid = true)
    (v : Svc) {body : Status × Ddr × Svc}
    (hbody : s.Held r op.region owner → Effect s op body.1 body.2.1) :
    Effect s op (s.owned r owner v body).1 (s.owned r owner v body).2.1 := by
  by_cases hbase : (s.region r).base = 0
  · have hquiet : ¬ (s.Disputed op ∨ s.Overfull op) := by
      rintro (⟨-, r', _, hr', -, hne, -⟩ | ⟨-, r', _, -, hheld, -⟩)
      · obtain rfl := Option.some.inj (hr.symm.trans hr')
        exact hne hbase
      · obtain rfl := Option.some.inj (hr.symm.trans hheld.region)
        exact hheld.configured hbase
    rw [owned, if_pos hbase]
    exact .refused (by simp) hquiet
  rw [owned, if_neg hbase]
  by_cases howner : (s.region r).owner.code = owner
  · rw [if_neg (not_not.mpr howner)]
    exact hbody ⟨hr, hbase, howner⟩
  · rw [if_pos howner]
    exact .disputed (.inl ⟨hvalid, r, owner, hr, hop, hbase, howner⟩)

theorem refused_of_invalid {s : Ddr} {op : DdrOp}
    (h : DdrRegion.ofCode op.region = none ∨ op.valid = false) : Effect s op .errParam s := by
  refine .refused (by decide) ?_
  rintro (⟨hvalid, r, _, hr, -⟩ | ⟨hvalid, r, _, -, hheld, -⟩)
  · rcases h with h | h
    · simp [h] at hr
    · simp [h] at hvalid
  · rcases h with h | h
    · have hr := hheld.region
      simp [h] at hr
    · simp [h] at hvalid

def Bounded (s : Ddr) : Prop := ∀ r, (s.region r).used ≤ (s.region r).capacity

theorem call_effect {s : Ddr} (hbound : s.Bounded) (v : Svc) (op : DdrOp) :
    Effect s op (s.call v op).1 (s.call v op).2.1 := by
  cases op with
  | setRegion region base bytes =>
    simp only [call, setRegion]
    cases hr : DdrRegion.ofCode region with
    | none => exact refused_of_invalid (.inl hr)
    | some r =>
      dsimp only
      split
      · rename_i hzero
        exact refused_of_invalid (.inr (by simpa [DdrOp.valid, or_iff_not_imp_left] using hzero))
      rename_i hzero
      split
      · refine .refused (by simp) ?_
        rintro (⟨-, _, _, -, howner, -⟩ | ⟨-, _, _, howner, -⟩)
        · simp [DdrOp.owner] at howner
        · simp [DdrOp.owner] at howner
      · rename_i hfree
        obtain ⟨hbase, hbytes⟩ := not_or.mp hzero
        exact .done (.setRegion hr hbase hbytes (not_not.mp hfree)) s.handoffs
  | handoff region expected next =>
    simp only [call, handoff]
    cases hr : DdrRegion.ofCode region with
    | none => exact refused_of_invalid (.inl hr)
    | some r =>
      cases hexpected : DdrOwner.ofCode expected with
      | none => exact refused_of_invalid (.inr (by simp [DdrOp.valid, hexpected]))
      | some o =>
        cases hnext : DdrOwner.ofCode next with
        | none => exact refused_of_invalid (.inr (by simp [DdrOp.valid, hnext]))
        | some owner =>
          refine owned_effect (.handoff region expected next) hr rfl
            (by simp [DdrOp.valid, hexpected, hnext]) v fun h => ?_
          exact .done (.handoff h hnext) (s.handoffs + 1)
  | clear region expected =>
    simp only [call, clear]
    cases hr : DdrRegion.ofCode region with
    | none => exact refused_of_invalid (.inl hr)
    | some r =>
      cases hexpected : DdrOwner.ofCode expected with
      | none => exact refused_of_invalid (.inr (by simp [DdrOp.valid, hexpected]))
      | some o =>
        have hvalid : (DdrOp.clear region expected).valid = true := by simp [DdrOp.valid, hexpected]
        dsimp only
        split
        · rename_i howner
          refine .disputed ?_
          by_cases hbase : (s.region r).base = 0
          · exact .inr ⟨region, expected, r, rfl, hvalid, hr, hbase, howner⟩
          · exact .inl ⟨hvalid, r, expected, hr, rfl, hbase, howner⟩
        · rename_i howner
          exact .done (.clear hr (not_not.mp howner)) s.handoffs
  | append region owner data len =>
    simp only [call, append]
    cases hr : DdrRegion.ofCode region with
    | none => exact refused_of_invalid (.inl hr)
    | some r =>
      cases data with
      | none => exact refused_of_invalid (.inr rfl)
      | some data =>
        dsimp only
        split
        · rename_i hlen
          exact refused_of_invalid (.inr (by simp [DdrOp.valid, hlen]))
        rename_i hlen
        have hvalid : (DdrOp.append region owner (some data) len).valid = true := by
          simp [DdrOp.valid, hlen]
        refine owned_effect (.append region owner (some data) len) hr rfl hvalid v fun h => ?_
        split
        · rename_i hroom
          refine .overfull ⟨hvalid, r, owner, rfl, h, ?_⟩
          rw [UInt32.lt_iff_toNat_lt, UInt32.toNat_sub_of_le _ _ (hbound r)] at hroom
          show (s.region r).capacity.toNat < (s.region r).used.toNat + len.toNat
          omega
        · rename_i hroom
          exact .done (.append h hlen hroom) s.handoffs
  | setUsed region owner used =>
    simp only [call, setUsed]
    cases hr : DdrRegion.ofCode region with
    | none => exact refused_of_invalid (.inl hr)
    | some r =>
      refine owned_effect (.setUsed region owner used) hr rfl rfl v fun h => ?_
      split
      · rename_i hroom
        exact .overfull ⟨rfl, r, owner, rfl, h, UInt32.lt_iff_toNat_lt.mp hroom⟩
      · rename_i hroom
        exact .done (.setUsed h hroom) s.handoffs
  | read region owner out =>
    simp only [call, read]
    cases hr : DdrRegion.ofCode region with
    | none => exact refused_of_invalid (.inl hr)
    | some r =>
      cases out with
      | false => exact refused_of_invalid (.inr rfl)
      | true =>
        refine owned_effect (.read region owner true) hr rfl rfl v fun h => ?_
        have hdone := Effect.done (.read h) s.handoffs
        rwa [Function.update_eq_self] at hdone

/-- What is appended ends within the region. -/
theorem room_of_append {x : Region} {len : UInt32} (h : x.used ≤ x.capacity)
    (hroom : ¬ x.capacity - x.used < len) :
    x.used.toNat + len.toNat ≤ x.capacity.toNat ∧
      (x.used + len).toNat = x.used.toNat + len.toNat := by
  have hcapacity := x.capacity.toNat_lt
  have hused := UInt32.le_iff_toNat_le.mp h
  rw [UInt32.not_lt, UInt32.le_iff_toNat_le, UInt32.toNat_sub_of_le _ _ h] at hroom
  refine ⟨by omega, ?_⟩
  rw [UInt32.toNat_add]
  omega

theorem Done.bounded {s : Ddr} (hbound : s.Bounded) {r : DdrRegion} {op : DdrOp} {x : Region}
    {memory : Buf} (h : Done s r op x memory) : x.used ≤ x.capacity := by
  cases h with
  | setRegion => exact UInt32.zero_le
  | handoff => exact hbound r
  | clear => exact UInt32.zero_le
  | append hheld hlen hroom =>
    obtain ⟨hend, hsum⟩ := room_of_append (hbound r) hroom
    rw [UInt32.le_iff_toNat_le, hsum]
    exact hend
  | setUsed hheld hroom => exact UInt32.not_lt.mp hroom
  | read => exact hbound r

theorem bounded_call {s : Ddr} (h : s.Bounded) (v : Svc) (op : DdrOp) : (s.call v op).2.1.Bounded := by
  have heffect := call_effect h v op
  generalize s.call v op = c at heffect
  obtain ⟨st, s', v'⟩ := c
  cases heffect with
  | refused => exact h
  | disputed => exact h
  | overfull => exact h
  | @done r x memory hdone handoffs =>
    intro r'
    dsimp only
    by_cases hr : r' = r
    · rw [hr, Function.update_self]
      exact hdone.bounded h
    · rw [Function.update_of_ne hr]
      exact h r'

/-- What a call that succeeds has done. -/
theorem done_of_ok {s : Ddr} (hbound : s.Bounded) {v : Svc} {op : DdrOp} (hok : (s.call v op).1 = .ok) :
    ∃ r x memory handoffs, Done s r op x memory ∧
      (s.call v op).2.1 = { s with region := Function.update s.region r x, memory, handoffs } := by
  have heffect := call_effect hbound v op
  generalize s.call v op = c at heffect hok
  obtain ⟨st, s', v'⟩ := c
  dsimp only at heffect hok
  subst hok
  cases heffect with
  | refused hst => exact absurd rfl hst
  | @done r x memory hdone handoffs => exact ⟨r, x, memory, handoffs, hdone, rfl⟩

theorem Held.owned {s : Ddr} {r : DdrRegion} {region owner : UInt32} (h : s.Held r region owner)
    (v : Svc) (body : Status × Ddr × Svc) : s.owned r owner v body = body := by
  rw [Ddr.owned, if_neg h.configured, if_neg (not_not.mpr h.owner)]

/-- A call that can be done is. -/
theorem call_of_done {s : Ddr} (v : Svc) {op : DdrOp} {r : DdrRegion} {x : Region} {memory : Buf}
    (h : Done s r op x memory) : (s.call v op).1 = .ok := by
  cases h with
  | setRegion hr hbase hbytes hfree => simp [call, setRegion, hr, hbase, hbytes, hfree]
  | handoff h hnext => simp [call, handoff, h.region, ← h.owner, hnext, h.owner ▸ h.owned]
  | clear hr howner => simp [call, clear, hr, ← howner]
  | append h hlen hroom => simp [call, append, h.region, hlen, h.owned, hroom]
  | setUsed h hroom => simp [call, setUsed, h.region, h.owned, hroom]
  | read h => simp [call, read, h.region, h.owned]

end Ddr

end QiranFirmware
