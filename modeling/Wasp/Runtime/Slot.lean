import Mathlib.Algebra.Group.Nat.Defs
import Wasp.Lib.Run
import Wasp.Runtime.Virtine

/-!
# Slot — the memory of a virtine as the kernel and the library see it

`Virtine::allocate_memory` and `Virtine::set_unowned_memory`
(`src/Virtine.cpp`). Where the guest's memory is is known twice: KVM's slot
0 holds the block behind guest-physical memory, and `m_mem`, `m_memsz` are
what `translate` and `validate_length` go by. `Backed` has both, and the
host's address space under them: which bytes are mapped and what they are.

KVM can neither move nor resize a slot, and the library ignores its answer.
-/

namespace Wasp

variable {S F : Type}

/-- `kvm_userspace_memory_region`, for slot 0 at guest-physical 0. -/
structure Slot where
  userspaceAddr : BitVec 64
  memorySize : BitVec 64
  deriving DecidableEq, Repr

/-- The kernel's part of `KVM_SET_USER_MEMORY_REGION`: which regions it
takes for a slot that is not set. An empty region would delete one. -/
structure SlotPolicy where
  accepts : Slot → Bool
  nonempty : ∀ r, accepts r = true → r.memorySize ≠ 0

/-- The `ioctl`: an existing slot keeps its size and its block. -/
def SlotPolicy.setUserMemoryRegion (k : SlotPolicy) (slot : Option Slot) (r : Slot) :
    Int × Option Slot :=
  match slot with
  | none => if k.accepts r then (0, some r) else (-1, none)
  | some s => (if r = s then 0 else -1, some s)

structure Backed where
  mMem : BitVec 64
  mMemsz : BitVec 64
  slot : Option Slot
  mapped : Nat → Bool
  byte : Nat → UInt8

namespace Backed

/-- A new virtine, on a host with the given mappings. -/
def new (mapped : Nat → Bool) (byte : Nat → UInt8) : Backed :=
  { mMem := 0, mMemsz := 0, slot := none, mapped := mapped, byte := byte }

/-- The address is in the block of `n` bytes at `p`. -/
def inBlock (p n : BitVec 64) (x : Nat) : Bool :=
  decide (p.toNat ≤ x ∧ x < p.toNat + n.toNat)

/-- `mmap` has returned `p`: the block is there, and is zero. -/
def mmapped (s : Backed) (p n : BitVec 64) : Backed :=
  { s with mapped := fun x => inBlock p n x || s.mapped x,
           byte := fun x => if inBlock p n x then 0 else s.byte x }

def munmap (s : Backed) (p n : BitVec 64) : Backed :=
  { s with mapped := fun x => !inBlock p n x && s.mapped x }

/-- `if (m_mem != 0) munmap(m_mem, m_memsz)`. -/
def freeOld (s : Backed) : Backed :=
  if s.mMem = 0 then s else s.munmap s.mMem s.mMemsz

/-- `Virtine::set_unowned_memory`. -/
def setUnownedMemory (k : SlotPolicy) (s : Backed) (memsz mem : BitVec 64) :
    Except Fault Bool × Backed :=
  let (_, slot) := k.setUserMemoryRegion s.slot ⟨mem, memsz⟩
  (.ok true, { s with slot := slot })

/-- `Virtine::allocate_memory`, with the answer of `mmap`. -/
def allocateMemory (k : SlotPolicy) (s : Backed) (mmap : Option { p : BitVec 64 // p ≠ 0 })
    (memsz : BitVec 64) : Except Fault Bool × Backed :=
  if memsz = 0 then (.error (.throws "zero memory size does not make sense"), s)
  else if memsz &&& 0xFFF ≠ 0 then
    (.error (.throws "virtine memory sizes must be page-aligned"), s)
  else
    match mmap with
    | none => (.ok false, s)
    | some newAddr =>
        let s := s.mmapped newAddr memsz
        let (_, slot) := k.setUserMemoryRegion s.slot ⟨newAddr, memsz⟩
        (.ok true, { s.freeOld with slot := slot, mMemsz := memsz, mMem := newAddr })

/-- `Virtine::translate`, as a host address. -/
def translate (s : Backed) (addr : BitVec 64) : Option Nat :=
  if s.mMemsz.toNat < addr.toNat ∨ s.mMem = 0 then none else some (s.mMem.toNat + addr.toNat)

/-- What the guest reads at a physical address: nothing where there is no
slot, and nothing where the host has unmapped the block. -/
def guestByte (s : Backed) (a : Nat) : Option UInt8 :=
  match s.slot with
  | none => none
  | some r =>
      if a < r.memorySize.toNat ∧ s.mapped (r.userspaceAddr.toNat + a) then
        some (s.byte (r.userspaceAddr.toNat + a))
      else none

/-! ## One call -/

theorem freeOld_byte (s : Backed) : s.freeOld.byte = s.byte := by
  unfold freeOld
  split <;> rfl

theorem freeOld_mapped {s : Backed} {x : Nat} (h : inBlock s.mMem s.mMemsz x = false) :
    s.freeOld.mapped x = s.mapped x := by
  unfold freeOld
  split
  · rfl
  · simp [munmap, h]

/-- What a successful `allocate_memory` leaves. The new block is mapped
where it is not part of the old one, which has been given back. -/
structure Allocated (k : SlotPolicy) (s : Backed) (p memsz : BitVec 64) (t : Backed) :
    Prop where
  mMem : t.mMem = p
  mMemsz : t.mMemsz = memsz
  slot : t.slot = (k.setUserMemoryRegion s.slot ⟨p, memsz⟩).2
  byte : ∀ x, inBlock p memsz x = true → t.byte x = 0
  mapped : ∀ x, inBlock p memsz x = true → inBlock s.mMem s.mMemsz x = false →
    t.mapped x = true

theorem allocateMemory_some (k : SlotPolicy) (s : Backed) (p : { p : BitVec 64 // p ≠ 0 })
    {memsz : BitVec 64} (hz : memsz ≠ 0) (ha : memsz &&& 0xFFF = 0) :
    ∃ t, s.allocateMemory k (some p) memsz = (.ok true, t) ∧ s.Allocated k p memsz t := by
  unfold allocateMemory
  rw [if_neg hz, if_neg (not_not_intro ha)]
  refine ⟨_, rfl, rfl, rfl, rfl, ?_, ?_⟩
  · intro x hx
    show (s.mmapped p memsz).freeOld.byte x = 0
    rw [freeOld_byte]
    exact if_pos hx
  · intro x hx ho
    show (s.mmapped p memsz).freeOld.mapped x = true
    rw [freeOld_mapped (s := s.mmapped p memsz) ho]
    simp [mmapped, hx]

/-- A size that `allocate_memory` does not throw on. -/
def ValidSize (memsz : BitVec 64) : Prop := memsz ≠ 0 ∧ memsz &&& 0xFFF = 0

instance (memsz : BitVec 64) : Decidable (ValidSize memsz) :=
  inferInstanceAs (Decidable (_ ∧ _))

/-- Every other call of `allocate_memory` changes nothing. -/
theorem allocateMemory_unchanged (k : SlotPolicy) (s : Backed)
    {mmap : Option { p : BitVec 64 // p ≠ 0 }} {memsz : BitVec 64}
    (h : ¬ ValidSize memsz ∨ mmap = none) : (s.allocateMemory k mmap memsz).2 = s := by
  unfold allocateMemory
  by_cases hz : memsz = 0
  · rw [if_pos hz]
  · rw [if_neg hz]
    by_cases ha : memsz &&& 0xFFF ≠ 0
    · rw [if_pos ha]
    · rw [if_neg ha]
      rcases h with h | rfl
      · exact absurd ⟨hz, Decidable.not_not.mp ha⟩ h
      · rfl

/-! ## The memory of `Virtine`

`Virtine` has the fields, and the bytes behind them as offsets. The two
models of `allocate_memory` agree on both. -/

/-- The virtine's memory is the block the fields describe. -/
structure Shows (s : Backed) (v : Virtine S F) : Prop where
  mMem : v.mMem = s.mMem
  mMemsz : v.mMemsz = s.mMemsz
  mem : ∀ a < s.mMemsz.toNat, v.mem a = s.byte (s.mMem.toNat + a)

theorem inBlock_add {p n : BitVec 64} {a : Nat} (h : a < n.toNat) :
    inBlock p n (p.toNat + a) = true :=
  decide_eq_true (by omega)

theorem allocateMemory_shows (k : SlotPolicy) {s : Backed} {v : Virtine S F}
    (h : s.Shows v) (mmap : Option { p : BitVec 64 // p ≠ 0 }) (memsz : BitVec 64) :
    match v.allocateMemory mmap memsz with
    | .error e => s.allocateMemory k mmap memsz = (.error e, s)
    | .ok (b, v') => ∃ s', s.allocateMemory k mmap memsz = (.ok b, s') ∧ s'.Shows v' := by
  unfold Virtine.allocateMemory
  by_cases hz : memsz = 0
  · rw [if_pos hz]
    exact if_pos hz
  · rw [if_neg hz]
    by_cases ha : memsz &&& 0xFFF ≠ 0
    · rw [if_pos ha]
      exact (if_neg hz).trans (if_pos ha)
    · rw [if_neg ha]
      cases mmap with
      | none => exact ⟨s, (if_neg hz).trans (if_neg ha), h⟩
      | some p =>
          obtain ⟨t, ht, hal⟩ := allocateMemory_some k s p hz (Decidable.not_not.mp ha)
          refine ⟨t, ht, hal.mMem.symm, hal.mMemsz.symm, ?_⟩
          intro a hlt
          rw [hal.mMemsz] at hlt
          rw [hal.mMem, hal.byte _ (inBlock_add hlt)]

/-! ## Sequences of calls -/

end Backed

/-- A call, with the answer of `mmap` where it asks for one. -/
inductive MemCall where
  | allocate (memsz : BitVec 64) (mmap : Option { p : BitVec 64 // p ≠ 0 })
  | setUnowned (memsz mem : BitVec 64)

namespace Backed

def call (k : SlotPolicy) (s : Backed) : MemCall → Except Fault Bool × Backed
  | .allocate memsz mmap => s.allocateMemory k mmap memsz
  | .setUnowned memsz mem => s.setUnownedMemory k memsz mem

/-- `mmap` returns a block that ends in the address space and of which no
byte is mapped. -/
def Fresh (s : Backed) : MemCall → Prop
  | .allocate memsz (some p) =>
      p.val.toNat + memsz.toNat ≤ 2 ^ 64 ∧ ∀ x, inBlock p memsz x = true → s.mapped x = false
  | _ => True

def Step (k : SlotPolicy) (s : Backed) (c : MemCall) (t : Backed) : Prop :=
  s.Fresh c ∧ (s.call k c).2 = t

/-- The two views are one: the slot is the block of the fields, it is
mapped, and the guest reads what the host finds through `translate`. -/
structure Coincides (s : Backed) : Prop where
  slot : s.slot = if s.mMemsz = 0 then none else some ⟨s.mMem, s.mMemsz⟩
  mapped : ∀ r, s.slot = some r → ∀ a < r.memorySize.toNat,
    s.mapped (r.userspaceAddr.toNat + a) = true
  bytes : ∀ addr : BitVec 64, addr.toNat < s.mMemsz.toNat →
    ∃ p, s.translate addr = some p ∧ s.guestByte addr.toNat = some (s.byte p)

/-- The calls that keep the views together: an `allocate_memory` that does
not get as far as the `ioctl`, or the first one, if KVM takes its block; and
a `set_unowned_memory` that KVM turns down. -/
def Safe (k : SlotPolicy) (s : Backed) : MemCall → Prop
  | .allocate memsz mmap =>
      ∀ p, mmap = some p → ValidSize memsz → s.slot = none ∧ k.accepts ⟨p, memsz⟩ = true
  | .setUnowned memsz mem => s.slot = none → k.accepts ⟨mem, memsz⟩ = false

theorem new_coincides (mapped : Nat → Bool) (byte : Nat → UInt8) :
    (new mapped byte).Coincides := by
  refine ⟨rfl, ?_, ?_⟩
  · intro r hr
    cases hr
  · intro addr h
    exact absurd h (Nat.not_lt_zero _)

/-- The views of a mapped slot at `m_mem` are one. -/
theorem coincides_of_slot {s : Backed} (hm : s.mMem ≠ 0) (hz : s.mMemsz ≠ 0)
    (hslot : s.slot = some ⟨s.mMem, s.mMemsz⟩)
    (hmap : ∀ a < s.mMemsz.toNat, s.mapped (s.mMem.toNat + a) = true) : s.Coincides := by
  refine ⟨by rw [hslot, if_neg hz], ?_, ?_⟩
  · intro r hr a ha
    rw [hslot] at hr
    cases hr
    exact hmap a ha
  · intro addr h
    refine ⟨s.mMem.toNat + addr.toNat, ?_, ?_⟩
    · refine if_neg ?_
      rintro (hlt | hnull)
      · omega
      · exact hm hnull
    · simp only [guestByte, hslot]
      exact if_pos ⟨h, hmap _ h⟩

theorem Coincides.memsz_eq_zero {s : Backed} (h : s.Coincides) :
    s.mMemsz = 0 ↔ s.slot = none := by
  rw [h.slot]
  by_cases hz : s.mMemsz = 0 <;> simp [hz]

theorem Coincides.slot_eq {s : Backed} (h : s.Coincides) {r : Slot} (hr : s.slot = some r) :
    r = ⟨s.mMem, s.mMemsz⟩ ∧ r.memorySize ≠ 0 := by
  have hz : ¬ s.mMemsz = 0 := by
    rw [h.memsz_eq_zero, hr]
    simp
  have heq := h.slot
  rw [hr, if_neg hz, Option.some.injEq] at heq
  exact ⟨heq, heq ▸ hz⟩

/-- **The first block** is the slot if KVM takes it. -/
theorem allocated_first {k : SlotPolicy} {s t : Backed} {p memsz : BitVec 64}
    (hs : s.Coincides) (hal : s.Allocated k p memsz t) (hp : p ≠ 0) (hz : memsz ≠ 0)
    (hnone : s.slot = none) : t.Coincides ↔ k.accepts ⟨p, memsz⟩ = true := by
  have hslot : t.slot = if k.accepts ⟨p, memsz⟩ then some ⟨p, memsz⟩ else none := by
    rw [hal.slot, hnone]
    simp only [SlotPolicy.setUserMemoryRegion]
    split <;> rfl
  constructor
  · intro ht
    by_cases hacc : k.accepts ⟨p, memsz⟩ = true
    · exact hacc
    · rw [if_neg hacc, ← ht.memsz_eq_zero, hal.mMemsz] at hslot
      exact absurd hslot hz
  · intro hacc
    rw [if_pos hacc] at hslot
    refine coincides_of_slot (hal.mMem ▸ hp) (hal.mMemsz ▸ hz)
      (by rw [hal.mMem, hal.mMemsz, hslot]) ?_
    intro a ha
    rw [hal.mMemsz] at ha
    rw [hal.mMem]
    have hempty : s.mMemsz.toNat = 0 := by
      rw [hs.memsz_eq_zero.mpr hnone]
      rfl
    exact hal.mapped _ (inBlock_add ha) (decide_eq_false (by omega))

/-- **A second block** never is: the slot stays where it was, and that is
not where a fresh block is. -/
theorem allocated_again {k : SlotPolicy} {s t : Backed} {p memsz : BitVec 64} {r : Slot}
    (hs : s.Coincides) (hal : s.Allocated k p memsz t)
    (hfresh : ∀ x, inBlock p memsz x = true → s.mapped x = false) (hr : s.slot = some r) :
    ¬ t.Coincides := by
  intro ht
  have hslot : t.slot = some r := by
    rw [hal.slot, hr]
    rfl
  obtain ⟨heq, hz⟩ := ht.slot_eq hslot
  rw [hal.mMem, hal.mMemsz] at heq
  have hpos : 0 < r.memorySize.toNat := Nat.pos_of_ne_zero fun h0 =>
    hz (BitVec.eq_of_toNat_eq h0)
  have hmapped := hs.mapped r hr 0 hpos
  rw [heq] at hmapped hpos
  rw [hfresh _ (inBlock_add hpos)] at hmapped
  cases hmapped

theorem allocate_safe_iff {k : SlotPolicy} {s : Backed} {memsz : BitVec 64}
    {mmap : Option { p : BitVec 64 // p ≠ 0 }} (hs : s.Coincides)
    (hfresh : s.Fresh (.allocate memsz mmap)) :
    s.Safe k (.allocate memsz mmap) ↔ (s.allocateMemory k mmap memsz).2.Coincides := by
  by_cases hv : ValidSize memsz
  · cases mmap with
    | none =>
        rw [allocateMemory_unchanged k s (.inr rfl)]
        exact ⟨fun _ => hs, fun _ p hp => by cases hp⟩
    | some p =>
        obtain ⟨t, ht, hal⟩ := allocateMemory_some k s p hv.1 hv.2
        rw [ht]
        cases hslot : s.slot with
        | none =>
            rw [allocated_first hs hal p.property hv.1 hslot]
            constructor
            · intro h
              exact (h p rfl hv).2
            · intro hacc q hq _
              cases hq
              exact ⟨hslot, hacc⟩
        | some r =>
            constructor
            · intro h
              cases hslot.symm.trans (h p rfl hv).1
            · intro ht'
              exact absurd ht' (allocated_again hs hal hfresh.2 hslot)
  · rw [allocateMemory_unchanged k s (.inl hv)]
    exact ⟨fun _ => hs, fun _ p _ hv' => absurd hv' hv⟩

/-- A block that KVM turns down leaves the slot as it was. -/
theorem setUnownedMemory_refused {k : SlotPolicy} {s : Backed} {memsz mem : BitVec 64}
    (h : s.slot = none → k.accepts ⟨mem, memsz⟩ = false) :
    (s.setUnownedMemory k memsz mem).2 = s := by
  have hslot : (k.setUserMemoryRegion s.slot ⟨mem, memsz⟩).2 = s.slot := by
    cases hs : s.slot with
    | none => simp [SlotPolicy.setUserMemoryRegion, h hs]
    | some r => rfl
  simp only [setUnownedMemory, hslot]

theorem setUnowned_safe_iff {k : SlotPolicy} {s : Backed} {memsz mem : BitVec 64}
    (hs : s.Coincides) :
    s.Safe k (.setUnowned memsz mem) ↔ (s.setUnownedMemory k memsz mem).2.Coincides := by
  constructor
  · intro h
    rw [setUnownedMemory_refused h]
    exact hs
  · intro ht hnone
    refine Bool.eq_false_iff.mpr fun hacc => ?_
    -- KVM has taken the block, and the fields still say that there is none
    have hslot : (s.setUnownedMemory k memsz mem).2.slot = some ⟨mem, memsz⟩ := by
      simp [setUnownedMemory, SlotPolicy.setUserMemoryRegion, hnone, hacc]
    cases hslot.symm.trans (ht.memsz_eq_zero.mp (hs.memsz_eq_zero.mpr hnone))

/-- One call from a state in which the views coincide. -/
theorem step_safe_iff {k : SlotPolicy} {s t : Backed} {c : MemCall} (hs : s.Coincides)
    (hst : s.Step k c t) : s.Safe k c ↔ t.Coincides := by
  obtain ⟨hfresh, rfl⟩ := hst
  cases c with
  | allocate memsz mmap => exact allocate_safe_iff hs hfresh
  | setUnowned memsz mem => exact setUnowned_safe_iff hs

/-- A call that throws or reports a failure has changed nothing. -/
theorem failed_call_unchanged {k : SlotPolicy} {s : Backed} {c : MemCall}
    (h : (s.call k c).1 ≠ .ok true) : (s.call k c).2 = s := by
  cases c with
  | allocate memsz mmap =>
      show (s.allocateMemory k mmap memsz).2 = s
      by_cases hv : ValidSize memsz
      · cases mmap with
        | none => exact allocateMemory_unchanged k s (.inr rfl)
        | some p =>
            obtain ⟨t, ht, _⟩ := allocateMemory_some k s p hv.1 hv.2
            exact absurd (congrArg Prod.fst ht) h
      · exact allocateMemory_unchanged k s (.inl hv)
  | setUnowned memsz mem => exact absurd rfl h

end Backed

/-- **Two views of one memory.** A call that throws or returns false leaves
everything as it was; and over the life of a virtine the views coincide
after every call exactly when every call is safe. -/
theorem memory_views_iff (k : SlotPolicy) (mapped : Nat → Bool) (byte : Nat → UInt8) :
    (∀ s c t, Backed.Step k s c t → (s.call k c).1 ≠ .ok true →
      t.slot = s.slot ∧ t.mMem = s.mMem ∧ t.mMemsz = s.mMemsz) ∧
    (∀ calls t,
      Run (Guarded (Backed.Safe k) (Backed.Step k)) (.new mapped byte) calls t ↔
        Run (Keeping Backed.Coincides (Backed.Step k)) (.new mapped byte) calls t) := by
  constructor
  · rintro s c t ⟨_, rfl⟩ hfail
    rw [Backed.failed_call_unchanged hfail]
    exact ⟨rfl, rfl, rfl⟩
  · intro calls t
    refine Run.guarded_iff_keeping (I := fun _ => True) (fun _ _ _ _ _ => trivial) ?_
      trivial (Backed.new_coincides mapped byte)
    intro s c t _ hs hst
    exact Backed.step_safe_iff hs hst

/-! ### One block, and two -/

/-- KVM on a plain host: any page-aligned region that is not empty. -/
def pagePolicy : SlotPolicy where
  accepts r := decide (r.memorySize ≠ 0) && decide (r.memorySize &&& 0xFFF = 0) &&
    decide (r.userspaceAddr &&& 0xFFF = 0)
  nonempty := by
    intro r h
    simp only [Bool.and_eq_true, decide_eq_true_eq] at h
    exact h.1.1

theorem lowBlock_ne_zero : (0x100000 : BitVec 64) ≠ 0 := by decide

theorem highBlock_ne_zero : (0x200000 : BitVec 64) ≠ 0 := by decide

def lowBlock : { p : BitVec 64 // p ≠ 0 } := ⟨0x100000, lowBlock_ne_zero⟩

def highBlock : { p : BitVec 64 // p ≠ 0 } := ⟨0x200000, highBlock_ne_zero⟩

/-- Growing a virtine from one page to two: KVM keeps the first block, and
the library frees it. -/
theorem second_block_not_coincides :
    ¬ ∀ (k : SlotPolicy) (mapped : Nat → Bool) (byte : Nat → UInt8) (calls : List MemCall)
        (t : Backed), Run (Backed.Step k) (.new mapped byte) calls t → t.Coincides := by
  intro hall
  have hfirst : (Backed.new (fun _ => false) fun _ => 0).Step pagePolicy
      (.allocate 0x1000 (some lowBlock)) _ := ⟨⟨by decide, fun _ _ => rfl⟩, rfl⟩
  refine absurd (hall pagePolicy _ _ [_, .allocate 0x2000 (some highBlock)] _
    (.cons hfirst (.single ⟨⟨by decide, ?_⟩, rfl⟩))).slot (by decide)
  intro x hx
  have hhigh : 0x200000 ≤ x := (of_decide_eq_true hx).1
  have hlow : ¬ x < 0x101000 := by omega
  show (Backed.inBlock 0x100000 0x1000 x || false) = false
  rw [Bool.or_false]
  exact decide_eq_false fun h => hlow h.2

end Wasp
