import Wasp.Lib.ByteMem

/-!
# Virtine — one virtual machine and its reset state

`include/wasp/Virtine.h` and `src/Virtine.cpp`: the register file, the
reset state, and the methods the cache and the hypercall loop call. The
special registers and the FPU are opaque to the library (it only reads
them from one vCPU and writes them to another), so their types are
parameters `S` and `F`.

KVM keeps the register state of a vCPU; `Machine` is that state together
with the bytes behind `m_mem`. The bytes are a total function of the
offset from `m_mem`: offsets from `m_memsz` on are the host's own bytes
past the block, which is where an unchecked `memcpy` ends up.
-/

namespace Wasp

open ByteMem

/-- `kvm_regs`; a field left out of an initializer is zero, as in C. -/
structure VirtineRegisters where
  rax : BitVec 64 := 0
  rbx : BitVec 64 := 0
  rcx : BitVec 64 := 0
  rdx : BitVec 64 := 0
  rsi : BitVec 64 := 0
  rdi : BitVec 64 := 0
  rsp : BitVec 64 := 0
  rbp : BitVec 64 := 0
  r8 : BitVec 64 := 0
  r9 : BitVec 64 := 0
  r10 : BitVec 64 := 0
  r11 : BitVec 64 := 0
  r12 : BitVec 64 := 0
  r13 : BitVec 64 := 0
  r14 : BitVec 64 := 0
  r15 : BitVec 64 := 0
  rip : BitVec 64 := 0
  rflags : BitVec 64 := 0
  deriving DecidableEq, Repr

/-- How a library call ends other than by returning: a C++ exception, a
copy through a null pointer, `abort()`, or a lock that is never free. -/
inductive Fault where
  | throws (what : String)
  | segv
  | aborted
  | hang
  deriving DecidableEq, Repr

/-- The state of the vCPU and of the guest's memory. -/
structure Machine (S F : Type) where
  regs : VirtineRegisters
  sregs : S
  fpu : F
  mem : Nat → UInt8

/-- A region to copy back on reset. A `data` of `none` is a null pointer. -/
structure ResetMemory where
  data : Option (Nat → UInt8)
  address : BitVec 64
  size : BitVec 64

/-- The registers and regions of memory that a virtine resets to. -/
structure ResetState (S F : Type) where
  regs : VirtineRegisters
  sregs : S
  fpu : F
  regions : List ResetMemory

/-- `mMem` is the host address of the block (`0` is null); a set
`mResetMask` points at the reset state of the cache that owns the
virtine, which is passed wherever the code follows the pointer. -/
structure Virtine (S F : Type) extends Machine S F where
  mMem : BitVec 64
  mMemsz : BitVec 64
  mReset : ResetState S F
  mResetMask : Bool

/-- What the kernel answers while one virtine is built: the descriptor of
`/dev/kvm`, the results of the sanity checks and of the CPUID calls, the
state of a new vCPU, and the address `mmap` returns (`none` is
`MAP_FAILED`; a successful mapping is never at null). -/
structure Kvm (S F : Type) where
  kvmfd : Int
  apiVersion : Int
  capUserMemory : Int
  supportedCpuid : Int
  setCpuid2 : Int
  sregs : S
  fpu : F
  clearCsBase : S → S
  mmap : Option { p : BitVec 64 // p ≠ 0 }

/-- A host on which every step of building a virtine succeeds. -/
def plainKvm : Kvm Unit Unit :=
  { kvmfd := 3, apiVersion := 12, capUserMemory := 1, supportedCpuid := 0,
    setCpuid2 := 0, sregs := (), fpu := (), clearCsBase := id,
    mmap := some ⟨0x100000, by decide⟩ }

variable {S F : Type}

namespace Virtine

/-! ## Construction and memory -/

/-- `Virtine::Virtine`. The reset state of its own that the constructor
saves has no regions. -/
def new (kvm : Kvm S F) : Except Fault (Virtine S F) :=
  if kvm.kvmfd = -1 then .error (.throws "unable to open /dev/kvm")
  else if kvm.apiVersion = -1 then .error (.throws "KVM_GET_API_VERSION")
  else if kvm.apiVersion ≠ 12 then
    .error (.throws "KVM_GET_API_VERSION returned invalid version")
  else if kvm.capUserMemory = -1 then .error (.throws "KVM_CHECK_EXTENSION")
  else if kvm.capUserMemory = 0 then
    .error (.throws "Required extension KVM_CAP_USER_MEM not available")
  else if kvm.supportedCpuid < 0 then
    .error (.throws "KVM_GET_SUPPORTED_CPUID failed")
  else if kvm.setCpuid2 ≠ 0 then .error (.throws "KVM_SET_CPUID2 failed")
  else
    let regs : VirtineRegisters := { rflags := 0x2 }
    let regs := { regs with rip := 0x8000, rsp := 0x8000 }
    let sregs := kvm.clearCsBase kvm.sregs
    .ok { regs := regs, sregs := sregs, fpu := kvm.fpu, mem := fun _ => 0,
          mMem := 0, mMemsz := 0,
          mReset := { regs := regs, sregs := sregs, fpu := kvm.fpu, regions := [] },
          mResetMask := false }

/-- `Virtine::allocate_memory`. A failed mapping is reported by the
returned flag alone. -/
def allocateMemory (v : Virtine S F) (mmap : Option { p : BitVec 64 // p ≠ 0 })
    (memsz : BitVec 64) : Except Fault (Bool × Virtine S F) :=
  if memsz = 0 then .error (.throws "zero memory size does not make sense")
  else if memsz &&& 0xFFF ≠ 0 then
    .error (.throws "virtine memory sizes must be page-aligned")
  else
    match mmap with
    | none => .ok (false, v)
    | some p =>
        .ok (true, { v with mem := fun _ => 0, mMem := p.val, mMemsz := memsz })

/-- `Virtine::translate`: `some a` is the pointer `m_mem + a`. The
comparison is unsigned, so a negative `off_t` is far out of range; before
any memory is mapped only offset `0` passes it, and the sum is null. -/
def translate (v : Virtine S F) (addr : BitVec 64) : Option Nat :=
  if v.mMemsz.toNat < addr.toNat ∨ v.mMem = 0 then none else some addr.toNat

/-- `Virtine::validate_length`: the sum wraps at `2^64`. -/
def validateLength (v : Virtine S F) (addr len : BitVec 64) : Bool :=
  decide ((addr + len).toNat ≤ v.mMemsz.toNat)

/-! ## Reset state -/

/-- `Virtine::rst`: the mask if there is one, the virtine's own otherwise. -/
def rst (v : Virtine S F) (mask : Option (ResetState S F)) : ResetState S F :=
  match v.mResetMask, mask with
  | true, some r => r
  | _, _ => v.mReset

/-- What `save_reset_state(regions)` stores in `rst()`. -/
def saveResetState (v : Virtine S F) (regions : List ResetMemory) : ResetState S F :=
  { regs := v.regs, sregs := v.sregs, fpu := v.fpu, regions := regions }

/-- One `memcpy(translate(r.address), r.data, r.size)`. -/
def copyRegion (v : Virtine S F) (r : ResetMemory) : Except Fault (Virtine S F) :=
  match v.translate r.address, r.data with
  | some a, some d => .ok { v with mem := blit v.mem a d r.size.toNat }
  | _, _ => if r.size = 0 then .ok v else .error .segv

/-- The region loop of `Virtine::reset`. -/
def copyRegions : Virtine S F → List ResetMemory → Except Fault (Virtine S F)
  | v, [] => .ok v
  | v, r :: rs =>
      match v.copyRegion r with
      | .ok v' => v'.copyRegions rs
      | .error e => .error e

/-- `Virtine::reset`, with `r` the state `rst()` refers to. No other byte
is touched: the `memset` of the whole memory is commented out. -/
def reset (v : Virtine S F) (r : ResetState S F) : Except Fault (Virtine S F) :=
  ({ v with regs := r.regs, sregs := r.sregs, fpu := r.fpu }).copyRegions r.regions

end Virtine

/-! ## What a reset does

`reset` is a loop of checked copies; `reset_eq_ok` says once what it leaves,
and nothing after this section unfolds the loop. -/

/-- The effect of copying one region back. -/
def ResetMemory.write (r : ResetMemory) (m : Nat → UInt8) : Nat → UInt8 :=
  match r.data with
  | some d => blit m r.address.toNat d r.size.toNat
  | none => m

/-- The effect of copying every region back, in order. -/
def ResetState.write (r : ResetState S F) (m : Nat → UInt8) : Nat → UInt8 :=
  r.regions.foldl (fun m g => g.write m) m

/-- The copy goes through: it is empty, or neither pointer is null. -/
def ResetMemory.Copyable (r : ResetMemory) (v : Virtine S F) : Prop :=
  r.size = 0 ∨ (r.address.toNat ≤ v.mMemsz.toNat ∧ v.mMem ≠ 0 ∧ r.data ≠ none)

theorem ResetMemory.write_empty {r : ResetMemory} (h : r.size = 0)
    (m : Nat → UInt8) : r.write m = m := by
  unfold ResetMemory.write
  split
  · simp [h]
  · rfl

/-- A region of `r` contains the byte `a`. -/
def ResetState.Covers (r : ResetState S F) (a : Nat) : Prop :=
  ∃ g ∈ r.regions, g.address.toNat ≤ a ∧ a < g.address.toNat + g.size.toNat

theorem ResetMemory.write_outside {g : ResetMemory} {a : Nat}
    (h : ¬ (g.address.toNat ≤ a ∧ a < g.address.toNat + g.size.toNat)) (m : Nat → UInt8) :
    g.write m a = m a := by
  unfold ResetMemory.write
  cases g.data with
  | some d => exact blit_outside (by omega)
  | none => rfl

theorem ResetMemory.write_inside {g : ResetMemory} {a : Nat} (hb : g.size = 0 ∨ g.data ≠ none)
    (h : g.address.toNat ≤ a ∧ a < g.address.toNat + g.size.toNat) (m m' : Nat → UInt8) :
    g.write m a = g.write m' a := by
  unfold ResetMemory.write
  cases hd : g.data with
  | some d =>
      show blit m _ d _ a = blit m' _ d _ a
      rw [blit_inside h.1 h.2, blit_inside h.1 h.2]
  | none =>
      have hz : g.size.toNat = 0 := by rw [hb.resolve_right (by simp [hd])]; rfl
      omega

/-- A reset leaves every byte the regions do not cover. -/
theorem ResetState.write_uncovered {r : ResetState S F} {a : Nat} (h : ¬ r.Covers a)
    (m : Nat → UInt8) : r.write m a = m a := by
  have hall : ∀ g ∈ r.regions,
      ¬ (g.address.toNat ≤ a ∧ a < g.address.toNat + g.size.toNat) :=
    fun g hg hin => h ⟨g, hg, hin⟩
  unfold ResetState.write
  generalize r.regions = gs at hall
  induction gs generalizing m with
  | nil => rfl
  | cons g gs ih =>
      rw [List.foldl_cons, ih _ fun g' hg' => hall g' (List.mem_cons_of_mem _ hg')]
      exact ResetMemory.write_outside (hall g List.mem_cons_self) m

/-- A reset decides every byte the regions cover, if they have the bytes. -/
theorem ResetState.write_covered {r : ResetState S F} {a : Nat}
    (hb : ∀ g ∈ r.regions, g.size = 0 ∨ g.data ≠ none) (h : r.Covers a)
    (m m' : Nat → UInt8) : r.write m a = r.write m' a := by
  -- byte for byte a region either decides the result or keeps the old byte
  have hkeep : ∀ gs : List ResetMemory, (∀ g ∈ gs, g.size = 0 ∨ g.data ≠ none) →
      ∀ m m' : Nat → UInt8, m a = m' a →
        gs.foldl (fun m g => g.write m) m a = gs.foldl (fun m g => g.write m) m' a := by
    intro gs
    induction gs with
    | nil => exact fun _ _ _ h => h
    | cons g gs ih =>
        intro hgs m m' hm
        refine ih (fun g' hg' => hgs g' (List.mem_cons_of_mem _ hg')) _ _ ?_
        by_cases hin : g.address.toNat ≤ a ∧ a < g.address.toNat + g.size.toNat
        · exact ResetMemory.write_inside (hgs g List.mem_cons_self) hin m m'
        · show g.write m a = g.write m' a
          rw [ResetMemory.write_outside hin, ResetMemory.write_outside hin, hm]
  obtain ⟨g, hg, hin⟩ := h
  unfold ResetState.write
  generalize r.regions = gs at hb hg
  induction gs generalizing m m' with
  | nil => cases hg
  | cons g' gs ih =>
      have hb' := fun g hg => hb g (List.mem_cons_of_mem g' hg)
      rcases List.mem_cons.mp hg with rfl | hg
      · exact hkeep gs hb' _ _ (ResetMemory.write_inside (hb g List.mem_cons_self) hin m m')
      · exact ih _ _ hb' hg

namespace Virtine

theorem translate_eq_some {v : Virtine S F} {addr : BitVec 64} {a : Nat} :
    v.translate addr = some a ↔
      addr.toNat ≤ v.mMemsz.toNat ∧ v.mMem ≠ 0 ∧ a = addr.toNat := by
  unfold translate
  by_cases h : v.mMemsz.toNat < addr.toNat ∨ v.mMem = 0
  · simp only [if_pos h]
    constructor
    · intro hn; cases hn
    · rintro ⟨h1, h2, _⟩
      rcases h with h | h
      · omega
      · exact absurd h h2
  · simp only [if_neg h, Option.some.injEq]
    rw [not_or] at h
    constructor
    · intro ha; exact ⟨by omega, h.2, ha.symm⟩
    · rintro ⟨_, _, ha⟩; exact ha.symm

theorem translate_zero {v : Virtine S F} (h : v.mMem ≠ 0) : v.translate 0 = some 0 :=
  translate_eq_some.mpr ⟨Nat.zero_le _, h, rfl⟩

theorem copyRegion_eq_ok {v v' : Virtine S F} {r : ResetMemory} :
    v.copyRegion r = .ok v' ↔
      r.Copyable v ∧ v' = { v with mem := r.write v.mem } := by
  have hskip : (if r.size = 0 then Except.ok v else .error Fault.segv) = .ok v' ↔
      r.size = 0 ∧ v' = { v with mem := r.write v.mem } := by
    by_cases hz : r.size = 0
    · rw [if_pos hz, Except.ok.injEq, ResetMemory.write_empty hz]
      exact ⟨fun h => ⟨hz, h.symm⟩, fun h => h.2.symm⟩
    · rw [if_neg hz]
      constructor
      · intro h; cases h
      · rintro ⟨h, _⟩; exact absurd h hz
  cases ht : v.translate r.address with
  | none =>
      have hno : ¬ (r.address.toNat ≤ v.mMemsz.toNat ∧ v.mMem ≠ 0) := by
        intro h
        have := translate_eq_some.mpr ⟨h.1, h.2, rfl⟩
        simp [this] at ht
      simp only [copyRegion, ht, hskip, ResetMemory.Copyable]
      constructor
      · rintro ⟨hz, hv⟩; exact ⟨.inl hz, hv⟩
      · rintro ⟨hz | ⟨h1, h2, _⟩, hv⟩
        · exact ⟨hz, hv⟩
        · exact absurd ⟨h1, h2⟩ hno
  | some a =>
      obtain ⟨hle, hm, rfl⟩ := translate_eq_some.mp ht
      cases hd : r.data with
      | none =>
          simp only [copyRegion, ht, hd, hskip, ResetMemory.Copyable]
          constructor
          · rintro ⟨hz, hv⟩; exact ⟨.inl hz, hv⟩
          · rintro ⟨hz | ⟨_, _, h3⟩, hv⟩
            · exact ⟨hz, hv⟩
            · exact absurd rfl h3
      | some d =>
          simp only [copyRegion, ht, hd, Except.ok.injEq, ResetMemory.Copyable,
            ResetMemory.write]
          constructor
          · intro hv; exact ⟨.inr ⟨hle, hm, by simp⟩, hv.symm⟩
          · rintro ⟨_, hv⟩; exact hv.symm

theorem copyRegions_eq_ok {rs : List ResetMemory} {v v' : Virtine S F} :
    v.copyRegions rs = .ok v' ↔
      (∀ r ∈ rs, r.Copyable v) ∧
        v' = { v with mem := rs.foldl (fun m g => g.write m) v.mem } := by
  induction rs generalizing v with
  | nil => simp [copyRegions, eq_comm]
  | cons r rs ih =>
      cases hc : v.copyRegion r with
      | error e =>
          have hno : ¬ r.Copyable v := by
            intro h
            have := copyRegion_eq_ok.mpr ⟨h, rfl⟩
            rw [hc] at this
            cases this
          simp [copyRegions, hc, hno]
      | ok w =>
          obtain ⟨hr, rfl⟩ := copyRegion_eq_ok.mp hc
          simp only [copyRegions, hc, ih, List.mem_cons, forall_eq_or_imp, hr,
            true_and, List.foldl_cons]
          rfl

/-- **The reset specification**: when every copy goes through, the vCPU
state is the saved one and the memory is the old one with the regions
written over it; nothing else of the virtine changes. -/
theorem reset_eq_ok {v v' : Virtine S F} {r : ResetState S F} :
    v.reset r = .ok v' ↔
      (∀ g ∈ r.regions, g.Copyable v) ∧
        v' = { v with regs := r.regs, sregs := r.sregs, fpu := r.fpu,
                      mem := r.write v.mem } := by
  unfold reset
  rw [copyRegions_eq_ok]
  rfl

end Virtine

end Wasp
