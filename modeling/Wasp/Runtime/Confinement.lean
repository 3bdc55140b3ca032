import Mathlib.Algebra.Group.Nat.Defs
import Wasp.Runtime.RunVirtine

/-!
# Confinement — which host bytes a hypercall lets the host touch

The pointers handed to `open`, `read`, `write` and `fstat` come from the
guest. `validate_length` adds address and length modulo `2^64`, and
`translate` compares the address alone, so the two together do not bound
the access: a sum that wraps passes the first check, and the second one
either lets a small address through or turns a large one into null. `open`
checks 256 bytes, whatever the length of the path.

The section states what is touched in the host's address space and ends
with the exact condition under which all of it is the guest's.
-/

namespace Wasp

variable {S F : Type}

/-- The guest's block in the host's address space: `host` is what the host
reads at each of its addresses, and the block shows the guest's memory. -/
structure Mapping (v : Virtine S F) where
  host : Nat → UInt8
  mapped : v.mMem ≠ 0
  fits : v.mMem.toNat + v.mMemsz.toNat ≤ 2 ^ 64
  view : ∀ a < v.mMemsz.toNat, host (v.mMem.toNat + a) = v.mem a

/-- The host address lies in `[m_mem, m_mem + m_memsz)`. -/
def Virtine.InBlock (v : Virtine S F) (x : Nat) : Prop :=
  v.mMem.toNat ≤ x ∧ x < v.mMem.toNat + v.mMemsz.toNat

/-- The host address `k` bytes past a translated pointer. -/
def Virtine.hostAddr (v : Virtine S F) (ptr : Option Nat) (k : Nat) : Nat :=
  match ptr with
  | some a => (v.mMem.toNat + a + k) % 2 ^ 64
  | none => k % 2 ^ 64

/-- The host addresses a call may access through its pointer: the whole of
a buffer, and a path up to and including its terminator. -/
def HostCall.Touches (c : HostCall) (v : Virtine S F) (host : Nat → UInt8) (x : Nat) : Prop :=
  match c with
  | .close _ => False
  | .open_ path _ _ =>
      ∃ k, x = v.hostAddr path k ∧ ∀ j < k, host (v.hostAddr path j) ≠ 0
  | .read _ buf count | .write _ buf count => ∃ k < count.toNat, x = v.hostAddr buf k
  | .fstat _ buf => ∃ k < sizeofStat.toNat, x = v.hostAddr buf k

/-- Everything the call may access is the guest's. -/
def HostCall.Confined (c : HostCall) (v : Virtine S F) (host : Nat → UInt8) : Prop :=
  ∀ x, c.Touches v host x → v.InBlock x

/-- The loop makes host call `c` at the hypercall exit of `st`. -/
def LoopState.Makes (env : Env) (st : LoopState S F) (c : HostCall) : Prop :=
  ∃ r st', st.Handles env (some (.call c)) (some r) st'

/-- The arguments describe bytes of the guest: the buffer does not run past
`2^64` (an empty one may), and a path ends inside the memory. -/
def Virtine.ArgumentsInside (v : Virtine S F) (regs : VirtineRegisters) : Prop :=
  match Hcall.decode regs.rdi with
  | some .open_ => ∃ a, regs.rsi.toNat ≤ a ∧ a < v.mMemsz.toNat ∧ v.mem a = 0
  | some .read | some .write => regs.rcx = 0 ∨ regs.rdx.toNat + regs.rcx.toNat < 2 ^ 64
  | some .fstat => regs.rdx.toNat + sizeofStat.toNat < 2 ^ 64
  | _ => True

theorem LoopState.Makes.serves {env : Env} {st : LoopState S F} {c : HostCall}
    (h : st.Makes env c) : st.vm.Serves st.vm.regs c := by
  obtain ⟨r, st', hh⟩ := h
  cases hh with
  | call _ hd _ => exact Virtine.dispatch_eq_call.mp hd

section

variable {v : Virtine S F} (mp : Mapping v)

theorem validateLength_eq_true {addr len : BitVec 64} :
    v.validateLength addr len = true ↔
      (addr.toNat + len.toNat) % 2 ^ 64 ≤ v.mMemsz.toNat := by
  simp [Virtine.validateLength, BitVec.toNat_add]

include mp

theorem Mapping.pos : 0 < v.mMem.toNat := by
  have h := mp.mapped
  rcases Nat.eq_zero_or_pos v.mMem.toNat with h0 | h0
  · exact absurd (BitVec.eq_of_toNat_eq h0) h
  · exact h0

/-- Inside the block no address wraps. -/
theorem Mapping.hostAddr_inside {a k : Nat} (h : a + k < v.mMemsz.toNat) :
    v.hostAddr (some a) k = v.mMem.toNat + (a + k) := by
  have := mp.fits
  simp only [Virtine.hostAddr]
  rw [Nat.mod_eq_of_lt (by omega)]
  omega

/-- The byte right behind the block is not in it, whether or not the block
reaches the top of the address space. -/
theorem Mapping.end_not_inBlock {a k : Nat} (h : a + k = v.mMemsz.toNat) :
    ¬ v.InBlock (v.hostAddr (some a) k) := by
  have hf := mp.fits
  have hp := mp.pos
  have hs : v.hostAddr (some a) k = (v.mMem.toNat + v.mMemsz.toNat) % 2 ^ 64 := by
    simp only [Virtine.hostAddr]
    rw [Nat.add_assoc, h]
  rw [hs, Virtine.InBlock]
  rcases Nat.lt_or_ge (v.mMem.toNat + v.mMemsz.toNat) (2 ^ 64) with hlt | hge
  · rw [Nat.mod_eq_of_lt hlt]
    omega
  · have he : v.mMem.toNat + v.mMemsz.toNat = 2 ^ 64 := Nat.le_antisymm hf hge
    rw [he, Nat.mod_self]
    omega

/-- Null is not in the block. -/
theorem Mapping.null_not_inBlock : ¬ v.InBlock (v.hostAddr none 0) := by
  have hp := mp.pos
  simp only [Virtine.InBlock, Virtine.hostAddr, Nat.zero_mod]
  omega

/-- **A validated buffer** is the guest's exactly when it is empty or its
end does not wrap. -/
theorem Mapping.buffer_inBlock_iff {addr len : BitVec 64}
    (hv : v.validateLength addr len = true) :
    (∀ k < len.toNat, v.InBlock (v.hostAddr (v.translate addr) k)) ↔
      len = 0 ∨ addr.toNat + len.toNat < 2 ^ 64 := by
  rw [validateLength_eq_true] at hv
  constructor
  · intro h
    rcases Nat.lt_or_ge (addr.toNat + len.toNat) (2 ^ 64) with hlt | hge
    · exact .inr hlt
    · apply Or.inl
      apply BitVec.eq_of_toNat_eq
      rcases Nat.eq_zero_or_pos len.toNat with h0 | hpos
      · simpa using h0
      -- the sum wrapped: some byte of the buffer is outside
      cases ht : v.translate addr with
      | none =>
          have := h 0 hpos
          rw [ht] at this
          exact absurd this mp.null_not_inBlock
      | some a =>
          obtain ⟨hle, _, rfl⟩ := Virtine.translate_eq_some.mp ht
          have hm := v.mMemsz.isLt
          have := h (v.mMemsz.toNat - addr.toNat) (by omega)
          rw [ht] at this
          exact absurd this (mp.end_not_inBlock (by omega))
  · intro h k hk
    rcases h with rfl | hlt
    · simp at hk
    · rw [Nat.mod_eq_of_lt hlt] at hv
      rw [Virtine.translate_eq_some.mpr ⟨by omega, mp.mapped, rfl⟩,
        mp.hostAddr_inside (by omega), Virtine.InBlock]
      omega

/-- **A path** is the guest's exactly when it ends inside the memory; the
256 bytes that were validated do not matter. -/
theorem Mapping.path_inBlock_iff {addr : BitVec 64} :
    (∀ k, (∀ j < k, mp.host (v.hostAddr (v.translate addr) j) ≠ 0) →
        v.InBlock (v.hostAddr (v.translate addr) k)) ↔
      ∃ a, addr.toNat ≤ a ∧ a < v.mMemsz.toNat ∧ v.mem a = 0 := by
  constructor
  · intro h
    cases ht : v.translate addr with
    | none =>
        have := h 0 (by omega)
        rw [ht] at this
        exact absurd this mp.null_not_inBlock
    | some p =>
        obtain ⟨hle, _, rfl⟩ := Virtine.translate_eq_some.mp ht
        apply Classical.byContradiction
        intro hno
        -- without a terminator the host reads on behind the block
        refine mp.end_not_inBlock (a := addr.toNat) (k := v.mMemsz.toNat - addr.toNat)
          (by omega) ?_
        have hend := h (v.mMemsz.toNat - addr.toNat) (fun j hj => ?_)
        · rwa [ht] at hend
        · rw [ht, mp.hostAddr_inside (by omega), mp.view _ (by omega)]
          intro hz
          exact hno ⟨addr.toNat + j, by omega, by omega, hz⟩
  · rintro ⟨a, hle, hlt, hz⟩ k hk
    rw [Virtine.translate_eq_some.mpr ⟨by omega, mp.mapped, rfl⟩] at hk ⊢
    have hka : addr.toNat + k ≤ a := by
      rcases Nat.lt_or_ge a (addr.toNat + k) with hgt | hge
      · have := hk (a - addr.toNat) (by omega)
        rw [mp.hostAddr_inside (by omega), mp.view _ (by omega),
          show addr.toNat + (a - addr.toNat) = a by omega] at this
        exact absurd hz this
      · exact hge
    rw [mp.hostAddr_inside (by omega), Virtine.InBlock]
    omega

end

/-- **Memory confinement.** At a hypercall exit that makes a host call,
everything the host may touch through the translated pointer is the
guest's if and only if the arguments describe bytes of the guest. -/
theorem hostCall_confined_iff (env : Env) (st : LoopState S F) (mp : Mapping st.vm)
    (c : HostCall) (h : st.Makes env c) :
    c.Confined st.vm mp.host ↔ st.vm.ArgumentsInside st.vm.regs := by
  have hbuf : ∀ (addr len : BitVec 64), st.vm.validateLength addr len = true →
      ((∀ x, (∃ k < len.toNat, x = st.vm.hostAddr (st.vm.translate addr) k) →
          st.vm.InBlock x) ↔ len = 0 ∨ addr.toNat + len.toNat < 2 ^ 64) := by
    intro addr len hv
    rw [← mp.buffer_inBlock_iff hv]
    exact ⟨fun hx k hk => hx _ ⟨k, hk, rfl⟩, fun hk x ⟨k, hlt, he⟩ => he ▸ hk k hlt⟩
  cases h.serves with
  | close hd => simp [HostCall.Confined, HostCall.Touches, Virtine.ArgumentsInside, hd]
  | open_ hd hv =>
      simp only [HostCall.Confined, HostCall.Touches, Virtine.ArgumentsInside, hd]
      rw [← mp.path_inBlock_iff]
      exact ⟨fun hx k hk => hx _ ⟨k, rfl, hk⟩, fun hk x ⟨k, he, hn⟩ => he ▸ hk k hn⟩
  | read hd hv | write hd hv =>
      simp only [HostCall.Confined, HostCall.Touches, Virtine.ArgumentsInside, hd]
      exact hbuf _ _ hv
  | fstat hd hv =>
      simp only [HostCall.Confined, HostCall.Touches, Virtine.ArgumentsInside, hd]
      rw [hbuf _ _ hv]
      simp [sizeofStat]

/-! ### At one exit

A page of zeros at host address `0x100000`, every hypercall permitted. -/

def pageVirtine (regs : VirtineRegisters) : Virtine Unit Unit :=
  { regs := regs, sregs := (), fpu := (), mem := fun _ => 0, mMem := 0x100000,
    mMemsz := 0x1000, mReset := ⟨regs, (), (), []⟩, mResetMask := true }

def pageLoop (regs : VirtineRegisters) : LoopState Unit Unit :=
  { vm := pageVirtine regs, cache := Cache.new 0x1000 0 0, whitelist := BitVec.allOnes 64,
    pending := none, count := 0, done := false, calls := 0, trace := [], stderr := "" }

theorem pageVirtine_mapped (regs : VirtineRegisters) : (pageVirtine regs).mMem ≠ 0 := by
  show (0x100000 : BitVec 64) ≠ 0
  decide

def pageMapping (regs : VirtineRegisters) : Mapping (pageVirtine regs) :=
  { host := fun _ => 0,
    mapped := pageVirtine_mapped regs,
    fits := show (0x100000 : BitVec 64).toNat + (0x1000 : BitVec 64).toNat ≤ 2 ^ 64 by decide,
    view := fun _ _ => rfl }

theorem pageLoop_makes {regs : VirtineRegisters} {c : HostCall}
    (ha : (pageLoop regs).allowed quietEnv = true)
    (hd : (pageVirtine regs).dispatch regs = .call c) :
    (pageLoop regs).Makes quietEnv c :=
  ⟨_, _, .call ha hd rfl⟩

/-- A `read` of the first 16 bytes is confined. -/
theorem read_confined :
    (HostCall.read 0 (some 0) 16).Confined (pageVirtine { rdi := 6, rcx := 16 })
      (pageMapping { rdi := 6, rcx := 16 }).host :=
  (hostCall_confined_iff quietEnv (pageLoop { rdi := 6, rcx := 16 })
    (pageMapping { rdi := 6, rcx := 16 }) (.read 0 (some 0) 16)
    (pageLoop_makes (by decide) (by decide))).mpr (.inr (by decide))

/-- A `read` of `2^64 - 8` bytes at address 16 passes the check, because
the sum is 8, and runs over the end of the page. -/
theorem read_not_confined :
    ¬ ∀ (env : Env) (st : LoopState Unit Unit) (mp : Mapping st.vm) (c : HostCall),
      st.Makes env c → c.Confined st.vm mp.host := by
  intro h
  have hin := h quietEnv (pageLoop { rdi := 6, rdx := 16, rcx := -8 }) (pageMapping _)
    (.read 0 (some 16) (-8)) (pageLoop_makes (by decide) (by decide))
    0x101000 ⟨0xFF0, by decide, by decide⟩
  exact absurd hin.2 (by decide)

end Wasp
