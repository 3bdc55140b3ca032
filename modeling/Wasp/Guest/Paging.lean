import Wasp.Lib.PageTable
import Wasp.Runtime.RunVirtine

/-!
# Paging — the address space the boot code sets up

The three tables of the section `.paging` of `pass/rt/boot64.asm`: one entry
in each of the upper two, and 512 pages of 2 MiB. Wherever the linker puts
the tables, they translate the addresses below 1 GiB to themselves and no
others. Behind that is the block of `m_memsz` bytes KVM was given: what the
guest can reach is the shorter of the two.
-/

namespace Wasp.Boot

open LittleEndian PageTable

/-! ## The tables -/

def pgPresent : Nat := 0x1
def pgWritable : Nat := 0x2
def pgBig : Nat := 0x80
def pageSize : Nat := 4096

/-- `boot_p4` and `boot_p3`: the first entry points at the next table. -/
def onlyFirst (next : Nat) : List Nat :=
  (next + pgPresent + pgWritable) :: List.replicate 511 0

/-- `boot_p2`. -/
def bootP2 : List Nat :=
  (List.range 512).map fun pg => pg * (pageSize * 512) + pgPresent + pgWritable + pgBig

/-- The section, with `boot_p4` at its start. -/
def paging (p4 : Nat) : List Nat :=
  onlyFirst (p4 + pageSize) ++ onlyFirst (p4 + 2 * pageSize) ++ bootP2

/-- The tables are in memory, where `boot_p4` is page-aligned and, as an
operand of a 32-bit `mov`, below 4 GiB. -/
structure TablesAt (m : Nat → UInt8) (p4 : Nat) : Prop where
  aligned : p4 % pageSize = 0
  low : p4 + 3 * pageSize ≤ 2 ^ 32
  holds : Holds m p4 (paging p4)

/-! ## The walk through them -/

@[simp] theorem length_onlyFirst (next : Nat) : (onlyFirst next).length = 512 := by
  rw [onlyFirst, List.length_cons, List.length_replicate]

/-- The three tables are one page after another. -/
theorem TablesAt.split {m : Nat → UInt8} {p4 : Nat} (h : TablesAt m p4) :
    Holds m p4 (onlyFirst (p4 + pageSize)) ∧
      Holds m (p4 + pageSize) (onlyFirst (p4 + 2 * pageSize)) ∧
      Holds m (p4 + 2 * pageSize) bootP2 := by
  obtain ⟨hupper, h2⟩ := h.holds.append
  obtain ⟨h4, h3⟩ := hupper.append
  rw [length_onlyFirst] at h3
  rw [List.length_append, length_onlyFirst, length_onlyFirst] at h2
  exact ⟨h4, h3, h2⟩

theorem onlyFirst_getElem? (next i : Nat) (hi : i < 512) :
    (onlyFirst next)[i]? = some (if i = 0 then next + pgPresent + pgWritable else 0) := by
  cases i with
  | zero => rfl
  | succ i =>
      rw [onlyFirst, List.getElem?_cons_succ, List.getElem?_replicate, if_pos (by omega)]
      simp

theorem bootP2_getElem? (i : Nat) (hi : i < 512) :
    bootP2[i]? = some (i * (pageSize * 512) + pgPresent + pgWritable + pgBig) := by
  simp [bootP2, hi]

/-- An entry that points at a page-aligned table. -/
theorem pointer_entry {next : Nat} (ha : next % pageSize = 0) (hlow : next < 2 ^ 52) :
    present (next + pgPresent + pgWritable) = true ∧
      large (next + pgPresent + pgWritable) = false ∧
      writable (next + pgPresent + pgWritable) = true ∧
      executable (next + pgPresent + pgWritable) = true ∧
      frame (next + pgPresent + pgWritable) 4096 = next := by
  simp only [pgPresent, pgWritable, pageSize, present, large, writable, executable, frame,
    beq_iff_eq, beq_eq_false_iff_ne] at *
  omega

/-- An entry of `boot_p2`. -/
theorem big_entry {pg : Nat} (h : pg < 512) :
    present (pg * (pageSize * 512) + pgPresent + pgWritable + pgBig) = true ∧
      large (pg * (pageSize * 512) + pgPresent + pgWritable + pgBig) = true ∧
      writable (pg * (pageSize * 512) + pgPresent + pgWritable + pgBig) = true ∧
      executable (pg * (pageSize * 512) + pgPresent + pgWritable + pgBig) = true ∧
      frame (pg * (pageSize * 512) + pgPresent + pgWritable + pgBig) (span 1) =
        pg * span 1 := by
  simp only [pgPresent, pgWritable, pgBig, pageSize, present, large, writable, executable,
    frame, span, beq_iff_eq] at *
  omega

theorem walkFrom_onlyFirst {m : Nat → UInt8} {level table next : Nat}
    (h : Holds m table (onlyFirst next)) (ha : next % pageSize = 0) (hlow : next < 2 ^ 52)
    (va : Nat) :
    walkFrom m (level + 1) table va true true =
      if va / span (level + 1) % 512 = 0 then walkFrom m level next va true true
      else .notPresent := by
  have he : entry m table (level + 1) va = _ :=
    h.entry (onlyFirst_getElem? next _ (Nat.mod_lt _ (by decide)))
  by_cases hz : va / span (level + 1) % 512 = 0
  · rw [if_pos hz] at he ⊢
    obtain ⟨hp, hl, hw, hx, hf⟩ := pointer_entry ha hlow
    rw [walkFrom_next he hp hl, hw, hx, hf]
    rfl
  · rw [if_neg hz] at he ⊢
    exact walkFrom_absent he rfl

theorem walkFrom_bootP2 {m : Nat → UInt8} {table : Nat} (h : Holds m table bootP2) (va : Nat) :
    walkFrom m 1 table va true true = .page (va % 2 ^ 30) true true := by
  have hpg : va / span 1 % 512 < 512 := Nat.mod_lt _ (by decide)
  obtain ⟨hp, hl, hw, hx, hf⟩ := big_entry hpg
  rw [walkFrom_large (h.entry (bootP2_getElem? _ hpg)) hp hl (by decide), hw, hx, hf]
  have hspan : span 1 = 2 ^ 21 := rfl
  have hsum : va / span 1 % 512 * span 1 + va % span 1 = va % 2 ^ 30 := by
    rw [hspan]
    omega
  rw [hsum]
  rfl

/-- **The address space.** The addresses below 1 GiB are mapped, each to
itself, for reading, writing and execution; nothing else is. -/
theorem walk_tables {m : Nat → UInt8} {p4 : Nat} (h : TablesAt m p4) {va : Nat}
    (hva : va < 2 ^ 64) :
    walk m p4 va = if va < 2 ^ 30 then .page va true true
      else if canonical va then .notPresent else .nonCanonical := by
  have ha := h.aligned
  have hlow := h.low
  obtain ⟨h4, h3, h2⟩ := h.split
  unfold pageSize at *
  have hroot : frame p4 4096 = p4 := by
    unfold frame
    omega
  rw [walk, hroot, walkFrom_onlyFirst h4 (by unfold pageSize; omega) (by omega),
    walkFrom_onlyFirst h3 (by unfold pageSize; omega) (by omega), walkFrom_bootP2 h2]
  have h39 : span (2 + 1) = 2 ^ 39 := rfl
  have h30 : span (1 + 1) = 2 ^ 30 := rfl
  rw [h39, h30]
  -- an address with both indices zero that is not below 1 GiB has bit 47 clear and
  -- higher bits set
  by_cases hc : canonical va = true
  · have hrange : va < 2 ^ 47 ∨ 2 ^ 64 - 2 ^ 47 ≤ va := of_decide_eq_true hc
    rw [if_pos hc, if_pos hc]
    by_cases hg : va < 2 ^ 30
    · rw [if_pos hg, if_pos (by omega), if_pos (by omega), Nat.mod_eq_of_lt hg]
    · rw [if_neg hg]
      by_cases h0 : va / 2 ^ 39 % 512 = 0
      · rw [if_pos h0, if_neg (by omega)]
      · rw [if_neg h0]
  · have hrange : ¬ (va < 2 ^ 47 ∨ 2 ^ 64 - 2 ^ 47 ≤ va) := fun h => hc (decide_eq_true h)
    rw [if_neg hc, if_neg (by omega), if_neg hc]

@[simp] theorem length_paging (p4 : Nat) : (paging p4).length = 1536 := by
  rw [paging, List.length_append, List.length_append, length_onlyFirst, length_onlyFirst,
    bootP2, List.length_map, List.length_range]

/-- Memory that differs only outside the tables. -/
theorem TablesAt.congr {m m' : Nat → UInt8} {p4 : Nat} (h : TablesAt m p4)
    (hm : ∀ a, p4 ≤ a → a < p4 + 3 * pageSize → m' a = m a) : TablesAt m' p4 where
  aligned := h.aligned
  low := h.low
  holds i y hy := by
    have hi := (List.getElem?_eq_some_iff.mp hy).1
    rw [length_paging] at hi
    rw [← h.holds i y hy]
    exact word_congr fun k _ => hm _ (by omega) (by simp only [pageSize]; omega)

/-! ## What the guest can reach -/

/-- What comes of an access of the guest: a byte of its memory, an exit to
the host, or an exception in the guest. -/
inductive Access where
  | ram (a : Nat)
  | exit (e : KvmExit)
  | fault

/-- An access at `va` under the tables at `cr3`. KVM has the guest's memory
as one block at the guest-physical address `0`. -/
def access {S F : Type} (v : Virtine S F) (cr3 : Nat) (va : BitVec 64) : Access :=
  match walk v.mem cr3 va.toNat with
  | .page pa _ _ => if pa < v.mMemsz.toNat then .ram pa else .exit .mmio
  | .notPresent | .nonCanonical => .fault

theorem access_eq {S F : Type} {v : Virtine S F} {p4 : Nat} (h : TablesAt v.mem p4)
    (va : BitVec 64) :
    access v p4 va = if va.toNat < 2 ^ 30 then
      (if va.toNat < v.mMemsz.toNat then .ram va.toNat else .exit .mmio) else .fault := by
  rw [access, walk_tables h va.isLt]
  by_cases hg : va.toNat < 2 ^ 30
  · rw [if_pos hg, if_pos hg]
  · rw [if_neg hg, if_neg hg]
    cases canonical va.toNat <;> rfl

/-- **The guest's address space.** With the tables of the boot code in place
an address is a byte of the virtine's memory exactly when it is below both
the end of that memory and 1 GiB, and it is then the byte at that offset:
memory above 1 GiB is out of reach. An access that leaves the virtine makes
the host abort. -/
theorem guest_address_space {S F : Type} {v : Virtine S F} {p4 : Nat}
    (h : TablesAt v.mem p4) (va : BitVec 64) :
    (∀ a, access v p4 va = .ram a ↔
      a = va.toNat ∧ va.toNat < v.mMemsz.toNat ∧ va.toNat < 2 ^ 30) ∧
    ∀ e, access v p4 va = .exit e →
      e.reason = .crashed ∧ v.mMemsz.toNat ≤ va.toNat ∧ va.toNat < 2 ^ 30 := by
  rw [access_eq h va]
  by_cases hg : va.toNat < 2 ^ 30
  · rw [if_pos hg]
    by_cases hm : va.toNat < v.mMemsz.toNat
    · rw [if_pos hm]
      constructor
      · intro a
        rw [Access.ram.injEq]
        exact ⟨fun he => ⟨he.symm, hm, hg⟩, fun he => he.1.symm⟩
      · intro e he
        cases he
    · rw [if_neg hm]
      constructor
      · intro a
        exact ⟨nofun, fun he => absurd he.2.1 hm⟩
      · intro e he
        cases he
        exact ⟨rfl, by omega, hg⟩
  · rw [if_neg hg]
    exact ⟨fun a => ⟨nofun, fun he => absurd he.2.2 hg⟩, nofun⟩

/-- The tables fit their eight-byte entries. -/
theorem paging_lt {p4 : Nat} (hlow : p4 + 3 * pageSize ≤ 2 ^ 32) :
    ∀ y ∈ paging p4, y < 256 ^ 8 := by
  intro y hy
  simp only [paging, onlyFirst, bootP2, List.mem_append, List.mem_cons, List.mem_replicate,
    List.mem_map, List.mem_range, pgPresent, pgWritable, pgBig, pageSize] at hy hlow
  rcases hy with ((h | h) | (h | h)) | ⟨pg, hpg, h⟩ <;> omega

theorem tablesAt_ofWords {p4 : Nat} (ha : p4 % pageSize = 0)
    (hlow : p4 + 3 * pageSize ≤ 2 ^ 32) : TablesAt (ofWords p4 (paging p4)) p4 :=
  ⟨ha, hlow, ofWords_holds p4 (paging_lt hlow)⟩

/-- 64 KiB of memory, the tables at `0x9000`: the image at `0x8000` is there,
the first byte past the memory makes the host abort. -/
theorem small_address_space :
    ∃ v : Virtine Unit Unit, v.mMemsz = 0x10000 ∧ TablesAt v.mem 0x9000 ∧
      access v 0x9000 0x8000 = .ram 0x8000 ∧ (∀ a, access v 0x9000 0x40000000 ≠ .ram a) ∧
      ∀ e, access v 0x9000 0x10000 = .exit e → e.reason = .crashed := by
  have htables : TablesAt (ofWords 0x9000 (paging 0x9000)) 0x9000 :=
    tablesAt_ofWords rfl (by unfold pageSize; omega)
  generalize ofWords 0x9000 (paging 0x9000) = m at htables
  refine ⟨{ regs := {}, sregs := (), fpu := (), mem := m, mMem := 0x100000, mMemsz := 0x10000,
            mReset := { regs := {}, sregs := (), fpu := (), regions := [] },
            mResetMask := false }, rfl, htables, ?_, fun a ha => ?_, fun e he => ?_⟩
  · exact ((guest_address_space htables 0x8000).1 0x8000).mpr (by simp)
  · have := ((guest_address_space htables 0x40000000).1 a).mp ha
    exact absurd this.2.2 (by decide)
  · exact ((guest_address_space htables 0x10000).2 e he).1

end Wasp.Boot
