import Wasp.Lib.Words
import Wasp.Runtime.Virtine

/-!
# Loading — an image put into a virtine by hand

`Virtine::load_raw` and `Virtine::load_binary` (`src/Virtine.cpp`) copy an
image to `translate(rip)` and set the instruction pointer. `load_raw` checks
`rip + size` first, a sum that wraps at `2^64`; `load_binary` checks nothing
but that the file can be opened.

`Loaded` is what a call that returns `true` is to leave, with the `off_t` as
the integer it stands for.
-/

namespace Wasp

open ByteMem

variable {S F : Type}

namespace Virtine

/-- The rest of both functions: the copy to `translate(rip)`, which may be
null, and the new instruction pointer. -/
def fill (v : Virtine S F) (data : Nat → UInt8) (size rip : BitVec 64) :
    Except Fault (Bool × Virtine S F) :=
  match v.translate rip with
  | some a =>
      .ok (true, { v with mem := blit v.mem a data size.toNat,
                          regs := { v.regs with rip := rip } })
  | none =>
      if size = 0 then .ok (true, { v with regs := { v.regs with rip := rip } })
      else .error .segv

/-- `Virtine::load_raw`. -/
def loadRaw (v : Virtine S F) (bin : Nat → UInt8) (size rip : BitVec 64) :
    Except Fault (Bool × Virtine S F) :=
  if v.mMemsz.toNat < (rip + size).toNat then .ok (false, v) else v.fill bin size rip

/-- `Virtine::load_binary`. A file is its bytes and its length. -/
def loadBinary (v : Virtine S F) (file : Option ((Nat → UInt8) × BitVec 64))
    (rip : BitVec 64) : Except Fault (Bool × Virtine S F) :=
  match file with
  | none => .ok (false, v)
  | some (data, size) => v.fill data size rip

/-- The image is at `[rip, rip + size)`, in the memory; the instruction
pointer is `rip`; all else is as it was. -/
structure Loaded (v : Virtine S F) (data : Nat → UInt8) (size rip : BitVec 64)
    (v' : Virtine S F) : Prop where
  fits : rip.toInt + size.toNat ≤ v.mMemsz.toNat
  inside : ∀ i < size.toNat, 0 ≤ rip.toInt + i
  image : ∀ i < size.toNat, v'.mem (rip.toInt + i).toNat = data i
  others : ∀ a : Nat, ¬ (rip.toInt ≤ a ∧ a < rip.toInt + size.toNat) → v'.mem a = v.mem a
  rest : v' = { v with mem := v'.mem, regs := { v.regs with rip := rip } }

/-- All or nothing: `false` and no change, or `true` and the image. -/
def AllOrNothing (v : Virtine S F) (file : Option ((Nat → UInt8) × BitVec 64))
    (rip : BitVec 64) (outcome : Except Fault (Bool × Virtine S F)) : Prop :=
  outcome = .ok (false, v) ∨
    ∃ data size v', file = some (data, size) ∧ outcome = .ok (true, v') ∧
      v.Loaded data size rip v'

/-- There is room for `size` bytes at `rip`, as integers. -/
def HasRoom (v : Virtine S F) (size rip : BitVec 64) : Prop :=
  (size = 0 ∨ 0 ≤ rip.toInt) ∧ rip.toInt + size.toNat ≤ v.mMemsz.toNat

/-- A virtine has memory or its memory has no bytes. -/
def Mapped (v : Virtine S F) : Prop := v.mMem = 0 → v.mMemsz = 0

/-! ## What the copy leaves -/

theorem loaded_iff {v : Virtine S F} {data : Nat → UInt8} {size rip : BitVec 64} :
    v.Loaded data size rip { v with mem := blit v.mem rip.toNat data size.toNat,
                                    regs := { v.regs with rip := rip } } ↔
      v.HasRoom size rip := by
  constructor
  · intro h
    refine ⟨?_, h.fits⟩
    by_cases hz : size = 0
    · exact .inl hz
    · have hpos : 0 < size.toNat := by
        apply Nat.pos_of_ne_zero
        exact fun h => hz (BitVec.eq_of_toNat_eq h)
      have := h.inside 0 hpos
      exact .inr (by omega)
  · rintro ⟨hsign, hfits⟩
    by_cases hz : size = 0
    · subst hz
      exact ⟨hfits, fun i hi => by simp at hi, fun i hi => by simp at hi,
        fun a _ => by simp, rfl⟩
    · have hrip : rip.toInt = rip.toNat := by
        rcases Words.toInt_cases rip with ⟨-, h⟩ | ⟨-, h⟩
        · exact h
        · have := hsign.resolve_left hz
          have := rip.isLt
          omega
      refine ⟨hfits, fun i _ => by omega, fun i hi => ?_, fun a ha => ?_, rfl⟩
      · have haddr : (rip.toInt + i).toNat = rip.toNat + i := by omega
        rw [haddr]
        exact blit_offset hi
      · exact blit_outside (by omega)

theorem fill_allOrNothing_iff {v : Virtine S F} (hv : v.Mapped) {data : Nat → UInt8}
    {size rip : BitVec 64} :
    v.AllOrNothing (some (data, size)) rip (v.fill data size rip) ↔ v.HasRoom size rip := by
  have hdone : ∀ v' : Virtine S F,
      v.AllOrNothing (some (data, size)) rip (.ok (true, v')) ↔ v.Loaded data size rip v' := by
    intro v'
    constructor
    · rintro (h | ⟨_, _, _, ⟨⟩, ⟨⟩, h⟩)
      · cases h
      · exact h
    · intro h
      exact .inr ⟨data, size, v', rfl, rfl, h⟩
  cases ht : v.translate rip with
  | some a =>
      obtain ⟨-, -, rfl⟩ := translate_eq_some.mp ht
      rw [fill, ht]
      exact (hdone _).trans loaded_iff
  | none =>
      rw [fill, ht]
      by_cases hz : size = 0
      · subst hz
        have hsame : v.mem = blit v.mem rip.toNat data (0 : BitVec 64).toNat := by simp
        rw [if_pos rfl, hdone, ← loaded_iff, ← hsame]
      · rw [if_neg hz]
        constructor
        · intro h
          simp [AllOrNothing] at h
        · -- with room for the image the pointer is not null
          rintro ⟨hsign, hfits⟩
          have hpos : size.toNat ≠ 0 := fun h => hz (BitVec.eq_of_toNat_eq h)
          have hsign := hsign.resolve_left hz
          have hmem : v.mMem ≠ 0 := by
            intro hnull
            have hnone : v.mMemsz.toNat = 0 := congrArg BitVec.toNat (hv hnull)
            omega
          have hle : rip.toNat ≤ v.mMemsz.toNat := by
            rcases Words.toInt_cases rip with ⟨-, h⟩ | ⟨-, h⟩ <;> omega
          rw [translate_eq_some.mpr ⟨hle, hmem, rfl⟩] at ht
          cases ht

end Virtine

/-- **Loading is all or nothing.** For every virtine and every `rip`:
`load_raw` is so exactly when its check refuses the image or there is room
for it, and `load_binary` when there is no file or room for what is in it. -/
theorem load_all_or_nothing_iff (v : Virtine S F) (hv : v.Mapped) (rip : BitVec 64) :
    (∀ (bin : Nat → UInt8) (size : BitVec 64),
      v.AllOrNothing (some (bin, size)) rip (v.loadRaw bin size rip) ↔
        v.mMemsz.toNat < (rip + size).toNat ∨ v.HasRoom size rip) ∧
    (∀ file : Option ((Nat → UInt8) × BitVec 64),
      v.AllOrNothing file rip (v.loadBinary file rip) ↔
        ∀ data size, file = some (data, size) → v.HasRoom size rip) := by
  constructor
  · intro bin size
    unfold Virtine.loadRaw
    by_cases hcheck : v.mMemsz.toNat < (rip + size).toNat
    · rw [if_pos hcheck]
      exact iff_of_true (.inl rfl) (.inl hcheck)
    · rw [if_neg hcheck, Virtine.fill_allOrNothing_iff hv]
      exact ⟨.inr, fun h => h.resolve_left hcheck⟩
  · intro file
    cases file with
    | none => simp [Virtine.loadBinary, Virtine.AllOrNothing]
    | some f =>
        obtain ⟨data, size⟩ := f
        rw [Virtine.loadBinary, Virtine.fill_allOrNothing_iff hv]
        constructor
        · rintro h _ _ ⟨⟩
          exact h
        · intro h
          exact h data size rfl

/-- A virtine with one page of memory. -/
def onePage : Virtine Unit Unit :=
  { regs := {}, sregs := (), fpu := (), mem := fun _ => 0, mMem := 0x100000, mMemsz := 0x1000,
    mReset := ⟨{}, (), (), []⟩, mResetMask := false }

theorem onePage_mapped : onePage.Mapped := fun h => by cases h

theorem onePage_loads :
    onePage.AllOrNothing (some (fun _ => 1, 16)) 0xFF0 (onePage.loadRaw (fun _ => 1) 16 0xFF0) ∧
      onePage.AllOrNothing none 0xFF0 (onePage.loadBinary none 0xFF0) :=
  ⟨((load_all_or_nothing_iff onePage onePage_mapped 0xFF0).1 (fun _ => 1) 16).mpr
      (.inr (by unfold Virtine.HasRoom; decide)),
    ((load_all_or_nothing_iff onePage onePage_mapped 0xFF0).2 none).mpr (fun _ _ h => by cases h)⟩

/-- Sixteen bytes at `-8` pass the check and are copied to null; a file of
two pages ends behind the memory. -/
theorem load_not_all_or_nothing :
    onePage.loadRaw (fun _ => 1) 16 (-8) = .error .segv ∧
      ¬ onePage.AllOrNothing (some (fun _ => 1, 16)) (-8)
          (onePage.loadRaw (fun _ => 1) 16 (-8)) ∧
      (∃ v, onePage.loadBinary (some (fun _ => 1, 0x2000)) 0 = .ok (true, v) ∧
        v.mem 0x1000 = 1) ∧
      ¬ onePage.AllOrNothing (some (fun _ => 1, 0x2000)) 0
          (onePage.loadBinary (some (fun _ => 1, 0x2000)) 0) := by
  refine ⟨rfl, ?_, ⟨_, rfl, rfl⟩, ?_⟩
  · show ¬ onePage.AllOrNothing _ _ (onePage.fill (fun _ => 1) 16 (-8))
    rw [Virtine.fill_allOrNothing_iff onePage_mapped]
    unfold Virtine.HasRoom
    decide
  · show ¬ onePage.AllOrNothing _ _ (onePage.fill (fun _ => 1) 0x2000 0)
    rw [Virtine.fill_allOrNothing_iff onePage_mapped]
    unfold Virtine.HasRoom
    decide

end Wasp
