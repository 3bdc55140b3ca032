import Mathlib.Algebra.Group.Int.Defs
import Mathlib.Algebra.Group.Nat.Defs

/-!
# Words — 64-bit values that pass through an `int`

A C `int` has 32 bits. `throughInt x` is what is left of the 64-bit value
`x` after it has been stored in one and read back: itself exactly when it
is in the range of `int`.
-/

namespace Wasp

namespace Words

def throughInt (x : BitVec 64) : BitVec 64 := (x.setWidth 32).signExtend 64

theorem throughInt_toInt (x : BitVec 64) : (throughInt x).toInt = x.toInt.bmod (2 ^ 32) := by
  unfold throughInt
  rw [BitVec.toInt_signExtend_of_le (by decide), BitVec.toInt_setWidth,
    BitVec.toInt_eq_toNat_bmod]
  exact (Int.bmod_bmod_of_dvd (by decide)).symm

theorem throughInt_eq_iff {x : BitVec 64} :
    throughInt x = x ↔ -2 ^ 31 ≤ x.toInt ∧ x.toInt < 2 ^ 31 := by
  rw [← BitVec.toInt_inj, throughInt_toInt, Int.bmod_def]
  constructor
  · intro h
    split at h <;> omega
  · intro h
    split <;> omega

/-- Widening an `int` loses nothing. -/
theorem setWidth_signExtend (x : BitVec 32) : (x.signExtend 64).setWidth 32 = x := by
  apply BitVec.eq_of_getLsbD_eq
  intro i hi
  rw [BitVec.getLsbD_setWidth, BitVec.getLsbD_signExtend]
  simp [hi, show i < 64 by omega]

theorem toInt_cases (x : BitVec 64) :
    (x.toNat < 2 ^ 63 ∧ x.toInt = x.toNat) ∨
      (2 ^ 63 ≤ x.toNat ∧ x.toInt = x.toNat - 2 ^ 64) := by
  rw [BitVec.toInt_eq_toNat_cond]
  split
  · exact .inl ⟨by omega, rfl⟩
  · exact .inr ⟨by omega, by omega⟩

/-- A sum, with the second summand taken as signed. -/
theorem toNat_add_toInt (x y : BitVec 64) :
    ((x + y).toNat : Int) = (x.toNat + y.toInt) % 2 ^ 64 := by
  rw [BitVec.toNat_add]
  rcases toInt_cases y with ⟨_, h⟩ | ⟨_, h⟩ <;> omega

/-- A value that is minus a natural number. -/
theorem eq_neg_ofNat {x : BitVec 64} {e : Nat} (h : x.toInt = -e) :
    x = -BitVec.ofNat 64 e := by
  rw [← BitVec.ofInt_toInt (x := x), h, BitVec.ofInt_neg, BitVec.ofInt_natCast]

end Words

end Wasp
