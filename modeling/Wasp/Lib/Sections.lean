import Wasp.Lib.Layout
import Wasp.Lib.LittleEndian

/-!
# Sections — a flat image made of aligned sections

A linker puts one section after another, each at the next multiple of its
alignment, and a flat image is the bytes from the first address on with the
gaps filled. Where the image is loaded at that address, every section is
found at its own.
-/

namespace Wasp.Sections

open LittleEndian

theorem roundUp_mod (n : Nat) (a : Nat) : roundUp n a % a = 0 := Nat.mul_mod_left _ _

theorem roundUp_of_dvd {n a : Nat} (ha : 0 < a) (h : a ∣ n) : roundUp n a = n := by
  obtain ⟨k, rfl⟩ := h
  rw [roundUp, Nat.add_sub_assoc ha, Nat.mul_add_div ha, Nat.div_eq_of_lt (by omega),
    Nat.add_zero, Nat.mul_comm]

structure OutputSection where
  align : Nat
  contents : List UInt8

/-- The bytes from `a` to the end of the last section. -/
def flat (a : Nat) : List OutputSection → List UInt8
  | [] => []
  | s :: ss => List.replicate (roundUp a s.align - a) 0 ++
      (s.contents ++ flat (roundUp a s.align + s.contents.length) ss)

/-- **The first section is at its address**, and the others follow it. -/
theorem holdsBytes_flat_cons {m : Nat → UInt8} {a : Nat} {s : OutputSection}
    {ss : List OutputSection} (ha : 0 < s.align) (h : HoldsBytes m a (flat a (s :: ss))) :
    HoldsBytes m (roundUp a s.align) s.contents ∧
      HoldsBytes m (roundUp a s.align + s.contents.length)
        (flat (roundUp a s.align + s.contents.length) ss) := by
  have hle := le_roundUp a ha
  rw [flat, holdsBytes_append, holdsBytes_append, List.length_replicate,
    Nat.add_sub_cancel' hle] at h
  exact h.2

end Wasp.Sections
