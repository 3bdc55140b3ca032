/-!
# ByteMem — total memories and block copies

A memory is a total function from addresses to cells, and the only write
is the block copy `blit`, the meaning of `memcpy`. Nothing here knows what
the cells hold or whose memory it is: bounds are the business of the
program that copies, so an out-of-range copy is an ordinary value here and
a provable fact about it there.
-/

namespace Wasp.ByteMem

variable {β : Type}

/-- `memcpy(base, src, n)`: the `n` cells from `base` on come from `src`,
every other cell is the old one. -/
def blit (m : Nat → β) (base : Nat) (src : Nat → β) (n : Nat) : Nat → β :=
  fun a => if base ≤ a ∧ a < base + n then src (a - base) else m a

/-- A fresh buffer of `n` cells filled from `m` at `base`; past its end it
reads as `z`, so that two buffers with the same contents are equal. -/
def capture (z : β) (m : Nat → β) (base n : Nat) : Nat → β :=
  fun i => if i < n then m (base + i) else z

theorem blit_inside {m src : Nat → β} {base n a : Nat} (h : base ≤ a)
    (h' : a < base + n) : blit m base src n a = src (a - base) := by
  simp [blit, h, h']

theorem blit_outside {m src : Nat → β} {base n a : Nat}
    (h : a < base ∨ base + n ≤ a) : blit m base src n a = m a := by
  have hn : ¬ (base ≤ a ∧ a < base + n) := by omega
  simp [blit, hn]

/-- Reading a copied block back gives the source. -/
theorem blit_offset {m src : Nat → β} {base n i : Nat} (h : i < n) :
    blit m base src n (base + i) = src i := by
  rw [blit_inside (Nat.le_add_right base i) (by omega), Nat.add_sub_cancel_left]

@[simp] theorem blit_zero (m : Nat → β) (base : Nat) (src : Nat → β) :
    blit m base src 0 = m := by
  funext a
  exact blit_outside (by omega)

/-- Only the first `n` cells of the source matter. -/
theorem blit_congr {m src src' : Nat → β} {base n : Nat}
    (h : ∀ i < n, src i = src' i) : blit m base src n = blit m base src' n := by
  funext a
  by_cases ha : base ≤ a ∧ a < base + n
  · rw [blit_inside ha.1 ha.2, blit_inside ha.1 ha.2, h _ (by omega)]
  · rw [blit_outside (by omega), blit_outside (by omega)]

theorem capture_lt {z : β} {m : Nat → β} {base n i : Nat} (h : i < n) :
    capture z m base n i = m (base + i) := by
  simp [capture, h]

end Wasp.ByteMem
