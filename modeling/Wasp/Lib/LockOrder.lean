import Mathlib.Logic.Relation

/-!
# LockOrder — no deadlock where locks are taken in order

Threads hold locks and wait for locks. If every lock that is waited for has
a holder, and what a thread waits for ranks above all it holds, then behind
every waiting thread there is one that waits for nothing.
-/

namespace Wasp.LockOrder

variable {T L : Type}

/-- `t` waits for a lock that `u` holds. -/
def WaitsFor (holds waits : T → L → Prop) (t u : T) : Prop := ∃ l, waits t l ∧ holds u l

variable {holds waits : T → L → Prop} {rank : L → Nat} {n : Nat}

/-- **Lock order.** -/
theorem exists_free (hbound : ∀ l, rank l ≤ n)
    (horder : ∀ t l l', holds t l → waits t l' → rank l < rank l')
    (hheld : ∀ t l, waits t l → ∃ u, holds u l) (t : T) :
    ∃ u, Relation.ReflTransGen (WaitsFor holds waits) t u ∧ ∀ l, ¬ waits u l := by
  -- behind a lock, by the number of ranks above it
  have hbehind : ∀ k t l, waits t l → n < rank l + k →
      ∃ u, Relation.ReflTransGen (WaitsFor holds waits) t u ∧ ∀ l, ¬ waits u l := by
    intro k
    induction k with
    | zero =>
        intro t l _ hlt
        have := hbound l
        omega
    | succ k ih =>
        intro t l hw hlt
        obtain ⟨u, hu⟩ := hheld t l hw
        by_cases hfree : ∃ l', waits u l'
        · obtain ⟨l', hw'⟩ := hfree
          have hrank := horder u l l' hu hw'
          obtain ⟨v, hpath, hv⟩ := ih u l' hw' (by omega)
          exact ⟨v, .head ⟨l, hw, hu⟩ hpath, hv⟩
        · exact ⟨u, .single ⟨l, hw, hu⟩, fun l' hw' => hfree ⟨l', hw'⟩⟩
  by_cases hfree : ∃ l, waits t l
  · obtain ⟨l, hw⟩ := hfree
    exact hbehind (n + 1) t l hw (by omega)
  · exact ⟨t, .refl, fun l hw => hfree ⟨l, hw⟩⟩

end Wasp.LockOrder
