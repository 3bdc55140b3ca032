import Mathlib.Algebra.BigOperators.Group.Finset.Sigma

/-!
# Tokens — things that are always in exactly one place

`at_ p` lists the tokens at the place `p`. `Placed at_ live` says that
every live token is at exactly one place, once, and that no other token is
anywhere. Moving a token and creating one keep it, whatever the number of
places; where there are finitely many of them, the tokens can be counted.
-/

namespace Wasp

variable {ι P : Type} [DecidableEq ι]

structure Placed (at_ : P → List ι) (live : ι → Prop) : Prop where
  once : ∀ i, live i → ∃ p, (at_ p).count i = 1 ∧ ∀ q, q ≠ p → (at_ q).count i = 0
  nowhere : ∀ i, ¬ live i → ∀ p, (at_ p).count i = 0

namespace Placed

variable {at_ at' : P → List ι} {live live' : ι → Prop}

/-- A token that is somewhere is live, and it is there once and nowhere else. -/
theorem of_mem (h : Placed at_ live) {i : ι} {p : P} (hp : i ∈ at_ p) :
    live i ∧ (at_ p).count i = 1 ∧ ∀ q, q ≠ p → (at_ q).count i = 0 := by
  have hne : (at_ p).count i ≠ 0 := by
    rw [Ne, List.count_eq_zero]
    exact fun hno => hno hp
  by_cases hi : live i
  · obtain ⟨r, hr, hq⟩ := h.once i hi
    by_cases hpr : p = r
    · exact ⟨hi, hpr ▸ hr, hpr ▸ hq⟩
    · exact absurd (hq p hpr) hne
  · exact absurd (h.nowhere i hi p) hne

/-- What happens to the token `i` leaves the others where they are. -/
theorem of_one (h : Placed at_ live) (i : ι)
    (hrest : ∀ j, j ≠ i → ∀ p, (at' p).count j = (at_ p).count j)
    (hlive : ∀ j, j ≠ i → (live' j ↔ live j)) (hi : live' i)
    (hone : ∃ p, (at' p).count i = 1 ∧ ∀ q, q ≠ p → (at' q).count i = 0) :
    Placed at' live' := by
  refine ⟨fun j hj => ?_, fun j hj p => ?_⟩
  · by_cases hji : j = i
    · exact hji ▸ hone
    · obtain ⟨p, hp, hq⟩ := h.once j ((hlive j hji).mp hj)
      exact ⟨p, (hrest j hji p).trans hp, fun q hne => (hrest j hji q).trans (hq q hne)⟩
  · have hji : j ≠ i := fun he => hj (he ▸ hi)
    exact (hrest j hji p).trans (h.nowhere j (fun hl => hj ((hlive j hji).mpr hl)) p)

/-- The token `i` goes from `p` to `q`. -/
theorem move (h : Placed at_ live) {i : ι} {p q : P} (hpq : p ≠ q)
    (hp : (at_ p).Perm (i :: at' p)) (hq : (at' q).Perm (i :: at_ q))
    (hother : ∀ r, r ≠ p → r ≠ q → at' r = at_ r) : Placed at' live := by
  obtain ⟨hi, hone, hzero⟩ := h.of_mem (hp.mem_iff.mpr List.mem_cons_self)
  refine h.of_one i (fun j hj r => ?_) (fun _ _ => Iff.rfl) hi ⟨q, ?_, fun r hr => ?_⟩
  · by_cases hrp : r = p
    · rw [hrp, hp.count_eq, List.count_cons_of_ne (Ne.symm hj)]
    · by_cases hrq : r = q
      · rw [hrq, hq.count_eq, List.count_cons_of_ne (Ne.symm hj)]
      · rw [hother r hrp hrq]
  · rw [hq.count_eq, List.count_cons_self, hzero q (Ne.symm hpq)]
  · by_cases hrp : r = p
    · rw [hp.count_eq, List.count_cons_self] at hone
      rw [hrp]
      omega
    · rw [hother r hrp hr, hzero r hrp]

/-- The token `i` comes to life at `q`. -/
theorem create (h : Placed at_ live) {i : ι} {q : P} (hi : ¬ live i)
    (hlive : ∀ j, live' j ↔ j = i ∨ live j) (hq : (at' q).Perm (i :: at_ q))
    (hother : ∀ r, r ≠ q → at' r = at_ r) : Placed at' live' := by
  have hzero := h.nowhere i hi
  refine h.of_one i (fun j hj r => ?_) (fun j hj => ?_) ((hlive i).mpr (.inl rfl))
    ⟨q, ?_, fun r hr => ?_⟩
  · by_cases hrq : r = q
    · rw [hrq, hq.count_eq, List.count_cons_of_ne (Ne.symm hj)]
    · rw [hother r hrq]
  · rw [hlive j]
    exact ⟨fun hor => hor.resolve_left hj, .inr⟩
  · rw [hq.count_eq, List.count_cons_self, hzero q]
  · rw [hother r hr, hzero r]

/-- The places hold as many tokens as there are. -/
theorem sum_length [Fintype P] {tokens : Finset ι} (h : Placed at_ (· ∈ tokens)) :
    ∑ p, (at_ p).length = tokens.card := by
  have hlength : ∀ p, (at_ p).length = ∑ i ∈ tokens, (at_ p).count i := by
    intro p
    have hcard := Multiset.sum_count_eq_card (s := tokens) (m := (at_ p : Multiset ι))
      fun i hi => (h.of_mem (Multiset.mem_coe.mp hi)).1
    simpa using hcard.symm
  have hone : ∀ i ∈ tokens, ∑ p, (at_ p).count i = 1 := by
    intro i hi
    obtain ⟨p, hp, hzero⟩ := h.once i hi
    have hnotin : p ∉ Finset.univ → (at_ p).count i = 0 :=
      fun hp => absurd (Finset.mem_univ p) hp
    rw [Finset.sum_eq_single p (fun q _ hq => hzero q hq) hnotin, hp]
  calc ∑ p, (at_ p).length
      = ∑ p, ∑ i ∈ tokens, (at_ p).count i := Finset.sum_congr rfl fun p _ => hlength p
    _ = ∑ i ∈ tokens, ∑ p, (at_ p).count i := Finset.sum_comm
    _ = ∑ i ∈ tokens, 1 := Finset.sum_congr rfl hone
    _ = tokens.card := (Finset.card_eq_sum_ones tokens).symm

end Placed

end Wasp
