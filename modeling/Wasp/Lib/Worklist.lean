import Mathlib.Data.Finset.Card
import Mathlib.Data.Fintype.Basic
import Mathlib.Data.Fintype.Card
import Mathlib.Logic.Relation

/-!
# Worklist — the nodes that are reached from some given ones

A graph is given by the successors of a node. A search keeps the nodes seen
and, of those, the ones that wait for their successors to be looked at.
A node is offered to it (`offer`): it is put down as seen and, where it is
new, it waits. A turn of the loop takes a waiting node off and offers its
successors.

* `Inv` is what every turn keeps: all that is seen is reached from a root,
  and a node that no longer waits has its successors seen. With nothing
  waiting, what is seen is what is reached (`Inv.mem_iff`).
* `capacity` counts the nodes that can still be taken off. Offering leaves
  it as it is, so a turn lowers it by one and a loop takes no more turns
  than it says.
-/

namespace Wasp

namespace Worklist

variable {α : Type}

/-- `b` is reached from `a` along successors. -/
def Reaches (succ : α → List α) : α → α → Prop :=
  Relation.ReflTransGen fun a b => b ∈ succ a

structure Search (α : Type) where
  seen : Finset α
  work : List α

variable [DecidableEq α]

/-- `if (seen.insert(a).second) work.push_back(a)`. -/
def Search.offer (s : Search α) (a : α) : Search α :=
  if a ∈ s.seen then s else { seen := insert a s.seen, work := a :: s.work }

def Search.offerAll (s : Search α) (as : List α) : Search α :=
  as.foldl Search.offer s

namespace Search

theorem offer_of_mem {s : Search α} {a : α} (h : a ∈ s.seen) : s.offer a = s := by
  simp [offer, h]

theorem offer_of_not_mem {s : Search α} {a : α} (h : a ∉ s.seen) :
    s.offer a = { seen := insert a s.seen, work := a :: s.work } := by
  simp [offer, h]

theorem mem_seen_offer (s : Search α) (a b : α) :
    b ∈ (s.offer a).seen ↔ b ∈ s.seen ∨ b = a := by
  by_cases h : a ∈ s.seen
  · rw [offer_of_mem h]
    grind
  · rw [offer_of_not_mem h, Finset.mem_insert, or_comm]

theorem mem_work_offer (s : Search α) (a b : α) :
    b ∈ (s.offer a).work ↔ b ∈ s.work ∨ b = a ∧ a ∉ s.seen := by
  by_cases h : a ∈ s.seen
  · simp [offer_of_mem h, h]
  · simp [offer_of_not_mem h, h, or_comm]

theorem mem_seen_offerAll (s : Search α) (as : List α) (b : α) :
    b ∈ (s.offerAll as).seen ↔ b ∈ s.seen ∨ b ∈ as := by
  induction as generalizing s with
  | nil => simp [offerAll]
  | cons a as ih =>
      have h := ih (s.offer a)
      rw [mem_seen_offer, or_assoc] at h
      simpa [offerAll] using h

theorem mem_work_offerAll (s : Search α) (as : List α) (b : α) :
    b ∈ (s.offerAll as).work ↔ b ∈ s.work ∨ b ∈ as ∧ b ∉ s.seen := by
  induction as generalizing s with
  | nil => simp [offerAll]
  | cons a as ih =>
      have h := ih (s.offer a)
      rw [mem_seen_offer, mem_work_offer] at h
      change b ∈ ((s.offer a).offerAll as).work ↔ _
      rw [h, List.mem_cons]
      by_cases hb : b = a
      · subst hb
        simp
      · simp [hb]

end Search

/-! ## What a turn keeps -/

variable {succ : α → List α} {roots : Set α}

structure Inv (succ : α → List α) (roots : Set α) (s : Search α) : Prop where
  sound : ∀ a ∈ s.seen, ∃ r ∈ roots, Reaches succ r a
  roots_seen : ∀ r ∈ roots, r ∈ s.seen
  waiting : ∀ a ∈ s.work, a ∈ s.seen
  closed : ∀ a ∈ s.seen, a ∉ s.work → ∀ b ∈ succ a, b ∈ s.seen

namespace Inv

omit [DecidableEq α] in
theorem empty : Inv succ ∅ { seen := ∅, work := [] } where
  sound := by simp
  roots_seen := by simp
  waiting := by simp
  closed := by simp

/-- Offering a node makes it a root. -/
theorem offer {s : Search α} (h : Inv succ roots s) (a : α) :
    Inv succ (insert a roots) (s.offer a) where
  sound b hb := by
    rw [Search.mem_seen_offer] at hb
    rcases hb with hb | rfl
    · obtain ⟨r, hr, hrb⟩ := h.sound b hb
      exact ⟨r, Set.mem_insert_of_mem a hr, hrb⟩
    · exact ⟨b, Set.mem_insert b roots, .refl⟩
  roots_seen r hr := by
    rw [Search.mem_seen_offer]
    rcases hr with rfl | hr
    · exact .inr rfl
    · exact .inl (h.roots_seen r hr)
  waiting b hb := by
    rw [Search.mem_work_offer] at hb
    rw [Search.mem_seen_offer]
    exact hb.imp (h.waiting b) And.left
  closed b hb hw c hc := by
    rw [Search.mem_seen_offer] at hb
    rw [Search.mem_work_offer] at hw
    rw [Search.mem_seen_offer]
    -- a node that is new would wait
    have hold : b ∈ s.seen := by
      rcases hb with hb | rfl
      · exact hb
      · by_contra hnew
        exact hw (.inr ⟨rfl, hnew⟩)
    exact .inl (h.closed b hold (fun hbw => hw (.inl hbw)) c hc)

/-- A turn of the loop; `as` are the successors of `a` in any order. -/
theorem turn {seen : Finset α} {a : α} {work as : List α}
    (h : Inv succ roots { seen := seen, work := a :: work })
    (has : ∀ b, b ∈ as ↔ b ∈ succ a) :
    Inv succ roots (Search.offerAll { seen := seen, work := work } as) where
  sound b hb := by
    rw [Search.mem_seen_offerAll, has] at hb
    rcases hb with hb | hb
    · exact h.sound b hb
    · obtain ⟨r, hr, hra⟩ := h.sound a (h.waiting a List.mem_cons_self)
      exact ⟨r, hr, hra.tail hb⟩
  roots_seen r hr := by
    rw [Search.mem_seen_offerAll]
    exact .inl (h.roots_seen r hr)
  waiting b hb := by
    rw [Search.mem_work_offerAll] at hb
    rw [Search.mem_seen_offerAll]
    exact hb.imp (fun hw => h.waiting b (List.mem_cons_of_mem a hw)) And.left
  closed b hb hw c hc := by
    rw [Search.mem_seen_offerAll] at hb
    rw [Search.mem_work_offerAll] at hw
    rw [Search.mem_seen_offerAll]
    by_cases hba : b = a
    · subst hba
      exact .inr ((has c).mpr hc)
    · have hold : b ∈ seen := by
        rcases hb with hb | hb
        · exact hb
        · by_contra hnew
          exact hw (.inr ⟨hb, hnew⟩)
      have hnot : b ∉ a :: work := by
        simp only [List.mem_cons, not_or]
        exact ⟨hba, fun hbw => hw (.inl hbw)⟩
      exact .inl (h.closed b hold hnot c hc)

omit [DecidableEq α] in
/-- With nothing waiting, what is seen is what is reached from the roots. -/
theorem mem_iff {seen : Finset α} (h : Inv succ roots { seen := seen, work := [] }) (b : α) :
    b ∈ seen ↔ ∃ r ∈ roots, Reaches succ r b := by
  constructor
  · exact h.sound b
  · intro ⟨r, hr, hrb⟩
    -- along the path every node is seen, as its predecessor does not wait
    induction hrb with
    | refl => exact h.roots_seen r hr
    | tail _ hbc ih => exact h.closed _ ih List.not_mem_nil _ hbc

end Inv

/-! ## How many turns there are -/

variable [Fintype α]

/-- The nodes that can still be taken off: those that wait and those not
seen yet. -/
def capacity (s : Search α) : Nat := s.seenᶜ.card + s.work.length

theorem capacity_offer (s : Search α) (a : α) : capacity (s.offer a) = capacity s := by
  by_cases h : a ∈ s.seen
  · rw [Search.offer_of_mem h]
  · have hcard : (s.seenᶜ.erase a).card + 1 = s.seenᶜ.card :=
      Finset.card_erase_add_one (Finset.mem_compl.mpr h)
    rw [Search.offer_of_not_mem h]
    simp only [capacity, Finset.compl_insert, List.length_cons]
    omega

theorem capacity_offerAll (s : Search α) (as : List α) :
    capacity (s.offerAll as) = capacity s := by
  induction as generalizing s with
  | nil => rfl
  | cons a as ih => exact (ih (s.offer a)).trans (capacity_offer s a)

theorem capacity_turn (seen : Finset α) (a : α) (work as : List α) :
    capacity (Search.offerAll { seen := seen, work := work } as) + 1 =
      capacity { seen := seen, work := a :: work } := by
  rw [capacity_offerAll]
  rfl

theorem capacity_start (seen : Finset α) :
    capacity { seen := seen, work := [] } ≤ Fintype.card α := by
  simpa [capacity] using seenᶜ.card_le_univ

end Worklist

end Wasp
