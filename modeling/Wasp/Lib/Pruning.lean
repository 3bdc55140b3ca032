import Mathlib.Data.Fintype.Card
import Mathlib.Data.Set.Finite.Basic
import Mathlib.Logic.Relation
import Mathlib.Order.Bounds.Defs
import Mathlib.Order.WellFounded

/-!
# Pruning — erasing what nothing uses, again and again

A set of nodes, a relation "`y` uses `x`", and a root that is never erased.
A pruning step erases nodes that no node still there uses. `Dead` is the
least set that contains every node other than the root all of whose users
it contains. Whatever the steps, they erase dead nodes only, and when no
step is possible any more all of them are gone: the outcome does not depend
on the order, and a node on a cycle survives.
-/

namespace Wasp

namespace Pruning

variable {α : Type} (nodes : Set α) (uses : α → α → Prop) (root : α)

inductive Dead : α → Prop where
  | intro {x : α} : x ∈ nodes → x ≠ root → (∀ y ∈ nodes, uses y x → Dead y) → Dead x

/-- From `live` to `live'` only unused nodes other than the root go. -/
structure Prunes (live live' : Set α) : Prop where
  subset : live' ⊆ live
  unused : ∀ x ∈ live, x ∉ live' → x ≠ root ∧ ∀ y ∈ live, ¬ uses y x

/-- Every node but the root is used. -/
def Stuck (live : Set α) : Prop := ∀ x ∈ live, x ≠ root → ∃ y ∈ live, uses y x

variable {nodes uses root}

theorem Dead.mem {x : α} (h : Dead nodes uses root x) : x ∈ nodes := by
  cases h
  assumption

/-- A user of a dead node is dead. -/
theorem Dead.user {x y : α} (h : Dead nodes uses root x) (hy : y ∈ nodes) (hu : uses y x) :
    Dead nodes uses root y := by
  cases h with
  | intro _ _ hall => exact hall y hy hu

/-! ## What is never erased -/

/-- A node that is not dead. -/
def Live (nodes : Set α) (uses : α → α → Prop) (root x : α) : Prop :=
  x ∈ nodes ∧ ¬ Dead nodes uses root x

theorem live_root (hroot : root ∈ nodes) : Live nodes uses root root := by
  refine ⟨hroot, fun h => ?_⟩
  cases h with
  | intro _ hr _ => exact hr rfl

/-- What a live node reaches is live. -/
theorem Live.reaches {x y : α} (hclosed : ∀ y ∈ nodes, ∀ x, uses y x → x ∈ nodes)
    (hy : Live nodes uses root y) (h : Relation.ReflTransGen uses y x) :
    Live nodes uses root x := by
  induction h with
  | refl => exact hy
  | tail _ hu ih => exact ⟨hclosed _ ih.1 _ hu, fun hd => ih.2 (hd.user ih.1 hu)⟩

/-- `x` is reached from the root or from a node on a cycle. -/
def Held (nodes : Set α) (uses : α → α → Prop) (root x : α) : Prop :=
  ∃ y ∈ nodes, Relation.ReflTransGen uses y x ∧ (y = root ∨ Relation.TransGen uses y y)

theorem reaches_mem {x y : α} (hclosed : ∀ y ∈ nodes, ∀ x, uses y x → x ∈ nodes)
    (hy : y ∈ nodes) (h : Relation.ReflTransGen uses y x) : x ∈ nodes := by
  induction h with
  | refl => exact hy
  | tail _ hu ih => exact hclosed _ ih _ hu

/-- A dead node is on no cycle: its user on the cycle would be dead too, and
on the same cycle. -/
theorem Dead.acyclic {x : α} (hclosed : ∀ y ∈ nodes, ∀ x, uses y x → x ∈ nodes)
    (h : Dead nodes uses root x) : ¬ Relation.TransGen uses x x := by
  induction h with
  | intro hx _ _ ih =>
      intro hcyc
      obtain ⟨y, hxy, hyx⟩ := Relation.TransGen.tail'_iff.mp hcyc
      exact ih y (reaches_mem hclosed hx hxy) hyx (.head' hyx hxy)

theorem Held.live {x : α} (hclosed : ∀ y ∈ nodes, ∀ x, uses y x → x ∈ nodes)
    (h : Held nodes uses root x) : Live nodes uses root x := by
  obtain ⟨y, hy, hyx, hroot | hcyc⟩ := h
  · subst hroot
    exact (live_root hy).reaches hclosed hyx
  · have hlive : Live nodes uses root y := ⟨hy, fun hd => hd.acyclic hclosed hcyc⟩
    exact hlive.reaches hclosed hyx

/-- Among finitely many nodes, following the users of a live node leads to
the root or into a cycle. -/
theorem Live.held (hfin : nodes.Finite) {x : α} (h : Live nodes uses root x) :
    Held nodes uses root x := by
  by_contra hno
  -- the live nodes above x
  let A : Set α := {y | Live nodes uses root y ∧ Relation.ReflTransGen uses y x}
  have : Finite A := hfin.subset fun y hy => hy.1.1
  let above : A → A → Prop := fun a b => Relation.TransGen uses a.1 b.1
  have : IsTrans A above := ⟨fun _ _ _ hab hbc => hab.trans hbc⟩
  have : Std.Irrefl above := ⟨fun a hcyc => hno ⟨a.1, a.2.1.1, a.2.2, .inr hcyc⟩⟩
  have hwf := Finite.wellFounded_of_trans_of_irrefl above
  obtain ⟨⟨y, hy, hyx⟩, -, hmin⟩ := hwf.has_min Set.univ ⟨⟨x, h, .refl⟩, trivial⟩
  -- the topmost of them would be dead
  refine hy.2 (.intro hy.1 (fun hroot => hno ⟨y, hy.1, hyx, .inl hroot⟩) fun z hz hu => ?_)
  by_contra hzd
  exact hmin ⟨z, ⟨hz, hzd⟩, .head hu hyx⟩ trivial (.single hu)

/-! ## Steps -/

/-- **Soundness of a step**: if everything that is gone is dead, it is so
after one more step. -/
theorem Prunes.dead {live live' : Set α} (h : Prunes uses root live live')
    (hlive : ∀ x ∈ nodes, x ∉ live → Dead nodes uses root x) :
    ∀ x ∈ nodes, x ∉ live' → Dead nodes uses root x := by
  intro x hx hgone
  by_cases hl : x ∈ live
  · obtain ⟨hr, hun⟩ := h.unused x hl hgone
    refine .intro hx hr fun y hy hu => ?_
    by_cases hyl : y ∈ live
    · exact absurd hu (hun y hyl)
    · exact hlive y hy hyl
  · exact hlive x hx hl

/-- **Completeness at the end**: where no step is possible, nothing dead is
left. -/
theorem Stuck.not_dead {live : Set α} (h : Stuck uses root live) (hsub : live ⊆ nodes) :
    ∀ x ∈ live, ¬ Dead nodes uses root x := by
  intro x hx hd
  induction hd with
  | intro _ hr _ ih =>
      obtain ⟨y, hy, hu⟩ := h _ hx hr
      exact ih y (hsub hy) hu hy

/-- The nodes that are left in the end are the live ones. -/
theorem mem_iff_live {live : Set α} (hsub : live ⊆ nodes)
    (hlive : ∀ x ∈ nodes, x ∉ live → Dead nodes uses root x) (h : Stuck uses root live)
    (x : α) : x ∈ live ↔ Live nodes uses root x := by
  constructor
  · intro hx
    exact ⟨hsub hx, h.not_dead hsub x hx⟩
  · rintro ⟨hx, hd⟩
    by_contra hno
    exact hd (hlive x hx hno)

end Pruning

end Wasp
