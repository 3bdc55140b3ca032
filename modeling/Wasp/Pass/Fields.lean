import Wasp.Pass.Blocks

/-!
# Fields — the argument struct between the two ends

The struct is filled, read, written and emptied field by field. Each of
these loops is described by the list of the parameters' values: packing
puts the arguments' values into the fields, the call in the guest finds
them there and leaves the new ones, and storing back brings those to the
pointees. It takes that the fields do not overlap and that the pointees
are outside the struct.
-/

namespace Wasp

open ByteMem

/-! ## Arguments -/

/-- The addresses and sizes of the pointees. -/
def pointees : List Param → List RtVal → List (Nat × Nat)
  | .pointer t :: ps, .ptr a :: as => (a, t.size) :: pointees ps as
  | _ :: ps, _ :: as => pointees ps as
  | _, _ => []

/-- The address `x` is not among the `n` addresses from `a` on. -/
def Outside (x a n : Nat) : Prop := x < a ∨ a + n ≤ x

/-- The arguments of a call: of the parameters' types, with pointees that
overlap neither each other nor the `n` bytes of the stub's frame. -/
structure Accepts (ps : List Param) (as : List RtVal) (frame n : Nat) : Prop where
  takes : List.Forall₂ Param.Takes ps as
  apart : (pointees ps as).Pairwise fun x y => x.1 + x.2 ≤ y.1 ∨ y.1 + y.2 ≤ x.1
  clear : ∀ x ∈ pointees ps as, x.1 + x.2 ≤ frame ∨ frame + n ≤ x.1

theorem mem_pointees_cons {p : Param} {a : RtVal} {ps : List Param} {as : List RtVal}
    {x : Nat × Nat} (h : x ∈ pointees ps as) : x ∈ pointees (p :: ps) (a :: as) := by
  cases p <;> cases a <;> simp [pointees, h]

/-- The values are read from the pointees alone. -/
theorem fetchAll_congr {m m' : Mem} {ps : List Param} {as : List RtVal}
    (h : ∀ x ∈ pointees ps as, ∀ y, x.1 ≤ y → y < x.1 + x.2 → m y = m' y) :
    fetchAll m ps as = fetchAll m' ps as := by
  induction ps generalizing as with
  | nil => cases as <;> rfl
  | cons p ps ih =>
      cases as with
      | nil => rfl
      | cons a as =>
          have hp : p.fetch m a = p.fetch m' a := by
            cases p <;> cases a <;> try rfl
            rename_i t x
            exact congrArg some (Layout.load_congr fun y hy hy' =>
              h (x, t.size) (by simp [pointees]) y hy hy')
          simp only [fetchAll, hp, ih fun x hx => h x (mem_pointees_cons hx)]

theorem fetchAll_takes {m : Mem} {ps : List Param} {as : List RtVal}
    (h : List.Forall₂ Param.Takes ps as) :
    ∃ vs, fetchAll m ps as = some vs ∧ Typed ps vs := by
  induction h with
  | nil => exact ⟨[], rfl, .nil⟩
  | @cons p a ps as hpa _ ih =>
      obtain ⟨vs, hvs, ht⟩ := ih
      obtain ⟨v, hv, hlen⟩ : ∃ v, p.fetch m a = some v ∧
          v.length = p.surrogate.bytes.length := by
        cases p <;> cases a <;> first | exact hpa.elim | skip
        · exact ⟨_, rfl, hpa⟩
        · exact ⟨_, rfl, Layout.load_length⟩
      exact ⟨v :: vs, by simp only [fetchAll, hv, hvs], .cons hlen ht⟩

/-- What is committed at an address depends on the old byte there only. -/
theorem commitAll_congr {ps : List Param} {as : List RtVal} {vs : List (List UInt8)}
    {m m' : Mem} {y : Nat} (h : m y = m' y) :
    commitAll ps as vs m y = commitAll ps as vs m' y := by
  induction ps generalizing as vs m m' with
  | nil => exact h
  | cons p ps ih =>
      cases as with
      | nil => exact h
      | cons a as =>
          cases vs with
          | nil => exact h
          | cons v vs =>
              refine ih ?_
              cases p <;> cases a <;> first | exact h | exact Layout.store_congr h

/-- Nothing is committed outside the pointees. -/
theorem commitAll_outside {ps : List Param} {as : List RtVal} {vs : List (List UInt8)}
    {m : Mem} {y : Nat} (h : ∀ x ∈ pointees ps as, Outside y x.1 x.2) :
    commitAll ps as vs m y = m y := by
  induction ps generalizing as vs m with
  | nil => rfl
  | cons p ps ih =>
      cases as with
      | nil => rfl
      | cons a as =>
          cases vs with
          | nil => rfl
          | cons v vs =>
              refine (ih fun x hx => h x (mem_pointees_cons hx)).trans ?_
              cases p <;> cases a <;> try rfl
              rename_i t x
              exact Layout.store_outside (h (x, t.size) (by simp [pointees]))

/-! ## The fields of the struct -/

section Fields

variable {fields : List Layout} {A : Nat}

/-- `x` is in none of the fields from `i` on of the struct at `A`. -/
def OffFields (fields : List Layout) (A i x : Nat) : Prop :=
  ∀ k t, i ≤ k → fields[k]? = some t → Outside x (A + Layout.offset fields k) t.size

theorem OffFields.succ {i x : Nat} (h : OffFields fields A i x) :
    OffFields fields A (i + 1) x :=
  fun k t hk => h k t (by omega)

theorem offFields_of_outside {i x : Nat} (h : Outside x A (Layout.struct fields).size) :
    OffFields fields A i x := by
  intro k t _ ht
  have := Layout.offset_add_size_le ht
  rcases h with h | h
  · exact .inl (by omega)
  · exact .inr (by omega)

/-- A byte of field `i` is in none of the later ones. -/
theorem offFields_of_field {i x : Nat} {t : Layout} (ht : fields[i]? = some t)
    (h : x < A + Layout.offset fields i + t.size) : OffFields fields A (i + 1) x := by
  intro k u hk hu
  have := Layout.offset_lt (by omega) ht hu
  exact .inl (by omega)

/-- The parameters `ps` are the fields from `i` on. -/
def FieldsAre (fields : List Layout) (i : Nat) (ps : List Param) : Prop :=
  ∃ rest, fields.drop i = ps.map Param.surrogate ++ rest

theorem FieldsAre.cons {i : Nat} {p : Param} {ps : List Param}
    (h : FieldsAre fields i (p :: ps)) :
    fields[i]? = some p.surrogate ∧ FieldsAre fields (i + 1) ps := by
  obtain ⟨rest, hr⟩ := h
  obtain ⟨ht, hd⟩ := drop_eq_cons hr
  exact ⟨ht, rest, hd⟩

theorem FieldsAre.get {i k : Nat} {p : Param} {ps : List Param}
    (h : FieldsAre fields i ps) (hk : ps[k]? = some p) :
    fields[i + k]? = some p.surrogate := by
  obtain ⟨rest, hr⟩ := h
  have hlt : k < (ps.map Param.surrogate).length := by
    rw [List.length_map]
    exact (List.getElem?_eq_some_iff.mp hk).1
  rw [← List.getElem?_drop, hr, List.getElem?_append_left hlt, List.getElem?_map, hk]
  rfl

/-- Packing writes fields only. -/
theorem packed_off {i x : Nat} {ps : List Param} {as : List RtVal} {m : Mem}
    (hf : FieldsAre fields i ps) (hx : OffFields fields A i x) :
    packed fields A i ps as m x = m x := by
  induction ps generalizing i as m with
  | nil => rfl
  | cons p ps ih =>
      cases as with
      | nil => rfl
      | cons a as =>
          obtain ⟨ht, hf'⟩ := hf.cons
          exact (ih hf' hx.succ).trans (Layout.store_outside (hx i _ (Nat.le_refl i) ht))

/-- The values of the fields from `i` on. -/
def fieldVals (fields : List Layout) (A : Nat) (m : Mem) : Nat → List Param → List (List UInt8)
  | _, [] => []
  | i, p :: ps => p.surrogate.load m (A + Layout.offset fields i) ::
      fieldVals fields A m (i + 1) ps

/-- **Packing.** The fields hold the values of the arguments. -/
theorem fieldVals_packed {i : Nat} {ps : List Param} {as : List RtVal} {m : Mem}
    {vs : List (List UInt8)} (hf : FieldsAre fields i ps)
    (htakes : List.Forall₂ Param.Takes ps as)
    (hclear : ∀ x ∈ pointees ps as, x.1 + x.2 ≤ A ∨ A + (Layout.struct fields).size ≤ x.1)
    (hvs : fetchAll m ps as = some vs) :
    fieldVals fields A (packed fields A i ps as m) i ps = vs := by
  induction htakes generalizing i m vs with
  | nil =>
      cases hvs
      rfl
  | @cons p a ps as hpa htakes ih =>
      obtain ⟨ht, hf'⟩ := hf.cons
      have hin := Layout.offset_add_size_le ht
      simp only [fetchAll] at hvs
      split at hvs
      · rename_i v vs' hv hvs'
        cases hvs
        have hlen : v.length = p.surrogate.bytes.length := by
          obtain ⟨us, hus, htyped⟩ := fetchAll_takes (m := m) (List.Forall₂.cons hpa .nil)
          simp only [fetchAll, hv, Option.some.injEq] at hus
          subst hus
          cases htyped with
          | cons h _ => exact h
        simp only [packed, hv, Option.getD_some, fieldVals]
        refine congr (congrArg List.cons ?_) (ih hf' ?_ ?_)
        · -- the later fields do not overlap this one
          refine Eq.trans (Layout.load_congr fun x _ hx => ?_)
            (Layout.load_store (m := m) hlen)
          exact packed_off hf' (offFields_of_field ht hx)
        · exact fun x hx => hclear x (mem_pointees_cons hx)
        · -- the pointees are outside the struct
          rw [← hvs']
          refine fetchAll_congr fun x hx y hy hy' => Layout.store_outside ?_
          rcases hclear x (mem_pointees_cons hx) with h | h
          · exact .inl (by omega)
          · exact .inr (by omega)
      · cases hvs

theorem fieldVals_congr {B : Nat} {m m' : Mem} {i : Nat} {ps : List Param}
    (h : ∀ k p o, ps[k]? = some p → o ∈ p.surrogate.bytes →
      m (A + Layout.offset fields (i + k) + o) = m' (B + Layout.offset fields (i + k) + o)) :
    fieldVals fields A m i ps = fieldVals fields B m' i ps := by
  induction ps generalizing i with
  | nil => rfl
  | cons p ps ih =>
      simp only [fieldVals]
      refine congr (congrArg List.cons ?_) (ih fun k q o hq ho => ?_)
      · exact Layout.load_congr_bytes fun o ho => h 0 p o rfl ho
      · have := h (k + 1) q o (by simpa using hq) ho
        rwa [show i + (k + 1) = i + 1 + k by omega] at this

/-- The values `__virtine_main` passes on are those of the fields. -/
theorem fetchAll_unpacked {m : Mem} {i : Nat} {ps : List Param} :
    fetchAll m ps (unpacked fields A m i ps) = some (fieldVals fields A m i ps) := by
  induction ps generalizing i with
  | nil => rfl
  | cons p ps ih => cases p <;> simp only [unpacked, fetchAll, Param.fetch, ih] <;> rfl

/-- The surrogates of the pointers hold the values `ws`. -/
def Surrogates (fields : List Layout) (A : Nat) (m : Mem) :
    Nat → List Param → List (List UInt8) → Prop
  | _, [], [] => True
  | i, .pointer t :: ps, w :: ws =>
      t.load m (A + Layout.offset fields i) = w ∧ Surrogates fields A m (i + 1) ps ws
  | i, .scalar _ :: ps, _ :: ws => Surrogates fields A m (i + 1) ps ws
  | _, _, _ => False

/-- They always hold some values. -/
theorem surrogates_fieldVals {m : Mem} {i : Nat} {ps : List Param} :
    Surrogates fields A m i ps (fieldVals fields A m i ps) := by
  induction ps generalizing i with
  | nil => trivial
  | cons p ps ih =>
      cases p with
      | scalar t => exact ih
      | pointer t => exact ⟨rfl, ih⟩

theorem Surrogates.congr {B : Nat} {m m' : Mem} {i : Nat} {ps : List Param}
    {ws : List (List UInt8)} (hf : FieldsAre fields i ps)
    (h : ∀ k p o, ps[k]? = some p → o ∈ p.surrogate.bytes →
      m (A + Layout.offset fields (i + k) + o) = m' (B + Layout.offset fields (i + k) + o))
    (hs : Surrogates fields A m i ps ws) : Surrogates fields B m' i ps ws := by
  induction ps generalizing i ws with
  | nil => cases ws <;> exact hs
  | cons p ps ih =>
      cases ws with
      | nil => cases p <;> exact hs.elim
      | cons w ws =>
          have hrest : ∀ k q o, ps[k]? = some q → o ∈ q.surrogate.bytes →
              m (A + Layout.offset fields (i + 1 + k) + o) =
                m' (B + Layout.offset fields (i + 1 + k) + o) := by
            intro k q o hq ho
            have := h (k + 1) q o (by simpa using hq) ho
            rwa [show i + (k + 1) = i + 1 + k by omega] at this
          cases p with
          | scalar t => exact ih hf.cons.2 hrest hs
          | pointer t =>
              refine ⟨Eq.trans ?_ hs.1, ih hf.cons.2 hrest hs.2⟩
              exact (Layout.load_congr_bytes fun o ho => h 0 _ o rfl ho).symm

/-- Calling the function in the guest writes surrogates only. -/
theorem commitAll_unpacked_off {m₀ m : Mem} {i x : Nat} {ps : List Param}
    {ws : List (List UInt8)} (hf : FieldsAre fields i ps) (hx : OffFields fields A i x) :
    commitAll ps (unpacked fields A m₀ i ps) ws m x = m x := by
  induction ps generalizing i m ws with
  | nil => rfl
  | cons p ps ih =>
      obtain ⟨ht, hf'⟩ := hf.cons
      cases ws with
      | nil => cases p <;> rfl
      | cons w ws =>
          cases p with
          | scalar t => exact ih hf' hx.succ
          | pointer t =>
              exact (ih hf' hx.succ).trans (Layout.store_outside (hx i _ (Nat.le_refl i) ht))

/-- **The call in the guest** leaves the new values in the surrogates. -/
theorem surrogates_commitAll {m₀ m : Mem} {i : Nat} {ps : List Param}
    {ws : List (List UInt8)} (hf : FieldsAre fields i ps) (hws : Typed ps ws) :
    Surrogates fields A (commitAll ps (unpacked fields A m₀ i ps) ws m) i ps ws := by
  induction hws generalizing i m with
  | nil => trivial
  | @cons p w ps ws hw _ ih =>
      obtain ⟨ht, hf'⟩ := hf.cons
      cases p with
      | scalar t => exact ih hf'
      | pointer t =>
          refine ⟨?_, ih hf'⟩
          refine Eq.trans (Layout.load_congr fun x _ hx => ?_) (Layout.load_store (m := m) hw)
          exact commitAll_unpacked_off hf' (offFields_of_field ht hx)

/-- **Storing back.** The surrogates' values reach the pointees. -/
theorem restored_eq_commitAll {m : Mem} {i : Nat} {ps : List Param} {as : List RtVal}
    {ws : List (List UInt8)} (hf : FieldsAre fields i ps)
    (htakes : List.Forall₂ Param.Takes ps as)
    (hclear : ∀ x ∈ pointees ps as, x.1 + x.2 ≤ A ∨ A + (Layout.struct fields).size ≤ x.1)
    (hs : Surrogates fields A m i ps ws) :
    restored fields A i ps as m = commitAll ps as ws m := by
  induction htakes generalizing i m ws with
  | nil => cases ws <;> rfl
  | @cons p a ps as hpa htakes ih =>
      obtain ⟨ht, hf'⟩ := hf.cons
      have hclear' := fun x hx => hclear x (mem_pointees_cons hx)
      cases ws with
      | nil => cases p <;> exact hs.elim
      | cons w ws =>
          cases p with
          | scalar t =>
              cases a with
              | bytes b => exact ih hf' hclear' hs
              | _ => exact hpa.elim
          | pointer t =>
              cases a with
              | ptr x =>
                  have hload : t.load m (A + Layout.offset fields i) = w := hs.1
                  simp only [restored, commitAll, Param.commit, Param.surrogate, hload]
                  refine ih hf' hclear' (hs.2.congr hf' fun k q o hq ho => ?_)
                  have hin := Layout.offset_add_size_le (hf'.get hq)
                  have ho := q.surrogate.bounded o ho
                  refine (Layout.store_outside ?_).symm
                  rcases hclear (x, t.size) (by simp [pointees]) with h | h
                  · exact .inr (by omega)
                  · exact .inl (by omega)
              | _ => exact hpa.elim

end Fields

end Wasp
