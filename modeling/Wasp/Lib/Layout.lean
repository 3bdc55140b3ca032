import Mathlib.Algebra.Group.Nat.Defs
import Mathlib.Data.List.Nodup

/-!
# Layout — sized types, structs and values in a byte memory

A sized type is its size, its alignment and the offsets of the bytes that
hold its value; the other bytes of it are padding. Structs are laid out as
in C: each field at the next multiple of its alignment. A value is the list
of its bytes, in the order of the offsets, and `load` and `store` touch no
padding. The lemmas are those of records in memory: the fields of a struct
do not overlap, a store is read back, and it changes nothing outside.
-/

namespace Wasp

/-- The next multiple of `a`. -/
def roundUp (n a : Nat) : Nat := (n + a - 1) / a * a

theorem le_roundUp (n : Nat) {a : Nat} (h : 0 < a) : n ≤ roundUp n a := by
  have hdiv := Nat.div_add_mod (n + a - 1) a
  have hmod := Nat.mod_lt (n + a - 1) h
  unfold roundUp
  rw [Nat.mul_comm]
  omega

structure Layout where
  size : Nat
  align : Nat
  bytes : List Nat
  align_pos : 0 < align
  nodup : bytes.Nodup
  bounded : ∀ o ∈ bytes, o < size

namespace Layout

/-! ## Scalars and structs -/

/-- An integer, a float or a pointer of `store` bytes. -/
def scalar (store logAlign : Nat) : Layout where
  size := roundUp store (2 ^ logAlign)
  align := 2 ^ logAlign
  bytes := List.range store
  align_pos := Nat.two_pow_pos logAlign
  nodup := List.nodup_range
  bounded := fun _ h => Nat.lt_of_lt_of_le (List.mem_range.mp h)
    (le_roundUp store (Nat.two_pow_pos logAlign))

/-- The offsets of the fields of a struct, from the offset `n` on. -/
def offsets : Nat → List Layout → List Nat
  | _, [] => []
  | n, t :: ts => roundUp n t.align :: offsets (roundUp n t.align + t.size) ts

/-- Where the last field ends. -/
def extent : Nat → List Layout → Nat
  | n, [] => n
  | n, t :: ts => extent (roundUp n t.align + t.size) ts

/-- The value bytes of the fields. -/
def fieldBytes : Nat → List Layout → List Nat
  | _, [] => []
  | n, t :: ts => t.bytes.map (roundUp n t.align + ·) ++
      fieldBytes (roundUp n t.align + t.size) ts

def maxAlign (ts : List Layout) : Nat := ts.foldr (fun t n => max t.align n) 1

theorem maxAlign_pos (ts : List Layout) : 0 < maxAlign ts := by
  induction ts with
  | nil => exact Nat.one_pos
  | cons t ts ih => exact Nat.lt_of_lt_of_le ih (Nat.le_max_right _ _)

theorem le_extent (n : Nat) (ts : List Layout) : n ≤ extent n ts := by
  induction ts generalizing n with
  | nil => exact Nat.le_refl n
  | cons t ts ih =>
      have hn := le_roundUp n t.align_pos
      have := ih (roundUp n t.align + t.size)
      simp only [extent]
      omega

theorem fieldBytes_bounds {n x : Nat} {ts : List Layout} (h : x ∈ fieldBytes n ts) :
    n ≤ x ∧ x < extent n ts := by
  induction ts generalizing n with
  | nil => simp [fieldBytes] at h
  | cons t ts ih =>
      have hn := le_roundUp n t.align_pos
      simp only [fieldBytes, List.mem_append, List.mem_map] at h
      simp only [extent]
      rcases h with ⟨o, ho, rfl⟩ | h
      · have hb := t.bounded o ho
        have := le_extent (roundUp n t.align + t.size) ts
        omega
      · obtain ⟨hlo, hhi⟩ := ih h
        omega

theorem fieldBytes_nodup (n : Nat) (ts : List Layout) : (fieldBytes n ts).Nodup := by
  induction ts generalizing n with
  | nil => simp [fieldBytes]
  | cons t ts ih =>
      refine List.Nodup.append ?_ (ih _) ?_
      · exact t.nodup.map fun a b hab => Nat.add_left_cancel hab
      · intro x hx hx'
        obtain ⟨o, ho, rfl⟩ := List.mem_map.mp hx
        have hb := t.bounded o ho
        have := (fieldBytes_bounds hx').1
        omega

/-- A struct that is not packed. -/
def struct (ts : List Layout) : Layout where
  size := roundUp (extent 0 ts) (maxAlign ts)
  align := maxAlign ts
  bytes := fieldBytes 0 ts
  align_pos := maxAlign_pos ts
  nodup := fieldBytes_nodup 0 ts
  bounded := fun _ h => Nat.lt_of_lt_of_le (fieldBytes_bounds h).2
    (le_roundUp _ (maxAlign_pos ts))

/-- The offset of field `i`. -/
def offset (ts : List Layout) (i : Nat) : Nat := (offsets 0 ts).getD i 0

theorem offsets_bounds {n i : Nat} {ts : List Layout} {t : Layout} (h : ts[i]? = some t) :
    n ≤ (offsets n ts).getD i 0 ∧ (offsets n ts).getD i 0 + t.size ≤ extent n ts := by
  induction ts generalizing n i with
  | nil => simp at h
  | cons u ts ih =>
      have hn := le_roundUp n u.align_pos
      cases i with
      | zero =>
          simp only [List.getElem?_cons_zero, Option.some.injEq] at h
          subst h
          have := le_extent (roundUp n u.align + u.size) ts
          simp only [offsets, extent, List.getD_cons_zero]
          omega
      | succ i =>
          obtain ⟨hlo, hhi⟩ := ih (n := roundUp n u.align + u.size)
            (by simpa using h)
          simp only [offsets, extent, List.getD_cons_succ]
          omega

theorem offsets_lt {n i j : Nat} {ts : List Layout} {t u : Layout} (hij : i < j)
    (hi : ts[i]? = some t) (hj : ts[j]? = some u) :
    (offsets n ts).getD i 0 + t.size ≤ (offsets n ts).getD j 0 := by
  induction ts generalizing n i j with
  | nil => simp at hi
  | cons w ts ih =>
      obtain ⟨j, rfl⟩ : ∃ k, j = k + 1 := ⟨j - 1, by omega⟩
      rw [List.getElem?_cons_succ] at hj
      cases i with
      | zero =>
          simp only [List.getElem?_cons_zero, Option.some.injEq] at hi
          subst hi
          simp only [offsets, List.getD_cons_zero, List.getD_cons_succ]
          exact (offsets_bounds hj).1
      | succ i =>
          rw [List.getElem?_cons_succ] at hi
          simp only [offsets, List.getD_cons_succ]
          exact ih (by omega) hi hj

/-- **Fields lie inside the struct.** -/
theorem offset_add_size_le {ts : List Layout} {i : Nat} {t : Layout} (h : ts[i]? = some t) :
    offset ts i + t.size ≤ (struct ts).size :=
  Nat.le_trans (offsets_bounds h).2 (le_roundUp _ (maxAlign_pos ts))

/-- **Fields do not overlap.** -/
theorem offset_lt {ts : List Layout} {i j : Nat} {t u : Layout} (hij : i < j)
    (hi : ts[i]? = some t) (hj : ts[j]? = some u) :
    offset ts i + t.size ≤ offset ts j :=
  offsets_lt hij hi hj

theorem roundUp_eq_zero {n a : Nat} (h : 0 < a) : roundUp n a = 0 ↔ n = 0 := by
  constructor
  · intro hz
    have := le_roundUp n h
    omega
  · rintro rfl
    rw [roundUp, Nat.div_eq_of_lt (by omega), Nat.zero_mul]

theorem offsets_eq_zero {n i : Nat} {ts : List Layout} (hi : i < ts.length) :
    (offsets n ts).getD i 0 = 0 ↔ n = 0 ∧ ∀ j t, j < i → ts[j]? = some t → t.size = 0 := by
  induction ts generalizing n i with
  | nil => simp at hi
  | cons u ts ih =>
      cases i with
      | zero => simp [offsets, roundUp_eq_zero u.align_pos]
      | succ i =>
          rw [List.length_cons] at hi
          rw [offsets, List.getD_cons_succ, ih (by omega), Nat.add_eq_zero_iff,
            roundUp_eq_zero u.align_pos]
          constructor
          · rintro ⟨⟨hn, hu⟩, hrest⟩
            refine ⟨hn, fun j t hj ht => ?_⟩
            cases j with
            | zero =>
                rw [List.getElem?_cons_zero, Option.some.injEq] at ht
                exact ht ▸ hu
            | succ j => exact hrest j t (by omega) ht
          · rintro ⟨hn, hall⟩
            exact ⟨⟨hn, hall 0 u (by omega) rfl⟩,
              fun j t hj ht => hall (j + 1) t (by omega) ht⟩

/-- A field is at the start of the struct if nothing before it takes up bytes. -/
theorem offset_eq_zero {i : Nat} {ts : List Layout} (hi : i < ts.length) :
    offset ts i = 0 ↔ ∀ j t, j < i → ts[j]? = some t → t.size = 0 := by
  rw [offset, offsets_eq_zero hi]
  simp

theorem mem_fieldBytes {n i o : Nat} {ts : List Layout} {t : Layout} (h : ts[i]? = some t)
    (ho : o ∈ t.bytes) : (offsets n ts).getD i 0 + o ∈ fieldBytes n ts := by
  induction ts generalizing n i with
  | nil => simp at h
  | cons u ts ih =>
      cases i with
      | zero =>
          simp only [List.getElem?_cons_zero, Option.some.injEq] at h
          subst h
          exact List.mem_append_left _ (List.mem_map_of_mem ho)
      | succ i => exact List.mem_append_right _ (ih (by simpa using h))

/-- The value bytes of a field are value bytes of the struct. -/
theorem offset_add_mem {ts : List Layout} {i o : Nat} {t : Layout} (h : ts[i]? = some t)
    (ho : o ∈ t.bytes) : offset ts i + o ∈ (struct ts).bytes :=
  mem_fieldBytes h ho

/-! ## Values in memory -/

def load (t : Layout) (m : Nat → UInt8) (a : Nat) : List UInt8 :=
  t.bytes.map fun o => m (a + o)

def store (t : Layout) (m : Nat → UInt8) (a : Nat) (v : List UInt8) : Nat → UInt8 :=
  fun x => if a ≤ x ∧ x - a ∈ t.bytes then v.getD (t.bytes.idxOf (x - a)) 0 else m x

variable {t : Layout} {m m' : Nat → UInt8} {a : Nat} {v : List UInt8}

@[simp] theorem load_length : (t.load m a).length = t.bytes.length := by
  simp [load]

/-- Only the value bytes are read. -/
theorem load_congr_bytes {b : Nat} (h : ∀ o ∈ t.bytes, m (a + o) = m' (b + o)) :
    t.load m a = t.load m' b :=
  List.map_congr_left h

theorem load_congr (h : ∀ x, a ≤ x → x < a + t.size → m x = m' x) :
    t.load m a = t.load m' a := by
  refine load_congr_bytes fun o ho => h _ (Nat.le_add_right a o) ?_
  have := t.bounded o ho
  omega

theorem store_outside {x : Nat} (h : x < a ∨ a + t.size ≤ x) : t.store m a v x = m x := by
  refine if_neg fun hin => ?_
  have := t.bounded _ hin.2
  omega

/-- A store changes no byte in a way that depends on the other bytes. -/
theorem store_congr {x : Nat} (h : m x = m' x) : t.store m a v x = t.store m' a v x := by
  simp only [store, h]

theorem load_store (h : v.length = t.bytes.length) : t.load (t.store m a v) a = v := by
  refine List.ext_getElem (by simp [h]) fun i hi hi' => ?_
  have hib : i < t.bytes.length := by simpa using hi
  simp only [load, List.getElem_map, store, Nat.le_add_right, Nat.add_sub_cancel_left,
    List.getElem_mem, and_self, if_true, t.nodup.idxOf_getElem]
  simp [List.getD_eq_getElem?_getD, hi']

end Layout

end Wasp
