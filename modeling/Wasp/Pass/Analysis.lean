import Wasp.Pass.TypeFinder

/-!
# Analysis — `run_analysis`

`run_analysis` goes over the types its `TypeFinder` has visited, in the order
of a `std::set` of pointers, and keeps the largest width of an integer type;
`-1` stands for none. The widths LLVM allows fit an `int`.
-/

namespace Wasp

structure Analysis where
  largestInt : Int
  largestFloat : Int
  deriving DecidableEq, Repr

variable {Ty Const Md : Type}

/-- The body of the loop over the types. -/
def Analysis.look (a : Analysis) : TypeNode Ty → Analysis
  | .integer bits => { a with largestInt := max (BitVec.ofNat 32 bits.val).toInt a.largestInt }
  -- the branch of `isFloatTy()` does nothing
  | .floating .float => a
  | _ => a

def Analysis.lookAll (G : TypeGraph Ty) (a : Analysis) (ts : List Ty) : Analysis :=
  ts.foldl (fun a t => a.look (G.node t)) a

def runAnalysis [LinearOrder Ty] [Fintype Ty] [DecidableEq Const] [Fintype Const]
    [DecidableEq Md] [Fintype Md] (G : IrGraph Ty Const Md) (m : TypedModule Ty Const Md) :
    Option Analysis :=
  (TypeFinder.onModule G m).map fun tf =>
    Analysis.lookAll G.toTypeGraph { largestInt := -1, largestFloat := -1 }
      (tf.visitedTypes.sort (· ≤ ·))

/-- `n` is the largest width of an integer type in `R`, or `-1` if there is none. -/
def IsLargestInt (G : TypeGraph Ty) (R : Ty → Prop) (n : Int) : Prop :=
  (∃ t bits, R t ∧ G.node t = .integer bits ∧ n = bits.val ∧
    ∀ u w, R u → G.node u = .integer w → w.val ≤ bits.val) ∨
  (n = -1 ∧ ∀ t bits, R t → G.node t ≠ .integer bits)

theorem toInt_bits (bits : IntBits) : (BitVec.ofNat 32 bits.val).toInt = bits.val := by
  have hlt := bits.property.2
  rw [BitVec.toInt_eq_toNat_cond, BitVec.toNat_ofNat]
  omega

namespace Analysis

variable {G : TypeGraph Ty} {a : Analysis}

theorem look_integer {node : TypeNode Ty} {bits : IntBits} (h : node = .integer bits) :
    (a.look node).largestInt = max (bits.val : Int) a.largestInt := by
  subst h
  simp [look, toInt_bits]

theorem look_other {node : TypeNode Ty} (h : ∀ bits, node ≠ .integer bits) :
    a.look node = a := by
  fun_cases look a node
  · exact absurd rfl (h _)
  · rfl
  · rfl

/-- One turn: `largestInt` does not fall below what it was or the width of
the type, and it is one of the two. -/
theorem look_spec (a : Analysis) (node : TypeNode Ty) :
    a.largestInt ≤ (a.look node).largestInt ∧
    (∀ bits, node = .integer bits → (bits.val : Int) ≤ (a.look node).largestInt) ∧
    ((a.look node).largestInt = a.largestInt ∨
      ∃ bits, node = .integer bits ∧ (a.look node).largestInt = bits.val) := by
  by_cases h : ∃ bits, node = .integer bits
  · obtain ⟨bits, rfl⟩ := h
    have hlook : (a.look (.integer bits : TypeNode Ty)).largestInt =
        max (bits.val : Int) a.largestInt := look_integer rfl
    rw [hlook]
    refine ⟨le_max_right _ _, ?_, ?_⟩
    · intro w hw
      injection hw with hw
      subst hw
      exact le_max_left _ _
    · rcases max_choice (bits.val : Int) a.largestInt with hmax | hmax
      · exact .inr ⟨bits, rfl, hmax⟩
      · exact .inl hmax
  · have hno : ∀ bits, node ≠ .integer bits := fun bits hb => h ⟨bits, hb⟩
    rw [look_other hno]
    exact ⟨le_refl _, fun bits hb => absurd hb (hno bits), .inl rfl⟩

theorem lookAll_spec (G : TypeGraph Ty) (a : Analysis) (ts : List Ty) :
    a.largestInt ≤ (a.lookAll G ts).largestInt ∧
    (∀ t ∈ ts, ∀ bits, G.node t = .integer bits →
      (bits.val : Int) ≤ (a.lookAll G ts).largestInt) ∧
    ((a.lookAll G ts).largestInt = a.largestInt ∨
      ∃ t ∈ ts, ∃ bits, G.node t = .integer bits ∧
        (a.lookAll G ts).largestInt = bits.val) := by
  induction ts generalizing a with
  | nil => simp [lookAll]
  | cons t ts ih =>
      obtain ⟨hle, hbits, hone⟩ := look_spec a (G.node t)
      obtain ⟨hle', hbits', hone'⟩ := ih (a.look (G.node t))
      change a.largestInt ≤ (lookAll G (a.look (G.node t)) ts).largestInt ∧ _
      refine ⟨hle.trans hle', ?_, ?_⟩
      · intro u hu bits hb
        rcases List.mem_cons.mp hu with rfl | hu
        · exact (hbits bits hb).trans hle'
        · exact hbits' u hu bits hb
      · rcases hone' with hone' | ⟨u, hu, bits, hb, heq⟩
        · rcases hone with hone | ⟨bits, hb, heq⟩
          · exact .inl (hone'.trans hone)
          · exact .inr ⟨t, List.mem_cons_self, bits, hb, hone'.trans heq⟩
        · exact .inr ⟨u, List.mem_cons_of_mem t hu, bits, hb, heq⟩

/-- From `-1` the loop ends with the largest width, or with `-1`. -/
theorem lookAll_isLargestInt (G : TypeGraph Ty) {a : Analysis} (ha : a.largestInt = -1)
    {ts : List Ty} {R : Ty → Prop} (hR : ∀ t, t ∈ ts ↔ R t) :
    IsLargestInt G R (a.lookAll G ts).largestInt := by
  obtain ⟨-, hbits, hnone | ⟨t, ht, bits, hb, heq⟩⟩ := lookAll_spec G a ts
  · rw [ha] at hnone
    refine .inr ⟨hnone, fun t bits ht hb => ?_⟩
    have hle := hbits t ((hR t).mpr ht) bits hb
    have hpos := bits.property.1
    omega
  · refine .inl ⟨t, bits, (hR t).mp ht, hb, heq, fun u w hu hw => ?_⟩
    have hle := hbits u ((hR u).mpr hu) w hw
    omega

end Analysis

/-- **Type discovery.** The calls on one finder end, whatever types they are
given, and visit the types reached from those. So does the walk over a
module, which gives the type of everything declared, and the analysis
reports the widest integer type reached. -/
theorem typeFinder_closure [LinearOrder Ty] [Fintype Ty] [DecidableEq Const] [Fintype Const]
    [DecidableEq Md] [Fintype Md] (G : IrGraph Ty Const Md) :
    (∀ tys : List Ty, ∃ tf : TypeFinder Ty Const Md,
      TypeFinder.incorporateTypes G.toTypeGraph {} tys = some tf ∧
      ∀ t, t ∈ tf.visitedTypes ↔ ∃ g ∈ tys, G.Reaches g t) ∧
    (∀ m : TypedModule Ty Const Md, ∃ tf a, TypeFinder.onModule G m = some tf ∧
      m.types ⊆ tf.given ∧
      (∀ t, t ∈ tf.visitedTypes ↔ ∃ g ∈ tf.given, G.Reaches g t) ∧
      runAnalysis G m = some a ∧
      IsLargestInt G.toTypeGraph (fun t => ∃ g ∈ tf.given, G.Reaches g t) a.largestInt) := by
  constructor
  · intro tys
    obtain ⟨tf, hr, hex, hgiven⟩ :=
      TypeFinder.incorporateTypes_spec tys (TypeFinder.exact_empty G.toTypeGraph)
    refine ⟨tf, hr, fun t => ?_⟩
    rw [hex.mem_iff]
    simp [hgiven]
  · intro m
    obtain ⟨tf, hr, hex, -, htypes⟩ := TypeFinder.gives_onModule G m
    refine ⟨tf, _, hr, htypes, hex.mem_iff, by rw [runAnalysis, hr, Option.map_some], ?_⟩
    apply Analysis.lookAll_isLargestInt G.toTypeGraph rfl
    intro t
    rw [Finset.mem_sort]
    exact hex.mem_iff t

end Wasp
