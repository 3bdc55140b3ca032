import Mathlib.Algebra.Group.Nat.Defs
import Wasp.Lib.Worklist

/-!
# Types — the types of an LLVM module

LLVM makes one object for each type, and a struct may refer to itself, so
the types of a module are a graph: `Ty` stands for the objects, and `node`
says what each of them is and which types it contains.

Two rules of LLVM that its builders assert and its verifier checks are
stated here: which types may be members of a struct (`ValidMember`,
`StructType::isValidElementType`) and which have a size (`Sized`,
`Type::isSized`). What has a size may be a member, and may be loaded and
stored (`FirstClass`, `Type::isFirstClassType`).
-/

namespace Wasp

/-- The widths an `IntegerType` can have, `MIN_INT_BITS` to `MAX_INT_BITS`. -/
def IntBits : Type := { n : Nat // 1 ≤ n ∧ n < 2 ^ 24 }

def i32 : IntBits := ⟨32, by decide⟩

inductive FloatKind where
  | half | float | double | x86Fp80 | fp128 | ppcFp128
  deriving DecidableEq, Repr

inductive TypeNode (Ty : Type) where
  | void
  | label
  | metadata
  | token
  | x86Mmx
  | floating (k : FloatKind)
  | integer (bits : IntBits)
  | function (ret : Ty) (params : List Ty)
  /-- A struct with its name, if it has one; without a body it is opaque. -/
  | struct (name : Option String) (body : Option (List Ty))
  | array (elem : Ty)
  | pointer (elem : Ty)
  | vector (elem : Ty)

structure TypeGraph (Ty : Type) where
  node : Ty → TypeNode Ty

variable {Ty : Type}

/-- The contained types, in the order of `subtype_begin`. -/
def TypeNode.subtypes : TypeNode Ty → List Ty
  | .function ret params => ret :: params
  | .struct _ body => body.getD []
  | .array elem | .pointer elem | .vector elem => [elem]
  | _ => []

/-- A `StructType` with `hasName()`. -/
def TypeNode.isNamedStruct : TypeNode Ty → Bool
  | .struct name _ => name.isSome
  | _ => false

namespace TypeGraph

def subtypes (G : TypeGraph Ty) (t : Ty) : List Ty := (G.node t).subtypes

/-- `u` is `t` or is contained in it, at any depth. -/
def Reaches (G : TypeGraph Ty) : Ty → Ty → Prop := Worklist.Reaches G.subtypes

/-! ## Members and sizes -/

def ValidMember (G : TypeGraph Ty) (t : Ty) : Prop :=
  match G.node t with
  | .void | .label | .metadata | .token | .function _ _ => False
  | _ => True

def FirstClass (G : TypeGraph Ty) (t : Ty) : Prop :=
  match G.node t with
  | .void | .function _ _ | .struct _ none => False
  | _ => True

inductive Sized (G : TypeGraph Ty) : Ty → Prop where
  | integer {t : Ty} {bits : IntBits} : G.node t = .integer bits → G.Sized t
  | floating {t : Ty} {k : FloatKind} : G.node t = .floating k → G.Sized t
  | x86Mmx {t : Ty} : G.node t = .x86Mmx → G.Sized t
  | pointer {t e : Ty} : G.node t = .pointer e → G.Sized t
  | array {t e : Ty} : G.node t = .array e → G.Sized e → G.Sized t
  | vector {t e : Ty} : G.node t = .vector e → G.Sized e → G.Sized t
  | struct {t : Ty} {name : Option String} {body : List Ty} :
      G.node t = .struct name (some body) → (∀ e ∈ body, G.Sized e) → G.Sized t

variable {G : TypeGraph Ty} {t : Ty}

theorem Sized.validMember (h : G.Sized t) : G.ValidMember t := by
  cases h <;> simp_all [ValidMember]

theorem Sized.firstClass (h : G.Sized t) : G.FirstClass t := by
  cases h <;> simp_all [FirstClass]

theorem not_sized_void (h : G.node t = .void) : ¬ G.Sized t := by
  intro hs
  cases hs <;> simp_all

theorem not_sized_function {ret : Ty} {params : List Ty}
    (h : G.node t = .function ret params) : ¬ G.Sized t := by
  intro hs
  cases hs <;> simp_all

theorem not_sized_opaque {name : Option String} (h : G.node t = .struct name none) :
    ¬ G.Sized t := by
  intro hs
  cases hs <;> simp_all

end TypeGraph

end Wasp
