import Wasp.Pass.Compile
import Wasp.Pass.Types

/-!
# Signature — the argument struct of a function type

`create_argument_struct` makes a struct type of whatever types a function
has: the type of each parameter, of a pointer what it points to, and the
type of the result. Here the two code generators of `Compile` are given
again, one level up, where an instruction names LLVM types and not layouts
and the types need not have a size. With layouts for the types the blocks
are those of `Compile` (`erase_compileFunction`, `erase_createMain`).
-/

namespace Wasp

variable {Ty : Type}

/-- The type of a value in one of the two blocks. The argument struct is new
and no type of the module. -/
inductive ValueType (Ty : Type) where
  | type (t : Ty)
  | pointer (elem : Ty)
  | argStruct
  | int64
  | void

/-- An instruction that names its types. -/
inductive TypedInstr (Ty : Type) where
  | alloca
  | gep (base : Operand) (i : Nat)
  | load (t : Ty) (p : Operand)
  | store (t : Ty) (v p : Operand)
  | sizeHack
  | callWasp (memsz : BitVec 64) (arg argsz : Operand)
  | callFn (argv : List Operand)

structure TypedBlock (Ty : Type) where
  instrs : List (TypedInstr Ty)
  ret : Option Operand

namespace TypeGraph

def valueType (G : TypeGraph Ty) (t : Ty) : ValueType Ty :=
  match G.node t with
  | .pointer elem => .pointer elem
  | .void => .void
  | _ => .type t

/-- The element type of a pointer type. -/
def pointee (G : TypeGraph Ty) (t : Ty) : Option Ty :=
  match G.node t with
  | .pointer elem => some elem
  | _ => none

theorem pointee_eq_some {G : TypeGraph Ty} {t e : Ty} :
    G.pointee t = some e ↔ G.node t = .pointer e := by
  unfold pointee
  split <;> simp_all

theorem valueType_pointer {G : TypeGraph Ty} {t e : Ty} (h : G.pointee t = some e) :
    G.valueType t = .pointer e := by
  rw [pointee_eq_some] at h
  simp [valueType, h]

/-- The type that `create_argument_struct` pushes for a parameter. -/
def memberType (G : TypeGraph Ty) (surrogate : Bool) (t : Ty) : Ty :=
  match surrogate, G.pointee t with
  | true, some elem => elem
  | _, _ => t

theorem memberType_pointer {G : TypeGraph Ty} {t e : Ty} (h : G.pointee t = some e) :
    G.memberType true t = e := by
  simp [memberType, h]

theorem memberType_scalar {G : TypeGraph Ty} {t : Ty} (h : G.pointee t = none) :
    G.memberType true t = t := by
  simp [memberType, h]

end TypeGraph

/-- A function type that C can give a function: its parameters are passed as
values with a size, its result is such a value or `void`. What a pointer
points to is left open. -/
structure Signature (G : TypeGraph Ty) where
  params : List Ty
  ret : Ty
  params_sized : ∀ p ∈ params, G.Sized p
  ret_sized : G.node ret = .void ∨ G.Sized ret

namespace Signature

variable {G : TypeGraph Ty}

def createArgumentStruct (σ : Signature G) (surrogate : Bool) : List Ty :=
  σ.params.map (G.memberType surrogate) ++ [σ.ret]

/-! ## The blocks -/

/-- `storeArgs` of `Compile`, on types. -/
def storeArgs (G : TypeGraph Ty) (args : Operand) :
    Nat → Nat → List Ty → List (TypedInstr Ty)
  | _, _, [] => []
  | n, i, p :: ps =>
      match G.pointee p with
      | some t =>
          .gep args i :: .load t (.arg i) :: .store t (.val (n + 1)) (.val n) ::
            storeArgs G args (n + 3) (i + 1) ps
      | none =>
          .gep args i :: .store p (.arg i) (.val n) :: storeArgs G args (n + 2) (i + 1) ps

def storeBack (G : TypeGraph Ty) (args : Operand) :
    Nat → Nat → List Ty → List (TypedInstr Ty)
  | _, _, [] => []
  | n, i, p :: ps =>
      match G.pointee p with
      | some t =>
          .gep args i :: .load t (.val n) :: .store t (.val (n + 1)) (.arg i) ::
            storeBack G args (n + 3) (i + 1) ps
      | none => storeBack G args n (i + 1) ps

def compileFunction (σ : Signature G) : TypedBlock Ty :=
  let args := Operand.val 0
  let stores := storeArgs G args 1 0 σ.params
  let n := 1 + stores.length
  let back := storeBack G args (n + 2) 0 σ.params
  let k := n + 2 + back.length
  { instrs := .alloca :: stores ++ [.sizeHack, .callWasp ramSize args (.val n)] ++ back ++
      [.gep args σ.params.length, .load σ.ret (.val k)],
    ret := some (.val (k + 1)) }

def loadArgs (G : TypeGraph Ty) :
    Nat → Nat → List Ty → List (TypedInstr Ty) × List Operand
  | _, _, [] => ([], [])
  | n, i, p :: ps =>
      match G.pointee p with
      | some _ =>
          let (is, argv) := loadArgs G (n + 1) (i + 1) ps
          (.gep (.arg 0) i :: is, .val n :: argv)
      | none =>
          let (is, argv) := loadArgs G (n + 2) (i + 1) ps
          (.gep (.arg 0) i :: .load p (.val n) :: is, .val (n + 1) :: argv)

def createMain (σ : Signature G) : TypedBlock Ty :=
  let (is, argv) := loadArgs G 0 0 σ.params
  let n := is.length
  { instrs := is ++ [.callFn argv, .gep (.arg 0) σ.params.length,
      .store σ.ret (.val n) (.val (n + 1))],
    ret := none }

end Signature

/-! ## The blocks of `Compile`

Layouts for the types turn an instruction into the one that is executed, and
a parameter into one of `Compile`. -/

section Erase

variable (G : TypeGraph Ty) (lay : Ty → Layout)

def TypeGraph.param (t : Ty) : Param :=
  match G.pointee t with
  | some elem => .pointer (lay elem)
  | none => .scalar (lay t)

def TypedInstr.erase : TypedInstr Ty → Instr
  | .alloca => .alloca
  | .gep base i => .gep base i
  | .load t p => .load (lay t) p
  | .store t v p => .store (lay t) v p
  | .sizeHack => .sizeHack
  | .callWasp memsz arg argsz => .callWasp memsz arg argsz
  | .callFn argv => .callFn argv

def TypedBlock.erase (b : TypedBlock Ty) : Block :=
  { instrs := b.instrs.map (TypedInstr.erase lay), ret := b.ret }

theorem erase_storeArgs (args : Operand) (n i : Nat) (ps : List Ty) :
    (Signature.storeArgs G args n i ps).map (TypedInstr.erase lay) =
      storeArgs args n i (ps.map (G.param lay)) := by
  induction ps generalizing n i with
  | nil => rfl
  | cons p ps ih =>
      cases hp : G.pointee p with
      | some t =>
          simp [Signature.storeArgs, storeArgs, TypeGraph.param, hp, TypedInstr.erase, ih]
      | none =>
          simp [Signature.storeArgs, storeArgs, TypeGraph.param, hp, TypedInstr.erase, ih]

theorem erase_storeBack (args : Operand) (n i : Nat) (ps : List Ty) :
    (Signature.storeBack G args n i ps).map (TypedInstr.erase lay) =
      storeBack args n i (ps.map (G.param lay)) := by
  induction ps generalizing n i with
  | nil => rfl
  | cons p ps ih =>
      cases hp : G.pointee p with
      | some t =>
          simp [Signature.storeBack, storeBack, TypeGraph.param, hp, TypedInstr.erase, ih]
      | none => simp [Signature.storeBack, storeBack, TypeGraph.param, hp, ih]

theorem erase_loadArgs (n i : Nat) (ps : List Ty) :
    (Signature.loadArgs G n i ps).1.map (TypedInstr.erase lay) =
        (loadArgs n i (ps.map (G.param lay))).1 ∧
      (Signature.loadArgs G n i ps).2 = (loadArgs n i (ps.map (G.param lay))).2 := by
  induction ps generalizing n i with
  | nil => exact ⟨rfl, rfl⟩
  | cons p ps ih =>
      cases hp : G.pointee p with
      | some t =>
          simp [Signature.loadArgs, loadArgs, TypeGraph.param, hp, TypedInstr.erase, ih]
      | none =>
          simp [Signature.loadArgs, loadArgs, TypeGraph.param, hp, TypedInstr.erase, ih]

variable {G lay} {σ : Signature G} {f : Fn} (hparams : f.params = σ.params.map (G.param lay))
  (hret : f.ret = lay σ.ret)

include hparams hret

theorem erase_createArgumentStruct :
    (σ.createArgumentStruct true).map lay = createArgumentStruct f.params f.ret := by
  have hone : ∀ t, lay (G.memberType true t) = (G.param lay t).surrogate := by
    intro t
    cases hp : G.pointee t with
    | some e => simp [TypeGraph.memberType, TypeGraph.param, hp, Param.surrogate]
    | none => simp [TypeGraph.memberType, TypeGraph.param, hp, Param.surrogate]
  simp [Signature.createArgumentStruct, createArgumentStruct, hparams, hret, hone]

theorem erase_compileFunction : σ.compileFunction.erase lay = compileFunction f := by
  have hstores := erase_storeArgs G lay (.val 0) 1 0 σ.params
  have hlen := congrArg List.length hstores
  have hback := fun n => erase_storeBack G lay (.val 0) n 0 σ.params
  have hlen' := fun n => congrArg List.length (hback n)
  simp only [List.length_map] at hlen hlen'
  simp [Signature.compileFunction, compileFunction, TypedBlock.erase, TypedInstr.erase,
    hparams, hret, hstores, hlen, hback, hlen']

theorem erase_createMain : σ.createMain.erase lay = createMain f := by
  obtain ⟨hload, hargv⟩ := erase_loadArgs G lay 0 0 σ.params
  have hlen := congrArg List.length hload
  simp only [List.length_map] at hlen
  simp [Signature.createMain, createMain, TypedBlock.erase, TypedInstr.erase, hparams, hret,
    hload, hlen, hargv]

end Erase

end Wasp
