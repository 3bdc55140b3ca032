import Mathlib.Data.Finset.Sort
import Wasp.Pass.Types

/-!
# TypeFinder — the types that `run_analysis` looks at

`run_analysis` of `pass/VirtineCompiler.cpp` asks for the widest integer
type of a module. The types are collected by a `TypeFinder`:
`incorporateType` follows the contained types of one type with a worklist,
`incorporate_value` and `incorporateMDNode` follow the operands of constants
and of metadata, which may be cyclic, and `on_module` walks over what the
module declares.

* The loop of `incorporateType` takes each type off the worklist at most
  once, and the recursion goes below a constant or a node of metadata only
  when it is new: `drain` and `incorporateValue` are given that much fuel,
  and `none` would say that it was not enough.
* `Exact` is what every call keeps: the visited types are those reached
  from the types given so far.
-/

namespace Wasp

/-! ## The operands of a module -/

inductive Metadata (Const Md : Type) where
  | node (n : Md)
  /-- `ConstantAsMetadata` -/
  | constant (c : Const)
  /-- `LocalAsMetadata`, of an argument or an instruction -/
  | localValue
  | string

inductive IrValue (Const Md : Type) where
  | constant (c : Const)
  /-- `MetadataAsValue` -/
  | metadata (m : Metadata Const Md)
  | instruction
  /-- An argument, a basic block or inline assembly. -/
  | other

/-- What a constant is: a `GlobalValue`, or its type and operands. -/
inductive ConstNode (Ty Const Md : Type) where
  | global
  | data (type : Ty) (operands : List (IrValue Const Md))

/-- The types, constants and metadata of a module. -/
structure IrGraph (Ty Const Md : Type) extends TypeGraph Ty where
  const : Const → ConstNode Ty Const Md
  mdOperands : Md → List (Option (Metadata Const Md))

/-- A global variable with its initializer, or an alias with its aliasee. -/
structure TypedGlobal (Ty Const : Type) where
  type : Ty
  value : Option Const

structure TypedInst (Ty Const Md : Type) where
  type : Ty
  operands : List (Option (IrValue Const Md))

structure TypedFunction (Ty Const Md : Type) where
  type : Ty
  operands : List (IrValue Const Md)
  args : List (IrValue Const Md)
  blocks : List (List (TypedInst Ty Const Md))

structure TypedModule (Ty Const Md : Type) where
  globals : List (TypedGlobal Ty Const)
  aliases : List (TypedGlobal Ty Const)
  functions : List (TypedFunction Ty Const Md)

variable {Ty Const Md : Type}

def TypedFunction.types (f : TypedFunction Ty Const Md) : List Ty :=
  f.type :: f.blocks.flatMap fun b => b.flatMap fun i => [i.type]

/-- The types of what the module declares. -/
def TypedModule.types (m : TypedModule Ty Const Md) : List Ty :=
  (m.globals.flatMap fun g => [g.type]) ++ ((m.aliases.flatMap fun a => [a.type]) ++
    m.functions.flatMap TypedFunction.types)

/-! ## The class -/

structure TypeFinder (Ty Const Md : Type) where
  visitedConstants : Finset Const := ∅
  visitedMetadata : Finset Md := ∅
  visitedTypes : Finset Ty := ∅
  structTypes : List Ty := []
  /-- The types given to `incorporateType` so far: a history variable. -/
  given : List Ty := []

namespace TypeFinder

section Types

variable [DecidableEq Ty]

/-- The loop of `incorporateType`, which ends when a turn leaves nothing to
do. It is not entered with an empty worklist. -/
def drain (G : TypeGraph Ty) :
    Nat → Worklist.Search Ty → List Ty → Option (Finset Ty × List Ty)
  | 0, _, _ => none
  | n + 1, s, structTypes =>
      match s.work with
      | [] => none
      | ty :: work =>
          let structTypes :=
            if (G.node ty).isNamedStruct then structTypes ++ [ty] else structTypes
          let s := Worklist.Search.offerAll { seen := s.seen, work := work }
            (G.subtypes ty).reverse
          if s.work.isEmpty then some (s.seen, structTypes) else drain G n s structTypes

variable [Fintype Ty]

def incorporateType (G : TypeGraph Ty) (tf : TypeFinder Ty Const Md) (ty : Ty) :
    Option (TypeFinder Ty Const Md) :=
  let tf := { tf with given := ty :: tf.given }
  if ty ∈ tf.visitedTypes then some tf
  else
    let start := { seen := insert ty tf.visitedTypes, work := [ty] }
    (drain G (Fintype.card Ty) start tf.structTypes).map fun r =>
      { tf with visitedTypes := r.1, structTypes := r.2 }

/-- A sequence of calls on one finder. -/
def incorporateTypes (G : TypeGraph Ty) (tf : TypeFinder Ty Const Md) (tys : List Ty) :
    Option (TypeFinder Ty Const Md) :=
  tys.foldlM (incorporateType G) tf

end Types

section Values

def visitMetadata [DecidableEq Md] (tf : TypeFinder Ty Const Md) (n : Md) :
    TypeFinder Ty Const Md :=
  { tf with visitedMetadata := insert n tf.visitedMetadata }

def visitConstant [DecidableEq Const] (tf : TypeFinder Ty Const Md) (c : Const) :
    TypeFinder Ty Const Md :=
  { tf with visitedConstants := insert c tf.visitedConstants }

variable [DecidableEq Ty] [Fintype Ty] [DecidableEq Const] [DecidableEq Md]

mutual

def incorporateMDNode (G : IrGraph Ty Const Md) :
    Nat → TypeFinder Ty Const Md → Md → Option (TypeFinder Ty Const Md)
  | 0, _, _ => none
  | fuel + 1, tf, n =>
      if n ∈ tf.visitedMetadata then some tf
      else
        (G.mdOperands n).foldlM (fun tf op =>
          match op with
          | some (.node m) => incorporateMDNode G fuel tf m
          | some (.constant c) => incorporateValue G fuel tf (.constant c)
          | _ => some tf) (tf.visitMetadata n)

def incorporateValue (G : IrGraph Ty Const Md) :
    Nat → TypeFinder Ty Const Md → IrValue Const Md → Option (TypeFinder Ty Const Md)
  | 0, _, _ => none
  | fuel + 1, tf, v =>
      match v with
      | .metadata (.node n) => incorporateMDNode G fuel tf n
      | .metadata (.constant c) => incorporateValue G fuel tf (.constant c)
      | .constant c =>
          match G.const c with
          | .global => some tf
          | .data ty operands =>
              if c ∈ tf.visitedConstants then some tf
              else
                (incorporateType G.toTypeGraph (tf.visitConstant c) ty).bind fun tf =>
                  operands.foldlM (incorporateValue G fuel) tf
      -- the value of a `LocalAsMetadata` is not a constant either
      | _ => some tf

end

variable [Fintype Const] [Fintype Md]

/-- `incorporate_value` as `on_module` calls it. Below a new constant or
node the recursion is two calls deep at most before the next one. -/
def incorporate (G : IrGraph Ty Const Md) (tf : TypeFinder Ty Const Md)
    (v : IrValue Const Md) : Option (TypeFinder Ty Const Md) :=
  incorporateValue G (2 * (Fintype.card Const + Fintype.card Md) + 2) tf v

/-- The body of the loops over the global variables and over the aliases. -/
def onGlobal (G : IrGraph Ty Const Md) (tf : TypeFinder Ty Const Md)
    (g : TypedGlobal Ty Const) : Option (TypeFinder Ty Const Md) :=
  (incorporateType G.toTypeGraph tf g.type).bind fun tf =>
    match g.value with
    | some c => incorporate G tf (.constant c)
    | none => some tf

def onOperand (G : IrGraph Ty Const Md) (tf : TypeFinder Ty Const Md) :
    Option (IrValue Const Md) → Option (TypeFinder Ty Const Md)
  | none | some .instruction => some tf
  | some v => incorporate G tf v

def onInst (G : IrGraph Ty Const Md) (tf : TypeFinder Ty Const Md)
    (i : TypedInst Ty Const Md) : Option (TypeFinder Ty Const Md) :=
  (incorporateType G.toTypeGraph tf i.type).bind fun tf => i.operands.foldlM (onOperand G) tf

def onBlock (G : IrGraph Ty Const Md) (tf : TypeFinder Ty Const Md)
    (b : List (TypedInst Ty Const Md)) : Option (TypeFinder Ty Const Md) :=
  b.foldlM (onInst G) tf

def onFunction (G : IrGraph Ty Const Md) (tf : TypeFinder Ty Const Md)
    (f : TypedFunction Ty Const Md) : Option (TypeFinder Ty Const Md) :=
  (incorporateType G.toTypeGraph tf f.type).bind fun tf =>
    (f.operands.foldlM (incorporate G) tf).bind fun tf =>
      (f.args.foldlM (incorporate G) tf).bind fun tf => f.blocks.foldlM (onBlock G) tf

def onModule (G : IrGraph Ty Const Md) (m : TypedModule Ty Const Md) :
    Option (TypeFinder Ty Const Md) :=
  (m.globals.foldlM (onGlobal G) {}).bind fun tf =>
    (m.aliases.foldlM (onGlobal G) tf).bind fun tf => m.functions.foldlM (onFunction G) tf

end Values

/-! ## The visited types are those reached from the given ones -/

/-- Nothing waits, and the types given are the roots. -/
def Exact (G : TypeGraph Ty) (tf : TypeFinder Ty Const Md) : Prop :=
  Worklist.Inv G.subtypes {t | t ∈ tf.given} { seen := tf.visitedTypes, work := [] }

theorem Exact.mem_iff {G : TypeGraph Ty} {tf : TypeFinder Ty Const Md} (h : tf.Exact G)
    (t : Ty) : t ∈ tf.visitedTypes ↔ ∃ g ∈ tf.given, G.Reaches g t :=
  Worklist.Inv.mem_iff h t

theorem exact_empty (G : TypeGraph Ty) : Exact G ({} : TypeFinder Ty Const Md) := by
  simpa [Exact] using Worklist.Inv.empty

section Types

variable [DecidableEq Ty] [Fintype Ty]

/-- The loop ends, with nothing waiting, in at most `capacity s` turns. -/
theorem drain_spec {G : TypeGraph Ty} {roots : Set Ty} (n : Nat) (s : Worklist.Search Ty)
    (structTypes : List Ty) (hinv : Worklist.Inv G.subtypes roots s) (hwork : s.work ≠ [])
    (hfuel : Worklist.capacity s ≤ n) :
    ∃ r, drain G n s structTypes = some r ∧
      Worklist.Inv G.subtypes roots { seen := r.1, work := [] } := by
  induction n generalizing s structTypes with
  | zero =>
      have hpos := List.length_pos_of_ne_nil hwork
      simp only [Worklist.capacity] at hfuel
      omega
  | succ n ih =>
      obtain ⟨seen, work⟩ := s
      cases work with
      | nil => exact absurd rfl hwork
      | cons ty work =>
          have hturn : Worklist.Inv G.subtypes roots (Worklist.Search.offerAll
              { seen := seen, work := work } (G.subtypes ty).reverse) :=
            hinv.turn fun b => List.mem_reverse
          have hcap := Worklist.capacity_turn seen ty work (G.subtypes ty).reverse
          simp only [drain]
          generalize Worklist.Search.offerAll { seen := seen, work := work }
            (G.subtypes ty).reverse = s' at hturn hcap ⊢
          obtain ⟨seen', work'⟩ := s'
          cases work' with
          | nil => exact ⟨_, rfl, hturn⟩
          | cons t work' => exact ih _ _ hturn (List.cons_ne_nil t work') (by omega)

theorem incorporateType_spec {G : TypeGraph Ty} {tf : TypeFinder Ty Const Md}
    (h : tf.Exact G) (ty : Ty) :
    ∃ tf', incorporateType G tf ty = some tf' ∧ tf'.Exact G ∧ tf'.given = ty :: tf.given ∧
      tf'.visitedConstants = tf.visitedConstants ∧
      tf'.visitedMetadata = tf.visitedMetadata := by
  have hroots : {t | t ∈ ty :: tf.given} = insert ty {t | t ∈ tf.given} := by
    ext t
    simp
  have hoffer := Worklist.Inv.offer h ty
  rw [← hroots] at hoffer
  by_cases hty : ty ∈ tf.visitedTypes
  · rw [Worklist.Search.offer_of_mem hty] at hoffer
    exact ⟨{ tf with given := ty :: tf.given }, by simp [incorporateType, hty], hoffer,
      rfl, rfl, rfl⟩
  · have hcap := Worklist.capacity_offer { seen := tf.visitedTypes, work := [] } ty
    rw [Worklist.Search.offer_of_not_mem hty] at hoffer hcap
    obtain ⟨r, hr, hinv⟩ := drain_spec (Fintype.card Ty) _ tf.structTypes hoffer
      (List.cons_ne_nil ty []) (hcap.trans_le (Worklist.capacity_start tf.visitedTypes))
    exact ⟨{ tf with given := ty :: tf.given, visitedTypes := r.1, structTypes := r.2 },
      by simp [incorporateType, hty, hr], hinv, rfl, rfl, rfl⟩

end Types

/-! ## The walk over the operands -/

/-- Nothing given or visited is lost. -/
structure Grows (tf tf' : TypeFinder Ty Const Md) : Prop where
  given : tf.given ⊆ tf'.given
  constants : tf.visitedConstants ⊆ tf'.visitedConstants
  metadata : tf.visitedMetadata ⊆ tf'.visitedMetadata

theorem Grows.refl (tf : TypeFinder Ty Const Md) : tf.Grows tf :=
  ⟨List.Subset.refl _, Finset.Subset.refl _, Finset.Subset.refl _⟩

theorem Grows.trans {tf tf' tf'' : TypeFinder Ty Const Md} (h : tf.Grows tf')
    (h' : tf'.Grows tf'') : tf.Grows tf'' :=
  ⟨List.Subset.trans h.given h'.given, Finset.Subset.trans h.constants h'.constants,
    Finset.Subset.trans h.metadata h'.metadata⟩

theorem grows_visitMetadata [DecidableEq Md] (tf : TypeFinder Ty Const Md) (n : Md) :
    tf.Grows (tf.visitMetadata n) :=
  ⟨List.Subset.refl _, Finset.Subset.refl _, Finset.subset_insert n _⟩

theorem grows_visitConstant [DecidableEq Const] (tf : TypeFinder Ty Const Md) (c : Const) :
    tf.Grows (tf.visitConstant c) :=
  ⟨List.Subset.refl _, Finset.subset_insert c _, Finset.Subset.refl _⟩

theorem Exact.visitMetadata [DecidableEq Md] {G : TypeGraph Ty}
    {tf : TypeFinder Ty Const Md} (h : tf.Exact G) (n : Md) : (tf.visitMetadata n).Exact G :=
  h

theorem Exact.visitConstant [DecidableEq Const] {G : TypeGraph Ty}
    {tf : TypeFinder Ty Const Md} (h : tf.Exact G) (c : Const) :
    (tf.visitConstant c).Exact G :=
  h

/-- The call ends, with the types `ts` among those given. -/
def Gives (G : TypeGraph Ty) (ts : List Ty) (tf : TypeFinder Ty Const Md)
    (r : Option (TypeFinder Ty Const Md)) : Prop :=
  ∃ tf', r = some tf' ∧ tf'.Exact G ∧ tf.Grows tf' ∧ ts ⊆ tf'.given

namespace Gives

variable {G : TypeGraph Ty} {ts us : List Ty} {tf tf' : TypeFinder Ty Const Md}
  {r : Option (TypeFinder Ty Const Md)}

theorem done (h : tf.Exact G) : Gives G [] tf (some tf) :=
  ⟨tf, rfl, h, .refl tf, List.nil_subset _⟩

theorem after (h : Gives G ts tf' r) (hg : tf.Grows tf') : Gives G ts tf r := by
  obtain ⟨tf'', hr, hex, hg', hts⟩ := h
  exact ⟨tf'', hr, hex, hg.trans hg', hts⟩

theorem bind {f : TypeFinder Ty Const Md → Option (TypeFinder Ty Const Md)}
    (h : Gives G ts tf r)
    (hf : ∀ tf', tf'.Exact G → tf.Grows tf' → Gives G us tf' (f tf')) :
    Gives G (ts ++ us) tf (r.bind f) := by
  obtain ⟨tf', rfl, hex, hg, hts⟩ := h
  obtain ⟨tf'', hr, hex', hg', hus⟩ := hf tf' hex hg
  exact ⟨tf'', hr, hex', hg.trans hg',
    List.append_subset.mpr ⟨List.Subset.trans hts hg'.given, hus⟩⟩

theorem foldlM {α : Type} {f : TypeFinder Ty Const Md → α → Option (TypeFinder Ty Const Md)}
    {types : α → List Ty} (as : List α) (h : tf.Exact G)
    (hf : ∀ a ∈ as, ∀ tf', tf'.Exact G → tf.Grows tf' → Gives G (types a) tf' (f tf' a)) :
    Gives G (as.flatMap types) tf (as.foldlM f tf) := by
  induction as generalizing tf with
  | nil => exact .done h
  | cons a as ih =>
      have ha := hf a List.mem_cons_self tf h (.refl tf)
      rw [List.flatMap_cons, List.foldlM_cons]
      apply ha.bind
      intro tf' hex hg
      apply ih hex
      intro b hb tf'' hex' hg'
      exact hf b (List.mem_cons_of_mem a hb) tf'' hex' (hg.trans hg')

theorem nil_of (h : Gives G ts tf r) : Gives G [] tf r := by
  obtain ⟨tf', hr, hex, hg, _⟩ := h
  exact ⟨tf', hr, hex, hg, List.nil_subset _⟩

theorem nil_foldlM {α : Type}
    {f : TypeFinder Ty Const Md → α → Option (TypeFinder Ty Const Md)} (as : List α)
    (h : tf.Exact G)
    (hf : ∀ a ∈ as, ∀ tf', tf'.Exact G → tf.Grows tf' → Gives G [] tf' (f tf' a)) :
    Gives G [] tf (as.foldlM f tf) :=
  (Gives.foldlM as h hf).nil_of

end Gives

section Types

variable [DecidableEq Ty] [Fintype Ty]

theorem gives_incorporateType {G : TypeGraph Ty} {tf : TypeFinder Ty Const Md}
    (h : tf.Exact G) (ty : Ty) : Gives G [ty] tf (incorporateType G tf ty) := by
  obtain ⟨tf', hr, hex, hgiven, hconst, hmd⟩ := incorporateType_spec h ty
  exact ⟨tf', hr, hex, ⟨by simp [hgiven], by rw [hconst], by rw [hmd]⟩, by simp [hgiven]⟩

theorem incorporateTypes_spec {G : TypeGraph Ty} (tys : List Ty)
    {tf : TypeFinder Ty Const Md} (h : tf.Exact G) :
    ∃ tf', incorporateTypes G tf tys = some tf' ∧ tf'.Exact G ∧
      ∀ t, t ∈ tf'.given ↔ t ∈ tf.given ∨ t ∈ tys := by
  induction tys generalizing tf with
  | nil => exact ⟨tf, rfl, h, by simp⟩
  | cons ty tys ih =>
      obtain ⟨tf₁, hr₁, hex₁, hgiven, -⟩ := incorporateType_spec h ty
      obtain ⟨tf₂, hr₂, hex₂, hmem⟩ := ih hex₁
      have hr : incorporateTypes G tf (ty :: tys) = some tf₂ := by
        simpa [incorporateTypes, hr₁] using hr₂
      refine ⟨tf₂, hr, hex₂, fun t => ?_⟩
      rw [hmem, hgiven, List.mem_cons, List.mem_cons, or_assoc, or_left_comm]

/-- `struct node { int v; struct node *next; }`, and a type it does not contain. -/
def nodeTypes : TypeGraph (Fin 4) where
  node t :=
    match t with
    | 0 => .struct (some "node") (some [1, 2])
    | 1 => .integer i32
    | 2 => .pointer 0
    | 3 => .void

example : (incorporateTypes nodeTypes ({} : TypeFinder (Fin 4) Empty Empty) [2]).map
    (fun tf => (tf.visitedTypes, tf.structTypes)) = some ({0, 1, 2}, [0]) := by
  decide

end Types

section Values

variable [DecidableEq Const] [Fintype Const] [DecidableEq Md] [Fintype Md]
  {G : IrGraph Ty Const Md} {tf tf' : TypeFinder Ty Const Md}

/-- The constants and nodes below which the walk has not been. -/
def remaining (tf : TypeFinder Ty Const Md) : Nat :=
  tf.visitedConstantsᶜ.card + tf.visitedMetadataᶜ.card

theorem Grows.remaining_le (h : tf.Grows tf') : tf'.remaining ≤ tf.remaining :=
  Nat.add_le_add (Finset.card_le_card (Finset.compl_subset_compl.mpr h.constants))
    (Finset.card_le_card (Finset.compl_subset_compl.mpr h.metadata))

theorem remaining_visitMetadata {n : Md} (h : n ∉ tf.visitedMetadata) :
    (tf.visitMetadata n).remaining + 1 = tf.remaining := by
  have hcard := Finset.card_erase_add_one (Finset.mem_compl.mpr h)
  simp only [remaining, visitMetadata, Finset.compl_insert]
  omega

theorem remaining_visitConstant {c : Const} (h : c ∉ tf.visitedConstants) :
    (tf.visitConstant c).remaining + 1 = tf.remaining := by
  have hcard := Finset.card_erase_add_one (Finset.mem_compl.mpr h)
  simp only [remaining, visitConstant, Finset.compl_insert]
  omega

variable [DecidableEq Ty] [Fintype Ty]

/-- With `fuel` calls the walk ends, whatever there is below. -/
structure Walks (G : IrGraph Ty Const Md) (fuel : Nat) : Prop where
  mdNode : ∀ (tf : TypeFinder Ty Const Md) n, tf.Exact G.toTypeGraph →
    2 * tf.remaining + 1 ≤ fuel → Gives G.toTypeGraph [] tf (incorporateMDNode G fuel tf n)
  constant : ∀ (tf : TypeFinder Ty Const Md) c, tf.Exact G.toTypeGraph →
    2 * tf.remaining + 1 ≤ fuel →
      Gives G.toTypeGraph [] tf (incorporateValue G fuel tf (.constant c))
  value : ∀ (tf : TypeFinder Ty Const Md) v, tf.Exact G.toTypeGraph →
    2 * tf.remaining + 2 ≤ fuel → Gives G.toTypeGraph [] tf (incorporateValue G fuel tf v)

theorem Walks.mdNode_succ {fuel : Nat} (ih : Walks G fuel) (n : Md)
    (h : tf.Exact G.toTypeGraph) (hfuel : 2 * tf.remaining + 1 ≤ fuel + 1) :
    Gives G.toTypeGraph [] tf (incorporateMDNode G (fuel + 1) tf n) := by
  simp only [incorporateMDNode]
  by_cases hn : n ∈ tf.visitedMetadata
  · rw [if_pos hn]
    exact .done h
  · rw [if_neg hn]
    have hrem := remaining_visitMetadata hn
    apply Gives.after _ (grows_visitMetadata tf n)
    apply Gives.nil_foldlM _ (h.visitMetadata n)
    intro op _ tf' hex hg
    have hle := hg.remaining_le
    match op with
    | some (.node m) => exact ih.mdNode tf' m hex (by omega)
    | some (.constant c) => exact ih.constant tf' c hex (by omega)
    | some .localValue | some .string | none => exact .done hex

theorem Walks.constant_succ {fuel : Nat} (ih : Walks G fuel) (c : Const)
    (h : tf.Exact G.toTypeGraph) (hfuel : 2 * tf.remaining + 1 ≤ fuel + 1) :
    Gives G.toTypeGraph [] tf (incorporateValue G (fuel + 1) tf (.constant c)) := by
  simp only [incorporateValue]
  split
  · exact .done h
  · rename_i ty operands _
    by_cases hc : c ∈ tf.visitedConstants
    · rw [if_pos hc]
      exact .done h
    · rw [if_neg hc]
      have hrem := remaining_visitConstant hc
      apply Gives.after _ (grows_visitConstant tf c)
      apply Gives.nil_of
      apply (gives_incorporateType (h.visitConstant c) ty).bind
      intro tf' hex hg
      apply Gives.nil_foldlM operands hex
      intro v _ tf'' hex' hg'
      have hle := (hg.trans hg').remaining_le
      exact ih.value tf'' v hex' (by omega)

theorem Walks.value_succ {fuel : Nat} (ih : Walks G fuel) (v : IrValue Const Md)
    (h : tf.Exact G.toTypeGraph) (hfuel : 2 * tf.remaining + 2 ≤ fuel + 1) :
    Gives G.toTypeGraph [] tf (incorporateValue G (fuel + 1) tf v) := by
  match v with
  | .constant c => exact ih.constant_succ c h (by omega)
  | .metadata (.node n) =>
      simp only [incorporateValue]
      exact ih.mdNode tf n h (by omega)
  | .metadata (.constant c) =>
      simp only [incorporateValue]
      exact ih.constant tf c h (by omega)
  | .metadata .localValue | .metadata .string | .instruction | .other =>
      simp only [incorporateValue]
      exact .done h

theorem walks (G : IrGraph Ty Const Md) (fuel : Nat) : Walks G fuel := by
  induction fuel with
  | zero =>
      exact ⟨fun tf n _ h => by omega, fun tf c _ h => by omega, fun tf v _ h => by omega⟩
  | succ fuel ih =>
      exact ⟨fun tf n h hfuel => ih.mdNode_succ n h hfuel,
        fun tf c h hfuel => ih.constant_succ c h hfuel,
        fun tf v h hfuel => ih.value_succ v h hfuel⟩

theorem gives_incorporate (h : tf.Exact G.toTypeGraph) (v : IrValue Const Md) :
    Gives G.toTypeGraph [] tf (incorporate G tf v) := by
  apply (walks G _).value tf v h
  have hconst := tf.visitedConstantsᶜ.card_le_univ
  have hmd := tf.visitedMetadataᶜ.card_le_univ
  simp only [remaining]
  omega

/-! ## The walk over the module -/

theorem gives_onGlobal (h : tf.Exact G.toTypeGraph) (g : TypedGlobal Ty Const) :
    Gives G.toTypeGraph [g.type] tf (onGlobal G tf g) := by
  apply (gives_incorporateType h g.type).bind
  intro tf' hex _
  split
  · exact gives_incorporate hex _
  · exact .done hex

theorem gives_onOperand (h : tf.Exact G.toTypeGraph) (op : Option (IrValue Const Md)) :
    Gives G.toTypeGraph [] tf (onOperand G tf op) := by
  fun_cases onOperand
  · exact .done h
  · exact .done h
  · exact gives_incorporate h _

theorem gives_onInst (h : tf.Exact G.toTypeGraph) (i : TypedInst Ty Const Md) :
    Gives G.toTypeGraph [i.type] tf (onInst G tf i) := by
  apply (gives_incorporateType h i.type).bind
  intro tf' hex _
  exact Gives.nil_foldlM i.operands hex fun op _ tf'' hex' _ => gives_onOperand hex' op

theorem gives_onFunction (h : tf.Exact G.toTypeGraph) (f : TypedFunction Ty Const Md) :
    Gives G.toTypeGraph f.types tf (onFunction G tf f) := by
  apply (gives_incorporateType h f.type).bind
  intro tf₁ hex₁ _
  apply (Gives.nil_foldlM f.operands hex₁ fun v _ tf' hex _ => gives_incorporate hex v).bind
  intro tf₂ hex₂ _
  apply (Gives.nil_foldlM f.args hex₂ fun v _ tf' hex _ => gives_incorporate hex v).bind
  intro tf₃ hex₃ _
  apply Gives.foldlM f.blocks hex₃
  intro b _ tf₄ hex₄ _
  exact Gives.foldlM b hex₄ fun i _ tf' hex _ => gives_onInst hex i

/-- `on_module` ends; it has given the type of everything the module
declares, and what it has visited is what these and the constants reach. -/
theorem gives_onModule (G : IrGraph Ty Const Md) (m : TypedModule Ty Const Md) :
    Gives G.toTypeGraph m.types {} (onModule G m) := by
  apply (Gives.foldlM m.globals (exact_empty _) fun g _ tf' hex _ => gives_onGlobal hex g).bind
  intro tf₁ hex₁ _
  apply (Gives.foldlM m.aliases hex₁ fun a _ tf' hex _ => gives_onGlobal hex a).bind
  intro tf₂ hex₂ _
  exact Gives.foldlM m.functions hex₂ fun f _ tf' hex _ => gives_onFunction hex f

end Values

end TypeFinder

end Wasp
