import Wasp.Pass.Constructors
import Wasp.Pass.Toolchain

/-!
# RunOnModule — the pass over a whole module

`VirtinePass::runOnModule` (`pass/pass.cpp`) in its three phases: it collects
the functions whose section begins with `$__VIRTINE__`, compiles a guest
image for each of them from a copy of the module, and then replaces each
body by a stub that calls `wasp_run_virtine` with the image. The functions
may call one another, so it matters that no stub is installed before the
last copy has been made.

A body is whatever type `β` it has: the pass never looks into one. A module
handed to `llc` is what it defines, symbol by symbol.
-/

namespace Wasp

open Toolchain (Files Tools)

abbrev Name := List Char

/-- A global of the source, or the code of a virtine that the pass adds. -/
inductive Global where
  | named (name : Name)
  | code (f : Name)
  deriving DecidableEq, Repr

/-- `FMT(50, "__virtine_%s_code", ...)` is the name of an added one. -/
def Global.name : Global → Name
  | named name => name
  | code f => Toolchain.fmt50 ("__virtine_".toList ++ (f ++ "_code".toList))

/-- What a symbol is defined as: by the source, by `compileFunction`, by a
declaration, or by `create_main`. -/
inductive Def (β ω : Type) where
  | original (body : β)
  | stub (code : ω) (config : Option Global)
  | declared
  | main (f : Name)

def virtinePrefix : List Char := "$__VIRTINE__".toList

def cfgPrefix : List Char := "$__VIRTINE__cfg=".toList

/-- A module as clang hands it to the pass: it refers to its own symbols,
and a config section names one of its globals. -/
structure SourceModule (β : Type) where
  ir : IrModule Name Global
  sect : Name → List Char
  body : Symbol Name Global → β
  closed : ∀ y ∈ ir.symbols, ∀ x ∈ ir.refs y, x ∈ ir.symbols
  named : ∀ g ∈ ir.globals, ∃ name, g = .named name
  configured : ∀ f ∈ ir.functions, ∀ name, sect f = cfgPrefix ++ name →
    .named name ∈ ir.globals

/-- The module while the pass works on it. -/
structure HostModule (β ω : Type) where
  ir : IrModule Name Global
  sect : Name → List Char
  defs : Symbol Name Global → Def β ω

variable {β ω : Type}

/-! ## Phase 1 -/

/-- The functions in a virtine section, in the order of the module. -/
def SourceModule.virtines (m : SourceModule β) : List Name :=
  m.ir.functions.filter fun f => virtinePrefix.isPrefixOf (m.sect f)

/-- The module after `fn.setSection("")` on each of them. -/
def SourceModule.host (m : SourceModule β) : HostModule β ω where
  ir := m.ir
  sect f := if f ∈ m.virtines then [] else m.sect f
  defs x := .original (m.body x)

/-! ## Phase 2 -/

abbrev GuestTable (β ω : Type) := Symbol (Option Name) Global → Option (Def β ω)

/-- A symbol of the copy of the module, after `create_main`. -/
def HostModule.copied (m : HostModule β ω) (f : Name) : Symbol (Option Name) Global → Def β ω
  | .fn none => .main f
  | .fn (some g) => m.defs (.fn g)
  | .gv g => m.defs (.gv g)

/-- What the stripped copy `m'` of the module defines. -/
def HostModule.guestTable (m : HostModule β ω) (f : Name)
    (m' : IrModule (Option Name) Global) : GuestTable β ω := fun x =>
  if x ∈ m'.symbols then some (m.copied f x) else none

/-- The module that `VirtineCompiler` is left with for `f`, with passes
enough for its loop to end. -/
def HostModule.stripped (m : HostModule β ω) (f : Name) :
    Option (IrModule (Option Name) Global) :=
  virtineCompiler f ((m.ir.createMain f).symbols.length + 1) m.ir

/-- `getNamedGlobal`. -/
def getNamedGlobal (globals : List Global) (name : Name) : Option Global :=
  globals.find? fun g => decide (g.name = name)

/-- The name of the runtime function that the stubs call. -/
def waspRunFunc : Name := "wasp_run_virtine".toList

/-- The config operand of a stub: a null pointer for a section without one.
`none` is a section that names no global of the module, a crash. -/
def configOperand (globals : List Global) (sect : List Char) : Option (Option Global) :=
  if cfgPrefix.isPrefixOf sect then
    (getNamedGlobal globals (sect.drop cfgPrefix.length)).map some
  else some none

/-- `VirtinePass::compileFunction`: the body of `f` is replaced by a stub.
The runtime function is declared if it is not there. -/
def HostModule.compileFunction (m : HostModule β ω) (f : Name) (code : ω)
    (sect : List Char) : Option (HostModule β ω) :=
  let declares := waspRunFunc ∉ m.ir.functions
  let globals := m.ir.globals ++ [.code f]
  (configOperand globals sect).map fun config =>
    { ir :=
        { functions := if declares then m.ir.functions ++ [waspRunFunc] else m.ir.functions,
          globals := globals,
          refs := fun x =>
            if x = .fn f then
              [.fn waspRunFunc, .gv (.code f)] ++ config.toList.map .gv
            else m.ir.refs x },
      sect := fun g => if g = f then [] else m.sect g,
      defs := fun x =>
        if x = .fn f then .stub code config
        else if x = .fn waspRunFunc ∧ declares then .declared
        else m.defs x }

theorem HostModule.stripped_live (m : HostModule β ω) (f : Name) :
    ∃ m', m.stripped f = some m' ∧ ∀ x, x ∈ m'.symbols ↔
      Pruning.Live (m.ir.createMain f).nodes (m.ir.createMain f).Uses (.fn none) x := by
  obtain ⟨m', hend, -, hlive⟩ := (m.ir.createMain f).deadCode_spec none
  exact ⟨m', hend _ (Nat.lt_succ_self _), hlive⟩

namespace SourceModule

/-- What the guest of `f` is to be compiled from. -/
def guest (m : SourceModule β) (f : Name) : GuestTable β ω :=
  match (m.host : HostModule β ω).stripped f with
  | some m' => m.host.guestTable f m'
  | none => fun _ => none

/-- The guest, symbol by symbol. -/
theorem guest_live (m : SourceModule β) (f : Name) :
    ∃ m', (m.host : HostModule β ω).stripped f = some m' ∧
      (m.guest f : GuestTable β ω) = m.host.guestTable f m' ∧ ∀ x, x ∈ m'.symbols ↔
        Pruning.Live (m.ir.createMain f).nodes (m.ir.createMain f).Uses (.fn none) x := by
  obtain ⟨m', hm', hlive⟩ := (m.host : HostModule β ω).stripped_live f
  refine ⟨m', hm', ?_, hlive⟩
  rw [guest, hm']

/-- `x` can be reached from the body of `f`. -/
def Reaches (m : SourceModule β) (f : Name) (x : Symbol Name Global) : Prop :=
  Relation.ReflTransGen m.ir.Uses (.fn f) x

theorem Reaches.createMain {m : SourceModule β} {f : Name} {x : Symbol Name Global}
    (h : m.Reaches f x) :
    Relation.ReflTransGen (m.ir.createMain f).Uses (.fn none) x.lift := by
  induction h with
  | refl => exact .single List.mem_cons_self
  | @tail y z _ hu ih =>
      refine ih.tail ?_
      have hmem : z.lift ∈ (m.ir.refs y).map .lift := List.mem_map.mpr ⟨z, hu, rfl⟩
      cases y <;> exact hmem

/-- The same module, with its functions and globals in another order. -/
structure Relisted (m m₂ : SourceModule β) : Prop where
  ir : m.ir.Relisted m₂.ir
  sect : m₂.sect = m.sect
  body : m₂.body = m.body

end SourceModule

theorem IrModule.Relisted.createMain {φ γ : Type} {m m₂ : IrModule φ γ}
    (h : m.Relisted m₂) (f : φ) : (m.createMain f).Relisted (m₂.createMain f) := by
  refine ⟨(h.functions.map some).append_right [none], h.globals, ?_⟩
  unfold IrModule.createMain
  rw [h.refs]

namespace SourceModule

/-- The guest does not depend on the order. -/
theorem Relisted.guest {m m₂ : SourceModule β} (h : m.Relisted m₂) (f : Name) :
    (m₂.guest f : GuestTable β ω) = m.guest f := by
  obtain ⟨m', -, hguest, hlive⟩ := m.guest_live (ω := ω) f
  obtain ⟨m₂', -, hguest₂, hlive₂⟩ := m₂.guest_live (ω := ω) f
  rw [hguest, hguest₂]
  funext x
  have hmem : x ∈ m₂'.symbols ↔ x ∈ m'.symbols := by
    rw [hlive₂, (h.ir.createMain f).live_iff, hlive]
  have hdef : (m₂.host : HostModule β ω).copied f x = m.host.copied f x := by
    match x with
    | .fn none => rfl
    | .fn (some g) => exact congrArg Def.original (congrFun h.body _)
    | .gv g => exact congrArg Def.original (congrFun h.body _)
  simp only [HostModule.guestTable, hmem, hdef]

/-! ## The phases -/

open Toolchain (UnderTmp)

/-- The config that the section of `f` names. -/
def config (m : SourceModule β) (f : Name) : Option Global :=
  if cfgPrefix.isPrefixOf (m.sect f) then
    some (.named ((m.sect f).drop cfgPrefix.length))
  else none

/-- Whatever the pass has added, the lookup finds the global of the source. -/
theorem getNamedGlobal_eq (m : SourceModule β) {name : Name}
    (h : .named name ∈ m.ir.globals) (added : List Global) :
    getNamedGlobal (m.ir.globals ++ added) name = some (.named name) := by
  have hfound : ∃ g, m.ir.globals.find? (fun g => decide (g.name = name)) = some g := by
    rw [← Option.isSome_iff_exists, List.find?_isSome]
    exact ⟨.named name, h, by simp [Global.name]⟩
  obtain ⟨g, hg⟩ := hfound
  obtain ⟨n, rfl⟩ := m.named g (List.mem_of_find?_eq_some hg)
  have hn := List.find?_some hg
  obtain rfl : n = name := of_decide_eq_true hn
  rw [getNamedGlobal, List.find?_append, hg]
  rfl

theorem configOperand_eq {m : SourceModule β} {f : Name} (hf : f ∈ m.ir.functions)
    (added : List Global) :
    configOperand (m.ir.globals ++ added) (m.sect f) = some (m.config f) := by
  unfold configOperand config
  by_cases hp : cfgPrefix.isPrefixOf (m.sect f) = true
  · rw [if_pos hp, if_pos hp]
    obtain ⟨name, hname⟩ := List.isPrefixOf_iff_prefix.mp hp
    rw [← hname, List.drop_left]
    rw [m.getNamedGlobal_eq (m.configured f hf name hname.symm)]
    rfl
  · rw [if_neg hp, if_neg hp]

/-- `h` is the module with some stubs in place. -/
structure Becomes (m : SourceModule β) (h : HostModule β ω) : Prop where
  functions : m.ir.functions ⊆ h.ir.functions
  globals : ∃ added, h.ir.globals = m.ir.globals ++ added

/-- One stub: the body of `f` goes, and no other body of the source. -/
theorem Becomes.compileFunction {m : SourceModule β} {h : HostModule β ω} {f : Name}
    (hb : m.Becomes h) (hf : f ∈ m.ir.functions) (code : ω) :
    ∃ h', h.compileFunction f code (m.sect f) = some h' ∧ m.Becomes h' ∧
      h'.defs (.fn f) = .stub code (m.config f) ∧
      ∀ g ∈ m.ir.functions, g ≠ f → h'.defs (.fn g) = h.defs (.fn g) := by
  obtain ⟨added, hadd⟩ := hb.globals
  have hglobals : h.ir.globals ++ [.code f] = m.ir.globals ++ (added ++ [.code f]) := by
    rw [hadd, List.append_assoc]
  simp only [HostModule.compileFunction, hglobals, configOperand_eq hf, Option.map_some]
  refine ⟨_, rfl, ⟨?_, ⟨_, rfl⟩⟩, if_pos rfl, ?_⟩
  · show m.ir.functions ⊆ ite _ _ _
    split
    · exact fun g hg => List.mem_append_left _ (hb.functions hg)
    · exact hb.functions
  · intro g hg hne
    have hf' : ¬ (Symbol.fn g : Symbol Name Global) = .fn f := fun h => hne (Symbol.fn.inj h)
    have hw : ¬ ((Symbol.fn g : Symbol Name Global) = .fn waspRunFunc ∧
        waspRunFunc ∉ h.ir.functions) := by
      rintro ⟨heq, hno⟩
      exact hno (Symbol.fn.inj heq ▸ hb.functions hg)
    show ite _ _ (ite _ _ _) = _
    rw [if_neg hf', if_neg hw]

end SourceModule

/-! ## Names that do not fit -/

namespace SourceModule

end SourceModule

end Wasp
