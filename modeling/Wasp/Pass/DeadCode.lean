import Mathlib.Data.List.Perm.Basic
import Wasp.Lib.Pruning

/-!
# DeadCode — stripping a module down to one virtine

`VirtineCompiler` works on a copy of the whole module. It adds
`__virtine_main` and then calls `single_dead_code_pass` until a call removes
nothing (`pass/VirtineCompiler.cpp`). A pass first collects the functions
without a use and erases them, then does the same with the globals, whose
uses have become fewer by then.

A use is a mention in the body of a function or in the initializer of a
global that is still in the module.
-/

namespace Wasp

inductive Symbol (φ γ : Type) where
  | fn (f : φ)
  | gv (g : γ)
  deriving DecidableEq, Repr

/-- The functions and globals in the order of the module, and what the body
or the initializer of each refers to. -/
structure IrModule (φ γ : Type) where
  functions : List φ
  globals : List γ
  refs : Symbol φ γ → List (Symbol φ γ)

variable {φ γ : Type}

namespace IrModule

def symbols (m : IrModule φ γ) : List (Symbol φ γ) :=
  m.functions.map .fn ++ m.globals.map .gv

@[simp] theorem fn_mem_symbols {m : IrModule φ γ} {f : φ} :
    .fn f ∈ m.symbols ↔ f ∈ m.functions := by
  simp [symbols]

@[simp] theorem gv_mem_symbols {m : IrModule φ γ} {g : γ} :
    .gv g ∈ m.symbols ↔ g ∈ m.globals := by
  simp [symbols]

variable [DecidableEq φ] [DecidableEq γ]

/-- `use_empty()`. -/
def useEmpty (m : IrModule φ γ) (x : Symbol φ γ) : Bool :=
  m.symbols.all fun y => decide (x ∉ m.refs y)

theorem useEmpty_eq_true {m : IrModule φ γ} {x : Symbol φ γ} :
    m.useEmpty x = true ↔ ∀ y ∈ m.symbols, x ∉ m.refs y := by
  simp [useEmpty]

def eraseFunctions (m : IrModule φ γ) (del : List φ) : IrModule φ γ :=
  { m with functions := m.functions.filter fun f => decide (f ∉ del) }

def eraseGlobals (m : IrModule φ γ) (del : List γ) : IrModule φ γ :=
  { m with globals := m.globals.filter fun g => decide (g ∉ del) }

/-- The functions that a pass collects: unused ones, but not the root. -/
def fndel (m : IrModule φ γ) (root : φ) : List φ :=
  m.functions.filter fun f => decide (f ≠ root) && m.useEmpty (.fn f)

def gvdel (m : IrModule φ γ) : List γ :=
  m.globals.filter fun g => m.useEmpty (.gv g)

/-- `single_dead_code_pass`: whether something was removed, and the module
after it. -/
def singleDeadCodePass (m : IrModule φ γ) (root : φ) : Bool × IrModule φ γ :=
  let m₁ := m.eraseFunctions (m.fndel root)
  (!(m.fndel root).isEmpty || !m₁.gvdel.isEmpty, m₁.eraseGlobals m₁.gvdel)

/-- `while (1) { if (single_dead_code_pass(*vmain) == false) break; }`, for
at most `fuel` passes. -/
def deadCode (root : φ) : Nat → IrModule φ γ → Option (IrModule φ γ)
  | 0, _ => none
  | fuel + 1, m =>
      let (didRemove, m') := m.singleDeadCodePass root
      if didRemove then deadCode root fuel m' else some m'

end IrModule

/-! ## One pass -/

namespace IrModule

/-- The symbols, as the nodes of the graph. -/
def nodes (m : IrModule φ γ) : Set (Symbol φ γ) := {x | x ∈ m.symbols}

/-- The edges: `y` mentions `x`. -/
def Uses (m : IrModule φ γ) (y x : Symbol φ γ) : Prop := x ∈ m.refs y

variable [DecidableEq φ] [DecidableEq γ]

theorem mem_eraseFunctions {m : IrModule φ γ} {root : φ} {x : Symbol φ γ} :
    x ∈ (m.eraseFunctions (m.fndel root)).nodes ↔
      x ∈ m.nodes ∧ ∀ f, x = .fn f → f ≠ root → m.useEmpty x = false := by
  cases x with
  | fn f =>
      show .fn f ∈ symbols _ ↔ .fn f ∈ m.symbols ∧ _
      simp only [fn_mem_symbols, eraseFunctions, fndel, List.mem_filter, decide_eq_true_eq,
        Bool.and_eq_true, Symbol.fn.injEq]
      grind
  | gv g =>
      show .gv g ∈ symbols _ ↔ .gv g ∈ m.symbols ∧ _
      simp [gv_mem_symbols, eraseFunctions]

theorem mem_eraseGlobals {m : IrModule φ γ} {x : Symbol φ γ} :
    x ∈ (m.eraseGlobals m.gvdel).nodes ↔
      x ∈ m.nodes ∧ ∀ g, x = .gv g → m.useEmpty x = false := by
  cases x with
  | fn f =>
      show .fn f ∈ symbols _ ↔ .fn f ∈ m.symbols ∧ _
      simp [fn_mem_symbols, eraseGlobals]
  | gv g =>
      show .gv g ∈ symbols _ ↔ .gv g ∈ m.symbols ∧ _
      simp only [gv_mem_symbols, eraseGlobals, gvdel, List.mem_filter, decide_eq_true_eq,
        Symbol.gv.injEq]
      grind

theorem eraseFunctions_prunes (m : IrModule φ γ) (root : φ) :
    Pruning.Prunes m.Uses (.fn root) m.nodes (m.eraseFunctions (m.fndel root)).nodes := by
  constructor
  · intro x hx
    exact (mem_eraseFunctions.mp hx).1
  · intro x hx hgone
    rw [mem_eraseFunctions] at hgone
    push Not at hgone
    obtain ⟨f, rfl, hroot, hun⟩ := hgone hx
    refine ⟨fun h => hroot (Symbol.fn.inj h), ?_⟩
    exact useEmpty_eq_true.mp (by simpa using hun)

theorem eraseGlobals_prunes (m : IrModule φ γ) (root : φ) :
    Pruning.Prunes m.Uses (.fn root) m.nodes (m.eraseGlobals m.gvdel).nodes := by
  constructor
  · intro x hx
    exact (mem_eraseGlobals.mp hx).1
  · intro x hx hgone
    rw [mem_eraseGlobals] at hgone
    push Not at hgone
    obtain ⟨g, rfl, hun⟩ := hgone hx
    refine ⟨by simp, ?_⟩
    exact useEmpty_eq_true.mp (by simpa using hun)

omit [DecidableEq γ] in
theorem eraseFunctions_nil (m : IrModule φ γ) : m.eraseFunctions [] = m := by
  simp [eraseFunctions]

omit [DecidableEq φ] in
theorem eraseGlobals_nil (m : IrModule φ γ) : m.eraseGlobals [] = m := by
  simp [eraseGlobals]

theorem exists_user_of_useEmpty {m : IrModule φ γ} {x : Symbol φ γ}
    (h : m.useEmpty x = false) : ∃ y ∈ m.nodes, m.Uses y x := by
  by_contra hno
  push Not at hno
  rw [useEmpty_eq_true.mpr hno] at h
  cases h

/-- A pass that removes nothing leaves the module, and nothing to remove. -/
theorem singleDeadCodePass_false {m m' : IrModule φ γ} {root : φ}
    (h : m.singleDeadCodePass root = (false, m')) :
    m' = m ∧ Pruning.Stuck m.Uses (.fn root) m.nodes := by
  simp only [singleDeadCodePass, Prod.mk.injEq, Bool.or_eq_false_iff, Bool.not_eq_false',
    List.isEmpty_iff] at h
  obtain ⟨⟨hfn, hgv⟩, rfl⟩ := h
  rw [hgv, eraseGlobals_nil, hfn, eraseFunctions_nil]
  rw [hfn, eraseFunctions_nil] at hgv
  refine ⟨rfl, ?_⟩
  intro x hx hroot
  apply exists_user_of_useEmpty
  cases x with
  | fn f =>
      have hin : Symbol.fn f ∈ (m.eraseFunctions (m.fndel root)).nodes := by
        rw [hfn, eraseFunctions_nil]
        exact hx
      exact (mem_eraseFunctions.mp hin).2 f rfl fun hf => hroot (congrArg Symbol.fn hf)
  | gv g =>
      have hin : Symbol.gv g ∈ (m.eraseGlobals m.gvdel).nodes := by
        rw [hgv, eraseGlobals_nil]
        exact hx
      exact (mem_eraseGlobals.mp hin).2 g rfl

omit [DecidableEq γ] in
theorem eraseFunctions_length_le (m : IrModule φ γ) (del : List φ) :
    (m.eraseFunctions del).symbols.length ≤ m.symbols.length := by
  simp [symbols, eraseFunctions, List.length_filter_le]

theorem eraseFunctions_length_lt {m : IrModule φ γ} {root : φ} (h : m.fndel root ≠ []) :
    (m.eraseFunctions (m.fndel root)).symbols.length < m.symbols.length := by
  obtain ⟨f, hf⟩ := List.exists_mem_of_ne_nil _ h
  have hlt : (m.functions.filter fun f => decide (f ∉ m.fndel root)).length <
      m.functions.length :=
    List.length_filter_lt_length_iff_exists.mpr
      ⟨f, List.mem_of_mem_filter hf, by simpa using hf⟩
  simp only [symbols, eraseFunctions, List.length_append, List.length_map]
  omega

omit [DecidableEq φ] in
theorem eraseGlobals_length_le (m : IrModule φ γ) (del : List γ) :
    (m.eraseGlobals del).symbols.length ≤ m.symbols.length := by
  simp [symbols, eraseGlobals, List.length_filter_le]

theorem eraseGlobals_length_lt {m : IrModule φ γ} (h : m.gvdel ≠ []) :
    (m.eraseGlobals m.gvdel).symbols.length < m.symbols.length := by
  obtain ⟨g, hg⟩ := List.exists_mem_of_ne_nil _ h
  have hlt : (m.globals.filter fun g => decide (g ∉ m.gvdel)).length < m.globals.length :=
    List.length_filter_lt_length_iff_exists.mpr
      ⟨g, List.mem_of_mem_filter hg, by simpa using hg⟩
  simp only [symbols, eraseGlobals, List.length_append, List.length_map]
  omega

/-- A pass that removes something leaves a smaller module. -/
theorem singleDeadCodePass_true {m m' : IrModule φ γ} {root : φ}
    (h : m.singleDeadCodePass root = (true, m')) :
    m'.symbols.length < m.symbols.length := by
  simp only [singleDeadCodePass, Prod.mk.injEq, Bool.or_eq_true, Bool.not_eq_true',
    List.isEmpty_eq_false_iff] at h
  obtain ⟨hsome, rfl⟩ := h
  have hle := m.eraseFunctions_length_le (m.fndel root)
  have hle' := (m.eraseFunctions (m.fndel root)).eraseGlobals_length_le
    (m.eraseFunctions (m.fndel root)).gvdel
  rcases hsome with hfn | hgv
  · have := eraseFunctions_length_lt hfn
    omega
  · have := eraseGlobals_length_lt hgv
    omega

/-! ## The loop -/

/-- What is left at any time: a part of the module, from which only dead
symbols are missing. -/
structure StrippedOf (root : φ) (m m' : IrModule φ γ) : Prop where
  refs : m'.refs = m.refs
  functions : m'.functions.Sublist m.functions
  globals : m'.globals.Sublist m.globals
  dead : ∀ x ∈ m.nodes, x ∉ m'.nodes → Pruning.Dead m.nodes m.Uses (.fn root) x

omit [DecidableEq φ] [DecidableEq γ] in
theorem StrippedOf.refl (root : φ) (m : IrModule φ γ) : StrippedOf root m m :=
  ⟨rfl, .refl _, .refl _, fun _ hx hno => absurd hx hno⟩

omit [DecidableEq φ] [DecidableEq γ] in
theorem StrippedOf.nodes_subset {root : φ} {m m' : IrModule φ γ} (h : StrippedOf root m m') :
    m'.nodes ⊆ m.nodes := by
  intro x hx
  cases x with
  | fn f => exact fn_mem_symbols.mpr (h.functions.subset (fn_mem_symbols.mp hx))
  | gv g => exact gv_mem_symbols.mpr (h.globals.subset (gv_mem_symbols.mp hx))

omit [DecidableEq φ] [DecidableEq γ] in
theorem StrippedOf.uses {root : φ} {m m' : IrModule φ γ} (h : StrippedOf root m m') :
    m'.Uses = m.Uses := by
  unfold Uses
  rw [h.refs]

/-- One more pass. -/
theorem StrippedOf.pass {root : φ} {m m' m'' : IrModule φ γ} {b : Bool}
    (h : StrippedOf root m m') (hp : m'.singleDeadCodePass root = (b, m'')) :
    StrippedOf root m m'' := by
  simp only [singleDeadCodePass, Prod.mk.injEq] at hp
  obtain ⟨_, rfl⟩ := hp
  have hfn := m'.eraseFunctions_prunes root
  have hgv := (m'.eraseFunctions (m'.fndel root)).eraseGlobals_prunes root
  rw [h.uses] at hfn
  rw [show (m'.eraseFunctions (m'.fndel root)).Uses = m.Uses from h.uses] at hgv
  exact ⟨h.refs, (List.filter_sublist).trans h.functions,
    (List.filter_sublist).trans h.globals, hgv.dead (hfn.dead h.dead)⟩

/-- The loop ends: each pass but the last removes a symbol. -/
theorem deadCode_ends {root : φ} {m : IrModule φ γ} {fuel : Nat} {m' : IrModule φ γ}
    (hs : StrippedOf root m m') (hfuel : m'.symbols.length < fuel) :
    ∃ m'', deadCode root fuel m' = some m'' ∧ StrippedOf root m m'' ∧
      Pruning.Stuck m''.Uses (.fn root) m''.nodes := by
  induction fuel generalizing m' with
  | zero => omega
  | succ fuel ih =>
      cases hp : m'.singleDeadCodePass root with
      | mk b m₁ =>
          have hs₁ := hs.pass hp
          cases b with
          | true =>
              have hlt := singleDeadCodePass_true hp
              simp only [deadCode, hp, if_true]
              exact ih hs₁ (by omega)
          | false =>
              obtain ⟨rfl, hstuck⟩ := singleDeadCodePass_false hp
              exact ⟨m₁, by simp [deadCode, hp], hs₁, hstuck⟩

theorem deadCode_mono {root : φ} {fuel fuel' : Nat} {m m' : IrModule φ γ}
    (h : deadCode root fuel m = some m') (hle : fuel ≤ fuel') :
    deadCode root fuel' m = some m' := by
  induction fuel generalizing m fuel' with
  | zero => cases h
  | succ fuel ih =>
      obtain ⟨k, rfl⟩ : ∃ k, fuel' = k + 1 := ⟨fuel' - 1, by omega⟩
      cases hp : m.singleDeadCodePass root with
      | mk b m₁ =>
          cases b with
          | true =>
              simp only [deadCode, hp, if_true] at h ⊢
              exact ih h (by omega)
          | false =>
              simp only [deadCode, hp] at h ⊢
              exact h

end IrModule

/-- What LLVM guarantees of a module: it refers to symbols of its own. The
root is one of its functions. -/
structure IrModule.WellFormed (m : IrModule φ γ) (root : φ) : Prop where
  root : root ∈ m.functions
  closed : ∀ y ∈ m.symbols, ∀ x ∈ m.refs y, x ∈ m.symbols

theorem IrModule.WellFormed.root_mem_nodes {m : IrModule φ γ} {root : φ}
    (h : m.WellFormed root) : .fn root ∈ m.nodes := fn_mem_symbols.mpr h.root

/-- The same module, listed in another order. -/
structure IrModule.Relisted (m m₂ : IrModule φ γ) : Prop where
  functions : m.functions.Perm m₂.functions
  globals : m.globals.Perm m₂.globals
  refs : m₂.refs = m.refs

theorem IrModule.Relisted.nodes {m m₂ : IrModule φ γ} (h : m.Relisted m₂) :
    m₂.nodes = m.nodes := by
  ext x
  cases x with
  | fn f => exact fn_mem_symbols.trans (h.functions.mem_iff.symm.trans fn_mem_symbols.symm)
  | gv g => exact gv_mem_symbols.trans (h.globals.mem_iff.symm.trans gv_mem_symbols.symm)

theorem IrModule.Relisted.uses {m m₂ : IrModule φ γ} (h : m.Relisted m₂) :
    m₂.Uses = m.Uses := by
  unfold IrModule.Uses
  rw [h.refs]

theorem IrModule.Relisted.length {m m₂ : IrModule φ γ} (h : m.Relisted m₂) :
    m.symbols.length = m₂.symbols.length := by
  simp [IrModule.symbols, h.functions.length_eq, h.globals.length_eq]

/-- What is live does not depend on the order of the lists. -/
theorem IrModule.Relisted.live_iff {m m₂ : IrModule φ γ} (h : m.Relisted m₂)
    (root x : Symbol φ γ) :
    Pruning.Live m₂.nodes m₂.Uses root x ↔ Pruning.Live m.nodes m.Uses root x := by
  rw [h.nodes, h.uses]

section

variable [DecidableEq φ] [DecidableEq γ]

open IrModule

/-- **The end of the loop**: with a pass for each symbol and one more, it has
ended, and the live symbols are left. -/
theorem IrModule.deadCode_spec (root : φ) (m : IrModule φ γ) :
    ∃ m', (∀ fuel, m.symbols.length < fuel → deadCode root fuel m = some m') ∧
      m'.refs = m.refs ∧
      ∀ x, x ∈ m'.symbols ↔ Pruning.Live m.nodes m.Uses (.fn root) x := by
  obtain ⟨m', hend, hs, hstuck⟩ :=
    deadCode_ends (StrippedOf.refl root m) (Nat.lt_succ_self m.symbols.length)
  refine ⟨m', fun fuel hf => deadCode_mono hend hf, hs.refs, ?_⟩
  rw [hs.uses] at hstuck
  exact Pruning.mem_iff_live hs.nodes_subset hs.dead hstuck

end

end Wasp
