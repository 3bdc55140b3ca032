import Mathlib.Data.Set.Finite.List
import Wasp.Pass.DeadCode

/-!
# Constructors — the entry points the stripping does not know

`boot64.asm` calls `__libc_init_array` before it takes the snapshot, and
`__libc_init_array` runs what `link64.ld` gathers between
`__init_array_start` and `__init_array_end`: the entries of the module's
`llvm.global_ctors`. So the guest starts in `__virtine_main` and in every
entry of that table.

The constructor of `VirtineCompiler` strips from `__virtine_main` alone. The
table is a global like any other to `single_dead_code_pass`, and in a module
that the LLVM verifier accepts nothing uses it.
-/

namespace Wasp

variable {φ γ : Type}

def Symbol.lift : Symbol φ γ → Symbol (Option φ) γ
  | .fn f => .fn (some f)
  | .gv g => .gv g

/-- `create_main` on the copy of the module: one function more, at the end,
which calls `f`. It is new, so it is `none` here. -/
def IrModule.createMain (m : IrModule φ γ) (f : φ) : IrModule (Option φ) γ where
  functions := m.functions.map some ++ [none]
  globals := m.globals
  refs
    | .fn none => [.fn (some f)]
    | .fn (some g) => (m.refs (.fn g)).map .lift
    | .gv g => (m.refs (.gv g)).map .lift

/-- The module that the constructor of `VirtineCompiler` leaves in `m_mod`. -/
def virtineCompiler [DecidableEq φ] [DecidableEq γ] (f : φ) (fuel : Nat)
    (m : IrModule φ γ) : Option (IrModule (Option φ) γ) :=
  (m.createMain f).deadCode none fuel

namespace IrModule

theorem lift_mem_createMain {m : IrModule φ γ} {f : φ} {x : Symbol φ γ} :
    x.lift ∈ (m.createMain f).symbols ↔ x ∈ m.symbols := by
  cases x <;> simp [Symbol.lift, createMain]

/-- A mention after `create_main` is the new call of `f` or one that was
there before. -/
theorem createMain_refs {m : IrModule φ γ} {f : φ} {x y : Symbol (Option φ) γ}
    (hy : y ∈ (m.createMain f).symbols) (hx : x ∈ (m.createMain f).refs y) :
    x = .fn (some f) ∨ ∃ s ∈ m.symbols, ∃ t ∈ m.refs s, x = t.lift := by
  have key : ∀ s : Symbol φ γ, s ∈ m.symbols → x ∈ (m.refs s).map .lift →
      ∃ s ∈ m.symbols, ∃ t ∈ m.refs s, x = t.lift := by
    intro s hs hx
    obtain ⟨t, ht, rfl⟩ := List.mem_map.mp hx
    exact ⟨s, hs, t, ht, rfl⟩
  match y with
  | .fn none => exact .inl (List.mem_singleton.mp hx)
  | .fn (some g) => exact .inr (key (.fn g) (lift_mem_createMain.mp hy) hx)
  | .gv g => exact .inr (key (.gv g) (lift_mem_createMain.mp hy) hx)

theorem WellFormed.createMain {m : IrModule φ γ} {f : φ} (h : m.WellFormed f) :
    (m.createMain f).WellFormed none := by
  constructor
  · simp [IrModule.createMain]
  · intro y hy x hx
    rcases createMain_refs hy hx with rfl | ⟨s, hs, t, ht, rfl⟩
    · simpa [IrModule.createMain] using h.root
    · exact lift_mem_createMain.mpr (h.closed s hs t ht)

theorem nodes_finite (m : IrModule φ γ) : m.nodes.Finite := m.symbols.finite_toSet

/-! ## What the guest runs -/

/-- `c` is an entry of the table `ctors`. -/
def Registered (m : IrModule φ γ) (ctors : γ) (c : φ) : Prop :=
  ctors ∈ m.globals ∧ .fn c ∈ m.refs (.gv ctors)

/-- The guest can come to `g` from its boot code. -/
def Executes (m : IrModule φ γ) (root : φ) (ctors : γ) (g : φ) : Prop :=
  Relation.ReflTransGen m.Uses (.fn root) (.fn g) ∨
    ∃ c, m.Registered ctors c ∧ Relation.ReflTransGen m.Uses (.fn c) (.fn g)

/-- `m'` has all that the guest runs of `m`, and its constructors. -/
structure KeepsGuest (m m' : IrModule φ γ) (root : φ) (ctors : γ) : Prop where
  executes : ∀ g, m.Executes root ctors g → g ∈ m'.functions
  registered : ∀ c, m.Registered ctors c → m'.Registered ctors c

theorem registered_createMain {m : IrModule φ γ} {f : φ} {ctors : γ} :
    (∃ c, (m.createMain f).Registered ctors c) ↔ ∃ c, m.Registered ctors c := by
  constructor
  · rintro ⟨c, hin, hc⟩
    obtain ⟨s, hs, hl⟩ := List.mem_map.mp hc
    cases s with
    | fn g => exact ⟨g, hin, hs⟩
    | gv g => cases hl
  · rintro ⟨c, hin, hc⟩
    exact ⟨some c, hin, List.mem_map.mpr ⟨.fn c, hc, rfl⟩⟩

theorem unused_createMain {m : IrModule φ γ} {f : φ} {g : γ}
    (h : ∀ y ∈ m.symbols, .gv g ∉ m.refs y) :
    ∀ y ∈ (m.createMain f).symbols, .gv g ∉ (m.createMain f).refs y := by
  intro y hy hx
  rcases createMain_refs hy hx with hmain | ⟨s, hs, t, ht, hl⟩
  · cases hmain
  · cases t with
    | fn g => cases hl
    | gv g =>
        cases hl
        exact h s hs ht

/-- Nothing holds a global that nothing uses. -/
theorem not_held_of_unused {m : IrModule φ γ} {root : φ} {g : γ} (hm : m.WellFormed root)
    (hun : ∀ y ∈ m.symbols, .gv g ∉ m.refs y) :
    ¬ Pruning.Held m.nodes m.Uses (.fn root) (.gv g) := by
  rintro ⟨y, hy, hreach, hend⟩
  have hlast : ∀ z, Relation.ReflTransGen m.Uses y z → ¬ m.Uses z (.gv g) := by
    intro z hz
    have hzn : z ∈ m.nodes := Pruning.reaches_mem hm.closed hy hz
    exact hun z hzn
  rcases Relation.ReflTransGen.cases_tail hreach with heq | ⟨z, hz, hu⟩
  · subst heq
    rcases hend with hroot | hcyc
    · cases hroot
    · obtain ⟨z, hz, hu⟩ := Relation.TransGen.tail'_iff.mp hcyc
      exact hlast z hz hu
  · exact hlast z hz hu

/-- **The guest after stripping**: it is kept as soon as the table is, and
the table only matters if it has an entry. -/
theorem KeepsGuest.iff_held {m m' : IrModule φ γ} {root : φ} {ctors : γ}
    (hm : m.WellFormed root) (hrefs : m'.refs = m.refs)
    (hlive : ∀ x, x ∈ m'.symbols ↔ Pruning.Live m.nodes m.Uses (.fn root) x) :
    m.KeepsGuest m' root ctors ↔
      ((∃ c, m.Registered ctors c) → Pruning.Held m.nodes m.Uses (.fn root) (.gv ctors)) := by
  constructor
  · rintro ⟨-, hreg⟩ ⟨c, hc⟩
    exact ((hlive _).mp (gv_mem_symbols.mpr (hreg c hc).1)).held m.nodes_finite
  · intro hheld
    have htable : ∀ c, m.Registered ctors c → ∀ x,
        Relation.ReflTransGen m.Uses (.gv ctors) x → x ∈ m'.symbols := by
      intro c hc x hx
      exact (hlive x).mpr (((hheld ⟨c, hc⟩).live hm.closed).reaches hm.closed hx)
    constructor
    · rintro g (hmain | ⟨c, hc, hreach⟩)
      · exact fn_mem_symbols.mp ((hlive _).mpr
          ((Pruning.live_root hm.root_mem_nodes).reaches hm.closed hmain))
      · exact fn_mem_symbols.mp (htable c hc _ (.head hc.2 hreach))
    · intro c hc
      refine ⟨gv_mem_symbols.mp (htable c hc _ .refl), ?_⟩
      rw [hrefs]
      exact hc.2

end IrModule

/-- In a module that the verifier accepts nothing uses the table: it loses
its constructors, if it has any. -/
theorem keepsGuest_iff_unregistered [DecidableEq φ] [DecidableEq γ] {m : IrModule φ γ} {f : φ}
    {ctors : γ} (hm : m.WellFormed f) (hun : ∀ y ∈ m.symbols, .gv ctors ∉ m.refs y)
    {fuel : Nat} (hfuel : (m.createMain f).symbols.length < fuel)
    {m' : IrModule (Option φ) γ} (h : virtineCompiler f fuel m = some m') :
    (m.createMain f).KeepsGuest m' none ctors ↔ ∀ c, ¬ m.Registered ctors c := by
  obtain ⟨m'', hend, hrefs, hlive⟩ := (m.createMain f).deadCode_spec none
  obtain rfl : m'' = m' := Option.some.inj ((hend fuel hfuel).symm.trans h)
  have hnot := IrModule.not_held_of_unused hm.createMain (IrModule.unused_createMain hun)
  rw [IrModule.KeepsGuest.iff_held hm.createMain hrefs hlive, IrModule.registered_createMain]
  simp [hnot]

end Wasp
