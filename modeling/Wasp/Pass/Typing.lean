import Wasp.Pass.Blocks
import Wasp.Pass.Signature

/-!
# Typing — the field accesses of the two blocks are well typed

What LLVM asks of the instructions that the stub and `__virtine_main` are
made of: a struct that is allocated or indexed has a size, and so has what
is loaded or stored, at a pointer to just that type. `WellFormed` is what
the code generators take for granted of the argument struct. It comes down
to the size of the struct, and that to the result not being `void` and no
pointer pointing to a type without a size; neither is checked.
-/

namespace Wasp

variable {Ty : Type}

/-! ## The rules -/

/-- The types of the arguments of a block and of the instructions so far. -/
structure TypeCtx (Ty : Type) where
  args : List (ValueType Ty)
  vals : List (ValueType Ty)

namespace TypeCtx

def typeOf (Γ : TypeCtx Ty) : Operand → Option (ValueType Ty)
  | .arg i => Γ.args[i]?
  | .val k => Γ.vals[k]?

def push (Γ : TypeCtx Ty) (τ : ValueType Ty) : TypeCtx Ty :=
  { Γ with vals := Γ.vals ++ [τ] }

@[simp] theorem length_push (Γ : TypeCtx Ty) (τ : ValueType Ty) :
    (Γ.push τ).vals.length = Γ.vals.length + 1 := by
  simp [push]

theorem typeOf_push {Γ : TypeCtx Ty} {o : Operand} {τ υ : ValueType Ty}
    (h : Γ.typeOf o = some τ) : (Γ.push υ).typeOf o = some τ := by
  cases o with
  | arg i => exact h
  | val k =>
      have hk : k < Γ.vals.length := (List.getElem?_eq_some_iff.mp h).1
      simpa [typeOf, push, List.getElem?_append_left hk] using h

theorem typeOf_push_last {Γ : TypeCtx Ty} {n : Nat} (hn : Γ.vals.length = n)
    (τ : ValueType Ty) : (Γ.push τ).typeOf (.val n) = some τ := by
  simp [typeOf, push, ← hn]

end TypeCtx

namespace Signature

variable {G : TypeGraph Ty}

/-- The argument struct has a size. -/
def StructSized (σ : Signature G) : Prop := ∀ t ∈ σ.createArgumentStruct true, G.Sized t

/-- What LLVM asks of an instruction, and the type of its result. -/
inductive HasType (σ : Signature G) (Γ : TypeCtx Ty) :
    TypedInstr Ty → ValueType Ty → Prop where
  | alloca : σ.StructSized → HasType σ Γ .alloca .argStruct
  | gep {base : Operand} {i : Nat} {t : Ty} : Γ.typeOf base = some .argStruct →
      σ.StructSized → (σ.createArgumentStruct true)[i]? = some t →
      HasType σ Γ (.gep base i) (.pointer t)
  | load {t : Ty} {p : Operand} : Γ.typeOf p = some (.pointer t) → G.Sized t →
      G.FirstClass t → HasType σ Γ (.load t p) (G.valueType t)
  | store {t : Ty} {v p : Operand} : Γ.typeOf v = some (G.valueType t) →
      Γ.typeOf p = some (.pointer t) → G.Sized t → G.FirstClass t →
      HasType σ Γ (.store t v p) .void
  | sizeHack : σ.StructSized → HasType σ Γ .sizeHack .int64
  /-- The struct and its size. The callee takes the struct as a byte pointer,
  which is not looked at here. -/
  | callWasp {memsz : BitVec 64} {arg argsz : Operand} : Γ.typeOf arg = some .argStruct →
      Γ.typeOf argsz = some .int64 → HasType σ Γ (.callWasp memsz arg argsz) .void
  | callFn {argv : List Operand} : argv.mapM Γ.typeOf = some (σ.params.map G.valueType) →
      HasType σ Γ (.callFn argv) (G.valueType σ.ret)

inductive Checks (σ : Signature G) :
    TypeCtx Ty → List (TypedInstr Ty) → TypeCtx Ty → Prop where
  | nil (Γ : TypeCtx Ty) : Checks σ Γ [] Γ
  | cons {Γ Γ' : TypeCtx Ty} {i : TypedInstr Ty} {is : List (TypedInstr Ty)}
      {τ : ValueType Ty} : HasType σ Γ i τ → Checks σ (Γ.push τ) is Γ' →
      Checks σ Γ (i :: is) Γ'

/-- The stub starts with the arguments of the function. -/
def stubCtx (σ : Signature G) : TypeCtx Ty :=
  { args := σ.params.map G.valueType, vals := [] }

/-- The stub is well typed and returns a value of the result type. -/
def StubTyped (σ : Signature G) : Prop :=
  ∃ Γ o, Checks σ σ.stubCtx σ.compileFunction.instrs Γ ∧
    σ.compileFunction.ret = some o ∧ Γ.typeOf o = some (G.valueType σ.ret)

/-- `__virtine_main`, whose one argument points to the struct, is well typed. -/
def MainTyped (σ : Signature G) : Prop :=
  ∃ Γ, Checks σ { args := [.argStruct], vals := [] } σ.createMain.instrs Γ

/-- The argument struct is what the two code generators take it for. -/
structure WellFormed (σ : Signature G) : Prop where
  members : ∀ t ∈ σ.createArgumentStruct true, G.ValidMember t ∧ G.Sized t
  length : (σ.createArgumentStruct true).length = σ.params.length + 1
  param : ∀ (i : Nat) p, σ.params[i]? = some p →
    (σ.createArgumentStruct true)[i]? = some (G.memberType true p)
  result : (σ.createArgumentStruct true)[σ.params.length]? = some σ.ret
  main : σ.MainTyped
  stub : σ.StubTyped

namespace Checks

variable {σ : Signature G} {Γ Γ' Γ'' : TypeCtx Ty} {is js : List (TypedInstr Ty)}

theorem append (h : Checks σ Γ is Γ') (h' : Checks σ Γ' js Γ'') :
    Checks σ Γ (is ++ js) Γ'' := by
  induction h with
  | nil => exact h'
  | cons hi _ ih => exact .cons hi (ih h')

theorem args_eq (h : Checks σ Γ is Γ') : Γ'.args = Γ.args := by
  induction h with
  | nil => rfl
  | cons _ _ ih => exact ih

theorem length_vals (h : Checks σ Γ is Γ') :
    Γ'.vals.length = Γ.vals.length + is.length := by
  induction h with
  | nil => rfl
  | cons _ _ ih =>
      rw [ih, TypeCtx.length_push, List.length_cons]
      omega

theorem typeOf_mono {o : Operand} {τ : ValueType Ty} (h : Checks σ Γ is Γ')
    (ho : Γ.typeOf o = some τ) : Γ'.typeOf o = some τ := by
  induction h with
  | nil => exact ho
  | cons _ _ ih => exact ih (TypeCtx.typeOf_push ho)

end Checks

/-! ## The members -/

theorem sized_memberType_iff {t : Ty} (h : G.Sized t) :
    G.Sized (G.memberType true t) ↔ ∀ e, G.node t = .pointer e → G.Sized e := by
  cases hp : G.pointee t with
  | some e =>
      rw [TypeGraph.memberType_pointer hp]
      rw [TypeGraph.pointee_eq_some] at hp
      simp [hp]
  | none =>
      rw [TypeGraph.memberType_scalar hp]
      refine ⟨fun _ e he => ?_, fun _ => h⟩
      rw [← TypeGraph.pointee_eq_some, hp] at he
      cases he

theorem structSized_iff (σ : Signature G) :
    σ.StructSized ↔ G.node σ.ret ≠ .void ∧
      ∀ p ∈ σ.params, ∀ e, G.node p = .pointer e → G.Sized e := by
  have hret : G.Sized σ.ret ↔ G.node σ.ret ≠ .void := by
    constructor
    · intro hs hv
      exact TypeGraph.not_sized_void hv hs
    · exact σ.ret_sized.resolve_left
  have hparams : (∀ p ∈ σ.params, G.Sized (G.memberType true p)) ↔
      ∀ p ∈ σ.params, ∀ e, G.node p = .pointer e → G.Sized e :=
    forall₂_congr fun p hp => sized_memberType_iff (σ.params_sized p hp)
  rw [← hret, ← hparams]
  simp [StructSized, createArgumentStruct, or_imp, forall_and, and_comm]

/-! ## The loops -/

/-- From argument `i` on, the members are those of the parameters `ps`. -/
def MembersFrom (σ : Signature G) (i : Nat) (ps : List Ty) : Prop :=
  (σ.createArgumentStruct true).drop i = ps.map (G.memberType true) ++ [σ.ret]

theorem membersFrom_zero (σ : Signature G) : σ.MembersFrom 0 σ.params := rfl

theorem MembersFrom.cons {σ : Signature G} {i : Nat} {p : Ty} {ps : List Ty}
    (h : σ.MembersFrom i (p :: ps)) :
    (σ.createArgumentStruct true)[i]? = some (G.memberType true p) ∧
      σ.MembersFrom (i + 1) ps :=
  drop_eq_cons h

/-- The address of a field, as the `n`th value. -/
theorem StructSized.field {σ : Signature G} (hs : σ.StructSized) {base : Operand} {t : Ty}
    {i n : Nat} {Γ : TypeCtx Ty} (hn : Γ.vals.length = n)
    (hbase : Γ.typeOf base = some .argStruct)
    (ht : (σ.createArgumentStruct true)[i]? = some t) :
    G.Sized t ∧ HasType σ Γ (.gep base i) (.pointer t) ∧
      (Γ.push (.pointer t)).typeOf (.val n) = some (.pointer t) :=
  ⟨hs t (List.mem_of_getElem? ht), .gep hbase hs ht, TypeCtx.typeOf_push_last hn _⟩

/-- A field is addressed, and a sized value goes from `p` to `q`, one of
which is the field. -/
theorem move_checks {σ : Signature G} {base p q : Operand} {t : Ty} {i n : Nat}
    {Γ Γ' : TypeCtx Ty} {is : List (TypedInstr Ty)} (hn : Γ.vals.length = n)
    (hgep : HasType σ Γ (.gep base i) (.pointer t)) (hsz : G.Sized t)
    (hp : (Γ.push (.pointer t)).typeOf p = some (.pointer t))
    (hq : (Γ.push (.pointer t)).typeOf q = some (.pointer t))
    (hrest : Checks σ (((Γ.push (.pointer t)).push (G.valueType t)).push .void) is Γ') :
    Checks σ Γ (.gep base i :: .load t p :: .store t (.val (n + 1)) q :: is) Γ' := by
  have hval : ((Γ.push (.pointer t)).push (G.valueType t)).typeOf (.val (n + 1)) =
      some (G.valueType t) := TypeCtx.typeOf_push_last (by simp [hn]) _
  have hload : HasType σ (Γ.push (.pointer t)) (.load t p) (G.valueType t) :=
    .load hp hsz hsz.firstClass
  have hstore : HasType σ ((Γ.push (.pointer t)).push (G.valueType t))
      (.store t (.val (n + 1)) q) .void :=
    .store hval (TypeCtx.typeOf_push hq) hsz hsz.firstClass
  exact .cons hgep (.cons hload (.cons hstore hrest))

theorem storeArgs_checks {σ : Signature G} (hs : σ.StructSized) {base : Operand}
    {ps : List Ty} {i n : Nat} {Γ : TypeCtx Ty} (hn : Γ.vals.length = n)
    (hbase : Γ.typeOf base = some .argStruct) (hargs : Γ.args.drop i = ps.map G.valueType)
    (hm : σ.MembersFrom i ps) : ∃ Γ', Checks σ Γ (storeArgs G base n i ps) Γ' := by
  induction ps generalizing i n Γ with
  | nil => exact ⟨Γ, .nil Γ⟩
  | cons p ps ih =>
      obtain ⟨hmem, hm'⟩ := hm.cons
      obtain ⟨harg, hargs'⟩ := drop_eq_cons hargs
      obtain ⟨hsz, hgep, hptr⟩ := hs.field hn hbase hmem
      cases hp : G.pointee p with
      | some t =>
          rw [TypeGraph.memberType_pointer hp] at hsz hgep hptr
          rw [TypeGraph.valueType_pointer hp] at harg
          have hbase' := TypeCtx.typeOf_push (υ := .void) (TypeCtx.typeOf_push
            (υ := G.valueType t) (TypeCtx.typeOf_push (υ := .pointer t) hbase))
          obtain ⟨Γ', hrest⟩ := ih (n := n + 3) (by simp [hn]) hbase' hargs' hm'
          rw [storeArgs, hp]
          exact ⟨Γ', move_checks hn hgep hsz harg hptr hrest⟩
      | none =>
          rw [TypeGraph.memberType_scalar hp] at hsz hgep hptr
          have hstore : HasType σ (Γ.push (.pointer p)) (.store p (.arg i) (.val n)) .void :=
            .store harg hptr hsz hsz.firstClass
          have hbase' := TypeCtx.typeOf_push (υ := .void)
            (TypeCtx.typeOf_push (υ := .pointer p) hbase)
          obtain ⟨Γ', hrest⟩ := ih (n := n + 2) (by simp [hn]) hbase' hargs' hm'
          rw [storeArgs, hp]
          exact ⟨Γ', .cons hgep (.cons hstore hrest)⟩

theorem storeBack_checks {σ : Signature G} (hs : σ.StructSized) {base : Operand}
    {ps : List Ty} {i n : Nat} {Γ : TypeCtx Ty} (hn : Γ.vals.length = n)
    (hbase : Γ.typeOf base = some .argStruct) (hargs : Γ.args.drop i = ps.map G.valueType)
    (hm : σ.MembersFrom i ps) : ∃ Γ', Checks σ Γ (storeBack G base n i ps) Γ' := by
  induction ps generalizing i n Γ with
  | nil => exact ⟨Γ, .nil Γ⟩
  | cons p ps ih =>
      obtain ⟨hmem, hm'⟩ := hm.cons
      obtain ⟨harg, hargs'⟩ := drop_eq_cons hargs
      obtain ⟨hsz, hgep, hptr⟩ := hs.field hn hbase hmem
      cases hp : G.pointee p with
      | some t =>
          rw [TypeGraph.memberType_pointer hp] at hsz hgep hptr
          rw [TypeGraph.valueType_pointer hp] at harg
          have hbase' := TypeCtx.typeOf_push (υ := .void) (TypeCtx.typeOf_push
            (υ := G.valueType t) (TypeCtx.typeOf_push (υ := .pointer t) hbase))
          obtain ⟨Γ', hrest⟩ := ih (n := n + 3) (by simp [hn]) hbase' hargs' hm'
          rw [storeBack, hp]
          exact ⟨Γ', move_checks hn hgep hsz hptr harg hrest⟩
      | none =>
          rw [storeBack, hp]
          exact ih hn hbase hargs' hm'

theorem loadArgs_checks {σ : Signature G} (hs : σ.StructSized) {ps : List Ty} {i n : Nat}
    {Γ : TypeCtx Ty} (hn : Γ.vals.length = n) (hbase : Γ.typeOf (.arg 0) = some .argStruct)
    (hm : σ.MembersFrom i ps) :
    ∃ Γ', Checks σ Γ (loadArgs G n i ps).1 Γ' ∧
      (loadArgs G n i ps).2.mapM Γ'.typeOf = some (ps.map G.valueType) := by
  induction ps generalizing i n Γ with
  | nil => exact ⟨Γ, .nil Γ, rfl⟩
  | cons p ps ih =>
      obtain ⟨hmem, hm'⟩ := hm.cons
      obtain ⟨hsz, hgep, hptr⟩ := hs.field hn hbase hmem
      cases hp : G.pointee p with
      | some t =>
          rw [TypeGraph.memberType_pointer hp] at hsz hgep hptr
          obtain ⟨Γ', hrest, hargv⟩ := ih (i := i + 1) (n := n + 1) (Γ := Γ.push (.pointer t))
            (by simp [hn]) (TypeCtx.typeOf_push hbase) hm'
          have hlast := hrest.typeOf_mono hptr
          simp only [loadArgs, hp]
          refine ⟨Γ', .cons hgep hrest, ?_⟩
          simp [hlast, hargv, TypeGraph.valueType_pointer hp]
      | none =>
          rw [TypeGraph.memberType_scalar hp] at hsz hgep hptr
          have hload : HasType σ (Γ.push (.pointer p)) (.load p (.val n)) (G.valueType p) :=
            .load hptr hsz hsz.firstClass
          have hval : ((Γ.push (.pointer p)).push (G.valueType p)).typeOf (.val (n + 1)) =
              some (G.valueType p) := TypeCtx.typeOf_push_last (by simp [hn]) _
          obtain ⟨Γ', hrest, hargv⟩ := ih (i := i + 1) (n := n + 2) (by simp [hn])
            (TypeCtx.typeOf_push (TypeCtx.typeOf_push hbase)) hm'
          have hlast := hrest.typeOf_mono hval
          simp only [loadArgs, hp]
          refine ⟨Γ', .cons hgep (.cons hload hrest), ?_⟩
          simp [hlast, hargv]

/-! ## The two blocks -/

theorem getElem?_result (σ : Signature G) :
    (σ.createArgumentStruct true)[σ.params.length]? = some σ.ret := by
  simp [createArgumentStruct]

theorem StructSized.mainTyped {σ : Signature G} (hs : σ.StructSized) : σ.MainTyped := by
  obtain ⟨Γ, hload, hargv⟩ := loadArgs_checks hs
    (Γ := { args := [.argStruct], vals := [] }) (n := 0) rfl rfl σ.membersFrom_zero
  have hn : Γ.vals.length = (loadArgs G 0 0 σ.params).1.length := by
    simpa using hload.length_vals
  have hbase : Γ.typeOf (.arg 0) = some .argStruct := hload.typeOf_mono rfl
  -- the result of the call, and its field
  have hcall : HasType σ Γ (.callFn (loadArgs G 0 0 σ.params).2) (G.valueType σ.ret) :=
    .callFn hargv
  have hval := TypeCtx.typeOf_push_last hn (G.valueType σ.ret)
  have hn' : (Γ.push (G.valueType σ.ret)).vals.length =
      (loadArgs G 0 0 σ.params).1.length + 1 := by simp [hn]
  obtain ⟨hsz, hgep, hptr⟩ := hs.field hn' (TypeCtx.typeOf_push hbase) σ.getElem?_result
  have hstore := HasType.store (σ := σ) (TypeCtx.typeOf_push hval) hptr hsz hsz.firstClass
  exact ⟨_, hload.append (.cons hcall (.cons hgep (.cons hstore (.nil _))))⟩

/-- The stub up to the call of `wasp_run_virtine`. -/
theorem StructSized.call_checks {σ : Signature G} (hs : σ.StructSized) {n : Nat}
    (hn : 1 + (storeArgs G (.val 0) 1 0 σ.params).length = n) :
    ∃ Γ, Checks σ σ.stubCtx (.alloca :: storeArgs G (.val 0) 1 0 σ.params ++
        [.sizeHack, .callWasp ramSize (.val 0) (.val n)]) Γ ∧
      Γ.vals.length = n + 2 ∧ Γ.args = σ.stubCtx.args ∧
      Γ.typeOf (.val 0) = some .argStruct := by
  have hfirst : (σ.stubCtx.push .argStruct).typeOf (.val 0) = some .argStruct := rfl
  obtain ⟨Γ, hstores⟩ := storeArgs_checks hs (n := 1) rfl hfirst rfl σ.membersFrom_zero
  have hbase := hstores.typeOf_mono hfirst
  have hlen : Γ.vals.length = n := hstores.length_vals.trans hn
  have hsize := TypeCtx.typeOf_push_last hlen .int64
  have hcall : HasType σ (Γ.push .int64) (.callWasp ramSize (.val 0) (.val n)) .void :=
    .callWasp (TypeCtx.typeOf_push hbase) hsize
  have hchecks := (Checks.cons (.alloca hs) hstores).append
    (.cons (.sizeHack hs) (.cons hcall (.nil _)))
  exact ⟨_, hchecks, by simp [hlen], hstores.args_eq,
    TypeCtx.typeOf_push (TypeCtx.typeOf_push hbase)⟩

theorem StructSized.stubTyped {σ : Signature G} (hs : σ.StructSized) : σ.StubTyped := by
  obtain ⟨Γ₁, hcall, hlen₁, hargs₁, hbase₁⟩ := hs.call_checks rfl
  have hargs : Γ₁.args.drop 0 = σ.params.map G.valueType := hargs₁
  obtain ⟨Γ₂, hback⟩ := storeBack_checks hs hlen₁ hbase₁ hargs σ.membersFrom_zero
  have hlen₂ := hback.length_vals
  rw [hlen₁] at hlen₂
  obtain ⟨hsz, hgep, hptr⟩ := hs.field hlen₂ (hback.typeOf_mono hbase₁) σ.getElem?_result
  have hload := HasType.load (σ := σ) hptr hsz hsz.firstClass
  have hchecks := (hcall.append hback).append (.cons hgep (.cons hload (.nil _)))
  exact ⟨_, _, hchecks, rfl, TypeCtx.typeOf_push_last (by simp [hlen₂]) _⟩

theorem Checks.hasType_of_mem {σ : Signature G} {Γ Γ' : TypeCtx Ty}
    {is : List (TypedInstr Ty)} (h : Checks σ Γ is Γ') {i : TypedInstr Ty} (hi : i ∈ is) :
    ∃ Γ₁ τ, HasType σ Γ₁ i τ := by
  induction h with
  | nil => cases hi
  | cons hone _ ih =>
      rcases List.mem_cons.mp hi with rfl | hi
      · exact ⟨_, _, hone⟩
      · exact ih hi

/-- Already the address of the result asks for the size of the struct. -/
theorem mainTyped_iff (σ : Signature G) : σ.MainTyped ↔ σ.StructSized := by
  constructor
  · intro ⟨Γ, h⟩
    have hmem : .gep (.arg 0) σ.params.length ∈ σ.createMain.instrs := by
      simp [createMain]
    obtain ⟨Γ₁, τ, hgep⟩ := h.hasType_of_mem hmem
    cases hgep
    assumption
  · exact StructSized.mainTyped

theorem stubTyped_iff (σ : Signature G) : σ.StubTyped ↔ σ.StructSized := by
  constructor
  · intro ⟨Γ, o, h, _⟩
    have hmem : .alloca ∈ σ.compileFunction.instrs := by
      simp [compileFunction]
    obtain ⟨Γ₁, τ, halloca⟩ := h.hasType_of_mem hmem
    cases halloca
    assumption
  · exact StructSized.stubTyped

theorem wellFormed_iff_structSized (σ : Signature G) : σ.WellFormed ↔ σ.StructSized := by
  constructor
  · intro h t ht
    exact (h.members t ht).2
  · intro hs
    have hparam : ∀ (i : Nat) p, σ.params[i]? = some p →
        (σ.createArgumentStruct true)[i]? = some (G.memberType true p) := by
      intro i p hp
      have hi : i < σ.params.length := (List.getElem?_eq_some_iff.mp hp).1
      rw [createArgumentStruct, List.getElem?_append_left (by simpa using hi)]
      simp [hp]
    exact
      { members := fun t ht => ⟨(hs t ht).validMember, hs t ht⟩
        length := by simp [createArgumentStruct]
        param := hparam
        result := σ.getElem?_result
        main := hs.mainTyped
        stub := hs.stubTyped }

/-- **The argument struct.** It is well formed, and both blocks are well
typed, just when the function returns something and its pointers point to
types with a size. -/
theorem argumentStruct_wellFormed_iff (σ : Signature G) :
    σ.WellFormed ↔ G.node σ.ret ≠ .void ∧
      ∀ p ∈ σ.params, ∀ e, G.node p = .pointer e → G.Sized e := by
  rw [wellFormed_iff_structSized, structSized_iff]

/-! ## Some functions of C -/

/-- `void`, `int`, an incomplete `struct s` and a pointer to it, and
`int (int)` and a pointer to it, and a pointer to `int`. -/
def cTypes : TypeGraph (Fin 7) where
  node t :=
    match t with
    | 0 => .void
    | 1 => .integer i32
    | 2 => .struct (some "s") none
    | 3 => .pointer 2
    | 4 => .function 1 [1]
    | 5 => .pointer 4
    | 6 => .pointer 1

theorem cTypes_int_sized : cTypes.Sized 1 := .integer rfl

/-- `virtine void f(int)` -/
def voidFn : Signature cTypes where
  params := [1]
  ret := 0
  params_sized := by simp [cTypes_int_sized]
  ret_sized := .inl rfl

/-- `virtine int f(struct s *)` -/
def incompleteFn : Signature cTypes where
  params := [3]
  ret := 1
  params_sized := by simpa using .pointer (show cTypes.node 3 = .pointer 2 from rfl)
  ret_sized := .inr cTypes_int_sized

/-- `virtine int f(int (*)(int))` -/
def callbackFn : Signature cTypes where
  params := [5]
  ret := 1
  params_sized := by simpa using .pointer (show cTypes.node 5 = .pointer 4 from rfl)
  ret_sized := .inr cTypes_int_sized

/-- `virtine int f(int *)` -/
def referenceFn : Signature cTypes where
  params := [6]
  ret := 1
  params_sized := by simpa using .pointer (show cTypes.node 6 = .pointer 1 from rfl)
  ret_sized := .inr cTypes_int_sized

example : referenceFn.WellFormed := by
  rw [wellFormed_iff_structSized]
  simpa [StructSized, show referenceFn.createArgumentStruct true = [1, 1] from rfl] using
    cTypes_int_sized

/-- The struct of `voidFn` has a member of type `void`, that of
`incompleteFn` and of `callbackFn` one without a size, and no block of
theirs is well typed. -/
theorem argumentStruct_not_wellFormed :
    voidFn.createArgumentStruct true = [1, 0] ∧ ¬ cTypes.ValidMember 0 ∧
      ¬ voidFn.WellFormed ∧ ¬ voidFn.MainTyped ∧ ¬ voidFn.StubTyped ∧
    incompleteFn.createArgumentStruct true = [2, 1] ∧ ¬ cTypes.Sized 2 ∧
      ¬ incompleteFn.WellFormed ∧ ¬ incompleteFn.MainTyped ∧ ¬ incompleteFn.StubTyped ∧
    callbackFn.createArgumentStruct true = [4, 1] ∧ ¬ cTypes.ValidMember 4 ∧
      ¬ callbackFn.WellFormed ∧ ¬ callbackFn.MainTyped ∧ ¬ callbackFn.StubTyped := by
  have h₂ : ¬ cTypes.Sized 2 := TypeGraph.not_sized_opaque rfl
  have h₄ : ¬ cTypes.Sized 4 := TypeGraph.not_sized_function rfl
  have hvoid : ¬ voidFn.StructSized := by
    intro h
    exact TypeGraph.not_sized_void (show cTypes.node 0 = .void from rfl) (h 0 (by decide))
  have hinc : ¬ incompleteFn.StructSized := fun h => h₂ (h 2 (by decide))
  have hcall : ¬ callbackFn.StructSized := fun h => h₄ (h 4 (by decide))
  simp only [wellFormed_iff_structSized, mainTyped_iff, stubTyped_iff]
  exact ⟨rfl, id, hvoid, hvoid, hvoid, rfl, h₂, hinc, hinc, hinc, rfl, id, hcall, hcall, hcall⟩

end Signature

end Wasp
