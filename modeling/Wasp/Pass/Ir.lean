import Wasp.Lib.Layout

/-!
# Ir — the instructions the pass emits

The fragment of LLVM IR that `pass/pass.cpp` and `pass/VirtineCompiler.cpp`
build with an `IRBuilder`: one basic block over the argument struct, in SSA
form. An instruction is known by its position in the block, and `Operand`
refers to it by that. The two calls that leave the block, of
`wasp_run_virtine` and of the original function, are parameters of the
execution; `ω` is what the first of them sees besides the memory.
-/

namespace Wasp

abbrev Mem := Nat → UInt8

inductive Operand where
  | arg (i : Nat)
  | val (k : Nat)
  deriving DecidableEq, Repr

/-- A value at run time. Scalars and structs are the bytes of the value. -/
inductive RtVal where
  | bytes (b : List UInt8)
  | ptr (a : Nat)
  | int (n : Nat)
  | void
  deriving DecidableEq, Repr

inductive Instr where
  /-- `CreateAlloca(arg_struct_type)` -/
  | alloca
  /-- `CreateGEP(arg_struct_type, base, {0, i})` -/
  | gep (base : Operand) (i : Nat)
  | load (t : Layout) (p : Operand)
  | store (t : Layout) (v p : Operand)
  /-- The `size_hack`: the address of element 1 of an array of structs at null. -/
  | sizeHack
  | callWasp (memsz : BitVec 64) (arg argsz : Operand)
  | callFn (argv : List Operand)

/-- A basic block and the operand of its `ret`. -/
structure Block where
  instrs : List Instr
  ret : Option Operand

/-- What an execution is given: the fields of the argument struct, the place
of the `alloca`, and the two calls. -/
structure Ctx (ω : Type) where
  fields : List Layout
  frame : Nat
  wasp : BitVec 64 → Nat → Nat → Mem → ω → Option (Mem × ω)
  fn : List RtVal → Mem → Option (List UInt8 × Mem)

structure Frame (ω : Type) where
  args : List RtVal
  vals : List RtVal
  mem : Mem
  world : ω

variable {ω : Type}

namespace Frame

def eval (fr : Frame ω) : Operand → Option RtVal
  | .arg i => fr.args[i]?
  | .val k => fr.vals[k]?

def push (fr : Frame ω) (v : RtVal) : Frame ω := { fr with vals := fr.vals ++ [v] }

def setMem (fr : Frame ω) (m : Mem) : Frame ω := { fr with mem := m }

/-- One instruction; `none` where the operands are not of its types. -/
def exec (ctx : Ctx ω) (fr : Frame ω) : Instr → Option (Frame ω)
  | .alloca => some (fr.push (.ptr ctx.frame))
  | .gep base i =>
      match fr.eval base with
      | some (.ptr a) => some (fr.push (.ptr (a + Layout.offset ctx.fields i)))
      | _ => none
  | .load t p =>
      match fr.eval p with
      | some (.ptr a) => some (fr.push (.bytes (t.load fr.mem a)))
      | _ => none
  | .store t v p =>
      match fr.eval v, fr.eval p with
      | some (.bytes b), some (.ptr a) =>
          some ((fr.push .void).setMem (t.store fr.mem a b))
      | _, _ => none
  | .sizeHack => some (fr.push (.int (Layout.struct ctx.fields).size))
  | .callWasp memsz arg argsz =>
      match fr.eval arg, fr.eval argsz with
      | some (.ptr a), some (.int n) =>
          (ctx.wasp memsz a n fr.mem fr.world).map fun (m, w) =>
            { (fr.push .void).setMem m with world := w }
      | _, _ => none
  | .callFn argv =>
      match argv.mapM fr.eval with
      | some vs => (ctx.fn vs fr.mem).map fun (r, m) => (fr.push (.bytes r)).setMem m
      | none => none

def execAll (ctx : Ctx ω) : List Instr → Frame ω → Option (Frame ω)
  | [], fr => some fr
  | i :: is, fr =>
      match fr.exec ctx i with
      | some fr' => execAll ctx is fr'
      | none => none

end Frame

/-- The block from its first instruction to its `ret`. -/
def Block.run (ctx : Ctx ω) (b : Block) (args : List RtVal) (m : Mem) (w : ω) :
    Option (Option RtVal × Mem × ω) :=
  match Frame.execAll ctx b.instrs { args := args, vals := [], mem := m, world := w } with
  | none => none
  | some fr =>
      match b.ret with
      | none => some (none, fr.mem, fr.world)
      | some v => (fr.eval v).map fun v => (some v, fr.mem, fr.world)

namespace Frame

theorem execAll_bind (ctx : Ctx ω) (is js : List Instr) (fr : Frame ω) :
    execAll ctx (is ++ js) fr = (execAll ctx is fr).bind (execAll ctx js) := by
  induction is generalizing fr with
  | nil => rfl
  | cons i is ih =>
      simp only [execAll, List.cons_append]
      cases fr.exec ctx i with
      | none => rfl
      | some fr₁ => exact ih fr₁

theorem execAll_append {ctx : Ctx ω} {is js : List Instr} {fr fr' : Frame ω}
    (h : execAll ctx is fr = some fr') :
    execAll ctx (is ++ js) fr = execAll ctx js fr' := by
  rw [execAll_bind, h, Option.bind_some]

/-- A block that runs to its end has run through each of its beginnings. -/
theorem execAll_left {ctx : Ctx ω} {is js : List Instr} {fr fr' : Frame ω}
    (h : execAll ctx (is ++ js) fr = some fr') : ∃ fr₁, execAll ctx is fr = some fr₁ := by
  rw [execAll_bind] at h
  obtain ⟨fr₁, hfr₁, _⟩ := Option.bind_eq_some_iff.mp h
  exact ⟨fr₁, hfr₁⟩

/-! ## Operands

An instruction adds one value at the end, so what an operand refers to
stays, and the new value is found at the old length. -/

theorem eval_append {fr fr' : Frame ω} {vs : List RtVal} {o : Operand} {v : RtVal}
    (h : fr.eval o = some v) (hargs : fr'.args = fr.args) (hvals : fr'.vals = fr.vals ++ vs) :
    fr'.eval o = some v := by
  cases o with
  | arg i =>
      simp only [eval, hargs] at h ⊢
      exact h
  | val k =>
      have hk := (List.getElem?_eq_some_iff.mp h).1
      simp only [eval, hvals]
      exact (List.getElem?_append_left hk).trans h

theorem eval_push_of_eval {fr : Frame ω} {o : Operand} {v w : RtVal}
    (h : fr.eval o = some v) : (fr.push w).eval o = some v :=
  eval_append h rfl rfl

theorem eval_push_last {fr : Frame ω} {n : Nat} {w : RtVal} (h : fr.vals.length = n) :
    (fr.push w).eval (.val n) = some w := by
  subst h
  simp [eval, push]

@[simp] theorem push_length (fr : Frame ω) (w : RtVal) :
    (fr.push w).vals.length = fr.vals.length + 1 := by
  simp [push]

theorem exec_vals {ctx : Ctx ω} {fr fr' : Frame ω} {i : Instr}
    (h : fr.exec ctx i = some fr') :
    fr'.args = fr.args ∧ ∃ v, fr'.vals = fr.vals ++ [v] := by
  cases i <;> simp only [exec] at h
  case alloca | sizeHack =>
    cases h
    exact ⟨rfl, _, rfl⟩
  case gep | load | store =>
    split at h <;> cases h
    exact ⟨rfl, _, rfl⟩
  case callWasp =>
    split at h
    · obtain ⟨⟨m, w⟩, _, rfl⟩ := Option.map_eq_some_iff.mp h
      exact ⟨rfl, _, rfl⟩
    · cases h
  case callFn =>
    split at h
    · obtain ⟨⟨r, m⟩, _, rfl⟩ := Option.map_eq_some_iff.mp h
      exact ⟨rfl, _, rfl⟩
    · cases h

/-- A block adds as many values as it has instructions. -/
theorem execAll_vals {ctx : Ctx ω} {is : List Instr} {fr fr' : Frame ω}
    (h : execAll ctx is fr = some fr') :
    fr'.args = fr.args ∧ ∃ vs, fr'.vals = fr.vals ++ vs ∧ vs.length = is.length := by
  induction is generalizing fr with
  | nil =>
      cases h
      exact ⟨rfl, [], by simp⟩
  | cons i is ih =>
      simp only [execAll] at h
      split at h
      · rename_i fr₁ hi
        obtain ⟨hargs, v, hv⟩ := exec_vals hi
        obtain ⟨hargs', vs, hvs, hlen⟩ := ih h
        exact ⟨hargs'.trans hargs, v :: vs, by rw [hvs, hv, List.append_assoc]; rfl,
          by rw [List.length_cons, hlen, List.length_cons]⟩
      · cases h

theorem execAll_length {ctx : Ctx ω} {is : List Instr} {fr fr' : Frame ω}
    (h : execAll ctx is fr = some fr') : fr'.vals.length = fr.vals.length + is.length := by
  obtain ⟨_, vs, hvs, hlen⟩ := execAll_vals h
  rw [hvs, List.length_append, hlen]

theorem execAll_eval {ctx : Ctx ω} {is : List Instr} {fr fr' : Frame ω}
    (h : execAll ctx is fr = some fr') {o : Operand} {v : RtVal}
    (ho : fr.eval o = some v) : fr'.eval o = some v := by
  obtain ⟨hargs, vs, hvs, _⟩ := execAll_vals h
  exact eval_append ho hargs hvs

/-! ## One instruction at the head of a block -/

section Head

variable {ctx : Ctx ω} {fr : Frame ω} {is : List Instr} {p : Operand} {a : Nat}

theorem execAll_gep (i : Nat) (hp : fr.eval p = some (.ptr a)) :
    execAll ctx (.gep p i :: is) fr =
      execAll ctx is (fr.push (.ptr (a + Layout.offset ctx.fields i))) := by
  simp [execAll, exec, hp]

theorem execAll_load (t : Layout) (hp : fr.eval p = some (.ptr a)) :
    execAll ctx (.load t p :: is) fr =
      execAll ctx is (fr.push (.bytes (t.load fr.mem a))) := by
  simp [execAll, exec, hp]

theorem execAll_store (t : Layout) {o : Operand} {b : List UInt8}
    (ho : fr.eval o = some (.bytes b)) (hp : fr.eval p = some (.ptr a)) :
    execAll ctx (.store t o p :: is) fr =
      execAll ctx is ((fr.push .void).setMem (t.store fr.mem a b)) := by
  simp [execAll, exec, ho, hp]

theorem execAll_callWasp {memsz : BitVec 64} {o : Operand} {n : Nat} {m : Mem} {w : ω}
    (hp : fr.eval p = some (.ptr a)) (ho : fr.eval o = some (.int n))
    (hw : ctx.wasp memsz a n fr.mem fr.world = some (m, w)) :
    execAll ctx (.callWasp memsz p o :: is) fr =
      execAll ctx is { (fr.push .void).setMem m with world := w } := by
  simp [execAll, exec, hp, ho, hw]

theorem execAll_callFn {argv : List Operand} {vs : List RtVal} {r : List UInt8} {m : Mem}
    (hv : argv.mapM fr.eval = some vs) (hr : ctx.fn vs fr.mem = some (r, m)) :
    execAll ctx (.callFn argv :: is) fr =
      execAll ctx is ((fr.push (.bytes r)).setMem m) := by
  simp [execAll, exec, hv, hr]

end Head

end Frame

end Wasp
