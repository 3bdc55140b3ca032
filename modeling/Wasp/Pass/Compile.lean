import Mathlib.Data.List.Forall2
import Wasp.Pass.Ir
import Wasp.Runtime.RunVirtine

/-!
# Compile — the host stub and `__virtine_main`

A function marked `virtine` is compiled twice: `compileFunction` of
`pass/pass.cpp` replaces its body by a stub that packs the arguments into a
struct and calls `wasp_run_virtine`, and `create_main` of
`pass/VirtineCompiler.cpp` builds the function that unpacks them in the
guest. The two agree on the struct of `create_argument_struct` and on
nothing else. Here are both code generators, the meaning of the original
function, and the call as the host makes it.
-/

namespace Wasp

open ByteMem

/-! ## The function -/

/-- A parameter: a scalar, or a pointer to a value of a sized type. -/
inductive Param where
  | scalar (t : Layout)
  | pointer (t : Layout)

/-- Its field in the argument struct: a surrogate in place of a pointer. -/
def Param.surrogate : Param → Layout
  | .scalar t | .pointer t => t

/-- `create_argument_struct(fn, true)`: the parameters, and the result last. -/
def createArgumentStruct (params : List Param) (ret : Layout) : List Layout :=
  params.map Param.surrogate ++ [ret]

/-- One value for each parameter, of the right number of bytes. -/
def Typed (params : List Param) (vs : List (List UInt8)) : Prop :=
  List.Forall₂ (fun p v => v.length = p.surrogate.bytes.length) params vs

/-- A function whose body reads its scalar parameters and the pointees of
its pointer parameters, and returns a scalar and new values of the
pointees (an entry for a scalar parameter is of no consequence). -/
structure Fn where
  params : List Param
  ret : Layout
  body : List (List UInt8) → List UInt8 × List (List UInt8)
  ret_bytes : ret.bytes ≠ []
  typed : ∀ vs, Typed params vs →
    (body vs).1.length = ret.bytes.length ∧ Typed params (body vs).2
  sized : (Layout.struct (createArgumentStruct params ret)).size < 2 ^ 64

namespace Fn

def fields (f : Fn) : List Layout := createArgumentStruct f.params f.ret

def argSize (f : Fn) : Nat := (Layout.struct f.fields).size

end Fn

/-- The value of an argument: itself, or what it points to. -/
def Param.fetch (m : Mem) : Param → RtVal → Option (List UInt8)
  | .scalar _, .bytes b => some b
  | .pointer t, .ptr a => some (t.load m a)
  | _, _ => none

/-- The new value of an argument, as the caller sees it. -/
def Param.commit (p : Param) (a : RtVal) (v : List UInt8) (m : Mem) : Mem :=
  match p, a with
  | .pointer t, .ptr x => t.store m x v
  | _, _ => m

def fetchAll (m : Mem) : List Param → List RtVal → Option (List (List UInt8))
  | [], [] => some []
  | p :: ps, a :: as =>
      match p.fetch m a, fetchAll m ps as with
      | some v, some vs => some (v :: vs)
      | _, _ => none
  | _, _ => none

def commitAll : List Param → List RtVal → List (List UInt8) → Mem → Mem
  | p :: ps, a :: as, v :: vs, m => commitAll ps as vs (p.commit a v m)
  | _, _, _, m => m

/-- Calling the original function: the result, and the memory it leaves. -/
def Fn.call (f : Fn) (args : List RtVal) (m : Mem) : Option (List UInt8 × Mem) :=
  (fetchAll m f.params args).map fun vs =>
    ((f.body vs).1, commitAll f.params args (f.body vs).2 m)

/-! ## The stub: `VirtinePass::compileFunction` -/

/-- The first loop over the arguments, from instruction `n` and argument
`i` on: `args` is the struct, and a pointer is stored as what it points to. -/
def storeArgs (args : Operand) : Nat → Nat → List Param → List Instr
  | _, _, [] => []
  | n, i, .pointer t :: ps =>
      .gep args i :: .load t (.arg i) :: .store t (.val (n + 1)) (.val n) ::
        storeArgs args (n + 3) (i + 1) ps
  | n, i, .scalar t :: ps =>
      .gep args i :: .store t (.arg i) (.val n) :: storeArgs args (n + 2) (i + 1) ps

/-- The second loop: the surrogates are stored back through the pointers. -/
def storeBack (args : Operand) : Nat → Nat → List Param → List Instr
  | _, _, [] => []
  | n, i, .pointer t :: ps =>
      .gep args i :: .load t (.val n) :: .store t (.val (n + 1)) (.arg i) ::
        storeBack args (n + 3) (i + 1) ps
  | n, i, .scalar _ :: ps => storeBack args n (i + 1) ps

/-- `ram_size`. -/
def ramSize : BitVec 64 := 4096 * 128

def compileFunction (f : Fn) : Block :=
  let args := Operand.val 0
  let stores := storeArgs args 1 0 f.params
  let n := 1 + stores.length
  let back := storeBack args (n + 2) 0 f.params
  let k := n + 2 + back.length
  { instrs := .alloca :: stores ++ [.sizeHack, .callWasp ramSize args (.val n)] ++ back ++
      [.gep args f.params.length, .load f.ret (.val k)],
    ret := some (.val (k + 1)) }

/-! ## The guest: `VirtineCompiler::create_main` -/

/-- The loop over the parameters: the instructions, and the arguments of
the call. A pointer is the address of its surrogate. -/
def loadArgs : Nat → Nat → List Param → List Instr × List Operand
  | _, _, [] => ([], [])
  | n, i, .pointer _ :: ps =>
      let (is, argv) := loadArgs (n + 1) (i + 1) ps
      (.gep (.arg 0) i :: is, .val n :: argv)
  | n, i, .scalar t :: ps =>
      let (is, argv) := loadArgs (n + 2) (i + 1) ps
      (.gep (.arg 0) i :: .load t (.val n) :: is, .val (n + 1) :: argv)

def createMain (f : Fn) : Block :=
  let (is, argv) := loadArgs 0 0 f.params
  let n := is.length
  { instrs := is ++ [.callFn argv, .gep (.arg 0) f.params.length,
      .store f.ret (.val n) (.val (n + 1))],
    ret := none }

/-! ## The call -/

/-- `__virtine_main(0)` on the guest's memory. -/
def Fn.main (f : Fn) (m : Mem) : Option Mem :=
  ((createMain f).run
    { fields := f.fields, frame := 0, wasp := fun _ _ _ _ _ => none, fn := f.call }
    [.ptr 0] m ()).map fun r => r.2.1

variable {S F : Type}

/-- `wasp_run_virtine` as the stub calls it, with the virtine `v` of the
right size: copy-in, the guest, copy-out. `vcpu` is what running the guest
does to its memory. -/
def Virtine.transfer (vcpu : Mem → Mem) (memsz : BitVec 64) (a n : Nat) (host : Mem)
    (v : Virtine S F) : Option (Mem × Virtine S F) :=
  let argsz := BitVec.ofNat 64 n
  let arg : Option Mem := some fun i => host (a + i)
  if v.mMemsz = memsz then
    match v.copyIn arg argsz with
    | .error _ => none
    | .ok w =>
        let w := w.resume { w.toMachine with mem := vcpu w.mem }
        (w.copyOut arg argsz).map fun out => (blit host a out argsz.toNat, w)
  else none

/-- Calling the stub, with its `alloca` at `frame`. -/
def Fn.virtineCall (f : Fn) (vcpu : Mem → Mem) (frame : Nat) (v : Virtine S F)
    (args : List RtVal) (host : Mem) : Option (Option RtVal × Mem × Virtine S F) :=
  (compileFunction f).run
    { fields := f.fields, frame := frame, wasp := Virtine.transfer vcpu,
      fn := fun _ _ => none }
    args host v

end Wasp
