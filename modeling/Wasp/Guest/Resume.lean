import Wasp.Guest.Link
import Wasp.Libc.Heap
import Wasp.Runtime.RoundTrip

/-!
# Resume — the calls after a snapshot

Behind `enable_sse` the boot code of `pass/rt/boot64.asm` initialises the
libc, calls `__snapshot` (`libc/newlib/libc/sys/virtine/syscalls.c`) and then
`__virtine_main`. `__snapshot` passes the break of the heap to
`__hypercall`, whose `out` makes the host save everything below it, and every
later virtine of the cache starts behind that `out`. What the compiler makes
of the rest of `__snapshot` is a parameter here, held to what a C function
owes its caller.

The host writes the argument of a call at `0`, below the stack that the
saved registers point to, without a look at how far down it reaches.
-/

namespace Wasp

open ByteMem LittleEndian PageTable Processor

variable {S F : Type}

/-! ## The pool after a snapshot -/

namespace System

variable {s t : System S F} {v : Virtine S F} {b : Bool}

end System

namespace Boot

/-! ## The code behind the snapshot -/

/-- Where the linker puts `__hypercall` and `__virtine_main`, and the
addresses behind the calls of `__snapshot` and `__virtine_main`. -/
structure Entries where
  hypercall : Nat
  afterSnapshot : Nat
  main : Nat
  afterMain : Nat

namespace Entries

variable (e : Entries)

/-- All of it is where the page tables map. -/
structure Placed : Prop where
  hypercall : e.hypercall + 2 < 2 ^ 30
  afterSnapshot : e.afterSnapshot < 2 ^ 30
  afterMain : e.afterMain < 2 ^ 30

/-- The end of `__hypercall`; its `out` has two bytes. -/
def hypercallRet : Code := ⟨64, e.hypercall + 2, [.ret]⟩

/-- `mov rdi, 0` and the call of `__virtine_main`. -/
def callMain : Code := ⟨64, e.afterSnapshot, [.movImm .rdi 0, .call e.main e.afterMain]⟩

/-- From the `out` of `__hypercall` to the first instruction of
`__virtine_main`; `finish` is the rest of `__snapshot`. -/
def goOn (finish : State → Except Exn State) (c : State) : Except Exn State := do
  let c ← c.run e.hypercallRet
  let c ← finish c
  c.run e.callMain

end Entries

/-! ## The vCPU of a virtine -/

/-- The special registers as `kvm_sregs` has them, as far as they matter
here. -/
structure Sregs where
  cr0 : BitVec 64
  cr3 : BitVec 64
  cr4 : BitVec 64
  efer : BitVec 64
  gdtBase : Nat
  gdtLimit : Nat
  seg : SegReg → Segment

def gprs (r : VirtineRegisters) : Regs
  | .rax => r.rax
  | .rbx => r.rbx
  | .rcx => r.rcx
  | .rdx => r.rdx
  | .rsi => r.rsi
  | .rdi => r.rdi
  | .rbp => r.rbp
  | .rsp => r.rsp
  | .r8 => r.r8
  | .r9 => r.r9
  | .r10 => r.r10
  | .r11 => r.r11
  | .r12 => r.r12
  | .r13 => r.r13
  | .r14 => r.r14
  | .r15 => r.r15

/-- The processor that `KVM_RUN` runs. -/
def cpu (v : Machine Sregs F) : State where
  sys := { cr0 := v.sregs.cr0, cr3 := v.sregs.cr3, cr4 := v.sregs.cr4, efer := v.sregs.efer,
           gdtBase := v.sregs.gdtBase, gdtLimit := v.sregs.gdtLimit, seg := v.sregs.seg,
           interrupts := v.regs.rflags.getLsbD 9, rip := v.regs.rip.toNat, mem := v.mem }
  gpr := gprs v.regs

/-- A guest at the `out` of `__hypercall`, called by `__snapshot`. The rest of
`__snapshot` goes by its registers and its part of the stack: whatever the
other bytes are, it comes back with the registers `g`. -/
structure InSnapshot (y : Symbols) (e : Entries) (finish : State → Except Exn State)
    (c : State) (g : Regs) : Prop where
  long : Long y c.sys
  rip : c.sys.rip = e.hypercall
  stack : (c.gpr .rsp).toNat + 8 ≤ y.stackBase - 24
  finish : ∀ m : Nat → UInt8,
    (∀ a, (c.gpr .rsp).toNat ≤ a → a < y.stackBase → m a = c.sys.mem a) →
    finish ⟨{ c.sys with mem := m, rip := word c.sys.mem (c.gpr .rsp).toNat 8 },
        c.gpr.set .rsp (c.gpr .rsp + 8)⟩ =
      .ok ⟨{ c.sys with mem := m, rip := e.afterSnapshot }, g⟩
  rsp : g .rsp = BitVec.ofNat 64 (y.stackBase - 16)

/-- At a function that the boot code calls, with the return address on the
stack. -/
def calling (y : Symbols) (target back : Nat) (c : State) : State :=
  ⟨{ c.sys with mem := storeWord c.sys.mem (y.stackBase - 24) (BitVec.ofNat 64 back),
                rip := target },
    c.gpr.set .rsp (BitVec.ofNat 64 (y.stackBase - 24))⟩

/-- The state at the entry of `__virtine_main`, with the memory `m` at the
snapshot's end. -/
def atMain (y : Symbols) (e : Entries) (v : Machine Sregs F) (g : Regs) (m : Nat → UInt8) :
    State :=
  calling y e.main e.afterMain
    ⟨{ (cpu v).sys with mem := m, rip := e.afterSnapshot }, g.set .rdi 0⟩

section

variable {y : Symbols} {e : Entries} {finish : State → Except Exn State}
  {v : Machine Sregs F} {g : Regs} {m : Nat → UInt8}

theorem Long.withMem {s : Sys} (h : Long y s) (ht : TablesAt m y.bootP4) (rip : Nat) :
    Long y { s with mem := m, rip := rip } :=
  ⟨h.protected_, h.paging, h.active, h.pae, h.cr3, h.cs, ht⟩

theorem skipOut_toNat (he : e.Placed) (hrip : v.regs.rip.toNat = e.hypercall) :
    v.regs.skipOut.rip.toNat = e.hypercall + 2 := by
  have hlow := he.hypercall
  show (v.regs.rip + 2).toNat = _
  rw [BitVec.toNat_add, hrip, show (2 : BitVec 64).toNat = 2 from rfl]
  omega

/-- **The return from `__hypercall`** goes where the word at `rsp` says. -/
theorem hypercallRet_ok (h : Long y (cpu v).sys)
    (hrip : v.regs.rip.toNat = e.hypercall) (hstack : v.regs.rsp.toNat + 8 ≤ 2 ^ 30)
    (he : e.Placed) (ht : TablesAt m y.bootP4) :
    (cpu { v with regs := v.regs.skipOut, mem := m }).run e.hypercallRet =
      .ok ⟨{ (cpu v).sys with mem := m, rip := word m v.regs.rsp.toNat 8 },
        (gprs v.regs).set .rsp (v.regs.rsp + 8)⟩ := by
  have hlong : Long y (cpu { v with regs := v.regs.skipOut, mem := m }).sys :=
    h.withMem ht _
  have hf := hlong.fetches (b := e.hypercallRet) (skipOut_toNat he hrip) rfl he.hypercall
  have hword : word m v.regs.rsp.toNat 8 =
      (BitVec.ofNat 64 (word m v.regs.rsp.toNat 8)).toNat := by
    rw [BitVec.toNat_ofNat, Nat.mod_eq_of_lt]
    exact word_lt m _ 8
  have hpop := State.pop_ok hlong.codeBits rfl
    (hlong.identity (show v.regs.rsp.toNat < 2 ^ 30 by omega)) hword
  refine (runList_cons hf (State.exec_ret hpop)).trans ?_
  rw [← hword]
  rfl

theorem exec_calling {c : State} {target back : Nat} (h : Long y c.sys) (hy : y.Placed)
    (hrsp : c.gpr .rsp = BitVec.ofNat 64 (y.stackBase - 16)) :
    (Insn.call target back).exec c = .ok (calling y target back c) :=
  State.exec_call (push_stack (n := 16) h hy (by decide) hrsp _)

/-- A call with one argument. -/
theorem movCall_ok {s : Sys} {a target back : Nat} {x : BitVec 64} (h : Long y s)
    (hy : y.Placed) (hrip : s.rip = a) (ha : a < 2 ^ 30)
    (hrsp : g .rsp = BitVec.ofNat 64 (y.stackBase - 16)) :
    State.run ⟨s, g⟩ ⟨64, a, [.movImm .rdi x, .call target back]⟩ =
      .ok (calling y target back ⟨s, g.set .rdi x⟩) := by
  have hf := h.fetches (b := ⟨64, a, [.movImm .rdi x, .call target back]⟩) hrip rfl ha
  have hrsp' := (Regs.set_of_ne g x (by decide : Gpr.rsp ≠ .rdi)).trans hrsp
  exact (runList_cons hf rfl).trans ((runList_cons hf (exec_calling h hy hrsp')).trans rfl)

theorem callMain_ok (h : Long y (cpu v).sys) (hy : y.Placed) (he : e.Placed)
    (ht : TablesAt m y.bootP4) (hrsp : g .rsp = BitVec.ofNat 64 (y.stackBase - 16)) :
    State.run ⟨{ (cpu v).sys with mem := m, rip := e.afterSnapshot }, g⟩ e.callMain =
      .ok (atMain y e v g m) :=
  movCall_ok (h.withMem ht e.afterSnapshot) hy rfl he.afterSnapshot hrsp

/-- **From the snapshot to `__virtine_main`**, with any memory that has the
stack and the tables of the snapshot. -/
theorem goOn_ok (h : InSnapshot y e finish (cpu v) g) (hy : y.Placed) (he : e.Placed)
    (ht : TablesAt m y.bootP4)
    (hm : ∀ a, v.regs.rsp.toNat ≤ a → a < y.stackBase → m a = v.mem a) :
    e.goOn finish (cpu { v with regs := v.regs.skipOut, mem := m }) =
      .ok (atMain y e v g m) := by
  have hbase := hy.stack
  have hstack : v.regs.rsp.toNat + 8 ≤ y.stackBase - 24 := h.stack
  have hret := hypercallRet_ok h.long h.rip (by omega) he ht
  have hfinish : finish ⟨{ (cpu v).sys with mem := m, rip := word v.mem v.regs.rsp.toNat 8 },
      (gprs v.regs).set .rsp (v.regs.rsp + 8)⟩ = .ok _ := h.finish m hm
  have hword : word m v.regs.rsp.toNat 8 = word v.mem v.regs.rsp.toNat 8 :=
    word_congr fun i hi => hm _ (by omega) (by omega)
  rw [hword] at hret
  simp only [Entries.goOn, hret, hfinish, callMain_ok h.long hy he ht h.rsp, bind,
    Except.bind]

end

/-! ## Later calls -/

/-- What holds at the entry of `__virtine_main` in a call after the snapshot
that `v` took: its own argument, for the rest the registers and the memory of
the snapshot. -/
structure EntersMain (y : Symbols) (e : Entries) (v : Machine Sregs F) (g : Regs)
    (call : Call) (c : State) : Prop where
  long : Long y c.sys
  rip : c.sys.rip = e.main
  rdi : c.gpr .rdi = 0
  rsp : c.gpr .rsp = BitVec.ofNat 64 (y.stackBase - 24)
  gprs : ∀ r, r ≠ .rdi → r ≠ .rsp → c.gpr r = g r
  back : word c.sys.mem (y.stackBase - 24) 8 = e.afterMain
  argument : ∀ a, call.arg = some a → ∀ i < call.argsz.toNat, c.sys.mem i = a i
  mem : ∀ b < v.regs.rdx.toNat, call.arg = none ∨ call.argsz.toNat ≤ b →
    b < y.stackBase - 24 ∨ y.stackBase - 16 ≤ b → c.sys.mem b = v.mem b

section

variable {v w : Virtine Sregs F} {call : Call} {env : Env} {kvm : Kvm Sregs F}
  {caches : Caches Sregs F} {st : LoopState Sregs F}

/-- A call on a virtine that resumes the snapshot of `v`. -/
structure Warm (v : Machine Sregs F) (call : Call) (m : Nat → UInt8) : Prop where
  argument : ∀ a, call.arg = some a → ∀ i < call.argsz.toNat, m i = a i
  mem : ∀ b < v.regs.rdx.toNat, call.arg = none ∨ call.argsz.toNat ≤ b → m b = v.mem b

theorem atMain_enters {y : Symbols} {e : Entries} {finish : State → Except Exn State}
    {g : Regs} {v : Machine Sregs F} {m : Nat → UInt8} (h : InSnapshot y e finish (cpu v) g)
    (hy : y.Placed) (he : e.Placed) (ht : TablesAt m y.bootP4) (hm : Warm v call m)
    (hargsz : call.argsz.toNat ≤ v.regs.rsp.toNat) :
    EntersMain y e v g call (atMain y e v g m) := by
  have hbase := hy.stack
  have hstack : v.regs.rsp.toNat + 8 ≤ y.stackBase - 24 := h.stack
  have hback := he.afterMain
  constructor
  case long => exact (h.long.withMem ht e.main).store _ (by omega)
  case rip | rdi | rsp => rfl
  case gprs =>
    intro r hrdi hrsp
    simp [atMain, calling, Regs.set, hrdi, hrsp]
  case back =>
    refine (word_storeWord m _ _).trans ?_
    rw [BitVec.toNat_ofNat]
    omega
  case argument =>
    intro a ha i hi
    exact (storeWord_outside (by omega)).trans (hm.argument a ha i hi)
  case mem =>
    intro b hb hout hslot
    exact (storeWord_outside (by omega)).trans (hm.mem b hb hout)

/-- The saved part of the memory ends behind the tables: the break is never
below the end of the image. -/
theorem tables_saved {o : Objects} (ho : o.Valid) {h : Libc.Heap} {incrs : List (BitVec 64)}
    (hrun : Run (Libc.Heap.FittingCall (BitVec.ofNat 64 o.heapStart))
      (.init (BitVec.ofNat 64 o.heapStart)) incrs h) :
    o.symbols.bootP4 + 3 * pageSize ≤ h.heapend.toNat := by
  obtain ⟨-, -, himage, hbss⟩ := sections_ordered ho
  have hlow := ho.low
  have hbreak := Libc.heapStart_le_heapend hrun
  rw [BitVec.toNat_ofNat, Nat.mod_eq_of_lt (by omega)] at hbreak
  omega

end

/-- A `__snapshot` that only takes its frame off the stack. -/
def leave (c : State) : Except Exn State :=
  .ok ⟨{ c.sys with rip := 0x8010 }, c.gpr.set .rsp (BitVec.ofNat 64 (0x8000 - 16))⟩

section

variable {m : Nat → UInt8}

end

end Boot

end Wasp
