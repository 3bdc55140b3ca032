import Wasp.Lib.Words
import Wasp.Runtime.Hypercall

/-!
# Syscalls — the guest's libc wrappers

`libc/newlib/libc/sys/virtine/syscalls.c`: the functions of the guest's
libc that end in a hypercall. Calling one of them comes down to two things:
the registers at the `out` instruction of `__hypercall`
(`pass/rt/boot64.asm`), and what is made of `rax` after it.

An `int` is a `BitVec 32`, a `long` or a pointer a `BitVec 64`; an `int`
that is passed as a `long long` is sign-extended.
-/

namespace Wasp

namespace Libc

open Words

/-! ## The numbers of `syscalls.c` -/

def hcallClose : BitVec 32 := 1
def hcallFstat : BitVec 32 := 2
def hcallOpen : BitVec 32 := 5
def hcallRead : BitVec 32 := 6
def hcallWrite : BitVec 32 := 10

/-- The registers at the `out` of `__hypercall(nr, a, b, c)`. The arguments
are where the System V convention puts them; `nr` is a constant, and
loading it into `edi` clears the upper half of `rdi`. -/
def hypercall (regs : VirtineRegisters) (nr : BitVec 32) (a b c : BitVec 64) :
    VirtineRegisters :=
  { regs with rdi := nr.setWidth 64, rsi := a, rdx := b, rcx := c }

/-! ## Entering -/

section

variable (regs : VirtineRegisters)

def close (file : BitVec 32) : VirtineRegisters :=
  hypercall regs hcallClose (file.signExtend 64) 0 0

def _close (file : BitVec 32) : VirtineRegisters :=
  hypercall regs hcallClose (file.signExtend 64) 0 0

def fstat (file : BitVec 32) (st : BitVec 64) : VirtineRegisters :=
  hypercall regs hcallFstat (file.signExtend 64) st 0

def _fstat (file : BitVec 32) (st : BitVec 64) : VirtineRegisters :=
  hypercall regs hcallFstat (file.signExtend 64) st 0

/-- `O_CREAT` of the guest's `sys/_default_fcntl.h`. -/
def oCreat : BitVec 32 := 0x0200

/-- `open`. The variadic `mode` is looked at when `flags` ask for creation. -/
def open_ (filename : BitVec 64) (flags mode : BitVec 32) : VirtineRegisters :=
  let mode := if flags &&& oCreat ≠ 0 then mode else 0
  hypercall regs hcallOpen filename (flags.signExtend 64) (mode.setWidth 64)

def read (file : BitVec 32) (ptr : BitVec 64) (len : BitVec 32) : VirtineRegisters :=
  hypercall regs hcallRead (file.signExtend 64) ptr (len.signExtend 64)

def _read (file : BitVec 32) (ptr : BitVec 64) (len : BitVec 32) : VirtineRegisters :=
  read regs file ptr len

/-- `stat`: the path is passed where `HCALL_fstat` expects a descriptor. -/
def stat (file st : BitVec 64) : VirtineRegisters :=
  hypercall regs hcallFstat file st 0

def write (file : BitVec 32) (ptr : BitVec 64) (len : BitVec 32) : VirtineRegisters :=
  hypercall regs hcallWrite (file.signExtend 64) ptr (len.signExtend 64)

def _write (file : BitVec 32) (ptr : BitVec 64) (len : BitVec 32) : VirtineRegisters :=
  write regs file ptr len

end

/-- A call of one of the wrappers. -/
inductive Wrapper where
  | close (file : BitVec 32)
  | _close (file : BitVec 32)
  | fstat (file : BitVec 32) (st : BitVec 64)
  | _fstat (file : BitVec 32) (st : BitVec 64)
  | open_ (filename : BitVec 64) (flags mode : BitVec 32)
  | read (file : BitVec 32) (ptr : BitVec 64) (len : BitVec 32)
  | _read (file : BitVec 32) (ptr : BitVec 64) (len : BitVec 32)
  | stat (file st : BitVec 64)
  | write (file : BitVec 32) (ptr : BitVec 64) (len : BitVec 32)
  | _write (file : BitVec 32) (ptr : BitVec 64) (len : BitVec 32)
  deriving DecidableEq, Repr

/-- The registers with which the call exits to the host. -/
def Wrapper.enter (regs : VirtineRegisters) : Wrapper → VirtineRegisters
  | close file => Libc.close regs file
  | _close file => Libc._close regs file
  | fstat file st => Libc.fstat regs file st
  | _fstat file st => Libc._fstat regs file st
  | open_ filename flags mode => Libc.open_ regs filename flags mode
  | read file ptr len => Libc.read regs file ptr len
  | _read file ptr len => Libc._read regs file ptr len
  | stat file st => Libc.stat regs file st
  | write file ptr len => Libc.write regs file ptr len
  | _write file ptr len => Libc._write regs file ptr len

/-! ## Returning -/

/-- `__syscall_ret`: the value, and `errno` after it. -/
def syscallRet (r : BitVec 64) : BitVec 64 × BitVec 32 :=
  if r.toInt < 0 then (-1, (-r).setWidth 32) else (r, 0)

/-- What `open` makes of `rax`: it goes through an `int` first. -/
def openRet (rax : BitVec 64) : BitVec 32 × BitVec 32 :=
  let (r, errno) := syscallRet (throughInt rax)
  (r.setWidth 32, errno)

/-- A small negative `rax` is taken for an `errno`. -/
theorem openRet_neg {rax : BitVec 64} {e : Nat} (h : rax.toInt = -e) (h1 : 1 ≤ e)
    (h2 : e ≤ 4095) : openRet rax = (-1, BitVec.ofNat 32 e) := by
  have hint : throughInt rax = rax := throughInt_eq_iff.mpr (by omega)
  have hneg : rax.toInt < 0 := by omega
  have herr : (-rax).setWidth 32 = BitVec.ofNat 32 e := by
    rw [eq_neg_ofNat h, BitVec.neg_neg]
    exact BitVec.setWidth_ofNat_of_le (by decide) e
  simp only [openRet, syscallRet, hint, if_pos hneg, herr]
  rfl

end Libc

end Wasp
