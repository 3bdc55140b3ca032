import Wasp.Lib.ByteMem
import Wasp.Lib.PageTable

/-!
# Processor — the operating modes of an x86-64 processor

The part of the processor that decides in which mode it runs and what an
address means (`Sys`): control registers, `EFER`, the descriptor table, the
segment registers with the descriptors cached in them. A segment register
keeps its cached descriptor until it is loaded again, whatever the mode. The
instructions are those that change the mode, and a few to compute with.

Code is given in blocks. All instructions of a block are fetched at the
address of the block: the processor must be in the mode the block is
assembled for, and the address must be in the code segment and translate to
itself. An access is translated at its first byte. Privilege levels other
than zero, 32-bit paging and other model-specific registers are left out;
running into them is `ud` here.
-/

namespace Wasp.Processor

open ByteMem LittleEndian PageTable

inductive Gpr where
  | rax | rbx | rcx | rdx | rsi | rdi | rbp | rsp
  | r8 | r9 | r10 | r11 | r12 | r13 | r14 | r15
  deriving DecidableEq, Repr

inductive SegReg where
  | cs | ds | es | fs | gs | ss
  deriving DecidableEq, Repr

inductive Cr where
  | cr0 | cr3 | cr4
  deriving DecidableEq, Repr

/-- The cached descriptor of a segment register. -/
structure Segment where
  base : Nat
  limit : Nat
  long : Bool
  big : Bool
  deriving DecidableEq, Repr

structure Sys where
  cr0 : BitVec 64
  cr3 : BitVec 64
  cr4 : BitVec 64
  efer : BitVec 64
  gdtBase : Nat
  gdtLimit : Nat
  seg : SegReg → Segment
  interrupts : Bool
  rip : Nat
  mem : Nat → UInt8

/-- General protection, page fault, and everything that is not modelled. -/
inductive Exn where
  | gp
  | pf
  | ud
  deriving DecidableEq, Repr

/-! ## Descriptors -/

namespace Descriptor

def base (d : Nat) : Nat := d / 2 ^ 16 % 2 ^ 24 + 2 ^ 24 * (d / 2 ^ 56 % 2 ^ 8)

def limit (d : Nat) : Nat :=
  let pages := d % 2 ^ 16 + 2 ^ 16 * (d / 2 ^ 48 % 16)
  if d / 2 ^ 55 % 2 = 1 then pages * 4096 + 4095 else pages

def segment (d : Nat) : Segment :=
  { base := base d, limit := limit d, long := d / 2 ^ 53 % 2 == 1, big := d / 2 ^ 54 % 2 == 1 }

/-- A present segment of privilege level zero, of code or of data. -/
def usable (d : Nat) (code : Bool) : Bool :=
  d / 2 ^ 47 % 2 == 1 && d / 2 ^ 45 % 4 == 0 && d / 2 ^ 44 % 2 == 1 &&
    (d / 2 ^ 43 % 2 == 1) == code

def writable (d : Nat) : Bool := d / 2 ^ 41 % 2 == 1

end Descriptor

/-! ## Words in memory -/

def storeWord (m : Nat → UInt8) (a : Nat) (x : BitVec 64) : Nat → UInt8 :=
  blit m a (fun i => (bytes 8 x.toNat).getD i 0) 8

theorem storeWord_outside {m : Nat → UInt8} {a b : Nat} {x : BitVec 64}
    (h : b < a ∨ a + 8 ≤ b) : storeWord m a x b = m b :=
  blit_outside h

theorem word_storeWord (m : Nat → UInt8) (a : Nat) (x : BitVec 64) :
    word (storeWord m a x) a 8 = x.toNat := by
  have hread : (List.range 8).map (fun i => storeWord m a x (a + i)) = bytes 8 x.toNat := by
    apply List.ext_getElem
    · simp
    · intro i hi hi'
      have hlt : i < 8 := by simpa using hi
      rw [List.getElem_map, List.getElem_range, storeWord, blit_offset hlt,
        List.getD_eq_getElem?_getD, List.getElem?_eq_getElem hi', Option.getD_some]
  rw [word, hread, value_bytes]
  exact Nat.mod_eq_of_lt x.isLt

theorem word_storeWord_outside {m : Nat → UInt8} {a b n : Nat} {x : BitVec 64}
    (h : b + n ≤ a ∨ a + 8 ≤ b) : word (storeWord m a x) b n = word m b n :=
  word_congr fun _ _ => storeWord_outside (by omega)

/-! ## Modes and addresses -/

namespace Sys

/-- `CR0.PE` -/
def protected_ (s : Sys) : Bool := s.cr0.getLsbD 0

/-- `CR0.PG` -/
def paging (s : Sys) : Bool := s.cr0.getLsbD 31

/-- `EFER.LMA` -/
def longActive (s : Sys) : Bool := s.efer.getLsbD 10

/-- The size the code is decoded with. -/
def codeBits (s : Sys) : Nat :=
  if s.longActive && (s.seg .cs).long then 64 else if (s.seg .cs).big then 32 else 16

def translate (s : Sys) (linear : Nat) : Except Exn Nat :=
  if s.paging then
    match walk s.mem s.cr3.toNat linear with
    | .page pa _ _ => .ok pa
    | .notPresent | .nonCanonical => .error .pf
  else .ok linear

/-- The linear address of an operand; outside 64-bit code it is checked
against the limit and the base is added. -/
def linear (s : Sys) (r : SegReg) (ea n : Nat) : Except Exn Nat :=
  if s.codeBits = 64 then .ok ea
  else if (s.seg r).limit < ea + n - 1 then .error .gp
  else .ok ((s.seg r).base + ea)

def readLinear (s : Sys) (a n : Nat) : Except Exn Nat :=
  match s.translate a with
  | .ok pa => .ok (word s.mem pa n)
  | .error e => .error e

theorem translate_unpaged {s : Sys} (h : s.paging = false) (a : Nat) :
    s.translate a = .ok a := by
  simp [translate, h]

theorem readLinear_of {s : Sys} {a pa : Nat} (h : s.translate a = .ok pa) (n : Nat) :
    s.readLinear a n = .ok (word s.mem pa n) := by
  simp [readLinear, h]

/-- The descriptor a selector names. -/
def descriptor (s : Sys) (sel : Nat) : Except Exn Nat :=
  if sel / 8 = 0 ∨ s.gdtLimit < sel / 8 * 8 + 7 then .error .gp
  else s.readLinear (s.gdtBase + sel / 8 * 8) 8

/-! ## System instructions -/

def setSeg (s : Sys) (r : SegReg) (d : Segment) : Sys :=
  { s with seg := fun q => if q = r then d else s.seg q }

/-- Going on at `target` with the code segment `cs`. -/
def enter (s : Sys) (cs : Segment) (target : Nat) : Sys :=
  { s.setSeg .cs cs with rip := target }

/-- A far jump. -/
def jumpFar (s : Sys) (sel target : Nat) : Except Exn Sys :=
  if s.protected_ then
    match s.descriptor sel with
    | .error e => .error e
    | .ok d =>
        let cs := Descriptor.segment d
        if !Descriptor.usable d true then .error .gp
        else if s.longActive && cs.long then
          if cs.big || !canonical target then .error .gp
          else .ok (s.enter cs target)
        else if cs.limit < target then .error .gp
        else .ok (s.enter cs target)
  else .ok (s.enter { s.seg .cs with base := 16 * sel } target)

/-- A load of a data segment register. -/
def loadSeg (s : Sys) (r : SegReg) (sel : Nat) : Except Exn Sys :=
  if s.protected_ then
    if sel / 4 = 0 ∧ r ≠ .ss then .ok (s.setSeg r ⟨0, 0, false, false⟩)
    else
      match s.descriptor sel with
      | .error e => .error e
      | .ok d =>
          if Descriptor.usable d false && Descriptor.writable d then
            .ok (s.setSeg r (Descriptor.segment d))
          else .error .gp
  else .ok (s.setSeg r { s.seg r with base := 16 * sel })

/-- A load of `GDTR`; code of 16 bits reads 24 bits of the base. -/
def lgdt (s : Sys) (ea : Nat) : Except Exn Sys :=
  match s.linear .ds ea 6 with
  | .error e => .error e
  | .ok a =>
      match s.readLinear a 2, s.readLinear (a + 2) 4 with
      | .ok limit, .ok base =>
          .ok { s with gdtBase := if s.codeBits = 16 then base % 2 ^ 24 else base,
                       gdtLimit := limit }
      | _, _ => .error .pf

def cr (s : Sys) : Cr → BitVec 64
  | .cr0 => s.cr0
  | .cr3 => s.cr3
  | .cr4 => s.cr4

/-- A write of a control register. Paging goes on together with long mode,
if `EFER.LME` is set; it needs `CR4.PAE` and a code segment that is not one
of 64 bits. -/
def setCr (s : Sys) (n : Cr) (x : BitVec 64) : Except Exn Sys :=
  match n with
  | .cr3 => .ok { s with cr3 := x }
  | .cr4 => if s.longActive && !x.getLsbD 5 then .error .gp else .ok { s with cr4 := x }
  | .cr0 =>
      if x.getLsbD 31 then
        if !x.getLsbD 0 then .error .gp
        else if s.paging then .ok { s with cr0 := x }
        else if !s.efer.getLsbD 8 then .error .ud
        else if !s.cr4.getLsbD 5 || (s.seg .cs).long then .error .gp
        else .ok { s with cr0 := x, efer := s.efer ||| 0x400 }
      else if s.paging then .error .ud
      else .ok { s with cr0 := x }

/-- A write of `EFER`; `LMA` is not written. -/
def setEfer (s : Sys) (x : BitVec 64) : Except Exn Sys :=
  if s.paging && x.getLsbD 8 != s.efer.getLsbD 8 then .error .gp
  else .ok { s with efer := x &&& ~~~ 0x400 ||| s.efer &&& 0x400 }

def store (s : Sys) (a : Nat) (x : BitVec 64) : Except Exn Sys :=
  match s.translate a with
  | .ok pa => .ok { s with mem := storeWord s.mem pa x }
  | .error e => .error e

section

variable {s : Sys} {ea sel target d base limit : Nat} {r : SegReg} {x : BitVec 64}

theorem lgdt_ok (hb : s.codeBits ≠ 64) (hl : ea + 5 ≤ (s.seg .ds).limit)
    (hz : (s.seg .ds).base = 0) (ht : s.translate ea = .ok ea)
    (ht' : s.translate (ea + 2) = .ok (ea + 2)) (hlimit : word s.mem ea 2 = limit)
    (hbase : word s.mem (ea + 2) 4 = base) (h16 : s.codeBits = 16 → base < 2 ^ 24) :
    s.lgdt ea = .ok { s with gdtBase := base, gdtLimit := limit } := by
  have hlin : s.linear .ds ea 6 = .ok ea := by
    rw [linear, if_neg hb, if_neg (by omega), hz, Nat.zero_add]
  have hwhole : (if s.codeBits = 16 then base % 2 ^ 24 else base) = base := by
    split
    · exact Nat.mod_eq_of_lt (h16 ‹_›)
    · rfl
  simp only [lgdt, hlin, readLinear_of ht, readLinear_of ht', hlimit, hbase, hwhole]

theorem descriptor_of (hsel : sel / 8 ≠ 0) (hbase : s.gdtBase = base)
    (hlimit : sel / 8 * 8 + 7 ≤ s.gdtLimit)
    (ht : s.translate (base + sel / 8 * 8) = .ok (base + sel / 8 * 8))
    (hd : word s.mem (base + sel / 8 * 8) 8 = d) : s.descriptor sel = .ok d := by
  rw [descriptor, if_neg (by omega), hbase, readLinear_of ht, hd]

theorem jumpFar_ok (hp : s.protected_ = true) (hd : s.descriptor sel = .ok d)
    (hu : Descriptor.usable d true = true)
    (hlong : (s.longActive && (Descriptor.segment d).long) = true →
      (Descriptor.segment d).big = false ∧ canonical target = true)
    (hlimit : (s.longActive && (Descriptor.segment d).long) = false →
      target ≤ (Descriptor.segment d).limit) :
    s.jumpFar sel target = .ok (s.enter (Descriptor.segment d) target) := by
  simp only [jumpFar, hp, if_true, hd, hu, Bool.not_true, Bool.false_eq_true, if_false]
  by_cases hl : (s.longActive && (Descriptor.segment d).long) = true
  · obtain ⟨hb, hcan⟩ := hlong hl
    simp [hl, hb, hcan]
  · have hl' : (s.longActive && (Descriptor.segment d).long) = false := by simpa using hl
    rw [if_neg hl, if_neg (by have := hlimit hl'; omega)]

theorem loadSeg_null (hp : s.protected_ = true) (hsel : sel / 4 = 0) (hr : r ≠ .ss) :
    s.loadSeg r sel = .ok (s.setSeg r ⟨0, 0, false, false⟩) := by
  simp [loadSeg, hp, hsel, hr]

theorem loadSeg_data (hp : s.protected_ = true) (hsel : sel / 4 ≠ 0)
    (hd : s.descriptor sel = .ok d)
    (hu : (Descriptor.usable d false && Descriptor.writable d) = true) :
    s.loadSeg r sel = .ok (s.setSeg r (Descriptor.segment d)) := by
  simp only [loadSeg, hp, if_true, hsel, false_and, if_false, hd, hu]

theorem setCr0_unpaged (hx : x.getLsbD 31 = false) (hp : s.paging = false) :
    s.setCr .cr0 x = .ok { s with cr0 := x } := by
  simp only [setCr, hx, hp, Bool.false_eq_true, if_false]

theorem setCr0_long (hx : x.getLsbD 31 = true) (hx' : x.getLsbD 0 = true)
    (hp : s.paging = false) (hlme : s.efer.getLsbD 8 = true) (hpae : s.cr4.getLsbD 5 = true)
    (hcs : (s.seg .cs).long = false) :
    s.setCr .cr0 x = .ok { s with cr0 := x, efer := s.efer ||| 0x400 } := by
  simp only [setCr, hx, hx', hp, hlme, hpae, hcs, Bool.not_true, Bool.or_false,
    Bool.false_eq_true, if_false, if_true]

theorem setCr0_paged (hx : x.getLsbD 31 = true) (hx' : x.getLsbD 0 = true)
    (hp : s.paging = true) : s.setCr .cr0 x = .ok { s with cr0 := x } := by
  simp only [setCr, hx, hx', hp, Bool.not_true, Bool.false_eq_true, if_false, if_true]

theorem setCr4_ok (h : s.longActive = false ∨ x.getLsbD 5 = true) :
    s.setCr .cr4 x = .ok { s with cr4 := x } := by
  rcases h with h | h <;>
    simp only [setCr, h, Bool.false_and, Bool.not_true, Bool.and_false, Bool.false_eq_true,
      if_false]

theorem setEfer_unpaged (hp : s.paging = false) :
    s.setEfer x = .ok { s with efer := x &&& ~~~ 0x400 ||| s.efer &&& 0x400 } := by
  simp [setEfer, hp]

theorem store_of {a pa : Nat} (h : s.translate a = .ok pa) :
    s.store a x = .ok { s with mem := storeWord s.mem pa x } := by
  simp [store, h]

end

end Sys

/-! ## Instructions -/

abbrev Regs := Gpr → BitVec 64

namespace Regs

def set (g : Regs) (r : Gpr) (x : BitVec 64) : Regs := fun q => if q = r then x else g q

/-- The low half of a register. -/
def low (g : Regs) (r : Gpr) : BitVec 32 := (g r).setWidth 32

/-- A write of the low half clears the high one. -/
def setLow (g : Regs) (r : Gpr) (x : BitVec 32) : Regs := g.set r (x.setWidth 64)

section

variable (g : Regs) {r q : Gpr}

@[simp] theorem set_self (r : Gpr) (x : BitVec 64) : g.set r x r = x := if_pos rfl

theorem set_of_ne (x : BitVec 64) (h : q ≠ r) : g.set r x q = g q := if_neg h

@[simp] theorem setLow_self (r : Gpr) (x : BitVec 32) : g.setLow r x r = x.setWidth 64 :=
  if_pos rfl

@[simp] theorem low_setLow_self (r : Gpr) (x : BitVec 32) : (g.setLow r x).low r = x := by
  rw [low, setLow_self, BitVec.setWidth_setWidth_of_le _ (by decide), BitVec.setWidth_eq]

theorem setWidth_set16 (w : BitVec 64) (r : Gpr) (x : BitVec 16) :
    (g.set r (w &&& ~~~ 0xFFFF ||| x.setWidth 64) r).setWidth 16 = x := by
  rw [set_self]
  ext i hi
  simp

theorem low_setLow_of_ne (x : BitVec 32) (h : q ≠ r) : (g.setLow r x).low q = g.low q := by
  rw [low, setLow, set_of_ne g _ h, low]

end

end Regs

structure State where
  sys : Sys
  gpr : Regs

inductive Insn where
  | cli
  | movImm (r : Gpr) (x : BitVec 64)
  | movImm32 (r : Gpr) (x : BitVec 32)
  | movImm16 (r : Gpr) (x : BitVec 16)
  | mov (dst src : Gpr)
  | mov32 (dst src : Gpr)
  | or8 (r : Gpr) (x : BitVec 8)
  | or16 (r : Gpr) (x : BitVec 16)
  | and16 (r : Gpr) (x : BitVec 16)
  | or32 (r : Gpr) (x : BitVec 32)
  | readCr (r : Gpr) (n : Cr)
  | readCr32 (r : Gpr) (n : Cr)
  | writeCr (n : Cr) (r : Gpr)
  | writeCr32 (n : Cr) (r : Gpr)
  | rdmsr
  | wrmsr
  /-- `lgdt [r]`, with a 32-bit address -/
  | lgdtReg (r : Gpr)
  | lgdt (a : Nat)
  | movSeg (s : SegReg) (r : Gpr)
  | jmpFar (sel target : Nat)
  | push (r : Gpr)
  | pop (r : Gpr)
  /-- `back` is the address of the instruction after the call -/
  | call (target back : Nat)
  | ret

def msrEfer : BitVec 32 := 0xC0000080

namespace State

def onSys (c : State) : Except Exn Sys → Except Exn State
  | .ok s => .ok { c with sys := s }
  | .error e => .error e

/-- A push in 64-bit code. -/
def push (c : State) (x : BitVec 64) : Except Exn State :=
  let sp := c.gpr .rsp - 8
  if c.sys.codeBits = 64 then
    match c.sys.store sp.toNat x with
    | .ok s => .ok ⟨s, c.gpr.set .rsp sp⟩
    | .error e => .error e
  else .error .ud

/-- A pop in 64-bit code: the word and the state after it. -/
def pop (c : State) : Except Exn (BitVec 64 × State) :=
  let sp := c.gpr .rsp
  if c.sys.codeBits = 64 then
    match c.sys.readLinear sp.toNat 8 with
    | .ok x => .ok (BitVec.ofNat 64 x, ⟨c.sys, c.gpr.set .rsp (sp + 8)⟩)
    | .error e => .error e
  else .error .ud

end State

def Insn.exec (c : State) : Insn → Except Exn State
  | .cli => .ok ⟨{ c.sys with interrupts := false }, c.gpr⟩
  | .movImm r x => .ok ⟨c.sys, c.gpr.set r x⟩
  | .movImm32 r x => .ok ⟨c.sys, c.gpr.setLow r x⟩
  | .movImm16 r x => .ok ⟨c.sys, c.gpr.set r (c.gpr r &&& ~~~ 0xFFFF ||| x.setWidth 64)⟩
  | .mov dst src => .ok ⟨c.sys, c.gpr.set dst (c.gpr src)⟩
  | .mov32 dst src => .ok ⟨c.sys, c.gpr.setLow dst (c.gpr.low src)⟩
  | .or8 r x => .ok ⟨c.sys, c.gpr.set r (c.gpr r ||| x.setWidth 64)⟩
  | .or16 r x => .ok ⟨c.sys, c.gpr.set r (c.gpr r ||| x.setWidth 64)⟩
  | .and16 r x => .ok ⟨c.sys, c.gpr.set r (c.gpr r &&& (~~~ 0xFFFF ||| x.setWidth 64))⟩
  | .or32 r x => .ok ⟨c.sys, c.gpr.setLow r (c.gpr.low r ||| x)⟩
  | .readCr r n => .ok ⟨c.sys, c.gpr.set r (c.sys.cr n)⟩
  | .readCr32 r n => .ok ⟨c.sys, c.gpr.setLow r ((c.sys.cr n).setWidth 32)⟩
  | .writeCr n r => c.onSys (c.sys.setCr n (c.gpr r))
  | .writeCr32 n r => c.onSys (c.sys.setCr n ((c.gpr.low r).setWidth 64))
  | .rdmsr =>
      if c.gpr.low .rcx = msrEfer then
        .ok ⟨c.sys, (c.gpr.setLow .rax (c.sys.efer.setWidth 32)).setLow .rdx
          ((c.sys.efer >>> 32).setWidth 32)⟩
      else .error .ud
  | .wrmsr =>
      if c.gpr.low .rcx = msrEfer then
        c.onSys (c.sys.setEfer (c.gpr.low .rdx ++ c.gpr.low .rax))
      else .error .ud
  | .lgdtReg r => c.onSys (c.sys.lgdt (c.gpr.low r).toNat)
  | .lgdt a => c.onSys (c.sys.lgdt a)
  | .movSeg s r => c.onSys (c.sys.loadSeg s ((c.gpr r).setWidth 16).toNat)
  | .jmpFar sel target => c.onSys (c.sys.jumpFar sel target)
  | .push r => c.push (c.gpr r)
  | .pop r =>
      match c.pop with
      | .ok (x, c) => .ok ⟨c.sys, c.gpr.set r x⟩
      | .error e => .error e
  | .call target back =>
      match c.push (BitVec.ofNat 64 back) with
      | .ok c => .ok ⟨{ c.sys with rip := target }, c.gpr⟩
      | .error e => .error e
  | .ret =>
      match c.pop with
      | .ok (x, c) => .ok ⟨{ c.sys with rip := x.toNat }, c.gpr⟩
      | .error e => .error e

/-! ## Blocks -/

/-- Code for the size `bits`, at an address. -/
structure Code where
  bits : Nat
  addr : Nat
  body : List Insn

/-- The processor can go on in the block. -/
def Sys.fetches (s : Sys) (b : Code) : Bool :=
  s.rip == b.addr && s.codeBits == b.bits &&
    (b.bits == 64 || decide (b.addr ≤ (s.seg .cs).limit) && (s.seg .cs).base == 0) &&
    match s.translate b.addr with
    | .ok pa => pa == b.addr
    | .error _ => false

theorem Sys.fetches_of {s : Sys} {b : Code} (hrip : s.rip = b.addr)
    (hbits : s.codeBits = b.bits)
    (hseg : b.bits = 64 ∨ b.addr ≤ (s.seg .cs).limit ∧ (s.seg .cs).base = 0)
    (hmap : s.translate b.addr = .ok b.addr) : s.fetches b = true := by
  simp only [fetches, hrip, hbits, hmap, beq_self_eq_true, Bool.true_and, Bool.and_true]
  rcases hseg with h | ⟨hl, hb⟩
  · simp [h]
  · simp [hl, hb]

def runList (b : Code) : List Insn → State → Except Exn State
  | [], c => .ok c
  | i :: is, c =>
      if c.sys.fetches b then
        match i.exec c with
        | .ok c => runList b is c
        | .error e => .error e
      else .error .ud

def State.run (c : State) (b : Code) : Except Exn State := runList b b.body c

section

variable {b : Code} {c c' : State} {i : Insn} {is : List Insn}

theorem runList_cons (hf : c.sys.fetches b = true) (he : i.exec c = .ok c') :
    runList b (i :: is) c = runList b is c' := by
  simp only [runList, hf, if_true, he]

/-- **Code in sequence.** -/
theorem runList_append {is' : List Insn} (h : runList b is c = .ok c') :
    runList b (is ++ is') c = runList b is' c' := by
  induction is generalizing c with
  | nil =>
      cases h
      rfl
  | cons i is ih =>
      simp only [runList, List.cons_append] at h ⊢
      split at h
      · rw [if_pos ‹_›]
        split at h
        · exact ih h
        · cases h
      · cases h

end

section

variable {b : Code} {s s' : Sys} {g : Regs} {n : Cr}

theorem exec_writeCr32 {r : Gpr} {x : BitVec 32} (hr : g.low r = x)
    (he : s.setCr n (x.setWidth 64) = .ok s') :
    (Insn.writeCr32 n r).exec ⟨s, g⟩ = .ok ⟨s', g⟩ := by
  simp only [Insn.exec, hr, he, State.onSys]

theorem exec_writeCr {r : Gpr} {x : BitVec 64} (hr : g r = x) (he : s.setCr n x = .ok s') :
    (Insn.writeCr n r).exec ⟨s, g⟩ = .ok ⟨s', g⟩ := by
  simp only [Insn.exec, hr, he, State.onSys]

theorem exec_jmpFar {sel target : Nat} (he : s.jumpFar sel target = .ok s') :
    (Insn.jmpFar sel target).exec ⟨s, g⟩ = .ok ⟨s', g⟩ := by
  simp only [Insn.exec, he, State.onSys]

theorem exec_lgdt {a : Nat} (he : s.lgdt a = .ok s') :
    (Insn.lgdt a).exec ⟨s, g⟩ = .ok ⟨s', g⟩ := by
  simp only [Insn.exec, he, State.onSys]

theorem exec_rdmsr (hr : g.low .rcx = msrEfer) :
    Insn.rdmsr.exec ⟨s, g⟩ = .ok ⟨s, (g.setLow .rax (s.efer.setWidth 32)).setLow .rdx
      ((s.efer >>> 32).setWidth 32)⟩ := by
  simp only [Insn.exec, hr, if_true]

theorem exec_wrmsr {x : BitVec 64} (hr : g.low .rcx = msrEfer)
    (hx : g.low .rdx ++ g.low .rax = x) (he : s.setEfer x = .ok s') :
    Insn.wrmsr.exec ⟨s, g⟩ = .ok ⟨s', g⟩ := by
  simp only [Insn.exec, hr, if_true, hx, he, State.onSys]

theorem exec_movSeg {q : SegReg} {r : Gpr} {sel : Nat} (hr : ((g r).setWidth 16).toNat = sel)
    (he : s.loadSeg q sel = .ok s') : (Insn.movSeg q r).exec ⟨s, g⟩ = .ok ⟨s', g⟩ := by
  simp only [Insn.exec, hr, he, State.onSys]

theorem Sys.fetches_setSeg {q : SegReg} {d : Segment} (hq : q ≠ .cs) :
    (s.setSeg q d).fetches b = s.fetches b := by
  have hcs : (s.setSeg q d).seg .cs = s.seg .cs := if_neg hq.symm
  have hbits : (s.setSeg q d).codeBits = s.codeBits := by
    simp only [codeBits, hcs, longActive]
    rfl
  simp only [fetches, hbits, hcs]
  rfl

/-- The null selector in one register after another. -/
theorem runList_nullSegs {r : Gpr} (rs : List SegReg) (hrs : ∀ q ∈ rs, q ≠ .ss ∧ q ≠ .cs)
    (hf : s.fetches b = true) (hp : s.protected_ = true)
    (hr : ((g r).setWidth 16).toNat = 0) :
    runList b (rs.map (.movSeg · r)) ⟨s, g⟩ =
      .ok ⟨rs.foldl (fun s q => s.setSeg q ⟨0, 0, false, false⟩) s, g⟩ := by
  induction rs generalizing s with
  | nil => rfl
  | cons q rs ih =>
      obtain ⟨hss, hcs⟩ := hrs q (by simp)
      rw [List.map_cons, runList_cons hf
        (exec_movSeg hr (Sys.loadSeg_null hp (by decide) hss))]
      exact ih (fun q hq => hrs q (by simp [hq])) ((Sys.fetches_setSeg hcs).trans hf) hp

/-- Setting bits of a control register, through `eax`. -/
theorem runList_setBits {x : BitVec 32} (hf : s.fetches b = true)
    (he : s.setCr n (((s.cr n).setWidth 32 ||| x).setWidth 64) = .ok s') :
    ∃ g', runList b [.readCr32 .rax n, .or32 .rax x, .writeCr32 n .rax] ⟨s, g⟩ =
      .ok ⟨s', g'⟩ := by
  rw [runList_cons hf rfl, runList_cons hf rfl,
    runList_cons hf (exec_writeCr32 (by simp) he)]
  exact ⟨_, rfl⟩

end

namespace State

variable {c : State} {a : Nat} {x : BitVec 64}

theorem push_ok (h64 : c.sys.codeBits = 64) (hsp : (c.gpr .rsp - 8).toNat = a)
    (ht : c.sys.translate a = .ok a) :
    c.push x =
      .ok ⟨{ c.sys with mem := storeWord c.sys.mem a x },
        c.gpr.set .rsp (c.gpr .rsp - 8)⟩ := by
  simp only [push, h64, if_true, hsp, Sys.store_of ht]

theorem pop_ok (h64 : c.sys.codeBits = 64) (hsp : (c.gpr .rsp).toNat = a)
    (ht : c.sys.translate a = .ok a) (hx : word c.sys.mem a 8 = x.toNat) :
    c.pop = .ok (x, ⟨c.sys, c.gpr.set .rsp (c.gpr .rsp + 8)⟩) := by
  simp only [pop, h64, if_true, hsp, Sys.readLinear_of ht, hx, BitVec.ofNat_toNat,
    BitVec.setWidth_eq]

theorem exec_push {r : Gpr} {c' : State} (h : c.push (c.gpr r) = .ok c') :
    (Insn.push r).exec c = .ok c' := h

theorem exec_pop {r : Gpr} {c' : State} (h : c.pop = .ok (x, c')) :
    (Insn.pop r).exec c = .ok ⟨c'.sys, c'.gpr.set r x⟩ := by
  simp only [Insn.exec, h]

theorem exec_call {target back : Nat} {c' : State}
    (h : c.push (BitVec.ofNat 64 back) = .ok c') :
    (Insn.call target back).exec c = .ok ⟨{ c'.sys with rip := target }, c'.gpr⟩ := by
  simp only [Insn.exec, h]

theorem exec_ret {c' : State} (h : c.pop = .ok (x, c')) :
    Insn.ret.exec c = .ok ⟨{ c'.sys with rip := x.toNat }, c'.gpr⟩ := by
  simp only [Insn.exec, h]

end State

end Wasp.Processor
