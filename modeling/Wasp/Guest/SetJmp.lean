import Wasp.Lib.LittleEndian

/-!
# SetJmp — `setjmp` and `longjmp` of the guest

The two routines of `pass/rt/boot64.asm`, instruction by instruction, on a
machine of sixteen 64-bit registers, the zero flag and a byte memory.
`setjmp` leaves eight words in the buffer `rdi` points at (`Cpu.saved`),
`longjmp` loads them again.

What `longjmp` restores is right in every state. What it returns is not: the
`int` it is given is in the low half of `rsi`, and the upper half is whatever
the caller left there, but `test rax, rax` looks at both. With a zero below a
nonzero upper half the value is not made a 1.
-/

namespace Wasp.Boot

open Wasp.LittleEndian

/-! ## The machine -/

inductive Reg where
  | rax | rbx | rcx | rdx | rsi | rdi | rbp | rsp
  | r8 | r9 | r10 | r11 | r12 | r13 | r14 | r15
  deriving DecidableEq, Repr

structure Cpu where
  regs : Reg → BitVec 64
  zf : Bool
  mem : Memory

/-- The instructions of the two routines. -/
inductive Instr where
  /-- `mov [base + disp], src` -/
  | store (base : Reg) (disp : Nat) (src : Reg)
  /-- `mov dst, [base + disp]` -/
  | load (dst base : Reg) (disp : Nat)
  | lea (dst base : Reg) (disp : Nat)
  | mov (dst src : Reg)
  | xor (dst src : Reg)
  | test (r r' : Reg)
  | inc (r : Reg)
  /-- `jnz`, to the instruction at `target` of the same routine -/
  | jnz (target : Nat)
  | jmp (r : Reg)
  | ret

/-- Where an instruction goes on: at the next one, at another one of the
routine, or at an address outside it. -/
inductive Next where
  | fall
  | goto (target : Nat)
  | leave (rip : BitVec 64)

/-- The address `[base + disp]`. -/
def Cpu.addr (c : Cpu) (base : Reg) (disp : Nat) : BitVec 64 :=
  c.regs base + BitVec.ofNat 64 disp

def Cpu.set (c : Cpu) (r : Reg) (x : BitVec 64) : Cpu :=
  { c with regs := fun q => if q = r then x else c.regs q }

def Cpu.withMem (c : Cpu) (m : Memory) : Cpu := { c with mem := m }

/-- The zero flag of the result `x`. -/
def Cpu.flag (c : Cpu) (x : BitVec 64) : Cpu :=
  { c with zf := x == 0 }

def Instr.exec (c : Cpu) : Instr → Cpu × Next
  | .store base disp src =>
      (c.withMem (store64 c.mem (c.addr base disp) (c.regs src)), .fall)
  | .load dst base disp => (c.set dst (load64 c.mem (c.addr base disp)), .fall)
  | .lea dst base disp => (c.set dst (c.addr base disp), .fall)
  | .mov dst src => (c.set dst (c.regs src), .fall)
  | .xor dst src =>
      let x := c.regs dst ^^^ c.regs src
      ((c.set dst x).flag x, .fall)
  | .test r r' => (c.flag (c.regs r &&& c.regs r'), .fall)
  | .inc r =>
      let x := c.regs r + 1
      ((c.set r x).flag x, .fall)
  | .jnz target => (c, if c.zf then .fall else .goto target)
  | .jmp r => (c, .leave (c.regs r))
  | .ret => (c.set .rsp (c.addr .rsp 8), .leave (load64 c.mem (c.regs .rsp)))

/-- At most `fuel` instructions of `code` from `pc` on: the address the
routine leaves for, and the machine then. -/
def run (code : List Instr) : Nat → Nat → Cpu → Option (BitVec 64 × Cpu)
  | 0, _, _ => none
  | fuel + 1, pc, c =>
      match code[pc]? with
      | none => none
      | some i =>
          match i.exec c with
          | (c, .fall) => run code fuel (pc + 1) c
          | (c, .goto target) => run code fuel target c
          | (c, .leave rip) => some (rip, c)

/-- A routine from its entry. Neither of the two jumps back, so it takes at
most one step for each of its instructions. -/
def call (code : List Instr) (c : Cpu) : Option (BitVec 64 × Cpu) :=
  run code code.length 0 c

namespace Cpu

variable (c : Cpu) (r : Reg) (x : BitVec 64)

@[simp] theorem addr_zero : c.addr r 0 = c.regs r := BitVec.add_zero _

@[simp] theorem regs_set_self : (c.set r x).regs r = x := if_pos rfl

@[simp] theorem regs_set_of_ne {r q : Reg} (h : q ≠ r) : (c.set r x).regs q = c.regs q :=
  if_neg h

@[simp] theorem mem_set : (c.set r x).mem = c.mem := rfl

@[simp] theorem regs_withMem (m : Memory) : (c.withMem m).regs = c.regs := rfl

@[simp] theorem regs_flag : (c.flag x).regs = c.regs := rfl

@[simp] theorem zf_flag : (c.flag x).zf = (x == 0) := rfl

end Cpu

/-! ## Running a block -/

section Run

variable {code : List Instr} {fuel pc : Nat} {c c' : Cpu} {i : Instr}

theorem run_fall (hi : code[pc]? = some i) (he : i.exec c = (c', .fall)) :
    run code (fuel + 1) pc c = run code fuel (pc + 1) c' := by
  simp only [run, hi, he]

theorem run_goto {target : Nat} (hi : code[pc]? = some i)
    (he : i.exec c = (c', .goto target)) :
    run code (fuel + 1) pc c = run code fuel target c' := by
  simp only [run, hi, he]

theorem run_leave {rip : BitVec 64} (hi : code[pc]? = some i)
    (he : i.exec c = (c', .leave rip)) : run code (fuel + 1) pc c = some (rip, c') := by
  simp only [run, hi, he]

/-- Registers stored one after another, from the `k`th word of `[base]` on. -/
def saves (base : Reg) : Nat → List Reg → List Instr
  | _, [] => []
  | k, r :: rs => .store base (8 * k) r :: saves base (k + 1) rs

/-- Registers loaded one after another, from the `k`th word of `[base]` on. -/
def restores (base : Reg) : Nat → List Reg → List Instr
  | _, [] => []
  | k, r :: rs => .load r base (8 * k) :: restores base (k + 1) rs

/-- The machine with the words at `a` loaded into registers. -/
def Cpu.loadWords (c : Cpu) (a : BitVec 64) : Nat → List Reg → Cpu
  | _, [] => c
  | k, r :: rs =>
      (c.set r (load64 c.mem (a + BitVec.ofNat 64 (8 * k)))).loadWords a (k + 1) rs

/-- The first instruction of a block, and the block that is left. -/
theorem run_cons {rest : List Instr} (h : code.drop pc = i :: rest)
    (he : i.exec c = (c', .fall)) :
    run code (fuel + 1) pc c = run code fuel (pc + 1) c' ∧ code.drop (pc + 1) = rest := by
  constructor
  · apply run_fall (i := i) ?_ he
    rw [← List.head?_drop, h, List.head?_cons]
  · rw [← List.tail_drop, h, List.tail_cons]

/-- A block of stores is one write of all the words. -/
theorem run_saves (base : Reg) (rs : List Reg) {rest : List Instr} {k : Nat}
    (h : code.drop pc = saves base k rs ++ rest) :
    run code (fuel + rs.length) pc c = run code fuel (pc + rs.length)
      (c.withMem (storeWords (c.regs base) c.mem k (rs.map c.regs))) := by
  induction rs generalizing pc k c with
  | nil => rfl
  | cons r rs ih =>
      obtain ⟨hrun, hrest⟩ := run_cons h rfl
      rw [List.length_cons, ← Nat.add_assoc, hrun, ih hrest,
        show pc + 1 + rs.length = pc + (rs.length + 1) by omega]
      rfl

/-- A block of loads, if it does not load over its base. -/
theorem run_restores (base : Reg) (rs : List Reg) {rest : List Instr} {k : Nat}
    (hbase : base ∉ rs) (h : code.drop pc = restores base k rs ++ rest) :
    run code (fuel + rs.length) pc c =
      run code fuel (pc + rs.length) (c.loadWords (c.regs base) k rs) := by
  induction rs generalizing pc k c with
  | nil => rfl
  | cons r rs ih =>
      rw [List.mem_cons, not_or] at hbase
      obtain ⟨hrun, hrest⟩ := run_cons h rfl
      rw [List.length_cons, ← Nat.add_assoc, hrun, ih hbase.2 hrest,
        Cpu.regs_set_of_ne _ _ hbase.1,
        show pc + 1 + rs.length = pc + (rs.length + 1) by omega]
      rfl

end Run

namespace Cpu

variable {c : Cpu} {a : BitVec 64} {k : Nat} {rs : List Reg}

@[simp] theorem mem_loadWords : (c.loadWords a k rs).mem = c.mem := by
  induction rs generalizing c k with
  | nil => rfl
  | cons r rs ih => rw [loadWords, ih, mem_set]

theorem regs_loadWords_of_notMem {q : Reg} (h : q ∉ rs) :
    (c.loadWords a k rs).regs q = c.regs q := by
  induction rs generalizing c k with
  | nil => rfl
  | cons r rs ih =>
      rw [List.mem_cons, not_or] at h
      rw [loadWords, ih h.2, regs_set_of_ne _ _ h.1]

theorem regs_loadWords {i : Nat} {r : Reg} (hnodup : rs.Nodup) (hr : rs[i]? = some r) :
    (c.loadWords a k rs).regs r = load64 c.mem (a + BitVec.ofNat 64 (8 * (k + i))) := by
  induction rs generalizing c k i with
  | nil => simp at hr
  | cons q rs ih =>
      rw [List.nodup_cons] at hnodup
      rw [loadWords]
      cases i with
      | zero =>
          rw [List.getElem?_cons_zero, Option.some.injEq] at hr
          subst hr
          rw [regs_loadWords_of_notMem hnodup.1, regs_set_self, Nat.add_zero]
      | succ i =>
          rw [List.getElem?_cons_succ] at hr
          rw [ih hnodup.2 hr, mem_set, show k + 1 + i = k + (i + 1) by omega]

end Cpu

/-! ## The routines -/

def setjmp : List Instr :=
  [.store .rdi 0 .rbx,
   .store .rdi 8 .rbp,
   .store .rdi 16 .r12,
   .store .rdi 24 .r13,
   .store .rdi 32 .r14,
   .store .rdi 40 .r15,
   .lea .rdx .rsp 8,
   .store .rdi 48 .rdx,
   .load .rdx .rsp 0,
   .store .rdi 56 .rdx,
   .xor .rax .rax,
   .ret]

/-- The label `.continue` of `longjmp`. -/
def longjmpContinue : Nat := 4

def longjmp : List Instr :=
  [.mov .rax .rsi,
   .test .rax .rax,
   .jnz longjmpContinue,
   .inc .rax,
   .load .rbx .rdi 0,
   .load .rbp .rdi 8,
   .load .r12 .rdi 16,
   .load .r13 .rdi 24,
   .load .r14 .rdi 32,
   .load .r15 .rdi 40,
   .load .rdx .rdi 48,
   .mov .rsp .rdx,
   .load .rdx .rdi 56,
   .jmp .rdx]

/-! ## What each of them does -/

def calleeSaved : List Reg := [.rbx, .rbp, .r12, .r13, .r14, .r15]

/-- The registers the buffer has a word for, in its order. -/
def kept : List Reg := calleeSaved ++ [.rsp]

def Cpu.eax (c : Cpu) : BitVec 32 := (c.regs .rax).setWidth 32

/-- The second argument of a call, as the `int` it is. -/
def Cpu.intArg (c : Cpu) : BitVec 32 := (c.regs .rsi).setWidth 32

/-- Where the call under way returns to. -/
def Cpu.returnAddress (c : Cpu) : BitVec 64 := load64 c.mem (c.regs .rsp)

/-- The words `setjmp` leaves in the buffer. -/
def Cpu.saved (c : Cpu) : List (BitVec 64) :=
  calleeSaved.map c.regs ++ [c.addr .rsp 8, c.returnAddress]

/-- The 64 bytes of the buffer are none of the return address. -/
def Cpu.BufferApart (c : Cpu) : Prop :=
  ∀ i < 64, ∀ j < 8, c.addr .rdi i ≠ c.addr .rsp j

namespace Cpu.BufferApart

variable {c : Cpu}

theorem distance (h : c.BufferApart) {j : Nat} (hj : j < 8) :
    64 ≤ (c.addr .rsp j - c.regs .rdi).toNat := by
  by_contra hlt
  apply h (c.addr .rsp j - c.regs .rdi).toNat (by omega) j hj
  rw [Cpu.addr, BitVec.ofNat_toNat, BitVec.setWidth_eq, BitVec.add_comm, BitVec.sub_add_cancel]

/-- Words in the buffer leave the return address alone. -/
theorem load_rsp (h : c.BufferApart) {xs : List (BitVec 64)} (hxs : xs.length ≤ 8) :
    load64 (storeWords (c.regs .rdi) c.mem 0 xs) (c.regs .rsp) = c.returnAddress := by
  apply load64_congr
  intro j hj
  have hfar := h.distance hj
  apply storeWords_outside (by omega)
  right
  exact Nat.le_trans (by omega) hfar

end Cpu.BufferApart

/-- **The first return of `setjmp`.** It goes back to its caller with a 0, the
callee-saved registers as they were, the return address popped, and the
buffer filled. -/
theorem call_setjmp {c : Cpu} (h : c.BufferApart) :
    ∃ c', call setjmp c = some (c.returnAddress, c') ∧ c'.regs .rax = 0 ∧
      (∀ r ∈ calleeSaved, c'.regs r = c.regs r) ∧ c'.regs .rsp = c.addr .rsp 8 ∧
      c'.mem = storeWords (c.regs .rdi) c.mem 0 c.saved := by
  let m6 := storeWords (c.regs .rdi) c.mem 0 (calleeSaved.map c.regs)
  let m7 := storeWords (c.regs .rdi) c.mem 0 (calleeSaved.map c.regs ++ [c.addr .rsp 8])
  let m8 := storeWords (c.regs .rdi) c.mem 0 c.saved
  -- the return address is read twice: for the buffer, and by `ret`
  have hslot : load64 m7 (c.addr .rsp 0) = c.returnAddress := by
    rw [c.addr_zero]
    exact h.load_rsp (by simp [calleeSaved])
  have hret : load64 m8 (c.regs .rsp) = c.returnAddress :=
    h.load_rsp (by simp [Cpu.saved, calleeSaved])
  have hxor : c.regs .rax ^^^ c.regs .rax = 0 := BitVec.xor_self
  let c7 := ((c.withMem m6).set .rdx (c.addr .rsp 8)).withMem m7
  let c8 := (c7.set .rdx c.returnAddress).withMem m8
  have hcall : call setjmp c = some (c.returnAddress,
      ((c8.set .rax 0).flag 0).set .rsp (c.addr .rsp 8)) := calc
    _ = run setjmp 6 6 (c.withMem m6) := run_saves .rdi calleeSaved rfl
    _ = run setjmp 5 7 ((c.withMem m6).set .rdx (c.addr .rsp 8)) := run_fall rfl rfl
    _ = run setjmp 4 8 c7 := run_fall rfl rfl
    _ = run setjmp 3 9 (c7.set .rdx c.returnAddress) := run_fall rfl (by rw [← hslot]; rfl)
    _ = run setjmp 2 10 c8 := run_fall rfl rfl
    _ = run setjmp 1 11 ((c8.set .rax 0).flag 0) := run_fall rfl (by rw [← hxor]; rfl)
    _ = _ := run_leave rfl (by rw [← hret]; rfl)
  refine ⟨_, hcall, rfl, ?_, rfl, rfl⟩
  intro r hr
  have hne : ∀ r ∈ calleeSaved, r ≠ .rax ∧ r ≠ .rdx ∧ r ≠ .rsp := by decide
  simp [c7, c8, hne r hr]

/-- The word of a register in the buffer: that of `rsp` is the last. -/
theorem kept_getElem? {i : Nat} {r : Reg} (h : kept[i]? = some r) :
    calleeSaved[i]? = some r ∨ (r = .rsp ∧ i = 6) := by
  by_cases hi : i < calleeSaved.length
  · left
    rwa [kept, List.getElem?_append_left hi] at h
  · right
    rw [kept, List.getElem?_append_right (by omega), List.getElem?_singleton] at h
    have hlen : calleeSaved.length = 6 := rfl
    split at h
    · exact ⟨(Option.some.inj h).symm, by omega⟩
    · cases h

/-- `longjmp` from `.continue` on: the return value is in `rax` already. -/
theorem run_longjmpContinue (fuel : Nat) (d : Cpu) :
    ∃ d', run longjmp (fuel + 10) longjmpContinue d =
        some (load64 d.mem (d.addr .rdi (8 * 7)), d') ∧ d'.regs .rax = d.regs .rax ∧
      ∀ i r, kept[i]? = some r → d'.regs r = load64 d.mem (d.addr .rdi (8 * i)) := by
  let loaded := calleeSaved ++ [.rdx]
  let d7 := d.loadWords (d.regs .rdi) 0 loaded
  have hrdi : d7.regs .rdi = d.regs .rdi := Cpu.regs_loadWords_of_notMem (by decide)
  have hmem : d7.mem = d.mem := Cpu.mem_loadWords
  have hword : ∀ i r, loaded[i]? = some r →
      d7.regs r = load64 d.mem (d.addr .rdi (8 * i)) := by
    intro i r hr
    rw [Cpu.regs_loadWords (by decide) hr, Nat.zero_add, Cpu.addr]
  let d8 := d7.set .rsp (d7.regs .rdx)
  let rip := load64 d.mem (d.addr .rdi (8 * 7))
  have hrip : load64 d8.mem (d8.addr .rdi 56) = rip := by
    simp [d8, rip, hmem, hrdi, Cpu.addr]
  have hcall : run longjmp (fuel + 10) longjmpContinue d = some (rip, d8.set .rdx rip) := calc
    _ = run longjmp (fuel + 3) 11 d7 := run_restores .rdi loaded (by decide) rfl
    _ = run longjmp (fuel + 2) 12 d8 := run_fall rfl rfl
    _ = run longjmp (fuel + 1) 13 (d8.set .rdx rip) := by
      rw [← hrip]
      exact run_fall rfl rfl
    _ = _ := run_leave rfl rfl
  refine ⟨_, hcall, ?_, ?_⟩
  · have hrax : d7.regs .rax = d.regs .rax := Cpu.regs_loadWords_of_notMem (by decide)
    simp [d8, hrax]
  · intro i r hr
    obtain hsaved | ⟨rfl, rfl⟩ := kept_getElem? hr
    · have hne : ∀ r ∈ calleeSaved, r ≠ .rdx ∧ r ≠ .rsp := by decide
      obtain ⟨hrdx, hrsp⟩ := hne r (List.mem_of_getElem? hsaved)
      rw [Cpu.regs_set_of_ne _ _ hrdx, Cpu.regs_set_of_ne _ _ hrsp]
      have hi : loaded[i]? = some r := by
        rw [List.getElem?_append_left (List.getElem?_eq_some_iff.mp hsaved).1, hsaved]
      exact hword i r hi
    · simp only [d8]
      exact hword 6 .rdx rfl

/-- **What `longjmp` restores and returns.** -/
theorem call_longjmp (d : Cpu) :
    ∃ d', call longjmp d = some (load64 d.mem (d.addr .rdi (8 * 7)), d') ∧
      d'.regs .rax = (if d.regs .rsi = 0 then 1 else d.regs .rsi) ∧
      ∀ i r, kept[i]? = some r → d'.regs r = load64 d.mem (d.addr .rdi (8 * i)) := by
  let d1 := d.set .rax (d.regs .rsi)
  let d2 := d1.flag (d.regs .rsi &&& d.regs .rsi)
  have htest : call longjmp d = run longjmp 12 2 d2 := calc
    _ = run longjmp 13 1 d1 := run_fall rfl rfl
    _ = run longjmp 12 2 d2 := run_fall rfl rfl
  by_cases hsi : d.regs .rsi = 0
  · have hzf : d2.zf = true := by simp [d2, hsi]
    let d3 := (d2.set .rax 1).flag 1
    have hinc : call longjmp d = run longjmp 10 longjmpContinue d3 := calc
      _ = run longjmp 12 2 d2 := htest
      _ = run longjmp 11 3 d2 := run_fall rfl (by simp [Instr.exec, hzf])
      _ = run longjmp 10 longjmpContinue d3 :=
        run_fall rfl (by simp [Instr.exec, d1, d2, d3, hsi])
    rw [hinc, if_pos hsi]
    exact run_longjmpContinue 0 d3
  · have hzf : d2.zf = false := by simpa [d2] using hsi
    have hjump : call longjmp d = run longjmp 11 longjmpContinue d2 := calc
      _ = run longjmp 12 2 d2 := htest
      _ = run longjmp 11 longjmpContinue d2 := run_goto rfl (by simp [Instr.exec, hzf])
    rw [hjump, if_neg hsi]
    exact run_longjmpContinue 1 d2

/-! ## Back to `setjmp` -/

/-- `longjmp` in `d` goes on at `rip` with the registers of `c`, and with its
`int` argument in `eax`, or a 1 for a 0. -/
def Resumes (rip : BitVec 64) (c d : Cpu) : Prop :=
  ∃ d', call longjmp d = some (rip, d') ∧ (∀ r ∈ kept, d'.regs r = c.regs r) ∧
    d'.eax = if d.intArg = 0 then 1 else d.intArg

/-- The buffer of a call in `c` is in `d` as it is in `c'`. -/
def SameBuffer (c c' d : Cpu) : Prop :=
  d.regs .rdi = c.regs .rdi ∧ ∀ i < 64, d.mem (c.addr .rdi i) = c'.mem (c.addr .rdi i)

theorem SameBuffer.load_word {c c' d : Cpu} (h : SameBuffer c c' d)
    (hmem : c'.mem = storeWords (c.regs .rdi) c.mem 0 c.saved) {i : Nat} {x : BitVec 64}
    (hx : c.saved[i]? = some x) : load64 d.mem (d.addr .rdi (8 * i)) = x := by
  have hi : i < 8 := (List.getElem?_eq_some_iff.mp hx).1
  have hsame : load64 d.mem (d.addr .rdi (8 * i)) = load64 c'.mem (c.addr .rdi (8 * i)) := by
    rw [Cpu.addr, h.1]
    apply load64_congr
    intro j hj
    rw [BitVec.add_assoc, ← BitVec.ofNat_add]
    exact h.2 (8 * i + j) (by omega)
  have hlen : c.saved.length = 8 := rfl
  rw [hsame, hmem, Cpu.addr, ← Nat.zero_add i]
  exact load64_storeWords (by omega) hx

/-- The value that `test rax, rax` and `inc rax` make of `rsi` is the right
`int` unless only the upper half of `rsi` is nonzero. -/
theorem returned_eq_iff (x : BitVec 64) :
    (if x = 0 then 1 else x).setWidth 32 =
      (if x.setWidth 32 = 0 then 1 else x.setWidth 32 : BitVec 32) ↔
    x.setWidth 32 ≠ (0 : BitVec 32) ∨ x = 0 := by
  by_cases hx : x = 0
  · subst hx
    simp
  · by_cases hlow : x.setWidth 32 = (0 : BitVec 32)
    · rw [if_neg hx, if_pos hlow, hlow]
      exact iff_of_false (by decide) (not_or.mpr ⟨fun h => h rfl, hx⟩)
    · rw [if_neg hx, if_neg hlow]
      exact iff_of_true rfl (Or.inl hlow)

/-- **`longjmp` undoes to `setjmp`.** The first return of `setjmp` is a 0 with
the callee-saved registers kept, and from every later state with the buffer
unmodified `longjmp` goes back there. It returns the right value exactly if
the `int` is not 0 or the upper half of its register is 0 too. -/
theorem longjmp_resumes_iff (c : Cpu) (h : c.BufferApart) :
    ∃ c', call setjmp c = some (c.returnAddress, c') ∧ c'.eax = 0 ∧
      (∀ r ∈ calleeSaved, c'.regs r = c.regs r) ∧
      ∀ d, SameBuffer c c' d →
        (Resumes c.returnAddress c' d ↔ d.intArg ≠ 0 ∨ d.regs .rsi = 0) := by
  obtain ⟨c', hset, hrax, hregs, hrsp, hmem⟩ := call_setjmp h
  refine ⟨c', hset, by rw [Cpu.eax, hrax]; rfl, hregs, ?_⟩
  intro d hd
  obtain ⟨d', hlong, hval, hkept⟩ := call_longjmp d
  have hrip : load64 d.mem (d.addr .rdi (8 * 7)) = c.returnAddress :=
    hd.load_word hmem (show c.saved[7]? = some c.returnAddress from rfl)
  rw [hrip] at hlong
  have hback : ∀ r ∈ kept, d'.regs r = c'.regs r := by
    intro r hr
    obtain ⟨i, hi⟩ := List.mem_iff_getElem?.mp hr
    rw [hkept i r hi]
    apply hd.load_word hmem
    obtain hsaved | ⟨rfl, rfl⟩ := kept_getElem? hi
    · rw [hregs r (List.mem_of_getElem? hsaved), Cpu.saved, List.getElem?_append_left,
        List.getElem?_map, hsaved, Option.map_some]
      rw [List.length_map]
      exact (List.getElem?_eq_some_iff.mp hsaved).1
    · rw [hrsp]
      rfl
  have heax : d'.eax = (if d.regs .rsi = 0 then 1 else d.regs .rsi).setWidth 32 := by
    rw [Cpu.eax, hval]
  rw [Cpu.intArg, ← returned_eq_iff, ← heax]
  constructor
  · rintro ⟨e, he, _, hright⟩
    rw [hlong, Option.some.injEq, Prod.mk.injEq] at he
    rw [he.2]
    exact hright
  · intro hright
    exact ⟨d', hlong, hback, hright⟩

/-- A caller with its buffer at `0x1000` and its stack at `0x2000`. -/
def caller : Cpu where
  regs
    | .rdi => 0x1000
    | .rsp => 0x2000
    | .rbx => 5
    | _ => 0
  zf := false
  mem := fun _ => 0

theorem caller_bufferApart : caller.BufferApart := by
  intro i hi j hj heq
  have hdi : (caller.addr .rdi i).toNat = (0x1000 + i) % 2 ^ 64 := by
    simp [Cpu.addr, caller, BitVec.toNat_add]
  have hsp : (caller.addr .rsp j).toNat = (0x2000 + j) % 2 ^ 64 := by
    simp [Cpu.addr, caller, BitVec.toNat_add]
  rw [heq, hsp] at hdi
  omega

/-- The caller again, with `m` for its memory and `x` in `rsi`. -/
def caller.with (m : Memory) (x : BitVec 64) : Cpu := (caller.withMem m).set .rsi x

theorem caller.sameBuffer (c' : Cpu) (x : BitVec 64) :
    SameBuffer caller c' (caller.with c'.mem x) :=
  ⟨rfl, fun _ _ => rfl⟩

theorem longjmp_resumes_seven :
    ∃ c' d, call setjmp caller = some (caller.returnAddress, c') ∧ SameBuffer caller c' d ∧
      d.intArg = 7 ∧ Resumes caller.returnAddress c' d := by
  obtain ⟨c', hset, _, _, hd⟩ := longjmp_resumes_iff caller caller_bufferApart
  have hint : (caller.with c'.mem 7).intArg = 7 := rfl
  have hsame := caller.sameBuffer c' 7
  have hback : Resumes caller.returnAddress c' (caller.with c'.mem 7) := by
    rw [hd _ hsame, hint]
    exact .inl (by decide)
  exact ⟨c', _, hset, hsame, hint, hback⟩

/-- The `int` 0 in a register with a nonzero upper half is returned as a 0:
`setjmp` seems to return for the first time once more. -/
theorem longjmp_returns_zero :
    ∃ c' d d', call setjmp caller = some (caller.returnAddress, c') ∧ SameBuffer caller c' d ∧
      d.intArg = 0 ∧ (∃ rip, call longjmp d = some (rip, d')) ∧ d'.eax = 0 := by
  obtain ⟨c', hset, _⟩ := call_setjmp caller_bufferApart
  let d := caller.with c'.mem 0x100000000
  obtain ⟨d', hlong, hval, _⟩ := call_longjmp d
  have hrsi : d.regs .rsi = 0x100000000 := rfl
  have hint : d.intArg = 0 := by
    rw [Cpu.intArg, hrsi]
    decide
  rw [hrsi, if_neg (by decide)] at hval
  have heax : d'.eax = 0 := by
    rw [Cpu.eax, hval]
    decide
  exact ⟨c', d, d', hset, caller.sameBuffer c' _, hint, ⟨_, hlong⟩, heax⟩

end Wasp.Boot
