import Wasp.Guest.Paging
import Wasp.Lib.Processor

/-!
# Start — from the reset state to 64-bit code

The code of `pass/rt/boot64.asm` from `_start` up to the return from
`enable_sse`, instruction by instruction, on the modes of the processor.
Each of the two `lgdt` reads its operand through `ds`, which keeps the
limit of the reset state: nothing loads it before the last one. So the code
comes through exactly when both operands lie in the first 64 KiB, and it
stops with a general protection fault otherwise.
-/

namespace Wasp.Boot

open LittleEndian PageTable Processor

/-! ## The code -/

/-- Where the linker puts the code, the data of `boot64.asm`, its tables and
the stack. -/
structure Symbols where
  start : Nat
  trampoline : Nat
  trampoline64 : Nat
  enableSse : Nat
  afterSse : Nat
  data : Nat
  bootP4 : Nat
  stackBase : Nat

namespace Symbols

variable (y : Symbols)

/-- The section `.data`: `gdt32` at its start, then `gdtr32`, `gdt64`, eight
bytes of padding and `gdtr64`. -/
def gdt32 : Nat := y.data

def gdtr32 : Nat := y.data + 24

def gdt64 : Nat := y.data + 30

def gdtr64 : Nat := y.data + 62

end Symbols

def eferLm : BitVec 32 := 0x100
def eferNx : BitVec 32 := 0x800
def eferSce : BitVec 32 := 0x001
def cr0Paging : BitVec 32 := 0x80000000
def cr4Pae : BitVec 32 := 0x20
def cr4Pse : BitVec 32 := 0x10

/-- The start of `_start`, in 16-bit code. -/
def loadGdt32 (y : Symbols) : List Insn :=
  [.cli, .movImm32 .rax (BitVec.ofNat 32 y.gdtr32), .lgdtReg .rax]

def enableProtected : List Insn :=
  [.readCr32 .rax .cr0, .or8 .rax 1, .writeCr32 .cr0 .rax]

/-- `_start` -/
def startBlock (y : Symbols) : Code :=
  ⟨16, y.start, loadGdt32 y ++ (enableProtected ++ [.jmpFar 0x08 y.trampoline])⟩

/-- The step "enable PAE and PSE". -/
def enablePae : List Insn :=
  [.readCr32 .rax .cr4, .or32 .rax (cr4Pae + cr4Pse), .writeCr32 .cr4 .rax]

/-- The step "enable long mode and the NX bit". -/
def enableLong : List Insn :=
  [.movImm32 .rcx msrEfer, .rdmsr, .or32 .rax (eferLm ||| eferNx ||| eferSce), .wrmsr]

/-- The step "set cr3 to a pointer to pml4". -/
def setTables (y : Symbols) : List Insn :=
  [.movImm32 .rax (BitVec.ofNat 32 y.bootP4), .writeCr32 .cr3 .rax]

/-- The step "enable paging". -/
def enablePaging : List Insn :=
  [.readCr32 .rax .cr0, .or32 .rax cr0Paging, .writeCr32 .cr0 .rax]

/-- The data segments: a flat `ss`, no others. -/
def loadSegments : List Insn :=
  [.movImm16 .rax 0x10,
   .movSeg .ss .rax,
   .movImm16 .rax 0x0,
   .movSeg .ds .rax,
   .movSeg .es .rax,
   .movSeg .fs .rax,
   .movSeg .gs .rax]

/-- The step "leave compatibility mode and enter long mode". -/
def enterLong (y : Symbols) : List Insn :=
  .lgdt y.gdtr64 :: (loadSegments ++ [.jmpFar 0x08 y.trampoline64])

/-- The code at `.trampoline`. -/
def trampolineBlock (y : Symbols) : Code :=
  ⟨32, y.trampoline,
    [.movImm32 .rsp (BitVec.ofNat 32 (y.stackBase - 16)), .mov32 .rbp .rsp] ++
      (enablePae ++ (enableLong ++ (setTables y ++ (enablePaging ++ enterLong y))))⟩

/-- The code at `.trampoline64`, up to its first call. -/
def trampoline64Block (y : Symbols) : Code :=
  ⟨64, y.trampoline64,
    [.movImm .rsp (BitVec.ofNat 64 (y.stackBase - 16)),
     .mov .rbp .rsp,
     .call y.enableSse y.afterSse]⟩

/-- The step "setup sse". -/
def setupSse : List Insn :=
  [.readCr .rax .cr0,
   .and16 .rax 0xFFFB,
   .or16 .rax 0x2,
   .writeCr .cr0 .rax,
   .readCr .rax .cr4,
   .or16 .rax (3 <<< 9),
   .writeCr .cr4 .rax]

/-- `enable_sse` -/
def enableSseBlock (y : Symbols) : Code :=
  ⟨64, y.enableSse, .push .rax :: (setupSse ++ [.pop .rax, .ret])⟩

def boot (y : Symbols) (c : State) : Except Exn State := do
  let c ← c.run (startBlock y)
  let c ← c.run (trampolineBlock y)
  let c ← c.run (trampoline64Block y)
  c.run (enableSseBlock y)

/-! ## Before -/

/-- The code is where 16-bit code can be and jump to, and where the page
tables map; the stack is below the tables. -/
structure Symbols.Placed (y : Symbols) : Prop where
  start : y.start < 2 ^ 16
  trampoline : y.trampoline < 2 ^ 16
  trampoline64 : y.trampoline64 < 2 ^ 30
  enableSse : y.enableSse < 2 ^ 30
  afterSse : y.afterSse < 2 ^ 30
  data : y.gdtr64 + 10 ≤ 2 ^ 32
  stack : 32 ≤ y.stackBase ∧ y.stackBase ≤ 2 ^ 30 ∧ y.stackBase ≤ y.bootP4

/-- The section `.data`. -/
def bootData (y : Symbols) : List UInt8 :=
  -- gdt32
  ([0, 0x00cf9a000000ffff, 0x00cf92000000ffff].flatMap (bytes 8)) ++
  -- gdtr32
  (bytes 2 23 ++ (bytes 4 y.gdt32 ++
  -- gdt64
  (([0, 0x00AF98000000FFFF, 0x00CF92000000FFFF].flatMap (bytes 8)) ++
  -- some extra padding
  (bytes 8 0 ++
  -- gdtr64
  (bytes 2 23 ++ bytes 8 y.gdt64)))))

/-- The guest's memory holds the data and the tables where the symbols say. -/
structure Loaded (m : Nat → UInt8) (y : Symbols) : Prop where
  data : HoldsBytes m y.data (bootData y)
  tables : TablesAt m y.bootP4

/-- A vCPU as the constructor of `Virtine` leaves it, at `_start`: in real
mode, with the code segment moved to `0`. -/
structure AtReset (y : Symbols) (s : Sys) : Prop where
  real : s.protected_ = false
  unpaged : s.paging = false
  legacy : s.longActive = false
  cs : s.seg .cs = ⟨0, 0xFFFF, false, false⟩
  ds : (s.seg .ds).base = 0 ∧ (s.seg .ds).limit = 0xFFFF
  rip : s.rip = y.start

/-- The data of the section, one after another. -/
theorem Loaded.split {m : Nat → UInt8} {y : Symbols} (h : Loaded m y) :
    HoldsBytes m y.gdt32
        ([0, 0x00cf9a000000ffff, 0x00cf92000000ffff].flatMap (bytes 8)) ∧
      HoldsBytes m y.gdtr32 (bytes 2 23) ∧ HoldsBytes m (y.gdtr32 + 2) (bytes 4 y.gdt32) ∧
      HoldsBytes m y.gdt64
        ([0, 0x00AF98000000FFFF, 0x00CF92000000FFFF].flatMap (bytes 8)) ∧
      HoldsBytes m y.gdtr64 (bytes 2 23) ∧ HoldsBytes m (y.gdtr64 + 2) (bytes 8 y.gdt64) := by
  have hdata := h.data
  simp only [bootData, holdsBytes_append, length_bytes] at hdata
  obtain ⟨h32, hr32, hb32, h64, -, hr64, hb64⟩ := hdata
  exact ⟨h32, hr32, hb32, h64, hr64, hb64⟩

section

variable {m : Nat → UInt8} {y : Symbols}

theorem Loaded.gdt32 (h : Loaded m y) :
    Holds m y.gdt32 [0, 0x00cf9a000000ffff, 0x00cf92000000ffff] :=
  holds_of_bytes h.split.1 (by decide)

theorem Loaded.gdtr32Limit (h : Loaded m y) : word m y.gdtr32 2 = 23 := h.split.2.1.word

theorem Loaded.gdtr32Base (h : Loaded m y) (hy : y.Placed) :
    word m (y.gdtr32 + 2) 4 = y.gdt32 := by
  have hlow := hy.data
  simp only [Symbols.gdtr64] at hlow
  rw [h.split.2.2.1.word, Symbols.gdt32]
  exact Nat.mod_eq_of_lt (by omega)

theorem Loaded.gdt64 (h : Loaded m y) :
    Holds m y.gdt64 [0, 0x00AF98000000FFFF, 0x00CF92000000FFFF] :=
  holds_of_bytes h.split.2.2.2.1 (by decide)

theorem Loaded.gdtr64Limit (h : Loaded m y) : word m y.gdtr64 2 = 23 :=
  h.split.2.2.2.2.1.word

/-- Code of 32 bits reads the low half of the base. -/
theorem Loaded.gdtr64Base (h : Loaded m y) (hy : y.Placed) :
    word m (y.gdtr64 + 2) 4 = y.gdt64 := by
  have hlow := hy.data
  have hwhole := h.split.2.2.2.2.2.word
  have hsplit : word m (y.gdtr64 + 2) 8 = _ := word_add m (y.gdtr64 + 2) 4 4
  have hlt := word_lt m (y.gdtr64 + 2) 4
  simp only [Symbols.gdtr64, Symbols.gdt64] at *
  omega

end

/-! ## 16-bit code -/

/-- The code segments of the two descriptor tables. -/
def code32 : Segment := ⟨0, 0xFFFFFFFF, false, true⟩

def code64 : Segment := ⟨0, 0xFFFFFFFF, true, false⟩

/-- What is so at `.trampoline`, for a start in `s`. -/
structure InProtected (y : Symbols) (s s' : Sys) : Prop where
  protected_ : s'.protected_ = true
  unpaged : s'.paging = false
  legacy : s'.longActive = false
  cs : s'.seg .cs = code32
  ds : s'.seg .ds = s.seg .ds
  mem : s'.mem = s.mem
  interrupts : s'.interrupts = false
  rip : s'.rip = y.trampoline

section

variable {y : Symbols} {s : Sys} {b : Code} {g : Regs}

theorem fetches_start (hrip : s.rip = y.start) (hcs : s.seg .cs = ⟨0, 0xFFFF, false, false⟩)
    (hu : s.paging = false) (hy : y.Placed) : s.fetches (startBlock y) = true := by
  refine Sys.fetches_of hrip ?_ (.inr ?_) (Sys.translate_unpaged hu _)
  · simp [Sys.codeBits, hcs, startBlock]
  · have hstart := hy.start
    rw [hcs]
    exact ⟨show y.start ≤ 0xFFFF by omega, rfl⟩

theorem AtReset.fetches (hs : AtReset y s) (hy : y.Placed) :
    s.fetches (startBlock y) = true :=
  fetches_start hs.rip hs.cs hs.unpaged hy

/-- The operand of the first `lgdt`. -/
theorem gdtr32_toNat (hy : y.Placed) : (BitVec.ofNat 32 y.gdtr32).toNat = y.gdtr32 := by
  have hdata := hy.data
  simp only [Symbols.gdtr64, Symbols.gdtr32, BitVec.toNat_ofNat] at *
  omega

theorem exec_lgdtReg {s' : Sys} (hy : y.Placed) (he : s.lgdt y.gdtr32 = .ok s') :
    (Insn.lgdtReg .rax).exec ⟨s, g.setLow .rax (BitVec.ofNat 32 y.gdtr32)⟩ =
      .ok ⟨s', g.setLow .rax (BitVec.ofNat 32 y.gdtr32)⟩ := by
  simp only [Insn.exec, Regs.low_setLow_self, gdtr32_toNat hy, he, State.onSys]

theorem AtReset.not64 (hs : AtReset y s) : s.codeBits ≠ 64 := by
  simp [Sys.codeBits, hs.legacy, hs.cs]

theorem loadGdt32_ok (hs : AtReset y s) (hm : Loaded s.mem y) (hy : y.Placed)
    (hl : y.gdtr32 + 5 ≤ 0xFFFF) :
    ∃ g', runList (startBlock y) (loadGdt32 y) ⟨s, g⟩ =
      .ok ⟨{ s with interrupts := false, gdtBase := y.gdt32, gdtLimit := 23 }, g'⟩ := by
  have hf := hs.fetches hy
  have hlow : y.gdt32 < 2 ^ 24 := by
    simp only [Symbols.gdtr32, Symbols.gdt32] at *
    omega
  have hlgdt : Sys.lgdt { s with interrupts := false } y.gdtr32 = _ :=
    Sys.lgdt_ok hs.not64 (by rw [hs.ds.2]; exact hl) hs.ds.1
      (Sys.translate_unpaged hs.unpaged _) (Sys.translate_unpaged hs.unpaged _)
      hm.gdtr32Limit (hm.gdtr32Base hy) fun _ => hlow
  rw [loadGdt32, runList_cons hf rfl, runList_cons hf rfl,
    runList_cons hf (exec_lgdtReg hy hlgdt)]
  exact ⟨_, rfl⟩

/-- `CR0` after `or al, 1`. -/
def protectedCr0 (x : BitVec 64) : BitVec 64 := (x.setWidth 32 ||| 1).setWidth 64

theorem enableProtected_ok (hf : s.fetches b = true) (hp : s.paging = false) :
    ∃ g', runList b enableProtected ⟨s, g⟩ =
      .ok ⟨{ s with cr0 := protectedCr0 s.cr0 }, g'⟩ := by
  have hbit : (protectedCr0 s.cr0).getLsbD 31 = false := by
    simpa [protectedCr0, Sys.paging] using hp
  rw [enableProtected, runList_cons hf rfl, runList_cons hf rfl,
    runList_cons hf (exec_writeCr32 ?_ (Sys.setCr0_unpaged hbit hp))]
  · exact ⟨_, rfl⟩
  · simp [Regs.low, Sys.cr]

theorem protectedCr0_bits (x : BitVec 64) :
    (protectedCr0 x).getLsbD 0 = true ∧ (protectedCr0 x).getLsbD 31 = x.getLsbD 31 := by
  simp [protectedCr0]

/-- The jump to `.trampoline`. -/
theorem jump32_ok (hp : s.protected_ = true) (hu : s.paging = false)
    (hl : s.longActive = false) (hbase : s.gdtBase = y.gdt32) (hlimit : s.gdtLimit = 23)
    (hm : Loaded s.mem y) (hy : y.Placed) :
    s.jumpFar 0x08 y.trampoline = .ok (s.enter code32 y.trampoline) := by
  have hd : s.descriptor 0x08 = .ok 0x00cf9a000000ffff :=
    Sys.descriptor_of (by decide) hbase (by omega) (Sys.translate_unpaged hu _)
      (hm.gdt32 1 _ rfl)
  refine Sys.jumpFar_ok hp hd (by decide) (by simp [hl]) fun _ => ?_
  have htramp := hy.trampoline
  exact Nat.le_trans (Nat.le_of_lt htramp) (by decide)

/-- **16-bit code.** -/
theorem start_ok (hs : AtReset y s) (hm : Loaded s.mem y) (hy : y.Placed)
    (hl : y.gdtr32 + 5 ≤ 0xFFFF) :
    ∃ c', State.run ⟨s, g⟩ (startBlock y) = .ok c' ∧ InProtected y s c'.sys := by
  obtain ⟨hpe, hpg⟩ := protectedCr0_bits s.cr0
  have hunpaged : (protectedCr0 s.cr0).getLsbD 31 = false := hpg.trans hs.unpaged
  obtain ⟨g₁, h₁⟩ := loadGdt32_ok (g := g) hs hm hy hl
  obtain ⟨g₂, h₂⟩ := enableProtected_ok (b := startBlock y) (g := g₁)
    (s := { s with interrupts := false, gdtBase := y.gdt32, gdtLimit := 23 })
    (hs.fetches hy) hs.unpaged
  have hjump := jump32_ok
    (s := { s with interrupts := false, gdtBase := y.gdt32, gdtLimit := 23,
                   cr0 := protectedCr0 s.cr0 })
    hpe hunpaged hs.legacy rfl rfl hm hy
  exact ⟨_, (runList_append h₁).trans <| (runList_append h₂).trans <|
      runList_cons (fetches_start hs.rip hs.cs hunpaged hy) (exec_jmpFar hjump),
    hpe, hunpaged, hs.legacy, rfl, rfl, rfl, rfl, rfl⟩

/-! ## 32-bit code -/

theorem fetches_trampoline (hrip : s.rip = y.trampoline) (hcs : s.seg .cs = code32)
    (ht : s.translate y.trampoline = .ok y.trampoline) (hy : y.Placed) :
    s.fetches (trampolineBlock y) = true := by
  refine Sys.fetches_of hrip ?_ (.inr ?_) ht
  · simp [Sys.codeBits, hcs, code32, trampolineBlock]
  · have htramp := hy.trampoline
    rw [hcs]
    exact ⟨show y.trampoline ≤ 0xFFFFFFFF by omega, rfl⟩

def withPae (s : Sys) : Sys :=
  { s with cr4 := (s.cr4.setWidth 32 ||| (cr4Pae + cr4Pse)).setWidth 64 }

theorem enablePae_ok (hf : s.fetches b = true) (hl : s.longActive = false) :
    ∃ g', runList b enablePae ⟨s, g⟩ = .ok ⟨withPae s, g'⟩ :=
  runList_setBits hf (Sys.setCr4_ok (.inl hl))

/-- `EFER` after the bits are set in its low half. -/
def longEfer (x : BitVec 64) : BitVec 64 :=
  ((x >>> 32).setWidth 32 ++ (x.setWidth 32 ||| (eferLm ||| eferNx ||| eferSce))) &&&
    ~~~ 0x400 ||| x &&& 0x400

theorem longEfer_bits (x : BitVec 64) :
    (longEfer x).getLsbD 0 = true ∧ (longEfer x).getLsbD 8 = true ∧
      (longEfer x).getLsbD 11 = true := by
  simp only [longEfer, eferLm, eferNx, eferSce, BitVec.getLsbD_or, BitVec.getLsbD_and,
    BitVec.getLsbD_append]
  simp

def withLong (s : Sys) : Sys := { s with efer := longEfer s.efer }

theorem enableLong_ok (hf : s.fetches b = true) (hp : s.paging = false) :
    ∃ g', runList b enableLong ⟨s, g⟩ = .ok ⟨withLong s, g'⟩ := by
  rw [enableLong, runList_cons hf rfl, runList_cons hf (exec_rdmsr ?_), runList_cons hf rfl,
    runList_cons hf (exec_wrmsr ?_ ?_ (Sys.setEfer_unpaged hp))]
  · exact ⟨_, rfl⟩
  all_goals simp [Regs.low_setLow_of_ne]

def withTables (y : Symbols) (s : Sys) : Sys :=
  { s with cr3 := (BitVec.ofNat 32 y.bootP4).setWidth 64 }

theorem setTables_ok (hf : s.fetches b = true) :
    ∃ g', runList b (setTables y) ⟨s, g⟩ = .ok ⟨withTables y s, g'⟩ := by
  rw [setTables, runList_cons hf rfl,
    runList_cons hf (exec_writeCr32 (Regs.low_setLow_self _ _ _) rfl)]
  exact ⟨_, rfl⟩

/-- The processor sets `EFER.LMA` together with paging. -/
def withPaging (s : Sys) : Sys :=
  { s with cr0 := (s.cr0.setWidth 32 ||| cr0Paging).setWidth 64, efer := s.efer ||| 0x400 }

theorem enablePaging_ok (hf : s.fetches b = true) (hpe : s.protected_ = true)
    (hp : s.paging = false) (hlme : s.efer.getLsbD 8 = true) (hpae : s.cr4.getLsbD 5 = true)
    (hcs : (s.seg .cs).long = false) :
    ∃ g', runList b enablePaging ⟨s, g⟩ = .ok ⟨withPaging s, g'⟩ := by
  refine runList_setBits hf (Sys.setCr0_long ?_ ?_ hp hlme hpae hcs)
  · simp [cr0Paging]
  · have hbit : s.cr0.getLsbD 0 = true := hpe
    simp [Sys.cr, hbit]

/-- What is so once paging is on, in the code of 32 bits. -/
structure Compat (y : Symbols) (s : Sys) : Prop where
  protected_ : s.protected_ = true
  active : s.longActive = true
  identity : ∀ a < 2 ^ 30, s.translate a = .ok a
  cs : s.seg .cs = code32
  ds : (s.seg .ds).base = 0 ∧ (s.seg .ds).limit = 0xFFFF
  rip : s.rip = y.trampoline

theorem Compat.fetches (hc : Compat y s) (hy : y.Placed) :
    s.fetches (trampolineBlock y) = true :=
  fetches_trampoline hc.rip hc.cs (hc.identity _ (by have := hy.trampoline; omega)) hy

theorem Compat.not64 (hc : Compat y s) : s.codeBits ≠ 64 := by
  simp [Sys.codeBits, hc.cs, code32]

def nullSegment : Segment := ⟨0, 0, false, false⟩

/-- The stack segment of `gdt64`. -/
def data64 : Segment := ⟨0, 0xFFFFFFFF, false, true⟩

/-- After the loads of the data segments. -/
def segmented (s : Sys) : Sys :=
  ((((s.setSeg .ss data64).setSeg .ds nullSegment).setSeg .es nullSegment).setSeg .fs
    nullSegment).setSeg .gs nullSegment

theorem loadSegments_ok (hf : s.fetches b = true) (hp : s.protected_ = true)
    (hd : s.descriptor 0x10 = .ok 0x00CF92000000FFFF) :
    ∃ g', runList b loadSegments ⟨s, g⟩ = .ok ⟨segmented s, g'⟩ := by
  rw [loadSegments, runList_cons hf rfl,
    runList_cons hf (exec_movSeg (by rw [Regs.setWidth_set16]; rfl)
      (Sys.loadSeg_data hp (by decide) hd (by decide))),
    runList_cons hf rfl]
  exact ⟨_, runList_nullSegs [.ds, .es, .fs, .gs] (by decide) hf hp
    (by rw [Regs.setWidth_set16]; rfl)⟩

/-- The jump to `.trampoline64`. -/
theorem jump64_ok (hp : s.protected_ = true) (hl : s.longActive = true)
    (hbase : s.gdtBase = y.gdt64) (hlimit : s.gdtLimit = 23)
    (ht : s.translate (y.gdt64 + 8) = .ok (y.gdt64 + 8)) (hm : Loaded s.mem y)
    (hy : y.Placed) :
    s.jumpFar 0x08 y.trampoline64 = .ok (s.enter code64 y.trampoline64) := by
  have hd : s.descriptor 0x08 = .ok 0x00AF98000000FFFF :=
    Sys.descriptor_of (by decide) hbase (by omega) ht (hm.gdt64 1 _ rfl)
  have htarget : canonical y.trampoline64 = true := by
    have := hy.trampoline64
    exact decide_eq_true (by omega)
  refine Sys.jumpFar_ok hp hd (by decide) (fun _ => ⟨by decide, htarget⟩) fun h => ?_
  rw [hl] at h
  exact absurd h (by decide)

theorem enterLong_ok (hc : Compat y s) (hm : Loaded s.mem y) (hy : y.Placed)
    (hl : y.gdtr64 + 5 ≤ 0xFFFF) :
    ∃ g', runList (trampolineBlock y) (enterLong y) ⟨s, g⟩ =
      .ok ⟨(segmented { s with gdtBase := y.gdt64, gdtLimit := 23 }).enter code64
        y.trampoline64, g'⟩ := by
  have hf := hc.fetches hy
  have hsym : y.gdtr64 = y.gdt64 + 32 := rfl
  have hid : ∀ o ≤ 34, s.translate (y.gdt64 + o) = .ok (y.gdt64 + o) :=
    fun o ho => hc.identity _ (by omega)
  have hlgdt := Sys.lgdt_ok hc.not64 (by rw [hc.ds.2]; exact hl) hc.ds.1
    (hid 32 (by decide)) (hid 34 (by decide)) hm.gdtr64Limit (hm.gdtr64Base hy)
    (fun h => absurd h (by simp [Sys.codeBits, hc.cs, code32]))
  obtain ⟨g₁, h₁⟩ := loadSegments_ok (b := trampolineBlock y) (g := g)
    (s := { s with gdtBase := y.gdt64, gdtLimit := 23 }) hf hc.protected_
    (Sys.descriptor_of (by decide) rfl (show 23 ≤ 23 by decide) (hid 16 (by decide))
      (hm.gdt64 2 _ rfl))
  have hjump := jump64_ok (s := segmented { s with gdtBase := y.gdt64, gdtLimit := 23 })
    hc.protected_ hc.active rfl rfl (hid 8 (by decide)) hm hy
  exact ⟨_, (runList_cons hf (exec_lgdt hlgdt)).trans <| (runList_append h₁).trans <|
    runList_cons hf (exec_jmpFar hjump)⟩

/-- After "enable paging". -/
def paged (y : Symbols) (s : Sys) : Sys := withPaging (withTables y (withLong (withPae s)))

theorem paged_ok {s₀ : Sys} (hs : InProtected y s₀ s) (hy : y.Placed) :
    ∃ g', ∀ is, runList (trampolineBlock y)
        ([.movImm32 .rsp (BitVec.ofNat 32 (y.stackBase - 16)), .mov32 .rbp .rsp] ++
          (enablePae ++ (enableLong ++ (setTables y ++ (enablePaging ++ is))))) ⟨s, g⟩ =
      runList (trampolineBlock y) is ⟨paged y s, g'⟩ := by
  have hfetch : ∀ t : Sys, t.rip = s.rip → t.seg = s.seg → t.paging = false →
      t.fetches (trampolineBlock y) = true := fun t hrip hseg hp =>
    fetches_trampoline (hrip.trans hs.rip) (hseg ▸ hs.cs) (Sys.translate_unpaged hp _) hy
  have hf := hfetch s rfl rfl hs.unpaged
  obtain ⟨g₁, h₁⟩ := enablePae_ok (b := trampolineBlock y)
    (g := (g.setLow .rsp (BitVec.ofNat 32 (y.stackBase - 16))).setLow .rbp
      ((g.setLow .rsp (BitVec.ofNat 32 (y.stackBase - 16))).low .rsp)) hf hs.legacy
  obtain ⟨g₂, h₂⟩ := enableLong_ok (g := g₁)
    (hfetch (withPae s) rfl rfl hs.unpaged) hs.unpaged
  obtain ⟨g₃, h₃⟩ := setTables_ok (y := y) (g := g₂)
    (hfetch (withLong (withPae s)) rfl rfl hs.unpaged)
  obtain ⟨g₄, h₄⟩ := enablePaging_ok (g := g₃)
    (hfetch (withTables y (withLong (withPae s))) rfl rfl hs.unpaged) hs.protected_ hs.unpaged
    (longEfer_bits s.efer).2.1 (by simp [withTables, withLong, withPae, cr4Pae, cr4Pse])
    (by rw [show (withTables y (withLong (withPae s))).seg .cs = _ from hs.cs]; rfl)
  refine ⟨g₄, fun is => (runList_cons hf rfl).trans <| (runList_cons hf rfl).trans <|
    (runList_append h₁).trans <| (runList_append h₂).trans <| (runList_append h₃).trans <|
    runList_append h₄⟩

theorem translate_tables (hp : s.paging = true) (hcr3 : s.cr3.toNat = y.bootP4)
    (ht : TablesAt s.mem y.bootP4) {a : Nat} (ha : a < 2 ^ 30) : s.translate a = .ok a := by
  have hwalk : walk s.mem s.cr3.toNat a = .page a true true := by
    rw [hcr3, walk_tables ht (by omega), if_pos ha]
  simp only [Sys.translate, hp, if_true, hwalk]

theorem paged_bits (s : Sys) (hp : s.protected_ = true) (y : Symbols) :
    (paged y s).protected_ = true ∧ (paged y s).paging = true ∧
      (paged y s).longActive = true := by
  have hbit : s.cr0.getLsbD 0 = true := hp
  refine ⟨?_, ?_, ?_⟩
  · show ((s.cr0.setWidth 32 ||| cr0Paging).setWidth 64).getLsbD 0 = true
    simp [hbit]
  · show ((s.cr0.setWidth 32 ||| cr0Paging).setWidth 64).getLsbD 31 = true
    simp [cr0Paging]
  · show (longEfer s.efer ||| 0x400).getLsbD 10 = true
    simp

theorem paged_cr3 (s : Sys) (ht : TablesAt s.mem y.bootP4) :
    (paged y s).cr3.toNat = y.bootP4 := by
  have hlow := ht.low
  show ((BitVec.ofNat 32 y.bootP4).setWidth 64).toNat = y.bootP4
  simp only [BitVec.toNat_setWidth, BitVec.toNat_ofNat, pageSize] at *
  omega

theorem paged_compat {s₀ : Sys} (hs : InProtected y s₀ s) (hm : Loaded s.mem y)
    (hds : (s₀.seg .ds).base = 0 ∧ (s₀.seg .ds).limit = 0xFFFF) : Compat y (paged y s) := by
  obtain ⟨hpe, hpg, hlma⟩ := paged_bits s hs.protected_ y
  refine ⟨hpe, hlma, fun a ha => ?_, hs.cs, ?_, hs.rip⟩
  · exact translate_tables hpg (paged_cr3 s hm.tables) hm.tables ha
  · rw [show (paged y s).seg .ds = _ from hs.ds]
    exact hds

/-- What is so at `.trampoline64`, for an arrival at `.trampoline` in `s`. -/
structure InLong (y : Symbols) (s s' : Sys) : Prop where
  protected_ : s'.protected_ = true
  paging : s'.paging = true
  active : s'.longActive = true
  cr3 : s'.cr3.toNat = y.bootP4
  cr4 : s'.cr4.getLsbD 4 = true ∧ s'.cr4.getLsbD 5 = true
  efer : s'.efer.getLsbD 0 = true ∧ s'.efer.getLsbD 11 = true
  cs : s'.seg .cs = code64
  ss : s'.seg .ss = data64
  others : ∀ r, r ≠ .cs → r ≠ .ss → s'.seg r = nullSegment
  mem : s'.mem = s.mem
  interrupts : s'.interrupts = s.interrupts
  rip : s'.rip = y.trampoline64

/-- **32-bit code.** -/
theorem trampoline_ok {s₀ : Sys} (hs : InProtected y s₀ s) (hm : Loaded s.mem y)
    (hy : y.Placed) (hds : (s₀.seg .ds).base = 0 ∧ (s₀.seg .ds).limit = 0xFFFF)
    (hl : y.gdtr64 + 5 ≤ 0xFFFF) :
    ∃ c', State.run ⟨s, g⟩ (trampolineBlock y) = .ok c' ∧ InLong y s c'.sys := by
  obtain ⟨g₁, h₁⟩ := paged_ok (g := g) hs hy
  have hc := paged_compat hs hm hds
  obtain ⟨g₂, h₂⟩ := enterLong_ok (g := g₁) hc hm hy hl
  obtain ⟨-, hpg, -⟩ := paged_bits s hs.protected_ y
  obtain ⟨hsce, -, hnx⟩ := longEfer_bits s.efer
  refine ⟨_, (h₁ _).trans h₂, hc.protected_, hpg, hc.active, paged_cr3 s hm.tables, ?_, ?_,
    rfl, rfl, ?_, rfl, rfl, rfl⟩
  · show ((s.cr4.setWidth 32 ||| (cr4Pae + cr4Pse)).setWidth 64).getLsbD 4 = true ∧
      ((s.cr4.setWidth 32 ||| (cr4Pae + cr4Pse)).setWidth 64).getLsbD 5 = true
    simp [cr4Pae, cr4Pse]
  · show (longEfer s.efer ||| 0x400).getLsbD 0 = true ∧
      (longEfer s.efer ||| 0x400).getLsbD 11 = true
    rw [BitVec.getLsbD_or, BitVec.getLsbD_or, hsce, hnx]
    exact ⟨rfl, rfl⟩
  · intro r hcs hss
    cases r
    case cs => exact absurd rfl hcs
    case ss => exact absurd rfl hss
    all_goals rfl

/-- 64-bit code under the tables of the boot code. -/
structure Long (y : Symbols) (s : Sys) : Prop where
  protected_ : s.protected_ = true
  paging : s.paging = true
  active : s.longActive = true
  pae : s.cr4.getLsbD 5 = true
  cr3 : s.cr3.toNat = y.bootP4
  cs : s.seg .cs = code64
  tables : TablesAt s.mem y.bootP4

theorem Long.codeBits (h : Long y s) : s.codeBits = 64 := by
  simp [Sys.codeBits, h.active, h.cs, code64]

theorem Long.identity (h : Long y s) {a : Nat} (ha : a < 2 ^ 30) : s.translate a = .ok a :=
  translate_tables h.paging h.cr3 h.tables ha

theorem Long.fetches (h : Long y s) (hrip : s.rip = b.addr) (hb : b.bits = 64)
    (ha : b.addr < 2 ^ 30) : s.fetches b = true :=
  Sys.fetches_of hrip (h.codeBits.trans hb.symm) (.inl hb) (h.identity ha)

theorem Long.store (h : Long y s) {a : Nat} (x : BitVec 64) (ha : a + 8 ≤ y.bootP4) :
    Long y { s with mem := storeWord s.mem a x } :=
  ⟨h.protected_, h.paging, h.active, h.pae, h.cr3, h.cs,
    h.tables.congr fun _ hb _ => storeWord_outside (by omega)⟩

theorem Long.goto (h : Long y s) (rip : Nat) : Long y { s with rip := rip } :=
  ⟨h.protected_, h.paging, h.active, h.pae, h.cr3, h.cs, h.tables⟩

/-- `CR0` after the `and` and the `or` of `enable_sse`. -/
def sseCr0 (x : BitVec 64) : BitVec 64 :=
  (x &&& (~~~ 0xFFFF ||| (0xFFFB#16).setWidth 64)) ||| (0x2#16).setWidth 64

def sseCr4 (x : BitVec 64) : BitVec 64 := x ||| (3#16 <<< 9).setWidth 64

theorem sseCr0_bits (x : BitVec 64) :
    (sseCr0 x).getLsbD 0 = x.getLsbD 0 ∧ (sseCr0 x).getLsbD 1 = true ∧
      (sseCr0 x).getLsbD 2 = false ∧ (sseCr0 x).getLsbD 31 = x.getLsbD 31 := by
  simp [sseCr0]

theorem sseCr4_bits (x : BitVec 64) :
    (sseCr4 x).getLsbD 4 = x.getLsbD 4 ∧ (sseCr4 x).getLsbD 5 = x.getLsbD 5 ∧
      (sseCr4 x).getLsbD 9 = true ∧ (sseCr4 x).getLsbD 10 = true := by
  simp [sseCr4]

theorem Long.setCr0 (h : Long y s) : Long y { s with cr0 := sseCr0 s.cr0 } := by
  obtain ⟨hpe, -, -, hpg⟩ := sseCr0_bits s.cr0
  exact ⟨hpe.trans h.protected_, hpg.trans h.paging, h.active, h.pae, h.cr3, h.cs, h.tables⟩

theorem Long.setCr4 (h : Long y s) : Long y { s with cr4 := sseCr4 s.cr4 } :=
  ⟨h.protected_, h.paging, h.active, (sseCr4_bits s.cr4).2.1.trans h.pae, h.cr3, h.cs,
    h.tables⟩

def withSse (s : Sys) : Sys := { s with cr0 := sseCr0 s.cr0, cr4 := sseCr4 s.cr4 }

theorem Long.withSse (h : Long y s) : Long y (withSse s) := h.setCr0.setCr4

theorem setupSse_ok (h : Long y s) (hrip : s.rip = b.addr) (hb : b.bits = 64)
    (ha : b.addr < 2 ^ 30) :
    ∃ g', runList b setupSse ⟨s, g⟩ = .ok ⟨Boot.withSse s, g'⟩ ∧
      ∀ r, r ≠ .rax → g' r = g r := by
  have hf := h.fetches hrip hb ha
  have hf' := h.setCr0.fetches (b := b) hrip hb ha
  have hcr0 : s.setCr .cr0 (sseCr0 s.cr0) = .ok { s with cr0 := sseCr0 s.cr0 } :=
    Sys.setCr0_paged h.setCr0.paging h.setCr0.protected_ h.paging
  have hcr4 := Sys.setCr4_ok (s := { s with cr0 := sseCr0 s.cr0 }) (x := sseCr4 s.cr4)
    (.inr h.setCr4.pae)
  rw [setupSse, runList_cons hf rfl, runList_cons hf rfl, runList_cons hf rfl,
    runList_cons hf (exec_writeCr ?_ hcr0), runList_cons hf' rfl, runList_cons hf' rfl,
    runList_cons hf' (exec_writeCr ?_ hcr4)]
  · exact ⟨_, rfl, fun r hr => by simp [Regs.set_of_ne, hr]⟩
  · simp [Sys.cr, sseCr4]
  · simp [Sys.cr, sseCr0]

/-- The address of the word `n` bytes below the base of the stack. -/
theorem stack_toNat (hy : y.Placed) {n : Nat} (hn : n ≤ 32) :
    (BitVec.ofNat 64 (y.stackBase - n)).toNat = y.stackBase - n := by
  have hstack := hy.stack
  rw [BitVec.toNat_ofNat]
  omega

theorem stack_sub (hy : y.Placed) {n : Nat} (hn : n + 8 ≤ 32) :
    BitVec.ofNat 64 (y.stackBase - n) - 8 = BitVec.ofNat 64 (y.stackBase - (n + 8)) := by
  have hstack := hy.stack
  apply BitVec.eq_of_toNat_eq
  rw [BitVec.toNat_sub, stack_toNat hy (by omega), stack_toNat hy hn,
    show (8 : BitVec 64).toNat = 8 from rfl]
  omega

theorem stack_add (hy : y.Placed) {n : Nat} (hn : n + 8 ≤ 32) :
    BitVec.ofNat 64 (y.stackBase - (n + 8)) + 8 = BitVec.ofNat 64 (y.stackBase - n) := by
  rw [← stack_sub hy hn, BitVec.sub_add_cancel]


theorem push_stack (h : Long y s) (hy : y.Placed) {n : Nat} (hn : n + 8 ≤ 32)
    (hsp : g .rsp = BitVec.ofNat 64 (y.stackBase - n)) (x : BitVec 64) :
    State.push ⟨s, g⟩ x = .ok ⟨{ s with mem := storeWord s.mem (y.stackBase - (n + 8)) x },
      g.set .rsp (BitVec.ofNat 64 (y.stackBase - (n + 8)))⟩ := by
  have hstack := hy.stack
  have hsub : g .rsp - 8 = BitVec.ofNat 64 (y.stackBase - (n + 8)) := by
    rw [hsp, stack_sub hy hn]
  rw [← hsub]
  exact State.push_ok h.codeBits (by rw [hsub, stack_toNat hy hn]) (h.identity (by omega))

theorem pop_stack (h : Long y s) (hy : y.Placed) {n : Nat} (hn : n + 8 ≤ 32)
    (hsp : g .rsp = BitVec.ofNat 64 (y.stackBase - (n + 8))) {x : BitVec 64}
    (hx : word s.mem (y.stackBase - (n + 8)) 8 = x.toNat) :
    State.pop ⟨s, g⟩ = .ok (x, ⟨s, g.set .rsp (BitVec.ofNat 64 (y.stackBase - n))⟩) := by
  have hstack := hy.stack
  have hadd : g .rsp + 8 = BitVec.ofNat 64 (y.stackBase - n) := by
    rw [hsp, stack_add hy hn]
  have hnat : (g .rsp).toNat = y.stackBase - (n + 8) := by rw [hsp, stack_toNat hy hn]
  rw [← hadd]
  exact State.pop_ok h.codeBits hnat (h.identity (by omega)) hx

/-- At `enable_sse`, the return address on the stack. -/
def called (y : Symbols) (s : Sys) : Sys :=
  { s with mem := storeWord s.mem (y.stackBase - 24) (BitVec.ofNat 64 y.afterSse),
           rip := y.enableSse }

theorem Long.called (h : Long y s) (hy : y.Placed) : Long y (called y s) := by
  have hstack := hy.stack
  exact (h.store _ (show y.stackBase - 24 + 8 ≤ y.bootP4 by omega)).goto _

/-- **The call of `enable_sse`.** -/
theorem trampoline64_ok (h : Long y s) (hrip : s.rip = y.trampoline64) (hy : y.Placed) :
    ∃ g', State.run ⟨s, g⟩ (trampoline64Block y) = .ok ⟨Boot.called y s, g'⟩ ∧
      g' .rsp = BitVec.ofNat 64 (y.stackBase - 24) ∧
      ∀ r, r ≠ .rsp → g' r = if r = .rbp then BitVec.ofNat 64 (y.stackBase - 16) else g r := by
  have hf := h.fetches (b := trampoline64Block y) hrip rfl hy.trampoline64
  have hpush := push_stack (g := (g.set .rsp (BitVec.ofNat 64 (y.stackBase - 16))).set .rbp
      (BitVec.ofNat 64 (y.stackBase - 16))) (n := 16) h hy (by decide) rfl
      (BitVec.ofNat 64 y.afterSse)
  refine ⟨_, (runList_cons hf rfl).trans <| (runList_cons hf rfl).trans <|
    (runList_cons hf (State.exec_call hpush)).trans rfl, rfl, fun r hr => ?_⟩
  by_cases hb : r = .rbp
  · simp [Regs.set, hb]
  · simp [Regs.set, hb, hr]

/-- Back from `enable_sse`, which saved `rax` on the stack. -/
def returned (y : Symbols) (rax : BitVec 64) (s : Sys) : Sys :=
  { withSse { s with mem := storeWord s.mem (y.stackBase - 32) rax } with rip := y.afterSse }

theorem Long.returned (h : Long y s) (hy : y.Placed) (rax : BitVec 64) :
    Long y (returned y rax s) := by
  have hstack := hy.stack
  exact ((h.store rax (show y.stackBase - 32 + 8 ≤ y.bootP4 by omega)).withSse).goto _

/-- **`enable_sse`.** -/
theorem enableSse_ok (h : Long y s) (hrip : s.rip = y.enableSse) (hy : y.Placed)
    (hsp : g .rsp = BitVec.ofNat 64 (y.stackBase - 24))
    (hback : word s.mem (y.stackBase - 24) 8 = (BitVec.ofNat 64 y.afterSse).toNat) :
    ∃ g', State.run ⟨s, g⟩ (enableSseBlock y) = .ok ⟨Boot.returned y (g .rax) s, g'⟩ ∧
      g' .rsp = BitVec.ofNat 64 (y.stackBase - 16) ∧ ∀ r, r ≠ .rsp → g' r = g r := by
  have hstack := hy.stack
  have hf := h.fetches (b := enableSseBlock y) hrip rfl hy.enableSse
  have hpush := push_stack (n := 24) h hy (by decide) hsp (g .rax)
  have hlong := h.store (g .rax) (show y.stackBase - 32 + 8 ≤ y.bootP4 by omega)
  obtain ⟨g₁, h₁, hkeep⟩ := setupSse_ok (b := enableSseBlock y)
    (g := g.set .rsp (BitVec.ofNat 64 (y.stackBase - 32))) hlong hrip rfl hy.enableSse
  have hpop := pop_stack (n := 24) (g := g₁) hlong.withSse hy (by decide)
    ((hkeep .rsp (by decide)).trans rfl) (word_storeWord s.mem _ (g .rax))
  have hret := pop_stack (n := 16)
    (g := (g₁.set .rsp (BitVec.ofNat 64 (y.stackBase - 24))).set .rax (g .rax))
    hlong.withSse hy (by decide) rfl
    ((word_storeWord_outside (by omega)).trans hback)
  have hf' := hlong.withSse.fetches (b := enableSseBlock y) hrip rfl hy.enableSse
  have hnat : (BitVec.ofNat 64 y.afterSse).toNat = y.afterSse := by
    have hafter := hy.afterSse
    rw [BitVec.toNat_ofNat]
    omega
  refine ⟨((g₁.set .rsp (BitVec.ofNat 64 (y.stackBase - 24))).set .rax (g .rax)).set .rsp
      (BitVec.ofNat 64 (y.stackBase - 16)),
    (runList_cons hf (State.exec_push hpush)).trans <| (runList_append h₁).trans <|
      (runList_cons hf' (State.exec_pop hpop)).trans <|
      (runList_cons hf' (State.exec_ret hret)).trans ?_, rfl, fun r hr => ?_⟩
  · rw [hnat]
    rfl
  · by_cases ha : r = .rax
    · simp [Regs.set, ha]
    · simp [Regs.set, ha, hr, hkeep r ha]

/-! ## All of it -/

/-- What is so after `enable_sse`, for a start in `c`. -/
structure Booted (y : Symbols) (c c' : State) : Prop where
  long : Long y c'.sys
  segments : c'.sys.seg .ss = data64 ∧
    ∀ r, r ≠ .cs → r ≠ .ss → c'.sys.seg r = nullSegment
  sse : c'.sys.cr0.getLsbD 1 = true ∧ c'.sys.cr0.getLsbD 2 = false ∧
    c'.sys.cr4.getLsbD 9 = true ∧ c'.sys.cr4.getLsbD 10 = true
  noExecute : c'.sys.efer.getLsbD 11 = true
  syscalls : c'.sys.efer.getLsbD 0 = true
  interrupts : c'.sys.interrupts = false
  rip : c'.sys.rip = y.afterSse
  rsp : c'.gpr .rsp = BitVec.ofNat 64 (y.stackBase - 16)
  rbp : c'.gpr .rbp = BitVec.ofNat 64 (y.stackBase - 16)
  mem : ∀ a, a < y.stackBase - 32 ∨ y.stackBase - 16 ≤ a → c'.sys.mem a = c.sys.mem a

theorem InLong.long {s' : Sys} (h : InLong y s s') (hm : Loaded s.mem y) : Long y s' :=
  ⟨h.protected_, h.paging, h.active, h.cr4.2, h.cr3, h.cs, h.mem ▸ hm.tables⟩

theorem boot_of {c c₁ c₂ c₃ c₄ : State} (h₁ : c.run (startBlock y) = .ok c₁)
    (h₂ : c₁.run (trampolineBlock y) = .ok c₂) (h₃ : c₂.run (trampoline64Block y) = .ok c₃)
    (h₄ : c₃.run (enableSseBlock y) = .ok c₄) : boot y c = .ok c₄ := by
  simp only [boot, h₁, h₂, h₃, h₄, bind, Except.bind]

/-- **From reset to 64-bit code.** The processor arrives behind the call of
`enable_sse` if `gdtr64` ends in the first 64 KiB. -/
theorem boot_ok (hs : AtReset y s) (hm : Loaded s.mem y) (hy : y.Placed)
    (hl : y.gdtr64 + 5 ≤ 0xFFFF) : ∃ c', boot y ⟨s, g⟩ = .ok c' ∧ Booted y ⟨s, g⟩ c' := by
  have hl32 : y.gdtr32 + 5 ≤ 0xFFFF := by
    simp only [Symbols.gdtr64, Symbols.gdtr32] at *
    omega
  obtain ⟨⟨s₁, g₁⟩, h₁, hp⟩ := start_ok (g := g) hs hm hy hl32
  have hm₁ : Loaded s₁.mem y := by
    rw [show s₁.mem = s.mem from hp.mem]
    exact hm
  obtain ⟨⟨s₂, g₂⟩, h₂, hin⟩ := trampoline_ok (g := g₁) hp hm₁ hy hs.ds hl
  have hlong : Long y s₂ := hin.long hm₁
  obtain ⟨g₃, h₃, hsp₃, hg₃⟩ := trampoline64_ok (g := g₂) hlong hin.rip hy
  obtain ⟨g₄, h₄, hsp₄, hg₄⟩ := enableSse_ok (hlong.called hy) rfl hy hsp₃
    (word_storeWord _ _ _)
  refine ⟨_, boot_of h₁ h₂ h₃ h₄, (hlong.called hy).returned hy _, ⟨hin.ss, hin.others⟩, ?_,
    hin.efer.2, hin.efer.1, hin.interrupts.trans hp.interrupts, rfl, hsp₄, ?_, ?_⟩
  · obtain ⟨-, hmp, hem, -⟩ := sseCr0_bits s₂.cr0
    obtain ⟨-, -, hfxsr, hxmm⟩ := sseCr4_bits s₂.cr4
    exact ⟨hmp, hem, hfxsr, hxmm⟩
  · exact (hg₄ .rbp (by decide)).trans ((hg₃ .rbp (by decide)).trans rfl)
  · intro a ha
    have hstack := hy.stack
    have hmem : s₂.mem = s.mem := hin.mem.trans hp.mem
    show storeWord (storeWord s₂.mem _ _) _ _ a = s.mem a
    rw [storeWord_outside (by omega), storeWord_outside (by omega), hmem]

end

end Wasp.Boot
