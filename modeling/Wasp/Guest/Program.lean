import Wasp.Guest.Resume
import Wasp.Pass.Refinement

/-!
# Program — the guest as one program

All of `boot64.asm` from `_start` to the `out` of the exit port, with the C
functions that it calls as parameters: `__libc_init_array`, `atexit`,
`__snapshot` and `__virtine_main`, each as what it does from its first
instruction to the one behind its return. `Build.Correct` is what the
compilers and the libc owe the boot code. A `KVM_RUN` from the reset state
then stops at the `out` of `__snapshot`, and one from behind that `out` stops
at the exit port, with the argument struct as `__virtine_main` leaves it.
-/

namespace Wasp.Boot

open ByteMem LittleEndian PageTable Processor

variable {S F : Type}

/-! ## The code -/

/-- The C code, and where the linker puts it. `runSnapshot` ends at the `out`
of `__hypercall`, `finish` is the rest of `__snapshot` behind it. -/
structure Program extends Entries where
  initArray : Nat
  afterInit : Nat
  finiArray : Nat
  atexit : Nat
  afterAtexit : Nat
  snapshot : Nat
  runInitArray : State → Except Exn State
  runAtexit : State → Except Exn State
  runSnapshot : State → Except Exn State
  finish : State → Except Exn State
  runMain : State → Except Exn State

/-- The `out` at `a` ends `KVM_RUN`. -/
def out (a : Nat) (port : BitVec 16) (c : State) : Except Exn (BitVec 16 × State) :=
  if c.sys.fetches ⟨64, a, []⟩ then .ok (port, c) else .error .ud

namespace Program

variable (p : Program) (y : Symbols)

def initCode : Code := ⟨64, y.afterSse, [.call p.initArray p.afterInit]⟩

def atexitCode : Code :=
  ⟨64, p.afterInit,
    [.movImm .rdi (BitVec.ofNat 64 p.finiArray), .call p.atexit p.afterAtexit]⟩

def snapshotCode : Code := ⟨64, p.afterAtexit, [.call p.snapshot p.afterSnapshot]⟩

/-- From `_start` to the `out` of `__snapshot`. -/
def cold (c : State) : Except Exn (BitVec 16 × State) := do
  let c ← boot y c
  let c ← c.run (p.initCode y)
  let c ← p.runInitArray c
  let c ← c.run p.atexitCode
  let c ← p.runAtexit c
  let c ← c.run p.snapshotCode
  let c ← p.runSnapshot c
  out p.hypercall 0xFF c

/-- From behind that `out` to `out 0xFA, ax`. -/
def warm (c : State) : Except Exn (BitVec 16 × State) := do
  let c ← p.goOn p.finish c
  let c ← p.runMain c
  out p.afterMain 0xFA c

/-- One `KVM_RUN`: the port it stops at, and the processor then. -/
def run (c : State) : Except Exn (BitVec 16 × State) :=
  if c.sys.rip = y.start then p.cold y c else p.warm c

structure Placed : Prop extends p.toEntries.Placed where
  afterInit : p.afterInit < 2 ^ 30
  afterAtexit : p.afterAtexit < 2 ^ 30
  behind : y.start < p.hypercall

end Program

/-! ## What the C code owes -/

/-- At the entry of a function that the boot code calls. -/
structure Called (y : Symbols) (entry back : Nat) (c : State) : Prop where
  long : Long y c.sys
  rip : c.sys.rip = entry
  rsp : c.gpr .rsp = BitVec.ofNat 64 (y.stackBase - 24)
  back : word c.sys.mem (y.stackBase - 24) 8 = back

/-- Between two calls of the boot code. -/
structure Between (y : Symbols) (rip : Nat) (c : State) : Prop where
  long : Long y c.sys
  rip : c.sys.rip = rip
  rsp : c.gpr .rsp = BitVec.ofNat 64 (y.stackBase - 16)

/-- A C function: called as `pre` says, it comes back and leaves its memory as
`post` says, and the bytes below `low` as they were. -/
def CFunction (y : Symbols) (low entry back : Nat) (pre : State → Prop)
    (post : (Nat → UInt8) → Prop) (fn : State → Except Exn State) : Prop :=
  ∀ c, Called y entry back c → pre c → ∃ c', fn c = .ok c' ∧ Between y back c' ∧
    post c'.sys.mem ∧ ∀ a < low, c'.sys.mem a = c.sys.mem a

/-- A function of the pass as the tools make an image of it. The C code has
its stack from `low` on. `brk` is the break at the snapshot, `constructed` and
`registered` is what the C code keeps in its memory behind
`__libc_init_array` and behind `atexit`. -/
structure Build where
  fn : Fn
  objects : Objects
  program : Program
  low : Nat
  brk : BitVec 64
  constructed : (Nat → UInt8) → Prop
  registered : (Nat → UInt8) → Prop

namespace Build

variable (b : Build)

def symbols : Symbols := b.objects.symbols

/-- A property of the bytes behind the stack and below the break. -/
def Kept (K : (Nat → UInt8) → Prop) : Prop :=
  ∀ m m', (∀ a, Objects.stackBase ≤ a → a < b.brk.toNat → m' a = m a) → K m → K m'

/-- At the `out` of `__snapshot`; the rest of `__snapshot` comes back with
the registers `g`. -/
structure AtSnapshot (c : State) (g : Regs) : Prop where
  inSnapshot : InSnapshot b.symbols b.program.toEntries b.program.finish c g
  rdi : c.gpr .rdi = 0xFF
  rdx : c.gpr .rdx = b.brk
  low : b.low ≤ (c.gpr .rsp).toNat
  registered : b.registered c.sys.mem

/-- The image is linked as `link64.ld` says, with `gdtr64` in the first 64 KiB
and the struct below the stack, and its C code keeps to the calling
convention: `__virtine_main` may do to the memory what it likes, but leaves in
the struct what it should. -/
structure Correct : Prop where
  valid : b.objects.Valid
  near : b.objects.dataAddr + 67 ≤ 0xFFFF
  placed : b.program.Placed b.symbols
  stack : b.low ≤ Objects.stackBase - 32
  fits : b.fn.argSize ≤ b.low
  heap : ∃ h incrs, Run (Libc.Heap.FittingCall (BitVec.ofNat 64 b.objects.heapStart))
    (.init (BitVec.ofNat 64 b.objects.heapStart)) incrs h ∧ b.brk = h.heapend
  memory : b.brk.toNat ≤ ramSize.toNat
  initArray : CFunction b.symbols b.low b.program.initArray b.program.afterInit
    (fun c => HoldsBytes c.sys.mem Objects.stackBase b.objects.image) b.constructed
    b.program.runInitArray
  atexit : CFunction b.symbols b.low b.program.atexit b.program.afterAtexit
    (fun c => c.gpr .rdi = BitVec.ofNat 64 b.program.finiArray ∧ b.constructed c.sys.mem)
    b.registered b.program.runAtexit
  snapshot : ∀ c, Called b.symbols b.program.snapshot b.program.afterSnapshot c →
    b.registered c.sys.mem → ∃ c' g, b.program.runSnapshot c = .ok c' ∧
      b.AtSnapshot c' g ∧ ∀ a < b.low, c'.sys.mem a = c.sys.mem a
  main : ∀ c, Called b.symbols b.program.main b.program.afterMain c → c.gpr .rdi = 0 →
    b.registered c.sys.mem → ∃ c', b.program.runMain c = .ok c' ∧ Long b.symbols c'.sys ∧
      c'.sys.rip = b.program.afterMain ∧ ∀ m, b.fn.main c.sys.mem = some m →
        ∀ a ∈ (Layout.struct b.fn.fields).bytes, c'.sys.mem a = m a
  constructed : b.Kept b.constructed
  registered : b.Kept b.registered

end Build

/-! ## One run of the vCPU -/

section

variable {y : Symbols} {c : State} {target back low : Nat}

theorem called_calling (h : Long y c.sys) (hy : y.Placed) (hback : back < 2 ^ 30) :
    Called y target back (calling y target back c) where
  long := by
    have hstack := hy.stack
    exact (h.store _ (by omega)).goto _
  rip := rfl
  rsp := rfl
  back := by
    refine (word_storeWord _ _ _).trans ?_
    rw [BitVec.toNat_ofNat]
    omega

theorem mem_calling (hy : y.Placed) {a : Nat}
    (ha : a < y.stackBase - 24 ∨ y.stackBase - 16 ≤ a) :
    (calling y target back c).sys.mem a = c.sys.mem a := by
  have hstack := hy.stack
  exact storeWord_outside (by omega)

/-- **A call of a C function** from the boot code. -/
theorem CFunction.called {pre : State → Prop} {post : (Nat → UInt8) → Prop}
    {fn : State → Except Exn State} (h : CFunction y low target back pre post fn)
    (hlong : Long y c.sys) (hy : y.Placed) (hback : back < 2 ^ 30)
    (hpre : pre (calling y target back c)) (hlow : low ≤ y.stackBase - 24) :
    ∃ c', fn (calling y target back c) = .ok c' ∧ Between y back c' ∧ post c'.sys.mem ∧
      ∀ a < low, c'.sys.mem a = c.sys.mem a := by
  obtain ⟨c', hrun, hbetween, hpost, hmem⟩ := h _ (called_calling hlong hy hback) hpre
  exact ⟨c', hrun, hbetween, hpost, fun a ha =>
    (hmem a ha).trans (mem_calling hy (.inl (by omega)))⟩

theorem out_ok (h : Long y c.sys) {a : Nat} (hrip : c.sys.rip = a) (ha : a < 2 ^ 30)
    (port : BitVec 16) : out a port c = .ok (port, c) :=
  if_pos (h.fetches hrip rfl ha)

end

namespace Build

variable {b : Build} {c : State} {g : Regs}

theorem Correct.tables (hb : b.Correct) :
    b.symbols.bootP4 + 3 * pageSize ≤ b.brk.toNat := by
  obtain ⟨h, incrs, hrun, hbrk⟩ := hb.heap
  rw [hbrk]
  exact tables_saved hb.valid hrun

/-- What the C code keeps survives a call. -/
theorem Correct.kept_calling {K : (Nat → UInt8) → Prop} (hb : b.Correct) (hK : b.Kept K)
    {target back : Nat} (h : K c.sys.mem) : K (calling b.symbols target back c).sys.mem := by
  refine hK _ _ (fun a ha _ => mem_calling (symbols_placed hb.valid) (.inr ?_)) h
  show Objects.stackBase - 16 ≤ a
  omega

/-- The three calls before the snapshot. -/
theorem Correct.init (hb : b.Correct) (hc : Between b.symbols b.symbols.afterSse c)
    (hm : HoldsBytes c.sys.mem Objects.stackBase b.objects.image) :
    ∃ c₁ c₂ c₃ g, b.program.runInitArray
        (calling b.symbols b.program.initArray b.program.afterInit c) = .ok c₁ ∧
      Between b.symbols b.program.afterInit c₁ ∧
      b.program.runAtexit (calling b.symbols b.program.atexit b.program.afterAtexit
        ⟨c₁.sys, c₁.gpr.set .rdi (BitVec.ofNat 64 b.program.finiArray)⟩) = .ok c₂ ∧
      Between b.symbols b.program.afterAtexit c₂ ∧
      b.program.runSnapshot
        (calling b.symbols b.program.snapshot b.program.afterSnapshot c₂) = .ok c₃ ∧
      b.AtSnapshot c₃ g ∧ ∀ a < b.low, c₃.sys.mem a = c.sys.mem a := by
  have hy : b.symbols.Placed := symbols_placed hb.valid
  have hlow : b.low ≤ b.symbols.stackBase - 24 := by
    have hstack := hb.stack
    show b.low ≤ Objects.stackBase - 24
    omega
  have hentries := hb.placed.toPlaced
  obtain ⟨c₁, hrun₁, hat₁, hpost₁, hmem₁⟩ := hb.initArray.called hc.long hy
    hb.placed.afterInit (fun i x hx => (mem_calling hy (.inr (by
      show Objects.stackBase - 16 ≤ Objects.stackBase + i
      omega))).trans (hm i x hx)) hlow
  obtain ⟨c₂, hrun₂, hat₂, hpost₂, hmem₂⟩ := hb.atexit.called
    (c := ⟨c₁.sys, c₁.gpr.set .rdi (BitVec.ofNat 64 b.program.finiArray)⟩) hat₁.long hy
    hb.placed.afterAtexit ⟨rfl, hb.kept_calling hb.constructed hpost₁⟩ hlow
  obtain ⟨c₃, g, hrun₃, hat₃, hmem₃⟩ := hb.snapshot _
    (called_calling hat₂.long hy hentries.afterSnapshot)
    (hb.kept_calling hb.registered hpost₂)
  refine ⟨c₁, c₂, c₃, g, hrun₁, hat₁, hrun₂, hat₂, hrun₃, hat₃, fun a ha => ?_⟩
  rw [hmem₃ a ha, mem_calling hy (.inl (by omega)), hmem₂ a ha, hmem₁ a ha]

/-- **The first `KVM_RUN`** stops in `__snapshot`, with the bytes below the
stack as they were. -/
theorem Correct.cold (hb : b.Correct) (hs : AtReset b.symbols c.sys)
    (hm : HoldsBytes c.sys.mem Objects.stackBase b.objects.image) :
    ∃ c' g, b.program.run b.symbols c = .ok (0xFF, c') ∧ b.AtSnapshot c' g ∧
      ∀ a < b.low, c'.sys.mem a = c.sys.mem a := by
  have hy : b.symbols.Placed := symbols_placed hb.valid
  have hlow := hb.stack
  have hnear := hb.near
  have hbase : b.symbols.stackBase = Objects.stackBase := rfl
  have hgdtr : b.symbols.gdtr64 = b.objects.dataAddr + 62 := rfl
  have hentries := hb.placed.toPlaced
  obtain ⟨c₀, hboot, hbooted⟩ := boot_ok (g := c.gpr) hs (image_loaded hb.valid hm) hy
    (by omega)
  have hat₀ : Between b.symbols b.symbols.afterSse c₀ :=
    ⟨hbooted.long, hbooted.rip, hbooted.rsp⟩
  obtain ⟨c₁, c₂, c₃, g, hrun₁, hat₁, hrun₂, hat₂, hrun₃, hat₃, hmem⟩ := hb.init hat₀
    fun i x hx => (hbooted.mem _ (.inr (by omega))).trans (hm i x hx)
  have hcall₁ : c₀.run (b.program.initCode b.symbols) = .ok _ :=
    runList_cons (hat₀.long.fetches (b := b.program.initCode b.symbols) hat₀.rip rfl
      hy.afterSse) (exec_calling hat₀.long hy hat₀.rsp)
  have hcall₂ : c₁.run b.program.atexitCode = .ok _ :=
    movCall_ok hat₁.long hy hat₁.rip hb.placed.afterInit hat₁.rsp
  have hcall₃ : c₂.run b.program.snapshotCode = .ok _ :=
    runList_cons (hat₂.long.fetches (b := b.program.snapshotCode) hat₂.rip rfl
      hb.placed.afterAtexit) (exec_calling hat₂.long hy hat₂.rsp)
  have hout := out_ok hat₃.inSnapshot.long hat₃.inSnapshot.rip
    (Nat.lt_of_le_of_lt (Nat.le_add_right _ _) hentries.hypercall) 0xFF
  refine ⟨c₃, g, ?_, hat₃, fun a ha => ?_⟩
  · rw [Program.run, if_pos hs.rip]
    simp only [Program.cold, bind, Except.bind, hboot, hcall₁, hrun₁, hcall₂, hrun₂, hcall₃,
      hrun₃, hout]
  · rw [hmem a ha, hbooted.mem a (.inl (by omega))]

/-- The struct holds the result of the function on `vs`. -/
structure Answers (b : Build) (vs : List (List UInt8)) (m : Mem) : Prop where
  pointees : Surrogates b.fn.fields 0 m 0 b.fn.params (b.fn.body vs).2
  result : b.fn.ret.load m (0 + b.fn.retOffset) = (b.fn.body vs).1

/-- Only the bytes of the fields count. -/
theorem Answers.congr {vs : List (List UInt8)} {m m' : Mem} (h : b.Answers vs m)
    (hm : ∀ a ∈ (Layout.struct b.fn.fields).bytes, m' a = m a) : b.Answers vs m' where
  pointees := by
    refine h.pointees.congr b.fn.fieldsAre fun k p o hp ho => ?_
    rw [Nat.zero_add (Layout.offset _ _)]
    exact (hm _ (Layout.offset_add_mem (b.fn.fieldsAre.get hp) ho)).symm
  result := by
    rw [← h.result]
    refine Layout.load_congr_bytes fun o ho => ?_
    rw [Nat.zero_add]
    exact hm _ (b.fn.ret_byte_mem ho)

/-- **A `KVM_RUN` behind the snapshot** stops at the exit port, with the
result in the struct. -/
theorem Correct.warm {v : Machine Sregs F} (hb : b.Correct) (hat : b.AtSnapshot (cpu v) g)
    {call : Call} {m : Mem} (hm : Warm v call m) (hargsz : call.argsz.toNat ≤ b.low)
    {vs : List (List UInt8)} (htyped : Typed b.fn.params vs)
    (hvs : fieldVals b.fn.fields 0 m 0 b.fn.params = vs) :
    ∃ c, b.program.run b.symbols (cpu { v with regs := v.regs.skipOut, mem := m }) =
        .ok (0xFA, c) ∧ b.Answers vs c.sys.mem := by
  have hy : b.symbols.Placed := symbols_placed hb.valid
  have he := hb.placed.toPlaced
  have hstack := hb.stack
  have hbase : b.symbols.stackBase = Objects.stackBase := rfl
  have hbelow := hy.stack
  have htables := hb.tables
  have hrdx : v.regs.rdx = b.brk := hat.rdx
  have hlow : b.low ≤ v.regs.rsp.toNat := hat.low
  have hsame : ∀ a, b.low ≤ a → a < b.brk.toNat → m a = v.mem a := fun a ha ha' =>
    hm.mem a (by rw [hrdx]; exact ha') (.inr (by omega))
  have ht : TablesAt m b.symbols.bootP4 :=
    hat.inSnapshot.long.tables.congr fun a ha ha' => hsame a (by omega) (by omega)
  have hgo := goOn_ok hat.inSnapshot hy he ht fun a ha ha' => hsame a (by omega) (by omega)
  have henters := atMain_enters hat.inSnapshot hy he ht hm (by omega)
  have hreg : b.registered (atMain b.symbols b.program.toEntries v g m).sys.mem :=
    hb.registered _ _ (fun a ha ha' => henters.mem a (by rw [hrdx]; exact ha')
      (.inr (by omega)) (.inr (by omega))) hat.registered
  obtain ⟨c, hrun, hlong, hrip, hbytes⟩ := hb.main _
    ⟨henters.long, henters.rip, henters.rsp, henters.back⟩ henters.rdi hreg
  -- the return address is above the struct
  have hfields : fieldVals b.fn.fields 0 (atMain b.symbols b.program.toEntries v g m).sys.mem 0
      b.fn.params = vs := by
    rw [← hvs]
    refine fieldVals_congr fun k p o hp ho => mem_calling hy (.inl ?_)
    have hlt := b.fn.param_before_ret hp ho
    have hret := b.fn.ret_in_struct
    have hfits := hb.fits
    omega
  obtain ⟨m', hmain, hpointees, hresult⟩ := main_spec htyped hfields
  refine ⟨c, ?_, Answers.congr (m := m') ⟨hpointees, hresult⟩ (hbytes m' hmain)⟩
  have hstart : (cpu { v with regs := v.regs.skipOut, mem := m }).sys.rip ≠
      b.symbols.start := by
    have hbehind := hb.placed.behind
    show v.regs.skipOut.rip.toNat ≠ _
    rw [skipOut_toNat he hat.inSnapshot.rip]
    omega
  rw [Program.run, if_neg hstart]
  simp only [Program.warm, bind, Except.bind, hgo, hrun, out_ok hlong hrip he.afterMain]

end Build

end Wasp.Boot
