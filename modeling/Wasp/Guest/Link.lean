import Wasp.Guest.Start
import Wasp.Lib.Sections
import Wasp.Runtime.Arguments

/-!
# Link — the image of a virtine and its first start

The linker script `pass/rt/link64.ld` and the order of the objects in
`VirtineCompiler::compile`: the boot code comes first, so `_start` is at
`0x8000`, where the host points the vCPU, and its data are the first ones of
`.data`. The first call for an image puts it at `0x8000` and the argument at
`0`. From there on the boot code of `Start` comes through exactly when the
code of the image leaves its data in the first 64 KiB.
-/

namespace Wasp.Boot

open ByteMem LittleEndian PageTable Processor Sections

variable {S F : Type}

/-! ## The linker script -/

/-- What the objects contribute to the sections. `text`, `data` and `rodata`
are those of all objects but `boot64.o`, with the padding between them; the
labels of the boot code are offsets in its `.text`. -/
structure Objects where
  bootText : List UInt8
  trampoline : Nat
  trampoline64 : Nat
  enableSse : Nat
  afterSse : Nat
  text : List UInt8
  textAlign : Nat
  data : List UInt8
  dataAlign : Nat
  rodata : List UInt8
  rodataAlign : Nat
  bss : Nat
  bssAlign : Nat

namespace Objects

variable (o : Objects)

/-- `. = 0x8000;` -/
def stackBase : Nat := 0x8000

def textAddr : Nat := roundUp stackBase o.textAlign

def dataAddr : Nat :=
  roundUp (o.textAddr + (o.bootText ++ o.text).length) o.dataAlign

def symbols : Symbols where
  start := o.textAddr
  trampoline := o.textAddr + o.trampoline
  trampoline64 := o.textAddr + o.trampoline64
  enableSse := o.textAddr + o.enableSse
  afterSse := o.textAddr + o.afterSse
  data := o.dataAddr
  bootP4 := roundUp (o.dataAddr + (72 + o.data.length)) 4096
  stackBase := stackBase

def sections : List OutputSection :=
  [⟨o.textAlign, o.bootText ++ o.text⟩,
   ⟨o.dataAlign, bootData o.symbols ++ o.data⟩,
   ⟨4096, (paging o.symbols.bootP4).flatMap (bytes 8)⟩,
   ⟨o.rodataAlign, o.rodata⟩]

/-- What `objcopy -O binary` writes. -/
def image : List UInt8 := flat stackBase o.sections

/-- The end of `.rodata`. -/
def imageEnd : Nat := roundUp (o.symbols.bootP4 + 3 * pageSize) o.rodataAlign + o.rodata.length

/-- `__heap_start` -/
def heapStart : Nat := roundUp (roundUp o.imageEnd o.bssAlign + o.bss) 4096

/-- Alignments are not zero, that of the code divides `0x8000`, the labels
are in the boot code, and all of it is in the first GiB. -/
structure Valid : Prop where
  textAlign : 0 < o.textAlign ∧ o.textAlign ∣ stackBase
  dataAlign : 0 < o.dataAlign
  rodataAlign : 0 < o.rodataAlign
  bssAlign : 0 < o.bssAlign
  labels : o.trampoline < o.bootText.length ∧ o.trampoline64 < o.bootText.length ∧
    o.enableSse < o.bootText.length ∧ o.afterSse < o.bootText.length
  boot : o.bootText.length ≤ 0x8000
  low : o.heapStart ≤ 2 ^ 30

end Objects

section

variable {o : Objects}

@[simp] theorem length_bootData (y : Symbols) : (bootData y).length = 72 := by
  simp [bootData]

theorem textAddr_eq (ho : o.Valid) : o.textAddr = 0x8000 :=
  roundUp_of_dvd ho.textAlign.1 ho.textAlign.2

/-- The sections are one after another, `.paging` starts a page, and the
heap starts a page behind all of them. -/
theorem sections_ordered (ho : o.Valid) :
    o.textAddr + (o.bootText ++ o.text).length ≤ o.dataAddr ∧
      o.dataAddr + (72 + o.data.length) ≤ o.symbols.bootP4 ∧
      o.symbols.bootP4 + 3 * pageSize ≤ o.imageEnd ∧ o.imageEnd + o.bss ≤ o.heapStart := by
  have hdata := le_roundUp (o.textAddr + (o.bootText ++ o.text).length) ho.dataAlign
  have hpaging : o.dataAddr + (72 + o.data.length) ≤ o.symbols.bootP4 :=
    le_roundUp _ (by decide)
  have hrodata := le_roundUp (o.symbols.bootP4 + 3 * pageSize) ho.rodataAlign
  have hbss := le_roundUp o.imageEnd ho.bssAlign
  have hheap : roundUp o.imageEnd o.bssAlign + o.bss ≤ o.heapStart := le_roundUp _ (by decide)
  unfold Objects.imageEnd at *
  exact ⟨hdata, hpaging, by omega, by omega⟩

theorem symbols_placed (ho : o.Valid) : o.symbols.Placed := by
  obtain ⟨ht, ht64, hsse, hafter⟩ := ho.labels
  obtain ⟨hdata, hpaging, himage, hheap⟩ := sections_ordered ho
  have htext := textAddr_eq ho
  have hboot := ho.boot
  have hlow := ho.low
  rw [List.length_append] at hdata
  have hstack : Objects.stackBase = 0x8000 := rfl
  constructor
  case start => show o.textAddr < _; omega
  case trampoline => show o.textAddr + o.trampoline < _; omega
  case trampoline64 => show o.textAddr + o.trampoline64 < _; omega
  case enableSse => show o.textAddr + o.enableSse < _; omega
  case afterSse => show o.textAddr + o.afterSse < _; omega
  case data => show o.dataAddr + 62 + 10 ≤ _; omega
  case stack =>
    show 32 ≤ Objects.stackBase ∧ Objects.stackBase ≤ _ ∧ Objects.stackBase ≤ _
    omega

/-- The image has everything where its symbols say. -/
theorem image_loaded (ho : o.Valid) {m : Nat → UInt8}
    (h : HoldsBytes m Objects.stackBase o.image) : Loaded m o.symbols := by
  obtain ⟨-, hpaging, himage, hheap⟩ := sections_ordered ho
  have hlow := ho.low
  obtain ⟨-, hrest⟩ := holdsBytes_flat_cons ho.textAlign.1 h
  obtain ⟨hdata, hrest⟩ := holdsBytes_flat_cons ho.dataAlign hrest
  have htables : HoldsBytes m
      (roundUp (o.dataAddr + (bootData o.symbols ++ o.data).length) 4096)
      ((paging o.symbols.bootP4).flatMap (bytes 8)) :=
    (holdsBytes_flat_cons (Nat.succ_pos _) hrest).1
  rw [List.length_append, length_bootData] at htables
  have hfit : o.symbols.bootP4 + 3 * pageSize ≤ 2 ^ 32 := by omega
  exact ⟨(holdsBytes_append.mp hdata).1, roundUp_mod _ _, hfit,
    holds_of_bytes htables (paging_lt hfit)⟩

end

/-! ## The first start -/

/-- A virtine out of a new cache. -/
theorem get_new {call : Call} {kvm : Kvm S F} {caches : Caches S F} {v : Virtine S F}
    {c : Cache S F} (h : (caches.getCache call).get kvm = (.ok v, c))
    (hnew : caches call.code = none) :
    v.mem = blit (fun _ => 0) 0x8000 call.image call.codesz.toNat ∧ v.regs.rip = 0x8000 := by
  rw [Caches.getCache, hnew] at h
  obtain ⟨-, ⟨rest, hhit, -⟩ | ⟨-, r, harms, hfresh, -⟩⟩ := Cache.get_ok h
  · cases hhit
  · rcases harms with hr | ⟨-, kvm', w, hw, rfl⟩
    · cases hr
    · exact ⟨hfresh.mem, hfresh.regs ▸ (Virtine.new_regs hw).1⟩

/-- The vCPU that enters the machine `v`: a new one, in real mode, with its
code segment moved to `0`. -/
structure Enters (v : Machine S F) (s : Sys) : Prop where
  real : s.protected_ = false
  unpaged : s.paging = false
  legacy : s.longActive = false
  cs : s.seg .cs = ⟨0, 0xFFFF, false, false⟩
  ds : (s.seg .ds).base = 0 ∧ (s.seg .ds).limit = 0xFFFF
  rip : s.rip = v.regs.rip.toNat
  mem : s.mem = v.mem

end Wasp.Boot
