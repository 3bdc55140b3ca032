import Wasp.Libc.Heap
import Wasp.Pass.Refinement

/-!
# Room — the memory a compiled virtine is given

Three places decide what has to fit into the guest's memory, and none of
them knows the others: the stub asks for `ram_size` bytes whatever the size
of the code (`pass/pass.cpp`), the dispatcher loads the code to `0x8000`
(`src/binding.cpp`), and `__sbrk` hands out memory up to four megabytes
(`syscalls.c`). `ram_size` is 512 KiB; the comment beside it promises two
megabytes and the size of the code.
-/

namespace Wasp

open Libc

variable {S F : Type}

/-! ## The stub's request -/

theorem callWasp_not_mem_storeArgs {args a n : Operand} {m : BitVec 64} (ps : List Param) :
    ∀ k i, Instr.callWasp m a n ∉ storeArgs args k i ps := by
  induction ps with
  | nil =>
      intro k i h
      cases h
  | cons p ps ih =>
      intro k i h
      cases p <;> simp only [storeArgs, List.mem_cons, reduceCtorEq, false_or] at h <;>
        exact ih _ _ h

theorem callWasp_not_mem_storeBack {args a n : Operand} {m : BitVec 64} (ps : List Param) :
    ∀ k i, Instr.callWasp m a n ∉ storeBack args k i ps := by
  induction ps with
  | nil =>
      intro k i h
      cases h
  | cons p ps ih =>
      intro k i h
      cases p <;> simp only [storeBack, List.mem_cons, reduceCtorEq, false_or] at h <;>
        exact ih _ _ h

/-- Every stub asks for the same memory. -/
theorem compileFunction_memsz {f : Fn} {m : BitVec 64} {a n : Operand}
    (h : .callWasp m a n ∈ (compileFunction f).instrs) : m = ramSize := by
  simp only [compileFunction, List.cons_append, List.mem_cons, List.mem_append,
    reduceCtorEq, false_or, or_false, List.not_mem_nil, Instr.callWasp.injEq] at h
  rcases h with (h | h) | h
  · exact absurd h (callWasp_not_mem_storeArgs _ _ _)
  · exact h.1
  · exact absurd h (callWasp_not_mem_storeBack _ _ _)

theorem compileFunction_calls (f : Fn) :
    ∃ n, .callWasp ramSize (.val 0) n ∈ (compileFunction f).instrs :=
  ⟨_, List.mem_append_left _ (List.mem_append_left _ (List.mem_append_right _
    (List.mem_cons_of_mem _ List.mem_cons_self)))⟩

/-! ## What has to fit -/

/-- The image, where the cache loads it, is inside the memory of the
virtines of the cache. -/
def Cache.ImageInside (c : Cache S F) : Prop :=
  c.mBinaryStart.toNat + c.mBinarySize.toNat ≤ c.mMemsz.toNat

namespace Libc

/-- The heap is inside a memory of `memsz` bytes. -/
def Heap.Inside (heapStart memsz : BitVec 64) (h : Heap) : Prop :=
  ∀ a, heapStart.toNat ≤ a → a < h.heapend.toNat → a < memsz.toNat

/-- A call of `sbrk` that succeeds: a failed one answers null. -/
def Heap.Succeeds (h : Heap) (incr : BitVec 64) (h' : Heap) : Prop :=
  h.Calls incr h' ∧ (h.sbrkR incr).1 ≠ 0

/-- The break asked for is no further than `ram_size`, or the heap is empty. -/
def Heap.HasRoom (heapStart : BitVec 64) (h : Heap) (incr : BitVec 64) : Prop :=
  (h.next incr).toNat ≤ ramSize.toNat ∨ (h.next incr).toNat ≤ heapStart.toNat

theorem Heap.Succeeds.heapend {h h' : Heap} {incr : BitVec 64} (hs : h.Succeeds incr h') :
    h'.heapend = h.next incr := by
  obtain ⟨hc, hret⟩ := hs
  by_cases hroom : (h.next incr).toNat ≤ eheap.toNat
  · rw [← (Heap.sbrkR_moved hroom).1]
    exact congrArg Heap.heapend hc.symm
  · rw [Heap.sbrkR_refused (Nat.lt_of_not_le hroom)] at hret
    exact absurd rfl hret

theorem Heap.inside_iff_hasRoom {heapStart : BitVec 64} {h h' : Heap} {incr : BitVec 64}
    (hs : h.Succeeds incr h') : h.HasRoom heapStart incr ↔ h'.Inside heapStart ramSize := by
  unfold Heap.HasRoom Heap.Inside
  rw [hs.heapend]
  constructor
  · intro hr a hlo hhi
    omega
  · intro hin
    by_cases hempty : (h.next incr).toNat ≤ heapStart.toNat
    · exact .inr hempty
    · -- the last byte of the heap is the one that decides
      have := hin ((h.next incr).toNat - 1) (by omega) (by omega)
      exact .inl (by omega)

end Libc

/-- **Fitting.** For the memory that a stub asks for: the image and, along a
run of successful `sbrk` calls, the heap lie inside it exactly when the
image has at most 480 KiB and no call moves the break past `ram_size`. -/
theorem stub_memory_iff (f : Fn) (call : Call) (a n : Operand)
    (hstub : .callWasp call.memsz a n ∈ (compileFunction f).instrs)
    (heapStart : BitVec 64) (incrs : List (BitVec 64)) (h : Heap) :
    (Cache.ImageInside (Caches.getCache (fun _ => none) call : Cache S F) ∧
        Run (Keeping (Heap.Inside heapStart call.memsz) Heap.Succeeds)
          (.init heapStart) incrs h) ↔
      (call.codesz.toNat ≤ 0x78000 ∧
        Run (Guarded (Heap.HasRoom heapStart) Heap.Succeeds) (.init heapStart) incrs h) := by
  have hram := compileFunction_memsz hstub
  have himage : Cache.ImageInside (Caches.getCache (fun _ => none) call : Cache S F) ↔
      call.codesz.toNat ≤ 0x78000 := by
    show (0x8000 : BitVec 64).toNat + call.codesz.toNat ≤ call.memsz.toNat ↔ _
    rw [hram, show ramSize.toNat = 0x80000 by decide,
      show (0x8000 : BitVec 64).toNat = 0x8000 by decide]
    omega
  have hheap : Run (Guarded (Heap.HasRoom heapStart) Heap.Succeeds) (.init heapStart) incrs h ↔
      Run (Keeping (Heap.Inside heapStart call.memsz) Heap.Succeeds)
        (.init heapStart) incrs h := by
    rw [hram]
    refine Run.guarded_iff_keeping (I := fun _ => True) (fun _ _ _ _ _ => trivial)
      ?_ trivial ?_
    · intro s incr t _ _ hs
      exact Heap.inside_iff_hasRoom hs
    · intro x hlo hhi
      exact absurd hhi (Nat.not_lt.mpr hlo)
  rw [himage, hheap]

/-! ### A page, and a megabyte -/

/-- The call of a stub with an image of 24 KiB. -/
def stubCall : Call :=
  { code := 0x4000, image := fun _ => 0, codesz := 0x6000, memsz := ramSize, arg := none,
    argsz := 0, config := none }

/-- A heap of one page is inside. -/
theorem page_inside :
    Cache.ImageInside (Caches.getCache (fun _ => none) stubCall : Cache Unit Unit) ∧
      Run (Keeping (Heap.Inside 0x10000 stubCall.memsz) Heap.Succeeds) (.init 0x10000) [0x1000]
        { heapend := 0x11000, errno := 0, sysErrno := 0 } := by
  obtain ⟨n, hn⟩ := compileFunction_calls squareRef
  exact (stub_memory_iff squareRef stubCall (.val 0) n hn 0x10000 [0x1000] _).mpr
    ⟨by decide, .single ⟨.inl (by decide), rfl, by decide⟩⟩

/-- `sbrk` grants a megabyte, twice the memory there is. -/
theorem megabyte_not_inside :
    ¬ ∀ (f : Fn) (call : Call) (a n : Operand),
      .callWasp call.memsz a n ∈ (compileFunction f).instrs →
      ∀ (heapStart : BitVec 64) (incrs : List (BitVec 64)) (h : Heap),
        Run Heap.Succeeds (.init heapStart) incrs h →
        Cache.ImageInside (Caches.getCache (fun _ => none) call : Cache Unit Unit) ∧
          h.Inside heapStart call.memsz := by
  intro hall
  obtain ⟨n, hn⟩ := compileFunction_calls squareRef
  have hin := hall squareRef stubCall (.val 0) n hn 0x10000 [0x100000]
    { heapend := 0x110000, errno := 0, sysErrno := 0 } (.single ⟨rfl, by decide⟩)
  exact absurd (hin.2 0x80000 (by decide) (by decide)) (by decide)

end Wasp
