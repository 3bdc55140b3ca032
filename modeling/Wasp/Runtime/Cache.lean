import Wasp.Runtime.Virtine

/-!
# Cache — a pool of virtines over one shared reset state

`include/wasp/Cache.h` and `src/Cache.cpp`, as one thread runs them. A call
returns its result together with the cache it leaves, also when it faults:
an exception in the middle of `get` leaves the lock taken. `get_cache()`
always answers `m_cache`, so the per-thread tables are left out.
-/

namespace Wasp

variable {S F : Type}

structure Cache (S F : Type) where
  mMemsz : BitVec 64
  locked : Bool
  mCache : List (Virtine S F)
  mReset : Option (ResetState S F)
  mBinary : Option (Nat → UInt8)
  mBinarySize : BitVec 64
  mBinaryStart : BitVec 64
  mHits : Nat
  mMisses : Nat

namespace Cache

/-- `Cache::Cache`. The image size and start are not initialized: whatever
`size` and `start` are found there. -/
def new (memsz size start : BitVec 64) : Cache S F :=
  { mMemsz := memsz, locked := false, mCache := [], mReset := none, mBinary := none,
    mBinarySize := size, mBinaryStart := start, mHits := 0, mMisses := 0 }

def setBinary (c : Cache S F) (data : Nat → UInt8) (size start : BitVec 64) : Cache S F :=
  { c with mBinary := some data, mBinarySize := size, mBinaryStart := start }

/-- `Cache::load_binary`. A file that cannot be opened is reported and
then read all the same, through a null stream. -/
def loadBinary (c : Cache S F) (file : Option ((Nat → UInt8) × BitVec 64))
    (start : BitVec 64) : Except Fault Unit × Cache S F :=
  match file with
  | none => (.error .segv, c)
  | some (data, size) => (.ok (), c.setBinary data size start)

/-- The reset state `allocate` starts the cache with: the new virtine's
registers, and the image as its only region. -/
def initialReset (c : Cache S F) (v : Virtine S F) : ResetState S F :=
  { regs := v.regs, sregs := v.sregs, fpu := v.fpu,
    regions := [{ data := c.mBinary, address := c.mBinaryStart, size := c.mBinarySize }] }

/-- `Cache::allocate`. The flag of `allocate_memory` is dropped. -/
def allocate (c : Cache S F) (kvm : Kvm S F) : Except Fault (Virtine S F) × Cache S F :=
  match Virtine.new kvm with
  | .error e => (.error e, c)
  | .ok v =>
      let r := c.mReset.getD (c.initialReset v)
      let c := { c with mReset := some r }
      match ({ v with mResetMask := true }).allocateMemory kvm.mmap c.mMemsz with
      | .error e => (.error e, c)
      | .ok (_, v) => (v.reset (v.rst c.mReset), c)

/-- `Cache::get`. -/
def get (c : Cache S F) (kvm : Kvm S F) : Except Fault (Virtine S F) × Cache S F :=
  if c.locked then (.error .hang, c)
  else
    match c.mCache with
    | [] =>
        match ({ c with locked := true, mMisses := c.mMisses + 1 }).allocate kvm with
        | (.ok v, c) => (.ok v, { c with locked := false })
        -- the exception passes through with the lock still held
        | (.error e, c) => (.error e, c)
    | v :: rest => (.ok v, { c with mHits := c.mHits + 1, mCache := rest })

/-- The loop of `ensure`, with the iterations still to make: each one
grows the pool by one virtine. -/
def ensureLoop (kvm : Nat → Kvm S F) : Nat → Cache S F → Except Fault Unit × Cache S F
  | 0, c => (.ok (), c)
  | n + 1, c =>
      match c.allocate (kvm n) with
      | (.ok v, c) => ensureLoop kvm n { c with mCache := v :: c.mCache }
      | (.error e, c) => (.error e, c)

/-- `Cache::ensure`. The `int` is compared with a `size_t`, so a negative
count is a huge one. -/
def ensure (c : Cache S F) (kvm : Nat → Kvm S F) (count : BitVec 32) :
    Except Fault Unit × Cache S F :=
  if c.locked then (.error .hang, c)
  else
    match ensureLoop kvm ((count.signExtend 64).toNat - c.mCache.length)
        { c with locked := true } with
    | (.ok (), c) => (.ok (), { c with locked := false })
    | (.error e, c) => (.error e, c)

/-- `Cache::put`: the virtine is reset before the lock is taken. -/
def put (c : Cache S F) (v : Virtine S F) : Except Fault Unit × Cache S F :=
  match v.reset (v.rst c.mReset) with
  | .error e => (.error e, c)
  | .ok v =>
      if c.locked then (.error .hang, c)
      else (.ok (), { c with mCache := c.mCache ++ [v] })

end Cache

/-! ## What the operations leave

One lemma per operation; the proofs above the cache use these and never
unfold it. -/

theorem Virtine.rst_masked {v : Virtine S F} (h : v.mResetMask = true)
    (r : ResetState S F) : v.rst (some r) = r := by
  simp [Virtine.rst, h]

/-- A virtine as `allocate` hands it out over the reset state `r`. Only
when no memory could be mapped is its memory not the cache's size. -/
structure Virtine.FreshOver (v : Virtine S F) (r : ResetState S F) (memsz : BitVec 64) :
    Prop where
  regs : v.regs = r.regs
  sregs : v.sregs = r.sregs
  fpu : v.fpu = r.fpu
  mem : v.mem = r.write (fun _ => 0)
  masked : v.mResetMask = true
  sized : v.mMemsz = memsz ∨ v.mMem = 0
  copyable : ∀ g ∈ r.regions, g.Copyable v

theorem Virtine.new_plain {kvm : Kvm S F} {v : Virtine S F} (h : Virtine.new kvm = .ok v) :
    v.mem = (fun _ => 0) ∧ v.mMem = 0 := by
  unfold Virtine.new at h
  repeat (split at h; · cases h)
  cases h
  exact ⟨rfl, rfl⟩

/-- A new vCPU is set to the start of the image. -/
theorem Virtine.new_regs {kvm : Kvm S F} {v : Virtine S F} (h : Virtine.new kvm = .ok v) :
    v.regs.rip = 0x8000 ∧ v.regs.rsp = 0x8000 := by
  unfold Virtine.new at h
  repeat (split at h; · cases h)
  cases h
  exact ⟨rfl, rfl⟩

theorem Virtine.allocateMemory_plain {v v' : Virtine S F} {b : Bool}
    {mmap : Option { p : BitVec 64 // p ≠ 0 }} {memsz : BitVec 64}
    (hm : v.mem = fun _ => 0) (hz : v.mMem = 0)
    (h : v.allocateMemory mmap memsz = .ok (b, v')) :
    v'.mem = (fun _ => 0) ∧ v'.mResetMask = v.mResetMask ∧
      (v'.mMemsz = memsz ∨ v'.mMem = 0) := by
  unfold Virtine.allocateMemory at h
  split at h
  · cases h
  · split at h
    · cases h
    · split at h <;> cases h
      · exact ⟨hm, rfl, .inr hz⟩
      · exact ⟨rfl, rfl, .inl rfl⟩

namespace Cache

/-- `r` is the reset state once a virtine has been allocated: the one the
cache has, or the first one, taken from a new virtine and the image. -/
def Arms (c : Cache S F) (r : ResetState S F) : Prop :=
  c.mReset = some r ∨
    c.mReset = none ∧ ∃ kvm w, Virtine.new kvm = .ok w ∧ r = c.initialReset w

theorem Arms.eq_of_some {c : Cache S F} {r r' : ResetState S F} (h : c.Arms r)
    (hr : c.mReset = some r') : r = r' := by
  rcases h with h | ⟨h, _⟩
  · exact Option.some.inj (h.symm.trans hr)
  · rw [h] at hr
    cases hr

theorem allocate_ok {c c' : Cache S F} {kvm : Kvm S F} {v : Virtine S F}
    (h : c.allocate kvm = (.ok v, c')) :
    ∃ r, c.Arms r ∧ v.FreshOver r c.mMemsz ∧ c' = { c with mReset := some r } := by
  unfold allocate at h
  cases hn : Virtine.new kvm with
  | error e => simp [hn] at h
  | ok w =>
      obtain ⟨hwm, hwz⟩ := Virtine.new_plain hn
      simp only [hn] at h
      have hr : c.Arms (c.mReset.getD (c.initialReset w)) := by
        unfold Arms
        cases c.mReset with
        | some r => exact .inl rfl
        | none => exact .inr ⟨rfl, kvm, w, hn, rfl⟩
      generalize c.mReset.getD (c.initialReset w) = r at h hr
      split at h
      · cases h
      · rename_i b v' ha
        obtain ⟨hm, hk, hs⟩ := Virtine.allocateMemory_plain
          (v := { w with mResetMask := true }) hwm hwz ha
        simp only [Prod.mk.injEq] at h
        obtain ⟨hres, hc⟩ := h
        rw [Virtine.rst_masked hk] at hres
        obtain ⟨hcopy, rfl⟩ := Virtine.reset_eq_ok.mp hres
        refine ⟨r, hr, ?_, hc.symm⟩
        exact ⟨rfl, rfl, rfl, by rw [hm], hk, hs, hcopy⟩

/-- A hit takes the front of the pool, a miss allocates. -/
theorem get_ok {c c' : Cache S F} {kvm : Kvm S F} {v : Virtine S F}
    (h : c.get kvm = (.ok v, c')) :
    c.locked = false ∧
      ((∃ rest, c.mCache = v :: rest ∧
          c' = { c with mHits := c.mHits + 1, mCache := rest }) ∨
        (c.mCache = [] ∧ ∃ r, c.Arms r ∧ v.FreshOver r c.mMemsz ∧
          c' = { c with mMisses := c.mMisses + 1, mReset := some r })) := by
  unfold get at h
  by_cases hl : c.locked = true
  · simp [hl] at h
  · rw [if_neg hl] at h
    have hl' : c.locked = false := by simpa using hl
    refine ⟨hl', ?_⟩
    split at h
    · rename_i hp
      split at h
      · rename_i v' c1 ha
        obtain ⟨r, hr, hf, rfl⟩ := allocate_ok ha
        simp only [Prod.mk.injEq, Except.ok.injEq] at h
        obtain ⟨rfl, hc⟩ := h
        refine .inr ⟨hp, r, hr, hf, ?_⟩
        rw [← hc, hl']
      · simp at h
    · rename_i v' rest hp
      simp only [Prod.mk.injEq, Except.ok.injEq] at h
      obtain ⟨rfl, hc⟩ := h
      exact .inl ⟨rest, hp, hc.symm⟩

theorem get_unlocked {c c' : Cache S F} {kvm : Kvm S F} {v : Virtine S F}
    (h : c.get kvm = (.ok v, c')) : c'.locked = false := by
  obtain ⟨hl, ⟨_, _, rfl⟩ | ⟨_, _, _, _, rfl⟩⟩ := get_ok h <;> exact hl

theorem put_eq_ok {c c' : Cache S F} {v : Virtine S F} :
    c.put v = (.ok (), c') ↔
      c.locked = false ∧ ∃ v', v.reset (v.rst c.mReset) = .ok v' ∧
        c' = { c with mCache := c.mCache ++ [v'] } := by
  unfold put
  cases hr : v.reset (v.rst c.mReset) with
  | error e => simp
  | ok v' =>
      cases hl : c.locked with
      | true => simp
      | false => simp [eq_comm]

/-- What `ensure` leaves: nothing changed, or the new virtines `vs` in
front of the old pool. -/
def Grown (c : Cache S F) (vs : List (Virtine S F)) (c' : Cache S F) : Prop :=
  (vs = [] ∧ c' = c) ∨
    vs ≠ [] ∧ ∃ r, c.Arms r ∧ (∀ v ∈ vs, v.FreshOver r c.mMemsz) ∧
      c' = { c with mReset := some r, mCache := vs ++ c.mCache }

theorem Grown.push {c c1 c2 : Cache S F} {vs : List (Virtine S F)} {kvm : Kvm S F}
    {v : Virtine S F} (h : Grown c vs c1) (ha : c1.allocate kvm = (.ok v, c2)) :
    Grown c (v :: vs) { c2 with mCache := v :: c2.mCache } := by
  obtain ⟨r, hr, hf, rfl⟩ := allocate_ok ha
  rcases h with ⟨rfl, rfl⟩ | ⟨hvs, r', hr', hf', rfl⟩
  · exact .inr ⟨by simp, r, hr, by simpa using hf, rfl⟩
  · -- the first virtine has armed the cache, so this one uses the same state
    obtain rfl := hr.eq_of_some rfl
    refine .inr ⟨by simp, r, hr', ?_, rfl⟩
    intro w hw
    rcases List.mem_cons.mp hw with rfl | hw
    · exact hf
    · exact hf' w hw

/-- The loop from a pool that has already grown by `vs`. -/
theorem ensureLoop_grown {c : Cache S F} {kvm : Nat → Kvm S F} {n : Nat}
    {c1 c' : Cache S F} {vs : List (Virtine S F)} (hg : Grown c vs c1)
    (h : ensureLoop kvm n c1 = (.ok (), c')) :
    ∃ us, Grown c us c' ∧ us.length = vs.length + n := by
  induction n generalizing c1 vs with
  | zero =>
      simp only [ensureLoop, Prod.mk.injEq, true_and] at h
      exact ⟨vs, h ▸ hg, rfl⟩
  | succ n ih =>
      simp only [ensureLoop] at h
      split at h
      · rename_i v c2 ha
        obtain ⟨us, hu, hlen⟩ := ih (hg.push ha) h
        exact ⟨us, hu, by rw [hlen, List.length_cons]; omega⟩
      · simp at h

/-- `ensure` grows the pool up to the count. -/
theorem ensure_ok {c c' : Cache S F} {kvm : Nat → Kvm S F} {count : BitVec 32}
    (h : c.ensure kvm count = (.ok (), c')) :
    ∃ vs, Grown c vs c' ∧ vs.length = (count.signExtend 64).toNat - c.mCache.length := by
  unfold ensure at h
  split at h
  · simp at h
  · rename_i hl
    have hl' : c.locked = false := by simpa using hl
    split at h
    · rename_i c1 he
      simp only [Prod.mk.injEq, true_and] at h
      obtain ⟨us, hu, hlen⟩ := ensureLoop_grown (.inl ⟨rfl, rfl⟩) he
      refine ⟨us, ?_, by simpa using hlen⟩
      subst h
      rcases hu with ⟨rfl, rfl⟩ | ⟨hne, r, hr, hf, rfl⟩
      · exact .inl ⟨rfl, by rw [← hl']⟩
      · exact .inr ⟨hne, r, hr, hf, by rw [hl']⟩
    · simp at h

end Cache

/-! ## Ownership -/

/-- `v` was allocated by the cache: it resets to the shared state, which
exists, and its memory has the cache's size if it has memory at all. -/
structure Virtine.OwnedBy (v : Virtine S F) (c : Cache S F) : Prop where
  masked : v.mResetMask = true
  sized : v.mMemsz = c.mMemsz ∨ v.mMem = 0
  armed : ∃ r, c.mReset = some r

/-- Owning survives a change of the cache that keeps its size and leaves
it a reset state. -/
theorem Virtine.OwnedBy.mono {v : Virtine S F} {c c' : Cache S F} (h : v.OwnedBy c)
    (hm : c'.mMemsz = c.mMemsz) (hr : ∀ r, c.mReset = some r → ∃ r', c'.mReset = some r') :
    v.OwnedBy c' := by
  obtain ⟨r, ha⟩ := h.armed
  exact ⟨h.masked, hm ▸ h.sized, hr r ha⟩

/-- What `get` hands out is the cache's, and so is the rest of the pool. -/
theorem Cache.get_owned {c c' : Cache S F} {kvm : Kvm S F} {v : Virtine S F}
    (hc : ∀ w ∈ c.mCache, w.OwnedBy c) (h : c.get kvm = (.ok v, c')) :
    v.OwnedBy c' ∧ ∀ w ∈ c'.mCache, w.OwnedBy c' := by
  obtain ⟨_, ⟨rest, hp, rfl⟩ | ⟨hp, r, hr, hf, rfl⟩⟩ := Cache.get_ok h
  · rw [hp] at hc
    have hkeep : ∀ w ∈ v :: rest,
        w.OwnedBy { c with mHits := c.mHits + 1, mCache := rest } :=
      fun w hw => (hc w hw).mono rfl fun r hr => ⟨r, hr⟩
    exact ⟨hkeep v List.mem_cons_self, fun w hw => hkeep w (List.mem_cons_of_mem _ hw)⟩
  · exact ⟨⟨hf.masked, hf.sized, r, rfl⟩,
      fun w hw => (hc w hw).mono rfl fun _ _ => ⟨r, rfl⟩⟩

end Wasp
