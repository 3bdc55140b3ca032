import Wasp.Runtime.Cache

/-!
# Failure — a virtine that cannot be created

`Cache::get` and `Cache::ensure` create virtines between `lock()` and
`unlock()`. A creation can fail in three ways: the constructor throws,
`allocate_memory` throws because the size of the cache's memory is zero or
not page-aligned, or `mmap` fails and `allocate_memory` returns false, which
`allocate` does not look at. No handler stands between the two calls of the
lock.
-/

namespace Wasp

variable {S F : Type}

/-- Creating a virtine with `memsz` bytes fails on this host. -/
def CreationFails (memsz : BitVec 64) (kvm : Kvm S F) : Prop :=
  (∃ e, Virtine.new kvm = .error e) ∨ memsz = 0 ∨ memsz &&& 0xFFF ≠ 0 ∨ kvm.mmap = none

/-- `v` has `memsz` bytes of memory, and the regions of `r` are in it. -/
structure Virtine.Ready (v : Virtine S F) (r : ResetState S F) (memsz : BitVec 64) :
    Prop where
  mapped : v.mMem ≠ 0
  sized : v.mMemsz = memsz
  loaded : ∀ a, r.Covers a → v.mem a = r.write (fun _ => 0) a

/-- `v` is as the cache is to hand it out. -/
def Virtine.ReadyIn (v : Virtine S F) (c : Cache S F) : Prop :=
  ∃ r, c.mReset = some r ∧ v.Ready r c.mMemsz

theorem Virtine.allocateMemory_mapped {v v' : Virtine S F} {b : Bool}
    {mmap : Option { p : BitVec 64 // p ≠ 0 }} {memsz : BitVec 64} (hz : v.mMem = 0)
    (h : v.allocateMemory mmap memsz = .ok (b, v')) : v'.mMem ≠ 0 ↔ mmap ≠ none := by
  unfold Virtine.allocateMemory at h
  split at h
  · cases h
  · split at h
    · cases h
    · cases mmap with
      | none =>
          cases h
          simp [hz]
      | some p =>
          cases h
          exact iff_of_true p.2 (by simp)

namespace Cache

/-- The regions that `allocate` copies into a new virtine. -/
def resetRegions (c : Cache S F) : List ResetMemory :=
  match c.mReset with
  | some r => r.regions
  | none => [{ data := c.mBinary, address := c.mBinaryStart, size := c.mBinarySize }]

/-- They can be copied into a memory of the cache's size. Where they cannot,
the first creation that does not fail is a copy through a null pointer. -/
def Loads (c : Cache S F) : Prop :=
  ∀ g ∈ c.resetRegions,
    g.size = 0 ∨ (g.address.toNat ≤ c.mMemsz.toNat ∧ g.data ≠ none)

/-! ## One creation -/

theorem Arms.regions {c : Cache S F} {r : ResetState S F} (h : c.Arms r) :
    r.regions = c.resetRegions := by
  rcases h with h | ⟨h, _, _, _, rfl⟩
  · rw [resetRegions, h]
  · rw [resetRegions, h]
    rfl

/-- `allocate` changes at most the reset state, and that only once. -/
theorem allocate_frame (c : Cache S F) (kvm : Kvm S F) :
    (c.allocate kvm).2 = c ∨
      ∃ r, c.Arms r ∧ (c.allocate kvm).2 = { c with mReset := some r } := by
  unfold allocate
  cases hn : Virtine.new kvm with
  | error e => exact .inl rfl
  | ok w =>
      refine .inr ⟨c.mReset.getD (c.initialReset w), ?_, ?_⟩
      · unfold Arms
        cases c.mReset with
        | some r => exact .inl rfl
        | none => exact .inr ⟨rfl, kvm, w, hn, rfl⟩
      · dsimp only
        split <;> rfl

/-- A new virtine has a block if one could be mapped. -/
theorem allocate_mapped {c c' : Cache S F} {kvm : Kvm S F} {v : Virtine S F}
    (h : c.allocate kvm = (.ok v, c')) : v.mMem ≠ 0 ↔ kvm.mmap ≠ none := by
  unfold allocate at h
  cases hn : Virtine.new kvm with
  | error e => simp [hn] at h
  | ok w =>
      simp only [hn] at h
      split at h
      · cases h
      · rename_i b v' ha
        obtain ⟨-, hv⟩ := Virtine.reset_eq_ok.mp (congrArg Prod.fst h)
        have hmap := Virtine.allocateMemory_mapped
          (v := { w with mResetMask := true }) (Virtine.new_plain hn).2 ha
        rw [hv]
        exact hmap

/-- Where no creation fails, a new virtine is ready. -/
theorem allocate_ready {c c' : Cache S F} {kvm : Kvm S F} {v : Virtine S F}
    (hk : ¬ CreationFails c.mMemsz kvm) (h : c.allocate kvm = (.ok v, c')) :
    v.ReadyIn c' ∧ c.Loads := by
  have hm := (allocate_mapped h).mpr fun hm => hk (.inr (.inr (.inr hm)))
  obtain ⟨r, hr, hf, rfl⟩ := allocate_ok h
  have hsize : v.mMemsz = c.mMemsz := hf.sized.resolve_right hm
  refine ⟨⟨r, rfl, hm, hsize, fun a _ => congrFun hf.mem a⟩, ?_⟩
  intro g hg
  rcases hf.copyable g (hr.regions ▸ hg) with hz | ⟨ha, _, hd⟩
  · exact .inl hz
  · exact .inr ⟨hsize ▸ ha, hd⟩

/-- Being ready is a matter of the size and the reset state only. -/
theorem readyIn_congr {v : Virtine S F} {c c' : Cache S F} (hm : c'.mMemsz = c.mMemsz)
    (hr : c'.mReset = c.mReset) : v.ReadyIn c' ↔ v.ReadyIn c := by
  unfold Virtine.ReadyIn
  rw [hm, hr]

/-- A miss, with the lock around its creation. -/
theorem get_miss {c : Cache S F} (hl : c.locked = false) (hp : c.mCache = [])
    (kvm : Kvm S F) :
    c.get kvm =
      match ({ c with locked := true, mMisses := c.mMisses + 1 } : Cache S F).allocate kvm with
      | (.ok v, c₁) => (.ok v, { c₁ with locked := false })
      | (.error e, c₁) => (.error e, c₁) := by
  unfold get
  rw [if_neg (by simp [hl])]
  split
  · rfl
  · rename_i hpool
    rw [hp] at hpool
    cases hpool

/-! ## Creation after creation -/

/-- `c'` comes after `c` in a call: there may be virtines in front of the
pool, and the reset state may have been installed. -/
def GrowsTo (c c' : Cache S F) : Prop :=
  ∃ vs reset, c' = { c with mCache := vs ++ c.mCache, mReset := reset } ∧
    (reset = c.mReset ∨ ∃ r, c.Arms r ∧ reset = some r)

theorem GrowsTo.refl (c : Cache S F) : c.GrowsTo c := ⟨[], c.mReset, rfl, .inl rfl⟩

theorem allocate_growsTo (c : Cache S F) (kvm : Kvm S F) :
    c.GrowsTo (c.allocate kvm).2 := by
  rcases c.allocate_frame kvm with h | ⟨r, hr, h⟩
  · rw [h]
    exact .refl c
  · exact ⟨[], some r, h, .inr ⟨r, hr, rfl⟩⟩

theorem allocate_pool (c : Cache S F) (kvm : Kvm S F) :
    (c.allocate kvm).2.mCache = c.mCache := by
  rcases c.allocate_frame kvm with h | ⟨r, _, h⟩ <;> rw [h]

theorem GrowsTo.locked {c c' : Cache S F} (h : c.GrowsTo c') : c'.locked = c.locked := by
  obtain ⟨_, _, rfl, _⟩ := h
  rfl

theorem GrowsTo.memsz {c c' : Cache S F} (h : c.GrowsTo c') : c'.mMemsz = c.mMemsz := by
  obtain ⟨_, _, rfl, _⟩ := h
  rfl

theorem GrowsTo.reset_some {c c' : Cache S F} {r : ResetState S F} (h : c.GrowsTo c')
    (hr : c.mReset = some r) : c'.mReset = some r := by
  obtain ⟨_, _, rfl, hsame | ⟨r', ha, rfl⟩⟩ := h
  · exact hsame.trans hr
  · exact congrArg some (ha.eq_of_some hr)

theorem GrowsTo.pool {c c' : Cache S F} (h : c.GrowsTo c') : c.mCache <:+ c'.mCache := by
  obtain ⟨vs, _, rfl, _⟩ := h
  exact List.suffix_append vs c.mCache

/-- The reset state is never half made. -/
theorem GrowsTo.complete {c c' : Cache S F} (h : c.GrowsTo c') :
    c'.mReset = none ∨ ∃ r, c.Arms r ∧ c'.mReset = some r := by
  obtain ⟨_, _, rfl, rfl | hr⟩ := h
  · cases hc : c.mReset with
    | none => exact .inl rfl
    | some r => exact .inr ⟨r, .inl hc, rfl⟩
  · exact .inr hr

/-- One virtine is pushed, and the call goes on. -/
theorem GrowsTo.push {c c₁ c₂ : Cache S F} (h : c.GrowsTo c₁) (v : Virtine S F)
    (h₂ : ({ c₁ with mCache := v :: c₁.mCache } : Cache S F).GrowsTo c₂) : c.GrowsTo c₂ := by
  obtain ⟨vs, reset, rfl, hreset⟩ := h
  obtain ⟨vs₂, reset₂, rfl, hreset₂⟩ := h₂
  refine ⟨vs₂ ++ v :: vs, reset₂, by simp, ?_⟩
  rcases hreset with rfl | ⟨r, hr, rfl⟩
  · exact hreset₂
  · rcases hreset₂ with rfl | ⟨r₂, hr₂, rfl⟩
    · exact .inr ⟨r, hr, rfl⟩
    · exact .inr ⟨r, hr, congrArg some (hr₂.eq_of_some rfl)⟩

theorem GrowsTo.ready {v : Virtine S F} {c c' : Cache S F} (hg : c.GrowsTo c')
    (h : v.ReadyIn c) : v.ReadyIn c' := by
  obtain ⟨r, hr, hv⟩ := h
  exact ⟨r, hg.reset_some hr, hg.memsz ▸ hv⟩

theorem ensureLoop_growsTo (kvm : Nat → Kvm S F) (n : Nat) (c : Cache S F) :
    c.GrowsTo (ensureLoop kvm n c).2 := by
  induction n generalizing c with
  | zero => exact .refl c
  | succ n ih =>
      have hg := c.allocate_growsTo (kvm n)
      rw [ensureLoop]
      cases ha : c.allocate (kvm n) with
      | mk res c₁ =>
          rw [ha] at hg
          cases res with
          | ok v => exact hg.push v (ih _)
          | error e => exact hg

/-- **The loop without failures**: what it adds to the pool is ready. -/
theorem ensureLoop_ready {kvm : Nat → Kvm S F} {n : Nat} {c : Cache S F}
    (hk : ∀ i < n, ¬ CreationFails c.mMemsz (kvm i)) :
    ∃ vs, (ensureLoop kvm n c).2.mCache = vs ++ c.mCache ∧
      ∀ v ∈ vs, v.ReadyIn (ensureLoop kvm n c).2 := by
  induction n generalizing c with
  | zero => exact ⟨[], rfl, by simp⟩
  | succ n ih =>
      have hg := c.allocate_growsTo (kvm n)
      have hpool := c.allocate_pool (kvm n)
      rw [ensureLoop]
      cases ha : c.allocate (kvm n) with
      | mk res c₁ =>
          rw [ha] at hg hpool
          cases res with
          | error e => exact ⟨[], hpool, by simp⟩
          | ok v =>
              have hv := (allocate_ready (hk n (Nat.lt_succ_self n)) ha).1
              obtain ⟨vs, hvs, hready⟩ := ih (c := { c₁ with mCache := v :: c₁.mCache })
                fun i hi => hg.memsz ▸ hk i (Nat.lt_succ_of_lt hi)
              refine ⟨vs ++ [v], ?_, ?_⟩
              · rw [hvs, hpool, List.append_assoc]
                rfl
              · intro w hw
                rcases List.mem_append.mp hw with hw | hw
                · exact hready w hw
                · obtain rfl := List.mem_singleton.mp hw
                  exact (ensureLoop_growsTo kvm n _).ready hv

/-- Where the image cannot be copied, the loop ends in its first creation. -/
theorem ensureLoop_stops {kvm : Nat → Kvm S F} {n : Nat} {c : Cache S F}
    (hk : ¬ CreationFails c.mMemsz (kvm n)) (hl : ¬ c.Loads) :
    (ensureLoop kvm (n + 1) c).2.mCache = c.mCache := by
  have hpool := c.allocate_pool (kvm n)
  rw [ensureLoop]
  cases ha : c.allocate (kvm n) with
  | mk res c₁ =>
      rw [ha] at hpool
      cases res with
      | ok v => exact absurd (allocate_ready hk ha).2 hl
      | error e => exact hpool

end Cache

/-! ## A call -/

/-- The two operations that create virtines, with what the kernel answers
while they do; `ensure` has one answer for each of its iterations, the last
one first. -/
inductive PoolCall (S F : Type) where
  | get (kvm : Kvm S F)
  | ensure (kvm : Nat → Kvm S F) (count : BitVec 32)

namespace PoolCall

def after (c : Cache S F) : PoolCall S F → Cache S F
  | get kvm => (c.get kvm).2
  | ensure kvm count => (c.ensure kvm count).2

/-- The call ends with a C++ exception. -/
def Throws (c : Cache S F) : PoolCall S F → Prop
  | get kvm => ∃ what, (c.get kvm).1 = .error (.throws what)
  | ensure kvm count => ∃ what, (c.ensure kvm count).1 = .error (.throws what)

/-- The call hands out or pools `v`. -/
def Serves (c : Cache S F) (v : Virtine S F) : PoolCall S F → Prop
  | get kvm => (c.get kvm).1 = .ok v
  | ensure kvm count => ∃ vs, (c.ensure kvm count).2.mCache = vs ++ c.mCache ∧ v ∈ vs

/-- The iterations of `ensure`. -/
def missing (c : Cache S F) (count : BitVec 32) : Nat :=
  (count.signExtend 64).toNat - c.mCache.length

/-- A creation that the call makes fails. `ensure` comes to its second one
only if the image can be copied. -/
def Fails (c : Cache S F) : PoolCall S F → Prop
  | get kvm => c.locked = false ∧ c.mCache = [] ∧ CreationFails c.mMemsz kvm
  | ensure kvm count =>
      c.locked = false ∧ ∃ i < missing c count, CreationFails c.mMemsz (kvm i) ∧
        (i + 1 = missing c count ∨ c.Loads)

/-- The call takes `v` from the pool. -/
def Takes (c : Cache S F) (v : Virtine S F) : PoolCall S F → Prop
  | get _ => c.locked = false ∧ c.mCache.head? = some v
  | ensure _ _ => False

/-- What a caller can rely on. A creation that fails is reported, and leaves
the lock free, the pool, and a reset state that is unset or complete; and
every virtine handed out or pooled is ready. -/
structure Survives (c : Cache S F) (call : PoolCall S F) : Prop where
  failure : call.Fails c → call.Throws c ∧ (call.after c).locked = false ∧
    c.mCache <:+ (call.after c).mCache ∧
    ((call.after c).mReset = none ∨ ∃ r, c.Arms r ∧ (call.after c).mReset = some r)
  ready : ∀ v, call.Serves c v → v.ReadyIn (call.after c)

theorem Fails.open {c : Cache S F} {call : PoolCall S F} (h : call.Fails c) :
    c.locked = false := by
  cases call <;> exact h.1

theorem ensure_open {c : Cache S F} (hl : c.locked = false) (kvm : Nat → Kvm S F)
    (count : BitVec 32) :
    c.ensure kvm count =
      match Cache.ensureLoop kvm (missing c count) { c with locked := true } with
      | (.ok (), c₁) => (.ok (), { c₁ with locked := false })
      | (.error e, c₁) => (.error e, c₁) := by
  unfold Cache.ensure
  rw [if_neg (by simp [hl])]
  rfl

/-- The loop of `ensure` decides the pool, the size and the reset state. -/
theorem ensure_after {c : Cache S F} (hl : c.locked = false) (kvm : Nat → Kvm S F)
    (count : BitVec 32) {loop : Cache S F}
    (hloop : (Cache.ensureLoop kvm (missing c count) { c with locked := true }).2 = loop) :
    (c.ensure kvm count).2.mCache = loop.mCache ∧
      (c.ensure kvm count).2.mMemsz = loop.mMemsz ∧
      (c.ensure kvm count).2.mReset = loop.mReset := by
  rw [ensure_open hl]
  subst hloop
  generalize Cache.ensureLoop kvm (missing c count) { c with locked := true } = res
  obtain ⟨res, c₁⟩ := res
  cases res <;> exact ⟨rfl, rfl, rfl⟩

/-- **No handler**: a call that throws leaves the lock taken. -/
theorem Throws.locked {c : Cache S F} {call : PoolCall S F} (hl : c.locked = false)
    (h : call.Throws c) : (call.after c).locked = true := by
  cases call with
  | get kvm =>
      obtain ⟨what, h⟩ := h
      show (c.get kvm).2.locked = true
      cases hp : c.mCache with
      | cons v rest => simp [Cache.get, hl, hp] at h
      | nil =>
          have hg := Cache.allocate_growsTo
            ({ c with locked := true, mMisses := c.mMisses + 1 } : Cache S F) kvm
          rw [Cache.get_miss hl hp] at h ⊢
          generalize Cache.allocate _ kvm = res at h hg
          obtain ⟨res, c₁⟩ := res
          cases res with
          | ok v => cases h
          | error e => exact hg.locked
  | ensure kvm count =>
      obtain ⟨what, h⟩ := h
      show (c.ensure kvm count).2.locked = true
      have hg := Cache.ensureLoop_growsTo kvm (missing c count) { c with locked := true }
      rw [ensure_open hl] at h ⊢
      generalize Cache.ensureLoop kvm (missing c count) _ = res at h hg
      obtain ⟨res, c₁⟩ := res
      cases res with
      | ok u => cases h
      | error e => exact hg.locked

/-- A call that waits for the lock serves nobody. -/
theorem not_serves_locked {c : Cache S F} {call : PoolCall S F} {v : Virtine S F}
    (hl : c.locked = true) : ¬ call.Serves c v := by
  cases call with
  | get kvm =>
      intro h
      simp [Serves, Cache.get, hl] at h
  | ensure kvm count =>
      rintro ⟨vs, hvs, hv⟩
      simp only [Cache.ensure, hl, if_true] at hvs
      rw [List.append_left_eq_self.mp hvs.symm] at hv
      cases hv

/-- A hit hands out the front of the pool. -/
theorem serves_hit {c : Cache S F} {w : Virtine S F} {rest : List (Virtine S F)}
    (hl : c.locked = false) (hp : c.mCache = w :: rest) (kvm : Kvm S F) (v : Virtine S F) :
    ((get kvm).Serves c v ↔ v = w) ∧
      (v.ReadyIn ((get kvm).after c) ↔ v.ReadyIn c) := by
  have hget : c.get kvm = (.ok w, { c with mHits := c.mHits + 1, mCache := rest }) := by
    simp [Cache.get, hl, hp]
  constructor
  · show (c.get kvm).1 = .ok v ↔ v = w
    rw [hget, Except.ok.injEq, eq_comm]
  · show v.ReadyIn (c.get kvm).2 ↔ _
    rw [hget]
    exact Cache.readyIn_congr rfl rfl

/-- A miss that does not fail hands out a virtine that is ready. -/
theorem serves_miss {c : Cache S F} {kvm : Kvm S F} {v : Virtine S F}
    (hl : c.locked = false) (hp : c.mCache = []) (hk : ¬ CreationFails c.mMemsz kvm)
    (h : (get kvm).Serves c v) : v.ReadyIn ((get kvm).after c) := by
  change (c.get kvm).1 = .ok v at h
  show v.ReadyIn (c.get kvm).2
  rw [Cache.get_miss hl hp] at h ⊢
  cases ha : Cache.allocate { c with locked := true, mMisses := c.mMisses + 1 } kvm with
  | mk res c₁ =>
      rw [ha] at h
      cases res with
      | error e => cases h
      | ok w =>
          cases h
          have hv := Cache.allocate_ready
            (c := { c with locked := true, mMisses := c.mMisses + 1 }) hk ha
          exact (Cache.readyIn_congr rfl rfl).mpr hv.1

/-- An `ensure` that does not fail pools virtines that are ready. -/
theorem serves_ensure {c : Cache S F} {kvm : Nat → Kvm S F} {count : BitVec 32}
    {v : Virtine S F} (hl : c.locked = false) (hk : ¬ (ensure kvm count).Fails c)
    (h : (ensure kvm count).Serves c v) : v.ReadyIn ((ensure kvm count).after c) := by
  obtain ⟨vs, hvs, hv⟩ := h
  show v.ReadyIn (c.ensure kvm count).2
  obtain ⟨hpool, hmemsz, hreset⟩ := ensure_after hl kvm count rfl
  rw [Cache.readyIn_congr hmemsz hreset]
  rw [hpool] at hvs
  have hnone : vs ++ c.mCache ≠ c.mCache := by
    intro h
    rw [List.append_left_eq_self.mp h] at hv
    cases hv
  cases hn : missing c count with
  | zero =>
      rw [hn] at hvs
      exact absurd hvs.symm hnone
  | succ n =>
      rw [hn] at hvs
      have hfirst : ¬ CreationFails c.mMemsz (kvm n) := fun hf =>
        hk ⟨hl, n, by omega, hf, .inl hn.symm⟩
      by_cases hload : c.Loads
      · obtain ⟨us, hus, hready⟩ := Cache.ensureLoop_ready (c := { c with locked := true })
          fun i hi hf => hk ⟨hl, i, hn ▸ hi, hf, .inr hload⟩
        rw [List.append_cancel_right (hvs.symm.trans hus)] at hv
        exact hready v hv
      · have hstop := Cache.ensureLoop_stops (c := { c with locked := true }) hfirst hload
        exact absurd (hvs.symm.trans hstop) hnone

/-- **A failed creation.** For every cache and every call: it does what a
caller can rely on exactly when none of its creations fails and the virtine
it takes from the pool, if it takes one, is ready. -/
theorem pool_call_survives_iff (c : Cache S F) (call : PoolCall S F) :
    call.Survives c ↔ ¬ call.Fails c ∧ ∀ v, call.Takes c v → v.ReadyIn c := by
  constructor
  · intro h
    refine ⟨fun hf => ?_, fun v hv => ?_⟩
    · obtain ⟨ht, hfree, -, -⟩ := h.failure hf
      rw [ht.locked hf.open] at hfree
      cases hfree
    · cases call with
      | ensure kvm count => cases hv
      | get kvm =>
          obtain ⟨hl, hhead⟩ := hv
          obtain ⟨rest, hp⟩ := List.head?_eq_some_iff.mp hhead
          obtain ⟨hserve, hready⟩ := serves_hit hl hp kvm v
          exact hready.mp (h.ready v (hserve.mpr rfl))
  · rintro ⟨hk, htake⟩
    refine ⟨fun hf => absurd hf hk, fun v hv => ?_⟩
    by_cases hl : c.locked = true
    · exact absurd hv (not_serves_locked hl)
    · have hl : c.locked = false := by simpa using hl
      cases call with
      | ensure kvm count => exact serves_ensure hl hk hv
      | get kvm =>
          cases hp : c.mCache with
          | nil => exact serves_miss hl hp (fun hf => hk ⟨hl, hp, hf⟩) hv
          | cons w rest =>
              obtain ⟨hserve, hready⟩ := serves_hit hl hp kvm v
              obtain rfl := hserve.mp hv
              exact hready.mpr (htake v ⟨hl, by rw [hp]; rfl⟩)

/-- What a failed creation does leave: the pool, and a reset state that is
unset or complete. -/
theorem Fails.keeps {c : Cache S F} {call : PoolCall S F} (h : call.Fails c) :
    c.mCache <:+ (call.after c).mCache ∧
      ((call.after c).mReset = none ∨
        ∃ r, c.Arms r ∧ (call.after c).mReset = some r) := by
  cases call with
  | get kvm =>
      obtain ⟨hl, hp, -⟩ := h
      have hg := Cache.allocate_growsTo
        ({ c with locked := true, mMisses := c.mMisses + 1 } : Cache S F) kvm
      show c.mCache <:+ (c.get kvm).2.mCache ∧ _
      rw [after, Cache.get_miss hl hp]
      generalize Cache.allocate _ kvm = res at hg
      obtain ⟨res, c₁⟩ := res
      cases res <;> exact ⟨hg.pool, hg.complete⟩
  | ensure kvm count =>
      obtain ⟨hpool, -, hreset⟩ := ensure_after h.open kvm count rfl
      have hg := Cache.ensureLoop_growsTo kvm (missing c count) { c with locked := true }
      rw [after, hpool, hreset]
      exact ⟨hg.pool, hg.complete⟩

end PoolCall

/-- A host without `/dev/kvm`. -/
def closedKvm : Kvm Unit Unit := { plainKvm with kvmfd := -1 }

/-- The first `get` throws, and the next one waits for a lock that nobody
holds, on a host where it would succeed. -/
theorem failed_get_not_survived :
    ¬ (PoolCall.get closedKvm).Survives (Cache.new 0x1000 16 0x8000) ∧
      ((Cache.new 0x1000 16 0x8000).get closedKvm).1 =
        .error (.throws "unable to open /dev/kvm") ∧
      (((Cache.new 0x1000 16 0x8000).get closedKvm).2.get plainKvm).1 = .error .hang := by
  refine ⟨fun h => ?_, rfl, rfl⟩
  obtain ⟨-, hfree, -⟩ := h.failure ⟨rfl, rfl, .inl ⟨_, rfl⟩⟩
  cases hfree

end Wasp
