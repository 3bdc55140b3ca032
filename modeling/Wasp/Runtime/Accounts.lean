import Wasp.Lib.Words
import Wasp.Runtime.CacheRun
import Wasp.Runtime.Failure

/-!
# Accounts — what the cache says of its pool, and how it fills it

The cache has two containers for its pool: `m_cache`, which `get_cache()`
answers in its first statement, and the table `m_caches` by threads, which
`size()` and the destructor read. What would fill the table stands behind
`return` statements (`get_cache`, `ThreadCacheManager::attach`).

The second half is the loop of `Cache::ensure` as it is written
(`ensureWhile`): its guard compares a `size_t` with an `int`.
-/

namespace Wasp

variable {S F : Type}

/-! ## The table by threads -/

/-- A system whose cache has its table, from thread ids to pools. -/
structure Tabled (S F : Type) where
  sys : System S F
  mCaches : List (Int × List (Virtine S F))

namespace Tabled

def init (memsz size start : BitVec 64) : Tabled S F :=
  { sys := System.init memsz size start, mCaches := [] }

/-- No operation writes the table. -/
inductive Step : Tabled S F → Op S F → Tabled S F → Prop where
  | call {p : Tabled S F} {op : Op S F} {s : System S F} :
      System.Step p.sys op s → Step p op { p with sys := s }

/-- `Cache::size`. -/
def size (p : Tabled S F) : Except Fault Nat :=
  if p.sys.cache.locked then .error .hang
  else .ok (p.mCaches.foldl (fun total c => total + c.2.length) 0)

/-- The virtines that `Cache::~Cache` deletes, in its order. -/
def deleted (p : Tabled S F) : List (Virtine S F) := p.mCaches.flatMap fun c => c.2

end Tabled

/-- `n` calls of `get` in a row return without allocating, and the next one
does not. -/
inductive Cache.HitsLeft (kvm : Kvm S F) : Cache S F → Nat → Prop where
  | none {c : Cache S F} : c.mCache = [] → HitsLeft kvm c 0
  | hit {c c' : Cache S F} {v : Virtine S F} {n : Nat} : c.get kvm = (.ok v, c') →
      c'.mMisses = c.mMisses → HitsLeft kvm c' n → HitsLeft kvm c (n + 1)

theorem Cache.hitsLeft_iff {c : Cache S F} (hl : c.locked = false) {kvm : Kvm S F} {n : Nat} :
    c.HitsLeft kvm n ↔ n = c.mCache.length := by
  constructor
  · intro h
    induction h with
    | none hp => simp [hp]
    | hit hget hmiss _ ih =>
        have hl' := Cache.get_unlocked hget
        obtain ⟨-, ⟨rest, hp, rfl⟩ | ⟨-, r, -, -, rfl⟩⟩ := Cache.get_ok hget
        · rw [ih hl', hp, List.length_cons]
        · -- a miss is counted
          simp at hmiss
  · rintro rfl
    generalize hp : c.mCache = pool
    induction pool generalizing c with
    | nil => exact .none hp
    | cons v rest ih =>
        have hget : c.get kvm = (.ok v, { c with mHits := c.mHits + 1, mCache := rest }) := by
          simp [Cache.get, hl, hp]
        exact .hit hget rfl (ih hl rfl)

/-- No step that returns leaves the lock taken. -/
theorem System.Effect.locked_eq {s t : System S F} {op : Op S F} (h : System.Effect s op t) :
    t.cache.locked = s.cache.locked := by
  cases h <;> rfl

namespace Tabled

structure Inv (p : Tabled S F) : Prop where
  sys : p.sys.Inv
  unlocked : p.sys.cache.locked = false
  untabled : p.mCaches = []

theorem Step.inv {p q : Tabled S F} {op : Op S F} (hI : p.Inv) (h : Step p op q) : q.Inv := by
  cases h with
  | call hst =>
      refine ⟨hst.inv hI.sys, ?_, hI.untabled⟩
      rw [← hI.unlocked]
      exact (hst.effect hI.sys).locked_eq

theorem init_inv (memsz size start : BitVec 64) : (init memsz size start : Tabled S F).Inv :=
  ⟨System.init_inv memsz size start, rfl, rfl⟩

end Tabled

/-- **The accounts of the cache.** After every history `size()` is the number
of hits to come exactly when the pool is empty, and exactly then the
destructor deletes each pooled virtine once and no other. -/
theorem cache_accounts_iff {memsz size start : BitVec 64} {ops : List (Op S F)}
    {p : Tabled S F} (h : Run Tabled.Step (Tabled.init memsz size start) ops p)
    (kvm : Kvm S F) :
    ((∃ n, p.size = .ok n ∧ p.sys.cache.HitsLeft kvm n) ↔ p.sys.cache.mCache = []) ∧
      (p.deleted.Perm p.sys.cache.mCache ↔ p.sys.cache.mCache = []) := by
  have hI : p.Inv := h.invariant (fun _ _ _ hi hst => hst.inv hi)
    (Tabled.init_inv memsz size start)
  have hsize : p.size = .ok 0 := by
    simp [Tabled.size, hI.unlocked, hI.untabled]
  have hdeleted : p.deleted = [] := by
    simp [Tabled.deleted, hI.untabled]
  constructor
  · rw [hsize]
    constructor
    · rintro ⟨n, ⟨⟩, hn⟩
      exact List.length_eq_zero_iff.mp ((Cache.hitsLeft_iff hI.unlocked).mp hn).symm
    · intro hp
      exact ⟨0, rfl, .none hp⟩
  · rw [hdeleted]
    exact List.nil_perm

/-- One virtine is made and taken. -/
theorem taken_virtine_accounted : ∃ p : Tabled Unit Unit,
    Run Tabled.Step (Tabled.init 0x1000 0 0)
      [.setBinary (fun _ => 0xF4) 1 0, .get plainKvm] p ∧
      (∃ n, p.size = .ok n ∧ p.sys.cache.HitsLeft plainKvm n) ∧
      p.deleted.Perm p.sys.cache.mCache := by
  obtain ⟨p, hrun, hpool⟩ : ∃ p : Tabled Unit Unit,
      Run Tabled.Step (Tabled.init 0x1000 0 0)
        [.setBinary (fun _ => 0xF4) 1 0, .get plainKvm] p ∧ p.sys.cache.mCache = [] :=
    ⟨_, .cons (.call .setBinary) (.cons (.call (.get rfl)) (.nil _)), rfl⟩
  exact ⟨p, hrun, (cache_accounts_iff hrun plainKvm).1.mpr hpool,
    (cache_accounts_iff hrun plainKvm).2.mpr hpool⟩

/-- A virtine is taken and put back. -/
theorem pooled_virtine_unaccounted : ∃ p : Tabled Unit Unit,
    Run Tabled.Step (Tabled.init 0x1000 0 0)
      [.setBinary (fun _ => 0xF4) 1 0, .get plainKvm, .put 0] p ∧
      p.size = .ok 0 ∧ p.deleted = [] ∧ p.sys.cache.HitsLeft plainKvm 1 ∧
      ¬ p.deleted.Perm p.sys.cache.mCache := by
  refine ⟨_, .cons (.call .setBinary) (.cons (.call (.get rfl)) (.cons (.call (.put rfl rfl))
    (.nil _))), rfl, rfl, .hit rfl rfl (.none rfl), fun h => ?_⟩
  exact absurd h.length_eq (by decide)

/-! ## The loop of `ensure` -/

namespace Cache

/-- `while (cache.size() < count) cache.push_front(allocate());`, with the
allocations `made` so far; `none` is a loop that has not ended yet. The
answers of the kernel are numbered as in `ensureLoop`. -/
def ensureWhile (kvm : Nat → Kvm S F) (count : BitVec 32) :
    Nat → Nat → Cache S F → Option (Except Fault Nat × Cache S F)
  | fuel, made, c =>
      if c.mCache.length < (count.signExtend 64).toNat then
        match fuel with
        | 0 => none
        | fuel + 1 =>
            match c.allocate (kvm ((count.signExtend 64).toNat - c.mCache.length - 1)) with
            | (.ok v, c) => ensureWhile kvm count fuel (made + 1) { c with mCache := v :: c.mCache }
            | (.error e, c) => some (.error e, c)
      else some (.ok made, c)

/-- `Cache::ensure` around that loop. -/
def ensureFuel (c : Cache S F) (kvm : Nat → Kvm S F) (count : BitVec 32) (fuel : Nat) :
    Option (Except Fault Nat × Cache S F) :=
  if c.locked then some (.error .hang, c)
  else
    match ensureWhile kvm count fuel 0 { c with locked := true } with
    | none => none
    | some (.ok made, c) => some (.ok made, { c with locked := false })
    | some (.error e, c) => some (.error e, c)

/-- It ends, after as many allocations as are missing, with a pool of the
size asked for, the old one behind the new virtines. -/
def EnsuresRight (c : Cache S F) (kvm : Nat → Kvm S F) (count : BitVec 32) : Prop :=
  ∃ fuel made c' vs, c.ensureFuel kvm count fuel = some (.ok made, c') ∧
    (made : Int) = max 0 (count.toInt - c.mCache.length) ∧
    (c'.mCache.length : Int) = max (c.mCache.length : Int) count.toInt ∧
    c'.mCache = vs ++ c.mCache

/-- Any number of allocations in a row succeed. -/
def AllocatesAlways (c : Cache S F) (kvm : Nat → Kvm S F) : Prop :=
  ∀ n, ∃ c', ensureLoop kvm n { c with locked := true } = (.ok (), c')

theorem ensureWhile_done {kvm : Nat → Kvm S F} {count : BitVec 32} {c : Cache S F}
    (h : (count.signExtend 64).toNat ≤ c.mCache.length) (fuel made : Nat) :
    ensureWhile kvm count fuel made c = some (.ok made, c) := by
  cases fuel <;> rw [ensureWhile, if_neg (by omega)]

/-- The loop makes the iterations that `ensureLoop` is given. -/
theorem ensureWhile_eq {kvm : Nat → Kvm S F} {count : BitVec 32} {n made : Nat} {c : Cache S F}
    (h : c.mCache.length + n = (count.signExtend 64).toNat) :
    ensureWhile kvm count n made c =
      match ensureLoop kvm n c with
      | (.ok (), c') => some (.ok (made + n), c')
      | (.error e, c') => some (.error e, c') := by
  induction n generalizing c made with
  | zero => exact ensureWhile_done (by omega) 0 made
  | succ n ih =>
      have hindex : (count.signExtend 64).toNat - c.mCache.length - 1 = n := by omega
      rw [ensureWhile, if_pos (by omega), ensureLoop, hindex]
      cases ha : c.allocate (kvm n) with
      | mk res c₁ =>
          have hpool : c₁.mCache = c.mCache := by rw [← allocate_pool c (kvm n), ha]
          cases res with
          | error e => rfl
          | ok v =>
              dsimp only
              rw [ih (by simp only [List.length_cons, hpool]; omega)]
              rw [show made + 1 + n = made + (n + 1) by omega]

theorem ensureWhile_missing (c : Cache S F) (kvm : Nat → Kvm S F) (count : BitVec 32) :
    ensureWhile kvm count (PoolCall.missing c count) 0 c =
      match ensureLoop kvm (PoolCall.missing c count) c with
      | (.ok (), c') => some (.ok (PoolCall.missing c count), c')
      | (.error e, c') => some (.error e, c') := by
  by_cases hfull : (count.signExtend 64).toNat ≤ c.mCache.length
  · have hnone : PoolCall.missing c count = 0 := Nat.sub_eq_zero_of_le hfull
    rw [hnone]
    exact ensureWhile_done hfull 0 0
  · have hmissing : c.mCache.length + PoolCall.missing c count =
        (count.signExtend 64).toNat := Nat.add_sub_of_le (by omega)
    rw [ensureWhile_eq hmissing, Nat.zero_add]

/-- What the loop leaves when it ends: its guard is false, and it was true
before the last virtine. -/
theorem ensureWhile_ok {kvm : Nat → Kvm S F} {count : BitVec 32} {fuel made made' : Nat}
    {c c' : Cache S F} (h : ensureWhile kvm count fuel made c = some (.ok made', c')) :
    ∃ vs, c'.mCache = vs ++ c.mCache ∧ made' = made + vs.length ∧
      (count.signExtend 64).toNat ≤ c'.mCache.length ∧
      (vs = [] ∨ c'.mCache.length = (count.signExtend 64).toNat) := by
  induction fuel generalizing c made with
  | zero =>
      rw [ensureWhile] at h
      split at h
      · cases h
      · cases h
        exact ⟨[], rfl, rfl, by omega, .inl rfl⟩
  | succ fuel ih =>
      rw [ensureWhile] at h
      split at h
      · rename_i hguard
        split at h
        · rename_i v c₁ ha
          have hpool : c₁.mCache = c.mCache := by rw [← allocate_pool c (kvm _), ha]
          obtain ⟨vs, hvs, hmade, hend, hlast⟩ := ih h
          refine ⟨vs ++ [v], ?_, ?_, hend, .inr ?_⟩
          · rw [hvs, hpool, List.append_assoc]
            rfl
          · rw [hmade, List.length_append, List.length_singleton]
            omega
          · rcases hlast with rfl | hlast
            · rw [hvs, hpool] at hend ⊢
              simp only [List.nil_append, List.length_cons] at hend ⊢
              omega
            · exact hlast
        · cases h
      · cases h
        exact ⟨[], rfl, rfl, by omega, .inl rfl⟩

theorem ensureFuel_ok {kvm : Nat → Kvm S F} {count : BitVec 32} {fuel made : Nat}
    {c c' : Cache S F} (h : c.ensureFuel kvm count fuel = some (.ok made, c')) :
    ∃ vs, c'.mCache = vs ++ c.mCache ∧ made = vs.length ∧
      (count.signExtend 64).toNat ≤ c'.mCache.length ∧
      (vs = [] ∨ c'.mCache.length = (count.signExtend 64).toNat) := by
  unfold ensureFuel at h
  split at h
  · cases h
  · split at h
    · cases h
    · rename_i hloop
      cases h
      obtain ⟨vs, hvs, hmade, hend⟩ := ensureWhile_ok hloop
      exact ⟨vs, hvs, by omega, hend⟩
    · cases h

/-- **The loop ends**, and it does what `ensure` does. -/
theorem ensureFuel_eq {c : Cache S F} (hl : c.locked = false) (kvm : Nat → Kvm S F)
    (count : BitVec 32) :
    c.ensureFuel kvm count (PoolCall.missing c count) =
      match c.ensure kvm count with
      | (.ok (), c') => some (.ok (PoolCall.missing c count), c')
      | (.error e, c') => some (.error e, c') := by
  have hloop : ensureWhile kvm count (PoolCall.missing c count) 0 { c with locked := true } =
      match ensureLoop kvm (PoolCall.missing c count) { c with locked := true } with
      | (.ok (), c') => some (.ok (PoolCall.missing c count), c')
      | (.error e, c') => some (.error e, c') :=
    ensureWhile_missing { c with locked := true } kvm count
  rw [PoolCall.ensure_open hl, ensureFuel, if_neg (by simp [hl]), hloop]
  generalize ensureLoop kvm (PoolCall.missing c count) { c with locked := true } = res
  obtain ⟨res, c'⟩ := res
  cases res <;> rfl

theorem ensureFuel_ends {c : Cache S F} (hl : c.locked = false) {kvm : Nat → Kvm S F}
    (halloc : c.AllocatesAlways kvm) (count : BitVec 32) :
    ∃ fuel made c', c.ensureFuel kvm count fuel = some (.ok made, c') := by
  obtain ⟨c', hloop⟩ := halloc (PoolCall.missing c count)
  refine ⟨PoolCall.missing c count, PoolCall.missing c count, { c' with locked := false }, ?_⟩
  rw [ensureFuel_eq hl, PoolCall.ensure_open hl, hloop]

/-! ### Allocations that succeed -/

theorem allocate_succeeds {c : Cache S F} {kvm : Kvm S F} (hk : ¬ CreationFails c.mMemsz kvm)
    (hload : c.Loads) : ∃ v c', c.allocate kvm = (.ok v, c') := by
  have hzero : c.mMemsz ≠ 0 := fun h => hk (.inr (.inl h))
  have haligned : ¬ c.mMemsz &&& 0xFFF ≠ 0 := fun h => hk (.inr (.inr (.inl h)))
  unfold allocate
  cases hn : Virtine.new kvm with
  | error e => exact absurd (.inl ⟨e, hn⟩) hk
  | ok w =>
      cases hm : kvm.mmap with
      | none => exact absurd (.inr (.inr (.inr hm))) hk
      | some p =>
          simp only [Virtine.allocateMemory, if_neg hzero, if_neg haligned]
          refine ⟨_, _, Prod.ext (Virtine.reset_eq_ok.mpr ⟨?_, rfl⟩) rfl⟩
          have hregions : (c.mReset.getD (c.initialReset w)).regions = c.resetRegions := by
            unfold resetRegions
            cases c.mReset <;> rfl
          rw [Virtine.rst_masked rfl, hregions]
          intro g hg
          exact (hload g hg).imp_right fun h => ⟨h.1, p.property, h.2⟩

/-- Where no creation fails and the image can be copied, every allocation
succeeds. -/
theorem allocatesAlways {c : Cache S F} {kvm : Nat → Kvm S F}
    (hk : ∀ i, ¬ CreationFails c.mMemsz (kvm i)) (hload : c.Loads) :
    c.AllocatesAlways kvm := by
  suffices hgen : ∀ n (c : Cache S F), (∀ i, ¬ CreationFails c.mMemsz (kvm i)) → c.Loads →
      ∃ c', ensureLoop kvm n c = (.ok (), c') from fun n => hgen n _ hk hload
  intro n
  induction n with
  | zero => exact fun c _ _ => ⟨c, rfl⟩
  | succ n ih =>
      intro c hk hload
      obtain ⟨v, c₁, ha⟩ := allocate_succeeds (hk n) hload
      obtain ⟨r, hr, -, rfl⟩ := allocate_ok ha
      rw [ensureLoop, ha]
      refine ih _ hk ?_
      have hregions : r.regions = c.resetRegions := hr.regions
      intro g hg
      exact hload g (hregions ▸ hg)

end Cache

/-- The `int` as the guard sees it. -/
theorem toNat_signExtend_count (count : BitVec 32) :
    (0 ≤ count.toInt ∧ ((count.signExtend 64).toNat : Int) = count.toInt) ∨
      (count.toInt < 0 ∧ ((count.signExtend 64).toNat : Int) = count.toInt + 2 ^ 64) := by
  have hsame : (count.signExtend 64).toInt = count.toInt :=
    BitVec.toInt_signExtend_of_le (by decide)
  have hlt := (count.signExtend 64).isLt
  rcases Words.toInt_cases (count.signExtend 64) with ⟨h, heq⟩ | ⟨h, heq⟩ <;> omega

/-- **`ensure` and its guard.** For every pool and every `int`, with every
allocation succeeding: `ensure` makes what is missing of `count` and keeps
the pool behind it exactly when `count` is not negative, or the pool has as
many virtines as the `size_t` that a negative one is. -/
theorem ensure_right_iff (c : Cache S F) (kvm : Nat → Kvm S F) (count : BitVec 32)
    (hl : c.locked = false) (halloc : c.AllocatesAlways kvm) :
    c.EnsuresRight kvm count ↔
      0 ≤ count.toInt ∨ (count.signExtend 64).toNat ≤ c.mCache.length := by
  have hcount := toNat_signExtend_count count
  constructor
  · rintro ⟨fuel, made, c', -, hrun, hmade, hsize, -⟩
    obtain ⟨us, hus, hlen, hend, -⟩ := Cache.ensureFuel_ok hrun
    rw [hus, List.length_append] at hend hsize
    omega
  · intro hok
    obtain ⟨fuel, made, c', hrun⟩ := Cache.ensureFuel_ends hl halloc count
    obtain ⟨vs, hvs, hlen, hend, hlast⟩ := Cache.ensureFuel_ok hrun
    have hsize : c'.mCache.length = vs.length + c.mCache.length := by
      rw [hvs, List.length_append]
    -- the virtines that were made are those that were missing, as integers
    have hnew : (vs.length : Int) = max 0 (count.toInt - c.mCache.length) := by
      rcases hlast with rfl | hlast
      · rw [List.length_nil] at hsize ⊢
        omega
      · omega
    refine ⟨fuel, made, c', vs, hrun, ?_, ?_, hvs⟩ <;> omega

theorem plainKvm_creates : ¬ CreationFails 0x1000 plainKvm := by
  rintro (⟨e, h⟩ | h | h | h)
  · cases h
  · exact absurd h (by decide)
  · exact absurd h (by decide)
  · cases h

theorem newPage_loads : (Cache.new 0x1000 0 0 : Cache Unit Unit).Loads := by
  intro g hg
  rw [List.mem_singleton.mp hg]
  exact .inl rfl

/-- A new cache of one page, and three virtines for it. -/
theorem new_cache_ensures_three :
    (Cache.new 0x1000 0 0 : Cache Unit Unit).EnsuresRight (fun _ => plainKvm) 3 :=
  (ensure_right_iff (Cache.new 0x1000 0 0) (fun _ => plainKvm) 3 rfl
    (Cache.allocatesAlways (fun _ => plainKvm_creates) newPage_loads)).mpr (.inl (by decide))

/-- A count of `-1`: every allocation succeeds, and the loop does not end
before it has made `2^64 - 1` of them. -/
theorem ensure_minus_one :
    (Cache.new 0x1000 0 0 : Cache Unit Unit).AllocatesAlways (fun _ => plainKvm) ∧
      ¬ (Cache.new 0x1000 0 0 : Cache Unit Unit).EnsuresRight (fun _ => plainKvm) (-1) ∧
      ∀ fuel made c', (Cache.new 0x1000 0 0 : Cache Unit Unit).ensureFuel (fun _ => plainKvm)
        (-1) fuel = some (.ok made, c') → made = 2 ^ 64 - 1 := by
  have hcount : ((-1 : BitVec 32).signExtend 64).toNat = 2 ^ 64 - 1 := by decide
  have hmade : ∀ fuel made c', (Cache.new 0x1000 0 0 : Cache Unit Unit).ensureFuel
      (fun _ => plainKvm) (-1) fuel = some (.ok made, c') → made = 2 ^ 64 - 1 := by
    intro fuel made c' h
    obtain ⟨vs, hvs, hlen, hend, hlast⟩ := Cache.ensureFuel_ok h
    have hpool : c'.mCache.length = vs.length := by
      rw [hvs, List.length_append]
      rfl
    rw [hcount, hpool] at hend hlast
    rcases hlast with rfl | hlast
    · simp at hend
    · omega
  refine ⟨Cache.allocatesAlways (fun _ => plainKvm_creates) newPage_loads, ?_, hmade⟩
  rintro ⟨fuel, made, c', vs, hrun, hzero, -⟩
  rw [hmade fuel made c' hrun] at hzero
  revert hzero
  decide

end Wasp
