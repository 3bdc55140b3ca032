import Mathlib.Logic.Function.Basic
import Wasp.Lib.Run
import Wasp.Lib.Tokens
import Wasp.Runtime.Cache

/-!
# Spinlock — threads sharing one cache

`Cache::get`, `put` and `ensure` as any number of threads run them, one
statement at a time: the test-and-set loop of `lock` with its inner loop
of plain loads, the statements of each critical section, the clear of
`unlock`, and the reset `put` makes before it takes the lock.

A virtine is named by the number of virtines allocated before it. `ids`
names the entries of `m_cache` from front to back; the counters of
allocations and of finished `get` sections are recorded beside the cache.
-/

namespace Wasp

variable {T S F : Type}

/-- The call a thread takes the lock for. -/
inductive Task where
  | get
  | put (i : Nat)
  | ensure (count : BitVec 32)

/-- The statement a thread executes next. -/
inductive Pc (S F : Type) where
  | idle
  | reset (i : Nat)
  | lock (task : Task)
  | spin (task : Task)
  | enter (task : Task)
  -- `get`: the two counters, `allocate`, `front` and `pop_front`
  | miss
  | allocate
  | hit
  | front
  | pop (i : Nat) (v : Virtine S F)
  -- `ensure`: `allocate` and `push_front`
  | grow (count : BitVec 32)
  | push (count : BitVec 32) (i : Nat) (v : Virtine S F)
  | unlock

namespace Pc

/-- Between the test-and-set that found the lock free and the clear. -/
def inside : Pc S F → Bool
  | .idle | .reset _ | .lock _ | .spin _ => false
  | _ => true

/-- In the middle of a section: it has begun and has not done its work. -/
def amid : Pc S F → Bool
  | .enter _ | .unlock => false
  | p => p.inside

/-- The `get` of this thread has been counted and is not finished. -/
def counted : Pc S F → Nat
  | .allocate | .front | .pop _ _ => 1
  | _ => 0

/-- The miss of this thread has been counted and nothing is allocated yet. -/
def owed : Pc S F → Nat
  | .allocate => 1
  | _ => 0

/-- The virtine `ensure` has in hand, between `allocate` and `push_front`. -/
def fresh : Pc S F → List Nat
  | .push _ i _ => [i]
  | _ => []

theorem inside_of_amid {p : Pc S F} (h : p.amid = true) : p.inside = true := by
  cases p <;> first | rfl | cases h

theorem settled_of_not_amid {p : Pc S F} (h : p.amid = false) :
    p.owed = 0 ∧ p.counted = 0 := by
  cases p <;> first | exact ⟨rfl, rfl⟩ | cases h

end Pc

/-- What the threads share. -/
structure Shared (S F : Type) where
  cache : Cache S F
  ids : List Nat
  allocated : Nat
  ensured : Nat
  gets : Nat

/-- `held t` are the virtines that `t` got and has not put back. -/
structure Threads (T S F : Type) extends Shared S F where
  held : T → List (Nat × Virtine S F)
  pc : T → Pc S F

namespace Threads

/-- A new cache, before or after its binary is set, and nobody in it. -/
def init (memsz size start : BitVec 64) (binary : Option (Nat → UInt8)) : Threads T S F :=
  { cache := { Cache.new memsz size start with mBinary := binary },
    ids := [], allocated := 0, ensured := 0, gets := 0,
    held := fun _ => [], pc := fun _ => .idle }

/-- The virtines with thread `t`. -/
def owned (s : Threads T S F) (t : T) : List Nat :=
  (s.pc t).fresh ++ (s.held t).map Prod.fst

variable [DecidableEq T]

def goto (s : Threads T S F) (t : T) (p : Pc S F) : Threads T S F :=
  { s with pc := Function.update s.pc t p }

def hold (s : Threads T S F) (t : T) (vs : List (Nat × Virtine S F)) : Threads T S F :=
  { s with held := Function.update s.held t vs }

def setLocked (s : Threads T S F) (b : Bool) : Threads T S F :=
  { s with cache := { s.cache with locked := b } }

/-- One statement of one thread. Allocations that throw are left out, and
a thread puts what it holds. -/
inductive Step : Threads T S F → T → Threads T S F → Prop where
  | callGet {s t} : s.pc t = .idle → Step s t (s.goto t (.lock .get))
  | callPut {s t} {i : Nat} : s.pc t = .idle → i ∈ (s.held t).map Prod.fst →
      Step s t (s.goto t (.reset i))
  | callEnsure {s t} {count : BitVec 32} : s.pc t = .idle →
      Step s t (s.goto t (.lock (.ensure count)))
  -- between calls a thread runs a virtine it holds, which may take a snapshot
  | run {s t} {pre post : List (Nat × Virtine S F)} {i : Nat} {v v' : Virtine S F}
      {r : Option (ResetState S F)} : s.pc t = .idle → s.held t = pre ++ (i, v) :: post →
      Step s t ({ s with cache := { s.cache with mReset := r } }.hold t
        (pre ++ (i, v') :: post))
  | reset {s t} {pre post : List (Nat × Virtine S F)} {i : Nat} {v v' : Virtine S F} :
      s.pc t = .reset i → s.held t = pre ++ (i, v) :: post →
      v.reset (v.rst s.cache.mReset) = .ok v' →
      Step s t ((s.hold t (pre ++ (i, v') :: post)).goto t (.lock (.put i)))
  -- `__atomic_test_and_set`
  | acquire {s t} {task : Task} : s.pc t = .lock task → s.cache.locked = false →
      Step s t ((s.setLocked true).goto t (.enter task))
  | contend {s t} {task : Task} : s.pc t = .lock task → s.cache.locked = true →
      Step s t ((s.setLocked true).goto t (.spin task))
  -- `__atomic_load_n`
  | spin {s t} {task : Task} : s.pc t = .spin task → s.cache.locked = true → Step s t s
  | retry {s t} {task : Task} : s.pc t = .spin task → s.cache.locked = false →
      Step s t (s.goto t (.lock task))
  | getEmpty {s t} : s.pc t = .enter .get → s.cache.mCache = [] → Step s t (s.goto t .miss)
  | getMiss {s t} : s.pc t = .miss →
      Step s t ({ s with cache := { s.cache with mMisses := s.cache.mMisses + 1 } }.goto t
        .allocate)
  | getAllocate {s t} {kvm : Kvm S F} {v : Virtine S F} {c : Cache S F} :
      s.pc t = .allocate → s.cache.allocate kvm = (.ok v, c) →
      Step s t (({ s with cache := c, allocated := s.allocated + 1,
                          gets := s.gets + 1 }.hold t
        ((s.allocated, v) :: s.held t)).goto t .unlock)
  | getFull {s t} : s.pc t = .enter .get → s.cache.mCache ≠ [] → Step s t (s.goto t .hit)
  | getHit {s t} : s.pc t = .hit →
      Step s t ({ s with cache := { s.cache with mHits := s.cache.mHits + 1 } }.goto t .front)
  | getFront {s t} {v : Virtine S F} {vs : List (Virtine S F)} : s.pc t = .front →
      s.cache.mCache = v :: vs → Step s t (s.goto t (.pop (s.ids.headD 0) v))
  | getPop {s t} {i : Nat} {v : Virtine S F} : s.pc t = .pop i v →
      Step s t (({ s with cache := { s.cache with mCache := s.cache.mCache.tail },
                          ids := s.ids.tail, gets := s.gets + 1 }.hold t
        ((i, v) :: s.held t)).goto t .unlock)
  | putPush {s t} {pre post : List (Nat × Virtine S F)} {i : Nat} {v : Virtine S F} :
      s.pc t = .enter (.put i) → s.held t = pre ++ (i, v) :: post →
      Step s t (({ s with cache := { s.cache with mCache := s.cache.mCache ++ [v] },
                          ids := s.ids ++ [i] }.hold t (pre ++ post)).goto t .unlock)
  | ensureMore {s t} {count : BitVec 32} : s.pc t = .enter (.ensure count) →
      s.cache.mCache.length < (count.signExtend 64).toNat → Step s t (s.goto t (.grow count))
  | ensureAllocate {s t} {count : BitVec 32} {kvm : Kvm S F} {v : Virtine S F}
      {c : Cache S F} : s.pc t = .grow count → s.cache.allocate kvm = (.ok v, c) →
      Step s t ({ s with cache := c, allocated := s.allocated + 1,
                         ensured := s.ensured + 1 }.goto t (.push count s.allocated v))
  | ensurePush {s t} {count : BitVec 32} {i : Nat} {v : Virtine S F} :
      s.pc t = .push count i v →
      Step s t ({ s with cache := { s.cache with mCache := v :: s.cache.mCache },
                         ids := i :: s.ids }.goto t (.enter (.ensure count)))
  | ensureDone {s t} {count : BitVec 32} : s.pc t = .enter (.ensure count) →
      (count.signExtend 64).toNat ≤ s.cache.mCache.length → Step s t (s.goto t .unlock)
  -- `__atomic_clear`
  | release {s t} : s.pc t = .unlock → Step s t ((s.setLocked false).goto t .idle)

end Threads

/-! ## One thread alone

Run without interruption, the statements of a call are the call as `Cache`
has it. -/

namespace Threads

section Alone

variable [DecidableEq T] {s : Threads T S F} {t : T}

@[simp] theorem goto_pc (s : Threads T S F) (t : T) (p : Pc S F) : (s.goto t p).pc t = p :=
  Function.update_self ..

@[simp] theorem hold_held (s : Threads T S F) (t : T) (vs : List (Nat × Virtine S F)) :
    (s.hold t vs).held t = vs :=
  Function.update_self ..

/-- `t` is at `p`, the cache is `c`, and `t` holds `hs`. -/
structure Stands (s : Threads T S F) (t : T) (p : Pc S F) (c : Cache S F)
    (hs : List (Nat × Virtine S F)) : Prop where
  pc : s.pc t = p
  cache : s.cache = c
  held : s.held t = hs

/-- Steps of `t` alone lead from `s` to a state with `P`. -/
def Reaches (s : Threads T S F) (t : T) (P : Threads T S F → Prop) : Prop :=
  ∃ n s', Run Step s (List.replicate n t) s' ∧ P s'

theorem Reaches.step {P Q : Threads T S F → Prop} (h : s.Reaches t P)
    (hstep : ∀ s', P s' → ∃ s'', Step s' t s'' ∧ Q s'') : s.Reaches t Q := by
  obtain ⟨n, s', hrun, hs'⟩ := h
  obtain ⟨s'', hs, hst⟩ := hstep s' hs'
  refine ⟨n + 1, s'', ?_, hst⟩
  rw [List.replicate_succ']
  exact hrun.snoc hs

variable {c : Cache S F} {hs : List (Nat × Virtine S F)}

theorem Stands.reaches {p : Pc S F} (h : s.Stands t p c hs) :
    s.Reaches t (·.Stands t p c hs) :=
  ⟨0, s, .nil s, h⟩

/-- The lock, when it is free. -/
theorem Reaches.lock {task : Task} (hl : c.locked = false)
    (h : s.Reaches t (·.Stands t (.lock task) c hs)) :
    s.Reaches t (·.Stands t (.enter task) { c with locked := true } hs) :=
  h.step fun s' hs => ⟨_, .acquire hs.pc (by rw [hs.cache]; exact hl), goto_pc ..,
    by simp [goto, setLocked, hs.cache], hs.held⟩

theorem Reaches.unlock {P : List (Nat × Virtine S F) → Prop}
    (h : s.Reaches t fun s' => ∃ hs, P hs ∧ s'.Stands t .unlock c hs) :
    s.Reaches t fun s' => ∃ hs, P hs ∧ s'.Stands t .idle { c with locked := false } hs :=
  h.step fun s' ⟨hs, hp, hst⟩ => ⟨_, .release hst.pc, hs, hp, goto_pc ..,
    by simp [goto, setLocked, hst.cache], hst.held⟩

theorem get_alone {kvm : Kvm S F} {v : Virtine S F} {c' : Cache S F}
    (hst : s.Stands t .idle c hs) (h : c.get kvm = (.ok v, c')) :
    s.Reaches t fun s' => ∃ hs', (∃ i, hs' = (i, v) :: hs) ∧ s'.Stands t .idle c' hs' := by
  have hl : c.locked = false := (Cache.get_ok h).1
  have henter : s.Reaches t (·.Stands t (.enter .get) { c with locked := true } hs) :=
    .lock hl (hst.reaches.step fun s' hs =>
      ⟨_, .callGet hs.pc, goto_pc .., hs.cache, hs.held⟩)
  unfold Cache.get at h
  rw [if_neg (by simp [hl])] at h
  split at h
  · rename_i hm
    split at h
    · rename_i v' c1 ha
      cases h
      have hmiss : s.Reaches t (·.Stands t .miss { c with locked := true } hs) :=
        henter.step fun s' hs => ⟨_, .getEmpty hs.pc (by rw [hs.cache]; exact hm),
          goto_pc .., hs.cache, hs.held⟩
      have hcount : s.Reaches t
          (·.Stands t .allocate { c with locked := true, mMisses := c.mMisses + 1 } hs) :=
        hmiss.step fun s' hs => ⟨_, .getMiss hs.pc, goto_pc .., by simp [goto, hs.cache],
          hs.held⟩
      refine Reaches.unlock (hcount.step fun s' hs => ?_)
      exact ⟨_, .getAllocate hs.pc (by rw [hs.cache]; exact ha), _, ⟨s'.allocated, rfl⟩,
        goto_pc .., rfl, by simp [goto, hs.held]⟩
    · cases h
  · rename_i v' rest hm
    cases h
    have hhit : s.Reaches t (·.Stands t .hit { c with locked := true } hs) :=
      henter.step fun s' hs => ⟨_, .getFull hs.pc (by rw [hs.cache]; simp [hm]),
        goto_pc .., hs.cache, hs.held⟩
    have hcount : s.Reaches t
        (·.Stands t .front { c with locked := true, mHits := c.mHits + 1 } hs) :=
      hhit.step fun s' hs => ⟨_, .getHit hs.pc, goto_pc .., by simp [goto, hs.cache], hs.held⟩
    have hfront : s.Reaches t fun s' => ∃ i,
        s'.Stands t (.pop i v) { c with locked := true, mHits := c.mHits + 1 } hs :=
      hcount.step fun s' hs => ⟨_, .getFront hs.pc (by rw [hs.cache]; exact hm),
        _, goto_pc .., hs.cache, hs.held⟩
    have hpop : s.Reaches t fun s' => ∃ hs', (∃ i, hs' = (i, v) :: hs) ∧ s'.Stands t .unlock
        { c with locked := true, mHits := c.mHits + 1, mCache := rest } hs' :=
      hfront.step fun s' ⟨i, hs⟩ => ⟨_, .getPop hs.pc, _, ⟨i, rfl⟩, goto_pc ..,
        by simp [goto, hold, hs.cache, hm], by simp [goto, hs.held]⟩
    simpa [hl] using hpop.unlock

theorem put_alone {v : Virtine S F} {c' : Cache S F} {i : Nat}
    {pre post : List (Nat × Virtine S F)}
    (hst : s.Stands t .idle c (pre ++ (i, v) :: post)) (h : c.put v = (.ok (), c')) :
    s.Reaches t fun s' => ∃ hs', hs' = pre ++ post ∧ s'.Stands t .idle c' hs' := by
  obtain ⟨hl, v', hv, rfl⟩ := Cache.put_eq_ok.mp h
  have hcall : s.Reaches t (·.Stands t (.reset i) c (pre ++ (i, v) :: post)) :=
    hst.reaches.step fun s' hs => ⟨_, .callPut hs.pc (by simp [hs.held]),
      goto_pc .., hs.cache, hs.held⟩
  have hreset : s.Reaches t (·.Stands t (.lock (.put i)) c (pre ++ (i, v') :: post)) :=
    hcall.step fun s' hs => ⟨_, .reset hs.pc hs.held (by rw [hs.cache]; exact hv),
      goto_pc .., hs.cache, hold_held ..⟩
  have hpush : s.Reaches t fun s' => ∃ hs', hs' = pre ++ post ∧ s'.Stands t .unlock
      { c with locked := true, mCache := c.mCache ++ [v'] } hs' :=
    (hreset.lock hl).step fun s' hs => ⟨_, .putPush hs.pc hs.held, _, rfl, goto_pc ..,
      by simp [goto, hold, hs.cache], hold_held ..⟩
  simpa [hl] using hpush.unlock

/-- The loop of `ensure`, from its test. -/
theorem ensureLoop_alone {kvm : Nat → Kvm S F} {count : BitVec 32} {n : Nat} {c' : Cache S F}
    (hn : n = (count.signExtend 64).toNat - c.mCache.length)
    (hst : s.Reaches t (·.Stands t (.enter (.ensure count)) c hs))
    (h : Cache.ensureLoop kvm n c = (.ok (), c')) :
    s.Reaches t (·.Stands t .unlock c' hs) := by
  induction n generalizing c with
  | zero =>
      cases h
      exact hst.step fun s' hs => ⟨_, .ensureDone hs.pc (by rw [hs.cache]; omega),
        goto_pc .., hs.cache, hs.held⟩
  | succ n ih =>
      simp only [Cache.ensureLoop] at h
      split at h
      · rename_i v c1 ha
        have hm : c1.mCache = c.mCache := by
          obtain ⟨r, _, _, rfl⟩ := Cache.allocate_ok ha
          rfl
        refine ih (by simp only [hm, List.length_cons]; omega) ?_ h
        have hgrow : s.Reaches t (·.Stands t (.grow count) c hs) :=
          hst.step fun s' hs => ⟨_, .ensureMore hs.pc (by rw [hs.cache]; omega),
            goto_pc .., hs.cache, hs.held⟩
        have hnew : s.Reaches t fun s' => ∃ i, s'.Stands t (.push count i v) c1 hs :=
          hgrow.step fun s' hs => ⟨_, .ensureAllocate hs.pc (by rw [hs.cache]; exact ha),
            _, goto_pc .., rfl, hs.held⟩
        refine hnew.step fun s' hpush => ?_
        obtain ⟨i, hs⟩ := hpush
        exact ⟨_, .ensurePush hs.pc, goto_pc .., by simp [goto, hs.cache], hs.held⟩
      · cases h

theorem ensure_alone {kvm : Nat → Kvm S F} {count : BitVec 32} {c' : Cache S F}
    (hst : s.Stands t .idle c hs) (h : c.ensure kvm count = (.ok (), c')) :
    s.Reaches t (·.Stands t .idle c' hs) := by
  unfold Cache.ensure at h
  split at h
  · cases h
  · rename_i hl
    split at h
    · rename_i c1 he
      cases h
      have henter : s.Reaches t
          (·.Stands t (.enter (.ensure count)) { c with locked := true } hs) :=
        .lock (by simpa using hl) (hst.reaches.step fun s' hs =>
          ⟨_, .callEnsure hs.pc, goto_pc .., hs.cache, hs.held⟩)
      exact (ensureLoop_alone rfl henter he).step fun s' hs =>
        ⟨_, .release hs.pc, goto_pc .., by simp [goto, setLocked, hs.cache], hs.held⟩
    · cases h

end Alone

end Threads

/-! ## The invariant

The thread in the section works on the shared data alone; `Shared.At` says
how far it has come. Outside the section nothing shared changes but the
lock itself and the reset state. -/

/-- The shared data while the thread in the section is at `p`, or with an
idle `p` while there is none. -/
structure Shared.At (g : Shared S F) (p : Pc S F) : Prop where
  created : g.allocated + p.owed = g.cache.mMisses + g.ensured
  finished : g.cache.mHits + g.cache.mMisses = g.gets + p.counted
  front : ∀ i v, p = .pop i v → ∃ is, g.ids = i :: is

/-- A statement that changes neither of the two accounts, while no `get` is
counted. -/
theorem Shared.At.next {g : Shared S F} {q p : Pc S F} (h : g.At q) (howed : p.owed = q.owed)
    (hq : q.counted = 0) (hp : p.counted = 0) : g.At p where
  created := by
    rw [howed]
    exact h.created
  finished := by
    rw [hp, ← hq]
    exact h.finished
  front i v he := by
    rw [he] at hp
    cases hp

/-! ### The accounts at the statements that change them -/

theorem Shared.At.miss {g : Shared S F} (h : g.At .miss) :
    Shared.At { g with cache := { g.cache with mMisses := g.cache.mMisses + 1 } }
      .allocate where
  created := by
    have hcreated := h.created
    simp only [Pc.owed] at hcreated ⊢
    omega
  finished := by
    have hfinished := h.finished
    simp only [Pc.counted] at hfinished ⊢
    omega
  front i v he := by cases he

theorem Shared.At.hit {g : Shared S F} (h : g.At .hit) :
    Shared.At { g with cache := { g.cache with mHits := g.cache.mHits + 1 } } .front where
  created := h.created
  finished := by
    have hfinished := h.finished
    simp only [Pc.counted] at hfinished ⊢
    omega
  front i v he := by cases he

/-- The allocation of a `get`, which pays for the miss. -/
theorem Shared.At.got {g : Shared S F} {r : Option (ResetState S F)} (h : g.At .allocate) :
    Shared.At { g with cache := { g.cache with mReset := r }, allocated := g.allocated + 1,
                       gets := g.gets + 1 } .unlock where
  created := by
    have hcreated := h.created
    simp only [Pc.owed] at hcreated ⊢
    omega
  finished := h.finished
  front i v he := by cases he

/-- The allocation of an `ensure`. -/
theorem Shared.At.grown {g : Shared S F} {r : Option (ResetState S F)} {count : BitVec 32}
    (h : g.At (.grow count)) (i : Nat) (v : Virtine S F) :
    Shared.At { g with cache := { g.cache with mReset := r }, allocated := g.allocated + 1,
                       ensured := g.ensured + 1 } (.push count i v) where
  created := by
    have hcreated := h.created
    simp only [Pc.owed] at hcreated ⊢
    omega
  finished := h.finished
  front j w he := by cases he

namespace Threads

/-- The places of a virtine: `m_cache`, and every thread. -/
def places (s : Threads T S F) : Option T → List Nat
  | none => s.ids
  | some t => s.owned t

structure Inv (s : Threads T S F) : Prop where
  locked : ∀ t, (s.pc t).inside = true → s.cache.locked = true
  alone : ∀ t u, (s.pc t).inside = true → (s.pc u).inside = true → t = u
  free : (∀ t, (s.pc t).inside = false) → s.toShared.At .idle
  busy : ∀ t, (s.pc t).inside = true → s.toShared.At (s.pc t)
  named : s.ids.length = s.cache.mCache.length
  placed : Placed s.places (· < s.allocated)

theorem init_inv (memsz size start : BitVec 64) (binary : Option (Nat → UInt8)) :
    (init memsz size start binary : Threads T S F).Inv := by
  have hout : ∀ t, ((init memsz size start binary : Threads T S F).pc t).inside = true →
      False := fun _ h => by cases h
  refine ⟨fun t h => (hout t h).elim, fun t _ h => (hout t h).elim, fun _ => ?_,
    fun t h => (hout t h).elim, rfl, ⟨fun i hi => absurd hi (Nat.not_lt_zero i), ?_⟩⟩
  · exact ⟨rfl, rfl, fun _ _ h => by cases h⟩
  · intro i _ p
    cases p <;> rfl

/-- Where `t` stands in the section decides what the shared data are like. -/
theorem Inv.at_pc {s : Threads T S F} {t : T} (h : s.Inv) {q : Pc S F}
    (hpc : s.pc t = q) (hq : q.inside = true) : s.toShared.At q := by
  subst hpc
  exact h.busy t hq

section Steps

variable [DecidableEq T] {s s' : Threads T S F} {t : T} {p : Pc S F}

/-! ### Who has what after a step -/

theorem owned_self {vs : List (Nat × Virtine S F)} (hpc : s'.pc = Function.update s.pc t p)
    (hheld : s'.held = Function.update s.held t vs) :
    s'.owned t = p.fresh ++ vs.map Prod.fst := by
  rw [owned, hpc, hheld, Function.update_self, Function.update_self]

theorem owned_other {vs : List (Nat × Virtine S F)} (hpc : s'.pc = Function.update s.pc t p)
    (hheld : s'.held = Function.update s.held t vs) {u : T} (hu : u ≠ t) :
    s'.owned u = s.owned u := by
  rw [owned, hpc, hheld, Function.update_of_ne hu, Function.update_of_ne hu, owned]

/-- A step after which every thread has what it had. -/
theorem places_eq {vs : List (Nat × Virtine S F)} (hids : s'.ids = s.ids)
    (hpc : s'.pc = Function.update s.pc t p)
    (hheld : s'.held = Function.update s.held t vs)
    (hself : p.fresh ++ vs.map Prod.fst = s.owned t) : s'.places = s.places := by
  funext q
  cases q with
  | none => exact hids
  | some u =>
      by_cases hu : u = t
      · subst hu
        exact (owned_self hpc hheld).trans hself
      · exact owned_other hpc hheld hu

section HandOver

variable {vs : List (Nat × Virtine S F)} (hI : s.Inv)
  (hpc : s'.pc = Function.update s.pc t p) (hheld : s'.held = Function.update s.held t vs)

include hI hpc hheld

/-- `t` allocates a virtine. -/
theorem placed_new (hids : s'.ids = s.ids) (hall : s'.allocated = s.allocated + 1)
    (hself : p.fresh ++ vs.map Prod.fst = s.allocated :: s.owned t) :
    Placed s'.places (· < s'.allocated) := by
  have hnow : s'.owned t = s.allocated :: s.owned t := (owned_self hpc hheld).trans hself
  refine hI.placed.create (q := some t) (Nat.lt_irrefl s.allocated)
    (fun j => ?_) (.of_eq hnow) (fun q hq => ?_)
  · rw [hall]
    omega
  · cases q with
    | none => exact hids
    | some u => exact owned_other hpc hheld fun he => hq (congrArg some he)

/-- `t` takes the virtine at the front of the pool. -/
theorem placed_taken {i : Nat} (hids : s.ids = i :: s'.ids)
    (hall : s'.allocated = s.allocated)
    (hself : p.fresh ++ vs.map Prod.fst = i :: s.owned t) :
    Placed s'.places (· < s'.allocated) := by
  have hnow : s'.owned t = i :: s.owned t := (owned_self hpc hheld).trans hself
  rw [hall]
  refine hI.placed.move (p := none) (q := some t) (by simp) (.of_eq hids) (.of_eq hnow)
    (fun q hq hqt => ?_)
  cases q with
  | none => exact absurd rfl hq
  | some u => exact owned_other hpc hheld fun he => hqt (congrArg some he)

/-- `t` adds a virtine it has to the pool. -/
theorem placed_given {i : Nat} (hids : s'.ids.Perm (i :: s.ids))
    (hall : s'.allocated = s.allocated)
    (hself : (s.owned t).Perm (i :: (p.fresh ++ vs.map Prod.fst))) :
    Placed s'.places (· < s'.allocated) := by
  have hnow : (s.owned t).Perm (i :: s'.owned t) := by
    rw [owned_self hpc hheld]
    exact hself
  rw [hall]
  refine hI.placed.move (p := some t) (q := none) (by simp) hnow hids
    (fun q hqt hq => ?_)
  cases q with
  | none => exact absurd rfl hq
  | some u => exact owned_other hpc hheld fun he => hqt (congrArg some he)

end HandOver

/-! ### The four kinds of steps -/

/-- A step outside the section. -/
theorem Inv.outside (h : s.Inv) (ht : (s.pc t).inside = false) (hp : p.inside = false)
    (hpc : s'.pc = Function.update s.pc t p) {r : Option (ResetState S F)}
    (hg : s'.toShared = { s.toShared with cache := { s.cache with mReset := r } })
    (hplaces : s'.places = s.places) : s'.Inv := by
  obtain ⟨g', held', pc'⟩ := s'
  cases hpc
  cases hg
  have hold : ∀ u, (Function.update s.pc t p u).inside = (s.pc u).inside := by
    intro u
    by_cases hu : u = t
    · rw [hu, Function.update_self, hp, ht]
    · rw [Function.update_of_ne hu]
  have hat : ∀ {q}, s.toShared.At q → Shared.At
      { s.toShared with cache := { s.cache with mReset := r } } q :=
    fun ha => ⟨ha.created, ha.finished, ha.front⟩
  refine ⟨?_, ?_, ?_, ?_, h.named, by rw [hplaces]; exact h.placed⟩
  · exact fun u hu => h.locked u (hold u ▸ hu)
  · exact fun u w hu hw => h.alone u w (hold u ▸ hu) (hold w ▸ hw)
  · exact fun hall => hat (h.free fun u => hold u ▸ hall u)
  · intro u hu
    have hne : u ≠ t := fun he => by simp [he, hp] at hu
    show Shared.At _ (Function.update s.pc t p u)
    rw [Function.update_of_ne hne]
    exact hat (h.busy u (hold u ▸ hu))

/-- A step of the section. -/
theorem Inv.within (h : s.Inv) (ht : (s.pc t).inside = true) (hp : p.inside = true)
    (hpc : s'.pc = Function.update s.pc t p) (hl : s'.cache.locked = s.cache.locked)
    (hat : s'.toShared.At p) (hn : s'.ids.length = s'.cache.mCache.length)
    (hplaced : Placed s'.places (· < s'.allocated)) : s'.Inv := by
  have honly : ∀ u, (s'.pc u).inside = true → u = t := by
    intro u hu
    by_cases hut : u = t
    · exact hut
    · rw [hpc, Function.update_of_ne hut] at hu
      exact h.alone u t hu ht
  have hpct : s'.pc t = p := by rw [hpc, Function.update_self]
  refine ⟨fun _ _ => ?_, fun u w hu hw => ?_, fun hall => ?_, fun u hu => ?_, hn, hplaced⟩
  · rw [hl]
    exact h.locked t ht
  · rw [honly u hu, honly w hw]
  · have := hall t
    simp [hpct, hp] at this
  · rw [honly u hu, hpct]
    exact hat

/-- The test-and-set that finds the lock free. -/
theorem Inv.acquire (h : s.Inv) {task : Task} (ht : s.pc t = .lock task)
    (hfree : s.cache.locked = false) : ((s.setLocked true).goto t (.enter task)).Inv := by
  have hout : ∀ u, (s.pc u).inside = false := by
    intro u
    cases hu : (s.pc u).inside with
    | false => rfl
    | true => simp [h.locked u hu] at hfree
  have honly : ∀ u, (Function.update s.pc t (.enter task) u).inside = true → u = t := by
    intro u hu
    by_cases hut : u = t
    · exact hut
    · simp [Function.update_of_ne hut, hout u] at hu
  have hat := h.free hout
  have hplaces : ((s.setLocked true).goto t (.enter task)).places = s.places :=
    places_eq rfl rfl (Function.update_eq_self t s.held).symm (by rw [owned, ht]; rfl)
  refine ⟨fun _ _ => rfl, fun u w hu hw => (honly u hu).trans (honly w hw).symm,
    fun hall => ?_, fun u hu => ?_, h.named, by rw [hplaces]; exact h.placed⟩
  · have := hall t
    simp [goto, Pc.inside] at this
  · obtain rfl := honly u hu
    show Shared.At _ (Function.update s.pc u (.enter task) u)
    rw [Function.update_self]
    exact ⟨hat.created, hat.finished, fun _ _ he => by cases he⟩

/-- The clear. -/
theorem Inv.release (h : s.Inv) (ht : s.pc t = .unlock) :
    ((s.setLocked false).goto t .idle).Inv := by
  have hin : (s.pc t).inside = true := by rw [ht]; rfl
  have hat := h.at_pc ht rfl
  have hout : ∀ u, (Function.update s.pc t .idle u).inside = true → False := by
    intro u hu
    by_cases hut : u = t
    · rw [hut, Function.update_self] at hu
      cases hu
    · rw [Function.update_of_ne hut] at hu
      exact hut (h.alone u t hu hin)
  have hplaces : ((s.setLocked false).goto t .idle).places = s.places :=
    places_eq rfl rfl (Function.update_eq_self t s.held).symm (by rw [owned, ht]; rfl)
  refine ⟨fun u hu => (hout u hu).elim, fun u _ hu => (hout u hu).elim, fun _ => ?_,
    fun u hu => (hout u hu).elim, h.named, by rw [hplaces]; exact h.placed⟩
  exact ⟨hat.created, hat.finished, fun _ _ he => by cases he⟩

/-- A statement of the section that hands nothing over. -/
theorem Inv.statement (h : s.Inv) (ht : (s.pc t).inside = true) (hp : p.inside = true)
    (hf : p.fresh = (s.pc t).fresh) {c : Cache S F} (hl : c.locked = s.cache.locked)
    (hm : c.mCache = s.cache.mCache) (hat : Shared.At { s.toShared with cache := c } p) :
    ({ s with cache := c }.goto t p).Inv := by
  have hplaces : ({ s with cache := c }.goto t p).places = s.places :=
    places_eq rfl rfl (Function.update_eq_self t s.held).symm (by rw [owned, hf])
  refine h.within ht hp rfl hl hat (h.named.trans (congrArg List.length hm.symm)) ?_
  rw [hplaces]
  exact h.placed

/-- `t` goes on, outside the section. -/
theorem Inv.goto_outside (h : s.Inv) {q : Pc S F} (hpc : s.pc t = q) (hq : q.inside = false)
    (hp : p.inside = false) (hf : p.fresh = q.fresh) : (s.goto t p).Inv := by
  subst hpc
  refine h.outside hq hp rfl rfl ?_
  exact places_eq rfl rfl (Function.update_eq_self t s.held).symm (by rw [owned, hf])

/-- `t` goes on, inside the section, and nothing else changes. -/
theorem Inv.goto_within (h : s.Inv) {q : Pc S F} (hpc : s.pc t = q) (hq : q.inside = true)
    (hp : p.inside = true) (hf : p.fresh = q.fresh) (hat : s.toShared.At p) :
    (s.goto t p).Inv := by
  subst hpc
  exact h.statement hq hp hf rfl rfl hat

/-- **One step.** -/
theorem Step.inv (h : Step s t s') (hI : s.Inv) : s'.Inv := by
  cases h with
  | callGet hpc => exact hI.goto_outside hpc rfl rfl rfl
  | callPut hpc _ => exact hI.goto_outside hpc rfl rfl rfl
  | callEnsure hpc => exact hI.goto_outside hpc rfl rfl rfl
  | run hpc hh =>
      have hstay : s.pc = Function.update s.pc t .idle := by
        rw [← hpc, Function.update_eq_self]
      exact hI.outside (by rw [hpc]; rfl) rfl hstay rfl
        (places_eq rfl hstay rfl (by simp [owned, hpc, hh, Pc.fresh]))
  | reset hpc hh _ =>
      exact hI.outside (by rw [hpc]; rfl) rfl rfl rfl
        (places_eq rfl rfl rfl (by simp [owned, hpc, hh, Pc.fresh]))
  | acquire hpc hl => exact hI.acquire hpc hl
  | contend hpc hl =>
      have hset : s.setLocked true = s := by
        unfold setLocked
        rw [← hl]
      rw [hset]
      exact hI.goto_outside hpc rfl rfl rfl
  | spin _ _ => exact hI
  | retry hpc _ => exact hI.goto_outside hpc rfl rfl rfl
  | getEmpty hpc _ =>
      exact hI.goto_within hpc rfl rfl rfl ((hI.at_pc hpc rfl).next rfl rfl rfl)
  | getMiss hpc =>
      exact hI.statement (by rw [hpc]; rfl) rfl (by rw [hpc]; rfl) rfl rfl
        (hI.at_pc hpc rfl).miss
  | getAllocate hpc hal =>
      obtain ⟨r, _, _, rfl⟩ := Cache.allocate_ok hal
      exact hI.within (by rw [hpc]; rfl) rfl rfl rfl (hI.at_pc hpc rfl).got hI.named
        (placed_new hI rfl rfl rfl rfl (by simp [owned, hpc, Pc.fresh]))
  | getFull hpc _ =>
      exact hI.goto_within hpc rfl rfl rfl ((hI.at_pc hpc rfl).next rfl rfl rfl)
  | getHit hpc =>
      exact hI.statement (by rw [hpc]; rfl) rfl (by rw [hpc]; rfl) rfl rfl
        (hI.at_pc hpc rfl).hit
  | getFront hpc hm =>
      have ha := hI.at_pc hpc rfl
      refine hI.goto_within hpc rfl rfl rfl ⟨ha.created, ha.finished, fun i v he => ?_⟩
      have hlen := hI.named
      cases he
      cases hids : s.ids with
      | nil => simp [hids, hm] at hlen
      | cons i is => exact ⟨is, rfl⟩
  | @getPop i v hpc =>
      have ha := hI.at_pc hpc rfl
      obtain ⟨is, hids⟩ := ha.front i v rfl
      refine hI.within (by rw [hpc]; rfl) rfl rfl rfl
        ⟨ha.created, ha.finished, fun _ _ he => by cases he⟩ ?_
        (placed_taken (i := i) hI rfl rfl (by simp [goto, hold, hids]) rfl
          (by simp [owned, hpc, Pc.fresh]))
      show s.ids.tail.length = s.cache.mCache.tail.length
      rw [List.length_tail, List.length_tail, hI.named]
  | putPush hpc hh =>
      have ha := hI.at_pc hpc rfl
      refine hI.within (by rw [hpc]; rfl) rfl rfl rfl
        ⟨ha.created, ha.finished, fun _ _ he => by cases he⟩ ?_
        (placed_given hI rfl rfl (List.perm_append_singleton _ _) rfl ?_)
      · simp [goto, hold, hI.named]
      · simp [owned, hpc, hh, Pc.fresh]
  | ensureMore hpc _ =>
      exact hI.goto_within hpc rfl rfl rfl ((hI.at_pc hpc rfl).next rfl rfl rfl)
  | ensureAllocate hpc hal =>
      obtain ⟨r, _, _, rfl⟩ := Cache.allocate_ok hal
      exact hI.within (by rw [hpc]; rfl) rfl rfl rfl ((hI.at_pc hpc rfl).grown _ _) hI.named
        (placed_new hI rfl (Function.update_eq_self t s.held).symm rfl rfl
          (by simp [owned, hpc, Pc.fresh]))
  | ensurePush hpc =>
      have ha := hI.at_pc hpc rfl
      refine hI.within (by rw [hpc]; rfl) rfl rfl rfl
        ⟨ha.created, ha.finished, fun _ _ he => by cases he⟩ ?_
        (placed_given hI rfl (Function.update_eq_self t s.held).symm (.refl _) rfl
          (by simp [owned, hpc, Pc.fresh]))
      exact congrArg (· + 1) hI.named
  | ensureDone hpc _ =>
      exact hI.goto_within hpc rfl rfl rfl ((hI.at_pc hpc rfl).next rfl rfl rfl)
  | release hpc => exact hI.release hpc

end Steps

variable [DecidableEq T]

/-- **Exclusive ownership.** However the threads' statements interleave, at
most one of them is in a critical section, and every virtine allocated so
far is in exactly one place: once in `m_cache`, or with exactly one thread.
Whenever no section is half done the counters are what they say they are;
in the middle of one they are ahead by just the `get` in progress. -/
theorem exclusive_ownership {memsz size start : BitVec 64} {binary : Option (Nat → UInt8)}
    {ts : List T} {s : Threads T S F} (h : Run Step (init memsz size start binary) ts s) :
    (∀ t u, (s.pc t).inside = true → (s.pc u).inside = true → t = u) ∧
    s.ids.length = s.cache.mCache.length ∧
    (∀ i, i < s.allocated →
      (s.ids.count i = 1 ∧ ∀ t, i ∉ s.owned t) ∨
      (i ∉ s.ids ∧ ∃ t, (s.owned t).count i = 1 ∧ ∀ u, u ≠ t → i ∉ s.owned u)) ∧
    ((∀ t, (s.pc t).amid = false) →
      s.allocated = s.cache.mMisses + s.ensured ∧
      s.cache.mHits + s.cache.mMisses = s.gets) ∧
    ∀ t, (s.pc t).amid = true →
      s.allocated + (s.pc t).owed = s.cache.mMisses + s.ensured ∧
      s.cache.mHits + s.cache.mMisses = s.gets + (s.pc t).counted := by
  have hI : s.Inv := h.invariant (fun _ _ _ hI hs => hs.inv hI) (init_inv ..)
  refine ⟨hI.alone, hI.named, fun i hi => ?_, fun hno => ?_, fun t ht => ?_⟩
  · obtain ⟨q, hone, hzero⟩ := hI.placed.once i hi
    cases q with
    | none =>
        exact .inl ⟨hone, fun t => List.count_eq_zero.mp (hzero (some t) (by simp))⟩
    | some t =>
        refine .inr ⟨List.count_eq_zero.mp (hzero none (by simp)), t, hone, fun u hu => ?_⟩
        exact List.count_eq_zero.mp (hzero (some u) fun he => hu (Option.some.inj he))
  · -- a thread that is not half way through is about to begin or has done its work
    have hcount : s.toShared.At .idle ∨ ∃ t, s.toShared.At (s.pc t) := by
      by_cases hex : ∃ t, (s.pc t).inside = true
      · obtain ⟨t, ht⟩ := hex
        exact .inr ⟨t, hI.busy t ht⟩
      · exact .inl (hI.free fun t => by simpa using fun ht => hex ⟨t, ht⟩)
    rcases hcount with hat | ⟨t, hat⟩
    · exact ⟨hat.created, hat.finished⟩
    · obtain ⟨ho, hc⟩ := Pc.settled_of_not_amid (hno t)
      exact ⟨by simpa [ho] using hat.created, by simpa [hc] using hat.finished⟩
  · have hat := hI.busy t (Pc.inside_of_amid ht)
    exact ⟨hat.created, hat.finished⟩

/-- Two threads: the second finds the lock taken, spins while the first
allocates, and is in its section when the first has left with its virtine. -/
theorem two_threads_take_turns :
    ∃ s : Threads Bool Unit Unit,
      Run Step (init 4096 0 0x8000 none)
        [true, true, false, false, true, true, true, false, true, false, false] s ∧
      s.owned true = [0] ∧ (s.pc false).inside = true ∧ s.allocated = 1 ∧
      (∀ u, u ≠ true → 0 ∉ s.owned u) ∧ s.cache.mHits + s.cache.mMisses = s.gets := by
  obtain ⟨s, hrun, hown, hin, hal, hids, hamid⟩ : ∃ s : Threads Bool Unit Unit,
      Run Step (init 4096 0 0x8000 none)
        [true, true, false, false, true, true, true, false, true, false, false] s ∧
      s.owned true = [0] ∧ (s.pc false).inside = true ∧ s.allocated = 1 ∧ s.ids = [] ∧
      ∀ t, (s.pc t).amid = false :=
    ⟨_, .cons (.callGet rfl) <| .cons (.acquire rfl rfl) <| .cons (.callGet rfl) <|
        .cons (.contend rfl rfl) <| .cons (.getEmpty rfl rfl) <| .cons (.getMiss rfl) <|
        .cons (.getAllocate rfl (show Cache.allocate _ plainKvm = _ from rfl)) <|
        .cons (.spin rfl rfl) <| .cons (.release rfl) <| .cons (.retry rfl rfl) <|
        .cons (.acquire rfl rfl) <|
        .nil _,
      rfl, rfl, rfl, rfl, by decide⟩
  obtain ⟨_, _, hplace, hcount, _⟩ := exclusive_ownership hrun
  refine ⟨s, hrun, hown, hin, hal, ?_, (hcount hamid).2⟩
  rcases hplace 0 (by omega) with ⟨hc, _⟩ | ⟨_, t, ht, hother⟩
  · simp [hids] at hc
  · cases t with
    | true => exact hother
    | false => exact absurd (hown ▸ List.mem_cons_self) (hother true (by decide))

end Threads

end Wasp
