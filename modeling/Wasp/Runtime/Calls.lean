import Mathlib.Logic.Function.Basic
import Wasp.Lib.LockOrder
import Wasp.Runtime.Registry

/-!
# Calls — threads in `wasp_run_virtine`

Any number of threads call `wasp_run_virtine` (`src/binding.cpp`) at once.
They share `cached_virtines` and two kinds of locks: `virtine_cache_lock`,
taken to find the cache of an image, and the lock inside each cache, taken
by `get` and `put`. The last `put` is made with `virtine_cache_lock` held, so
a thread can wait for a cache while all others wait for it. An exception in
`allocate` leaves the function without the unlock of `get`.

A thread is a program whose statements are actions on what is shared
(`Stage.Next`), and the actions are atomic (`Binding.Do`). A spin of `lock`
that finds the lock taken is no step: a thread that waits stays where it is.
-/

namespace Wasp

variable {T S F : Type}

/-! ## One thread -/

/-- The statement a thread executes next, with the call and the virtine it
has. -/
inductive Stage (S F : Type) where
  | idle
  -- the look-up: lock, `get_cache`, unlock
  | enter (call : Call)
  | lookup (call : Call)
  | leave (call : Call)
  -- `cache.get()`: lock, the section, unlock
  | get (call : Call)
  | take (call : Call)
  | took (call : Call) (v : Virtine S F)
  -- the loop, with a snapshot: lock, `get_cache`, unlock, `save_reset_state`
  | running (call : Call) (v : Virtine S F)
  | snapshot (call : Call) (v : Virtine S F)
  | relookup (call : Call) (v : Virtine S F)
  | releave (call : Call) (v : Virtine S F)
  | save (call : Call) (v : Virtine S F)
  -- the end: lock, `get_cache`, and `put`: reset, lock, `push_back`, unlock; unlock
  | finish (call : Call) (v : Virtine S F)
  | find (call : Call) (v : Virtine S F)
  | reset (call : Call) (v : Virtine S F)
  | put (call : Call) (v : Virtine S F)
  | push (call : Call) (v : Virtine S F)
  | pushed (call : Call)
  | exit (call : Call)
  -- an exception has left the function
  | threw

/-- What a statement does to what is shared. -/
inductive Act (S F : Type) where
  | quiet
  | lockMutex
  | unlockMutex
  | getCache (call : Call)
  | lockCache (code : BitVec 64)
  | unlockCache (code : BitVec 64)
  /-- the cache of `code` is `c` before and `c'` after -/
  | use (code : BitVec 64) (c c' : Cache S F)

namespace Stage

inductive Next : Stage S F → Act S F → Stage S F → Prop where
  | call {call} : Next .idle .quiet (.enter call)
  | enter {call} : Next (.enter call) .lockMutex (.lookup call)
  | lookup {call} : Next (.lookup call) (.getCache call) (.leave call)
  | leave {call} : Next (.leave call) .unlockMutex (.get call)
  | get {call} : Next (.get call) (.lockCache call.code) (.take call)
  | hit {call v rest} {c : Cache S F} : c.mCache = v :: rest →
      Next (.take call) (.use call.code c { c with mHits := c.mHits + 1, mCache := rest })
        (.took call v)
  | miss {call kvm v} {c c' : Cache S F} : c.mCache = [] →
      { c with mMisses := c.mMisses + 1 }.allocate kvm = (.ok v, c') →
      Next (.take call) (.use call.code c c') (.took call v)
  | throw {call kvm e} {c c' : Cache S F} : c.mCache = [] →
      { c with mMisses := c.mMisses + 1 }.allocate kvm = (.error e, c') →
      Next (.take call) (.use call.code c c') .threw
  | took {call v} : Next (.took call v) (.unlockCache call.code) (.running call v)
  -- the guest runs, and its hypercalls are served
  | run {call v v'} : Next (.running call v) .quiet (.running call v')
  | snapshot {call v} : Next (.running call v) .quiet (.snapshot call v)
  | resnapshot {call v} : Next (.snapshot call v) .lockMutex (.relookup call v)
  | relookup {call v} : Next (.relookup call v) (.getCache call) (.releave call v)
  | releave {call v} : Next (.releave call v) .unlockMutex (.save call v)
  | save {call v regions} {c : Cache S F} :
      Next (.save call v)
        (.use call.code c { c with mReset := some (v.saveResetState regions) })
        (.running call v)
  | exit {call v} : Next (.running call v) .quiet (.finish call v)
  | finish {call v} : Next (.finish call v) .lockMutex (.find call v)
  | find {call v} : Next (.find call v) (.getCache call) (.reset call v)
  | reset {call v v'} {c : Cache S F} : v.reset (v.rst c.mReset) = .ok v' →
      Next (.reset call v) (.use call.code c c) (.put call v')
  | put {call v} : Next (.put call v) (.lockCache call.code) (.push call v)
  | push {call v} {c : Cache S F} :
      Next (.push call v) (.use call.code c { c with mCache := c.mCache ++ [v] })
        (.pushed call)
  | pushed {call} : Next (.pushed call) (.unlockCache call.code) (.exit call)
  | done {call} : Next (.exit call) .unlockMutex .idle
  | caught : Next .threw .quiet .idle

/-- `virtine_cache_lock` is held. -/
def mutex : Stage S F → Bool
  | .lookup _ | .leave _ | .relookup .. | .releave .. => true
  | .find .. | .reset .. | .put .. | .push .. | .pushed _ | .exit _ => true
  | _ => false

/-- The cache whose lock is held. -/
def inside : Stage S F → Option (BitVec 64)
  | .take call | .took call _ | .push call _ | .pushed call => some call.code
  | _ => none

/-- The next statement is `virtine_cache_lock.lock()`. -/
def wantsMutex : Stage S F → Bool
  | .enter _ | .snapshot .. | .finish .. => true
  | _ => false

/-- The next statement is the lock of this cache. -/
def wants : Stage S F → Option (BitVec 64)
  | .get call | .put call _ => some call.code
  | _ => none

/-- The image whose cache has been found. -/
def known : Stage S F → Option (BitVec 64)
  | .idle | .enter _ | .lookup _ | .threw => none
  | .leave call | .get call | .take call | .took call _ | .running call _
  | .snapshot call _ | .relookup call _ | .releave call _ | .save call _
  | .finish call _ | .find call _ | .reset call _ | .put call _ | .push call _
  | .pushed call | .exit call => some call.code

end Stage

/-! ## All of them -/

/-- What the threads share. -/
structure Binding (T S F : Type) where
  caches : Caches S F
  mutex : Option T

/-- An action of thread `t`. -/
inductive Binding.Do : Binding T S F → T → Act S F → Binding T S F → Prop where
  | quiet {s t} : Do s t .quiet s
  | lockMutex {s t} : s.mutex = none → Do s t .lockMutex { s with mutex := some t }
  | unlockMutex {s t} : Do s t .unlockMutex { s with mutex := none }
  | getCache {s t call} :
      Do s t (.getCache call)
        { s with caches := s.caches.set call.code (s.caches.getCache call) }
  | lockCache {s t code c} : s.caches code = some c → c.locked = false →
      Do s t (.lockCache code) { s with caches := s.caches.set code { c with locked := true } }
  | unlockCache {s t code c} : s.caches code = some c →
      Do s t (.unlockCache code)
        { s with caches := s.caches.set code { c with locked := false } }
  | use {s t code c c'} : s.caches code = some c →
      Do s t (.use code c c') { s with caches := s.caches.set code c' }

structure Calls (T S F : Type) extends Binding T S F where
  stage : T → Stage S F

namespace Calls

/-- Before the first call. -/
def init : Calls T S F := { caches := fun _ => none, mutex := none, stage := fun _ => .idle }

/-- One statement of one thread. -/
inductive Step [DecidableEq T] : Calls T S F → T → Calls T S F → Prop where
  | mk {s : Calls T S F} {t : T} {a : Act S F} {p : Stage S F} {b : Binding T S F} :
      (s.stage t).Next a p → s.toBinding.Do t a b →
      Step s t { toBinding := b, stage := Function.update s.stage t p }

end Calls

/-- The lock of a cache is set. -/
def Caches.Locked (caches : Caches S F) (code : BitVec 64) : Prop :=
  ∃ c, caches code = some c ∧ c.locked = true

/-- The lock of a cache is set and no thread is inside to clear it. -/
def Calls.Leaked (s : Calls T S F) (code : BitVec 64) : Prop :=
  s.caches.Locked code ∧ ∀ t, (s.stage t).inside ≠ some code

section

variable {caches : Caches S F} {code : BitVec 64} {c : Cache S F}

theorem Caches.locked_iff (hc : caches code = some c) :
    caches.Locked code ↔ c.locked = true := by
  constructor
  · rintro ⟨c', hc', hl⟩
    rw [hc] at hc'
    cases hc'
    exact hl
  · exact fun hl => ⟨c, hc, hl⟩

theorem Caches.locked_set (code' : BitVec 64) :
    (caches.set code c).Locked code' ↔
      code' = code ∧ c.locked = true ∨ code' ≠ code ∧ caches.Locked code' := by
  by_cases h : code' = code
  · subst h
    rw [Caches.locked_iff (Caches.set_self _ _ _)]
    simp
  · rw [Locked, Caches.set_other h]
    simp [h, Locked]

theorem Caches.set_known (hk : caches code ≠ none) {code' : BitVec 64} {c : Cache S F} :
    caches.set code' c code ≠ none := by
  by_cases h : code = code'
  · simp [h]
  · rwa [Caches.set_other h]

/-- A statement that leaves the lock of the cache. -/
theorem Caches.locked_set_same {c' : Cache S F} (hc : caches code = some c)
    (hl : c'.locked = c.locked) (code' : BitVec 64) :
    (caches.set code c').Locked code' ↔ caches.Locked code' := by
  rw [Caches.locked_set, hl, ← Caches.locked_iff hc]
  by_cases h : code' = code
  · simp [h]
  · simp [h]

/-- A cache that is made by `get_cache` is not locked. -/
theorem Caches.locked_getCache (call : Call) (code' : BitVec 64) :
    (caches.set call.code (caches.getCache call)).Locked code' ↔ caches.Locked code' := by
  cases hc : caches call.code with
  | some c =>
      refine Caches.locked_set_same hc ?_ code'
      rw [Caches.getCache, hc]
  | none =>
      have hnew : (caches.getCache call).locked = false := by
        rw [Caches.getCache, hc]
        rfl
      rw [Caches.locked_set, hnew]
      by_cases h : code' = call.code
      · simp [h, Locked, hc]
      · simp [h]

end

/-! ## What a statement does to the locks -/

/-- How the stages before and after an action stand to the locks. -/
inductive Act.Locks (p p' : Stage S F) : Act S F → Prop where
  | quiet : p'.mutex = p.mutex → p'.inside = p.inside → p'.known = p.known ∨ p'.known = none →
      Locks p p' .quiet
  | lockMutex : p.mutex = false → p'.mutex = true → p'.inside = p.inside →
      p'.known = p.known → Locks p p' .lockMutex
  | unlockMutex : p.mutex = true → p'.mutex = false → p'.inside = p.inside →
      p'.known = p.known ∨ p'.known = none → Locks p p' .unlockMutex
  | getCache {call} : p'.mutex = p.mutex → p'.inside = p.inside →
      p'.known = some call.code → Locks p p' (.getCache call)
  | lockCache {code} : p'.mutex = p.mutex → p.inside = none → p'.inside = some code →
      p'.known = p.known → Locks p p' (.lockCache code)
  | unlockCache {code} : p'.mutex = p.mutex → p.inside = some code → p'.inside = none →
      p'.known = p.known → Locks p p' (.unlockCache code)
  | use {code c c'} : c'.locked = c.locked → p'.mutex = p.mutex → p'.inside = p.inside →
      p'.known = p.known → Locks p p' (.use code c c')
  | throw {code c c'} : c'.locked = c.locked → p'.mutex = p.mutex → p.inside = some code →
      p' = .threw → Locks p p' (.use code c c')

theorem Cache.allocate_locked {c c' : Cache S F} {kvm : Kvm S F}
    {r : Except Fault (Virtine S F)} (h : c.allocate kvm = (r, c')) :
    c'.locked = c.locked := by
  unfold Cache.allocate at h
  split at h
  · cases h
    rfl
  · simp only at h
    split at h <;> cases h <;> rfl

theorem Stage.Next.locks {p p' : Stage S F} {a : Act S F} (h : p.Next a p') :
    a.Locks p p' := by
  cases h with
  | call | run | snapshot | exit | caught => exact .quiet rfl rfl (.inl rfl)
  | enter | resnapshot | finish => exact .lockMutex rfl rfl rfl rfl
  | leave | releave => exact .unlockMutex rfl rfl rfl (.inl rfl)
  | done => exact .unlockMutex rfl rfl rfl (.inr rfl)
  | lookup | relookup | find => exact .getCache rfl rfl rfl
  | get | put => exact .lockCache rfl rfl rfl rfl
  | took | pushed => exact .unlockCache rfl rfl rfl rfl
  | hit _ | save | reset _ | push => exact .use rfl rfl rfl rfl
  | miss _ ha =>
      have hlocked := Cache.allocate_locked ha
      exact .use hlocked rfl rfl rfl
  | throw _ ha =>
      have hlocked := Cache.allocate_locked ha
      exact .throw hlocked rfl rfl rfl

/-! ## The invariant -/

namespace Calls

structure Inv (s : Calls T S F) : Prop where
  mutex : ∀ t, (s.stage t).mutex = true ↔ s.mutex = some t
  locked : ∀ t code, (s.stage t).inside = some code → s.caches.Locked code
  alone : ∀ t u code, (s.stage t).inside = some code → (s.stage u).inside = some code → t = u
  known : ∀ t code, (s.stage t).known = some code → s.caches code ≠ none

theorem inv_init : (init : Calls T S F).Inv where
  mutex _ := ⟨nofun, nofun⟩
  locked _ _ h := by cases h
  alone _ _ _ h := by cases h
  known _ _ h := by cases h

/-- A found cache stays. -/
theorem Do.known {s s' : Binding T S F} {t : T} {a : Act S F} (h : s.Do t a s')
    {code : BitVec 64} (hk : s.caches code ≠ none) : s'.caches code ≠ none := by
  cases h with
  | quiet | lockMutex _ | unlockMutex => exact hk
  | getCache | lockCache _ _ | unlockCache _ | use _ => exact Caches.set_known hk

section

variable [DecidableEq T] {s s' : Calls T S F} {t : T}

theorem Step.other (h : s.Step t s') {u : T} (hu : u ≠ t) : s'.stage u = s.stage u := by
  cases h with
  | mk hnext hdo => exact Function.update_of_ne hu _ _

theorem Step.known (h : s.Step t s') (hI : s.Inv) (u : T) (code : BitVec 64)
    (hu : (s'.stage u).known = some code) : s'.caches code ≠ none := by
  by_cases hut : u = t
  · subst hut
    cases h with
    | @mk a p b hnext hdo =>
        simp only [Function.update_self] at hu
        have hkeep : p.known = (s.stage u).known → b.caches code ≠ none := fun hk =>
          Do.known hdo (hI.known u code (hk ▸ hu))
        cases hnext.locks with
        | quiet _ _ hk | unlockMutex _ _ _ hk =>
            rcases hk with hk | hk
            · exact hkeep hk
            · rw [hk] at hu
              cases hu
        | lockMutex _ _ _ hk | lockCache _ _ _ hk | unlockCache _ _ _ hk | use _ _ _ hk =>
            exact hkeep hk
        | throw _ _ _ hp =>
            rw [hp] at hu
            cases hu
        | getCache _ _ hk =>
            rw [hk] at hu
            cases hu
            cases hdo with
            | getCache =>
                show s.caches.set _ _ _ ≠ none
                rw [Caches.set_self]
                exact nofun
  · rw [h.other hut] at hu
    cases h with
    | mk _ hdo => exact Do.known hdo (hI.known u code hu)

/-- **What a step does to the mutex.** -/
theorem Step.mutex_cases (h : s.Step t s') :
    ((s'.stage t).mutex = (s.stage t).mutex ∧ s'.mutex = s.mutex) ∨
      ((s'.stage t).mutex = true ∧ s.mutex = none ∧ s'.mutex = some t) ∨
      ((s.stage t).mutex = true ∧ (s'.stage t).mutex = false ∧ s'.mutex = none) := by
  cases h with
  | mk hnext hdo =>
      simp only [Function.update_self]
      cases hnext.locks with
      | quiet hm _ _ =>
          cases hdo
          exact .inl ⟨hm, rfl⟩
      | lockMutex hfalse htrue _ _ =>
          cases hdo with
          | lockMutex hfree => exact .inr (.inl ⟨htrue, hfree, rfl⟩)
      | unlockMutex htrue hfalse _ _ =>
          cases hdo
          exact .inr (.inr ⟨htrue, hfalse, rfl⟩)
      | getCache hm _ _ | lockCache hm _ _ _ | unlockCache hm _ _ _ =>
          cases hdo
          exact .inl ⟨hm, rfl⟩
      | use _ hm _ _ | throw _ hm _ _ =>
          cases hdo
          exact .inl ⟨hm, rfl⟩

/-- **What a step does to the locks of the caches.** -/
theorem Step.lock_cases (h : s.Step t s') :
    ((s'.stage t).inside = (s.stage t).inside ∧
        ∀ code, s'.caches.Locked code ↔ s.caches.Locked code) ∨
      (∃ code, ¬ s.caches.Locked code ∧ (s.stage t).inside = none ∧
        (s'.stage t).inside = some code ∧
        ∀ code', s'.caches.Locked code' ↔ code' = code ∨ s.caches.Locked code') ∨
      (∃ code, (s.stage t).inside = some code ∧ (s'.stage t).inside = none ∧
        ∀ code', s'.caches.Locked code' ↔ code' ≠ code ∧ s.caches.Locked code') ∨
      (∃ code, (s.stage t).inside = some code ∧ s'.stage t = .threw ∧
        ∀ code', s'.caches.Locked code' ↔ s.caches.Locked code') := by
  cases h with
  | mk hnext hdo =>
      simp only [Function.update_self]
      cases hnext.locks with
      | quiet _ hi _ | lockMutex _ _ hi _ | unlockMutex _ _ hi _ =>
          cases hdo
          exact .inl ⟨hi, fun _ => .rfl⟩
      | getCache _ hi _ =>
          cases hdo
          exact .inl ⟨hi, Caches.locked_getCache _⟩
      | use hl _ hi _ =>
          cases hdo with
          | use hc => exact .inl ⟨hi, Caches.locked_set_same hc hl⟩
      | @lockCache code _ hnone hsome _ =>
          cases hdo with
          | lockCache hc hl =>
              refine .inr (.inl ⟨code, ?_, hnone, hsome, fun code' => ?_⟩)
              · rw [Caches.locked_iff hc, hl]
                exact nofun
              · rw [Caches.locked_set]
                by_cases hcode : code' = code
                · simp [hcode]
                · simp [hcode]
      | unlockCache _ hsome hnone _ =>
          cases hdo with
          | unlockCache hc =>
              refine .inr (.inr (.inl ⟨_, hsome, hnone, fun code' => ?_⟩))
              rw [Caches.locked_set]
              simp
      | throw hl _ hsome hp =>
          cases hdo with
          | use hc =>
              exact .inr (.inr (.inr ⟨_, hsome, hp, Caches.locked_set_same hc hl⟩))

/-- Where the thread that moved is, no other is. -/
theorem Step.enters_alone (h : s.Step t s') (hI : s.Inv) {u : T} (hu : u ≠ t)
    {code : BitVec 64} (ht : (s'.stage t).inside = some code) :
    (s'.stage u).inside ≠ some code := by
  rw [h.other hu]
  intro hin
  rcases h.lock_cases with ⟨hi, -⟩ | ⟨c, hfree, -, hi, -⟩ | ⟨c, -, hi, -⟩ | ⟨c, -, hp, -⟩
  · exact hu (hI.alone u t code hin (hi ▸ ht))
  · rw [hi] at ht
    cases ht
    exact hfree (hI.locked u code hin)
  · rw [hi] at ht
    cases ht
  · rw [hp] at ht
    cases ht

/-- **The invariant step.** -/
theorem Step.inv (h : s.Step t s') (hI : s.Inv) : s'.Inv where
  known := h.known hI
  mutex u := by
    by_cases hut : u = t
    · subst hut
      rcases h.mutex_cases with ⟨hp, hm⟩ | ⟨hp, -, hm⟩ | ⟨-, hp, hm⟩
      · rw [hp, hm]
        exact hI.mutex u
      · simp [hp, hm]
      · simp [hp, hm]
    · rw [h.other hut, hI.mutex u]
      rcases h.mutex_cases with ⟨-, hm⟩ | ⟨-, hfree, hm⟩ | ⟨hp, -, hm⟩
      · rw [hm]
      · simp [hfree, hm, Ne.symm hut]
      · rw [hm, (hI.mutex t).mp hp]
        simp [Ne.symm hut]
  locked u code hu := by
    by_cases hut : u = t
    · subst hut
      rcases h.lock_cases with ⟨hi, hl⟩ | ⟨c, -, -, hi, hl⟩ | ⟨c, -, hi, -⟩ | ⟨c, -, hp, -⟩
      · exact (hl code).mpr (hI.locked u code (hi ▸ hu))
      · rw [hi] at hu
        cases hu
        exact (hl code).mpr (.inl rfl)
      · rw [hi] at hu
        cases hu
      · rw [hp] at hu
        cases hu
    · rw [h.other hut] at hu
      have hold := hI.locked u code hu
      rcases h.lock_cases with ⟨-, hl⟩ | ⟨c, -, -, -, hl⟩ | ⟨c, hin, -, hl⟩ | ⟨c, -, -, hl⟩
      · exact (hl code).mpr hold
      · exact (hl code).mpr (.inr hold)
      · refine (hl code).mpr ⟨fun hc => hut (hI.alone u t c (hc ▸ hu) hin), hold⟩
      · exact (hl code).mpr hold
  alone u w code hu hw := by
    by_cases hut : u = t
    · by_cases hwt : w = t
      · rw [hut, hwt]
      · rw [hut] at hu
        exact absurd hw (h.enters_alone hI hwt hu)
    · by_cases hwt : w = t
      · rw [hwt] at hw
        exact absurd hu (h.enters_alone hI hut hw)
      · rw [h.other hut] at hu
        rw [h.other hwt] at hw
        exact hI.alone u w code hu hw

end

/-! ## No deadlock -/

/-- The locks a thread holds: `none` is `virtine_cache_lock`. -/
def Holds (s : Calls T S F) (t : T) : Option (BitVec 64) → Prop
  | none => (s.stage t).mutex = true
  | some code => (s.stage t).inside = some code

/-- The lock a thread finds taken. -/
def Waits (s : Calls T S F) (t : T) : Option (BitVec 64) → Prop
  | none => (s.stage t).wantsMutex = true ∧ s.mutex ≠ none
  | some code => (s.stage t).wants = some code ∧ s.caches.Locked code

/-- `virtine_cache_lock` comes before the locks of the caches. -/
def rank : Option (BitVec 64) → Nat
  | none => 0
  | some _ => 1

theorem lock_order {s : Calls T S F} {t : T} {l l' : Option (BitVec 64)} (hh : s.Holds t l)
    (hw : s.Waits t l') : rank l < rank l' := by
  cases l with
  | none =>
      cases l' with
      | none =>
          obtain ⟨hw, -⟩ := hw
          unfold Holds at hh
          cases hp : s.stage t <;> simp [hp, Stage.mutex, Stage.wantsMutex] at hh hw
      | some _ => exact Nat.zero_lt_one
  | some code =>
      exfalso
      unfold Holds at hh
      cases l' with
      | none =>
          obtain ⟨hw, -⟩ := hw
          cases hp : s.stage t <;> simp [hp, Stage.inside, Stage.wantsMutex] at hh hw
      | some code' =>
          obtain ⟨hw, -⟩ := hw
          cases hp : s.stage t <;> simp [hp, Stage.inside, Stage.wants] at hh hw

/-- The copies of `reset` go through a null pointer: the process dies. -/
def Dies (b : Binding T S F) (p : Stage S F) : Prop :=
  ∃ call v c e, p = .reset call v ∧ b.caches call.code = some c ∧
    v.reset (v.rst c.mReset) = .error e

/-- A statement whose lock is free can be executed. -/
theorem exists_next [Nonempty (Kvm S F)] {b : Binding T S F} (t : T) {p : Stage S F}
    (hp : p ≠ .idle) (hmutex : p.wantsMutex = true → b.mutex = none)
    (hcache : ∀ code, p.known = some code → ∃ c, b.caches code = some c)
    (hlock : ∀ code c, p.wants = some code → b.caches code = some c → c.locked = false) :
    (∃ a p' b', p.Next a p' ∧ b.Do t a b') ∨ Dies b p := by
  cases p with
  | idle => exact absurd rfl hp
  | enter call => exact .inl ⟨_, _, _, .enter, .lockMutex (hmutex rfl)⟩
  | snapshot call v => exact .inl ⟨_, _, _, .resnapshot, .lockMutex (hmutex rfl)⟩
  | finish call v => exact .inl ⟨_, _, _, .finish, .lockMutex (hmutex rfl)⟩
  | lookup call => exact .inl ⟨_, _, _, .lookup, .getCache⟩
  | relookup call v => exact .inl ⟨_, _, _, .relookup, .getCache⟩
  | find call v => exact .inl ⟨_, _, _, .find, .getCache⟩
  | leave call => exact .inl ⟨_, _, _, .leave, .unlockMutex⟩
  | releave call v => exact .inl ⟨_, _, _, .releave, .unlockMutex⟩
  | exit call => exact .inl ⟨_, _, _, .done, .unlockMutex⟩
  | running call v => exact .inl ⟨_, _, _, .exit, .quiet⟩
  | threw => exact .inl ⟨_, _, _, .caught, .quiet⟩
  | get call =>
      obtain ⟨c, hc⟩ := hcache _ rfl
      exact .inl ⟨_, _, _, .get, .lockCache hc (hlock _ c rfl hc)⟩
  | put call v =>
      obtain ⟨c, hc⟩ := hcache _ rfl
      exact .inl ⟨_, _, _, .put, .lockCache hc (hlock _ c rfl hc)⟩
  | took call v =>
      obtain ⟨c, hc⟩ := hcache _ rfl
      exact .inl ⟨_, _, _, .took, .unlockCache hc⟩
  | pushed call =>
      obtain ⟨c, hc⟩ := hcache _ rfl
      exact .inl ⟨_, _, _, .pushed, .unlockCache hc⟩
  | push call v =>
      obtain ⟨c, hc⟩ := hcache _ rfl
      exact .inl ⟨_, _, _, .push, .use hc⟩
  | save call v =>
      obtain ⟨c, hc⟩ := hcache _ rfl
      exact .inl ⟨_, _, _, @Stage.Next.save _ _ call v [] c, .use hc⟩
  | take call =>
      obtain ⟨c, hc⟩ := hcache _ rfl
      cases hpool : c.mCache with
      | cons v rest => exact .inl ⟨_, _, _, .hit hpool, .use hc⟩
      | nil =>
          have kvm : Kvm S F := Classical.choice ‹_›
          cases hal : { c with mMisses := c.mMisses + 1 }.allocate kvm with
          | mk r c' =>
              cases r with
              | ok v => exact .inl ⟨_, _, _, .miss hpool hal, .use hc⟩
              | error e => exact .inl ⟨_, _, _, .throw hpool hal, .use hc⟩
  | reset call v =>
      obtain ⟨c, hc⟩ := hcache _ rfl
      cases hr : v.reset (v.rst c.mReset) with
      | ok v' => exact .inl ⟨_, _, _, .reset hr, .use hc⟩
      | error e => exact .inr ⟨call, v, c, e, rfl, hc, hr⟩

theorem step_of_free [DecidableEq T] [Nonempty (Kvm S F)] {s : Calls T S F} (hI : s.Inv)
    {t : T} (ht : s.stage t ≠ .idle) (hfree : ∀ l, ¬ s.Waits t l) :
    (∃ s', s.Step t s') ∨ Dies s.toBinding (s.stage t) := by
  have hnext := exists_next (b := s.toBinding) t ht ?_ ?_ ?_
  · rcases hnext with ⟨a, p, b, hn, hd⟩ | hdies
    · exact .inl ⟨_, .mk hn hd⟩
    · exact .inr hdies
  · intro hw
    cases hm : s.mutex with
    | none => rfl
    | some u => exact absurd ⟨hw, by rw [hm]; exact nofun⟩ (hfree none)
  · intro code hk
    cases hc : s.caches code with
    | none => exact absurd hc (hI.known t code hk)
    | some c => exact ⟨c, rfl⟩
  · intro code c hw hc
    cases hl : c.locked with
    | false => rfl
    | true => exact absurd ⟨hw, c, hc, hl⟩ (hfree (some code))

theorem exists_free_caller {s : Calls T S F} (hI : s.Inv) (hleak : ∀ code, ¬ s.Leaked code)
    {t : T} (ht : s.stage t ≠ .idle) : ∃ u, s.stage u ≠ .idle ∧ ∀ l, ¬ s.Waits u l := by
  have hheld : ∀ t l, s.Waits t l → ∃ u, s.Holds u l := by
    intro t l hw
    cases l with
    | none =>
        obtain ⟨-, hm⟩ := hw
        cases hu : s.mutex with
        | none => exact absurd hu hm
        | some u => exact ⟨u, (hI.mutex u).mpr hu⟩
    | some code =>
        by_contra hnone
        exact hleak code ⟨hw.2, fun u hu => hnone ⟨u, hu⟩⟩
  have hbound : ∀ l, rank l ≤ 1 := fun l => by cases l <;> simp [rank]
  have horder : ∀ t l l', s.Holds t l → s.Waits t l' → rank l < rank l' :=
    fun _ _ _ => lock_order
  obtain ⟨u, hpath, hu⟩ := LockOrder.exists_free hbound horder hheld t
  refine ⟨u, ?_, hu⟩
  -- the last one holds a lock that another waits for, or is the first one
  rcases Relation.ReflTransGen.cases_tail hpath with rfl | ⟨w, -, l, -, hholds⟩
  · exact ht
  · intro hidle
    cases l <;> simp [Holds, hidle, Stage.mutex, Stage.inside] at hholds

section

variable [DecidableEq T] {s s' : Calls T S F} {t : T}

/-- Only an exception leaks a lock. -/
theorem Step.no_leak (h : s.Step t s') (hp : s'.stage t ≠ .threw)
    (hheld : ∀ code, s.caches.Locked code → ∃ u, (s.stage u).inside = some code) :
    ∀ code, s'.caches.Locked code → ∃ u, (s'.stage u).inside = some code := by
  intro code hlocked
  -- the old holder is still there unless it is the thread that moved
  have hkeep : ∀ u, (s.stage u).inside = some code →
      (u = t → (s'.stage t).inside = some code) → ∃ u, (s'.stage u).inside = some code := by
    intro u hu hself
    by_cases hut : u = t
    · exact ⟨t, hself hut⟩
    · exact ⟨u, by rw [h.other hut]; exact hu⟩
  rcases h.lock_cases with ⟨hi, hl⟩ | ⟨c, -, hnone, hi, hl⟩ | ⟨c, hin, -, hl⟩ | ⟨c, -, ht, -⟩
  · obtain ⟨u, hu⟩ := hheld code ((hl code).mp hlocked)
    exact hkeep u hu fun hut => by rw [hi, ← hut]; exact hu
  · rcases (hl code).mp hlocked with rfl | hold
    · exact ⟨t, hi⟩
    · obtain ⟨u, hu⟩ := hheld code hold
      refine hkeep u hu fun hut => ?_
      rw [hut, hnone] at hu
      cases hu
  · obtain ⟨hne, hold⟩ := (hl code).mp hlocked
    obtain ⟨u, hu⟩ := hheld code hold
    refine hkeep u hu fun hut => ?_
    rw [hut, hin] at hu
    cases hu
    exact absurd rfl hne
  · exact absurd ht hp

theorem reachable_inv {ts : List T} (h : Run Step (init : Calls T S F) ts s) : s.Inv :=
  h.invariant (fun _ _ _ hs hst => hst.inv hs) inv_init

/-- **No deadlock.** As long as no exception has left `wasp_run_virtine`,
whenever a thread is in a call some thread in a call can go on. -/
theorem calls_never_deadlock [Nonempty (Kvm S F)] {ts : List T}
    (h : Run (Meeting (fun _ t s' => s'.stage t ≠ .threw) Step) (init : Calls T S F) ts s)
    (ht : s.stage t ≠ .idle) :
    ∃ u, s.stage u ≠ .idle ∧
      ((∃ s', s.Step u s') ∨ Dies s.toBinding (s.stage u)) := by
  obtain ⟨hI, hheld⟩ := h.invariant
    (I := fun s => s.Inv ∧
      ∀ code, s.caches.Locked code → ∃ u, (s.stage u).inside = some code)
    (fun _ _ _ hs hst => ⟨hst.1.inv hs.1, hst.1.no_leak hst.2 hs.2⟩)
    ⟨inv_init, fun code hl => by obtain ⟨c, hc, -⟩ := hl; cases hc⟩
  have hleak : ∀ code, ¬ s.Leaked code := by
    rintro code ⟨hl, hnone⟩
    obtain ⟨u, hu⟩ := hheld code hl
    exact hnone u hu
  obtain ⟨u, hu, hfree⟩ := exists_free_caller hI hleak ht
  exact ⟨u, hu, step_of_free hI hu hfree⟩

end

/-! ## The lock that is never cleared -/

/-- A thread in `put` waits, with `virtine_cache_lock`, for a lock that
nobody will clear. -/
structure Wedged (s : Calls T S F) (t : T) (call : Call) (v : Virtine S F) : Prop where
  inv : s.Inv
  putting : s.stage t = .put call v
  leaked : s.Leaked call.code

theorem Wedged.mutex {s : Calls T S F} {t : T} {call : Call} {v : Virtine S F}
    (hw : s.Wedged t call v) : s.mutex = some t :=
  (hw.inv.mutex t).mp (by rw [hw.putting]; rfl)

section

variable [DecidableEq T] {s s' : Calls T S F} {t : T}

/-- A thread takes a free mutex or does not move. -/
theorem Step.mutex_free (h : s.Step t s') (hw : (s.stage t).wantsMutex = true) :
    s.mutex = none := by
  cases h with
  | mk hnext hdo =>
      generalize s.stage t = p at hnext hw
      cases hnext <;> cases hw
      all_goals
        cases hdo with
        | lockMutex hfree => exact hfree

/-- A thread takes a free lock of a cache or does not move. -/
theorem Step.lock_free (h : s.Step t s') {code : BitVec 64}
    (hw : (s.stage t).wants = some code) : ¬ s.caches.Locked code := by
  cases h with
  | mk hnext hdo =>
      generalize s.stage t = p at hnext hw
      cases hnext <;> cases hw
      all_goals
        cases hdo with
        | lockCache hc hl =>
            rw [Caches.locked_iff hc, hl]
            exact nofun

theorem Wedged.step {call : Call} {v : Virtine S F} {u : T} (hw : s.Wedged t call v)
    (h : s.Step u s') : s'.Wedged t call v := by
  obtain ⟨hlocked, houtside⟩ := hw.leaked
  have hut : t ≠ u := by
    rintro rfl
    exact h.lock_free (by rw [hw.putting]; rfl) hlocked
  -- the thread that moved is not in the section either
  have hkeep : s'.caches.Locked call.code → (s'.stage u).inside ≠ some call.code →
      s'.Wedged t call v := by
    intro hl hu
    refine ⟨h.inv hw.inv, by rw [h.other hut, hw.putting], hl, fun w => ?_⟩
    by_cases hwu : w = u
    · rw [hwu]
      exact hu
    · rw [h.other hwu]
      exact houtside w
  rcases h.lock_cases with ⟨hi, hl⟩ | ⟨c, hfree, -, hi, hl⟩ | ⟨c, hin, hi, hl⟩ | ⟨c, -, hp, hl⟩
  · exact hkeep ((hl _).mpr hlocked) (by rw [hi]; exact houtside u)
  · refine hkeep ((hl _).mpr (.inr hlocked)) fun hu => ?_
    rw [hi] at hu
    cases hu
    exact hfree hlocked
  · refine hkeep ((hl _).mpr ⟨fun hc => ?_, hlocked⟩) (by rw [hi]; exact nofun)
    exact houtside u (hc ▸ hin)
  · exact hkeep ((hl _).mpr hlocked) (by rw [hp]; exact nofun)

/-- Who wants the mutex does not get it. -/
theorem Wedged.stays {call : Call} {v : Virtine S F} {u w : T} (hw : s.Wedged t call v)
    (h : s.Step u s') (hwants : (s.stage w).wantsMutex = true) : s'.stage w = s.stage w := by
  refine h.other fun hwu => ?_
  subst hwu
  have hfree := h.mutex_free hwants
  rw [hw.mutex] at hfree
  cases hfree

/-- **A lock that is never cleared stops everything.** If an exception has
left a cache locked, a call that ends with a virtine of that cache keeps
`virtine_cache_lock` for ever: every thread that comes to it, with a new call
or at the end of one, stays there, and no call returns. -/
theorem leaked_lock_stops_calls {ts ts' : List T} {call : Call} {v : Virtine S F}
    (h : Run Step (init : Calls T S F) ts s) (hput : s.stage t = .put call v)
    (hleak : s.Leaked call.code) (h' : Run Step s ts' s') :
    s'.mutex = some t ∧ s'.stage t = .put call v ∧
      (∀ u, (s.stage u).wantsMutex = true → s'.stage u = s.stage u) ∧
      ∀ u call', s'.stage u ≠ .exit call' := by
  have hw : s.Wedged t call v := ⟨reachable_inv h, hput, hleak⟩
  obtain ⟨hw', hstay⟩ := h'.invariant
    (I := fun s' => s'.Wedged t call v ∧
      ∀ u, (s.stage u).wantsMutex = true → s'.stage u = s.stage u)
    (fun _ _ _ hs hst => ⟨hs.1.step hst, fun w hwants => by
      rw [hs.1.stays hst (by rw [hs.2 w hwants]; exact hwants), hs.2 w hwants]⟩)
    ⟨hw, fun _ _ => rfl⟩
  refine ⟨hw'.mutex, hw'.putting, hstay, fun u call' hu => ?_⟩
  have hheld : s'.mutex = some u := (hw'.inv.mutex u).mp (by rw [hu]; rfl)
  rw [hw'.mutex] at hheld
  cases hheld
  rw [hw'.putting] at hu
  cases hu

end

/-! ## Two threads -/

def shortCall : Call :=
  { code := 0x1000, image := fun _ => 0x90, codesz := 16, memsz := 0x10000, arg := none,
    argsz := 0, config := none }

/-- `/dev/kvm` cannot be opened. -/
def noKvm : Kvm Unit Unit := { plainKvm with kvmfd := -1 }

/-- One thread has the mutex and another one waits for it. -/
theorem two_calls_go_on : ∃ s : Calls Bool Unit Unit, s.Holds true none ∧ s.Waits false none ∧
    ∃ u, s.stage u ≠ .idle ∧ ((∃ s', s.Step u s') ∨ Dies s.toBinding (s.stage u)) := by
  have hkvm : Nonempty (Kvm Unit Unit) := ⟨plainKvm⟩
  obtain ⟨s, hrun, htrue, hfalse⟩ : ∃ s : Calls Bool Unit Unit,
      Run (Meeting (fun _ t s' => s'.stage t ≠ .threw) Step) init [true, true, false] s ∧
        s.Holds true none ∧ s.Waits false none :=
    ⟨_, .cons ⟨.mk (@Stage.Next.call _ _ shortCall) .quiet, nofun⟩ <|
      .cons ⟨.mk .enter (.lockMutex rfl), nofun⟩ <|
      .cons ⟨.mk (@Stage.Next.call _ _ shortCall) .quiet, nofun⟩ <| .nil _, rfl, rfl, nofun⟩
  refine ⟨s, htrue, hfalse, calls_never_deadlock (t := true) hrun fun hidle => ?_⟩
  rw [Holds, hidle] at htrue
  cases htrue

/-- One thread runs a virtine while another fails to allocate one; then the
first one comes to `put`. -/
theorem failed_allocation_stops_calls : ∃ (ts : List Bool) (s : Calls Bool Unit Unit),
    Run Step init ts s ∧ ∀ ts' s', Run Step s ts' s' → s'.mutex = some true ∧
      ∀ u call, s'.stage u ≠ .exit call := by
  obtain ⟨s, v, hrun, hput, hleak⟩ : ∃ (s : Calls Bool Unit Unit) (v : Virtine Unit Unit),
      Run Step init [true, true, true, true, true, true, true,
        false, false, false, false, false, false, true, true, true, true] s ∧
        s.stage true = .put shortCall v ∧ s.Leaked shortCall.code := by
    refine ⟨_, _, .cons (.mk (@Stage.Next.call _ _ shortCall) .quiet) <|
      .cons (.mk .enter (.lockMutex rfl)) <| .cons (.mk .lookup .getCache) <|
      .cons (.mk .leave .unlockMutex) <| .cons (.mk .get (.lockCache rfl rfl)) <|
      .cons (.mk (@Stage.Next.miss _ _ _ plainKvm _ _ _ rfl rfl) (.use rfl)) <|
      .cons (.mk .took (.unlockCache rfl)) <|
      .cons (.mk (@Stage.Next.call _ _ shortCall) .quiet) <|
      .cons (.mk .enter (.lockMutex rfl)) <| .cons (.mk .lookup .getCache) <|
      .cons (.mk .leave .unlockMutex) <| .cons (.mk .get (.lockCache rfl rfl)) <|
      .cons (.mk (@Stage.Next.throw _ _ _ noKvm _ _ _ rfl rfl) (.use rfl)) <|
      .cons (.mk .exit .quiet) <| .cons (.mk .finish (.lockMutex rfl)) <|
      .cons (.mk .find .getCache) <| .cons (.mk (.reset rfl) (.use rfl)) <| .nil _, rfl,
      ⟨_, rfl, rfl⟩, fun t => ?_⟩
    cases t <;> exact nofun
  exact ⟨_, s, hrun, fun ts' s' hrun' => by
    obtain ⟨hm, -, -, hexit⟩ := leaked_lock_stops_calls hrun hput hleak hrun'
    exact ⟨hm, hexit⟩⟩

end Calls

end Wasp
