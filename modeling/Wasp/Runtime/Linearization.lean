import Mathlib.Data.List.Basic
import Wasp.Runtime.Spinlock

/-!
# Linearization — the calls of the threads happen one at a time

`Spinlock` runs `get`, `put` and `ensure` statement by statement. Here the
same threads use a cache whose calls happen at once (`Atomic`): each call
is the function of `Cache`, applied to the cache as it stands. Every
interleaving of the statements is such a sequence of calls. A call takes
effect at one of its own statements, between its first and its last: a
`get` where it allocates or pops, a `put` where it pushes, an `ensure`
where its loop ends.

The reset state is not under the lock. A snapshot between the reset and
the `push_back` of a `put`, or in the middle of an `ensure`, is seen by
half of the call; `Calm` is what excludes that and nothing more.
-/

namespace Wasp

variable {T S F : Type}

/-- The calls, and the run of a virtine between them. -/
inductive Task.Op where
  | get
  | put
  | ensure (count : BitVec 32)
  | run

/-- A cache and what its users hold, with calls that happen at once. -/
structure Atomic (T S F : Type) where
  cache : Cache S F
  held : T → List (Virtine S F)

namespace Atomic

def init (memsz size start : BitVec 64) (binary : Option (Nat → UInt8)) : Atomic T S F :=
  { cache := { Cache.new memsz size start with mBinary := binary }, held := fun _ => [] }

variable [DecidableEq T]

inductive Step : Atomic T S F → T × Task.Op → Atomic T S F → Prop where
  | get {a t} {kvm : Kvm S F} {v : Virtine S F} {c : Cache S F} :
      a.cache.get kvm = (.ok v, c) →
      Step a (t, .get) ⟨c, Function.update a.held t (v :: a.held t)⟩
  | put {a t} {pre post : List (Virtine S F)} {v : Virtine S F} {c : Cache S F} :
      a.held t = pre ++ v :: post → a.cache.put v = (.ok (), c) →
      Step a (t, .put) ⟨c, Function.update a.held t (pre ++ post)⟩
  | ensure {a t} {kvm : Nat → Kvm S F} {count : BitVec 32} {c : Cache S F} :
      a.cache.ensure kvm count = (.ok (), c) → Step a (t, .ensure count) ⟨c, a.held⟩
  | run {a t} {pre post : List (Virtine S F)} {v v' : Virtine S F} {r : ResetState S F} :
      a.held t = pre ++ v :: post →
      Step a (t, .run) ⟨{ a.cache with mReset := some r },
        Function.update a.held t (pre ++ v' :: post)⟩

/-- What the atomic cache does at a statement of `t`: nothing, or one call
of `t`. -/
def Follows (a : Atomic T S F) (t : T) (o : Option Task.Op) (a' : Atomic T S F) : Prop :=
  match o with
  | none => a' = a
  | some op => Step a (t, op) a'

/-- The lock is free between calls, and a virtine is somewhere only once
the cache has a reset state. -/
structure Inv (a : Atomic T S F) : Prop where
  unlocked : a.cache.locked = false
  armed : a.cache.mReset = none → a.cache.mCache = [] ∧ ∀ t, a.held t = []

end Atomic

namespace Pc

/-- The call that takes effect where a thread goes from one statement to
another. Every call goes once to its `unlock`. -/
def effect : Pc S F → Pc S F → Option Task.Op
  | .idle, .idle => some .run
  | .allocate, .unlock => some .get
  | .pop _ _, .unlock => some .get
  | .enter (.put _), .unlock => some .put
  | .enter (.ensure count), .unlock => some (.ensure count)
  | _, _ => none

/-- Between the reset of a `put` and its `push_back`: the virtine. -/
def pending : Pc S F → Option Nat
  | .lock (.put i) | .spin (.put i) | .enter (.put i) => some i
  | _ => none

/-- In the loop of `ensure`. -/
def filling : Pc S F → Bool
  | .enter (.ensure _) | .grow _ | .push _ _ _ => true
  | _ => false

end Pc

namespace Threads

variable [DecidableEq T]

/-- Steps where a snapshot is taken, if at all, while no call is between
the statements that read the reset state and the one that ends its work. -/
def Calm (s : Threads T S F) (t : T) (s' : Threads T S F) : Prop :=
  Step s t s' ∧ (s.pc t = .idle → s'.cache.mReset ≠ s.cache.mReset →
    s'.cache.mReset ≠ none ∧ ∀ u, (s.pc u).pending = none ∧ (s.pc u).filling = false)

/-- The threads, with the atomic cache beside them: it makes a call of `t`
at the statement of `t` where that call takes effect. -/
def Linear : Threads T S F × Atomic T S F → T → Threads T S F × Atomic T S F → Prop :=
  Run.Beside Calm fun s t s' a a' => a.Follows t ((s.pc t).effect (s'.pc t)) a'

end Threads

/-! ## The loop of `ensure`, from its end -/

/-- `c'` is `c` after `k` turns of the loop of `ensure`. -/
inductive Cache.Grows (c : Cache S F) : Nat → Cache S F → Prop where
  | zero : Grows c 0 c
  | succ {k : Nat} {c1 c2 : Cache S F} {kvm : Kvm S F} {v : Virtine S F} :
      Grows c k c1 → c1.allocate kvm = (.ok v, c2) →
      Grows c (k + 1) { c2 with mCache := v :: c2.mCache }

namespace Cache

theorem ensureLoop_snoc {kvm : Nat → Kvm S F} {k : Nat} {c c1 c2 : Cache S F} {last : Kvm S F}
    {v : Virtine S F} (h : ensureLoop kvm k c = (.ok (), c1))
    (ha : c1.allocate last = (.ok v, c2)) :
    ensureLoop (fun n => if n = 0 then last else kvm (n - 1)) (k + 1) c =
      (.ok (), { c2 with mCache := v :: c2.mCache }) := by
  induction k generalizing c with
  | zero =>
      cases h
      simp [ensureLoop, ha]
  | succ k ih =>
      simp only [ensureLoop] at h
      split at h
      · rename_i w c3 hw
        rw [ensureLoop]
        simp only [Nat.succ_ne_zero, if_false, Nat.add_sub_cancel, hw]
        exact ih h
      · cases h

theorem Grows.ensureLoop [host : Nonempty (Kvm S F)] {c c' : Cache S F} {k : Nat}
    (h : c.Grows k c') : ∃ kvm, Cache.ensureLoop kvm k c = (.ok (), c') := by
  induction h with
  | zero =>
      obtain ⟨kvm⟩ := host
      exact ⟨fun _ => kvm, rfl⟩
  | succ _ ha ih =>
      obtain ⟨kvm, hk⟩ := ih
      exact ⟨_, ensureLoop_snoc hk ha⟩

theorem Grows.length {c c' : Cache S F} {k : Nat} (h : c.Grows k c') :
    c'.mCache.length = c.mCache.length + k := by
  induction h with
  | zero => rfl
  | succ _ ha ih =>
      obtain ⟨r, _, _, rfl⟩ := allocate_ok ha
      simp only [List.length_cons, ih]
      omega

/-- Once there is a reset state the loop leaves it as it is. -/
theorem Grows.reset {c c' : Cache S F} {k : Nat} {r : ResetState S F} (h : c.Grows k c')
    (hr : c.mReset = some r) : c'.mReset = some r := by
  induction h with
  | zero => exact hr
  | succ _ ha ih =>
      obtain ⟨r', harm, _, rfl⟩ := allocate_ok ha
      rw [harm.eq_of_some ih]

end Cache

/-! ## The shared cache and the atomic one -/

/-- The shared cache `c`, where the atomic one is `a` and the thread in the
section, if there is one, is at `p`. -/
def Pc.Shows (p : Pc S F) (a c : Cache S F) : Prop :=
  match p with
  | .allocate =>
      a.mCache = [] ∧ c = { a with locked := true, mMisses := a.mMisses + 1 }
  | .front => c = { a with locked := true, mHits := a.mHits + 1 }
  | .pop _ v =>
      (∃ rest, a.mCache = v :: rest) ∧ c = { a with locked := true, mHits := a.mHits + 1 }
  | .miss => a.mCache = [] ∧ c = { a with locked := true }
  | .enter (.ensure count) => ∃ k, { a with locked := true }.Grows k c ∧
      (k = 0 ∨ a.mCache.length + k ≤ (count.signExtend 64).toNat)
  | .grow count => ∃ k, { a with locked := true }.Grows k c ∧
      a.mCache.length + k < (count.signExtend 64).toNat
  | .push count _ v => ∃ k c1 kvm, { a with locked := true }.Grows k c1 ∧
      c1.allocate kvm = (.ok v, c) ∧ a.mCache.length + k < (count.signExtend 64).toNat
  | p => c = { a with locked := p.inside }

/-- What a thread at `p` holds, where the users of the atomic cache hold
`ws` in its place: a virtine about to be pushed has been reset already. -/
def Pc.Holds (p : Pc S F) (r : Option (ResetState S F)) (hs : List (Nat × Virtine S F))
    (ws : List (Virtine S F)) : Prop :=
  match p.pending with
  | none => ws = hs.map Prod.snd
  | some i => ∃ pre v v' post, hs = pre ++ (i, v') :: post ∧
      ws = pre.map Prod.snd ++ v :: post.map Prod.snd ∧ v.reset (v.rst r) = .ok v'

theorem Pc.Shows.reset {p : Pc S F} {a c : Cache S F} {r : ResetState S F} (h : p.Shows a c)
    (hr : a.mReset = some r) : c.mReset = some r := by
  unfold Shows at h
  split at h
  · rw [h.2]
    exact hr
  · rw [h]
    exact hr
  · rw [h.2]
    exact hr
  · rw [h.2]
    exact hr
  · obtain ⟨k, hg, _⟩ := h
    exact hg.reset hr
  · obtain ⟨k, hg, _⟩ := h
    exact hg.reset hr
  · obtain ⟨k, c1, kvm, hg, ha, _⟩ := h
    obtain ⟨r', harm, _, rfl⟩ := Cache.allocate_ok ha
    rw [harm.eq_of_some (hg.reset hr)]
  · rw [h]
    exact hr

/-- A snapshot, while no thread fills the pool. -/
theorem Pc.Shows.snapshot {p : Pc S F} {a c : Cache S F} (h : p.Shows a c)
    (hp : p.filling = false) (r : Option (ResetState S F)) :
    p.Shows { a with mReset := r } { c with mReset := r } := by
  unfold Shows at h ⊢
  split at h
  · exact ⟨h.1, by rw [h.2]⟩
  · rw [h]
  · exact ⟨h.1, by rw [h.2]⟩
  · exact ⟨h.1, by rw [h.2]⟩
  · cases hp
  · cases hp
  · cases hp
  · rw [h]

theorem Pc.Holds.of_reset {p : Pc S F} {r r' : Option (ResetState S F)}
    {hs : List (Nat × Virtine S F)} {ws : List (Virtine S F)} (h : p.Holds r hs ws)
    (hr : r' = r ∨ p.pending = none ∨ ws = []) : p.Holds r' hs ws := by
  unfold Holds at h ⊢
  rcases hr with rfl | hp | rfl
  · exact h
  · rw [hp] at h ⊢
    exact h
  · split at h
    · exact h
    · obtain ⟨pre, v, v', post, _, hws, _⟩ := h
      simp at hws

/-! ## The calls of the atomic cache -/

namespace Cache

theorem Grows.ensure [Nonempty (Kvm S F)] {c c' : Cache S F} {k : Nat} {count : BitVec 32}
    (hl : c.locked = false) (h : { c with locked := true }.Grows k c')
    (hk : k = (count.signExtend 64).toNat - c.mCache.length) :
    ∃ kvm, c.ensure kvm count = (.ok (), { c' with locked := false }) := by
  obtain ⟨kvm, he⟩ := h.ensureLoop
  refine ⟨kvm, ?_⟩
  rw [Cache.ensure, if_neg (by simp [hl]), ← hk, he]

theorem Grows.locked {c c' : Cache S F} {k : Nat} (h : c.Grows k c') :
    c'.locked = c.locked := by
  induction h with
  | zero => rfl
  | succ _ ha ih =>
      obtain ⟨r, _, _, rfl⟩ := allocate_ok ha
      exact ih

/-- A loop that has turned has armed the cache. -/
theorem Grows.armed {c c' : Cache S F} {k : Nat} (h : c.Grows k c') (hr : c'.mReset = none) :
    c' = c := by
  cases h with
  | zero => rfl
  | succ _ ha =>
      obtain ⟨r, _, _, rfl⟩ := allocate_ok ha
      cases hr

end Cache

namespace Threads

/-- `p` is where the thread in the section is, or idle when there is none. -/
def Current (s : Threads T S F) (p : Pc S F) : Prop :=
  (p = .idle ∧ ∀ t, (s.pc t).inside = false) ∨ (p.inside = true ∧ ∃ t, s.pc t = p)

/-- **The simulation relation.** -/
structure Sim (s : Threads T S F) (a : Atomic T S F) : Prop where
  inv : s.Inv
  atomic : a.Inv
  cache : ∀ p, s.Current p → p.Shows a.cache s.cache
  held : ∀ t, (s.pc t).Holds a.cache.mReset (s.held t) (a.held t)

section Sim

variable {s s' : Threads T S F} {a a' : Atomic T S F} {t : T} {p : Pc S F}

theorem exists_current (s : Threads T S F) : ∃ p, s.Current p := by
  by_cases hex : ∃ t, (s.pc t).inside = true
  · obtain ⟨t, ht⟩ := hex
    exact ⟨s.pc t, .inr ⟨ht, t, rfl⟩⟩
  · exact ⟨.idle, .inl ⟨rfl, fun t => by simpa using fun ht => hex ⟨t, ht⟩⟩⟩

/-- The reset state of the atomic cache is the shared one. -/
theorem Sim.reset (h : Sim s a) {r : ResetState S F} (hr : a.cache.mReset = some r) :
    s.cache.mReset = some r := by
  obtain ⟨p, hp⟩ := s.exists_current
  exact (h.cache p hp).reset hr

/-- Whoever holds something holds it of a cache with a reset state. -/
theorem Sim.reset_of_held (h : Sim s a) (hheld : a.held t ≠ []) :
    ∃ r, a.cache.mReset = some r ∧ s.cache.mReset = some r := by
  cases hr : a.cache.mReset with
  | none => exact absurd ((h.atomic.armed hr).2 t) hheld
  | some r => exact ⟨r, rfl, h.reset hr⟩

theorem Sim.held_eq (h : Sim s a) (hpc : s.pc t = p) (hp : p.pending = none) :
    a.held t = (s.held t).map Prod.snd := by
  have hself := h.held t
  rw [hpc, Pc.Holds, hp] at hself
  exact hself

theorem Current.eq_of_inside {q : Pc S F} (hinv : s.Inv) (hpc : s.pc t = p)
    (hp : p.inside = true) (hq : s.Current q) : q = p := by
  rcases hq with ⟨_, hout⟩ | ⟨hin, u, rfl⟩
  · simp [← hpc, hout t] at hp
  · subst hpc
    rw [hinv.alone u t hin hp]

/-- The virtine a thread is about to push is the one it has reset. -/
theorem Sim.pushed (h : Sim s a) {i : Nat} {v' : Virtine S F}
    {pre post : List (Nat × Virtine S F)} (hpc : s.pc t = .enter (.put i))
    (hh : s.held t = pre ++ (i, v') :: post) :
    ∃ v, a.held t = pre.map Prod.snd ++ v :: post.map Prod.snd ∧
      v.reset (v.rst a.cache.mReset) = .ok v' := by
  have hself := h.held t
  rw [hpc] at hself
  obtain ⟨pre₁, v, v₁, post₁, hh₁, hws, hv⟩ := hself
  -- a name is there once, so the two ways to find it are one
  have hone : ((s.held t).map Prod.fst).count i = 1 := by
    have hmem : i ∈ s.places (some t) := by simp [places, owned, hpc, Pc.fresh, hh]
    simpa [places, owned, hpc, Pc.fresh] using (h.inv.placed.of_mem hmem).2.1
  have hnot : ∀ {l : List (Nat × Virtine S F)}, (l.map Prod.fst).count i = 0 →
      (i, v₁) ∉ l := fun hc hl =>
    List.count_eq_zero.mp hc (List.mem_map.mpr ⟨_, hl, rfl⟩)
  have hzero : (pre.map Prod.fst).count i = 0 ∧ (post.map Prod.fst).count i = 0 := by
    rw [hh] at hone
    simp only [List.map_append, List.map_cons, List.count_append, List.count_cons_self] at hone
    omega
  obtain ⟨rfl, heq, rfl⟩ := (List.append_cons_inj_of_notMem (hnot hzero.1)
    (hnot hzero.2)).mp (hh.symm.trans hh₁)
  obtain rfl : v' = v₁ := congrArg Prod.snd heq
  exact ⟨v, hws, hv⟩

variable [DecidableEq T]

theorem Current.of_outside {q : Pc S F} (hpc : s'.pc = Function.update s.pc t p)
    (ht : (s.pc t).inside = false) (hp : p.inside = false) (hq : s'.Current q) :
    s.Current q := by
  rcases hq with ⟨rfl, hout⟩ | ⟨hin, u, rfl⟩
  · refine .inl ⟨rfl, fun u => ?_⟩
    by_cases hu : u = t
    · rw [hu, ht]
    · have := hout u
      rwa [hpc, Function.update_of_ne hu] at this
  · by_cases hu : u = t
    · simp [hpc, hu, hp] at hin
    · rw [hpc, Function.update_of_ne hu] at hin ⊢
      exact .inr ⟨hin, u, rfl⟩

/-- A step of `t`: the other threads are where they were, with what they
had. -/
theorem Sim.next {vs : List (Nat × Virtine S F)} {ws : List (Virtine S F)} (h : Sim s a)
    (hinv : s'.Inv) (hatomic : a'.Inv) (hpc : s'.pc = Function.update s.pc t p)
    (hheld : s'.held = Function.update s.held t vs)
    (hws : a'.held = Function.update a.held t ws)
    (hkeep : a'.cache.mReset = a.cache.mReset ∨
      ∀ u, (s.pc u).pending = none ∨ a.held u = [])
    (hself : p.Holds a'.cache.mReset vs ws)
    (hcache : ∀ q, s'.Current q → q.Shows a'.cache s'.cache) : Sim s' a' where
  inv := hinv
  atomic := hatomic
  cache := hcache
  held u := by
    by_cases hu : u = t
    · rw [hpc, hheld, hws, hu, Function.update_self, Function.update_self,
        Function.update_self]
      exact hself
    · rw [hpc, hheld, hws, Function.update_of_ne hu, Function.update_of_ne hu,
        Function.update_of_ne hu]
      exact (h.held u).of_reset (hkeep.imp id fun hall => hall u)

/-- A step of `t` that the atomic cache does not answer. -/
theorem Sim.silent {vs : List (Nat × Virtine S F)} (h : Sim s a) (hinv : s'.Inv)
    (hpc : s'.pc = Function.update s.pc t p) (hheld : s'.held = Function.update s.held t vs)
    (hself : p.Holds a.cache.mReset vs (a.held t))
    (hcache : ∀ q, s'.Current q → q.Shows a.cache s'.cache) : Sim s' a :=
  h.next hinv h.atomic hpc hheld (Function.update_eq_self t a.held).symm (.inl rfl) hself
    hcache

/-- `t` goes on outside the section, and the shared cache stays as it is. -/
theorem Sim.goto_outside (h : Sim s a) {q : Pc S F} (hpc : s.pc t = q)
    (hinv : (s.goto t p).Inv) (hq : q.inside = false) (hp : p.inside = false)
    (hpend : p.pending = q.pending) : Sim (s.goto t p) a := by
  subst hpc
  refine h.silent hinv rfl (Function.update_eq_self t s.held).symm ?_ fun r hr => ?_
  · have hself := h.held t
    unfold Pc.Holds at hself ⊢
    rw [hpend]
    exact hself
  · exact h.cache r (hr.of_outside rfl hq hp)

/-- `t` goes on in the section. -/
theorem Sim.within (h : Sim s a) {q : Pc S F} (hpc : s.pc t = q) (hinv : s'.Inv)
    (hpc' : s'.pc = Function.update s.pc t p) (hheld : s'.held = s.held)
    (hp : p.inside = true) (hpend : p.pending = q.pending)
    (hshows : p.Shows a.cache s'.cache) : Sim s' a := by
  subst hpc
  refine h.silent hinv hpc' (hheld.trans (Function.update_eq_self t s.held).symm) ?_
    fun r hr => ?_
  · have hself := h.held t
    unfold Pc.Holds at hself ⊢
    rw [hpend]
    exact hself
  · rw [hr.eq_of_inside hinv (by rw [hpc', Function.update_self]) hp]
    exact hshows

/-- `t` ends the work of a call: from here on it only unlocks. -/
theorem Sim.commit {vs : List (Nat × Virtine S F)} {ws : List (Virtine S F)} (h : Sim s a)
    (hinv : s'.Inv) (hatomic : a'.Inv) (hpc : s'.pc = Function.update s.pc t .unlock)
    (hheld : s'.held = Function.update s.held t vs)
    (hws : a'.held = Function.update a.held t ws) (hself : ws = vs.map Prod.snd)
    (hkeep : ∀ r, a.cache.mReset = some r → a'.cache.mReset = some r)
    (hcache : s'.cache = { a'.cache with locked := true }) : Sim s' a' := by
  have hstay : a'.cache.mReset = a.cache.mReset ∨
      ∀ u, (s.pc u).pending = none ∨ a.held u = [] := by
    cases hr : a.cache.mReset with
    | none => exact .inr fun u => .inr ((h.atomic.armed hr).2 u)
    | some r => exact .inl (hkeep r hr)
  refine h.next hinv hatomic hpc hheld hws hstay hself fun q hq => ?_
  have hpct : s'.pc t = .unlock := by rw [hpc, Function.update_self]
  rw [hq.eq_of_inside hinv hpct rfl]
  exact hcache

/-- A thread runs a virtine it holds, and may take a snapshot. -/
theorem Sim.run (h : Sim s a) {pre post : List (Nat × Virtine S F)} {i : Nat}
    {v v' : Virtine S F} {r : Option (ResetState S F)} (hpc : s.pc t = .idle)
    (hh : s.held t = pre ++ (i, v) :: post)
    (hinv : ({ s with cache := { s.cache with mReset := r } }.hold t
      (pre ++ (i, v') :: post)).Inv)
    (hquiet : r ≠ s.cache.mReset → r ≠ none ∧
      ∀ u, (s.pc u).pending = none ∧ (s.pc u).filling = false) :
    ∃ a', a.Follows t ((s.pc t).effect (s.pc t)) a' ∧
      Sim ({ s with cache := { s.cache with mReset := r } }.hold t
        (pre ++ (i, v') :: post)) a' := by
  have hself : a.held t = pre.map Prod.snd ++ v :: post.map Prod.snd := by
    simpa [hh] using h.held_eq hpc rfl
  obtain ⟨r₀, hra, hrs⟩ := h.reset_of_held (t := t) (by simp [hself])
  have hcases : r = some r₀ ∨ (∃ r', r = some r') ∧
      ∀ u, (s.pc u).pending = none ∧ (s.pc u).filling = false := by
    by_cases hr : r = s.cache.mReset
    · exact .inl (hr.trans hrs)
    · exact .inr ⟨Option.ne_none_iff_exists'.mp (hquiet hr).1, (hquiet hr).2⟩
  obtain ⟨r', rfl⟩ : ∃ r', r = some r' := by
    rcases hcases with hr | ⟨hr, _⟩
    · exact ⟨r₀, hr⟩
    · exact hr
  have hstay : s.pc = Function.update s.pc t .idle := by
    rw [← hpc, Function.update_eq_self]
  have hrun := @Atomic.Step.run T S F _ a t _ _ v v' r' hself
  refine ⟨_, by rw [hpc]; exact hrun, ?_⟩
  refine h.next hinv ⟨h.atomic.unlocked, fun hr => by cases hr⟩ hstay rfl rfl ?_ ?_
    fun q hq => ?_
  · rcases hcases with hr | ⟨_, hout⟩
    · exact .inl (hr.trans hra.symm)
    · exact .inr fun u => .inl (hout u).1
  · show _ = _
    simp
  · have hshows := h.cache q (hq.of_outside hstay (by rw [hpc]; rfl) rfl)
    rcases hcases with hr | ⟨_, hout⟩
    · have ha : { a.cache with mReset := some r' } = a.cache := by rw [hr, ← hra]
      have hc : { s.cache with mReset := some r' } = s.cache := by rw [hr, ← hrs]
      show q.Shows { a.cache with mReset := some r' } { s.cache with mReset := some r' }
      rw [ha, hc]
      exact hshows
    · refine hshows.snapshot ?_ (some r')
      rcases hq with ⟨rfl, _⟩ | ⟨_, u, rfl⟩
      · rfl
      · exact (hout u).2

end Sim

/-- The calls of the atomic cache, in the order of the statements at which
they take effect. -/
theorem Linear.calls [DecidableEq T] {x y : Threads T S F × Atomic T S F} {ts : List T}
    (h : Run Linear x ts y) :
    ∃ ops, Run Atomic.Step x.2 ops y.2 ∧ (ops.map Prod.fst).Sublist ts := by
  induction h with
  | nil x => exact ⟨[], .nil _, .slnil⟩
  | @cons x y z t ts hst _ ih =>
      obtain ⟨ops, hrun, hsub⟩ := ih
      obtain ⟨_, hfollow⟩ := hst
      cases ho : (x.1.pc t).effect (y.1.pc t) with
      | none =>
          rw [ho] at hfollow
          rw [show y.2 = x.2 from hfollow] at hrun
          exact ⟨ops, hrun, hsub.cons t⟩
      | some op =>
          rw [ho] at hfollow
          exact ⟨(t, op) :: ops, .cons hfollow hrun, hsub.cons_cons t⟩

end Threads

end Wasp
