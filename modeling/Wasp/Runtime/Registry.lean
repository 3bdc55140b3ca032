import Wasp.Runtime.Failure
import Wasp.Runtime.Invocation

/-!
# Registry — the caches of a process and the threads that call it

`cached_virtines` maps a code pointer to a cache. `wasp_run_virtine` looks
it up under `virtine_cache_lock`, gets a virtine from the cache it found,
runs the guest, and looks it up again to put the virtine back. Between
these steps other threads take theirs, on the same caches or on others; a
step is one that returns, and a fault ends the process.

The sizes that a call passes are looked at only when its code pointer is
not yet in the map.
-/

namespace Wasp

variable {S F : Type}

/-- Where a thread is in `wasp_run_virtine`; `origin` is the key of the
cache its virtine was taken from. -/
inductive Phase (S F : Type) where
  | idle
  | found (call : Call)
  | running (call : Call) (origin : BitVec 64) (st : LoopState S F)

/-- `snapshots` is history: the reset states captured so far, each with the
key of its cache. -/
structure Registry (S F : Type) where
  caches : Caches S F
  threads : Nat → Phase S F
  snapshots : List (BitVec 64 × ResetState S F)

inductive Event (S F : Type) where
  | find (tid : Nat) (call : Call)
  | get (tid : Nat) (env : Env) (kvm : Kvm S F)
  | turn (tid : Nat) (env : Env) (guest : Guest S F)
  | release (tid : Nat)

/-- The thread that takes the step. -/
def Event.tid : Event S F → Nat
  | find tid _ | get tid _ _ | turn tid _ _ | release tid => tid

namespace Registry

def init : Registry S F :=
  { caches := fun _ => none, threads := fun _ => .idle, snapshots := [] }

/-- The thread `tid` goes on to `ph`. -/
def moved (s : Registry S F) (tid : Nat) (ph : Phase S F) : Nat → Phase S F :=
  fun i => if i = tid then ph else s.threads i

/-- The reset states captured since the trace had length `n`. -/
def captures (env : Env) (key : BitVec 64) (n : Nat) (st : LoopState S F) :
    List (BitVec 64 × ResetState S F) :=
  ((st.trace.drop n).filterMap (Entry.saved env)).map fun r => (key, r)

/-- One step of one thread. `text` is what stands in memory behind a code
pointer; it does not change while the process runs. -/
inductive Step (text : BitVec 64 → Nat → UInt8) :
    Registry S F → Event S F → Registry S F → Prop where
  | find {s : Registry S F} {tid : Nat} {call : Call} :
      s.threads tid = .idle → call.image = text call.code →
      Step text s (.find tid call)
        { s with caches := s.caches.set call.code (s.caches.getCache call),
                 threads := s.moved tid (.found call) }
  | get {s : Registry S F} {tid : Nat} {env : Env} {kvm : Kvm S F} {call : Call}
      {st : LoopState S F} :
      s.threads tid = .found call → call.start env kvm s.caches = .ok st →
      Step text s (.get tid env kvm)
        { s with caches := s.caches.set call.code st.cache,
                 threads := s.moved tid (.running call call.code st) }
  | turn {s : Registry S F} {tid : Nat} {env : Env} {guest : Guest S F} {call : Call}
      {origin : BitVec 64} {st st' : LoopState S F} {c : Cache S F} :
      s.threads tid = .running call origin st → s.caches origin = some c → st.done = false →
      ({ st with cache := c } : LoopState S F).Turns env guest st' →
      Step text s (.turn tid env guest)
        { caches := s.caches.set origin st'.cache,
          threads := s.moved tid (.running call origin st'),
          snapshots := s.snapshots ++ captures env origin st.trace.length st' }
  | release {s : Registry S F} {tid : Nat} {call : Call} {origin : BitVec 64}
      {st : LoopState S F} {ret : Returned S F} :
      s.threads tid = .running call origin st → st.done = true →
      call.finish s.caches { st with cache := s.caches.getCache call } = .ok ret →
      Step text s (.release tid)
        { s with caches := ret.caches, threads := s.moved tid .idle }

/-- The virtine `v` is what `call` asked for: it has `memsz` bytes, and it
resets to a state of the cache that was made for the first `codesz` bytes at
`code`, which is this image or was captured from a guest of that cache. -/
structure AsAsked (s : Registry S F) (call : Call) (v : Virtine S F) : Prop where
  mapped : v.mMem ≠ 0
  memsz : v.mMemsz = call.memsz
  image : ∃ c, s.caches call.code = some c ∧ c.mBinary = some call.image ∧
    c.mBinarySize = call.codesz ∧ c.mBinaryStart = 0x8000 ∧
    ((v.rst c.mReset).regions = [⟨some call.image, 0x8000, call.codesz⟩] ∨
      (call.code, v.rst c.mReset) ∈ s.snapshots)

/-- Every guest runs on the machine its call asked for. -/
def AllAsAsked (s : Registry S F) : Prop :=
  ∀ tid call origin st, s.threads tid = .running call origin st → s.AsAsked call st.vm


end Registry

/-! ## What stays

The image of a cache is set when it is made; its reset state, once it is
there, is only replaced by captured ones. -/

/-- What no step changes of a cache. -/
structure Cache.Keeps (c c' : Cache S F) : Prop where
  memsz : c'.mMemsz = c.mMemsz
  size : c'.mBinarySize = c.mBinarySize
  armed : ∀ r, c.mReset = some r → ∃ r', c'.mReset = some r'

theorem Cache.Keeps.refl (c : Cache S F) : c.Keeps c :=
  ⟨rfl, rfl, fun r hr => ⟨r, hr⟩⟩

theorem Cache.Keeps.of_lookup {caches : Caches S F} {k : BitVec 64} {c c' : Cache S F}
    (h : c.Keeps c') (hc : caches k = some c) : ∀ c₀, caches k = some c₀ → c₀.Keeps c' := by
  intro c₀ hc₀
  rw [hc] at hc₀
  cases hc₀
  exact h

def Caches.Keeps (caches caches' : Caches S F) : Prop :=
  ∀ k c, caches k = some c → ∃ c', caches' k = some c' ∧ c.Keeps c'

@[simp] theorem Caches.set_self (caches : Caches S F) (k : BitVec 64) (c : Cache S F) :
    caches.set k c k = some c := if_pos rfl

theorem Caches.set_other {caches : Caches S F} {k k' : BitVec 64} {c : Cache S F}
    (h : k' ≠ k) : caches.set k c k' = caches k' := if_neg h

theorem Caches.keeps_set {caches : Caches S F} {k : BitVec 64} {c' : Cache S F}
    (h : ∀ c, caches k = some c → c.Keeps c') : caches.Keeps (caches.set k c') := by
  intro k' c hc
  by_cases hk : k' = k
  · subst hk
    exact ⟨c', caches.set_self k' c', h c hc⟩
  · exact ⟨c, (Caches.set_other hk).trans hc, .refl c⟩

theorem Caches.getCache_some {caches : Caches S F} {call : Call} {c : Cache S F}
    (h : caches call.code = some c) : caches.getCache call = c := by
  rw [Caches.getCache, h]

/-- A cache as the registry keeps it under the key `k`. -/
structure Cache.MadeFor (text : BitVec 64 → Nat → UInt8)
    (snapshots : List (BitVec 64 × ResetState S F)) (k : BitVec 64) (c : Cache S F) :
    Prop where
  binary : c.mBinary = some (text k)
  start : c.mBinaryStart = 0x8000
  lineage : ∀ r, c.mReset = some r →
    r.regions = [⟨some (text k), 0x8000, c.mBinarySize⟩] ∨ (k, r) ∈ snapshots
  pooled : ∀ v ∈ c.mCache, v.OwnedBy c

def Phase.Ok (text : BitVec 64 → Nat → UInt8) (caches : Caches S F) : Phase S F → Prop
  | idle => True
  | found call => call.image = text call.code ∧ ∃ c, caches call.code = some c
  | running call origin st => origin = call.code ∧ call.image = text call.code ∧
      ∃ c, caches origin = some c ∧ st.vm.OwnedBy c

theorem Phase.Ok.mono {text : BitVec 64 → Nat → UInt8} {caches caches' : Caches S F}
    {ph : Phase S F} (h : ph.Ok text caches) (hk : caches.Keeps caches') :
    ph.Ok text caches' := by
  cases ph with
  | idle => trivial
  | found call =>
      obtain ⟨himg, c, hc⟩ := h
      obtain ⟨c', hc', -⟩ := hk _ c hc
      exact ⟨himg, c', hc'⟩
  | running call origin st =>
      obtain ⟨ho, himg, c, hc, hown⟩ := h
      obtain ⟨c', hc', hcc⟩ := hk _ c hc
      exact ⟨ho, himg, c', hc', hown.mono hcc.memsz hcc.armed⟩

namespace Registry

structure Inv (text : BitVec 64 → Nat → UInt8) (s : Registry S F) : Prop where
  caches : ∀ k c, s.caches k = some c → c.MadeFor text s.snapshots k
  threads : ∀ tid, (s.threads tid).Ok text s.caches

theorem Inv.found {text : BitVec 64 → Nat → UInt8} {s : Registry S F} (hs : s.Inv text)
    {tid : Nat} {call : Call} (h : s.threads tid = .found call) :
    call.image = text call.code ∧ ∃ c, s.caches call.code = some c := by
  have hok := hs.threads tid
  rw [h] at hok
  exact hok

theorem Inv.running {text : BitVec 64 → Nat → UInt8} {s : Registry S F} (hs : s.Inv text)
    {tid : Nat} {call : Call} {origin : BitVec 64} {st : LoopState S F}
    (h : s.threads tid = .running call origin st) :
    origin = call.code ∧ call.image = text call.code ∧
      ∃ c, s.caches origin = some c ∧ st.vm.OwnedBy c := by
  have hok := hs.threads tid
  rw [h] at hok
  exact hok

theorem inv_init (text : BitVec 64 → Nat → UInt8) : Inv text (init : Registry S F) :=
  ⟨fun _ _ h => (by cases h), fun _ => trivial⟩

/-- What a step does: one cache is added or replaced, and one thread moves
on. -/
structure Change (text : BitVec 64 → Nat → UInt8) (s t : Registry S F) (tid : Nat)
    (k : BitVec 64) (c' : Cache S F) : Prop where
  caches : t.caches = s.caches.set k c'
  threads : ∃ ph, t.threads = s.moved tid ph ∧ ph.Ok text t.caches
  snapshots : s.snapshots ⊆ t.snapshots
  keeps : ∀ c, s.caches k = some c → c.Keeps c'
  made : c'.MadeFor text t.snapshots k

theorem Change.keeps_caches {text : BitVec 64 → Nat → UInt8} {s t : Registry S F} {tid : Nat}
    {k : BitVec 64} {c' : Cache S F} (h : Change text s t tid k c') :
    s.caches.Keeps t.caches := by
  rw [h.caches]
  exact Caches.keeps_set h.keeps

theorem Change.inv {text : BitVec 64 → Nat → UInt8} {s t : Registry S F} {tid : Nat}
    {k : BitVec 64} {c' : Cache S F} (h : Change text s t tid k c') (hs : Inv text s) :
    Inv text t := by
  constructor
  · intro k' c hc
    rw [h.caches] at hc
    by_cases hk : k' = k
    · subst hk
      rw [Caches.set_self] at hc
      cases hc
      exact h.made
    · rw [Caches.set_other hk] at hc
      obtain ⟨hb, hst, hl, hp⟩ := hs.caches k' c hc
      refine ⟨hb, hst, fun r hr => ?_, hp⟩
      rcases hl r hr with himg | hsnap
      · exact .inl himg
      · exact .inr (h.snapshots hsnap)
  · intro i
    obtain ⟨ph, hth, hph⟩ := h.threads
    rw [hth]
    by_cases hi : i = tid
    · rw [moved, if_pos hi]
      exact hph
    · rw [moved, if_neg hi]
      exact (hs.threads i).mono h.keeps_caches

end Registry

/-! ## The steps -/

theorem Caches.getCache_madeFor {text : BitVec 64 → Nat → UInt8} {s : Registry S F}
    {call : Call} (hs : s.Inv text) (himg : call.image = text call.code) :
    (s.caches.getCache call).MadeFor text s.snapshots call.code := by
  cases hc : s.caches call.code with
  | some c =>
      rw [Caches.getCache_some hc]
      exact hs.caches _ _ hc
  | none =>
      rw [Caches.getCache, hc]
      refine ⟨congrArg some himg, rfl, ?_, ?_⟩
      · intro r hr
        cases hr
      · intro v hv
        cases hv

/-- `get` hands out a virtine of the cache, and leaves it what it was. -/
theorem Cache.MadeFor.get {text : BitVec 64 → Nat → UInt8}
    {snapshots : List (BitVec 64 × ResetState S F)} {k : BitVec 64} {c c' : Cache S F}
    {kvm : Kvm S F} {v : Virtine S F} (h : c.MadeFor text snapshots k)
    (hg : c.get kvm = (.ok v, c')) :
    c'.MadeFor text snapshots k ∧ v.OwnedBy c' ∧ c.Keeps c' := by
  obtain ⟨hv, hpool⟩ := Cache.get_owned h.pooled hg
  obtain ⟨-, ⟨rest, -, rfl⟩ | ⟨-, r, hr, -, rfl⟩⟩ := Cache.get_ok hg
  · exact ⟨⟨h.binary, h.start, h.lineage, hpool⟩, hv, rfl, rfl, fun r hr => ⟨r, hr⟩⟩
  · refine ⟨⟨h.binary, h.start, ?_, hpool⟩, hv, rfl, rfl, fun _ _ => ⟨r, rfl⟩⟩
    intro r' hr'
    cases hr'
    rcases hr with hr | ⟨-, _, w, -, rfl⟩
    · exact h.lineage r hr
    · left
      show [_] = [_]
      rw [h.binary, h.start]

theorem Cache.MadeFor.put {text : BitVec 64 → Nat → UInt8}
    {snapshots : List (BitVec 64 × ResetState S F)} {k : BitVec 64} {c c' : Cache S F}
    {v : Virtine S F} (h : c.MadeFor text snapshots k) (hv : v.OwnedBy c)
    (hp : c.put v = (.ok (), c')) :
    c'.MadeFor text snapshots k ∧ c.Keeps c' := by
  obtain ⟨-, v', hr, rfl⟩ := Cache.put_eq_ok.mp hp
  obtain ⟨-, rfl⟩ := Virtine.reset_eq_ok.mp hr
  refine ⟨⟨h.binary, h.start, h.lineage, ?_⟩, rfl, rfl, fun r hr => ⟨r, hr⟩⟩
  intro w hw
  rcases List.mem_append.mp hw with hw | hw
  · exact (h.pooled w hw).mono rfl fun r hr => ⟨r, hr⟩
  · obtain rfl := List.mem_singleton.mp hw
    exact ⟨hv.masked, hv.sized, hv.armed⟩

/-- The reset state after some exits is the one before, or was captured at
one of them. -/
theorem savedBy_cases (env : Env) (r : Option (ResetState S F)) (t : List (Entry S F)) :
    savedBy env r t = r ∨
      ∃ r', savedBy env r t = some r' ∧ r' ∈ t.filterMap (Entry.saved env) := by
  induction t generalizing r with
  | nil => exact .inl rfl
  | cons e t ih =>
      rw [show savedBy env r (e :: t) = savedBy env ((e.saved env).or r) t from rfl]
      rcases ih ((e.saved env).or r) with h | ⟨r', h, hr'⟩
      · rw [h]
        cases he : e.saved env with
        | none => exact .inl rfl
        | some r' => exact .inr ⟨r', rfl, List.mem_filterMap.mpr ⟨e, List.mem_cons_self, he⟩⟩
      · obtain ⟨e', he', hs⟩ := List.mem_filterMap.mp hr'
        exact .inr ⟨r', h, List.mem_filterMap.mpr ⟨e', List.mem_cons_of_mem _ he', hs⟩⟩

/-- A turn changes at most the reset state of the cache, to a captured one. -/
theorem Cache.MadeFor.turn {text : BitVec 64 → Nat → UInt8}
    {snapshots : List (BitVec 64 × ResetState S F)} {k : BitVec 64} {env : Env}
    {guest : Guest S F} {st st' : LoopState S F} (h : st.cache.MadeFor text snapshots k)
    (hv : st.vm.OwnedBy st.cache) (ht : st.Turns env guest st') :
    st'.cache.MadeFor text
        (snapshots ++ Registry.captures env k st.trace.length st') k ∧
      st'.vm.OwnedBy st'.cache ∧ st.cache.Keeps st'.cache := by
  obtain ⟨⟨m, hm⟩, -, t, htr, hc⟩ := ht.after hv.masked
  have harmed : ∃ r', savedBy env st.cache.mReset t = some r' := by
    obtain ⟨r, hr⟩ := hv.armed
    rcases savedBy_cases env st.cache.mReset t with hsame | ⟨r', hr', -⟩
    · exact ⟨r, hsame.trans hr⟩
    · exact ⟨r', hr'⟩
  rw [hm, hc]
  refine ⟨⟨h.binary, h.start, ?_, ?_⟩, ⟨hv.masked, hv.sized, harmed⟩,
    rfl, rfl, fun _ _ => harmed⟩
  · intro r hr
    rcases savedBy_cases env st.cache.mReset t with hsame | ⟨r', hr', hmem⟩
    · rcases h.lineage r (hsame.symm.trans hr) with himg | hsnap
      · exact .inl himg
      · exact .inr (List.mem_append_left _ hsnap)
    · obtain rfl : r' = r := Option.some.inj (hr'.symm.trans hr)
      right
      rw [Registry.captures, htr, List.drop_left]
      exact List.mem_append_right _ (List.mem_map.mpr ⟨r', hmem, rfl⟩)
  · intro w hw
    exact (h.pooled w hw).mono rfl fun _ _ => harmed

/-- What `Call.start` does besides the argument: one `get`. -/
theorem Call.start_get {call : Call} {env : Env} {kvm : Kvm S F} {caches : Caches S F}
    {st : LoopState S F} (h : call.start env kvm caches = .ok st) :
    ∃ v m, (caches.getCache call).get kvm = (.ok v, st.cache) ∧
      st.vm = { v with toMachine := m } := by
  obtain ⟨v, w, c, hg, hcopy, rfl⟩ := Call.start_eq_ok.mp h
  obtain ⟨m₁, rfl⟩ := Virtine.copyIn_frame hcopy
  obtain ⟨m₂, hboot⟩ := Virtine.boot_frame { v with toMachine := m₁ } env.useSnapshots
  exact ⟨v, m₂, hg, hboot⟩

namespace Registry

variable {text : BitVec 64 → Nat → UInt8} {s t : Registry S F} {ev : Event S F}

/-- **One step of the process.** -/
theorem Step.change (hs : s.Inv text) (h : Step text s ev t) :
    ∃ k c', Change text s t ev.tid k c' := by
  cases h with
  | @find tid call hidle himg =>
      have hset := Caches.set_self s.caches call.code (s.caches.getCache call)
      refine ⟨call.code, s.caches.getCache call, rfl, ⟨.found call, rfl, himg, _, hset⟩,
        List.Subset.refl _, ?_, Caches.getCache_madeFor hs himg⟩
      intro c hc
      rw [Caches.getCache_some hc]
      exact .refl c
  | @get tid env kvm call st hfound hstart =>
      obtain ⟨himg, c, hc⟩ := hs.found hfound
      obtain ⟨v, m, hg, hvm⟩ := Call.start_get hstart
      rw [Caches.getCache_some hc] at hg
      obtain ⟨hmade, hown, hkeep⟩ := (hs.caches _ _ hc).get hg
      have hset := Caches.set_self s.caches call.code st.cache
      refine ⟨call.code, st.cache, rfl,
        ⟨.running call call.code st, rfl, rfl, himg, _, hset, ?_⟩,
        List.Subset.refl _, hkeep.of_lookup hc, hmade⟩
      rw [hvm]
      exact ⟨hown.masked, hown.sized, hown.armed⟩
  | @turn tid env guest call origin st st' c hrun hc hdone hturn =>
      obtain ⟨ho, himg, c₀, hc₀, hown⟩ := hs.running hrun
      obtain rfl : c₀ = c := Option.some.inj (hc₀.symm.trans hc)
      have hmade : ({ st with cache := c₀ } : LoopState S F).cache.MadeFor text s.snapshots
        origin := hs.caches _ _ hc
      obtain ⟨hmade', hown', hkeep⟩ := hmade.turn hown hturn
      have hset := Caches.set_self s.caches origin st'.cache
      exact ⟨origin, st'.cache, rfl,
        ⟨.running call origin st', rfl, ho, himg, _, hset, hown'⟩,
        List.subset_append_left _ _, hkeep.of_lookup hc, hmade'⟩
  | @release tid call origin st ret hrun hdone hfin =>
      obtain ⟨rfl, himg, c, hc, hown⟩ := hs.running hrun
      obtain ⟨c', hput, rfl⟩ := Call.finish_eq_ok.mp hfin
      simp only [Caches.getCache_some hc] at hput
      obtain ⟨hmade, hkeep⟩ := (hs.caches _ _ hc).put hown hput
      exact ⟨call.code, c', rfl, ⟨.idle, rfl, trivial⟩, List.Subset.refl _,
        hkeep.of_lookup hc, hmade⟩

theorem Step.inv (hs : s.Inv text) (h : Step text s ev t) : t.Inv text := by
  obtain ⟨k, c', hch⟩ := h.change hs
  exact hch.inv hs

/-! ## The machine asked for -/

/-- Of what a call asked for, the invariant leaves the three sizes open. -/
theorem asAsked_iff (hs : s.Inv text) {tid : Nat} {call : Call} {origin : BitVec 64}
    {st : LoopState S F} (h : s.threads tid = .running call origin st) :
    s.AsAsked call st.vm ↔ st.vm.mMem ≠ 0 ∧ st.vm.mMemsz = call.memsz ∧
      ∃ c, s.caches call.code = some c ∧ c.mBinarySize = call.codesz := by
  obtain ⟨rfl, himg, c, hc, hown⟩ := hs.running h
  constructor
  · rintro ⟨hmap, hmem, c', hc', -, hsize, -⟩
    exact ⟨hmap, hmem, c', hc', hsize⟩
  · rintro ⟨hmap, hmem, c', hc', hsize⟩
    obtain rfl : c = c' := Option.some.inj (hc.symm.trans hc')
    have hmade := hs.caches _ _ hc
    obtain ⟨r, hr⟩ := hown.armed
    refine ⟨hmap, hmem, c, hc, himg ▸ hmade.binary, hsize, hmade.start, ?_⟩
    rw [hr, Virtine.rst_masked hown.masked, himg, ← hsize]
    exact hmade.lineage r hr

/-- A thread that runs on with the same virtine. -/
theorem AsAsked.step {tid tid' : Nat} {k : BitVec 64} {c' : Cache S F} {call : Call}
    {origin origin' : BitVec 64} {st st' : LoopState S F} (hs : s.Inv text)
    (hch : Change text s t tid' k c') (h : s.threads tid = .running call origin st)
    (h' : t.threads tid = .running call origin' st') (hmem : st'.vm.mMem = st.vm.mMem)
    (hsz : st'.vm.mMemsz = st.vm.mMemsz) (ha : s.AsAsked call st.vm) :
    t.AsAsked call st'.vm := by
  rw [asAsked_iff hs h] at ha
  rw [asAsked_iff (hch.inv hs) h', hmem, hsz]
  obtain ⟨hmap, hmemsz, c, hc, hsize⟩ := ha
  obtain ⟨c₁, hc₁, hkeep⟩ := hch.keeps_caches _ _ hc
  exact ⟨hmap, hmemsz, c₁, hc₁, hkeep.size.trans hsize⟩

end Registry

/-- There is memory for the virtine that `get` hands out. -/
def Cache.HasMemory (c : Cache S F) (kvm : Kvm S F) : Prop :=
  match c.mCache with
  | [] => kvm.mmap ≠ none
  | v :: _ => v.mMem ≠ 0

/-- The cache of the registry is the one `call` asks for. -/
def Cache.Fits (c : Cache S F) (call : Call) (kvm : Kvm S F) : Prop :=
  c.mBinarySize = call.codesz ∧ c.mMemsz = call.memsz ∧ c.HasMemory kvm

theorem Cache.hasMemory_iff {c c' : Cache S F} {kvm : Kvm S F} {v : Virtine S F}
    (hg : c.get kvm = (.ok v, c')) : c.HasMemory kvm ↔ v.mMem ≠ 0 := by
  obtain ⟨hl, ⟨rest, hp, -⟩ | ⟨hp, r, -, hf, -⟩⟩ := Cache.get_ok hg
  · rw [Cache.HasMemory, hp]
  · rw [Cache.HasMemory, hp]
    rw [Cache.get_miss hl hp] at hg
    split at hg
    · rename_i w c₁ ha
      cases hg
      exact (Cache.allocate_mapped ha).symm
    · cases hg

namespace Registry

variable {text : BitVec 64 → Nat → UInt8} {s t : Registry S F} {ev : Event S F}

/-- The steps that keep to what is asked for: a thread that gets a virtine
has found a cache that fits its call. -/
def Fits (s : Registry S F) : Event S F → Prop
  | .get tid _ kvm => ∀ call c, s.threads tid = .found call →
      s.caches call.code = some c → c.Fits call kvm
  | _ => True

/-- After a step only the thread that took it is to be looked at. -/
theorem Change.allAsAsked_iff {tid : Nat} {k : BitVec 64} {c' : Cache S F} (hs : s.Inv text)
    (hp : s.AllAsAsked) (hch : Change text s t tid k c') :
    t.AllAsAsked ↔ ∀ call origin st,
      t.threads tid = .running call origin st → t.AsAsked call st.vm := by
  constructor
  · intro h call origin st hrun
    exact h tid call origin st hrun
  · intro h i call origin st hrun
    by_cases hi : i = tid
    · subst hi
      exact h call origin st hrun
    · obtain ⟨ph, hth, -⟩ := hch.threads
      have hsame : s.threads i = .running call origin st := by
        rw [hth, moved, if_neg hi] at hrun
        exact hrun
      exact (hp i call origin st hsame).step hs hch hsame hrun rfl rfl

theorem moved_self (s : Registry S F) (tid : Nat) (ph : Phase S F) :
    s.moved tid ph tid = ph := if_pos rfl

/-- A virtine that a thread got is as asked if the cache it found fits. -/
theorem asAsked_got_iff {tid : Nat} {env : Env} {kvm : Kvm S F} {call : Call}
    {st : LoopState S F} {c : Cache S F} (ht : t.Inv text)
    (hc : s.caches call.code = some c) (hmade : c.MadeFor text s.snapshots call.code)
    (hstart : call.start env kvm s.caches = .ok st)
    (hcaches : t.caches = s.caches.set call.code st.cache)
    (hrun : t.threads tid = .running call call.code st) :
    t.AsAsked call st.vm ↔ c.Fits call kvm := by
  obtain ⟨v, m, hg, hvm⟩ := Call.start_get hstart
  rw [Caches.getCache_some hc] at hg
  obtain ⟨-, hown, hkeep⟩ := hmade.get hg
  rw [asAsked_iff ht hrun, hvm, hcaches, Caches.set_self, Cache.Fits, Cache.hasMemory_iff hg]
  constructor
  · rintro ⟨hmap, hmem, c', hc', hsize⟩
    cases hc'
    refine ⟨hkeep.size.symm.trans hsize, ?_, hmap⟩
    exact (hkeep.memsz.symm.trans (hown.sized.resolve_right hmap).symm).trans hmem
  · rintro ⟨hsize, hmem, hmap⟩
    refine ⟨hmap, ?_, st.cache, rfl, hkeep.size.trans hsize⟩
    exact ((hown.sized.resolve_right hmap).trans hkeep.memsz).trans hmem

/-- **One step**: from a state in which all is as asked, a step meets the
condition just when it is so after it. -/
theorem Step.fits_iff (hs : s.Inv text) (hp : s.AllAsAsked) (h : Step text s ev t) :
    s.Fits ev ↔ t.AllAsAsked := by
  obtain ⟨k, c', hch⟩ := h.change hs
  rw [hch.allAsAsked_iff hs hp]
  cases h with
  | @find tid call hidle himg =>
      refine iff_of_true trivial fun call' origin st hrun => ?_
      cases (moved_self s tid (.found call)).symm.trans hrun
  | @get tid env kvm call st hfound hstart =>
      obtain ⟨himg, c, hc⟩ := hs.found hfound
      have hiff := asAsked_got_iff (hch.inv hs) hc (hs.caches _ _ hc) hstart rfl
        (moved_self s tid (.running call call.code st))
      constructor
      · intro hfit call' origin st' hrun
        cases (moved_self s tid (.running call call.code st)).symm.trans hrun
        exact hiff.mpr (hfit call c hfound hc)
      · intro hall call' c₁ hfound' hc₁
        rw [hfound] at hfound'
        cases hfound'
        rw [hc] at hc₁
        cases hc₁
        exact hiff.mp (hall call call.code st (moved_self s tid _))
  | @turn tid env guest call origin st st' c hrun hc hdone hturn =>
      refine iff_of_true trivial fun call' origin' st₁ hrun' => ?_
      have hself := moved_self s tid (.running call origin st')
      obtain ⟨-, -, c₀, hc₀, hown⟩ := hs.running hrun
      have hmask : ({ st with cache := c } : LoopState S F).vm.mResetMask = true :=
        hown.masked
      obtain ⟨⟨m, hm⟩, -⟩ := hturn.after hmask
      have hstep := (hp tid call origin st hrun).step hs hch hrun hself
        (by rw [hm]) (by rw [hm])
      cases hself.symm.trans hrun'
      exact hstep
  | @release tid call origin st ret hrun hdone hfin =>
      refine iff_of_true trivial fun call' origin' st' hrun' => ?_
      cases (moved_self s tid .idle).symm.trans hrun'

/-- A virtine goes back to the cache it was taken from. -/
theorem Step.released {tid : Nat} (hs : s.Inv text) (h : Step text s (.release tid) t) :
    ∃ call origin st c v, s.threads tid = .running call origin st ∧
      s.caches origin = some c ∧
      t.caches = s.caches.set origin { c with mCache := c.mCache ++ [v] } := by
  cases h with
  | @release tid call origin st ret hrun hdone hfin =>
      obtain ⟨rfl, -, c, hc, -⟩ := hs.running hrun
      obtain ⟨c', hput, rfl⟩ := Call.finish_eq_ok.mp hfin
      simp only [Caches.getCache_some hc] at hput
      obtain ⟨-, v, -, rfl⟩ := Cache.put_eq_ok.mp hput
      exact ⟨call, call.code, st, c, v, hrun, hc, rfl⟩

end Registry

/-- **The machine asked for.** For any calls of any threads, in any
interleaving: every guest runs on the machine its call asked for, all along,
exactly when every thread that gets a virtine has found a cache that fits;
and a virtine always goes back to the cache it was taken from. -/
theorem calls_as_asked_iff (text : BitVec 64 → Nat → UInt8) :
    (∀ evs t, Run (Guarded Registry.Fits (Registry.Step text)) .init evs t ↔
      Run (Keeping Registry.AllAsAsked (Registry.Step text)) (.init : Registry S F) evs t) ∧
    (∀ evs (s : Registry S F) tid t, Run (Registry.Step text) .init evs s →
      Registry.Step text s (.release tid) t →
      ∃ call origin st c v, s.threads tid = .running call origin st ∧
        s.caches origin = some c ∧
        t.caches = s.caches.set origin { c with mCache := c.mCache ++ [v] }) := by
  constructor
  · intro evs t
    refine Run.guarded_iff_keeping (I := Registry.Inv text) (fun s ev t hs h => h.inv hs)
      (fun s ev t hs hp h => h.fits_iff hs hp) (Registry.inv_init text) ?_
    intro tid call origin st hrun
    cases hrun
  · intro evs s tid t hrun hstep
    have hs := hrun.invariant (fun s ev t hs h => Registry.Step.inv hs h)
      (Registry.inv_init text)
    exact hstep.released hs

/-! ### Two calls of one code pointer -/

def smallCall : Call :=
  { code := 0x400000, image := fun _ => 0, codesz := 1, memsz := 0x9000, arg := none,
    argsz := 0, config := none }

/-- The same code, with more memory. -/
def largeCall : Call := { smallCall with memsz := 0x10000 }

/-- The second thread asks for 64 KiB and runs in the 36 KiB that the first
one asked for. -/
theorem large_call_not_as_asked :
    ∃ (t : Registry Unit Unit) (st : LoopState Unit Unit),
      Run (Registry.Step fun _ _ => 0) .init
        [.find 0 smallCall, .find 1 largeCall, .get 1 quietEnv plainKvm] t ∧
      t.threads 1 = .running largeCall largeCall.code st ∧ st.vm.mMemsz = 0x9000 ∧
      ¬ t.AllAsAsked := by
  refine ⟨_, _, .cons (.find rfl rfl) (.cons (.find rfl rfl) (.cons (.get rfl rfl) (.nil _))),
    rfl, rfl, fun h => ?_⟩
  exact absurd (h 1 _ _ _ rfl).memsz (by decide)

end Wasp
