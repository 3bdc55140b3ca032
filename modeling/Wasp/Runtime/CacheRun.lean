import Wasp.Runtime.RunVirtine

/-!
# CacheRun — a cache and the virtines taken from it, over whole histories

A system is one cache with the virtines its callers hold. The operations
are the cache's own, plus what happens to a virtine while it is held: its
guest runs (`guest`, with any machine at the exit) or takes a snapshot.
A step is a call that returns; a call that faults ends the history.

`stamps` and `copies` are history that the code does not keep: for each
virtine of the pool the reset state it was last reset to, and every block
copy that a reset or a snapshot made.
-/

namespace Wasp

variable {S F : Type}

/-- A block copy into or out of a guest with `memsz` bytes of memory. -/
structure Copy where
  memsz : BitVec 64
  address : BitVec 64
  size : BitVec 64
  deriving DecidableEq, Repr

structure System (S F : Type) where
  cache : Cache S F
  held : List (Virtine S F)
  stamps : List (ResetState S F)
  copies : List Copy

/-- What a history can do next; `i` is the position of a held virtine. -/
inductive Op (S F : Type) where
  | setBinary (data : Nat → UInt8) (size start : BitVec 64)
  | loadBinary (file : Option ((Nat → UInt8) × BitVec 64)) (start : BitVec 64)
  | get (kvm : Kvm S F)
  | put (i : Nat)
  | ensure (kvm : Nat → Kvm S F) (count : BitVec 32)
  | guest (i : Nat) (m : Machine S F)
  | snapshot (i : Nat) (malloc : BitVec 64 → Bool)

/-- The copies of `Virtine::reset` to the state `r`, region by region. -/
def Virtine.copies (v : Virtine S F) (r : ResetState S F) : List Copy :=
  r.regions.map fun g => ⟨v.mMemsz, g.address, g.size⟩

namespace System

/-- A new cache; its image fields hold whatever was in memory. -/
def init (memsz size start : BitVec 64) : System S F :=
  { cache := Cache.new memsz size start, held := [], stamps := [], copies := [] }

inductive Step : System S F → Op S F → System S F → Prop where
  | setBinary {s : System S F} {data : Nat → UInt8} {size start : BitVec 64} :
      Step s (.setBinary data size start)
        { s with cache := s.cache.setBinary data size start }
  | loadBinary {s : System S F} {file : Option ((Nat → UInt8) × BitVec 64)}
      {start : BitVec 64} {c : Cache S F} :
      s.cache.loadBinary file start = (.ok (), c) →
      Step s (.loadBinary file start) { s with cache := c }
  | get {s : System S F} {kvm : Kvm S F} {v : Virtine S F} {c : Cache S F} :
      s.cache.get kvm = (.ok v, c) →
      Step s (.get kvm)
        { cache := c, held := v :: s.held, stamps := s.stamps.tail,
          copies := s.copies ++
            match s.cache.mCache with
            | [] => v.copies (v.rst c.mReset)
            | _ :: _ => [] }
  | put {s : System S F} {i : Nat} {v : Virtine S F} {c : Cache S F} :
      s.held[i]? = some v → s.cache.put v = (.ok (), c) →
      Step s (.put i)
        { cache := c, held := s.held.eraseIdx i,
          stamps := s.stamps ++ [v.rst s.cache.mReset],
          copies := s.copies ++ v.copies (v.rst s.cache.mReset) }
  | ensure {s : System S F} {kvm : Nat → Kvm S F} {count : BitVec 32} {c : Cache S F}
      {vs : List (Virtine S F)} :
      s.cache.ensure kvm count = (.ok (), c) → c.mCache = vs ++ s.cache.mCache →
      Step s (.ensure kvm count)
        { cache := c, held := s.held,
          stamps := vs.map (fun v => v.rst c.mReset) ++ s.stamps,
          copies := s.copies ++ vs.flatMap fun v => v.copies (v.rst c.mReset) }
  | guest {s : System S F} {i : Nat} {m : Machine S F} {v : Virtine S F} :
      s.held[i]? = some v →
      Step s (.guest i m) { s with held := s.held.set i (v.resume m) }
  | snapshot {s : System S F} {i : Nat} {malloc : BitVec 64 → Bool}
      {v v' : Virtine S F} {c : Cache S F} :
      s.held[i]? = some v → s.cache.snapshot malloc v = .ok (v', c) →
      Step s (.snapshot i malloc)
        { cache := c, held := s.held.set i v', stamps := s.stamps,
          copies := s.copies ++ [⟨v.mMemsz, 0, v.regs.rdx⟩] }

/-! ## What the steps do

`Inv` is what every history keeps, and `Effect` says once what a step does
to a system with the invariant; the properties of the histories are case
splits on `Effect`. -/

end System

/-- One region, and bytes for it unless it is empty. -/
def ResetState.Single (r : ResetState S F) : Prop :=
  ∃ g, r.regions = [g] ∧ (g.size = 0 ∨ g.data ≠ none)

theorem ResetState.Single.backed {r : ResetState S F} (h : r.Single) :
    ∀ g ∈ r.regions, g.size = 0 ∨ g.data ≠ none := by
  obtain ⟨g, hg, hd⟩ := h
  intro g' hg'
  rw [hg, List.mem_singleton] at hg'
  exact hg' ▸ hd

namespace System

structure Inv (s : System S F) : Prop where
  pooled : ∀ v ∈ s.cache.mCache, v.OwnedBy s.cache
  owned : ∀ v ∈ s.held, v.OwnedBy s.cache
  single : ∀ r, s.cache.mReset = some r → r.Single

inductive Effect (s : System S F) : Op S F → System S F → Prop where
  | setBinary {data : Nat → UInt8} {size start : BitVec 64} :
      Effect s (.setBinary data size start)
        { s with cache := s.cache.setBinary data size start }
  | loadBinary {data : Nat → UInt8} {size start : BitVec 64} :
      Effect s (.loadBinary (some (data, size)) start)
        { s with cache := s.cache.setBinary data size start }
  | hit {kvm : Kvm S F} {v : Virtine S F} {rest : List (Virtine S F)} :
      s.cache.mCache = v :: rest →
      Effect s (.get kvm)
        { s with cache := { s.cache with mHits := s.cache.mHits + 1, mCache := rest },
                 held := v :: s.held, stamps := s.stamps.tail }
  | miss {kvm : Kvm S F} {v : Virtine S F} {r : ResetState S F} :
      s.cache.mCache = [] → s.cache.Arms r → v.FreshOver r s.cache.mMemsz →
      Effect s (.get kvm)
        { s with cache := { s.cache with mMisses := s.cache.mMisses + 1, mReset := some r },
                 held := v :: s.held, stamps := s.stamps.tail,
                 copies := s.copies ++ v.copies r }
  | put {i : Nat} {v : Virtine S F} {r : ResetState S F} : s.held[i]? = some v →
      s.cache.mReset = some r → (∀ g ∈ r.regions, g.Copyable v) →
      Effect s (.put i)
        { s with cache := { s.cache with mCache := s.cache.mCache ++
                   [{ v with regs := r.regs, sregs := r.sregs, fpu := r.fpu,
                             mem := r.write v.mem }] },
                 held := s.held.eraseIdx i, stamps := s.stamps ++ [r],
                 copies := s.copies ++ v.copies r }
  | full {kvm : Nat → Kvm S F} {count : BitVec 32} :
      (count.signExtend 64).toNat ≤ s.cache.mCache.length →
      Effect s (.ensure kvm count) s
  | grow {kvm : Nat → Kvm S F} {count : BitVec 32} {vs : List (Virtine S F)}
      {r : ResetState S F} : vs ≠ [] →
      s.cache.mCache.length < (count.signExtend 64).toNat →
      s.cache.Arms r → (∀ v ∈ vs, v.FreshOver r s.cache.mMemsz) →
      Effect s (.ensure kvm count)
        { s with cache := { s.cache with mReset := some r, mCache := vs ++ s.cache.mCache },
                 stamps := vs.map (fun _ => r) ++ s.stamps,
                 copies := s.copies ++ vs.flatMap fun v => v.copies r }
  | guest {i : Nat} {m : Machine S F} {v : Virtine S F} : s.held[i]? = some v →
      Effect s (.guest i m) { s with held := s.held.set i (v.resume m) }
  | snapshot {i : Nat} {malloc : BitVec 64 → Bool} {v : Virtine S F} :
      s.held[i]? = some v →
      (v.regs.rdx = 0 ∨ malloc v.regs.rdx = true ∧ v.mMem ≠ 0) →
      Effect s (.snapshot i malloc)
        { s with cache := { s.cache with
                   mReset := some (v.captured (malloc v.regs.rdx)) },
                 held := s.held.set i { v with regs := v.regs.skipOut },
                 copies := s.copies ++ [⟨v.mMemsz, 0, v.regs.rdx⟩] }

end System

theorem Virtine.map_rst_masked {vs : List (Virtine S F)}
    (h : ∀ v ∈ vs, v.mResetMask = true) (r : ResetState S F) :
    vs.map (fun v => v.rst (some r)) = vs.map fun _ => r :=
  List.map_congr_left fun v hv => Virtine.rst_masked (h v hv) r

theorem Virtine.flatMap_copies_masked {vs : List (Virtine S F)}
    (h : ∀ v ∈ vs, v.mResetMask = true) (r : ResetState S F) :
    vs.flatMap (fun v => v.copies (v.rst (some r))) = vs.flatMap fun v => v.copies r := by
  induction vs with
  | nil => rfl
  | cons v vs ih =>
      have hv : v.rst (some r) = r := Virtine.rst_masked (h v List.mem_cons_self) r
      rw [List.flatMap_cons, List.flatMap_cons, hv,
        ih fun w hw => h w (List.mem_cons_of_mem v hw)]

namespace System

/-- Under the invariant a step has one of the effects. -/
theorem Step.effect {s t : System S F} {op : Op S F} (hI : s.Inv) (h : Step s op t) :
    Effect s op t := by
  cases h with
  | setBinary => exact .setBinary
  | loadBinary hl =>
      rename_i file start c
      cases file with
      | none => simp [Cache.loadBinary] at hl
      | some f =>
          simp only [Cache.loadBinary, Prod.mk.injEq, true_and] at hl
          subst hl
          exact .loadBinary
  | get hg =>
      obtain ⟨_, ⟨rest, hp, rfl⟩ | ⟨hp, r, hr, hf, rfl⟩⟩ := Cache.get_ok hg
      · simpa [hp] using Effect.hit hp
      · simpa [hp, Virtine.rst_masked hf.masked] using Effect.miss hp hr hf
  | put hv hp =>
      have ho := hI.owned _ (List.mem_of_getElem? hv)
      obtain ⟨r, hr⟩ := ho.armed
      obtain ⟨_, v', hreset, rfl⟩ := Cache.put_eq_ok.mp hp
      have hrst : Virtine.rst _ s.cache.mReset = r := hr ▸ Virtine.rst_masked ho.masked r
      rw [hrst] at hreset ⊢
      obtain ⟨hcopy, rfl⟩ := Virtine.reset_eq_ok.mp hreset
      exact .put hv hr hcopy
  | @ensure _ count c vs he hvs =>
      obtain ⟨us, ⟨rfl, rfl⟩ | ⟨hne, r, hr, hf, rfl⟩, hlen⟩ := Cache.ensure_ok he
      · have hnil : vs = [] := by simpa using congrArg List.length hvs
        subst hnil
        have hle : (count.signExtend 64).toNat ≤ s.cache.mCache.length := by
          simp only [List.length_nil] at hlen
          omega
        simpa using Effect.full hle
      · have hus : us = vs := List.append_cancel_right hvs
        subst hus
        have hlt : s.cache.mCache.length < (count.signExtend 64).toNat := by
          have := List.length_pos_iff.mpr hne
          omega
        have hmask : ∀ v ∈ us, v.mResetMask = true := fun v hv => (hf v hv).masked
        simpa only [Virtine.map_rst_masked hmask r, Virtine.flatMap_copies_masked hmask r] using
          Effect.grow hne hlt hr hf
  | guest hv => exact .guest hv
  | snapshot hv hs =>
      have ho := hI.owned _ (List.mem_of_getElem? hv)
      obtain ⟨rfl, rfl, hm⟩ := Cache.snapshot_ok ho.masked hs
      exact .snapshot hv hm

end System

theorem Virtine.FreshOver.single {v : Virtine S F} {r : ResetState S F} {c : Cache S F}
    (h : v.FreshOver r c.mMemsz) (ha : c.Arms r)
    (hs : ∀ r, c.mReset = some r → r.Single) : r.Single := by
  rcases ha with ha | ⟨_, _, w, _, rfl⟩
  · exact hs r ha
  · refine ⟨_, rfl, ?_⟩
    rcases h.copyable _ (List.mem_singleton_self _) with hz | ⟨_, _, hd⟩
    · exact .inl hz
    · exact .inr hd

theorem Machine.captured_single {v : Machine S F} {buffer : Bool}
    (h : v.regs.rdx = 0 ∨ buffer = true) : (v.captured buffer).Single := by
  refine ⟨_, rfl, ?_⟩
  rcases h with h | rfl
  · exact .inl h
  · exact .inr (by simp)

namespace System

theorem Effect.inv {s t : System S F} {op : Op S F} (hI : s.Inv) (h : Effect s op t) :
    t.Inv := by
  cases h with
  | setBinary | loadBinary =>
      exact ⟨fun v hv => (hI.pooled v hv).mono rfl fun r hr => ⟨r, hr⟩,
        fun v hv => (hI.owned v hv).mono rfl fun r hr => ⟨r, hr⟩, hI.single⟩
  | hit hp =>
      have hmem : ∀ w ∈ s.cache.mCache, w.OwnedBy s.cache := hI.pooled
      rw [hp] at hmem
      refine ⟨fun w hw => ?_, fun w hw => ?_, hI.single⟩
      · exact (hmem w (List.mem_cons_of_mem _ hw)).mono rfl fun r hr => ⟨r, hr⟩
      · rcases List.mem_cons.mp hw with rfl | hw
        · exact (hmem _ List.mem_cons_self).mono rfl fun r hr => ⟨r, hr⟩
        · exact (hI.owned w hw).mono rfl fun r hr => ⟨r, hr⟩
  | @miss _ v r hp ha hf =>
      refine ⟨fun w hw => ?_, fun w hw => ?_, ?_⟩
      · exact (hI.pooled w hw).mono rfl fun _ _ => ⟨r, rfl⟩
      · rcases List.mem_cons.mp hw with rfl | hw
        · exact ⟨hf.masked, hf.sized, r, rfl⟩
        · exact (hI.owned w hw).mono rfl fun _ _ => ⟨r, rfl⟩
      · rintro _ ⟨⟩
        exact hf.single ha hI.single
  | @put _ v r hv hr _ =>
      refine ⟨fun w hw => ?_, fun w hw => ?_, hI.single⟩
      · rcases List.mem_append.mp hw with hw | hw
        · exact (hI.pooled w hw).mono rfl fun _ _ => ⟨r, hr⟩
        · have ho := hI.owned v (List.mem_of_getElem? hv)
          rw [List.mem_singleton.mp hw]
          exact ⟨ho.masked, ho.sized, r, hr⟩
      · exact (hI.owned w (List.mem_of_mem_eraseIdx hw)).mono rfl fun _ _ => ⟨r, hr⟩
  | full _ => exact hI
  | @grow _ _ vs r hne _ ha hf =>
      refine ⟨fun w hw => ?_, fun w hw => (hI.owned w hw).mono rfl fun _ _ => ⟨r, rfl⟩, ?_⟩
      · rcases List.mem_append.mp hw with hw | hw
        · exact ⟨(hf w hw).masked, (hf w hw).sized, r, rfl⟩
        · exact (hI.pooled w hw).mono rfl fun _ _ => ⟨r, rfl⟩
      · rintro _ ⟨⟩
        obtain ⟨w, hw⟩ := List.exists_mem_of_ne_nil vs hne
        exact (hf w hw).single ha hI.single
  | @guest _ m v hv =>
      refine ⟨hI.pooled, fun w hw => ?_, hI.single⟩
      rcases List.mem_or_eq_of_mem_set hw with hw | rfl
      · exact hI.owned w hw
      · have ho := hI.owned v (List.mem_of_getElem? hv)
        exact ⟨ho.masked, ho.sized, ho.armed⟩
  | @snapshot _ _ v hv hm =>
      refine ⟨fun w hw => (hI.pooled w hw).mono rfl fun _ _ => ⟨_, rfl⟩, fun w hw => ?_, ?_⟩
      · rcases List.mem_or_eq_of_mem_set hw with hw | rfl
        · exact (hI.owned w hw).mono rfl fun _ _ => ⟨_, rfl⟩
        · have ho := hI.owned v (List.mem_of_getElem? hv)
          exact ⟨ho.masked, ho.sized, _, rfl⟩
      · rintro _ ⟨⟩
        exact Machine.captured_single (hm.imp_right And.left)

theorem Step.inv {s t : System S F} {op : Op S F} (hI : s.Inv) (h : Step s op t) : t.Inv :=
  (h.effect hI).inv hI

theorem init_inv (memsz size start : BitVec 64) :
    (init memsz size start : System S F).Inv :=
  ⟨by simp [init, Cache.new], by simp [init], by simp [init, Cache.new]⟩

end System

end Wasp
