import Wasp.Runtime.CacheRun

/-!
# Regions — reset regions against the size of the guest

A region enters the shared reset state in two places: `Cache::allocate`
takes the image as it was configured, and the snapshot hypercall takes
`[0, rdx)` with the guest's `rdx`. Neither compares the length with
`m_memsz`, and `Virtine::reset` checks only the address. So the regions
fit, and every copy stays in the guest's memory, in exactly those histories
in which both lengths happen to be in bounds.
-/

namespace Wasp

variable {S F : Type}

/-- `0 <= address && address + size <= memsz`, without wrap-around. -/
def ResetMemory.Fits (g : ResetMemory) (memsz : BitVec 64) : Prop :=
  0 ≤ g.address.toInt ∧ g.address.toInt + g.size.toNat ≤ memsz.toNat

/-- The copy touches no byte outside the guest's memory. -/
def Copy.Inside (k : Copy) : Prop :=
  k.size = 0 ∨ (0 ≤ k.address.toInt ∧ k.address.toInt + k.size.toNat ≤ k.memsz.toNat)

/-- The configured image lies inside the guest's memory. -/
def Cache.ImageFits (c : Cache S F) : Prop :=
  0 ≤ c.mBinaryStart.toInt ∧
    c.mBinaryStart.toInt + c.mBinarySize.toNat ≤ c.mMemsz.toNat

namespace System

/-- Every region of the shared reset state fits, and so did every copy. -/
structure RegionsFit (s : System S F) : Prop where
  regions : ∀ r, s.cache.mReset = some r → ∀ g ∈ r.regions, g.Fits s.cache.mMemsz
  copies : ∀ k ∈ s.copies, k.Inside

/-- The check that is missing: on the image when a first virtine is about
to be allocated from it, on `rdx` at a snapshot. -/
def InBounds (s : System S F) : Op S F → Prop
  | .get _ => s.cache.mReset = none → s.cache.ImageFits
  | .ensure _ count =>
      s.cache.mReset = none →
        s.cache.mCache.length < (count.signExtend 64).toNat → s.cache.ImageFits
  | .snapshot i _ =>
      ∀ v, s.held[i]? = some v → v.regs.rdx.toNat ≤ s.cache.mMemsz.toNat
  | _ => True

end System

/-- A reset that goes through copies inside the memory if the regions fit. -/
theorem Virtine.copies_inside {v : Virtine S F} {r : ResetState S F} {memsz : BitVec 64}
    (hs : v.mMemsz = memsz ∨ v.mMem = 0) (hc : ∀ g ∈ r.regions, g.Copyable v)
    (hf : ∀ g ∈ r.regions, g.Fits memsz) : ∀ k ∈ v.copies r, k.Inside := by
  intro k hk
  obtain ⟨g, hg, rfl⟩ := List.mem_map.mp hk
  rcases hc g hg with hz | ⟨_, hm, _⟩
  · exact .inl hz
  · rcases hs with hs | hs
    · exact .inr (hs ▸ hf g hg)
    · exact absurd hs hm

/-- The regions fit after an allocation if the ones there were fit, or if
there were none and the image fits. -/
theorem Cache.Arms.fits_iff {c : Cache S F} {r : ResetState S F} (h : c.Arms r)
    (hp : ∀ r, c.mReset = some r → ∀ g ∈ r.regions, g.Fits c.mMemsz) :
    (∀ g ∈ r.regions, g.Fits c.mMemsz) ↔ (c.mReset = none → c.ImageFits) := by
  rcases h with h | ⟨h, _, w, _, rfl⟩
  · simp only [h, reduceCtorEq, false_implies, iff_true]
    exact hp r h
  · simp [h, Cache.initialReset, ResetMemory.Fits, Cache.ImageFits]

/-- A snapshot's region fits when `rdx` is in bounds. -/
theorem Machine.captured_fits_iff {v : Machine S F} {buffer : Bool} {memsz : BitVec 64} :
    (∀ g ∈ (v.captured buffer).regions, g.Fits memsz) ↔
      v.regs.rdx.toNat ≤ memsz.toNat := by
  simp only [Machine.captured, List.mem_singleton, forall_eq, ResetMemory.Fits]
  rw [show (0 : BitVec 64).toInt = 0 from rfl]
  omega

namespace System

/-- Adding copies keeps the log inside just when they are inside. -/
theorem RegionsFit.of_append {s t : System S F} {ks : List Copy} (hp : s.RegionsFit)
    (hr : ∀ r, t.cache.mReset = some r → ∀ g ∈ r.regions, g.Fits t.cache.mMemsz)
    (hc : t.copies = s.copies ++ ks) (hk : ∀ k ∈ ks, k.Inside) : t.RegionsFit := by
  refine ⟨hr, fun k hmem => ?_⟩
  rw [hc] at hmem
  rcases List.mem_append.mp hmem with hmem | hmem
  · exact hp.copies k hmem
  · exact hk k hmem

/-- **One step.** From a state in which the regions fit, a step is in
bounds exactly when they fit after it. -/
theorem Effect.inBounds_iff {s t : System S F} {op : Op S F} (hI : s.Inv)
    (hp : s.RegionsFit) (h : Effect s op t) : s.InBounds op ↔ t.RegionsFit := by
  cases h with
  | setBinary | loadBinary | guest _ =>
      exact ⟨fun _ => ⟨hp.regions, hp.copies⟩, fun _ => trivial⟩
  | @hit _ v rest hpool =>
      obtain ⟨r, hr⟩ := (hI.pooled v (by rw [hpool]; exact List.mem_cons_self)).armed
      refine ⟨fun _ => ⟨hp.regions, hp.copies⟩, fun _ hn => ?_⟩
      rw [hr] at hn
      cases hn
  | @miss _ v r _ ha hf =>
      have hfit := ha.fits_iff hp.regions
      constructor
      · intro hb
        refine hp.of_append ?_ rfl (Virtine.copies_inside hf.sized hf.copyable (hfit.mpr hb))
        rintro _ ⟨⟩
        exact hfit.mpr hb
      · intro ht
        exact hfit.mp (ht.regions r rfl)
  | @put _ v r hv hr hc =>
      have ho := hI.owned v (List.mem_of_getElem? hv)
      refine ⟨fun _ => ?_, fun _ => trivial⟩
      exact hp.of_append hp.regions rfl
        (Virtine.copies_inside ho.sized hc (hp.regions r hr))
  | full hle => exact ⟨fun _ => hp, fun _ _ hlt => absurd hlt (by omega)⟩
  | @grow _ _ vs r _ hlt ha hf =>
      have hfit := ha.fits_iff hp.regions
      constructor
      · intro hb
        have hb' := hfit.mpr fun hn => hb hn hlt
        refine hp.of_append ?_ rfl ?_
        · rintro _ ⟨⟩
          exact hb'
        · intro k hk
          obtain ⟨v, hv, hk⟩ := List.mem_flatMap.mp hk
          exact Virtine.copies_inside (hf v hv).sized (hf v hv).copyable hb' k hk
      · intro ht hn _
        exact hfit.mp (ht.regions r rfl) hn
  | @snapshot _ _ v hv hm =>
      constructor
      · intro hb
        have hle := hb v hv
        refine hp.of_append ?_ rfl ?_
        · rintro _ ⟨⟩
          exact Machine.captured_fits_iff.mpr hle
        · intro k hk
          rw [List.mem_singleton.mp hk]
          rcases hm with hz | ⟨_, hmem⟩
          · exact .inl hz
          · have hs := (hI.owned v (List.mem_of_getElem? hv)).sized.resolve_right hmem
            refine .inr ⟨Int.le_refl 0, ?_⟩
            show 0 + (v.regs.rdx.toNat : Int) ≤ v.mMemsz.toNat
            rw [hs]
            omega
      · intro ht w hw
        rw [hv, Option.some.injEq] at hw
        subst hw
        exact Machine.captured_fits_iff.mp (ht.regions _ rfl)

theorem init_regionsFit (memsz size start : BitVec 64) :
    (init memsz size start : System S F).RegionsFit :=
  ⟨by simp [init, Cache.new], by simp [init]⟩

/-- **Reset regions fit the guest** in every state of a history exactly
when every step of it is in bounds. -/
theorem regions_fit_iff (memsz size start : BitVec 64) (ops : List (Op S F))
    (s : System S F) :
    Run (Guarded InBounds Step) (init memsz size start) ops s ↔
      Run (Keeping RegionsFit Step) (init memsz size start) ops s :=
  Run.guarded_iff_keeping (fun _ _ _ hI h => h.inv hI)
    (fun _ _ _ hI hp h => (h.effect hI).inBounds_iff hI hp)
    (init_inv memsz size start) (init_regionsFit memsz size start)

/-- A guest with one page of memory takes a snapshot of two. -/
theorem snapshot_exceeds_memory :
    ∃ ops s, Run Step (init 0x1000 0 0 : System Unit Unit) ops s ∧ ¬ s.RegionsFit := by
  let m : Machine Unit Unit :=
    { regs := { rdi := 0xFF, rdx := 0x2000 }, sregs := (), fpu := (), mem := fun _ => 0 }
  refine ⟨[.setBinary (fun _ => 0) 16 0, .get plainKvm, .guest 0 m,
    .snapshot 0 fun _ => true], _, .cons .setBinary (.cons (.get rfl) (.cons (.guest rfl)
      (.cons (.snapshot rfl rfl) (.nil _)))), fun h => ?_⟩
  have hfit := h.regions _ rfl _ (List.mem_singleton_self _)
  exact absurd hfit.2 (by decide)

end System

end Wasp
