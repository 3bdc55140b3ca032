import Wasp.Runtime.CacheRun
import Wasp.Runtime.Failure
import Wasp.Runtime.Loading

/-!
# CacheLoad — an image given to the cache

The same image can be put into a fresh virtine with `load_raw`, or given to
the cache with `set_binary` before a `get`. `Cache::allocate` reads the image
once, when it makes the reset state that all virtines share, together with
the registers of the virtine at hand. So `set_binary` counts for nothing once
there is a reset state (`Step.withImage`), and before that it places the
image and leaves the instruction pointer at `0x8000` (`FirstImage`).
-/

namespace Wasp

open ByteMem

variable {S F : Type}

/-- The image is in place and the virtine is about to run it. -/
def Virtine.HasImage (v : Virtine S F) (bin : Nat → UInt8) (size start : BitVec 64) : Prop :=
  (∀ i < size.toNat, v.mem (start.toNat + i) = bin i) ∧ v.regs.rip = start

/-! ## The direct way -/

namespace Cache

/-- The cache with other image fields. -/
def withImage (c : Cache S F) (image : Option (Nat → UInt8)) (size start : BitVec 64) :
    Cache S F :=
  { c with mBinary := image, mBinarySize := size, mBinaryStart := start }

section Armed

variable {c : Cache S F} {r : ResetState S F} {image : Option (Nat → UInt8)}
  {size start : BitVec 64}

theorem allocate_withImage (hr : c.mReset = some r) (kvm : Kvm S F) :
    (c.withImage image size start).allocate kvm =
      ((c.allocate kvm).1, (c.allocate kvm).2.withImage image size start) := by
  have hr' : (c.withImage image size start).mReset = some r := hr
  unfold allocate
  rw [hr, hr']
  cases Virtine.new kvm with
  | error e => rfl
  | ok v =>
      simp only [Option.getD_some]
      have hm : (c.withImage image size start).mMemsz = c.mMemsz := rfl
      rw [hm]
      split <;> rfl

theorem allocate_armed (hr : c.mReset = some r) (kvm : Kvm S F) :
    (c.allocate kvm).2.mReset = some r := by
  unfold allocate
  rw [hr]
  cases Virtine.new kvm with
  | error e => exact hr
  | ok v =>
      simp only [Option.getD_some]
      split <;> rfl

theorem ensureLoop_withImage {kvm : Nat → Kvm S F} {n : Nat} (hr : c.mReset = some r)
    {c' : Cache S F} (h : ensureLoop kvm n c = (.ok (), c')) :
    ensureLoop kvm n (c.withImage image size start) =
      (.ok (), c'.withImage image size start) ∧ c'.mReset = some r := by
  induction n generalizing c with
  | zero =>
      cases h
      exact ⟨rfl, hr⟩
  | succ n ih =>
      have hr' := allocate_armed hr (kvm n)
      rw [ensureLoop] at h ⊢
      rw [allocate_withImage hr]
      cases ha : c.allocate (kvm n) with
      | mk res c₁ =>
          rw [ha] at h hr'
          cases res with
          | error e => cases h
          | ok v => exact ih (c := { c₁ with mCache := v :: c₁.mCache }) hr' h

theorem ensure_withImage {kvm : Nat → Kvm S F} {count : BitVec 32} (hr : c.mReset = some r)
    {c' : Cache S F} (h : c.ensure kvm count = (.ok (), c')) :
    (c.withImage image size start).ensure kvm count =
      (.ok (), c'.withImage image size start) := by
  cases hl : c.locked with
  | true =>
      rw [ensure, if_pos hl] at h
      cases h
  | false =>
      have hl' : (c.withImage image size start).locked = false := hl
      have hr' : ({ c with locked := true } : Cache S F).mReset = some r := hr
      rw [PoolCall.ensure_open hl] at h
      split at h
      · rename_i hloop
        cases h
        have hloop' : ensureLoop kvm (PoolCall.missing (c.withImage image size start) count)
            { c.withImage image size start with locked := true } = _ :=
          (ensureLoop_withImage hr' hloop).1
        rw [PoolCall.ensure_open hl', hloop']
        rfl
      · cases h

theorem snapshot_withImage (hr : c.mReset = some r) {malloc : BitVec 64 → Bool}
    {v v' : Virtine S F} {c' : Cache S F} (h : c.snapshot malloc v = .ok (v', c')) :
    (∃ r', c'.mReset = some r') ∧ (c.withImage image size start).snapshot malloc v =
      .ok (v', c'.withImage image size start) := by
  unfold snapshot at h ⊢
  dsimp only at h ⊢
  split at h
  · cases h
  · rename_i hok
    rw [if_neg hok]
    split at h
    · rename_i hm
      cases h
      exact ⟨⟨_, rfl⟩, if_pos hm⟩
    · rename_i hm
      cases h
      exact ⟨⟨r, hr⟩, if_neg hm⟩

end Armed

end Cache

/-- An operation that neither gives the cache an image nor takes a virtine. -/
def Op.Quiet : Op S F → Prop
  | .setBinary .. | .loadBinary .. | .get .. => False
  | .put .. | .ensure .. | .guest .. | .snapshot .. => True

namespace System

def Armed (s : System S F) : Prop := ∃ r, s.cache.mReset = some r

def withImage (s : System S F) (image : Option (Nat → UInt8)) (size start : BitVec 64) :
    System S F :=
  { s with cache := s.cache.withImage image size start }

theorem Step.withImage {s t : System S F} {op : Op S F} (image : Option (Nat → UInt8))
    (size start : BitVec 64) (ha : s.Armed) (hq : op.Quiet) (h : Step s op t) :
    t.Armed ∧ Step (s.withImage image size start) op (t.withImage image size start) := by
  obtain ⟨r, hr⟩ := ha
  cases h with
  | setBinary => exact hq.elim
  | loadBinary => exact hq.elim
  | get => exact hq.elim
  | put hv hp =>
      obtain ⟨hl, v', hreset, rfl⟩ := Cache.put_eq_ok.mp hp
      exact ⟨⟨r, hr⟩, .put hv (Cache.put_eq_ok.mpr ⟨hl, v', hreset, rfl⟩)⟩
  | ensure he hvs =>
      refine ⟨?_, .ensure (Cache.ensure_withImage hr he) hvs⟩
      obtain ⟨us, ⟨-, rfl⟩ | ⟨-, r', -, -, rfl⟩, -⟩ := Cache.ensure_ok he
      · exact ⟨r, hr⟩
      · exact ⟨r', rfl⟩
  | guest hv => exact ⟨⟨r, hr⟩, .guest hv⟩
  | snapshot hv hs =>
      obtain ⟨harmed, hs'⟩ := Cache.snapshot_withImage hr hs
      exact ⟨harmed, .snapshot hv hs'⟩

/-- Only virtines of the image `bin` with `rip` at `0x8000` can be handed out. -/
structure FirstImage (bin : Nat → UInt8) (size start : BitVec 64) (s : System S F) : Prop where
  inv : s.Inv
  unheld : s.held = []
  image : s.cache.mBinary = some bin ∧ s.cache.mBinarySize = size ∧
    s.cache.mBinaryStart = start
  reset : ∀ r, s.cache.mReset = some r →
    r.regs.rip = 0x8000 ∧ r.regions = [{ data := some bin, address := start, size := size }]
  pool : ∀ v ∈ s.cache.mCache, ∃ r, s.cache.mReset = some r ∧ v.FreshOver r s.cache.mMemsz

theorem FirstImage.arms {bin : Nat → UInt8} {size start : BitVec 64} {s : System S F}
    (h : s.FirstImage bin size start) {r : ResetState S F} (hr : s.cache.Arms r) :
    r.regs.rip = 0x8000 ∧ r.regions = [{ data := some bin, address := start, size := size }] := by
  rcases hr with hr | ⟨-, kvm, w, hw, rfl⟩
  · exact h.reset r hr
  · obtain ⟨hbin, hsize, hstart⟩ := h.image
    rw [Cache.initialReset, hbin, hsize, hstart]
    exact ⟨(Virtine.new_regs hw).1, rfl⟩

/-- A reachable cache without a reset state has no virtines. -/
theorem Inv.unused {s : System S F} (h : s.Inv) (hr : s.cache.mReset = none) :
    s.held = [] ∧ s.cache.mCache = [] := by
  have hnone : ∀ v : Virtine S F, ¬ v.OwnedBy s.cache := by
    intro v hv
    obtain ⟨r, hr'⟩ := hv.armed
    rw [hr] at hr'
    cases hr'
  exact ⟨List.eq_nil_iff_forall_not_mem.mpr fun v hv => hnone v (h.owned v hv),
    List.eq_nil_iff_forall_not_mem.mpr fun v hv => hnone v (h.pooled v hv)⟩

theorem FirstImage.step {bin : Nat → UInt8} {size start : BitVec 64} {s t : System S F}
    {op : Op S F} (h : s.FirstImage bin size start) (hq : op.Quiet) (hst : Step s op t) :
    t.FirstImage bin size start := by
  have hinv := hst.inv h.inv
  have hnone : ∀ (i : Nat) (v : Virtine S F), s.held[i]? ≠ some v := by
    intro i v
    rw [h.unheld]
    simp
  cases hst.effect h.inv with
  | setBinary => exact hq.elim
  | loadBinary => exact hq.elim
  | hit => exact hq.elim
  | miss => exact hq.elim
  | put hv => exact absurd hv (hnone _ _)
  | guest hv => exact absurd hv (hnone _ _)
  | snapshot hv => exact absurd hv (hnone _ _)
  | full => exact h
  | @grow _ _ vs r _ _ hr hf =>
      refine ⟨hinv, h.unheld, h.image, ?_, ?_⟩
      · rintro _ ⟨⟩
        exact h.arms hr
      · intro v hv
        refine ⟨r, rfl, ?_⟩
        rcases List.mem_append.mp hv with hv | hv
        · exact hf v hv
        · obtain ⟨r', hr', hf'⟩ := h.pool v hv
          rw [hr.eq_of_some hr']
          exact hf'

theorem FirstImage.get {bin : Nat → UInt8} {size start : BitVec 64} {s : System S F}
    (h : s.FirstImage bin size start) {kvm : Kvm S F} {v : Virtine S F} {c : Cache S F}
    (hget : s.cache.get kvm = (.ok v, c)) :
    v.HasImage bin size start ↔ start = 0x8000 := by
  obtain ⟨r, hrip, hregions, hf⟩ : ∃ r, r.regs.rip = 0x8000 ∧
      r.regions = [{ data := some bin, address := start, size := size }] ∧
      v.FreshOver r s.cache.mMemsz := by
    obtain ⟨-, ⟨rest, hp, -⟩ | ⟨-, r, hr, hf, -⟩⟩ := Cache.get_ok hget
    · obtain ⟨r, hr, hf⟩ := h.pool v (by simp [hp])
      exact ⟨r, (h.reset r hr).1, (h.reset r hr).2, hf⟩
    · exact ⟨r, (h.arms hr).1, (h.arms hr).2, hf⟩
  have hbytes : ∀ i < size.toNat, v.mem (start.toNat + i) = bin i := by
    intro i hi
    rw [hf.mem, ResetState.write, hregions]
    exact blit_offset (m := fun _ => 0) hi
  unfold Virtine.HasImage
  rw [hf.regs, hrip]
  exact ⟨fun himg => himg.2.symm, fun hs => ⟨hbytes, hs.symm⟩⟩

end System

end Wasp
