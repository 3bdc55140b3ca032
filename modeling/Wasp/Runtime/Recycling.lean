import Wasp.Runtime.RoundTrip

/-!
# Recycling — a pooled virtine against a fresh one

`get` promises a clean virtine, from the pool or newly allocated. `reset`
restores the registers and the regions and leaves the rest of the memory
to the next user, and a snapshot changes what a fresh virtine is while
others wait in the pool. The two cannot be told apart in exactly those
histories in which no guest leaves anything behind outside the regions
and no snapshot outdates the pool.
-/

namespace Wasp

open ByteMem

variable {S F : Type}

/-- The same registers, and the same bytes below `memsz`. -/
structure Machine.Agrees (memsz : BitVec 64) (m m' : Machine S F) : Prop where
  regs : m.regs = m'.regs
  sregs : m.sregs = m'.sregs
  fpu : m.fpu = m'.fpu
  bytes : ∀ a < memsz.toNat, m.mem a = m'.mem a

/-- The machine that resetting a newly mapped, zeroed memory to `r` gives. -/
def ResetState.fresh (r : ResetState S F) : Machine S F :=
  { regs := r.regs, sregs := r.sregs, fpu := r.fpu, mem := r.write fun _ => 0 }

theorem Virtine.FreshOver.agrees {v : Virtine S F} {r : ResetState S F} {memsz : BitVec 64}
    (h : v.FreshOver r memsz) (n : BitVec 64) : v.toMachine.Agrees n r.fresh :=
  ⟨h.regs, h.sregs, h.fpu, fun a _ => by rw [h.mem]; rfl⟩

namespace System

/-- Every virtine of the pool is what `allocate` would build now. -/
def PoolFresh (s : System S F) : Prop :=
  ∀ r, s.cache.mReset = some r →
    ∀ v ∈ s.cache.mCache, v.toMachine.Agrees s.cache.mMemsz r.fresh

/-- What a hit returns is what `allocate` would return. -/
def HitFresh (s : System S F) : Prop :=
  ∀ (kvm kvm' : Kvm S F) (v w : Virtine S F) (c c' : Cache S F),
    s.cache.mCache ≠ [] → s.cache.get kvm = (.ok v, c) →
    s.cache.allocate kvm' = (.ok w, c') → v.toMachine.Agrees s.cache.mMemsz w.toMachine

/-- The guest that is put away has left no byte behind where the reset
does not reach; and a snapshot is taken only while each virtine of the
pool already is in the state it captures. -/
def Clean (s : System S F) : Op S F → Prop
  | .put i => ∀ v r, s.held[i]? = some v → s.cache.mReset = some r →
      ∀ a < s.cache.mMemsz.toNat, ¬ r.Covers a → v.mem a = 0
  | .snapshot i _ => ∀ v, s.held[i]? = some v → ∀ w ∈ s.cache.mCache,
      w.regs = v.regs.skipOut ∧ w.sregs = v.sregs ∧ w.fpu = v.fpu ∧
        ∀ a < s.cache.mMemsz.toNat,
          w.mem a = if a < v.regs.rdx.toNat then v.mem a else 0
  | _ => True

theorem captured_fresh_mem {v : Machine S F} {buffer : Bool}
    (h : v.regs.rdx = 0 ∨ buffer = true) (a : Nat) :
    (v.captured buffer).fresh.mem a = if a < v.regs.rdx.toNat then v.mem a else 0 := by
  obtain ⟨hin, hout⟩ := Machine.captured_bytes h fun _ => 0
  split
  · exact hin a ‹_›
  · exact hout a (by omega)

/-- A virtine that was reset is a fresh one just when there was no byte of
its guest outside the regions. -/
theorem reset_agrees_iff {r : ResetState S F} (hs : r.Single) (v : Virtine S F)
    (memsz : BitVec 64) :
    ({ v with regs := r.regs, sregs := r.sregs, fpu := r.fpu,
              mem := r.write v.mem } : Virtine S F).toMachine.Agrees memsz r.fresh ↔
      ∀ a < memsz.toNat, ¬ r.Covers a → v.mem a = 0 := by
  constructor
  · intro h a ha hcov
    have hb := h.bytes a ha
    simp only [ResetState.fresh, ResetState.write_uncovered hcov] at hb
    exact hb
  · intro h
    refine ⟨rfl, rfl, rfl, fun a ha => ?_⟩
    by_cases hcov : r.Covers a
    · exact ResetState.write_covered hs.backed hcov _ _
    · show r.write v.mem a = r.write (fun _ => 0) a
      rw [ResetState.write_uncovered hcov, ResetState.write_uncovered hcov]
      exact h a ha hcov

/-- **One step.** From a state with a fresh pool, a step is clean exactly
when the pool is fresh after it. -/
theorem Effect.clean_iff {s t : System S F} {op : Op S F} (hI : s.Inv)
    (hp : s.PoolFresh) (h : Effect s op t) : s.Clean op ↔ t.PoolFresh := by
  cases h with
  | setBinary | loadBinary | full _ | guest _ => exact ⟨fun _ => hp, fun _ => trivial⟩
  | hit hpool =>
      refine ⟨fun _ r hr v hv => hp r hr v ?_, fun _ => trivial⟩
      rw [hpool]
      exact List.mem_cons_of_mem _ hv
  | miss hpool _ _ =>
      refine ⟨fun _ r _ v hv => ?_, fun _ => trivial⟩
      rw [show _ = [] from hpool] at hv
      cases hv
  | @put i v r hv hr _ =>
      have hiff := reset_agrees_iff (hI.single r hr) v s.cache.mMemsz
      constructor
      · intro hc r' hr' w hw
        obtain rfl : r = r' := Option.some.inj (hr.symm.trans hr')
        rcases List.mem_append.mp hw with hw | hw
        · exact hp r hr w hw
        · rw [List.mem_singleton.mp hw]
          exact hiff.mpr (hc v r hv hr)
      · intro ht v' r' hv' hr'
        rw [hv, Option.some.injEq] at hv'
        subst hv'
        obtain rfl : r = r' := Option.some.inj (hr.symm.trans hr')
        exact hiff.mp (ht r hr _ (List.mem_append_right _ List.mem_cons_self))
  | @grow _ _ vs r _ _ ha hf =>
      refine ⟨fun _ => ?_, fun _ => trivial⟩
      rintro _ ⟨⟩ w hw
      rcases List.mem_append.mp hw with hw | hw
      · exact (hf w hw).agrees _
      · obtain ⟨r', hr'⟩ := (hI.pooled w hw).armed
        rw [ha.eq_of_some hr']
        exact hp r' hr' w hw
  | @snapshot i malloc v hv hm =>
      have hmem := captured_fresh_mem (hm.imp_right And.left)
      constructor
      · rintro hc _ ⟨⟩ w hw
        obtain ⟨hregs, hsregs, hfpu, hbytes⟩ := hc v hv w hw
        exact ⟨hregs, hsregs, hfpu, fun a ha => (hbytes a ha).trans (hmem a).symm⟩
      · intro ht v' hv' w hw
        rw [hv, Option.some.injEq] at hv'
        subst hv'
        have hag := ht _ rfl w hw
        exact ⟨hag.regs, hag.sregs, hag.fpu, fun a ha => (hag.bytes a ha).trans (hmem a)⟩

/-- With a fresh pool a hit is as good as a miss. -/
theorem PoolFresh.hitFresh {s : System S F} (hI : s.Inv) (h : s.PoolFresh) :
    s.HitFresh := by
  intro kvm kvm' v w c c' hne hget halloc
  rcases (Cache.get_ok hget).2 with ⟨rest, hpool, _⟩ | ⟨hpool, _⟩
  · have hv : v ∈ s.cache.mCache := by
      rw [hpool]
      exact List.mem_cons_self
    obtain ⟨r, hr⟩ := (hI.pooled v hv).armed
    obtain ⟨r', ha, hf, _⟩ := Cache.allocate_ok halloc
    rw [ha.eq_of_some hr] at hf
    have hag := h r hr v hv
    have hag' := hf.agrees s.cache.mMemsz
    exact ⟨hag.regs.trans hag'.regs.symm, hag.sregs.trans hag'.sregs.symm,
      hag.fpu.trans hag'.fpu.symm, fun a ha => (hag.bytes a ha).trans (hag'.bytes a ha).symm⟩
  · exact absurd hpool hne

/-- **A hit is indistinguishable from a miss** in every state of a history
with clean steps, and the clean histories are exactly those along which
the whole pool stays as `allocate` would build it. -/
theorem hit_fresh_of_clean (memsz size start : BitVec 64) (ops : List (Op S F))
    (s : System S F) :
    (Run (Guarded Clean Step) (init memsz size start) ops s → s.HitFresh) ∧
      (Run (Guarded Clean Step) (init memsz size start) ops s ↔
        Run (Keeping PoolFresh Step) (init memsz size start) ops s) := by
  have hinit : (init memsz size start : System S F).PoolFresh := by
    simp [PoolFresh, init, Cache.new]
  have hiff : Run (Guarded Clean Step) (init memsz size start) ops s ↔
      Run (Keeping PoolFresh Step) (init memsz size start) ops s :=
    Run.guarded_iff_keeping (fun _ _ _ hI h => h.inv hI)
      (fun _ _ _ hI hp h => (h.effect hI).clean_iff hI hp) (init_inv ..) hinit
  refine ⟨fun h => ?_, hiff⟩
  have hI : s.Inv := h.invariant (fun _ _ _ hI hst => hst.2.inv hI) (init_inv ..)
  have hp : s.PoolFresh := (hiff.mp h).invariant (fun _ _ _ _ hst => hst.2) hinit
  exact hp.hitFresh hI

/-- A guest that has written one byte outside its image. -/
def littering : Machine Unit Unit :=
  { regs := {}, sregs := (), fpu := (), mem := fun a => if a = 100 then 7 else 0 }

/-- The next user of the virtine finds the byte. -/
theorem hit_not_fresh : ∃ ops s,
    Run Step (init 0x1000 0 0 : System Unit Unit) ops s ∧ ¬ s.HitFresh := by
  obtain ⟨s, v, w, c, c', hrun, hne, hget, halloc, ha, hv, hw⟩ :
      ∃ (s : System Unit Unit) (v w : Virtine Unit Unit) (c c' : Cache Unit Unit),
      Run Step (init 0x1000 0 0)
        [.setBinary (fun _ => 0) 16 0, .get plainKvm, .guest 0 littering, .put 0] s ∧
      s.cache.mCache ≠ [] ∧ s.cache.get plainKvm = (.ok v, c) ∧
      s.cache.allocate plainKvm = (.ok w, c') ∧ 100 < s.cache.mMemsz.toNat ∧
      v.mem 100 = 7 ∧ w.mem 100 = 0 :=
    ⟨_, _, _, _, _, .cons .setBinary (.cons (.get rfl) (.cons (.guest rfl)
      (.cons (.put rfl rfl) (.nil _)))), by simp, rfl, rfl, by decide, rfl, rfl⟩
  refine ⟨_, s, hrun, fun h => ?_⟩
  have hb := (h plainKvm plainKvm v w c c' hne hget halloc).bytes 100 ha
  rw [hv, hw] at hb
  exact absurd hb (by decide)

end System

end Wasp
