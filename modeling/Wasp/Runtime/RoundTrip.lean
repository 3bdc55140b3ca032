import Mathlib.Data.List.Forall2
import Wasp.Runtime.CacheRun

/-!
# RoundTrip — what a snapshot captures, a reset restores

The reset state is shared, and virtines reset to older versions of it wait
in the pool: each one still is what its own reset made of it. From a
snapshot to the next one the shared state does not change, so that every
virtine that is put or allocated in between resumes that snapshot.
-/

namespace Wasp

open ByteMem

variable {S F : Type}

/-- `v` is in the state `r` saves: registers, special registers, FPU and
every byte of the regions. -/
structure Virtine.Matches (v : Virtine S F) (r : ResetState S F) : Prop where
  regs : v.regs = r.regs
  sregs : v.sregs = r.sregs
  fpu : v.fpu = r.fpu
  bytes : ∀ g ∈ r.regions, ∀ i < g.size.toNat,
    ∃ d, g.data = some d ∧ v.mem (g.address.toNat + i) = d i

/-- `w` resumes where `v` took a snapshot of `[0, rdx)`. -/
structure Virtine.Resumes (w v : Virtine S F) : Prop where
  regs : w.regs = v.regs.skipOut
  sregs : w.sregs = v.sregs
  fpu : w.fpu = v.fpu
  bytes : ∀ a < v.regs.rdx.toNat, w.mem a = v.mem a

/-! ## Writing the regions back -/

theorem ResetState.Single.write_bytes {r : ResetState S F} (h : r.Single)
    (m : Nat → UInt8) : ∀ g ∈ r.regions, ∀ i < g.size.toNat,
      ∃ d, g.data = some d ∧ r.write m (g.address.toNat + i) = d i := by
  obtain ⟨g, hg, hd⟩ := h
  intro g' hg' i hi
  rw [hg, List.mem_singleton] at hg'
  subst hg'
  rcases hd with hz | hd
  · simp [hz] at hi
  · obtain ⟨d, hd⟩ := Option.ne_none_iff_exists'.mp hd
    refine ⟨d, hd, ?_⟩
    simp only [ResetState.write, hg, List.foldl_cons, List.foldl_nil, ResetMemory.write, hd]
    exact blit_offset hi

theorem Virtine.FreshOver.matches_state {v : Virtine S F} {r : ResetState S F}
    {memsz : BitVec 64} (h : v.FreshOver r memsz) (hs : r.Single) : v.Matches r :=
  ⟨h.regs, h.sregs, h.fpu, by rw [h.mem]; exact hs.write_bytes _⟩

/-- Over a snapshot's state a reset leaves `[0, rdx)` as captured and every
other byte as it found it. -/
theorem Machine.captured_bytes {v : Machine S F} {buffer : Bool}
    (h : v.regs.rdx = 0 ∨ buffer = true) (m : Nat → UInt8) :
    (∀ a < v.regs.rdx.toNat, (v.captured buffer).write m a = v.mem a) ∧
      ∀ a, v.regs.rdx.toNat ≤ a → (v.captured buffer).write m a = m a := by
  rw [Machine.captured_write h]
  refine ⟨fun a ha => ?_, fun a ha => blit_outside (by omega)⟩
  rw [blit_inside (Nat.zero_le a) (by omega), Nat.sub_zero]

theorem Virtine.FreshOver.resumes {v w : Virtine S F} {buffer : Bool} {memsz : BitVec 64}
    (h : w.FreshOver (v.captured buffer) memsz) (hb : v.regs.rdx = 0 ∨ buffer = true) :
    w.Resumes v ∧ ∀ a, v.regs.rdx.toNat ≤ a → w.mem a = 0 := by
  obtain ⟨hin, hout⟩ := Machine.captured_bytes hb fun _ => 0
  rw [← h.mem] at hin hout
  exact ⟨⟨h.regs, h.sregs, h.fpu, hin⟩, hout⟩

namespace System

/-! ## The pool -/

theorem Effect.pool_matches {s t : System S F} {op : Op S F} (hI : s.Inv)
    (h : Effect s op t) (hp : List.Forall₂ Virtine.Matches s.cache.mCache s.stamps) :
    List.Forall₂ Virtine.Matches t.cache.mCache t.stamps := by
  cases h with
  | setBinary | loadBinary | full _ | guest _ | snapshot _ _ => exact hp
  | hit hpool =>
      rw [hpool] at hp
      obtain ⟨r, rs, _, hrest, hstamps⟩ := List.forall₂_cons_left_iff.mp hp
      simpa [hstamps] using hrest
  | miss hpool ha hf =>
      rw [hpool, List.forall₂_nil_left_iff] at hp
      simp [hpool, hp]
  | @put _ v r hv hr _ =>
      exact List.rel_append hp
        (.cons ⟨rfl, rfl, rfl, (hI.single r hr).write_bytes v.mem⟩ .nil)
  | @grow _ _ vs r hne _ ha hf =>
      refine List.rel_append ?_ hp
      rw [List.forall₂_map_right_iff, List.forall₂_same]
      exact fun v hv => (hf v hv).matches_state ((hf v hv).single ha hI.single)

/-! ## From one snapshot to the next -/

/-- A snapshot reads inside the guest's memory. -/
def SnapshotInside (s : System S F) : Op S F → Prop
  | .snapshot i _ =>
      ∀ v, s.held[i]? = some v → v.regs.rdx.toNat ≤ s.cache.mMemsz.toNat
  | _ => True

def NoSnapshot (_ : System S F) : Op S F → Prop
  | .snapshot _ _ => False
  | _ => True

/-- Only a snapshot replaces the reset state. -/
theorem Effect.keeps_reset {s t : System S F} {op : Op S F} {r : ResetState S F}
    (h : Effect s op t) (hop : s.NoSnapshot op) (hr : s.cache.mReset = some r) :
    t.cache.mReset = some r := by
  cases h with
  | setBinary | loadBinary | hit _ | full _ | guest _ | put _ _ _ => exact hr
  | miss _ ha _ => rw [ha.eq_of_some hr]
  | grow _ _ ha _ => rw [ha.eq_of_some hr]
  | snapshot _ _ => exact hop.elim

theorem Effect.put_resumes {s t : System S F} {i : Nat} {v w : Virtine S F} {b : Bool}
    (h : Effect s (.put i) t) (hr : s.cache.mReset = some (v.captured b))
    (hb : v.regs.rdx = 0 ∨ b = true) (hw : s.held[i]? = some w) :
    ∃ w', t.cache.mCache = s.cache.mCache ++ [w'] ∧ w'.Resumes v ∧
      ∀ a, v.regs.rdx.toNat ≤ a → w'.mem a = w.mem a := by
  cases h with
  | @put _ w' r hw' hr' _ =>
      rw [hw, Option.some.injEq] at hw'
      rw [hr, Option.some.injEq] at hr'
      subst hw' hr'
      obtain ⟨hin, hout⟩ := Machine.captured_bytes hb w.mem
      exact ⟨_, rfl, ⟨rfl, rfl, rfl, hin⟩, hout⟩

theorem Effect.miss_resumes {s t : System S F} {kvm : Kvm S F} {v : Virtine S F} {b : Bool}
    (h : Effect s (.get kvm) t) (hr : s.cache.mReset = some (v.captured b))
    (hb : v.regs.rdx = 0 ∨ b = true) (hp : s.cache.mCache = []) :
    ∃ w, t.held = w :: s.held ∧ w.Resumes v ∧ ∀ a, v.regs.rdx.toNat ≤ a → w.mem a = 0 := by
  cases h with
  | hit hp' =>
      rw [hp] at hp'
      cases hp'
  | miss _ ha hf =>
      rw [ha.eq_of_some hr] at hf
      exact ⟨_, rfl, hf.resumes hb⟩

theorem Effect.ensure_resumes {s t : System S F} {kvm : Nat → Kvm S F} {count : BitVec 32}
    {v : Virtine S F} {b : Bool} (h : Effect s (.ensure kvm count) t)
    (hr : s.cache.mReset = some (v.captured b)) (hb : v.regs.rdx = 0 ∨ b = true) :
    ∃ ws, t.cache.mCache = ws ++ s.cache.mCache ∧
      ∀ w ∈ ws, w.Resumes v ∧ ∀ a, v.regs.rdx.toNat ≤ a → w.mem a = 0 := by
  cases h with
  | full _ => exact ⟨[], rfl, by simp⟩
  | @grow _ _ vs r _ _ ha hf =>
      rw [ha.eq_of_some hr] at hf
      exact ⟨vs, rfl, fun w hw => (hf w hw).resumes hb⟩

/-- **Snapshot round trip.** In every history with snapshots inside the
guest's memory, each virtine of the pool is in the state it was last reset
to; and after a snapshot of `v`, up to the next one, each virtine that is
put, allocated by `get` or allocated by `ensure` resumes that snapshot,
with the bytes from `rdx` on untouched by the reset. -/
theorem snapshot_round_trip {memsz size start : BitVec 64} {ops : List (Op S F)}
    {s : System S F} (h : Run (Guarded SnapshotInside Step) (init memsz size start) ops s) :
    List.Forall₂ Virtine.Matches s.cache.mCache s.stamps ∧
    ∀ (i : Nat) (malloc : BitVec 64 → Bool) (t u : System S F) (v : Virtine S F)
      (ops' : List (Op S F)), s.held[i]? = some v →
      Guarded SnapshotInside Step s (.snapshot i malloc) t →
      Run (Guarded NoSnapshot Step) t ops' u →
      (∀ j w u', u.held[j]? = some w → Step u (.put j) u' →
        ∃ w', u'.cache.mCache = u.cache.mCache ++ [w'] ∧ w'.Resumes v ∧
          ∀ a, v.regs.rdx.toNat ≤ a → w'.mem a = w.mem a) ∧
      (∀ kvm u', u.cache.mCache = [] → Step u (.get kvm) u' →
        ∃ w, u'.held = w :: u.held ∧ w.Resumes v ∧
          ∀ a, v.regs.rdx.toNat ≤ a → w.mem a = 0) ∧
      (∀ kvm count u', Step u (.ensure kvm count) u' →
        ∃ ws, u'.cache.mCache = ws ++ u.cache.mCache ∧
          ∀ w ∈ ws, w.Resumes v ∧ ∀ a, v.regs.rdx.toNat ≤ a → w.mem a = 0) := by
  have hsI : s.Inv := h.invariant (fun _ _ _ hI hst => hst.2.inv hI) (init_inv ..)
  constructor
  · refine (h.invariant (I := fun s : System S F => s.Inv ∧
      List.Forall₂ Virtine.Matches s.cache.mCache s.stamps) ?_ ⟨init_inv .., .nil⟩).2
    rintro _ _ _ ⟨hI, hp⟩ ⟨_, hst⟩
    exact ⟨hst.inv hI, (hst.effect hI).pool_matches hI hp⟩
  · intro i malloc t u v ops' hv ht hrun
    have hsnap : ∃ b, (v.regs.rdx = 0 ∨ b = true) ∧
        t.cache.mReset = some (v.captured b) := by
      cases ht.2.effect hsI with
      | snapshot hv' hm =>
          rw [hv, Option.some.injEq] at hv'
          subst hv'
          exact ⟨_, hm.imp_right And.left, rfl⟩
    obtain ⟨b, hb, htr⟩ := hsnap
    obtain ⟨huI, hur⟩ : u.Inv ∧ u.cache.mReset = some (v.captured b) := by
      refine hrun.invariant (I := fun u : System S F => u.Inv ∧
        u.cache.mReset = some (v.captured b)) ?_ ⟨ht.2.inv hsI, htr⟩
      rintro _ _ _ ⟨hI, hr⟩ ⟨hno, hst⟩
      exact ⟨hst.inv hI, (hst.effect hI).keeps_reset hno hr⟩
    exact ⟨fun j w u' hw hst => (hst.effect huI).put_resumes hur hb hw,
      fun kvm u' hp hst => (hst.effect huI).miss_resumes hur hb hp,
      fun kvm count u' hst => (hst.effect huI).ensure_resumes hur hb⟩

/-- A guest at its snapshot of the first sixteen bytes. -/
def snapshotting : Machine Unit Unit :=
  { regs := { rdi := 0xFF, rdx := 16, rip := 0x8010 }, sregs := (), fpu := (),
    mem := fun a => if a = 3 then 7 else 0 }

/-- One of two virtines takes a snapshot, the other one is put and resumes it. -/
theorem second_virtine_resumes : ∃ (s t u : System Unit Unit) (v w : Virtine Unit Unit),
    Run (Guarded SnapshotInside Step) (init 0x1000 0 0)
      [.setBinary (fun _ => 0) 16 0, .get plainKvm, .get plainKvm, .guest 0 snapshotting] s ∧
    s.held[0]? = some v ∧ v.regs.rdx = 16 ∧ Step s (.snapshot 0 fun _ => true) t ∧
    Step t (.put 1) u ∧ u.cache.mCache = [w] ∧ w.Resumes v := by
  obtain ⟨s, t, u, v, w₀, hrun, hv, hrdx, hsnap, hw, hp, hput⟩ :
      ∃ (s t u : System Unit Unit) (v w₀ : Virtine Unit Unit),
      Run (Guarded SnapshotInside Step) (init 0x1000 0 0)
        [.setBinary (fun _ => 0) 16 0, .get plainKvm, .get plainKvm,
          .guest 0 snapshotting] s ∧
      s.held[0]? = some v ∧ v.regs.rdx = 16 ∧
      Guarded SnapshotInside Step s (.snapshot 0 fun _ => true) t ∧
      t.held[1]? = some w₀ ∧ t.cache.mCache = [] ∧ Step t (.put 1) u :=
    ⟨_, _, _, _, _,
      .cons ⟨trivial, .setBinary⟩ (.cons ⟨trivial, .get rfl⟩ (.cons ⟨trivial, .get rfl⟩
        (.cons ⟨trivial, .guest rfl⟩ (.nil _)))),
      rfl, rfl, ⟨fun v hv => by cases hv; decide, .snapshot rfl rfl⟩, rfl, rfl, .put rfl rfl⟩
  obtain ⟨w, hpool, hres, _⟩ :=
    ((snapshot_round_trip hrun).2 0 _ t t v [] hv hsnap (.nil t)).1 1 w₀ u hw hput
  rw [hp] at hpool
  exact ⟨s, t, u, v, w, hrun, hv, hrdx, hsnap.2, hput, hpool, hres⟩

end System

end Wasp
