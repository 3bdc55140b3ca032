import Wasp.Runtime.Invocation
import Wasp.Runtime.Recycling

/-!
# Isolation — what one invocation can learn about another

Two histories of invocations that differ only in the bytes of their
arguments are run side by side. The argument is copied to address 0 before
the guest runs, a snapshot saves memory from address 0 on, and what lies
outside the saved region stays in the virtine: so an argument reaches
later invocations by the reset state and by the memory that is not reset.
`Forgets` excludes both ways, and is exact: the histories that forget at
every invocation are those whose caches stay the same.
-/

namespace Wasp

variable {S F : Type}

/-- One invocation: what surrounds it, and its arguments. -/
structure Invocation (S F : Type) where
  env : Env
  kvm : Kvm S F
  call : Call

namespace Invocation

/-- The two differ at most in the bytes behind `arg`. -/
structure SameButArg (i j : Invocation S F) : Prop where
  env : i.env = j.env
  kvm : i.kvm = j.kvm
  null : i.call.arg.isSome = j.call.arg.isSome
  call : i.call = { j.call with arg := i.call.arg }

/-- The invocation starts its loop in `st`. -/
def Starts (i : Invocation S F) (k : Caches S F) (st : LoopState S F) : Prop :=
  i.call.start i.env i.kvm k = .ok st

def Returns (g : Cpu S F) (i : Invocation S F) (k : Caches S F) (ret : Returned S F) : Prop :=
  Wasp.Returns i.env (fun _ => g) i.kvm i.call k ret

end Invocation

/-- Two histories, one invocation further in each. -/
def PairStep (g : Cpu S F) : Caches S F × Caches S F → Invocation S F × Invocation S F →
    Caches S F × Caches S F → Prop :=
  fun k i k' => i.1.SameButArg i.2 ∧ (∃ arg, i.1.Returns g k.1 ⟨arg, k'.1⟩) ∧
    ∃ arg, i.2.Returns g k.2 ⟨arg, k'.2⟩

/-- A further invocation, the same in both histories, starts its guest from
the same registers and bytes and returns the same argument. -/
def FollowsAlike (g : Cpu S F) (k k' : Caches S F) : Prop :=
  ∀ i : Invocation S F,
    (∀ st, i.Starts k st → ∃ st', i.Starts k' st' ∧
      st'.vm.toMachine.Agrees st.vm.mMemsz st.vm.toMachine) ∧
    ∀ ret, i.Returns g k ret → ∃ ret', i.Returns g k' ret' ∧ ret'.arg = ret.arg

/-- The two invocations leave no trace of their arguments: the snapshots
on their traces (or the reset state they found) save the same, and the
guests leave the same bytes where the reset does not reach. -/
def Forgets (g : Cpu S F) (k : Caches S F × Caches S F)
    (i : Invocation S F × Invocation S F) : Prop :=
  ∀ st st' s s' : LoopState S F, i.1.Starts k.1 st → st.Ends i.1.env (fun _ => g) s →
    i.2.Starts k.2 st' → st'.Ends i.2.env (fun _ => g) s' →
    savedBy i.1.env st.cache.mReset s.trace = savedBy i.2.env st'.cache.mReset s'.trace ∧
    ∀ r, savedBy i.1.env st.cache.mReset s.trace = some r →
      ∀ a, ¬ r.Covers a → s.vm.mem a = s'.vm.mem a

/-! ## One invocation in each history -/

theorem ResetMemory.Copyable.backed {g : ResetMemory} {v : Virtine S F}
    (h : g.Copyable v) : g.size = 0 ∨ g.data ≠ none :=
  h.imp_right fun h => h.2.2

/-- After a reset that goes through, two memories are equal just when they
were equal outside the regions. -/
theorem ResetState.write_eq_iff {r : ResetState S F} {v : Virtine S F}
    (hc : ∀ g ∈ r.regions, g.Copyable v) (m m' : Nat → UInt8) :
    r.write m = r.write m' ↔ ∀ a, ¬ r.Covers a → m a = m' a := by
  constructor
  · intro h a ha
    rw [← ResetState.write_uncovered ha m, h, ResetState.write_uncovered ha]
  · intro h
    funext a
    by_cases ha : r.Covers a
    · exact ResetState.write_covered (fun g hg => (hc g hg).backed) ha m m'
    · rw [ResetState.write_uncovered ha, ResetState.write_uncovered ha, h a ha]

/-- Two recycled caches are equal just when the reset states are, and the
virtines' memories after their reset. -/
theorem Cache.recycled_inj {c : Cache S F} {v : Virtine S F} {r r' : ResetState S F}
    {m m' : Nat → UInt8} :
    c.recycled v r m = c.recycled v r' m' ↔ r = r' ∧ r.write m = r.write m' := by
  constructor
  · intro h
    have hr : r = r' := Option.some.inj (congrArg Cache.mReset h)
    subst hr
    have hpool := List.append_cancel_left (congrArg Cache.mCache h)
    exact ⟨rfl, congrArg (fun u => u.mem) (List.cons.inj hpool).1⟩
  · rintro ⟨rfl, hm⟩
    simp only [Cache.recycled, hm]

theorem Caches.set_inj {k : Caches S F} {code : BitVec 64} {c c' : Cache S F} :
    k.set code c = k.set code c' ↔ c = c' := by
  refine ⟨fun h => ?_, fun h => h ▸ rfl⟩
  simpa [Caches.set] using congrFun h code

/-- **One step.** From equal caches, the two invocations forget their
arguments exactly when they leave equal caches. -/
theorem forgets_iff {g : Cpu S F} {k : Caches S F} {k' : Caches S F × Caches S F}
    {i : Invocation S F × Invocation S F} (hk : k.Owned) (h : PairStep g (k, k) i k') :
    Forgets g (k, k) i ↔ k'.1 = k'.2 := by
  obtain ⟨hsame, ⟨arg, h₁⟩, ⟨arg', h₂⟩⟩ := h
  obtain ⟨v, w, c, s, r, hg, hc, he, hr, hcopy, hret⟩ := (returns_course hk).mp h₁
  obtain ⟨v', w', c', s', r', hg', hc', he', hr', _, hret'⟩ := (returns_course hk).mp h₂
  have hcode : i.1.call.code = i.2.call.code := by rw [hsame.call]
  have hcache : k.getCache i.1.call = k.getCache i.2.call := by
    rw [hsame.call]
    rfl
  rw [hcache, hsame.kvm, hg', Prod.mk.injEq, Except.ok.injEq] at hg
  obtain ⟨rfl, rfl⟩ := hg
  have hst : i.1.Starts k (i.1.call.entry (w.boot i.1.env.useSnapshots) c') :=
    Call.start_eq_ok.mpr ⟨v', w, c', by rw [hcache, hsame.kvm, hg'], hc, rfl⟩
  have hst' : i.2.Starts k (i.2.call.entry (w'.boot i.2.env.useSnapshots) c') :=
    Call.start_eq_ok.mpr ⟨v', w', c', hg', hc', rfl⟩
  rw [(Returned.mk.inj hret).2, (Returned.mk.inj hret').2, hcode, Caches.set_inj,
    Cache.recycled_inj, ResetState.write_eq_iff hcopy]
  constructor
  · intro hf
    obtain ⟨hsaved, hmem⟩ := hf _ _ s s' hst he hst' he'
    have hrr : some r = some r' := hr.symm.trans (hsaved.trans hr')
    exact ⟨Option.some.inj hrr, hmem r hr⟩
  · rintro ⟨rfl, hmem⟩ t t' u u' ht hu ht' hu'
    obtain rfl := Except.ok.inj (hst.symm.trans ht)
    obtain rfl := Except.ok.inj (hst'.symm.trans ht')
    obtain rfl := he.unique hu
    obtain rfl := he'.unique hu'
    refine ⟨hr.trans hr'.symm, fun r₀ hr₀ => ?_⟩
    obtain rfl : r = r₀ := Option.some.inj (hr.symm.trans hr₀)
    exact hmem

/-! ## Whole histories -/

/-- **Invocations do not leak into one another** along two histories that
forget at every invocation, and these histories are exactly those along
which the caches stay equal. -/
theorem follows_alike_of_forgets (g : Cpu S F)
    (history : List (Invocation S F × Invocation S F)) (k : Caches S F × Caches S F) :
    (Run (Guarded (Forgets g) (PairStep g)) (.empty, .empty) history k →
      FollowsAlike g k.1 k.2) ∧
    (Run (Guarded (Forgets g) (PairStep g)) (.empty, .empty) history k ↔
      Run (Keeping (fun k => k.1 = k.2) (PairStep g)) (.empty, .empty) history k) := by
  have hiff : Run (Guarded (Forgets g) (PairStep g)) (.empty, .empty) history k ↔
      Run (Keeping (fun k => k.1 = k.2) (PairStep g)) (.empty, .empty) history k := by
    refine Run.guarded_iff_keeping (I := fun k => k.1.Owned ∧ k.2.Owned) ?_ ?_ ?_ rfl
    · rintro k i k' ⟨hk₁, hk₂⟩ ⟨_, ⟨_, h₁⟩, ⟨_, h₂⟩⟩
      exact ⟨Wasp.Returns.owned hk₁ h₁, Wasp.Returns.owned hk₂ h₂⟩
    · rintro ⟨k₁, k₂⟩ i k' ⟨hk, _⟩ heq h
      obtain rfl : k₁ = k₂ := heq
      exact forgets_iff hk h
    · exact ⟨Caches.empty_owned, Caches.empty_owned⟩
  refine ⟨fun h => ?_, hiff⟩
  have hk : k.1 = k.2 :=
    (hiff.mp h).invariant (I := fun k => k.1 = k.2) (fun _ _ _ _ hst => hst.2) rfl
  intro i
  rw [hk]
  exact ⟨fun st hst => ⟨st, hst, rfl, rfl, rfl, fun _ _ => rfl⟩,
    fun ret hret => ⟨ret, hret, rfl⟩⟩

/-! ### A snapshot with the argument in it -/

/-- A guest that takes a snapshot of its first sixteen bytes and exits. -/
def hoarder : Cpu Unit Unit := fun m =>
  if m.regs.rip = 0x8000 then
    (⟨none, .io 0xFF⟩, { m with regs := { m.regs with rdi := 0xFF, rdx := 16 } })
  else (⟨none, .io 0xFA⟩, m)

def hoarding (arg : Option UInt8) : Invocation Unit Unit :=
  { env := quietEnv, kvm := plainKvm,
    call := { code := 0x4000, image := fun _ => 0, codesz := 1, memsz := 0x10000,
              arg := arg.map fun b _ => b, argsz := 1, config := none } }

/-- The next invocation, without an argument, starts with the byte that
the first one was given. -/
theorem argument_leaks : ¬ ∀ (g : Cpu Unit Unit)
    (history : List (Invocation Unit Unit × Invocation Unit Unit))
    (k : Caches Unit Unit × Caches Unit Unit),
    Run (PairStep g) (.empty, .empty) history k → FollowsAlike g k.1 k.2 := by
  intro h
  obtain ⟨k, k', st, st', hstep, hst, hst', hpos, hb, hb'⟩ :
      ∃ (k k' : Caches Unit Unit) (st st' : LoopState Unit Unit),
      PairStep hoarder (.empty, .empty) (hoarding (some 1), hoarding (some 2)) (k, k') ∧
      (hoarding none).call.start quietEnv plainKvm k = .ok st ∧
      (hoarding none).call.start quietEnv plainKvm k' = .ok st' ∧
      0 < st.vm.mMemsz.toNat ∧ st.vm.mem 0 = 1 ∧ st'.vm.mem 0 = 2 :=
    ⟨_, _, _, _, ⟨⟨rfl, rfl, rfl, rfl⟩, ⟨_, 2, rfl⟩, ⟨_, 2, rfl⟩⟩, rfl, rfl, by decide,
      rfl, rfl⟩
  obtain ⟨u, hu, hag⟩ := (h hoarder _ (k, k') (.single hstep) (hoarding none)).1 st hst
  obtain rfl := Except.ok.inj (hst'.symm.trans hu)
  have hbyte := hag.bytes 0 hpos
  rw [hb, hb'] at hbyte
  exact absurd hbyte (by decide)

end Wasp
