import Wasp.Runtime.RunVirtine

/-!
# Invocation — one whole call of `wasp_run_virtine`

What an invocation does to the cache is a function of its hypercall exits:
`savedBy` folds the snapshots of a trace into the reset state, and `After`
says that nothing else of the cache changes while the loop runs. `Returns`
is the call without its fuel.
-/

namespace Wasp

variable {S F : Type}

/-! ## The reset state along a trace -/

/-- The reset state a hypercall exit stores, if it stores one. -/
def Entry.saved (env : Env) (e : Entry S F) : Option (ResetState S F) :=
  if env.useSnapshots ∧ e.action = some .snapshot then
    some (e.machine.captured (env.malloc e.machine.regs.rdx))
  else none

/-- The shared reset state after the exits of a trace. -/
def savedBy (env : Env) (r : Option (ResetState S F)) (t : List (Entry S F)) :
    Option (ResetState S F) :=
  t.foldl (fun r e => (e.saved env).or r) r

theorem savedBy_append (env : Env) (r : Option (ResetState S F)) (t u : List (Entry S F)) :
    savedBy env r (t ++ u) = savedBy env (savedBy env r t) u :=
  List.foldl_append

/-- Exits that are no snapshots leave the reset state alone. -/
theorem savedBy_quiet {env : Env} {t : List (Entry S F)}
    (h : ∀ e ∈ t, e.action ≠ some .snapshot) (r : Option (ResetState S F)) :
    savedBy env r t = r := by
  induction t generalizing r with
  | nil => rfl
  | cons e t ih =>
      have he : e.saved env = none := by
        simp [Entry.saved, h e List.mem_cons_self]
      show savedBy env ((e.saved env).or r) t = r
      rw [he]
      exact ih (fun e' h' => h e' (List.mem_cons_of_mem _ h')) r

/-- The last snapshot counts. -/
theorem savedBy_snapshot {env : Env} (h : env.useSnapshots = true) (m : Machine S F)
    (r : Option (ResetState S F)) (t : List (Entry S F)) :
    savedBy env r (t ++ [⟨m, some .snapshot, none⟩]) =
      some (m.captured (env.malloc m.regs.rdx)) := by
  rw [savedBy_append]
  simp [savedBy, Entry.saved, h]

theorem LoopState.Handles.frame {env : Env} {st st' : LoopState S F} {a : Option Action}
    {r : Option HostResult} (hm : st.vm.mResetMask = true) (h : st.Handles env a r st') :
    (∃ m, st'.vm = { st.vm with toMachine := m }) ∧
      st'.cache = { st.cache with
        mReset := ((⟨st.vm.toMachine, a, r⟩ : Entry S F).saved env).or st.cache.mReset } := by
  cases h with
  | snapshot _ _ hu hs =>
      obtain ⟨hv, hc, _⟩ := Cache.snapshot_ok hm hs
      refine ⟨⟨_, hv⟩, ?_⟩
      rw [show (Entry.saved env ⟨st.vm.toMachine, some .snapshot, none⟩)
        = some (st.vm.captured (env.malloc st.vm.regs.rdx)) by simp [Entry.saved, hu]]
      exact hc
  | skip _ _ hu => exact ⟨⟨st.vm.toMachine, rfl⟩, by simp [Entry.saved, hu, LoopState.log]⟩
  | exit | call | invalid | nosys | denied =>
      exact ⟨⟨_, rfl⟩, by simp [Entry.saved, LoopState.log]⟩

/-- What the loop has done to the virtine and to the cache between two of
its states. -/
structure LoopState.After (env : Env) (st st' : LoopState S F) : Prop where
  vm : ∃ m, st'.vm = { st.vm with toMachine := m }
  whitelist : st'.whitelist = st.whitelist
  trace : ∃ t, st'.trace = st.trace ++ t ∧
    st'.cache = { st.cache with mReset := savedBy env st.cache.mReset t }

theorem LoopState.After.refl (env : Env) (st : LoopState S F) : st.After env st :=
  ⟨⟨st.vm.toMachine, rfl⟩, rfl, [], by simp, rfl⟩

theorem LoopState.After.trans {env : Env} {st st' st'' : LoopState S F}
    (h : st.After env st') (h' : st'.After env st'') : st.After env st'' := by
  obtain ⟨⟨m, hm⟩, hw, t, ht, hc⟩ := h
  obtain ⟨⟨m', hm'⟩, hw', t', ht', hc'⟩ := h'
  refine ⟨⟨m', by rw [hm', hm]⟩, hw'.trans hw, t ++ t', ?_, ?_⟩
  · rw [ht', ht, List.append_assoc]
  · rw [hc', hc, savedBy_append]

theorem LoopState.Turns.after {env : Env} {guest : Guest S F} {st st' : LoopState S F}
    (hm : st.vm.mResetMask = true) (h : st.Turns env guest st') : st.After env st' := by
  cases h with
  | @hyperCall k m _ a r hg hk hh =>
      have hm' : (st.exited m (some m.regs.rip)).vm.mResetMask = true := hm
      obtain ⟨⟨m', hv⟩, hc⟩ := hh.frame hm'
      refine ⟨⟨m', hv⟩, ?_, _, hh.trace, hc⟩
      cases hh <;> rfl
  | exited | resumed => exact ⟨⟨_, rfl⟩, rfl, [], (List.append_nil _).symm, rfl⟩

/-- **The loop and the cache.** Over any number of turns the loop changes
the machine of its virtine and the reset state of the cache, the latter by
the snapshots on its trace alone. -/
theorem LoopState.run_after {env : Env} {guest : Guest S F} {us : List Unit}
    {st st' : LoopState S F} (hm : st.vm.mResetMask = true)
    (h : Run (LoopState.Step env guest) st us st') : st.After env st' := by
  refine h.invariant (I := fun s => st.After env s) (fun s _ t hs hst => ?_) (.refl env st)
  have hmask : s.vm.mResetMask = true := by
    obtain ⟨m, hv⟩ := hs.vm
    rw [hv]
    exact hm
  exact hs.trans (hst.2.after hmask)

/-! ## Without the fuel -/

/-- The loop ends in `st'`. -/
def LoopState.Ends (env : Env) (guest : Guest S F) (st st' : LoopState S F) : Prop :=
  ∃ fuel, st.loop env guest fuel = .ok st' ∧ st'.done = true

/-- More fuel does not change how a finished loop ended. -/
theorem LoopState.loop_more {env : Env} {guest : Guest S F} {fuel : Nat}
    {st st' : LoopState S F} (h : st.loop env guest fuel = .ok st') (hd : st'.done = true)
    (n : Nat) : st.loop env guest (fuel + n) = .ok st' :=
  (LoopState.loop_add h n).trans (LoopState.loop_done hd n)

theorem LoopState.Ends.unique {env : Env} {guest : Guest S F} {st s t : LoopState S F}
    (hs : st.Ends env guest s) (ht : st.Ends env guest t) : s = t := by
  obtain ⟨n, hn, hd⟩ := hs
  obtain ⟨m, hm, hd'⟩ := ht
  have h1 := LoopState.loop_more hn hd m
  have h2 := LoopState.loop_more hm hd' n
  rw [Nat.add_comm, h2] at h1
  exact (Except.ok.inj h1).symm

theorem LoopState.Ends.after {env : Env} {guest : Guest S F} {st st' : LoopState S F}
    (hm : st.vm.mResetMask = true) (h : st.Ends env guest st') : st.After env st' := by
  obtain ⟨fuel, hl, _⟩ := h
  obtain ⟨us, hr⟩ := LoopState.loop_run hl
  exact LoopState.run_after hm hr

/-- `wasp_run_virtine` returns, with some number of turns. -/
def Returns (env : Env) (guest : Guest S F) (kvm : Kvm S F) (call : Call)
    (caches : Caches S F) (ret : Returned S F) : Prop :=
  ∃ fuel, waspRunVirtine env guest kvm fuel call caches = .ok (some ret)

theorem returns_iff {env : Env} {guest : Guest S F} {kvm : Kvm S F} {call : Call}
    {caches : Caches S F} {ret : Returned S F} :
    Returns env guest kvm call caches ret ↔
      ∃ st st', call.start env kvm caches = .ok st ∧ st.Ends env guest st' ∧
        call.finish caches st' = .ok ret := by
  constructor
  · rintro ⟨fuel, h⟩
    unfold waspRunVirtine at h
    split at h
    · cases h
    · rename_i st hst
      split at h
      · cases h
      · rename_i st' hl
        split at h
        · rename_i hd
          cases hf : call.finish caches st' with
          | error e => simp [hf, Except.map] at h
          | ok r =>
              simp only [hf, Except.map, Except.ok.injEq, Option.some.injEq] at h
              exact ⟨st, st', hst, ⟨fuel, hl, hd⟩, h ▸ hf⟩
        · simp at h
  · rintro ⟨st, st', hst, ⟨fuel, hl, hd⟩, hf⟩
    refine ⟨fuel, ?_⟩
    simp [waspRunVirtine, hst, hl, hd, hf, Except.map]

theorem Returns.unique {env : Env} {guest : Guest S F} {kvm : Kvm S F} {call : Call}
    {caches : Caches S F} {ret ret' : Returned S F}
    (h : Returns env guest kvm call caches ret)
    (h' : Returns env guest kvm call caches ret') : ret = ret' := by
  obtain ⟨st, s, hst, hs, hf⟩ := returns_iff.mp h
  obtain ⟨st', s', hst', hs', hf'⟩ := returns_iff.mp h'
  obtain rfl := Except.ok.inj (hst.symm.trans hst')
  obtain rfl := hs.unique hs'
  exact Except.ok.inj (hf.symm.trans hf')

/-! ## Start and finish -/

/-- The loop state in which an invocation enters its loop with `v`. -/
def Call.entry (call : Call) (v : Virtine S F) (c : Cache S F) : LoopState S F :=
  { vm := v, cache := c, whitelist := call.whitelist, pending := none, count := 0,
    done := false, calls := 0, trace := [], stderr := "" }

theorem Call.start_eq_ok {call : Call} {env : Env} {kvm : Kvm S F} {caches : Caches S F}
    {st : LoopState S F} :
    call.start env kvm caches = .ok st ↔
      ∃ v v' c, (caches.getCache call).get kvm = (.ok v, c) ∧
        v.copyIn call.arg call.argsz = .ok v' ∧
        st = call.entry (v'.boot env.useSnapshots) c := by
  constructor
  · intro h
    unfold Call.start at h
    split at h
    · cases h
    · rename_i v c hg
      split at h
      · cases h
      · rename_i v' hc
        exact ⟨v, v', c, hg, hc, (Except.ok.inj h).symm⟩
  · rintro ⟨v, v', c, hg, hc, rfl⟩
    simp only [Call.start, hg, hc, Call.entry]

theorem Call.finish_eq_ok {call : Call} {caches : Caches S F} {st : LoopState S F}
    {ret : Returned S F} :
    call.finish caches st = .ok ret ↔
      ∃ c, st.cache.put st.vm = (.ok (), c) ∧
        ret = ⟨st.vm.copyOut call.arg call.argsz, caches.set call.code c⟩ := by
  unfold Call.finish
  cases hp : st.cache.put st.vm with
  | mk r c =>
      cases r with
      | error e => simp
      | ok u => simp [eq_comm]

/-! ## The whole call

`returns_course` is the call in one piece: where its virtine comes from,
how the loop ends, and the cache it leaves behind. -/

/-- Every pooled virtine belongs to its cache. -/
def Caches.Owned (caches : Caches S F) : Prop :=
  ∀ code c, caches code = some c → ∀ v ∈ c.mCache, v.OwnedBy c

/-- The caches of a process that has made no invocation yet. -/
def Caches.empty : Caches S F := fun _ => none

theorem Caches.empty_owned : (Caches.empty : Caches S F).Owned := by
  intro code c h
  cases h

theorem Caches.Owned.getCache {caches : Caches S F} (h : caches.Owned) (call : Call) :
    ∀ v ∈ (caches.getCache call).mCache, v.OwnedBy (caches.getCache call) := by
  unfold Caches.getCache
  cases hc : caches call.code with
  | none => simp [Cache.new, Cache.setBinary]
  | some c => exact h _ _ hc

theorem savedBy_some (env : Env) (t : List (Entry S F)) (r : ResetState S F) :
    ∃ r', savedBy env (some r) t = some r' := by
  induction t generalizing r with
  | nil => exact ⟨r, rfl⟩
  | cons e t ih =>
      show ∃ r', savedBy env ((e.saved env).or (some r)) t = some r'
      cases e.saved env with
      | none => exact ih r
      | some r' => exact ih r'

theorem Virtine.copyIn_frame {v w : Virtine S F} {arg : Option (Nat → UInt8)}
    {argsz : BitVec 64} (h : v.copyIn arg argsz = .ok w) :
    ∃ m, w = { v with toMachine := m } := by
  unfold Virtine.copyIn at h
  split at h
  · cases h
    exact ⟨v.toMachine, rfl⟩
  · cases h
    exact ⟨_, rfl⟩
  · split at h
    · cases h
      exact ⟨v.toMachine, rfl⟩
    · cases h

theorem Virtine.boot_frame (v : Virtine S F) (b : Bool) :
    ∃ m, v.boot b = { v with toMachine := m } := by
  cases b with
  | true => exact ⟨v.toMachine, rfl⟩
  | false => exact ⟨_, rfl⟩

/-- The cache after a virtine whose memory is `mem` was put back to `r`. -/
def Cache.recycled (c : Cache S F) (v : Virtine S F) (r : ResetState S F)
    (mem : Nat → UInt8) : Cache S F :=
  { c with mReset := some r,
           mCache := c.mCache ++ [{ v with regs := r.regs, sregs := r.sregs, fpu := r.fpu,
                                           mem := r.write mem }] }

/-- What the loop leaves of the virtine and of the cache it began with. -/
theorem Call.entry_ends {env : Env} {guest : Guest S F} {kvm : Kvm S F} {call : Call}
    {caches : Caches S F} {v w : Virtine S F} {c : Cache S F} {st : LoopState S F}
    (hk : caches.Owned) (hg : (caches.getCache call).get kvm = (.ok v, c))
    (hc : v.copyIn call.arg call.argsz = .ok w)
    (he : (call.entry (w.boot env.useSnapshots) c).Ends env guest st) :
    ∃ r, savedBy env c.mReset st.trace = some r ∧
      st.vm = { v with toMachine := st.vm.toMachine } ∧ st.vm.mResetMask = true ∧
      st.cache = { c with mReset := some r } := by
  obtain ⟨hv, _⟩ := Cache.get_owned (hk.getCache call) hg
  obtain ⟨m₁, hw⟩ := Virtine.copyIn_frame hc
  obtain ⟨m₂, hb⟩ := Virtine.boot_frame w env.useSnapshots
  have hmask : (w.boot env.useSnapshots).mResetMask = true := by
    rw [hb, hw]
    exact hv.masked
  obtain ⟨⟨m, hvm⟩, _, t, ht, hcache⟩ := he.after hmask
  obtain ⟨r₀, hr₀⟩ := hv.armed
  obtain ⟨r, hr⟩ := savedBy_some env st.trace r₀
  have hst : st.trace = t := ht
  rw [← hr₀] at hr
  refine ⟨r, hr, ?_, ?_, ?_⟩
  · rw [hvm]
    show ({ w.boot env.useSnapshots with toMachine := m } : Virtine S F) = _
    rw [hb, hw]
  · rw [hvm]
    exact hmask
  · rw [hcache, ← hst, ← hr]
    rfl

theorem returns_course {env : Env} {guest : Guest S F} {kvm : Kvm S F} {call : Call}
    {caches : Caches S F} {ret : Returned S F} (hk : caches.Owned) :
    Returns env guest kvm call caches ret ↔
      ∃ v w c st r, (caches.getCache call).get kvm = (.ok v, c) ∧
        v.copyIn call.arg call.argsz = .ok w ∧
        (call.entry (w.boot env.useSnapshots) c).Ends env guest st ∧
        savedBy env c.mReset st.trace = some r ∧ (∀ g ∈ r.regions, g.Copyable v) ∧
        ret = ⟨st.vm.copyOut call.arg call.argsz,
          caches.set call.code (c.recycled v r st.vm.mem)⟩ := by
  rw [returns_iff]
  constructor
  · rintro ⟨_, st, hst, he, hf⟩
    obtain ⟨v, w, c, hg, hc, rfl⟩ := Call.start_eq_ok.mp hst
    obtain ⟨r, hr, hvm, hmask, hcache⟩ := Call.entry_ends hk hg hc he
    obtain ⟨c', hp, rfl⟩ := Call.finish_eq_ok.mp hf
    obtain ⟨_, v', hreset, rfl⟩ := Cache.put_eq_ok.mp hp
    rw [hcache, Virtine.rst_masked hmask] at hreset
    obtain ⟨hcopy, rfl⟩ := Virtine.reset_eq_ok.mp hreset
    refine ⟨v, w, c, st, r, hg, hc, he, hr, ?_, ?_⟩
    · intro g hgr
      have := hcopy g hgr
      rw [hvm] at this
      exact this
    · rw [hcache, Cache.recycled, hvm]
  · rintro ⟨v, w, c, st, r, hg, hc, he, hr, hcopy, rfl⟩
    obtain ⟨r', hr', hvm, hmask, hcache⟩ := Call.entry_ends hk hg hc he
    obtain rfl : r = r' := Option.some.inj (hr.symm.trans hr')
    have hreset : st.vm.reset (st.vm.rst st.cache.mReset) =
        .ok { st.vm with regs := r.regs, sregs := r.sregs, fpu := r.fpu,
                         mem := r.write st.vm.mem } := by
      rw [hcache, Virtine.rst_masked hmask]
      refine Virtine.reset_eq_ok.mpr ⟨fun g hgr => ?_, rfl⟩
      rw [hvm]
      exact hcopy g hgr
    refine ⟨_, st, Call.start_eq_ok.mpr ⟨v, w, c, hg, hc, rfl⟩, he, ?_⟩
    refine Call.finish_eq_ok.mpr ⟨_, Cache.put_eq_ok.mpr ⟨?_, _, hreset, rfl⟩, ?_⟩
    · have hl := Cache.get_unlocked hg
      rw [hcache]
      exact hl
    · rw [hcache, Cache.recycled, hvm]

theorem Returns.owned {env : Env} {guest : Guest S F} {kvm : Kvm S F} {call : Call}
    {caches : Caches S F} {ret : Returned S F} (hk : caches.Owned)
    (h : Returns env guest kvm call caches ret) : ret.caches.Owned := by
  obtain ⟨v, w, c, st, r, hg, _, _, _, _, rfl⟩ := (returns_course hk).mp h
  obtain ⟨hv, hpool⟩ := Cache.get_owned (hk.getCache call) hg
  intro code c' hc'
  by_cases hcode : code = call.code
  · simp only [Caches.set, if_pos hcode, Option.some.injEq] at hc'
    subst hc'
    intro u hu
    rcases List.mem_append.mp hu with hu | hu
    · exact (hpool u hu).mono rfl fun _ _ => ⟨r, rfl⟩
    · rw [List.mem_singleton.mp hu]
      exact ⟨hv.masked, hv.sized, r, rfl⟩
  · simp only [Caches.set, if_neg hcode] at hc'
    exact hk code c' hc'

end Wasp
