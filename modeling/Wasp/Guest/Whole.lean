import Wasp.Guest.Program
import Wasp.Runtime.Modes

/-!
# Whole — a compiled function, call after call

The stub of `pass.cpp`, `wasp_run_virtine` with its caches, and the guest of
`Program`, put together. The first call of the stub boots the image and takes
the snapshot, every later one resumes it on a virtine of the pool. What they
return is what the function returns, however the guest's memory was left.
-/

namespace Wasp

open ByteMem LittleEndian PageTable Processor

variable {S F : Type}

/-- A loop with one more turn to make before it is in `s`. -/
theorem LoopState.Turns.ends {env : Env} {guest : Guest S F} {st s t : LoopState S F}
    (h : st.Turns env guest s) (hdone : st.done = false) (ht : s.Ends env guest t) :
    st.Ends env guest t := by
  obtain ⟨fuel, hloop, hend⟩ := ht
  refine ⟨fuel + 1, ?_, hend⟩
  simp [LoopState.loop, hdone, LoopState.iterate_eq_ok.mpr h, hloop]

namespace Boot

/-! ## The process -/

/-- The process that calls the stub. `code` is the address of the image. -/
structure Process (F : Type) where
  env : Env
  vcpu : Wasp.Cpu Sregs F
  kvm : Kvm Sregs F
  code : BitVec 64
  image : Nat → UInt8
  codesz : BitVec 64
  config : Option (BitVec 64)

namespace Process

/-- The stub's call of `wasp_run_virtine`, with the struct at `a`. -/
def call (d : Process F) (memsz : BitVec 64) (a n : Nat) (m : Mem) : Call :=
  { code := d.code, image := d.image, codesz := d.codesz, memsz := memsz,
    arg := some fun i => m (a + i), argsz := BitVec.ofNat 64 n, config := d.config }

/-- `wasp_run_virtine` for the stub, if it returns within `fuel` turns. -/
def wasp (d : Process F) (fuel : Nat) (memsz : BitVec 64) (a n : Nat) (m : Mem)
    (k : Caches Sregs F) : Option (Mem × Caches Sregs F) :=
  match waspRunVirtine d.env (fun _ => d.vcpu) d.kvm fuel (d.call memsz a n m) k with
  | .ok (some ⟨some out, k'⟩) => some (blit m a out n, k')
  | _ => none

/-- The stub of `f`, with its `alloca` at `frame`. -/
def stub (d : Process F) (f : Fn) (fuel frame : Nat) (args : List RtVal) (host : Mem)
    (k : Caches Sregs F) : Option (Option RtVal × Mem × Caches Sregs F) :=
  (compileFunction f).run
    { fields := f.fields, frame := frame, wasp := d.wasp fuel, fn := fun _ _ => none }
    args host k

end Process

/-- The special registers of a new vCPU. -/
structure RealMode (s : Sregs) : Prop where
  real : s.cr0.getLsbD 0 = false
  unpaged : s.cr0.getLsbD 31 = false
  legacy : s.efer.getLsbD 10 = false
  cs : s.seg .cs = ⟨0, 0xFFFF, false, false⟩
  ds : (s.seg .ds).base = 0 ∧ (s.seg .ds).limit = 0xFFFF

/-- The process runs the image of `b`: on a vCPU that does what the program
says, with snapshots, memory for them, and a first virtine to be had. -/
structure Process.Runs (d : Process F) (b : Build) : Prop where
  snapshots : d.env.useSnapshots = true
  malloc : d.env.malloc b.brk = true
  vcpu : ∀ m port c, b.program.run b.symbols (cpu m) = .ok (port, c) →
    ∃ m', d.vcpu m = (⟨none, .io port⟩, m') ∧ cpu m' = c
  image : ∀ i x, b.objects.image[i]? = some x → i < d.codesz.toNat ∧ d.image i = x
  first : ∃ v c, ((Cache.new ramSize 0 0).setBinary d.image d.codesz 0x8000).get d.kvm =
    (.ok v, c) ∧ v.mMem ≠ 0 ∧ RealMode v.sregs

/-! ## The turns of the loop -/

section

variable {b : Build} {d : Process F} {g : Regs} {s : LoopState Sregs F}
  {w : Virtine Sregs F}

theorem Build.Correct.low_lt (hb : b.Correct) : b.low < b.brk.toNat := by
  have hstack := hb.stack
  have htables := hb.tables
  have hbase : Objects.stackBase ≤ b.symbols.bootP4 := (symbols_placed hb.valid).stack.2.2
  simp only [Objects.stackBase] at *
  omega

/-- The host sees what the guest has done below its break. -/
theorem Build.Correct.resume_mem (hb : b.Correct) {v : Virtine Sregs F}
    (hsz : v.mMemsz = ramSize) (m : Machine Sregs F) {a : Nat} (ha : a < b.brk.toNat) :
    (v.resume m).mem a = m.mem a :=
  if_pos (by rw [hsz]; exact Nat.lt_of_lt_of_le ha hb.memory)

theorem Build.AtSnapshot.resume {m : Machine Sregs F} (hb : b.Correct)
    (h : b.AtSnapshot (cpu m) g) {v : Virtine Sregs F} (hsz : v.mMemsz = ramSize) :
    b.AtSnapshot (cpu (v.resume m).toMachine) g := by
  have hin : ∀ a < b.brk.toNat, (v.resume m).mem a = m.mem a := fun a ha =>
    hb.resume_mem hsz m ha
  have htables := hb.tables
  have hbelow := (symbols_placed hb.valid).stack
  have hstack : m.regs.rsp.toNat + 8 ≤ b.symbols.stackBase - 24 := h.inSnapshot.stack
  have hbase : b.symbols.stackBase ≤ b.symbols.bootP4 := hbelow.2.2
  refine ⟨⟨h.inSnapshot.long.withMem ?_ _, h.inSnapshot.rip, hstack, fun m' hm' => ?_,
    h.inSnapshot.rsp⟩, h.rdi, h.rdx, h.low, ?_⟩
  · exact h.inSnapshot.long.tables.congr fun a ha ha' => hin a (by omega)
  · have hword : word (v.resume m).mem m.regs.rsp.toNat 8 = word m.mem m.regs.rsp.toNat 8 :=
      word_congr fun i hi => hin _ (by omega)
    show b.program.finish ⟨{ (cpu m).sys with
      mem := m', rip := word (v.resume m).mem m.regs.rsp.toNat 8 }, _⟩ = _
    rw [hword]
    exact h.inSnapshot.finish m' fun a ha ha' => (hm' a ha ha').trans (hin a (by omega))
  · exact hb.registered _ _ (fun a _ ha => hin a ha) h.registered

/-- The loop after the snapshot of `w`. -/
def savedState (s : LoopState Sregs F) (w : Virtine Sregs F) : LoopState Sregs F :=
  { s with
    vm := { w with regs := w.regs.skipOut },
    cache := { s.cache with mReset := some (w.captured true) },
    count := s.count + 1, pending := some w.regs.rip,
    trace := s.trace ++ [⟨w.toMachine, some .snapshot, none⟩] }

/-- **The turn that boots.** -/
theorem Process.Runs.cold_turn (hd : d.Runs b) (hb : b.Correct) (hpending : s.pending = none)
    (hmask : s.vm.mResetMask = true) (hmem : s.vm.mMem ≠ 0) (hsz : s.vm.mMemsz = ramSize)
    (hreal : RealMode s.vm.sregs) (hrip : s.vm.regs.rip = 0x8000)
    (himage : HoldsBytes s.vm.mem Objects.stackBase b.objects.image) :
    ∃ w g, s.Turns d.env (fun _ => d.vcpu) (savedState s w) ∧
      b.AtSnapshot (cpu w.toMachine) g ∧ (∀ a < b.low, w.mem a = s.vm.mem a) ∧
      ∃ m, w = { s.vm with toMachine := m } := by
  have hreset : AtReset b.symbols (cpu s.vm.toMachine).sys :=
    ⟨hreal.real, hreal.unpaged, hreal.legacy, hreal.cs, hreal.ds, by
      show s.vm.regs.rip.toNat = _
      rw [hrip]
      exact (textAddr_eq hb.valid).symm⟩
  obtain ⟨c, g, hrun, hat, hlow⟩ := hb.cold hreset himage
  obtain ⟨m, hg, rfl⟩ := hd.vcpu _ _ _ hrun
  have hentering : s.entering = s.vm.toMachine := by
    rw [LoopState.entering, hpending]
    exact if_neg nofun
  have hat' := hat.resume hb hsz
  have hrdi : m.regs.rdi = 0xFF := hat.rdi
  have hrdx : m.regs.rdx = b.brk := hat.rdx
  have hsnap : s.cache.snapshot d.env.malloc (s.vm.resume m) = .ok _ :=
    Cache.snapshot_masked hmask (show d.env.malloc m.regs.rdx = true from hrdx ▸ hd.malloc)
      hmem
  have hallowed : (s.exited m (some m.regs.rip)).allowed d.env = true := by
    show hypercallAllowed _ (m.regs.rdi.setWidth 32) _ = true
    rw [hrdi]
    rfl
  have hhandles : (s.exited m (some m.regs.rip)).Handles d.env (some .snapshot) none
      (savedState s (s.vm.resume m)) :=
    .snapshot hallowed (if_pos hrdi) hd.snapshots hsnap
  refine ⟨s.vm.resume m, g, .hyperCall (hentering ▸ hg) rfl hhandles, hat', fun a ha => ?_,
    _, rfl⟩
  have hlt := hb.low_lt
  exact (hb.resume_mem hsz m (by omega)).trans (hlow a ha)

/-- **The turn that ends a call.** -/
theorem Process.Runs.warm_turn (hd : d.Runs b) (hb : b.Correct)
    (hat : b.AtSnapshot (cpu w.toMachine) g) (hsz : s.vm.mMemsz = ramSize)
    (hentering : s.entering = { w.toMachine with regs := w.regs.skipOut, mem := s.vm.mem })
    {q : Call} (hm : Warm w.toMachine q s.vm.mem) (hargsz : q.argsz.toNat ≤ b.low)
    {vs : List (List UInt8)} (htyped : Typed b.fn.params vs)
    (hvs : fieldVals b.fn.fields 0 s.vm.mem 0 b.fn.params = vs) :
    ∃ m, s.Turns d.env (fun _ => d.vcpu) { s.exited m none with done := true } ∧
      b.Answers vs (s.vm.resume m).mem := by
  obtain ⟨c, hrun, hans⟩ := hb.warm hat hm hargsz htyped hvs
  obtain ⟨m, hg, rfl⟩ := hd.vcpu _ _ _ hrun
  refine ⟨m, .exited (hentering ▸ hg) rfl, hans.congr fun a ha => ?_⟩
  have hlt := hb.low_lt
  have hfits := hb.fits
  have hbound : a < b.fn.argSize := (Layout.struct b.fn.fields).bounded a ha
  exact hb.resume_mem hsz m (by omega)

theorem Process.Runs.ends_warm (hd : d.Runs b) (hb : b.Correct)
    (hat : b.AtSnapshot (cpu w.toMachine) g) (hdone : s.done = false)
    (hsz : s.vm.mMemsz = ramSize)
    (hentering : s.entering = { w.toMachine with regs := w.regs.skipOut, mem := s.vm.mem })
    {q : Call} (hm : Warm w.toMachine q s.vm.mem) (hargsz : q.argsz.toNat ≤ b.low)
    {vs : List (List UInt8)} (htyped : Typed b.fn.params vs)
    (hvs : fieldVals b.fn.fields 0 s.vm.mem 0 b.fn.params = vs) :
    ∃ t, s.Ends d.env (fun _ => d.vcpu) t ∧ t.trace = s.trace ∧ b.Answers vs t.vm.mem := by
  obtain ⟨m, hturn, hans⟩ := hd.warm_turn hb hat hsz hentering hm hargsz htyped hvs
  exact ⟨_, hturn.ends hdone ⟨0, rfl, rfl⟩, rfl, hans⟩

end

/-! ## One call -/

/-- A cache whose virtines all resume the snapshot of `w`. -/
structure WarmCache (b : Build) (c : Cache Sregs F) (w : Virtine Sregs F) (g : Regs) :
    Prop where
  saved : b.AtSnapshot (cpu w.toMachine) g
  unlocked : c.locked = false
  reset : c.mReset = some (w.captured true)
  pool : ∀ u ∈ c.mCache, u.Resumes w ∧ u.mMem ≠ 0 ∧ u.mMemsz = ramSize
  filled : c.mCache ≠ []

section

variable {b : Build} {d : Process F} {g : Regs} {k : Caches Sregs F} {c : Cache Sregs F}
  {v w : Virtine Sregs F} {a : Nat} {m : Mem} {vs : List (List UInt8)}

/-- A virtine that is reset to the snapshot of `w`. -/
theorem resumes_reset (v w : Virtine Sregs F) (m : Mem) :
    Virtine.Resumes { v with
      regs := (w.captured true).regs, sregs := (w.captured true).sregs,
      fpu := (w.captured true).fpu, mem := (w.captured true).write m } w :=
  ⟨rfl, rfl, rfl, (Machine.captured_bytes (.inr rfl) m).1⟩

/-- The cache after a call, whatever the guest has left in its memory. -/
theorem WarmCache.recycled (hat : b.AtSnapshot (cpu w.toMachine) g) (hc : c.locked = false)
    (hpool : ∀ u ∈ c.mCache, u.Resumes w ∧ u.mMem ≠ 0 ∧ u.mMemsz = ramSize)
    (hmem : v.mMem ≠ 0) (hsz : v.mMemsz = ramSize) :
    WarmCache b (c.recycled v (w.captured true) m) w g where
  saved := hat
  unlocked := hc
  reset := rfl
  pool u hu := by
    rcases List.mem_append.mp hu with hold | hnew
    · exact hpool u hold
    · rw [List.mem_singleton.mp hnew]
      exact ⟨resumes_reset v w m, hmem, hsz⟩
  filled := by simp [Cache.recycled]

theorem argsz_toNat (f : Fn) : (BitVec.ofNat 64 f.argSize).toNat = f.argSize :=
  (BitVec.toNat_ofNat _ _).trans (Nat.mod_eq_of_lt f.sized)

theorem received_inside {n i : Nat} (hi : i < n) : received v m a n i = m (a + i) := by
  rw [received, blit_inside (Nat.zero_le i) (by omega), Nat.sub_zero]

theorem received_outside {n i : Nat} (hi : n ≤ i) : received v m a n i = v.mem i :=
  blit_outside (by omega)

theorem copyIn_received (hmem : v.mMem ≠ 0) (f : Fn) :
    v.copyIn (some fun i => m (a + i)) (BitVec.ofNat 64 f.argSize) =
      .ok { v with mem := received v m a f.argSize } :=
  Virtine.copyIn_eq_ok.mpr ⟨.inr hmem, by rw [argsz_toNat]; rfl⟩

theorem Build.Correct.argsz_le (hb : b.Correct) (d : Process F) :
    (d.call ramSize a b.fn.argSize m).argsz.toNat ≤ b.low :=
  Nat.le_trans (Nat.le_of_eq (argsz_toNat b.fn)) hb.fits

/-- The struct in the guest has the values of the struct in the host. -/
theorem fieldVals_copied {f : Fn} {m' : Mem} (hvs : fieldVals f.fields a m 0 f.params = vs)
    (hm : ∀ i < f.argSize, m' i = m (a + i)) : fieldVals f.fields 0 m' 0 f.params = vs := by
  rw [← hvs]
  refine fieldVals_congr fun k p o hp ho => ?_
  have hlt := f.param_before_ret hp ho
  have hret := f.ret_in_struct
  rw [Nat.zero_add (Layout.offset _ _), hm _ (by omega), Nat.add_assoc]

/-- What `wasp_run_virtine` copies out of the struct. -/
theorem Build.Answers.copyOut (h : b.Answers vs m) (arg : Nat → UInt8) :
    b.Answers vs (blit arg 0 m (BitVec.ofNat 64 b.fn.argSize).toNat) :=
  h.congr fun x hx => by
    have hbound : x < b.fn.argSize := (Layout.struct b.fn.fields).bounded x hx
    rw [argsz_toNat, blit_inside (Nat.zero_le x) (by omega), Nat.sub_zero]

/-- The call with a struct at `a` that holds `vs` returns a struct with the
result, and leaves a warm cache. -/
def Process.Serves (d : Process F) (b : Build) (k : Caches Sregs F) (a : Nat) (m : Mem)
    (vs : List (List UInt8)) : Prop :=
  ∃ out c w g, Returns d.env (fun _ => d.vcpu) d.kvm (d.call ramSize a b.fn.argSize m) k
      ⟨some out, k.set d.code c⟩ ∧ b.Answers vs out ∧ WarmCache b c w g

/-- From the end of the loop to the return. -/
theorem Process.Runs.serves (hd : d.Runs b) (hk : k.Owned) {v' : Virtine Sregs F}
    {t : LoopState Sregs F}
    (hget : (k.getCache (d.call ramSize a b.fn.argSize m)).get d.kvm = (.ok v, c))
    (hcopy : v.copyIn (some fun i => m (a + i)) (BitVec.ofNat 64 b.fn.argSize) = .ok v')
    (hends : ((d.call ramSize a b.fn.argSize m).entry v' c).Ends d.env (fun _ => d.vcpu) t)
    (hsaved : savedBy d.env c.mReset t.trace = some (w.captured true))
    (hans : b.Answers vs t.vm.mem) (hat : b.AtSnapshot (cpu w.toMachine) g)
    (hpool : ∀ u ∈ c.mCache, u.Resumes w ∧ u.mMem ≠ 0 ∧ u.mMemsz = ramSize)
    (hmem : v.mMem ≠ 0) (hsz : v.mMemsz = ramSize) : d.Serves b k a m vs := by
  have hboot : v'.boot d.env.useSnapshots = v' := if_pos hd.snapshots
  refine ⟨_, _, w, g, (returns_course hk).mpr ⟨v, v', c, t, w.captured true, hget, hcopy, ?_,
    hsaved, Service.captured_copyable hmem _, rfl⟩, hans.copyOut _,
    WarmCache.recycled hat (Cache.get_unlocked hget) hpool hmem hsz⟩
  rw [hboot]
  exact hends

/-- The memory with which a call resumes the snapshot of `w` on `v`. -/
theorem warm_received (hres : v.Resumes w) (d : Process F) (f : Fn) :
    Warm w.toMachine (d.call ramSize a f.argSize m) (received v m a f.argSize) := by
  refine ⟨fun x hx i hi => ?_, fun x hx hout => ?_⟩
  · cases hx
    exact received_inside (argsz_toNat f ▸ hi)
  · rcases hout with hnone | hle
    · cases hnone
    · have hle' : f.argSize ≤ x := argsz_toNat f ▸ hle
      exact (received_outside hle').trans (hres.bytes x hx)

theorem entering_resumes (hres : v.Resumes w) (q : Call) (c : Cache Sregs F) (m : Mem) :
    (q.entry { v with mem := m } c).entering =
      { w.toMachine with regs := w.regs.skipOut, mem := m } := by
  show { v.toMachine with mem := m } = _
  simp only [hres.regs, hres.sregs, hres.fpu]

/-- **A resuming call.** -/
theorem Process.Runs.call_warm (hd : d.Runs b) (hb : b.Correct) (hk : k.Owned)
    (hc : k d.code = some c) (hwarm : WarmCache b c w g) (htyped : Typed b.fn.params vs)
    (hvs : fieldVals b.fn.fields a m 0 b.fn.params = vs) : d.Serves b k a m vs := by
  obtain ⟨u, rest, hpool⟩ := List.exists_cons_of_ne_nil hwarm.filled
  obtain ⟨hres, hmem, hsz⟩ := hwarm.pool u (by simp [hpool])
  have hget : (k.getCache (d.call ramSize a b.fn.argSize m)).get d.kvm =
      (.ok u, { c with mHits := c.mHits + 1, mCache := rest }) := by
    rw [Caches.getCache, show k (d.call ramSize a b.fn.argSize m).code = some c from hc]
    simp [Cache.get, hwarm.unlocked, hpool]
  obtain ⟨t, hends, htrace, hans⟩ := hd.ends_warm
    (s := (d.call ramSize a b.fn.argSize m).entry
      { u with mem := received u m a b.fn.argSize }
      { c with mHits := c.mHits + 1, mCache := rest })
    hb hwarm.saved rfl hsz (entering_resumes hres _ _ _) (warm_received hres d b.fn)
    (hb.argsz_le d) htyped
    (fieldVals_copied hvs fun i hi => received_inside hi)
  refine hd.serves hk hget (copyIn_received hmem b.fn) hends ?_ hans hwarm.saved
    (fun x hx => hwarm.pool x (by rw [hpool]; exact List.mem_cons_of_mem _ hx)) hmem hsz
  rw [htrace]
  exact hwarm.reset

/-- Behind the snapshot of `w` the guest goes on with the machine it saved. -/
theorem entering_saved (s : LoopState Sregs F) (w : Virtine Sregs F) :
    (savedState s w).entering = { w.toMachine with regs := w.regs.skipOut, mem := w.mem } :=
  if_neg fun h => Service.skipOut_rip_ne w.regs (Option.some.inj h)

theorem warm_saved {f : Fn} (harg : ∀ i < f.argSize, w.mem i = m (a + i)) (d : Process F) :
    Warm w.toMachine (d.call ramSize a f.argSize m) w.mem :=
  ⟨fun x hx i hi => by cases hx; exact harg i (argsz_toNat f ▸ hi), fun _ _ _ => rfl⟩

/-- The first virtine of an image. -/
structure Fresh (b : Build) (v : Virtine Sregs F) (c : Cache Sregs F) : Prop where
  mapped : v.mMem ≠ 0
  sized : v.mMemsz = ramSize
  real : RealMode v.sregs
  rip : v.regs.rip = 0x8000
  image : HoldsBytes v.mem Objects.stackBase b.objects.image
  pool : c.mCache = []

theorem Process.Runs.get_first (hd : d.Runs b) (hnew : k d.code = none) (a : Nat) (m : Mem) :
    ∃ v c, (k.getCache (d.call ramSize a b.fn.argSize m)).get d.kvm = (.ok v, c) ∧
      Fresh b v c := by
  obtain ⟨v, c, hget, hmem, hreal⟩ := hd.first
  have hget' : (k.getCache (d.call ramSize a b.fn.argSize m)).get d.kvm = (.ok v, c) := by
    rw [Caches.getCache, show k (d.call ramSize a b.fn.argSize m).code = none from hnew]
    exact hget
  obtain ⟨hbytes, hrip⟩ := get_new hget' hnew
  obtain ⟨-, ⟨rest, hhit, -⟩ | ⟨hpool, r, -, hfresh, rfl⟩⟩ := Cache.get_ok hget
  · cases hhit
  · refine ⟨v, _, hget', hmem, hfresh.sized.resolve_right hmem, hreal, hrip, ?_, hpool⟩
    intro i x hx
    obtain ⟨hi, himage⟩ := hd.image i x hx
    rw [hbytes, ← himage]
    exact blit_offset hi

/-- **The call that boots.** -/
theorem Process.Runs.call_cold (hd : d.Runs b) (hb : b.Correct) (hk : k.Owned)
    (hnew : k d.code = none) (htyped : Typed b.fn.params vs)
    (hvs : fieldVals b.fn.fields a m 0 b.fn.params = vs) : d.Serves b k a m vs := by
  obtain ⟨v, c, hget, hfresh⟩ := hd.get_first hnew a m
  have hmask := (Cache.get_owned (hk.getCache _) hget).1.masked
  have hlow := hb.stack
  have hfits := hb.fits
  obtain ⟨w, g, hturn, hat, hbelow, mw, rfl⟩ := hd.cold_turn
    (s := (d.call ramSize a b.fn.argSize m).entry
      { v with mem := received v m a b.fn.argSize } c)
    hb rfl hmask hfresh.mapped hfresh.sized hfresh.real hfresh.rip
    fun i x hx => (received_outside (by omega)).trans (hfresh.image i x hx)
  have harg : ∀ i < b.fn.argSize, mw.mem i = m (a + i) := fun i hi =>
    (hbelow i (by omega)).trans (received_inside hi)
  obtain ⟨t, hends, htrace, hans⟩ := hd.ends_warm
    (s := savedState ((d.call ramSize a b.fn.argSize m).entry
      { v with mem := received v m a b.fn.argSize } c) { v with toMachine := mw })
    (q := d.call ramSize a b.fn.argSize m)
    hb hat rfl hfresh.sized (entering_saved _ _) (warm_saved harg d) (hb.argsz_le d) htyped
    (fieldVals_copied hvs harg)
  refine hd.serves hk hget (copyIn_received hfresh.mapped b.fn)
    (hturn.ends rfl hends) ?_ hans hat (by simp [hfresh.pool]) hfresh.mapped
    hfresh.sized
  have hmalloc : d.env.malloc mw.regs.rdx = true := by
    rw [show mw.regs.rdx = b.brk from hat.rdx]
    exact hd.malloc
  rw [htrace]
  refine (savedBy_snapshot hd.snapshots mw c.mReset []).trans ?_
  rw [hmalloc]

end

/-! ## Call after call -/

/-- A call of the stub: its `alloca`, its arguments and the memory of the
process. -/
structure StubCall where
  frame : Nat
  args : List RtVal
  host : Mem

/-- The compiled call returns what the original call returns, and leaves the
memory of the process as that does, but for the stub's own frame. -/
def Process.Means (d : Process F) (f : Fn) (k : Caches Sregs F) (q : StubCall)
    (k' : Caches Sregs F) : Prop :=
  ∃ fuel r m m', f.call q.args q.host = some (r, m) ∧
    d.stub f fuel q.frame q.args q.host k = some (some (.bytes r), m', k') ∧
    ∀ x, Outside x q.frame f.argSize → m' x = m x

/-- What a call finds: no cache of the image yet, or a warm one. -/
structure Process.Ready (d : Process F) (b : Build) (k : Caches Sregs F) : Prop where
  owned : k.Owned
  cache : k d.code = none ∨ ∃ c w g, k d.code = some c ∧ WarmCache b c w g

section

variable {b : Build} {d : Process F} {k : Caches Sregs F} {q : StubCall}

/-- The stub around its call of `wasp_run_virtine`, however that comes by the
struct with the result. -/
theorem stub_answered {W : Type} {x : Ctx W} {k k' : W} {vs : List (List UInt8)}
    (hfields : x.fields = b.fn.fields) (hframe : x.frame = q.frame)
    (hargs : Accepts b.fn.params q.args q.frame b.fn.argSize)
    (hvs : fetchAll q.host b.fn.params q.args = some vs) {out : Mem} (hans : b.Answers vs out)
    (hwasp : x.wasp ramSize q.frame b.fn.argSize (b.fn.sent q.frame q.args q.host) k =
      some (blit (b.fn.sent q.frame q.args q.host) q.frame out b.fn.argSize, k')) :
    ∃ r m m', b.fn.call q.args q.host = some (r, m) ∧
      (compileFunction b.fn).run x q.args q.host k = some (some (.bytes r), m', k') ∧
      ∀ y, Outside y q.frame b.fn.argSize → m' y = m y := by
  let got := blit (b.fn.sent q.frame q.args q.host) q.frame out b.fn.argSize
  have hin : ∀ y < b.fn.argSize, out y = got (q.frame + y) := fun y hy => (blit_offset hy).symm
  have hpointees : Surrogates b.fn.fields q.frame got 0 b.fn.params (b.fn.body vs).2 := by
    refine hans.pointees.congr b.fn.fieldsAre fun j p o hp ho => ?_
    have hlt := b.fn.param_before_ret hp ho
    have hstruct := b.fn.ret_in_struct
    rw [Nat.zero_add (Layout.offset _ _), hin _ (by omega), Nat.add_assoc]
  have hresult : b.fn.ret.load got (q.frame + b.fn.retOffset) = (b.fn.body vs).1 := by
    rw [← hans.result]
    refine Layout.load_congr_bytes fun o ho => ?_
    have hlt := b.fn.ret.bounded o ho
    have hstruct := b.fn.ret_in_struct
    rw [Nat.zero_add, hin _ (by omega), Nat.add_assoc]
  have hstub := compileFunction_run hfields hargs.takes (m := got) (by rw [hframe]; exact hwasp)
  rw [hframe, show b.fn.ret.load _ (_ + Layout.offset _ _) = _ from load_ret_restored hargs,
    hresult] at hstub
  refine ⟨_, _, _, call_eq_some hvs, hstub, fun y hy => ?_⟩
  rw [restored_eq_commitAll b.fn.fieldsAre hargs.takes hargs.clear hpointees]
  exact commitAll_congr ((blit_outside hy).trans
    (packed_off b.fn.fieldsAre (offFields_of_outside hy)))

theorem means_of_returns {vs : List (List UInt8)}
    (hargs : Accepts b.fn.params q.args q.frame b.fn.argSize)
    (hvs : fetchAll q.host b.fn.params q.args = some vs) {out : Mem} {k' : Caches Sregs F}
    (hret : Returns d.env (fun _ => d.vcpu) d.kvm (d.call ramSize q.frame b.fn.argSize
      (b.fn.sent q.frame q.args q.host)) k ⟨some out, k'⟩)
    (hans : b.Answers vs out) : d.Means b.fn k q k' := by
  obtain ⟨fuel, hrun⟩ := hret
  have hwasp : d.wasp fuel ramSize q.frame b.fn.argSize (b.fn.sent q.frame q.args q.host) k =
      some (blit (b.fn.sent q.frame q.args q.host) q.frame out b.fn.argSize, k') := by
    unfold Process.wasp
    rw [hrun]
  exact ⟨fuel, stub_answered rfl rfl hargs hvs hans hwasp⟩

/-- **One call of the stub.** -/
theorem Process.Runs.step (hd : d.Runs b) (hb : b.Correct) (hk : d.Ready b k)
    (hargs : Accepts b.fn.params q.args q.frame b.fn.argSize) :
    ∃ k', d.Means b.fn k q k' ∧ d.Ready b k' := by
  obtain ⟨vs, hvs, htyped⟩ := fetchAll_takes (m := q.host) hargs.takes
  have hfields := fieldVals_packed b.fn.fieldsAre hargs.takes hargs.clear hvs
  obtain ⟨out, c, w, g, hret, hans, hwarm⟩ : d.Serves b k q.frame
      (b.fn.sent q.frame q.args q.host) vs := by
    rcases hk.cache with hnew | ⟨c, w, g, hc, hwarm⟩
    · exact hd.call_cold hb hk.owned hnew htyped hfields
    · exact hd.call_warm hb hk.owned hc hwarm htyped hfields
  exact ⟨_, means_of_returns hargs hvs hret hans, hret.owned hk.owned,
    .inr ⟨c, w, g, if_pos rfl, hwarm⟩⟩

end

/-! ## A build -/

/-- The vCPU in the state `c`. -/
def machineOf (c : State) : Machine Sregs Unit where
  regs :=
    { rax := c.gpr .rax, rbx := c.gpr .rbx, rcx := c.gpr .rcx, rdx := c.gpr .rdx,
      rsi := c.gpr .rsi, rdi := c.gpr .rdi, rbp := c.gpr .rbp, rsp := c.gpr .rsp,
      r8 := c.gpr .r8, r9 := c.gpr .r9, r10 := c.gpr .r10, r11 := c.gpr .r11,
      r12 := c.gpr .r12, r13 := c.gpr .r13, r14 := c.gpr .r14, r15 := c.gpr .r15,
      rip := BitVec.ofNat 64 c.sys.rip, rflags := if c.sys.interrupts then 0x202 else 0x2 }
  sregs :=
    { cr0 := c.sys.cr0, cr3 := c.sys.cr3, cr4 := c.sys.cr4, efer := c.sys.efer,
      gdtBase := c.sys.gdtBase, gdtLimit := c.sys.gdtLimit, seg := c.sys.seg }
  fpu := ()
  mem := c.sys.mem

/-- `KVM_RUN` for a program; a fault shuts the guest down. -/
def Program.vcpu (p : Program) (y : Symbols) : Wasp.Cpu Sregs Unit := fun m =>
  match p.run y (cpu m) with
  | .ok (port, c) => (⟨none, .io port⟩, machineOf c)
  | .error _ => (⟨none, .shutdown⟩, m)

end Boot

end Wasp
