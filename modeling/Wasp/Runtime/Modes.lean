import Wasp.Runtime.Lockstep

/-!
# Modes — the same calls with snapshots on and off

With `WASP_NO_SNAPSHOT` every call boots the guest again; otherwise the
first call boots it and the later ones resume at its first `0xFF`. Between
two calls the modes restore different bytes: the snapshot `[0, rdx)` in one
case, only the image in the other. `Restores` asks of the guest that this
makes no difference: after the boot it takes no further snapshot, and it
ends with every byte that its mode will not restore as it was needed. A
guest that takes no snapshot at all boots in every call of either mode
(`NoSnapshot`).

The guest is compared with its own execution from the first `0xFF` on,
run without any snapshot (`mainState`); both modes are in step with it.
-/

namespace Wasp

open ByteMem

variable {S F : Type}

/-- One virtine function as a process calls it. The host answers the calls
of the boot with `bootHost`; there are `bootCalls` of them. -/
structure Service (S F : Type) where
  cpu : Cpu S F
  kvm : Kvm S F
  code : BitVec 64
  image : Nat → UInt8
  codesz : BitVec 64
  memsz : BitVec 64
  argsz : BitVec 64
  shiftOob : BitVec 64 → BitVec 32 → BitVec 64
  malloc : BitVec 64 → Bool
  bootCalls : Nat
  bootHost : Nat → HostCall → HostResult

/-- One call of it: the argument, the config, and the host's answers to the
calls that are made after the boot. -/
structure Request where
  arg : Nat → UInt8
  config : Option (BitVec 64)
  host : Nat → HostCall → HostResult

/-- The machine with an argument copied to address 0. -/
def Machine.withArg (m : Machine S F) (arg : Nat → UInt8) (argsz : BitVec 64) :
    Machine S F :=
  { m with mem := blit m.mem 0 arg argsz.toNat }

/-- The machine behind its `out` instruction. -/
def Machine.resumed (m : Machine S F) : Machine S F := { m with regs := m.regs.skipOut }

namespace Service

def call (d : Service S F) (q : Request) : Call :=
  { code := d.code, image := d.image, codesz := d.codesz, memsz := d.memsz,
    arg := some q.arg, argsz := d.argsz, config := q.config }

/-- What surrounds a call, in the mode `snap`; `boots` tells whether the
guest boots in it. The host's answers are the same either way. -/
def env (d : Service S F) (snap boots : Bool) (q : Request) : Env :=
  { useSnapshots := snap, shiftOob := d.shiftOob, malloc := d.malloc,
    host := fun n c =>
      if boots then
        if n < d.bootCalls then d.bootHost n c else q.host (n - d.bootCalls) c
      else q.host n c }

/-- In the mode `snap` the calls `qs` return the arguments `outs`, one
after another. Only the first call boots when snapshots are on. -/
inductive Answers (d : Service S F) (snap : Bool) :
    Bool → Caches S F → List Request → List (Nat → UInt8) → Prop where
  | nil (first : Bool) (k : Caches S F) : Answers d snap first k [] []
  | cons {first : Bool} {k k' : Caches S F} {q : Request} {qs : List Request}
      {out : Nat → UInt8} {outs : List (Nat → UInt8)} :
      Returns (d.env snap (first || !snap) q) (fun _ => d.cpu) d.kvm (d.call q) k
        ⟨some out, k'⟩ →
      Answers d snap false k' qs outs → Answers d snap first k (q :: qs) (out :: outs)

/-! ## The guest -/

/-- The loop at the start of the machine `m` with the request's argument. -/
def entry (d : Service S F) (v₀ : Virtine S F) (m : Machine S F) (q : Request) :
    LoopState S F :=
  (d.call q).entry { v₀ with toMachine := m.withArg q.arg d.argsz } (Cache.new d.memsz 0 0)

/-- The guest from its first `0xFF` on. -/
def mainState (d : Service S F) (v₀ : Virtine S F) (b : Machine S F) (q : Request) :
    LoopState S F :=
  d.entry v₀ b.resumed q

/-- Zeros outside the image and the argument. -/
def Blank (d : Service S F) (mem : Nat → UInt8) : Prop :=
  ∀ a, d.argsz.toNat ≤ a → ¬ (0x8000 ≤ a ∧ a < 0x8000 + d.codesz.toNat) → mem a = 0

/-- After the first `0xFF` there is no other one, and if the guest ends,
then with the bytes behind the snapshot (and behind the argument) as they
were at the snapshot, and with zeros outside the image and the argument. -/
def Restores (d : Service S F) (v₀ : Virtine S F) (b : Machine S F) (q : Request) : Prop :=
  ∀ n st, (d.mainState v₀ b q).loop (d.env false false q) (fun _ => d.cpu) n = .ok st →
    st.Quiet ∧ (st.done = true →
      (∀ a, b.regs.rdx.toNat ≤ a → d.argsz.toNat ≤ a → st.vm.mem a = b.mem a) ∧
      d.Blank st.vm.mem)

theorem Restores.ends {d : Service S F} {v₀ : Virtine S F} {b : Machine S F} {q : Request}
    {t : LoopState S F} (h : d.Restores v₀ b q)
    (ht : (d.mainState v₀ b q).Ends (d.env false false q) (fun _ => d.cpu) t) :
    (∀ a, b.regs.rdx.toNat ≤ a → d.argsz.toNat ≤ a → t.vm.mem a = b.mem a) ∧
      d.Blank t.vm.mem := by
  obtain ⟨n, hn, hd⟩ := ht
  exact (h n t hn).2 hd

/-- A guest without a snapshot: from a fresh virtine it comes to no `0xFF`,
and if it ends, then with zeros outside the image and the argument. -/
def NoSnapshot (d : Service S F) (v₀ : Virtine S F) (q : Request) : Prop :=
  ∀ n st, (d.entry v₀ v₀.toMachine q).loop (d.env false false q) (fun _ => d.cpu) n
      = .ok st →
    st.Quiet ∧ (st.done = true → d.Blank st.vm.mem)

/-! ## Between two calls -/

/-- The next call gets a virtine that is in the state `m` but for the
bytes that its argument will overwrite, and finds the reset state `r`. -/
def Ready (d : Service S F) (v₀ : Virtine S F) (m : Machine S F) (r : ResetState S F)
    (k : Caches S F) : Prop :=
  k.Owned ∧ ∃ v c, (∀ q, (k.getCache (d.call q)).get d.kvm = (.ok v, c)) ∧
    c.mCache = [] ∧ c.mReset = some r ∧ v.mMem = v₀.mMem ∧ v.mMemsz = v₀.mMemsz ∧
    v.regs = m.regs ∧ v.sregs = m.sregs ∧ v.fpu = m.fpu ∧
    ∀ a, d.argsz.toNat ≤ a → v.mem a = m.mem a

/-- A call reaches the machine `m` with its argument: after some turns, with
the exits `p`, its loop is in step with one that starts there, and has left
the reset state `r`. -/
structure Enters (d : Service S F) (v₀ : Virtine S F) (m : Machine S F) (e : Env)
    (q : Request) (k : Caches S F) (v : Virtine S F) (c : Cache S F)
    (r : ResetState S F) : Prop where
  get : (k.getCache (d.call q)).get d.kvm = (.ok v, c)
  reaches : ∃ w n s j p, v.copyIn (some q.arg) d.argsz = .ok w ∧
    ((d.call q).entry (w.boot e.useSnapshots) c).loop e (fun _ => d.cpu) n = .ok s ∧
    (d.env false false q).Shifts j e ∧ (d.entry v₀ m q).InStep j p s ∧
    savedBy e c.mReset p = some r
  copyable : ∀ g ∈ r.regions, g.Copyable v

/-- **What such a call returns** is decided by the guest from there on, if
that takes no snapshot. -/
theorem Enters.returns_iff {d : Service S F} {v₀ v : Virtine S F} {m : Machine S F} {e : Env}
    {q : Request} {k k' : Caches S F} {c : Cache S F} {r : ResetState S F}
    {out : Nat → UInt8} (h : d.Enters v₀ m e q k v c r) (hk : k.Owned)
    (hquiet : ∀ n st, (d.entry v₀ m q).loop (d.env false false q) (fun _ => d.cpu) n
      = .ok st → st.Quiet) :
    Returns e (fun _ => d.cpu) d.kvm (d.call q) k ⟨some out, k'⟩ ↔
      ∃ t, (d.entry v₀ m q).Ends (d.env false false q) (fun _ => d.cpu) t ∧
        out = blit q.arg 0 t.vm.mem d.argsz.toNat ∧
        k' = k.set d.code (c.recycled v r t.vm.mem) := by
  obtain ⟨w, n, s, j, p, hw, hloop, hshift, hstep, hsaved⟩ := h.reaches
  obtain ⟨hfwd, hbwd⟩ := hstep.ends hshift rfl hquiet
  -- no snapshot follows, so the reset state stays `r`
  have hsave : ∀ {t t' : LoopState S F}, t.InStep j p t' → t.Quiet →
      savedBy e c.mReset t'.trace = some r := by
    intro t t' htt hqt
    rw [htt.trace, savedBy_append, hsaved]
    exact savedBy_quiet hqt _
  have hends : ∀ {t : LoopState S F},
      (d.entry v₀ m q).Ends (d.env false false q) (fun _ => d.cpu) t → t.Quiet :=
    fun ⟨n, hn, _⟩ => hquiet n _ hn
  rw [returns_course hk]
  constructor
  · rintro ⟨v', w', c', st, r', hg', hw', he, hr, _, hret⟩
    rw [h.get, Prod.mk.injEq, Except.ok.injEq] at hg'
    obtain ⟨rfl, rfl⟩ := hg'
    obtain rfl := Except.ok.inj (hw.symm.trans hw')
    obtain ⟨t, ht, htt⟩ := hbwd st ((LoopState.ends_iff_of_loop hloop).mp he)
    obtain rfl : r = r' := Option.some.inj ((hsave htt (hends ht)).symm.trans hr)
    obtain ⟨hout, hk'⟩ := Returned.mk.inj hret
    rw [htt.mem] at hk'
    refine ⟨t, ht, ?_, hk'⟩
    rw [← htt.mem]
    exact Option.some.inj hout
  · rintro ⟨t, ht, rfl, rfl⟩
    obtain ⟨t', ht', htt⟩ := hfwd t ht
    refine ⟨v, w, c, t', r, h.get, hw, (LoopState.ends_iff_of_loop hloop).mpr ht',
      hsave htt (hends ht), h.copyable, ?_⟩
    rw [← htt.mem]
    rfl

/-! ## Booting -/

theorem skipOut_rip_ne (r : VirtineRegisters) : r.rip ≠ r.skipOut.rip := by
  intro h
  have h0 : r.rip + 0#64 = r.rip + 2#64 := by rw [BitVec.add_zero]; exact h
  exact absurd ((BitVec.add_right_inj _).mp h0) (by decide)

/-- A fresh virtine `v₀` over the reset state `r₀` that the image gives. -/
structure Fresh (d : Service S F) (v₀ : Virtine S F) (r₀ : ResetState S F) : Prop where
  fresh : v₀.FreshOver r₀ d.memsz
  mapped : v₀.mMem ≠ 0
  regions : r₀.regions = [{ data := some d.image, address := 0x8000, size := d.codesz }]
  rip : v₀.regs.rip = 0x8000
  rsp : v₀.regs.rsp = 0x8000

theorem captured_copyable {v : Virtine S F} (h : v.mMem ≠ 0) (m : Machine S F) :
    ∀ g ∈ (m.captured true).regions, g.Copyable v := by
  intro g hg
  rw [List.mem_singleton.mp hg]
  exact .inr ⟨Nat.zero_le _, h, by simp⟩

/-- The image can be copied into any virtine of the same memory. -/
theorem Fresh.copyable {d : Service S F} {v₀ v : Virtine S F} {r₀ : ResetState S F}
    (h : d.Fresh v₀ r₀) (hm : v.mMem = v₀.mMem) (hsz : v.mMemsz = v₀.mMemsz) :
    ∀ g ∈ r₀.regions, g.Copyable v := by
  intro g hg
  have hcopy := h.fresh.copyable g hg
  unfold ResetMemory.Copyable at hcopy ⊢
  rw [hm, hsz]
  exact hcopy

/-- What the next call finds in the snapshot mode. -/
def SnapReady (d : Service S F) (v₀ : Virtine S F) (r₀ : ResetState S F) (b : Machine S F)
    (first : Bool) (k : Caches S F) : Prop :=
  if first then d.Ready v₀ v₀.toMachine r₀ k
  else ∃ arg, d.Ready v₀ b.resumed ((b.withArg arg d.argsz).captured true) k

theorem SnapReady.owned {d : Service S F} {v₀ : Virtine S F} {r₀ : ResetState S F}
    {b : Machine S F} {first : Bool} {k : Caches S F} (h : d.SnapReady v₀ r₀ b first k) :
    k.Owned := by
  cases first with
  | true => exact h.1
  | false =>
      obtain ⟨_, h⟩ := h
      exact h.1

theorem Answers.unique {d : Service S F} {snap first : Bool} {k : Caches S F}
    {qs : List Request} {outs outs' : List (Nat → UInt8)}
    (h : d.Answers snap first k qs outs) (h' : d.Answers snap first k qs outs') :
    outs = outs' := by
  induction h generalizing outs' with
  | nil => cases h'; rfl
  | cons hret _ ih =>
      cases h' with
      | cons hret' hans' =>
          obtain ⟨hout, hk⟩ := Returned.mk.inj (hret.unique hret')
          subst hk
          rw [ih hans', Option.some.inj hout]

end Service

/-! ### Two guests -/

end Wasp
