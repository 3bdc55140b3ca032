import Wasp.Runtime.Cache

/-!
# Hypercall — what one hypercall exit makes the host do

The body of the run loop of `wasp_run_virtine` (`src/binding.cpp`) at a
hypercall exit: the whitelist test, the dispatch on `rdi`, the host system
calls and the snapshot of `0xFF`. The test is made on `rdi` truncated to
an `int`, the dispatch on all 64 bits; both are kept as they are.
-/

namespace Wasp

open ByteMem

variable {S F : Type}

/-- The `HCALL_*` numbers of `virtine.h`. -/
inductive Hcall where
  | exit
  | close
  | fstat
  | link
  | lseek
  | open_
  | read
  | sbrk
  | times
  | unlink
  | write
  | gettimeofday
  | isatty
  deriving DecidableEq, Repr

namespace Hcall

def number : Hcall → Nat
  | exit => 0
  | close => 1
  | fstat => 2
  | link => 3
  | lseek => 4
  | open_ => 5
  | read => 6
  | sbrk => 7
  | times => 8
  | unlink => 9
  | write => 10
  | gettimeofday => 11
  | isatty => 12

/-- The `case` label that `switch (regs.rdi)` selects. -/
def decode (rdi : BitVec 64) : Option Hcall :=
  match rdi.toNat with
  | 0 => some exit
  | 1 => some close
  | 2 => some fstat
  | 3 => some link
  | 4 => some lseek
  | 5 => some open_
  | 6 => some read
  | 7 => some sbrk
  | 8 => some times
  | 9 => some unlink
  | 10 => some write
  | 11 => some gettimeofday
  | 12 => some isatty
  | _ => none

theorem number_lt (h : Hcall) : h.number < 13 := by
  cases h <;> decide

theorem decode_eq_some {rdi : BitVec 64} {h : Hcall} :
    decode rdi = some h ↔ rdi.toNat = h.number := by
  constructor
  · intro hd
    unfold decode at hd
    split at hd <;> cases hd <;> assumption
  · intro hn
    unfold decode
    rw [hn]
    cases h <;> rfl

end Hcall

/-- `hypercall_allowed`. The language leaves a shift by a count outside
`0..63` open, so its value is a parameter. -/
def hypercallAllowed (shiftOob : BitVec 64 → BitVec 32 → BitVec 64) (nr : BitVec 32)
    (whitelist : BitVec 64) : Bool :=
  if nr = 0xFF then true
  else
    let shifted := if nr.toNat < 64 then whitelist >>> nr.toNat else shiftOob whitelist nr
    decide (shifted &&& 1 ≠ 0)

/-- Inside `0..63` the test is the bit. -/
theorem hypercallAllowed_bit (shiftOob : BitVec 64 → BitVec 32 → BitVec 64)
    {nr : BitVec 32} (h : nr.toNat < 64) (w : BitVec 64) :
    hypercallAllowed shiftOob nr w = w.getLsbD nr.toNat := by
  have hne : nr ≠ 0xFF := by
    rintro rfl
    exact absurd h (by decide)
  have hand : ∀ x : BitVec 64, decide (x &&& 1 ≠ 0) = x.getLsbD 0 := by
    intro x
    have h1 : (1 : BitVec 64) = BitVec.twoPow 64 0 := by decide
    rw [h1, BitVec.and_twoPow]
    cases x.getLsbD 0 <;> decide
  simp only [hypercallAllowed, if_neg hne, if_pos h, hand, BitVec.getLsbD_ushiftRight,
    Nat.add_zero]

/-- A host system call with its arguments as the host receives them. A
buffer is an offset from `m_mem`, or null where `translate` gave up. -/
inductive HostCall where
  | close (fd : BitVec 32)
  | open_ (path : Option Nat) (flags mode : BitVec 32)
  | read (fd : BitVec 32) (buf : Option Nat) (count : BitVec 64)
  | write (fd : BitVec 32) (buf : Option Nat) (count : BitVec 64)
  | fstat (fd : BitVec 32) (buf : Option Nat)
  deriving DecidableEq, Repr

/-- The hypercall a host call serves. -/
def HostCall.hcall : HostCall → Hcall
  | close .. => .close
  | open_ .. => .open_
  | read .. => .read
  | write .. => .write
  | fstat .. => .fstat

/-- `sizeof(struct stat)` of the host's libc on x86-64. -/
def sizeofStat : BitVec 64 := 144

/-- `-ENOSYS`. -/
def negEnosys : BitVec 64 := -38

/-- What the arm selected by `switch (regs.rdi)` sets out to do. `invalid`
is a buffer that `validate_length` turned down: the arm ends there. -/
inductive Action where
  | snapshot
  | exit
  | call (c : HostCall)
  | invalid
  | nosys
  deriving DecidableEq, Repr

/-- The buffer check every arm with a pointer makes before its call. -/
def Virtine.guarded (v : Virtine S F) (addr len : BitVec 64) (c : HostCall) : Action :=
  if v.validateLength addr len then .call c else .invalid

/-- `switch (regs.rdi)`. -/
def Virtine.dispatch (v : Virtine S F) (regs : VirtineRegisters) : Action :=
  let arg1 := regs.rsi
  let arg2 := regs.rdx
  let arg3 := regs.rcx
  if regs.rdi = 0xFF then .snapshot
  else
    match Hcall.decode regs.rdi with
    | some .exit => .exit
    | some .close => .call (.close (arg1.setWidth 32))
    | some .open_ =>
        v.guarded arg1 256
          (.open_ (v.translate arg1) (arg2.setWidth 32) (arg3.setWidth 32))
    | some .read =>
        v.guarded arg2 arg3 (.read (arg1.setWidth 32) (v.translate arg2) arg3)
    | some .write =>
        v.guarded arg2 arg3 (.write (arg1.setWidth 32) (v.translate arg2) arg3)
    | some .fstat =>
        v.guarded arg2 sizeofStat (.fstat (arg1.setWidth 32) (v.translate arg2))
    | some .sbrk | some .link | some .lseek | some .times | some .unlink
    | some .gettimeofday | some .isatty | none => .nosys

/-- The host calls an exit can make, one case for each arm with a call. -/
inductive Virtine.Serves (v : Virtine S F) (regs : VirtineRegisters) : HostCall → Prop where
  | close : Hcall.decode regs.rdi = some .close →
      Serves v regs (.close (regs.rsi.setWidth 32))
  | open_ : Hcall.decode regs.rdi = some .open_ → v.validateLength regs.rsi 256 = true →
      Serves v regs
        (.open_ (v.translate regs.rsi) (regs.rdx.setWidth 32) (regs.rcx.setWidth 32))
  | read : Hcall.decode regs.rdi = some .read → v.validateLength regs.rdx regs.rcx = true →
      Serves v regs (.read (regs.rsi.setWidth 32) (v.translate regs.rdx) regs.rcx)
  | write : Hcall.decode regs.rdi = some .write → v.validateLength regs.rdx regs.rcx = true →
      Serves v regs (.write (regs.rsi.setWidth 32) (v.translate regs.rdx) regs.rcx)
  | fstat : Hcall.decode regs.rdi = some .fstat →
      v.validateLength regs.rdx sizeofStat = true →
      Serves v regs (.fstat (regs.rsi.setWidth 32) (v.translate regs.rdx))

theorem Virtine.guarded_eq_call {v : Virtine S F} {addr len : BitVec 64}
    {c c' : HostCall} :
    v.guarded addr len c = .call c' ↔ v.validateLength addr len = true ∧ c = c' := by
  unfold Virtine.guarded
  split <;> simp_all

/-- No `HCALL` number is `0xFF`. -/
theorem Hcall.ne_of_decode {rdi : BitVec 64} {h : Hcall} (hd : Hcall.decode rdi = some h) :
    rdi ≠ 0xFF := by
  rintro rfl
  exact absurd hd (by cases h <;> decide)

theorem Virtine.dispatch_eq_call {v : Virtine S F} {regs : VirtineRegisters}
    {c : HostCall} : v.dispatch regs = .call c ↔ v.Serves regs c := by
  constructor
  · intro h
    unfold Virtine.dispatch at h
    split at h
    · cases h
    · split at h
      case h_2 hd => cases h; exact .close hd
      case h_3 hd =>
        obtain ⟨hv, rfl⟩ := Virtine.guarded_eq_call.mp h
        exact .open_ hd hv
      case h_4 hd =>
        obtain ⟨hv, rfl⟩ := Virtine.guarded_eq_call.mp h
        exact .read hd hv
      case h_5 hd =>
        obtain ⟨hv, rfl⟩ := Virtine.guarded_eq_call.mp h
        exact .write hd hv
      case h_6 hd =>
        obtain ⟨hv, rfl⟩ := Virtine.guarded_eq_call.mp h
        exact .fstat hd hv
      all_goals cases h
  · intro h
    unfold Virtine.dispatch
    cases h with
    | close hd => simp only [if_neg (Hcall.ne_of_decode hd), hd]
    | open_ hd hv | read hd hv | write hd hv | fstat hd hv =>
        simp only [if_neg (Hcall.ne_of_decode hd), hd]
        exact Virtine.guarded_eq_call.mpr ⟨hv, rfl⟩

/-- A call is served under its own number. -/
theorem Virtine.Serves.decode {v : Virtine S F} {regs : VirtineRegisters} {c : HostCall}
    (h : v.Serves regs c) : Hcall.decode regs.rdi = some c.hcall := by
  cases h <;> assumption

/-- The dispatch reads of the virtine only where its memory is. -/
theorem Virtine.dispatch_congr {v w : Virtine S F} (hm : v.mMem = w.mMem)
    (hs : v.mMemsz = w.mMemsz) (regs : VirtineRegisters) :
    v.dispatch regs = w.dispatch regs := by
  have ht : ∀ a, v.translate a = w.translate a := by
    intro a
    simp only [Virtine.translate, hm, hs]
  have hl : ∀ a n, v.validateLength a n = w.validateLength a n := by
    intro a n
    unfold Virtine.validateLength
    rw [hs]
  have hg : ∀ a n c, v.guarded a n c = w.guarded a n c := by
    intro a n c
    unfold Virtine.guarded
    rw [hl]
  unfold Virtine.dispatch
  simp only [ht, hg]

/-! ## The host's side -/

/-- How a host call ends. `bytes` is what it stored at the start of its
buffer; a failure leaves the reason in `errno` and returns `-1`. -/
inductive HostResult where
  | ok (ret : Nat) (bytes : List UInt8)
  | fail (errno : Nat)
  deriving DecidableEq, Repr

/-- The value of the C call, as it is assigned to `regs.rax`. -/
def HostResult.value : HostResult → BitVec 64
  | ok ret _ => BitVec.ofNat 64 ret
  | fail _ => -1

/-- The bytes a call stores in the buffer it was given: at most as many as
the call allows. -/
def HostCall.stored : HostCall → HostResult → List UInt8
  | read _ _ count, .ok _ bytes => bytes.take count.toNat
  | fstat _ _, .ok _ bytes => bytes.take sizeofStat.toNat
  | _, _ => []

/-- The guest's memory after the call. -/
def HostCall.store (c : HostCall) (r : HostResult) (m : Nat → UInt8) : Nat → UInt8 :=
  let bytes := c.stored r
  match c with
  | read _ (some a) _ | fstat _ (some a) => blit m a (fun i => bytes.getD i 0) bytes.length
  | _ => m

/-! ## The snapshot hypercall -/

/-- The registers with which a snapshot resumes: `rip` is moved over the
two bytes of the `out` instruction. -/
def VirtineRegisters.skipOut (r : VirtineRegisters) : VirtineRegisters :=
  { r with rip := r.rip + 2 }

/-- The one region a snapshot saves: `arg1` is overwritten with `0`, so
`arg2 - arg1` is `rdx` and the region `[0, rdx)` of the guest's memory,
whatever that is. -/
def Virtine.snapshotRegion (v : Virtine S F) (buffer : Bool) : ResetMemory :=
  { data := if buffer then some (capture 0 v.mem 0 v.regs.rdx.toNat) else none,
    address := 0, size := v.regs.rdx }

/-- `case 0xFF` with snapshots enabled. `malloc` tells whether a buffer of
the given size could be had; the copy into it, or out of a guest without
memory, faults when it is not empty. -/
def Cache.snapshot (c : Cache S F) (malloc : BitVec 64 → Bool) (v : Virtine S F) :
    Except Fault (Virtine S F × Cache S F) :=
  let region := v.snapshotRegion (malloc v.regs.rdx)
  let v := { v with regs := v.regs.skipOut }
  if region.size ≠ 0 ∧ (region.data = none ∨ v.translate 0 = none) then .error .segv
  else
    let saved := v.saveResetState [region]
    if v.mResetMask then .ok (v, { c with mReset := some saved })
    else .ok ({ v with mReset := saved }, c)

/-- The reset state that a snapshot of a guest in this state leaves. -/
def Machine.captured (m : Machine S F) (buffer : Bool) : ResetState S F :=
  { regs := m.regs.skipOut, sregs := m.sregs, fpu := m.fpu,
    regions :=
      [{ data := if buffer then some (capture 0 m.mem 0 m.regs.rdx.toNat) else none,
         address := 0, size := m.regs.rdx }] }

/-- A virtine of a cache saves into the state that all of them share. -/
theorem Cache.snapshot_ok {c c' : Cache S F} {malloc : BitVec 64 → Bool}
    {v v' : Virtine S F} (hm : v.mResetMask = true)
    (h : c.snapshot malloc v = .ok (v', c')) :
    v' = { v with regs := v.regs.skipOut } ∧
      c' = { c with mReset := some (v.captured (malloc v.regs.rdx)) } ∧
      (v.regs.rdx = 0 ∨ malloc v.regs.rdx = true ∧ v.mMem ≠ 0) := by
  unfold Cache.snapshot at h
  simp only [hm, if_true] at h
  split at h
  · cases h
  · rename_i hok
    simp only [Except.ok.injEq, Prod.mk.injEq] at h
    refine ⟨by rw [← h.1, hm], h.2.symm, ?_⟩
    by_cases hz : v.regs.rdx = 0
    · exact .inl hz
    · obtain ⟨hd, ht⟩ := not_or.mp fun hnull => hok ⟨hz, hnull⟩
      refine .inr ⟨by simpa [Virtine.snapshotRegion] using hd, fun hmem => ht ?_⟩
      simp [Virtine.translate, hmem]

/-- With a buffer and a mapped memory a snapshot goes through. -/
theorem Cache.snapshot_masked {c : Cache S F} {malloc : BitVec 64 → Bool} {v : Virtine S F}
    (hm : v.mResetMask = true) (hb : malloc v.regs.rdx = true) (hmem : v.mMem ≠ 0) :
    c.snapshot malloc v =
      .ok ({ v with regs := v.regs.skipOut },
        { c with mReset := some (v.captured true) }) := by
  have ht : ({ v with regs := v.regs.skipOut } : Virtine S F).translate 0 = some 0 :=
    Virtine.translate_eq_some.mpr ⟨Nat.zero_le _, hmem, rfl⟩
  have hd : (v.snapshotRegion true).data ≠ none := by simp [Virtine.snapshotRegion]
  unfold Cache.snapshot
  rw [hb]
  refine (if_neg ?_).trans (if_pos hm)
  rintro ⟨_, h | h⟩
  · exact hd h
  · rw [ht] at h
    cases h

/-- Resetting to a snapshot copies `[0, rdx)` back and nothing else. -/
theorem Machine.captured_write {v : Machine S F} {buffer : Bool}
    (h : v.regs.rdx = 0 ∨ buffer = true) (m : Nat → UInt8) :
    (v.captured buffer).write m = blit m 0 v.mem v.regs.rdx.toNat := by
  simp only [Machine.captured, ResetState.write, List.foldl_cons, List.foldl_nil]
  rcases h with h | rfl
  · rw [ResetMemory.write_empty h, h]
    simp
  · simp only [ResetMemory.write, if_true]
    exact blit_congr fun i hi => by rw [capture_lt hi, Nat.zero_add]

end Wasp
