import Wasp.Libc.Syscalls
import Wasp.Runtime.Confinement
import Wasp.Runtime.Whitelist

/-!
# Outcome — what a hypercall tells the guest

The convention of the guest's libc is the one of Linux: a result that is
not negative, or minus an `errno`. The dispatcher follows it for the
numbers it does not implement. A failed host call leaves `-1` in `rax`,
whatever the reason; a buffer that `validate_length` turns down leaves what
was there; and a refused number sets `-ENOSYS` in a copy of the registers
that is never written back.
-/

namespace Wasp

open ByteMem Libc

variable {S F : Type}

/-! ## What there is to report -/

/-- How a hypercall went: the host call was made and succeeded, was made
and failed, or was not made. -/
inductive Outcome where
  | value (ret : Nat)
  | failed (errno : Nat)
  | notMade
  deriving DecidableEq, Repr

def HostResult.outcome : HostResult → Outcome
  | ok ret _ => .value ret
  | fail errno => .failed errno

/-- The outcome of the hypercall exit that the loop looks at. -/
def LoopState.outcome (env : Env) (st : LoopState S F) : Outcome :=
  if st.allowed env then
    match st.vm.dispatch st.vm.regs with
    | .call c => (env.host st.calls c).outcome
    | _ => .notMade
  else .notMade

/-- Minus an error number. -/
def IsNegErrno (x : BitVec 64) : Prop := -4095 ≤ x.toInt ∧ x.toInt ≤ -1

instance (x : BitVec 64) : Decidable (IsNegErrno x) := inferInstanceAs (Decidable (_ ∧ _))

/-- The value of `rax` that reports an outcome. -/
def Outcome.ReportedBy : Outcome → BitVec 64 → Prop
  | value ret, rax => rax.toInt = ret
  | failed errno, rax => rax.toInt = -errno
  | notMade, rax => IsNegErrno rax

/-- The bytes a successful `read` or `fstat` may store: its buffer. -/
def HostCall.InBuffer (c : HostCall) (a : Nat) : Prop :=
  match c with
  | .read _ (some p) count => p ≤ a ∧ a < p + count.toNat
  | .fstat _ (some p) => p ≤ a ∧ a < p + sizeofStat.toNat
  | _ => False

/-- A host call made at the exit of `st` may have stored the byte `a`. -/
def LoopState.Stores (env : Env) (st : LoopState S F) (a : Nat) : Prop :=
  st.allowed env = true ∧ ∃ c ret bytes, st.vm.dispatch st.vm.regs = .call c ∧
    env.host st.calls c = .ok ret bytes ∧ c.InBuffer a

/-- The guest finds the outcome of the exit of `st` when it is entered
again in `st'`: `rax` reports it, the other registers are those of the exit
(past the `out`), and no byte outside the buffer has changed; a guest that
was in `open` gets the host's `errno`. -/
structure LoopState.Reports (env : Env) (st st' : LoopState S F) : Prop where
  rax : (st.outcome env).ReportedBy st'.entering.regs.rax
  regs : st'.entering.regs = { st.vm.regs.skipOut with rax := st'.entering.regs.rax }
  sregs : st'.entering.sregs = st.vm.sregs
  fpu : st'.entering.fpu = st.vm.fpu
  mem : ∀ a, ¬ st.Stores env a → st'.entering.mem a = st.vm.mem a
  opened : Hcall.decode st.vm.regs.rdi = some .open_ → ∀ errno,
    st.outcome env = .failed errno →
      openRet st'.entering.regs.rax = (-1, BitVec.ofNat 32 errno)

/-- The range of a result of the host. -/
def HostResult.InRange : HostResult → Prop
  | ok ret _ => ret < 2 ^ 63
  | fail errno => 1 ≤ errno ∧ errno ≤ 4095

/-- The call succeeded, or failed with `EPERM`, which is 1. -/
def HostResult.Sayable : HostResult → Prop
  | ok _ _ => True
  | fail errno => errno = 1

/-- The exits that are answered in the convention: the number is permitted
and has no implementation, or its buffer passes and the host call succeeds
or fails with `EPERM`. Where no call is made, `rax` has to be minus an
error number already. -/
def LoopState.Answerable (env : Env) (st : LoopState S F) : Prop :=
  if st.allowed env then
    match st.vm.dispatch st.vm.regs with
    | .call c => (env.host st.calls c).Sayable
    | .invalid => IsNegErrno st.vm.regs.rax
    | _ => True
  else IsNegErrno st.vm.regs.rax

/-! ## One exit -/

theorem HostResult.value_reports {r : HostResult} (h : r.InRange) :
    r.outcome.ReportedBy r.value ↔ r.Sayable := by
  cases r with
  | ok ret bytes =>
      refine iff_true_intro ?_
      show (BitVec.ofNat 64 ret).toInt = ret
      have hlt : ret < 2 ^ 63 := h
      rw [BitVec.toInt_ofNat', Int.bmod_eq_of_le (by omega) (by omega)]
  | fail errno =>
      show (-1 : BitVec 64).toInt = -errno ↔ errno = 1
      rw [show (-1 : BitVec 64).toInt = -1 by decide]
      omega

/-- A host call stores in its buffer only, and only if it succeeds. -/
theorem HostCall.store_outside {c : HostCall} {r : HostResult} {m : Nat → UInt8} {a : Nat}
    (h : ∀ ret bytes, r = .ok ret bytes → ¬ c.InBuffer a) : c.store r m a = m a := by
  cases r with
  | fail errno =>
      unfold HostCall.store
      split <;> simp [HostCall.stored]
  | ok ret bytes =>
      have hout := h ret bytes rfl
      cases c with
      | close fd | open_ path flags mode | write fd buf count => rfl
      | read fd buf count | fstat fd buf =>
          cases buf with
          | none => rfl
          | some p =>
              simp only [HostCall.InBuffer] at hout
              simp only [HostCall.store, HostCall.stored]
              refine blit_outside ?_
              rw [List.length_take]
              omega

theorem Virtine.dispatch_ne_snapshot {v : Virtine S F} {regs : VirtineRegisters}
    (h : regs.rdi ≠ 0xFF) : v.dispatch regs ≠ .snapshot := by
  intro hd
  simp only [Virtine.dispatch, if_neg h] at hd
  split at hd
  all_goals first | cases hd | skip
  all_goals
    simp only [Virtine.guarded] at hd
    split at hd <;> cases hd

theorem Virtine.dispatch_ne_exit {v : Virtine S F} {regs : VirtineRegisters}
    (h : regs.rdi ≠ 0) : v.dispatch regs ≠ .exit := by
  intro hd
  exact h (Hcall.rdi_of_decode (Virtine.dispatch_eq_exit.mp hd))

section

variable {env : Env} {st st' : LoopState S F}

theorem LoopState.outcome_call {c : HostCall} (ha : st.allowed env = true)
    (hd : st.vm.dispatch st.vm.regs = .call c) :
    st.outcome env = (env.host st.calls c).outcome := by
  simp only [LoopState.outcome, ha, if_true, hd]

/-- Only a host call fails with an `errno`, one of its own. -/
theorem LoopState.outcome_failed {errno : Nat} (hhost : ∀ n c, (env.host n c).InRange)
    (h : st.outcome env = .failed errno) : 1 ≤ errno ∧ errno ≤ 4095 := by
  unfold LoopState.outcome at h
  split at h
  · split at h
    · rename_i c _
      have hr := hhost st.calls c
      cases hc : env.host st.calls c with
      | ok ret bytes =>
          rw [hc] at h
          cases h
      | fail e =>
          rw [hc] at h hr
          cases h
          exact hr
    · cases h
  · cases h

/-- An exit after which nothing but `rax` and the buffer has changed is
reported when `rax` reports it. -/
theorem LoopState.Handles.reports_iff {x : BitVec 64} {a : Option Action}
    {r : Option HostResult} (hh : st.Handles env a r st')
    (hhost : ∀ n c, (env.host n c).InRange) (hp : st.pending = some st.vm.regs.rip)
    (hp' : st'.pending = st.pending) (hregs : st'.vm.regs = { st.vm.regs with rax := x })
    (hsregs : st'.vm.sregs = st.vm.sregs) (hfpu : st'.vm.fpu = st.vm.fpu)
    (hmem : ∀ a, ¬ st.Stores env a → st'.vm.mem a = st.vm.mem a) :
    (∃ t, st.onHyperCall env = .ok t ∧ st.Reports env t) ↔
      (st.outcome env).ReportedBy x := by
  have hin : st'.entering = { st'.vm.toMachine with regs := st'.vm.regs.skipOut } := by
    refine if_pos ?_
    rw [hp', hp, hregs]
  have hrax : st'.entering.regs.rax = x := by
    rw [hin, hregs]
    rfl
  constructor
  · rintro ⟨t, ht, hr⟩
    rw [hh.onHyperCall, Except.ok.injEq] at ht
    subst ht
    exact hrax ▸ hr.rax
  · intro h
    refine ⟨st', hh.onHyperCall, hrax.symm ▸ h, ?_, ?_, ?_, ?_, ?_⟩
    · rw [hrax, hin, hregs]
      rfl
    · rw [hin, hsregs]
    · rw [hin, hfpu]
    · intro a ha
      rw [hin]
      exact hmem a ha
    · intro _ errno he
      obtain ⟨h1, h2⟩ := LoopState.outcome_failed hhost he
      rw [he] at h
      rw [hrax]
      exact openRet_neg h h1 h2

/-- The four ways a hypercall other than `0xFF` and `exit` is handled, and
what each leaves in `rax`. -/
theorem LoopState.reports_iff_answerable (hhost : ∀ n c, (env.host n c).InRange)
    (hp : st.pending = some st.vm.regs.rip) (h0 : st.vm.regs.rdi ≠ 0)
    (hff : st.vm.regs.rdi ≠ 0xFF) :
    (∃ t, st.onHyperCall env = .ok t ∧ st.Reports env t) ↔ st.Answerable env := by
  by_cases ha : st.allowed env = true
  · cases hd : st.vm.dispatch st.vm.regs with
    | snapshot => exact absurd hd (Virtine.dispatch_ne_snapshot hff)
    | exit => exact absurd hd (Virtine.dispatch_ne_exit h0)
    | call c =>
        have hh := LoopState.Handles.call ha hd rfl
        refine (hh.reports_iff hhost hp rfl rfl rfl rfl ?_).trans ?_
        · intro a hn
          refine HostCall.store_outside fun ret bytes hr hb => ?_
          exact hn ⟨ha, c, ret, bytes, hd, hr, hb⟩
        · rw [LoopState.outcome_call ha hd, HostResult.value_reports (hhost _ _)]
          simp only [LoopState.Answerable, ha, if_true, hd]
    | invalid =>
        have hh := LoopState.Handles.invalid ha hd
        refine (hh.reports_iff hhost hp rfl rfl rfl rfl fun _ _ => rfl).trans ?_
        simp only [LoopState.Answerable, LoopState.outcome, ha, if_true, hd]
        rfl
    | nosys =>
        have hh := LoopState.Handles.nosys ha hd
        refine (hh.reports_iff hhost hp rfl rfl rfl rfl fun _ _ => rfl).trans ?_
        simp only [LoopState.Answerable, LoopState.outcome, ha, if_true, hd, iff_true]
        show IsNegErrno negEnosys
        decide
  · have ha' : st.allowed env = false := by simpa using ha
    have hh := LoopState.Handles.denied ha'
    refine (hh.reports_iff hhost hp rfl rfl rfl rfl fun _ _ => rfl).trans ?_
    simp only [LoopState.Answerable, LoopState.outcome, ha', Bool.false_eq_true, if_false]
    rfl

end

/-- **The answer to a hypercall.** At every hypercall exit but `0xFF` and
`exit`, whatever the registers, the memory, the whitelist and the outcome on
the host, the guest is told what happened exactly when the exit is
answerable. -/
theorem hypercall_reports_iff (env : Env) (guest : Guest S F) (st : LoopState S F)
    (k : KvmRun) (m : Machine S F) (hhost : ∀ n c, (env.host n c).InRange)
    (hg : guest st.count st.entering = (k, m)) (hk : k.reason = .hyperCall)
    (h0 : m.regs.rdi ≠ 0) (hff : m.regs.rdi ≠ 0xFF) :
    (∃ st', st.iterate env guest = .ok st' ∧
        (st.exited m (some m.regs.rip)).Reports env st') ↔
      (st.exited m (some m.regs.rip)).Answerable env := by
  have hi : st.iterate env guest = (st.exited m (some m.regs.rip)).onHyperCall env := by
    simp only [LoopState.iterate, hg, hk, LoopState.exited]
  rw [hi]
  exact LoopState.reports_iff_answerable hhost rfl h0 hff

/-! ### Two exits of `close` -/

/-- A guest that exits once, with the given registers. -/
def exitWith (regs : VirtineRegisters) : Guest Unit Unit := fun _ m =>
  (⟨none, .io 0xFF⟩, { m with regs := regs })

theorem quietEnv_inRange (n : Nat) (c : HostCall) : (quietEnv.host n c).InRange := by
  show 0 < 2 ^ 63
  decide

/-- A permitted `close` that succeeds is answered. -/
theorem close_reported :
    ∃ st', (pageLoop {}).iterate quietEnv (exitWith { rdi := 1 }) = .ok st' ∧
    ((pageLoop {}).exited { (pageVirtine {}).toMachine with regs := { rdi := 1 } }
      (some 0)).Reports quietEnv st' :=
  (hypercall_reports_iff quietEnv (exitWith { rdi := 1 }) (pageLoop {}) ⟨none, .io 0xFF⟩ _
    quietEnv_inRange rfl rfl (by decide) (by decide)).mpr trivial

/-- A refused `close` leaves the guest with the `rax` it had, here 0. -/
theorem denied_close_not_reported :
    ¬ ∀ (env : Env) (guest : Guest Unit Unit) (st : LoopState Unit Unit) (k : KvmRun)
        (m : Machine Unit Unit), (∀ n c, (env.host n c).InRange) →
      guest st.count st.entering = (k, m) → k.reason = .hyperCall →
      m.regs.rdi ≠ 0 → m.regs.rdi ≠ 0xFF →
      ∃ st', st.iterate env guest = .ok st' ∧
        (st.exited m (some m.regs.rip)).Reports env st' := by
  intro h
  obtain ⟨st', hi, hr⟩ := h quietEnv (exitWith { rdi := 1 })
    { pageLoop {} with whitelist := 0 } ⟨none, .io 0xFF⟩ _ quietEnv_inRange rfl rfl
    (by decide) (by decide)
  cases hi
  exact absurd hr.rax.2 (by decide)

end Wasp
