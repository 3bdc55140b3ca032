import Wasp.Lib.Run
import Wasp.Runtime.Hypercall

/-!
# RunVirtine — the run loop and one whole invocation

`Virtine::run` and `wasp_run_virtine` (`src/binding.cpp`). The guest is a
parameter: given how often it has been entered and the machine it is
entered with, it answers with the result of `KVM_RUN` and the machine at
the exit. A guest that ignores the count is deterministic; one that uses
it can exit with any machine at any time.

KVM completes an `out` only when the vCPU is entered again, and only if
`rip` still points at it; `pending` is the address of that instruction.
-/

namespace Wasp

open ByteMem

variable {S F : Type}

/-! ## Exits -/

inductive ExitReason where
  | unknown
  | crashed
  | interrupted
  | halted
  | hyperCall
  | exited
  deriving DecidableEq, Repr

/-- `m_run->exit_reason`, with the port of an I/O exit. -/
inductive KvmExit where
  | io (port : BitVec 16)
  | hlt
  | intr
  | shutdown
  | internalError
  | failEntry
  | mmio
  | other (reason : BitVec 32)
  deriving DecidableEq, Repr

/-- One `ioctl(KVM_RUN)`: its `errno` if it failed, and the exit reason
that stands in the run state afterwards. -/
structure KvmRun where
  errno : Option Nat := none
  exit : KvmExit
  deriving DecidableEq, Repr

def KvmExit.reason : KvmExit → ExitReason
  -- port 0xFA is the exit port, any other `out` is a hypercall
  | io port => if port = 0xFA then .exited else .hyperCall
  | hlt => .halted
  | intr => .interrupted
  | shutdown | internalError | failEntry | mmio => .crashed
  | other _ => .unknown

/-- `Virtine::run`. `EINTR` (4) and `EAGAIN` (11) are not failures. -/
def KvmRun.reason (k : KvmRun) : ExitReason :=
  match k.errno with
  | some e => if e ≠ 4 ∧ e ≠ 11 then .crashed else k.exit.reason
  | none => k.exit.reason

abbrev Guest (S F : Type) := Nat → Machine S F → KvmRun × Machine S F

/-- The vCPU as a function: the same machine always runs to the same exit. -/
abbrev Cpu (S F : Type) := Machine S F → KvmRun × Machine S F

/-! ## The run loop -/

/-- What surrounds an invocation: the mode, the value of an out-of-range
shift, the allocator, and the outcome of the `n`-th host call of it. -/
structure Env where
  useSnapshots : Bool
  shiftOob : BitVec 64 → BitVec 32 → BitVec 64
  malloc : BitVec 64 → Bool
  host : Nat → HostCall → HostResult

/-- Snapshots are on, memory can be had, and every host call returns `0`. -/
def quietEnv : Env :=
  { useSnapshots := true, shiftOob := fun w _ => w, malloc := fun _ => true,
    host := fun _ _ => .ok 0 [] }

/-- A hypercall exit as the loop met it: the machine at the exit, what was
done (`none` if the number was refused) and the outcome of a host call. -/
structure Entry (S F : Type) where
  machine : Machine S F
  action : Option Action
  result : Option HostResult

/-- The locals of `wasp_run_virtine` during its loop. `calls` and `trace`
are history: the host calls made and the hypercall exits met so far. -/
structure LoopState (S F : Type) where
  vm : Virtine S F
  cache : Cache S F
  whitelist : BitVec 64
  pending : Option (BitVec 64)
  count : Nat
  done : Bool
  calls : Nat
  trace : List (Entry S F)
  stderr : String

/-- The report on a hypercall that the whitelist does not contain. -/
def deniedReport (shiftOob : BitVec 64 → BitVec 32 → BitVec 64) (nr : BitVec 32)
    (whitelist : BitVec 64) : String :=
  let permitted := (List.range 64).filter fun i =>
    hypercallAllowed shiftOob (BitVec.ofNat 32 i) whitelist
  "Virtine tried to use non-whitelisted hypercall " ++ toString nr.toInt ++ "\n"
    ++ "    Permitted hypercalls:"
    ++ String.join (permitted.map fun i => " " ++ toString i) ++ "\n"

/-- The guest ran: its machine is the one at the exit. It can only have
changed bytes that are mapped into it. -/
def Virtine.resume (v : Virtine S F) (m : Machine S F) : Virtine S F :=
  { v with regs := m.regs, sregs := m.sregs, fpu := m.fpu,
           mem := fun a => if a < v.mMemsz.toNat then m.mem a else v.mem a }

/-- The machine KVM enters, once a pending `out` is complete. -/
def LoopState.entering (st : LoopState S F) : Machine S F :=
  if st.pending = some st.vm.regs.rip then
    { st.vm.toMachine with regs := st.vm.regs.skipOut }
  else st.vm.toMachine

/-- `if (res == ExitReason::HyperCall) { ... }`. The last line of each arm
is the `write_regs` after the switch; the refused number has none, so the
`-ENOSYS` set there is lost. -/
def LoopState.onHyperCall (env : Env) (st : LoopState S F) : Except Fault (LoopState S F) :=
  let regs := st.vm.regs
  let nr := regs.rdi.setWidth 32
  let log (action : Option Action) (result : Option HostResult) : LoopState S F :=
    { st with trace := st.trace ++ [⟨st.vm.toMachine, action, result⟩] }
  if hypercallAllowed env.shiftOob nr st.whitelist then
    match st.vm.dispatch regs with
    | .snapshot =>
        let st' := log (some .snapshot) none
        if env.useSnapshots then
          match st.cache.snapshot env.malloc st.vm with
          | .error e => .error e
          | .ok (v, c) => .ok { st' with vm := v, cache := c }
        else .ok st'
    | .exit => .ok { log (some .exit) none with done := true }
    | .call c =>
        let r := env.host st.calls c
        .ok { log (some (.call c)) (some r) with
              vm := { st.vm with regs := { regs with rax := r.value },
                                 mem := c.store r st.vm.mem },
              calls := st.calls + 1 }
    | .invalid => .ok (log (some .invalid) none)
    | .nosys =>
        .ok { log (some .nosys) none with
              vm := { st.vm with regs := { regs with rax := negEnosys } } }
  else
    .ok { log none none with
          stderr := st.stderr ++ deniedReport env.shiftOob nr st.whitelist }

/-- One turn of `while (!done)`. -/
def LoopState.iterate (env : Env) (guest : Guest S F) (st : LoopState S F) :
    Except Fault (LoopState S F) :=
  let (k, m) := guest st.count st.entering
  let st := { st with vm := st.vm.resume m, count := st.count + 1, pending := none }
  match k.reason with
  | .hyperCall => ({ st with pending := some m.regs.rip }).onHyperCall env
  | .crashed => .error .aborted
  | .exited => .ok { st with done := true }
  | .unknown | .interrupted | .halted => .ok st

/-- The loop, for at most `fuel` turns. -/
def LoopState.loop (env : Env) (guest : Guest S F) :
    Nat → LoopState S F → Except Fault (LoopState S F)
  | 0, st => .ok st
  | n + 1, st =>
      if st.done then .ok st
      else
        match st.iterate env guest with
        | .ok st' => st'.loop env guest n
        | .error e => .error e

/-! ## What one exit can do

`Handles` lists the ways a hypercall exit is handled, `Turns` the ways one
turn of the loop goes; every later argument about the loop is a case split
on one of them. -/

/-- The whitelist admits the exit's `rdi`. -/
def LoopState.allowed (env : Env) (st : LoopState S F) : Bool :=
  hypercallAllowed env.shiftOob (st.vm.regs.rdi.setWidth 32) st.whitelist

def LoopState.log (st : LoopState S F) (action : Option Action)
    (result : Option HostResult) : LoopState S F :=
  { st with trace := st.trace ++ [⟨st.vm.toMachine, action, result⟩] }

inductive LoopState.Handles (env : Env) (st : LoopState S F) :
    Option Action → Option HostResult → LoopState S F → Prop where
  | snapshot {v : Virtine S F} {c : Cache S F} : st.allowed env = true →
      st.vm.dispatch st.vm.regs = .snapshot → env.useSnapshots = true →
      st.cache.snapshot env.malloc st.vm = .ok (v, c) →
      Handles env st (some .snapshot) none
        { st.log (some .snapshot) none with vm := v, cache := c }
  | skip : st.allowed env = true → st.vm.dispatch st.vm.regs = .snapshot →
      env.useSnapshots = false →
      Handles env st (some .snapshot) none (st.log (some .snapshot) none)
  | exit : st.allowed env = true → st.vm.dispatch st.vm.regs = .exit →
      Handles env st (some .exit) none { st.log (some .exit) none with done := true }
  | call {c : HostCall} {r : HostResult} : st.allowed env = true →
      st.vm.dispatch st.vm.regs = .call c → env.host st.calls c = r →
      Handles env st (some (.call c)) (some r)
        { st.log (some (.call c)) (some r) with
          vm := { st.vm with regs := { st.vm.regs with rax := r.value },
                             mem := c.store r st.vm.mem },
          calls := st.calls + 1 }
  | invalid : st.allowed env = true → st.vm.dispatch st.vm.regs = .invalid →
      Handles env st (some .invalid) none (st.log (some .invalid) none)
  | nosys : st.allowed env = true → st.vm.dispatch st.vm.regs = .nosys →
      Handles env st (some .nosys) none
        { st.log (some .nosys) none with
          vm := { st.vm with regs := { st.vm.regs with rax := negEnosys } } }
  | denied : st.allowed env = false →
      Handles env st none none
        { st.log none none with
          stderr := st.stderr ++
            deniedReport env.shiftOob (st.vm.regs.rdi.setWidth 32) st.whitelist }

theorem LoopState.onHyperCall_handles {env : Env} {st st' : LoopState S F}
    (h : st.onHyperCall env = .ok st') : ∃ a r, st.Handles env a r st' := by
  unfold LoopState.onHyperCall at h
  by_cases ha : st.allowed env = true
  · have ha' := ha
    unfold LoopState.allowed at ha'
    simp only [if_pos ha'] at h
    cases hd : st.vm.dispatch st.vm.regs with
    | snapshot =>
        simp only [hd] at h
        by_cases hu : env.useSnapshots = true
        · simp only [if_pos hu] at h
          cases hs : st.cache.snapshot env.malloc st.vm with
          | error e => simp [hs] at h
          | ok p =>
              obtain ⟨v, c⟩ := p
              simp only [hs, Except.ok.injEq] at h
              subst h
              exact ⟨_, _, .snapshot ha hd hu hs⟩
        · simp only [if_neg hu, Except.ok.injEq] at h
          subst h
          exact ⟨_, _, .skip ha hd (by simpa using hu)⟩
    | exit =>
        simp only [hd, Except.ok.injEq] at h
        subst h
        exact ⟨_, _, .exit ha hd⟩
    | call c =>
        simp only [hd, Except.ok.injEq] at h
        subst h
        exact ⟨_, _, .call ha hd rfl⟩
    | invalid =>
        simp only [hd, Except.ok.injEq] at h
        subst h
        exact ⟨_, _, .invalid ha hd⟩
    | nosys =>
        simp only [hd, Except.ok.injEq] at h
        subst h
        exact ⟨_, _, .nosys ha hd⟩
  · have ha' := ha
    unfold LoopState.allowed at ha'
    simp only [if_neg ha', Except.ok.injEq] at h
    subst h
    exact ⟨_, _, .denied (by simpa using ha)⟩

theorem LoopState.Handles.onHyperCall {env : Env} {st st' : LoopState S F}
    {a : Option Action} {r : Option HostResult} (h : st.Handles env a r st') :
    st.onHyperCall env = .ok st' := by
  unfold LoopState.onHyperCall
  cases h with
  | snapshot ha hd hu hs =>
      unfold LoopState.allowed at ha
      simp only [if_pos ha, hd, if_pos hu, hs, LoopState.log]
  | skip ha hd hu =>
      unfold LoopState.allowed at ha
      simp [ha, hd, hu, LoopState.log]
  | exit ha hd =>
      unfold LoopState.allowed at ha
      simp only [if_pos ha, hd, LoopState.log]
  | call ha hd hr =>
      unfold LoopState.allowed at ha
      simp only [if_pos ha, hd, hr, LoopState.log]
  | invalid ha hd =>
      unfold LoopState.allowed at ha
      simp only [if_pos ha, hd, LoopState.log]
  | nosys ha hd =>
      unfold LoopState.allowed at ha
      simp only [if_pos ha, hd, LoopState.log]
  | denied ha =>
      unfold LoopState.allowed at ha
      simp [ha, LoopState.log]

/-- Every hypercall exit adds exactly one entry to the trace. -/
theorem LoopState.Handles.trace {env : Env} {st st' : LoopState S F}
    {a : Option Action} {r : Option HostResult} (h : st.Handles env a r st') :
    st'.trace = st.trace ++ [⟨st.vm.toMachine, a, r⟩] := by
  cases h <;> rfl

/-- The state in which the exit of a turn is looked at: the guest has run,
and a hypercall leaves its `out` pending. -/
def LoopState.exited (st : LoopState S F) (m : Machine S F)
    (pending : Option (BitVec 64)) : LoopState S F :=
  { st with vm := st.vm.resume m, count := st.count + 1, pending := pending }

inductive LoopState.Turns (env : Env) (guest : Guest S F) (st : LoopState S F) :
    LoopState S F → Prop where
  | hyperCall {k : KvmRun} {m : Machine S F} {st' : LoopState S F}
      {a : Option Action} {r : Option HostResult} :
      guest st.count st.entering = (k, m) → k.reason = .hyperCall →
      (st.exited m (some m.regs.rip)).Handles env a r st' → Turns env guest st st'
  | exited {k : KvmRun} {m : Machine S F} :
      guest st.count st.entering = (k, m) → k.reason = .exited →
      Turns env guest st { st.exited m none with done := true }
  | resumed {k : KvmRun} {m : Machine S F} :
      guest st.count st.entering = (k, m) →
      (k.reason = .unknown ∨ k.reason = .interrupted ∨ k.reason = .halted) →
      Turns env guest st (st.exited m none)

theorem LoopState.iterate_eq_ok {env : Env} {guest : Guest S F} {st st' : LoopState S F} :
    st.iterate env guest = .ok st' ↔ st.Turns env guest st' := by
  constructor
  · intro h
    cases hg : guest st.count st.entering with
    | mk k m =>
        simp only [LoopState.iterate, hg] at h
        cases hk : k.reason with
        | hyperCall =>
            simp only [hk] at h
            obtain ⟨a, r, hh⟩ := LoopState.onHyperCall_handles h
            exact .hyperCall hg hk hh
        | crashed => simp [hk] at h
        | exited =>
            simp only [hk, Except.ok.injEq] at h
            subst h
            exact .exited hg hk
        | unknown | interrupted | halted =>
            simp only [hk, Except.ok.injEq] at h
            subst h
            exact .resumed hg (by simp [hk])
  · intro h
    cases h with
    | hyperCall hg hk hh =>
        simp only [LoopState.iterate, hg, hk]
        exact hh.onHyperCall
    | exited hg hk => simp only [LoopState.iterate, hg, hk, LoopState.exited]
    | resumed hg hk =>
        rcases hk with hk | hk | hk <;>
          simp only [LoopState.iterate, hg, hk, LoopState.exited]

/-- The turns that `while (!done)` takes. -/
def LoopState.Step (env : Env) (guest : Guest S F) :
    LoopState S F → Unit → LoopState S F → Prop :=
  fun st _ st' => st.done = false ∧ st.Turns env guest st'

/-- The loop runs its turns one after another. -/
theorem LoopState.loop_run {env : Env} {guest : Guest S F} {n : Nat}
    {st st' : LoopState S F} (h : st.loop env guest n = .ok st') :
    ∃ us, Run (LoopState.Step env guest) st us st' := by
  induction n generalizing st with
  | zero =>
      cases h
      exact ⟨[], .nil _⟩
  | succ n ih =>
      simp only [LoopState.loop] at h
      by_cases hd : st.done = true
      · rw [if_pos hd] at h
        cases h
        exact ⟨[], .nil _⟩
      · rw [if_neg hd] at h
        cases hi : st.iterate env guest with
        | error e => simp [hi] at h
        | ok s =>
            simp only [hi] at h
            obtain ⟨us, hr⟩ := ih h
            exact ⟨() :: us, .cons ⟨by simpa using hd, LoopState.iterate_eq_ok.mp hi⟩ hr⟩

/-- A finished loop stays where it is. -/
theorem LoopState.loop_done {env : Env} {guest : Guest S F} {st : LoopState S F}
    (h : st.done = true) (n : Nat) : st.loop env guest n = .ok st := by
  cases n with
  | zero => rfl
  | succ n => simp [LoopState.loop, h]

/-- A loop can be cut in two. -/
theorem LoopState.loop_add {env : Env} {guest : Guest S F} {n : Nat} {st s : LoopState S F}
    (h : st.loop env guest n = .ok s) (m : Nat) :
    st.loop env guest (n + m) = s.loop env guest m := by
  induction n generalizing st with
  | zero =>
      cases h
      rw [Nat.zero_add]
  | succ n ih =>
      rw [Nat.add_right_comm]
      simp only [LoopState.loop] at h ⊢
      split at h
      · rename_i hd
        cases h
        rw [if_pos hd, LoopState.loop_done hd]
      · rename_i hd
        rw [if_neg hd]
        cases hi : st.iterate env guest with
        | error e => simp [hi] at h
        | ok t =>
            simp only [hi] at h ⊢
            exact ih h

/-! ## One invocation -/

/-- The arguments of `wasp_run_virtine`: `code` is the pointer, `image` the
bytes behind it; a null `arg` or `config` is `none`. -/
structure Call where
  code : BitVec 64
  image : Nat → UInt8
  codesz : BitVec 64
  memsz : BitVec 64
  arg : Option (Nat → UInt8)
  argsz : BitVec 64
  config : Option (BitVec 64)

/-- `config->hypercall_whitelist`, `VIRTINE_ALLOW_ALL` without a config. -/
def Call.whitelist (call : Call) : BitVec 64 := call.config.getD (BitVec.allOnes 64)

/-- `cached_virtines`. -/
abbrev Caches (S F : Type) := BitVec 64 → Option (Cache S F)

def Caches.set (caches : Caches S F) (code : BitVec 64) (c : Cache S F) : Caches S F :=
  fun k => if k = code then some c else caches k

/-- `get_cache` of `binding.cpp`: the sizes matter only the first time. -/
def Caches.getCache (caches : Caches S F) (call : Call) : Cache S F :=
  match caches call.code with
  | some c => c
  | none => (Cache.new call.memsz 0 0).setBinary call.image call.codesz 0x8000

/-- `memcpy(arg_pos, arg, argsz)`. -/
def Virtine.copyIn (v : Virtine S F) (arg : Option (Nat → UInt8)) (argsz : BitVec 64) :
    Except Fault (Virtine S F) :=
  match arg, v.translate 0 with
  | none, _ => .ok v
  | some a, some p => .ok { v with mem := blit v.mem p a argsz.toNat }
  | some _, none => if argsz = 0 then .ok v else .error .segv

/-- `memcpy(arg, arg_pos, argsz)`: the caller's buffer afterwards. -/
def Virtine.copyOut (v : Virtine S F) (arg : Option (Nat → UInt8)) (argsz : BitVec 64) :
    Option (Nat → UInt8) :=
  arg.map fun a => blit a 0 v.mem argsz.toNat

/-- `regs.rip = regs.rsp = 0x8000` when snapshots are off. -/
def Virtine.boot (v : Virtine S F) (useSnapshots : Bool) : Virtine S F :=
  if useSnapshots then v
  else { v with regs := { v.regs with rip := 0x8000, rsp := 0x8000 } }

/-- Everything before the loop. -/
def Call.start (call : Call) (env : Env) (kvm : Kvm S F) (caches : Caches S F) :
    Except Fault (LoopState S F) :=
  match (caches.getCache call).get kvm with
  | (.error e, _) => .error e
  | (.ok v, c) =>
      match v.copyIn call.arg call.argsz with
      | .error e => .error e
      | .ok v =>
          .ok { vm := v.boot env.useSnapshots, cache := c, whitelist := call.whitelist,
                pending := none, count := 0, done := false, calls := 0, trace := [],
                stderr := "" }

/-- An invocation begins with its own whitelist and an empty history. -/
theorem Call.start_init {call : Call} {env : Env} {kvm : Kvm S F} {caches : Caches S F}
    {st : LoopState S F} (h : call.start env kvm caches = .ok st) :
    st.whitelist = call.whitelist ∧ st.trace = [] := by
  unfold Call.start at h
  split at h
  · cases h
  · split at h
    · cases h
    · cases h
      exact ⟨rfl, rfl⟩

/-- What a call that returns leaves: the caller's buffer and the caches. -/
structure Returned (S F : Type) where
  arg : Option (Nat → UInt8)
  caches : Caches S F

/-- Everything after the loop. -/
def Call.finish (call : Call) (caches : Caches S F) (st : LoopState S F) :
    Except Fault (Returned S F) :=
  match st.cache.put st.vm with
  | (.error e, _) => .error e
  | (.ok (), c) =>
      .ok { arg := st.vm.copyOut call.arg call.argsz, caches := caches.set call.code c }

/-- `wasp_run_virtine`; `none` if it has not returned after `fuel` turns. -/
def waspRunVirtine (env : Env) (guest : Guest S F) (kvm : Kvm S F) (fuel : Nat)
    (call : Call) (caches : Caches S F) : Except Fault (Option (Returned S F)) :=
  match call.start env kvm caches with
  | .error e => .error e
  | .ok st =>
      match st.loop env guest fuel with
      | .error e => .error e
      | .ok st =>
          if st.done then (call.finish caches st).map some else .ok none

end Wasp
