import Wasp.Runtime.Invocation

/-!
# Lockstep — two loops that run the same guest

Two invocations whose guests are entered with the same machine, and whose
hosts answer alike, stay together as long as no snapshot is taken: the
caches, the histories before and the numbering of the host calls may
differ. `InStep` is the relation, `InStep.loop` that the loops keep it
turn by turn, and `InStep.ends` that they end together.
-/

namespace Wasp

variable {S F : Type}

/-- Two results that agree: related states, or the same fault. -/
inductive Both {α β : Type} (R : α → β → Prop) : Except Fault α → Except Fault β → Prop where
  | ok {a : α} {b : β} : R a b → Both R (.ok a) (.ok b)
  | error (e : Fault) : Both R (.error e) (.error e)

/-- `env'` answers as `env` does, `k` host calls later. -/
structure Env.Shifts (k : Nat) (env env' : Env) : Prop where
  shiftOob : env'.shiftOob = env.shiftOob
  host : ∀ n c, env'.host (n + k) c = env.host n c

namespace LoopState

/-- `st'` is where `st` is, after `k` more host calls and with the exits
`p` before the trace of `st`. -/
structure InStep (k : Nat) (p : List (Entry S F)) (st st' : LoopState S F) : Prop where
  entering : st'.entering = st.entering
  mMem : st'.vm.mMem = st.vm.mMem
  mMemsz : st'.vm.mMemsz = st.vm.mMemsz
  whitelist : st'.whitelist = st.whitelist
  done : st'.done = st.done
  calls : st'.calls = st.calls + k
  trace : st'.trace = p ++ st.trace

/-- No exit on the trace is a snapshot. -/
def Quiet (st : LoopState S F) : Prop := ∀ e ∈ st.trace, e.action ≠ some .snapshot

theorem entering_mem (st : LoopState S F) : st.entering.mem = st.vm.mem := by
  unfold entering
  split <;> rfl

theorem InStep.mem {k : Nat} {p : List (Entry S F)} {st st' : LoopState S F}
    (h : st.InStep k p st') : st'.vm.mem = st.vm.mem := by
  rw [← entering_mem, ← entering_mem, h.entering]

/-- With the same machine and the same pending `out` the guest is entered
alike. -/
theorem entering_congr {st st' : LoopState S F} (hm : st'.vm.toMachine = st.vm.toMachine)
    (hp : st'.pending = st.pending) : st'.entering = st.entering := by
  unfold entering
  rw [hp, hm]

/-- Without snapshots every hypercall exit is handled. -/
theorem handles_total {env : Env} (hu : env.useSnapshots = false) (st : LoopState S F) :
    ∃ a r s, st.Handles env a r s := by
  by_cases ha : st.allowed env = true
  · cases hd : st.vm.dispatch st.vm.regs with
    | snapshot => exact ⟨_, _, _, .skip ha hd hu⟩
    | exit => exact ⟨_, _, _, .exit ha hd⟩
    | call c => exact ⟨_, _, _, .call ha hd rfl⟩
    | invalid => exact ⟨_, _, _, .invalid ha hd⟩
    | nosys => exact ⟨_, _, _, .nosys ha hd⟩
  · exact ⟨_, _, _, .denied (by simpa using ha)⟩

/-- **One exit.** What one loop does at an exit that is no snapshot, the
other does too. -/
theorem InStep.handles {k : Nat} {p : List (Entry S F)} {env env' : Env}
    {st st' s : LoopState S F} {a : Option Action} {r : Option HostResult}
    (hs : env.Shifts k env') (h : st.InStep k p st')
    (hm : st'.vm.toMachine = st.vm.toMachine) (hp : st'.pending = st.pending)
    (hh : st.Handles env a r s) (hn : a ≠ some .snapshot) :
    ∃ s', st'.Handles env' a r s' ∧ s.InStep k p s' := by
  have hregs : st'.vm.regs = st.vm.regs := congrArg Machine.regs hm
  have hsregs : st'.vm.sregs = st.vm.sregs := congrArg Machine.sregs hm
  have hfpu : st'.vm.fpu = st.vm.fpu := congrArg Machine.fpu hm
  have hallowed : st'.allowed env' = st.allowed env := by
    unfold allowed
    rw [hregs, hs.shiftOob, h.whitelist]
  have hdispatch : st'.vm.dispatch st'.vm.regs = st.vm.dispatch st.vm.regs := by
    rw [hregs, Virtine.dispatch_congr h.mMem h.mMemsz]
  have htrace : ∀ e : Entry S F, st'.trace ++ [e] = p ++ (st.trace ++ [e]) := by
    intro e
    rw [h.trace, List.append_assoc]
  cases hh with
  | snapshot => exact absurd rfl hn
  | skip => exact absurd rfl hn
  | exit ha hd =>
      refine ⟨_, .exit (hallowed.trans ha) (hdispatch.trans hd), entering_congr hm hp,
        h.mMem, h.mMemsz, h.whitelist, rfl, h.calls, ?_⟩
      simp only [log, hm, htrace]
  | @call c r ha hd hr =>
      have hr' : env'.host st'.calls c = r := by rw [h.calls, hs.host, hr]
      refine ⟨_, .call (hallowed.trans ha) (hdispatch.trans hd) hr', entering_congr ?_ hp,
        h.mMem, h.mMemsz, h.whitelist, h.done, ?_, ?_⟩
      · simp only [hregs, hsregs, hfpu, h.mem]
      · show st'.calls + 1 = st.calls + 1 + k
        rw [h.calls]
        omega
      · simp only [log, hm, htrace]
  | invalid ha hd =>
      refine ⟨_, .invalid (hallowed.trans ha) (hdispatch.trans hd), entering_congr hm hp,
        h.mMem, h.mMemsz, h.whitelist, h.done, h.calls, ?_⟩
      simp only [log, hm, htrace]
  | nosys ha hd =>
      refine ⟨_, .nosys (hallowed.trans ha) (hdispatch.trans hd), entering_congr ?_ hp,
        h.mMem, h.mMemsz, h.whitelist, h.done, h.calls, ?_⟩
      · simp only [hregs, hsregs, hfpu, h.mem]
      · simp only [log, hm, htrace]
  | denied ha =>
      refine ⟨_, .denied (hallowed.trans ha), entering_congr hm hp,
        h.mMem, h.mMemsz, h.whitelist, h.done, h.calls, ?_⟩
      simp only [log, hm, htrace]

/-! ## Turn by turn -/

/-- **One turn**, if it takes no snapshot. -/
theorem InStep.iterate {k : Nat} {p : List (Entry S F)} {env env' : Env} {g : Cpu S F}
    {st st' : LoopState S F} (hs : env.Shifts k env') (hu : env.useSnapshots = false)
    (h : st.InStep k p st')
    (hq : ∀ s, st.iterate env (fun _ => g) = .ok s → s.Quiet) :
    Both (InStep k p) (st.iterate env fun _ => g) (st'.iterate env' fun _ => g) := by
  -- the guest answers both entries alike, and leaves both with the same machine
  cases hg : g st.entering with
  | mk kr m =>
      have hm : ∀ q, (st'.exited m q).vm.toMachine = (st.exited m q).vm.toMachine := by
        intro q
        simp only [exited, Virtine.resume, h.mMemsz, h.mem]
      have hx : ∀ q, (st.exited m q).InStep k p (st'.exited m q) := fun q =>
        ⟨entering_congr (hm q) rfl, h.mMem, h.mMemsz, h.whitelist, h.done, h.calls, h.trace⟩
      have hg' : g st'.entering = (kr, m) := by rw [h.entering, hg]
      cases hk : kr.reason with
      | hyperCall =>
          obtain ⟨a, r, s, hh⟩ := handles_total hu (st.exited m (some m.regs.rip))
          have hi : st.iterate env (fun _ => g) = .ok s :=
            iterate_eq_ok.mpr (.hyperCall hg hk hh)
          have hn : a ≠ some .snapshot := by
            refine hq s hi ⟨(st.exited m (some m.regs.rip)).vm.toMachine, a, r⟩ ?_
            rw [hh.trace]
            exact List.mem_append_right _ List.mem_cons_self
          obtain ⟨s', hh', hs'⟩ := (hx _).handles hs (hm _) rfl hh hn
          rw [hi, iterate_eq_ok.mpr (.hyperCall hg' hk hh')]
          exact .ok hs'
      | crashed =>
          simp only [LoopState.iterate, hg, hg', hk]
          exact .error _
      | exited =>
          rw [iterate_eq_ok.mpr (.exited hg hk), iterate_eq_ok.mpr (.exited hg' hk)]
          exact .ok ⟨(hx none).entering, h.mMem, h.mMemsz, h.whitelist, rfl, h.calls, h.trace⟩
      | unknown | interrupted | halted =>
          rw [iterate_eq_ok.mpr (.resumed hg (by simp [hk])),
            iterate_eq_ok.mpr (.resumed hg' (by simp [hk]))]
          exact .ok (hx none)

/-- **The loops**, for any number of turns. -/
theorem InStep.loop {k : Nat} {p : List (Entry S F)} {env env' : Env} {g : Cpu S F}
    (hs : env.Shifts k env') (hu : env.useSnapshots = false) (fuel : Nat)
    {st st' : LoopState S F} (h : st.InStep k p st')
    (hq : ∀ n s, n ≤ fuel → st.loop env (fun _ => g) n = .ok s → s.Quiet) :
    Both (InStep k p) (st.loop env (fun _ => g) fuel) (st'.loop env' (fun _ => g) fuel) := by
  induction fuel generalizing st st' with
  | zero => exact .ok h
  | succ n ih =>
      simp only [LoopState.loop, h.done]
      by_cases hd : st.done = true
      · rw [if_pos hd, if_pos hd]
        exact .ok h
      · have hnext : ∀ s, st.iterate env (fun _ => g) = .ok s →
            ∀ n, st.loop env (fun _ => g) (n + 1) = s.loop env (fun _ => g) n := by
          intro s hi n
          simp [LoopState.loop, hd, hi]
        have hturn := h.iterate hs hu fun s hi =>
          hq 1 s (by omega) ((hnext s hi 0).trans rfl)
        rw [if_neg hd, if_neg hd]
        generalize hi : st.iterate env (fun _ => g) = x at hturn
        generalize st'.iterate env' (fun _ => g) = x' at hturn
        cases hturn with
        | error e => exact .error e
        | ok hss =>
            exact ih hss fun m t hle ht => hq (m + 1) t (by omega) ((hnext _ hi m).trans ht)

/-- Loops in step end together. -/
theorem InStep.ends {k : Nat} {p : List (Entry S F)} {env env' : Env} {g : Cpu S F}
    (hs : env.Shifts k env') (hu : env.useSnapshots = false) {st st' : LoopState S F}
    (h : st.InStep k p st')
    (hq : ∀ n s, st.loop env (fun _ => g) n = .ok s → s.Quiet) :
    (∀ t, st.Ends env (fun _ => g) t →
      ∃ t', st'.Ends env' (fun _ => g) t' ∧ t.InStep k p t') ∧
    (∀ t', st'.Ends env' (fun _ => g) t' →
      ∃ t, st.Ends env (fun _ => g) t ∧ t.InStep k p t') := by
  constructor
  · rintro t ⟨n, hl, hd⟩
    have hb := InStep.loop hs hu n h fun m s _ => hq m s
    rw [hl] at hb
    generalize hx : st'.loop env' (fun _ => g) n = x at hb
    cases hb with
    | ok htt => exact ⟨_, ⟨n, hx, htt.done.trans hd⟩, htt⟩
  · rintro t' ⟨n, hl, hd⟩
    have hb := InStep.loop hs hu n h fun m s _ => hq m s
    rw [hl] at hb
    generalize hx : st.loop env (fun _ => g) n = x at hb
    cases hb with
    | ok htt => exact ⟨_, ⟨n, hx, htt.done.symm.trans hd⟩, htt⟩

/-! ## Part of a loop -/

/-- How a loop ends can be told from any state it passes. -/
theorem ends_iff_of_loop {env : Env} {guest : Guest S F} {n : Nat} {st s t : LoopState S F}
    (h : st.loop env guest n = .ok s) : st.Ends env guest t ↔ s.Ends env guest t := by
  constructor
  · rintro ⟨m, hm, hd⟩
    refine ⟨m, ?_, hd⟩
    rw [← loop_add h, Nat.add_comm]
    exact loop_more hm hd n
  · rintro ⟨m, hm, hd⟩
    exact ⟨n + m, (loop_add h m).trans hm, hd⟩

end LoopState

end Wasp
