import Wasp.Runtime.RunVirtine

/-!
# Whitelist — no host call outside the policy

The permission test looks at `rdi` truncated to an `int`, the dispatch at
the whole register. They agree on every number the switch has an arm for:
such a register is below 64, so truncation keeps it and the shift is in
range. The value of an out-of-range shift therefore never matters, and it
stays a parameter throughout.
-/

namespace Wasp

variable {S F : Type}

/-- An exit with the number of an `HCALL` is admitted exactly by its bit. -/
theorem LoopState.allowed_of_decode {env : Env} {st : LoopState S F} {h : Hcall}
    (hd : Hcall.decode st.vm.regs.rdi = some h) :
    st.allowed env = st.whitelist.getLsbD h.number := by
  have hn := Hcall.decode_eq_some.mp hd
  have hlt := h.number_lt
  have ht : (st.vm.regs.rdi.setWidth 32).toNat = h.number := by
    rw [BitVec.toNat_setWidth, hn]
    exact Nat.mod_eq_of_lt (by omega)
  rw [LoopState.allowed, hypercallAllowed_bit _ (by omega), ht]

theorem Hcall.rdi_of_decode {rdi : BitVec 64} {h : Hcall} (hd : decode rdi = some h) :
    rdi = BitVec.ofNat 64 h.number := by
  have hlt := h.number_lt
  apply BitVec.eq_of_toNat_eq
  rw [decode_eq_some.mp hd, BitVec.toNat_ofNat, Nat.mod_eq_of_lt (by omega)]

theorem Hcall.decode_of_rdi {rdi : BitVec 64} {h : Hcall}
    (hr : rdi = BitVec.ofNat 64 h.number) : decode rdi = some h := by
  have hlt := h.number_lt
  rw [decode_eq_some, hr, BitVec.toNat_ofNat, Nat.mod_eq_of_lt (by omega)]

theorem Virtine.dispatch_eq_exit {v : Virtine S F} {regs : VirtineRegisters} :
    v.dispatch regs = .exit ↔ Hcall.decode regs.rdi = some .exit := by
  constructor
  · intro h
    unfold Virtine.dispatch at h
    split at h
    · cases h
    · split at h <;> first | assumption | cases h | skip
      all_goals
        simp only [Virtine.guarded] at h
        split at h <;> cases h
  · intro hd
    simp only [Virtine.dispatch, if_neg (Hcall.ne_of_decode hd), hd]

/-- What the policy demands of one exit of the run: a host call, and a
termination through `HCALL_exit`, happens under its own number and bit;
conversely a number whose bit is set and whose buffer passes validation
makes exactly its call. -/
structure Entry.Permitted (w : BitVec 64) (v : Virtine S F) (e : Entry S F) : Prop where
  call : ∀ c, e.action = some (.call c) →
    e.machine.regs.rdi = BitVec.ofNat 64 c.hcall.number ∧
      w.getLsbD c.hcall.number = true
  exit : e.action = some .exit →
    e.machine.regs.rdi = BitVec.ofNat 64 Hcall.exit.number ∧
      w.getLsbD Hcall.exit.number = true
  served : ∀ c, v.Serves e.machine.regs c → w.getLsbD c.hcall.number = true →
    e.action = some (.call c)
  exits : e.machine.regs.rdi = BitVec.ofNat 64 Hcall.exit.number →
    w.getLsbD Hcall.exit.number = true → e.action = some .exit

/-- An admitted exit takes the arm of the switch, a refused one none. -/
theorem LoopState.Handles.action_eq {env : Env} {st st' : LoopState S F}
    {a : Option Action} {r : Option HostResult} (h : st.Handles env a r st')
    (ha : st.allowed env = true) : a = some (st.vm.dispatch st.vm.regs) := by
  cases h with
  | snapshot _ hd | skip _ hd | exit _ hd | call _ hd | invalid _ hd | nosys _ hd =>
      rw [hd]
  | denied hno =>
      rw [ha] at hno
      cases hno

/-- One exit meets the policy, whatever the guest put in its registers. -/
theorem LoopState.Handles.permitted {env : Env} {st st' : LoopState S F}
    {a : Option Action} {r : Option HostResult} (h : st.Handles env a r st') :
    Entry.Permitted st.whitelist st.vm (⟨st.vm.toMachine, a, r⟩ : Entry S F) where
  call := by
    rintro c rfl
    cases h with
    | call ha hd _ =>
        have hdec := (Virtine.dispatch_eq_call.mp hd).decode
        rw [LoopState.allowed_of_decode hdec] at ha
        exact ⟨Hcall.rdi_of_decode hdec, ha⟩
  exit := by
    rintro rfl
    cases h with
    | exit ha hd =>
        have hdec := Virtine.dispatch_eq_exit.mp hd
        rw [LoopState.allowed_of_decode hdec] at ha
        exact ⟨Hcall.rdi_of_decode hdec, ha⟩
  served := by
    intro c hs hw
    rw [h.action_eq ((LoopState.allowed_of_decode hs.decode).trans hw)]
    exact congrArg some (Virtine.dispatch_eq_call.mpr hs)
  exits := by
    intro hr hw
    have hdec := Hcall.decode_of_rdi hr
    rw [h.action_eq ((LoopState.allowed_of_decode hdec).trans hw)]
    exact congrArg some (Virtine.dispatch_eq_exit.mpr hdec)

/-- Where the memory is and what is allowed stay fixed during the loop. -/
structure LoopState.SameSite (st st' : LoopState S F) : Prop where
  whitelist : st'.whitelist = st.whitelist
  mMem : st'.vm.mMem = st.vm.mMem
  mMemsz : st'.vm.mMemsz = st.vm.mMemsz

theorem Cache.snapshot_site {c c' : Cache S F} {malloc : BitVec 64 → Bool}
    {v v' : Virtine S F} (h : c.snapshot malloc v = .ok (v', c')) :
    v'.mMem = v.mMem ∧ v'.mMemsz = v.mMemsz := by
  unfold Cache.snapshot at h
  simp only at h
  split at h
  · cases h
  · split at h <;> cases h <;> exact ⟨rfl, rfl⟩

theorem LoopState.Handles.sameSite {env : Env} {st st' : LoopState S F}
    {a : Option Action} {r : Option HostResult} (h : st.Handles env a r st') :
    st.SameSite st' := by
  cases h with
  | snapshot _ _ _ hs =>
      obtain ⟨h1, h2⟩ := Cache.snapshot_site hs
      exact ⟨rfl, h1, h2⟩
  | skip | exit | call | invalid | nosys | denied => exact ⟨rfl, rfl, rfl⟩

/-- Permission speaks of the site alone. -/
theorem Entry.Permitted.congr {w : BitVec 64} {v v' : Virtine S F} {e : Entry S F}
    (h : e.Permitted w v) (hm : v'.mMem = v.mMem) (hs : v'.mMemsz = v.mMemsz) :
    e.Permitted w v' where
  call := h.call
  exit := h.exit
  served := by
    intro c hc
    apply h.served c
    rw [← Virtine.dispatch_eq_call] at hc ⊢
    rw [← Virtine.dispatch_congr hm hs]
    exact hc
  exits := h.exits

/-- **Whitelist enforcement over whole runs.** In every run of the loop of
an invocation, of any length and with any register contents at its exits,
each exit meets the policy of the invocation's whitelist. -/
theorem whitelist_enforced (env : Env) (guest : Guest S F) (kvm : Kvm S F) (call : Call)
    (caches : Caches S F) (fuel : Nat) (st st' : LoopState S F)
    (hstart : call.start env kvm caches = .ok st)
    (hloop : st.loop env guest fuel = .ok st') :
    ∀ e ∈ st'.trace, e.Permitted call.whitelist st'.vm := by
  -- the invariant: the whitelist is the call's, and every exit so far met it
  let I : LoopState S F → Prop := fun s =>
    s.whitelist = call.whitelist ∧ ∀ e ∈ s.trace, e.Permitted call.whitelist s.vm
  have h0 : I st := by
    obtain ⟨hw, ht⟩ := Call.start_init hstart
    exact ⟨hw, by simp [ht]⟩
  have hstep : ∀ s u t, I s → LoopState.Step env guest s u t → I t := by
    rintro s u t ⟨hw, hp⟩ ⟨_, hturn⟩
    cases hturn with
    | @hyperCall k m _ a r hg hk hh =>
        have hsite := hh.sameSite
        refine ⟨hsite.whitelist.trans hw, ?_⟩
        intro e he
        rw [hh.trace, List.mem_append, List.mem_singleton] at he
        rcases he with he | rfl
        · exact (hp e he).congr hsite.mMem hsite.mMemsz
        · have := hh.permitted
          rw [show (s.exited m (some m.regs.rip)).whitelist = call.whitelist from hw] at this
          exact this.congr hsite.mMem hsite.mMemsz
    | exited hg hk => exact ⟨hw, fun e he => (hp e he).congr rfl rfl⟩
    | resumed hg hk => exact ⟨hw, fun e he => (hp e he).congr rfl rfl⟩
  obtain ⟨us, hrun⟩ := LoopState.loop_run hloop
  exact (hrun.invariant hstep h0).2

/-! ### A guest that writes and exits -/

/-- Only `write` and `exit` are permitted. -/
def writerCall : Call :=
  { code := 0x4000, image := fun _ => 0, codesz := 1, memsz := 0x10000, arg := none,
    argsz := 0, config := some 0x401 }

def writerGuest : Guest Unit Unit := fun n m =>
  (⟨none, .io 0xFF⟩, { m with regs := if n = 0 then { rdi := 10, rcx := 4 } else {} })

def writerEnv : Env :=
  { useSnapshots := true, shiftOob := fun w _ => w, malloc := fun _ => true,
    host := fun _ _ => .ok 4 [] }

/-- Both exits of the writer meet the policy. -/
theorem writer_enforced : ∃ st st' : LoopState Unit Unit,
    writerCall.start writerEnv plainKvm (fun _ => none) = .ok st ∧
    st.loop writerEnv writerGuest 2 = .ok st' ∧
    st'.trace.map Entry.action =
      [some (.call (.write 0 (some 0) 4)), some .exit] ∧
    ∀ e ∈ st'.trace, e.Permitted writerCall.whitelist st'.vm :=
  ⟨_, _, rfl, rfl, rfl,
    whitelist_enforced writerEnv writerGuest plainKvm writerCall (fun _ => none) 2 _ _ rfl rfl⟩

end Wasp
