import Mathlib.Data.List.Basic
import Wasp.Runtime.Invocation
import Wasp.Runtime.Loading

/-!
# Arguments — how far the argument reaches into the guest

`wasp_run_virtine` (`src/binding.cpp`) copies `argsz` bytes to guest address
`0` before the loop and back after it. The image is at `0x8000`, and the
memory ends at `m_memsz`; neither copy looks at them.

Which bytes a copy touches is said by what it can change: a byte that is
another one after the copy-in, and a byte that what is copied out depends on.
-/

namespace Wasp

open ByteMem

variable {S F : Type}

/-- The bytes of the image. -/
def Call.InImage (call : Call) (a : Nat) : Prop := 0x8000 ≤ a ∧ a < 0x8000 + call.codesz.toNat

/-- The argument of the call, taken to the virtine `v` of the cache `c` and
back, stays within its own bytes in the memory of `v`, and clear of the
image and of what a snapshot captured above it. -/
structure Call.Confined (call : Call) (env : Env) (kvm : Kvm S F) (caches : Caches S F)
    (v : Virtine S F) (c : Cache S F) : Prop where
  copyIn : ∃ st, call.start env kvm caches = .ok st ∧ ∀ a, st.vm.mem a ≠ v.mem a →
    a < call.argsz.toNat ∧ a < v.mMemsz.toNat ∧ ¬ call.InImage a ∧
      ∀ r, c.mReset = some r → call.argsz.toNat ≤ a → ¬ r.Covers a
  copyOut : ∀ st st' ret ret', call.finish caches st = .ok ret →
    call.finish caches st' = .ok ret' →
    (∀ a < call.argsz.toNat, a < v.mMemsz.toNat → st.vm.mem a = st'.vm.mem a) →
    ret.arg = ret'.arg

/-- An argument that ends in the memory and before the image. -/
def Call.ArgumentFits (call : Call) (v : Virtine S F) : Prop :=
  call.argsz = 0 ∨ call.argsz.toNat ≤ v.mMemsz.toNat ∧
    (call.argsz.toNat ≤ 0x8000 ∨ call.codesz = 0)

/-! ## The two copies -/

theorem Virtine.boot_mem (v : Virtine S F) (useSnapshots : Bool) :
    (v.boot useSnapshots).mem = v.mem := by
  cases useSnapshots <;> rfl

/-- **The copy-in** goes through if it is empty or there is memory. -/
theorem Virtine.copyIn_eq_ok {v w : Virtine S F} {arg : Nat → UInt8} {argsz : BitVec 64} :
    v.copyIn (some arg) argsz = .ok w ↔
      (argsz = 0 ∨ v.mMem ≠ 0) ∧ w = { v with mem := blit v.mem 0 arg argsz.toNat } := by
  unfold Virtine.copyIn
  cases ht : v.translate 0 with
  | some p =>
      obtain ⟨-, hmem, rfl⟩ := Virtine.translate_eq_some.mp ht
      constructor
      · intro h
        cases h
        exact ⟨.inr hmem, rfl⟩
      · rintro ⟨-, rfl⟩
        rfl
  | none =>
      have hnull : ¬ v.mMem ≠ 0 := by
        intro hmem
        rw [Virtine.translate_zero hmem] at ht
        cases ht
      by_cases hz : argsz = 0
      · subst hz
        constructor
        · intro h
          cases h
          exact ⟨.inl rfl, by simp⟩
        · rintro ⟨-, rfl⟩
          simp
      · constructor
        · intro h
          rw [if_neg hz] at h
          cases h
        · rintro ⟨hz' | hmem, -⟩
          · exact absurd hz' hz
          · exact absurd hmem hnull

theorem Virtine.copyIn_none (v : Virtine S F) (argsz : BitVec 64) :
    v.copyIn none argsz = .ok v := by
  unfold Virtine.copyIn
  rfl

section

variable {call : Call} {env : Env} {kvm : Kvm S F} {caches : Caches S F} {v : Virtine S F}
  {c : Cache S F}

/-- The loop begins if the copy-in goes through, with what it leaves. -/
theorem Call.start_of_copyIn (hget : (caches.getCache call).get kvm = (.ok v, c))
    {w : Virtine S F} (hcopy : v.copyIn call.arg call.argsz = .ok w) :
    ∃ st, call.start env kvm caches = .ok st ∧ st.vm.mem = w.mem :=
  ⟨_, Call.start_eq_ok.mpr ⟨v, w, c, hget, hcopy, rfl⟩, Virtine.boot_mem w _⟩

theorem Call.start_mem (hget : (caches.getCache call).get kvm = (.ok v, c))
    {arg : Nat → UInt8} (harg : call.arg = some arg) {st : LoopState S F}
    (h : call.start env kvm caches = .ok st) :
    st.vm.mem = blit v.mem 0 arg call.argsz.toNat := by
  obtain ⟨v', w, c', hget', hcopy, rfl⟩ := Call.start_eq_ok.mp h
  rw [hget] at hget'
  cases hget'
  rw [harg] at hcopy
  obtain ⟨-, rfl⟩ := Virtine.copyIn_eq_ok.mp hcopy
  exact Virtine.boot_mem _ env.useSnapshots

/-- An argument that fits is empty or has a memory to go to. -/
theorem Call.ArgumentFits.mapped (hfits : call.ArgumentFits v) (hv : v.Mapped) :
    call.argsz = 0 ∨ v.mMem ≠ 0 := by
  rcases hfits with hz | ⟨hle, -⟩
  · exact .inl hz
  · by_cases hnull : v.mMem = 0
    · have hnone : v.mMemsz.toNat = 0 := congrArg BitVec.toNat (hv hnull)
      have hz : call.argsz.toNat = 0 := by omega
      exact .inl (BitVec.eq_of_toNat_eq hz)
    · exact .inr hnull

/-- Its bytes are in the memory and clear of the image. -/
theorem Call.ArgumentFits.clear (hfits : call.ArgumentFits v) {a : Nat}
    (ha : a < call.argsz.toNat) : a < v.mMemsz.toNat ∧ ¬ call.InImage a := by
  rcases hfits with hz | ⟨hle, himage⟩
  · rw [hz] at ha
    exact absurd ha (Nat.not_lt_zero a)
  · refine ⟨by omega, fun hin => ?_⟩
    obtain ⟨hlow, hhigh⟩ := hin
    rcases himage with hle' | hz
    · omega
    · have hnone : call.codesz.toNat = 0 := congrArg BitVec.toNat hz
      omega

/-- **An argument that fits is confined.** -/
theorem Call.ArgumentFits.confined (hfits : call.ArgumentFits v) (hv : v.Mapped)
    (hget : (caches.getCache call).get kvm = (.ok v, c)) : call.Confined env kvm caches v c := by
  refine ⟨?_, fun st st' ret ret' hf hf' hsame => ?_⟩
  · cases harg : call.arg with
    | none =>
        have hcopy : v.copyIn call.arg call.argsz = .ok v := by
          rw [harg]
          exact v.copyIn_none _
        obtain ⟨st, hst, hm⟩ := Call.start_of_copyIn hget hcopy
        exact ⟨st, hst, fun a ha => absurd (congrFun hm a) ha⟩
    | some arg =>
        have hcopy : v.copyIn call.arg call.argsz =
            .ok { v with mem := blit v.mem 0 arg call.argsz.toNat } := by
          rw [harg]
          exact Virtine.copyIn_eq_ok.mpr ⟨hfits.mapped hv, rfl⟩
        obtain ⟨st, hst, hm⟩ := Call.start_of_copyIn hget hcopy
        refine ⟨st, hst, fun a ha => ?_⟩
        -- a byte that changes is one of the argument's
        have hlt : a < call.argsz.toNat := by
          by_contra hge
          rw [hm] at ha
          exact ha (blit_outside (by omega))
        obtain ⟨hin, himage⟩ := hfits.clear hlt
        exact ⟨hlt, hin, himage, fun r _ hle => by omega⟩
  · obtain ⟨c₁, -, rfl⟩ := Call.finish_eq_ok.mp hf
    obtain ⟨c₂, -, rfl⟩ := Call.finish_eq_ok.mp hf'
    show st.vm.copyOut call.arg call.argsz = st'.vm.copyOut call.arg call.argsz
    unfold Virtine.copyOut
    cases call.arg with
    | none => rfl
    | some arg =>
        show some (blit arg 0 st.vm.mem call.argsz.toNat) = some (blit arg 0 st'.vm.mem _)
        rw [blit_congr fun a ha => hsame a ha (hfits.clear ha).1]

/-- Some argument of that size shows each byte that the copy-in writes. -/
theorem Call.Confined.writes (hget : (caches.getCache call).get kvm = (.ok v, c))
    (h : ∀ arg, Call.Confined { call with arg := arg } env kvm caches v c) {a : Nat}
    (ha : a < call.argsz.toNat) : a < v.mMemsz.toNat ∧ ¬ call.InImage a := by
  have hget' : (caches.getCache { call with arg := some fun i => v.mem i + 1 }).get kvm =
    (.ok v, c) := hget
  obtain ⟨st, hst, hbytes⟩ := (h (some fun i => v.mem i + 1)).copyIn
  have hm : st.vm.mem = blit v.mem 0 (fun i => v.mem i + 1) call.argsz.toNat :=
    Call.start_mem hget' rfl hst
  have hchanged : st.vm.mem a ≠ v.mem a := by
    rw [hm, blit_inside (Nat.zero_le a) (by omega)]
    show v.mem (a - 0) + 1 ≠ v.mem a
    rw [Nat.sub_zero]
    intro heq
    have hnat := congrArg UInt8.toNat heq
    rw [UInt8.toNat_add] at hnat
    have hbound := (v.mem a).toNat_lt
    have hone : (1 : UInt8).toNat = 1 := rfl
    omega
  obtain ⟨-, hin, hclear, -⟩ := hbytes a hchanged
  exact ⟨hin, hclear⟩

end

/-- **Argument transfer.** For every call and the virtine it gets: whatever
the argument holds, it is confined exactly when `argsz` is at most the size
of the memory and, unless the image is empty, at most `0x8000`, or it is
zero. -/
theorem argument_transfer_confined_iff (call : Call) (env : Env) (kvm : Kvm S F)
    (caches : Caches S F) (v : Virtine S F) (c : Cache S F) (hv : v.Mapped)
    (hget : (caches.getCache call).get kvm = (.ok v, c)) :
    (∀ arg, Call.Confined { call with arg := arg } env kvm caches v c) ↔
      call.ArgumentFits v := by
  constructor
  · intro h
    by_cases hz : call.argsz = 0
    · exact .inl hz
    · have hpos : call.argsz.toNat ≠ 0 := fun h => hz (BitVec.eq_of_toNat_eq h)
      obtain ⟨hlast, -⟩ := Call.Confined.writes hget h (a := call.argsz.toNat - 1) (by omega)
      refine .inr ⟨by omega, ?_⟩
      by_cases hlow : call.argsz.toNat ≤ 0x8000
      · exact .inl hlow
      · obtain ⟨-, himage⟩ := Call.Confined.writes hget h (a := 0x8000) (by omega)
        by_cases hcode : call.codesz = 0
        · exact .inr hcode
        · have hne : call.codesz.toNat ≠ 0 := fun h => hcode (BitVec.eq_of_toNat_eq h)
          exact absurd ⟨Nat.le_refl _, by omega⟩ himage
  · intro hfits arg
    have hfits' : Call.ArgumentFits { call with arg := arg } v := hfits
    have hget' : (caches.getCache { call with arg := arg }).get kvm = (.ok v, c) := hget
    exact hfits'.confined hv hget'

/-- A call in a new process: one byte of code in a memory of nine pages, and
`argsz` bytes of `0x90`. -/
def sledCall (argsz : BitVec 64) : Call :=
  { code := 0x400000, image := fun _ => 0xF4, codesz := 1, memsz := 0x9000,
    arg := some fun _ => 0x90, argsz := argsz, config := none }

/-- The virtine that it gets. -/
def sledVirtine : Virtine Unit Unit :=
  { regs := { rip := 0x8000, rsp := 0x8000, rflags := 2 }, sregs := (), fpu := (),
    mem := blit (fun _ => 0) 0x8000 (fun _ => 0xF4) 1, mMem := 0x100000, mMemsz := 0x9000,
    mReset := ⟨{ rip := 0x8000, rsp := 0x8000, rflags := 2 }, (), (), []⟩, mResetMask := true }

theorem sledVirtine_mapped : sledVirtine.Mapped := fun h => by cases h

theorem sledCall_get (argsz : BitVec 64) : ∃ c : Cache Unit Unit,
    (Caches.empty.getCache (sledCall argsz)).get plainKvm = (.ok sledVirtine, c) := by
  have hget : ∃ c : Cache Unit Unit, ((Cache.new 0x9000 0 0).setBinary (fun _ => 0xF4) 1
      0x8000).get plainKvm = (.ok sledVirtine, c) := ⟨_, rfl⟩
  exact hget

theorem short_sled_confined : ∃ c : Cache Unit Unit,
    (Caches.empty.getCache (sledCall 16)).get plainKvm = (.ok sledVirtine, c) ∧
      ∀ arg, Call.Confined { sledCall 16 with arg := arg } quietEnv plainKvm .empty
        sledVirtine c := by
  obtain ⟨c, hget⟩ := sledCall_get 16
  refine ⟨c, hget, ?_⟩
  apply (argument_transfer_confined_iff (sledCall 16) quietEnv plainKvm .empty sledVirtine c
    sledVirtine_mapped hget).mpr
  exact .inr ⟨by decide, .inl (by decide)⟩

/-- Ten pages of argument: the first byte of the code is another one, and so
is the first byte behind the memory. -/
theorem long_sled_not_confined : ∃ (c : Cache Unit Unit) (st : LoopState Unit Unit),
    (Caches.empty.getCache (sledCall 0xA000)).get plainKvm = (.ok sledVirtine, c) ∧
      (sledCall 0xA000).start quietEnv plainKvm .empty = .ok st ∧
      sledVirtine.mem 0x8000 = 0xF4 ∧ st.vm.mem 0x8000 = 0x90 ∧
      sledVirtine.mMemsz = 0x9000 ∧ sledVirtine.mem 0x9000 = 0 ∧ st.vm.mem 0x9000 = 0x90 ∧
      ¬ (sledCall 0xA000).Confined quietEnv plainKvm .empty sledVirtine c := by
  obtain ⟨c, hget⟩ := sledCall_get 0xA000
  obtain ⟨st, hst, hm⟩ := Call.start_of_copyIn hget
    (Virtine.copyIn_eq_ok.mpr ⟨.inr (by decide), rfl⟩)
  have hsled : ∀ a < 0xA000, st.vm.mem a = 0x90 := by
    intro a ha
    have hlt : a < 0 + (sledCall 0xA000).argsz.toNat := by
      rw [Nat.zero_add]
      exact ha
    rw [hm]
    show blit sledVirtine.mem 0 (fun _ => 0x90) _ a = 0x90
    rw [blit_inside (Nat.zero_le a) hlt]
  refine ⟨c, st, hget, hst, rfl, hsled _ (by decide), rfl, rfl, hsled _ (by decide),
    fun h => ?_⟩
  obtain ⟨st', hst', hbytes⟩ := h.copyIn
  rw [hst] at hst'
  cases hst'
  have hchanged : st.vm.mem 0x8000 ≠ sledVirtine.mem 0x8000 := by
    rw [hsled _ (by decide)]
    decide
  obtain ⟨-, -, himage, -⟩ := hbytes 0x8000 hchanged
  exact himage (by unfold Call.InImage; decide)

end Wasp
