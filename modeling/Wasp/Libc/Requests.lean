import Wasp.Libc.Syscalls
import Wasp.Runtime.Confinement

/-!
# Requests — what a wrapper asks for and what the host does for it

The guest's libc and the dispatcher of `wasp_run_virtine` agree on numbers
and registers, and on nothing that is said in the arguments: the guest's
`O_*` flags are newlib's, the host hands them to its own `open`. `SystemCall`
is the level on which the two can be compared, an operation on descriptors
and guest addresses with the flags spelled out; `Wrapper.request` reads a
call of the guest, `HostCall.request` a system call of the host.
-/

namespace Wasp

variable {S F : Type}

/-! ## Flags of `open` -/

inductive Access where
  | rdonly
  | wronly
  | rdwr
  deriving DecidableEq, Repr

/-- The values of the `O_*` flags that have a meaning here. -/
structure OpenFlags where
  rdonly : BitVec 32
  wronly : BitVec 32
  rdwr : BitVec 32
  append : BitVec 32
  creat : BitVec 32
  trunc : BitVec 32
  excl : BitVec 32

/-- `libc/newlib/libc/include/sys/_default_fcntl.h`. -/
def newlibFlags : OpenFlags :=
  { rdonly := 0, wronly := 1, rdwr := 2, append := 0x0008, creat := 0x0200,
    trunc := 0x0400, excl := 0x0800 }

/-- The flags of Linux on x86-64. -/
def linuxFlags : OpenFlags :=
  { rdonly := 0, wronly := 1, rdwr := 2, append := 0x0400, creat := 0x0040,
    trunc := 0x0200, excl := 0x0080 }

/-- What the flags of an `open` say. An access mode that is none of the
three has no meaning. -/
structure OpenHow where
  access : Option Access
  append : Bool
  create : Bool
  truncate : Bool
  exclusive : Bool
  deriving DecidableEq, Repr

namespace OpenFlags

def access (t : OpenFlags) (flags : BitVec 32) : Option Access :=
  let a := flags &&& (t.rdonly ||| t.wronly ||| t.rdwr)
  if a = t.rdonly then some .rdonly
  else if a = t.wronly then some .wronly
  else if a = t.rdwr then some .rdwr
  else none

def how (t : OpenFlags) (flags : BitVec 32) : OpenHow :=
  { access := t.access flags,
    append := decide (flags &&& t.append ≠ 0),
    create := decide (flags &&& t.creat ≠ 0),
    truncate := decide (flags &&& t.trunc ≠ 0),
    exclusive := decide (flags &&& t.excl ≠ 0) }

end OpenFlags

/-- A flag of one bit is set when the bit is. -/
theorem decide_flag (flags : BitVec 32) {mask : BitVec 32} {i : Nat}
    (hm : mask = BitVec.twoPow 32 i) (hi : i < 32) :
    decide (flags &&& mask ≠ 0) = flags.getLsbD i := by
  subst hm
  rw [BitVec.and_twoPow]
  cases flags.getLsbD i with
  | false => rfl
  | true =>
      have hne : BitVec.twoPow 32 i ≠ 0 := by
        intro h
        have := congrArg (fun x => x.getLsbD i) h
        simp [hi] at this
      simpa using hne

/-- The bits on which the two headers have to be lucky: the guest's
`O_CREAT`, `O_TRUNC` and `O_APPEND` are the host's `O_TRUNC`, `O_APPEND` and
nothing, and the host's `O_CREAT` is nothing to the guest, so all four must
be the same; likewise the two `O_EXCL`. -/
def FlagsAgree (flags : BitVec 32) : Prop :=
  flags.getLsbD 6 = flags.getLsbD 9 ∧ flags.getLsbD 9 = flags.getLsbD 10 ∧
    flags.getLsbD 10 = flags.getLsbD 3 ∧ flags.getLsbD 7 = flags.getLsbD 11

instance (flags : BitVec 32) : Decidable (FlagsAgree flags) :=
  inferInstanceAs (Decidable (_ ∧ _))

theorem how_newlib (flags : BitVec 32) :
    newlibFlags.how flags =
      { access := linuxFlags.access flags, append := flags.getLsbD 3,
        create := flags.getLsbD 9, truncate := flags.getLsbD 10,
        exclusive := flags.getLsbD 11 } := by
  have hbit := @decide_flag flags
  simp only [OpenFlags.how, OpenHow.mk.injEq]
  refine ⟨rfl, hbit ?_ ?_, hbit ?_ ?_, hbit ?_ ?_, hbit ?_ ?_⟩ <;> decide

theorem how_linux (flags : BitVec 32) :
    linuxFlags.how flags =
      { access := linuxFlags.access flags, append := flags.getLsbD 10,
        create := flags.getLsbD 6, truncate := flags.getLsbD 9,
        exclusive := flags.getLsbD 7 } := by
  have hbit := @decide_flag flags
  simp only [OpenFlags.how, OpenHow.mk.injEq, true_and]
  refine ⟨hbit ?_ ?_, hbit ?_ ?_, hbit ?_ ?_, hbit ?_ ?_⟩ <;> decide

theorem how_eq_iff {flags : BitVec 32} :
    linuxFlags.how flags = newlibFlags.how flags ↔ FlagsAgree flags := by
  rw [how_newlib, how_linux]
  simp only [OpenHow.mk.injEq, true_and, FlagsAgree]
  constructor
  · intro h
    exact ⟨h.2.1, h.2.2.1, h.1, h.2.2.2⟩
  · intro h
    exact ⟨h.2.2.1, h.1, h.2.1, h.2.2.2⟩

/-! ## Requests -/

/-- A system call on the guest's memory: a place is a guest address, `none`
a null pointer. The mode matters when a file may be created. -/
inductive SystemCall where
  | close (fd : BitVec 32)
  | read (fd : BitVec 32) (buf : Option Nat) (len : BitVec 64)
  | write (fd : BitVec 32) (buf : Option Nat) (len : BitVec 64)
  | fstat (fd : BitVec 32) (buf : Option Nat)
  | stat (path buf : Option Nat)
  | open_ (path : Option Nat) (how : OpenHow) (mode : Option (BitVec 32))
  deriving DecidableEq, Repr

def SystemCall.opening (path : Option Nat) (how : OpenHow) (mode : BitVec 32) : SystemCall :=
  .open_ path how (if how.create then some mode else none)

/-- What the host does. -/
def HostCall.request : HostCall → SystemCall
  | close fd => .close fd
  | open_ path flags mode => .opening path (linuxFlags.how flags) mode
  | read fd buf count => .read fd buf count
  | write fd buf count => .write fd buf count
  | fstat fd buf => .fstat fd buf

namespace Libc

open Words

/-- What the guest asks for. -/
def Wrapper.request : Wrapper → SystemCall
  | close file | _close file => .close file
  | fstat file st | _fstat file st => .fstat file (some st.toNat)
  | open_ filename flags mode =>
      .opening (some filename.toNat) (newlibFlags.how flags) mode
  | read file ptr len | _read file ptr len =>
      .read file (some ptr.toNat) (len.signExtend 64)
  | stat file st => .stat (some file.toNat) (some st.toNat)
  | write file ptr len | _write file ptr len =>
      .write file (some ptr.toNat) (len.signExtend 64)

/-! ## The dispatch of a wrapper -/

/-- The check the host makes of the wrapper's arguments. -/
def Wrapper.checked (v : Virtine S F) : Wrapper → Bool
  | close _ | _close _ => true
  | fstat _ st | _fstat _ st | stat _ st => v.validateLength st sizeofStat
  | open_ filename _ _ => v.validateLength filename 256
  | read _ ptr len | _read _ ptr len | write _ ptr len | _write _ ptr len =>
      v.validateLength ptr (len.signExtend 64)

/-- The call the host makes when they pass, in terms of the arguments. -/
def Wrapper.hostCall (v : Virtine S F) : Wrapper → HostCall
  | close file | _close file => .close file
  | fstat file st | _fstat file st => .fstat file (v.translate st)
  | open_ filename flags mode =>
      .open_ (v.translate filename) flags (if flags &&& oCreat ≠ 0 then mode else 0)
  | read file ptr len | _read file ptr len => .read file (v.translate ptr) (len.signExtend 64)
  | stat file st => .fstat (file.setWidth 32) (v.translate st)
  | write file ptr len | _write file ptr len =>
      .write file (v.translate ptr) (len.signExtend 64)

/-- **Numbers and registers agree**: every wrapper reaches the arm of its
own number with its own arguments. -/
theorem dispatch_enter (v : Virtine S F) (regs : VirtineRegisters) (w : Wrapper) :
    v.dispatch (w.enter regs) =
      if w.checked v then .call (w.hostCall v) else .invalid := by
  have hcut := setWidth_signExtend
  cases w with
  | close file | _close file =>
      have hd : Hcall.decode (hcallClose.setWidth 64) = some .close := by decide
      simp only [Wrapper.enter, Libc.close, Libc._close, hypercall, Virtine.dispatch,
        if_neg (Hcall.ne_of_decode hd), hd, hcut]
      rfl
  | fstat file st | _fstat file st | stat file st =>
      have hd : Hcall.decode (hcallFstat.setWidth 64) = some .fstat := by decide
      simp only [Wrapper.enter, Libc.fstat, Libc._fstat, Libc.stat, hypercall,
        Virtine.dispatch, if_neg (Hcall.ne_of_decode hd), hd, hcut]
      rfl
  | open_ filename flags mode =>
      have hd : Hcall.decode (hcallOpen.setWidth 64) = some .open_ := by decide
      simp only [Wrapper.enter, Libc.open_, hypercall, Virtine.dispatch,
        if_neg (Hcall.ne_of_decode hd), hd, hcut, BitVec.setWidth_setWidth_of_le,
        BitVec.setWidth_eq, Nat.reduceLeDiff]
      rfl
  | read file ptr len | _read file ptr len =>
      have hd : Hcall.decode (hcallRead.setWidth 64) = some .read := by decide
      simp only [Wrapper.enter, Libc.read, Libc._read, hypercall, Virtine.dispatch,
        if_neg (Hcall.ne_of_decode hd), hd, hcut]
      rfl
  | write file ptr len | _write file ptr len =>
      have hd : Hcall.decode (hcallWrite.setWidth 64) = some .write := by decide
      simp only [Wrapper.enter, Libc.write, Libc._write, hypercall, Virtine.dispatch,
        if_neg (Hcall.ne_of_decode hd), hd, hcut]
      rfl

/-! ## Agreement -/

/-- The pointer is one of the guest's: `translate` does not make it null. -/
def Reaches (v : Virtine S F) (ptr : BitVec 64) : Prop :=
  v.mMem ≠ 0 ∧ ptr.toNat ≤ v.mMemsz.toNat

instance (v : Virtine S F) (ptr : BitVec 64) : Decidable (Reaches v ptr) :=
  inferInstanceAs (Decidable (_ ∧ _))

/-- Where the host does what the wrapper says. `stat` is nowhere: the host
has no such call. -/
def Wrapper.Agreed (v : Virtine S F) : Wrapper → Prop
  | close _ | _close _ => True
  | fstat _ ptr | _fstat _ ptr => Reaches v ptr
  | read _ ptr _ | _read _ ptr _ | write _ ptr _ | _write _ ptr _ => Reaches v ptr
  | open_ filename flags _ => Reaches v filename ∧ FlagsAgree flags
  | stat _ _ => False

theorem translate_eq_iff {v : Virtine S F} {ptr : BitVec 64} :
    v.translate ptr = some ptr.toNat ↔ Reaches v ptr := by
  rw [Virtine.translate_eq_some]
  exact ⟨fun h => ⟨h.2.1, h.1⟩, fun h => ⟨h.2, h.1, rfl⟩⟩

/-- With the same flags on both sides, the mode arrives too. -/
theorem opening_eq_iff {v : Virtine S F} {filename : BitVec 64} {flags mode : BitVec 32} :
    SystemCall.opening (v.translate filename) (linuxFlags.how flags)
        (if flags &&& oCreat ≠ 0 then mode else 0) =
      SystemCall.opening (some filename.toNat) (newlibFlags.how flags) mode ↔
    Reaches v filename ∧ FlagsAgree flags := by
  rw [← translate_eq_iff, ← how_eq_iff]
  constructor
  · intro h
    simp only [SystemCall.opening, SystemCall.open_.injEq] at h
    exact ⟨h.1, h.2.1⟩
  · rintro ⟨hp, hf⟩
    rw [hp, hf]
    by_cases hc : flags &&& oCreat ≠ 0
    · rw [if_pos hc]
    · have hno : (newlibFlags.how flags).create = false := decide_eq_false hc
      simp only [SystemCall.opening, hno, Bool.false_eq_true, if_false]

theorem request_hostCall_iff {v : Virtine S F} {w : Wrapper} :
    (w.hostCall v).request = w.request ↔ w.Agreed v := by
  cases w with
  | close file | _close file => exact ⟨fun _ => trivial, fun _ => rfl⟩
  | fstat file st | _fstat file st =>
      simp only [Wrapper.hostCall, HostCall.request, Wrapper.request, SystemCall.fstat.injEq,
        true_and]
      exact translate_eq_iff
  | open_ filename flags mode => exact opening_eq_iff
  | read file ptr len | _read file ptr len =>
      simp only [Wrapper.hostCall, HostCall.request, Wrapper.request, SystemCall.read.injEq,
        true_and, and_true]
      exact translate_eq_iff
  | stat file st =>
      constructor <;> intro h <;> cases h
  | write file ptr len | _write file ptr len =>
      simp only [Wrapper.hostCall, HostCall.request, Wrapper.request, SystemCall.write.injEq,
        true_and, and_true]
      exact translate_eq_iff

/-- **Wrapper and host.** At the exit of a wrapper whose number is
whitelisted and whose arguments pass the host's check, the host makes the
system call the guest asked for exactly where the two agree. -/
theorem wrapper_served_iff (env : Env) (st : LoopState S F) (regs : VirtineRegisters)
    (w : Wrapper) (hregs : st.vm.regs = w.enter regs) (hallow : st.allowed env = true)
    (hvalid : st.vm.dispatch st.vm.regs ≠ .invalid) :
    (∃ c, st.Makes env c ∧ c.request = w.request) ↔ w.Agreed st.vm := by
  have hd : st.vm.dispatch st.vm.regs = .call (w.hostCall st.vm) := by
    rw [hregs, dispatch_enter] at hvalid ⊢
    by_cases hc : w.checked st.vm = true
    · rw [if_pos hc]
    · exact absurd (if_neg hc) hvalid
  rw [← request_hostCall_iff]
  constructor
  · rintro ⟨c, ⟨r, st', hh⟩, hr⟩
    cases hh with
    | call _ hd' _ =>
        rw [hd, Action.call.injEq] at hd'
        rw [hd', hr]
  · intro hr
    exact ⟨_, ⟨_, _, .call hallow hd rfl⟩, hr⟩

/-! ### Two calls of `open` -/

/-- Reading an existing file is understood. -/
theorem open_rdonly_served :
    ∃ c, (pageLoop (open_ {} 0x100 0 0)).Makes quietEnv c ∧
      c.request = (Wrapper.open_ 0x100 0 0).request :=
  (wrapper_served_iff quietEnv (pageLoop (open_ {} 0x100 0 0)) {} (.open_ 0x100 0 0) rfl
    (by decide) (by decide)).mpr ⟨by decide, by decide⟩

/-- `open(name, O_WRONLY | O_CREAT, 0644)` truncates on the host. -/
theorem open_creat_not_served :
    ¬ ∀ (env : Env) (st : LoopState Unit Unit) (regs : VirtineRegisters) (w : Wrapper),
      st.vm.regs = w.enter regs → st.allowed env = true →
      st.vm.dispatch st.vm.regs ≠ .invalid →
      ∃ c, st.Makes env c ∧ c.request = w.request := by
  intro h
  obtain ⟨c, hm, hr⟩ := h quietEnv (pageLoop (open_ {} 0x100 0x201 0o644)) {}
    (.open_ 0x100 0x201 0o644) rfl (by decide) (by decide)
  cases hm.serves with
  | close hd | open_ hd | read hd | write hd | fstat hd => exact absurd hr (by decide)

end Libc

end Wasp
