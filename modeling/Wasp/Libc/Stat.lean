import Mathlib.Algebra.Group.Int.Defs
import Wasp.Lib.Layout
import Wasp.Lib.LittleEndian
import Wasp.Runtime.Confinement

/-!
# Stat — the two `struct stat`s

`HCALL_fstat` lets the host's `fstat` fill the guest's record in place, with
144 bytes in the layout of the host's libc. The guest's libc was built with
newlib's `sys/stat.h`, where the same record is 104 bytes long, in another
order and with narrower members.

Reading the one layout through the other is all right for next to no record:
the fields have to agree although their bytes are each other's, which makes
nearly all of them 0 (`Undrifted`), and the last 40 bytes land past the end
of the guest's record.
-/

namespace Wasp

open LittleEndian ByteMem

namespace Libc

/-! ## Records of integers -/

/-- An integer type of C. -/
structure CInt where
  size : Nat
  logAlign : Nat
  signed : Bool

namespace CInt

def short : CInt := ⟨2, 1, true⟩
def ushort : CInt := ⟨2, 1, false⟩
def int : CInt := ⟨4, 2, true⟩
def uint : CInt := ⟨4, 2, false⟩
def long : CInt := ⟨8, 3, true⟩
def ulong : CInt := ⟨8, 3, false⟩

def layout (t : CInt) : Layout := Layout.scalar t.size t.logAlign

def load (t : CInt) (m : Nat → UInt8) (a : Nat) : Int :=
  if t.signed then LittleEndian.signed t.size (word m a t.size) else word m a t.size

section

variable (m : Nat → UInt8) (a : Nat)

@[simp] theorem load_short : short.load m a = LittleEndian.signed 2 (word m a 2) := by
  simp [load, short]

@[simp] theorem load_ushort : ushort.load m a = word m a 2 := by
  simp [load, ushort]

@[simp] theorem load_int : int.load m a = LittleEndian.signed 4 (word m a 4) := by
  simp [load, int]

@[simp] theorem load_uint : uint.load m a = word m a 4 := by
  simp [load, uint]

@[simp] theorem load_long : long.load m a = LittleEndian.signed 8 (word m a 8) := by
  simp [load, long]

@[simp] theorem load_ulong : ulong.load m a = word m a 8 := by
  simp [load, ulong]

end

theorem load_congr {t : CInt} {m m' : Nat → UInt8} {a a' : Nat}
    (h : ∀ i < t.size, m (a + i) = m' (a' + i)) : t.load m a = t.load m' a' := by
  rw [load, word_congr h, load]

end CInt

/-- The members both records have. A `struct timespec` is its two members. -/
inductive Field where
  | dev | ino | mode | nlink | uid | gid | rdev | size
  | atimSec | atimNsec | mtimSec | mtimNsec | ctimSec | ctimNsec
  | blksize | blocks
  deriving DecidableEq, Repr

/-- The members of a record in order; the nameless ones are fillers. -/
abbrev Record := List (Option Field × CInt)

namespace Record

def layouts (r : Record) : List Layout := r.map fun e => e.2.layout

def size (r : Record) : Nat := (Layout.struct r.layouts).size

/-- The offset and the type of a field. -/
def place (r : Record) (f : Field) : Option (Nat × CInt) :=
  let i := r.findIdx (·.1 = some f)
  r[i]?.map fun e => (Layout.offset r.layouts i, e.2)

/-- The value of a field in the record at `a`. -/
def get (r : Record) (m : Nat → UInt8) (a : Nat) (f : Field) : Int :=
  match r.place f with
  | some (o, t) => t.load m (a + o)
  | none => 0

end Record

/-- `struct stat` of newlib's `sys/stat.h`, with the types of `sys/_types.h`. -/
def guestStat : Record :=
  [(some .dev, .short), (some .ino, .ushort), (some .mode, .uint), (some .nlink, .ushort),
   (some .uid, .ushort), (some .gid, .ushort), (some .rdev, .short), (some .size, .long),
   (some .atimSec, .long), (some .atimNsec, .long), (some .mtimSec, .long),
   (some .mtimNsec, .long), (some .ctimSec, .long), (some .ctimNsec, .long),
   (some .blksize, .long), (some .blocks, .long),
   -- `st_spare4`
   (none, .long), (none, .long)]

/-- `struct stat` of glibc on x86-64. -/
def hostStat : Record :=
  [(some .dev, .ulong), (some .ino, .ulong), (some .nlink, .ulong), (some .mode, .uint),
   (some .uid, .uint), (some .gid, .uint),
   -- `__pad0`
   (none, .int),
   (some .rdev, .ulong), (some .size, .long), (some .blksize, .long), (some .blocks, .long),
   (some .atimSec, .long), (some .atimNsec, .long), (some .mtimSec, .long),
   (some .mtimNsec, .long), (some .ctimSec, .long), (some .ctimNsec, .long),
   -- `__glibc_reserved`
   (none, .long), (none, .long), (none, .long)]

theorem hostStat_size : hostStat.size = sizeofStat.toNat := by decide

example : guestStat.size = 104 := by decide

/-- Where the guest's libc looks for a field. -/
def Field.guest : Field → Nat × CInt
  | dev => (0, .short)
  | ino => (2, .ushort)
  | mode => (4, .uint)
  | nlink => (8, .ushort)
  | uid => (10, .ushort)
  | gid => (12, .ushort)
  | rdev => (14, .short)
  | size => (16, .long)
  | atimSec => (24, .long)
  | atimNsec => (32, .long)
  | mtimSec => (40, .long)
  | mtimNsec => (48, .long)
  | ctimSec => (56, .long)
  | ctimNsec => (64, .long)
  | blksize => (72, .long)
  | blocks => (80, .long)

/-- Where the host's libc leaves it. -/
def Field.host : Field → Nat × CInt
  | dev => (0, .ulong)
  | ino => (8, .ulong)
  | nlink => (16, .ulong)
  | mode => (24, .uint)
  | uid => (28, .uint)
  | gid => (32, .uint)
  | rdev => (40, .ulong)
  | size => (48, .long)
  | blksize => (56, .long)
  | blocks => (64, .long)
  | atimSec => (72, .long)
  | atimNsec => (80, .long)
  | mtimSec => (88, .long)
  | mtimNsec => (96, .long)
  | ctimSec => (104, .long)
  | ctimNsec => (112, .long)

theorem guestStat_place (f : Field) : guestStat.place f = some f.guest := by
  cases f <;> rfl

theorem hostStat_place (f : Field) : hostStat.place f = some f.host := by
  cases f <;> rfl

theorem guestStat_get (m : Nat → UInt8) (a : Nat) (f : Field) :
    guestStat.get m a f = f.guest.2.load m (a + f.guest.1) := by
  rw [Record.get, guestStat_place]

theorem hostStat_get (m : Nat → UInt8) (a : Nat) (f : Field) :
    hostStat.get m a f = f.host.2.load m (a + f.host.1) := by
  rw [Record.get, hostStat_place]

/-- `__pad0` of the host's record. -/
def pad0 (b : Nat → UInt8) : Int := CInt.int.load b 36

/-! ## One record read as the other -/

/-- The fields that have to be 0. -/
def zeroed : List Field :=
  [.ino, .mode, .nlink, .uid, .gid, .rdev, .size, .atimSec, .mtimSec, .mtimNsec, .ctimSec,
   .blksize]

/-- The records of the host that the guest reads right. -/
@[mk_iff undrifted_iff]
structure Undrifted (b : Nat → UInt8) : Prop where
  dev : hostStat.get b 0 .dev < 2 ^ 15
  zero : ∀ f ∈ zeroed, hostStat.get b 0 f = 0
  pad : ∀ f ∈ [Field.atimNsec, .ctimNsec, .blocks], hostStat.get b 0 f = pad0 b * 2 ^ 32

theorem Field.forall_iff {P : Field → Prop} : (∀ f, P f) ↔
    P .dev ∧ P .ino ∧ P .mode ∧ P .nlink ∧ P .uid ∧ P .gid ∧ P .rdev ∧ P .size ∧
    P .atimSec ∧ P .atimNsec ∧ P .mtimSec ∧ P .mtimNsec ∧ P .ctimSec ∧ P .ctimNsec ∧
    P .blksize ∧ P .blocks := by
  constructor
  · intro h
    simp only [h, and_self]
  · intro h f
    cases f <;> simp only [h]

/-- The guest reads right: in terms of the bytes alone. -/
theorem get_eq_iff_words (b : Nat → UInt8) :
    (∀ f, guestStat.get b 0 f = hostStat.get b 0 f) ↔
      (signed 2 (word b 0 2) = word b 0 8 ∧ word b 2 2 = word b 8 8 ∧
        word b 4 4 = word b 24 4 ∧ word b 8 2 = word b 16 8 ∧ word b 10 2 = word b 28 4 ∧
        word b 12 2 = word b 32 4 ∧ signed 2 (word b 14 2) = word b 40 8) ∧
      word b 16 8 = word b 48 8 ∧ word b 24 8 = word b 72 8 ∧ word b 32 8 = word b 80 8 ∧
      word b 40 8 = word b 88 8 ∧ word b 48 8 = word b 96 8 ∧ word b 56 8 = word b 104 8 ∧
      word b 64 8 = word b 112 8 ∧ word b 72 8 = word b 56 8 ∧ word b 80 8 = word b 64 8 := by
  simp only [Field.forall_iff, guestStat_get, hostStat_get, Field.guest, Field.host,
    CInt.load_short, CInt.load_ushort, CInt.load_uint, CInt.load_long, CInt.load_ulong,
    Nat.zero_add, signed_word_inj, Int.natCast_inj, and_assoc]

/-- The members of the guest that lie in the first two of the host. -/
theorem narrow_eq_iff (b : Nat → UInt8) :
    (signed 2 (word b 0 2) = word b 0 8 ∧ word b 2 2 = word b 8 8 ∧
        word b 4 4 = word b 24 4 ∧ word b 8 2 = word b 16 8 ∧ word b 10 2 = word b 28 4 ∧
        word b 12 2 = word b 32 4 ∧ signed 2 (word b 14 2) = word b 40 8) ↔
      word b 0 8 < 2 ^ 15 ∧ word b 8 8 = 0 ∧ word b 24 4 = 0 ∧ word b 16 8 = 0 ∧
        word b 28 4 = 0 ∧ word b 32 4 = 0 ∧ word b 40 8 = 0 := by
  have hdev : word b 0 8 = word b 0 2 + 256 ^ 2 * (word b 2 2 + 256 ^ 2 * word b 4 4) := by
    rw [← word_add b 2 2 4, ← word_add b 0 2 6]
  have hino : word b 8 8 = word b 8 2 + 256 ^ 2 * (word b 10 2 + 256 ^ 2 *
      (word b 12 2 + 256 ^ 2 * word b 14 2)) := by
    rw [← word_add b 12 2 2, ← word_add b 10 2 4, ← word_add b 8 2 6]
  -- a `short` is a 64-bit number if that is a small one
  have hshort : signed 2 (word b 0 2) = word b 0 8 ↔ word b 0 8 < 2 ^ 15 := by
    unfold signed
    omega
  rw [hshort]
  constructor
  · rintro ⟨hsmall, hino', hmode, hnlink, huid, hgid, hrdev⟩
    have hzero : word b 8 8 = 0 := by omega
    have hlast : word b 14 2 = 0 := by omega
    rw [hlast, signed_zero] at hrdev
    omega
  · rintro ⟨hsmall, hzero, hmode, hnlink, huid, hgid, hrdev⟩
    have hlast : word b 14 2 = 0 := by omega
    rw [hlast, signed_zero]
    omega

theorem pad_eq_iff (b : Nat → UInt8) (o : Nat) :
    signed 8 (word b o 8) = pad0 b * 2 ^ 32 ↔ word b o 8 = 2 ^ 32 * word b 36 4 := by
  have hpad : pad0 b * 2 ^ 32 = signed 8 (2 ^ 32 * word b 36 4) := by
    rw [pad0, CInt.load_int]
    unfold signed
    omega
  have hlt := word_lt b 36 4
  rw [hpad, signed_inj (word_lt b o 8) (by omega)]

theorem undrifted_iff_words (b : Nat → UInt8) :
    Undrifted b ↔ word b 0 8 < 2 ^ 15 ∧
      (word b 8 8 = 0 ∧ word b 24 4 = 0 ∧ word b 16 8 = 0 ∧ word b 28 4 = 0 ∧
        word b 32 4 = 0 ∧ word b 40 8 = 0 ∧ word b 48 8 = 0 ∧ word b 72 8 = 0 ∧
        word b 88 8 = 0 ∧ word b 96 8 = 0 ∧ word b 104 8 = 0 ∧ word b 56 8 = 0) ∧
      word b 80 8 = 2 ^ 32 * word b 36 4 ∧ word b 112 8 = 2 ^ 32 * word b 36 4 ∧
      word b 64 8 = 2 ^ 32 * word b 36 4 := by
  rw [undrifted_iff]
  simp only [zeroed, List.forall_mem_cons, List.not_mem_nil, false_implies, implies_true,
    and_true, hostStat_get, Field.host, CInt.load_uint, CInt.load_long, CInt.load_ulong,
    Nat.zero_add, signed_word_eq_zero, Int.natCast_eq_zero, pad_eq_iff]
  omega

theorem get_eq_iff_undrifted (b : Nat → UInt8) :
    (∀ f, guestStat.get b 0 f = hostStat.get b 0 f) ↔ Undrifted b := by
  rw [get_eq_iff_words, narrow_eq_iff, undrifted_iff_words]
  have hmode : word b 24 8 = word b 24 4 + 256 ^ 4 * word b 28 4 := word_add b 24 4 4
  have hgid : word b 32 8 = word b 32 4 + 256 ^ 4 * word b 36 4 := word_add b 32 4 4
  constructor
  · rintro ⟨⟨hdev, hino, hmode', hnlink, huid, hgid', hrdev⟩, hwide⟩
    omega
  · rintro ⟨hdev, hzero, hpad⟩
    omega

/-! ## `HCALL_fstat` -/

/-- The record a host call stored. -/
def record (bytes : List UInt8) : Nat → UInt8 := fun i => bytes.getD i 0

section

variable {S F : Type} {env : Env} {st st' : LoopState S F} {fd : BitVec 32} {a ret : Nat}
  {bytes : List UInt8}

/-- The record of the host lands at the address of the guest's, all of it. -/
theorem fstat_mem (hlen : bytes.length = sizeofStat.toNat)
    (hh : st.Handles env (some (.call (.fstat fd (some a)))) (some (.ok ret bytes)) st') :
    st'.vm.mem = blit st.vm.mem a (record bytes) sizeofStat.toNat := by
  cases hh with
  | call ha hd hr =>
      show HostCall.store (.fstat fd (some a)) (.ok ret bytes) st.vm.mem = _
      simp only [HostCall.store, HostCall.stored]
      rw [← hlen, List.take_length]
      rfl

theorem fstat_get (hmem : st'.vm.mem = blit st.vm.mem a (record bytes) sizeofStat.toNat)
    (f : Field) : guestStat.get st'.vm.mem a f = guestStat.get (record bytes) 0 f := by
  have hin : f.guest.1 + f.guest.2.size ≤ sizeofStat.toNat := by cases f <;> decide
  rw [guestStat_get, guestStat_get, hmem, Nat.zero_add]
  apply CInt.load_congr
  intro i hi
  rw [Nat.add_assoc, blit_offset (by omega)]

/-- The bytes past the guest's record are kept if they are what the host
stores there. -/
theorem fstat_past_iff
    (hmem : st'.vm.mem = blit st.vm.mem a (record bytes) sizeofStat.toNat) :
    (∀ x, a + guestStat.size ≤ x → st'.vm.mem x = st.vm.mem x) ↔
      ∀ i, guestStat.size ≤ i → i < hostStat.size → record bytes i = st.vm.mem (a + i) := by
  rw [hmem, hostStat_size]
  constructor
  · intro h i hlo hhi
    rw [← h (a + i) (by omega), blit_offset hhi]
  · intro h x hx
    by_cases hin : x < a + sizeofStat.toNat
    · have hi := h (x - a) (by omega) (by omega)
      rw [blit_inside (by omega) hin, hi, Nat.add_sub_cancel' (by omega)]
    · exact blit_outside (by omega)

end

/-- **What `fstat` tells the guest.** After a successful `HCALL_fstat` the
guest reads every field as the host left it, and nothing past its record has
changed, exactly if the host's record is one of the few that read alike and
its last 40 bytes were in the guest's memory before. -/
theorem fstat_survives_iff {S F : Type} (env : Env) (st st' : LoopState S F)
    (fd : BitVec 32) (a ret : Nat) (bytes : List UInt8)
    (hlen : bytes.length = sizeofStat.toNat)
    (hh : st.Handles env (some (.call (.fstat fd (some a)))) (some (.ok ret bytes)) st') :
    ((∀ f, guestStat.get st'.vm.mem a f = hostStat.get (record bytes) 0 f) ∧
        ∀ x, a + guestStat.size ≤ x → st'.vm.mem x = st.vm.mem x) ↔
      Undrifted (record bytes) ∧
        ∀ i, guestStat.size ≤ i → i < hostStat.size → record bytes i = st.vm.mem (a + i) := by
  have hmem := fstat_mem hlen hh
  rw [fstat_past_iff hmem, ← get_eq_iff_undrifted]
  simp only [fstat_get hmem]

/-! ### Two records -/

/-- Every host call stores `bytes` and returns 0. -/
def storingEnv (bytes : List UInt8) : Env := { quietEnv with host := fun _ _ => .ok 0 bytes }

/-- A guest page at an `fstat` of descriptor 3 into the record at 0. -/
def fstatLoop : LoopState Unit Unit := pageLoop { rdi := 2, rsi := 3 }

theorem fstatLoop_handles (bytes : List UInt8) : ∃ st', fstatLoop.Handles (storingEnv bytes)
    (some (.call (.fstat 3 (some 0)))) (some (.ok 0 bytes)) st' :=
  ⟨_, .call (show fstatLoop.allowed quietEnv = true by decide) (by decide) rfl⟩

/-- The host's record of nothing but zeros. -/
def zeroStat : List UInt8 := List.replicate 144 0

theorem record_zeroStat (i : Nat) : record zeroStat i = 0 := by
  rw [record, List.getD_eq_getElem?_getD, zeroStat, List.getElem?_replicate]
  split <;> rfl

theorem zeroStat_survives : ∃ st' : LoopState Unit Unit,
    fstatLoop.Handles (storingEnv zeroStat)
      (some (.call (.fstat 3 (some 0)))) (some (.ok 0 zeroStat)) st' ∧
    (∀ f, guestStat.get st'.vm.mem 0 f = hostStat.get (record zeroStat) 0 f) ∧
    ∀ x, 0 + guestStat.size ≤ x → st'.vm.mem x = fstatLoop.vm.mem x := by
  obtain ⟨st', hh⟩ := fstatLoop_handles zeroStat
  have hiff := fstat_survives_iff _ _ st' 3 0 0 zeroStat (List.length_replicate) hh
  have hzero : record zeroStat = fun _ => 0 := funext record_zeroStat
  have hundrifted : Undrifted (record zeroStat) := by
    rw [hzero, undrifted_iff_words]
    decide
  have hpast : ∀ i, guestStat.size ≤ i → i < hostStat.size →
      record zeroStat i = fstatLoop.vm.mem (0 + i) := by
    intro i _ _
    rw [record_zeroStat]
    rfl
  exact ⟨st', hh, hiff.mpr ⟨hundrifted, hpast⟩⟩

/-- The record of a regular file on device 0x801: inode 7, mode 0644, one link,
5 bytes in blocks of 4096, changed in second 9. -/
def fileStat : List UInt8 :=
  bytes 8 0x801 ++ bytes 8 7 ++ bytes 8 1 ++ bytes 4 0o100644 ++ bytes 20 0 ++ bytes 8 5 ++
    bytes 8 4096 ++ bytes 40 0 ++ bytes 8 9 ++ bytes 32 0

/-- The guest finds a file without a mode, of size 1 and without a block size,
and the byte after its record overwritten. -/
theorem fileStat_drifts : ∃ st' : LoopState Unit Unit,
    fileStat.length = sizeofStat.toNat ∧
    fstatLoop.Handles (storingEnv fileStat)
      (some (.call (.fstat 3 (some 0)))) (some (.ok 0 fileStat)) st' ∧
    (hostStat.get (record fileStat) 0 .mode = 0o100644 ∧
      guestStat.get st'.vm.mem 0 .mode = 0) ∧
    (hostStat.get (record fileStat) 0 .size = 5 ∧ guestStat.get st'.vm.mem 0 .size = 1) ∧
    (hostStat.get (record fileStat) 0 .blksize = 4096 ∧
      guestStat.get st'.vm.mem 0 .blksize = 0) ∧
    st'.vm.mem guestStat.size = 9 ∧ fstatLoop.vm.mem guestStat.size = 0 := by
  obtain ⟨st', hh⟩ := fstatLoop_handles fileStat
  have hlen : fileStat.length = sizeofStat.toNat := rfl
  have hmem := fstat_mem hlen hh
  refine ⟨st', hlen, hh, ?_⟩
  rw [fstat_get hmem, fstat_get hmem, fstat_get hmem, hmem]
  decide

end Libc

end Wasp
