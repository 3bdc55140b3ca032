import Wasp.Lib.Run
import Wasp.Lib.Words

/-!
# Heap — the break of the guest's heap

`__sbrk`, `sbrk` and `_sbrk` of `libc/newlib/libc/sys/virtine/syscalls.c`
under their caller `_sbrk_r` (`libc/newlib/libc/reent/sbrkr.c`). Three
layers, three conventions: `_sbrk_r` passes a `ptrdiff_t` and expects `-1`
for a failure, `__sbrk` takes an `int` and checks the upper end of the heap
only, and `sbrk` turns the `-1` of `__sbrk` into a null pointer.
-/

namespace Wasp

namespace Libc

open Words

/-- `ENOMEM` of newlib. -/
def enomem : BitVec 32 := 12

/-- `__eheap`: four megabytes. -/
def eheap : BitVec 64 := 1024 * 1024 * 4

/-- The static data. `errno` is the field of the reentrancy structure that
`syscalls.c` and the programs refer to, `sysErrno` the variable of the same
name that `sbrkr.c` declares for itself. -/
structure Heap where
  heapend : BitVec 64
  errno : BitVec 32
  sysErrno : BitVec 32
  deriving DecidableEq, Repr

/-- The guest before its first call, with the linker's `__heap_start`. -/
def Heap.init (heapStart : BitVec 64) : Heap :=
  { heapend := heapStart, errno := 0, sysErrno := 0 }

/-- `__sbrk`. Pointers are compared as unsigned numbers. -/
def Heap.rawSbrk (h : Heap) (incr : BitVec 32) : BitVec 64 × Heap :=
  if (h.heapend + incr.signExtend 64).toNat > eheap.toNat then
    (-1, { h with errno := enomem })
  else (h.heapend, { h with heapend := h.heapend + incr.signExtend 64 })

def Heap.sbrk (h : Heap) (incr : BitVec 32) : BitVec 64 × Heap :=
  let (ret, h) := h.rawSbrk incr
  if ret.toInt ≤ 0 then (0, { h with errno := enomem }) else (ret, h)

def Heap._sbrk (h : Heap) (incr : BitVec 32) : BitVec 64 × Heap := h.sbrk incr

/-- `_sbrk_r`. It declares `_sbrk` with a `ptrdiff_t`, of which `_sbrk`
takes the lower half. -/
def Heap.sbrkR (h : Heap) (incr : BitVec 64) : BitVec 64 × Heap :=
  let (ret, h) := { h with sysErrno := 0 }._sbrk (incr.setWidth 32)
  if ret = -1 ∧ h.sysErrno ≠ 0 then (ret, { h with errno := h.sysErrno }) else (ret, h)

/-! ## One call -/

/-- The break after a successful call. -/
def Heap.next (h : Heap) (incr : BitVec 64) : BitVec 64 := h.heapend + throughInt incr

theorem Heap.sbrkR_of_sbrk {h h' : Heap} {incr ret : BitVec 64} (hret : ret ≠ -1)
    (hs : ({ h with sysErrno := 0 } : Heap).sbrk (incr.setWidth 32) = (ret, h')) :
    h.sbrkR incr = (ret, h') := by
  simp only [Heap.sbrkR, Heap._sbrk, hs]
  exact if_neg fun h => hret h.1

/-- Past the end of the heap the answer is a null pointer. -/
theorem Heap.sbrkR_refused {h : Heap} {incr : BitVec 64}
    (hfull : (h.next incr).toNat > eheap.toNat) :
    h.sbrkR incr = (0, { heapend := h.heapend, errno := enomem, sysErrno := 0 }) := by
  have hraw : ({ h with sysErrno := 0 } : Heap).rawSbrk (incr.setWidth 32) =
      (-1, { heapend := h.heapend, errno := enomem, sysErrno := 0 }) := if_pos hfull
  refine Heap.sbrkR_of_sbrk (by decide) ?_
  simp only [Heap.sbrk, hraw]
  exact if_pos (by decide)

/-- Otherwise the break moves, and the answer is the old one; but an old
break that is null or negative is taken for a failure. -/
theorem Heap.sbrkR_moved {h : Heap} {incr : BitVec 64}
    (hroom : (h.next incr).toNat ≤ eheap.toNat) :
    (h.sbrkR incr).2.heapend = h.next incr ∧
      (h.sbrkR incr).1 = if h.heapend.toInt ≤ 0 then 0 else h.heapend := by
  have hraw : ({ h with sysErrno := 0 } : Heap).rawSbrk (incr.setWidth 32) =
      (h.heapend, { heapend := h.next incr, errno := h.errno, sysErrno := 0 }) :=
    if_neg (Nat.not_lt.mpr hroom)
  by_cases hnull : h.heapend.toInt ≤ 0
  · have hs : h.sbrkR incr =
        (0, { heapend := h.next incr, errno := enomem, sysErrno := 0 }) := by
      refine Heap.sbrkR_of_sbrk (by decide) ?_
      simp only [Heap.sbrk, hraw]
      exact if_pos hnull
    rw [hs, if_pos hnull]
    exact ⟨rfl, rfl⟩
  · have hs : h.sbrkR incr =
        (h.heapend, { heapend := h.next incr, errno := h.errno, sysErrno := 0 }) := by
      refine Heap.sbrkR_of_sbrk ?_ ?_
      · intro hm
        rw [hm] at hnull
        exact hnull (by decide)
      · simp only [Heap.sbrk, hraw]
        exact if_neg hnull
    rw [hs, if_neg hnull]
    exact ⟨rfl, rfl⟩

theorem Heap.next_toNat (h : Heap) (incr : BitVec 64) :
    ((h.next incr).toNat : Int) = (h.heapend.toNat + (throughInt incr).toInt) % 2 ^ 64 :=
  toNat_add_toInt _ _

/-- What a call of `sbrk` owes its caller: the old break, and a new one
that is the increment away and inside the heap, or `-1` with `ENOMEM` and
nothing changed. -/
def Heap.Granted (heapStart : BitVec 64) (h : Heap) (incr : BitVec 64) (h' : Heap) : Prop :=
  ((h.sbrkR incr).1 = h.heapend ∧
      (h'.heapend.toNat : Int) = h.heapend.toNat + incr.toInt ∧
      heapStart.toNat ≤ h'.heapend.toNat ∧ h'.heapend.toNat ≤ eheap.toNat) ∨
    ((h.sbrkR incr).1 = -1 ∧ h'.errno = enomem ∧ h'.heapend = h.heapend)

/-- The increment is an `int`, and the break it asks for is in the heap. -/
def Heap.Fits (heapStart : BitVec 64) (h : Heap) (incr : BitVec 64) : Prop :=
  -2 ^ 31 ≤ incr.toInt ∧ incr.toInt < 2 ^ 31 ∧
    (heapStart.toNat : Int) ≤ h.heapend.toNat + incr.toInt ∧
    h.heapend.toNat + incr.toInt ≤ eheap.toNat

/-- One call of `_sbrk_r` from `h` to `h'`. -/
def Heap.Calls (h : Heap) (incr : BitVec 64) (h' : Heap) : Prop := (h.sbrkR incr).2 = h'

/-- A request that fits moves the break by what was asked for. -/
theorem Heap.Fits.moves {heapStart : BitVec 64} {h h' : Heap} {incr : BitVec 64}
    (hf : h.Fits heapStart incr) (hc : h.Calls incr h') :
    (h.sbrkR incr).1 = h.heapend ∧
      (h'.heapend.toNat : Int) = h.heapend.toNat + incr.toInt ∧
      heapStart.toNat ≤ h'.heapend.toNat ∧ h'.heapend.toNat ≤ eheap.toNat := by
  obtain ⟨hlo, hhi, hstart, hend⟩ := hf
  have hint : throughInt incr = incr := throughInt_eq_iff.mpr ⟨hlo, hhi⟩
  have hsmall : eheap.toNat < 2 ^ 23 := by decide
  have hnext : ((h.next incr).toNat : Int) = h.heapend.toNat + incr.toInt := by
    rw [Heap.next_toNat, hint]
    exact Int.emod_eq_of_lt (by omega) (by omega)
  have hroom : (h.next incr).toNat ≤ eheap.toNat := by omega
  obtain ⟨hmove, hret⟩ := Heap.sbrkR_moved hroom
  rw [show (h.sbrkR incr).2 = h' from hc] at hmove
  rw [← hmove] at hnext
  refine ⟨?_, hnext, by omega, by omega⟩
  rw [hret]
  split
  · -- a break that is not positive is null: a negative one is beyond the heap
    rename_i hnull
    apply BitVec.eq_of_toNat_eq
    rcases toInt_cases h.heapend with ⟨_, hz⟩ | ⟨hbig, _⟩
    · rw [hz] at hnull
      exact (Int.natCast_eq_zero.mp (by omega)).symm
    · omega
  · rfl

/-- `-1` never comes back. -/
theorem Heap.sbrkR_ne_minus_one (h : Heap) (incr : BitVec 64) : (h.sbrkR incr).1 ≠ -1 := by
  intro hminus
  by_cases hroom : (h.next incr).toNat ≤ eheap.toNat
  · obtain ⟨-, hret⟩ := Heap.sbrkR_moved hroom
    rw [hminus] at hret
    split at hret
    · exact absurd hret (by decide)
    · rename_i hpos
      rw [← hret] at hpos
      exact absurd (by decide) hpos
  · rw [Heap.sbrkR_refused (Nat.lt_of_not_le hroom)] at hminus
    have hzero : (0 : BitVec 64) = -1 := hminus
    exact absurd hzero (by decide)

/-- A refused request does not look granted: only one for 0 at a null break
would, and that is not refused. -/
theorem Heap.refused_not_exact {h : Heap} {incr : BitVec 64}
    (hfull : (h.next incr).toNat > eheap.toNat) (hret : (h.sbrkR incr).1 = h.heapend)
    (hexact : ((h.sbrkR incr).2.heapend.toNat : Int) = h.heapend.toNat + incr.toInt) :
    False := by
  rw [Heap.sbrkR_refused hfull] at hret hexact
  have hz : h.heapend = 0 := hret.symm
  have hexact : (h.heapend.toNat : Int) = h.heapend.toNat + incr.toInt := hexact
  have hi : incr = 0 := by
    apply BitVec.eq_of_toInt_eq
    rw [show (0 : BitVec 64).toInt = 0 by decide]
    omega
  rw [Heap.next, hz, hi] at hfull
  exact absurd hfull (by decide)

/-- Nothing else is: a wrong increment or a break below the heap is not what
was asked for. -/
theorem Heap.Granted.fits {heapStart : BitVec 64} {h h' : Heap} {incr : BitVec 64}
    (hg : h.Granted heapStart incr h') (hc : h.Calls incr h') : h.Fits heapStart incr := by
  unfold Heap.Calls at hc
  subst hc
  obtain ⟨hret, hexact, hstart, hend⟩ := hg.resolve_right fun hm =>
    h.sbrkR_ne_minus_one incr hm.1
  have hroom : (h.next incr).toNat ≤ eheap.toNat := Nat.le_of_not_lt fun hfull =>
    Heap.refused_not_exact hfull hret hexact
  rw [(Heap.sbrkR_moved hroom).1] at hexact hstart hend
  have hnext := h.next_toNat incr
  have hint : throughInt incr = incr := by
    apply BitVec.eq_of_toInt_eq
    have := BitVec.toInt_lt (x := throughInt incr)
    have := BitVec.le_toInt (x := throughInt incr)
    have := BitVec.toInt_lt (x := incr)
    have := BitVec.le_toInt (x := incr)
    omega
  obtain ⟨hlo, hhi⟩ := throughInt_eq_iff.mp hint
  exact ⟨hlo, hhi, by omega, by omega⟩

/-! ## Whole runs -/

/-- The addresses that a request obtains. -/
def Heap.Obtains (h : Heap) (incr : BitVec 64) (x : Nat) : Prop :=
  h.heapend.toNat ≤ x ∧ (x : Int) < h.heapend.toNat + incr.toInt

/-- A call that fits. -/
abbrev Heap.FittingCall (heapStart : BitVec 64) : Heap → BitVec 64 → Heap → Prop :=
  Guarded (Heap.Fits heapStart) Heap.Calls

section

variable {heapStart : BitVec 64}

/-- From the start of the heap on, the break never falls below it. -/
theorem heapStart_le_heapend {h : Heap} {incrs : List (BitVec 64)}
    (hr : Run (Heap.FittingCall heapStart) (.init heapStart) incrs h) :
    heapStart.toNat ≤ h.heapend.toNat := by
  refine hr.invariant (I := fun h => heapStart.toNat ≤ h.heapend.toNat) ?_ (Nat.le_refl _)
  intro h incr h' _ hs
  exact (hs.1.moves hs.2).2.2.1

/-- Requests that do not give memory back only raise the break. -/
theorem heapend_mono {h h' : Heap} {incrs : List (BitVec 64)}
    (hr : Run (Heap.FittingCall heapStart) h incrs h')
    (hpos : ∀ incr ∈ incrs, 0 ≤ incr.toInt) : h.heapend.toNat ≤ h'.heapend.toNat := by
  induction hr with
  | nil => exact Nat.le_refl _
  | cons hs _ ih =>
      have hmove := (hs.1.moves hs.2).2.1
      have hfirst := hpos _ List.mem_cons_self
      have hrest := ih fun incr hi => hpos incr (List.mem_cons_of_mem _ hi)
      omega

/-- **The break.** The calls of a run all do what `sbrk` promises exactly
when all requests fit; and in such a run, what a positive request obtains
lies past the image and apart from what the next ones obtain, as long as
nothing is given back in between. -/
theorem sbrk_run_iff (heapStart imageEnd : BitVec 64)
    (himage : imageEnd.toNat ≤ heapStart.toNat) :
    (∀ h incrs h', Run (Heap.FittingCall heapStart) h incrs h' ↔
      Run (Meeting (Heap.Granted heapStart) Heap.Calls) h incrs h') ∧
    (∀ before a between b h₁ h₂ h₃ h₄,
      Run (Heap.FittingCall heapStart) (.init heapStart) before h₁ →
      Heap.FittingCall heapStart h₁ a h₂ →
      Run (Heap.FittingCall heapStart) h₂ between h₃ →
      Heap.FittingCall heapStart h₃ b h₄ →
      (∀ c ∈ between, 0 ≤ c.toInt) →
      ∀ x, h₁.Obtains a x → imageEnd.toNat ≤ x ∧ ¬ h₃.Obtains b x) := by
  constructor
  · intro h incrs h'
    refine Run.guarded_iff_meeting fun s incr t hc => ?_
    exact ⟨fun hf => .inl (hf.moves hc), fun hg => hg.fits hc⟩
  · intro before a between b h₁ h₂ h₃ h₄ hbefore ha hbetween _ hpos x hx
    have hlow := heapStart_le_heapend hbefore
    have hmove := (ha.1.moves ha.2).2.1
    have hup := heapend_mono hbetween hpos
    obtain ⟨hx1, hx2⟩ := hx
    refine ⟨by omega, fun hy => ?_⟩
    have := hy.1
    omega

end

/-! ### A page, and more than there is -/

/-- The first page of the heap is obtained, and lies past the image. -/
theorem first_page_granted :
    Run (Meeting (Heap.Granted 0x10000) Heap.Calls) (.init 0x10000) [0x1000]
      { heapend := 0x11000, errno := 0, sysErrno := 0 } :=
  ((sbrk_run_iff 0x10000 0xF800 (by decide)).1 _ _ _).mp
    (.single ⟨⟨by decide, by decide, by decide, by decide⟩, rfl⟩)

/-- A request for four megabytes is answered with a null pointer. -/
theorem refused_not_granted :
    ¬ ∀ (heapStart : BitVec 64) (h : Heap) (incrs : List (BitVec 64)) (h' : Heap),
      Run Heap.Calls h incrs h' →
        Run (Meeting (Heap.Granted heapStart) Heap.Calls) h incrs h' := by
  intro hall
  cases hall 0x10000 (.init 0x10000) [0x400000] _ (.single rfl) with
  | cons hs _ =>
      rcases hs.2 with ⟨hret, _⟩ | ⟨hret, _⟩ <;> exact absurd hret (by decide)

end Libc

end Wasp
