import Wasp.Lib.Run
import Wasp.Runtime.Hypercall

/-!
# Race — `put` against a snapshot

One thread puts the virtine `v` back while a guest of another thread, on
another virtine of the same cache, makes the `0xFF` hypercall. `put` resets
`v` from the shared reset state before it takes the cache's lock, and
`save_reset_state` fills that state without any lock: the hypercall gives
`virtine_cache_lock` back before it saves. Each `ioctl`, each copy of a
region and the assignment of the vector is one step here.

The loop over the regions keeps pointers into the vector. When the vector
is assigned while a region is still to be copied, the loop goes on over
the freed elements; what those copies leave in `v`'s memory is the
parameter `stale`.
-/

namespace Wasp

open ByteMem

variable {S F : Type}

inductive Actor where
  | put
  | snapshot
  deriving DecidableEq

/-- Where `put` is in `Virtine::reset`: the regions still to be copied, and
whether the vector they are in is still the cache's. -/
inductive PutPc where
  | regs
  | sregs
  | fpu
  | begin
  | copies (rs : List ResetMemory) (live : Bool)
  | done

/-- The steps made before the loop. -/
def PutPc.made : PutPc → Nat
  | .regs => 0
  | .sregs => 1
  | .fpu => 2
  | .begin => 3
  | .copies _ _ | .done => 4

/-- Assigning the vector frees the elements the loop has not come to. -/
def PutPc.free : PutPc → PutPc
  | .copies (r :: rs) _ => .copies (r :: rs) false
  | p => p

/-- Where the other thread is in `save_reset_state`. -/
inductive SavePc where
  | regs
  | sregs
  | fpu
  | regions
  | done

def SavePc.made : SavePc → Nat
  | .regs => 0
  | .sregs => 1
  | .fpu => 2
  | .regions => 3
  | .done => 4

/-- Both virtines are the cache's, so that `rst()` is its reset state. -/
structure Race (S F : Type) where
  cache : Cache S F
  v : Virtine S F
  put : PutPc
  w : Virtine S F
  regions : List ResetMemory
  save : SavePc

/-- A write of `save_reset_state` through `rst()`. -/
def Cache.saveInto (c : Cache S F) (f : ResetState S F → ResetState S F) : Cache S F :=
  { c with mReset := c.mReset.map f }

namespace Race

/-- `put(v)` is called, and the guest in `w` has come to the snapshot: its
`rip` is past the `out`, and the region is copied. -/
def init (c : Cache S F) (v w : Virtine S F) (buffer : Bool) : Race S F :=
  { cache := c, v := v, put := .regs, w := { w with regs := w.regs.skipOut },
    regions := [w.snapshotRegion buffer], save := .regs }

def rst (s : Race S F) : ResetState S F := s.v.rst s.cache.mReset

inductive Step (stale : (Nat → UInt8) → Nat → UInt8) :
    Race S F → Actor → Race S F → Prop where
  | writeRegs {s} : s.put = .regs →
      Step stale s .put { s with v := { s.v with regs := s.rst.regs }, put := .sregs }
  | writeSregs {s} : s.put = .sregs →
      Step stale s .put { s with v := { s.v with sregs := s.rst.sregs }, put := .fpu }
  | writeFpu {s} : s.put = .fpu →
      Step stale s .put { s with v := { s.v with fpu := s.rst.fpu }, put := .begin }
  | begin {s} : s.put = .begin →
      Step stale s .put { s with put := .copies s.rst.regions true }
  | copy {s} {r : ResetMemory} {rs : List ResetMemory} {v' : Virtine S F} :
      s.put = .copies (r :: rs) true → s.v.copyRegion r = .ok v' →
      Step stale s .put { s with v := v', put := .copies rs true }
  | copyFreed {s} {r : ResetMemory} {rs : List ResetMemory} : s.put = .copies (r :: rs) false →
      Step stale s .put
        { s with v := { s.v with mem := stale s.v.mem }, put := .copies rs false }
  -- lock, `push_back`, unlock
  | push {s} {live : Bool} : s.put = .copies [] live →
      Step stale s .put
        { s with cache := { s.cache with mCache := s.cache.mCache ++ [s.v] }, put := .done }
  | readRegs {s} : s.save = .regs →
      Step stale s .snapshot
        { s with cache := s.cache.saveInto ({ · with regs := s.w.regs }), save := .sregs }
  | readSregs {s} : s.save = .sregs →
      Step stale s .snapshot
        { s with cache := s.cache.saveInto ({ · with sregs := s.w.sregs }), save := .fpu }
  | readFpu {s} : s.save = .fpu →
      Step stale s .snapshot
        { s with cache := s.cache.saveInto ({ · with fpu := s.w.fpu }), save := .regions }
  | assign {s} : s.save = .regions →
      Step stale s .snapshot
        { s with cache := s.cache.saveInto ({ · with regions := s.regions }),
                 put := s.put.free, save := .done }

/-! ### Each call alone -/

variable {stale : (Nat → UInt8) → Nat → UInt8}

theorem copies_run {rs : List ResetMemory} {s : Race S F} {v' : Virtine S F}
    (hp : s.put = .copies rs true) (h : s.v.copyRegions rs = .ok v') :
    Run (Step stale) s (List.replicate rs.length .put)
      { s with v := v', put := .copies [] true } := by
  induction rs generalizing s with
  | nil =>
      cases h
      rw [← hp]
      exact .nil s
  | cons r rs ih =>
      simp only [Virtine.copyRegions] at h
      split at h
      · rename_i v₁ hc
        have hrest := ih (s := { s with v := v₁, put := .copies rs true }) rfl h
        exact .cons (.copy hp hc) hrest
      · cases h

/-- Without interruption the steps of `put` are `Cache::put`. -/
theorem put_run {c c' : Cache S F} {v : Virtine S F} (w : Virtine S F) (buffer : Bool)
    (h : c.put v = (.ok (), c')) :
    ∃ l s, (∀ a ∈ l, a = .put) ∧ Run (Step stale) (init c v w buffer) l s ∧
      s.put = .done ∧ s.cache = c' := by
  obtain ⟨_, v', hv, rfl⟩ := Cache.put_eq_ok.mp h
  let r := v.rst c.mReset
  let s₁ : Race S F :=
    { init c v w buffer with v := { v with regs := r.regs, sregs := r.sregs, fpu := r.fpu },
                             put := .copies r.regions true }
  have hloop : Run (Step stale) s₁ (List.replicate r.regions.length .put)
      { s₁ with v := v', put := .copies [] true } := copies_run rfl hv
  refine ⟨_, _, ?_, .cons (.writeRegs rfl) <| .cons (.writeSregs rfl) <|
    .cons (.writeFpu rfl) <| .cons (.begin rfl) <| hloop.snoc (.push rfl), rfl, rfl⟩
  simp only [List.mem_cons, List.mem_append, List.mem_replicate, List.not_mem_nil]
  grind

/-- Without interruption the steps of the snapshot save what `0xFF` saves. -/
theorem snapshot_run {c c' : Cache S F} {v w w' : Virtine S F} {malloc : BitVec 64 → Bool}
    {r : ResetState S F} (hr : c.mReset = some r) (hw : w.mResetMask = true)
    (h : c.snapshot malloc w = .ok (w', c')) :
    ∃ s, Run (Step stale) (init c v w (malloc w.regs.rdx)) (List.replicate 4 .snapshot) s ∧
      s.save = .done ∧ s.cache = c' := by
  obtain ⟨_, rfl, _⟩ := Cache.snapshot_ok hw h
  refine ⟨_, .cons (.readRegs rfl) <| .cons (.readSregs rfl) <| .cons (.readFpu rfl) <|
    .cons (.assign rfl) (.nil _), rfl, ?_⟩
  simp only [Cache.saveInto, init, hr]
  rfl

end Race

/-! ## Who came first

A schedule is the list of the steps' owners. Step `k` of `put` reads the
part of the reset state that step `k` of the snapshot writes. -/

/-- The steps of the snapshot that a schedule has before step `k` of `put`. -/
def before : Nat → List Actor → Nat
  | _, [] => 0
  | 0, .put :: _ => 0
  | k + 1, .put :: l => before k l
  | k, .snapshot :: l => before k l + 1

theorem before_le (k : Nat) (l : List Actor) : before k l ≤ l.count .snapshot := by
  induction l generalizing k with
  | nil => simp [before]
  | cons a l ih =>
      cases a with
      | put => cases k with
        | zero => simp [before]
        | succ k => simpa [before] using ih k
      | snapshot => simpa [before] using ih k

/-- While `put` has not come to its step `k`, all of them are. -/
theorem before_eq_count {k : Nat} {l : List Actor} (h : l.count .put ≤ k) :
    before k l = l.count .snapshot := by
  induction l generalizing k with
  | nil => simp [before]
  | cons a l ih =>
      cases a with
      | put =>
          rw [List.count_cons_self] at h
          obtain ⟨k, rfl⟩ : ∃ j, k = j + 1 := ⟨k - 1, by omega⟩
          simpa [before] using ih (by omega)
      | snapshot => simpa [before] using ih (by simpa using h)

theorem before_put (k : Nat) (l : List Actor) : before k (l ++ [.put]) = before k l := by
  induction l generalizing k with
  | nil => cases k <;> rfl
  | cons a l ih =>
      cases a with
      | put => cases k with
        | zero => rfl
        | succ k => exact ih k
      | snapshot => simpa [before] using ih k

theorem before_snapshot {k : Nat} {l : List Actor} (h : k < l.count .put) :
    before k (l ++ [.snapshot]) = before k l := by
  induction l generalizing k with
  | nil => simp at h
  | cons a l ih =>
      cases a with
      | put => cases k with
        | zero => rfl
        | succ k =>
            rw [List.count_cons_self] at h
            exact ih (by omega)
      | snapshot => simpa [before] using ih (by simpa using h)

namespace Race

section Invariant

variable (old new : ResetState S F)

/-- The state that step `k` of `put` reads. -/
def source (l : List Actor) (k : Nat) : ResetState S F :=
  if k < before k l then new else old

/-- The shared reset state after `j` steps of the snapshot. -/
def halfSaved (j : Nat) : ResetState S F :=
  { regs := if 0 < j then new.regs else old.regs,
    sregs := if 1 < j then new.sregs else old.sregs,
    fpu := if 2 < j then new.fpu else old.fpu,
    regions := if 3 < j then new.regions else old.regions }

/-- The vector is not assigned while the loop of `put` is at it: it is
before the loop begins, or it is not before the last copy. -/
def Whole (l : List Actor) : Prop :=
  3 < before 3 l ∨ before (3 + old.regions.length) l ≤ 3

variable (m₀ : Nat → UInt8) (stale : (Nat → UInt8) → Nat → UInt8)

/-- What the loop has left in memory when `rs` is still to be copied. -/
def Copied (l : List Actor) (rs : List ResetMemory) (m : Nat → UInt8) : Bool → Prop
  | true => Whole old l ∧ rs.foldl (fun m g => g.write m) m = (source old new l 3).write m₀
  | false => ¬ Whole old l ∧ (rs = [] → ∃ m', m = stale m')

/-- The loop of `put`, and the steps before it. -/
def Loop (l : List Actor) (m : Nat → UInt8) : PutPc → Prop
  | .copies rs live => (before 3 l ≤ 3 → l.count .put + rs.length = 4 + old.regions.length) ∧
      Copied old new m₀ stale l rs m live
  | .done => (before 3 l ≤ 3 → l.count .put = 5 + old.regions.length) ∧
      ∃ live, Copied old new m₀ stale l [] m live
  | p => l.count .put = p.made ∧ m = m₀

/-- What the steps of `put` have left in `v`. -/
structure Progress (l : List Actor) (p : PutPc) (v : Virtine S F) : Prop where
  made : p.made ≤ l.count .put
  regs : 0 < p.made → v.regs = (source old new l 0).regs
  sregs : 1 < p.made → v.sregs = (source old new l 1).sregs
  fpu : 2 < p.made → v.fpu = (source old new l 2).fpu
  loop : Loop old new m₀ stale l v.mem p

/-- The invariant of the runs from `init c v w buffer`. -/
structure Inv (pool : List (Virtine S F)) (l : List Actor) (s : Race S F) : Prop where
  saving : s.w.saveResetState s.regions = new
  saved : s.save.made = l.count .snapshot
  shared : s.cache.mReset = some (halfSaved old new (l.count .snapshot))
  masked : s.v.mResetMask = true
  pooled : s.cache.mCache = match s.put with
    | .done => pool ++ [s.v]
    | _ => pool
  progress : Progress old new m₀ stale l s.put s.v

end Invariant

variable {old new : ResetState S F} {m₀ : Nat → UInt8}
  {stale : (Nat → UInt8) → Nat → UInt8} {pool : List (Virtine S F)} {l : List Actor}

theorem source_put (k : Nat) : source old new (l ++ [.put]) k = source old new l k := by
  rw [source, source, before_put]

theorem source_snapshot {k : Nat} (h : k < l.count .put) :
    source old new (l ++ [.snapshot]) k = source old new l k := by
  rw [source, source, before_snapshot h]

theorem whole_put : Whole old (l ++ [.put]) ↔ Whole old l := by
  rw [Whole, Whole, before_put, before_put]

/-- A part that step `k` of the snapshot saves and step `k` of `put` reads
is of the state it is said to be from. -/
theorem halfSaved_source {α : Type} {f : ResetState S F → α} {k : Nat}
    (hf : ∀ j, f (halfSaved old new j) = if k < j then f new else f old)
    (h : l.count .put ≤ k) :
    f (halfSaved old new (l.count .snapshot)) = f (source old new l k) := by
  rw [source, before_eq_count h, hf]
  split <;> rfl

/-- Without the assignment the loop is not disturbed. -/
theorem whole_of_count (h : l.count .snapshot ≤ 3) : Whole old l :=
  .inr (Nat.le_trans (before_le _ l) h)

theorem count_put_put : (l ++ [Actor.put]).count .put = l.count .put + 1 := by
  simp

theorem count_put_snapshot : (l ++ [Actor.snapshot]).count .put = l.count .put := by
  simp

theorem count_snapshot_put : (l ++ [Actor.put]).count .snapshot = l.count .snapshot := by
  simp

theorem count_snapshot_snapshot :
    (l ++ [Actor.snapshot]).count .snapshot = l.count .snapshot + 1 := by
  simp

/-! ### What a step of the snapshot leaves of `put`'s work -/

/-- Only the loop can be affected. -/
theorem Progress.of_loop {p p' : PutPc} {v : Virtine S F}
    (h : Progress old new m₀ stale l p v) (hp : p'.made = p.made)
    (hloop : Loop old new m₀ stale (l ++ [.snapshot]) v.mem p') :
    Progress old new m₀ stale (l ++ [.snapshot]) p' v := by
  have hm := h.made
  refine ⟨?_, fun hk => ?_, fun hk => ?_, fun hk => ?_, hloop⟩
  · rw [hp, count_put_snapshot]
    exact hm
  · rw [hp] at hk
    rw [h.regs hk, source_snapshot (by omega)]
  · rw [hp] at hk
    rw [h.sregs hk, source_snapshot (by omega)]
  · rw [hp] at hk
    rw [h.fpu hk, source_snapshot (by omega)]

/-- Before the vector is assigned, nothing. -/
theorem Progress.read {p : PutPc} {v : Virtine S F}
    (h : Progress old new m₀ stale l p v) (hl : l.count .snapshot < 3) :
    Progress old new m₀ stale (l ++ [.snapshot]) p v := by
  refine h.of_loop rfl ?_
  have hw : Whole old (l ++ [.snapshot]) :=
    whole_of_count (by rw [count_snapshot_snapshot]; omega)
  have hw' : Whole old l := whole_of_count (by omega)
  have hcopied : ∀ {rs m live}, 4 ≤ l.count .put → Copied old new m₀ stale l rs m live →
      Copied old new m₀ stale (l ++ [.snapshot]) rs m live := by
    intro rs m live h4 hc
    cases live with
    | true =>
        refine ⟨hw, ?_⟩
        rw [source_snapshot (by omega)]
        exact hc.2
    | false => exact absurd hw' hc.1
  have hm := h.made
  have hloop := h.loop
  cases p with
  | copies rs live =>
      refine ⟨?_, hcopied hm hloop.2⟩
      rw [before_snapshot hm, count_put_snapshot]
      exact hloop.1
  | done =>
      obtain ⟨hn, live, hc⟩ := hloop
      refine ⟨?_, live, hcopied hm hc⟩
      rw [before_snapshot hm, count_put_snapshot]
      exact hn
  | _ => exact ⟨count_put_snapshot.trans hloop.1, hloop.2⟩

/-- A loop that has made its last copy stays whole over the assignment. -/
theorem Copied.assign_last {m : Nat → UInt8} {live : Bool} (hw : Whole old l)
    (hl : l.count .snapshot = 3) (hn : 4 + old.regions.length ≤ l.count .put)
    (hc : Copied old new m₀ stale l [] m live) :
    Copied old new m₀ stale (l ++ [.snapshot]) [] m live := by
  cases live with
  | true =>
      refine ⟨.inr ?_, ?_⟩
      · rw [before_snapshot (by omega)]
        exact hl ▸ before_le _ l
      · rw [source_snapshot (by omega)]
        exact hc.2
  | false => exact absurd hw hc.1

/-- The assignment disturbs a loop that is not at its end. -/
theorem Progress.assign {p : PutPc} {v : Virtine S F}
    (h : Progress old new m₀ stale l p v) (hl : l.count .snapshot = 3) :
    Progress old new m₀ stale (l ++ [.snapshot]) p.free v := by
  have hw : Whole old l := whole_of_count (by omega)
  have h3 : before 3 l ≤ 3 := hl ▸ before_le 3 l
  have hm := h.made
  have hloop := h.loop
  cases p with
  | copies rs live =>
      have hn := hloop.1 h3
      cases rs with
      | nil =>
          rw [List.length_nil] at hn
          refine h.of_loop rfl ⟨?_, hloop.2.assign_last hw hl (by omega)⟩
          rw [count_put_snapshot]
          exact fun _ => hn
      | cons r rs =>
          rw [List.length_cons] at hn
          refine h.of_loop rfl ⟨?_, ?_, fun he => by cases he⟩
          · rw [count_put_snapshot]
            exact fun _ => hn
          · have hlast : before (3 + old.regions.length) (l ++ [.snapshot]) = 4 := by
              rw [before_eq_count (by rw [count_put_snapshot]; omega), count_snapshot_snapshot,
                hl]
            rintro (hw | hw)
            · rw [before_snapshot hm] at hw
              omega
            · omega
  | done =>
      obtain ⟨hn, live, hc⟩ := hloop
      have hn := hn h3
      refine h.of_loop rfl ⟨?_, live, hc.assign_last hw hl (by omega)⟩
      rw [count_put_snapshot]
      exact fun _ => hn
  | _ => exact h.of_loop rfl ⟨count_put_snapshot.trans hloop.1, hloop.2⟩

/-! ### What a step of `put` adds -/

theorem Copied.put {rs : List ResetMemory} {m : Nat → UInt8} {live : Bool}
    (h : Copied old new m₀ stale l rs m live) :
    Copied old new m₀ stale (l ++ [.put]) rs m live := by
  cases live <;> simpa [Copied, whole_put, source_put] using h

section Put

variable {v : Virtine S F}

theorem Progress.writeRegs (h : Progress old new m₀ stale l .regs v) :
    Progress old new m₀ stale (l ++ [.put]) .sregs
      { v with regs := (halfSaved old new (l.count .snapshot)).regs } := by
  obtain ⟨hn, hmem⟩ := h.loop
  refine ⟨by rw [count_put_put]; exact Nat.succ_le_succ h.made, fun _ => ?_,
    fun hk => absurd hk (by decide), fun hk => absurd hk (by decide),
    count_put_put.trans (congrArg (· + 1) hn), hmem⟩
  rw [source_put]
  exact halfSaved_source (f := (·.regs)) (fun _ => rfl) (Nat.le_of_eq hn)

theorem Progress.writeSregs (h : Progress old new m₀ stale l .sregs v) :
    Progress old new m₀ stale (l ++ [.put]) .fpu
      { v with sregs := (halfSaved old new (l.count .snapshot)).sregs } := by
  obtain ⟨hn, hmem⟩ := h.loop
  refine ⟨by rw [count_put_put]; exact Nat.succ_le_succ h.made, fun _ => ?_, fun _ => ?_,
    fun hk => absurd hk (by decide), count_put_put.trans (congrArg (· + 1) hn), hmem⟩
  · rw [source_put]
    exact h.regs (by decide)
  · rw [source_put]
    exact halfSaved_source (f := (·.sregs)) (fun _ => rfl) (Nat.le_of_eq hn)

theorem Progress.writeFpu (h : Progress old new m₀ stale l .fpu v) :
    Progress old new m₀ stale (l ++ [.put]) .begin
      { v with fpu := (halfSaved old new (l.count .snapshot)).fpu } := by
  obtain ⟨hn, hmem⟩ := h.loop
  refine ⟨by rw [count_put_put]; exact Nat.succ_le_succ h.made, fun _ => ?_, fun _ => ?_,
    fun _ => ?_, count_put_put.trans (congrArg (· + 1) hn), hmem⟩
  · rw [source_put]
    exact h.regs (by decide)
  · rw [source_put]
    exact h.sregs (by decide)
  · rw [source_put]
    exact halfSaved_source (f := (·.fpu)) (fun _ => rfl) (Nat.le_of_eq hn)

/-- From the loop on the registers stay. -/
theorem Progress.of_registers {p p' : PutPc} {m : Nat → UInt8}
    (h : Progress old new m₀ stale l p v) (hp : 3 ≤ p.made) (hp' : p'.made = 4)
    (hloop : Loop old new m₀ stale (l ++ [.put]) m p') :
    Progress old new m₀ stale (l ++ [.put]) p' { v with mem := m } := by
  have hm := h.made
  refine ⟨by rw [hp', count_put_put]; omega, fun _ => ?_, fun _ => ?_, fun _ => ?_, hloop⟩
  · rw [source_put]
    exact h.regs (by omega)
  · rw [source_put]
    exact h.sregs (by omega)
  · rw [source_put]
    exact h.fpu (by omega)

theorem Progress.begin (h : Progress old new m₀ stale l .begin v) :
    Progress old new m₀ stale (l ++ [.put])
      (.copies (halfSaved old new (l.count .snapshot)).regions true) v := by
  obtain ⟨hn, hmem⟩ := h.loop
  have hle : l.count .put ≤ 3 := Nat.le_of_eq hn
  have h3 : before 3 l = l.count .snapshot := before_eq_count hle
  refine h.of_registers (Nat.le_refl 3) rfl ⟨fun hold => ?_, whole_put.mpr ?_, ?_⟩
  · rw [before_put, h3] at hold
    rw [count_put_put, hn]
    simp only [halfSaved, if_neg (Nat.not_lt.mpr hold), PutPc.made]
  · rcases Nat.lt_or_ge 3 (before 3 l) with hnew | hold
    · exact .inl hnew
    · refine .inr ?_
      rw [before_eq_count (by omega), ← h3]
      exact hold
  · have hregions : (halfSaved old new (l.count .snapshot)).regions =
        (source old new l 3).regions :=
      halfSaved_source (f := (·.regions)) (fun _ => rfl) hle
    rw [source_put, hmem, hregions]
    rfl

theorem Progress.copy {r : ResetMemory} {rs : List ResetMemory}
    (h : Progress old new m₀ stale l (.copies (r :: rs) true) v) :
    Progress old new m₀ stale (l ++ [.put]) (.copies rs true)
      { v with mem := r.write v.mem } := by
  obtain ⟨hn, hwhole, hmem⟩ := h.loop
  refine h.of_registers (Nat.le_succ 3) rfl ⟨fun h3 => ?_, whole_put.mpr hwhole, ?_⟩
  · have := hn (by rw [← before_put]; exact h3)
    rw [List.length_cons] at this
    rw [count_put_put]
    omega
  · rw [source_put, ← hmem, List.foldl_cons]

theorem Progress.copyFreed {r : ResetMemory} {rs : List ResetMemory}
    (h : Progress old new m₀ stale l (.copies (r :: rs) false) v) :
    Progress old new m₀ stale (l ++ [.put]) (.copies rs false)
      { v with mem := stale v.mem } := by
  obtain ⟨hn, hwhole, _⟩ := h.loop
  refine h.of_registers (Nat.le_succ 3) rfl
    ⟨fun h3 => ?_, fun hw => hwhole (whole_put.mp hw), fun _ => ⟨v.mem, rfl⟩⟩
  have := hn (by rw [← before_put]; exact h3)
  rw [List.length_cons] at this
  rw [count_put_put]
  omega

theorem Progress.push {live : Bool} (h : Progress old new m₀ stale l (.copies [] live) v) :
    Progress old new m₀ stale (l ++ [.put]) .done v := by
  obtain ⟨hn, hc⟩ := h.loop
  refine h.of_registers (Nat.le_succ 3) rfl ⟨fun h3 => ?_, live, hc.put⟩
  have := hn (by rw [← before_put]; exact h3)
  rw [List.length_nil] at this
  rw [count_put_put]
  omega

end Put

/-! ### The run -/

/-- A step of `put` leaves the snapshot where it is. -/
theorem Inv.of_put {s : Race S F} {p : PutPc} {v : Virtine S F} {vs : List (Virtine S F)}
    (hI : Inv old new m₀ stale pool l s) (hv : v.mResetMask = true)
    (hvs : vs = match p with
      | .done => pool ++ [v]
      | _ => pool)
    (hprog : Progress old new m₀ stale (l ++ [.put]) p v) :
    Inv old new m₀ stale pool (l ++ [.put])
      { s with cache := { s.cache with mCache := vs }, v := v, put := p } :=
  ⟨hI.saving, by rw [count_snapshot_put]; exact hI.saved,
    by rw [count_snapshot_put]; exact hI.shared, hv, hvs, hprog⟩

/-- A step of the snapshot leaves `v` and the pool where they are. -/
theorem Inv.of_snapshot {s : Race S F} {p : PutPc} {q : SavePc}
    {f : ResetState S F → ResetState S F} (hI : Inv old new m₀ stale pool l s)
    (hq : q.made = s.save.made + 1) (hp : p = s.put ∨ p = s.put.free)
    (hf : f (halfSaved old new (l.count .snapshot)) =
      halfSaved old new (l.count .snapshot + 1))
    (hprog : Progress old new m₀ stale (l ++ [.snapshot]) p s.v) :
    Inv old new m₀ stale pool (l ++ [.snapshot])
      { s with cache := s.cache.saveInto f, put := p, save := q } := by
  refine ⟨hI.saving, ?_, ?_, hI.masked, ?_, hprog⟩
  · rw [count_snapshot_snapshot, ← hI.saved]
    exact hq
  · rw [count_snapshot_snapshot, ← hf, Cache.saveInto, hI.shared]
    rfl
  · have hpool := hI.pooled
    rcases hp with rfl | rfl
    · exact hpool
    · unfold PutPc.free
      cases hput : s.put <;> rw [hput] at hpool <;> first | exact hpool | skip
      rename_i rs live
      cases rs <;> exact hpool

/-- **One step.** -/
theorem Step.inv {s t : Race S F} {a : Actor} (hI : Inv old new m₀ stale pool l s)
    (h : Step stale s a t) : Inv old new m₀ stale pool (l ++ [a]) t := by
  have hrst : s.rst = halfSaved old new (l.count .snapshot) := by
    rw [rst, hI.shared, Virtine.rst_masked hI.masked]
  have hpool := hI.pooled
  have hprog := hI.progress
  have hsaved := hI.saved
  have hw := hI.saving
  cases h with
  | writeRegs hp =>
      rw [hp] at hpool hprog
      rw [hrst]
      exact hI.of_put hI.masked hpool hprog.writeRegs
  | writeSregs hp =>
      rw [hp] at hpool hprog
      rw [hrst]
      exact hI.of_put hI.masked hpool hprog.writeSregs
  | writeFpu hp =>
      rw [hp] at hpool hprog
      rw [hrst]
      exact hI.of_put hI.masked hpool hprog.writeFpu
  | begin hp =>
      rw [hp] at hpool hprog
      rw [hrst]
      exact hI.of_put hI.masked hpool hprog.begin
  | copy hp hc =>
      rw [hp] at hpool hprog
      obtain ⟨_, rfl⟩ := Virtine.copyRegion_eq_ok.mp hc
      exact hI.of_put hI.masked hpool hprog.copy
  | copyFreed hp =>
      rw [hp] at hpool hprog
      exact hI.of_put hI.masked hpool hprog.copyFreed
  | push hp =>
      rw [hp] at hpool hprog
      exact hI.of_put hI.masked (congrArg (· ++ [s.v]) hpool) hprog.push
  | readRegs hp | readSregs hp | readFpu hp =>
      rw [hp] at hsaved
      have hlt : l.count .snapshot < 3 := by
        rw [← hsaved]
        decide
      refine hI.of_snapshot (by rw [hp]; rfl) (.inl rfl) ?_ (hprog.read hlt)
      rw [← hsaved, ← hw]
      rfl
  | assign hp =>
      rw [hp] at hsaved
      refine hI.of_snapshot (by rw [hp]; rfl) (.inr rfl) ?_ (hprog.assign hsaved.symm)
      rw [← hsaved, ← hw]
      rfl

theorem init_inv (stale : (Nat → UInt8) → Nat → UInt8) {c : Cache S F} {v : Virtine S F}
    (w : Virtine S F) (buffer : Bool) (hv : v.mResetMask = true) (hr : c.mReset = some old) :
    Inv old (w.captured buffer) v.mem stale c.mCache [] (init c v w buffer) :=
  ⟨rfl, rfl, hr, hv, rfl, Nat.le_refl 0, fun hk => absurd hk (Nat.not_lt_zero _),
    fun hk => absurd hk (Nat.not_lt_zero _), fun hk => absurd hk (Nat.not_lt_zero _), rfl, rfl⟩

/-- **What enters the pool**, by the order of the steps: each part of it is
from the old or from the new state, and the memory is the work of one of
them unless the vector was assigned under the loop. -/
theorem run_outcome {c : Cache S F} {v w : Virtine S F} {buffer : Bool}
    (hv : v.mResetMask = true) (hr : c.mReset = some old) {s : Race S F}
    (h : Run (Step stale) (init c v w buffer) l s) (hd : s.put = .done) :
    s.cache.mCache = c.mCache ++ [s.v] ∧
      s.v.regs = (source old (w.captured buffer) l 0).regs ∧
      s.v.sregs = (source old (w.captured buffer) l 1).sregs ∧
      s.v.fpu = (source old (w.captured buffer) l 2).fpu ∧
      ∃ live, Copied old (w.captured buffer) v.mem stale l [] s.v.mem live := by
  have hI := h.history (fun _ _ _ _ hI hs => hs.inv hI) (init_inv stale w buffer hv hr)
  have hpool := hI.pooled
  have hprog := hI.progress
  rw [hd] at hpool hprog
  exact ⟨hpool, hprog.regs (by decide), hprog.sregs (by decide), hprog.fpu (by decide),
    hprog.loop.2⟩

end Race

/-! ## One reset state or a mixture -/

/-- The parts of a reset state, in the order both threads go through them. -/
inductive Part where
  | regs
  | sregs
  | fpu
  | regions

def Part.step : Part → Nat
  | .regs => 0
  | .sregs => 1
  | .fpu => 2
  | .regions => 3

/-- The two states agree in a part; in the regions, on the memory `m`. -/
def ResetState.SameAt (r r' : ResetState S F) (m : Nat → UInt8) : Part → Prop
  | .regs => r.regs = r'.regs
  | .sregs => r.sregs = r'.sregs
  | .fpu => r.fpu = r'.fpu
  | .regions => r.write m = r'.write m

/-- Registers and region bytes of `v` are those of `r`. -/
structure Virtine.ResetTo (v : Virtine S F) (r : ResetState S F) (m : Nat → UInt8) : Prop where
  regs : v.regs = r.regs
  sregs : v.sregs = r.sregs
  fpu : v.fpu = r.fpu
  mem : v.mem = r.write m

namespace Race

/-- The order of the steps keeps the reset state in one piece: the vector is
not assigned under the loop, and in the parts in which the old and the new
state differ, one of the two threads is always the first. -/
def InOrder (old new : ResetState S F) (m : Nat → UInt8) (l : List Actor) : Prop :=
  Whole old l ∧
    ((∀ k : Part, k.step < before k.step l ∨ old.SameAt new m k) ∨
      ∀ k : Part, before k.step l ≤ k.step ∨ old.SameAt new m k)

variable {old new : ResetState S F} {l : List Actor}

theorem source_new {α : Type} (f : ResetState S F → α) (k : Nat) :
    f (source old new l k) = f new ↔ k < before k l ∨ f old = f new := by
  unfold source
  by_cases hk : k < before k l
  · simp [hk]
  · simp [hk]

theorem source_old {α : Type} (f : ResetState S F → α) (k : Nat) :
    f (source old new l k) = f old ↔ before k l ≤ k ∨ f old = f new := by
  unfold source
  by_cases hk : k < before k l
  · simp [hk, Nat.not_le.mpr hk, eq_comm]
  · simp [hk, Nat.not_lt.mp hk]

section Outcome

variable {u : Virtine S F} {m : Nat → UInt8} (hregs : u.regs = (source old new l 0).regs)
  (hsregs : u.sregs = (source old new l 1).sregs) (hfpu : u.fpu = (source old new l 2).fpu)
  (hmem : u.mem = (source old new l 3).write m)

include hregs hsregs hfpu hmem

theorem resetTo_new_iff :
    u.ResetTo new m ↔ ∀ k : Part, k.step < before k.step l ∨ old.SameAt new m k := by
  constructor
  · intro h k
    cases k with
    | regs => exact (source_new (·.regs) 0).mp (hregs.symm.trans h.regs)
    | sregs => exact (source_new (·.sregs) 1).mp (hsregs.symm.trans h.sregs)
    | fpu => exact (source_new (·.fpu) 2).mp (hfpu.symm.trans h.fpu)
    | regions => exact (source_new (·.write m) 3).mp (hmem.symm.trans h.mem)
  · intro h
    exact ⟨hregs.trans ((source_new (·.regs) 0).mpr (h .regs)),
      hsregs.trans ((source_new (·.sregs) 1).mpr (h .sregs)),
      hfpu.trans ((source_new (·.fpu) 2).mpr (h .fpu)),
      hmem.trans ((source_new (·.write m) 3).mpr (h .regions))⟩

theorem resetTo_old_iff :
    u.ResetTo old m ↔ ∀ k : Part, before k.step l ≤ k.step ∨ old.SameAt new m k := by
  constructor
  · intro h k
    cases k with
    | regs => exact (source_old (·.regs) 0).mp (hregs.symm.trans h.regs)
    | sregs => exact (source_old (·.sregs) 1).mp (hsregs.symm.trans h.sregs)
    | fpu => exact (source_old (·.fpu) 2).mp (hfpu.symm.trans h.fpu)
    | regions => exact (source_old (·.write m) 3).mp (hmem.symm.trans h.mem)
  · intro h
    exact ⟨hregs.trans ((source_old (·.regs) 0).mpr (h .regs)),
      hsregs.trans ((source_old (·.sregs) 1).mpr (h .sregs)),
      hfpu.trans ((source_old (·.fpu) 2).mpr (h .fpu)),
      hmem.trans ((source_old (·.write m) 3).mpr (h .regions))⟩

end Outcome

theorem exists_other_byte (a b : UInt8) : ∃ x : UInt8, x ≠ a ∧ x ≠ b := by
  by_cases h0 : a = 0 ∨ b = 0
  · by_cases h1 : a = 1 ∨ b = 1
    · refine ⟨2, fun h => ?_, fun h => ?_⟩ <;> subst h <;> simp at h0 h1 <;> simp [h0] at h1
    · exact ⟨1, fun h => h1 (.inl h.symm), fun h => h1 (.inr h.symm)⟩
  · exact ⟨0, fun h => h0 (.inl h.symm), fun h => h0 (.inr h.symm)⟩

/-- **When the pool gets one reset state.** In an order of the steps that
keeps the reset state in one piece, the virtine that `put` adds to the
pool is reset to the old state or to the new one. In any other order it is
reset to neither, as soon as the copies from a freed vector leave the wrong
bytes. -/
theorem put_unmixed_iff {c : Cache S F} {v w : Virtine S F} {buffer : Bool}
    (hv : v.mResetMask = true) (hr : c.mReset = some old) :
    (InOrder old (w.captured buffer) v.mem l →
      ∀ stale s, Run (Step stale) (init c v w buffer) l s → s.put = .done →
        ∃ u, s.cache.mCache = c.mCache ++ [u] ∧
          (u.ResetTo old v.mem ∨ u.ResetTo (w.captured buffer) v.mem)) ∧
    (¬ InOrder old (w.captured buffer) v.mem l →
      ∃ stale, ∀ s, Run (Step stale) (init c v w buffer) l s → s.put = .done →
        ∃ u, s.cache.mCache = c.mCache ++ [u] ∧
          ¬ (u.ResetTo old v.mem ∨ u.ResetTo (w.captured buffer) v.mem)) := by
  constructor
  · rintro ⟨hwhole, horder⟩ stale s hrun hd
    obtain ⟨hpool, hregs, hsregs, hfpu, live, hc⟩ := run_outcome hv hr hrun hd
    refine ⟨s.v, hpool, ?_⟩
    cases live with
    | false => exact absurd hwhole hc.1
    | true =>
        rcases horder with hnew | hold
        · exact .inr ((resetTo_new_iff hregs hsregs hfpu hc.2).mpr hnew)
        · exact .inl ((resetTo_old_iff hregs hsregs hfpu hc.2).mpr hold)
  · intro hmix
    obtain ⟨x, hx, hx'⟩ :=
      exists_other_byte (old.write v.mem 0) ((w.captured buffer).write v.mem 0)
    refine ⟨fun _ _ => x, fun s hrun hd => ?_⟩
    obtain ⟨hpool, hregs, hsregs, hfpu, live, hc⟩ := run_outcome hv hr hrun hd
    refine ⟨s.v, hpool, ?_⟩
    cases live with
    | false =>
        obtain ⟨_, hm⟩ := hc.2 rfl
        rintro (h | h)
        · exact hx (by rw [← h.mem, hm])
        · exact hx' (by rw [← h.mem, hm])
    | true =>
        rintro (h | h)
        · exact hmix ⟨hc.1, .inr ((resetTo_old_iff hregs hsregs hfpu hc.2).mp h)⟩
        · exact hmix ⟨hc.1, .inl ((resetTo_new_iff hregs hsregs hfpu hc.2).mp h)⟩

/-- A host whose special registers only tell long mode (`true`) from the
real mode a new vCPU is in. -/
def realModeKvm : Kvm Bool Unit :=
  { kvmfd := 3, apiVersion := 12, capUserMemory := 1, supportedCpuid := 0,
    setCpuid2 := 0, sregs := false, fpu := (), clearCsBase := id, mmap := plainKvm.mmap }

/-- A cache with a one-byte image. -/
def raceCache : Cache Bool Unit :=
  (Cache.new 0x10000 0 0).setBinary (fun _ => 0xF4) 1 0x8000

/-- The guest of the second virtine has gone to long mode and takes its snapshot. -/
def booted (w : Virtine Bool Unit) : Virtine Bool Unit :=
  { w with regs := { w.regs with rip := 0x8100, rdi := 0xFF, rdx := 0x9000 }, sregs := true }

/-- `put` alone, and then the snapshot: the pool gets the old state. -/
theorem put_then_snapshot_unmixed :
    ∃ v w c₁ c₂ old s, raceCache.get realModeKvm = (.ok v, c₁) ∧
      c₁.get realModeKvm = (.ok w, c₂) ∧ c₂.mReset = some old ∧
      Run (Step id) (init c₂ v (booted w) true)
        (List.replicate 6 .put ++ List.replicate 4 .snapshot) s ∧
      ∃ u, s.cache.mCache = c₂.mCache ++ [u] ∧
        (u.ResetTo old v.mem ∨ u.ResetTo ((booted w).captured true) v.mem) := by
  obtain ⟨v, w, c₁, c₂, old, s, hv, hw, hmask, hold, hlen, hrun, hd⟩ :
      ∃ v w c₁ c₂ old s, raceCache.get realModeKvm = (.ok v, c₁) ∧
        c₁.get realModeKvm = (.ok w, c₂) ∧ v.mResetMask = true ∧ c₂.mReset = some old ∧
        old.regions.length = 1 ∧
        Run (Step id) (init c₂ v (booted w) true)
          (List.replicate 6 .put ++ List.replicate 4 .snapshot) s ∧ s.put = .done :=
    ⟨_, _, _, _, _, _, rfl, rfl, rfl, rfl, rfl, .cons (.writeRegs rfl) <|
      .cons (.writeSregs rfl) <| .cons (.writeFpu rfl) <| .cons (.begin rfl) <|
      .cons (.copy rfl rfl) <| .cons (.push rfl) <| .cons (.readRegs rfl) <|
      .cons (.readSregs rfl) <| .cons (.readFpu rfl) <| .cons (.assign rfl) (.nil _), rfl⟩
  refine ⟨v, w, c₁, c₂, old, s, hv, hw, hold, hrun, ?_⟩
  refine (put_unmixed_iff hmask hold).1 ⟨.inr ?_, .inr fun k => .inl ?_⟩ id s hrun hd
  · rw [hlen]
    decide
  · cases k <;> decide

/-- The snapshot between `put`'s first and second step: the virtine that
enters the pool has the registers of a guest that has not started and the
special registers of one that is in long mode. -/
theorem mixed_reset_state :
    ∃ v w c₁ c₂ old s u, raceCache.get realModeKvm = (.ok v, c₁) ∧
      c₁.get realModeKvm = (.ok w, c₂) ∧ c₂.mReset = some old ∧
      Run (Step id) (init c₂ v (booted w) true)
        (.put :: List.replicate 4 .snapshot ++ List.replicate 5 .put) s ∧
      s.cache.mCache = c₂.mCache ++ [u] ∧
      u.regs.rip = 0x8000 ∧ u.sregs = true ∧ old.sregs = false ∧
      ((booted w).captured true).regs.rip = 0x8102 ∧
      ¬ (u.ResetTo old v.mem ∨ u.ResetTo ((booted w).captured true) v.mem) := by
  obtain ⟨v, w, c₁, c₂, old, s, hv, hw, hold, hrun, hpool, hrip, hlong, hreal, hnew⟩ :
      ∃ v w c₁ c₂ old s, raceCache.get realModeKvm = (.ok v, c₁) ∧
        c₁.get realModeKvm = (.ok w, c₂) ∧ c₂.mReset = some old ∧
        Run (Step id) (init c₂ v (booted w) true)
          (.put :: List.replicate 4 .snapshot ++ List.replicate 5 .put) s ∧
        s.cache.mCache = c₂.mCache ++ [s.v] ∧ s.v.regs.rip = 0x8000 ∧ s.v.sregs = true ∧
        old.sregs = false ∧ ((booted w).captured true).regs.rip = 0x8102 :=
    ⟨_, _, _, _, _, _, rfl, rfl, rfl, .cons (.writeRegs rfl) <| .cons (.readRegs rfl) <|
      .cons (.readSregs rfl) <| .cons (.readFpu rfl) <| .cons (.assign rfl) <|
      .cons (.writeSregs rfl) <| .cons (.writeFpu rfl) <| .cons (.begin rfl) <|
      .cons (.copy rfl rfl) <| .cons (.push rfl) (.nil _), rfl, rfl, rfl, rfl, rfl⟩
  refine ⟨v, w, c₁, c₂, old, s, s.v, hv, hw, hold, hrun, hpool, hrip, hlong, hreal, hnew, ?_⟩
  rintro (h | h)
  · rw [h.sregs, hreal] at hlong
    cases hlong
  · rw [h.regs, hnew] at hrip
    exact absurd hrip (by decide)

end Race

end Wasp
