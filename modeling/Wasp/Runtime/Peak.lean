import Mathlib.Data.Fintype.BigOperators
import Mathlib.Data.Fintype.Option
import Wasp.Runtime.Spinlock

/-!
# Peak — how many virtines a cache makes

A `get` allocates only when the pool is empty, an `ensure` only while the
pool has fewer virtines than it asks for, and nothing but the destructor
deletes one. So the number of virtines is the largest demand there has been:
those with the threads at one time, and those that an `ensure` asked to have
beside them.

`Stock` is the cache as three numbers. The threads of `Spinlock`, statement
by statement, move them as `Stock.Step` says (`Step.stock`).
-/

namespace Wasp

variable {T S F : Type}

/-! ## The numbers -/

/-- The virtines there are, those of them that are with no thread, and how
many an `ensure` in progress asks for. -/
structure Stock where
  made : Nat
  spare : Nat
  wanted : Nat

namespace Stock

inductive Step : Stock → Stock → Prop where
  | stay {n k w} : Step ⟨n, k, w⟩ ⟨n, k, w⟩
  | make {n} : Step ⟨n, 0, 0⟩ ⟨n + 1, 0, 0⟩
  | take {n k} : Step ⟨n, k + 1, 0⟩ ⟨n, k, 0⟩
  | give {n k} : Step ⟨n, k, 0⟩ ⟨n, k + 1, 0⟩
  | want {n k w} : Step ⟨n, k, 0⟩ ⟨n, k, w⟩
  | fill {n k w} : k < w → Step ⟨n, k, w⟩ ⟨n + 1, k + 1, w⟩
  | done {n k w} : w ≤ k → Step ⟨n, k, w⟩ ⟨n, k, 0⟩

/-- The virtines that are in use or asked for. -/
def demand (x : Stock) : Nat := x.made - x.spare + x.wanted

/-- With a peak demand of `n`. -/
structure Peaks (x : Stock) (n : Nat) : Prop where
  spare : x.spare ≤ x.made
  peak : n = max x.made x.demand

theorem Step.peaks {x y : Stock} {n : Nat} (h : x.Step y) (hx : x.Peaks n)
    (hy : y.spare ≤ y.made) : y.Peaks (max n y.demand) := by
  obtain ⟨hspare, rfl⟩ := hx
  refine ⟨hy, ?_⟩
  cases h with
  | stay => simp
  | make | take | give | want | fill | done =>
      simp only [demand] at *
      omega

end Stock

/-! ## The threads -/

namespace Pc

/-- What the `ensure` of this thread asks for. -/
def wanted : Pc S F → Nat
  | .enter (.ensure count) | .grow count | .push count _ _ => (count.signExtend 64).toNat
  | _ => 0

/-- The virtines of an `ensure` that are not in the pool yet. -/
def unpushed (p : Pc S F) : Nat := p.fresh.length

/-- What a thread in the section has seen of a pool of `n`. -/
def Sees (n : Nat) : Pc S F → Prop
  | .miss | .allocate => n = 0
  | .hit | .front | .pop _ _ => 0 < n
  | .grow count | .push count _ _ => n < (count.signExtend 64).toNat
  | _ => True

theorem outside {p : Pc S F} (h : p.inside = false) :
    p.wanted = 0 ∧ p.unpushed = 0 ∧ ∀ n, p.Sees n := by
  cases p <;> first | exact ⟨rfl, rfl, fun _ => trivial⟩ | cases h

end Pc

namespace Threads

section

variable [DecidableEq T] {s s' : Threads T S F} {t : T}

/-- **What a statement does to the numbers**: in the section it moves them,
outside it can only bring the thread into the section. -/
theorem Step.local_stock (h : Step s t s') (hsees : (s.pc t).Sees s.cache.mCache.length) :
    ∃ p, s'.pc = Function.update s.pc t p ∧ p.Sees s'.cache.mCache.length ∧
      (((s.pc t).inside = false ∧ s'.allocated = s.allocated ∧
          s'.cache.mCache.length = s.cache.mCache.length ∧ p.unpushed = 0 ∧
          (p.wanted = 0 ∨ s.cache.locked = false)) ∨
        ((s.pc t).inside = true ∧
          Stock.Step ⟨s.allocated, s.cache.mCache.length + (s.pc t).unpushed, (s.pc t).wanted⟩
            ⟨s'.allocated, s'.cache.mCache.length + p.unpushed, p.wanted⟩)) := by
  cases h with
  | callGet hpc | callPut hpc _ | callEnsure hpc =>
      refine ⟨_, rfl, trivial, .inl ⟨by rw [hpc]; rfl, rfl, rfl, rfl, .inl rfl⟩⟩
  | run hpc _ =>
      refine ⟨.idle, ?_, trivial, .inl ⟨by rw [hpc]; rfl, rfl, rfl, rfl, .inl rfl⟩⟩
      rw [← hpc, Function.update_eq_self]
      rfl
  | reset hpc _ _ => exact ⟨_, rfl, trivial, .inl ⟨by rw [hpc]; rfl, rfl, rfl, rfl, .inl rfl⟩⟩
  | acquire hpc hl =>
      exact ⟨_, rfl, trivial, .inl ⟨by rw [hpc]; rfl, rfl, rfl, rfl, .inr hl⟩⟩
  | contend hpc _ | retry hpc _ =>
      exact ⟨_, rfl, trivial, .inl ⟨by rw [hpc]; rfl, rfl, rfl, rfl, .inl rfl⟩⟩
  | spin hpc _ =>
      refine ⟨s.pc t, (Function.update_eq_self t s.pc).symm, hsees, .inl ?_⟩
      rw [hpc]
      exact ⟨rfl, rfl, rfl, rfl, .inl rfl⟩
  | getEmpty hpc hm =>
      refine ⟨.miss, rfl, congrArg List.length hm, .inr ?_⟩
      rw [hpc]
      exact ⟨rfl, .stay⟩
  | getMiss hpc | getHit hpc =>
      rw [hpc] at hsees
      refine ⟨_, rfl, hsees, .inr ?_⟩
      rw [hpc]
      exact ⟨rfl, .stay⟩
  | getAllocate hpc hal =>
      obtain ⟨r, _, _, rfl⟩ := Cache.allocate_ok hal
      rw [hpc] at hsees
      refine ⟨.unlock, rfl, trivial, .inr ?_⟩
      rw [hpc]
      refine ⟨rfl, ?_⟩
      have hpool : s.cache.mCache.length = 0 := hsees
      show Stock.Step ⟨_, s.cache.mCache.length, _⟩ ⟨_, s.cache.mCache.length, _⟩
      rw [hpool]
      exact .make
  | getFull hpc hm =>
      refine ⟨.hit, rfl, List.length_pos_iff.mpr hm, .inr ?_⟩
      rw [hpc]
      exact ⟨rfl, .stay⟩
  | getFront hpc hm =>
      rw [hpc] at hsees
      refine ⟨_, rfl, hsees, .inr ?_⟩
      rw [hpc]
      exact ⟨rfl, .stay⟩
  | getPop hpc =>
      rw [hpc] at hsees
      refine ⟨.unlock, rfl, trivial, .inr ?_⟩
      rw [hpc]
      refine ⟨rfl, ?_⟩
      have hpool : 0 < s.cache.mCache.length := hsees
      have htail : s.cache.mCache.length = s.cache.mCache.tail.length + 1 := by
        rw [List.length_tail]
        omega
      show Stock.Step ⟨_, s.cache.mCache.length, _⟩ ⟨_, s.cache.mCache.tail.length, _⟩
      rw [htail]
      exact .take
  | @putPush _ _ _ v hpc _ =>
      refine ⟨.unlock, rfl, trivial, .inr ?_⟩
      rw [hpc]
      refine ⟨rfl, ?_⟩
      show Stock.Step ⟨_, s.cache.mCache.length, _⟩ ⟨_, (s.cache.mCache ++ [v]).length, _⟩
      rw [List.length_append]
      exact .give
  | ensureMore hpc hlt =>
      refine ⟨_, rfl, hlt, .inr ?_⟩
      rw [hpc]
      exact ⟨rfl, .stay⟩
  | ensureAllocate hpc hal =>
      obtain ⟨r, _, _, rfl⟩ := Cache.allocate_ok hal
      rw [hpc] at hsees
      refine ⟨_, rfl, hsees, .inr ?_⟩
      rw [hpc]
      exact ⟨rfl, .fill hsees⟩
  | ensurePush hpc =>
      refine ⟨_, rfl, trivial, .inr ?_⟩
      rw [hpc]
      exact ⟨rfl, .stay⟩
  | ensureDone hpc hle =>
      refine ⟨.unlock, rfl, trivial, .inr ?_⟩
      rw [hpc]
      exact ⟨rfl, .done hle⟩
  | release hpc =>
      refine ⟨.idle, rfl, trivial, .inr ?_⟩
      rw [hpc]
      exact ⟨rfl, .stay⟩

end

/-! ## All threads together -/

variable [Fintype T]

/-- The sum of a number of each thread. -/
def tally (s : Threads T S F) (f : Pc S F → Nat) : Nat := ∑ t, f (s.pc t)

/-- What each thread in the section has seen is so. -/
def Seen (s : Threads T S F) : Prop := ∀ t, (s.pc t).Sees s.cache.mCache.length

/-- The virtines that the threads hold. -/
def out (s : Threads T S F) : Nat := ∑ t, (s.held t).length

/-- The virtines in use or asked for. -/
def demand (s : Threads T S F) : Nat := s.out + s.tally Pc.wanted

def stock (s : Threads T S F) : Stock where
  made := s.allocated
  spare := s.cache.mCache.length + s.tally Pc.unpushed
  wanted := s.tally Pc.wanted

/-- Every virtine is in the pool, on its way there, or held. -/
theorem Inv.made_eq {s : Threads T S F} (hI : s.Inv) :
    s.stock.made = s.stock.spare + s.out := by
  have hplaced : Placed s.places (· ∈ Finset.range s.allocated) := by
    simpa only [Finset.mem_range] using hI.placed
  have hsum := hplaced.sum_length
  rw [Finset.card_range, Fintype.sum_option] at hsum
  have howned : ∑ t, (s.owned t).length = s.tally Pc.unpushed + s.out := by
    simp only [owned, List.length_append, List.length_map, Finset.sum_add_distrib]
    rfl
  have hsplit : s.ids.length + ∑ t, (s.owned t).length = s.allocated := hsum
  rw [howned, hI.named] at hsplit
  show s.allocated = s.cache.mCache.length + s.tally Pc.unpushed + s.out
  omega

theorem Inv.demand_eq {s : Threads T S F} (hI : s.Inv) : s.stock.demand = s.demand := by
  have hmade := hI.made_eq
  show s.stock.made - s.stock.spare + s.tally Pc.wanted = s.out + s.tally Pc.wanted
  omega

section

variable {s : Threads T S F} {t : T} {f : Pc S F → Nat}

/-- What is zero outside the section is that of the thread inside. -/
theorem Inv.tally_inside (hI : s.Inv) (hf : ∀ p : Pc S F, p.inside = false → f p = 0)
    (ht : (s.pc t).inside = true) : s.tally f = f (s.pc t) := by
  refine Finset.sum_eq_single t (fun u _ hu => hf _ ?_) fun h => absurd (Finset.mem_univ t) h
  by_contra hin
  exact hu (hI.alone u t (by simpa using hin) ht)

theorem Inv.tally_free (hI : s.Inv) (hf : ∀ p : Pc S F, p.inside = false → f p = 0)
    (hl : s.cache.locked = false) : s.tally f = 0 := by
  refine Finset.sum_eq_zero fun u _ => hf _ ?_
  by_contra hin
  have hlocked := hI.locked u (by simpa using hin)
  simp [hl] at hlocked

end

section

variable [DecidableEq T] {s s' : Threads T S F} {t : T} {p : Pc S F} {f : Pc S F → Nat}

/-- One thread goes on. -/
theorem tally_update (hpc : s'.pc = Function.update s.pc t p) :
    s'.tally f + f (s.pc t) = s.tally f + f p := by
  have hsplit : ∀ g : T → Nat, ∑ u, g u = g t + ∑ u ∈ Finset.univ.erase t, g u :=
    fun g => (Finset.add_sum_erase _ _ (Finset.mem_univ t)).symm
  have hrest : ∑ u ∈ Finset.univ.erase t, f (s'.pc u) =
      ∑ u ∈ Finset.univ.erase t, f (s.pc u) := by
    refine Finset.sum_congr rfl fun u hu => ?_
    rw [hpc, Function.update_of_ne (Finset.ne_of_mem_erase hu)]
  have hself : s'.pc t = p := by rw [hpc, Function.update_self]
  rw [tally, tally, hsplit (fun u => f (s'.pc u)), hsplit (fun u => f (s.pc u)), hrest, hself]
  omega

/-- **The threads move the numbers as `Stock` does.** -/
theorem Step.stock (h : Step s t s') (hI : s.Inv) (hseen : s.Seen) :
    s.stock.Step s'.stock ∧ s'.Seen := by
  obtain ⟨p, hpc, hsees, hcases⟩ := h.local_stock (hseen t)
  have hwanted := tally_update (f := Pc.wanted) hpc
  have hunpushed := tally_update (f := Pc.unpushed) hpc
  rcases hcases with ⟨hout, hmade, hpool, hfresh, henter⟩ | ⟨hin, hstep⟩
  · obtain ⟨hnone, hnofresh, -⟩ := Pc.outside hout
    have hspare : s'.tally Pc.unpushed = s.tally Pc.unpushed := by omega
    refine ⟨?_, fun u => ?_⟩
    · rw [Threads.stock, Threads.stock, hmade, hpool, hspare]
      rcases henter with hp | hfree
      · rw [show s'.tally Pc.wanted = s.tally Pc.wanted by omega]
        exact .stay
      · rw [hI.tally_free (fun _ h => (Pc.outside h).1) hfree]
        exact .want
    · by_cases hu : u = t
      · rw [hu, hpc, Function.update_self]
        exact hsees
      · rw [hpc, Function.update_of_ne hu, hpool]
        exact hseen u
  · have hw := hI.tally_inside (f := Pc.wanted) (fun _ h => (Pc.outside h).1) hin
    have hf := hI.tally_inside (f := Pc.unpushed) (fun _ h => (Pc.outside h).2.1) hin
    refine ⟨?_, fun u => ?_⟩
    · rw [Threads.stock, Threads.stock, hw, hf, show s'.tally Pc.wanted = p.wanted by omega,
        show s'.tally Pc.unpushed = p.unpushed by omega]
      exact hstep
    · by_cases hu : u = t
      · rw [hu, hpc, Function.update_self]
        exact hsees
      · -- the other threads are outside the section
        rw [hpc, Function.update_of_ne hu]
        refine (Pc.outside ?_).2.2 _
        by_contra hin'
        exact hu (hI.alone u t (by simpa using hin') hin)

/-! ## The peak -/

/-- The threads, with the largest demand so far. -/
def Peaked : Threads T S F × Nat → T → Threads T S F × Nat → Prop :=
  Run.Beside Step fun _ _ s' n n' => n' = max n s'.demand

/-- Along a run the peak is that of the numbers. -/
theorem Peaked.peaks {memsz size start : BitVec 64} {binary : Option (Nat → UInt8)}
    {ts : List T} {s : Threads T S F} {n : Nat}
    (h : Run Peaked (init memsz size start binary, 0) ts (s, n)) :
    s.Inv ∧ s.Seen ∧ s.stock.Peaks n := by
  refine h.invariant (I := fun x : Threads T S F × Nat =>
    x.1.Inv ∧ x.1.Seen ∧ x.1.stock.Peaks x.2) ?_ ⟨init_inv .., fun _ => trivial, ?_⟩
  · intro ⟨s, n⟩ t ⟨s', n'⟩ ⟨hI, hseen, hpeaks⟩ ⟨hst, hn⟩
    obtain ⟨hstock, hseen'⟩ := hst.stock hI hseen
    have hI' := hst.inv hI
    have hmade := hI'.made_eq
    have hpeaks' := hstock.peaks hpeaks (by omega)
    rw [hI'.demand_eq] at hpeaks'
    exact ⟨hI', hseen', hn ▸ hpeaks'⟩
  · constructor
    · simp [stock, init, tally, Pc.unpushed, Pc.fresh, Cache.new]
    · simp [stock, init, tally, Stock.demand, Pc.wanted]

/-- **The virtines a cache makes.** However the threads' statements
interleave, never more virtines are allocated than the largest demand so far,
and exactly as many as that while no `ensure` is in progress. -/
theorem allocated_eq_peak {memsz size start : BitVec 64} {binary : Option (Nat → UInt8)}
    {ts : List T} {s : Threads T S F} (h : Run Step (init memsz size start binary) ts s) :
    ∃ n, Run Peaked (init memsz size start binary, 0) ts (s, n) ∧ s.allocated ≤ n ∧
      ((∀ t, (s.pc t).wanted = 0) → s.allocated = n) := by
  have hfollow : ∀ (s : Threads T S F) t s' (n : Nat), True → Step s t s' →
      ∃ n', n' = max n s'.demand ∧ True := fun _ _ _ _ _ _ => ⟨_, rfl, trivial⟩
  obtain ⟨n, hrun, -⟩ := Run.forward hfollow h (b := 0) trivial
  obtain ⟨hI, -, hpeaks⟩ := Peaked.peaks hrun
  have hpeak := hpeaks.peak
  have hmade := hI.made_eq
  refine ⟨n, hrun, ?_, fun hidle => ?_⟩
  · rw [hpeak]
    exact Nat.le_max_left ..
  · have hwanted : s.tally Pc.wanted = 0 := Finset.sum_eq_zero fun t _ => hidle t
    rw [hI.demand_eq, demand, hwanted] at hpeak
    show s.stock.made = n
    omega

end

/-- Two threads, one after the other: one virtine is enough. -/
theorem one_virtine_suffices : ∃ (ts : List Bool) (s : Threads Bool Unit Unit),
    Run Peaked (init 4096 0 0x8000 none, 0) ts (s, 1) ∧ s.gets = 2 ∧ s.held false ≠ [] := by
  obtain ⟨ts, s, hrun, hgets, hheld, hone, hidle⟩ :
      ∃ (ts : List Bool) (s : Threads Bool Unit Unit),
        Run Step (init 4096 0 0x8000 none) ts s ∧ s.gets = 2 ∧ s.held false ≠ [] ∧
        s.allocated = 1 ∧ ∀ t, s.pc t = .idle :=
    ⟨[true, true, true, true, true, true, true, true, true, true, true,
        false, false, false, false, false, false, false], _,
      .cons (.callGet rfl) <| .cons (.acquire rfl rfl) <| .cons (.getEmpty rfl rfl) <|
        .cons (.getMiss rfl) <|
        .cons (.getAllocate rfl (show Cache.allocate _ plainKvm = _ from rfl)) <|
        .cons (.release rfl) <| .cons (.callPut rfl List.mem_cons_self) <|
        .cons (.reset rfl (show _ = [] ++ _ :: _ from rfl) rfl) <| .cons (.acquire rfl rfl) <|
        .cons (.putPush rfl (show _ = [] ++ _ :: _ from rfl)) <| .cons (.release rfl) <|
        .cons (.callGet rfl) <| .cons (.acquire rfl rfl) <|
        .cons (.getFull rfl (by simp [goto, hold, setLocked])) <| .cons (.getHit rfl) <|
        .cons (.getFront rfl rfl) <| .cons (.getPop rfl) <| .cons (.release rfl) <| .nil _,
      rfl, by simp [goto, hold, setLocked], rfl, fun t => by cases t <;> rfl⟩
  obtain ⟨n, hpeaked, -, hpeak⟩ := allocated_eq_peak hrun
  have hn : 1 = n := hone ▸ hpeak fun t => by rw [hidle t]; rfl
  exact ⟨ts, s, hn ▸ hpeaked, hgets, hheld⟩

end Threads

end Wasp
