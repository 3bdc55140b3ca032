import Wasp.Runtime.Calls

/-!
# Images — calls for different images

The threads in `wasp_run_virtine` share one map of caches and one
`virtine_cache_lock`, whatever image they run. Each cache is still used by
the calls for its own image only: leaving out all other calls, with the
caches they made and the time they held `virtine_cache_lock`, leaves a run of
the same program. So what a process can do with one image does not depend on
the other images in it.
-/

namespace Wasp

variable {T S F : Type}

/-! ## The part of one image -/

/-- The cache of `code` alone. -/
def Caches.only (caches : Caches S F) (code : BitVec 64) : Caches S F :=
  fun k => if k = code then caches k else none

/-- The image of the call that a thread is in. -/
def Stage.code : Stage S F → Option (BitVec 64)
  | .enter call | .lookup call => some call.code
  | p => p.known

/-- A thread is left where it is if it is in a call for `code`. -/
def Stage.only (code : BitVec 64) (p : Stage S F) : Stage S F :=
  if p.code = some code then p else .idle

/-- `virtine_cache_lock`, if a call for `code` holds it. -/
def ownMutex (code : BitVec 64) (m : Option T) (stage : T → Stage S F) : Option T :=
  m.filter fun t => (stage t).code = some code

def Calls.only (s : Calls T S F) (code : BitVec 64) : Calls T S F where
  caches := s.caches.only code
  mutex := ownMutex code s.mutex s.stage
  stage t := (s.stage t).only code

section

variable {caches : Caches S F} {code k : BitVec 64} {c : Cache S F}

theorem Caches.only_self : caches.only code code = caches code := if_pos rfl

theorem Caches.only_set_self :
    (caches.set code c).only code = (caches.only code).set code c := by
  funext k
  by_cases h : k = code
  · simp [Caches.only, Caches.set, h]
  · simp [Caches.only, Caches.set, h]

theorem Caches.only_set_other (h : k ≠ code) :
    (caches.set k c).only code = caches.only code := by
  funext k'
  by_cases h' : k' = code
  · simp [Caches.only, Caches.set, h', Ne.symm h]
  · simp [Caches.only, h']

theorem Caches.getCache_only (call : Call) :
    (caches.only call.code).getCache call = caches.getCache call := by
  simp only [Caches.getCache, Caches.only_self]

end

/-! ## What an action concerns -/

/-- The action is on no cache but that of `k`. -/
def Act.On (k : Option (BitVec 64)) : Act S F → Prop
  | .quiet | .lockMutex | .unlockMutex => True
  | .getCache call => k = some call.code
  | .lockCache code | .unlockCache code | .use code _ _ => k = some code

/-- The holder of `virtine_cache_lock` after an action of `t`. -/
def Act.mutexAfter (t : T) (m : Option T) : Act S F → Option T
  | .lockMutex => some t
  | .unlockMutex => none
  | _ => m

section

variable {p p' : Stage S F} {a : Act S F}

theorem Stage.Next.on (h : p.Next a p') : a.On p.code := by
  cases h <;> trivial

/-- A call stays with its image until it ends. -/
theorem Stage.Next.code_cases (h : p.Next a p') :
    p'.code = p.code ∨ (p = .idle ∧ a = .quiet ∧ ∃ call, p' = .enter call) ∨
      (p' = .threw ∧ p.mutex = false) ∨ (p' = .idle ∧ (a = .unlockMutex ∨ p = .threw)) := by
  cases h with
  | call => exact .inr (.inl ⟨rfl, rfl, _, rfl⟩)
  | throw _ _ => exact .inr (.inr (.inl ⟨rfl, rfl⟩))
  | done => exact .inr (.inr (.inr ⟨rfl, .inl rfl⟩))
  | caught => exact .inr (.inr (.inr ⟨rfl, .inr rfl⟩))
  | _ => exact .inl rfl

end

namespace Binding.Do

variable {s b : Binding T S F} {t : T} {a : Act S F} {code : BitVec 64}

theorem mutex_eq (h : s.Do t a b) : b.mutex = a.mutexAfter t s.mutex := by
  cases h <;> rfl

/-- An action on the cache of `code` needs no other cache. -/
theorem own (h : s.Do t a b) (hon : a.On (some code)) {m : Option T}
    (hm : a = .lockMutex → m = none) :
    Do ⟨s.caches.only code, m⟩ t a ⟨b.caches.only code, a.mutexAfter t m⟩ := by
  cases h with
  | quiet => exact .quiet
  | lockMutex _ =>
      rw [hm rfl]
      exact .lockMutex rfl
  | unlockMutex => exact .unlockMutex
  | getCache =>
      cases hon
      rw [Caches.only_set_self, ← Caches.getCache_only]
      exact .getCache
  | lockCache hc hl =>
      cases hon
      rw [Caches.only_set_self]
      exact .lockCache (Caches.only_self.trans hc) hl
  | unlockCache hc =>
      cases hon
      rw [Caches.only_set_self]
      exact .unlockCache (Caches.only_self.trans hc)
  | use hc =>
      cases hon
      rw [Caches.only_set_self]
      exact .use (Caches.only_self.trans hc)

/-- An action on another cache leaves that of `code`. -/
theorem foreign (h : s.Do t a b) {k : Option (BitVec 64)} (hon : a.On k)
    (hk : k ≠ some code) : b.caches.only code = s.caches.only code := by
  cases h with
  | quiet | lockMutex _ | unlockMutex => rfl
  | getCache | lockCache _ _ | unlockCache _ | use _ =>
      cases hon
      exact Caches.only_set_other fun h => hk (congrArg some h)

end Binding.Do

/-! ## The mutex -/

section

variable [DecidableEq T] {code : BitVec 64} {m m' : Option T} {stage : T → Stage S F} {t : T}
  {p : Stage S F} {a : Act S F}

/-- A thread that does not hold the lock, or stays with or without `code`. -/
theorem ownMutex_update
    (h : m = some t → (p.code = some code ↔ (stage t).code = some code)) :
    ownMutex code m (Function.update stage t p) = ownMutex code m stage := by
  cases m with
  | none => rfl
  | some u =>
      by_cases hu : u = t
      · subst hu
        simp only [ownMutex, Option.filter_some, Function.update_self, h rfl]
      · simp only [ownMutex, Option.filter_some, Function.update_of_ne hu]

theorem ownMutex_own (hp : (stage t).code = some code) (hm : m' = a.mutexAfter t m)
    (hp' : p.code = some code ∨ m' ≠ some t) :
    ownMutex code m' (Function.update stage t p) =
      a.mutexAfter t (ownMutex code m stage) := by
  subst hm
  have hkeep : ∀ m, p.code = some code ∨ m ≠ some t →
      ownMutex code m (Function.update stage t p) = ownMutex code m stage := fun m h =>
    ownMutex_update fun hm => ⟨fun _ => hp, fun _ => h.resolve_right (not_not_intro hm)⟩
  cases a with
  | unlockMutex => rfl
  | lockMutex =>
      have hcode := hp'.resolve_right (not_not_intro rfl)
      simp [Act.mutexAfter, ownMutex, hcode]
  | quiet | getCache _ | lockCache _ | unlockCache _ | use _ _ _ => exact hkeep m hp'

theorem ownMutex_foreign (hp : (stage t).code ≠ some code) (hp' : p.code ≠ some code)
    (hlock : a = .lockMutex → m = none) (hunlock : a = .unlockMutex → m = some t) :
    ownMutex code (a.mutexAfter t m) (Function.update stage t p) = ownMutex code m stage := by
  have hkeep : ownMutex code m (Function.update stage t p) = ownMutex code m stage :=
    ownMutex_update fun _ => by simp [hp, hp']
  cases a with
  | lockMutex => simp [Act.mutexAfter, ownMutex, hlock rfl, hp']
  | unlockMutex => simp [Act.mutexAfter, ownMutex, Option.filter_some, hunlock rfl, hp]
  | quiet | getCache _ | lockCache _ | unlockCache _ | use _ _ _ => exact hkeep

end

/-! ## A step of the whole process -/

namespace Calls

section

variable {s : Calls T S F} {t : T} {code : BitVec 64}

theorem only_own (hp : (s.stage t).code = some code) : (s.only code).stage t = s.stage t :=
  if_pos hp

theorem only_foreign (hp : (s.stage t).code ≠ some code) : (s.only code).stage t = .idle :=
  if_neg hp

theorem only_init (code : BitVec 64) : (init : Calls T S F).only code = init := by
  have hcaches : (init : Calls T S F).caches.only code = fun _ => none := by
    funext k
    simp [Caches.only, init]
  simp only [only, hcaches]
  rfl

end

section

variable [DecidableEq T] {s s' : Calls T S F} {t : T} {a : Act S F} {p : Stage S F}
  {b : Binding T S F} {code : BitVec 64}

theorem only_update (s : Calls T S F) (t : T) (p : Stage S F) (code : BitVec 64) :
    (fun u => (Function.update s.stage t p u).only code) =
      Function.update (s.only code).stage t (p.only code) := by
  funext u
  by_cases hu : u = t
  · subst hu
    simp only [Function.update_self]
  · simp only [Function.update_of_ne hu]
    rfl

/-- The part of `code` after a step of `t`. -/
theorem only_after (s : Calls T S F) (t : T) (p : Stage S F) (b : Binding T S F)
    (code : BitVec 64) :
    ({ toBinding := b, stage := Function.update s.stage t p } : Calls T S F).only code =
      { caches := b.caches.only code,
        mutex := ownMutex code b.mutex (Function.update s.stage t p),
        stage := Function.update (s.only code).stage t (p.only code) } := by
  rw [← only_update]
  rfl

/-- A statement of a call for `code` is one of the part of `code` too. -/
theorem own_step (hnext : (s.stage t).Next a p) (hdo : s.toBinding.Do t a b)
    (hp : (s.stage t).code = some code) (hp' : p.code = some code ∨ b.mutex ≠ some t) :
    (s.only code).Step t
      { caches := b.caches.only code,
        mutex := ownMutex code b.mutex (Function.update s.stage t p),
        stage := Function.update (s.only code).stage t p } := by
  have hown := hdo.own (hp ▸ hnext.on) (m := (s.only code).mutex) fun ha => by
    cases ha
    cases hdo with
    | lockMutex hfree => simp [only, ownMutex, hfree]
  rw [ownMutex_own hp hdo.mutex_eq hp']
  exact .mk ((only_own hp).symm ▸ hnext) hown

/-- One of a call for another image leaves it. -/
theorem foreign_step (hI : s.Inv) (hnext : (s.stage t).Next a p)
    (hdo : s.toBinding.Do t a b) (hp : (s.stage t).code ≠ some code)
    (hp' : p.code ≠ some code) :
    ({ toBinding := b, stage := Function.update s.stage t p } : Calls T S F).only code =
      s.only code := by
  have hcaches := hdo.foreign hnext.on hp
  have hmutex : ownMutex code b.mutex (Function.update s.stage t p) =
      ownMutex code s.mutex s.stage := by
    rw [hdo.mutex_eq]
    refine ownMutex_foreign hp hp' (fun ha => ?_) fun ha => ?_
    · cases ha
      cases hdo with
      | lockMutex hfree => exact hfree
    · cases ha
      cases hnext.locks with
      | unlockMutex htrue _ _ _ => exact (hI.mutex t).mp htrue
  have hidle : p.only code = (s.only code).stage t := by
    rw [only_foreign hp]
    exact if_neg hp'
  rw [only_after, hcaches, hmutex, hidle, Function.update_eq_self]
  rfl

/-- The start of a call for `code`. -/
theorem call_step (hI : s.Inv) (hp : s.stage t = .idle) {call : Call} :
    (s.only call.code).Step t
      (({ s with stage := Function.update s.stage t (.enter call) } :
        Calls T S F).only call.code) := by
  have hmutex : ownMutex call.code s.mutex (Function.update s.stage t (.enter call)) =
      ownMutex call.code s.mutex s.stage := by
    refine ownMutex_update fun hm => ?_
    have hheld := (hI.mutex t).mpr hm
    rw [hp] at hheld
    cases hheld
  have henter : (Stage.enter call : Stage S F).only call.code = .enter call := if_pos rfl
  rw [only_after, hmutex, henter]
  refine .mk (a := .quiet) (b := (s.only call.code).toBinding) ?_ .quiet
  rw [only_foreign (by rw [hp]; exact nofun)]
  exact .call

theorem caught_step (h : s.stage t = .threw) :
    s.Step t { s with stage := Function.update s.stage t .idle } := by
  refine .mk (a := .quiet) (b := s.toBinding) ?_ .quiet
  rw [h]
  exact .caught

/-- **A step seen from one image**: no step, one, or an exception with its
handler. -/
theorem Step.only_run (h : s.Step t s') (hI : s.Inv) (code : BitVec 64) :
    ∃ ts, Run Step (s.only code) ts (s'.only code) := by
  have hI' := h.inv hI
  cases h with
  | @mk a p b hnext hdo =>
      by_cases hp : (s.stage t).code = some code
      · -- a call that has ended does not hold the lock
        have hends : p.mutex = false → b.mutex ≠ some t := by
          intro hfree hm
          have hheld := (hI'.mutex t).mpr hm
          simp only [Function.update_self, hfree] at hheld
          cases hheld
        rcases hnext.code_cases with hsame | ⟨hidle, -⟩ | ⟨rfl, -⟩ | ⟨rfl, -⟩
        · have hstep := own_step hnext hdo hp (.inl (hsame.trans hp))
          have hown : p.only code = p := if_pos (hsame.trans hp)
          rw [only_after, hown]
          exact ⟨_, .single hstep⟩
        · rw [hidle] at hp
          cases hp
        · have hstep := own_step hnext hdo hp (.inr (hends rfl))
          have hcaught := caught_step (t := t)
            (s := { caches := b.caches.only code,
                    mutex := ownMutex code b.mutex (Function.update s.stage t .threw),
                    stage := Function.update (s.only code).stage t .threw })
            (Function.update_self ..)
          rw [Function.update_idem] at hcaught
          rw [only_after]
          exact ⟨_, .cons hstep (.single hcaught)⟩
        · have hstep := own_step hnext hdo hp (.inr (hends rfl))
          rw [only_after]
          exact ⟨_, .single hstep⟩
      · have hstutter : p.code ≠ some code →
            ∃ ts, Run Step (s.only code) ts
              (({ toBinding := b, stage := Function.update s.stage t p } :
                Calls T S F).only code) := by
          intro hp'
          rw [foreign_step hI hnext hdo hp hp']
          exact ⟨[], .nil _⟩
        rcases hnext.code_cases with hsame | ⟨hidle, rfl, call, rfl⟩ | ⟨rfl, -⟩ | ⟨rfl, -⟩
        · exact hstutter (hsame ▸ hp)
        · by_cases hcode : call.code = code
          · subst hcode
            cases hdo
            exact ⟨_, .single (call_step hI hidle)⟩
          · exact hstutter fun h => hcode (Option.some.inj h)
        · exact hstutter nofun
        · exact hstutter nofun

/-- **Other images are invisible.** Whatever calls a process has made, the
cache of an image and the threads in calls for it are as they can be in a
process that makes no other calls. -/
theorem other_images_invisible {ts : List T} {s : Calls T S F} (h : Run Step init ts s)
    (code : BitVec 64) :
    ∃ (ts' : List T) (s' : Calls T S F), Run Step init ts' s' ∧
      s'.caches code = s.caches code ∧ (∀ k, k ≠ code → s'.caches k = none) ∧
      (∀ t, (s.stage t).code = some code → s'.stage t = s.stage t) ∧
      ∀ t, (s.stage t).code ≠ some code → s'.stage t = .idle := by
  obtain ⟨ts', hrun⟩ := h.image (I := Inv) (f := (only · code))
    (fun s t s' hI hst => ⟨hst.inv hI, hst.only_run hI code⟩) inv_init
  rw [only_init] at hrun
  exact ⟨ts', s.only code, hrun, Caches.only_self, fun k hk => if_neg hk,
    fun t ht => only_own ht, fun t ht => only_foreign ht⟩

end

/-- A call for another image. -/
def otherCall : Call := { shortCall with code := 0x2000 }

/-- One thread has found the cache of its image while another one, in a call
for another image, holds the mutex: the first one could be alone. -/
theorem other_call_invisible : ∃ (ts ts' : List Bool) (s s' : Calls Bool Unit Unit),
    Run Step init ts s ∧ s.mutex = some true ∧ s.stage true = .lookup otherCall ∧
      Run Step init ts' s' ∧ s'.stage true = .idle ∧ s'.stage false = .get shortCall ∧
      s'.caches 0x1000 = s.caches 0x1000 := by
  obtain ⟨s, hrun, hmutex, htrue, hfalse⟩ : ∃ s : Calls Bool Unit Unit,
      Run Step init [false, false, false, false, true, true] s ∧ s.mutex = some true ∧
        s.stage true = .lookup otherCall ∧ s.stage false = .get shortCall :=
    ⟨_, .cons (.mk (@Stage.Next.call _ _ shortCall) .quiet) <|
      .cons (.mk .enter (.lockMutex rfl)) <| .cons (.mk .lookup .getCache) <|
      .cons (.mk .leave .unlockMutex) <|
      .cons (.mk (@Stage.Next.call _ _ otherCall) .quiet) <|
      .cons (.mk .enter (.lockMutex rfl)) <| .nil _, rfl, rfl, rfl⟩
  obtain ⟨ts', s', hrun', hcache, -, hown, hforeign⟩ := other_images_invisible hrun 0x1000
  refine ⟨_, ts', s, s', hrun, hmutex, htrue, hrun', hforeign true ?_, ?_, hcache⟩
  · rw [htrue]
    decide
  · rw [hown false (by rw [hfalse]; rfl), hfalse]

end Calls

end Wasp
