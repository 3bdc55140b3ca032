import Mathlib.Data.List.Basic
import Wasp.Lib.Run
import Wasp.Pass.Toolchain

/-!
# Freshness — a compilation after other compilations

The intermediate files stay in `/tmp` when `VirtineCompiler::compile` is
done, and the next compilation of a function of that name uses the same
paths. `ck::exec` hands back how each tool ended (`Exits`), `compile` drops
it: a tool that fails leaves the file of an earlier run for the next tool to
read.
-/

namespace Wasp

namespace Toolchain

variable {τ ω : Type}

/-- How the tools of one run end. `gcc` runs if there is a runtime source. -/
structure Exits where
  llc : Bool
  nasm : Bool
  gcc : Option Bool
  ld : Bool
  objcopy : Bool
  deriving DecidableEq, Repr

section Stages

variable (tools : Tools τ ω) (fname : List Char) (t : τ) (fs : Files ω)

/-- The files and the objects to link before `ld`. -/
def compiled : Files ω × List Path := addRuntime tools fname (assemble tools fname t fs)

/-- What `ld` is given, if all of it is there. -/
def linkObjects : Option (List ω) :=
  (compiled tools fname t fs).2.mapM (compiled tools fname t fs).1

/-- The files after `ld`. -/
def linkedFiles : Files ω :=
  (compiled tools fname t fs).1.put (objFinal fname)
    ((linkObjects tools fname t fs).bind tools.ld)

def exits : Exits where
  llc := (tools.llc (tools.print t)).isSome
  nasm := ((fs bootAsm).bind tools.nasm).isSome
  gcc := (fs (runtimeSrc fname)).map fun src => (tools.gcc src).isSome
  ld := ((linkObjects tools fname t fs).bind tools.ld).isSome
  objcopy := ((linkedFiles tools fname t fs (objFinal fname)).bind tools.objcopy).isSome

/-- The bytes that `objcopy` produces in this run from what `ld` links in
this run, with the object that `llc` makes of the module in this run in the
place of `obj_path`, the second of the objects. -/
def FromThisRun (img : ω) : Prop :=
  ∃ obj objects linked, tools.llc (tools.print t) = some obj ∧
    linkObjects tools fname t fs = some objects ∧ objects[1]? = some obj ∧
    tools.ld objects = some linked ∧ tools.objcopy linked = some img

/-- There is no way for `compile` to report a failure but to crash. -/
def NeverStale : Prop :=
  ∀ img, (compile tools fname t fs).1 = some img → FromThisRun tools fname t fs img

theorem compile_stages : compile tools fname t fs =
    (((linkedFiles tools fname t fs).exec tools.objcopy (objFinal fname) (binFinal fname))
        (binFinal fname),
      (linkedFiles tools fname t fs).exec tools.objcopy (objFinal fname) (binFinal fname)) := by
  rw [compile]
  rfl

end Stages

/-- A compilation that was made: by which tools, of what. -/
structure Compilation (τ ω : Type) where
  tools : Tools τ ω
  fname : List Char
  unit : τ

def Compilation.Step (fs : Files ω) (c : Compilation τ ω) (fs' : Files ω) : Prop :=
  fs' = (compile c.tools c.fname c.unit fs).2

/-- The files after any compilations, with nothing in `/tmp` before them. -/
def LeftByCompilations (τ : Type) {ω : Type} (fs : Files ω) : Prop :=
  ∃ (fs₀ : Files ω) (cs : List (Compilation τ ω)),
    (∀ p, UnderTmp p → fs₀ p = none) ∧ Run Compilation.Step fs₀ cs fs

/-! ## What the link is made of -/

theorem mapM_getElem? {α β : Type} {f : α → Option β} {l : List α} {xs : List β}
    (h : l.mapM f = some xs) (i : Nat) : xs[i]? = l[i]?.bind f := by
  induction l generalizing xs i with
  | nil =>
      cases h
      rfl
  | cons a l ih =>
      rw [List.mapM_cons] at h
      obtain ⟨x, hx, h⟩ := Option.bind_eq_some_iff.mp h
      obtain ⟨ys, hys, h⟩ := Option.bind_eq_some_iff.mp h
      cases h
      cases i with
      | zero => exact hx.symm
      | succ i => exact ih hys i

theorem mapM_isSome {α β : Type} {f : α → Option β} {l : List α}
    (h : ∀ a ∈ l, (f a).isSome) : (l.mapM f).isSome := by
  induction l with
  | nil => rfl
  | cons a l ih =>
      obtain ⟨x, hx⟩ := Option.isSome_iff_exists.mp (h a (List.mem_cons_self ..))
      obtain ⟨xs, hxs⟩ := Option.isSome_iff_exists.mp
        (ih fun b hb => h b (List.mem_cons_of_mem _ hb))
      simp [List.mapM_cons, hx, hxs]

theorem compiled_alone {tools : Tools τ ω} {fname : List Char} (t : τ) {fs : Files ω}
    (h : fs (runtimeSrc fname) = none) : compiled tools fname t fs =
      (assemble tools fname t fs, [rtoPath fname, objPath fname, libcPath, libmPath]) := by
  simp [compiled, addRuntime, assemble_outside, runtimeSrc_not_underTmp, h]

theorem compiled_runtime {tools : Tools τ ω} {fname : List Char} (t : τ) {fs : Files ω} {src : ω}
    (h : fs (runtimeSrc fname) = some src) : compiled tools fname t fs =
      ((assemble tools fname t fs).put (runtimeObj fname) (tools.gcc src),
        [rtoPath fname, objPath fname, libcPath, libmPath, runtimeObj fname]) := by
  simp [compiled, addRuntime, assemble_outside, runtimeSrc_not_underTmp, h, Files.exec]

theorem compiled_virtinePath (tools : Tools τ ω) (fname suffix : List Char) (t : τ)
    (fs : Files ω) : (compiled tools fname t fs).1 (virtinePath fname suffix) =
      assemble tools fname t fs (virtinePath fname suffix) := by
  cases h : fs (runtimeSrc fname) with
  | none => rw [compiled_alone t h]
  | some src =>
      rw [compiled_runtime t h]
      exact Files.put_other (virtinePath_ne_runtimeObj fname suffix fname) _

theorem compiled_module (tools : Tools τ ω) (fname : List Char) (t : τ) (fs : Files ω) :
    (compiled tools fname t fs).2[1]? = some (objPath fname) := by
  cases h : fs (runtimeSrc fname) with
  | none =>
      rw [compiled_alone t h]
      rfl
  | some src =>
      rw [compiled_runtime t h]
      rfl

/-- The second of the objects is what `assemble` leaves in `obj_path`. -/
theorem linkObjects_module {tools : Tools τ ω} {fname : List Char} {t : τ} {fs : Files ω}
    {objects : List ω} (h : linkObjects tools fname t fs = some objects) :
    objects[1]? = assemble tools fname t fs (objPath fname) := by
  rw [mapM_getElem? h 1, compiled_module, Option.bind_some]
  exact compiled_virtinePath tools fname _ t fs

/-- It is the module's own, unless `nasm` writes over it. -/
theorem assemble_module {tools : Tools τ ω} {fname : List Char} {t : τ} {fs : Files ω} {obj : ω}
    (hobj : tools.llc (tools.print t) = some obj)
    (h : fname.length < 35 ∨ (fs bootAsm).bind tools.nasm = none) :
    assemble tools fname t fs (objPath fname) = some obj := by
  cases hboot : (fs bootAsm).bind tools.nasm with
  | none =>
      rw [assemble_eq, hboot, hobj]
      exact Files.put_self _ _ _
  | some boot =>
      rcases h with h | h
      · have hne : objPath fname ≠ rtoPath fname := by
          intro heq
          have := objPath_eq_rtoPath_iff.mp heq
          omega
        rw [(assemble_objects fname hboot hobj).2, Tools.linkedObj, if_neg hne]
      · rw [h] at hboot
        cases hboot

/-- Where `llc`, `ld` and `objcopy` succeed, a fitting name gets its own image. -/
theorem neverStale_of_exits {tools : Tools τ ω} {fname : List Char} {t : τ} {fs : Files ω}
    (hllc : (exits tools fname t fs).llc) (hld : (exits tools fname t fs).ld)
    (hcopy : (exits tools fname t fs).objcopy)
    (h : fname.length < 35 ∨ (exits tools fname t fs).nasm = false) :
    NeverStale tools fname t fs := by
  intro img himg
  obtain ⟨obj, hobj⟩ := Option.isSome_iff_exists.mp hllc
  obtain ⟨linked, hlinked⟩ := Option.isSome_iff_exists.mp hld
  obtain ⟨objects, hobjects, hlink⟩ := Option.bind_eq_some_iff.mp hlinked
  obtain ⟨img', himg'⟩ := Option.isSome_iff_exists.mp hcopy
  -- both of them have just written their file
  have hfinal : linkedFiles tools fname t fs (objFinal fname) = some linked := by
    rw [linkedFiles, hlinked, Files.put_self]
  have hbin : (compile tools fname t fs).1 = some img' := by
    rw [compile_stages, Files.exec, himg', Files.put_self]
  rw [hfinal, Option.bind_some] at himg'
  rw [hbin, Option.some.injEq] at himg
  subst himg
  refine ⟨obj, objects, linked, hobj, hobjects, ?_, hlink, himg'⟩
  rw [linkObjects_module hobjects]
  apply assemble_module hobj
  exact h.imp_right fun hn => Option.isNone_iff_eq_none.mp (Option.isSome_eq_false_iff.mp hn)

/-! ## Files that earlier runs leave -/

/-- No file is ever removed. -/
theorem compiled_keeps {tools : Tools τ ω} {fname : List Char} {t : τ} {fs : Files ω} {q : Path}
    (h : (assemble tools fname t fs q).isSome) : ((compiled tools fname t fs).1 q).isSome := by
  cases hsrc : fs (runtimeSrc fname) with
  | none =>
      rw [compiled_alone t hsrc]
      exact h
  | some src =>
      rw [compiled_runtime t hsrc]
      exact Files.put_isSome h _ _

theorem assemble_keeps {tools : Tools τ ω} {fname : List Char} {t : τ} {fs : Files ω} {q : Path}
    (h : (fs q).isSome) : (assemble tools fname t fs q).isSome :=
  Files.put_isSome (Files.put_isSome (Files.put_isSome h _ _) _ _) _ _

theorem linkedFiles_keeps {tools : Tools τ ω} {fname : List Char} {t : τ} {fs : Files ω}
    {q : Path} (h : ((compiled tools fname t fs).1 q).isSome) :
    (linkedFiles tools fname t fs q).isSome := Files.put_isSome h _ _

theorem compile_keeps {tools : Tools τ ω} {fname : List Char} {t : τ} {fs : Files ω} {q : Path}
    (h : (linkedFiles tools fname t fs q).isSome) :
    ((compile tools fname t fs).2 q).isSome := by
  rw [compile_stages]
  exact Files.put_isSome h _ _

/-- Tools that end as `e` says, on whatever they are given. What `llc` makes
is told from what the others make. -/
def Exits.tools (e : Exits) : Tools Unit Bool where
  print _ := true
  llc _ := if e.llc then some true else none
  nasm _ := if e.nasm then some false else none
  gcc _ := if e.gcc = some true then some false else none
  ld _ := if e.ld then some false else none
  objcopy _ := if e.objcopy then some false else none

instance : DecidablePred UnderTmp := fun p => inferInstanceAs (Decidable ("/tmp/".toList <+: p))

/-- The files that the tools read, with a runtime source if `gcc` is to run. -/
def Exits.sources (e : Exits) (fname : List Char) : Files Bool := fun p =>
  if UnderTmp p ∨ (p = runtimeSrc fname ∧ ¬ e.gcc.isSome) then none else some false

/-- Each tool of `e` that fails has a file of an earlier run to leave. -/
structure Exits.Ready (e : Exits) (fname : List Char) (fs : Files Bool) : Prop where
  sources : ∀ q, ¬ UnderTmp q → fs q = e.sources fname q
  obj : e.llc ∨ (fs (objPath fname)).isSome
  rto : e.nasm ∨ (fs (rtoPath fname)).isSome
  runtime : e.gcc = some false → (fs (runtimeObj fname)).isSome
  linked : e.ld ∨ (fs (objFinal fname)).isSome
  image : e.objcopy ∨ (fs (binFinal fname)).isSome

theorem Files.put_present {fs : Files ω} {p : Path} {x : Option ω}
    (h : x.isSome ∨ (fs p).isSome) : (fs.put p x p).isSome := by
  cases x with
  | some x =>
      rw [Files.put_self]
      rfl
  | none => exact h.resolve_left (by simp)

namespace Exits

variable {e : Exits} {fname : List Char} {fs : Files Bool}

theorem sources_underTmp (e : Exits) (fname : List Char) {p : Path} (h : UnderTmp p) :
    e.sources fname p = none := if_pos (.inl h)

theorem sources_given (e : Exits) (fname : List Char) {p : Path} (h : ¬ UnderTmp p)
    (hp : p ≠ runtimeSrc fname) : e.sources fname p = some false := by
  simp [sources, h, hp]

theorem sources_runtimeSrc (e : Exits) (fname : List Char) :
    e.sources fname (runtimeSrc fname) = e.gcc.map fun _ => false := by
  cases hg : e.gcc <;> simp [sources, runtimeSrc_not_underTmp, hg]

theorem lib_ne_runtimeSrc {p : Path} (h : p ∈ [bootAsm, libcPath, libmPath])
    (fname : List Char) : p ≠ runtimeSrc fname := by
  have hroot : ∀ p ∈ [bootAsm, libcPath, libmPath], p.head? = some '/' := by decide
  have hhere : (runtimeSrc fname).head? = some 'r' := rfl
  intro heq
  have hp := hroot p h
  rw [heq, hhere] at hp
  cases hp

theorem Ready.lib (h : e.Ready fname fs) {p : Path} (hp : p ∈ [bootAsm, libcPath, libmPath]) :
    fs p = some false := by
  have hout : ∀ p ∈ [bootAsm, libcPath, libmPath], ¬ UnderTmp p := by decide
  rw [h.sources p (hout p hp), sources_given e fname (hout p hp) (lib_ne_runtimeSrc hp fname)]

theorem Ready.runtimeSrc (h : e.Ready fname fs) :
    fs (Toolchain.runtimeSrc fname) = e.gcc.map fun _ => false := by
  rw [h.sources _ (runtimeSrc_not_underTmp fname), sources_runtimeSrc]

theorem Ready.assembled (h : e.Ready fname fs) {p : Path}
    (hp : p ∈ [rtoPath fname, objPath fname, libcPath, libmPath]) :
    (assemble e.tools fname () fs p).isSome := by
  simp only [List.mem_cons, List.not_mem_nil, or_false] at hp
  rcases hp with rfl | rfl | rfl | rfl
  · rw [assemble_eq]
    apply Files.put_present
    rcases h.rto with hn | hf
    · left
      simp [h.lib, tools, hn]
    · right
      exact Files.put_isSome (Files.put_isSome hf _ _) _ _
  · rw [assemble_eq]
    apply Files.put_isSome
    apply Files.put_present
    rcases h.obj with hl | hf
    · left
      simp [tools, hl]
    · right
      exact Files.put_isSome hf _ _
  · apply assemble_keeps
    simp [h.lib]
  · apply assemble_keeps
    simp [h.lib]

/-- All that is to be linked is there. -/
theorem Ready.objects (h : e.Ready fname fs) :
    ∀ p ∈ (compiled e.tools fname () fs).2, ((compiled e.tools fname () fs).1 p).isSome := by
  cases hg : e.gcc with
  | none =>
      rw [compiled_alone () (by rw [h.runtimeSrc, hg]; rfl)]
      intro p hp
      exact h.assembled hp
  | some ok =>
      have hsrc : fs (Toolchain.runtimeSrc fname) = some false := by
        rw [h.runtimeSrc, hg]
        rfl
      intro p hp
      by_cases hrt : p = runtimeObj fname
      · subst hrt
        rw [compiled_runtime () hsrc]
        apply Files.put_present
        cases ok with
        | true =>
            left
            simp [tools, hg]
        | false =>
            right
            exact assemble_keeps (h.runtime hg)
      · apply compiled_keeps
        rw [compiled_runtime () hsrc] at hp
        simp only [List.mem_cons, List.not_mem_nil, or_false, hrt] at hp
        apply h.assembled
        simpa using hp

theorem Ready.links (h : e.Ready fname fs) :
    ((linkObjects e.tools fname () fs).bind e.tools.ld).isSome = e.ld := by
  obtain ⟨objects, hobjects⟩ := Option.isSome_iff_exists.mp (mapM_isSome h.objects)
  rw [linkObjects, hobjects]
  cases hld : e.ld <;> simp [tools, hld]

theorem Ready.linkedFile (h : e.Ready fname fs) :
    (linkedFiles e.tools fname () fs (objFinal fname)).isSome := by
  apply Files.put_present
  rw [h.links]
  exact h.linked.imp_right fun hf => compiled_keeps (assemble_keeps hf)

/-- **Every combination occurs**: the tools of `e` end as `e` says. -/
theorem Ready.exits_eq (h : e.Ready fname fs) : exits e.tools fname () fs = e := by
  have hcopy : ((linkedFiles e.tools fname () fs (objFinal fname)).bind
      e.tools.objcopy).isSome = e.objcopy := by
    obtain ⟨x, hx⟩ := Option.isSome_iff_exists.mp h.linkedFile
    rw [hx]
    cases ho : e.objcopy <;> simp [tools, ho]
  rw [exits, h.links, hcopy, h.lib (by simp), h.runtimeSrc]
  obtain ⟨llc, nasm, gcc, ld, objcopy⟩ := e
  cases llc <;> cases nasm <;> rcases gcc with - | - | - <;> rfl

theorem Ready.returns (h : e.Ready fname fs) : (compile e.tools fname () fs).1.isSome := by
  rw [compile_stages]
  apply Files.put_present
  have hcopy := congrArg Exits.objcopy h.exits_eq
  rcases h.image with ho | hf
  · left
    exact hcopy.trans ho
  · right
    exact linkedFiles_keeps (compiled_keeps (assemble_keeps hf))

/-- After a run in which all went well any other can fail anywhere. -/
theorem Ready.after {e' : Exits} (h : e.Ready fname fs) (hgcc : e'.gcc.isSome = e.gcc.isSome) :
    e'.Ready fname (compile e.tools fname () fs).2 where
  sources q hq := by
    rw [compile_outside e.tools fname () fs hq, h.sources q hq]
    simp only [Exits.sources, hgcc]
  obj := .inr <| by
    apply compile_keeps
    apply linkedFiles_keeps
    exact compiled_keeps (h.assembled (by simp))
  rto := .inr <| by
    apply compile_keeps
    apply linkedFiles_keeps
    exact compiled_keeps (h.assembled (by simp))
  runtime hfail := by
    have hsome : e.gcc.isSome := by
      rw [← hgcc, hfail]
      rfl
    obtain ⟨ok, hok⟩ := Option.isSome_iff_exists.mp hsome
    apply compile_keeps
    apply linkedFiles_keeps
    apply h.objects
    rw [compiled_runtime () (by rw [h.runtimeSrc, hok]; rfl)]
    simp
  linked := .inr (compile_keeps h.linkedFile)
  image := .inr <| by
    have hret := h.returns
    rw [compile_stages] at hret ⊢
    exact hret

/-- The run before, in which all went well. -/
def ok (e : Exits) : Exits := ⟨true, true, e.gcc.map fun _ => true, true, true⟩

theorem ok_ready (e : Exits) (fname : List Char) : e.ok.Ready fname (e.ok.sources fname) where
  sources _ _ := rfl
  obj := .inl rfl
  rto := .inl rfl
  runtime h := by
    cases hg : e.gcc <;> simp [ok, hg] at h
  linked := .inl rfl
  image := .inl rfl

/-- The files of the function after that run. -/
def oldFiles (e : Exits) (fname : List Char) : Files Bool :=
  (compile e.ok.tools fname () (e.ok.sources fname)).2

theorem oldFiles_ready (e : Exits) (fname : List Char) : e.Ready fname (e.oldFiles fname) :=
  (e.ok_ready fname).after (by simp [ok])

theorem oldFiles_left (e : Exits) (fname : List Char) :
    LeftByCompilations Unit (e.oldFiles fname) :=
  ⟨e.ok.sources fname, [⟨e.ok.tools, fname, ()⟩],
    fun _ hp => e.ok.sources_underTmp fname hp, .single rfl⟩

/-- What such a run returns is not of this run if one of three tools fails
or `nasm` writes over the module's object. -/
theorem oldFiles_exact {e : Exits} {fname : List Char}
    (h : NeverStale e.tools fname () (e.oldFiles fname)) :
    e.llc ∧ e.ld ∧ e.objcopy ∧ (fname.length < 35 ∨ e.nasm = false) := by
  have hready := e.oldFiles_ready fname
  obtain ⟨img, himg⟩ := Option.isSome_iff_exists.mp hready.returns
  obtain ⟨obj, objects, linked, hobj, hobjects, hsecond, hlink, hcopy⟩ := h img himg
  have hllc : e.llc := by
    by_contra hfail
    simp [tools, hfail] at hobj
  refine ⟨hllc, ?_, ?_, ?_⟩
  · by_contra hfail
    simp [tools, hfail] at hlink
  · by_contra hfail
    simp [tools, hfail] at hcopy
  · by_contra hboth
    rw [not_or, Nat.not_lt, Bool.not_eq_false] at hboth
    obtain ⟨hlong, hnasm⟩ := hboth
    have hboot : (e.oldFiles fname bootAsm).bind e.tools.nasm = some false := by
      rw [hready.lib (by simp)]
      simp [tools, hnasm]
    rw [linkObjects_module hobjects, (assemble_objects fname hboot hobj).2, Tools.linkedObj,
      if_pos (objPath_eq_rtoPath_iff.mpr hlong)] at hsecond
    simp [tools, hllc] at hobj
    rw [hobj] at hsecond
    cases hsecond

end Exits

/-- **No stale image.** For every name and every way the tools may end: what
`compile` returns after any earlier compilations is always this run's image
of this module exactly when `llc`, `ld` and `objcopy` succeed and `nasm` does
not write over the module's object, as it does from 35 bytes of name on. -/
theorem compile_never_stale_iff (fname : List Char) (e : Exits) :
    (∀ (τ ω : Type) (tools : Tools τ ω) (t : τ) (fs : Files ω), LeftByCompilations τ fs →
      exits tools fname t fs = e → NeverStale tools fname t fs) ↔
    e.llc ∧ e.ld ∧ e.objcopy ∧ (fname.length < 35 ∨ e.nasm = false) := by
  constructor
  · intro h
    exact Exits.oldFiles_exact
      (h Unit Bool e.tools () _ (e.oldFiles_left fname) (e.oldFiles_ready fname).exits_eq)
  · rintro ⟨hllc, hld, hcopy, hname⟩ τ ω tools t fs - rfl
    exact neverStale_of_exits hllc hld hcopy hname

/-- A module is its version, and so are its object and its image. -/
def versionTools (llcOk : Bool) : Tools Nat Nat where
  print t := t
  llc x := if llcOk then some x else none
  nasm _ := some 0
  gcc := some
  ld objects := objects[1]?
  objcopy := some

def versionSources : Files Nat := fun p =>
  if UnderTmp p ∨ p = runtimeSrc "fib".toList then none else some 0

/-- `llc` fails on the second version: the image of the first one is returned. -/
theorem compile_returns_first_version :
    (compile (versionTools false) "fib".toList 2
      (compile (versionTools true) "fib".toList 1 versionSources).2).1 = some 1 ∧
    ¬ NeverStale (versionTools false) "fib".toList 2
      (compile (versionTools true) "fib".toList 1 versionSources).2 := by
  have hold : (compile (versionTools false) "fib".toList 2
      (compile (versionTools true) "fib".toList 1 versionSources).2).1 = some 1 := by
    decide +kernel
  refine ⟨hold, fun h => ?_⟩
  obtain ⟨obj, objects, linked, hobj, -⟩ := h 1 hold
  cases hobj

end Toolchain

end Wasp
