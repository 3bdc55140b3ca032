import Mathlib.Data.List.Basic

/-!
# Toolchain — from the stripped module to a flat image

`VirtineCompiler::compile` (`pass/VirtineCompiler.cpp`) prints its module
into a file and runs `llc`, `nasm`, `ld` and `objcopy` on files whose names
it makes from the name of the function. The tools are parameters, each a
partial function from what its inputs hold to its output; one that fails
leaves its output file as it was, and `compile` does not look at the exit
codes.

The names are made by `snprintf` into a buffer of 50 bytes.
-/

namespace Wasp

namespace Toolchain

abbrev Path := List Char

/-- `FMT(50, ...)`: 49 bytes and the terminating zero. -/
def fmt50 (s : List Char) : Path := s.take 49

/-- The files of one compilation differ in their suffixes. -/
def virtinePath (fname suffix : List Char) : Path :=
  fmt50 ("/tmp/virtine_".toList ++ (fname ++ suffix))

def irPath (fname : List Char) : Path := virtinePath fname ".ll".toList

def objPath (fname : List Char) : Path := virtinePath fname ".o".toList

def rtoPath (fname : List Char) : Path := virtinePath fname ".rt.o".toList

def objFinal (fname : List Char) : Path := virtinePath fname ".final.o".toList

def binFinal (fname : List Char) : Path := virtinePath fname ".final.bin".toList

def runtimeSrc (fname : List Char) : Path :=
  fmt50 ("runtime_".toList ++ (fname ++ ".s".toList))

def runtimeObj (fname : List Char) : Path :=
  fmt50 ("/tmp/runtime_".toList ++ (fname ++ ".s.o".toList))

def bootAsm : Path := "/usr/local/lib/virtine/boot64.asm".toList

def libcPath : Path := "/usr/local/lib/virtine/virtine_libc.a".toList

def libmPath : Path := "/usr/local/lib/virtine/virtine_libm.a".toList

/-- What the files hold; `none` is a file that does not exist. -/
abbrev Files (ω : Type) := Path → Option ω

variable {τ ω : Type}

/-- A tool has run: it has written `p`, or it has failed. -/
def Files.put (fs : Files ω) (p : Path) : Option ω → Files ω
  | some x => fun q => if q = p then some x else fs q
  | none => fs

/-- `print` is `Module::print`, of a module given as what it defines. -/
structure Tools (τ ω : Type) where
  print : τ → ω
  llc : ω → Option ω
  nasm : ω → Option ω
  gcc : ω → Option ω
  ld : List ω → Option ω
  objcopy : ω → Option ω

/-- One input, one output. -/
def Files.exec (fs : Files ω) (tool : ω → Option ω) (input output : Path) : Files ω :=
  fs.put output ((fs input).bind tool)

/-- The first stage of `compile`: the module's object and the boot object. -/
def assemble (tools : Tools τ ω) (fname : List Char) (t : τ) (fs : Files ω) : Files ω :=
  let fs := fs.put (irPath fname) (some (tools.print t))
  let fs := fs.exec tools.llc (irPath fname) (objPath fname)
  fs.exec tools.nasm bootAsm (rtoPath fname)

/-- The second one: a runtime of the function's own, if there is a source
for it. -/
def addRuntime (tools : Tools τ ω) (fname : List Char) (fs : Files ω) : Files ω × List Path :=
  let finalObjects := [rtoPath fname, objPath fname, libcPath, libmPath]
  if (fs (runtimeSrc fname)).isSome then
    (fs.exec tools.gcc (runtimeSrc fname) (runtimeObj fname),
      finalObjects ++ [runtimeObj fname])
  else (fs, finalObjects)

/-- `VirtineCompiler::compile`. A file that cannot be opened in the end is a
crash (`none`). -/
def compile (tools : Tools τ ω) (fname : List Char) (t : τ) (fs : Files ω) :
    Option ω × Files ω :=
  let (fs, finalObjects) := addRuntime tools fname (assemble tools fname t fs)
  let fs := fs.put (objFinal fname) ((finalObjects.mapM fs).bind tools.ld)
  let fs := fs.exec tools.objcopy (objFinal fname) (binFinal fname)
  (fs (binFinal fname), fs)

/-! ## Names -/

theorem virtinePath_eq (fname suffix : List Char) :
    virtinePath fname suffix = "/tmp/virtine_".toList ++ (fname ++ suffix).take 36 := rfl

/-- Two bytes of the suffix are left after a name of at most 34. -/
theorem virtinePath_short {fname : List Char} (h : fname.length < 35) (suffix : List Char) :
    ∃ k, virtinePath fname suffix =
      "/tmp/virtine_".toList ++ (fname ++ suffix.take (k + 2)) := by
  refine ⟨34 - fname.length, ?_⟩
  rw [virtinePath_eq, List.take_append, List.take_of_length_le (by omega)]
  congr 3
  omega

/-- At most one byte of the suffix is left after a name of at least 35, and
they all begin with a dot. -/
theorem virtinePath_long {fname : List Char} (h : 35 ≤ fname.length) (s s' : List Char) :
    virtinePath fname ('.' :: s) = virtinePath fname ('.' :: s') := by
  rw [virtinePath_eq, virtinePath_eq, List.take_append, List.take_append]
  congr 2
  rcases Nat.eq_or_lt_of_le h with h | h
  · rw [← h]
    rfl
  · rw [show 36 - fname.length = 0 by omega]
    rfl

/-- **The buffer**: from 35 bytes on the two objects have one name. -/
theorem objPath_eq_rtoPath_iff {fname : List Char} :
    objPath fname = rtoPath fname ↔ 35 ≤ fname.length := by
  constructor
  · intro heq
    by_contra hlt
    have hshort : fname.length < 35 := by omega
    obtain ⟨k, hobj⟩ := virtinePath_short hshort ".o".toList
    obtain ⟨k', hrto⟩ := virtinePath_short hshort ".rt.o".toList
    rw [objPath, rtoPath, hobj, hrto] at heq
    simp at heq
  · intro h
    exact virtinePath_long h _ _

/-- The files that a compilation writes. -/
def UnderTmp (p : Path) : Prop := "/tmp/".toList <+: p

theorem virtinePath_underTmp (fname suffix : List Char) :
    UnderTmp (virtinePath fname suffix) := ⟨"virtine_".toList ++ _, rfl⟩

theorem runtimeObj_underTmp (fname : List Char) : UnderTmp (runtimeObj fname) :=
  ⟨"runtime_".toList ++ _, rfl⟩

theorem runtimeSrc_not_underTmp (fname : List Char) : ¬ UnderTmp (runtimeSrc fname) := by
  rintro ⟨rest, h⟩
  cases h

/-- A runtime object never has the name of another file. -/
theorem virtinePath_ne_runtimeObj (fname suffix fname' : List Char) :
    virtinePath fname suffix ≠ runtimeObj fname' := by
  intro h
  have hobj : runtimeObj fname' =
      "/tmp/runtime_".toList ++ (fname' ++ ".s.o".toList).take 36 := rfl
  have hlen : "/tmp/virtine_".toList.length = "/tmp/runtime_".toList.length := by decide
  have hne : "/tmp/virtine_".toList ≠ "/tmp/runtime_".toList := by decide
  rw [virtinePath_eq, hobj] at h
  exact hne (List.append_inj_left h hlen)

/-! ## What `compile` returns -/

@[simp] theorem Files.put_self (fs : Files ω) (p : Path) (x : ω) :
    fs.put p (some x) p = some x := if_pos rfl

theorem Files.put_other {fs : Files ω} {p q : Path} (h : q ≠ p) (x : Option ω) :
    fs.put p x q = fs q := by
  cases x with
  | none => rfl
  | some x => exact if_neg h

theorem Files.put_outside {fs : Files ω} {p q : Path} (hp : UnderTmp p) (hq : ¬ UnderTmp q)
    (x : Option ω) : fs.put p x q = fs q := by
  apply Files.put_other
  rintro rfl
  exact hq hp

theorem bootAsm_not_underTmp : ¬ UnderTmp bootAsm := by
  unfold UnderTmp bootAsm
  decide

theorem assemble_outside (tools : Tools τ ω) (fname : List Char) (t : τ) (fs : Files ω)
    {q : Path} (hq : ¬ UnderTmp q) : assemble tools fname t fs q = fs q := by
  have hv : ∀ suffix (fs : Files ω) x, fs.put (virtinePath fname suffix) x q = fs q :=
    fun suffix fs x => Files.put_outside (virtinePath_underTmp fname suffix) hq x
  simp only [assemble, Files.exec, irPath, objPath, rtoPath, hv]

/-- Nothing outside `/tmp` is written. -/
theorem compile_outside (tools : Tools τ ω) (fname : List Char) (t : τ) (fs : Files ω)
    {q : Path} (hq : ¬ UnderTmp q) : (compile tools fname t fs).2 q = fs q := by
  have hv : ∀ suffix (fs : Files ω) x, fs.put (virtinePath fname suffix) x q = fs q :=
    fun suffix fs x => Files.put_outside (virtinePath_underTmp fname suffix) hq x
  have hrt : ∀ fs : Files ω, (addRuntime tools fname fs).1 q = fs q := by
    intro fs
    unfold addRuntime
    split
    · exact Files.put_outside (runtimeObj_underTmp fname) hq _
    · rfl
  have hasm := assemble_outside tools fname t fs hq
  simp only [compile, Files.exec, objFinal, binFinal, hv, hrt, hasm]

/-- The object that is linked in the place of the module's own. -/
def Tools.linkedObj (fname : List Char) (boot obj : ω) : ω :=
  if objPath fname = rtoPath fname then boot else obj

/-- `llc` reads what has just been printed, and `nasm` a file that is not
written. -/
theorem assemble_eq (tools : Tools τ ω) (fname : List Char) (t : τ) (fs : Files ω) :
    assemble tools fname t fs =
      ((fs.put (irPath fname) (some (tools.print t))).put (objPath fname)
        (tools.llc (tools.print t))).put (rtoPath fname) ((fs bootAsm).bind tools.nasm) := by
  have hb : ∀ x, ((fs.put (irPath fname) (some (tools.print t))).put (objPath fname) x)
      bootAsm = fs bootAsm := by
    intro x
    rw [irPath, objPath, Files.put_outside (virtinePath_underTmp _ _) bootAsm_not_underTmp,
      Files.put_outside (virtinePath_underTmp _ _) bootAsm_not_underTmp]
  simp only [assemble, Files.exec, Files.put_self, Option.bind_some, hb]

/-- **The first stage**: `nasm` writes over the module's object where the
two have one name. -/
theorem assemble_objects {tools : Tools τ ω} (fname : List Char) {t : τ} {fs : Files ω}
    {boot obj : ω} (hboot : (fs bootAsm).bind tools.nasm = some boot)
    (hobj : tools.llc (tools.print t) = some obj) :
    assemble tools fname t fs (rtoPath fname) = some boot ∧
      assemble tools fname t fs (objPath fname) = some (Tools.linkedObj fname boot obj) := by
  rw [assemble_eq, hobj, hboot]
  refine ⟨Files.put_self _ _ _, ?_⟩
  unfold Tools.linkedObj
  by_cases h : objPath fname = rtoPath fname
  · rw [if_pos h, h, Files.put_self]
  · rw [if_neg h, Files.put_other h, Files.put_self]

theorem Files.put_isSome {fs : Files ω} {q : Path} (h : (fs q).isSome) (p : Path)
    (x : Option ω) : (fs.put p x q).isSome := by
  by_cases hq : q = p
  · subst hq
    cases x with
    | none => exact h
    | some x =>
        rw [Files.put_self]
        rfl
  · rw [Files.put_other hq]
    exact h

-- the pass knows `compile` by these lemmas only
attribute [irreducible] compile

end Toolchain

end Wasp
