import Mathlib.Data.List.Nodup
import Wasp.Pass.Toolchain

/-!
# Paths — the names of the intermediate files

`VirtineCompiler::compile` keeps its files apart by what it puts after the
name of the function. The buffer of `FMT(50, ...)` has room for 36 bytes of
name and suffix together, so that

* up to 28 bytes every suffix keeps the byte that tells it from the others
  (`cuts`: what can be left of one);
* from 29 bytes on `.final.o` and `.final.bin` are the same;
* a name that ends in `.rt` or `.final` has the object of the name without
  it for its boot object or its linked object.
-/

namespace Wasp

namespace Toolchain

/-- The files that `compile` makes, in the order in which it names them. -/
def paths (fname : List Char) : List Path :=
  [irPath fname, objPath fname, rtoPath fname, objFinal fname, binFinal fname,
    runtimeObj fname]

def suffixes : List (List Char) :=
  [".ll".toList, ".o".toList, ".rt.o".toList, ".final.o".toList, ".final.bin".toList]

/-- What is left of a suffix after a name of at most 28 bytes. -/
def cuts : List (List Char) := suffixes ++ [".final.b".toList, ".final.bi".toList]

/-- The two endings by which a name takes the files of another. -/
def Shadows (f g : List Char) : Prop := ∃ a ∈ [".rt".toList, ".final".toList], g = f ++ a

theorem paths_eq (fname : List Char) :
    paths fname = suffixes.map (virtinePath fname) ++ [runtimeObj fname] := rfl

theorem suffix_cut {s : List Char} (hs : s ∈ suffixes) {k : Nat} (hk : 8 ≤ k) :
    s.take k ∈ cuts := by
  have hlen : ∀ s ∈ suffixes, s.length ≤ 10 := by decide
  have hcut : ∀ k < 10, 8 ≤ k → ∀ s ∈ suffixes, s.take k ∈ cuts := by decide
  by_cases h10 : k < 10
  · exact hcut k h10 hk s hs
  · have hs10 := hlen s hs
    rw [List.take_of_length_le (by omega)]
    exact List.mem_append_left _ hs

/-- Eight bytes tell the suffixes apart. -/
theorem suffix_take_inj {s s' : List Char} (hs : s ∈ suffixes) (hs' : s' ∈ suffixes) {k : Nat}
    (hk : 8 ≤ k) (h : s.take k = s'.take k) : s = s' := by
  have hinj : ∀ s ∈ suffixes, ∀ s' ∈ suffixes, s.take 8 = s'.take 8 → s = s' := by decide
  apply hinj s hs s' hs'
  have h8 := congrArg (List.take 8) h
  rwa [List.take_take, List.take_take, Nat.min_eq_left hk] at h8

/-- One of them ends in another only as `.rt.o` and `.final.o` do in `.o`. -/
theorem cut_suffix {a c c' : List Char} (hc : c ∈ cuts) (hc' : c' ∈ cuts) (h : c = a ++ c') :
    a = [] ∨ a = ".rt".toList ∨ a = ".final".toList := by
  have hcuts : ∀ c ∈ cuts, ∀ c' ∈ cuts, c' <:+ c →
      c = c' ∨ c = ".rt".toList ++ c' ∨ c = ".final".toList ++ c' := by decide
  rcases hcuts c hc c' hc' ⟨a, h.symm⟩ with heq | heq | heq
  · left
    rw [heq] at h
    exact List.self_eq_append_left.mp h
  · right; left
    exact List.append_cancel_right (h.symm.trans heq)
  · right; right
    exact List.append_cancel_right (h.symm.trans heq)

theorem virtinePath_inj {f g s s' : List Char} :
    virtinePath f s = virtinePath g s' ↔ (f ++ s).take 36 = (g ++ s').take 36 := by
  rw [virtinePath_eq, virtinePath_eq, List.append_cancel_left_eq]

theorem take_name {f : List Char} (h : f.length ≤ 28) (s : List Char) :
    (f ++ s).take 36 = f ++ s.take (36 - f.length) := by
  rw [List.take_append, List.take_of_length_le (by omega)]

/-- Names of at most 28 bytes: two files of one name come from names of
which one is the other with `.rt` or `.final` after it. -/
theorem virtinePath_meets {f g s s' : List Char} (hf : f.length ≤ 28) (hg : g.length ≤ 28)
    (hs : s ∈ suffixes) (hs' : s' ∈ suffixes) (h : virtinePath f s = virtinePath g s') :
    f = g ∨ Shadows f g ∨ Shadows g f := by
  rw [virtinePath_inj, take_name hf, take_name hg] at h
  have hc := suffix_cut hs (show 8 ≤ 36 - f.length by omega)
  have hc' := suffix_cut hs' (show 8 ≤ 36 - g.length by omega)
  rcases List.append_eq_append_iff.mp h with ⟨a, rfl, ha⟩ | ⟨a, rfl, ha⟩
  · rcases cut_suffix hc hc' ha with rfl | rfl | rfl
    · exact .inl (List.append_nil f).symm
    · exact .inr (.inl ⟨".rt".toList, by decide, rfl⟩)
    · exact .inr (.inl ⟨".final".toList, by decide, rfl⟩)
  · rcases cut_suffix hc' hc ha with rfl | rfl | rfl
    · exact .inl (List.append_nil g)
    · exact .inr (.inr ⟨".rt".toList, by decide, rfl⟩)
    · exact .inr (.inr ⟨".final".toList, by decide, rfl⟩)

/-- From 29 bytes on the flat image is written over the linked object. -/
theorem objFinal_eq_binFinal {f : List Char} (h : 29 ≤ f.length) : objFinal f = binFinal f := by
  have hfinal : ".final.o".toList.take 7 = ".final.bin".toList.take 7 := by decide
  have hleft : 36 - f.length = min (36 - f.length) 7 := by omega
  rw [objFinal, binFinal, virtinePath_inj, List.take_append, List.take_append, hleft,
    ← List.take_take, ← List.take_take, hfinal]

theorem runtimeObj_inj {f g : List Char} (hf : f.length ≤ 28) (hg : g.length ≤ 28)
    (h : runtimeObj f = runtimeObj g) : f = g := by
  have hobj : ∀ f, runtimeObj f = "/tmp/runtime_".toList ++ (f ++ ".s.o".toList).take 36 :=
    fun _ => rfl
  have hshort : ∀ f : List Char, f.length ≤ 28 →
      ".s.o".toList.take (36 - f.length) = ".s.o".toList := by
    intro f hf
    have hs : ".s.o".toList.length = 4 := by decide
    exact List.take_of_length_le (by omega)
  rw [hobj, hobj, List.append_cancel_left_eq, take_name hf, take_name hg, hshort f hf,
    hshort g hg, List.append_cancel_right_eq] at h
  exact h

/-- **One name**: its files are distinct up to 28 bytes. -/
theorem paths_nodup_iff {f : List Char} : (paths f).Nodup ↔ f.length ≤ 28 := by
  constructor
  · intro hnodup
    by_contra hlong
    have hsame := objFinal_eq_binFinal (f := f) (by omega)
    rw [paths, hsame] at hnodup
    simp at hnodup
  · intro h
    rw [paths_eq, List.nodup_append]
    have hsuffixes : suffixes.Nodup := by decide
    refine ⟨(List.nodup_map_iff_inj_on hsuffixes).mpr ?_, by simp, ?_⟩
    · intro s hs s' hs' heq
      rw [virtinePath_inj, take_name h, take_name h, List.append_cancel_left_eq] at heq
      exact suffix_take_inj hs hs' (by omega) heq
    · intro p hp q hq heq
      obtain ⟨s, -, rfl⟩ := List.mem_map.mp hp
      rw [List.mem_singleton.mp hq] at heq
      exact virtinePath_ne_runtimeObj f s f heq

theorem shadows_irrefl (f : List Char) : ¬ Shadows f f := by
  rintro ⟨a, ha, h⟩
  have hne : ∀ a ∈ [".rt".toList, ".final".toList], a ≠ [] := by decide
  exact hne a ha (List.self_eq_append_right.mp h)

/-- The object of the longer name is a file of the shorter one. -/
theorem Shadows.meets {f g : List Char} (h : Shadows f g) : objPath g ∈ paths f := by
  have hobj : ∀ a, objPath (f ++ a) = virtinePath f (a ++ ".o".toList) := by
    intro a
    rw [objPath, virtinePath_inj, List.append_assoc]
  have hnames : ∀ a ∈ [".rt".toList, ".final".toList], a ++ ".o".toList ∈ suffixes := by decide
  obtain ⟨a, ha, rfl⟩ := h
  rw [hobj, paths_eq]
  exact List.mem_append_left _ (List.mem_map_of_mem (hnames a ha))

theorem objPath_mem_paths (f : List Char) : objPath f ∈ paths f := by
  simp [paths]

/-- **Two names** of at most 28 bytes. -/
theorem paths_disjoint_iff {f g : List Char} (hf : f.length ≤ 28) (hg : g.length ≤ 28)
    (hne : f ≠ g) : (paths f).Disjoint (paths g) ↔ ¬ Shadows f g ∧ ¬ Shadows g f := by
  constructor
  · intro hdis
    exact ⟨fun h => hdis h.meets (objPath_mem_paths g),
      fun h => hdis (objPath_mem_paths f) h.meets⟩
  · intro hshadow p hp hp'
    rw [paths_eq, List.mem_append, List.mem_singleton] at hp hp'
    rcases hp with hp | rfl
    · obtain ⟨s, hs, rfl⟩ := List.mem_map.mp hp
      rcases hp' with hp' | hp'
      · obtain ⟨s', hs', heq⟩ := List.mem_map.mp hp'
        rcases virtinePath_meets hf hg hs hs' heq.symm with h | h | h
        · exact hne h
        · exact hshadow.1 h
        · exact hshadow.2 h
      · exact virtinePath_ne_runtimeObj f s g hp'
    · rcases hp' with hp' | hp'
      · obtain ⟨s, -, heq⟩ := List.mem_map.mp hp'
        exact virtinePath_ne_runtimeObj g s f heq
      · exact hne (runtimeObj_inj hf hg hp')

/-- **The intermediate files.** For every two names: the files of each are
distinct and, if the names differ, no file is one of both, exactly when
neither name has more than 28 bytes or is the other with `.rt` or `.final`
after it. -/
theorem intermediate_files_separate_iff (f g : List Char) :
    ((paths f).Nodup ∧ (paths g).Nodup ∧ (f ≠ g → (paths f).Disjoint (paths g))) ↔
      f.length ≤ 28 ∧ g.length ≤ 28 ∧ ¬ Shadows f g ∧ ¬ Shadows g f := by
  rw [paths_nodup_iff, paths_nodup_iff]
  refine and_congr_right fun hf => and_congr_right fun hg => ?_
  by_cases heq : f = g
  · subst heq
    simp [shadows_irrefl]
  · rw [← paths_disjoint_iff hf hg heq]
    simp [heq]

/-- `fib` and `fib.rt`, and a name of 29 bytes. -/
theorem intermediate_files_collide :
    rtoPath "fib".toList = objPath "fib.rt".toList ∧
      objFinal (List.replicate 29 'f') = binFinal (List.replicate 29 'f') := by
  decide

end Toolchain

end Wasp
