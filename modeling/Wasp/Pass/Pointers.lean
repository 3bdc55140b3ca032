import Wasp.Pass.Refinement

/-!
# Pointers — what the guest sees of a pointer argument

The stub sends what a pointer points to, and `__virtine_main` calls the
function with the address of that copy in the argument struct, which is at
address 0 of the guest. So the address a function sees is the offset of a
field, whatever the caller passed: the copies are apart from each other, but
the one at offset 0 is a null pointer to the function, and a null pointer of
the caller is loaded from like any other.
-/

namespace Wasp

variable {ω : Type}

/-- The execution of the block comes to the instruction `i`, in `fr`. -/
def Block.Reaches (ctx : Ctx ω) (b : Block) (args : List RtVal) (m : Mem) (w : ω)
    (i : Instr) (fr : Frame ω) : Prop :=
  ∃ pre post, b.instrs = pre ++ i :: post ∧
    Frame.execAll ctx pre { args := args, vals := [], mem := m, world := w } = some fr

namespace Fn

variable (f : Fn)

/-- `__virtine_main(0)` calls the function with `vs` on the guest's memory `m`. -/
def GuestCall (m : Mem) (vs : List RtVal) : Prop :=
  ∃ argv fr, (createMain f).Reaches
      { fields := f.fields, frame := 0, wasp := fun _ _ _ _ _ => none, fn := f.call }
      [.ptr 0] m () (.callFn argv) fr ∧
    argv.mapM fr.eval = some vs

/-- The function sees the address `a` in its parameter `i`. -/
def Sees (m : Mem) (i a : Nat) : Prop := ∃ vs, f.GuestCall m vs ∧ vs[i]? = some (.ptr a)

/-- The stub comes to a load or a store through its argument `i`. -/
def StubDereferences (ctx : Ctx ω) (args : List RtVal) (host : Mem) (w : ω) (i : Nat) : Prop :=
  ∃ t fr, (compileFunction f).Reaches ctx args host w (.load t (.arg i)) fr ∨
    ∃ v, (compileFunction f).Reaches ctx args host w (.store t v (.arg i)) fr

/-- Nullness and separation of the pointers in a call of the stub with `args`:
`guest` is the memory `__virtine_main` starts from. -/
structure KeepsPointers (ctx : Ctx ω) (args : List RtVal) (host : Mem) (w : ω)
    (guest : Mem) : Prop where
  nonnull : ∀ i t a, f.params[i]? = some (.pointer t) → args[i]? = some (.ptr a) → a ≠ 0 →
    ∃ b, f.Sees guest i b ∧ b ≠ 0 ∧ b < f.argSize ∧ b + t.size ≤ f.argSize
  null : ∀ i t, f.params[i]? = some (.pointer t) → args[i]? = some (.ptr 0) →
    f.Sees guest i 0 ∧ ¬ f.StubDereferences ctx args host w i
  apart : ∀ i j t u a b, i ≠ j → f.params[i]? = some (.pointer t) →
    f.params[j]? = some (.pointer u) → f.Sees guest i a → f.Sees guest j b →
    a + t.size ≤ b ∨ b + u.size ≤ a

end Fn

/-! ## The call in the guest -/

theorem callFn_notMem_loadArgs (argv : List Operand) (n i : Nat) (ps : List Param) :
    Instr.callFn argv ∉ (loadArgs n i ps).1 := by
  induction ps generalizing n i with
  | nil => simp [loadArgs]
  | cons p ps ih => cases p <;> simp [loadArgs, ih]

/-- The function is called once, with the addresses of its fields. -/
theorem Fn.guestCall_iff (f : Fn) (m : Mem) (vs : List RtVal) :
    f.GuestCall m vs ↔ vs = unpacked f.fields 0 m 0 f.params := by
  let ctx : Ctx Unit :=
    { fields := f.fields, frame := 0, wasp := fun _ _ _ _ _ => none, fn := f.call }
  let fr : Frame Unit := { args := [.ptr 0], vals := [], mem := m, world := () }
  obtain ⟨fr', hrun, _, _, hargv⟩ : ∃ fr',
      Frame.execAll ctx (loadArgs 0 0 f.params).1 fr = some fr' ∧ fr'.world = fr.world ∧
        fr'.mem = fr.mem ∧ (loadArgs 0 0 f.params).2.mapM fr'.eval =
          some (unpacked ctx.fields 0 fr.mem 0 f.params) := loadArgs_run rfl rfl
  constructor
  · rintro ⟨argv, fr'', ⟨pre, post, hinstrs, hpre⟩, hvs⟩
    obtain ⟨rfl, hcall, _⟩ := (List.append_cons_inj_of_notMem
      (callFn_notMem_loadArgs argv 0 0 f.params) (by simp)).mp hinstrs
    obtain rfl : (loadArgs 0 0 f.params).2 = argv := Instr.callFn.inj hcall
    obtain rfl : fr' = fr'' := Option.some.inj (hrun.symm.trans hpre)
    exact Option.some.inj (hvs.symm.trans hargv)
  · rintro rfl
    exact ⟨(loadArgs 0 0 f.params).2, fr', ⟨_, _, rfl, hrun⟩, hargv⟩

theorem unpacked_getElem? {fields : List Layout} {B i k : Nat} {m : Mem} {ps : List Param}
    {t : Layout} (h : ps[k]? = some (.pointer t)) :
    (unpacked fields B m i ps)[k]? = some (.ptr (B + Layout.offset fields (i + k))) := by
  induction ps generalizing i k with
  | nil => simp at h
  | cons p ps ih =>
      cases k with
      | zero =>
          rw [List.getElem?_cons_zero, Option.some.injEq] at h
          subst h
          rfl
      | succ k =>
          rw [List.getElem?_cons_succ] at h
          have hk := ih (i := i + 1) h
          rw [show i + 1 + k = i + (k + 1) by omega] at hk
          cases p <;> exact hk

theorem Fn.sees_iff {f : Fn} {m : Mem} {i a : Nat} {t : Layout}
    (h : f.params[i]? = some (.pointer t)) :
    f.Sees m i a ↔ a = Layout.offset f.fields i := by
  have hi : (unpacked f.fields 0 m 0 f.params)[i]? =
      some (.ptr (Layout.offset f.fields i)) := by
    rw [unpacked_getElem? h, Nat.zero_add, Nat.zero_add]
  constructor
  · rintro ⟨vs, hvs, ha⟩
    rw [(f.guestCall_iff m vs).mp hvs, hi] at ha
    cases ha
    rfl
  · rintro rfl
    exact ⟨_, (f.guestCall_iff m _).mpr rfl, hi⟩

/-! ## The loads of the stub -/

theorem load_mem_storeArgs {base : Operand} {n i k : Nat} {ps : List Param} {t : Layout}
    (h : ps[k]? = some (.pointer t)) : .load t (.arg (i + k)) ∈ storeArgs base n i ps := by
  induction ps generalizing n i k with
  | nil => simp at h
  | cons p ps ih =>
      cases k with
      | zero =>
          rw [List.getElem?_cons_zero, Option.some.injEq] at h
          subst h
          simp [storeArgs]
      | succ k =>
          rw [List.getElem?_cons_succ] at h
          have hk : ∀ n, .load t (.arg (i + (k + 1))) ∈ storeArgs base n (i + 1) ps := by
            intro n
            rw [show i + (k + 1) = i + 1 + k by omega]
            exact ih h
          cases p <;> simp [storeArgs, hk]

/-- The stub loads through every pointer it is given, null or not. -/
theorem Fn.stubDereferences {f : Fn} {ctx : Ctx ω} {args : List RtVal} {i : Nat} {t : Layout}
    (host : Mem) (w : ω) (has : List.Forall₂ Param.Takes f.params args)
    (h : f.params[i]? = some (.pointer t)) : f.StubDereferences ctx args host w i := by
  let fr : Frame ω := { args := args, vals := [], mem := host, world := w }
  obtain ⟨fr', hrun, _⟩ : ∃ fr',
      Frame.execAll ctx (storeArgs (.val 0) 1 0 f.params) (fr.push (.ptr ctx.frame)) =
        some fr' ∧ fr'.world = w ∧ _ := storeArgs_run rfl rfl has rfl
  have hload : .load t (.arg (0 + i)) ∈ storeArgs (.val 0) 1 0 f.params :=
    load_mem_storeArgs h
  rw [Nat.zero_add] at hload
  obtain ⟨rest, hrest⟩ : ∃ rest, (compileFunction f).instrs =
      .alloca :: storeArgs (.val 0) 1 0 f.params ++ rest :=
    ⟨_, by rw [compileFunction, List.append_assoc, List.append_assoc]⟩
  obtain ⟨pre, post, hsplit⟩ := List.append_of_mem hload
  rw [hsplit] at hrun
  obtain ⟨fr₁, hpre⟩ := Frame.execAll_left hrun
  refine ⟨t, fr₁, .inl ⟨.alloca :: pre, post ++ rest, ?_, hpre⟩⟩
  rw [hrest, hsplit]
  simp

/-! ## Nullness and separation -/

theorem exists_ptr_of_takes {ps : List Param} {as : List RtVal} {i : Nat} {t : Layout}
    (has : List.Forall₂ Param.Takes ps as) (h : ps[i]? = some (.pointer t)) :
    ∃ a, as[i]? = some (.ptr a) := by
  induction has generalizing i with
  | nil => simp at h
  | @cons p a ps as hpa _ ih =>
      cases i with
      | zero =>
          rw [List.getElem?_cons_zero, Option.some.injEq] at h
          subst h
          cases a with
          | ptr x => exact ⟨x, rfl⟩
          | _ => exact hpa.elim
      | succ i => exact ih h

namespace Fn

variable {f : Fn} {i : Nat} {p : Param}

/-- The field of a parameter is inside the argument struct: the result, which
takes up bytes, comes after it. -/
theorem offset_in_area (h : f.params[i]? = some p) :
    Layout.offset f.fields i < f.argSize ∧
      Layout.offset f.fields i + p.surrogate.size ≤ f.argSize := by
  have hi : f.fields[0 + i]? = some p.surrogate := f.fieldsAre.get h
  rw [Nat.zero_add] at hi
  have hbefore := Layout.offset_lt (List.getElem?_eq_some_iff.mp h).1 hi f.field_ret
  have hret := f.ret_in_struct
  obtain ⟨o, ho⟩ := List.exists_mem_of_ne_nil _ f.ret_bytes
  have hpos := f.ret.bounded o ho
  unfold retOffset at hret
  omega

/-- The parameters whose field is not at the start of the struct. -/
theorem offset_ne_zero_iff (h : f.params[i]? = some p) :
    Layout.offset f.fields i ≠ 0 ↔
      ∃ j q, j < i ∧ f.params[j]? = some q ∧ 0 < q.surrogate.size := by
  have hi : i < f.params.length := (List.getElem?_eq_some_iff.mp h).1
  have hlen : i < f.fields.length := by
    rw [fields, createArgumentStruct, List.length_append, List.length_map]
    omega
  have hfield : ∀ j < i, f.fields[j]? = f.params[j]?.map Param.surrogate := by
    intro j hj
    rw [fields, createArgumentStruct, List.getElem?_append_left, List.getElem?_map]
    rw [List.length_map]
    omega
  rw [Ne, Layout.offset_eq_zero hlen]
  constructor
  · intro hne
    by_contra hno
    apply hne
    intro j t hj ht
    rw [hfield j hj, Option.map_eq_some_iff] at ht
    obtain ⟨q, hq, rfl⟩ := ht
    by_contra hsize
    exact hno ⟨j, q, hj, hq, Nat.pos_of_ne_zero hsize⟩
  · rintro ⟨j, q, hj, hq, hsize⟩ hall
    have := hall j q.surrogate hj (by rw [hfield j hj, hq, Option.map_some])
    omega

theorem sees_apart {m : Mem} {j a b : Nat} {t u : Layout} (hij : i < j)
    (hi : f.params[i]? = some (.pointer t)) (hj : f.params[j]? = some (.pointer u))
    (ha : f.Sees m i a) (hb : f.Sees m j b) : a + t.size ≤ b := by
  have hti : f.fields[0 + i]? = some t := f.fieldsAre.get hi
  have htj : f.fields[0 + j]? = some u := f.fieldsAre.get hj
  rw [Nat.zero_add] at hti htj
  rw [(sees_iff hi).mp ha, (sees_iff hj).mp hb]
  exact Layout.offset_lt hij hti htj

end Fn

/-- **Pointer arguments.** Nullness and separation are kept exactly if no
pointer is null and each pointer parameter comes after a parameter that takes
up bytes. -/
theorem keeps_pointers_iff (f : Fn) (ctx : Ctx ω) (args : List RtVal) (host : Mem) (w : ω)
    (guest : Mem) (has : List.Forall₂ Param.Takes f.params args) :
    f.KeepsPointers ctx args host w guest ↔
      ∀ (i : Nat) (t : Layout), f.params[i]? = some (.pointer t) →
        args[i]? ≠ some (.ptr 0) ∧
          ∃ j p, j < i ∧ f.params[j]? = some p ∧ 0 < p.surrogate.size := by
  constructor
  · intro hk i t hi
    have hnull : args[i]? ≠ some (.ptr 0) := fun hz =>
      (hk.null i t hi hz).2 (Fn.stubDereferences host w has hi)
    refine ⟨hnull, ?_⟩
    obtain ⟨a, ha⟩ := exists_ptr_of_takes has hi
    have hne : a ≠ 0 := by
      rintro rfl
      exact hnull ha
    obtain ⟨b, hsees, hb, _⟩ := hk.nonnull i t a hi ha hne
    rw [Fn.sees_iff hi] at hsees
    subst hsees
    exact (Fn.offset_ne_zero_iff hi).mp hb
  · intro h
    refine ⟨?_, ?_, ?_⟩
    · intro i t a hi _ _
      exact ⟨_, (Fn.sees_iff hi).mpr rfl, (Fn.offset_ne_zero_iff hi).mpr (h i t hi).2,
        Fn.offset_in_area hi⟩
    · intro i t hi hz
      exact absurd hz (h i t hi).1
    · intro i j t u a b hij hi hj ha hb
      rcases Nat.lt_or_gt_of_ne hij with hlt | hlt
      · exact .inl (Fn.sees_apart hlt hi hj ha hb)
      · exact .inr (Fn.sees_apart hlt hj hi hb ha)

/-! ### Two functions -/

/-- A function that sets a pointer's `int` to 0, with another `int` before it. -/
def clearRef : Fn where
  params := [.scalar (.scalar 4 2), .pointer (.scalar 4 2)]
  ret := .scalar 4 2
  body := fun _ => (intBytes 0, [intBytes 0, intBytes 0])
  ret_bytes := squareRef.ret_bytes
  typed := fun _ _ => ⟨rfl, .cons rfl (.cons rfl .nil)⟩
  sized := by decide

/-- A host without `wasp_run_virtine` is enough to see what the stub loads. -/
def stubCtx (f : Fn) : Ctx Unit :=
  { fields := f.fields, frame := 0x1000, wasp := fun _ _ _ _ _ => none, fn := fun _ _ => none }

theorem clearRef_takes :
    List.Forall₂ Param.Takes clearRef.params [.bytes [7, 0, 0, 0], .ptr 16] :=
  .cons rfl (.cons trivial .nil)

/-- A pointer that is not the first parameter and not null is kept. -/
theorem clear_ref_keeps_pointers :
    clearRef.KeepsPointers (stubCtx clearRef) [.bytes [7, 0, 0, 0], .ptr 16] (fun _ => 0) ()
      fun _ => 0 := by
  refine (keeps_pointers_iff clearRef _ _ _ () _ clearRef_takes).mpr ?_
  intro i t hi
  cases i with
  | zero => cases hi
  | succ i =>
      cases i with
      | zero => exact ⟨by decide, 0, _, by decide, rfl, by decide⟩
      | succ i => cases hi

/-- `smoketest_square_ref(&val)` sees a null pointer; and called with null, its
stub loads from it. -/
theorem square_ref_pointer_lost :
    squareRef.Sees (fun _ => 0) 0 0 ∧
    ¬ squareRef.KeepsPointers (stubCtx squareRef) [.ptr 16] (fun _ => 0) () (fun _ => 0) ∧
    squareRef.StubDereferences (stubCtx squareRef) [.ptr 0] (fun _ => 0) () 0 := by
  have hsees : ∀ a, squareRef.Sees (fun _ => 0) 0 a ↔ a = 0 := fun a =>
    Fn.sees_iff (show squareRef.params[0]? = some (.pointer (.scalar 4 2)) from rfl)
  refine ⟨(hsees 0).mpr rfl, ?_, Fn.stubDereferences _ _ (.cons trivial .nil) rfl⟩
  intro hk
  obtain ⟨b, hb, hne, _⟩ := hk.nonnull 0 (.scalar 4 2) 16 rfl rfl (by decide)
  exact hne ((hsees b).mp hb)

end Wasp
