import Wasp.Pass.Compile

/-!
# Blocks — what the emitted blocks do

The loops of the two code generators, executed: each lemma says that the
instructions a loop emits run without getting stuck and what memory and
which operands they leave. After this module only the memories matter.
-/

namespace Wasp

open ByteMem

variable {ω : Type}

/-- What an argument of the caller must be for a parameter. -/
def Param.Takes : Param → RtVal → Prop
  | .scalar t, .bytes b => b.length = t.bytes.length
  | .pointer _, .ptr _ => True
  | _, _ => False

theorem drop_eq_cons {α : Type} {l : List α} {i : Nat} {a : α} {as : List α}
    (h : l.drop i = a :: as) : l[i]? = some a ∧ l.drop (i + 1) = as := by
  constructor
  · have := congrArg List.head? h
    simpa [List.head?_drop] using this
  · have := congrArg List.tail h
    simpa [List.tail_drop] using this

/-- The arguments from `i` on, one at a time. -/
theorem Frame.args_cons {fr : Frame ω} {i : Nat} {a : RtVal} {as : List RtVal}
    (h : fr.args.drop i = a :: as) :
    fr.eval (.arg i) = some a ∧ fr.args.drop (i + 1) = as :=
  drop_eq_cons h

/-! ## Packing the arguments -/

/-- The struct at `A` with the fields from `i` on filled from the arguments. -/
def packed (fields : List Layout) (A : Nat) : Nat → List Param → List RtVal → Mem → Mem
  | i, p :: ps, a :: as, m =>
      packed fields A (i + 1) ps as
        (p.surrogate.store m (A + Layout.offset fields i) ((p.fetch m a).getD []))
  | _, _, _, m => m

theorem storeArgs_run {ctx : Ctx ω} {base : Operand} {A : Nat} {ps : List Param}
    {as : List RtVal} {fr : Frame ω} {i n : Nat} (hn : fr.vals.length = n)
    (hbase : fr.eval base = some (.ptr A)) (has : List.Forall₂ Param.Takes ps as)
    (hargs : fr.args.drop i = as) :
    ∃ fr', Frame.execAll ctx (storeArgs base n i ps) fr = some fr' ∧
      fr'.world = fr.world ∧ fr'.mem = packed ctx.fields A i ps as fr.mem := by
  induction has generalizing fr i n with
  | nil => exact ⟨fr, rfl, rfl, rfl⟩
  | @cons p a ps as hpa _ ih =>
      obtain ⟨harg, hrest⟩ := Frame.args_cons hargs
      have hptr := Frame.eval_push_last (w := .ptr (A + Layout.offset ctx.fields i)) hn
      cases p with
      | scalar t =>
          cases a with
          | bytes b =>
              rw [storeArgs, Frame.execAll_gep i hbase,
                Frame.execAll_store t (Frame.eval_push_of_eval harg) hptr]
              refine ih ?_ (Frame.eval_push_of_eval (Frame.eval_push_of_eval hbase)) hrest
              simp [Frame.setMem, hn]
          | _ => exact hpa.elim
      | pointer t =>
          cases a with
          | ptr x =>
              rw [storeArgs, Frame.execAll_gep i hbase,
                Frame.execAll_load t (Frame.eval_push_of_eval harg),
                Frame.execAll_store t (Frame.eval_push_last (by simp [hn]))
                  (Frame.eval_push_of_eval hptr)]
              refine ih ?_ (Frame.eval_push_of_eval
                (Frame.eval_push_of_eval (Frame.eval_push_of_eval hbase))) hrest
              simp [Frame.setMem, hn]
          | _ => exact hpa.elim

/-! ## Storing the surrogates back -/

/-- The surrogates of the struct at `A` stored through the pointers. -/
def restored (fields : List Layout) (A : Nat) : Nat → List Param → List RtVal → Mem → Mem
  | i, p :: ps, a :: as, m =>
      restored fields A (i + 1) ps as
        (p.commit a (p.surrogate.load m (A + Layout.offset fields i)) m)
  | _, _, _, m => m

theorem storeBack_run {ctx : Ctx ω} {base : Operand} {A : Nat} {ps : List Param}
    {as : List RtVal} {fr : Frame ω} {i n : Nat} (hn : fr.vals.length = n)
    (hbase : fr.eval base = some (.ptr A)) (has : List.Forall₂ Param.Takes ps as)
    (hargs : fr.args.drop i = as) :
    ∃ fr', Frame.execAll ctx (storeBack base n i ps) fr = some fr' ∧
      fr'.world = fr.world ∧ fr'.mem = restored ctx.fields A i ps as fr.mem := by
  induction has generalizing fr i n with
  | nil => exact ⟨fr, rfl, rfl, rfl⟩
  | @cons p a ps as hpa _ ih =>
      obtain ⟨harg, hrest⟩ := Frame.args_cons hargs
      cases p with
      | scalar t =>
          cases a with
          | bytes b => exact ih hn hbase hrest
          | _ => exact hpa.elim
      | pointer t =>
          cases a with
          | ptr x =>
              rw [storeBack, Frame.execAll_gep i hbase,
                Frame.execAll_load t (Frame.eval_push_last hn),
                Frame.execAll_store t (Frame.eval_push_last (by simp [hn]))
                  (Frame.eval_push_of_eval (Frame.eval_push_of_eval harg))]
              refine ih ?_ (Frame.eval_push_of_eval
                (Frame.eval_push_of_eval (Frame.eval_push_of_eval hbase))) hrest
              simp [Frame.setMem, hn]
          | _ => exact hpa.elim

/-! ## Unpacking in the guest -/

/-- The arguments `__virtine_main` calls the function with, from a struct
at `B`. -/
def unpacked (fields : List Layout) (B : Nat) (m : Mem) : Nat → List Param → List RtVal
  | _, [] => []
  | i, .pointer _ :: ps =>
      .ptr (B + Layout.offset fields i) :: unpacked fields B m (i + 1) ps
  | i, .scalar t :: ps =>
      .bytes (t.load m (B + Layout.offset fields i)) :: unpacked fields B m (i + 1) ps

theorem loadArgs_run {ctx : Ctx ω} {B : Nat} {ps : List Param} {fr : Frame ω} {i n : Nat}
    (hn : fr.vals.length = n) (hbase : fr.eval (.arg 0) = some (.ptr B)) :
    ∃ fr', Frame.execAll ctx (loadArgs n i ps).1 fr = some fr' ∧ fr'.world = fr.world ∧
      fr'.mem = fr.mem ∧
      (loadArgs n i ps).2.mapM fr'.eval = some (unpacked ctx.fields B fr.mem i ps) := by
  induction ps generalizing fr i n with
  | nil => exact ⟨fr, rfl, rfl, rfl, rfl⟩
  | cons p ps ih =>
      have hptr := Frame.eval_push_last (w := .ptr (B + Layout.offset ctx.fields i)) hn
      cases p with
      | pointer t =>
          obtain ⟨fr', hrun, hw, hm, hargv⟩ := ih (i := i + 1) (n := n + 1)
            (by simp [hn]) (Frame.eval_push_of_eval hbase)
          refine ⟨fr', ?_, hw, hm, ?_⟩
          · rw [loadArgs, Frame.execAll_gep i hbase]
            exact hrun
          · have hhead := Frame.execAll_eval hrun hptr
            simp only [loadArgs, List.mapM_cons, hhead, hargv]
            rfl
      | scalar t =>
          have hval := Frame.eval_push_last
            (w := .bytes (t.load fr.mem (B + Layout.offset ctx.fields i)))
            ((Frame.push_length fr (.ptr (B + Layout.offset ctx.fields i))).trans
              (congrArg (· + 1) hn))
          obtain ⟨fr', hrun, hw, hm, hargv⟩ := ih (i := i + 1) (n := n + 2)
            (by simp [hn]) (Frame.eval_push_of_eval (Frame.eval_push_of_eval hbase))
          refine ⟨fr', ?_, hw, hm, ?_⟩
          · rw [loadArgs, Frame.execAll_gep i hbase, Frame.execAll_load t hptr]
            exact hrun
          · have hhead := Frame.execAll_eval hrun hval
            simp only [loadArgs, List.mapM_cons, hhead, hargv]
            rfl

/-! ## The two blocks -/

/-- **`__virtine_main`** calls the function on the fields of the struct at
address 0 and stores its result in the last one. -/
theorem main_eq_some {f : Fn} {m m' : Mem} {r : List UInt8}
    (h : f.call (unpacked f.fields 0 m 0 f.params) m = some (r, m')) :
    f.main m = some (f.ret.store m' (0 + Layout.offset f.fields f.params.length) r) := by
  let ctx : Ctx Unit :=
    { fields := f.fields, frame := 0, wasp := fun _ _ _ _ _ => none, fn := f.call }
  let fr : Frame Unit := { args := [.ptr 0], vals := [], mem := m, world := () }
  have hbase : fr.eval (.arg 0) = some (.ptr 0) := rfl
  obtain ⟨fr', hrun, _, hm, hargv⟩ : ∃ fr',
      Frame.execAll ctx (loadArgs 0 0 f.params).1 fr = some fr' ∧ fr'.world = fr.world ∧
        fr'.mem = fr.mem ∧ (loadArgs 0 0 f.params).2.mapM fr'.eval =
          some (unpacked ctx.fields 0 fr.mem 0 f.params) := loadArgs_run rfl hbase
  have hlen : fr'.vals.length = (loadArgs 0 0 f.params).1.length :=
    (Frame.execAll_length hrun).trans (Nat.zero_add _)
  have hcall : ctx.fn (unpacked ctx.fields 0 fr.mem 0 f.params) fr'.mem = some (r, m') := by
    rw [hm]
    exact h
  let fr₁ := (fr'.push (.bytes r)).setMem m'
  have hbase₁ : fr₁.eval (.arg 0) = some (.ptr 0) :=
    Frame.eval_push_of_eval (w := .bytes r) (Frame.execAll_eval hrun hbase)
  have hres₁ : fr₁.eval (.val (loadArgs 0 0 f.params).1.length) = some (.bytes r) :=
    Frame.eval_push_last hlen
  have hlen₁ : fr₁.vals.length = (loadArgs 0 0 f.params).1.length + 1 :=
    (Frame.push_length ..).trans (congrArg (· + 1) hlen)
  let p := 0 + Layout.offset f.fields f.params.length
  have hall : Frame.execAll ctx (createMain f).instrs fr =
      some (((fr₁.push (.ptr p)).push .void).setMem (f.ret.store m' p r)) := by
    show Frame.execAll ctx (_ ++ _) fr = _
    rw [Frame.execAll_append hrun, Frame.execAll_callFn hargv hcall,
      Frame.execAll_gep _ hbase₁, Frame.execAll_store f.ret (Frame.eval_push_of_eval hres₁)
        (Frame.eval_push_last hlen₁)]
    rfl
  simp only [Fn.main, Block.run]
  rw [show Frame.execAll _ (createMain f).instrs _ = _ from hall]
  rfl

/-- The first half of the stub: the `alloca`, the loop that packs the
arguments, and the call of `wasp_run_virtine` with the struct. -/
theorem stub_call_run {f : Fn} {ctx : Ctx ω} {args : List RtVal} {host m : Mem} {w w' : ω}
    (hf : ctx.fields = f.fields) (has : List.Forall₂ Param.Takes f.params args)
    (hw : ctx.wasp ramSize ctx.frame f.argSize
      (packed f.fields ctx.frame 0 f.params args host) w = some (m, w')) :
    let stores := storeArgs (.val 0) 1 0 f.params
    ∃ fr : Frame ω, Frame.execAll ctx ([.alloca] ++ stores ++
        [.sizeHack, .callWasp ramSize (.val 0) (.val (1 + stores.length))])
        { args := args, vals := [], mem := host, world := w } = some fr ∧
      fr.mem = m ∧ fr.world = w' ∧ fr.args = args ∧
      fr.vals.length = 1 + stores.length + 2 ∧
      fr.eval (.val 0) = some (.ptr ctx.frame) := by
  intro stores
  let fr : Frame ω := { args := args, vals := [], mem := host, world := w }
  let fr₁ := fr.push (.ptr ctx.frame)
  have hargs₁ : fr₁.eval (.val 0) = some (.ptr ctx.frame) := rfl
  obtain ⟨fr₂, hrun₂, hworld₂, hmem₂⟩ : ∃ fr₂,
      Frame.execAll ctx stores fr₁ = some fr₂ ∧ fr₂.world = w ∧
        fr₂.mem = packed ctx.fields ctx.frame 0 f.params args host :=
    storeArgs_run rfl hargs₁ has rfl
  have hfirst : Frame.execAll ctx ([.alloca] ++ stores) fr = some fr₂ := hrun₂
  have hlen₂ : fr₂.vals.length = 1 + stores.length := Frame.execAll_length hrun₂
  -- the size and the call
  let fr₃ := fr₂.push (.int f.argSize)
  have hargs₃ : fr₃.eval (.val 0) = some (.ptr ctx.frame) :=
    Frame.eval_push_of_eval (Frame.execAll_eval hrun₂ hargs₁)
  have hcall : ctx.wasp ramSize ctx.frame f.argSize fr₃.mem fr₃.world = some (m, w') := by
    show ctx.wasp _ _ _ fr₂.mem fr₂.world = _
    rw [hmem₂, hworld₂, hf]
    exact hw
  refine ⟨{ (fr₃.push .void).setMem m with world := w' }, ?_, rfl, rfl,
    (Frame.execAll_vals hrun₂).1, ?_, Frame.eval_push_of_eval hargs₃⟩
  · rw [Frame.execAll_append hfirst]
    show Frame.execAll ctx [.callWasp ramSize (.val 0) (.val (1 + stores.length))]
      (fr₂.push (.int (Layout.struct ctx.fields).size)) = _
    rw [hf]
    show Frame.execAll ctx _ fr₃ = _
    rw [Frame.execAll_callWasp hargs₃ (Frame.eval_push_last hlen₂) hcall]
    rfl
  · show (fr₃.push .void).vals.length = _
    rw [Frame.push_length, Frame.push_length, hlen₂]

/-- **The stub** packs the arguments, calls `wasp_run_virtine` with the
struct, and stores the surrogates back. -/
theorem compileFunction_run {f : Fn} {ctx : Ctx ω} {args : List RtVal} {host m : Mem}
    {w w' : ω} (hf : ctx.fields = f.fields) (has : List.Forall₂ Param.Takes f.params args)
    (hw : ctx.wasp ramSize ctx.frame f.argSize
      (packed f.fields ctx.frame 0 f.params args host) w = some (m, w')) :
    (compileFunction f).run ctx args host w =
      some (some (.bytes (f.ret.load (restored f.fields ctx.frame 0 f.params args m)
          (ctx.frame + Layout.offset f.fields f.params.length))),
        restored f.fields ctx.frame 0 f.params args m, w') := by
  let stores := storeArgs (.val 0) 1 0 f.params
  let n := 1 + stores.length
  let back := storeBack (.val 0) (n + 2) 0 f.params
  obtain ⟨fr₄, hrun₄, hmem₄, hworld₄, hpar₄, hlen₄, hargs₄⟩ := stub_call_run hf has hw
  -- the second loop
  obtain ⟨fr₅, hrun₅, hworld₅, hmem₅⟩ : ∃ fr₅,
      Frame.execAll ctx back fr₄ = some fr₅ ∧ fr₅.world = fr₄.world ∧
        fr₅.mem = restored ctx.fields ctx.frame 0 f.params args fr₄.mem :=
    storeBack_run hlen₄ hargs₄ has hpar₄
  have hlen₅ : fr₅.vals.length = n + 2 + back.length := by
    rw [Frame.execAll_length hrun₅, hlen₄]
  have hargs₅ : fr₅.eval (.val 0) = some (.ptr ctx.frame) := Frame.execAll_eval hrun₅ hargs₄
  -- the result
  let p := ctx.frame + Layout.offset ctx.fields f.params.length
  have hall : Frame.execAll ctx (compileFunction f).instrs
        { args := args, vals := [], mem := host, world := w } =
      some ((fr₅.push (.ptr p)).push (.bytes (f.ret.load fr₅.mem p))) := by
    show Frame.execAll ctx ([.alloca] ++ stores ++
      [.sizeHack, .callWasp ramSize (.val 0) (.val n)] ++ back ++ _) _ = _
    have hloops : Frame.execAll ctx ([.alloca] ++ stores ++
        [.sizeHack, .callWasp ramSize (.val 0) (.val n)] ++ back) _ = some fr₅ :=
      (Frame.execAll_append hrun₄).trans hrun₅
    rw [Frame.execAll_append hloops, Frame.execAll_gep _ hargs₅,
      Frame.execAll_load f.ret (Frame.eval_push_last hlen₅)]
    rfl
  have hret : ((fr₅.push (.ptr p)).push (.bytes (f.ret.load fr₅.mem p))).eval
      (.val (n + 2 + back.length + 1)) = some (.bytes (f.ret.load fr₅.mem p)) :=
    Frame.eval_push_last ((Frame.push_length ..).trans (congrArg (· + 1) hlen₅))
  simp only [Block.run]
  rw [show Frame.execAll _ (compileFunction f).instrs _ = _ from hall]
  show Option.map _ (Frame.eval _ (.val (n + 2 + back.length + 1))) = _
  rw [hret, ← hf, ← hmem₄, ← hmem₅, ← hworld₄, ← hworld₅]
  rfl

end Wasp
