import Wasp.Pass.Fields
import Wasp.Runtime.Invocation

/-!
# Refinement — a compiled call and the original call

What the stub, the transfer of the argument struct and `__virtine_main`
leave together is what the original function leaves. Between them runs the
guest: LLVM's back end, the linker and the processor make of
`__virtine_main` an image at `0x8000` that uses some bytes below it as its
stack, and `Executes` is what they owe us.

The struct is copied to guest address 0 and nothing limits its size. `Fits`
is exactly what the call needs of it.
-/

namespace Wasp

open ByteMem

variable {S F : Type}

/-! ## The guest -/

/-- What a guest must find in its memory: the image of the function, linked
to `0x8000`, and the stack below it. The stack is there on entry already
when the virtine goes on from a snapshot, which its boot code takes before
it calls `__virtine_main`. -/
structure Image where
  bytes : Nat → UInt8
  size : Nat
  stack : Nat

def Image.InPlace (img : Image) (m : Mem) : Prop :=
  ∀ a, 0x8000 - img.stack ≤ a → a < 0x8000 + img.size → m a = img.bytes a

/-- The guest does what `__virtine_main` says: entered with its image in
place, it leaves in the fields of the argument struct what `__virtine_main`
leaves there, but for the bytes it has its stack in. -/
def Executes (f : Fn) (img : Image) (vcpu : Mem → Mem) : Prop :=
  ∀ m m', img.InPlace m → f.main m = some m' →
    ∀ a ∈ (Layout.struct f.fields).bytes, a + img.stack < 0x8000 → vcpu m a = m' a

/-- The offset of the result in the struct. -/
def Fn.retOffset (f : Fn) : Nat := Layout.offset f.fields f.params.length

/-- The struct ends below the stack. -/
def Fn.Fits (f : Fn) (stack : Nat) : Prop := f.argSize + stack ≤ 0x8000

instance (f : Fn) (stack : Nat) : Decidable (f.Fits stack) := Nat.decLe _ _

/-! ## The three parts -/

theorem Fn.fieldsAre (f : Fn) : FieldsAre f.fields 0 f.params := ⟨[f.ret], rfl⟩

theorem Fn.field_ret (f : Fn) : f.fields[f.params.length]? = some f.ret := by
  simp [Fn.fields, createArgumentStruct]

theorem Fn.ret_in_struct (f : Fn) : f.retOffset + f.ret.size ≤ f.argSize :=
  Layout.offset_add_size_le f.field_ret

theorem Fn.ret_byte_mem (f : Fn) {o : Nat} (ho : o ∈ f.ret.bytes) :
    f.retOffset + o ∈ (Layout.struct f.fields).bytes :=
  Layout.offset_add_mem f.field_ret ho

/-- A value byte of a parameter is before the result. -/
theorem Fn.param_before_ret (f : Fn) {k o : Nat} {p : Param} (hp : f.params[k]? = some p)
    (ho : o ∈ p.surrogate.bytes) : Layout.offset f.fields (0 + k) + o < f.retOffset := by
  have hk : 0 + k < f.params.length := by
    rw [Nat.zero_add]
    exact (List.getElem?_eq_some_iff.mp hp).1
  have hlt := Layout.offset_lt hk (f.fieldsAre.get hp) f.field_ret
  have := p.surrogate.bounded o ho
  unfold retOffset
  omega

theorem call_eq_some {f : Fn} {args : List RtVal} {m : Mem} {vs : List (List UInt8)}
    (hvs : fetchAll m f.params args = some vs) :
    f.call args m = some ((f.body vs).1, commitAll f.params args (f.body vs).2 m) := by
  simp only [Fn.call, hvs, Option.map_some]

/-- **The guest's part**: on a struct that holds the values `vs`. -/
theorem main_spec {f : Fn} {m : Mem} {vs : List (List UInt8)} (hvs : Typed f.params vs)
    (hm : fieldVals f.fields 0 m 0 f.params = vs) :
    ∃ m', f.main m = some m' ∧ Surrogates f.fields 0 m' 0 f.params (f.body vs).2 ∧
      f.ret.load m' (0 + f.retOffset) = (f.body vs).1 := by
  obtain ⟨hr, hws⟩ := f.typed vs hvs
  have hfetch : fetchAll m f.params (unpacked f.fields 0 m 0 f.params) = some vs := by
    rw [fetchAll_unpacked, hm]
  have hnew : Surrogates f.fields 0 (commitAll f.params (unpacked f.fields 0 m 0 f.params)
      (f.body vs).2 m) 0 f.params (f.body vs).2 := surrogates_commitAll f.fieldsAre hws
  refine ⟨_, main_eq_some (call_eq_some hfetch), ?_, Layout.load_store hr⟩
  refine hnew.congr f.fieldsAre fun k p o hp ho => ?_
  have := f.param_before_ret hp ho
  exact (Layout.store_outside (.inl (by unfold Fn.retOffset at this; omega))).symm

/-- The guest's memory after the copy-in. -/
def received (v : Virtine S F) (host : Mem) (a n : Nat) : Mem :=
  blit v.mem 0 (fun i => host (a + i)) n

/-- The guest's memory after the run: only what is mapped can change. -/
def afterRun (v : Virtine S F) (vcpu : Mem → Mem) (m : Mem) : Mem :=
  fun x => if x < v.mMemsz.toNat then vcpu m x else m x

/-- **The transfer.** -/
theorem transfer_eq_some {v : Virtine S F} {memsz : BitVec 64} {a n : Nat}
    (vcpu : Mem → Mem) (host : Mem) (hm : v.mMem ≠ 0) (hs : v.mMemsz = memsz)
    (hn : n < 2 ^ 64) :
    Virtine.transfer vcpu memsz a n host v =
      some (blit host a (afterRun v vcpu (received v host a n)) n,
        { v with mem := afterRun v vcpu (received v host a n) }) := by
  have hsz : (BitVec.ofNat 64 n).toNat = n := by
    rw [BitVec.toNat_ofNat, Nat.mod_eq_of_lt hn]
  have hin : v.copyIn (some fun i => host (a + i)) (BitVec.ofNat 64 n) =
      .ok { v with mem := received v host a n } := by
    simp only [Virtine.copyIn, Virtine.translate_zero hm, hsz, received]
  simp only [Virtine.transfer, if_pos hs, hin, Virtine.copyOut, Option.map_some, hsz,
    Option.some.injEq, Prod.mk.injEq]
  refine ⟨blit_congr fun i hi => ?_, rfl⟩
  rw [blit_inside (Nat.zero_le i) (by omega), Nat.sub_zero]
  rfl

/-- What `wasp_run_virtine` does to its caller's buffer, over whatever turns
its loop takes, is such a transfer. -/
theorem Returns.transfer {env : Env} {guest : Guest S F} {kvm : Kvm S F} {call : Call}
    {caches : Caches S F} {ret : Returned S F} {v : Virtine S F} {c : Cache S F} {a : Nat}
    {host : Mem} (hk : caches.Owned) (h : Returns env guest kvm call caches ret)
    (hg : (caches.getCache call).get kvm = (.ok v, c)) (hm : v.mMem ≠ 0)
    (harg : call.arg = some fun i => host (a + i))
    (hfit : call.argsz.toNat ≤ v.mMemsz.toNat) :
    ∃ vcpu v' out, ret.arg = some out ∧
      Virtine.transfer vcpu v.mMemsz a call.argsz.toNat host v =
        some (blit host a out call.argsz.toNat, v') := by
  obtain ⟨_, _, _, st, _, hg', _, _, _, _, rfl⟩ := (returns_course hk).mp h
  obtain ⟨rfl, rfl⟩ : _ ∧ _ := by simpa using hg.symm.trans hg'
  have ht := transfer_eq_some (a := a) (fun _ => st.vm.mem) host hm rfl call.argsz.isLt
  have hout : blit host a (afterRun v (fun _ => st.vm.mem)
        (received v host a call.argsz.toNat)) call.argsz.toNat =
      blit host a (blit (fun i => host (a + i)) 0 st.vm.mem call.argsz.toNat)
        call.argsz.toNat := by
    refine blit_congr fun i hi => ?_
    rw [afterRun, if_pos (by omega), blit_inside (Nat.zero_le i) (by omega), Nat.sub_zero]
  rw [hout] at ht
  refine ⟨_, _, _, ?_, ht⟩
  show st.vm.copyOut call.arg call.argsz = _
  rw [harg]
  rfl

/-! ## The whole call -/

/-- The compiled call returns what the original call returns and leaves the
host's memory as that does, but for the stub's own frame; the host's bytes
behind the guest's memory stay as they are. -/
def Fn.SameCall (f : Fn) (vcpu : Mem → Mem) (frame : Nat) (v : Virtine S F)
    (args : List RtVal) (host : Mem) : Prop :=
  ∃ r m m' v', f.call args host = some (r, m) ∧
    f.virtineCall vcpu frame v args host = some (some (.bytes r), m', v') ∧
    (∀ x, Outside x frame f.argSize → m' x = m x) ∧
    ∀ a, v.mMemsz.toNat ≤ a → v'.mem a = v.mem a

section Call

variable {f : Fn} {vcpu : Mem → Mem} {frame : Nat} {v : Virtine S F} {args : List RtVal}
  {host : Mem}

/-- The host's memory with the struct filled. -/
def Fn.sent (f : Fn) (frame : Nat) (args : List RtVal) (host : Mem) : Mem :=
  packed f.fields frame 0 f.params args host

/-- The guest's memory when it is entered, and when it has exited. -/
def Fn.entered (f : Fn) (frame : Nat) (v : Virtine S F) (args : List RtVal) (host : Mem) :
    Mem :=
  received v (f.sent frame args host) frame f.argSize

def Fn.exited (f : Fn) (vcpu : Mem → Mem) (frame : Nat) (v : Virtine S F)
    (args : List RtVal) (host : Mem) : Mem :=
  afterRun v vcpu (f.entered frame v args host)

/-- The host's memory when `wasp_run_virtine` has returned. -/
def Fn.got (f : Fn) (vcpu : Mem → Mem) (frame : Nat) (v : Virtine S F) (args : List RtVal)
    (host : Mem) : Mem :=
  blit (f.sent frame args host) frame (f.exited vcpu frame v args host) f.argSize

variable (vcpu host) in
theorem virtineCall_eq (hm : v.mMem ≠ 0) (hs : v.mMemsz = ramSize)
    (hargs : Accepts f.params args frame f.argSize) :
    f.virtineCall vcpu frame v args host =
      some (some (.bytes (f.ret.load
          (restored f.fields frame 0 f.params args (f.got vcpu frame v args host))
          (frame + f.retOffset))),
        restored f.fields frame 0 f.params args (f.got vcpu frame v args host),
        { v with mem := f.exited vcpu frame v args host }) :=
  compileFunction_run rfl hargs.takes (transfer_eq_some vcpu _ hm hs f.sized)

/-- Outside its frame the stub has changed nothing so far. -/
theorem got_outside {x : Nat} (hx : Outside x frame f.argSize) :
    f.got vcpu frame v args host x = host x :=
  (blit_outside hx).trans (packed_off f.fieldsAre (offFields_of_outside hx))

theorem got_inside {a : Nat} (ha : a < f.argSize) :
    f.got vcpu frame v args host (frame + a) = f.exited vcpu frame v args host a :=
  blit_offset ha

theorem entered_inside {a : Nat} (ha : a < f.argSize) :
    f.entered frame v args host a = f.sent frame args host (frame + a) := by
  rw [Fn.entered, received, blit_inside (Nat.zero_le a) (by omega), Nat.sub_zero]

theorem entered_outside {a : Nat} (ha : f.argSize ≤ a) :
    f.entered frame v args host a = v.mem a := by
  rw [Fn.entered, received, blit_outside (by omega)]

/-- The guest finds the arguments' values in its struct. -/
theorem fieldVals_entered {vs : List (List UInt8)}
    (hargs : Accepts f.params args frame f.argSize)
    (hvs : fetchAll host f.params args = some vs) :
    fieldVals f.fields 0 (f.entered frame v args host) 0 f.params = vs := by
  rw [← fieldVals_packed f.fieldsAre hargs.takes hargs.clear hvs]
  refine fieldVals_congr fun k p o hp ho => ?_
  have hlt := f.param_before_ret hp ho
  have := f.ret_in_struct
  rw [entered_inside (by omega), Nat.zero_add, Nat.add_assoc]
  rfl

/-- Storing back leaves the frame alone. -/
theorem load_ret_restored {m : Mem} (hargs : Accepts f.params args frame f.argSize) :
    f.ret.load (restored f.fields frame 0 f.params args m) (frame + f.retOffset) =
      f.ret.load m (frame + f.retOffset) := by
  rw [restored_eq_commitAll f.fieldsAre hargs.takes hargs.clear surrogates_fieldVals]
  refine Layout.load_congr fun x hx hx' => commitAll_outside fun y hy => ?_
  have := f.ret_in_struct
  rcases hargs.clear y hy with h | h
  · exact .inr (by omega)
  · exact .inl (by omega)

/-- **A call that fits is the original call.** -/
theorem sameCall_of_fits {img : Image} (hfit : f.Fits img.stack) (hexec : Executes f img vcpu)
    (himg : img.InPlace v.mem) (hm : v.mMem ≠ 0) (hs : v.mMemsz = ramSize)
    (hargs : Accepts f.params args frame f.argSize) : f.SameCall vcpu frame v args host := by
  obtain ⟨vs, hvs, htyped⟩ := fetchAll_takes (m := host) hargs.takes
  obtain ⟨m', hmain, hsur, hret⟩ :=
    main_spec htyped (fieldVals_entered (v := v) hargs hvs)
  have hram : v.mMemsz.toNat = 0x80000 := by rw [hs]; rfl
  unfold Fn.Fits at hfit
  have hplace : img.InPlace (f.entered frame v args host) := by
    intro a hlo hhi
    rw [entered_outside (by omega)]
    exact himg a hlo hhi
  -- every byte of a value is below the stack, so it is what `__virtine_main` leaves
  have hbyte : ∀ a ∈ (Layout.struct f.fields).bytes,
      m' a = f.got vcpu frame v args host (frame + a) := by
    intro a ha
    have hlt : a < f.argSize := (Layout.struct f.fields).bounded a ha
    rw [got_inside hlt, Fn.exited, afterRun, if_pos (by omega)]
    exact (hexec _ m' hplace hmain a ha (by omega)).symm
  have hsur' : Surrogates f.fields frame (f.got vcpu frame v args host) 0 f.params
      (f.body vs).2 := by
    refine hsur.congr f.fieldsAre fun k p o hp ho => ?_
    have hmem := Layout.offset_add_mem (f.fieldsAre.get hp) ho
    rw [Nat.zero_add (Layout.offset _ _), hbyte _ hmem, Nat.add_assoc]
  have hret' : f.ret.load (f.got vcpu frame v args host) (frame + f.retOffset) =
      (f.body vs).1 := by
    rw [← hret]
    refine Layout.load_congr_bytes fun o ho => ?_
    rw [Nat.zero_add, hbyte _ (f.ret_byte_mem ho), Nat.add_assoc]
  have hcall := virtineCall_eq vcpu host hm hs hargs
  rw [load_ret_restored hargs, hret'] at hcall
  refine ⟨_, _, _, _, call_eq_some hvs, hcall, ?_, ?_⟩
  · intro x hx
    rw [restored_eq_commitAll f.fieldsAre hargs.takes hargs.clear hsur']
    exact commitAll_congr (got_outside hx)
  · intro a ha
    show f.exited vcpu frame v args host a = v.mem a
    rw [Fn.exited, afterRun, if_neg (by omega), entered_outside (by omega)]

/-! ## A struct that does not fit

`wrecked` is a guest memory that differs from the struct in every byte, and
`strict` a guest that computes `__virtine_main` as long as the lowest byte
of its stack is in place, and leaves `x` everywhere if it is not. -/

theorem SameCall.load_ret {vs : List (List UInt8)} (h : f.SameCall vcpu frame v args host)
    (hm : v.mMem ≠ 0) (hs : v.mMemsz = ramSize) (hargs : Accepts f.params args frame f.argSize)
    (hvs : fetchAll host f.params args = some vs) :
    f.ret.load (f.got vcpu frame v args host) (frame + f.retOffset) = (f.body vs).1 := by
  obtain ⟨r, m, m', v', hdirect, hcall, _, _⟩ := h
  rw [call_eq_some hvs] at hdirect
  rw [virtineCall_eq _ _ hm hs hargs, load_ret_restored hargs] at hcall
  simp only [Option.some.injEq, Prod.mk.injEq, RtVal.bytes.injEq] at hdirect hcall
  exact hcall.1.trans hdirect.1.symm

theorem byte_ne_succ (b : UInt8) : b ≠ b + 1 := by
  intro h
  have htoNat := congrArg UInt8.toNat h
  have hlt := b.toNat_lt
  rw [UInt8.toNat_add, show (1 : UInt8).toNat = 1 from rfl] at htoNat
  omega

def wrecked (f : Fn) (frame : Nat) (args : List RtVal) (host : Mem) : Mem :=
  fun a => f.sent frame args host (frame + a) + 1

def strict (f : Fn) (img : Image) (x : UInt8) : Mem → Mem :=
  fun m a => if m (0x8000 - img.stack) = img.bytes (0x8000 - img.stack) then
    (f.main m).getD m a else x

theorem executes_strict (f : Fn) (img : Image) (hsize : 0 < img.size) (x : UInt8) :
    Executes f img (strict f img x) := by
  intro m m' hplace hmain a _ _
  have hlow := hplace (0x8000 - img.stack) (Nat.le_refl _) (by omega)
  simp only [strict, hlow, if_true, hmain, Option.getD_some]

variable (host) in
/-- **A struct that does not fit breaks some call**, whatever the function
computes and whatever the arguments are. -/
theorem exists_other_call {stack : Nat} (hfit : ¬ f.Fits stack) (hm : v.mMem ≠ 0)
    (hs : v.mMemsz = ramSize) (hargs : Accepts f.params args frame f.argSize) :
    ∃ img vcpu mem, img.stack = stack ∧ Executes f img vcpu ∧ img.InPlace mem ∧
      ¬ f.SameCall vcpu frame { v with mem := mem } args host := by
  obtain ⟨vs, hvs, _⟩ := fetchAll_takes (m := host) hargs.takes
  obtain ⟨o, ho⟩ := List.exists_mem_of_ne_nil _ f.ret_bytes
  have hin := f.ret_in_struct
  have hlt := f.ret.bounded o ho
  have hram : v.mMemsz.toNat = 0x80000 := by rw [hs]; rfl
  unfold Fn.Fits at hfit
  let mem := wrecked f frame args host
  let w : Virtine S F := { v with mem := mem }
  let img : Image := { bytes := mem, size := 1, stack := stack }
  have hexec := executes_strict f img Nat.one_pos
  by_cases hend : 0x80000 < f.argSize
  · -- the copy-in writes behind the guest's memory
    refine ⟨img, strict f img 0, mem, rfl, hexec 0, fun _ _ _ => rfl, ?_⟩
    rintro ⟨r, m, m', v', _, hcall, _, hbehind⟩
    rw [virtineCall_eq (v := w) _ _ hm hs hargs] at hcall
    simp only [Option.some.injEq, Prod.mk.injEq] at hcall
    have hbyte := hbehind 0x80000 (Nat.le_of_eq hram)
    rw [← hcall.2.2] at hbyte
    have hsent : f.exited (strict f img 0) frame w args host 0x80000 =
        f.sent frame args host (frame + 0x80000) := by
      rw [Fn.exited, afterRun, if_neg (Nat.not_lt.mpr (Nat.le_of_eq hram)),
        entered_inside hend]
    exact byte_ne_succ _ (hsent.symm.trans hbyte)
  · -- the copy-in reaches the stack, and the result is whatever the guest left there
    have hgot : ∀ x,
        f.got (strict f img x) frame w args host (frame + f.retOffset + o) = x := by
      intro x
      rw [Nat.add_assoc, got_inside (by omega), Fn.exited, afterRun,
        if_pos (show f.retOffset + o < v.mMemsz.toNat by omega)]
      refine if_neg fun h => ?_
      rw [entered_inside (show 0x8000 - stack < f.argSize by omega)] at h
      exact byte_ne_succ _ h
    -- two guests that leave different bytes cannot both be right
    have hone : ∃ x, ¬ f.SameCall (strict f img x) frame w args host := by
      by_contra hall
      push Not at hall
      have h0 := SameCall.load_ret (v := w) (hall 0) hm hs hargs hvs
      have h1 := SameCall.load_ret (v := w) (hall 1) hm hs hargs hvs
      have heq := List.map_inj_left.mp (h0.trans h1.symm) o ho
      rw [hgot, hgot] at heq
      exact absurd heq (by decide)
    obtain ⟨x, hno⟩ := hone
    exact ⟨img, strict f img x, mem, rfl, hexec x, fun _ _ _ => rfl, hno⟩

/-- **A compiled call means the original call**, for every image with a
stack of so many bytes, exactly when the struct ends below the stack. -/
theorem virtine_call_iff (f : Fn) (stack frame : Nat) (v : Virtine S F) (args : List RtVal)
    (host : Mem) (hm : v.mMem ≠ 0) (hs : v.mMemsz = ramSize)
    (hargs : Accepts f.params args frame f.argSize) :
    (∀ img vcpu mem, img.stack = stack → Executes f img vcpu → img.InPlace mem →
      f.SameCall vcpu frame { v with mem := mem } args host) ↔ f.Fits stack := by
  constructor
  · intro hall
    by_contra hfit
    obtain ⟨img, vcpu, mem, hstack, hexec, himg, hno⟩ :=
      exists_other_call host hfit hm hs hargs
    exact hno (hall img vcpu mem hstack hexec himg)
  · rintro hfit img vcpu mem rfl hexec himg
    exact sameCall_of_fits (v := { v with mem := mem }) hfit hexec himg hm hs hargs

end Call

/-! ## Two functions -/

/-- An `int` of four bytes, the lowest first. -/
def intValue (b : List UInt8) : Nat := b.foldr (fun x n => x.toNat + 256 * n) 0

def intBytes (n : Nat) : List UInt8 := (List.range 4).map fun i => UInt8.ofNat (n / 256 ^ i)

/-- `smoketest_square_ref`: `*r *= *r; return 0;`. -/
def squareRef : Fn where
  params := [.pointer (.scalar 4 2)]
  ret := .scalar 4 2
  body := fun vs => (intBytes 0, vs.map fun b => intBytes (intValue b * intValue b))
  ret_bytes := by decide
  typed := by
    intro vs h
    refine ⟨rfl, ?_⟩
    obtain ⟨b, bs, _, hbs, rfl⟩ := List.forall₂_cons_left_iff.mp h
    obtain rfl := List.forall₂_nil_left_iff.mp hbs
    exact .cons rfl .nil
  sized := by decide

/-- A function that is given a buffer of 32 KiB. -/
def takesBuffer : Fn where
  params := [.pointer (.scalar 0x8000 0)]
  ret := .scalar 1 0
  body := fun vs => ([0], vs)
  ret_bytes := by decide
  typed := fun _ h => ⟨rfl, h⟩
  sized := by decide

/-- A virtine of the size the stub asks for. -/
def stubVirtine (mem : Mem) : Virtine Unit Unit :=
  { regs := {}, sregs := (), fpu := (), mem := mem, mMem := 1, mMemsz := ramSize,
    mReset := ⟨{}, (), (), []⟩, mResetMask := true }

theorem accepts_pointer {t : Layout} {a frame n : Nat} (h : a + t.size ≤ frame) :
    Accepts [.pointer t] [.ptr a] frame n where
  takes := .cons trivial .nil
  apart := List.pairwise_singleton _ _
  clear := by
    intro x hx
    rw [List.mem_singleton.mp hx]
    exact .inl h

/-- `smoketest_square_ref(&val)` with a stack of 4 KiB. -/
theorem square_ref_same_call :
    squareRef.Fits 0x1000 ∧
      squareRef.SameCall (fun m => (squareRef.main m).getD m) 4
        (stubVirtine fun _ => 0) [.ptr 0] fun a => if a = 0 then 3 else 0 := by
  have hfit : squareRef.Fits 0x1000 := by decide
  refine ⟨hfit, ?_⟩
  have hall := (virtine_call_iff squareRef 0x1000 4 (stubVirtine fun _ => 0) [.ptr 0]
    (fun a => if a = 0 then 3 else 0) (by decide) rfl (accepts_pointer (by decide))).mpr hfit
  refine hall ⟨fun _ => 0, 0, 0x1000⟩ _ (fun _ => 0) rfl ?_ fun _ _ _ => rfl
  intro m m' _ hmain a _ _
  simp only [hmain, Option.getD_some]

example : (squareRef.call [.ptr 0] fun a => if a = 0 then 3 else 0).map (fun r => r.2 0) =
    some 9 := by decide

/-- With the sixteen bytes the boot code keeps free for its stack, a call
with a buffer of 32 KiB goes wrong. -/
theorem buffer_call_differs :
    ∃ (args : List RtVal) (frame : Nat) (host mem : Mem) (img : Image) (vcpu : Mem → Mem),
      Accepts takesBuffer.params args frame takesBuffer.argSize ∧ img.stack = 16 ∧
        Executes takesBuffer img vcpu ∧ img.InPlace mem ∧
        ¬ takesBuffer.SameCall vcpu frame (stubVirtine mem) args host := by
  have hargs : Accepts takesBuffer.params [.ptr 0] 0x8000 takesBuffer.argSize :=
    accepts_pointer (by decide)
  obtain ⟨img, vcpu, mem, hstack, hexec, himg, hno⟩ :=
    exists_other_call (v := stubVirtine fun _ => 0) (fun _ => 0)
      (show ¬ takesBuffer.Fits 16 by decide) (by decide) rfl hargs
  exact ⟨_, _, _, mem, img, vcpu, hargs, hstack, hexec, himg, hno⟩

end Wasp
