import Mathlib.Data.List.Basic

/-!
# Runs of a partial step function

A system is a step function `σ → ε → Option σ` over explicit events: an event
that is not enabled is refused, and every source of nondeterminism is carried by
the event itself. A `Path` is a run each of whose steps meets a condition in the
state it is taken from. Safety properties are proved once for a step and carried
to whole paths by `Path.invariant`.
-/

namespace Selatpay

variable {σ ε : Type}

/-- Execute the events in order, refusing the whole list at the first disabled event. -/
def run (step : σ → ε → Option σ) : σ → List ε → Option σ
  | s, [] => some s
  | s, e :: es => match step s e with
    | none => none
    | some t => run step t es

/-- A run from one state to another whose steps all meet `ok` where they are taken. -/
inductive Path (step : σ → ε → Option σ) (ok : σ → ε → Prop) : σ → List ε → σ → Prop
  | nil (s : σ) : Path step ok s [] s
  | cons {s t u : σ} {e : ε} {es : List ε} : ok s e → step s e = some t →
      Path step ok t es u → Path step ok s (e :: es) u

/-- The condition that every step meets. -/
def anyStep (_ : σ) (_ : ε) : Prop := True

instance (s : σ) (e : ε) : Decidable (anyStep s e) := inferInstanceAs (Decidable True)

/-- Execute the events in order, also refusing a step that does not meet the condition. -/
def runIf (step : σ → ε → Option σ) (ok : σ → ε → Prop) [∀ s e, Decidable (ok s e)] :
    σ → List ε → Option σ
  | s, [] => some s
  | s, e :: es => if ok s e then match step s e with
      | none => none
      | some t => runIf step ok t es
    else none

/-- The result of an execution, when a decidable condition is evaluated on it. -/
theorem exists_of_any {o : Option σ} {P : σ → Prop} [DecidablePred P]
    (h : (o.any fun s => decide (P s)) = true) : ∃ s, o = some s ∧ P s := by
  cases o with
  | none => cases h
  | some s => exact ⟨s, rfl, of_decide_eq_true h⟩

variable {step : σ → ε → Option σ} {ok ok' : σ → ε → Prop}

/-- A conditional execution that ends is a path. -/
theorem Path.of_runIf [∀ s e, Decidable (ok s e)] {s t : σ} {es : List ε}
    (h : runIf step ok s es = some t) : Path step ok s es t := by
  induction es generalizing s with
  | nil => cases h; exact .nil _
  | cons e es ih =>
    simp only [runIf] at h
    split at h
    · cases hs : step s e with
      | none => simp [hs] at h
      | some u => exact .cons ‹_› hs (ih (by simpa [hs] using h))
    · cases h

/-- An unconditional execution that ends is a path. -/
theorem Path.of_run {s t : σ} {es : List ε} (h : run step s es = some t) :
    Path step anyStep s es t := by
  induction es generalizing s with
  | nil => cases h; exact .nil _
  | cons e es ih =>
    simp only [run] at h
    cases hs : step s e with
    | none => simp [hs] at h
    | some u => exact .cons trivial hs (ih (by simpa [hs] using h))

/-- Two paths, one after the other. -/
theorem Path.append {s t u : σ} {es es' : List ε} (h : Path step ok s es t)
    (h' : Path step ok t es' u) : Path step ok s (es ++ es') u := by
  induction h with
  | nil => exact h'
  | cons hok he _ ih => exact .cons hok he (ih h')

/-- A path of steps that meet a condition meets a weaker one. -/
theorem Path.mono (hok : ∀ s e, ok s e → ok' s e) {s t : σ} {es : List ε}
    (h : Path step ok s es t) : Path step ok' s es t := by
  induction h with
  | nil s => exact .nil s
  | cons he hst _ ih => exact .cons (hok _ _ he) hst ih

/-- What one step keeps, a whole path keeps. -/
theorem Path.invariant {Inv : σ → Prop}
    (hstep : ∀ s e t, Inv s → ok s e → step s e = some t → Inv t)
    {s t : σ} {es : List ε} (h : Path step ok s es t) (hs : Inv s) : Inv t := by
  induction h with
  | nil => exact hs
  | cons hok he _ ih => exact ih (hstep _ _ _ hs hok he)

/-- What one step keeps, given the events so far, a whole path keeps. -/
theorem Path.history {Inv : List ε → σ → Prop}
    (hstep : ∀ past s e t, Inv past s → ok s e → step s e = some t → Inv (past ++ [e]) t)
    {s t : σ} {past es : List ε} (h : Path step ok s es t) (hs : Inv past s) :
    Inv (past ++ es) t := by
  induction h generalizing past with
  | nil => simpa using hs
  | cons hok he _ ih => simpa using ih (hstep _ _ _ _ hs hok he)

/-- What one step does to two states, a reflexive and transitive relation does along a path
of states that keep an invariant. -/
theorem Path.related {Inv : σ → Prop} {R : σ → σ → Prop} (hrefl : ∀ s, R s s)
    (htrans : ∀ s t u, R s t → R t u → R s u)
    (hinv : ∀ s e t, Inv s → ok s e → step s e = some t → Inv t)
    (hstep : ∀ s e t, Inv s → ok s e → step s e = some t → R s t)
    {s t : σ} {es : List ε} (h : Path step ok s es t) (hs : Inv s) : R s t := by
  induction h with
  | nil => exact hrefl _
  | cons hok he _ ih =>
    exact htrans _ _ _ (hstep _ _ _ hs hok he) (ih (hinv _ _ _ hs hok he))

end Selatpay
