import Mathlib.Data.List.Forall2
import Selatpay.Core.Trace

/-!
# Simulation of one system by another

While one system takes its events, another one takes the events they are translated
to, none, one or several for each. When every step is matched along its translation,
whole runs are, and the states they reach stay related.
-/

namespace Selatpay

variable {σ τ ε δ : Type} {step : σ → ε → Option σ} {step' : τ → δ → Option τ}

/-- The events of a run, each translated in the state it is taken from. -/
def translated (step : σ → ε → Option σ) (translate : σ → ε → List δ) : σ → List ε → List δ
  | _, [] => []
  | s, e :: es => match step s e with
    | none => []
    | some t => translate s e ++ translated step translate t es

/-- Two lists of events, one after the other. -/
theorem run_append {s t : σ} {es es' : List ε} (h : run step s es = some t) :
    run step s (es ++ es') = run step t es' := by
  induction es generalizing s with
  | nil =>
    cases h
    rfl
  | cons e es ih =>
    cases hs : step s e with
    | none => simp [run, hs] at h
    | some u =>
      have hrest : run step u es = some t := by simpa [run, hs] using h
      simpa [run, hs] using ih hrest

/-- Every step of the first system is a run of the second one along its translation. -/
def Simulates (step : σ → ε → Option σ) (step' : τ → δ → Option τ) (translate : σ → ε → List δ)
    (R : σ → τ → Prop) : Prop :=
  ∀ s t e s', R s t → step s e = some s' → ∃ t', run step' t (translate s e) = some t' ∧ R s' t'

/-- A simulation carries over to whole runs. -/
theorem Simulates.run {translate : σ → ε → List δ} {R : σ → τ → Prop}
    (hsim : Simulates step step' translate R) {s s' : σ} {t : τ} {es : List ε} (hR : R s t)
    (h : run step s es = some s') :
    ∃ t', Selatpay.run step' t (translated step translate s es) = some t' ∧ R s' t' := by
  induction es generalizing s t with
  | nil =>
    cases h
    exact ⟨t, rfl, hR⟩
  | cons e es ih =>
    cases hs : step s e with
    | none => simp [Selatpay.run, hs] at h
    | some u =>
      have hrest : Selatpay.run step u es = some s' := by simpa [Selatpay.run, hs] using h
      obtain ⟨v, hv, hRv⟩ := hsim s t e u hR hs
      obtain ⟨t', ht', hR'⟩ := ih hRv hrest
      refine ⟨t', ?_, hR'⟩
      simpa [translated, hs, run_append hv] using ht'

section Pairwise

variable {α β : Type} {R : α → β → Prop} {xs : List α} {ys : List β}

/-- Related lists have related elements at the same places. -/
theorem exists_getElem?_of_forall₂ (h : List.Forall₂ R xs ys) {n : Nat} {x : α}
    (hx : xs[n]? = some x) : ∃ y, ys[n]? = some y ∧ R x y := by
  induction h generalizing n with
  | nil => simp at hx
  | cons hxy _ ih =>
    cases n with
    | zero =>
      cases hx
      exact ⟨_, rfl, hxy⟩
    | succ n => exact ih hx

/-- Related lists stay related when related elements are put at the same place. -/
theorem forall₂_set (h : List.Forall₂ R xs ys) (n : Nat) {x : α} {y : β} (hxy : R x y) :
    List.Forall₂ R (xs.set n x) (ys.set n y) := by
  induction h generalizing n with
  | nil => exact .nil
  | cons hhead htail ih =>
    cases n with
    | zero => exact .cons hxy htail
    | succ n => exact .cons hhead (ih n)

end Pairwise

section Hidden

variable {α : Type} {P : α → Bool} {xs : List α} {n : Nat} {x x' : α}

/-- The place of an element among those that are kept. -/
def position (P : α → Bool) (xs : List α) (n : Nat) : Nat := (xs.take n).countP P

/-- A list around one of its elements. -/
theorem exists_around (hx : xs[n]? = some x) :
    ∃ l r, xs = l ++ x :: r ∧ n = l.length ∧ position P xs n = (l.filter P).length := by
  obtain ⟨hn, rfl⟩ := List.getElem?_eq_some_iff.mp hx
  refine ⟨xs.take n, xs.drop (n + 1), ?_, ?_, List.countP_eq_length_filter⟩
  · rw [← List.drop_eq_getElem_cons hn, List.take_append_drop]
  · rw [List.length_take]
    omega

/-- A kept element is found at its place. -/
theorem getElem?_filter_position (hx : xs[n]? = some x) (hP : P x = true) :
    (xs.filter P)[position P xs n]? = some x := by
  obtain ⟨l, r, rfl, rfl, hpos⟩ := exists_around (P := P) hx
  rw [hpos, List.filter_append, List.filter_cons_of_pos hP]
  simp

/-- A kept element that changes changes at its place. -/
theorem filter_set_position (hx : xs[n]? = some x) (hP : P x = true) (hP' : P x' = true) :
    (xs.set n x').filter P = (xs.filter P).set (position P xs n) x' := by
  obtain ⟨l, r, rfl, rfl, hpos⟩ := exists_around (P := P) hx
  rw [hpos, List.filter_append, List.filter_cons_of_pos hP]
  simp [List.filter_cons_of_pos hP']

/-- A hidden element may change. -/
theorem filter_set_hidden (hx : xs[n]? = some x) (hP : P x = false) (hP' : P x' = false) :
    (xs.set n x').filter P = xs.filter P := by
  obtain ⟨l, r, rfl, rfl, -⟩ := exists_around (P := P) hx
  simp [hP, hP']

end Hidden

end Selatpay
