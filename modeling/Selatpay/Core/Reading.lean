import Selatpay.Core.Hoare
import Selatpay.Core.Trace

/-!
# A reader beside a system

A program that only reads runs beside a system: between any two of its calls the
system takes any number of its own steps. Each call is answered from the state of the
moment, so the answers of one execution come from different states. What can be said
of its result follows from how these states are related: `Reads` is the judgement of a
call after the system has moved on by a relation, and a program that is verified
against `Reads` keeps its judgement in every interleaving.
-/

namespace Selatpay.Prog

variable {Op : Type} {Rep : Op → Type} {σ τ ε ι δ α : Type}

/-- One step: an event of the system, or the next call of the reader with its answer. -/
def besideStep (step : σ → ε → Option σ) (reply : σ → (o : Op) → ι → Option (Rep o))
    (x : σ × Prog Rep δ α) : ε ⊕ ι → Option (σ × Prog Rep δ α)
  | .inl e => match step x.1 e with
    | some t => some (t, x.2)
    | none => none
  | .inr i => match x.2 with
    | .call o k => match reply x.1 o i with
      | some r => some (x.1, k r)
      | none => none
    | _ => none

/-- The condition on the steps of the system. -/
def besideOk (ok : σ → ε → Prop) (x : σ × Prog Rep δ α) : ε ⊕ ι → Prop
  | .inl e => ok x.1 e
  | .inr _ => True

instance (ok : σ → ε → Prop) [∀ s e, Decidable (ok s e)] (x : σ × Prog Rep δ α) (e : ε ⊕ ι) :
    Decidable (besideOk ok x e) :=
  match e with
  | .inl e => inferInstanceAs (Decidable (ok x.1 e))
  | .inr _ => inferInstanceAs (Decidable True)

/-- A call is answered after the state has moved on. -/
def Reads (R : τ → τ → Prop) (reply : τ → (o : Op) → ι → Option (Rep o)) (s : τ) (o : Op)
    (r : Rep o) (s' : τ) : Prop :=
  R s s' ∧ ∃ i, reply s' o i = some r

/-- In every interleaving the rest of a verified reader is verified at the state of its last
call, and the system has moved on from there. -/
theorem Wp.beside {step : σ → ε → Option σ} {ok : σ → ε → Prop} {Inv : σ → Prop}
    {R : τ → τ → Prop} {reply : τ → (o : Op) → ι → Option (Rep o)} {f : σ → τ}
    (hrefl : ∀ s, Inv s → R (f s) (f s)) (htrans : ∀ a b c, R a b → R b c → R a c)
    (hinv : ∀ s e t, Inv s → ok s e → step s e = some t → Inv t)
    (hstep : ∀ s e t, Inv s → ok s e → step s e = some t → R (f s) (f t))
    {Q : Except δ α → τ → Prop} {s t : σ} {p q : Prog Rep δ α} {es : List (ε ⊕ ι)}
    (hs : Inv s) (hp : p.Wp (Reads R reply) Q (f s))
    (h : Path (besideStep step fun s => reply (f s)) (besideOk ok) (s, p) es (t, q)) :
    ∃ a, q.Wp (Reads R reply) Q a ∧ R a (f t) := by
  -- The induction is on the path, with the state of the last call kept apart from the current one.
  suffices hgen : ∀ x y : σ × Prog Rep δ α,
      Path (besideStep step fun s => reply (f s)) (besideOk ok) x es y → Inv x.1 →
      ∀ a, x.2.Wp (Reads R reply) Q a → R a (f x.1) →
        ∃ b, y.2.Wp (Reads R reply) Q b ∧ R b (f y.1) from
    hgen (s, p) (t, q) h hs (f s) hp (hrefl s hs)
  clear h hp hs
  intro x y h
  induction h with
  | nil x => exact fun _ a hp hR => ⟨a, hp, hR⟩
  | @cons x z y e es hok he _ ih =>
    intro hx a hp hR
    cases e with
    | inl e =>
      cases ht : step x.1 e with
      | none => simp [besideStep, ht] at he
      | some t =>
        simp only [besideStep, ht, Option.some.injEq] at he
        subst he
        exact ih (hinv _ _ _ hx hok ht) a hp (htrans _ _ _ hR (hstep _ _ _ hx hok ht))
    | inr i =>
      obtain ⟨s, p⟩ := x
      cases p with
      | ret v => simp [besideStep] at he
      | throw v => simp [besideStep] at he
      | call o k =>
        cases hr : reply (f s) o i with
        | none => simp [besideStep, hr] at he
        | some r =>
          simp only [besideStep, hr, Option.some.injEq] at he
          subst he
          exact ih hx (f s) (hp r (f s) ⟨hR, i, hr⟩) (hrefl _ hx)

end Selatpay.Prog
