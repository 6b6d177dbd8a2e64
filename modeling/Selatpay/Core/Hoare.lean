import Selatpay.Core.Protocol

/-!
# Weakest preconditions of programs

`Prog.Wp` is the judgement that every execution of a program from a state ends as
required, for a relation that says how calls are answered and what they do to the
state. A program that runs alone is verified with the rules below; one that runs
among others keeps its judgement as long as the others leave its state as it is.
-/

namespace Selatpay.Prog

variable {Op : Type} {Rep : Op → Type} {ε δ α β σ τ : Type}

/-- Every execution from the state ends as required. -/
def Wp (answers : σ → (o : Op) → Rep o → σ → Prop) (Q : Except ε α → σ → Prop) :
    Prog Rep ε α → σ → Prop
  | .ret a, s => Q (.ok a) s
  | .throw e, s => Q (.error e) s
  | .call o k, s => ∀ r s', answers s o r s' → (k r).Wp answers Q s'

variable {answers : σ → (o : Op) → Rep o → σ → Prop} {Q : Except ε α → σ → Prop} {s : σ}

/-- The rule of consequence. -/
theorem Wp.mono {Q' : Except ε α → σ → Prop} {p : Prog Rep ε α} (h : p.Wp answers Q s)
    (hQ : ∀ x s, Q x s → Q' x s) : p.Wp answers Q' s := by
  induction p generalizing s with
  | ret a => exact hQ _ _ h
  | throw e => exact hQ _ _ h
  | call o k ih => exact fun r s' hr => ih r (h r s' hr)

/-- Nothing is required of the end. -/
theorem wp_true (p : Prog Rep ε α) (s : σ) : p.Wp answers (fun _ _ => True) s := by
  induction p generalizing s with
  | ret a => trivial
  | throw e => trivial
  | call o k ih => exact fun r s' _ => ih r s'

/-- The rule of composition. -/
theorem Wp.bind {R : Except ε β → σ → Prop} {p : Prog Rep ε α} {f : α → Prog Rep ε β}
    (h : p.Wp answers Q s) (hf : ∀ a s, Q (.ok a) s → (f a).Wp answers R s)
    (he : ∀ e s, Q (.error e) s → R (.error e) s) : (p.bind f).Wp answers R s := by
  induction p generalizing s with
  | ret a => exact hf a s h
  | throw e => exact he e s h
  | call o k ih => exact fun r s' hr => ih r (h r s' hr)

/-- A caught error is a value like any other. -/
theorem Wp.attempt {R : Except δ (Except ε α) → σ → Prop} {p : Prog Rep ε α}
    (h : p.Wp answers Q s) (hR : ∀ x s, Q x s → R (.ok x) s) :
    (p.attempt : Prog Rep δ (Except ε α)).Wp answers R s := by
  induction p generalizing s with
  | ret a => exact hR _ _ h
  | throw e => exact hR _ _ h
  | call o k ih => exact fun r s' hr => ih r (h r s' hr)

/-- A rewritten error changes no call. -/
theorem Wp.mapErr {R : Except δ α → σ → Prop} {g : ε → δ} {p : Prog Rep ε α}
    (h : p.Wp answers Q s) (hR : ∀ x s, Q x s → R (x.mapError g) s) :
    (p.mapErr g).Wp answers R s := by
  induction p generalizing s with
  | ret a => exact hR _ _ h
  | throw e => exact hR _ _ h
  | call o k ih => exact fun r s' hr => ih r (h r s' hr)

/-- A program inside a larger set of calls, whose state is a part of a larger one. -/
theorem Wp.lift {Op' : Type} {Rep' : Op' → Type} {inj : Op → Op'}
    {back : ∀ o, Rep' (inj o) → Rep o} {answers' : τ → (o : Op') → Rep' o → τ → Prop}
    {R : Except ε α → τ → Prop} {p : Prog Rep ε α} (f : σ → τ)
    (hanswers : ∀ s o r t, answers' (f s) (inj o) r t → ∃ s', answers s o (back o r) s' ∧ t = f s')
    (h : p.Wp answers Q s) (hR : ∀ x s, Q x s → R x (f s)) :
    (p.lift inj back).Wp answers' R (f s) := by
  induction p generalizing s with
  | ret a => exact hR _ _ h
  | throw e => exact hR _ _ h
  | call o k ih =>
    intro r t hr
    obtain ⟨s', hs', rfl⟩ := hanswers s o r t hr
    exact ih (back o r) (h _ s' hs')

end Selatpay.Prog
