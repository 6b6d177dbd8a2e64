import Selatpay.Core.Program

/-!
# Programs with conditions on their calls

`Prog.Meets` is the judgement that every execution of a program from a state makes each
call where the condition of the call holds, and ends as required. The relation `answers`
says how calls are answered and what they do to the state. As the judgement is about
every execution, a program that is in the middle of one still meets its conditions at the
state it has come to.
-/

namespace Selatpay.Prog

variable {Op : Type} {Rep : Op → Type} {ε δ α β σ : Type}

/-- Each call is made where its condition holds, and the program ends as required. -/
def Meets (pre : σ → Op → Prop) (answers : σ → (o : Op) → Rep o → σ → Prop)
    (Q : Except ε α → σ → Prop) : Prog Rep ε α → σ → Prop
  | .ret a, s => Q (.ok a) s
  | .throw e, s => Q (.error e) s
  | .call o k, s => pre s o ∧ ∀ r s', answers s o r s' → (k r).Meets pre answers Q s'

variable {pre : σ → Op → Prop} {answers : σ → (o : Op) → Rep o → σ → Prop}
  {Q : Except ε α → σ → Prop} {s : σ}

/-- The rule of composition. -/
theorem Meets.bind {R : Except ε β → σ → Prop} {p : Prog Rep ε α} {f : α → Prog Rep ε β}
    (h : p.Meets pre answers Q s) (hf : ∀ a s, Q (.ok a) s → (f a).Meets pre answers R s)
    (he : ∀ e s, Q (.error e) s → R (.error e) s) : (p.bind f).Meets pre answers R s := by
  induction p generalizing s with
  | ret a => exact hf a s h
  | throw e => exact he e s h
  | call o k ih => exact ⟨h.1, fun r s' hr => ih r (h.2 r s' hr)⟩

/-- A rewritten error changes no call. -/
theorem Meets.mapErr {R : Except δ α → σ → Prop} {g : ε → δ} {p : Prog Rep ε α}
    (h : p.Meets pre answers Q s) (hR : ∀ x s, Q x s → R (x.mapError g) s) :
    (p.mapErr g).Meets pre answers R s := by
  induction p generalizing s with
  | ret a => exact hR _ _ h
  | throw e => exact hR _ _ h
  | call o k ih => exact ⟨h.1, fun r s' hr => ih r (h.2 r s' hr)⟩

end Selatpay.Prog
