import Selatpay.Core.Program

/-!
# Programs that follow a protocol

A protocol says in each phase which calls a program may make and to which phase a
reply leads. `Prog.Obeys` is the judgement that a program follows a protocol
whatever the replies are, with a condition on the phase it ends in. A program that
obeys a protocol does so however it is interleaved with others, so that an
invariant of a concurrent system only has to speak about phases.
-/

namespace Selatpay.Prog

variable {Op : Type} {Rep : Op → Type} {ε δ α β φ : Type}

/-- Run a program to its value or its error, without raising the error. -/
def attempt : Prog Rep ε α → Prog Rep δ (Except ε α)
  | .ret a => .ret (.ok a)
  | .throw e => .ret (.error e)
  | .call o k => .call o fun r => (k r).attempt

/-- From a phase, every call is allowed where it is made and the program ends as required. -/
def Obeys (next : φ → (o : Op) → Rep o → Option φ) (Q : φ → Except ε α → Prop) :
    φ → Prog Rep ε α → Prop
  | p, .ret a => Q p (.ok a)
  | p, .throw e => Q p (.error e)
  | p, .call o k => ∀ r, ∃ p', next p o r = some p' ∧ (k r).Obeys next Q p'

variable {next : φ → (o : Op) → Rep o → Option φ} {Q : φ → Except ε α → Prop} {p : φ}

@[simp] theorem obeys_ret {a : α} : (ret a : Prog Rep ε α).Obeys next Q p ↔ Q p (.ok a) := .rfl

@[simp] theorem obeys_throw {e : ε} :
    (throw e : Prog Rep ε α).Obeys next Q p ↔ Q p (.error e) := .rfl

@[simp] theorem obeys_call {o : Op} {k : Rep o → Prog Rep ε α} :
    (call o k).Obeys next Q p ↔ ∀ r, ∃ p', next p o r = some p' ∧ (k r).Obeys next Q p' := .rfl

/-- The rule of composition: the second program starts in the phase the first one ends in. -/
theorem Obeys.bind {R : φ → Except ε β → Prop} {prog : Prog Rep ε α} {f : α → Prog Rep ε β}
    (h : prog.Obeys next Q p) (hf : ∀ p a, Q p (.ok a) → (f a).Obeys next R p)
    (he : ∀ p e, Q p (.error e) → R p (.error e)) : (prog.bind f).Obeys next R p := by
  induction prog generalizing p with
  | ret a => exact hf p a h
  | throw e => exact he p e h
  | call o k ih =>
    intro r
    obtain ⟨p', hp, hk⟩ := h r
    exact ⟨p', hp, ih r hk⟩

/-- A caught error is a value like any other. -/
theorem Obeys.attempt {R : φ → Except δ (Except ε α) → Prop} {prog : Prog Rep ε α}
    (h : prog.Obeys next Q p) (hR : ∀ p x, Q p x → R p (.ok x)) :
    (prog.attempt : Prog Rep δ (Except ε α)).Obeys next R p := by
  induction prog generalizing p with
  | ret a => exact hR p _ h
  | throw e => exact hR p _ h
  | call o k ih =>
    intro r
    obtain ⟨p', hp, hk⟩ := h r
    exact ⟨p', hp, ih r hk⟩

/-- A rewritten error changes no call. -/
theorem Obeys.mapErr {g : ε → δ} {prog : Prog Rep ε α} (h : prog.Obeys next Q p) :
    (prog.mapErr g).Obeys next (fun p x => ∃ y, Q p y ∧ x = y.mapError g) p := by
  induction prog generalizing p with
  | ret a => exact ⟨_, h, rfl⟩
  | throw e => exact ⟨_, h, rfl⟩
  | call o k ih =>
    intro r
    obtain ⟨p', hp, hk⟩ := h r
    exact ⟨p', hp, ih r hk⟩

/-- A program inside a larger set of calls obeys every protocol that extends its own. -/
theorem Obeys.lift {Op' ψ : Type} {Rep' : Op' → Type} {inj : Op → Op'}
    {back : ∀ o, Rep' (inj o) → Rep o} {next' : ψ → (o : Op') → Rep' o → Option ψ}
    {R : ψ → Except ε α → Prop} {prog : Prog Rep ε α} (f : φ → ψ)
    (hnext : ∀ p p' o r, next p o (back o r) = some p' → next' (f p) (inj o) r = some (f p'))
    (h : prog.Obeys next Q p) (hR : ∀ p x, Q p x → R (f p) x) :
    (prog.lift inj back).Obeys next' R (f p) := by
  induction prog generalizing p with
  | ret a => exact hR p _ h
  | throw e => exact hR p _ h
  | call o k ih =>
    intro r
    obtain ⟨p', hp, hk⟩ := h (back o r)
    exact ⟨f p', hnext p p' o r hp, ih _ hk⟩

end Selatpay.Prog
