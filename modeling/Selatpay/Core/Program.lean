import Mathlib.Data.List.Basic

/-!
# Programs that interact with a store one statement at a time

A `Prog` is a tree of calls: it stops at each call, receives a reply and goes
on. Nothing in the tree fixes when the reply is computed, so the same program
can be interleaved with others at every call. `Steps` records the store states
at which the calls of one execution were answered together with the effects the
execution has gathered; an inversion lemma for a program is a statement about
its `Steps`, independent of what the rest of the system does in between.
-/

namespace Selatpay

variable {Op : Type} {Rep : Op → Type} {ε δ α β : Type}

/-- A program over calls `Op` with replies `Rep`, ending in a value or an error. -/
inductive Prog (Rep : Op → Type) (ε α : Type) : Type
  | ret (a : α) : Prog Rep ε α
  | throw (e : ε) : Prog Rep ε α
  | call (o : Op) (k : Rep o → Prog Rep ε α) : Prog Rep ε α

namespace Prog

/-- Sequential composition; an error skips the continuation. -/
def bind : Prog Rep ε α → (α → Prog Rep ε β) → Prog Rep ε β
  | .ret a, f => f a
  | .throw e, _ => .throw e
  | .call o k, f => .call o fun r => (k r).bind f

instance : Monad (Prog Rep ε) where
  pure := .ret
  bind := bind

/-- Issue one call and return its reply. -/
def query (o : Op) : Prog Rep ε (Rep o) := .call o .ret

/-- Turn an error reply into an error of the program. -/
def orThrow (p : Prog Rep ε (Except δ α)) (f : δ → ε) : Prog Rep ε α :=
  p.bind fun
    | .ok a => .ret a
    | .error d => .throw (f d)

/-- Rewrite the error a program ends in. -/
def mapErr (g : ε → δ) : Prog Rep ε α → Prog Rep δ α
  | .ret a => .ret a
  | .throw e => .throw (g e)
  | .call o k => .call o fun r => (k r).mapErr g

/-- Run a program over a smaller set of calls inside a larger one. -/
def lift {Op' : Type} {Rep' : Op' → Type} (inj : Op → Op') (back : ∀ o, Rep' (inj o) → Rep o) :
    Prog Rep ε α → Prog Rep' ε α
  | .ret a => .ret a
  | .throw e => .throw e
  | .call o k => .call (inj o) fun r => (k (back o r)).lift inj back

@[simp] theorem pure_eq (a : α) : (pure a : Prog Rep ε α) = .ret a := rfl

@[simp] theorem bind_eq (p : Prog Rep ε α) (f : α → Prog Rep ε β) : p >>= f = p.bind f := rfl

@[simp] theorem ret_bind (a : α) (f : α → Prog Rep ε β) : (ret a).bind f = f a := rfl

@[simp] theorem throw_bind (e : ε) (f : α → Prog Rep ε β) :
    (throw e : Prog Rep ε α).bind f = .throw e := rfl

@[simp] theorem call_bind (o : Op) (k : Rep o → Prog Rep ε α) (f : α → Prog Rep ε β) :
    (call o k).bind f = .call o fun r => (k r).bind f := rfl

/-- Every call the program can make satisfies a condition. -/
inductive Calls (P : Op → Prop) : Prog Rep ε α → Prop
  | ret (a : α) : Calls P (.ret a)
  | throw (e : ε) : Calls P (.throw e)
  | call {o : Op} {k : Rep o → Prog Rep ε α} : P o → (∀ r, Calls P (k r)) → Calls P (.call o k)

section Calls

variable {P : Op → Prop}

theorem Calls.bind {p : Prog Rep ε α} {f : α → Prog Rep ε β} (hp : p.Calls P)
    (hf : ∀ a, (f a).Calls P) : (p.bind f).Calls P := by
  induction hp with
  | ret a => exact hf a
  | throw e => exact .throw e
  | call ho _ ih => exact .call ho ih

theorem Calls.query {o : Op} (ho : P o) : (Prog.query o : Prog Rep ε (Rep o)).Calls P :=
  .call ho fun r => .ret r

theorem Calls.orThrow {p : Prog Rep ε (Except δ α)} {f : δ → ε} (hp : p.Calls P) :
    (p.orThrow f).Calls P := by
  refine hp.bind fun r => ?_
  cases r with
  | ok a => exact .ret a
  | error d => exact .throw (f d)

theorem Calls.mapErr {p : Prog Rep ε α} {g : ε → δ} (hp : p.Calls P) : (p.mapErr g).Calls P := by
  induction hp with
  | ret a => exact .ret a
  | throw e => exact .throw (g e)
  | call ho _ ih => exact .call ho ih

theorem Calls.lift {Op' : Type} {Rep' : Op' → Type} {Q : Op' → Prop} {inj : Op → Op'}
    {back : ∀ o, Rep' (inj o) → Rep o} (hQ : ∀ o, Q (inj o)) (p : Prog Rep ε α) :
    (p.lift inj back).Calls Q := by
  induction p with
  | ret a => exact .ret a
  | throw e => exact .throw e
  | call o k ih => exact .call (hQ o) fun r => ih (back o r)

theorem calls_any (p : Prog Rep ε α) : p.Calls fun _ => True := by
  induction p with
  | ret a => exact .ret a
  | throw e => exact .throw e
  | call o k ih => exact .call trivial ih

/-- The program has returned or is about to make a call outside a class. -/
def Outside (P : Op → Prop) (q : Prog Rep ε α) : Prop :=
  (∃ a, q = .ret a) ∨ ∃ o k, q = .call o k ∧ ¬ P o

theorem outside_ret (a : α) : (ret a : Prog Rep ε α).Outside P := .inl ⟨a, rfl⟩

theorem outside_call {o : Op} {k : Rep o → Prog Rep ε α} (ho : ¬ P o) :
    (call o k : Prog Rep ε α).Outside P := .inr ⟨o, k, rfl, ho⟩

theorem not_outside_throw {e : ε} : ¬ (throw e : Prog Rep ε α).Outside P := by
  rintro (⟨a, ha⟩ | ⟨o, k, ho, -⟩)
  · cases ha
  · cases ho

end Calls

end Prog

/-! ## Executions -/

section Steps

variable {σ η : Type} (respond : σ → List η → (o : Op) → Rep o → List η → Prop)

/-- `Steps respond p l h q m`: answered at the store states `h`, the program `p` with
gathered effects `l` has become `q` with gathered effects `m`. -/
inductive Steps : Prog Rep ε α → List η → List σ → Prog Rep ε α → List η → Prop
  | refl (p : Prog Rep ε α) (l : List η) : Steps p l [] p l
  | step {o : Op} {k : Rep o → Prog Rep ε α} {l : List η} {s : σ} {r : Rep o} {es : List η}
      {h : List σ} {q : Prog Rep ε α} {m : List η} :
      respond s l o r es → Steps (k r) (l ++ es) h q m → Steps (.call o k) l (s :: h) q m

variable {respond}

/-- An execution goes on by one more answered call. -/
theorem Steps.snoc {p : Prog Rep ε α} {l m es : List η} {h : List σ} {o : Op}
    {k : Rep o → Prog Rep ε α} {s : σ} {r : Rep o} (hp : Steps respond p l h (.call o k) m)
    (hr : respond s m o r es) : Steps respond p l (h ++ [s]) (k r) (m ++ es) := by
  generalize hq : Prog.call o k = q at hp
  induction hp with
  | refl p l => subst hq; exact .step hr (.refl _ _)
  | step hr' _ ih => exact .step hr' (ih hr hq)

/-- A returned value is the end of an execution. -/
@[simp] theorem steps_ret_iff {a : α} {l m : List η} {h : List σ} {q : Prog Rep ε α} :
    Steps respond (.ret a) l h q m ↔ h = [] ∧ q = .ret a ∧ m = l := by
  constructor
  · rintro ⟨⟩
    exact ⟨rfl, rfl, rfl⟩
  · rintro ⟨rfl, rfl, rfl⟩
    exact .refl _ _

/-- A raised error is the end of an execution. -/
@[simp] theorem steps_throw_iff {e : ε} {l m : List η} {h : List σ} {q : Prog Rep ε α} :
    Steps respond (.throw e) l h q m ↔ h = [] ∧ q = .throw e ∧ m = l := by
  constructor
  · rintro ⟨⟩
    exact ⟨rfl, rfl, rfl⟩
  · rintro ⟨rfl, rfl, rfl⟩
    exact .refl _ _

/-- A call is either still waiting or has been answered at the first recorded state. -/
theorem steps_call_iff {o : Op} {k : Rep o → Prog Rep ε α} {l m : List η} {h : List σ}
    {q : Prog Rep ε α} : Steps respond (.call o k) l h q m ↔
      (h = [] ∧ q = .call o k ∧ m = l) ∨ ∃ s h' r es, h = s :: h' ∧ respond s l o r es ∧
        Steps respond (k r) (l ++ es) h' q m := by
  constructor
  · rintro (_ | ⟨hr, hk⟩)
    · exact .inl ⟨rfl, rfl, rfl⟩
    · exact .inr ⟨_, _, _, _, rfl, hr, hk⟩
  · rintro (⟨rfl, rfl, rfl⟩ | ⟨s, h', r, es, rfl, hr, hk⟩)
    · exact .refl _ _
    · exact .step hr hk

/-- What holds of every call of a program holds of what is left of it. -/
theorem Steps.calls {P : Op → Prop} {p q : Prog Rep ε α} {l m : List η} {h : List σ}
    (hs : Steps respond p l h q m) (hp : p.Calls P) : q.Calls P := by
  induction hs with
  | refl p l => exact hp
  | step _ _ ih =>
    cases hp with
    | call _ hk => exact ih (hk _)

/-- An execution of a composition is inside its first part or has entered its second. -/
theorem Steps.of_bind {p : Prog Rep ε α} {f : α → Prog Rep ε β} {l m : List η} {h : List σ}
    {q : Prog Rep ε β} (hp : Steps respond (p.bind f) l h q m) :
    (∃ p', Steps respond p l h p' m ∧ q = p'.bind f) ∨
      ∃ a h₁ h₂ n, h = h₁ ++ h₂ ∧ Steps respond p l h₁ (.ret a) n ∧
        Steps respond (f a) n h₂ q m := by
  induction p generalizing l h with
  | ret a => exact .inr ⟨a, [], h, l, rfl, .refl _ _, hp⟩
  | throw e =>
    rw [Prog.throw_bind, steps_throw_iff] at hp
    obtain ⟨rfl, rfl, rfl⟩ := hp
    exact .inl ⟨_, .refl _ _, rfl⟩
  | call o k ih =>
    rw [Prog.call_bind, steps_call_iff] at hp
    obtain ⟨rfl, rfl, rfl⟩ | ⟨s, h', r, es, rfl, hr, hk⟩ := hp
    · exact .inl ⟨_, .refl _ _, rfl⟩
    · obtain ⟨p', hp', hq⟩ | ⟨a, h₁, h₂, n, rfl, ha, hf⟩ := ih r hk
      · exact .inl ⟨p', .step hr hp', hq⟩
      · exact .inr ⟨a, s :: h₁, h₂, n, rfl, .step hr ha, hf⟩

/-- A composition outside the calls of its first part has run that part to a value. -/
theorem Steps.of_bind_outside {P : Op → Prop} {p : Prog Rep ε α} {f : α → Prog Rep ε β}
    {l m : List η} {h : List σ} {q : Prog Rep ε β} (hp : Steps respond (p.bind f) l h q m)
    (hcalls : p.Calls P) (hq : q.Outside P) :
    ∃ a h₁ h₂ n, h = h₁ ++ h₂ ∧ Steps respond p l h₁ (.ret a) n ∧ Steps respond (f a) n h₂ q m := by
  obtain ⟨p', hp', rfl⟩ | hdone := hp.of_bind
  · have hrest := hp'.calls hcalls
    cases hrest with
    | ret a => exact ⟨a, h, [], m, by simp, hp', .refl _ _⟩
    | throw e => exact absurd hq Prog.not_outside_throw
    | call ho _ =>
      obtain ⟨a, ha⟩ | ⟨o, k, hk, hno⟩ := hq
      · cases ha
      · cases hk
        exact absurd ho hno
  · exact hdone

/-- A composition that returned ran its first part to a value and its second from there. -/
theorem Steps.of_bind_ret {p : Prog Rep ε α} {f : α → Prog Rep ε β} {l m : List η} {h : List σ}
    {b : β} (hp : Steps respond (p.bind f) l h (.ret b) m) :
    ∃ a h₁ h₂ n, h = h₁ ++ h₂ ∧ Steps respond p l h₁ (.ret a) n ∧
      Steps respond (f a) n h₂ (.ret b) m :=
  hp.of_bind_outside (Prog.calls_any p) (Prog.outside_ret b)

/-- A composition that raised an error did so in its first part, or in its second. -/
theorem Steps.of_bind_throw {p : Prog Rep ε α} {f : α → Prog Rep ε β} {l m : List η} {h : List σ}
    {e : ε} (hp : Steps respond (p.bind f) l h (.throw e) m) :
    Steps respond p l h (.throw e) m ∨
      ∃ a h₁ h₂ n, h = h₁ ++ h₂ ∧ Steps respond p l h₁ (.ret a) n ∧
        Steps respond (f a) n h₂ (.throw e) m := by
  obtain ⟨p', hp', hq⟩ | hdone := hp.of_bind
  · cases p' with
    | ret a => exact .inr ⟨a, h, [], m, by simp, hp', by rw [hq]; exact .refl _ _⟩
    | throw e' => cases hq; exact .inl hp'
    | call o k => cases hq
  · exact .inr hdone

/-- Rewriting errors changes nothing of an execution but the error it ends in. -/
theorem Steps.of_mapErr {g : ε → δ} {p : Prog Rep ε α} {l m : List η} {h : List σ}
    {q : Prog Rep δ α} (hp : Steps respond (p.mapErr g) l h q m) :
    ∃ p', Steps respond p l h p' m ∧ q = p'.mapErr g := by
  induction p generalizing l h with
  | ret a =>
    rw [Prog.mapErr, steps_ret_iff] at hp
    obtain ⟨rfl, rfl, rfl⟩ := hp
    exact ⟨_, .refl _ _, rfl⟩
  | throw e =>
    rw [Prog.mapErr, steps_throw_iff] at hp
    obtain ⟨rfl, rfl, rfl⟩ := hp
    exact ⟨_, .refl _ _, rfl⟩
  | call o k ih =>
    rw [Prog.mapErr, steps_call_iff] at hp
    obtain ⟨rfl, rfl, rfl⟩ | ⟨s, h', r, es, rfl, hr, hk⟩ := hp
    · exact ⟨_, .refl _ _, rfl⟩
    · obtain ⟨p', hp', hq⟩ := ih r hk
      exact ⟨p', .step hr hp', hq⟩

/-- Rewriting errors does not touch a returned value. -/
theorem Steps.of_mapErr_ret {g : ε → δ} {p : Prog Rep ε α} {l m : List η} {h : List σ} {a : α}
    (hp : Steps respond (p.mapErr g) l h (.ret a) m) : Steps respond p l h (.ret a) m := by
  obtain ⟨p', hp', hq⟩ := hp.of_mapErr
  cases p' with
  | ret b => cases hq; exact hp'
  | throw e => cases hq
  | call o k => cases hq

/-- A rewritten error comes from an error. -/
theorem Steps.of_mapErr_throw {g : ε → δ} {p : Prog Rep ε α} {l m : List η} {h : List σ} {d : δ}
    (hp : Steps respond (p.mapErr g) l h (.throw d) m) :
    ∃ e, Steps respond p l h (.throw e) m ∧ d = g e := by
  obtain ⟨p', hp', hq⟩ := hp.of_mapErr
  cases p' with
  | ret a => cases hq
  | throw e => cases hq; exact ⟨e, hp', rfl⟩
  | call o k => cases hq

/-- A single call raises no error of its own. -/
theorem Steps.of_query_throw {o : Op} {l m : List η} {h : List σ} {e : ε}
    (hp : Steps respond (Prog.query o : Prog Rep ε (Rep o)) l h (.throw e) m) : False := by
  rw [Prog.query, steps_call_iff] at hp
  obtain ⟨-, hq, -⟩ | ⟨s, h', r, es, rfl, hr, hk⟩ := hp
  · cases hq
  · obtain ⟨-, hq, -⟩ := steps_ret_iff.mp hk
    cases hq

/-- A single call that returned was answered once. -/
theorem Steps.of_query_ret {o : Op} {l m : List η} {h : List σ} {r : Rep o}
    (hp : Steps respond (Prog.query o : Prog Rep ε (Rep o)) l h (.ret r) m) :
    ∃ s es, h = [s] ∧ respond s l o r es ∧ m = l ++ es := by
  rw [Prog.query, steps_call_iff] at hp
  obtain ⟨-, hq, -⟩ | ⟨s, h', r', es, rfl, hr, hk⟩ := hp
  · cases hq
  · rw [steps_ret_iff] at hk
    obtain ⟨rfl, hq, rfl⟩ := hk
    cases hq
    exact ⟨s, es, rfl, hr, rfl⟩

/-- A program that returned through `orThrow` received a value. -/
theorem Steps.of_orThrow_ret {p : Prog Rep ε (Except δ α)} {f : δ → ε} {l m : List η}
    {h : List σ} {a : α} (hp : Steps respond (p.orThrow f) l h (.ret a) m) :
    Steps respond p l h (.ret (.ok a)) m := by
  obtain ⟨r, h₁, h₂, n, rfl, hp', hk⟩ := hp.of_bind_ret
  cases r with
  | error d => simp at hk
  | ok b =>
    rw [steps_ret_iff] at hk
    obtain ⟨rfl, hq, rfl⟩ := hk
    cases hq
    simpa using hp'

/-- An error raised through `orThrow` is one of the program or an error reply. -/
theorem Steps.of_orThrow_throw {p : Prog Rep ε (Except δ α)} {f : δ → ε} {l m : List η}
    {h : List σ} {e : ε} (hp : Steps respond (p.orThrow f) l h (.throw e) m) :
    Steps respond p l h (.throw e) m ∨
      ∃ d, Steps respond p l h (.ret (.error d)) m ∧ e = f d := by
  obtain hp' | ⟨r, h₁, h₂, n, rfl, hp', hk⟩ := hp.of_bind_throw
  · exact .inl hp'
  · cases r with
    | ok a => simp at hk
    | error d =>
      obtain ⟨rfl, hq, rfl⟩ := steps_throw_iff.mp hk
      cases hq
      exact .inr ⟨d, by simpa using hp', rfl⟩

end Steps

end Selatpay
