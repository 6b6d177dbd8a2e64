import Selatpay.Core.Program

/-!
# Running a program to its end

`Prog.exec` runs a program whose calls are all answered by a function of the number of
calls so far and of the effects gathered so far. A program is a finite tree of calls, so
every run ends; the rules below compose runs.
-/

namespace Selatpay.Prog

variable {Op : Type} {Rep : Op → Type} {ε δ α β η : Type}

/-- How a program ends, with the number of calls and the effects by then. -/
def exec (answer : ℕ → List η → (o : Op) → Rep o × List η) :
    Prog Rep ε α → ℕ → List η → Except ε α × ℕ × List η
  | .ret a, n, l => (.ok a, n, l)
  | .throw e, n, l => (.error e, n, l)
  | .call o k, n, l => (k (answer n l o).1).exec answer (n + 1) (l ++ (answer n l o).2)

variable {answer : ℕ → List η → (o : Op) → Rep o × List η} {p : Prog Rep ε α} {n n' : ℕ}
  {l l' : List η}

@[simp] theorem exec_ret (a : α) :
    (ret a : Prog Rep ε α).exec answer n l = (.ok a, n, l) := rfl

@[simp] theorem exec_throw (e : ε) :
    (throw e : Prog Rep ε α).exec answer n l = (.error e, n, l) := rfl

/-- A composition goes on where its first part has returned. -/
theorem exec_bind {f : α → Prog Rep ε β} {a : α} (h : p.exec answer n l = (.ok a, n', l')) :
    (p.bind f).exec answer n l = (f a).exec answer n' l' := by
  induction p generalizing n l with
  | ret b =>
    obtain ⟨hb, rfl, rfl⟩ := by simpa using h
    rw [hb, ret_bind]
  | throw e => simp at h
  | call o k ih => exact ih _ h

/-- A rewritten error leaves a returned value. -/
theorem exec_mapErr {g : ε → δ} {a : α} (h : p.exec answer n l = (.ok a, n', l')) :
    (p.mapErr g).exec answer n l = (.ok a, n', l') := by
  induction p generalizing n l with
  | ret b => simpa [mapErr] using h
  | throw e => simp at h
  | call o k ih => exact ih _ h

@[simp] theorem exec_query (o : Op) : (query o : Prog Rep ε (Rep o)).exec answer n l =
    (.ok (answer n l o).1, n + 1, l ++ (answer n l o).2) := rfl

/-- A reply that is no error is returned. -/
theorem exec_orThrow {p : Prog Rep ε (Except δ α)} {f : δ → ε} {a : α}
    (h : p.exec answer n l = (.ok (.ok a), n', l')) :
    (p.orThrow f).exec answer n l = (.ok a, n', l') :=
  (exec_bind h).trans (exec_ret a)

/-- A run that returns is an execution whose calls are answered as the function answers them. -/
theorem steps_of_exec {σ : Type} {respond : σ → List η → (o : Op) → Rep o → List η → Prop}
    {state : ℕ → σ} (hanswer : ∀ n l o, respond (state n) l o (answer n l o).1 (answer n l o).2)
    {a : α} (h : p.exec answer n l = (.ok a, n', l')) :
    ∃ states, Steps respond p l states (.ret a) l' ∧ ∀ s ∈ states, ∃ k, s = state k := by
  induction p generalizing n l with
  | ret b =>
    obtain ⟨rfl, rfl, rfl⟩ := by simpa using h
    exact ⟨[], .refl _ _, by simp⟩
  | throw e => simp at h
  | call o k ih =>
    obtain ⟨states, hsteps, hstates⟩ := ih _ h
    refine ⟨state n :: states, .step (hanswer n l o) hsteps, ?_⟩
    simp only [List.forall_mem_cons]
    exact ⟨⟨n, rfl⟩, hstates⟩

/-- A program inside a larger set of calls, whose effects are some of the larger ones. -/
theorem exec_lift {Op' η' : Type} {Rep' : Op' → Type} {inj : Op → Op'}
    {back : ∀ o, Rep' (inj o) → Rep o} {answer' : ℕ → List η' → (o : Op') → Rep' o × List η'}
    {f : η → η'} {proj : List η' → List η}
    (hproj : ∀ l es, proj (l ++ es.map f) = proj l ++ es)
    (hanswer : ∀ n l o, back o (answer' n l (inj o)).1 = (answer n (proj l) o).1 ∧
      (answer' n l (inj o)).2 = (answer n (proj l) o).2.map f)
    {l : List η'} {m : List η} {x : Except ε α} (h : p.exec answer n (proj l) = (x, n', m)) :
    ∃ es, m = proj l ++ es ∧ (p.lift inj back).exec answer' n l = (x, n', l ++ es.map f) := by
  induction p generalizing n l with
  | ret a =>
    obtain ⟨rfl, rfl, rfl⟩ := by simpa using h
    exact ⟨[], by simp, by simp [lift]⟩
  | throw e =>
    obtain ⟨rfl, rfl, rfl⟩ := by simpa using h
    exact ⟨[], by simp, by simp [lift]⟩
  | call o k ih =>
    obtain ⟨hreply, heffects⟩ := hanswer n l o
    rw [exec, ← hproj] at h
    obtain ⟨es, rfl, hexec⟩ := ih _ h
    refine ⟨(answer n (proj l) o).2 ++ es, by rw [hproj, List.append_assoc], ?_⟩
    rw [lift, exec, hreply, heffects, hexec, List.map_append, List.append_assoc]

end Selatpay.Prog
