import Selatpay.Settlement.Invariant

/-!
# Calls of the rail

A call of the rail is keyed on a payout row that is only inserted by the same
transaction. As long as such a transaction is committed, the row stands for the
call and a later execution finds it; once it is rolled back, the next execution
inserts another row and calls under another key. For the same reason the failure
that a permanent rejection writes is never committed.
-/

namespace Selatpay.Settlement

open Store Saga Chain

/-! ## One key for each intent -/

/-- The call of the rail that a worker has made in its open transaction. -/
def Worker.inFlight : Worker → Option RailCall
  | .executing _ _ _ rail => rail
  | _ => none

/-- No transaction that has called the rail is rolled back. -/
def KeepsCalls (s : World) (e : Event) : Prop :=
  ∀ w ∈ e.rollsBack, (s.worker w).inFlight.isNone

instance (s : World) (e : Event) : Decidable (KeepsCalls s e) :=
  inferInstanceAs (Decidable (∀ w ∈ e.rollsBack, _))

/-- All requests the rail has received for an intent carry one key. -/
def OneKey (s : World) : Prop :=
  ∀ a ∈ s.calls, ∀ b ∈ s.calls, a.intentID = b.intentID → a.idempotency = b.idempotency

instance (s : World) : Decidable (OneKey s) :=
  inferInstanceAs (Decidable (∀ a ∈ s.calls, ∀ b ∈ s.calls, _))

/-- A payout row stands for a request. -/
def StandsFor (p : Payout) (req : SubmitRequest) : Prop :=
  p.intentID = req.intentID ∧ p.id.text = req.idempotency

/-- The row of a request is committed, or inserted by the open transaction that made it. -/
inductive Backed (s : World) (req : SubmitRequest) : Prop
  | committed {p : Payout} (hp : p ∈ s.db.payouts) (hreq : StandsFor p req)
  | inFlight {w : Owner} {p : Payout} (hw : (s.worker w).inFlight ≠ none)
      (hp : .insertPayout p ∈ s.tx.log w) (hreq : StandsFor p req)

section Payouts

variable {db db' : Db} {p p' : Payout} {req : SubmitRequest} {log : List Effect}

theorem StandsFor.of_terms (h : StandsFor p req) (hterms : payoutTerms p' = payoutTerms p) :
    StandsFor p' req := by
  simp only [payoutTerms, Prod.mk.injEq] at hterms
  exact ⟨hterms.2.1.trans h.1, hterms.1 ▸ h.2⟩

/-- An inserted payout is in the view of its transaction. -/
theorem payout_of_insert (db : Db) (h : .insertPayout p ∈ log) :
    ∃ p' ∈ (db.view log).payouts, payoutTerms p' = payoutTerms p := by
  obtain ⟨l, m, rfl⟩ := List.append_of_mem h
  rw [Db.view_append, Db.view_cons]
  exact (grows_view _ m).payout (by simp [Db.apply])

/-- Two rows of one intent in one database have one id. -/
theorem StandsFor.key_eq {req' : SubmitRequest} (hdb : db.keys.Nodup) (hp : p ∈ db.payouts)
    (hp' : p' ∈ db.payouts) (h : StandsFor p req) (h' : StandsFor p' req')
    (hid : req.intentID = req'.intentID) : req.idempotency = req'.idempotency := by
  have heq : p = p' := Table.eq_of_mem (Db.payout_intents_nodup hdb) hp hp'
    (h.1.trans (hid.trans h'.1.symm))
  rw [← h.2, ← h'.2, heq]

end Payouts

section Step

variable {env : Env} {s t : World} {e : Event} {req : SubmitRequest}

/-- Backed requests of one intent carry one key. -/
theorem Backed.key_eq {req' : SubmitRequest} (hs : s.tx.Sound engine) (h : Backed s req)
    (h' : Backed s req') (hid : req.intentID = req'.intentID) :
    req.idempotency = req'.idempotency := by
  have hview : ∀ w, (s.db.view (s.tx.log w)).keys.Nodup := hs.view_unique
  cases h with
  | committed hp hreq =>
    cases h' with
    | committed hp' hreq' => exact hreq.key_eq hs.unique hp hp' hreq' hid
    | @inFlight w _ _ hp' hreq' =>
      obtain ⟨q, hq, hterms⟩ := (grows_view s.db (s.tx.log w)).payout hp
      obtain ⟨q', hq', hterms'⟩ := payout_of_insert s.db hp'
      exact (hreq.of_terms hterms).key_eq (hview w) hq hq' (hreq'.of_terms hterms') hid
  | @inFlight w p _ hp hreq =>
    cases h' with
    | committed hp' hreq' =>
      obtain ⟨q, hq, hterms⟩ := payout_of_insert s.db hp
      obtain ⟨q', hq', hterms'⟩ := (grows_view s.db (s.tx.log w)).payout hp'
      exact (hreq.of_terms hterms).key_eq (hview w) hq hq' (hreq'.of_terms hterms') hid
    | @inFlight v p' _ hp' hreq' =>
      have hkey : ∀ {q : Payout} {u : Owner}, .insertPayout q ∈ s.tx.log u →
          .payoutIntent q.intentID ∈ engine.logKeys (s.tx.log u) := by
        intro q u hq
        exact List.mem_flatMap.mpr ⟨_, hq, by simp [engine, Effect.keys, Payout.keys]⟩
      have hsame : p.intentID = p'.intentID := hreq.1.trans (hid.trans hreq'.1.symm)
      obtain rfl := hs.owner_eq (hkey hp) (hsame ▸ hkey hp')
      obtain ⟨q, hq, hterms⟩ := payout_of_insert s.db hp
      obtain ⟨q', hq', hterms'⟩ := payout_of_insert s.db hp'
      exact (hreq.of_terms hterms).key_eq (hview w) hq hq' (hreq'.of_terms hterms') hid

/-- A transaction that stands at the rail has inserted the row its request names. -/
theorem Inv.submitting (hs : Inv env s) {w : Owner} {run : Run} {began : Time}
    {k : RailAnswer → StepM Unit} {rail : Option RailCall}
    (hw : s.worker w = .executing run began (.call (.submit req) k) rail) :
    run.currentStep = .triggerPayout ∧ req.intentID = run.intentID ∧
      ∃ p, .insertPayout p ∈ s.tx.log w ∧ StandsFor p req := by
  have htracked := hs.tracks w
  rw [hw] at htracked
  obtain ⟨h, hsteps, hpast⟩ := htracked
  obtain ⟨hstep, hid, p, hp, hpid, hkey⟩ :=
    executeStep_submit hsteps fun past hp => (hpast past hp).1.paidOut
  exact ⟨hstep, hid, p, hp, hpid.trans hid.symm, hkey.symm⟩

/-- A request stays backed while its row is committed or its transaction goes on. -/
theorem backed_change (hok : KeepsCalls s e) (h : Change env s e t) (hreq : Backed s req) :
    Backed t req := by
  cases hreq with
  | committed hp hreq =>
    obtain ⟨p', hp', hterms⟩ := (grows_change h).payout hp
    exact .committed hp' (hreq.of_terms hterms)
  | @inFlight v p hv hp hreq =>
    cases h.worker v with
    | same hworker hlog => exact .inFlight (by rwa [hworker]) (by rwa [hlog]) hreq
    | claim _ hidle =>
      rw [hidle] at hv
      exact absurd rfl hv
    | start hw =>
      rw [hw] at hv
      exact absurd rfl hv
    | @exec input run began c k rail r es hw hanswer hworker hlog =>
      refine .inFlight (w := v) ?_ (by simp [hlog, hp]) hreq
      rw [hw] at hv
      rw [hworker]
      cases c <;> cases input <;> simp [railCall, Worker.inFlight] <;> exact hv
    | rollback he => exact absurd (Option.isNone_iff_eq_none.mp (hok v he)) hv
    | commit _ _ _ _ hdb =>
      obtain ⟨p', hp', hterms⟩ := payout_of_insert s.db hp
      exact .committed (hdb ▸ hp') (hreq.of_terms hterms)
    | settle hw =>
      rw [hw] at hv
      exact absurd rfl hv

/-- Every request stays backed when no transaction that has called the rail is rolled back. -/
theorem calls_backed_change (hs : Inv env s) (hcalls : ∀ req ∈ s.calls, Backed s req)
    (hok : KeepsCalls s e) (h : Change env s e t) : ∀ req ∈ t.calls, Backed t req := by
  intro req hreq
  by_cases hold : req ∈ s.calls
  · exact backed_change hok h (hcalls req hold)
  · cases h with
    | quiet he htx hworker hc => exact absurd (hc ▸ hreq) hold
    | @exec w input run began c k rail r es hw hanswer hgrant =>
      rw [setWorker_calls] at hreq
      have hnew := (List.mem_append.mp hreq).resolve_left hold
      cases c with
      | ledger o => cases hnew
      | sql o => cases hnew
      | submit req' =>
        obtain rfl := List.mem_singleton.mp hnew
        obtain ⟨-, -, p, hp, hstands⟩ := hs.submitting hw
        refine .inFlight (w := w) ?_ (by simp [hp]) hstands
        cases input with
        | rail answer => simp [railCall, Worker.inFlight]
        | row uuid => cases hanswer
        | fail msg => cases hanswer
    | create => exact absurd hreq hold
    | record => exact absurd hreq hold
    | claim => exact absurd hreq hold
    | start => exact absurd hreq hold
    | rollback => exact absurd hreq hold
    | commit => exact absurd hreq hold
    | settle => exact absurd hreq hold

end Step

/-- In every run that commits each transaction that has called the rail, all calls for an intent
carry one idempotency key. -/
theorem one_key_of_keepsCalls {env : Env} {s : World} (h : Reachable env KeepsCalls s) :
    OneKey s := by
  obtain ⟨hinv, hbacked⟩ := h.induct (P := fun s => ∀ req ∈ s.calls, Backed s req)
    (fun _ _ _ _ hreq => by cases hreq)
    fun _ _ _ hs hcalls hok hst => calls_backed_change hs hcalls hok (step_change hst)
  intro a ha b hb hid
  exact (hbacked a ha).key_eq hinv.sound (hbacked b hb) hid

/-- The rail asks for a retry, the step is rolled back, and the next execution calls the rail. -/
def resubmission : List Event :=
  ordering 50 ++ depositing "sig-1" 61847 4 ++ crediting "a" 1000 ++
    submitting "a" 2000 (.ok ⟨.retry, "", "busy"⟩) ++ statements "a" 2004 1 ++
    [.abandon "a", .settle "a" 0 0] ++ submitting "a" 3000 confirmed

/-- The second call for the intent carries another key. -/
theorem resubmission_two_keys : ∃ s, run (World.step smallEnv) smallWorld resubmission = some s ∧
    s.calls.map SubmitRequest.intentID = [3, 3] ∧ ¬ OneKey s :=
  exists_of_any (by decide +kernel)

/-- Two executions of `trigger_payout` that overlap: the second one finds the row of the first. -/
def overlappingPayout : List Event :=
  ordering 50 ++ depositing "sig-1" 61847 4 ++ crediting "a" 1000 ++
    submitting "a" 2000 confirmed ++ [.elapse 11, .claim "b" 4, .start "b"] ++
    statements "b" 3000 2 ++ statements "a" 2004 3 ++ [.commit "a" .ok] ++ statements "b" 3002 2

theorem one_key_of_keepsCalls_overlapping : ∃ s,
    runIf (World.step smallEnv) KeepsCalls smallWorld overlappingPayout = some s ∧
      s.calls.map SubmitRequest.intentID = [3] ∧ (s.worker "b").run.isSome ∧ OneKey s := by
  obtain ⟨s, hs, hcalls, hbusy⟩ : ∃ s,
      runIf (World.step smallEnv) KeepsCalls smallWorld overlappingPayout = some s ∧
        s.calls.map SubmitRequest.intentID = [3] ∧ (s.worker "b").run.isSome :=
    exists_of_any (by decide +kernel)
  exact ⟨s, hs, hcalls, hbusy, one_key_of_keepsCalls (reachable_of_runIf hs)⟩

/-! ## Permanent rejections -/

/-- The failure of an intent's payout is on record. -/
def FailureRecorded (db : Db) (intentID : UUID) : Prop :=
  (∃ p ∈ db.payouts, p.intentID = intentID ∧ p.state = .failed ∧ p.lastError ≠ none) ∧
    ∃ i ∈ db.intents, i.id = intentID ∧ i.state = .failed

instance (db : Db) (intentID : UUID) : Decidable (FailureRecorded db intentID) :=
  inferInstanceAs (Decidable (_ ∧ _))

/-- Whenever a worker marks a run failed after a permanent rejection, the run is failed and its
failure is not on record. -/
theorem rejection_unrecorded {env : Env} {s t : World} {w : Owner} {run : Run} {cause : GoError}
    {req : SubmitRequest} {ref message : String} {clock : Time} {delay : Int}
    (h : Reachable env anyStep s)
    (hw : s.worker w = .failing run (.fail cause) (some (req, .ok ⟨.permanent, ref, message⟩)))
    (hstep : s.step env (.settle w clock delay) = some t) :
    (∃ r ∈ t.db.sagas, r.id = run.id ∧ r.state = .failed) ∧
      ¬ FailureRecorded t.db run.intentID := by
  have hinv := h.inv
  constructor
  · obtain ⟨r, hr, hterms⟩ := hinv.runs w run (by rw [hw]; rfl)
    have hid : r.id = run.id := congrArg Prod.fst hterms
    simp only [World.step, hw] at hstep
    split at hstep <;> cases hstep
    exact ⟨r.fail cause.text, List.mem_map.mpr ⟨r, hr, by simp [hid]⟩, hid, rfl⟩
  · rintro ⟨⟨p, hp, -, hfailed, -⟩, -⟩
    have hsucceeded := (inv_change hinv (step_change hstep)).consistent.paidOut p hp
    simp [hfailed] at hsucceeded

/-- The rail rejects the payout for good; the step writes its failure and is rolled back. -/
def rejection : List Event :=
  ordering 50 ++ depositing "sig-1" 61847 4 ++ crediting "a" 1000 ++
    submitting "a" 2000 (.ok ⟨.permanent, "", "account closed"⟩) ++ statements "a" 2004 2 ++
    [.abandon "a"]

/-- The run a worker is about to mark failed, and its call of the rail. -/
def Worker.givingUp : Worker → Option (Run × GoError × RailCall)
  | .failing run (.fail cause) (some rail) => some (run, cause, rail)
  | _ => none

theorem failing_of_givingUp {x : Worker} {run : Run} {cause : GoError} {rail : RailCall}
    (h : x.givingUp = some (run, cause, rail)) : x = .failing run (.fail cause) (some rail) := by
  unfold Worker.givingUp at h
  split at h <;> cases h
  rfl

/-- After the rejection the run is failed, while the intent is funded and has no payout. -/
theorem rejection_leaves_funded : ∃ s t,
    run (World.step smallEnv) smallWorld rejection = some s ∧
      (s.worker "a").rail.map Prod.snd = some (.ok ⟨.permanent, "", "account closed"⟩) ∧
      s.step smallEnv (.settle "a" 0 0) = some t ∧ t.db.sagas.map SagaRun.state = [.failed] ∧
      t.db.payouts = [] ∧ t.db.intents.map PaymentIntent.state = [.funded] ∧
      ¬ FailureRecorded t.db 3 := by
  obtain ⟨s, hs, hrail, ht⟩ : ∃ s, run (World.step smallEnv) smallWorld rejection = some s ∧
      (s.worker "a").rail.map Prod.snd = some (.ok ⟨.permanent, "", "account closed"⟩) ∧
      ((s.step smallEnv (.settle "a" 0 0)).any fun t =>
        decide (t.db.sagas.map SagaRun.state = [.failed] ∧ t.db.payouts = [] ∧
          t.db.intents.map PaymentIntent.state = [.funded] ∧ ¬ FailureRecorded t.db 3)) = true :=
    exists_of_any (by decide +kernel)
  obtain ⟨t, ht, hfailed⟩ := exists_of_any ht
  exact ⟨s, t, hs, hrail, ht, hfailed⟩

theorem rejection_unrecorded_demo : ∃ s t run, Reachable smallEnv anyStep s ∧
    (s.worker "a").run = some run ∧ s.step smallEnv (.settle "a" 0 0) = some t ∧
      (∃ r ∈ t.db.sagas, r.id = run.id ∧ r.state = .failed) ∧
      ¬ FailureRecorded t.db run.intentID := by
  obtain ⟨s, hs, hgiving, ht⟩ : ∃ s,
      runIf (World.step smallEnv) anyStep smallWorld rejection = some s ∧
        (s.worker "a").givingUp.map (·.2.2.2) = some (.ok ⟨.permanent, "", "account closed"⟩) ∧
        (s.step smallEnv (.settle "a" 0 0)).isSome :=
    exists_of_any (by decide +kernel)
  obtain ⟨t, ht⟩ := Option.isSome_iff_exists.mp ht
  obtain ⟨⟨run, cause, req, answer⟩, hgiving, hanswer⟩ := Option.map_eq_some_iff.mp hgiving
  cases hanswer
  have hw := failing_of_givingUp hgiving
  exact ⟨s, t, run, reachable_of_runIf hs, by rw [hw]; rfl, ht,
    rejection_unrecorded (reachable_of_runIf hs) hw ht⟩

end Selatpay.Settlement
