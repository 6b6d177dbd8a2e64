import Selatpay.Chain.Deposits
import Selatpay.Settlement.Invariant

/-!
# The watcher and the runs it enqueues

Only the watcher writes payments and enqueues runs, and it does both in one
transaction: a run is enqueued as soon as the stored row is finalized and linked,
in whichever order the two happened. So an intent has a run exactly when a
finalized payment is linked to it, and every finalized payment was once looked up
at finalized commitment.
-/

namespace Selatpay.Settlement

open Store Saga Chain

/-! ## What an event changes for the watcher -/

/-- What an event does to the watcher's memory and to the payments. -/
inductive WatcherChange (env : Env) (s t : World) : Event → Prop
  | other {e : Event} (hrefs : t.refs = s.refs) (hsightings : t.sightings = s.sightings)
      (hpayments : t.db.payments = s.db.payments) : WatcherChange env s t e
  | refresh (hrefs : t.refs = refreshReferences s.db) (hsightings : t.sightings = s.sightings)
      (hdb : t.db = s.db) : WatcherChange env s t .refresh
  | observe {signature : String} {commitment : Commitment} {answer : RpcAnswer} {deposit : Deposit}
      {message : Message}
      (hcheck : checkTransfer env.watcher signature commitment answer =
        .ok (some (deposit, message)))
      (hrefs : t.refs = s.refs)
      (hsightings : t.sightings = s.sightings ++ [matchReference s.refs deposit message])
      (hdb : t.db = s.db) : WatcherChange env s t (.observe signature commitment answer)
  | link {n : Nat} {deposit : Deposit} {hit : Option PublicKey}
      (hn : s.sightings[n]? = some (.seen deposit hit)) (hrefs : t.refs = s.refs)
      (hsightings : t.sightings = s.sightings.set n (linkReference s.refs deposit hit))
      (hdb : t.db = s.db) : WatcherChange env s t (.link n)
  | record {n : Nat} {uuid : UUID} {began : Time} {deposit : Deposit} {hit : Option PublicKey}
      {intentID : Option UUID} (hn : s.sightings[n]? = some (.linked deposit hit intentID))
      (hok : acceptable s.db (depositRow deposit hit intentID began)) (hrefs : t.refs = s.refs)
      (hsightings : t.sightings = s.sightings.eraseIdx n)
      (hdb : t.db = recordDeposit s.db (depositRow deposit hit intentID began) uuid began) :
      WatcherChange env s t (.record n uuid began)
  | forget {n : Nat} (hrefs : t.refs = s.refs) (hsightings : t.sightings = s.sightings.eraseIdx n)
      (hdb : t.db = s.db) : WatcherChange env s t (.forget n)

/-- Every event makes one of these changes. -/
theorem step_watcher {env : Env} {s t : World} {e : Event} (h : s.step env e = some t) :
    WatcherChange env s t e := by
  cases e with
  | refresh =>
    cases h
    exact .refresh rfl rfl rfl
  | observe signature commitment answer =>
    simp only [World.step] at h
    split at h <;> cases h
    · exact .observe ‹_› rfl rfl rfl
    · exact .other rfl rfl rfl
    · exact .other rfl rfl rfl
  | link n =>
    simp only [World.step] at h
    split at h <;> cases h
    exact .link ‹_› rfl rfl rfl
  | record n uuid began =>
    simp only [World.step] at h
    split at h
    · split at h <;> cases h
      rename_i hn hguard
      exact .record hn hguard.2.1 rfl rfl rfl
    · cases h
  | forget n =>
    cases h
    exact .forget rfl rfl rfl
  | elapse d =>
    cases h
    exact .other rfl rfl rfl
  | create c =>
    simp only [World.step] at h
    split at h
    · split at h <;> cases h
      exact .other rfl rfl rfl
    · cases h
  | claim w id =>
    simp only [World.step] at h
    split at h
    · split at h <;> cases h
      exact .other rfl rfl rfl
    · cases h
  | start w =>
    simp only [World.step] at h
    split at h
    · split at h <;> cases h <;> exact .other rfl rfl rfl
    · cases h
  | refuse w msg =>
    simp only [World.step] at h
    split at h <;> cases h
    exact .other rfl rfl rfl
  | exec w input =>
    simp only [World.step] at h
    split at h
    · split at h
      · split at h <;> cases h
        exact .other rfl rfl rfl
      · cases h
    · cases h
  | abandon w =>
    simp only [World.step] at h
    split at h <;> cases h
    exact .other rfl rfl rfl
  | commit w answer =>
    simp only [World.step] at h
    split at h
    · cases answer with
      | ok =>
        simp only at h
        split at h <;> cases h
        exact .other rfl rfl (view_payments _ _)
      | failed msg =>
        cases h
        exact .other rfl rfl rfl
      | lost msg =>
        simp only at h
        split at h <;> cases h
        exact .other rfl rfl (view_payments _ _)
    · cases h
  | settle w clock delay =>
    simp only [World.step] at h
    split at h
    · rename_i decision _ _
      split at h
      · cases decision with
        | fail cause =>
          cases h
          exact .other rfl rfl rfl
        | retry cause =>
          simp only at h
          split at h <;> cases h
          exact .other rfl rfl rfl
      · cases h
    · cases h
  | crash w =>
    cases h
    exact .other rfl rfl rfl

/-! ## Lookups at finalized commitment -/

/-- One of the events looked the signature up at finalized commitment and saw an acceptable
transfer. -/
def Finalized (env : Env) (es : List Event) (signature : String) : Prop :=
  ∃ answer deposit message, .observe signature .finalized answer ∈ es ∧
    checkTransfer env.watcher signature .finalized answer = .ok (some (deposit, message))

/-- What is finalized was looked up at finalized commitment. -/
structure Sighted (env : Env) (es : List Event) (s : World) : Prop where
  sightings : ∀ x ∈ s.sightings, x.deposit.commitment = .finalized →
    Finalized env es x.deposit.signature
  payments : ∀ p ∈ s.db.payments, p.commitment = .finalized → Finalized env es p.signature

section History

variable {env : Env} {es : List Event} {s t : World} {e : Event}

theorem Finalized.snoc {signature : String} (h : Finalized env es signature) (e : Event) :
    Finalized env (es ++ [e]) signature := by
  obtain ⟨answer, deposit, message, hmem, hcheck⟩ := h
  exact ⟨answer, deposit, message, List.mem_append_left _ hmem, hcheck⟩

/-- A merged commitment is one of the two. -/
theorem finalized_upserted {payments payments' : List OnchainPayment} {new : OnchainPayment}
    {P : String → Prop} (h : PaymentsUpserted payments new payments')
    (hold : ∀ p ∈ payments, p.commitment = .finalized → P p.signature)
    (hnew : new.commitment = .finalized → P new.signature) :
    ∀ p ∈ payments', p.commitment = .finalized → P p.signature := by
  intro p hp hfinal
  cases h with
  | inserted =>
    rcases List.mem_append.mp hp with hp | hp
    · exact hold p hp hfinal
    · rw [List.mem_singleton.mp hp] at hfinal ⊢
      exact hnew hfinal
  | merged =>
    obtain ⟨a, ha, rfl⟩ := Table.mem_update hp
    split at hfinal
    · rename_i hsig
      rw [if_pos hsig]
      rcases mergePayment_commitment a new with heq | heq
      · exact hold a ha (heq.symm.trans hfinal)
      · change P a.signature
        exact hsig ▸ hnew (heq.symm.trans hfinal)
    · rename_i hsig
      rw [if_neg hsig]
      exact hold a ha hfinal

theorem sighted_step (h : Sighted env es s) (hst : s.step env e = some t) :
    Sighted env (es ++ [e]) t := by
  have hsightings : ∀ x ∈ s.sightings, x.deposit.commitment = .finalized →
      Finalized env (es ++ [e]) x.deposit.signature :=
    fun x hx hfinal => (h.sightings x hx hfinal).snoc e
  have hpayments : ∀ p ∈ s.db.payments, p.commitment = .finalized →
      Finalized env (es ++ [e]) p.signature :=
    fun p hp hfinal => (h.payments p hp hfinal).snoc e
  cases step_watcher hst with
  | other _ hs hp => exact ⟨hs ▸ hsightings, hp ▸ hpayments⟩
  | refresh _ hs hdb => exact ⟨hs ▸ hsightings, hdb ▸ hpayments⟩
  | @observe signature commitment answer deposit message hcheck _ hs hdb =>
    refine ⟨?_, hdb ▸ hpayments⟩
    intro x hx hfinal
    rw [hs] at hx
    rcases List.mem_append.mp hx with hx | hx
    · exact hsightings x hx hfinal
    · rw [List.mem_singleton.mp hx] at hfinal ⊢
      obtain ⟨hsig, hcommitment⟩ := checkTransfer_ok hcheck
      obtain rfl : commitment = .finalized := hcommitment.symm.trans hfinal
      exact ⟨answer, deposit, message, by simp [matchReference, Sighting.deposit, hsig],
        by simpa [matchReference, Sighting.deposit, hsig] using hcheck⟩
  | @link n deposit hit hn _ hs hdb =>
    refine ⟨?_, hdb ▸ hpayments⟩
    intro x hx hfinal
    rw [hs] at hx
    rcases List.mem_or_eq_of_mem_set hx with hx | rfl
    · exact hsightings x hx hfinal
    · exact hsightings (.seen deposit hit) (List.mem_of_getElem? hn) hfinal
  | @record n uuid began deposit hit intentID hn hok _ hs hdb =>
    refine ⟨fun x hx => hsightings x (List.mem_of_mem_eraseIdx (hs ▸ hx)), ?_⟩
    obtain ⟨payments, sagas, heq, hupserted, -⟩ :=
      recordDeposit_spec s.db (depositRow deposit hit intentID began) uuid began
    rw [hdb, heq]
    exact finalized_upserted hupserted hpayments (hsightings _ (List.mem_of_getElem? hn))
  | forget _ hs hdb =>
    exact ⟨fun x hx => hsightings x (List.mem_of_mem_eraseIdx (hs ▸ hx)), hdb ▸ hpayments⟩

end History

/-! ## Runs and deposits -/

/-- The settlement runs of an intent. -/
def settlementRuns (db : Db) (intentID : UUID) : List SagaRun :=
  db.sagas.filter fun r => (r.intentID, r.sagaKind) = (intentID, .settlement)

/-- As long as the intent has a run, a finalized deposit was linked to it in the past state. -/
def SeenDeposit (run : Run) (past db : Db) : Prop :=
  (∃ r ∈ db.sagas, r.intentID = run.intentID) → past.finalizedDeposits run.intentID ≠ []

section Step

variable {env : Env} {s t : World} {e : Event}

theorem mem_settlementRuns {db : Db} {intentID : UUID} {r : SagaRun} :
    r ∈ settlementRuns db intentID ↔ r ∈ db.sagas ∧ r.intentID = intentID := by
  simp [settlementRuns]

/-- Payments and runs are added by recorded deposits only. -/
theorem runs_change (h : Change env s e t) :
    (∃ row uuid now, t.db = recordDeposit s.db row uuid now) ∨
      t.db.payments = s.db.payments ∧ t.db.sagas.map sagaTerms = s.db.sagas.map sagaTerms := by
  cases h with
  | quiet he htx => exact .inr (by rw [World.db, World.db, htx]; exact ⟨rfl, rfl⟩)
  | create => exact .inr ⟨rfl, rfl⟩
  | record => exact .inl ⟨_, _, _, rfl⟩
  | claim => exact .inr ⟨rfl, Table.map_update fun r => rfl⟩
  | start => exact .inr ⟨rfl, rfl⟩
  | exec => exact .inr ⟨rfl, rfl⟩
  | rollback => exact .inr ⟨rfl, rfl⟩
  | commit => exact .inr ⟨view_payments _ _, view_sagaTerms _ _⟩
  | settle hw hfree hf => cases hf <;> exact .inr ⟨rfl, Table.map_update fun r => rfl⟩

theorem exists_run_congr {db db' : Db} (h : db'.sagas.map sagaTerms = db.sagas.map sagaTerms)
    (intentID : UUID) :
    (∃ r ∈ db'.sagas, r.intentID = intentID) ↔ ∃ r ∈ db.sagas, r.intentID = intentID := by
  have hmem : ∀ db : Db, (∃ r ∈ db.sagas, r.intentID = intentID) ↔
      intentID ∈ (db.sagas.map sagaTerms).map Prod.snd := by
    intro db
    simp [sagaTerms]
  rw [hmem, hmem, h]

theorem runsMatchDeposits_change (hs : Inv env s) (hdb : RunsMatchDeposits s.db)
    (h : Change env s e t) : RunsMatchDeposits t.db := by
  rcases runs_change h with ⟨row, uuid, now, heq⟩ | ⟨hpayments, hsagas⟩
  · rw [heq]
    exact runsMatchDeposits_recordDeposit (Db.signatures_nodup hs.sound.unique) hdb
  · intro intentID
    rw [exists_run_congr hsagas, hpayments]
    exact hdb intentID

theorem finalizedDeposits_ne_nil {db : Db} {intentID : UUID} :
    db.finalizedDeposits intentID ≠ [] ↔ ∃ p ∈ db.payments, Settled p intentID := by
  simp [Db.finalizedDeposits, Settled]

theorem seenDeposit_change (hs : Inv env s) (hdb : RunsMatchDeposits s.db)
    (hd : Tracks env SeenDeposit s) (h : Change env s e t) : Tracks env SeenDeposit t := by
  refine tracks_change hd ?_ ?_ h
  · intro w input run _ _ hrun
    exact finalizedDeposits_ne_nil.mpr ((hdb run.intentID).mp hrun)
  · intro v run began prog rail hv hsame past hpast _
    obtain ⟨r, hr, hterms⟩ := hs.runs v run (by rw [hv]; rfl)
    exact hpast ⟨r, hr, congrArg Prod.snd hterms⟩

/-- A step that fails does not fail for want of a finalized deposit. -/
theorem ne_noFinalizedDeposit (hs : Inv env s) (hd : Tracks env SeenDeposit s) {w : Owner}
    {run : Run} {began : Time} {err : GoError} {rail : Option RailCall}
    (hw : s.worker w = .executing run began (.throw err) rail) :
    err ≠ .wrap ("step " ++ StepName.creditDeposit.text) (noFinalizedDeposit run.intentID) := by
  have htracked := hd w
  rw [hw] at htracked
  obtain ⟨h, hsteps, hpast⟩ := htracked
  obtain ⟨r, hr, hterms⟩ := hs.runs w run (by rw [hw]; rfl)
  have hseen : ∀ past ∈ h, past.finalizedDeposits run.intentID ≠ [] :=
    fun past hp => hpast past hp ⟨r, hr, congrArg Prod.snd hterms⟩
  rcases executeStep_throw hsteps with ⟨e, hstep, rfl⟩ | ⟨d, rfl | rfl⟩
  · cases hcurrent : run.currentStep with
    | creditDeposit =>
      rw [hcurrent] at hstep
      simpa using creditDeposit_throw hstep hseen
    | triggerPayout => simp [StepName.text]
    | applyPayoutResult => simp [StepName.text]
    | emitCompleted => simp [StepName.text]
  · simp [StepName.text]
  · simp [StepName.text]

end Step

/-- The runs match the deposits in every reachable state, and every worker has seen the deposit of
its run. -/
theorem Reachable.deposits {env : Env} {ok : World → Event → Prop} {s : World}
    (h : Reachable env ok s) :
    Inv env s ∧ RunsMatchDeposits s.db ∧ Tracks env SeenDeposit s :=
  h.induct (P := fun s => RunsMatchDeposits s.db ∧ Tracks env SeenDeposit s)
    (fun _ _ _ => ⟨by simp [RunsMatchDeposits, World.init, TxState.init], fun w => rfl⟩)
    fun _ _ _ hs hd _ hst => ⟨runsMatchDeposits_change hs hd.1 (step_change hst),
      seenDeposit_change hs hd.1 hd.2 (step_change hst)⟩

theorem settlementRuns_ne_nil {db : Db} (h : RunsMatchDeposits db) (intentID : UUID) :
    settlementRuns db intentID ≠ [] ↔ ∃ p ∈ db.payments, Settled p intentID := by
  rw [← h intentID]
  constructor
  · intro hne
    obtain ⟨r, hr⟩ := List.exists_mem_of_ne_nil _ hne
    exact ⟨r, mem_settlementRuns.mp hr⟩
  · rintro ⟨r, hr⟩
    exact List.ne_nil_of_mem (mem_settlementRuns.mpr hr)

/-- In every run of the system, an intent has a settlement run if and only if a finalized payment
is linked to it, and then exactly one; every finalized payment was looked up at finalized
commitment; and `credit_deposit` never fails for want of a finalized deposit. -/
theorem run_iff_finalized_deposit {env : Env} {accounts : List Ledger.Account}
    {merchants : List Merchant} {now : Time} {es : List Event} {s : World}
    (hkeys : (World.init accounts merchants now).db.keys.Nodup)
    (h : Path (World.step env) anyStep (World.init accounts merchants now) es s) :
    (∀ intentID, (settlementRuns s.db intentID ≠ [] ↔ ∃ p ∈ s.db.payments, Settled p intentID) ∧
      (settlementRuns s.db intentID).length ≤ 1) ∧
    (∀ p ∈ s.db.payments, p.commitment = .finalized → Finalized env es p.signature) ∧
    ∀ w run began err rail, s.worker w = .executing run began (.throw err) rail →
      err ≠ .wrap ("step " ++ StepName.creditDeposit.text) (noFinalizedDeposit run.intentID) := by
  have hreach : Reachable env anyStep s := ⟨accounts, merchants, now, es, hkeys, h⟩
  obtain ⟨hinv, hmatch, hseen⟩ := hreach.deposits
  have hsighted : Sighted env ([] ++ es) s :=
    h.history (fun _ _ _ _ hs _ hst => sighted_step hs hst)
      ⟨by simp [World.init], by simp [World.init, TxState.init]⟩
  exact ⟨fun intentID => ⟨settlementRuns_ne_nil hmatch intentID,
      Table.length_filter_le_one (Db.saga_intents_nodup hinv.sound.unique)⟩,
    hsighted.payments, fun w run began err rail hw => ne_noFinalizedDeposit hinv hseen hw⟩

/-- A deposit is finalized before the watcher knows its reference, and linked by a later poll at
confirmed commitment. -/
def linkedLate : List Event :=
  [.create ⟨1, "order-1", 1000, ⟨16250, 0⟩, 50, 100, 99, 2, 3⟩] ++ depositing "sig-1" 61847 4 ++
    [.refresh, .observe "sig-1" .confirmed (.found 5 none (transferMessage 61847)), .link 0,
      .record 0 4 0]

theorem run_iff_finalized_deposit_linkedLate : ∃ s p,
    Path (World.step smallEnv) anyStep smallWorld linkedLate s ∧ p ∈ s.db.payments ∧
      Settled p 3 ∧ settlementRuns s.db 3 ≠ [] ∧ (settlementRuns s.db 3).length ≤ 1 ∧
      Finalized smallEnv linkedLate p.signature := by
  obtain ⟨s, hs, p, hp, hsettled⟩ : ∃ s, run (World.step smallEnv) smallWorld linkedLate = some s ∧
      ∃ p ∈ s.db.payments, Settled p 3 :=
    exists_of_any (by decide +kernel)
  have hpath : Path (World.step smallEnv) anyStep smallWorld linkedLate s := .of_run hs
  obtain ⟨hruns, hfinal, -⟩ := run_iff_finalized_deposit (by decide) hpath
  exact ⟨s, p, hpath, hp, hsettled, (hruns 3).1.mpr ⟨p, hp, hsettled⟩, (hruns 3).2,
    hfinal p hp hsettled.2⟩

end Selatpay.Settlement
