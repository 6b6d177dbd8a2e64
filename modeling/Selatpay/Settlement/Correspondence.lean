import Selatpay.Settlement.Tenure

/-!
# Saga rows and standings

The row of a saga says where its intent stands as long as whoever writes to the row
holds its lease: the state of the intent, the journal entries, the payout and the
published event then advance together with `current_step`, whatever the rail
answers and wherever workers crash. This is so when executions of one saga do not
overlap and a worker is told the true result of its commit.
-/

namespace Selatpay.Settlement

open Store Saga Chain

/-- The tables say of the intent what the saga row says. -/
def Corresponds (db : Db) (r : SagaRun) : Prop :=
  standing db r.intentID = stage r.intentID r.currentStep (decide (r.state = .completed)) ∧
    (r.state = .completed → r.currentStep = .emitCompleted)

/-- Nothing has happened to an intent without a saga. -/
def Untouched (db : Db) : Prop :=
  ∀ id, (∀ r ∈ db.sagas, r.intentID ≠ id) →
    standing db id = ⟨none, [], none, 0⟩ ∨ standing db id = ⟨some .pending, [], none, 0⟩

/-- Whoever writes to the row by an event holds its lease, and a step that is committed to it has
seen the intent where it stands. -/
structure Vouched (s : World) (e : Event) (r : SagaRun) : Prop where
  owner : ∀ w run, e.writer = some w → (s.worker w).run = some run → r.id = run.id →
    r.leaseOwner = some w
  seen : ∀ w run began rail, e.commits = some w →
    s.worker w = .executing run began (.ret ()) rail → r.id = run.id →
    ∃ h, Finished h run began (s.tx.log w) ∧
      ∀ past ∈ h, Consistent past ∧ standing past run.intentID = standing s.db run.intentID

section Rows

variable {env : Env} {s t : World} {e : Event}

/-- A row keeps agreeing with the tables. -/
theorem corresponds_row (hs : Inv env s) (hl : LeaseHeld s) (h : Change env s e t)
    {r r' : SagaRun} (hr : r ∈ s.db.sagas) (hrow : RowChange env s e r r')
    (hr₀ : Corresponds s.db r) (hvouched : Vouched s e r) : Corresponds t.db r' := by
  have hintentID := hrow.intentID_eq
  cases hrow with
  | same he hother =>
    rw [Corresponds, standing_kept hs h hr hother]
    exact hr₀
  | claim he hidle hclaim =>
    have hstate : r.state ≠ .completed := by
      rcases hclaim.1.1 with hstate | hstate <;> simp [hstate]
    have hkept := standing_kept hs h hr (by subst he; exact fun _ _ hc => by cases hc)
    refine ⟨hkept.trans ?_, by simp [SagaRun.claim]⟩
    simpa [hstate, SagaRun.claim] using hr₀.1
  | @commit w run began rail he hw hid =>
    have hrun : (s.worker w).run = some run := by rw [hw]; rfl
    have howner := hvouched.owner w run (Event.writer_of_commits he) hrun hid
    obtain ⟨hstep, hstate⟩ := hl w run hrun r hr hid howner
    have hintent := hs.intentID_eq hrun hr hid
    have hdb : standing s.db run.intentID = stage run.intentID run.currentStep false := by
      simpa [hstate, hstep, hintent] using hr₀.1
    obtain ⟨past, hf, hpast⟩ := hvouched.seen w run began rail he hw hid
    have hself := standing_self (hs.sound.view_unique w) hf
      (fun p hp => ⟨(hpast p hp).1, (hpast p hp).2.trans hdb⟩) hdb
    refine ⟨?_, fun hcompleted => ?_⟩
    · rw [h.commit_db he, hintentID, hintent]
      exact hself.trans (advance_stage _ _ hstep)
    · cases hrun : run.currentStep with
      | emitCompleted => exact hstep.trans hrun
      | creditDeposit => simp [hrun, nextStep, sagaChange, SagaRun.change] at hcompleted
      | triggerPayout => simp [hrun, nextStep, sagaChange, SagaRun.change] at hcompleted
      | applyPayoutResult => simp [hrun, nextStep, sagaChange, SagaRun.change] at hcompleted
  | @settle w clock delay run decision rail f he hw hid hf =>
    have hrun : (s.worker w).run = some run := by rw [hw]; rfl
    have howner := hvouched.owner w run (by rw [he]; rfl) hrun hid
    obtain ⟨-, hstate⟩ := hl w run hrun r hr hid howner
    have hkept := standing_kept hs h hr (by subst he; exact fun _ _ hc => by cases hc)
    have hnow := hkept.trans hr₀.1
    cases hf with
    | fail cause => exact ⟨by simpa [hstate, SagaRun.fail] using hnow, by simp [SagaRun.fail]⟩
    | retry cause => exact ⟨by simpa [hstate, SagaRun.retry] using hnow, by simp [SagaRun.retry]⟩

/-- A new run stands at the beginning. -/
theorem corresponds_new (hs : Inv env s) (hfresh : Untouched s.db) (h : Change env s e t)
    {r : SagaRun} (hr : r ∈ t.db.sagas) (hnew : NewRun s t e r) : Corresponds t.db r := by
  obtain ⟨⟨uuid, intentID, now, rfl⟩, hnone, hintents, hevent⟩ := hnew
  obtain ⟨i, hmem, hid⟩ := (inv_change hs h).consistent.sagas _ hr
  rw [hintents] at hmem
  have hother : ∀ w run, e.commits = some w → (s.worker w).run = some run →
      run.intentID ≠ intentID := by
    intro w run hc
    rw [Event.commits_eq_none hevent] at hc
    cases hc
  refine ⟨?_, by simp [newSagaRun]⟩
  obtain hkept | ⟨hcreated, -⟩ := standing_change hs h hother
  · refine hkept.trans ((hfresh intentID hnone).resolve_left fun heq => ?_)
    have hfind := Option.map_eq_none_iff.mp (congrArg Standing.intent heq)
    exact Table.find_eq_none_iff.mp hfind i hmem hid
  · exact absurd hid (hcreated i hmem)

/-- Intents stay untouched as long as they have no saga. -/
theorem untouched_change (hs : Inv env s) (hfresh : Untouched s.db) (h : Change env s e t) :
    Untouched t.db := by
  intro id hid
  have hold : ∀ r ∈ s.db.sagas, r.intentID ≠ id := by
    intro r hr
    obtain ⟨r', hr', hterms⟩ := (grows_change h).saga hr
    exact fun heq => hid r' hr' ((congrArg Prod.snd hterms).trans heq)
  have hother : ∀ w run, e.commits = some w → (s.worker w).run = some run →
      run.intentID ≠ id := by
    intro w run _ hrun heq
    obtain ⟨r, hr, hterms⟩ := hs.runs w run hrun
    exact hold r hr ((congrArg Prod.snd hterms).trans heq)
  obtain hkept | ⟨-, hcreated⟩ := standing_change hs h hother
  · rw [hkept]
    exact hfresh id hold
  · rw [hcreated]
    rcases hfresh id hold with heq | heq <;> exact .inr (by rw [heq])

end Rows

/-! ## Writes under the lease -/

/-- The rows say where the intents stand. -/
structure Leased (env : Env) (s : World) : Prop where
  tenure : Tenure env s
  rows : ∀ r ∈ s.db.sagas, Corresponds s.db r
  fresh : Untouched s.db

section Leased

variable {env : Env} {s t : World} {e : Event}

/-- A write under the lease is vouched for. -/
theorem Tenure.vouched (ht : Tenure env s) (hok : WritesUnderLease s e) {r : SagaRun}
    (hr : r ∈ s.db.sagas) : Vouched s e r where
  owner := fun w run hwriter hrun hid => hok w hwriter run hrun r hr hid
  seen := by
    intro w run began rail he hw hid
    have hrun : (s.worker w).run = some run := by rw [hw]; rfl
    exact ht.finished hw hr hid (hok w (Event.writer_of_commits he) run hrun r hr hid)

theorem leased_change (hs : Inv env s) (hi : Leased env s) (hok : WritesUnderLease s e)
    (h : Change env s e t) : Leased env t where
  tenure := tenure_change hs hi.tenure h
  rows := by
    intro r' hr'
    rcases row_of_mem hs h hr' with ⟨r, hr, hrow⟩ | hnew
    · exact corresponds_row hs hi.tenure.leases h hr hrow (hi.rows r hr) (hi.tenure.vouched hok hr)
    · exact corresponds_new hs hi.fresh h hr' hnew
  fresh := untouched_change hs hi.fresh h

theorem leased_init (accounts : List Ledger.Account) (merchants : List Merchant) (now : Time) :
    Leased env (World.init accounts merchants now) where
  tenure := tenure_init accounts merchants now
  rows := by simp [World.init, TxState.init]
  fresh := fun id _ => .inl rfl

/-- The completion event of an intent is published with its last transition. -/
theorem events_stage (intentID : UUID) (step : StepName) (done : Bool) :
    (stage intentID step done).events ≤ 1 ∧ ((stage intentID step done).events = 1 ↔
      (stage intentID step done).intent = some .completed) := by
  cases step <;> cases done <;> simp [stage]

end Leased

/-- In every run whose writes to saga rows are made under the lease, an intent has at most one
`intent.completed` event, and it has one if and only if it is completed. -/
theorem completed_event_once {env : Env} {s : World} (h : Reachable env WritesUnderLease s) :
    ∀ i ∈ s.db.intents, completedEvents s.db.outbox i.id ≤ 1 ∧
      (completedEvents s.db.outbox i.id = 1 ↔ i.state = .completed) := by
  intro i hi
  obtain ⟨hs, hleased⟩ := h.induct (P := Leased env) leased_init
    fun _ _ _ hs hi hok hst => leased_change hs hi hok (step_change hst)
  have hfind := Table.find_of_mem (Db.intent_ids_nodup hs.sound.unique) hi
  have hstate : (standing s.db i.id).intent = some i.state := by simp [standing, hfind]
  have hevents : (standing s.db i.id).events = completedEvents s.db.outbox i.id := rfl
  suffices hstanding : (standing s.db i.id).events ≤ 1 ∧ ((standing s.db i.id).events = 1 ↔
      (standing s.db i.id).intent = some .completed) by
    rw [hstate, hevents] at hstanding
    simpa using hstanding
  by_cases hsaga : ∃ r ∈ s.db.sagas, r.intentID = i.id
  · obtain ⟨r, hr, hid⟩ := hsaga
    have hrow := (hleased.rows r hr).1
    rw [hid] at hrow
    rw [hrow]
    exact events_stage _ _ _
  · have hnone : ∀ r ∈ s.db.sagas, r.intentID ≠ i.id := fun r hr hid => hsaga ⟨r, hr, hid⟩
    rcases hleased.fresh i.id hnone with heq | heq <;> simp [heq]

/-- A worker has executed all statements of `emit_completed`. -/
def emitting : List Event :=
  ordering 50 ++ depositing "sig-1" 61847 4 ++ crediting "a" 1000 ++ paying "a" 2000 ++
    executing "a" 3000 19 ++ [.commit "a" .ok] ++ executing "a" 4000 4

/-- Its commit goes through, but it is told otherwise and schedules a retry, and the step is
executed again. -/
def lostCommit : List Event :=
  [.commit "a" (.lost "connection reset"), .settle "a" 0 0] ++ executing "a" 5000 3 ++
    [.commit "a" .ok]

/-- The retry revives the completed run, and the merchant is notified twice. -/
theorem lostCommit_publishes_twice : ∃ s,
    run (World.step smallEnv) smallWorld (emitting ++ lostCommit) = some s ∧
      s.db.intents.map (fun i => (i.id, i.state)) = [(3, .completed)] ∧
      completedEvents s.db.outbox 3 = 2 :=
  exists_of_any (by decide +kernel)

/-- One worker claims the run and stalls, another one settles the intent. -/
def outrun : List Event :=
  ordering 50 ++ depositing "sig-1" 61847 4 ++ executing "a" 1000 1 ++ [.elapse 11] ++
    crediting "b" 2000 ++ paying "b" 3000 ++ executing "b" 4000 19 ++ [.commit "b" .ok] ++
    executing "b" 5000 4 ++ [.commit "b" .ok, .crash "a"]

theorem completed_event_once_outrun : ∃ s i, Reachable smallEnv WritesUnderLease s ∧
    i ∈ s.db.intents ∧ i.state = .completed ∧ completedEvents s.db.outbox i.id = 1 := by
  obtain ⟨s, hs, i, hi, hstate⟩ : ∃ s,
      runIf (World.step smallEnv) WritesUnderLease smallWorld outrun = some s ∧
        ∃ i ∈ s.db.intents, i.state = .completed :=
    exists_of_any (by decide +kernel)
  have h := reachable_of_runIf hs
  exact ⟨s, i, h, hi, hstate, (completed_event_once h i hi).2.mpr hstate⟩

/-! ## Sequential runs -/

/-- Executions of one saga do not overlap, and commits are answered truthfully: a run is claimed
only when the worker its lease names is no longer busy with it. -/
def Sequential (s : World) : Event → Prop
  | .claim _ id => ∀ r ∈ s.db.sagas, r.id = id → ∀ v ∈ r.leaseOwner, ∀ run ∈ (s.worker v).run,
      run.id ≠ id
  | .commit _ (.lost _) => False
  | _ => True

instance (s : World) (e : Event) : Decidable (Sequential s e) := by
  unfold Sequential
  split <;> infer_instance

section Change

variable {env : Env} {s t : World} {e : Event}

/-- A worker that has committed is idle. -/
theorem idle_of_commits (hok : Sequential s e) (h : Change env s e t) {w : Owner}
    (he : e.commits = some w) : t.worker w = .idle := by
  unfold Event.commits at he
  split at he <;> cases he
  · cases h with
    | quiet he => cases he
    | start he => cases he
    | rollback he => cases he
    | commit he hw hx =>
      cases he
      obtain ⟨-, rfl⟩ | ⟨msg, decision, hlost, -⟩ := hx
      · simp
      · cases hlost
  · exact hok.elim

/-- A worker that has written a failure or a retry is idle. -/
theorem idle_of_settle {w : Owner} {clock : Time} {delay : Int}
    (h : Change env s (.settle w clock delay) t) : t.worker w = .idle := by
  cases h with
  | quiet he => cases he
  | start he => cases he
  | rollback he => cases he
  | commit he => cases he
  | settle => simp

end Change

/-- The states an execution has seen are consistent, and its intent stood there as it does now. -/
def SeenAsNow (run : Run) (past db : Db) : Prop :=
  Consistent past ∧ standing past run.intentID = standing db run.intentID

/-- The invariant of sequential runs. -/
structure InStep (env : Env) (s : World) : Prop where
  leases : LeaseHeld s
  /-- A busy worker holds the lease of its run. -/
  holders : ∀ w run, (s.worker w).run = some run → ∀ r ∈ s.db.sagas, r.id = run.id →
    r.leaseOwner = some w
  tracks : Tracks env SeenAsNow s
  rows : ∀ r ∈ s.db.sagas, Corresponds s.db r
  /-- Nothing has happened to an intent without a saga. -/
  fresh : ∀ id, (∀ r ∈ s.db.sagas, r.intentID ≠ id) →
    standing s.db id = ⟨none, [], none, 0⟩ ∨ standing s.db id = ⟨some .pending, [], none, 0⟩

section Step

variable {env : Env} {s t : World} {e : Event}

/-- Of the workers busy with a run there is one. -/
theorem InStep.holder_eq (hi : InStep env s) {r : SagaRun} (hr : r ∈ s.db.sagas) {v w : Owner}
    {run run' : Run} (hv : (s.worker v).run = some run) (hid : r.id = run.id)
    (hw : (s.worker w).run = some run') (hid' : r.id = run'.id) : v = w :=
  Option.some.inj ((hi.holders v run hv r hr hid).symm.trans (hi.holders w run' hw r hr hid'))

theorem holders_change (hs : Inv env s) (hi : InStep env s) (hok : Sequential s e)
    (h : Change env s e t) : ∀ w run, (t.worker w).run = some run → ∀ r ∈ t.db.sagas,
      r.id = run.id → r.leaseOwner = some w := by
  intro w run hrun r' hr' hid
  have hold := run_change h hrun
  rcases row_of_mem hs h hr' with ⟨r, hr, hrow⟩ | hnew
  · have hid' : r.id = run.id := hrow.id_eq.symm.trans hid
    cases hrow with
    | same he =>
      rcases hold with hold | ⟨id, row, rfl, -, hfind, -, rfl⟩
      · exact hi.holders w run hold r' hr hid
      · have heq : id = r'.id := (Table.mem_of_find hfind).2.symm.trans hid.symm
        exact absurd (heq ▸ rfl) (he w)
    | claim he =>
      subst he
      rcases hold with hold | ⟨id, row, he', -⟩
      · exact absurd hid'.symm (hok r hr rfl w (hi.holders w run hold r hr hid') run hold)
      · cases he'
        rfl
    | @commit v run' began rail he hw hv =>
      rcases hold with hold | ⟨id, row, rfl, -⟩
      · obtain rfl := hi.holder_eq hr hold hid' (by rw [hw]; rfl) hv
        rw [idle_of_commits hok h he] at hrun
        cases hrun
      · cases he
    | @settle v clock delay run' decision rail f he hw hv =>
      subst he
      rcases hold with hold | ⟨id, row, he', -⟩
      · obtain rfl := hi.holder_eq hr hold hid' (by rw [hw]; rfl) hv
        rw [idle_of_settle h] at hrun
        cases hrun
      · cases he'
  · obtain ⟨a, ha, hterms⟩ := hs.row_of_run h hrun
    obtain ⟨a', ha', hterms'⟩ := (grows_change h).saga ha
    obtain rfl := Table.eq_of_mem (Db.saga_ids_nodup (inv_change hs h).sound.unique) ha' hr'
      ((congrArg Prod.fst (hterms'.trans hterms)).trans hid.symm)
    exact absurd (congrArg Prod.snd hterms').symm (hnew.fresh a ha)

theorem seenAsNow_change (hs : Inv env s) (hi : InStep env s) (hok : Sequential s e)
    (h : Change env s e t) : Tracks env SeenAsNow t := by
  refine tracks_change hi.tracks (fun _ _ _ _ _ => ⟨hs.consistent, rfl⟩) ?_ h
  intro v run began prog rail hv hsame past hpast
  have hrun : (s.worker v).run = some run := by rw [hv]; rfl
  obtain ⟨r, hr, hterms⟩ := hs.runs v run hrun
  have hid : r.id = run.id := congrArg Prod.fst hterms
  have hintent : r.intentID = run.intentID := congrArg Prod.snd hterms
  have hkept : standing t.db r.intentID = standing s.db r.intentID := by
    refine standing_kept hs h hr fun w run' he hrun' hid' => ?_
    obtain rfl := hi.holder_eq hr hrun hid hrun' hid'
    rw [idle_of_commits hok h he, hv] at hsame
    cases hsame
  rw [hintent] at hkept
  exact ⟨hpast.1, hpast.2.trans hkept.symm⟩

/-- Every write of a sequential run is vouched for. -/
theorem InStep.vouched (hi : InStep env s) {r : SagaRun} (hr : r ∈ s.db.sagas) : Vouched s e r where
  owner := fun w run _ hrun hid => hi.holders w run hrun r hr hid
  seen := fun _ _ _ _ _ hw _ => hi.tracks.finished (fun _ _ hseen => hseen.1) hw

/-- A new deployment is in step. -/
theorem inStep_init (accounts : List Ledger.Account) (merchants : List Merchant) (now : Time) :
    InStep env (World.init accounts merchants now) where
  leases := by
    intro w run hrun
    cases hrun
  holders := by
    intro w run hrun
    cases hrun
  tracks := fun w => rfl
  rows := by simp [World.init, TxState.init]
  fresh := fun id _ => .inl rfl

/-- Every event of a sequential run keeps the invariant. -/
theorem inStep_change (hs : Inv env s) (hi : InStep env s) (hok : Sequential s e)
    (h : Change env s e t) : InStep env t where
  leases := leaseHeld_change hs hi.leases h
  holders := holders_change hs hi hok h
  tracks := seenAsNow_change hs hi hok h
  rows := by
    intro r' hr'
    rcases row_of_mem hs h hr' with ⟨r, hr, hrow⟩ | hnew
    · exact corresponds_row hs hi.leases h hr hrow (hi.rows r hr) (hi.vouched hr)
    · exact corresponds_new hs hi.fresh h hr' hnew
  fresh := untouched_change hs hi.fresh h

end Step

/-- In every reachable state of a sequential run, the saga rows say where the intents stand. -/
theorem settlement_corresponds {env : Env} {s : World} (h : Reachable env Sequential s) :
    ∀ r ∈ s.db.sagas, Corresponds s.db r := by
  obtain ⟨-, hi⟩ := h.induct (P := InStep env) inStep_init
    fun _ _ _ hs hi hok hst => inStep_change hs hi hok (step_change hst)
  exact hi.rows

/-- A settlement in which a worker crashes at its first step and the rail answers with a retry
before it confirms. -/
def interrupted : List Event :=
  ordering 50 ++ depositing "sig-1" 61847 4 ++ executing "a" 1000 5 ++ [.crash "a", .elapse 11] ++
    crediting "b" 2000 ++ submitting "b" 3000 (.ok ⟨.retry, "", "busy"⟩) ++ statements "b" 3100 1 ++
    [.abandon "b", .settle "b" 11 0] ++ paying "b" 4000 ++ executing "c" 5000 19 ++
    [.commit "c" .ok] ++ executing "c" 6000 4 ++ [.commit "c" .ok]

theorem settlement_corresponds_interrupted : ∃ s, Reachable smallEnv Sequential s ∧
    s.db.sagas.map (fun r => (r.intentID, r.state)) = [(3, .completed)] ∧
    standing s.db 3 = ⟨some .completed, intentRefs 3, some .succeeded, 1⟩ := by
  obtain ⟨s, hs, hrow, r, hr, hid, hstate⟩ : ∃ s,
      runIf (World.step smallEnv) Sequential smallWorld interrupted = some s ∧
        s.db.sagas.map (fun r => (r.intentID, r.state)) = [(3, .completed)] ∧
        ∃ r ∈ s.db.sagas, r.intentID = 3 ∧ r.state = .completed :=
    exists_of_any (by decide +kernel)
  have h := reachable_of_runIf hs
  obtain ⟨hstanding, hstep⟩ := settlement_corresponds h r hr
  refine ⟨s, h, hrow, ?_⟩
  rw [hid, hstep hstate, hstate] at hstanding
  exact hstanding

end Selatpay.Settlement
