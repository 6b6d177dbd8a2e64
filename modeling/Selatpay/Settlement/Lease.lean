import Selatpay.Settlement.Invariant

/-!
# Leases and saga rows

A saga row is written when it is claimed, when a step commits, and when a failure
or a retry is recorded. Of these only the claim looks at the lease; the others are
keyed on the id of the row, so a worker whose lease has expired can still move the
row back, revive it or clear the lease of another worker. As long as every such
write is made by the worker the row's lease names, rows only move forward and a
lease is exclusive.
-/

namespace Selatpay.Settlement

open Store Saga Chain

/-! ## How a saga row changes -/

/-- What one event does to one stored saga row. -/
inductive RowChange (env : Env) (s : World) (e : Event) (r : SagaRun) : SagaRun → Prop
  | same (he : ∀ w, e ≠ .claim w r.id)
      (hother : ∀ w run, e.commits = some w → (s.worker w).run = some run → r.id ≠ run.id) :
      RowChange env s e r r
  | claim {w : Owner} (he : e = .claim w r.id) (hidle : s.worker w = .idle)
      (hclaim : claimable s r) :
      RowChange env s e r (r.claim w (s.now + (env.runner w).leaseDuration))
  | commit {w : Owner} {run : Run} {began : Time} {rail : Option RailCall}
      (he : e.commits = some w) (hw : s.worker w = .executing run began (.ret ()) rail)
      (hid : r.id = run.id) :
      RowChange env s e r (r.change (sagaChange (nextStep run.currentStep) began))
  | settle {w : Owner} {clock : Time} {delay : Int} {run : Run} {decision : Decision}
      {rail : Option RailCall} {f : SagaRun → SagaRun} (he : e = .settle w clock delay)
      (hw : s.worker w = .failing run decision rail) (hid : r.id = run.id)
      (hf : Settles env w run clock delay decision f) : RowChange env s e r (f r)

/-- A committed step updates the row of its run and no other. -/
theorem sagas_finished {h : List Db} {run : Run} {now : Time} {m : List Effect} (db : Db)
    (hf : Finished h run now m) : (db.view m).sagas =
      Table.update SagaRun.id db.sagas run.id
        (·.change (sagaChange (nextStep run.currentStep) now)) := by
  cases hf with
  | creditDeposit hstep => simp [Db.apply, hstep, nextStep, sagaChange]
  | paidBefore hstep => simp [Db.apply, hstep, nextStep, sagaChange]
  | paidNow hstep => simp [Db.apply, hstep, nextStep, sagaChange]
  | applyPayoutResult hstep => simp [Db.apply, hstep, nextStep, sagaChange]
  | emitCompleted hstep => simp [Db.apply, hstep, nextStep, sagaChange]

section Rows

variable {env : Env} {s t : World} {e : Event}

/-- A run that was enqueued by an event. -/
structure NewRun (s t : World) (e : Event) (r : SagaRun) : Prop where
  row : ∃ uuid intentID now, r = newSagaRun uuid intentID now
  /-- Its intent had no run. -/
  fresh : ∀ a ∈ s.db.sagas, a.intentID ≠ r.intentID
  intents : t.db.intents = s.db.intents
  event : e.writesRow = false

theorem Event.commits_eq_none {e : Event} (h : e.writesRow = false) : e.commits = none := by
  unfold Event.commits
  split
  · cases h
  · cases h
  · rfl

/-- The rows that are stored are changed one by one, and new runs are put behind them. -/
theorem sagas_change (hs : Inv env s) (h : Change env s e t) : ∃ g news,
    t.db.sagas = s.db.sagas.map g ++ news ∧ (∀ r ∈ s.db.sagas, RowChange env s e r (g r)) ∧
      ∀ r ∈ news, NewRun s t e r := by
  have hsame : e.writesRow = false → ∀ r, RowChange env s e r r := by
    intro he r
    refine .same (by rintro w rfl; cases he) fun w run hc => ?_
    rw [Event.commits_eq_none he] at hc
    cases hc
  have hkeep : e.writesRow = false → t.db.sagas = s.db.sagas → ∃ g news,
      t.db.sagas = s.db.sagas.map g ++ news ∧ (∀ r ∈ s.db.sagas, RowChange env s e r (g r)) ∧
        ∀ r ∈ news, NewRun s t e r :=
    fun he heq => ⟨id, [], by simpa using heq, fun r _ => hsame he r, by simp⟩
  cases h with
  | quiet he htx => exact hkeep he (by rw [World.db, World.db, htx])
  | create => exact hkeep rfl rfl
  | @record n uuid began row sightings =>
    obtain ⟨payments, sagas, hdb, -, hsagas⟩ := recordDeposit_spec s.db row uuid began
    cases hsagas with
    | unchanged => exact hkeep rfl (by simpa using congrArg Db.sagas hdb)
    | enqueued _ _ _ hnone =>
      refine ⟨id, _, by simpa using congrArg Db.sagas hdb, fun r _ => hsame rfl r, ?_⟩
      intro r hr
      rw [List.mem_singleton.mp hr]
      exact ⟨⟨_, _, _, rfl⟩, hnone, by simpa using congrArg Db.intents hdb, rfl⟩
  | @claim w id row hidle hrow hclaim =>
    refine ⟨_, [], (List.append_nil _).symm, ?_, by simp⟩
    intro r hr
    obtain ⟨hmem, rfl⟩ := Table.mem_of_find hrow
    split
    · rename_i hid
      obtain rfl := Table.eq_of_mem (Db.saga_ids_nodup hs.sound.unique) hmem hr hid.symm
      exact .claim rfl hidle hclaim
    · rename_i hid
      exact .same (fun v hv => hid (Event.claim.inj hv).2.symm) fun _ _ hc => by cases hc
  | start he => exact hkeep he rfl
  | exec => exact hkeep rfl rfl
  | rollback he =>
    refine hkeep ?_ rfl
    unfold Event.rollsBack at he
    split at he <;> first | rfl | cases he
  | @commit _ w run began rail x he hw hx =>
    obtain ⟨h, hf, -⟩ := hs.finished hw
    refine ⟨_, [], (sagas_finished s.db hf).trans (List.append_nil _).symm, ?_, by simp⟩
    intro r hr
    split
    · exact .commit he hw ‹_›
    · rename_i hid
      refine .same (by rintro _ rfl; cases he) fun v run' hv hrun => ?_
      obtain rfl : w = v := Option.some.inj (he.symm.trans hv)
      rw [hw] at hrun
      cases hrun
      exact hid
  | @settle w clock delay run decision rail f hw hfree hf =>
    refine ⟨_, [], (List.append_nil _).symm, ?_, by simp⟩
    intro r hr
    split
    · exact .settle rfl hw ‹_› hf
    · exact .same (by simp) fun _ _ hc => by cases hc

/-- Every row comes from a stored one, or is new. -/
theorem row_of_mem (hs : Inv env s) (h : Change env s e t) {r' : SagaRun} (hr' : r' ∈ t.db.sagas) :
    (∃ r ∈ s.db.sagas, RowChange env s e r r') ∨ NewRun s t e r' := by
  obtain ⟨g, news, heq, hrows, hnews⟩ := sagas_change hs h
  rw [heq] at hr'
  rcases List.mem_append.mp hr' with hr' | hr'
  · obtain ⟨r, hr, rfl⟩ := List.mem_map.mp hr'
    exact .inl ⟨r, hr, hrows r hr⟩
  · exact .inr (hnews r' hr')

/-- Every stored row is changed to a row. -/
theorem exists_rowChange (hs : Inv env s) (h : Change env s e t) {r : SagaRun}
    (hr : r ∈ s.db.sagas) : ∃ r' ∈ t.db.sagas, RowChange env s e r r' := by
  obtain ⟨g, news, heq, hrows, -⟩ := sagas_change hs h
  exact ⟨g r, heq ▸ List.mem_append_left _ (List.mem_map_of_mem hr), hrows r hr⟩

theorem RowChange.terms_eq {r r' : SagaRun} (h : RowChange env s e r r') :
    sagaTerms r' = sagaTerms r := by
  cases h with
  | same => rfl
  | claim => rfl
  | @commit w run => cases hn : nextStep run.currentStep <;> rfl
  | settle _ _ _ hf => cases hf <;> rfl

theorem RowChange.id_eq {r r' : SagaRun} (h : RowChange env s e r r') : r'.id = r.id :=
  congrArg Prod.fst h.terms_eq

theorem RowChange.intentID_eq {r r' : SagaRun} (h : RowChange env s e r r') :
    r'.intentID = r.intentID :=
  congrArg Prod.snd h.terms_eq

end Rows

/-! ## Writes under the lease -/

/-- The worker that writes to the row of its run by an event. -/
def Event.writer : Event → Option Owner
  | .commit w .ok => some w
  | .commit w (.lost _) => some w
  | .settle w _ _ => some w
  | _ => none

/-- A write to a row is made by the worker its lease names. -/
def WritesUnderLease (s : World) (e : Event) : Prop :=
  ∀ w ∈ e.writer, ∀ run ∈ (s.worker w).run, ∀ r ∈ s.db.sagas, r.id = run.id →
    r.leaseOwner = some w

instance (s : World) (e : Event) : Decidable (WritesUnderLease s e) :=
  inferInstanceAs (Decidable (∀ w ∈ e.writer, ∀ run ∈ (s.worker w).run, _))

theorem Event.writer_of_commits {e : Event} {w : Owner} (h : e.commits = some w) :
    e.writer = some w := by
  unfold Event.commits at h
  split at h <;> cases h <;> rfl

/-- The lease of a busy worker's own run says that the row is where the worker has seen it. -/
def LeaseHeld (s : World) : Prop :=
  ∀ w run, (s.worker w).run = some run → ∀ r ∈ s.db.sagas, r.id = run.id →
    r.leaseOwner = some w → r.currentStep = run.currentStep ∧ r.state = .running

section Lease

variable {env : Env} {s t : World} {e : Event}

/-- Every event keeps the agreement of leases and workers, whoever writes. -/
theorem leaseHeld_change (hs : Inv env s) (hl : LeaseHeld s) (h : Change env s e t) :
    LeaseHeld t := by
  intro w run hrun r' hr' hid howner
  have hold := run_change h hrun
  rcases row_of_mem hs h hr' with ⟨r, hr, hrow⟩ | ⟨⟨uuid, intentID, now, rfl⟩, -, -, -⟩
  · cases hrow with
    | same he =>
      rcases hold with hold | ⟨id, row, rfl, -, hfind, -, rfl⟩
      · exact hl w run hold r' hr hid howner
      · have hid' : id = r'.id := (Table.mem_of_find hfind).2.symm.trans hid.symm
        exact absurd (hid' ▸ rfl) (he w)
    | @claim v he hidle hclaim =>
      obtain rfl : v = w := Option.some.inj howner
      rcases hold with hold | ⟨id, row, he', -, hfind, -, rfl⟩
      · rw [hidle] at hold
        cases hold
      · rw [he] at he'
        cases he'
        rw [Table.find_of_mem (Db.saga_ids_nodup hs.sound.unique) hr] at hfind
        cases hfind
        exact ⟨rfl, rfl⟩
    | @commit v run' =>
      cases hn : nextStep run'.currentStep <;> simp [hn, sagaChange, SagaRun.change] at howner
    | settle _ _ _ hf => cases hf <;> cases howner
  · cases howner

/-! ## Progress -/

/-- The place of a step in the order of the saga. -/
def position : StepName → Nat
  | .creditDeposit => 0
  | .triggerPayout => 1
  | .applyPayoutResult => 2
  | .emitCompleted => 3

/-- The states in which a run is over. -/
def terminal (state : SagaState) : Prop := state = .completed ∨ state = .failed

instance (state : SagaState) : Decidable (terminal state) := inferInstanceAs (Decidable (_ ∨ _))

/-- A row has only moved forward. -/
def Forward (r r' : SagaRun) : Prop :=
  r'.id = r.id ∧ position r.currentStep ≤ position r'.currentStep ∧
    (terminal r.state → r'.state = r.state)

instance (r r' : SagaRun) : Decidable (Forward r r') := inferInstanceAs (Decidable (_ ∧ _))

/-- All rows have only moved forward. -/
def Progress (s t : World) : Prop := ∀ r ∈ s.db.sagas, ∃ r' ∈ t.db.sagas, Forward r r'

instance (s t : World) : Decidable (Progress s t) :=
  inferInstanceAs (Decidable (∀ r ∈ s.db.sagas, ∃ r' ∈ t.db.sagas, _))

theorem Forward.trans {r r' r'' : SagaRun} (h : Forward r r') (h' : Forward r' r'') :
    Forward r r'' := by
  refine ⟨h'.1.trans h.1, h.2.1.trans h'.2.1, fun hterm => ?_⟩
  have hstate := h.2.2 hterm
  exact (h'.2.2 (hstate ▸ hterm)).trans hstate

theorem not_terminal_running {r : SagaRun} (h : r.state = .running) : ¬ terminal r.state := by
  simp [terminal, h]

theorem RowChange.forward {r r' : SagaRun} (hl : LeaseHeld s) (hok : WritesUnderLease s e)
    (hr : r ∈ s.db.sagas) (h : RowChange env s e r r') : Forward r r' := by
  refine ⟨h.id_eq, ?_⟩
  cases h with
  | same => exact ⟨le_rfl, fun _ => rfl⟩
  | claim he hidle hclaim =>
    refine ⟨le_rfl, fun hterm => ?_⟩
    obtain hstate | hstate := hclaim.1.1 <;> simp [terminal, hstate] at hterm
  | @commit w run began rail he hw hid =>
    have hrun : (s.worker w).run = some run := by rw [hw]; rfl
    have howner := hok w (Event.writer_of_commits he) run hrun r hr hid
    obtain ⟨hstep, hstate⟩ := hl w run hrun r hr hid howner
    refine ⟨?_, fun hterm => absurd hterm (not_terminal_running hstate)⟩
    rw [hstep]
    cases hc : run.currentStep <;>
      simp [nextStep, sagaChange, SagaRun.change, position, hstep, hc]
  | @settle w clock delay run decision rail f he hw hid hf =>
    have hrun : (s.worker w).run = some run := by rw [hw]; rfl
    have howner := hok w (by rw [he]; rfl) run hrun r hr hid
    obtain ⟨-, hstate⟩ := hl w run hrun r hr hid howner
    refine ⟨?_, fun hterm => absurd hterm (not_terminal_running hstate)⟩
    cases hf <;> exact le_rfl

end Lease

/-- In every run whose writes are made under the lease, no row moves back and no row that is over
changes again. -/
theorem progress_of_writesUnderLease {env : Env} {s t : World} {es : List Event}
    (h : Reachable env WritesUnderLease s)
    (hpath : Path (World.step env) WritesUnderLease s es t) : Progress s t := by
  have hs := h.induct (P := LeaseHeld) (fun _ _ _ _ _ hrun => by cases hrun)
    fun _ _ _ hs hl _ hst => leaseHeld_change hs hl (step_change hst)
  have hinv : ∀ s e t, (Inv env s ∧ LeaseHeld s) → WritesUnderLease s e →
      s.step env e = some t → Inv env t ∧ LeaseHeld t := fun s e t hs _ hst =>
    ⟨inv_change hs.1 (step_change hst), leaseHeld_change hs.1 hs.2 (step_change hst)⟩
  refine hpath.related (R := Progress) (fun s r hr => ⟨r, hr, rfl, le_rfl, fun _ => rfl⟩) ?_ hinv
    ?_ hs
  · intro s t u hst htu r hr
    obtain ⟨r', hr', hforward⟩ := hst r hr
    obtain ⟨r'', hr'', hforward'⟩ := htu r' hr'
    exact ⟨r'', hr'', hforward.trans hforward'⟩
  · intro s e t hs hok hst r hr
    obtain ⟨r', hr', hrow⟩ := exists_rowChange hs.1 (step_change hst) hr
    exact ⟨r', hr', hrow.forward hs.2 hok hr⟩

/-- One worker reads the intent and stalls; another one executes the first two steps. -/
def stalled : List Event :=
  ordering 50 ++ depositing "sig-1" 61847 4 ++ executing "a" 1000 1 ++ [.elapse 11] ++
    crediting "b" 2000 ++ paying "b" 3000

/-- The stalled worker goes on with `credit_deposit` and commits. -/
def staleCommit : List Event := statements "a" 1001 6 ++ [.commit "a" .ok]

/-- The stale commit moves the run from `apply_payout_result` back to `trigger_payout`. -/
theorem staleCommit_moves_back : ∃ s t,
    run (World.step smallEnv) smallWorld stalled = some s ∧
      run (World.step smallEnv) s staleCommit = some t ∧
      s.db.sagas.map SagaRun.currentStep = [.applyPayoutResult] ∧
      t.db.sagas.map SagaRun.currentStep = [.triggerPayout] ∧ ¬ Progress s t := by
  obtain ⟨s, hs, hstep, ht⟩ : ∃ s, run (World.step smallEnv) smallWorld stalled = some s ∧
      s.db.sagas.map SagaRun.currentStep = [.applyPayoutResult] ∧
      ((run (World.step smallEnv) s staleCommit).any fun t => decide
        (t.db.sagas.map SagaRun.currentStep = [.triggerPayout] ∧ ¬ Progress s t)) = true :=
    exists_of_any (by decide +kernel)
  obtain ⟨t, ht, hback⟩ := exists_of_any ht
  exact ⟨s, t, hs, ht, hstep, hback⟩

/-- One worker is gone, another one takes its run over. -/
def takenOver : List Event :=
  [.elapse 11, .crash "a"] ++ crediting "b" 2000 ++ paying "b" 3000

theorem progress_of_writesUnderLease_takenOver : ∃ s t,
    Reachable smallEnv WritesUnderLease s ∧
      Path (World.step smallEnv) WritesUnderLease s takenOver t ∧
      t.db.sagas.map SagaRun.currentStep = [.applyPayoutResult] ∧ Progress s t := by
  obtain ⟨s, hs, ht⟩ : ∃ s, runIf (World.step smallEnv) WritesUnderLease smallWorld
        (ordering 50 ++ depositing "sig-1" 61847 4 ++ executing "a" 1000 1) = some s ∧
      ((runIf (World.step smallEnv) WritesUnderLease s takenOver).any fun t => decide
        (t.db.sagas.map SagaRun.currentStep = [.applyPayoutResult])) = true :=
    exists_of_any (by decide +kernel)
  obtain ⟨t, ht, hstep⟩ := exists_of_any ht
  exact ⟨s, t, reachable_of_runIf hs, .of_runIf ht, hstep,
    progress_of_writesUnderLease (reachable_of_runIf hs) (.of_runIf ht)⟩

/-! ## Exclusive leases -/

/-- In the course of these events the worker itself has written to the row of a claimed run, and
nobody had claimed it again before. -/
def Released (env : Env) (ok : World → Event → Prop) (w : Owner) (run : Run) (s : World)
    (es : List Event) : Prop :=
  ∃ before e after u v, es = before ++ e :: after ∧ Path (World.step env) ok s before u ∧
    u.step env e = some v ∧ e.writer = some w ∧ (u.worker w).run = some run ∧
    ∀ x, .claim x run.id ∉ before

/-- The row is leased to a worker until a time, and the worker is busy with it as it claimed it,
if at all. -/
def LeasedTo (w : Owner) (run : Run) (leaseUntil : Time) (s : World) : Prop :=
  (∃ r ∈ s.db.sagas, r.id = run.id ∧ r.leaseOwner = some w ∧ r.leaseUntil = some leaseUntil) ∧
    ∀ run', (s.worker w).run = some run' → run'.id = run.id → run' = run

section Exclusive

variable {env : Env} {s t : World} {e : Event} {w : Owner} {run : Run} {leaseUntil : Time}

theorem now_change (h : Change env s e t) : s.now ≤ t.now := by
  cases h with
  | quiet he htx hworker hcalls hnow => exact hnow
  | create => exact le_rfl
  | record => exact le_rfl
  | claim => exact le_rfl
  | start => exact le_rfl
  | exec => exact le_rfl
  | rollback => exact le_rfl
  | commit => exact le_rfl
  | settle => exact le_rfl

theorem now_path {ok : World → Event → Prop} {es : List Event}
    (h : Path (World.step env) ok s es t) : s.now ≤ t.now := by
  induction h with
  | nil => exact le_rfl
  | cons _ hst _ ih => exact (now_change (step_change hst)).trans ih

/-- Nobody claims a row before its lease is over. -/
theorem not_claimable (hs : Inv env s) (hl : LeasedTo w run leaseUntil s)
    (hnow : s.now < leaseUntil) {r : SagaRun} (hr : r ∈ s.db.sagas) (hid : r.id = run.id) :
    ¬ claimable s r := by
  obtain ⟨⟨a, ha, haid, -, hauntil⟩, -⟩ := hl
  obtain rfl := Table.eq_of_mem (Db.saga_ids_nodup hs.sound.unique) ha hr (haid.trans hid.symm)
  exact fun hclaim => lt_asymm (hclaim.1.2.2 leaseUntil hauntil) hnow

/-- A successful claim found a row to claim. -/
theorem step_claim {id : UUID} (h : s.step env (.claim w id) = some t) : ∃ row,
    Table.find SagaRun.id s.db.sagas id = some row ∧ claimable s row ∧
      t = (s.writeSaga id (·.claim w (s.now + (env.runner w).leaseDuration))).setWorker w
        (.claimed (toRun (row.claim w (s.now + (env.runner w).leaseDuration)))) := by
  simp only [World.step] at h
  split at h
  · split at h <;> cases h
    exact ⟨_, ‹_›, ‹_›, rfl⟩
  · cases h

/-- Before a lease is over, it stays until the worker writes to the row. -/
theorem leasedTo_change (hs : Inv env s) (hl : LeasedTo w run leaseUntil s)
    (hnow : s.now < leaseUntil) (hok : WritesUnderLease s e) (h : Change env s e t) :
    (e.writer = some w ∧ (s.worker w).run = some run) ∨ LeasedTo w run leaseUntil t := by
  have hown : ∀ v run', e.writer = some v → (s.worker v).run = some run' → run'.id = run.id →
      e.writer = some w ∧ (s.worker w).run = some run := by
    intro v run' hwriter hrun hid
    obtain ⟨⟨r, hr, hrid, howner, -⟩, hbusy⟩ := hl
    have howner' := hok v hwriter run' hrun r hr (hrid.trans hid.symm)
    obtain rfl : w = v := Option.some.inj (howner.symm.trans howner')
    exact ⟨hwriter, hbusy run' hrun hid ▸ hrun⟩
  have hbusy : ∀ run', (t.worker w).run = some run' → run'.id = run.id → run' = run := by
    intro run' hrun hid
    obtain hold | ⟨id, row, -, -, hfind, hclaim, rfl⟩ := run_change h hrun
    · exact hl.2 run' hold hid
    · exact absurd hclaim (not_claimable hs hl hnow (Table.mem_of_find hfind).1 hid)
  obtain ⟨r, hr, hrid, howner, huntil⟩ := hl.1
  obtain ⟨r', hr', hrow⟩ := exists_rowChange hs h hr
  cases hrow with
  | same => exact .inr ⟨⟨r, hr', hrid, howner, huntil⟩, hbusy⟩
  | claim he hidle hclaim => exact absurd hclaim (not_claimable hs hl hnow hr hrid)
  | @commit v run' began rail he hw hid =>
    exact .inl (hown v run' (Event.writer_of_commits he) (by rw [hw]; rfl) (hid.symm.trans hrid))
  | @settle v clock delay run' decision rail f he hw hid hf =>
    exact .inl (hown v run' (by rw [he]; rfl) (by rw [hw]; rfl) (hid.symm.trans hrid))

/-- Along a path that ends before the lease is over, the lease stays or is released. -/
theorem leasedTo_path {es : List Event} (hs : Inv env s) (hl : LeasedTo w run leaseUntil s)
    (h : Path (World.step env) WritesUnderLease s es t) (hnow : t.now < leaseUntil) :
    Released env WritesUnderLease w run s es ∨ LeasedTo w run leaseUntil t := by
  induction h with
  | nil => exact .inr hl
  | @cons s u t e es hok hst hpath ih =>
    have hnow' : s.now < leaseUntil :=
      ((now_change (step_change hst)).trans (now_path hpath)).trans_lt hnow
    rcases leasedTo_change hs hl hnow' hok (step_change hst) with ⟨hwriter, hrun⟩ | hl'
    · exact .inl ⟨[], e, es, s, u, rfl, .nil s, hst, hwriter, hrun, by simp⟩
    · rcases ih (inv_change hs (step_change hst)) hl' hnow with hreleased | hl''
      · obtain ⟨before, e', after, x, y, rfl, hbefore, hxy, hwriter, hrun, hnone⟩ := hreleased
        refine .inl ⟨e :: before, e', after, x, y, rfl, .cons hok hst hbefore, hxy, hwriter, hrun,
          fun z hz => ?_⟩
        rcases List.mem_cons.mp hz with rfl | hz
        · obtain ⟨row, hfind, hclaim, -⟩ := step_claim hst
          obtain ⟨hrow, hid⟩ := Table.mem_of_find hfind
          exact not_claimable hs hl hnow' hrow hid hclaim
        · exact hnone z hz
      · exact .inr hl''

end Exclusive

/-- In every run whose writes are made under the lease, a run that a worker has claimed is claimed
again before the lease is over only after that worker itself has written to its row. -/
theorem lease_exclusive {env : Env} {s s₁ s₂ s₃ : World} {w v : Owner} {id : UUID}
    {es : List Event} (h : Reachable env WritesUnderLease s)
    (hclaim : s.step env (.claim w id) = some s₁)
    (hpath : Path (World.step env) WritesUnderLease s₁ es s₂)
    (hearly : s₂.now < s.now + (env.runner w).leaseDuration)
    (hagain : s₂.step env (.claim v id) = some s₃) :
    ∃ run, (s₁.worker w).run = some run ∧ run.id = id ∧
      Released env WritesUnderLease w run s₁ es := by
  have hs₁ : Inv env s₁ := inv_change h.inv (step_change hclaim)
  obtain ⟨row, hfind, -, rfl⟩ := step_claim hclaim
  obtain ⟨hrow, hid⟩ := Table.mem_of_find hfind
  refine ⟨_, by rw [setWorker_self]; rfl, hid, ?_⟩
  refine (leasedTo_path hs₁ ⟨?_, ?_⟩ hpath hearly).resolve_right fun hl => ?_
  · exact ⟨row.claim w _, List.mem_map.mpr ⟨row, hrow, by simp [hid]⟩, rfl, rfl, rfl⟩
  · rintro run' hrun -
    rw [setWorker_self] at hrun
    exact (Option.some.inj hrun).symm
  · obtain ⟨row', hfind', hclaim', -⟩ := step_claim hagain
    obtain ⟨hrow', hid'⟩ := Table.mem_of_find hfind'
    exact not_claimable (hs₁.path hpath) hl hearly hrow' (hid'.trans hid.symm) hclaim'

/-- A worker claims the run and its lease expires. -/
def expired : List Event :=
  ordering 50 ++ depositing "sig-1" 61847 4 ++ [.claim "a" 4, .elapse 11]

/-- Its first statement fails, and it schedules a retry. -/
def staleRetry : List Event :=
  [.start "a", .exec "a" (.fail "timeout"), .abandon "a", .settle "a" 11 0]

/-- The stale retry clears the lease of the worker that has taken the run over, and a third worker
claims the run at once. -/
theorem staleRetry_clears_lease : ∃ s s₁ s₂ s₃,
    run (World.step smallEnv) smallWorld expired = some s ∧
      s.step smallEnv (.claim "b" 4) = some s₁ ∧
      run (World.step smallEnv) s₁ staleRetry = some s₂ ∧
      s₂.step smallEnv (.claim "c" 4) = some s₃ ∧
      s₂.now < s.now + (smallEnv.runner "b").leaseDuration ∧
      ∀ run, ¬ Released smallEnv anyStep "b" run s₁ staleRetry := by
  obtain ⟨s, hs, h⟩ : ∃ s, run (World.step smallEnv) smallWorld expired = some s ∧
      ((s.step smallEnv (.claim "b" 4)).any fun s₁ => decide
        (((run (World.step smallEnv) s₁ staleRetry).any fun s₂ => decide
          ((s₂.step smallEnv (.claim "c" 4)).isSome ∧
            s₂.now < s.now + (smallEnv.runner "b").leaseDuration)) = true)) = true :=
    exists_of_any (by decide +kernel)
  obtain ⟨s₁, hs₁, h⟩ := exists_of_any h
  obtain ⟨s₂, hs₂, h₃, hearly⟩ := exists_of_any h
  obtain ⟨s₃, hs₃⟩ := Option.isSome_iff_exists.mp h₃
  refine ⟨s, s₁, s₂, s₃, hs, hs₁, hs₂, hs₃, hearly, ?_⟩
  rintro run ⟨before, e, after, u, v, heq, -, -, hwriter, -⟩
  have hnone : ∀ e ∈ staleRetry, e.writer ≠ some "b" := by decide
  exact hnone e (by simp [heq]) hwriter

theorem lease_exclusive_released : ∃ s s₁ s₂ s₃ run,
    Reachable smallEnv WritesUnderLease s ∧ s.step smallEnv (.claim "a" 4) = some s₁ ∧
      Path (World.step smallEnv) WritesUnderLease s₁
        (.start "a" :: statements "a" 1000 10 ++ [.commit "a" .ok]) s₂ ∧
      s₂.step smallEnv (.claim "b" 4) = some s₃ ∧ (s₁.worker "a").run = some run ∧
      Released smallEnv WritesUnderLease "a" run s₁
        (.start "a" :: statements "a" 1000 10 ++ [.commit "a" .ok]) := by
  obtain ⟨s, hs, h⟩ : ∃ s, runIf (World.step smallEnv) WritesUnderLease smallWorld
        (ordering 50 ++ depositing "sig-1" 61847 4) = some s ∧
      ((s.step smallEnv (.claim "a" 4)).any fun s₁ => decide
        (((runIf (World.step smallEnv) WritesUnderLease s₁
            (.start "a" :: statements "a" 1000 10 ++ [.commit "a" .ok])).any fun s₂ => decide
          ((s₂.step smallEnv (.claim "b" 4)).isSome ∧
            s₂.now < s.now + (smallEnv.runner "a").leaseDuration)) = true)) = true :=
    exists_of_any (by decide +kernel)
  obtain ⟨s₁, hs₁, h⟩ := exists_of_any h
  obtain ⟨s₂, hs₂, h₃, hearly⟩ := exists_of_any h
  obtain ⟨s₃, hs₃⟩ := Option.isSome_iff_exists.mp h₃
  obtain ⟨run, hrun, -, hreleased⟩ :=
    lease_exclusive (reachable_of_runIf hs) hs₁ (.of_runIf hs₂) hearly hs₃
  exact ⟨s, s₁, s₂, s₃, run, reachable_of_runIf hs, hs₁, .of_runIf hs₂, hs₃, hrun, hreleased⟩

end Selatpay.Settlement
