import Selatpay.Settlement.Lease

/-!
# The budget of retries

A worker decides on the attempts it has seen at its claim, and counts a failure in a
statement of its own. In runs in which executions of one saga do not overlap, the row has
kept the attempts the worker has seen, or was advanced by a commit whose answer was lost. So
the errors reported on a step are bounded by the attempts on the row, and these stay below
`MaxAttempts` wherever workers crash.
-/

namespace Selatpay.Settlement

open Store Saga Chain

/-- Executions of one saga do not overlap: a run is claimed only when no worker is busy with it. -/
def NonOverlapping (s : World) : Event → Prop
  | .claim _ id => ∀ w, ∀ run ∈ (s.worker w).run, run.id ≠ id
  | _ => True

/-- The event records an error of an execution of a step: its worker writes the failure or the
retry. -/
def Event.reports (s : World) (id : UUID) (step : StepName) : Event → Bool
  | .settle w _ _ => (s.worker w).run.any fun run => run.id = id ∧ run.currentStep = step
  | _ => false

/-- The number of executions of a step of a saga that end in a reported error. -/
def reportedErrors (env : Env) (id : UUID) (step : StepName) : World → List Event → ℕ
  | _, [] => 0
  | s, e :: es => (if e.reports s id step then 1 else 0) + match s.step env e with
    | some t => reportedErrors env id step t es
    | none => 0

/-! ## Decisions -/

/-- A retry is decided on only if attempts are left. -/
def Decided (env : Env) (s : World) : Prop :=
  ∀ w run cause rail, s.worker w = .failing run (.retry cause) rail →
    run.stepAttempts + 1 < (env.runner w).maxAttempts

theorem lt_of_afterFailure {cfg : Config} {run : Run} {err cause : GoError}
    (h : afterFailure cfg run err = .retry cause) : run.stepAttempts + 1 < cfg.maxAttempts := by
  unfold afterFailure at h
  split at h
  · cases h
  · rename_i hno
    exact not_le.mp fun hle => hno (.inr hle)

/-- A terminal error wrapped by these messages, the outermost one first. -/
def wrapTerminal (msgs : List String) (cause : GoError) : GoError :=
  msgs.foldr .wrap (.terminal cause)

/-- A terminal error fails the run, whatever wraps it and however often it was tried. -/
theorem afterFailure_wrapTerminal (cfg : Config) (run : Run) (msgs : List String)
    (cause : GoError) :
    afterFailure cfg run (wrapTerminal msgs cause) = .fail (wrapTerminal msgs cause) := by
  have hterminal : isTerminal (wrapTerminal msgs cause) = true := by
    induction msgs with
    | nil => rfl
    | cons msg msgs ih => exact ih
  exact if_pos (.inl hterminal)

section Decisions

variable {env : Env} {s t : World} {e : Event}

/-- What a worker does not change of itself is decided as before. -/
theorem Decided.setWorker {u : World} (hs : Decided env s) (hu : u.worker = s.worker) {w : Owner}
    {x : Worker} (hx : ∀ run cause rail, x = .failing run (.retry cause) rail →
      run.stepAttempts + 1 < (env.runner w).maxAttempts) : Decided env (u.setWorker w x) := by
  intro v run cause rail hv
  obtain rfl | hne := eq_or_ne v w
  · rw [setWorker_self] at hv
    exact hx run cause rail hv
  · rw [setWorker_ne _ _ _ _ hne, hu] at hv
    exact hs v run cause rail hv

/-- A worker that learns of an error has decided by the attempts it has seen. -/
theorem Decided.failed {u : World} (hs : Decided env s) (hu : u.worker = s.worker) (w : Owner)
    (run : Run) (rail : Option RailCall) (err : GoError) :
    Decided env (u.setWorker w (World.failed env w run rail err)) := by
  refine hs.setWorker hu fun run' cause rail' hx => ?_
  rw [World.failed] at hx
  cases run'
  injection hx with hrun hdecision
  exact hrun ▸ lt_of_afterFailure hdecision

theorem decided_step (hs : Decided env s) (h : s.step env e = some t) : Decided env t := by
  cases e with
  | elapse d => cases h; exact hs
  | refresh => cases h; exact hs
  | forget n => cases h; exact hs
  | create c =>
    simp only [World.step] at h
    split at h
    · split at h <;> cases h
      exact hs
    · cases h
  | observe signature commitment answer =>
    simp only [World.step] at h
    split at h <;> cases h <;> exact hs
  | link n =>
    simp only [World.step] at h
    split at h <;> cases h
    exact hs
  | record n uuid began =>
    simp only [World.step] at h
    split at h
    · split at h <;> cases h
      exact hs
    · cases h
  | claim w id =>
    simp only [World.step] at h
    split at h
    · split at h <;> cases h
      exact hs.setWorker rfl (by simp)
    · cases h
  | start w =>
    simp only [World.step] at h
    split at h
    · split at h <;> cases h <;> exact hs.setWorker rfl (by simp)
    · cases h
  | refuse w msg =>
    simp only [World.step] at h
    split at h <;> cases h
    exact hs.failed rfl _ _ _ _
  | exec w input =>
    simp only [World.step] at h
    split at h
    · split at h
      · split at h <;> cases h
        exact hs.setWorker rfl (by simp)
      · cases h
    · cases h
  | abandon w =>
    simp only [World.step] at h
    split at h <;> cases h
    exact hs.failed rfl _ _ _ _
  | commit w answer =>
    simp only [World.step] at h
    split at h
    · cases answer with
      | ok =>
        simp only at h
        split at h <;> cases h
        exact hs.setWorker rfl (by simp)
      | failed msg =>
        cases h
        exact hs.failed rfl _ _ _ _
      | lost msg =>
        simp only at h
        split at h <;> cases h
        exact hs.failed rfl _ _ _ _
    · cases h
  | settle w clock delay =>
    simp only [World.step] at h
    split at h
    · split at h
      · rename_i decision _ _ _
        cases decision with
        | fail cause =>
          cases h
          exact hs.setWorker rfl (by simp)
        | retry cause =>
          simp only at h
          split at h <;> cases h
          exact hs.setWorker rfl (by simp)
      · cases h
    · cases h
  | crash w =>
    cases h
    exact hs.setWorker rfl (by simp)

end Decisions

/-! ## The budget of a row -/

/-- The errors reported on the steps of a row: no more than its attempts on the current step, no
more than the maximum on an earlier one, none on a later one. The last error of a failed row is
not among its attempts. -/
structure WithinBudget (max : Int) (errors : StepName → ℕ) (r : SagaRun) : Prop where
  nonneg : 0 ≤ r.stepAttempts
  lt : r.stepAttempts < max
  current : (errors r.currentStep : Int) ≤
    if r.state = .failed then r.stepAttempts + 1 else r.stepAttempts
  earlier : ∀ step, position step < position r.currentStep → (errors step : Int) ≤ max
  later : ∀ step, position r.currentStep < position step → errors step = 0

/-- What the row of a busy worker's run is like: as the worker has seen it, or advanced by the
worker's own commit. -/
structure Snapshot (max : Int) (errors : StepName → ℕ) (r : SagaRun) (x : Worker) (run : Run) :
    Prop where
  unfailed : r.state ≠ .failed
  nonneg : 0 ≤ run.stepAttempts
  lt : run.stepAttempts < max
  reported : (errors run.currentStep : Int) ≤ run.stepAttempts
  seen : (r.currentStep = run.currentStep ∧ r.stepAttempts = run.stepAttempts) ∨
    (∃ decision rail, x = .failing run decision rail) ∧
      position run.currentStep < position r.currentStep ∧ r.stepAttempts = 0

theorem position_injective : Function.Injective position := by
  intro a b h
  cases a <;> cases b <;> first | rfl | cases h

/-- One more error on a step. -/
def bump (errors : StepName → ℕ) (step : StepName) : StepName → ℕ :=
  fun st => errors st + if st = step then 1 else 0

theorem bump_self (errors : StepName → ℕ) (step : StepName) :
    bump errors step step = errors step + 1 := by simp [bump]

theorem bump_ne {errors : StepName → ℕ} {step st : StepName} (h : st ≠ step) :
    bump errors step st = errors st := by simp [bump, h]

/-- An open transaction is over the row as it was claimed. -/
theorem Snapshot.seen_of_executing {max : Int} {errors : StepName → ℕ} {r : SagaRun} {x : Worker}
    {run run' : Run} {began : Time} {prog : StepM Unit} {rail : Option RailCall}
    (h : Snapshot max errors r x run) (hx : x = .executing run' began prog rail) :
    r.currentStep = run.currentStep ∧ r.stepAttempts = run.stepAttempts := by
  refine h.seen.resolve_right ?_
  rintro ⟨⟨decision, rail', hx'⟩, -⟩
  rw [hx] at hx'
  cases hx'

section Rows

variable {max : Int} {errors : StepName → ℕ} {r : SagaRun} {x : Worker} {run : Run}

/-- The steps before the current one keep to the maximum when one more error is reported. -/
theorem WithinBudget.earlier_bump (hr : WithinBudget max errors r)
    (hseen : Snapshot max errors r x run) (step : StepName)
    (h : position step < position r.currentStep) :
    (bump errors run.currentStep step : Int) ≤ max := by
  have hearlier := hr.earlier step h
  by_cases hstep : step = run.currentStep
  · have hreported := hseen.reported
    have hlt := hseen.lt
    rw [hstep, bump_self]
    push_cast
    omega
  · rwa [bump_ne hstep]

theorem WithinBudget.later_bump (hr : WithinBudget max errors r)
    (hseen : Snapshot max errors r x run) (step : StepName)
    (h : position r.currentStep < position step) : bump errors run.currentStep step = 0 := by
  rw [bump_ne, hr.later step h]
  rintro rfl
  rcases hseen.seen with ⟨hstep, -⟩ | ⟨-, hlt, -⟩
  · rw [hstep] at h
    exact lt_irrefl _ h
  · exact lt_asymm h hlt

/-- The errors on the current step after a report. -/
theorem Snapshot.current_bump (hr : WithinBudget max errors r)
    (hseen : Snapshot max errors r x run) :
    (bump errors run.currentStep r.currentStep : Int) ≤ r.stepAttempts + 1 := by
  have hcurrent := hr.current
  rw [if_neg hseen.unfailed] at hcurrent
  unfold bump
  push_cast
  split <;> omega

/-- A failed row is within its budget. -/
theorem WithinBudget.fail (hr : WithinBudget max errors r)
    (hseen : Snapshot max errors r x run) (lastError : String) :
    WithinBudget max (bump errors run.currentStep) (r.fail lastError) where
  nonneg := hr.nonneg
  lt := hr.lt
  current := by
    have hcurrent := hseen.current_bump hr
    have hfailed : (r.fail lastError).state = .failed := rfl
    rw [if_pos hfailed]
    exact hcurrent
  earlier := hr.earlier_bump hseen
  later := hr.later_bump hseen

/-- A row that is tried again is within its budget. -/
theorem WithinBudget.retry (hr : WithinBudget max errors r)
    (hseen : Snapshot max errors r x run) (hleft : run.stepAttempts + 1 < max) (nextRunAt : Time)
    (lastError : String) :
    WithinBudget max (bump errors run.currentStep) (r.retry nextRunAt lastError) where
  nonneg := by
    have hnonneg := hr.nonneg
    change 0 ≤ r.stepAttempts + 1
    omega
  lt := by
    have hnonneg := hseen.nonneg
    change r.stepAttempts + 1 < max
    rcases hseen.seen with ⟨-, hattempts⟩ | ⟨-, -, hattempts⟩ <;> omega
  current := by
    have hcurrent := hseen.current_bump hr
    rw [if_neg (by simp [SagaRun.retry])]
    exact hcurrent
  earlier := hr.earlier_bump hseen
  later := hr.later_bump hseen

/-- No step has more errors than the maximum. -/
theorem WithinBudget.le_max (hr : WithinBudget max errors r) (step : StepName) :
    (errors step : Int) ≤ max := by
  rcases lt_trichotomy (position step) (position r.currentStep) with hlt | heq | hlt
  · exact hr.earlier step hlt
  · have hcurrent := hr.current
    have hlt := hr.lt
    rw [position_injective heq]
    split at hcurrent <;> omega
  · have hnonneg := hr.nonneg
    have hlt := hr.lt
    rw [hr.later step ‹_›]
    omega

/-- A claim keeps the budget. -/
theorem WithinBudget.claim (hr : WithinBudget max errors r) (hstate : r.state ≠ .failed)
    (owner : String) (leaseUntil : Time) :
    WithinBudget max errors (r.claim owner leaseUntil) where
  nonneg := hr.nonneg
  lt := hr.lt
  current := by
    have hcurrent := hr.current
    rw [if_neg hstate] at hcurrent
    rw [if_neg (by simp [SagaRun.claim])]
    exact hcurrent
  earlier := hr.earlier
  later := hr.later

/-- A committed step keeps the budget: the next step has no errors yet. -/
theorem WithinBudget.change (hr : WithinBudget max errors r)
    (hseen : Snapshot max errors r x run) (hstep : r.currentStep = run.currentStep) (now : Time) :
    WithinBudget max errors (r.change (sagaChange (nextStep run.currentStep) now)) := by
  have hcurrent := hr.current
  have hlt := hr.lt
  have hnonneg := hr.nonneg
  rw [if_neg hseen.unfailed] at hcurrent
  cases hn : nextStep run.currentStep with
  | none =>
    refine ⟨hr.nonneg, hr.lt, ?_, hr.earlier, hr.later⟩
    rw [if_neg (by simp [sagaChange, SagaRun.change])]
    exact hcurrent
  | some next =>
    have hnext : position next = position r.currentStep + 1 := by
      rw [hstep]
      cases hc : run.currentStep <;> rw [hc] at hn <;> cases hn <;> rfl
    have hzero := hr.later next (by omega)
    have hmax : (0 : Int) < max := by omega
    refine ⟨le_rfl, hmax, ?_, ?_, ?_⟩
    · change (errors next : Int) ≤ _
      rw [hzero, if_neg (by simp [sagaChange, SagaRun.change])]
      exact le_rfl
    · intro step hlt'
      change position step < position next at hlt'
      by_cases heq : step = r.currentStep
      · rw [heq]
        omega
      · have hne := position_injective.ne heq
        exact hr.earlier step (by omega)
    · intro step hlt'
      change position next < position step at hlt'
      exact hr.later step (by omega)

end Rows

/-! ## The budget of a run -/

/-- The invariant: `errors` are those reported so far. -/
structure Budget (env : Env) (max : Int) (errors : UUID → StepName → ℕ) (s : World) : Prop where
  /-- A run has one busy worker at most. -/
  single : ∀ v w run run', (s.worker v).run = some run → (s.worker w).run = some run' →
    run.id = run'.id → v = w
  decided : Decided env s
  rows : ∀ r ∈ s.db.sagas, WithinBudget max (errors r.id) r
  snapshots : ∀ w run, (s.worker w).run = some run → ∀ r ∈ s.db.sagas, r.id = run.id →
    Snapshot max (errors run.id) r (s.worker w) run
  /-- No errors are reported on what is not stored. -/
  unstored : ∀ id, (∀ r ∈ s.db.sagas, r.id ≠ id) → ∀ step, errors id step = 0

section Steps

variable {env : Env} {max : Int} {errors : UUID → StepName → ℕ} {s t : World} {e : Event}

theorem Budget.init (accounts : List Ledger.Account) (merchants : List Merchant) (now : Time) :
    Budget env max (fun _ _ => 0) (World.init accounts merchants now) where
  single := by
    intro v w run run' hrun
    cases hrun
  decided := by
    intro w run cause rail hw
    cases hw
  rows := by simp [World.init, TxState.init]
  snapshots := by
    intro w run hrun
    cases hrun
  unstored := fun _ _ _ => rfl

/-- A run keeps having one busy worker at most. -/
theorem single_change (hb : Budget env max errors s) (hok : NonOverlapping s e)
    (h : Change env s e t) : ∀ v w run run', (t.worker v).run = some run →
      (t.worker w).run = some run' → run.id = run'.id → v = w := by
  intro v w run run' hv hw hid
  have hclaimed : ∀ {v w : Owner} {run run' : Run}, (s.worker v).run = some run →
      (t.worker w).run = some run' → run.id = run'.id → v = w := by
    intro v w run run' hv hw hid
    obtain hw | ⟨id, row, rfl, -, hrow, -, rfl⟩ := run_change h hw
    · exact hb.single v w run run' hv hw hid
    · exact absurd (hid.trans (Table.mem_of_find hrow).2) (hok v run hv)
  obtain hv' | ⟨id, row, rfl, -, hrow, -, rfl⟩ := run_change h hv
  · exact hclaimed hv' hw hid
  · obtain hw' | ⟨id', row', he, -⟩ := run_change h hw
    · exact (hclaimed hw' hv hid.symm).symm
    · exact (Event.claim.inj he).1

/-- An id that is not stored was not stored before. -/
theorem ids_before (h : Change env s e t) {id : UUID} (hid : ∀ r ∈ t.db.sagas, r.id ≠ id) :
    ∀ r ∈ s.db.sagas, r.id ≠ id := by
  intro r hr heq
  obtain ⟨r', hr', hterms⟩ := (grows_change h).saga hr
  exact hid r' hr' ((congrArg Prod.fst hterms).trans heq)

/-- The maximum is positive, whatever was configured. -/
theorem positive_max (hmax : ∀ w, (env.runner w).maxAttempts = max) : 0 < max := by
  rw [← hmax ""]
  simp only [Env.runner, Config.withDefaults]
  split <;> omega

/-- The id of a new run was not stored. -/
theorem NewRun.id_ne (hs : Inv env s) (h : Change env s e t) {r' : SagaRun}
    (hr' : r' ∈ t.db.sagas) (hnew : NewRun s t e r') : ∀ r ∈ s.db.sagas, r.id ≠ r'.id := by
  intro r hr hid
  obtain ⟨a, ha, hterms⟩ := (grows_change h).saga hr
  have hida : a.id = r'.id := (congrArg Prod.fst hterms).trans hid
  obtain rfl := Table.eq_of_mem (Db.saga_ids_nodup (inv_change hs h).sound.unique) ha hr' hida
  exact hnew.fresh r hr (congrArg Prod.snd hterms).symm

/-- The row of a run a worker was busy with was stored before. -/
theorem exists_row_of_run (hs : Inv env s) (h : Change env s e t) {w : Owner} {run : Run}
    (hrun : (s.worker w).run = some run) {r' : SagaRun} (hr' : r' ∈ t.db.sagas)
    (hid : r'.id = run.id) : ∃ r ∈ s.db.sagas, r.id = run.id ∧ RowChange env s e r r' := by
  rcases row_of_mem hs h hr' with ⟨r, hr, hrow⟩ | hnew
  · exact ⟨r, hr, hrow.id_eq.symm.trans hid, hrow⟩
  · obtain ⟨a, ha, hterms⟩ := hs.runs w run hrun
    exact absurd ((congrArg Prod.fst hterms).trans hid.symm) (hnew.id_ne hs h hr' a ha)

/-- A worker whose execution has failed stays as it is until it is idle. -/
theorem failing_change (h : Change env s e t) {w : Owner} {run run' : Run} {decision : Decision}
    {rail : Option RailCall} (hw : s.worker w = .failing run decision rail)
    (hrun : (t.worker w).run = some run') : t.worker w = .failing run decision rail := by
  cases h.worker w with
  | same hworker => exact hworker.trans hw
  | claim he hidle => rw [hw] at hidle; cases hidle
  | start hclaimed => rw [hw] at hclaimed; cases hclaimed
  | exec hexec => rw [hw] at hexec; cases hexec
  | rollback he hworker =>
    obtain hworker | ⟨run, began, prog, rail, decision, hexec, -⟩ := hworker
    · rw [hworker] at hrun; cases hrun
    · rw [hw] at hexec; cases hexec
  | commit he hexec => rw [hw] at hexec; cases hexec
  | settle hfailing hworker => rw [hworker] at hrun; cases hrun

/-- A worker that is still busy after its commit was told otherwise. -/
theorem failing_of_commits (h : Change env s e t) {w : Owner} {run run' : Run} {began : Time}
    {rail : Option RailCall} (hw : s.worker w = .executing run began (.ret ()) rail)
    (he : e.commits = some w) (hrun : (t.worker w).run = some run') :
    ∃ decision rail, t.worker w = .failing run decision rail := by
  have hwrites : e.writesRow = true := by
    by_contra hno
    rw [Event.commits_eq_none (Bool.not_eq_true _ ▸ hno)] at he
    cases he
  cases h with
  | quiet hquiet => rw [hwrites] at hquiet; cases hquiet
  | create => cases he
  | record => cases he
  | claim => cases he
  | start hquiet => rw [hwrites] at hquiet; cases hquiet
  | exec => cases he
  | @rollback e v x hback =>
    have hquiet : e.writesRow = false := by
      unfold Event.rollsBack at hback
      split at hback <;> first | rfl | cases hback
    rw [hwrites] at hquiet
    cases hquiet
  | @commit e v run'' began'' rail'' x he' hw' hx =>
    obtain rfl : v = w := Option.some.inj (he'.symm.trans he)
    obtain ⟨-, rfl⟩ | ⟨msg, decision, -, rfl⟩ := hx
    · simp [Worker.run] at hrun
    · rw [hw] at hw'
      cases hw'
      exact ⟨decision, rail, by simp⟩
  | settle => cases he

/-- The row of a busy worker's run, after an event that reports no error. -/
theorem snapshot_change (hs : Inv env s) (hb : Budget env max errors s) (hok : NonOverlapping s e)
    (h : Change env s e t) (he : ∀ w clock delay, e ≠ .settle w clock delay) {w : Owner} {run : Run}
    (hrun : (t.worker w).run = some run) {r' : SagaRun} (hr' : r' ∈ t.db.sagas)
    (hid : r'.id = run.id) : Snapshot max (errors run.id) r' (t.worker w) run := by
  obtain hold | ⟨id, row, rfl, hidle, hrow, hclaim, rfl⟩ := run_change h hrun
  · obtain ⟨r, hr, hid', hchange⟩ := exists_row_of_run hs h hold hr' hid
    have hseen := hb.snapshots w run hold r hr hid'
    cases hchange with
    | same =>
      refine ⟨hseen.unfailed, hseen.nonneg, hseen.lt, hseen.reported, ?_⟩
      rcases hseen.seen with hsame | ⟨⟨decision, rail, hw⟩, hadvanced⟩
      · exact .inl hsame
      · exact .inr ⟨⟨decision, rail, failing_change h hw hrun⟩, hadvanced⟩
    | claim he' =>
      subst he'
      exact absurd hid'.symm (hok w run hold)
    | @commit v run' began rail hcommits hw hrid =>
      have hv : (s.worker v).run = some run' := by rw [hw]; rfl
      obtain rfl := hb.single v w run' run hv hold (hrid.symm.trans hid')
      obtain rfl : run' = run := Option.some.inj (hv.symm.trans hold)
      have hfailing := failing_of_commits h hw hcommits hrun
      obtain ⟨hstep, hattempts⟩ := hseen.seen_of_executing hw
      cases hn : nextStep run'.currentStep with
      | none =>
        exact ⟨by simp [sagaChange, SagaRun.change], hseen.nonneg, hseen.lt, hseen.reported,
          .inl ⟨hstep, hattempts⟩⟩
      | some next =>
        have hnext : position run'.currentStep < position next := by
          cases hc : run'.currentStep <;> rw [hc] at hn <;> cases hn <;> decide
        exact ⟨by simp [sagaChange, SagaRun.change], hseen.nonneg, hseen.lt, hseen.reported,
          .inr ⟨hfailing, hnext, rfl⟩⟩
    | settle he' => exact absurd he' (he _ _ _)
  · -- The worker has just claimed the run and sees the row as it is.
    obtain ⟨hmem, rfl⟩ := Table.mem_of_find hrow
    have hstate : row.state ≠ .failed := by
      rcases hclaim.1.1 with hstate | hstate <;> simp [hstate]
    have hwithin := hb.rows row hmem
    have hcurrent := hwithin.current
    rw [if_neg hstate] at hcurrent
    rcases row_of_mem hs h hr' with ⟨r, hr, hchange⟩ | hnew
    · have hrid : r.id = row.id := hchange.id_eq.symm.trans hid
      obtain rfl := Table.eq_of_mem (Db.saga_ids_nodup hs.sound.unique) hr hmem hrid
      cases hchange with
      | same he' => exact absurd rfl (he' w)
      | claim he' =>
        exact ⟨by simp [SagaRun.claim], hwithin.nonneg, hwithin.lt, hcurrent, .inl ⟨rfl, rfl⟩⟩
      | commit he' => cases he'
      | settle he' => cases he'
    · cases hnew.event

/-- An event that reports no error keeps the budget. -/
theorem budget_change (hmax : 0 < max) (hs : Inv env s) (hb : Budget env max errors s)
    (hok : NonOverlapping s e) (h : Change env s e t) (hdecided : Decided env t)
    (he : ∀ w clock delay, e ≠ .settle w clock delay) : Budget env max errors t where
  single := single_change hb hok h
  decided := hdecided
  rows := by
    intro r' hr'
    rcases row_of_mem hs h hr' with ⟨r, hr, hchange⟩ | hnew
    · have hwithin := hb.rows r hr
      cases hchange with
      | same => exact hwithin
      | claim _ _ hclaim =>
        refine hwithin.claim ?_ _ _
        rcases hclaim.1.1 with hstate | hstate <;> simp [hstate]
      | @commit w run began rail hcommits hw hrid =>
        have hseen := hb.snapshots w run (by rw [hw]; rfl) r hr hrid
        rw [← hrid] at hseen
        have hid : (r.change (sagaChange (nextStep run.currentStep) began)).id = r.id := by
          cases nextStep run.currentStep <;> rfl
        rw [hid]
        exact hwithin.change hseen (hseen.seen_of_executing hw).1 began
      | settle he' => exact absurd he' (he _ _ _)
    · have hzero := hb.unstored r'.id (hnew.id_ne hs h hr')
      obtain ⟨uuid, intentID, now, rfl⟩ := hnew.row
      refine ⟨le_rfl, hmax, ?_, fun step _ => ?_, fun step _ => hzero step⟩
      · rw [hzero, if_neg (by simp [newSagaRun])]
        exact le_rfl
      · rw [hzero]
        exact hmax.le
  snapshots := fun w run hrun r' hr' hid => snapshot_change hs hb hok h he hrun hr' hid
  unstored := fun id hid => hb.unstored id (ids_before h hid)

/-- A reported error is charged to the row it is written to. -/
theorem within_settles (hb : Budget env max errors s) (hmax : ∀ w, (env.runner w).maxAttempts = max)
    {w : Owner} {run : Run} {decision : Decision} {rail : Option RailCall} {clock : Time}
    {delay : Int} {f : SagaRun → SagaRun} (hw : s.worker w = .failing run decision rail)
    (hf : Settles env w run clock delay decision f) {r : SagaRun} (hr : r ∈ s.db.sagas)
    (hid : r.id = run.id) : WithinBudget max (bump (errors run.id) run.currentStep) (f r) := by
  have hwithin := hb.rows r hr
  rw [hid] at hwithin
  have hseen := hb.snapshots w run (by rw [hw]; rfl) r hr hid
  cases hf with
  | fail cause => exact hwithin.fail hseen _
  | retry cause => exact hwithin.retry hseen (hmax w ▸ hb.decided w run cause rail hw) _ _

theorem id_settles {w : Owner} {run : Run} {decision : Decision} {clock : Time} {delay : Int}
    {f : SagaRun → SagaRun} (hf : Settles env w run clock delay decision f) (r : SagaRun) :
    (f r).id = r.id := by
  cases hf <;> rfl

/-- An event that reports an error keeps the budget. -/
theorem budget_settle (hs : Inv env s) (hb : Budget env max errors s) (hok : NonOverlapping s e)
    (hmax : ∀ w, (env.runner w).maxAttempts = max) {w : Owner} {run : Run} {decision : Decision}
    {rail : Option RailCall} {clock : Time} {delay : Int} {f : SagaRun → SagaRun}
    (hw : s.worker w = .failing run decision rail)
    (hf : Settles env w run clock delay decision f) (hdecided : Decided env t)
    (ht : t = (s.writeSaga run.id f).setWorker w .idle) (h : Change env s e t) :
    Budget env max (Function.update errors run.id (bump (errors run.id) run.currentStep)) t := by
  have hrun : (s.worker w).run = some run := by rw [hw]; rfl
  have hmem : ∀ r' ∈ t.db.sagas, ∃ r ∈ s.db.sagas, r'.id = r.id ∧
      (r.id = run.id ∧ r' = f r ∨ r.id ≠ run.id ∧ r' = r) := by
    intro r' hr'
    rw [ht] at hr'
    obtain ⟨r, hr, rfl⟩ := Table.mem_update hr'
    by_cases hid : r.id = run.id
    · rw [if_pos hid]
      exact ⟨r, hr, id_settles hf r, .inl ⟨hid, rfl⟩⟩
    · rw [if_neg hid]
      exact ⟨r, hr, rfl, .inr ⟨hid, rfl⟩⟩
  refine ⟨single_change hb hok h, hdecided, ?_, ?_, ?_⟩
  · intro r' hr'
    obtain ⟨r, hr, hid', ⟨hid, rfl⟩ | ⟨hid, rfl⟩⟩ := hmem r' hr'
    · rw [hid', hid, Function.update_self]
      exact within_settles hb hmax hw hf hr hid
    · rw [Function.update_of_ne hid]
      exact hb.rows r' hr
  · intro v run' hv r' hr' hrid
    obtain rfl | hne := eq_or_ne v w
    · rw [ht, setWorker_self] at hv
      cases hv
    have hsame : t.worker v = s.worker v := by rw [ht, setWorker_ne _ _ _ _ hne, writeSaga_worker]
    rw [hsame] at hv ⊢
    have hother : run'.id ≠ run.id := fun hid => hne (hb.single v w run' run hv hrun hid)
    obtain ⟨r, hr, hid', ⟨hid, rfl⟩ | ⟨-, rfl⟩⟩ := hmem r' hr'
    · exact absurd (hrid.symm.trans (hid'.trans hid)) hother
    · rw [Function.update_of_ne hother]
      exact hb.snapshots v run' hv r' hr hrid
  · intro id hid step
    have hold := ids_before h hid
    obtain ⟨r, hr, hterms⟩ := hs.runs w run hrun
    have hne : id ≠ run.id := fun heq => hold r hr ((congrArg Prod.fst hterms).trans heq.symm)
    rw [Function.update_of_ne hne]
    exact hb.unstored id hold step

/-- Every event keeps the budget, with the error it may report. -/
theorem budget_step (hmax : ∀ w, (env.runner w).maxAttempts = max) (hs : Inv env s)
    (hb : Budget env max errors s) (hok : NonOverlapping s e) (hst : s.step env e = some t) :
    Budget env max (fun id step => errors id step + if e.reports s id step then 1 else 0) t := by
  have h := step_change hst
  have hdecided := decided_step hb.decided hst
  by_cases he : ∃ w clock delay, e = .settle w clock delay
  · obtain ⟨w, clock, delay, rfl⟩ := he
    cases h with
    | quiet he => cases he
    | start he => cases he
    | rollback he => cases he
    | commit he => cases he
    | @settle _ _ _ run decision rail f hw hfree hf =>
      have hnext := budget_settle hs hb hok hmax hw hf hdecided rfl (step_change hst)
      convert hnext using 1
      funext id step
      have hrun : (s.worker w).run = some run := by rw [hw]; rfl
      by_cases hid : id = run.id
      · subst hid
        simp [Event.reports, hrun, bump, eq_comm]
      · simp [Event.reports, hrun, Function.update_of_ne hid, Ne.symm hid]
  · have hno : ∀ w clock delay, e ≠ .settle w clock delay :=
      fun w clock delay heq => he ⟨w, clock, delay, heq⟩
    have hquiet : ∀ id step, e.reports s id step = false := by
      intro id step
      cases e with
      | settle w clock delay => exact absurd rfl (hno w clock delay)
      | _ => rfl
    simpa [hquiet] using budget_change (positive_max hmax) hs hb hok h hdecided hno

/-- Every run keeps the budget, with the errors reported in it. -/
theorem budget_path (hmax : ∀ w, (env.runner w).maxAttempts = max) {es : List Event}
    (hpath : Path (World.step env) NonOverlapping s es t) (hs : Inv env s)
    (hb : Budget env max errors s) :
    Budget env max (fun id step => errors id step + reportedErrors env id step s es) t := by
  induction hpath generalizing errors with
  | nil => simpa [reportedErrors] using hb
  | @cons s t u e es hok hst _ ih =>
    have hnext := ih (inv_change hs (step_change hst)) (budget_step hmax hs hb hok hst)
    simpa [reportedErrors, hst, Nat.add_assoc] using hnext

end Steps

/-! ## The theorem -/

/-- A terminal error, wrapped to any depth, is decided to fail the run whatever its attempts are,
and what is decided so is written: the row is failed. -/
def FailsAtOnce (env : Env) (s : World) : Prop :=
  (∀ w run began rail msgs cause t,
    s.worker w = .executing run began (.throw (wrapTerminal msgs cause)) rail →
      s.step env (.abandon w) = some t →
        t.worker w = .failing run (.fail (wrapTerminal msgs cause)) rail) ∧
    ∀ w run cause rail clock delay t, s.worker w = .failing run (.fail cause) rail →
      s.step env (.settle w clock delay) = some t →
        ∃ r ∈ t.db.sagas, r.id = run.id ∧ r.state = .failed ∧ r.lastError = some cause.text

/-- A committed step leaves the row at the next step, with no attempts. -/
def ResetsAttempts (env : Env) (s : World) : Prop :=
  ∀ w run began rail next e t, s.worker w = .executing run began (.ret ()) rail →
    nextStep run.currentStep = some next → e.commits = some w → s.step env e = some t →
      ∃ r ∈ t.db.sagas, r.id = run.id ∧ r.currentStep = next ∧ r.stepAttempts = 0

section Theorem

variable {env : Env} {s : World}

theorem failsAtOnce_of_inv (hs : Inv env s) : FailsAtOnce env s := by
  refine ⟨?_, ?_⟩
  · intro w run began rail msgs cause t hw hst
    simp only [World.step, hw, Option.some.injEq] at hst
    rw [← hst, rollback_worker, setWorker_self, World.failed, afterFailure_wrapTerminal]
  · intro w run cause rail clock delay t hw hst
    cases step_change hst with
    | quiet he => cases he
    | start he => cases he
    | rollback he => cases he
    | commit he => cases he
    | settle hw' hfree hf =>
      rw [hw] at hw'
      cases hw'
      cases hf
      obtain ⟨r, hr, hterms⟩ := hs.runs w run (by rw [hw]; rfl)
      have hid : r.id = run.id := congrArg Prod.fst hterms
      refine ⟨r.fail cause.text, List.mem_map.mpr ⟨r, hr, if_pos hid⟩, hid, rfl, rfl⟩

theorem resetsAttempts_of_inv (hs : Inv env s) : ResetsAttempts env s := by
  intro w run began rail next e t hw hnext he hst
  have hrun : (s.worker w).run = some run := by rw [hw]; rfl
  obtain ⟨r, hr, hterms⟩ := hs.runs w run hrun
  have hid : r.id = run.id := congrArg Prod.fst hterms
  obtain ⟨r', hr', hchange⟩ := exists_rowChange hs (step_change hst) hr
  cases hchange with
  | same _ hother => exact absurd hid (hother w run he hrun)
  | claim he' => subst he'; cases he
  | @commit v run' began' rail' he' hw' hid' =>
    obtain rfl : v = w := Option.some.inj (he'.symm.trans he)
    rw [hw] at hw'
    cases hw'
    rw [hnext] at hr'
    exact ⟨_, hr', hid, rfl, rfl⟩
  | settle he' => subst he'; cases he

end Theorem

/-- The budget of retries: in every run without overlapping executions of one saga, the attempts of
a row stay below the maximum, no step has more reported errors than the maximum and fewer as long
as the saga is not failed, a terminal error fails the saga at once, and a successful step starts
the next one with no attempts. -/
theorem retry_budget {env : Env} {max : Int} (hmax : ∀ w, (env.runner w).maxAttempts = max)
    {accounts : List Ledger.Account} {merchants : List Merchant} {now : Time} {es : List Event}
    {s : World} (hkeys : (World.init accounts merchants now).db.keys.Nodup)
    (hpath : Path (World.step env) NonOverlapping (World.init accounts merchants now) es s) :
    (∀ r ∈ s.db.sagas, ¬ terminal r.state → 0 ≤ r.stepAttempts ∧ r.stepAttempts < max) ∧
      (∀ id step,
        (reportedErrors env id step (World.init accounts merchants now) es : Int) ≤ max) ∧
      (∀ r ∈ s.db.sagas, r.state ≠ .failed → (reportedErrors env r.id r.currentStep
        (World.init accounts merchants now) es : Int) < max) ∧
      FailsAtOnce env s ∧ ResetsAttempts env s := by
  have hinv := (inv_init hkeys).path hpath
  have hb := budget_path hmax hpath (inv_init hkeys) (.init accounts merchants now)
  simp only [Nat.zero_add] at hb
  refine ⟨fun r hr _ => ⟨(hb.rows r hr).nonneg, (hb.rows r hr).lt⟩, fun id step => ?_,
    fun r hr hstate => ?_, failsAtOnce_of_inv hinv, resetsAttempts_of_inv hinv⟩
  · by_cases hstored : ∃ r ∈ s.db.sagas, r.id = id
    · obtain ⟨r, hr, rfl⟩ := hstored
      exact (hb.rows r hr).le_max step
    · have hno : ∀ r ∈ s.db.sagas, r.id ≠ id := fun r hr hid => hstored ⟨r, hr, hid⟩
      rw [hb.unstored id hno step]
      exact (positive_max hmax).le
  · have hcurrent := (hb.rows r hr).current
    rw [if_neg hstate] at hcurrent
    exact hcurrent.trans_lt (hb.rows r hr).lt

/-- The worker that claims a run. -/
def Event.claimant : Event → Option Owner
  | .claim w _ => some w
  | _ => none

/-- Only this worker claims runs. -/
def ClaimsBy (w : Owner) (_ : World) (e : Event) : Prop := ∀ v ∈ e.claimant, v = w

instance (w : Owner) (s : World) (e : Event) : Decidable (ClaimsBy w s e) :=
  inferInstanceAs (Decidable (∀ v ∈ e.claimant, v = w))

/-- The executions of one worker do not overlap. -/
theorem nonOverlapping_of_claimsBy {env : Env} {w : Owner} {s t : World} {es : List Event}
    (h : Path (World.step env) (ClaimsBy w) s es t) (hs : ∀ v ≠ w, (s.worker v).run = none) :
    Path (World.step env) NonOverlapping s es t := by
  induction h with
  | nil => exact .nil _
  | @cons s t u e es hok hst _ ih =>
    refine .cons ?_ hst (ih fun v hv => ?_)
    · cases e with
      | claim v id =>
        obtain rfl : v = w := hok v rfl
        intro x run hrun
        obtain rfl | hne := eq_or_ne x v
        · cases step_change hst with
          | quiet he => cases he
          | claim hidle => rw [hidle] at hrun; cases hrun
          | start he => cases he
          | rollback he => cases he
          | commit he => cases he
        · rw [hs x hne] at hrun
          cases hrun
      | _ => trivial
    · rw [Option.eq_none_iff_forall_ne_some]
      intro run hrun
      obtain hold | ⟨id, row, rfl, -⟩ := run_change (step_change hst) hrun
      · rw [hs v hv] at hold
        cases hold
      · exact hv (hok v rfl)

/-- The database of a worker's transactions is down three times. -/
def exhausted : List Event :=
  ordering 50 ++ depositing "sig-1" 61847 4 ++
    (List.replicate 3 [.claim "a" 4, .refuse "a" "down", .settle "a" 0 0]).flatten

theorem retry_budget_exhausted : ∃ s,
    Path (World.step smallEnv) NonOverlapping smallWorld exhausted s ∧
      s.db.sagas.map SagaRun.state = [.failed] ∧
      reportedErrors smallEnv 4 .creditDeposit smallWorld exhausted = 3 ∧
      ∀ id step, (reportedErrors smallEnv id step smallWorld exhausted : Int) ≤ 3 := by
  obtain ⟨s, hs, hstate, hcount⟩ : ∃ s,
      runIf (World.step smallEnv) (ClaimsBy "a") smallWorld exhausted = some s ∧
        s.db.sagas.map SagaRun.state = [.failed] ∧
        reportedErrors smallEnv 4 .creditDeposit smallWorld exhausted = 3 :=
    exists_of_any (by decide +kernel)
  have hpath := nonOverlapping_of_claimsBy (.of_runIf hs) fun _ _ => rfl
  exact ⟨s, hpath, hstate, hcount, (retry_budget (fun _ => rfl) (by decide) hpath).2.1⟩

end Selatpay.Settlement
