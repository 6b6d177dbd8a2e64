import Selatpay.Settlement.Lease
import Selatpay.Settlement.Standing

/-!
# Executions under a lease

Whoever still holds the lease of a saga has seen its intent where it stands now:
a committed step clears the lease, so the lease of a worker lasts only as long as
nobody else has moved the intent. Every step guards its transition by the state it
has read, so a step that is committed under the lease moves its intent forward. A
step whose lease has passed to another worker can move the intent back.
-/

namespace Selatpay.Settlement

open Store Saga Chain

/-! ## Standings under events -/

section Change

variable {env : Env} {s t : World} {e : Event}

/-- An intent has one run. -/
theorem Inv.row_eq (hs : Inv env s) {a b : SagaRun} (ha : a ∈ s.db.sagas) (hb : b ∈ s.db.sagas)
    (h : a.intentID = b.intentID) : a = b := by
  refine Table.eq_of_mem (Db.saga_intents_nodup hs.sound.unique) ha hb ?_
  cases hk : a.sagaKind
  cases hk' : b.sagaKind
  rw [h]

theorem standing_createIntent {db : Db} {rows : Quote × PaymentIntent} {id : UUID}
    (hid : rows.2.id ≠ id) : standing (createIntent db rows) id = standing db id := by
  simp [standing, createIntent, Table.find_append, Table.find_singleton, hid]

/-- An event changes the standing of an intent by creating it or by committing a step of it. -/
theorem standing_change (hs : Inv env s) (h : Change env s e t) {id : UUID}
    (hother : ∀ w run, e.commits = some w → (s.worker w).run = some run → run.intentID ≠ id) :
    standing t.db id = standing s.db id ∨ (∀ i ∈ s.db.intents, i.id ≠ id) ∧
      standing t.db id = { standing s.db id with intent := some .pending } := by
  cases h with
  | quiet he htx => exact .inl (by rw [World.db, World.db, htx])
  | @create c amountUSDC hunused =>
    by_cases hid : c.intentID = id
    · subst hid
      have hnew : ∀ i ∈ s.db.intents, i.id ≠ c.intentID := by
        intro i hi heq
        refine hunused.2.2.2.1.1 ?_
        simp only [engine_dbKeys, Db.keys, Db.rowKeys, List.mem_append, List.mem_flatMap]
        exact .inr (.inr (.inl ⟨i, hi, by simp [PaymentIntent.keys, heq]⟩))
      refine .inr ⟨hnew, ?_⟩
      simp [standing, createIntent, CreateIntent.rows, Table.find_append, Table.find_singleton,
        Table.find_eq_none_iff.mpr hnew]
    · exact .inl (standing_createIntent hid)
  | @record n uuid began row sightings =>
    obtain ⟨payments, sagas, hdb, -, -⟩ := recordDeposit_spec s.db row uuid began
    exact .inl (by simp only [World.db, hdb]; rfl)
  | claim => exact .inl rfl
  | start => exact .inl rfl
  | exec => exact .inl rfl
  | rollback => exact .inl rfl
  | @commit _ w run began rail x he hw hx =>
    obtain ⟨h, hf, -⟩ := hs.finished hw
    exact .inl (standing_other (hs.sound.view_unique w) hf (hother w run he (by rw [hw]; rfl)).symm)
  | settle => exact .inl rfl

/-- The standing of a saga's intent changes only when a step of the saga is committed. -/
theorem standing_kept (hs : Inv env s) (h : Change env s e t) {r : SagaRun} (hr : r ∈ s.db.sagas)
    (hother : ∀ w run, e.commits = some w → (s.worker w).run = some run → r.id ≠ run.id) :
    standing t.db r.intentID = standing s.db r.intentID := by
  have hintents : ∀ w run, e.commits = some w → (s.worker w).run = some run →
      run.intentID ≠ r.intentID := by
    intro w run he hrun heq
    obtain ⟨a, ha, hterms⟩ := hs.runs w run hrun
    obtain rfl := hs.row_eq ha hr ((congrArg Prod.snd hterms).trans heq)
    exact hother w run he hrun (congrArg Prod.fst hterms)
  obtain hkept | ⟨hnew, -⟩ := standing_change hs h hintents
  · exact hkept
  · obtain ⟨i, hi, hid⟩ := hs.consistent.sagas r hr
    exact absurd hid (hnew i hi)

end Change

/-! ## What the holder of a lease has seen -/

/-- The states an execution has seen are consistent, and if the worker still holds the lease, its
intent stood there as it does now. -/
def SeenUnderLease (run : Run) (past db : Db) : Prop :=
  Consistent past ∧ ∀ r ∈ db.sagas, r.id = run.id → r.leaseOwner = some run.leaseOwner →
    standing past run.intentID = standing db run.intentID

/-- What every run keeps of leases and executions. -/
structure Tenure (env : Env) (s : World) : Prop where
  /-- A worker claims runs in its own name. -/
  owners : ∀ w run, (s.worker w).run = some run → run.leaseOwner = w
  leases : LeaseHeld s
  tracks : Tracks env SeenUnderLease s

section Step

variable {env : Env} {s t : World} {e : Event}

theorem owners_change (ht : Tenure env s) (h : Change env s e t) :
    ∀ w run, (t.worker w).run = some run → run.leaseOwner = w := by
  intro w run hrun
  obtain hold | ⟨id, row, -, -, -, -, rfl⟩ := run_change h hrun
  · exact ht.owners w run hold
  · rfl

/-- A lease that is held after an event was held before it, and nobody has committed a step. -/
theorem RowChange.lease_kept {r r' : SagaRun} (h : RowChange env s e r r') {v : Owner}
    (hbusy : s.worker v ≠ .idle) (howner : r'.leaseOwner = some v) : r.leaseOwner = some v ∧
      ∀ w run, e.commits = some w → (s.worker w).run = some run → r.id ≠ run.id := by
  cases h with
  | same he hother => exact ⟨howner, hother⟩
  | @claim w he hidle hclaim =>
    have hw : w = v := Option.some.inj howner
    exact absurd (hw ▸ hidle) hbusy
  | @commit w run =>
    cases hn : nextStep run.currentStep <;> simp [hn, sagaChange, SagaRun.change] at howner
  | settle _ _ _ hf => cases hf <;> cases howner

theorem seenUnderLease_change (hs : Inv env s) (ht : Tenure env s) (h : Change env s e t) :
    Tracks env SeenUnderLease t := by
  refine tracks_change ht.tracks (fun _ _ _ _ _ => ⟨hs.consistent, fun _ _ _ _ => rfl⟩) ?_ h
  intro v run began prog rail hv hsame past hpast
  have hrun : (s.worker v).run = some run := by rw [hv]; rfl
  refine ⟨hpast.1, fun r' hr' hid howner => ?_⟩
  rw [ht.owners v run hrun] at howner
  rcases row_of_mem hs h hr' with ⟨r, hr, hrow⟩ | ⟨⟨uuid, intentID, now, rfl⟩, -, -, -⟩
  · have hrid : r.id = run.id := hrow.id_eq.symm.trans hid
    obtain ⟨hlease, hother⟩ := hrow.lease_kept (by simp [hv]) howner
    have hseen := hpast.2 r hr hrid (by rw [hlease, ht.owners v run hrun])
    have hkept := standing_kept hs h hr hother
    rw [hs.intentID_eq hrun hr hrid] at hkept
    exact hseen.trans hkept.symm
  · cases howner

/-- Every event keeps the agreement of leases and executions, whoever commits. -/
theorem tenure_change (hs : Inv env s) (ht : Tenure env s) (h : Change env s e t) :
    Tenure env t where
  owners := owners_change ht h
  leases := leaseHeld_change hs ht.leases h
  tracks := seenUnderLease_change hs ht h

theorem tenure_init (accounts : List Ledger.Account) (merchants : List Merchant) (now : Time) :
    Tenure env (World.init accounts merchants now) where
  owners := by
    intro w run hrun
    cases hrun
  leases := by
    intro w run hrun
    cases hrun
  tracks := fun w => rfl

/-- A step that is ready to be committed under the lease has seen its intent where it stands. -/
theorem Tenure.finished (ht : Tenure env s) {w : Owner} {run : Run} {began : Time}
    {rail : Option RailCall} (hw : s.worker w = .executing run began (.ret ()) rail) {r : SagaRun}
    (hr : r ∈ s.db.sagas) (hid : r.id = run.id) (howner : r.leaseOwner = some w) :
    ∃ h, Finished h run began (s.tx.log w) ∧
      ∀ past ∈ h, Consistent past ∧ standing past run.intentID = standing s.db run.intentID := by
  have hrun : (s.worker w).run = some run := by rw [hw]; rfl
  obtain ⟨h, hf, hpast⟩ := ht.tracks.finished (fun _ _ hseen => hseen.1) hw
  refine ⟨h, hf, fun past hp => ⟨(hpast past hp).1, (hpast past hp).2 r hr hid ?_⟩⟩
  rw [howner, ht.owners w run hrun]

end Step

/-- Every reachable state has tenure. -/
theorem Reachable.tenure {env : Env} {ok : World → Event → Prop} {s : World}
    (h : Reachable env ok s) : Tenure env s :=
  (h.induct tenure_init fun _ _ _ hs ht _ hst => tenure_change hs ht (step_change hst)).2

/-! ## Intents move forward -/

/-- The states in which an intent is settled for good. -/
def finalState (state : IntentState) : Prop := state = .completed ∨ state = .failed

instance (state : IntentState) : Decidable (finalState state) :=
  inferInstanceAs (Decidable (_ ∨ _))

/-- The place of a state on the way of an intent; the last two are not on it. -/
def place : IntentState → Nat
  | .pending => 0
  | .funded => 1
  | .settling => 2
  | .paidOut => 3
  | .completed => 4
  | .expired => 5
  | .failed => 5

/-- A state is kept, or one that is not final is left for a later one on the way, or for
`failed`. -/
def MovesOn (a b : IntentState) : Prop :=
  a = b ∨ ¬ finalState a ∧ (b = .failed ∨ place a < place b ∧ place b ≤ 4)

instance (a b : IntentState) : Decidable (MovesOn a b) := inferInstanceAs (Decidable (_ ∨ _))

theorem MovesOn.trans {a b c : IntentState} (h : MovesOn a b) (h' : MovesOn b c) : MovesOn a c := by
  rcases h with rfl | ⟨ha, hb⟩
  · exact h'
  rcases h' with rfl | ⟨hnot, hc⟩
  · exact .inr ⟨ha, hb⟩
  rcases hb with rfl | ⟨hab, -⟩
  · exact absurd (.inr rfl) hnot
  · refine .inr ⟨ha, hc.imp id fun hbc => ⟨hab.trans hbc.1, hbc.2⟩⟩

/-- All intents have only moved on. -/
def IntentsMoveOn (s t : World) : Prop :=
  ∀ i ∈ s.db.intents, ∃ i' ∈ t.db.intents, i'.id = i.id ∧ MovesOn i.state i'.state

instance (s t : World) : Decidable (IntentsMoveOn s t) :=
  inferInstanceAs (Decidable (∀ i ∈ s.db.intents, ∃ i' ∈ t.db.intents, _))

/-- A step is committed by the worker the row's lease names. -/
def CommitsUnderLease (s : World) (e : Event) : Prop :=
  ∀ w ∈ e.commits, ∀ run ∈ (s.worker w).run, ∀ r ∈ s.db.sagas, r.id = run.id →
    r.leaseOwner = some w

instance (s : World) (e : Event) : Decidable (CommitsUnderLease s e) :=
  inferInstanceAs (Decidable (∀ w ∈ e.commits, ∀ run ∈ (s.worker w).run, _))

section Intents

variable {env : Env} {s t : World} {e : Event}

theorem movesOn_step (step : StepName) : MovesOn (stateBefore step) (stateAfter step) := by
  cases step <;> decide

/-- A finished step that has seen its intent as it stands moves it on, and no other. -/
theorem movesOn_finished {h : List Db} {run : Run} {now : Time} {m : List Effect} {db : Db}
    (hkeys : (db.view m).keys.Nodup) (hkeys' : db.keys.Nodup) (hf : Finished h run now m)
    (hpast : ∀ past ∈ h, standing past run.intentID = standing db run.intentID) :
    ∀ i ∈ db.intents, ∃ i' ∈ (db.view m).intents, i'.id = i.id ∧ MovesOn i.state i'.state := by
  intro i hi
  obtain ⟨intent, ⟨past, hp, hread⟩, hintents⟩ := (writes_finished hkeys hf).intents
  rw [hintents]
  split
  · rename_i hstate
    refine ⟨_, List.mem_map_of_mem hi, ?_⟩
    split
    · rename_i hid
      have hseen := congrArg Standing.intent (hpast past hp)
      rw [standing, standing, hread, ← hid,
        Table.find_of_mem (Db.intent_ids_nodup hkeys') hi] at hseen
      have heq : i.state = stateBefore run.currentStep :=
        (Option.some.inj hseen).symm.trans hstate
      exact ⟨rfl, heq ▸ movesOn_step run.currentStep⟩
    · exact ⟨rfl, .inl rfl⟩
  · exact ⟨i, hi, rfl, .inl rfl⟩

theorem intentsMoveOn_change (hs : Inv env s) (ht : Tenure env s) (hok : CommitsUnderLease s e)
    (h : Change env s e t) : IntentsMoveOn s t := by
  have hkeep : s.db.intents ⊆ t.db.intents → IntentsMoveOn s t :=
    fun hsub i hi => ⟨i, hsub hi, rfl, .inl rfl⟩
  cases h with
  | quiet he htx => exact hkeep (by rw [World.db, World.db, htx]; exact List.Subset.refl _)
  | create => exact hkeep (List.subset_append_left _ _)
  | @record n uuid began row sightings =>
    obtain ⟨payments, sagas, hdb, -, -⟩ := recordDeposit_spec s.db row uuid began
    exact hkeep (by simp [hdb])
  | claim => exact hkeep (List.Subset.refl _)
  | start => exact hkeep (List.Subset.refl _)
  | exec => exact hkeep (List.Subset.refl _)
  | rollback => exact hkeep (List.Subset.refl _)
  | @commit _ w run began rail x he hw hx =>
    have hrun : (s.worker w).run = some run := by rw [hw]; rfl
    obtain ⟨r, hr, hterms⟩ := hs.runs w run hrun
    have hid : r.id = run.id := congrArg Prod.fst hterms
    obtain ⟨h, hf, hpast⟩ := ht.finished hw hr hid (hok w he run hrun r hr hid)
    exact movesOn_finished (hs.sound.view_unique w) hs.sound.unique hf
      fun past hp => (hpast past hp).2
  | settle => exact hkeep (List.Subset.refl _)

end Intents

/-- In every run whose steps are committed under the lease, intents only move forward and never
leave a final state. -/
theorem intents_move_on {env : Env} {s t : World} {es : List Event}
    (h : Reachable env CommitsUnderLease s)
    (hpath : Path (World.step env) CommitsUnderLease s es t) : IntentsMoveOn s t := by
  have hinv : ∀ s e t, (Inv env s ∧ Tenure env s) → CommitsUnderLease s e →
      s.step env e = some t → Inv env t ∧ Tenure env t := fun s e t hs _ hst =>
    ⟨inv_change hs.1 (step_change hst), tenure_change hs.1 hs.2 (step_change hst)⟩
  refine hpath.related (R := IntentsMoveOn) (fun s i hi => ⟨i, hi, rfl, .inl rfl⟩) ?_ hinv
    (fun s e t hs hok hst => intentsMoveOn_change hs.1 hs.2 hok (step_change hst))
    ⟨h.inv, h.tenure⟩
  intro s t u hst htu i hi
  obtain ⟨i', hi', hid, hmoves⟩ := hst i hi
  obtain ⟨i'', hi'', hid', hmoves'⟩ := htu i' hi'
  exact ⟨i'', hi'', hid'.trans hid, hmoves.trans hmoves'⟩

/-- A worker that has read the intent as `pending` commits `credit_deposit` after another one has
moved the intent to `settling`, and the intent is `funded` again. -/
theorem staleCommit_moves_intent_back : ∃ s t,
    run (World.step smallEnv) smallWorld stalled = some s ∧
      run (World.step smallEnv) s staleCommit = some t ∧
      s.db.intents.map PaymentIntent.state = [.settling] ∧
      t.db.intents.map PaymentIntent.state = [.funded] ∧ ¬ IntentsMoveOn s t := by
  obtain ⟨s, hs, hstate, ht⟩ : ∃ s, run (World.step smallEnv) smallWorld stalled = some s ∧
      s.db.intents.map PaymentIntent.state = [.settling] ∧
      ((run (World.step smallEnv) s staleCommit).any fun t => decide
        (t.db.intents.map PaymentIntent.state = [.funded] ∧ ¬ IntentsMoveOn s t)) = true :=
    exists_of_any (by decide +kernel)
  obtain ⟨t, ht, hback⟩ := exists_of_any ht
  exact ⟨s, t, hs, ht, hstate, hback⟩

/-- The second worker goes on while the stalled one gives up in the end. -/
def overtaken : List Event :=
  [.elapse 11] ++ crediting "b" 2000 ++ paying "b" 3000 ++ [.crash "a"]

theorem intents_move_on_overtaken : ∃ s t,
    Reachable smallEnv CommitsUnderLease s ∧
      Path (World.step smallEnv) CommitsUnderLease s overtaken t ∧
      s.db.intents.map PaymentIntent.state = [.pending] ∧
      t.db.intents.map PaymentIntent.state = [.settling] ∧ IntentsMoveOn s t := by
  obtain ⟨s, hs, hstate, ht⟩ : ∃ s, runIf (World.step smallEnv) CommitsUnderLease smallWorld
        (ordering 50 ++ depositing "sig-1" 61847 4 ++ executing "a" 1000 1) = some s ∧
      s.db.intents.map PaymentIntent.state = [.pending] ∧
      ((runIf (World.step smallEnv) CommitsUnderLease s overtaken).any fun t => decide
        (t.db.intents.map PaymentIntent.state = [.settling])) = true :=
    exists_of_any (by decide +kernel)
  obtain ⟨t, ht, hstate'⟩ := exists_of_any ht
  exact ⟨s, t, reachable_of_runIf hs, .of_runIf ht, hstate, hstate',
    intents_move_on (reachable_of_runIf hs) (.of_runIf ht)⟩

end Selatpay.Settlement
