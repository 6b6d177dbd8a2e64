import Selatpay.Settlement.Promises

/-!
# What the published events say

Every row of the outbox was published by `emit_completed` and speaks of an intent that is
stored: its identifiers, amounts and merchant, in the payload and in the headers alike.
-/

namespace Selatpay.Settlement

open Store Saga Chain

/-- The row is an event of an intent that is stored. -/
def EventOf (db : Db) (o : OutboxRow) (i : PaymentIntent) : Prop :=
  i ∈ db.intents ∧ o.topic = topicCompleted ∧ o.aggregateID = some i.id ∧ ∃ updated,
    intentTerms updated = intentTerms i ∧ o.payload = completedEvent updated ∧
      o.headers = completedHeaders updated

/-- All rows are, and the intent has all steps behind it. -/
def AllEvents (db : Db) : Prop :=
  ∀ o ∈ db.outbox, ∃ i, EventOf db o i ∧ ∀ step, Done db i.id step

theorem AllEvents.mono {db db' : Db} {o : OutboxRow} {i : PaymentIntent} (h : EventOf db o i)
    (hdone : ∀ step, Done db i.id step) (hk : Keeps db db') :
    ∃ i', EventOf db' o i' ∧ ∀ step, Done db' i'.id step := by
  obtain ⟨hi, htopic, haggregate, updated, hterms, hpayload, hheaders⟩ := h
  obtain ⟨i', hi', hterms'⟩ := hk.toGrows.intent hi
  have hid := (terms_eq hterms').1
  refine ⟨i', ⟨hi', htopic, by rw [haggregate, hid], updated, hterms.trans hterms'.symm, hpayload,
    hheaders⟩, fun step => ?_⟩
  rw [hid]
  exact (hdone step).mono hk

/-- A row that a transaction sees is committed or in its log. -/
theorem mem_outbox_view {db : Db} {log : List Effect} {o : OutboxRow}
    (h : o ∈ (db.view log).outbox) : o ∈ db.outbox ∨ .insertOutbox o ∈ log := by
  induction log generalizing db with
  | nil => exact .inl h
  | cons e log ih =>
    have hview : o ∈ ((db.apply e).view log).outbox := h
    rcases ih hview with h | h
    · cases e with
      | insertOutbox row =>
        rcases List.mem_append.mp h with h | h
        · exact .inl h
        · obtain rfl := List.mem_singleton.mp h
          exact .inr List.mem_cons_self
      | _ => exact .inl h
    · exact .inr (List.mem_cons_of_mem e h)

section Executions

variable {rails : List String} {run : Run} {now : Time} {h : List Db} {m : List Effect}

theorem insertOutbox_notMem_moved (o : OutboxRow) (id : UUID) (intent : PaymentIntent)
    (src dst : IntentState) : .insertOutbox o ∉ moved id intent src dst now := by
  intro hmem
  unfold moved at hmem
  split at hmem <;> simp at hmem

/-- Only the last step publishes. -/
theorem currentStep_of_published (hf : Finished h run now m) {o : OutboxRow}
    (ho : .insertOutbox o ∈ m) : run.currentStep = .emitCompleted := by
  cases hf with
  | creditDeposit => simp [insertOutbox_notMem_moved] at ho
  | paidBefore => simp [insertOutbox_notMem_moved] at ho
  | paidNow => simp [insertOutbox_notMem_moved] at ho
  | applyPayoutResult => simp [insertOutbox_notMem_moved] at ho
  | emitCompleted hstep => exact hstep

/-- A transaction that is ready to commit has published nothing but an event of its intent. -/
theorem executeStep_published (hs : Steps (Respond now) (executeStep rails run) [] h (.ret ()) m)
    (hpaid : ∀ db ∈ h, PaidOut db) {o : OutboxRow} (ho : .insertOutbox o ∈ m) :
    ∃ db ∈ h, ∃ source updated,
      Table.find PaymentIntent.id db.intents run.intentID = some source ∧
      intentTerms updated = intentTerms source ∧ o.topic = topicCompleted ∧
      o.aggregateID = some run.intentID ∧ o.payload = completedEvent updated ∧
      o.headers = completedHeaders updated := by
  obtain ⟨h', -, hf⟩ := executeStep_ret hs hpaid
  have hstep := currentStep_of_published hf ho
  obtain ⟨res, h₁, h₂, n, rfl, hmap, hfinish⟩ := hs.of_bind_ret
  have hemit := hmap.of_mapErr_ret
  rw [hstep] at hemit
  obtain ⟨rfl, intent, updated, uuid, -, ⟨db, hdb, source, hsource, hterms⟩, hn⟩ :=
    emitCompleted_published hemit
  rw [finishStep_ret hfinish, hn] at ho
  simp only [List.mem_append, insertOutbox_notMem_moved, List.mem_singleton, reduceCtorEq, false_or,
    or_false, Effect.insertOutbox.injEq] at ho
  subst ho
  exact ⟨db, List.mem_append_left _ hdb, source, updated, hsource, hterms, rfl, rfl, rfl, rfl⟩

end Executions

/-- Every event keeps the outbox to events of intents that have all steps behind them. -/
theorem allEvents_change {env : Env} {s t : World} {e : Event} (hs : Inv env s) (hp : Promised s)
    (ha : AllEvents s.db) (h : Change env s e t) : AllEvents t.db := by
  have hk := keeps_change h
  intro o ho
  have hold : o ∈ s.db.outbox → ∃ i, EventOf t.db o i ∧ ∀ step, Done t.db i.id step := by
    intro ho
    obtain ⟨i, hevent, hdone⟩ := ha o ho
    exact AllEvents.mono hevent hdone hk
  cases h with
  | quiet he htx =>
    refine hold ?_
    simpa only [World.db, htx] using ho
  | @record n uuid began row =>
    obtain ⟨payments, sagas, hdb, -, -⟩ := recordDeposit_spec s.db row uuid began
    refine hold ?_
    simpa only [World.db, hdb] using ho
  | @commit _ w run began rail x he hw hx =>
    rcases mem_outbox_view ho with ho | ho
    · exact hold ho
    have htracked := hs.tracks w
    rw [hw] at htracked
    obtain ⟨past, hsteps, hpast⟩ := htracked
    have hpaid : ∀ db ∈ past, PaidOut db := fun db hdb => (hpast db hdb).1.paidOut
    obtain ⟨db, hdb, source, updated, hsource, hterms, htopic, haggregate, hpayload, hheaders⟩ :=
      executeStep_published hsteps hpaid ho
    -- The steps before this one are behind the worker, and this one is done now.
    obtain ⟨past', hf, hpast'⟩ := hs.finished hw
    have hstep := currentStep_of_published hf ho
    obtain ⟨hi, hid⟩ := Table.mem_of_find hsource
    obtain ⟨i, hi', hterms'⟩ := ((hpast db hdb).2.trans hk.toGrows).intent hi
    have hid' : i.id = run.intentID := (terms_eq hterms').1.trans hid
    refine ⟨i, ⟨hi', htopic, by rw [haggregate, hid'], updated, hterms.trans hterms'.symm, hpayload,
      hheaders⟩, fun step => ?_⟩
    rw [hid']
    by_cases hlast : step = .emitCompleted
    · rw [hlast, ← hstep]
      exact done_finished (hs.sound.view_unique w) hf fun past hp => (hpast' past hp).2
    · refine (hp.workers w run (by rw [hw]; rfl) step ?_).mono hk
      rw [hstep]
      cases step <;> first | decide | exact absurd rfl hlast
  | create => exact hold ho
  | claim => exact hold ho
  | start => exact hold ho
  | exec => exact hold ho
  | rollback => exact hold ho
  | settle => exact hold ho

/-- In every reachable state the outbox holds events of intents that have all steps behind them. -/
theorem Reachable.allEvents {env : Env} {ok : World → Event → Prop} {s : World}
    (h : Reachable env ok s) : AllEvents s.db :=
  (h.induct (P := fun s => Promised s ∧ AllEvents s.db)
    (fun accounts merchants now => ⟨promised_init accounts merchants now, nofun⟩)
    fun _ _ _ hs hp _ hst => ⟨promised_change hs hp.1 (step_change hst),
      allEvents_change hs hp.1 hp.2 (step_change hst)⟩).2.2

end Selatpay.Settlement
