import Selatpay.Settlement.Invariant

/-!
# Where an intent stands

The abstract state of one settlement is what the tables say of its intent: its
state, its journal entries, its payout and the events published for it. The saga is
a machine on these states with one transition for each step. A finished step makes
the transition of its own intent, provided it has seen the intent where it stands
now, and leaves every other intent where it is.
-/

namespace Selatpay.Settlement

open Store Saga Chain

/-! ## The abstract machine -/

/-- What the tables say of one intent. -/
structure Standing where
  intent : Option IntentState
  /-- The external references of its journal entries, oldest first. -/
  entries : List String
  payout : Option PayoutState
  /-- The number of its `intent.completed` events. -/
  events : Nat
  deriving DecidableEq, Repr

/-- The state an intent has before a step. -/
def stateBefore : StepName → IntentState
  | .creditDeposit => .pending
  | .triggerPayout => .funded
  | .applyPayoutResult => .settling
  | .emitCompleted => .paidOut

/-- The state a step moves an intent to. -/
def stateAfter : StepName → IntentState
  | .creditDeposit => .funded
  | .triggerPayout => .settling
  | .applyPayoutResult => .paidOut
  | .emitCompleted => .completed

/-- The entries a step posts. -/
def newRefs (intentID : UUID) : StepName → List String
  | .creditDeposit => [creditDepositRef intentID]
  | .triggerPayout => []
  | .applyPayoutResult => [fxSwapRef intentID, payoutDisbursedRef intentID]
  | .emitCompleted => []

/-- The transition of a step. -/
def Standing.advance (st : Standing) (intentID : UUID) (step : StepName) : Standing where
  intent := some (stateAfter step)
  entries := st.entries ++ newRefs intentID step
  payout := if step = .triggerPayout then some .succeeded else st.payout
  events := st.events + if step = .emitCompleted then 1 else 0

/-- Where an intent stands when its saga is at a step, or completed. -/
def stage (intentID : UUID) : StepName → Bool → Standing
  | .creditDeposit, _ => ⟨some .pending, [], none, 0⟩
  | .triggerPayout, _ => ⟨some .funded, [creditDepositRef intentID], none, 0⟩
  | .applyPayoutResult, _ => ⟨some .settling, [creditDepositRef intentID], some .succeeded, 0⟩
  | .emitCompleted, false => ⟨some .paidOut, intentRefs intentID, some .succeeded, 0⟩
  | .emitCompleted, true => ⟨some .completed, intentRefs intentID, some .succeeded, 1⟩

section Stages

variable (intentID : UUID) (step : StepName)

theorem stage_intent : (stage intentID step false).intent = some (stateBefore step) := by
  cases step <;> rfl

theorem stage_payout : (stage intentID .triggerPayout false).payout = none := rfl

/-- No step finds its own entries. -/
theorem newRefs_fresh : ∀ x ∈ newRefs intentID step, x ∉ (stage intentID step false).entries := by
  cases step with
  | applyPayoutResult =>
    simp [newRefs, stage, (creditDepositRef_ne_fxSwapRef _ _).symm,
      (creditDepositRef_ne_payoutDisbursedRef _ _).symm]
  | creditDeposit => simp [stage]
  | triggerPayout => simp [newRefs]
  | emitCompleted => simp [newRefs]

theorem newRefs_subset : newRefs intentID step ⊆ intentRefs intentID := by
  cases step <;> simp [newRefs, intentRefs]

/-- The transition of a step leads to the stage of the row that the runner writes. -/
theorem advance_stage {r : SagaRun} {now : Time} (hstep : r.currentStep = step) :
    (stage intentID step false).advance intentID step =
      stage intentID (r.change (sagaChange (nextStep step) now)).currentStep
        (decide ((r.change (sagaChange (nextStep step) now)).state = .completed)) := by
  cases step <;> simp [nextStep, sagaChange, SagaRun.change, hstep] <;> rfl

end Stages

/-! ## Standings in the tables -/

/-- The references of an intent's entries. -/
def refsOf (entries : List Ledger.JournalEntry) (intentID : UUID) : List String :=
  (entries.filter fun e => e.intentID = some intentID).map Ledger.JournalEntry.externalRef

/-- The number of `intent.completed` events of an intent. -/
def completedEvents (outbox : List OutboxRow) (intentID : UUID) : Nat :=
  (outbox.filter fun o => o.topic = topicCompleted ∧ o.aggregateID = some intentID).length

/-- The standing of an intent. -/
def standing (db : Db) (intentID : UUID) : Standing where
  intent := (Table.find PaymentIntent.id db.intents intentID).map PaymentIntent.state
  entries := refsOf db.ledger.entries intentID
  payout := (Table.find Payout.intentID db.payouts intentID).map Payout.state
  events := completedEvents db.outbox intentID

section Tables

variable {db db' : Db} {id : UUID}

theorem refsOf_append (es fs : List Ledger.JournalEntry) (id : UUID) :
    refsOf (es ++ fs) id = refsOf es id ++ refsOf fs id := by simp [refsOf]

theorem completedEvents_append (os ps : List OutboxRow) (id : UUID) :
    completedEvents (os ++ ps) id = completedEvents os id + completedEvents ps id := by
  simp [completedEvents]

theorem refsOf_own {es : List Ledger.JournalEntry} (h : ∀ e ∈ es, e.intentID = some id) :
    refsOf es id = es.map Ledger.JournalEntry.externalRef := by
  rw [refsOf, List.filter_eq_self.mpr]
  simpa using h

theorem refsOf_other {es : List Ledger.JournalEntry} {i : UUID} (h : ∀ e ∈ es, e.intentID = some i)
    (hid : id ≠ i) : refsOf es id = [] := by
  simp only [refsOf, List.map_eq_nil_iff, List.filter_eq_nil_iff, decide_eq_true_eq]
  intro e he heq
  exact hid (Option.some.inj (heq.symm.trans (h e he)))

theorem completedEvents_own {os : List OutboxRow}
    (h : ∀ o ∈ os, o.topic = topicCompleted ∧ o.aggregateID = some id) :
    completedEvents os id = os.length := by
  rw [completedEvents, List.filter_eq_self.mpr]
  simpa using h

theorem completedEvents_other {os : List OutboxRow} {i : UUID}
    (h : ∀ o ∈ os, o.topic = topicCompleted ∧ o.aggregateID = some i) (hid : id ≠ i) :
    completedEvents os id = 0 := by
  simp only [completedEvents, List.length_eq_zero_iff, List.filter_eq_nil_iff, decide_eq_true_eq]
  intro o ho heq
  exact hid (Option.some.inj (heq.2.symm.trans (h o ho).2))

theorem payout_own {ps : List Payout} (h : ∀ p ∈ ps, p.intentID = id ∧ p.state = .succeeded)
    (hne : ps ≠ []) : (Table.find Payout.intentID ps id).map Payout.state = some .succeeded := by
  cases hfind : Table.find Payout.intentID ps id with
  | some p => simp [(h p (Table.mem_of_find hfind).1).2]
  | none =>
    obtain ⟨p, hp⟩ := List.exists_mem_of_ne_nil ps hne
    exact absurd (h p hp).1 (Table.find_eq_none_iff.mp hfind p hp)

theorem payout_other {ps : List Payout} {i : UUID}
    (h : ∀ p ∈ ps, p.intentID = i ∧ p.state = .succeeded) (hid : id ≠ i) :
    Table.find Payout.intentID ps id = none :=
  Table.find_eq_none_iff.mpr fun p hp heq => hid (heq.symm.trans (h p hp).1)

/-- An entry under a reference of the intent is one of the intent's entries. -/
theorem mem_refsOf (hdb : Consistent db) {j : Ledger.JournalEntry} (hj : j ∈ db.ledger.entries)
    (href : j.externalRef ∈ intentRefs id) : j.externalRef ∈ (standing db id).entries := by
  obtain ⟨i, hi, hmem⟩ := hdb.entries j hj
  have heq : i = id := by
    simp only [intentRefs, List.mem_cons, List.not_mem_nil, or_false] at href hmem
    rcases href with h | h | h <;> rcases hmem with h' | h' | h' <;> rw [h] at h'
    · exact (creditDepositRef_inj.mp h').symm
    · exact absurd h' (creditDepositRef_ne_fxSwapRef _ _)
    · exact absurd h' (creditDepositRef_ne_payoutDisbursedRef _ _)
    · exact absurd h'.symm (creditDepositRef_ne_fxSwapRef _ _)
    · exact (fxSwapRef_inj.mp h').symm
    · exact absurd h' (fxSwapRef_ne_payoutDisbursedRef _ _)
    · exact absurd h'.symm (creditDepositRef_ne_payoutDisbursedRef _ _)
    · exact absurd h'.symm (fxSwapRef_ne_payoutDisbursedRef _ _)
    · exact (payoutDisbursedRef_inj.mp h').symm
  subst heq
  exact List.mem_map_of_mem (List.mem_filter.mpr ⟨hj, by simpa using hi⟩)

end Tables

/-! ## Finished steps -/

section Finished

variable {h : List Db} {run : Run} {now : Time} {m : List Effect} {db : Db}

/-- What a step writes to the tables of intents, payouts and events. -/
structure Writes (h : List Db) (run : Run) (now : Time) (db db' : Db) : Prop where
  intents : ∃ intent,
    (∃ past ∈ h, Table.find PaymentIntent.id past.intents run.intentID = some intent) ∧
      db'.intents = if intent.state = stateBefore run.currentStep then
        Table.update PaymentIntent.id db.intents run.intentID
          (·.setState (stateAfter run.currentStep) now) else db.intents
  payouts : ∃ ps, db'.payouts = db.payouts ++ ps ∧
    (∀ p ∈ ps, p.intentID = run.intentID ∧ p.state = .succeeded) ∧
      if run.currentStep = .triggerPayout then
        (ps ≠ [] ∨
          ∃ past ∈ h, ∃ po, Table.find Payout.intentID past.payouts run.intentID = some po) ∧
          ∀ p ∈ ps, ∃ past ∈ h, ∃ intent,
            Table.find PaymentIntent.id past.intents run.intentID = some intent ∧
              p.amountIDR = intent.amountIDR
      else ps = []
  outbox : ∃ os, db'.outbox = db.outbox ++ os ∧
    (∀ o ∈ os, o.topic = topicCompleted ∧ o.aggregateID = some run.intentID) ∧
      os.length = if run.currentStep = .emitCompleted then 1 else 0

/-- The effects on the payout of a step that pays. -/
def paid (row : Payout) (ref : Option String) : List Effect :=
  [.insertPayout row, .changePayout row.id .submitting, .changePayout row.id (.succeeded ref)]

/-- The payout of a step that pays stands behind the others. -/
theorem payouts_paid (row : Payout) (ref : Option String)
    (hids : ((db.view (paid row ref)).payouts.map Payout.id).Nodup) :
    (db.view (paid row ref)).payouts =
      db.payouts ++ [(row.change .submitting).change (.succeeded ref)] := by
  have hchange : ∀ c (p : Payout), (p.change c).id = p.id := by
    intro c p
    cases c <;> rfl
  have hnew : ∀ p ∈ db.payouts, p.id ≠ row.id := by
    simp only [paid, Db.view_cons, Db.view_nil, Db.apply, Table.map_update (hchange _),
      List.map_append, List.map_cons, List.map_nil] at hids
    intro p hp
    exact (List.nodup_append.mp hids).2.2 _ (List.mem_map_of_mem hp) _ List.mem_cons_self
  have hold : ∀ f, Table.update Payout.id db.payouts row.id f = db.payouts :=
    fun f => Table.update_of_find_none (Table.find_eq_none_iff.mpr hnew)
  simp only [Table.update] at hold
  simp [paid, Db.apply, Table.update, hold, Payout.change]

theorem writes_finished (hkeys : (db.view m).keys.Nodup) (hf : Finished h run now m) :
    Writes h run now db (db.view m) := by
  cases hf with
  | creditDeposit hstep hintent =>
    exact ⟨⟨_, hintent, by simp [Db.apply, hstep, stateBefore, stateAfter]⟩,
      ⟨[], by simp [Db.apply, hstep]⟩, ⟨[], by simp [Db.apply, hstep]⟩⟩
  | paidBefore hstep hintent hpaid =>
    exact ⟨⟨_, hintent, by simp [Db.apply, hstep, stateBefore, stateAfter]⟩,
      ⟨[], by simpa [Db.apply, hstep] using hpaid⟩, ⟨[], by simp [Db.apply, hstep]⟩⟩
  | @paidNow intent uuid ref hstep hintent =>
    refine ⟨⟨_, hintent, by simp [Db.apply, hstep, stateBefore, stateAfter]⟩, ?_,
      ⟨[], by simp [Db.apply, hstep]⟩⟩
    have hids := Db.payout_ids_nodup hkeys
    simp only [Db.view_append, view_moved, Db.view_cons, Db.view_nil, Db.apply] at hids ⊢
    refine ⟨_, payouts_paid (newPayout uuid run.intentID mockIDRBankName intent.amountIDR) ref hids,
      ?_, ?_⟩
    · simp [Payout.change, newPayout]
    · obtain ⟨past, hp, hread⟩ := hintent
      simpa [hstep, Payout.change, newPayout] using ⟨past, hp, intent, hread, rfl⟩
  | applyPayoutResult hstep hintent =>
    exact ⟨⟨_, hintent, by simp [Db.apply, hstep, stateBefore, stateAfter]⟩,
      ⟨[], by simp [Db.apply, hstep]⟩, ⟨[], by simp [Db.apply, hstep]⟩⟩
  | emitCompleted hstep hintent htopic haggregate =>
    exact ⟨⟨_, hintent, by simp [Db.apply, hstep, stateBefore, stateAfter]⟩,
      ⟨[], by simp [Db.apply, hstep]⟩,
      ⟨[_], by simp [Db.apply, hstep]; exact ⟨rfl, htopic, haggregate⟩⟩⟩

/-- A posting that found nothing has inserted its header. -/
theorem headers_posted {l : List Effect} {e : Ledger.Entry} {es : List Ledger.Effect}
    (hp : Posted h l e es) (hno : ∀ past ∈ h,
      ∀ j ∈ past.ledger.entries ++ Ledger.headers (ledgerLog l), j.externalRef ≠ e.externalRef) :
    ∃ uuid, Ledger.headers es = [e.params.row uuid] := by
  obtain ⟨-, ledger, hledger, j, hj⟩ | ⟨uuid, ps, rfl, -⟩ := hp
  · obtain ⟨past, hpast, rfl⟩ := List.mem_map.mp hledger
    obtain ⟨hmem, href⟩ := Table.mem_of_find hj
    simp only [Ledger.Tables.view_eq] at hmem
    exact absurd href (hno past hpast j hmem)
  · exact ⟨uuid, by simp⟩

/-- A step whose entries were not posted before posts them. -/
theorem refs_finished (hf : Finished h run now m) (hno : ∀ past ∈ h,
    ∀ j ∈ past.ledger.entries, j.externalRef ∉ newRefs run.intentID run.currentStep) :
    (Ledger.headers (ledgerLog m)).map Ledger.JournalEntry.externalRef =
      newRefs run.intentID run.currentStep := by
  cases hf with
  | creditDeposit hstep hintent hpost =>
    simp only [hstep, newRefs, List.mem_singleton] at hno ⊢
    obtain ⟨uuid, hes⟩ := headers_posted hpost fun past hp j hj =>
      hno past hp j (by simpa using hj)
    simp [hes]
    rfl
  | paidBefore hstep => simp [hstep, newRefs]
  | paidNow hstep => simp [hstep, newRefs]
  | applyPayoutResult hstep hintent hpo hexpense hcashOut hrevenue hfx hdisbursed =>
    simp only [hstep, newRefs, List.mem_cons, List.not_mem_nil, or_false, not_or] at hno ⊢
    obtain ⟨uuid, hes⟩ := headers_posted hfx fun past hp j hj =>
      (hno past hp j (by simpa using hj)).1
    obtain ⟨uuid', hfs⟩ := headers_posted hdisbursed (by
      intro past hp j hj
      rw [ledgerLog_map, hes] at hj
      rcases List.mem_append.mp hj with hj | hj
      · exact (hno past hp j hj).2
      · rw [List.mem_singleton.mp hj]
        exact fxSwapRef_ne_payoutDisbursedRef _ _)
    simp [hes, hfs]
    exact ⟨rfl, rfl⟩
  | emitCompleted hstep => simp [hstep, newRefs]

/-- A step posts entries of its own intent only. -/
theorem entries_finished (hf : Finished h run now m) :
    ∀ e ∈ Ledger.headers (ledgerLog m), e.intentID = some run.intentID :=
  fun _ he => (harmless_finished hf _ (mem_ledgerLog.mp (Ledger.mem_headers.mp he))).1

/-- A finished step leaves the other intents where they are. -/
theorem standing_other (hkeys : (db.view m).keys.Nodup) (hf : Finished h run now m) {id : UUID}
    (hid : id ≠ run.intentID) : standing (db.view m) id = standing db id := by
  obtain ⟨⟨intent, -, hintents⟩, ⟨ps, hpayouts, hps, -⟩, ⟨os, houtbox, hos, -⟩⟩ :=
    writes_finished hkeys hf
  have hintent : Table.find PaymentIntent.id (db.view m).intents id =
      Table.find PaymentIntent.id db.intents id := by
    rw [hintents]
    split
    · exact Table.find_update_ne (fun i => rfl) hid
    · rfl
  simp [standing, hintent, view_entries, refsOf_append, refsOf_other (entries_finished hf) hid,
    hpayouts, Table.find_append, payout_other hps hid, houtbox, completedEvents_append,
    completedEvents_other hos hid]

/-- A step that has found nothing appends its entries to those of its intent. -/
theorem standing_entries (hf : Finished h run now m)
    (hpast : ∀ past ∈ h, Consistent past ∧
      standing past run.intentID = stage run.intentID run.currentStep false) :
    (standing (db.view m) run.intentID).entries =
      (standing db run.intentID).entries ++ newRefs run.intentID run.currentStep := by
  have hno : ∀ past ∈ h, ∀ j ∈ past.ledger.entries,
      j.externalRef ∉ newRefs run.intentID run.currentStep := by
    intro past hp j hj hmem
    refine newRefs_fresh _ _ _ hmem ?_
    rw [← (hpast past hp).2]
    exact mem_refsOf (hpast past hp).1 hj (newRefs_subset _ _ hmem)
  rw [← refs_finished hf hno, ← refsOf_own (entries_finished hf), standing, view_entries,
    refsOf_append]
  rfl

/-- Only the last step publishes an event. -/
theorem standing_events (hkeys : (db.view m).keys.Nodup) (hf : Finished h run now m) :
    (standing (db.view m) run.intentID).events =
      (standing db run.intentID).events + if run.currentStep = .emitCompleted then 1 else 0 := by
  obtain ⟨-, -, ⟨os, houtbox, hos, hlength⟩⟩ := writes_finished hkeys hf
  rw [← hlength, ← completedEvents_own hos, standing, houtbox, completedEvents_append]
  rfl

section Own

variable (hkeys : (db.view m).keys.Nodup) (hf : Finished h run now m)
  (hpast : ∀ past ∈ h, Consistent past ∧
    standing past run.intentID = stage run.intentID run.currentStep false)
  (hdb : standing db run.intentID = stage run.intentID run.currentStep false)

include hkeys hf hpast hdb

theorem standing_intent :
    (standing (db.view m) run.intentID).intent = some (stateAfter run.currentStep) := by
  obtain ⟨⟨intent, ⟨past, hp, hread⟩, hintents⟩, -, -⟩ := writes_finished hkeys hf
  have hbefore := congrArg Standing.intent hdb
  have hseen := congrArg Standing.intent (hpast past hp).2
  rw [stage_intent] at hbefore hseen
  simp only [standing, hread, Option.map_some, Option.some.injEq] at hseen
  obtain ⟨i, hi, -⟩ := Option.map_eq_some_iff.mp hbefore
  rw [if_pos hseen] at hintents
  rw [standing, hintents, Table.find_update_self, hi]
  · rfl
  · exact fun i => rfl

theorem standing_payout : (standing (db.view m) run.intentID).payout =
    if run.currentStep = .triggerPayout then some .succeeded
    else (standing db run.intentID).payout := by
  obtain ⟨-, ⟨ps, hpayouts, hps, hpaid⟩, -⟩ := writes_finished hkeys hf
  simp only [standing, hpayouts, Table.find_append, Option.map_or]
  split
  · rename_i hstep
    rw [if_pos hstep] at hpaid
    have hnone : ∀ db, standing db run.intentID = stage run.intentID run.currentStep false →
        Table.find Payout.intentID db.payouts run.intentID = none := by
      intro db hdb
      have hpayout := congrArg Standing.payout hdb
      rw [hstep, stage_payout] at hpayout
      exact Option.map_eq_none_iff.mp hpayout
    obtain ⟨hne | ⟨past, hp, po, hpo⟩, -⟩ := hpaid
    · simp [hnone db hdb, payout_own hps hne]
    · rw [hnone past (hpast past hp).2] at hpo
      cases hpo
  · rename_i hstep
    rw [if_neg hstep] at hpaid
    simp [hpaid]

/-- A finished step that has seen its intent where it stands makes the transition. -/
theorem standing_self : standing (db.view m) run.intentID =
    (stage run.intentID run.currentStep false).advance run.intentID run.currentStep := by
  rw [← hdb, Standing.advance, ← standing_intent hkeys hf hpast hdb,
    ← standing_entries hf hpast, ← standing_payout hkeys hf hpast hdb,
    ← standing_events hkeys hf]

end Own

end Finished

end Selatpay.Settlement
