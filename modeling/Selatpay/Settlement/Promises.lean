import Selatpay.Ledger.Validate
import Selatpay.Settlement.Contribution

/-!
# What the state of an intent promises

An intent is moved by the same commit that posts the entries of a step, records the
payout or publishes the event, and the run of that commit was past the steps before.
So an intent is never ahead of the tables, whichever workers overlap, stall or crash,
and what its state promises stays in the tables from then on. The balance trigger lets
no commit through that leaves an entry with a difference.
-/

namespace Selatpay.Settlement

open Store Saga Chain

/-- The step is behind the intent: its entries, its payout and its event are in the tables. -/
structure Done (db : Db) (intentID : UUID) (step : StepName) : Prop where
  entries : ∀ ref ∈ newRefs intentID step, Recorded db ref
  payout : step = .triggerPayout → ∃ p ∈ db.payouts, p.intentID = intentID
  event : step = .emitCompleted →
    ∃ o ∈ db.outbox, o.topic = topicCompleted ∧ o.aggregateID = some intentID

/-- The number of steps behind an intent in a state. -/
def rank : IntentState → Nat
  | .pending => 0
  | .funded => 1
  | .settling => 2
  | .paidOut => 3
  | .completed => 4
  | .expired => 0
  | .failed => 0

@[simp] theorem rank_stateAfter (step : StepName) : rank (stateAfter step) = position step + 1 := by
  cases step <;> rfl

/-- The tables are only added to. -/
structure Keeps (db db' : Db) : Prop extends Grows db db' where
  outbox : db.outbox <+: db'.outbox
  merchants : db'.merchants = db.merchants

section Keeps

variable {db db' db'' : Db}

theorem Keeps.refl (db : Db) : Keeps db db := ⟨.refl db, List.prefix_rfl, rfl⟩

theorem Keeps.trans (h : Keeps db db') (h' : Keeps db' db'') : Keeps db db'' :=
  ⟨h.toGrows.trans h'.toGrows, h.outbox.trans h'.outbox, h'.merchants.trans h.merchants⟩

theorem keeps_view (db : Db) (log : List Effect) : Keeps db (db.view log) := by
  induction log generalizing db with
  | nil => exact .refl db
  | cons e log ih =>
    refine .trans ⟨grows_apply db e, ?_, ?_⟩ (ih (db.apply e))
    · cases e <;> simp [Db.apply]
    · cases e <;> rfl

/-- What is done stays done. -/
theorem Done.mono {id : UUID} {step : StepName} (h : Done db id step) (hk : Keeps db db') :
    Done db' id step where
  entries := fun ref href => (h.entries ref href).mono hk.toGrows
  payout := by
    intro hstep
    obtain ⟨p, hp, hid⟩ := h.payout hstep
    obtain ⟨p', hp', hterms⟩ := hk.toGrows.payout hp
    exact ⟨p', hp', (congrArg (fun terms => terms.2.1) hterms).trans hid⟩
  event := by
    intro hstep
    obtain ⟨o, ho, hfacts⟩ := h.event hstep
    exact ⟨o, hk.outbox.subset ho, hfacts⟩

end Keeps

section Change

variable {env : Env} {s t : World} {e : Event}

theorem keeps_change (h : Change env s e t) : Keeps s.db t.db := by
  have hrest : s.db.outbox <+: t.db.outbox ∧ t.db.merchants = s.db.merchants := by
    cases h with
    | quiet he htx => simp [World.db, htx]
    | @record n uuid began row sightings =>
      obtain ⟨payments, sagas, hdb, -, -⟩ := recordDeposit_spec s.db row uuid began
      simp [World.db, hdb]
    | commit => exact ⟨(keeps_view _ _).outbox, (keeps_view _ _).merchants⟩
    | create => exact ⟨List.prefix_rfl, rfl⟩
    | claim => exact ⟨List.prefix_rfl, rfl⟩
    | start => exact ⟨List.prefix_rfl, rfl⟩
    | exec => exact ⟨List.prefix_rfl, rfl⟩
    | rollback => exact ⟨List.prefix_rfl, rfl⟩
    | settle => exact ⟨List.prefix_rfl, rfl⟩
  exact ⟨grows_change h, hrest.1, hrest.2⟩

/-- A finished step is done. -/
theorem done_finished {h : List Db} {run : Run} {now : Time} {m : List Effect} {db : Db}
    (hkeys : (db.view m).keys.Nodup) (hf : Finished h run now m)
    (hpast : ∀ past ∈ h, Grows past db) : Done (db.view m) run.intentID run.currentStep where
  entries := recorded_finished hf hpast
  payout := by
    intro hstep
    obtain ⟨ps, hps, hown, hfound⟩ := (writes_finished hkeys hf).payouts
    rw [if_pos hstep] at hfound
    rcases hfound.1 with hne | ⟨past, hp, po, hpo⟩
    · obtain ⟨p, hmem⟩ := List.exists_mem_of_ne_nil ps hne
      exact ⟨p, hps ▸ List.mem_append_right _ hmem, (hown p hmem).1⟩
    · obtain ⟨hmem, hid⟩ := Table.mem_of_find hpo
      obtain ⟨p', hp', hterms⟩ := ((hpast past hp).trans (keeps_view db m).toGrows).payout hmem
      exact ⟨p', hp', (congrArg (fun terms => terms.2.1) hterms).trans hid⟩
  event := by
    intro hstep
    obtain ⟨os, hos, hown, hlength⟩ := (writes_finished hkeys hf).outbox
    rw [if_pos hstep] at hlength
    obtain ⟨o, rfl⟩ := List.length_eq_one_iff.mp hlength
    exact ⟨o, by simp [hos], hown o (List.mem_singleton.mpr rfl)⟩

/-- What the tables hold of the intents, the runs and the workers. -/
structure Promised (s : World) : Prop where
  intents : ∀ i ∈ s.db.intents, ∀ step, position step < rank i.state → Done s.db i.id step
  rows : ∀ r ∈ s.db.sagas, ∀ step, r.state = .completed ∨ position step < position r.currentStep →
    Done s.db r.intentID step
  workers : ∀ w run, (s.worker w).run = some run → ∀ step,
    position step < position run.currentStep → Done s.db run.intentID step
  sagas : ∀ i ∈ s.db.intents, 0 < rank i.state → ∃ r ∈ s.db.sagas, r.intentID = i.id
  merchants : ∀ i ∈ s.db.intents, ∃ m ∈ s.db.merchants, m.id = i.merchantID

/-- A committed step is done, and so are the steps before it. -/
theorem Promised.commit (hs : Inv env s) (hp : Promised s) (h : Change env s e t) {w : Owner}
    {run : Run} {began : Time} {rail : Option RailCall} (he : e.commits = some w)
    (hw : s.worker w = .executing run began (.ret ()) rail) {step : StepName}
    (hle : position step ≤ position run.currentStep) : Done t.db run.intentID step := by
  rcases position_le_cases hle with hlt | rfl
  · exact (hp.workers w run (by rw [hw]; rfl) step hlt).mono (keeps_change h)
  · obtain ⟨past, hf, hpast⟩ := hs.finished hw
    rw [h.commit_db he]
    exact done_finished (hs.sound.view_unique w) hf fun p hp => (hpast p hp).2

/-- Where an intent comes from: it was there with its state, it is new, or a committed step has
moved it. -/
theorem intent_origin (hs : Inv env s) (h : Change env s e t) {i : PaymentIntent}
    (hi : i ∈ t.db.intents) :
    (∃ a ∈ s.db.intents, a.id = i.id ∧ a.merchantID = i.merchantID ∧ a.state = i.state) ∨
    (i.state = .pending ∧ ∃ m ∈ s.db.merchants, m.id = i.merchantID) ∨
    ∃ a ∈ s.db.intents, ∃ w run began rail, a.id = i.id ∧ a.merchantID = i.merchantID ∧
      e.commits = some w ∧ s.worker w = .executing run began (.ret ()) rail ∧
      i.id = run.intentID ∧ i.state = stateAfter run.currentStep := by
  cases h with
  | quiet he htx => exact .inl ⟨i, by simpa [World.db, htx] using hi, rfl, rfl, rfl⟩
  | @create c amountUSDC hunused hvalid hquotable hquote =>
    rcases List.mem_append.mp hi with hi | hi
    · exact .inl ⟨i, hi, rfl, rfl, rfl⟩
    · rw [List.mem_singleton.mp hi]
      exact .inr (.inl ⟨rfl, hunused.2.2.2.2.2.2⟩)
  | @record n uuid began row sightings =>
    obtain ⟨payments, sagas, hdb, -, -⟩ := recordDeposit_spec s.db row uuid began
    simp only [World.db, hdb] at hi
    exact .inl ⟨i, hi, rfl, rfl, rfl⟩
  | @commit e w run began rail x he hw hx =>
    obtain ⟨past, hf, -⟩ := hs.finished hw
    obtain ⟨intent, -, hintents⟩ := (writes_finished (hs.sound.view_unique w) hf).intents
    change i ∈ (s.db.view (s.tx.log w)).intents at hi
    rw [hintents] at hi
    split at hi
    · obtain ⟨a, ha, rfl⟩ := Table.mem_update hi
      split
      · next hid => exact .inr (.inr ⟨a, ha, w, run, began, rail, rfl, rfl, he, hw, hid, rfl⟩)
      · exact .inl ⟨a, ha, rfl, rfl, rfl⟩
    · exact .inl ⟨i, hi, rfl, rfl, rfl⟩
  | claim => exact .inl ⟨i, hi, rfl, rfl, rfl⟩
  | start => exact .inl ⟨i, hi, rfl, rfl, rfl⟩
  | exec => exact .inl ⟨i, hi, rfl, rfl, rfl⟩
  | rollback => exact .inl ⟨i, hi, rfl, rfl, rfl⟩
  | settle => exact .inl ⟨i, hi, rfl, rfl, rfl⟩

/-- A row that is past a step after an event has the step done. -/
theorem Promised.row (hs : Inv env s) (hp : Promised s) (h : Change env s e t)
    {r r' : SagaRun} (hr : r ∈ s.db.sagas) (hrow : RowChange env s e r r') {step : StepName}
    (hover : r'.state = .completed ∨ position step < position r'.currentStep) :
    Done t.db r.intentID step := by
  have hk := keeps_change h
  cases hrow with
  | same => exact (hp.rows r hr step hover).mono hk
  | claim => exact (hp.rows r hr step (.inr (hover.resolve_left (by simp [SagaRun.claim])))).mono hk
  | @commit w run began rail he hw hid =>
    rw [hs.intentID_eq (by rw [hw]; rfl) hr hid]
    refine hp.commit hs h he hw ?_
    cases hcurrent : run.currentStep with
    | emitCompleted => cases step <;> decide
    | _ =>
      simpa [hcurrent, nextStep, sagaChange, SagaRun.change, position, Nat.lt_succ_iff] using hover
  | settle he hw hid hf =>
    have hover : position step < position r.currentStep := by
      cases hf with
      | fail cause => exact hover.resolve_left (by simp [SagaRun.fail])
      | retry cause => exact hover.resolve_left (by simp [SagaRun.retry])
    exact (hp.rows r hr step (.inr hover)).mono hk

theorem promised_change (hs : Inv env s) (hp : Promised s) (h : Change env s e t) :
    Promised t where
  intents := by
    intro i hi step hlt
    rcases intent_origin hs h hi with ⟨a, ha, hid, -, hstate⟩ | ⟨hpending, -⟩ |
      ⟨a, ha, w, run, began, rail, -, -, he, hw, hid, hstate⟩
    · rw [← hstate] at hlt
      exact hid ▸ (hp.intents a ha step hlt).mono (keeps_change h)
    · rw [hpending] at hlt
      cases hlt
    · rw [hstate, rank_stateAfter] at hlt
      exact hid ▸ hp.commit hs h he hw (Nat.lt_succ_iff.mp hlt)
  rows := by
    intro r' hr' step hover
    rcases row_of_mem hs h hr' with ⟨r, hr, hrow⟩ | ⟨⟨uuid, intentID, now, rfl⟩, -, -, -⟩
    · rw [hrow.intentID_eq]
      exact hp.row hs h hr hrow hover
    · simp [newSagaRun, position] at hover
  workers := by
    intro w run hrun step hlt
    have hk := keeps_change h
    obtain hold | ⟨id, row, -, -, hfind, -, rfl⟩ := run_change h hrun
    · exact (hp.workers w run hold step hlt).mono hk
    · exact (hp.rows row (Table.mem_of_find hfind).1 step (.inr hlt)).mono hk
  sagas := by
    intro i hi hpos
    have hold (hr : ∃ r ∈ s.db.sagas, r.intentID = i.id) : ∃ r ∈ t.db.sagas, r.intentID = i.id := by
      obtain ⟨r, hr, hid⟩ := hr
      obtain ⟨r', hr', hterms⟩ := (grows_change h).saga hr
      exact ⟨r', hr', (congrArg Prod.snd hterms).trans hid⟩
    rcases intent_origin hs h hi with ⟨a, ha, hid, -, hstate⟩ | ⟨hpending, -⟩ |
      ⟨a, ha, w, run, began, rail, -, -, he, hw, hid, hstate⟩
    · rw [← hstate] at hpos
      exact hold (hid ▸ hp.sagas a ha hpos)
    · rw [hpending] at hpos
      cases hpos
    · obtain ⟨r, hr, hterms⟩ := hs.runs w run (by rw [hw]; rfl)
      exact hold ⟨r, hr, (congrArg Prod.snd hterms).trans hid.symm⟩
  merchants := by
    intro i hi
    rw [(keeps_change h).merchants]
    rcases intent_origin hs h hi with ⟨a, ha, -, hmerchant, -⟩ | ⟨-, hmerchant⟩ |
      ⟨a, ha, w, run, began, rail, -, hmerchant, -⟩
    · exact hmerchant ▸ hp.merchants a ha
    · exact hmerchant
    · exact hmerchant ▸ hp.merchants a ha

theorem promised_init (accounts : List Ledger.Account) (merchants : List Merchant) (now : Time) :
    Promised (World.init accounts merchants now) where
  intents := by simp [World.init, TxState.init]
  rows := by simp [World.init, TxState.init]
  workers := by
    intro w run hrun
    cases hrun
  sagas := by simp [World.init, TxState.init]
  merchants := by simp [World.init, TxState.init]

end Change

/-! ## Balanced books -/

/-- The lines of every entry balance. -/
def BooksBalance (db : Db) : Prop :=
  ∀ id, Ledger.LinesBalance (Ledger.entryLines db.ledger.postings id)

section Books

variable {env : Env} {s t : World} {e : Event}

theorem booksBalance_iff {db : Db} : BooksBalance db ↔
    ∀ id currency, Ledger.entryDiff db.ledger.postings id currency = 0 := by
  simp only [BooksBalance, Ledger.LinesBalance, Ledger.entryDiff_eq, Int.sub_eq_zero]

/-- A log that the trigger lets through keeps the books balanced. -/
theorem BooksBalance.view {db : Db} {log : List Effect} (hb : BooksBalance db)
    (h : Ledger.commitAllowed db.ledger (ledgerLog log) = true) : BooksBalance (db.view log) := by
  rw [booksBalance_iff] at hb ⊢
  intro id currency
  rw [view_ledger]
  by_cases hmem : ∃ p ∈ Ledger.lines (ledgerLog log), p.journalEntryID = id
  · obtain ⟨p, hp, rfl⟩ := hmem
    exact Ledger.entryDiff_of_balanced (List.all_eq_true.mp h p hp) currency
  · have hnone : Ledger.entryDiff (Ledger.lines (ledgerLog log)) id currency = 0 := by
      rw [Ledger.entryDiff, List.filter_eq_nil_iff.mpr]
      · rfl
      · intro p hp
        simpa using fun hid => absurd ⟨p, hp, hid⟩ hmem
    rw [Ledger.Tables.view_eq, Ledger.entryDiff_append, hb, hnone, Int.add_zero]

/-- The trigger has let a committed transaction through. -/
theorem balanced_of_commits {w : Owner} (h : s.step env e = some t) (he : e.commits = some w) :
    s.balanced w = true := by
  unfold Event.commits at he
  split at he <;> cases he <;> simp only [World.step] at h <;> split at h
  · simp only [Option.ite_none_right_eq_some] at h
    exact h.1
  · cases h
  · simp only [Option.ite_none_right_eq_some] at h
    exact h.1
  · cases h

theorem booksBalance_step (hb : BooksBalance s.db) (h : s.step env e = some t) :
    BooksBalance t.db := by
  have hchange := step_change h
  cases hchange with
  | @commit _ w _ _ _ _ he => exact hb.view (balanced_of_commits h he)
  | quiet he htx => simpa only [World.db, htx] using hb
  | @record n uuid began row =>
    obtain ⟨payments, sagas, hdb, -, -⟩ := recordDeposit_spec s.db row uuid began
    simp only [World.db, hdb]
    exact hb
  | create => exact hb
  | claim => exact hb
  | start => exact hb
  | exec => exact hb
  | rollback => exact hb
  | settle => exact hb

end Books

/-- The lines of an entry that a step posts are on accounts of the ledger. -/
theorem StepEntry.line_account {db : Db} {e : Ledger.Entry} (h : StepEntry db e) :
    ∀ l ∈ e.lines, ∃ a ∈ db.ledger.accounts, a.id = l.accountID := by
  intro l hl
  cases h with
  | creditDeposit _ _ hhotWallet huserFunds =>
    simp only [creditDepositEntry, List.mem_cons, List.not_mem_nil, or_false] at hl
    rcases hl with rfl | rfl
    · exact ⟨_, hhotWallet.1, rfl⟩
    · exact ⟨_, huserFunds.1, rfl⟩
  | fxSwap _ huserFunds hsettlement =>
    simp only [fxSwapEntry, List.mem_cons, List.not_mem_nil, or_false] at hl
    rcases hl with rfl | rfl
    · exact ⟨_, huserFunds.1, rfl⟩
    · exact ⟨_, hsettlement.1, rfl⟩
  | payoutDisbursed _ _ _ _ _ _ _ hexpense hcashOut hrevenue =>
    simp only [payoutDisbursedEntry, List.mem_append, List.mem_cons, List.not_mem_nil,
      or_false] at hl
    rcases hl with (rfl | rfl) | hl
    · exact ⟨_, hexpense.1, rfl⟩
    · exact ⟨_, hcashOut.1, rfl⟩
    · split at hl
      · rw [List.mem_singleton.mp hl]
        exact ⟨_, hrevenue.1, rfl⟩
      · cases hl

/-- Every posting is on an account of the ledger. -/
theorem MadeBySteps.posting_account {db : Db} (h : MadeBySteps db) :
    ∀ p ∈ db.ledger.postings, ∃ a ∈ db.ledger.accounts, a.id = p.accountID := by
  obtain ⟨created, hmade, hsteps⟩ := h
  intro p hp
  obtain ⟨c, hc, hid⟩ := hmade.owned p hp
  have hline : p.line ∈ c.entry.lines := by
    rw [← hmade.postings c hc]
    exact List.mem_map_of_mem (List.mem_filter.mpr ⟨hp, decide_eq_true hid.symm⟩)
  exact (hsteps c hc).line_account p.line hline

section Runs

variable {env : Env} {ok : World → Event → Prop} {s : World}

/-- In every reachable state the tables hold what the intents promise. -/
theorem Reachable.promised (h : Reachable env ok s) : Promised s :=
  (h.induct promised_init fun _ _ _ hs hp _ hst => promised_change hs hp (step_change hst)).2

/-- In every reachable state the books balance. -/
theorem Reachable.booksBalance (h : Reachable env ok s) : BooksBalance s.db := by
  obtain ⟨-, hbalance⟩ := h.induct (P := fun s => BooksBalance s.db)
    (fun _ _ _ => booksBalance_iff.mpr fun _ _ => rfl)
    fun _ _ _ _ hb _ hst => booksBalance_step hb hst
  exact hbalance

/-- In every reachable state payouts are over the amounts of their intents. -/
theorem Reachable.payoutsOwed (h : Reachable env ok s) : PayoutsOwed s.db := by
  obtain ⟨-, howed⟩ := h.induct (P := fun s => PayoutsOwed s.db)
    (fun _ _ _ => by simp [PayoutsOwed, World.init, TxState.init])
    fun _ _ _ hs hp _ hst => payoutsOwed_change hs hp (step_change hst)
  exact howed

/-- Whatever workers overlap, stall or crash, an intent is never ahead of the tables: the entries
of the steps behind it are posted and balanced, its payout has succeeded over its amount once it is
settling, its event is published once it is completed. -/
theorem intent_never_ahead (h : Reachable env anyStep s) :
    ∀ i ∈ s.db.intents,
      (∀ step, position step < rank i.state → ∀ ref ∈ newRefs i.id step,
        ∃ j ∈ s.db.ledger.entries, j.externalRef = ref ∧ j.intentID = some i.id ∧
          Ledger.LinesBalance (Ledger.entryLines s.db.ledger.postings j.id)) ∧
      (rank .settling ≤ rank i.state → ∃ p ∈ s.db.payouts, p.intentID = i.id ∧
        p.state = .succeeded ∧ p.amountIDR = i.amountIDR) ∧
      (i.state = .completed → ∃ o ∈ s.db.outbox, o.topic = topicCompleted ∧
        o.aggregateID = some i.id) := by
  have hinv := h.inv
  intro i hi
  have hdone := h.promised.intents i hi
  refine ⟨fun step hlt ref href => ?_, fun hle => ?_, fun hcompleted => ?_⟩
  · obtain ⟨j', hj', rfl⟩ := (hdone step hlt).entries ref href
    have hmem := mem_refsOf hinv.consistent hj' (newRefs_subset i.id step href)
    obtain ⟨j, hj, hjref⟩ := List.mem_map.mp hmem
    obtain ⟨hj, hintent⟩ := List.mem_filter.mp hj
    exact ⟨j, hj, hjref, of_decide_eq_true hintent, h.booksBalance j.id⟩
  · obtain ⟨p, hp, hid⟩ := (hdone .triggerPayout hle).payout rfl
    obtain ⟨a, ha, haid, hamount⟩ := h.payoutsOwed p hp
    obtain rfl := Table.eq_of_mem (Db.intent_ids_nodup hinv.sound.unique) ha hi (haid.trans hid)
    exact ⟨p, hp, hid, hinv.consistent.paidOut p hp, hamount⟩
  · exact (hdone .emitCompleted (by simp [hcompleted, rank, position])).event rfl

end Runs

theorem intent_never_ahead_settled : ∃ s, Reachable smallEnv anyStep s ∧
    ∃ i ∈ s.db.intents, i.state = .completed ∧ (∃ o ∈ s.db.outbox, o.aggregateID = some i.id) ∧
      ∃ p ∈ s.db.payouts, p.intentID = i.id ∧ p.amountIDR = 1000 := by
  obtain ⟨s, hs, i, hi, hstate, hamount⟩ : ∃ s,
      runIf (World.step smallEnv) anyStep smallWorld settled = some s ∧
        ∃ i ∈ s.db.intents, i.state = .completed ∧ i.amountIDR = 1000 :=
    exists_of_any (by decide +kernel)
  have h := reachable_of_runIf hs
  obtain ⟨-, hpayout, hevent⟩ := intent_never_ahead h i hi
  obtain ⟨p, hp, hid, -, hpaid⟩ := hpayout (by rw [hstate]; decide)
  obtain ⟨o, ho, -, haggregate⟩ := hevent hstate
  exact ⟨s, h, i, hi, hstate, ⟨o, ho, haggregate⟩, p, hp, hid, hpaid.trans hamount⟩

end Selatpay.Settlement
