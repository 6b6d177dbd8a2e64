import Selatpay.Ledger.Contribution
import Selatpay.Settlement.Lease
import Selatpay.Settlement.Standing

/-!
# Entries and the steps that post them

Every committed entry was posted by a step and has exactly the lines of that
posting, and what the step had read for it is still in the tables: deposits that
are finalized and linked, payouts, quotes, accounts and the terms of intents are
never changed. A saga that has got past a step has the entries of that step.
-/

namespace Selatpay.Settlement

open Store Saga Chain

/-! ## Entries of steps -/

/-- The account of a code. -/
def Holds (db : Db) (code currency : String) (a : Ledger.Account) : Prop :=
  a ∈ db.ledger.accounts ∧ a.code = code ∧ a.currency = currency

/-- The entries that steps post, with what is committed of their sources. -/
inductive StepEntry (db : Db) : Ledger.Entry → Prop
  | creditDeposit {intentID : UUID} {deposit : OnchainPayment}
      {hotWallet userFunds : Ledger.Account} (hdeposit : deposit ∈ db.payments)
      (hsettled : Settled deposit intentID)
      (hhotWallet : Holds db accountHotWalletUSDC currencyUSDC hotWallet)
      (huserFunds : Holds db accountLiabilityUserFunds currencyUSDC userFunds) :
      StepEntry db (creditDepositEntry intentID deposit hotWallet.id userFunds.id)
  | fxSwap {i : PaymentIntent} {po : Payout} {userFunds settlement : Ledger.Account}
      (hi : i ∈ db.intents) (huserFunds : Holds db accountLiabilityUserFunds currencyUSDC userFunds)
      (hsettlement : Holds db accountEquityFXSettlement currencyUSDC settlement) :
      StepEntry db (fxSwapEntry i.id i.quotedAmountUSDC po userFunds.id settlement.id)
  | payoutDisbursed {i : PaymentIntent} {quote : Quote} {midIDR spreadIDR : Int} {po p : Payout}
      {expense cashOut revenue : Ledger.Account} (hi : i ∈ db.intents) (hquote : quote ∈ db.quotes)
      (hquoteID : quote.id = i.quoteID) (hspread : SpreadOf i po quote midIDR spreadIDR)
      (hp : p ∈ db.payouts) (hterms : payoutTerms p = payoutTerms po) (hintent : po.intentID = i.id)
      (hexpense : Holds db accountExpenseFXSwapIDR currencyIDR expense)
      (hcashOut : Holds db accountCashOutIDR currencyIDR cashOut)
      (hrevenue : Holds db accountRevenueFXSpreadIDR currencyIDR revenue) :
      StepEntry db (payoutDisbursedEntry i.id midIDR po.amountIDR spreadIDR po expense.id
        cashOut.id revenue.id)

theorem Holds.mono {db db' : Db} {code currency : String} {a : Ledger.Account}
    (h : Holds db code currency a) (hg : Grows db db') : Holds db' code currency a :=
  ⟨hg.accounts ▸ h.1, h.2⟩

theorem StepEntry.mono {db db' : Db} {e : Ledger.Entry} (h : StepEntry db e) (hg : Grows db db') :
    StepEntry db' e := by
  cases h with
  | creditDeposit hdeposit hsettled hhotWallet huserFunds =>
    exact .creditDeposit (hg.deposits _ hdeposit _ hsettled) hsettled (hhotWallet.mono hg)
      (huserFunds.mono hg)
  | fxSwap hi huserFunds hsettlement =>
    obtain ⟨i', hi', hterms⟩ := hg.intent hi
    obtain ⟨hid, -, hquoted, -⟩ := terms_eq hterms
    rw [← hid, ← hquoted]
    exact .fxSwap hi' (huserFunds.mono hg) (hsettlement.mono hg)
  | payoutDisbursed hi hquote hquoteID hspread hp hterms hintent hexpense hcashOut hrevenue =>
    obtain ⟨i', hi', hterms'⟩ := hg.intent hi
    obtain ⟨p', hp', hterms''⟩ := hg.payout hp
    obtain ⟨hid, -, hquoted, hquoteID', -⟩ := terms_eq hterms'
    rw [SpreadOf, ← hquoted] at hspread
    rw [← hid]
    exact .payoutDisbursed hi' (hg.quotes.subset hquote) (hquoteID.trans hquoteID'.symm)
      hspread hp' (hterms''.trans hterms) (hintent.trans hid.symm) (hexpense.mono hg)
      (hcashOut.mono hg) (hrevenue.mono hg)

section Entries

variable {db : Db} {e : Ledger.Entry} {intentID : UUID}

/-- An entry of a step carries a reference of its intent. -/
theorem StepEntry.intentRefs (h : StepEntry db e) :
    ∃ id, e.intentID = some id ∧ e.externalRef ∈ intentRefs id := by
  cases h with
  | creditDeposit => exact ⟨_, rfl, by simp [Settlement.intentRefs, creditDepositEntry]⟩
  | fxSwap => exact ⟨_, rfl, by simp [Settlement.intentRefs, fxSwapEntry]⟩
  | payoutDisbursed => exact ⟨_, rfl, by simp [Settlement.intentRefs, payoutDisbursedEntry]⟩

/-- The entry under the reference of the deposit. -/
theorem StepEntry.of_creditDepositRef (h : StepEntry db e)
    (href : e.externalRef = creditDepositRef intentID) :
    ∃ deposit hotWallet userFunds, deposit ∈ db.payments ∧ Settled deposit intentID ∧
      Holds db accountHotWalletUSDC currencyUSDC hotWallet ∧
      Holds db accountLiabilityUserFunds currencyUSDC userFunds ∧
      e = creditDepositEntry intentID deposit hotWallet.id userFunds.id := by
  cases h with
  | creditDeposit hdeposit hsettled hhotWallet huserFunds =>
    obtain rfl := creditDepositRef_inj.mp href
    exact ⟨_, _, _, hdeposit, hsettled, hhotWallet, huserFunds, rfl⟩
  | fxSwap => exact absurd href.symm (creditDepositRef_ne_fxSwapRef _ _)
  | payoutDisbursed => exact absurd href.symm (creditDepositRef_ne_payoutDisbursedRef _ _)

/-- The entry under the reference of the USDC side. -/
theorem StepEntry.of_fxSwapRef (h : StepEntry db e) (href : e.externalRef = fxSwapRef intentID) :
    ∃ i po userFunds settlement, i ∈ db.intents ∧ i.id = intentID ∧
      Holds db accountLiabilityUserFunds currencyUSDC userFunds ∧
      Holds db accountEquityFXSettlement currencyUSDC settlement ∧
      e = fxSwapEntry intentID i.quotedAmountUSDC po userFunds.id settlement.id := by
  cases h with
  | creditDeposit => exact absurd href (creditDepositRef_ne_fxSwapRef _ _)
  | fxSwap hi huserFunds hsettlement =>
    obtain rfl := fxSwapRef_inj.mp href
    exact ⟨_, _, _, _, hi, rfl, huserFunds, hsettlement, rfl⟩
  | payoutDisbursed => exact absurd href.symm (fxSwapRef_ne_payoutDisbursedRef _ _)

/-- The entry under the reference of the rupiah side. -/
theorem StepEntry.of_payoutDisbursedRef (h : StepEntry db e)
    (href : e.externalRef = payoutDisbursedRef intentID) :
    ∃ i quote midIDR spreadIDR po expense cashOut revenue, i ∈ db.intents ∧ i.id = intentID ∧
      quote ∈ db.quotes ∧ quote.id = i.quoteID ∧ SpreadOf i po quote midIDR spreadIDR ∧
      (∃ p ∈ db.payouts, p.intentID = intentID ∧ p.amountIDR = po.amountIDR) ∧
      Holds db accountExpenseFXSwapIDR currencyIDR expense ∧
      Holds db accountCashOutIDR currencyIDR cashOut ∧
      Holds db accountRevenueFXSpreadIDR currencyIDR revenue ∧
      e = payoutDisbursedEntry intentID midIDR po.amountIDR spreadIDR po expense.id cashOut.id
        revenue.id := by
  cases h with
  | creditDeposit => exact absurd href (creditDepositRef_ne_payoutDisbursedRef _ _)
  | fxSwap => exact absurd href (fxSwapRef_ne_payoutDisbursedRef _ _)
  | payoutDisbursed hi hquote hquoteID hspread hp hterms hintent hexpense hcashOut hrevenue =>
    obtain rfl := payoutDisbursedRef_inj.mp href
    simp only [payoutTerms, Prod.mk.injEq] at hterms
    exact ⟨_, _, _, _, _, _, _, _, hi, rfl, hquote, hquoteID, hspread,
      ⟨_, hp, hterms.2.1.trans hintent, hterms.2.2⟩, hexpense, hcashOut, hrevenue, rfl⟩

end Entries

/-- An entry names the payment as the deposit of the intent. Its header does not depend on the
accounts. -/
def CreditOf (e : Ledger.JournalEntry) (intentID : UUID) (p : OnchainPayment) : Prop :=
  e.externalRef = creditDepositRef intentID ∧
    e.description = some (creditDepositEntry intentID p 0 0).description

/-- The payment is the deposit that was credited for the intent. -/
def Credited (db : Db) (intentID : UUID) (p : OnchainPayment) : Prop :=
  ∃ e ∈ db.ledger.entries, CreditOf e intentID p

instance (e : Ledger.JournalEntry) (intentID : UUID) (p : OnchainPayment) :
    Decidable (CreditOf e intentID p) := inferInstanceAs (Decidable (_ ∧ _))

instance (db : Db) (intentID : UUID) (p : OnchainPayment) : Decidable (Credited db intentID p) :=
  inferInstanceAs (Decidable (∃ e ∈ db.ledger.entries, _))

/-- An entry names one signature. -/
theorem CreditOf.signature_eq {e : Ledger.JournalEntry} {intentID : UUID} {p q : OnchainPayment}
    (h : CreditOf e intentID p) (h' : CreditOf e intentID q) : p.signature = q.signature := by
  have htext := Option.some.inj (h.2.symm.trans h'.2)
  simpa [creditDepositEntry, String.append_assoc] using htext

/-- At most one deposit is credited for an intent. -/
theorem Credited.eq {db : Db} {intentID : UUID} {p q : OnchainPayment} (hkeys : db.keys.Nodup)
    (h : Credited db intentID p) (h' : Credited db intentID q) (hp : p ∈ db.payments)
    (hq : q ∈ db.payments) : p = q := by
  obtain ⟨e, he, hcredit⟩ := h
  obtain ⟨e', he', hcredit'⟩ := h'
  obtain rfl := Table.eq_of_mem (Ledger.Tables.externalRefs_nodup (Db.ledger_keys_nodup hkeys))
    he he' (hcredit.1.trans hcredit'.1.symm)
  exact Table.eq_of_mem (Db.signatures_nodup hkeys) hp hq (hcredit.signature_eq hcredit')

/-- The committed ledger was made by postings of steps. -/
def MadeBySteps (db : Db) : Prop :=
  ∃ created, Ledger.MadeBy db.ledger created ∧ ∀ c ∈ created, StepEntry db c.entry

/-- The ledger holds an entry under a reference. -/
def Recorded (db : Db) (ref : String) : Prop := ∃ e ∈ db.ledger.entries, e.externalRef = ref

theorem Recorded.mono {db db' : Db} {ref : String} (h : Recorded db ref) (hg : Grows db db') :
    Recorded db' ref := by
  obtain ⟨e, he, href⟩ := h
  exact ⟨e, hg.entries.subset he, href⟩

/-! ## Finished steps -/

section Finished

variable {h : List Db} {run : Run} {now : Time} {m : List Effect} {db : Db}

/-- An account that was resolved is still there. -/
theorem holds_of_resolved {code currency : String} {a : Ledger.Account}
    (ha : Resolved h code currency a) (hpast : ∀ past ∈ h, Grows past db) :
    Holds db code currency a := by
  obtain ⟨past, hp, hmem, hcode, hcurrency⟩ := ha
  exact Holds.mono ⟨hmem, hcode, hcurrency⟩ (hpast past hp)

/-- The deposit a step has read is finalized and linked to the intent. -/
theorem settled_of_earliest {past : Db} {intentID : UUID} {deposit : OnchainPayment}
    (h : deposit ∈ earliest (past.finalizedDeposits intentID)) :
    deposit ∈ past.payments ∧ Settled deposit intentID := by
  have hmem := List.mem_filter.mp (mem_of_earliest h)
  exact ⟨hmem.1, of_decide_eq_true hmem.2⟩

/-- A posting leaves nothing, or one more block. -/
theorem blocks_posted {l : List Effect} {log es : List Ledger.Effect} {cs : List Ledger.Creation}
    {e : Ledger.Entry} (hb : Ledger.Blocks log cs) (hp : Posted h l e es) :
    ∃ new, Ledger.Blocks (log ++ es) (cs ++ new) ∧ ∀ c ∈ new, c.entry = e := by
  obtain ⟨rfl, -⟩ | ⟨uuid, ps, rfl, hlines, hps⟩ := hp
  · exact ⟨[], by simpa using hb, by simp⟩
  · exact ⟨_, hb.snoc hlines hps, by simp⟩

/-- A header that a posting leaves is that of its entry. -/
theorem header_of_posted {l : List Effect} {es : List Ledger.Effect} {e : Ledger.Entry}
    (hp : Posted h l e es) {j : Ledger.JournalEntry} (hj : j ∈ Ledger.headers es) :
    ∃ uuid, j = e.params.row uuid := by
  obtain ⟨rfl, -⟩ | ⟨uuid, ps, rfl, -⟩ := hp
  · simp at hj
  · exact ⟨uuid, by simpa using hj⟩

/-- The ledger effects of a finished step are blocks of step entries. -/
theorem blocks_finished (hf : Finished h run now m) (hpast : ∀ past ∈ h, Grows past db) :
    ∃ cs, Ledger.Blocks (ledgerLog m) cs ∧ ∀ c ∈ cs, StepEntry db c.entry := by
  cases hf with
  | creditDeposit hstep hintent hpost hdeposit hhotWallet huserFunds =>
    obtain ⟨cs, hb, hcs⟩ := blocks_posted .nil hpost
    refine ⟨cs, by simpa using hb, fun c hc => ?_⟩
    rw [hcs c hc]
    obtain ⟨past, hp, hearliest⟩ := hdeposit
    obtain ⟨hmem, hsettled⟩ := settled_of_earliest hearliest
    exact .creditDeposit ((hpast past hp).deposits _ hmem _ hsettled) hsettled
      (holds_of_resolved hhotWallet hpast) (holds_of_resolved huserFunds hpast)
  | paidBefore => exact ⟨[], by simpa using Ledger.Blocks.nil, by simp⟩
  | paidNow => exact ⟨[], by simpa using Ledger.Blocks.nil, by simp⟩
  | @applyPayoutResult intent po quote midIDR spreadIDR settlement userFunds expense cashOut revenue
      es fs hstep hintent hpo hexpense hcashOut hrevenue hfx hdisbursed hsettlement huserFunds
      hquote hspread =>
    obtain ⟨cs, hb, hcs⟩ := blocks_posted .nil hfx
    obtain ⟨cs', hb', hcs'⟩ := blocks_posted hb hdisbursed
    obtain ⟨past, hp, hfind⟩ := hintent
    obtain ⟨hi, hid⟩ := Table.mem_of_find hfind
    obtain ⟨i, hi, hterms⟩ := (hpast past hp).intent hi
    obtain ⟨hid', -, hquoted, hquoteID, -⟩ := terms_eq hterms
    rw [hid] at hid'
    refine ⟨cs ++ cs', by simpa using hb', fun c hc => ?_⟩
    rcases List.mem_append.mp hc with hc | hc
    · rw [hcs c hc, ← hid', ← hquoted]
      exact .fxSwap hi (holds_of_resolved huserFunds hpast) (holds_of_resolved hsettlement hpast)
    · rw [hcs' c hc, ← hid']
      obtain ⟨past₁, hp₁, hfind₁⟩ := hpo
      obtain ⟨hpo, hpoIntent⟩ := Table.mem_of_find hfind₁
      obtain ⟨p, hp, hpterms⟩ := (hpast past₁ hp₁).payout hpo
      obtain ⟨past₂, hp₂, hfind₂⟩ := hquote
      obtain ⟨hq, hqid⟩ := Table.mem_of_find hfind₂
      rw [SpreadOf, ← hquoted] at hspread
      exact .payoutDisbursed hi ((hpast past₂ hp₂).quotes.subset hq) (hqid.trans hquoteID.symm)
        hspread hp hpterms (hpoIntent.trans hid'.symm) (holds_of_resolved hexpense hpast)
        (holds_of_resolved hcashOut hpast) (holds_of_resolved hrevenue hpast)
  | emitCompleted => exact ⟨[], by simpa using Ledger.Blocks.nil, by simp⟩

/-- The entry of a posting is in the ledger after the commit: it was found there, or inserted. -/
theorem recorded_posted {l : List Effect} {e : Ledger.Entry} {es : List Ledger.Effect}
    (hp : Posted h l e es) (hpast : ∀ past ∈ h, Grows past db)
    (hsub : Ledger.headers (ledgerLog l) ++ Ledger.headers es ⊆ Ledger.headers (ledgerLog m)) :
    Recorded (db.view m) e.externalRef := by
  rw [Recorded, view_entries]
  obtain ⟨-, ledger, hledger, j, hj⟩ | ⟨uuid, ps, rfl, -⟩ := hp
  · obtain ⟨past, hmem, rfl⟩ := List.mem_map.mp hledger
    obtain ⟨hj, href⟩ := Table.mem_of_find hj
    simp only [Ledger.Tables.view_eq, List.mem_append] at hj
    refine ⟨j, List.mem_append.mpr ?_, href⟩
    exact hj.imp (fun hj => (hpast past hmem).entries.subset hj)
      fun hj => hsub (List.mem_append_left _ hj)
  · exact ⟨e.params.row uuid, List.mem_append_right _ (hsub (by simp)), rfl⟩

/-- A finished step has found or posted its entries. -/
theorem recorded_finished (hf : Finished h run now m) (hpast : ∀ past ∈ h, Grows past db) :
    ∀ ref ∈ newRefs run.intentID run.currentStep, Recorded (db.view m) ref := by
  intro ref href
  cases hf with
  | creditDeposit hstep hintent hpost =>
    simp only [hstep, newRefs, List.mem_singleton] at href
    rw [href]
    exact recorded_posted hpost hpast (by simp)
  | paidBefore hstep => simp [hstep, newRefs] at href
  | paidNow hstep => simp [hstep, newRefs] at href
  | applyPayoutResult hstep hintent hpo hexpense hcashOut hrevenue hfx hdisbursed =>
    simp only [hstep, newRefs, List.mem_cons, List.not_mem_nil, or_false] at href
    rcases href with rfl | rfl
    · exact recorded_posted hfx hpast (by simp)
    · exact recorded_posted hdisbursed hpast (by simp)
  | emitCompleted hstep => simp [hstep, newRefs] at href

end Finished

/-! ## Runs -/

/-- The ledger is made by steps, and what is past a step has the entries of the step. -/
structure PostingInv (s : World) : Prop where
  made : MadeBySteps s.db
  rows : ∀ r ∈ s.db.sagas, ∀ step, r.state = .completed ∨ position step < position r.currentStep →
    ∀ ref ∈ newRefs r.intentID step, Recorded s.db ref
  workers : ∀ w run, (s.worker w).run = some run → ∀ step,
    position step < position run.currentStep → ∀ ref ∈ newRefs run.intentID step, Recorded s.db ref

section Step

variable {env : Env} {s t : World} {e : Event}

/-- The ledger and the payouts are changed by commits only. -/
theorem ledger_change (h : Change env s e t) :
    (t.db.ledger = s.db.ledger ∧ t.db.payouts = s.db.payouts) ∨
      ∃ w run began rail, s.worker w = .executing run began (.ret ()) rail ∧
        t.db = s.db.view (s.tx.log w) := by
  cases h with
  | quiet he htx =>
    rw [World.db, World.db, htx]
    exact .inl ⟨rfl, rfl⟩
  | @record n uuid began row =>
    obtain ⟨payments, sagas, hdb, -, -⟩ := recordDeposit_spec s.db row uuid began
    exact .inl (by simp [World.db, hdb])
  | @commit _ w run began rail x he hw => exact .inr ⟨w, run, began, rail, hw, rfl⟩
  | create => exact .inl ⟨rfl, rfl⟩
  | claim => exact .inl ⟨rfl, rfl⟩
  | start => exact .inl ⟨rfl, rfl⟩
  | exec => exact .inl ⟨rfl, rfl⟩
  | rollback => exact .inl ⟨rfl, rfl⟩
  | settle => exact .inl ⟨rfl, rfl⟩

theorem madeBySteps_change (hs : Inv env s) (hm : MadeBySteps s.db) (h : Change env s e t) :
    MadeBySteps t.db := by
  have hg := grows_change h
  obtain ⟨created, hmade, hsteps⟩ := hm
  rcases ledger_change h with ⟨heq, -⟩ | ⟨w, run, began, rail, hw, hdb⟩
  · exact ⟨created, hmade.congr (congrArg _ heq) (congrArg _ heq),
      fun c hc => (hsteps c hc).mono hg⟩
  · obtain ⟨past, hf, hpast⟩ := hs.finished hw
    obtain ⟨cs, hblocks, hcs⟩ := blocks_finished hf fun p hp => (hpast p hp).2
    have hkeys : (s.db.ledger.view (ledgerLog (s.tx.log w))).keys.Nodup := by
      rw [← view_ledger]
      exact Db.ledger_keys_nodup (hs.sound.view_unique w)
    refine ⟨created ++ cs, ?_, fun c hc => ?_⟩
    · rw [hdb, view_ledger]
      exact hmade.view hblocks hkeys
    · rcases List.mem_append.mp hc with hc | hc
      · exact (hsteps c hc).mono hg
      · exact (hcs c hc).mono hg

/-- The steps up to a step are those before it and the step itself. -/
theorem position_le_cases {a b : StepName} (h : position a ≤ position b) :
    position a < position b ∨ a = b := by
  cases a <;> cases b <;> revert h <;> decide

/-- A row that is past a step after an event has the entries of the step. -/
theorem recorded_row (hs : Inv env s) (hp : PostingInv s) (h : Change env s e t)
    {r r' : SagaRun} (hr : r ∈ s.db.sagas) (hrow : RowChange env s e r r') {step : StepName}
    (hover : r'.state = .completed ∨ position step < position r'.currentStep) :
    ∀ ref ∈ newRefs r.intentID step, Recorded t.db ref := by
  intro ref href
  have hg := grows_change h
  cases hrow with
  | same => exact (hp.rows r hr step hover ref href).mono hg
  | claim =>
    have hover := hover.resolve_left (by simp [SagaRun.claim])
    exact (hp.rows r hr step (.inr hover) ref href).mono hg
  | @commit w run began rail he hw hid =>
    have hrun : (s.worker w).run = some run := by rw [hw]; rfl
    rw [hs.intentID_eq hrun hr hid] at href
    have hle : position step ≤ position run.currentStep := by
      cases hcurrent : run.currentStep with
      | emitCompleted => cases step <;> decide
      | _ =>
        simpa [hcurrent, nextStep, sagaChange, SagaRun.change, position, Nat.lt_succ_iff]
          using hover
    rcases position_le_cases hle with hlt | rfl
    · exact (hp.workers w run hrun step hlt ref href).mono hg
    · obtain ⟨past, hf, hpast⟩ := hs.finished hw
      rw [h.commit_db he]
      exact recorded_finished hf (fun p hp => (hpast p hp).2) ref href
  | settle he hw hid hf =>
    have hover : position step < position r.currentStep := by
      cases hf with
      | fail cause => exact hover.resolve_left (by simp [SagaRun.fail])
      | retry cause => exact hover.resolve_left (by simp [SagaRun.retry])
    exact (hp.rows r hr step (.inr hover) ref href).mono hg

theorem postingInv_change (hs : Inv env s) (hp : PostingInv s) (h : Change env s e t) :
    PostingInv t where
  made := madeBySteps_change hs hp.made h
  rows := by
    intro r' hr' step hover
    rcases row_of_mem hs h hr' with ⟨r, hr, hrow⟩ | ⟨⟨uuid, intentID, now, rfl⟩, -, -, -⟩
    · rw [hrow.intentID_eq]
      exact recorded_row hs hp h hr hrow hover
    · simp [newSagaRun, position] at hover
  workers := by
    intro w run hrun step hlt ref href
    have hg := grows_change h
    obtain hold | ⟨id, row, -, -, hfind, -, rfl⟩ := run_change h hrun
    · exact (hp.workers w run hold step hlt ref href).mono hg
    · exact (hp.rows row (Table.mem_of_find hfind).1 step (.inr hlt) ref href).mono hg

theorem postingInv_init (accounts : List Ledger.Account) (merchants : List Merchant) (now : Time) :
    PostingInv (World.init accounts merchants now) where
  made := ⟨[], .empty _, by simp⟩
  rows := by simp [World.init, TxState.init]
  workers := by
    intro w run hrun
    cases hrun

end Step

/-- In every reachable state the ledger is made by steps. -/
theorem Reachable.postings {env : Env} {ok : World → Event → Prop} {s : World}
    (h : Reachable env ok s) : PostingInv s :=
  (h.induct postingInv_init fun _ _ _ hs hp _ hst => postingInv_change hs hp (step_change hst)).2

end Selatpay.Settlement
