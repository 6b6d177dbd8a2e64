import Selatpay.Quoter.MidRate
import Selatpay.Settlement.Booking
import Selatpay.Settlement.Intents

/-!
# What a settlement contributes to the ledger

A completed saga has exactly the three entries of its steps, each posted once
however often the steps were executed. Their lines are fixed by the credited
deposit, the terms of the intent and the rate of its quote, so the contribution of
a settlement to every account is a formula in these.
-/

namespace Selatpay.Settlement

open Store Saga Chain

/-- The accounts that the migrations seed, with their types. -/
def seededAccounts : List (String × Ledger.AccountType × String) :=
  [(accountHotWalletUSDC, .asset, currencyUSDC),
    (accountLiabilityUserFunds, .liability, currencyUSDC),
    ("merchant_payable_idr", .liability, currencyIDR), (accountCashOutIDR, .asset, currencyIDR),
    (accountRevenueFXSpreadIDR, .revenue, currencyIDR),
    ("expense_network_fee_usdc", .expense, currencyUSDC),
    (accountExpenseFXSwapIDR, .expense, currencyIDR),
    (accountEquityFXSettlement, .equity, currencyUSDC)]

/-- The accounts have the types they are seeded with. -/
def Charted (db : Db) : Prop :=
  ∀ a ∈ db.ledger.accounts, ∀ c ∈ seededAccounts, a.code = c.1 → a.currency = c.2.2 → a.type = c.2.1

instance (db : Db) : Decidable (Charted db) :=
  inferInstanceAs (Decidable (∀ a ∈ db.ledger.accounts, ∀ c ∈ seededAccounts, _))

/-- The account of a code and currency. -/
def Named (a : Ledger.Account) (code currency : String) : Prop :=
  a.code = code ∧ a.currency = currency

instance (a : Ledger.Account) (code currency : String) : Decidable (Named a code currency) :=
  inferInstanceAs (Decidable (_ ∧ _))

/-- What a settlement contributes to an account, in its natural direction. -/
def settlementEffect (deposit quotedUSDC midIDR paidIDR : Int) (a : Ledger.Account) : Int :=
  if Named a accountHotWalletUSDC currencyUSDC then deposit
  else if Named a accountLiabilityUserFunds currencyUSDC then deposit - quotedUSDC
  else if Named a accountEquityFXSettlement currencyUSDC then quotedUSDC
  else if Named a accountExpenseFXSwapIDR currencyIDR then midIDR
  else if Named a accountCashOutIDR currencyIDR then -paidIDR
  else if Named a accountRevenueFXSpreadIDR currencyIDR then midIDR - paidIDR
  else 0

/-- The floor of the mid value of an amount. -/
def midValue (quotedUSDC : Int) (quote : Quote) : Int :=
  quotedUSDC * quote.rateNum / 10 ^ (6 + quote.rateScale.toNat)

/-! ## Lines on accounts -/

section Lines

variable {db : Db} {a x : Ledger.Account} {code currency : String}

/-- The account of a code is found by its id. -/
theorem Holds.id_eq_iff (h : Holds db code currency x) (hkeys : db.keys.Nodup)
    (ha : a ∈ db.ledger.accounts) : x.id = a.id ↔ Named a code currency := by
  obtain ⟨hx, hcode, hcurrency⟩ := h
  have hledger := Db.ledger_keys_nodup hkeys
  constructor
  · intro hid
    obtain rfl := Table.eq_of_mem (Ledger.Tables.account_ids_nodup hledger) hx ha hid
    exact ⟨hcode, hcurrency⟩
  · rintro ⟨hcode', hcurrency'⟩
    have heq : (x.code, x.currency) = (a.code, a.currency) := by
      rw [hcode, hcurrency, hcode', hcurrency']
    rw [Table.eq_of_mem (Ledger.Tables.account_codes_nodup hledger) hx ha heq]

/-- A line on the account of a seeded code counts on that account only, by the seeded type. -/
theorem Holds.lineTo (h : Holds db code currency x) (hkeys : db.keys.Nodup) (hchart : Charted db)
    (ha : a ∈ db.ledger.accounts) (type : Ledger.AccountType)
    (hseeded : (code, type, currency) ∈ seededAccounts) (l : Ledger.Line) :
    (if x.id = a.id then l.natural a.type else 0) =
      if Named a code currency then l.natural type else 0 := by
  have hiff := h.id_eq_iff hkeys ha
  by_cases hnamed : Named a code currency
  · rw [if_pos hnamed, if_pos (hiff.mpr hnamed), hchart a ha _ hseeded hnamed.1 hnamed.2]
  · rw [if_neg hnamed, if_neg fun hid => hnamed (hiff.mp hid)]

variable (hkeys : db.keys.Nodup) (hchart : Charted db) (ha : a ∈ db.ledger.accounts)
include hkeys hchart ha

/-- The deposit is added to the hot wallet and to what is owed. -/
theorem linesTo_creditDeposit {hotWallet userFunds : Ledger.Account}
    (hhotWallet : Holds db accountHotWalletUSDC currencyUSDC hotWallet)
    (huserFunds : Holds db accountLiabilityUserFunds currencyUSDC userFunds) (intentID : UUID)
    (deposit : OnchainPayment) :
    Ledger.linesTo (creditDepositEntry intentID deposit hotWallet.id userFunds.id).lines a =
      (if Named a accountHotWalletUSDC currencyUSDC then deposit.amount else 0) +
        if Named a accountLiabilityUserFunds currencyUSDC then deposit.amount else 0 := by
  simp only [creditDepositEntry, Ledger.linesTo_cons, Ledger.linesTo_nil, add_zero,
    hhotWallet.lineTo hkeys hchart ha .asset (by simp [seededAccounts]),
    huserFunds.lineTo hkeys hchart ha .liability (by simp [seededAccounts])]
  rfl

/-- The quoted amount is released to the settlement equity. -/
theorem linesTo_fxSwap {userFunds settlement : Ledger.Account}
    (huserFunds : Holds db accountLiabilityUserFunds currencyUSDC userFunds)
    (hsettlement : Holds db accountEquityFXSettlement currencyUSDC settlement) (intentID : UUID)
    (quotedUSDC : Int) (po : Payout) :
    Ledger.linesTo (fxSwapEntry intentID quotedUSDC po userFunds.id settlement.id).lines a =
      (if Named a accountLiabilityUserFunds currencyUSDC then -quotedUSDC else 0) +
        if Named a accountEquityFXSettlement currencyUSDC then quotedUSDC else 0 := by
  simp only [fxSwapEntry, Ledger.linesTo_cons, Ledger.linesTo_nil, add_zero,
    huserFunds.lineTo hkeys hchart ha .liability (by simp [seededAccounts]),
    hsettlement.lineTo hkeys hchart ha .equity (by simp [seededAccounts])]
  rfl

/-- The mid value is spent, the paid amount leaves and the rest is earned. -/
theorem linesTo_payoutDisbursed {expense cashOut revenue : Ledger.Account}
    (hexpense : Holds db accountExpenseFXSwapIDR currencyIDR expense)
    (hcashOut : Holds db accountCashOutIDR currencyIDR cashOut)
    (hrevenue : Holds db accountRevenueFXSpreadIDR currencyIDR revenue) (intentID : UUID)
    (midIDR paidIDR : Int) {spreadIDR : Int} (hspread : 0 ≤ spreadIDR) (po : Payout) :
    Ledger.linesTo (payoutDisbursedEntry intentID midIDR paidIDR spreadIDR po expense.id cashOut.id
      revenue.id).lines a =
      (if Named a accountExpenseFXSwapIDR currencyIDR then midIDR else 0) +
        ((if Named a accountCashOutIDR currencyIDR then -paidIDR else 0) +
          if Named a accountRevenueFXSpreadIDR currencyIDR then spreadIDR else 0) := by
  have hrest : Ledger.linesTo (if spreadIDR > 0 then
      [⟨revenue.id, spreadIDR, currencyIDR, .credit⟩] else []) a =
      if Named a accountRevenueFXSpreadIDR currencyIDR then spreadIDR else 0 := by
    split
    · simp only [Ledger.linesTo_cons, Ledger.linesTo_nil, add_zero,
        hrevenue.lineTo hkeys hchart ha .revenue (by simp [seededAccounts])]
      rfl
    · have hzero : spreadIDR = 0 := by omega
      simp [hzero]
  simp only [payoutDisbursedEntry, List.cons_append, List.nil_append, Ledger.linesTo_cons, hrest,
    hexpense.lineTo hkeys hchart ha .expense (by simp [seededAccounts]),
    hcashOut.lineTo hkeys hchart ha .asset (by simp [seededAccounts])]
  rfl

end Lines

/-- The contributions of the three entries add up to the effect of the settlement. -/
theorem settlementEffect_eq (a : Ledger.Account) (deposit quotedUSDC midIDR paidIDR : Int) :
    ((if Named a accountHotWalletUSDC currencyUSDC then deposit else 0) +
        if Named a accountLiabilityUserFunds currencyUSDC then deposit else 0) +
      (((if Named a accountLiabilityUserFunds currencyUSDC then -quotedUSDC else 0) +
          if Named a accountEquityFXSettlement currencyUSDC then quotedUSDC else 0) +
        ((if Named a accountExpenseFXSwapIDR currencyIDR then midIDR else 0) +
          ((if Named a accountCashOutIDR currencyIDR then -paidIDR else 0) +
            if Named a accountRevenueFXSpreadIDR currencyIDR then midIDR - paidIDR else 0))) =
      settlementEffect deposit quotedUSDC midIDR paidIDR a := by
  -- An account that has one of the names has none of the others.
  simp only [settlementEffect, Named, accountHotWalletUSDC, accountLiabilityUserFunds,
    accountEquityFXSettlement, accountExpenseFXSwapIDR, accountCashOutIDR,
    accountRevenueFXSpreadIDR, currencyUSDC, currencyIDR]
  by_cases h₁ : a.code = "asset_hot_wallet_usdc" ∧ a.currency = "USDC"
  · simp [h₁]
  by_cases h₂ : a.code = "liability_user_funds_usdc" ∧ a.currency = "USDC"
  · simp [h₂, sub_eq_add_neg]
  by_cases h₃ : a.code = "equity_fx_settlement_usdc" ∧ a.currency = "USDC"
  · simp [h₃]
  by_cases h₄ : a.code = "expense_fx_swap_idr" ∧ a.currency = "IDR"
  · simp [h₄]
  by_cases h₅ : a.code = "asset_cash_out_idr" ∧ a.currency = "IDR"
  · simp [h₅]
  by_cases h₆ : a.code = "revenue_fx_spread_idr" ∧ a.currency = "IDR"
  · simp [h₆, sub_eq_add_neg]
  simp [h₁, h₂, h₃, h₄, h₅, h₆]

/-! ## Amounts -/

/-- A payout is over the amount of its intent. -/
def PayoutsOwed (db : Db) : Prop :=
  ∀ p ∈ db.payouts, ∃ i ∈ db.intents, i.id = p.intentID ∧ p.amountIDR = i.amountIDR

theorem payoutsOwed_change {env : Env} {s t : World} {e : Event} (hs : Inv env s)
    (hp : PayoutsOwed s.db) (h : Change env s e t) : PayoutsOwed t.db := by
  have hg := grows_change h
  have hmono : ∀ (db : Db) (p : Payout), Grows db t.db →
      (∃ i ∈ db.intents, i.id = p.intentID ∧ p.amountIDR = i.amountIDR) →
      ∃ i ∈ t.db.intents, i.id = p.intentID ∧ p.amountIDR = i.amountIDR := by
    rintro db p hg ⟨i, hi, hid, hamount⟩
    obtain ⟨i', hi', hterms⟩ := hg.intent hi
    obtain ⟨hid', hamount', -⟩ := terms_eq hterms
    exact ⟨i', hi', hid'.trans hid, hamount.trans hamount'.symm⟩
  intro p hpmem
  rcases ledger_change h with ⟨-, heq⟩ | ⟨w, run, began, rail, hw, hdb⟩
  · exact hmono s.db p hg (hp p (heq ▸ hpmem))
  · obtain ⟨past, hf, hpast⟩ := hs.finished hw
    obtain ⟨ps, hpayouts, hps, hpaid⟩ := (writes_finished (hs.sound.view_unique w) hf).payouts
    rw [hdb, hpayouts] at hpmem
    rcases List.mem_append.mp hpmem with hpmem | hpmem
    · exact hmono s.db p hg (hp p hpmem)
    · split at hpaid
      · obtain ⟨db, hdb', intent, hread, hamount⟩ := hpaid.2 p hpmem
        obtain ⟨hi, hid⟩ := Table.mem_of_find hread
        exact hmono db p ((hpast db hdb').2.trans hg)
          ⟨intent, hi, hid.trans (hps p hpmem).1.symm, hamount⟩
      · rw [hpaid] at hpmem
        cases hpmem

/-- What the step has computed is the mid value, and the spread is what it exceeds the amount by. -/
theorem mid_of_spreadOf {db : Db} {i : PaymentIntent} {quote : Quote} {po : Payout}
    {midIDR spreadIDR : Int} (hkeys : db.keys.Nodup) (hissued : Issued db i)
    (hq : quote ∈ db.quotes) (hid : quote.id = i.quoteID) (hpaid : po.amountIDR = i.amountIDR)
    (h : SpreadOf i po quote midIDR spreadIDR) :
    midIDR = midValue i.quotedAmountUSDC quote ∧ spreadIDR = midIDR - i.amountIDR ∧
      0 ≤ spreadIDR := by
  obtain ⟨hmid, hspread, hnonneg⟩ := h
  obtain ⟨-, hpos, hrange, q, hqmem, hqid, hscale, hmax, hquote⟩ := hissued
  obtain rfl := Table.eq_of_mem (Db.quote_ids_nodup hkeys) hq hqmem (hid.trans hqid.symm)
  obtain ⟨-, hnum, -, -, hquoted, -, -⟩ := Quoter.quoteAmount_eq_ok hmax hquote
  have heq := @Quoter.computeMidIDR_eq _ ⟨quote.rateNum, quote.rateScale⟩ hquoted.le hnum.le hscale
  rw [← hmid] at heq
  change midIDR = if midValue i.quotedAmountUSDC quote < 2 ^ 63 then
    midValue i.quotedAmountUSDC quote else 0 at heq
  rw [hpaid] at hspread
  have hvalue : 0 ≤ midValue i.quotedAmountUSDC quote :=
    Int.ediv_nonneg (mul_nonneg hquoted.le hnum.le) (by positivity)
  -- A value out of range would make the spread the negative of the amount.
  have hwrap : wrap64 (midIDR - i.amountIDR) = midIDR - i.amountIDR := by
    refine wrap64_of_isInt64 ?_
    unfold IsInt64 at hrange ⊢
    split at heq <;> omega
  rw [hwrap] at hspread
  refine ⟨?_, hspread, hnonneg⟩
  split at heq <;> omega

/-! ## Settlements -/

section Entries

variable {db : Db} {created : List Ledger.Creation} {intentID : UUID}

/-- An entry that is recorded was created by a step. -/
theorem exists_creation_of_recorded {ref : String} (hmade : Ledger.MadeBy db.ledger created)
    (h : Recorded db ref) : ∃ c ∈ created, c.row ∈ db.ledger.entries ∧
      c.row = c.entry.params.row c.row.id ∧ c.entry.externalRef = ref := by
  obtain ⟨e, he, rfl⟩ := h
  obtain ⟨c, hc, rfl, hrow⟩ := hmade.exists_creation he
  exact ⟨c, hc, he, hrow, (congrArg Ledger.JournalEntry.externalRef hrow).symm⟩

/-- An intent all of whose references are recorded has the three entries and no other. -/
theorem contributed_of_recorded (hkeys : db.keys.Nodup) (h : MadeBySteps db)
    (hrecorded : ∀ ref ∈ intentRefs intentID, Recorded db ref) :
    ∃ e₁ e₂ e₃, (StepEntry db e₁ ∧ e₁.externalRef = creditDepositRef intentID ∧
        ∃ row ∈ db.ledger.entries, row = e₁.params.row row.id) ∧
      (StepEntry db e₂ ∧ e₂.externalRef = fxSwapRef intentID) ∧
      (StepEntry db e₃ ∧ e₃.externalRef = payoutDisbursedRef intentID) ∧
      ∀ a, Ledger.contributed db.ledger intentID a =
        Ledger.linesTo e₁.lines a + (Ledger.linesTo e₂.lines a + Ledger.linesTo e₃.lines a) := by
  obtain ⟨created, hmade, hsteps⟩ := h
  obtain ⟨c₁, hc₁, hrow, heq, href₁⟩ := exists_creation_of_recorded hmade
    (hrecorded (creditDepositRef intentID) (by simp [intentRefs]))
  obtain ⟨c₂, hc₂, -, -, href₂⟩ := exists_creation_of_recorded hmade
    (hrecorded (fxSwapRef intentID) (by simp [intentRefs]))
  obtain ⟨c₃, hc₃, -, -, href₃⟩ := exists_creation_of_recorded hmade
    (hrecorded (payoutDisbursedRef intentID) (by simp [intentRefs]))
  refine ⟨c₁.entry, c₂.entry, c₃.entry, ⟨hsteps c₁ hc₁, href₁, c₁.row, hrow, heq⟩,
    ⟨hsteps c₂ hc₂, href₂⟩, ⟨hsteps c₃ hc₃, href₃⟩, fun a => ?_⟩
  have hrefs : [c₁, c₂, c₃].map (fun c => c.entry.externalRef) = intentRefs intentID := by
    simp [intentRefs, href₁, href₂, href₃]
  have hnodup : (intentRefs intentID).Nodup := by
    simp [intentRefs, creditDepositRef_ne_fxSwapRef, creditDepositRef_ne_payoutDisbursedRef,
      fxSwapRef_ne_payoutDisbursedRef]
  have hintent₁ : c₁.entry.intentID = some intentID := by
    obtain ⟨_, _, _, -, -, -, -, heq⟩ := (hsteps c₁ hc₁).of_creditDepositRef href₁
    rw [heq]
    rfl
  have hintent₂ : c₂.entry.intentID = some intentID := by
    obtain ⟨_, _, _, _, -, -, -, -, heq⟩ := (hsteps c₂ hc₂).of_fxSwapRef href₂
    rw [heq]
    rfl
  have hintent₃ : c₃.entry.intentID = some intentID := by
    obtain ⟨_, _, _, _, _, _, _, _, -, -, -, -, -, -, -, -, -, heq⟩ :=
      (hsteps c₃ hc₃).of_payoutDisbursedRef href₃
    rw [heq]
    rfl
  rw [hmade.contributed_of_all (Db.ledger_keys_nodup hkeys) (hrefs ▸ hnodup) ?_ ?_]
  · simp
  · simp [hc₁, hc₂, hc₃, hintent₁, hintent₂, hintent₃]
  · intro c hc hid
    obtain ⟨id, hid', href⟩ := (hsteps c hc).intentRefs
    rw [hrefs]
    rwa [Option.some.inj (hid'.symm.trans hid)] at href

end Entries

/-- In every reachable state in which a saga is completed, a deposit was credited for its intent,
and the entries of the intent contribute to every account exactly what the credited deposit, the
terms of the intent and the mid value of its quoted amount give. -/
theorem settlement_contributes {env : Env} {s : World} (h : Reachable env anyStep s)
    (hchart : Charted s.db) {r : SagaRun} (hr : r ∈ s.db.sagas) (hdone : r.state = .completed)
    {i : PaymentIntent} (hi : i ∈ s.db.intents) (hid : i.id = r.intentID) {quote : Quote}
    (hquote : quote ∈ s.db.quotes) (hquoteID : quote.id = i.quoteID) :
    (∃ p ∈ s.db.payments, Credited s.db i.id p) ∧
      ∀ p ∈ s.db.payments, Credited s.db i.id p → ∀ a ∈ s.db.ledger.accounts,
        Ledger.contributed s.db.ledger i.id a = settlementEffect p.amount i.quotedAmountUSDC
          (midValue i.quotedAmountUSDC quote) i.amountIDR a := by
  obtain ⟨hinv, howed⟩ := h.induct (P := fun s => PayoutsOwed s.db)
    (fun _ _ _ => by simp [PayoutsOwed, World.init, TxState.init])
    fun _ _ _ hs hp _ hst => payoutsOwed_change hs hp (step_change hst)
  have hkeys := hinv.sound.unique
  have hissued := h.issued.issued i hi
  have hrecorded : ∀ ref ∈ intentRefs i.id, Recorded s.db ref := by
    intro ref href
    rw [hid] at href
    rcases List.mem_cons.mp href with rfl | href
    · exact h.postings.rows r hr .creditDeposit (.inl hdone) _ (List.mem_singleton_self _)
    · exact h.postings.rows r hr .applyPayoutResult (.inl hdone) ref href
  obtain ⟨e₁, e₂, e₃, ⟨hstep₁, href₁, row, hrow, heq⟩, ⟨hstep₂, href₂⟩, ⟨hstep₃, href₃⟩, hsum⟩ :=
    contributed_of_recorded hkeys h.postings.made hrecorded
  obtain ⟨deposit, hotWallet, userFunds, hdeposit, -, hhotWallet, huserFunds, rfl⟩ :=
    hstep₁.of_creditDepositRef href₁
  obtain ⟨i₂, po₂, userFunds', settlement, hi₂, hid₂, huserFunds', hsettlement, rfl⟩ :=
    hstep₂.of_fxSwapRef href₂
  obtain ⟨i₃, quote₃, midIDR, spreadIDR, po, expense, cashOut, revenue, hi₃, hid₃, hquote₃,
    hquoteID₃, hspread, ⟨p₃, hp₃, hpid, hamount⟩, hexpense, hcashOut, hrevenue, rfl⟩ :=
    hstep₃.of_payoutDisbursedRef href₃
  have hintents := Db.intent_ids_nodup hkeys
  obtain rfl := Table.eq_of_mem hintents hi₂ hi hid₂
  obtain rfl := Table.eq_of_mem hintents hi₃ hi hid₃
  obtain rfl := Table.eq_of_mem (Db.quote_ids_nodup hkeys) hquote₃ hquote
    (hquoteID₃.trans hquoteID.symm)
  have hpaid : po.amountIDR = i₃.amountIDR := by
    obtain ⟨i', hi', hid', howed⟩ := howed p₃ hp₃
    rw [← hamount, howed, Table.eq_of_mem hintents hi' hi (hid'.trans hpid)]
  obtain ⟨hmid, hspread, hnonneg⟩ := mid_of_spreadOf hkeys hissued hquote hquoteID hpaid hspread
  have hcredited : Credited s.db i₃.id deposit := ⟨row, hrow, by rw [heq]; exact ⟨rfl, rfl⟩⟩
  refine ⟨⟨deposit, hdeposit, hcredited⟩, fun p hp hp' a ha => ?_⟩
  rw [hp'.eq hkeys hcredited hp hdeposit, hsum a, hpaid, ← hmid, ← settlementEffect_eq, ← hspread,
    linesTo_creditDeposit hkeys hchart ha hhotWallet huserFunds,
    linesTo_fxSwap hkeys hchart ha huserFunds' hsettlement,
    linesTo_payoutDisbursed hkeys hchart ha hexpense hcashOut hrevenue _ _ _ hnonneg]

theorem settlement_contributes_settled : ∃ s, Reachable smallEnv anyStep s ∧
    s.db.sagas.map SagaRun.state = [.completed] ∧ ∀ a ∈ s.db.ledger.accounts,
      Ledger.contributed s.db.ledger 3 a = settlementEffect 61847 61847 1005 1000 a := by
  obtain ⟨s, hs, hstate, hchart, ⟨r, hr, hdone, hintent⟩, hamount, i, hi, hid, hquoted, hidr, quote,
    hquote, hquoteID, hmid⟩ : ∃ s,
      runIf (World.step smallEnv) anyStep smallWorld settled = some s ∧
        s.db.sagas.map SagaRun.state = [.completed] ∧ Charted s.db ∧
        (∃ r ∈ s.db.sagas, r.state = .completed ∧ r.intentID = 3) ∧
        (∀ p ∈ s.db.payments, p.amount = 61847) ∧
        ∃ i ∈ s.db.intents, i.id = 3 ∧ i.quotedAmountUSDC = 61847 ∧ i.amountIDR = 1000 ∧
          ∃ quote ∈ s.db.quotes, quote.id = i.quoteID ∧ midValue i.quotedAmountUSDC quote = 1005 :=
    exists_of_any (by decide +kernel)
  have h := reachable_of_runIf hs
  obtain ⟨⟨p, hp, hcredited⟩, hall⟩ := settlement_contributes h hchart hr hdone hi
    (hid.trans hintent.symm) hquote hquoteID
  refine ⟨s, h, hstate, fun a ha => ?_⟩
  have heffect := hall p hp hcredited a ha
  rwa [hmid, hamount p hp, hquoted, hidr, hid] at heffect

end Selatpay.Settlement
