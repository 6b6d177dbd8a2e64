import Selatpay.Quoter.Amount
import Selatpay.Saga.Steps.CreditDeposit

/-!
# The step `apply_payout_result`

After the rail has confirmed, the step books the released USDC and the disbursed
rupiah as two entries and moves the intent from `settling` to `paid_out`. A mid
value below the paid amount stops the saga before anything is booked.
-/

namespace Selatpay.Saga

open Store Prog

/-- `AccountEquityFXSettlement`. -/
def accountEquityFXSettlement : String := "equity_fx_settlement_usdc"

/-- `AccountExpenseFXSwapIDR`. -/
def accountExpenseFXSwapIDR : String := "expense_fx_swap_idr"

/-- `AccountCashOutIDR`. -/
def accountCashOutIDR : String := "asset_cash_out_idr"

/-- `AccountRevenueFXSpreadIDR`. -/
def accountRevenueFXSpreadIDR : String := "revenue_fx_spread_idr"

/-- `CurrencyIDR`. -/
def currencyIDR : String := "IDR"

/-- The external reference of the USDC entry. -/
def fxSwapRef (intentID : UUID) : String := "fx_swap_usdc:" ++ intentID.text

/-- The external reference of the rupiah entry. -/
def payoutDisbursedRef (intentID : UUID) : String := "payout_disbursed:" ++ intentID.text

@[simp] theorem fxSwapRef_inj {i j : UUID} : fxSwapRef i = fxSwapRef j ↔ i = j :=
  append_text_inj _

@[simp] theorem payoutDisbursedRef_inj {i j : UUID} :
    payoutDisbursedRef i = payoutDisbursedRef j ↔ i = j := append_text_inj _

theorem creditDepositRef_ne_fxSwapRef (i j : UUID) : creditDepositRef i ≠ fxSwapRef j :=
  append_ne_append (c := 'c') (d := 'f') (by decide) (by decide) (by decide)

theorem creditDepositRef_ne_payoutDisbursedRef (i j : UUID) :
    creditDepositRef i ≠ payoutDisbursedRef j :=
  append_ne_append (c := 'c') (d := 'p') (by decide) (by decide) (by decide)

theorem fxSwapRef_ne_payoutDisbursedRef (i j : UUID) : fxSwapRef i ≠ payoutDisbursedRef j :=
  append_ne_append (c := 'f') (d := 'p') (by decide) (by decide) (by decide)

/-- The entry that releases the USDC obligation. -/
def fxSwapEntry (intentID : UUID) (amountUSDC : Int) (po : Payout) (userFunds settlement : UUID) :
    Ledger.Entry where
  externalRef := fxSwapRef intentID
  kind := "fx_swap_usdc"
  description := "USDC obligation released for intent " ++ intentID.text ++ " (payout " ++
    po.id.text ++ ")"
  intentID := some intentID
  lines := [⟨userFunds, amountUSDC, currencyUSDC, .debit⟩,
    ⟨settlement, amountUSDC, currencyUSDC, .credit⟩]

/-- The entry that books the disbursement; a zero spread has no revenue line. -/
def payoutDisbursedEntry (intentID : UUID) (midIDR paidIDR spreadIDR : Int) (po : Payout)
    (expense cashOut revenue : UUID) : Ledger.Entry where
  externalRef := payoutDisbursedRef intentID
  kind := "payout_disbursed"
  description := "IDR payout " ++ po.id.text ++ " for intent " ++ intentID.text ++ " (mid=" ++
    toString midIDR ++ " paid=" ++ toString paidIDR ++ " spread=" ++ toString spreadIDR ++ ")"
  intentID := some intentID
  lines := [⟨expense, midIDR, currencyIDR, .debit⟩, ⟨cashOut, paidIDR, currencyIDR, .credit⟩] ++
    if spreadIDR > 0 then [⟨revenue, spreadIDR, currencyIDR, .credit⟩] else []

/-- Book the USDC side. -/
def postFXSwapUSDC (intentID : UUID) (amountUSDC : Int) (po : Payout) : StepM Unit := do
  let settlement ← (ledger (Ledger.getAccountByCodeTx accountEquityFXSettlement
    currencyUSDC)).mapErr
      fun e => .terminal (.wrap "apply_payout_result: equity_fx_settlement account" e)
  let userFunds ← (ledger (Ledger.getAccountByCodeTx accountLiabilityUserFunds
    currencyUSDC)).mapErr fun e => .terminal (.wrap "apply_payout_result: user funds account" e)
  let _ ← (ledger (Ledger.postTx (fxSwapEntry intentID amountUSDC po userFunds.id
    settlement.id))).mapErr fun e => .wrap "apply_payout_result: post fx_swap_usdc" e
  return ()

/-- Book the rupiah side. -/
def postPayoutDisbursedIDR (intentID : UUID) (midIDR paidIDR spreadIDR : Int) (po : Payout) :
    StepM Unit := do
  let expense ← (ledger (Ledger.getAccountByCodeTx accountExpenseFXSwapIDR currencyIDR)).mapErr
    fun e => .terminal (.wrap "apply_payout_result: expense_fx_swap account" e)
  let cashOut ← (ledger (Ledger.getAccountByCodeTx accountCashOutIDR currencyIDR)).mapErr
    fun e => .terminal (.wrap "apply_payout_result: cash_out account" e)
  let revenue ← (ledger (Ledger.getAccountByCodeTx accountRevenueFXSpreadIDR currencyIDR)).mapErr
    fun e => .terminal (.wrap "apply_payout_result: revenue account" e)
  let _ ← (ledger (Ledger.postTx (payoutDisbursedEntry intentID midIDR paidIDR spreadIDR po
    expense.id cashOut.id revenue.id))).mapErr
      fun e => .wrap "apply_payout_result: post payout_disbursed" e
  return ()

/-- Book both sides and move the intent, once the payout is known to have succeeded. -/
def settlePayout (run : Run) (intent : PaymentIntent) (po : Payout) (quote : Quote) :
    StepM StepResult :=
  let midIDR := Quoter.computeMidIDR intent.quotedAmountUSDC quote.rateNum quote.rateScale
  let spreadIDR := wrap64 (midIDR - po.amountIDR)
  if spreadIDR < 0 then
    .throw (.terminal (.new ("apply_payout_result: negative spread (mid=" ++ toString midIDR ++
      " paid=" ++ toString po.amountIDR ++ ")")))
  else do
    postFXSwapUSDC run.intentID intent.quotedAmountUSDC po
    postPayoutDisbursedIDR run.intentID midIDR po.amountIDR spreadIDR po
    moveIntent run.intentID intent .settling .paidOut "apply_payout_result: advance state"
    return some .emitCompleted

/-- `ApplyPayoutResult.Execute`. -/
def applyPayoutResult (run : Run) : StepM StepResult := do
  let intent ← (sql (.getPaymentIntentByID run.intentID)).orThrow
    fun e => .wrap "apply_payout_result: load intent" (.db e)
  let po ← (sql (.getPayoutByIntent run.intentID)).orThrow fun
    | .noRows => .terminal (.new ("apply_payout_result: payout missing for intent " ++
        run.intentID.text))
    | e => .wrap "apply_payout_result: load payout" (.db e)
  if po.state ≠ .succeeded then
    .throw (.terminal (.new ("apply_payout_result: payout state " ++ po.state.text)))
  else do
    let quote ← (sql (.getQuote intent.quoteID)).orThrow
      fun e => .wrap "apply_payout_result: load quote" (.db e)
    settlePayout run intent po quote

/-! ## What an execution has done -/

/-- The value of a quoted amount at the mid rate, and what it leaves over the amount paid. -/
def SpreadOf (intent : PaymentIntent) (po : Payout) (quote : Quote) (midIDR spreadIDR : Int) :
    Prop :=
  midIDR = Quoter.computeMidIDR intent.quotedAmountUSDC quote.rateNum quote.rateScale ∧
    spreadIDR = wrap64 (midIDR - po.amountIDR) ∧ 0 ≤ spreadIDR

section Executions

variable {run : Run} {now : Time} {h : List Db} {l m : List Effect}

theorem postFXSwapUSDC_ret {intentID : UUID} {amountUSDC : Int} {po : Payout}
    (hs : Steps (Respond now) (postFXSwapUSDC intentID amountUSDC po) l h (.ret ()) m) :
    ∃ settlement userFunds es, Resolved h accountEquityFXSettlement currencyUSDC settlement ∧
      Resolved h accountLiabilityUserFunds currencyUSDC userFunds ∧
      Posted h l (fxSwapEntry intentID amountUSDC po userFunds.id settlement.id) es ∧
      m = l ++ es.map .ledger := by
  simp only [postFXSwapUSDC, bind_eq] at hs
  obtain ⟨settlement, h₁, h₂, rfl, hsettlement, hs₁⟩ := account_past hs (outside_ret _)
  obtain ⟨userFunds, h₃, h₄, rfl, huser, hs₂⟩ := account_past hs₁ (outside_ret _)
  obtain ⟨j, es, h₅, h₆, rfl, hpost, hs₃⟩ := post_past hs₂ (outside_ret _)
  rw [pure_eq, steps_ret_iff] at hs₃
  obtain ⟨rfl, -, rfl⟩ := hs₃
  refine ⟨settlement, userFunds, es, hsettlement.mono ?_, huser.mono ?_, hpost.mono ?_, rfl⟩
  all_goals
    intro db hdb
    simp [hdb]

theorem postPayoutDisbursedIDR_ret {intentID : UUID} {midIDR paidIDR spreadIDR : Int} {po : Payout}
    (hs : Steps (Respond now) (postPayoutDisbursedIDR intentID midIDR paidIDR spreadIDR po) l h
      (.ret ()) m) :
    ∃ expense cashOut revenue es, Resolved h accountExpenseFXSwapIDR currencyIDR expense ∧
      Resolved h accountCashOutIDR currencyIDR cashOut ∧
      Resolved h accountRevenueFXSpreadIDR currencyIDR revenue ∧
      Posted h l (payoutDisbursedEntry intentID midIDR paidIDR spreadIDR po expense.id cashOut.id
        revenue.id) es ∧ m = l ++ es.map .ledger := by
  simp only [postPayoutDisbursedIDR, bind_eq] at hs
  obtain ⟨expense, h₁, h₂, rfl, hexp, hs₁⟩ := account_past hs (outside_ret _)
  obtain ⟨cashOut, h₃, h₄, rfl, hcash, hs₂⟩ := account_past hs₁ (outside_ret _)
  obtain ⟨revenue, h₅, h₆, rfl, hrev, hs₃⟩ := account_past hs₂ (outside_ret _)
  obtain ⟨j, es, h₇, h₈, rfl, hpost, hs₄⟩ := post_past hs₃ (outside_ret _)
  rw [pure_eq, steps_ret_iff] at hs₄
  obtain ⟨rfl, -, rfl⟩ := hs₄
  refine ⟨expense, cashOut, revenue, es, hexp.mono ?_, hcash.mono ?_, hrev.mono ?_,
    hpost.mono ?_, rfl⟩
  all_goals
    intro db hdb
    simp [hdb]

/-- What a returned execution did: it booked both sides of a succeeded payout and moved the
intent. -/
theorem applyPayoutResult_ret {res : StepResult}
    (hs : Steps (Respond now) (applyPayoutResult run) [] h (.ret res) m) :
    res = some .emitCompleted ∧
      ∃ intent po quote midIDR spreadIDR settlement userFunds expense cashOut revenue es fs,
      (∃ db ∈ h, Table.find PaymentIntent.id db.intents run.intentID = some intent) ∧
      (∃ db ∈ h, Table.find Payout.intentID db.payouts run.intentID = some po) ∧
      (∃ db ∈ h, Table.find Quote.id db.quotes intent.quoteID = some quote) ∧
      SpreadOf intent po quote midIDR spreadIDR ∧
      Resolved h accountEquityFXSettlement currencyUSDC settlement ∧
      Resolved h accountLiabilityUserFunds currencyUSDC userFunds ∧
      Resolved h accountExpenseFXSwapIDR currencyIDR expense ∧
      Resolved h accountCashOutIDR currencyIDR cashOut ∧
      Resolved h accountRevenueFXSpreadIDR currencyIDR revenue ∧
      Posted h [] (fxSwapEntry run.intentID intent.quotedAmountUSDC po userFunds.id settlement.id)
        es ∧
      Posted h (es.map .ledger) (payoutDisbursedEntry run.intentID midIDR po.amountIDR spreadIDR po
        expense.id cashOut.id revenue.id) fs ∧
      m = (es ++ fs).map .ledger ++ moved run.intentID intent .settling .paidOut now := by
  simp only [applyPayoutResult, bind_eq] at hs
  obtain ⟨db₁, h₁, _, intent, _, rfl, hintent, hs₁⟩ := sql_past hs (outside_ret _)
  obtain ⟨db₂, h₂, _, po, _, rfl, hpo, hs₂⟩ := sql_past hs₁ (outside_ret _)
  simp only [Op.exec, Prod.mk.injEq, selectOne_eq_ok] at hintent hpo
  obtain ⟨hintent, rfl⟩ := hintent
  obtain ⟨hpo, rfl⟩ := hpo
  split at hs₂
  · exact (throw_past hs₂ (outside_ret _)).elim
  obtain ⟨db₃, h₃, _, quote, _, rfl, hquote, hs₃⟩ := sql_past hs₂ (outside_ret _)
  simp only [Op.exec, Prod.mk.injEq, selectOne_eq_ok] at hquote
  obtain ⟨hquote, rfl⟩ := hquote
  unfold settlePayout at hs₃
  simp only at hs₃
  split at hs₃
  · exact (throw_past hs₃ (outside_ret _)).elim
  rename_i hspread
  simp only [bind_eq] at hs₃
  obtain ⟨⟨⟩, h₄, h₅, n, rfl, hfx, hs₄⟩ := hs₃.of_bind_ret
  obtain ⟨settlement, userFunds, es, hsettlement, huser, hes, rfl⟩ := postFXSwapUSDC_ret hfx
  obtain ⟨⟨⟩, h₆, h₇, n, rfl, hdis, hs₅⟩ := hs₄.of_bind_ret
  obtain ⟨expense, cashOut, revenue, fs, hexp, hcash, hrev, hfs, rfl⟩ :=
    postPayoutDisbursedIDR_ret hdis
  obtain ⟨h₈, h₉, rfl, hs₆⟩ := moveIntent_past hs₅ (outside_ret _)
  rw [pure_eq, steps_ret_iff] at hs₆
  obtain ⟨rfl, hres, rfl⟩ := hs₆
  cases hres
  refine ⟨rfl, intent, po, quote, _, _, settlement, userFunds, expense, cashOut, revenue, es, fs,
    ⟨db₁, by simp, by simpa using hintent⟩, ⟨db₂, by simp, by simpa using hpo⟩,
    ⟨db₃, by simp, by simpa using hquote⟩, ⟨rfl, rfl, not_lt.mp hspread⟩, hsettlement.mono ?_,
    huser.mono ?_, hexp.mono ?_, hcash.mono ?_, hrev.mono ?_, hes.mono ?_, hfs.mono ?_, by simp⟩
  all_goals
    intro db hdb
    simp [hdb]

/-- The step never calls the rail. -/
theorem applyPayoutResult_calls (run : Run) : (applyPayoutResult run).Calls NoRail := by
  unfold applyPayoutResult
  refine (sql_calls _).orThrow.bind fun intent => ?_
  refine (sql_calls _).orThrow.bind fun po => ?_
  split
  · exact .throw _
  refine (sql_calls _).orThrow.bind fun quote => ?_
  unfold settlePayout
  simp only
  split
  · exact .throw _
  refine Calls.bind ?_ fun _ => ?_
  · unfold postFXSwapUSDC
    refine (ledger_calls _).mapErr.bind fun settlement => ?_
    refine (ledger_calls _).mapErr.bind fun userFunds => ?_
    exact (ledger_calls _).mapErr.bind fun _ => .ret _
  refine Calls.bind ?_ fun _ => (moveIntent_calls _ _ _ _ _).bind fun _ => .ret _
  unfold postPayoutDisbursedIDR
  refine (ledger_calls _).mapErr.bind fun expense => ?_
  refine (ledger_calls _).mapErr.bind fun cashOut => ?_
  refine (ledger_calls _).mapErr.bind fun revenue => ?_
  exact (ledger_calls _).mapErr.bind fun _ => .ret _

end Executions

end Selatpay.Saga
