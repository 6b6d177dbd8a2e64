import Selatpay.Saga.Types

/-!
# The step `credit_deposit`

The step books the finalized deposit as USDC owed to the merchant and moves the
intent from `pending` to `funded`.
-/

namespace Selatpay.Saga

open Store Prog

/-- `AccountHotWalletUSDC`. -/
def accountHotWalletUSDC : String := "asset_hot_wallet_usdc"

/-- `AccountLiabilityUserFunds`. -/
def accountLiabilityUserFunds : String := "liability_user_funds_usdc"

/-- `CurrencyUSDC`. -/
def currencyUSDC : String := "USDC"

/-- The external reference of the deposit entry. -/
def creditDepositRef (intentID : UUID) : String := "credit_deposit:" ++ intentID.text

@[simp] theorem creditDepositRef_inj {i j : UUID} :
    creditDepositRef i = creditDepositRef j ↔ i = j := append_text_inj _

/-- The entry that books a deposit. -/
def creditDepositEntry (intentID : UUID) (deposit : OnchainPayment) (hotWallet userFunds : UUID) :
    Ledger.Entry where
  externalRef := creditDepositRef intentID
  kind := "deposit_credit"
  description := "USDC deposit finalized for intent " ++ intentID.text ++ " (sig " ++
    deposit.signature ++ ")"
  intentID := some intentID
  lines := [⟨hotWallet, deposit.amount, currencyUSDC, .debit⟩,
    ⟨userFunds, deposit.amount, currencyUSDC, .credit⟩]

/-- `CreditDeposit.Execute`. -/
def creditDeposit (run : Run) : StepM StepResult := do
  let intent ← (sql (.getPaymentIntentByID run.intentID)).orThrow fun
    | .noRows => .terminal (.new ("credit_deposit: intent " ++ run.intentID.text ++ " not found"))
    | e => .wrap "credit_deposit: load intent" (.db e)
  let deposit ← (sql (.getFinalizedDepositForIntent run.intentID)).orThrow fun
    | .noRows => .new ("credit_deposit: no finalized deposit for intent " ++ run.intentID.text)
    | e => .wrap "credit_deposit: load deposit" (.db e)
  let hotWallet ← (ledger (Ledger.getAccountByCodeTx accountHotWalletUSDC currencyUSDC)).mapErr
    fun e => .terminal (.wrap "credit_deposit: hot wallet account" e)
  let userFunds ← (ledger (Ledger.getAccountByCodeTx accountLiabilityUserFunds
    currencyUSDC)).mapErr fun e => .terminal (.wrap "credit_deposit: liability account" e)
  let _ ← (ledger (Ledger.postTx (creditDepositEntry run.intentID deposit hotWallet.id
    userFunds.id))).mapErr fun e => .wrap "credit_deposit: post journal" e
  moveIntent run.intentID intent .pending .funded "credit_deposit: advance intent state"
  return some .triggerPayout

/-- What a returned execution did: it posted the entry and moved the intent it had read. -/
theorem creditDeposit_ret {run : Run} {now : Time} {h : List Db} {res : StepResult}
    {m : List Effect} (hs : Steps (Respond now) (creditDeposit run) [] h (.ret res) m) :
    res = some .triggerPayout ∧ ∃ intent deposit hotWallet userFunds es,
      (∃ db ∈ h, Table.find PaymentIntent.id db.intents run.intentID = some intent) ∧
      (∃ db ∈ h, deposit ∈ earliest (db.finalizedDeposits run.intentID)) ∧
      Resolved h accountHotWalletUSDC currencyUSDC hotWallet ∧
      Resolved h accountLiabilityUserFunds currencyUSDC userFunds ∧
      Posted h [] (creditDepositEntry run.intentID deposit hotWallet.id userFunds.id) es ∧
      m = es.map .ledger ++ moved run.intentID intent .pending .funded now := by
  simp only [creditDeposit, bind_eq] at hs
  obtain ⟨db₁, h₁, _, intent, _, rfl, hintent, hs₁⟩ := sql_past hs (outside_ret _)
  obtain ⟨db₂, h₂, _, deposit, _, rfl, hdeposit, hs₂⟩ := sql_past hs₁ (outside_ret _)
  simp only [Op.exec, Prod.mk.injEq, selectOne_eq_ok] at hintent hdeposit
  obtain ⟨hintent, rfl⟩ := hintent
  obtain ⟨hdeposit, rfl⟩ := hdeposit
  obtain ⟨hotWallet, h₃, h₄, rfl, hhot, hs₃⟩ := account_past hs₂ (outside_ret _)
  obtain ⟨userFunds, h₅, h₆, rfl, huser, hs₄⟩ := account_past hs₃ (outside_ret _)
  obtain ⟨j, es, h₇, h₈, rfl, hpost, hs₅⟩ := post_past hs₄ (outside_ret _)
  obtain ⟨h₉, h₁₀, rfl, hs₆⟩ := moveIntent_past hs₅ (outside_ret _)
  rw [pure_eq, steps_ret_iff] at hs₆
  obtain ⟨rfl, hres, rfl⟩ := hs₆
  cases hres
  refine ⟨rfl, intent, deposit, hotWallet, userFunds, es, ⟨db₁, by simp, by simpa using hintent⟩,
    ⟨db₂, by simp, by simpa using mem_of_pick hdeposit⟩, hhot.mono ?_, huser.mono ?_,
    hpost.mono ?_, by simp⟩
  all_goals
    intro db hdb
    simp [hdb]

/-- The error of an intent without a finalized deposit. -/
def noFinalizedDeposit (intentID : UUID) : GoError :=
  .new ("credit_deposit: no finalized deposit for intent " ++ intentID.text)

/-- Where there always is a finalized deposit, the step does not fail for want of one. -/
theorem creditDeposit_throw {run : Run} {now : Time} {h : List Db} {e : GoError}
    {m : List Effect} (hs : Steps (Respond now) (creditDeposit run) [] h (.throw e) m)
    (hdeposit : ∀ db ∈ h, db.finalizedDeposits run.intentID ≠ []) :
    e ≠ noFinalizedDeposit run.intentID := by
  simp only [creditDeposit, bind_eq] at hs
  obtain hs | ⟨intent, h₁, h₂, n, rfl, hintent, hs⟩ := hs.of_bind_throw
  · obtain ⟨db, d, es, -, -, rfl⟩ := sql_throw hs
    cases d <;> simp [noFinalizedDeposit]
  clear hintent
  obtain hs | ⟨deposit, h₃, h₄, n, rfl, -, hs⟩ := hs.of_bind_throw
  · obtain ⟨db, d, es, rfl, ⟨input, hanswer⟩, rfl⟩ := sql_throw hs
    cases d with
    | failed msg => simp [noFinalizedDeposit]
    | unique => simp [noFinalizedDeposit]
    | noRows =>
      cases input with
      | fail msg => cases hanswer
      | rail answer => cases hanswer
      | row uuid =>
        have hnone : pick uuid (earliest (db.finalizedDeposits run.intentID)) = none := by
          cases hpick : pick uuid (earliest (db.finalizedDeposits run.intentID)) with
          | none => rfl
          | some p => simp [Call.answer, Op.exec, selectOne, hpick] at hanswer
        have hnil := earliest_eq_nil_iff.mp (pick_eq_none_iff.mp hnone)
        exact absurd hnil (hdeposit db (by simp))
  obtain hs | ⟨hotWallet, h₅, h₆, n, rfl, -, hs⟩ := hs.of_bind_throw
  · obtain ⟨_, -, rfl⟩ := hs.of_mapErr_throw
    simp [noFinalizedDeposit]
  obtain hs | ⟨userFunds, h₇, h₈, n, rfl, -, hs⟩ := hs.of_bind_throw
  · obtain ⟨_, -, rfl⟩ := hs.of_mapErr_throw
    simp [noFinalizedDeposit]
  obtain hs | ⟨_, h₉, h₁₀, n, rfl, -, hs⟩ := hs.of_bind_throw
  · obtain ⟨_, -, rfl⟩ := hs.of_mapErr_throw
    simp [noFinalizedDeposit]
  obtain hs | ⟨_, h₁₁, h₁₂, n, rfl, -, hs⟩ := hs.of_bind_throw
  · unfold moveIntent at hs
    split at hs
    · obtain hs | ⟨_, _, _, n, -, -, hs⟩ := hs.of_bind_throw
      · obtain ⟨db, d, es, -, -, rfl⟩ := sql_throw hs
        simp [noFinalizedDeposit]
      · simp at hs
    · simp at hs
  · simp at hs

/-- The step never calls the rail. -/
theorem creditDeposit_calls (run : Run) : (creditDeposit run).Calls NoRail := by
  unfold creditDeposit
  refine (sql_calls _).orThrow.bind fun intent => ?_
  refine (sql_calls _).orThrow.bind fun deposit => ?_
  refine (ledger_calls _).mapErr.bind fun hotWallet => ?_
  refine (ledger_calls _).mapErr.bind fun userFunds => ?_
  refine (ledger_calls _).mapErr.bind fun _ => ?_
  exact (moveIntent_calls _ _ _ _ _).bind fun _ => .ret _

end Selatpay.Saga
