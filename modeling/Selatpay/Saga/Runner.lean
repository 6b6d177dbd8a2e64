import Selatpay.Saga.Steps.TriggerPayout
import Selatpay.Saga.Steps.ApplyPayoutResult
import Selatpay.Saga.Steps.EmitCompleted

/-!
# The runner of one saga step

`executeStep` is the program of one transaction: the step and, when it returns, the
update of the saga row. What a worker does after a failed execution is decided by
`afterFailure`; a retry is delayed by the jittered backoff.
-/

namespace Selatpay.Saga

open Store Prog

/-! ## Configuration -/

/-- The tunables of a runner, durations in nanoseconds. -/
structure Config where
  leaseDuration : Int
  maxAttempts : Int
  backoffBase : Int
  backoffMax : Int
  deriving DecidableEq, Repr

/-- `NewRunner` replaces what is not positive by its default. -/
def Config.withDefaults (c : Config) : Config where
  leaseDuration := if c.leaseDuration ≤ 0 then 60000000000 else c.leaseDuration
  maxAttempts := if c.maxAttempts ≤ 0 then 8 else c.maxAttempts
  backoffBase := if c.backoffBase ≤ 0 then 1000000000 else c.backoffBase
  backoffMax := if c.backoffMax ≤ 0 then 300000000000 else c.backoffMax

/-- A backoff schedule. -/
structure Backoff where
  base : Int
  max : Int
  deriving DecidableEq, Repr

/-- `NewBackoff`. -/
def newBackoff (base max : Int) : Backoff :=
  let base := if base ≤ 0 then 500000000 else base
  ⟨base, if max ≤ 0 ∨ max < base then 300000000000 else max⟩

/-- The doublings of `Backoff.Delay`, in `int64`. -/
def delayLoop (max : Int) : Nat → Int → Int
  | 0, candidate => candidate
  | n + 1, candidate =>
    if candidate < max then delayLoop max n (wrap64 (candidate * 2)) else candidate

/-- The window the delay before an attempt is drawn from. -/
def Backoff.candidate (b : Backoff) (attempt : Int) : Int :=
  let candidate := delayLoop b.max attempt.toNat b.base
  if candidate > b.max then b.max else candidate

/-- The delays `Backoff.Delay` may draw. -/
def Backoff.draws (b : Backoff) (attempt delay : Int) : Prop :=
  if b.candidate attempt ≤ 0 then delay = 0 else 0 ≤ delay ∧ delay < b.candidate attempt

instance (b : Backoff) (attempt delay : Int) : Decidable (b.draws attempt delay) :=
  inferInstanceAs (Decidable (ite _ _ _))

/-! ## One step -/

/-- The order of the steps. -/
def nextStep : StepName → StepResult
  | .creditDeposit => some .triggerPayout
  | .triggerPayout => some .applyPayoutResult
  | .applyPayoutResult => some .emitCompleted
  | .emitCompleted => none

/-- The step registered under a name. -/
def execute (rails : List String) (run : Run) : StepName → StepM StepResult
  | .creditDeposit => creditDeposit run
  | .triggerPayout => triggerPayout rails run
  | .applyPayoutResult => applyPayoutResult run
  | .emitCompleted => emitCompleted run

/-- Update the saga row after the step. -/
def finishStep (run : Run) : StepResult → StepM Unit
  | none => do
    let _ ← (sql (.completeSagaRun run.id)).orThrow fun e => .wrap "complete saga" (.db e)
    return ()
  | some next => do
    let _ ← (sql (.advanceSagaStep run.id next)).orThrow fun e => .wrap "advance saga" (.db e)
    return ()

/-- The program of the transaction of `executeStep`. -/
def executeStep (rails : List String) (run : Run) : StepM Unit :=
  ((execute rails run run.currentStep).mapErr
    fun e => .wrap ("step " ++ run.currentStep.text) e).bind (finishStep run)

/-- What is left to write after a failed execution. -/
inductive Decision
  | fail (cause : GoError)
  | retry (cause : GoError)
  deriving DecidableEq, Repr

/-- A terminal error or an exhausted budget fails the run, anything else is retried. -/
def afterFailure (cfg : Config) (run : Run) (err : GoError) : Decision :=
  if isTerminal err = true ∨ run.stepAttempts + 1 ≥ cfg.maxAttempts then .fail err else .retry err

/-- The delays `Tick` may draw before the retry of a run. -/
def Backoff.drawsAfter (b : Backoff) (run : Run) (delay : Int) : Prop :=
  b.draws (run.stepAttempts + 1) delay

instance (b : Backoff) (run : Run) (delay : Int) : Decidable (b.drawsAfter run delay) :=
  inferInstanceAs (Decidable (b.draws _ _))

/-! ## What an execution has done -/

/-- The update of the saga row that a result asks for. -/
def sagaChange (res : StepResult) (now : Time) : SagaChange :=
  match res with
  | none => .complete
  | some next => .advance next now

/-- What a transaction has left in its log when it is ready to commit. -/
inductive Finished (h : List Db) (run : Run) (now : Time) : List Effect → Prop
  /-- The deposit is posted and the intent funded. -/
  | creditDeposit {intent : PaymentIntent} {deposit : OnchainPayment}
      {hotWallet userFunds : Ledger.Account} {es : List Ledger.Effect}
      (hstep : run.currentStep = .creditDeposit)
      (hintent : ∃ db ∈ h, Table.find PaymentIntent.id db.intents run.intentID = some intent)
      (hpost : Posted h [] (creditDepositEntry run.intentID deposit hotWallet.id userFunds.id) es)
      (hdeposit : ∃ db ∈ h, deposit ∈ earliest (db.finalizedDeposits run.intentID))
      (hhotWallet : Resolved h accountHotWalletUSDC currencyUSDC hotWallet)
      (huserFunds : Resolved h accountLiabilityUserFunds currencyUSDC userFunds) :
      Finished h run now (es.map .ledger ++ moved run.intentID intent .pending .funded now ++
        [.changeSaga run.id (.advance .triggerPayout now)])
  /-- The payout had succeeded before. -/
  | paidBefore {intent : PaymentIntent} (hstep : run.currentStep = .triggerPayout)
      (hintent : ∃ db ∈ h, Table.find PaymentIntent.id db.intents run.intentID = some intent)
      (hpaid : ∃ db ∈ h, ∃ po, Table.find Payout.intentID db.payouts run.intentID = some po) :
      Finished h run now (moved run.intentID intent .funded .settling now ++
        [.changeSaga run.id (.advance .applyPayoutResult now)])
  /-- The rail confirmed a payout of this transaction. -/
  | paidNow {intent : PaymentIntent} {uuid : UUID} {ref : Option String}
      (hstep : run.currentStep = .triggerPayout)
      (hintent : ∃ db ∈ h, Table.find PaymentIntent.id db.intents run.intentID = some intent) :
      Finished h run now
        ([.insertPayout (newPayout uuid run.intentID mockIDRBankName intent.amountIDR),
          .changePayout uuid .submitting, .changePayout uuid (.succeeded ref)] ++
            moved run.intentID intent .funded .settling now ++
          [.changeSaga run.id (.advance .applyPayoutResult now)])
  /-- Both sides of the payout are booked. -/
  | applyPayoutResult {intent : PaymentIntent} {po : Payout} {quote : Quote}
      {midIDR spreadIDR : Int} {settlement userFunds expense cashOut revenue : Ledger.Account}
      {es fs : List Ledger.Effect} (hstep : run.currentStep = .applyPayoutResult)
      (hintent : ∃ db ∈ h, Table.find PaymentIntent.id db.intents run.intentID = some intent)
      (hpo : ∃ db ∈ h, Table.find Payout.intentID db.payouts run.intentID = some po)
      (hexpense : Resolved h accountExpenseFXSwapIDR currencyIDR expense)
      (hcashOut : Resolved h accountCashOutIDR currencyIDR cashOut)
      (hrevenue : Resolved h accountRevenueFXSpreadIDR currencyIDR revenue)
      (hfx : Posted h [] (fxSwapEntry run.intentID intent.quotedAmountUSDC po userFunds.id
        settlement.id) es)
      (hdisbursed : Posted h (es.map .ledger) (payoutDisbursedEntry run.intentID midIDR po.amountIDR
        spreadIDR po expense.id cashOut.id revenue.id) fs)
      (hsettlement : Resolved h accountEquityFXSettlement currencyUSDC settlement)
      (huserFunds : Resolved h accountLiabilityUserFunds currencyUSDC userFunds)
      (hquote : ∃ db ∈ h, Table.find Quote.id db.quotes intent.quoteID = some quote)
      (hspread : SpreadOf intent po quote midIDR spreadIDR) :
      Finished h run now ((es ++ fs).map .ledger ++
        moved run.intentID intent .settling .paidOut now ++
          [.changeSaga run.id (.advance .emitCompleted now)])
  /-- The intent is completed and the event is published. -/
  | emitCompleted {intent : PaymentIntent} {row : OutboxRow}
      (hstep : run.currentStep = .emitCompleted)
      (hintent : ∃ db ∈ h, Table.find PaymentIntent.id db.intents run.intentID = some intent)
      (htopic : row.topic = topicCompleted) (haggregate : row.aggregateID = some run.intentID) :
      Finished h run now (moved run.intentID intent .paidOut .completed now ++
        [.insertOutbox row] ++ [.changeSaga run.id .complete])

section Executions

variable {rails : List String} {run : Run} {now : Time} {h : List Db} {m : List Effect}

/-- After its step, a transaction has updated the saga row. -/
theorem finishStep_ret {res : StepResult} {l : List Effect}
    (hs : Steps (Respond now) (finishStep run res) l h (.ret ()) m) :
    m = l ++ [.changeSaga run.id (sagaChange res now)] := by
  cases res with
  | none =>
    obtain ⟨db, h', _, row, es, rfl, hexec, hs'⟩ := sql_past hs (outside_ret _)
    rw [pure_eq, steps_ret_iff] at hs'
    simp only [Op.exec] at hexec
    split at hexec <;> cases hexec
    exact hs'.2.2
  | some next =>
    obtain ⟨db, h', _, row, es, rfl, hexec, hs'⟩ := sql_past hs (outside_ret _)
    rw [pure_eq, steps_ret_iff] at hs'
    simp only [Op.exec] at hexec
    split at hexec <;> cases hexec
    exact hs'.2.2

/-- A transaction ready to commit has run its step to a result and updated the saga row. -/
theorem executeStep_ret (hs : Steps (Respond now) (executeStep rails run) [] h (.ret ()) m)
    (hpaid : ∀ db ∈ h, PaidOut db) : ∃ h', h' ⊆ h ∧ Finished h' run now m := by
  obtain ⟨res, h₁, h₂, n, rfl, hmap, hfinish⟩ := hs.of_bind_ret
  refine ⟨h₁, List.subset_append_left _ _, ?_⟩
  have hstep := hmap.of_mapErr_ret
  obtain rfl := finishStep_ret hfinish
  have hpaid₁ : ∀ db ∈ h₁, PaidOut db := fun db hdb => hpaid db (List.mem_append_left _ hdb)
  cases hcurrent : run.currentStep with
  | creditDeposit =>
    rw [hcurrent] at hstep
    obtain ⟨rfl, intent, deposit, hotWallet, userFunds, es, hintent, hdeposit, hhot, huser, hpost,
      rfl⟩ := creditDeposit_ret hstep
    exact .creditDeposit hcurrent hintent hpost hdeposit hhot huser
  | triggerPayout =>
    rw [hcurrent] at hstep
    obtain ⟨rfl, intent, ⟨db, hdb, hintent⟩, hrest⟩ := triggerPayout_ret hstep hpaid₁
    have hid : intent.id = run.intentID := (Table.mem_of_find hintent).2
    rw [hid] at hrest
    obtain ⟨hpo, rfl⟩ | ⟨uuid, ref, rfl⟩ := hrest
    · exact .paidBefore hcurrent ⟨db, hdb, hintent⟩ hpo
    · exact .paidNow hcurrent ⟨db, hdb, hintent⟩
  | applyPayoutResult =>
    rw [hcurrent] at hstep
    obtain ⟨rfl, intent, po, quote, midIDR, spreadIDR, settlement, userFunds, expense, cashOut,
      revenue, es, fs, hintent, hpo, hquote, hspread, hsettlement, huser, hexpense, hcashOut,
      hrevenue, hfx, hdisbursed, rfl⟩ := applyPayoutResult_ret hstep
    exact .applyPayoutResult hcurrent hintent hpo hexpense hcashOut hrevenue hfx hdisbursed
      hsettlement huser hquote hspread
  | emitCompleted =>
    rw [hcurrent] at hstep
    obtain ⟨rfl, intent, row, hintent, htopic, haggregate, rfl⟩ := emitCompleted_ret hstep
    exact .emitCompleted hcurrent hintent htopic haggregate

/-- An error of a transaction is one of its step, or of the update of the saga row. -/
theorem executeStep_throw {err : GoError}
    (hs : Steps (Respond now) (executeStep rails run) [] h (.throw err) m) :
    (∃ e, Steps (Respond now) (execute rails run run.currentStep) [] h (.throw e) m ∧
      err = .wrap ("step " ++ run.currentStep.text) e) ∨
        ∃ d, err = .wrap "complete saga" (.db d) ∨ err = .wrap "advance saga" (.db d) := by
  obtain hs | ⟨res, h₁, h₂, n, rfl, -, hs⟩ := hs.of_bind_throw
  · exact .inl hs.of_mapErr_throw
  · refine .inr ?_
    cases res with
    | none =>
      obtain hs | ⟨_, _, _, _, -, -, hs⟩ := hs.of_bind_throw
      · obtain ⟨-, d, -, -, -, rfl⟩ := sql_throw hs
        exact ⟨d, .inl rfl⟩
      · simp at hs
    | some next =>
      obtain hs | ⟨_, _, _, _, -, -, hs⟩ := hs.of_bind_throw
      · obtain ⟨-, d, -, -, -, rfl⟩ := sql_throw hs
        exact ⟨d, .inr rfl⟩
      · simp at hs

/-- A transaction that stands at the rail executes `trigger_payout`, and has inserted the payout
row its key names. -/
theorem executeStep_submit {req : SubmitRequest} {k : RailAnswer → StepM Unit}
    (hs : Steps (Respond now) (executeStep rails run) [] h (.call (.submit req) k) m)
    (hpaid : ∀ db ∈ h, PaidOut db) :
    run.currentStep = .triggerPayout ∧ req.intentID = run.intentID ∧
      ∃ row, .insertPayout row ∈ m ∧ row.intentID = run.intentID ∧
        req.idempotency = row.id.text := by
  have hfinish : ∀ res, (finishStep run res).Calls NoRail := by
    intro res
    cases res with
    | none => exact (sql_calls _).orThrow.bind fun _ => .ret _
    | some next => exact (sql_calls _).orThrow.bind fun _ => .ret _
  obtain ⟨p', hp', hq⟩ | ⟨res, h₁, h₂, n, rfl, hstep, hrest⟩ := hs.of_bind
  · obtain ⟨p, hp, rfl⟩ := hp'.of_mapErr
    cases p with
    | ret a =>
      have hcalls := hfinish a
      rw [show finishStep run a = call (Call.submit req) k from hq.symm] at hcalls
      exact absurd hcalls not_calls_submit
    | throw e => cases hq
    | call o k' =>
      cases hq
      cases hstep : run.currentStep with
      | creditDeposit =>
        rw [hstep] at hp
        exact absurd (hp.calls (creditDeposit_calls run)) not_calls_submit
      | triggerPayout =>
        rw [hstep] at hp
        exact ⟨rfl, triggerPayout_submit hp hpaid⟩
      | applyPayoutResult =>
        rw [hstep] at hp
        exact absurd (hp.calls (applyPayoutResult_calls run)) not_calls_submit
      | emitCompleted =>
        rw [hstep] at hp
        exact absurd (hp.calls (emitCompleted_calls run)) not_calls_submit
  · exact absurd (hrest.calls (hfinish res)) not_calls_submit

end Executions

end Selatpay.Saga
