import Selatpay.Ledger.System

/-!
# Tables of the settlement path

The rows of `merchants`, `quotes`, `payment_intents`, `onchain_payments`,
`saga_runs`, `payouts` and `outbox` next to the ledger tables. A transaction's log
is a list of effects on these tables; `engine` is the store seen as a collection
of unique keys. A table is kept in insertion order.
-/

namespace Selatpay.Store

/-- An instant. -/
abbrev Time := Int

/-- A Solana public key. -/
abbrev PublicKey := BitVec 256

/-- `payment_intent_state`. -/
inductive IntentState
  | pending | funded | settling | paidOut | completed | expired | failed
  deriving DecidableEq, Repr

/-- `payout_state`. -/
inductive PayoutState
  | pending | submitting | succeeded | failed
  deriving DecidableEq, Repr

/-- `saga_state`. -/
inductive SagaState
  | pending | running | completed | failed
  deriving DecidableEq, Repr

/-- `solana_commitment`, in the order of the enumeration. -/
inductive Commitment
  | processed | confirmed | finalized
  deriving DecidableEq, Repr

/-- The saga families; there is one. -/
inductive Kind
  | settlement
  deriving DecidableEq, Repr

/-- The steps of the settlement saga, the values of `current_step`. -/
inductive StepName
  | creditDeposit | triggerPayout | applyPayoutResult | emitCompleted
  deriving DecidableEq, Repr

/-- The text of an intent state. -/
def IntentState.text : IntentState → String
  | .pending => "pending"
  | .funded => "funded"
  | .settling => "settling"
  | .paidOut => "paid_out"
  | .completed => "completed"
  | .expired => "expired"
  | .failed => "failed"

/-- The text of a payout state. -/
def PayoutState.text : PayoutState → String
  | .pending => "pending"
  | .submitting => "submitting"
  | .succeeded => "succeeded"
  | .failed => "failed"

/-- The text of a step name. -/
def StepName.text : StepName → String
  | .creditDeposit => "credit_deposit"
  | .triggerPayout => "trigger_payout"
  | .applyPayoutResult => "apply_payout_result"
  | .emitCompleted => "emit_completed"

/-- The position of a commitment in its enumeration. -/
def Commitment.rank : Commitment → Nat
  | .processed => 0
  | .confirmed => 1
  | .finalized => 2

/-! ## Rows -/

/-- A row of `merchants`: the bank coordinates of a payout. -/
structure Merchant where
  id : UUID
  bankCode : Option String
  bankAccountNumber : Option String
  bankAccountName : Option String
  deriving DecidableEq, Repr

/-- A row of `quotes`. -/
structure Quote where
  id : UUID
  rateNum : Int
  rateScale : Int
  spreadBps : Int
  expiresAt : Time
  deriving DecidableEq, Repr

/-- A row of `payment_intents`. -/
structure PaymentIntent where
  id : UUID
  merchantID : UUID
  externalRef : String
  amountIDR : Int
  quotedAmountUSDC : Int
  quoteID : UUID
  referencePubkey : Option PublicKey
  state : IntentState
  updatedAt : Time
  deriving DecidableEq, Repr

/-- A row of `onchain_payments`. -/
structure OnchainPayment where
  signature : String
  slot : Int
  blockTime : Option Time
  fromAta : PublicKey
  toAta : PublicKey
  mint : PublicKey
  amount : Int
  referencePubkey : Option PublicKey
  commitment : Commitment
  intentID : Option UUID
  createdAt : Time
  deriving DecidableEq, Repr

/-- A row of `saga_runs`. -/
structure SagaRun where
  id : UUID
  intentID : UUID
  sagaKind : Kind
  currentStep : StepName
  state : SagaState
  stepAttempts : Int
  nextRunAt : Time
  leaseOwner : Option String
  leaseUntil : Option Time
  lastError : Option String
  deriving DecidableEq, Repr

/-- A row of `payouts`. -/
structure Payout where
  id : UUID
  intentID : UUID
  rail : String
  amountIDR : Int
  state : PayoutState
  railReference : Option String
  lastError : Option String
  attempts : Int
  deriving DecidableEq, Repr

/-- The payload of `intent.completed`. -/
structure CompletedEvent where
  schema : String
  intentID : String
  merchantID : String
  externalRef : String
  state : String
  amountIDR : Int
  amountUSDC : Int
  occurredAt : Time
  deriving DecidableEq, Repr

/-- A row of `outbox`. -/
structure OutboxRow where
  id : UUID
  topic : String
  aggregateID : Option UUID
  payload : CompletedEvent
  headers : List (String × String)
  deriving DecidableEq, Repr

/-- The committed database. -/
structure Db where
  ledger : Ledger.Tables
  merchants : List Merchant
  quotes : List Quote
  intents : List PaymentIntent
  payments : List OnchainPayment
  sagas : List SagaRun
  payouts : List Payout
  outbox : List OutboxRow
  deriving DecidableEq, Repr

/-! ## Updates of rows -/

/-- The updates of a payout row. -/
inductive PayoutChange
  | submitting
  | succeeded (railReference : Option String)
  | failed (lastError : Option String)
  | pending (lastError : Option String)
  deriving DecidableEq, Repr

/-- `MarkPayoutSubmitting`, `MarkPayoutSucceeded`, `MarkPayoutFailed`, `ResetPayoutToPending`. -/
def Payout.change (p : Payout) : PayoutChange → Payout
  | .submitting => { p with state := .submitting, attempts := p.attempts + 1 }
  | .succeeded ref => { p with state := .succeeded, railReference := ref, lastError := none }
  | .failed err => { p with state := .failed, lastError := err }
  | .pending err => { p with state := .pending, lastError := err }

/-- The updates of a saga row made inside the step transaction. -/
inductive SagaChange
  | advance (step : StepName) (now : Time)
  | complete
  deriving DecidableEq, Repr

/-- `AdvanceSagaStep` and `CompleteSagaRun`. -/
def SagaRun.change (r : SagaRun) : SagaChange → SagaRun
  | .advance step now =>
    { r with
      currentStep := step, state := .pending, stepAttempts := 0, nextRunAt := now,
      leaseOwner := none, leaseUntil := none, lastError := none }
  | .complete =>
    { r with state := .completed, leaseOwner := none, leaseUntil := none, lastError := none }

/-- The update of `ClaimDueSagaRun`. -/
def SagaRun.claim (r : SagaRun) (owner : String) (leaseUntil : Time) : SagaRun :=
  { r with state := .running, leaseOwner := some owner, leaseUntil := some leaseUntil }

/-- `ScheduleSagaRetry`. -/
def SagaRun.retry (r : SagaRun) (nextRunAt : Time) (lastError : String) : SagaRun :=
  { r with
    stepAttempts := r.stepAttempts + 1, state := .pending, nextRunAt := nextRunAt,
    leaseOwner := none, leaseUntil := none, lastError := some lastError }

/-- `FailSagaRun`. -/
def SagaRun.fail (r : SagaRun) (lastError : String) : SagaRun :=
  { r with state := .failed, leaseOwner := none, leaseUntil := none, lastError := some lastError }

/-- `UpdatePaymentIntentState`. -/
def PaymentIntent.setState (i : PaymentIntent) (state : IntentState) (now : Time) : PaymentIntent :=
  { i with state := state, updatedAt := now }

/-- A row inserted or updated by a step transaction. -/
inductive Effect
  | ledger (e : Ledger.Effect)
  | insertPayout (row : Payout)
  | changePayout (id : UUID) (c : PayoutChange)
  | setIntentState (id : UUID) (state : IntentState) (now : Time)
  | insertOutbox (row : OutboxRow)
  | changeSaga (id : UUID) (c : SagaChange)
  deriving DecidableEq, Repr

/-- Apply one effect. -/
def Db.apply (db : Db) : Effect → Db
  | .ledger e => { db with ledger := db.ledger.apply e }
  | .insertPayout row => { db with payouts := db.payouts ++ [row] }
  | .changePayout id c =>
    { db with payouts := Table.update Payout.id db.payouts id (·.change c) }
  | .setIntentState id state now =>
    { db with intents := Table.update PaymentIntent.id db.intents id (·.setState state now) }
  | .insertOutbox row => { db with outbox := db.outbox ++ [row] }
  | .changeSaga id c => { db with sagas := Table.update SagaRun.id db.sagas id (·.change c) }

/-- The database a transaction with this log sees. -/
def Db.view (db : Db) (log : List Effect) : Db := log.foldl Db.apply db

@[simp] theorem Db.view_nil (db : Db) : db.view [] = db := rfl

@[simp] theorem Db.view_cons (db : Db) (e : Effect) (log : List Effect) :
    db.view (e :: log) = (db.apply e).view log := rfl

@[simp] theorem Db.view_append (db : Db) (l m : List Effect) :
    db.view (l ++ m) = (db.view l).view m := List.foldl_append

/-! ## Unique keys -/

/-- The keys under a unique constraint; the key of an `id` also serves as the lock of its row. -/
inductive Key
  | ledger (k : Ledger.Key)
  | merchantRef (merchantID : UUID) (externalRef : String)
  | signature (signature : String)
  | sagaIntent (intentID : UUID) (kind : Kind)
  | payoutIntent (intentID : UUID)
  deriving DecidableEq, Repr

/-- The key of an `id`. -/
abbrev Key.id (uuid : UUID) : Key := .ledger (.id uuid)

/-- The unique keys of an intent. -/
def PaymentIntent.keys (i : PaymentIntent) : List Key :=
  [.id i.id, .merchantRef i.merchantID i.externalRef]

/-- The unique keys of a saga run. -/
def SagaRun.keys (r : SagaRun) : List Key := [.id r.id, .sagaIntent r.intentID r.sagaKind]

/-- The unique keys of a payout. -/
def Payout.keys (p : Payout) : List Key := [.id p.id, .payoutIntent p.intentID]

/-- The unique keys of the settlement tables. -/
def Db.rowKeys (db : Db) : List Key :=
  (db.merchants.map (Key.id ·.id) ++ db.quotes.map (Key.id ·.id)) ++
    (db.intents.flatMap PaymentIntent.keys ++ (db.payments.map (Key.signature ·.signature) ++
      (db.sagas.flatMap SagaRun.keys ++ (db.payouts.flatMap Payout.keys ++
        db.outbox.map (Key.id ·.id)))))

/-- The unique keys of the database. -/
def Db.keys (db : Db) : List Key := db.ledger.keys.map .ledger ++ db.rowKeys

/-- The unique keys an effect inserts. -/
def Effect.keys : Effect → List Key
  | .ledger e => e.keys.map .ledger
  | .insertPayout row => row.keys
  | .insertOutbox row => [.id row.id]
  | .changePayout _ _ => []
  | .setIntentState _ _ _ => []
  | .changeSaga _ _ => []

/-- An effect adds its keys and removes none. -/
theorem Db.keys_apply (db : Db) (e : Effect) : (db.apply e).keys.Perm (db.keys ++ e.keys) := by
  rw [List.perm_iff_count]
  intro k
  cases e with
  | ledger e =>
    have h := ((db.ledger.keys_apply e).map Key.ledger).count_eq k
    simp only [List.map_append, List.count_append] at h
    simp only [Db.keys, Db.rowKeys, Db.apply, Effect.keys, List.count_append, h]
    omega
  | insertPayout row =>
    simp only [Db.keys, Db.rowKeys, Db.apply, Effect.keys, List.count_append, List.flatMap_append,
      List.flatMap_singleton]
    omega
  | insertOutbox row =>
    simp only [Db.keys, Db.rowKeys, Db.apply, Effect.keys, List.count_append, List.map_append,
      List.map_cons, List.map_nil]
    omega
  | changePayout id c =>
    have h : ∀ r : Payout, (r.change c).keys = r.keys := by intro r; cases c <;> rfl
    simp [Db.keys, Db.rowKeys, Db.apply, Effect.keys, Table.flatMap_update h]
  | setIntentState id state now =>
    have h : ∀ r : PaymentIntent, (r.setState state now).keys = r.keys := fun r => rfl
    simp [Db.keys, Db.rowKeys, Db.apply, Effect.keys, Table.flatMap_update h]
  | changeSaga id c =>
    have h : ∀ r : SagaRun, (r.change c).keys = r.keys := by intro r; cases c <;> rfl
    simp [Db.keys, Db.rowKeys, Db.apply, Effect.keys, Table.flatMap_update h]

/-- The database as a store of unique keys. -/
def engine : Engine Db Effect Key where
  apply := Db.apply
  dbKeys := Db.keys
  effKeys := Effect.keys
  dbKeys_apply := Db.keys_apply

@[simp] theorem engine_view (db : Db) (log : List Effect) : engine.view db log = db.view log := rfl

@[simp] theorem engine_dbKeys (db : Db) : engine.dbKeys db = db.keys := rfl

section Columns

variable {db : Db}

/-- The rows of one table have unique keys when the whole database has. -/
theorem Db.rowKeys_nodup (h : db.keys.Nodup) : db.rowKeys.Nodup := (List.nodup_append'.mp h).2.1

/-- The ledger has unique keys. -/
theorem Db.ledger_keys_nodup (h : db.keys.Nodup) : db.ledger.keys.Nodup :=
  .of_map _ (List.nodup_append'.mp h).1

theorem Db.intent_keys_nodup (h : db.keys.Nodup) : (db.intents.flatMap PaymentIntent.keys).Nodup :=
  (List.nodup_append'.mp (List.nodup_append'.mp (Db.rowKeys_nodup h)).2.1).1

theorem Db.saga_keys_nodup (h : db.keys.Nodup) : (db.sagas.flatMap SagaRun.keys).Nodup :=
  (List.nodup_append'.mp (List.nodup_append'.mp (List.nodup_append'.mp
    (List.nodup_append'.mp (Db.rowKeys_nodup h)).2.1).2.1).2.1).1

theorem Db.payout_keys_nodup (h : db.keys.Nodup) : (db.payouts.flatMap Payout.keys).Nodup :=
  (List.nodup_append'.mp (List.nodup_append'.mp (List.nodup_append'.mp (List.nodup_append'.mp
    (List.nodup_append'.mp (Db.rowKeys_nodup h)).2.1).2.1).2.1).2.1).1

/-- No two quotes share an id. -/
theorem Db.quote_ids_nodup (h : db.keys.Nodup) : (db.quotes.map Quote.id).Nodup := by
  have hkeys := (List.nodup_append'.mp (List.nodup_append'.mp (Db.rowKeys_nodup h)).1).2.1
  have hmap : db.quotes.map (Key.id ·.id) = (db.quotes.map Quote.id).map Key.id := by simp
  rw [hmap] at hkeys
  exact .of_map _ hkeys

/-- No two intents share an id. -/
theorem Db.intent_ids_nodup (h : db.keys.Nodup) : (db.intents.map PaymentIntent.id).Nodup :=
  Table.nodup_column Key.id (fun i => by simp [PaymentIntent.keys]) (Db.intent_keys_nodup h)

/-- No two payments share a signature. -/
theorem Db.signatures_nodup (h : db.keys.Nodup) :
    (db.payments.map OnchainPayment.signature).Nodup := by
  have hkeys := (List.nodup_append'.mp (List.nodup_append'.mp
    (List.nodup_append'.mp (Db.rowKeys_nodup h)).2.1).2.1).1
  have hmap : db.payments.map (Key.signature ·.signature) =
      (db.payments.map OnchainPayment.signature).map Key.signature := by simp
  rw [hmap] at hkeys
  exact .of_map _ hkeys

/-- No two saga runs share an id. -/
theorem Db.saga_ids_nodup (h : db.keys.Nodup) : (db.sagas.map SagaRun.id).Nodup :=
  Table.nodup_column Key.id (fun r => by simp [SagaRun.keys]) (Db.saga_keys_nodup h)

/-- An intent has at most one saga run of a kind. -/
theorem Db.saga_intents_nodup (h : db.keys.Nodup) :
    (db.sagas.map fun r => (r.intentID, r.sagaKind)).Nodup :=
  Table.nodup_column (fun c => Key.sagaIntent c.1 c.2) (fun r => by simp [SagaRun.keys])
    (Db.saga_keys_nodup h)

/-- No two payouts share an id. -/
theorem Db.payout_ids_nodup (h : db.keys.Nodup) : (db.payouts.map Payout.id).Nodup :=
  Table.nodup_column Key.id (fun p => by simp [Payout.keys]) (Db.payout_keys_nodup h)

/-- An intent has at most one payout. -/
theorem Db.payout_intents_nodup (h : db.keys.Nodup) : (db.payouts.map Payout.intentID).Nodup :=
  Table.nodup_column Key.payoutIntent (fun p => by simp [Payout.keys]) (Db.payout_keys_nodup h)

end Columns

end Selatpay.Store
