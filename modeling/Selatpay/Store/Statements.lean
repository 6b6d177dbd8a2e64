import Selatpay.Store.Schema

/-!
# Statements of the settlement steps

Each statement is executed on the database its transaction sees and reports a row
or an error together with the effects it leaves in the log. `now` is the start of
the transaction, which is what `NOW()` returns throughout it; `uuid` is the id a
statement generates if it inserts a row.
-/

namespace Selatpay.Store

/-- The statements issued by steps inside their transaction, ledger statements apart. -/
inductive Op
  | getPaymentIntentByID (id : UUID)
  | getFinalizedDepositForIntent (intentID : UUID)
  | getMerchantByID (id : UUID)
  | getQuote (id : UUID)
  | getPayoutByIntent (intentID : UUID)
  | upsertPayout (intentID : UUID) (rail : String) (amountIDR : Int)
  | changePayout (id : UUID) (c : PayoutChange)
  | updatePaymentIntentState (id : UUID) (state : IntentState)
  | publishOutbox (topic : String) (aggregateID : Option UUID) (payload : CompletedEvent)
      (headers : List (String × String))
  | advanceSagaStep (id : UUID) (step : StepName)
  | completeSagaRun (id : UUID)

/-- What each statement returns. -/
@[reducible] def Op.Row : Op → Type
  | .getPaymentIntentByID _ => PaymentIntent
  | .getFinalizedDepositForIntent _ => OnchainPayment
  | .getMerchantByID _ => Merchant
  | .getQuote _ => Quote
  | .getPayoutByIntent _ => Payout
  | .upsertPayout _ _ _ => Payout
  | .changePayout _ _ => Payout
  | .updatePaymentIntentState _ _ => PaymentIntent
  | .publishOutbox _ _ _ _ => OutboxRow
  | .advanceSagaStep _ _ => SagaRun
  | .completeSagaRun _ => SagaRun

/-- The reply of each statement. -/
abbrev Op.Rep (o : Op) : Type := Except DbError o.Row

/-- A query for one row. -/
def selectOne {α : Type} : Option α → Except DbError α
  | some a => .ok a
  | none => .error .noRows

/-- The earliest payments of a list, all of them if several are equally early. -/
def earliest (ps : List OnchainPayment) : List OnchainPayment :=
  ps.filter fun p => ps.all fun q => p.createdAt ≤ q.createdAt

/-- `LIMIT 1` of rows that come in no particular order. -/
def pick {α : Type} (choice : UUID) (rows : List α) : Option α :=
  rows[choice.toNat % rows.length]?

theorem mem_of_earliest {ps : List OnchainPayment} {p : OnchainPayment} (h : p ∈ earliest ps) :
    p ∈ ps :=
  (List.mem_filter.mp h).1

theorem earliest_eq_nil_iff {ps : List OnchainPayment} : earliest ps = [] ↔ ps = [] := by
  constructor
  · intro hnil
    cases hmin : ps.argmin OnchainPayment.createdAt with
    | none => exact List.argmin_eq_none.mp hmin
    | some p =>
      have hle : ∀ q ∈ ps, p.createdAt ≤ q.createdAt := fun q hq => List.le_of_mem_argmin hq hmin
      have hmem : p ∈ earliest ps :=
        List.mem_filter.mpr ⟨List.argmin_mem hmin, by simpa using hle⟩
      rw [hnil] at hmem
      cases hmem
  · rintro rfl
    rfl

section Pick

variable {α : Type} {rows : List α}

theorem mem_of_pick {choice : UUID} {a : α} (h : pick choice rows = some a) : a ∈ rows :=
  List.mem_of_getElem? h

theorem pick_eq_none_iff {choice : UUID} : pick choice rows = none ↔ rows = [] := by
  cases rows with
  | nil => simp [pick]
  | cons a rows => simpa [pick] using Nat.mod_lt _ (Nat.succ_pos _)

/-- Any of the rows can be the one that is returned. -/
theorem exists_pick (hlength : rows.length ≤ 2 ^ 128) {a : α} (ha : a ∈ rows) :
    ∃ choice, pick choice rows = some a := by
  obtain ⟨i, hi, rfl⟩ := List.getElem_of_mem ha
  refine ⟨BitVec.ofNat 128 i, ?_⟩
  have hchoice : (BitVec.ofNat 128 i).toNat % rows.length = i := by
    rw [BitVec.toNat_ofNat, Nat.mod_eq_of_lt (hi.trans_le hlength), Nat.mod_eq_of_lt hi]
  rw [pick, hchoice, List.getElem?_eq_getElem hi]

end Pick

/-- The finalized deposits linked to an intent. -/
def Db.finalizedDeposits (db : Db) (intentID : UUID) : List OnchainPayment :=
  db.payments.filter fun p => p.intentID = some intentID ∧ p.commitment = .finalized

/-- No transaction of a step writes to the payments. -/
@[simp] theorem view_payments (db : Db) (log : List Effect) :
    (db.view log).payments = db.payments := by
  induction log generalizing db with
  | nil => rfl
  | cons e log ih =>
    rw [Db.view_cons, ih]
    cases e <;> rfl

@[simp] theorem view_finalizedDeposits (db : Db) (log : List Effect) (intentID : UUID) :
    (db.view log).finalizedDeposits intentID = db.finalizedDeposits intentID := by
  simp [Db.finalizedDeposits]

/-- The payout row `UpsertPayout` inserts. -/
def newPayout (uuid intentID : UUID) (rail : String) (amountIDR : Int) : Payout :=
  ⟨uuid, intentID, rail, amountIDR, .pending, none, none, 0⟩

/-- Execute a statement on the database its transaction sees. -/
def Op.exec (db : Db) (now : Time) (uuid : UUID) : (o : Op) → o.Rep × List Effect
  | .getPaymentIntentByID id => (selectOne (Table.find PaymentIntent.id db.intents id), [])
  | .getFinalizedDepositForIntent intentID =>
    -- Nothing is generated here, so the id is free to decide between equally early rows.
    (selectOne (pick uuid (earliest (db.finalizedDeposits intentID))), [])
  | .getMerchantByID id => (selectOne (Table.find Merchant.id db.merchants id), [])
  | .getQuote id => (selectOne (Table.find Quote.id db.quotes id), [])
  | .getPayoutByIntent intentID => (selectOne (Table.find Payout.intentID db.payouts intentID), [])
  | .upsertPayout intentID rail amountIDR =>
    if amountIDR ≤ 0 then (.error (.failed "payouts_amount_idr_check"), [])
    else match Table.find Payout.intentID db.payouts intentID with
      | some row => (.ok row, [])
      | none =>
        if Table.find PaymentIntent.id db.intents intentID = none then
          (.error (.failed "payouts_intent_id_fkey"), [])
        else
          (.ok (newPayout uuid intentID rail amountIDR),
            [.insertPayout (newPayout uuid intentID rail amountIDR)])
  | .changePayout id c =>
    match Table.find Payout.id db.payouts id with
    | some row => (.ok (row.change c), [.changePayout id c])
    | none => (.error .noRows, [])
  | .updatePaymentIntentState id state =>
    match Table.find PaymentIntent.id db.intents id with
    | some row => (.ok (row.setState state now), [.setIntentState id state now])
    | none => (.error .noRows, [])
  | .publishOutbox topic aggregateID payload headers =>
    (.ok ⟨uuid, topic, aggregateID, payload, headers⟩,
      [.insertOutbox ⟨uuid, topic, aggregateID, payload, headers⟩])
  | .advanceSagaStep id step =>
    match Table.find SagaRun.id db.sagas id with
    | some row => (.ok (row.change (.advance step now)), [.changeSaga id (.advance step now)])
    | none => (.error .noRows, [])
  | .completeSagaRun id =>
    match Table.find SagaRun.id db.sagas id with
    | some row => (.ok (row.change .complete), [.changeSaga id .complete])
    | none => (.error .noRows, [])

/-- The keys a statement locks until its transaction ends: those it inserts, the row it updates,
and for an upsert the key its conflict is decided on. -/
def Op.locks (uuid : UUID) : Op → List Key
  | .upsertPayout intentID _ _ => [.id uuid, .payoutIntent intentID]
  | .changePayout id _ => [.id id]
  | .updatePaymentIntentState id _ => [.id id]
  | .publishOutbox _ _ _ _ => [.id uuid]
  | .advanceSagaStep id _ => [.id id]
  | .completeSagaRun id => [.id id]
  | _ => []

theorem mem_keys_payoutIntent {db : Db} {intentID : UUID} :
    .payoutIntent intentID ∈ db.keys ↔ ∃ p ∈ db.payouts, p.intentID = intentID := by
  simp [Db.keys, Db.rowKeys, PaymentIntent.keys, SagaRun.keys, Payout.keys, eq_comm]

/-- What a statement inserts: at most one row, with the generated id, new to the view. -/
theorem exec_keys {db : Db} {now : Time} {uuid : UUID} {o : Op} {r : o.Rep} {es : List Effect}
    (h : o.exec db now uuid = (r, es)) : engine.logKeys es = [] ∨
      engine.logKeys es = o.locks uuid ∧
        (engine.logKeys es).Nodup ∧ ∀ k ∈ engine.logKeys es, k = .id uuid ∨ k ∉ db.keys := by
  cases o with
  | upsertPayout intentID rail amountIDR =>
    simp only [Op.exec] at h
    split at h
    · cases h
      exact .inl rfl
    cases hf : Table.find Payout.intentID db.payouts intentID with
    | some row =>
      simp only [hf] at h
      cases h
      exact .inl rfl
    | none =>
      simp only [hf] at h
      split at h
      · cases h
        exact .inl rfl
      · cases h
        rw [Table.find_eq_none_iff] at hf
        refine .inr ⟨rfl, by simp [Engine.logKeys, engine, Effect.keys, Payout.keys], ?_⟩
        intro k hk
        simp only [Engine.logKeys, engine, Effect.keys, Payout.keys, newPayout, List.flatMap_cons,
          List.flatMap_nil, List.append_nil, List.mem_cons, List.not_mem_nil, or_false] at hk
        rcases hk with rfl | rfl
        · exact .inl rfl
        · refine .inr fun hmem => ?_
          obtain ⟨p, hp, hid⟩ := mem_keys_payoutIntent.mp hmem
          exact hf p hp hid
  | publishOutbox topic aggregateID payload headers =>
    cases h
    refine .inr ⟨rfl, by simp [Engine.logKeys, engine, Effect.keys], ?_⟩
    intro k hk
    simp only [Engine.logKeys, engine, Effect.keys, List.flatMap_cons, List.flatMap_nil,
      List.append_nil, List.mem_singleton] at hk
    exact .inl hk
  | getPaymentIntentByID id => cases h; exact .inl rfl
  | getFinalizedDepositForIntent intentID => cases h; exact .inl rfl
  | getMerchantByID id => cases h; exact .inl rfl
  | getQuote id => cases h; exact .inl rfl
  | getPayoutByIntent intentID => cases h; exact .inl rfl
  | changePayout id c => simp only [Op.exec] at h; split at h <;> cases h <;> exact .inl rfl
  | updatePaymentIntentState id state =>
    simp only [Op.exec] at h; split at h <;> cases h <;> exact .inl rfl
  | advanceSagaStep id step => simp only [Op.exec] at h; split at h <;> cases h <;> exact .inl rfl
  | completeSagaRun id => simp only [Op.exec] at h; split at h <;> cases h <;> exact .inl rfl

end Selatpay.Store
