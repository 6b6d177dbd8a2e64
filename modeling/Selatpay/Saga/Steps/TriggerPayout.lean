import Selatpay.Saga.Types

/-!
# The step `trigger_payout`

The step upserts the payout row of the intent, calls the rail unless the row is
already resolved, and records the outcome in the same transaction. The rail call
is keyed on the id of the row. An execution that returned either found a succeeded
row or inserted its own and marked it succeeded.
-/

namespace Selatpay.Saga

open Store Prog

/-- `MockIDRBankName`. -/
def mockIDRBankName : String := "mock_idr_bank"

/-- A text in double quotes. -/
def quoted (s : String) : String := "\"" ++ s ++ "\""

/-- An empty text is stored as null. -/
def nullableString (s : String) : Option String := if s = "" then none else some s

/-- A column that is neither null nor empty. -/
def required (m : Merchant) (column : String) : Option String → Except GoError String
  | none => .error (.new ("merchant " ++ m.id.text ++ " missing " ++ column))
  | some s =>
    if s = "" then .error (.new ("merchant " ++ m.id.text ++ " missing " ++ column)) else .ok s

/-- The bank coordinates of a merchant. -/
def recipientFromMerchant (m : Merchant) : Except GoError Recipient := do
  let bankCode ← required m "bank_code" m.bankCode
  let accountNumber ← required m "bank_account_number" m.bankAccountNumber
  let accountName ← required m "bank_account_name" m.bankAccountName
  return ⟨bankCode, accountNumber, accountName⟩

/-- `Router.Get` on the registered rail names. -/
def railGet (rails : List String) (name : String) : Except GoError String :=
  if name ∈ rails then .ok name
  else .error (.new ("payout: unknown rail: " ++ quoted name))

/-- Move a funded intent on and hand over to the next step. -/
def advanceIntentToSettling (intent : PaymentIntent) : StepM StepResult := do
  moveIntent intent.id intent .funded .settling "trigger_payout: advance state"
  return some .applyPayoutResult

/-- The request sent to the rail; its idempotency key is the id of the payout row. -/
def submitRequest (run : Run) (intent : PaymentIntent) (recipient : Recipient) (po : Payout) :
    SubmitRequest where
  payoutID := po.id
  intentID := run.intentID
  amountIDR := po.amountIDR
  recipient := recipient
  memo := "selatpay/" ++ intent.externalRef
  idempotency := po.id.text

/-- Record what the rail answered. -/
def recordOutcome (run : Run) (intent : PaymentIntent) (po : Payout) (result : SubmitResult) :
    StepM StepResult :=
  match result.outcome with
  | .success => do
    let _ ← (sql (.changePayout po.id (.succeeded (nullableString result.railReference)))).orThrow
      fun e => .wrap "trigger_payout: mark succeeded" (.db e)
    advanceIntentToSettling intent
  | .retry => do
    let errMsg := "rail retry: " ++ result.message
    let _ ← (sql (.changePayout po.id (.pending (nullableString errMsg)))).orThrow
      fun e => .wrap "trigger_payout: reset pending" (.db e)
    .throw (.new errMsg)
  | .permanent => do
    let errMsg := if result.message = "" then "rail permanently rejected payout" else result.message
    let _ ← (sql (.changePayout po.id (.failed (nullableString errMsg)))).orThrow
      fun e => .wrap "trigger_payout: mark failed" (.db e)
    let _ ← (sql (.updatePaymentIntentState run.intentID .failed)).orThrow
      fun e => .wrap "trigger_payout: fail intent" (.db e)
    .throw (.terminal (.new errMsg))
  | .other code =>
    .throw (.terminal (.new ("trigger_payout: unknown outcome " ++ (Outcome.other code).text)))

/-- Submit an unresolved payout. -/
def submitPayout (rails : List String) (run : Run) (intent : PaymentIntent) (recipient : Recipient)
    (po : Payout) : StepM StepResult :=
  match railGet rails po.rail with
  | .error err => .throw (.terminal (.wrap "trigger_payout" err))
  | .ok _ => do
    let _ ← (sql (.changePayout po.id .submitting)).orThrow
      fun e => .wrap "trigger_payout: mark submitting" (.db e)
    match ← submit (submitRequest run intent recipient po) with
    | .error msg => .throw (.wrap "trigger_payout: rail submit" (.new msg))
    | .ok result => recordOutcome run intent po result

/-- What to do with the payout row that was upserted. -/
def resolvePayout (rails : List String) (run : Run) (intent : PaymentIntent)
    (recipient : Recipient) (po : Payout) : StepM StepResult :=
  match po.state with
  | .succeeded => advanceIntentToSettling intent
  | .failed =>
    .throw (.terminal (.new ("trigger_payout: payout already failed: " ++ po.lastError.getD "")))
  | .pending => submitPayout rails run intent recipient po
  | .submitting => submitPayout rails run intent recipient po

/-- `TriggerPayout.Execute`. -/
def triggerPayout (rails : List String) (run : Run) : StepM StepResult := do
  let intent ← (sql (.getPaymentIntentByID run.intentID)).orThrow fun
    | .noRows => .terminal (.new ("trigger_payout: intent " ++ run.intentID.text ++ " not found"))
    | e => .wrap "trigger_payout: load intent" (.db e)
  let merchant ← (sql (.getMerchantByID intent.merchantID)).orThrow
    fun e => .wrap "trigger_payout: load merchant" (.db e)
  match recipientFromMerchant merchant with
  | .error err => .throw (.terminal (.wrap "trigger_payout" err))
  | .ok recipient => do
    let po ← (sql (.upsertPayout run.intentID mockIDRBankName intent.amountIDR)).orThrow
      fun e => .wrap "trigger_payout: upsert payout" (.db e)
    resolvePayout rails run intent recipient po

/-! ## What an execution has done -/

/-- Every committed payout succeeded. -/
def PaidOut (db : Db) : Prop := ∀ p ∈ db.payouts, p.state = .succeeded

/-- The row an execution past the upsert works on: a succeeded one, or a new one of its own. -/
inductive Upserted (h : List Db) (run : Run) (amountIDR : Int) : Payout → List Effect → Prop
  | found {db : Db} {po : Payout} : db ∈ h →
      Table.find Payout.intentID db.payouts run.intentID = some po → po.state = .succeeded →
      Upserted h run amountIDR po []
  | inserted (uuid : UUID) :
      Upserted h run amountIDR (newPayout uuid run.intentID mockIDRBankName amountIDR)
        [.insertPayout (newPayout uuid run.intentID mockIDRBankName amountIDR)]

section Executions

variable {rails : List String} {run : Run} {now : Time} {h : List Db} {m : List Effect}
  {q : StepM StepResult}

/-- An execution past the upsert has read the intent and goes on with the row it got. -/
theorem triggerPayout_past (hs : Steps (Respond now) (triggerPayout rails run) [] h q m)
    (hq : q.Outside NoRail) (hpaid : ∀ db ∈ h, PaidOut db) :
    ∃ intent recipient po es h', h' ⊆ h ∧
      (∃ db ∈ h, Table.find PaymentIntent.id db.intents run.intentID = some intent) ∧
      Upserted h run intent.amountIDR po es ∧
      Steps (Respond now) (resolvePayout rails run intent recipient po) es h' q m := by
  simp only [triggerPayout, bind_eq] at hs
  obtain ⟨db₁, h₁, _, intent, _, rfl, hintent, hs₁⟩ := sql_past hs hq
  obtain ⟨db₂, h₂, _, merchant, _, rfl, hmerchant, hs₂⟩ := sql_past hs₁ hq
  simp only [Op.exec, Prod.mk.injEq, selectOne_eq_ok] at hintent hmerchant
  obtain ⟨hintent, rfl⟩ := hintent
  obtain ⟨-, rfl⟩ := hmerchant
  cases hrec : recipientFromMerchant merchant with
  | error err =>
    simp only [hrec] at hs₂
    exact (throw_past hs₂ hq).elim
  | ok recipient =>
    simp only [hrec] at hs₂
    obtain ⟨db₃, h₃, uuid, po, es, rfl, hpo, hs₃⟩ := sql_past hs₂ hq
    refine ⟨intent, recipient, po, es, h₃, fun db hdb => by simp [hdb], ⟨db₁, by simp, hintent⟩,
      ?_, by simpa using hs₃⟩
    simp only [Op.exec, List.append_nil, Db.view_nil] at hpo
    split at hpo
    · cases hpo
    cases hf : Table.find Payout.intentID db₃.payouts run.intentID with
    | some row =>
      simp only [hf] at hpo
      cases hpo
      exact .found (by simp) hf (hpaid db₃ (by simp) _ (Table.mem_of_find hf).1)
    | none =>
      simp only [hf] at hpo
      split at hpo
      · cases hpo
      · cases hpo
        exact .inserted uuid

/-- An execution past the last move has returned. -/
theorem advanceIntentToSettling_past {intent : PaymentIntent} {l : List Effect}
    (hs : Steps (Respond now) (advanceIntentToSettling intent) l h q m) (hq : q.Outside NoRail) :
    q = .ret (some .applyPayoutResult) ∧ m = l ++ moved intent.id intent .funded .settling now := by
  obtain ⟨h₁, h₂, rfl, hs'⟩ := moveIntent_past hs hq
  rw [pure_eq, steps_ret_iff] at hs'
  exact ⟨hs'.2.1, hs'.2.2⟩

/-- An execution past the answer of the rail has returned, and the rail had confirmed. -/
theorem recordOutcome_past {intent : PaymentIntent} {po : Payout} {result : SubmitResult}
    {l : List Effect} (hs : Steps (Respond now) (recordOutcome run intent po result) l h q m)
    (hq : q.Outside NoRail) : q = .ret (some .applyPayoutResult) ∧ ∃ ref,
      m = l ++ [.changePayout po.id (.succeeded ref)] ++
        moved intent.id intent .funded .settling now := by
  unfold recordOutcome at hs
  split at hs
  · obtain ⟨db, h', _, row, es, rfl, hexec, hs'⟩ := sql_past hs hq
    simp only [Op.exec] at hexec
    split at hexec <;> cases hexec
    obtain ⟨hret, hm⟩ := advanceIntentToSettling_past hs' hq
    exact ⟨hret, _, hm⟩
  · obtain ⟨db, h', _, row, es, rfl, hexec, hs'⟩ := sql_past hs hq
    exact (throw_past hs' hq).elim
  · obtain ⟨db, h', _, row, es, rfl, hexec, hs'⟩ := sql_past hs hq
    obtain ⟨db', h'', _, row', es', rfl, hexec', hs''⟩ := sql_past hs' hq
    exact (throw_past hs'' hq).elim
  · exact (throw_past hs hq).elim

/-- An execution past the mark of its row stands at the rail, or the rail has confirmed. -/
theorem submitPayout_past {intent : PaymentIntent} {recipient : Recipient} {po : Payout}
    {l : List Effect}
    (hs : Steps (Respond now) (submitPayout rails run intent recipient po) l h q m)
    (hq : q.Outside NoRail) :
    (∃ k, q = .call (.submit (submitRequest run intent recipient po)) k ∧
      m = l ++ [.changePayout po.id .submitting]) ∨
    q = .ret (some .applyPayoutResult) ∧ ∃ ref,
      m = l ++ [.changePayout po.id .submitting, .changePayout po.id (.succeeded ref)] ++
        moved intent.id intent .funded .settling now := by
  unfold submitPayout at hs
  split at hs
  · exact (throw_past hs hq).elim
  · obtain ⟨db, h', _, row, es, rfl, hexec, hs'⟩ := sql_past hs hq
    simp only [Op.exec] at hexec
    split at hexec <;> cases hexec
    simp only [bind_eq, query, call_bind, ret_bind] at hs'
    rw [steps_call_iff] at hs'
    obtain ⟨-, rfl, rfl⟩ | ⟨db', h'', r, es, rfl, hr, hk⟩ := hs'
    · exact .inl ⟨_, rfl, rfl⟩
    · have hes : es = [] := by
        obtain ⟨input, hinput⟩ := hr
        cases input <;> cases hinput
        rfl
      subst hes
      cases r with
      | error msg => exact (throw_past hk hq).elim
      | ok result =>
        obtain ⟨hret, ref, rfl⟩ := recordOutcome_past hk hq
        exact .inr ⟨hret, ref, by simp⟩

/-- An execution that stands at the rail inserted the payout row its key names. -/
theorem triggerPayout_submit {req : SubmitRequest} {k : RailAnswer → StepM StepResult}
    (hs : Steps (Respond now) (triggerPayout rails run) [] h (.call (.submit req) k) m)
    (hpaid : ∀ db ∈ h, PaidOut db) : req.intentID = run.intentID ∧
      ∃ row, .insertPayout row ∈ m ∧ row.intentID = run.intentID ∧
        req.idempotency = row.id.text := by
  obtain ⟨intent, recipient, po, es, h', -, -, hpo, hs'⟩ :=
    triggerPayout_past hs outside_submit hpaid
  cases hpo with
  | found hdb hfind hstate =>
    rw [resolvePayout, hstate] at hs'
    cases (advanceIntentToSettling_past hs' outside_submit).1
  | inserted uuid =>
    obtain ⟨k', hk, rfl⟩ | ⟨hret, -⟩ := submitPayout_past hs' outside_submit
    · cases hk
      exact ⟨rfl, _, by simp, rfl, rfl⟩
    · cases hret

/-- What a returned execution did: it found a succeeded row, or inserted one and the rail
confirmed. -/
theorem triggerPayout_ret {res : StepResult}
    (hs : Steps (Respond now) (triggerPayout rails run) [] h (.ret res) m)
    (hpaid : ∀ db ∈ h, PaidOut db) : res = some .applyPayoutResult ∧ ∃ intent,
      (∃ db ∈ h, Table.find PaymentIntent.id db.intents run.intentID = some intent) ∧
      ((∃ db ∈ h, ∃ po, Table.find Payout.intentID db.payouts run.intentID = some po) ∧
          m = moved intent.id intent .funded .settling now ∨
        ∃ uuid ref, m =
          [.insertPayout (newPayout uuid run.intentID mockIDRBankName intent.amountIDR),
          .changePayout uuid .submitting, .changePayout uuid (.succeeded ref)] ++
            moved intent.id intent .funded .settling now) := by
  obtain ⟨intent, recipient, po, es, h', -, hintent, hpo, hs'⟩ :=
    triggerPayout_past hs (outside_ret _) hpaid
  cases hpo with
  | found hdb hfind hstate =>
    rw [resolvePayout, hstate] at hs'
    obtain ⟨hret, rfl⟩ := advanceIntentToSettling_past hs' (outside_ret _)
    cases hret
    exact ⟨rfl, intent, hintent, .inl ⟨⟨_, hdb, po, hfind⟩, by simp⟩⟩
  | inserted uuid =>
    obtain ⟨k, hk, -⟩ | ⟨hret, ref, rfl⟩ := submitPayout_past hs' (outside_ret _)
    · cases hk
    · cases hret
      exact ⟨rfl, intent, hintent, .inr ⟨uuid, ref, by simp [newPayout]⟩⟩

end Executions

end Selatpay.Saga
