import Selatpay.Store.Statements

/-!
# Steps as programs

A step is a program over the statements of its transaction, the ledger statements
and the call of the payout rail. `Respond` says what a call may be answered: a
statement by its execution on the current view or by a failure, the rail by
anything. The lemmas below turn an execution that returned into the rows it read
and the effects it left.
-/

namespace Selatpay.Saga

open Store Prog

/-- The snapshot of a saga row a worker takes when it claims it. -/
structure Run where
  id : UUID
  intentID : UUID
  sagaKind : Kind
  currentStep : StepName
  stepAttempts : Int
  leaseOwner : String
  deriving DecidableEq, Repr

/-- The snapshot of a row. -/
def toRun (row : SagaRun) : Run :=
  ⟨row.id, row.intentID, row.sagaKind, row.currentStep, row.stepAttempts, row.leaseOwner.getD ""⟩

/-- The next step; none after the last. -/
abbrev StepResult := Option StepName

/-- The classification of a rail submission. -/
inductive Outcome
  | success
  | retry
  | permanent
  | other (code : Int)
  deriving DecidableEq, Repr

/-- The text of an outcome. -/
def Outcome.text : Outcome → String
  | .success => "success"
  | .retry => "retry"
  | .permanent => "permanent"
  | .other _ => "unknown"

/-- The bank coordinates a rail disburses to. -/
structure Recipient where
  bankCode : String
  accountNumber : String
  accountName : String
  deriving DecidableEq, Repr

/-- What a rail is asked to pay. -/
structure SubmitRequest where
  payoutID : UUID
  intentID : UUID
  amountIDR : Int
  recipient : Recipient
  memo : String
  idempotency : String
  deriving DecidableEq, Repr

/-- What a rail returns. -/
structure SubmitResult where
  outcome : Outcome
  railReference : String
  message : String
  deriving DecidableEq, Repr

/-- A rail answers with a result or with an error of its own. -/
abbrev RailAnswer := Except String SubmitResult

/-- The calls a step makes. -/
inductive Call
  | ledger (o : Ledger.Op)
  | sql (o : Op)
  | submit (req : SubmitRequest)

/-- The reply of each call. -/
@[reducible] def Call.Rep : Call → Type
  | .ledger o => o.Rep
  | .sql o => o.Rep
  | .submit _ => RailAnswer

/-- Programs of steps. -/
abbrev StepM := Prog Call.Rep GoError

/-- Issue a statement. -/
abbrev sql (o : Op) : StepM (Except DbError o.Row) := query (Call.sql o)

/-- Call the rail. -/
abbrev submit (req : SubmitRequest) : StepM RailAnswer := query (Call.submit req)

/-- Run a ledger program inside the step's transaction. -/
def ledger {α : Type} (p : Ledger.LedgerM α) : StepM α := p.lift Call.ledger fun _ r => r

/-! ## Answers -/

/-- What the environment contributes to a call. -/
inductive Input
  /-- The statement is executed; the id is used if it inserts a row. -/
  | row (uuid : UUID)
  /-- The statement fails. -/
  | fail (msg : String)
  /-- The rail answers. -/
  | rail (answer : RailAnswer)
  deriving DecidableEq

/-- The reply and the effects of a call. -/
def Call.answer (db : Db) (now : Time) : (c : Call) → Input → Option (c.Rep × List Effect)
  | .ledger o, .row uuid =>
    some ((o.exec db.ledger uuid).1, (o.exec db.ledger uuid).2.map Effect.ledger)
  | .ledger _, .fail msg => some (.error (.failed msg), [])
  | .ledger _, .rail _ => none
  | .sql o, .row uuid => some (o.exec db now uuid)
  | .sql _, .fail msg => some (.error (.failed msg), [])
  | .sql _, .rail _ => none
  | .submit _, .rail answer => some (answer, [])
  | .submit _, .row _ => none
  | .submit _, .fail _ => none

/-- What a call of a transaction that began at `now` may be answered. -/
def Respond (now : Time) (db : Db) (log : List Effect) (c : Call) (r : c.Rep) (es : List Effect) :
    Prop :=
  ∃ input, c.answer (db.view log) now input = some (r, es)

/-- The keys a call locks. -/
def Call.locks (uuid : UUID) : Call → List Key
  | .ledger o => (o.locks uuid).map .ledger
  | .sql o => o.locks uuid
  | .submit _ => []

section Respond

variable {now : Time} {db : Db} {log es : List Effect}

/-- A statement that returned a row was executed on the view of its transaction. -/
theorem respond_sql_ok {o : Op} {row : o.Row} (h : Respond now db log (.sql o) (.ok row) es) :
    ∃ uuid, o.exec (db.view log) now uuid = (.ok row, es) := by
  obtain ⟨input, h⟩ := h
  cases input with
  | row uuid => exact ⟨uuid, Option.some.inj h⟩
  | fail msg => cases h
  | rail answer => cases h

end Respond

/-! ## Ledger programs inside a step -/

/-- The ledger effects of a log. -/
def ledgerLog (log : List Effect) : List Ledger.Effect :=
  log.filterMap fun
    | .ledger e => some e
    | _ => none

@[simp] theorem ledgerLog_append (l m : List Effect) :
    ledgerLog (l ++ m) = ledgerLog l ++ ledgerLog m := by simp [ledgerLog]

@[simp] theorem ledgerLog_nil : ledgerLog [] = [] := rfl

@[simp] theorem ledgerLog_cons_insertPayout (row : Payout) (l : List Effect) :
    ledgerLog (.insertPayout row :: l) = ledgerLog l := rfl

@[simp] theorem ledgerLog_cons_changePayout (id : UUID) (c : PayoutChange) (l : List Effect) :
    ledgerLog (.changePayout id c :: l) = ledgerLog l := rfl

@[simp] theorem ledgerLog_cons_insertOutbox (row : OutboxRow) (l : List Effect) :
    ledgerLog (.insertOutbox row :: l) = ledgerLog l := rfl

@[simp] theorem ledgerLog_cons_changeSaga (id : UUID) (c : SagaChange) (l : List Effect) :
    ledgerLog (.changeSaga id c :: l) = ledgerLog l := rfl

@[simp] theorem ledgerLog_map (es : List Ledger.Effect) : ledgerLog (es.map .ledger) = es := by
  simp [ledgerLog]

/-- The ledger a transaction sees depends on its ledger effects only. -/
theorem view_ledger (db : Db) (log : List Effect) :
    (db.view log).ledger = db.ledger.view (ledgerLog log) := by
  induction log generalizing db with
  | nil => rfl
  | cons e log ih =>
    rw [Db.view_cons, ih]
    cases e <;> rfl

/-- A transaction sees the committed headers and its own. -/
theorem view_entries (db : Db) (log : List Effect) : (db.view log).ledger.entries =
    db.ledger.entries ++ Ledger.headers (ledgerLog log) := by
  rw [view_ledger, Ledger.Tables.view_eq]

@[simp] theorem view_map_ledger (db : Db) (es : List Ledger.Effect) :
    db.view (es.map .ledger) = { db with ledger := db.ledger.view es } := by
  induction es generalizing db with
  | nil => rfl
  | cons e es ih => exact ih _

@[simp] theorem mem_ledgerLog {e : Ledger.Effect} {log : List Effect} :
    e ∈ ledgerLog log ↔ .ledger e ∈ log := by
  simp only [ledgerLog, List.mem_filterMap]
  constructor
  · rintro ⟨x, hx, he⟩
    cases x <;> cases he
    exact hx
  · intro h
    exact ⟨_, h, rfl⟩

/-- A ledger program leaves ledger effects, and the ledger answers it as if it ran alone. -/
theorem ledger_steps {α : Type} {now : Time} {p : Ledger.LedgerM α} {l m : List Effect}
    {h : List Db} {q : StepM α} (hs : Steps (Respond now) (ledger p) l h q m) :
    ∃ (p' : Ledger.LedgerM α) (es : List Ledger.Effect),
      Steps Ledger.Respond p (ledgerLog l) (h.map Db.ledger) p' (ledgerLog l ++ es) ∧
        q = ledger p' ∧ m = l ++ es.map .ledger := by
  induction p generalizing l h with
  | ret a =>
    simp only [ledger, Prog.lift, steps_ret_iff] at hs
    obtain ⟨rfl, rfl, rfl⟩ := hs
    exact ⟨.ret a, [], by simp, rfl, by simp⟩
  | throw e =>
    simp only [ledger, Prog.lift, steps_throw_iff] at hs
    obtain ⟨rfl, rfl, rfl⟩ := hs
    exact ⟨.throw e, [], by simp, rfl, by simp⟩
  | call o k ih =>
    simp only [ledger, Prog.lift] at hs
    rw [steps_call_iff] at hs
    obtain ⟨rfl, rfl, rfl⟩ | ⟨db, h', r, es, rfl, hr, hk⟩ := hs
    · exact ⟨.call o k, [], by simpa using Steps.refl _ _, rfl, by simp⟩
    · obtain ⟨es', hr', rfl⟩ : ∃ es', Ledger.Respond db.ledger (ledgerLog l) o r es' ∧
          es = es'.map Effect.ledger := by
        obtain ⟨input, hinput⟩ := hr
        cases input with
        | row uuid =>
          simp only [Call.answer, view_ledger] at hinput
          cases hinput
          exact ⟨_, .inl ⟨uuid, rfl⟩, rfl⟩
        | fail msg =>
          cases hinput
          exact ⟨[], .inr ⟨msg, rfl, rfl⟩, rfl⟩
        | rail answer => cases hinput
      obtain ⟨p', es'', hp', rfl, rfl⟩ := ih r hk
      refine ⟨p', es' ++ es'', .step hr' ?_, rfl, by simp⟩
      simpa using hp'

/-- A ledger program that returned inside a step returned in the ledger. -/
theorem ledger_ret {α : Type} {now : Time} {p : Ledger.LedgerM α} {l m : List Effect} {h : List Db}
    {a : α} (hs : Steps (Respond now) (ledger p) l h (.ret a) m) :
    ∃ es : List Ledger.Effect, Steps Ledger.Respond p (ledgerLog l) (h.map Db.ledger) (.ret a)
      (ledgerLog l ++ es) ∧ m = l ++ es.map .ledger := by
  obtain ⟨p', es, hp', hq, hm⟩ := ledger_steps hs
  cases p' with
  | ret b => cases hq; exact ⟨es, hp', hm⟩
  | throw e => cases hq
  | call o k => cases hq

/-! ## Calls other than the rail -/

/-- The call is not one of the rail. -/
def NoRail (c : Call) : Prop := ∀ req, c ≠ .submit req

theorem outside_submit {α : Type} {req : SubmitRequest} {k : RailAnswer → StepM α} :
    (call (Call.submit req) k : StepM α).Outside NoRail :=
  outside_call fun h => h req rfl

theorem not_calls_submit {α : Type} {req : SubmitRequest} {k : RailAnswer → StepM α} :
    ¬ (call (Call.submit req) k : StepM α).Calls NoRail := by
  intro h
  cases h with
  | call ho _ => exact ho req rfl

theorem sql_calls (o : Op) : (sql o).Calls NoRail := .query fun _ h => by cases h

theorem ledger_calls {α : Type} (p : Ledger.LedgerM α) : (ledger p).Calls NoRail :=
  .lift (fun _ _ h => by cases h) p

/-! ## Executions past a statement -/

section Past

variable {α β : Type} {now : Time} {l m : List Effect} {h : List Db} {q : StepM β}

@[simp] theorem selectOne_eq_ok {o : Option α} {a : α} : selectOne o = .ok a ↔ o = some a := by
  cases o <;> simp [selectOne]

/-- An execution past a statement: it was executed and returned its row. -/
theorem sql_past {o : Op} {f : DbError → GoError} {k : o.Row → StepM β}
    (hs : Steps (Respond now) (((sql o).orThrow f).bind k) l h q m) (hq : q.Outside NoRail) :
    ∃ db h' uuid row es, h = db :: h' ∧ o.exec (db.view l) now uuid = (.ok row, es) ∧
      Steps (Respond now) (k row) (l ++ es) h' q m := by
  obtain ⟨row, h₁, h₂, n, rfl, hrow, hk⟩ := hs.of_bind_outside (sql_calls o).orThrow hq
  obtain ⟨db, es, rfl, hr, rfl⟩ := hrow.of_orThrow_ret.of_query_ret
  obtain ⟨uuid, hexec⟩ := respond_sql_ok hr
  exact ⟨db, h₂, uuid, row, es, rfl, hexec, hk⟩

/-- A statement that ends the program was answered with an error. -/
theorem sql_throw {o : Op} {f : DbError → GoError} {e : GoError}
    (hs : Steps (Respond now) ((sql o).orThrow f) l h (.throw e) m) :
    ∃ db d es, h = [db] ∧ Respond now db l (.sql o) (.error d) es ∧ e = f d := by
  obtain hs' | ⟨d, hs', rfl⟩ := hs.of_orThrow_throw
  · exact hs'.of_query_throw.elim
  · obtain ⟨db, es, rfl, hr, -⟩ := hs'.of_query_ret
    exact ⟨db, d, es, rfl, hr, rfl⟩

/-- No execution is past an error. -/
theorem throw_past {e : GoError} (hs : Steps (Respond now) (.throw e) l h q m)
    (hq : q.Outside NoRail) : False := by
  obtain ⟨-, rfl, -⟩ := steps_throw_iff.mp hs
  exact not_outside_throw hq

/-- One of the states holds the account of a code. -/
def Resolved (h : List Db) (code currency : String) (a : Ledger.Account) : Prop :=
  ∃ db ∈ h, a ∈ db.ledger.accounts ∧ a.code = code ∧ a.currency = currency

/-- An execution past an account lookup: the account was found. -/
theorem account_past {code currency : String} {g : GoError → GoError}
    {k : Ledger.Account → StepM β}
    (hs : Steps (Respond now) (((ledger (Ledger.getAccountByCodeTx code currency)).mapErr g).bind k)
      l h q m) (hq : q.Outside NoRail) :
    ∃ a h₁ h₂, h = h₁ ++ h₂ ∧ Resolved h₁ code currency a ∧
      Steps (Respond now) (k a) l h₂ q m := by
  obtain ⟨a, h₁, h₂, n, rfl, ha, hk⟩ := hs.of_bind_outside (ledger_calls _).mapErr hq
  obtain ⟨es, hes, rfl⟩ := ledger_ret ha.of_mapErr_ret
  obtain ⟨hnil, db, hdb, haccount⟩ := Ledger.getAccountByCodeTx_ret hes
  obtain rfl := List.append_cancel_left (hnil.trans (List.append_nil _).symm)
  obtain ⟨db', hdb', rfl⟩ := List.mem_map.mp hdb
  exact ⟨a, h₁, h₂, rfl, ⟨db', hdb', haccount⟩, by simpa using hk⟩

/-- What a returned posting has left behind. -/
def Posted (h : List Db) (l : List Effect) (e : Ledger.Entry) (es : List Ledger.Effect) : Prop :=
  Ledger.Posted (Ledger.Tables.view · (ledgerLog l)) (h.map Db.ledger) e es

/-- An execution past a posting. -/
theorem post_past {e : Ledger.Entry} {g : GoError → GoError} {k : Ledger.JournalEntry → StepM β}
    (hs : Steps (Respond now) (((ledger (Ledger.postTx e)).mapErr g).bind k) l h q m)
    (hq : q.Outside NoRail) :
    ∃ j es h₁ h₂, h = h₁ ++ h₂ ∧ Posted h₁ l e es ∧
      Steps (Respond now) (k j) (l ++ es.map .ledger) h₂ q m := by
  obtain ⟨j, h₁, h₂, n, rfl, hj, hk⟩ := hs.of_bind_outside (ledger_calls _).mapErr hq
  obtain ⟨es, hes, rfl⟩ := ledger_ret hj.of_mapErr_ret
  exact ⟨j, es, h₁, h₂, rfl, Ledger.postTx_ret hes, hk⟩

/-- More states resolve as much. -/
theorem Resolved.mono {h h' : List Db} {code currency : String} {a : Ledger.Account}
    (ha : Resolved h code currency a) (hsub : h ⊆ h') : Resolved h' code currency a := by
  obtain ⟨db, hdb, ha⟩ := ha
  exact ⟨db, hsub hdb, ha⟩

/-- More states explain a posting as well. -/
theorem Posted.mono {h h' : List Db} {l : List Effect} {e : Ledger.Entry} {es : List Ledger.Effect}
    (hp : Posted h l e es) (hsub : h ⊆ h') : Posted h' l e es := by
  obtain ⟨hes, db, hdb, hj⟩ | hblock := hp
  · exact .inl ⟨hes, db, List.map_subset _ hsub hdb, hj⟩
  · exact .inr hblock

end Past

/-! ## Moving an intent -/

/-- Set the state of an intent that was read in another one. -/
def moveIntent (id : UUID) (intent : PaymentIntent) (src dst : IntentState) (msg : String) :
    StepM Unit :=
  if intent.state = src then do
    let _ ← (sql (.updatePaymentIntentState id dst)).orThrow fun e => .wrap msg (.db e)
    return ()
  else return ()

/-- The effects of moving an intent. -/
def moved (id : UUID) (intent : PaymentIntent) (src dst : IntentState) (now : Time) : List Effect :=
  if intent.state = src then [.setIntentState id dst now] else []

@[simp] theorem view_moved (db : Db) (id : UUID) (intent : PaymentIntent) (src dst : IntentState)
    (now : Time) : db.view (moved id intent src dst now) =
      { db with
        intents := if intent.state = src then
          Table.update PaymentIntent.id db.intents id (·.setState dst now) else db.intents } := by
  unfold moved
  split <;> rfl

@[simp] theorem ledgerLog_moved (id : UUID) (intent : PaymentIntent) (src dst : IntentState)
    (now : Time) : ledgerLog (moved id intent src dst now) = [] := by
  unfold moved
  split <;> rfl

theorem moveIntent_calls (id : UUID) (intent : PaymentIntent) (src dst : IntentState)
    (msg : String) : (moveIntent id intent src dst msg).Calls NoRail := by
  unfold moveIntent
  split
  · exact (sql_calls _).orThrow.bind fun _ => .ret _
  · exact .ret _

/-- An execution past the move of an intent. -/
theorem moveIntent_past {β : Type} {now : Time} {l m : List Effect} {h : List Db} {q : StepM β}
    {id : UUID} {intent : PaymentIntent} {src dst : IntentState} {msg : String} {k : Unit → StepM β}
    (hs : Steps (Respond now) ((moveIntent id intent src dst msg).bind k) l h q m)
    (hq : q.Outside NoRail) :
    ∃ h₁ h₂, h = h₁ ++ h₂ ∧
      Steps (Respond now) (k ()) (l ++ moved id intent src dst now) h₂ q m := by
  obtain ⟨⟨⟩, h₁, h₂, n, rfl, hmove, hk⟩ := hs.of_bind_outside (moveIntent_calls _ _ _ _ _) hq
  refine ⟨h₁, h₂, rfl, ?_⟩
  unfold moveIntent at hmove
  unfold moved
  split at hmove
  · rename_i hsrc
    obtain ⟨db, h', uuid, row, es, rfl, hexec, hret⟩ := sql_past hmove (outside_ret _)
    rw [pure_eq, steps_ret_iff] at hret
    obtain ⟨-, -, rfl⟩ := hret
    simp only [Op.exec] at hexec
    split at hexec <;> cases hexec
    simpa [hsrc] using hk
  · rename_i hsrc
    rw [pure_eq, steps_ret_iff] at hmove
    obtain ⟨-, -, rfl⟩ := hmove
    simpa [hsrc] using hk

end Selatpay.Saga
