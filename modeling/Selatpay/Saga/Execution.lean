import Selatpay.Ledger.Execution
import Selatpay.Saga.Types

/-!
# Running a step to its end

A step whose statements are all executed, each on the committed state of its time and on
what the step has written so far. Ledger programs inside the step run as they do alone.
-/

namespace Selatpay.Saga

open Store Prog

/-- The surroundings of a run: the committed state at each call, the ids that are generated, the
start of the transaction and the rail. -/
structure Surroundings where
  db : ℕ → Db
  uuid : ℕ → UUID
  now : Time
  rail : SubmitRequest → RailAnswer

/-- Every statement is executed. -/
def Surroundings.answer (w : Surroundings) (n : ℕ) (l : List Effect) :
    (c : Call) → c.Rep × List Effect
  | .ledger o => ((o.exec ((w.db n).view l).ledger (w.uuid n)).1,
      (o.exec ((w.db n).view l).ledger (w.uuid n)).2.map Effect.ledger)
  | .sql o => o.exec ((w.db n).view l) w.now (w.uuid n)
  | .submit req => (w.rail req, [])

variable {w : Surroundings} {n : ℕ} {l : List Effect}

/-- A run that returns is one of the executions of the step. -/
theorem steps_of_exec {α : Type} {p : StepM α} {a : α} {n' : ℕ} {m : List Effect}
    (h : p.exec w.answer n l = (.ok a, n', m)) :
    ∃ states, Steps (Respond w.now) p l states (.ret a) m ∧ ∀ db ∈ states, ∃ k, db = w.db k := by
  refine Prog.steps_of_exec (fun n l c => ?_) h
  cases c with
  | ledger o => exact ⟨.row (w.uuid n), rfl⟩
  | sql o => exact ⟨.row (w.uuid n), rfl⟩
  | submit req => exact ⟨.rail (w.rail req), rfl⟩

/-- A statement that returns its row. -/
theorem exec_sql {o : Op} {f : DbError → GoError} {row : o.Row} {es : List Effect}
    (h : o.exec ((w.db n).view l) w.now (w.uuid n) = (.ok row, es)) :
    ((sql o).orThrow f).exec w.answer n l = (.ok row, n + 1, l ++ es) := by
  apply exec_orThrow
  rw [exec_query]
  simp only [Surroundings.answer, h]

/-- A ledger program runs inside a step as it does alone. -/
theorem exec_ledger {α : Type} {p : Ledger.LedgerM α} {g : GoError → GoError} {a : α} {n' : ℕ}
    {es : List Ledger.Effect}
    (h : p.exec (Ledger.answer (fun n => (w.db n).ledger) w.uuid) n (ledgerLog l) =
      (.ok a, n', ledgerLog l ++ es)) :
    ((ledger p).mapErr g).exec w.answer n l = (.ok a, n', l ++ es.map .ledger) := by
  have hproj (l : List Effect) (es : List Ledger.Effect) :
      ledgerLog (l ++ es.map .ledger) = ledgerLog l ++ es := by simp
  obtain ⟨es', hes, hexec⟩ : ∃ es', ledgerLog l ++ es = ledgerLog l ++ es' ∧
      (ledger p).exec w.answer n l = (.ok a, n', l ++ es'.map .ledger) := by
    refine exec_lift hproj ?_ h
    intro n l o
    simp only [Surroundings.answer, Ledger.answer, view_ledger, and_self]
  rw [List.append_cancel_left hes]
  exact exec_mapErr hexec

/-- An account that exists is found. -/
theorem exec_account {code currency : String} {g : GoError → GoError} {a : Ledger.Account}
    (h : (w.db n).ledger.accounts.find? (fun a => a.code = code ∧ a.currency = currency) = some a) :
    ((ledger (Ledger.getAccountByCodeTx code currency)).mapErr g).exec w.answer n l =
      (.ok a, n + 1, l) := by
  have hexec := @exec_ledger w n l _ (Ledger.getAccountByCodeTx code currency) g a (n + 1) [] (by
    rw [List.append_nil]
    exact Ledger.exec_getAccountByCodeTx h)
  simpa using hexec

/-- An entry that validates is posted as one more block, if its reference is not booked yet. -/
theorem exec_post {accounts : List Ledger.Account} {e : Ledger.Entry} {g : GoError → GoError}
    (haccounts : ∀ n, (w.db n).ledger.accounts = accounts) (hvalid : Ledger.validate e = .ok ())
    (hls : ∀ line ∈ e.lines, line.IsPostable accounts)
    (hdb : ∀ n, ∀ j ∈ (w.db n).ledger.entries, j.externalRef ≠ e.externalRef)
    (hl : ∀ j ∈ Ledger.headers (ledgerLog l), j.externalRef ≠ e.externalRef) :
    ∃ n', ∃ c : Ledger.Creation, ∃ es, ((ledger (Ledger.postTx e)).mapErr g).exec w.answer n l =
        (.ok c.row, n', l ++ es.map .ledger) ∧ c.entry = e ∧ (∃ k, c.row.id = w.uuid k) ∧
      ∀ log cs, Ledger.Blocks log cs → Ledger.Blocks (log ++ es) (cs ++ [c]) := by
  obtain ⟨n', id, ps, hexec, hlines, hps, hid⟩ := Ledger.exec_postTx haccounts hvalid hls hdb hl
  exact ⟨n', ⟨e.params.row id, e⟩, _, exec_ledger hexec, rfl, hid,
    fun _ _ hblocks => .snoc hblocks hlines hps⟩

/-- Moving an intent that is there. -/
theorem exec_moveIntent {id : UUID} {intent : PaymentIntent} {src dst : IntentState} {msg : String}
    {row : PaymentIntent}
    (h : Table.find PaymentIntent.id ((w.db n).view l).intents id = some row) :
    ∃ n', (moveIntent id intent src dst msg).exec w.answer n l =
      (.ok (), n', l ++ moved id intent src dst w.now) := by
  unfold moveIntent moved
  split
  · refine ⟨n + 1, ?_⟩
    have hexec : (Op.updatePaymentIntentState id dst).exec ((w.db n).view l) w.now (w.uuid n) =
        (.ok (row.setState dst w.now), [.setIntentState id dst w.now]) := by
      simp only [Op.exec, h]
    rw [bind_eq, exec_bind (exec_sql hexec), pure_eq, exec_ret]
  · exact ⟨n, by simp⟩

end Selatpay.Saga
