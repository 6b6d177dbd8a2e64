import Selatpay.Saga.Types

/-!
# The step `emit_completed`

The last step moves the intent from `paid_out` to `completed` and publishes the
event merchants receive.
-/

namespace Selatpay.Saga

open Store Prog

/-- The topic of the completion event. -/
def topicCompleted : String := "intent.completed"

/-- The event of an intent. -/
def completedEvent (updated : PaymentIntent) : CompletedEvent where
  schema := "selatpay.intent.completed.v1"
  intentID := updated.id.text
  merchantID := updated.merchantID.text
  externalRef := updated.externalRef
  state := updated.state.text
  amountIDR := updated.amountIDR
  amountUSDC := updated.quotedAmountUSDC
  occurredAt := updated.updatedAt

/-- The headers of the event. -/
def completedHeaders (updated : PaymentIntent) : List (String × String) :=
  [("X-Selatpay-Topic", "intent.completed"),
    ("X-Selatpay-Idempotency-Key", "intent.completed:" ++ updated.id.text),
    ("X-Selatpay-Merchant", updated.merchantID.text)]

/-- The row the completion is published from: the updated one, or the one read. -/
def completeIntent (run : Run) (intent : PaymentIntent) : StepM PaymentIntent :=
  if intent.state = .paidOut then
    (sql (.updatePaymentIntentState run.intentID .completed)).orThrow
      fun e => .wrap "emit_completed: advance state" (.db e)
  else return intent

/-- `EmitCompleted.Execute`. -/
def emitCompleted (run : Run) : StepM StepResult := do
  let intent ← (sql (.getPaymentIntentByID run.intentID)).orThrow
    fun e => .wrap "emit_completed: load intent" (.db e)
  let updated ← completeIntent run intent
  let _ ← (sql (.publishOutbox topicCompleted (some updated.id) (completedEvent updated)
    (completedHeaders updated))).orThrow
      fun e => .wrap "emit_completed: publish outbox" (.wrap "outbox: insert" (.db e))
  return none

/-! ## What an execution has done -/

theorem completeIntent_calls (run : Run) (intent : PaymentIntent) :
    (completeIntent run intent).Calls NoRail := by
  unfold completeIntent
  split
  · exact (sql_calls _).orThrow
  · exact .ret _

/-- What a returned execution did, with the row it published: an event of the intent as it was
read or updated. -/
theorem emitCompleted_published {run : Run} {now : Time} {h : List Db} {res : StepResult}
    {m : List Effect} (hs : Steps (Respond now) (emitCompleted run) [] h (.ret res) m) :
    res = none ∧ ∃ intent updated uuid,
      (∃ db ∈ h, Table.find PaymentIntent.id db.intents run.intentID = some intent) ∧
      (∃ db ∈ h, ∃ source, Table.find PaymentIntent.id db.intents run.intentID = some source ∧
        updated.setState .pending 0 = source.setState .pending 0) ∧
      m = moved run.intentID intent .paidOut .completed now ++
        [.insertOutbox ⟨uuid, topicCompleted, some run.intentID, completedEvent updated,
          completedHeaders updated⟩] := by
  simp only [emitCompleted, bind_eq] at hs
  obtain ⟨db₁, h₁, _, intent, _, rfl, hintent, hs₁⟩ := sql_past hs (outside_ret _)
  simp only [Op.exec, Prod.mk.injEq, selectOne_eq_ok] at hintent
  obtain ⟨hintent, rfl⟩ := hintent
  have hid : intent.id = run.intentID := (Table.mem_of_find hintent).2
  obtain ⟨updated, h₂, h₃, n, rfl, hmove, hs₂⟩ := hs₁.of_bind_ret
  have hupdated : updated.id = run.intentID ∧
      n = moved run.intentID intent .paidOut .completed now ∧
      ∃ db ∈ db₁ :: (h₂ ++ h₃), ∃ source,
        Table.find PaymentIntent.id db.intents run.intentID = some source ∧
        updated.setState .pending 0 = source.setState .pending 0 := by
    unfold completeIntent at hmove
    unfold moved
    split at hmove
    · rename_i hpaid
      obtain ⟨db, es, rfl, hr, rfl⟩ := hmove.of_orThrow_ret.of_query_ret
      obtain ⟨uuid, hexec⟩ := respond_sql_ok hr
      simp only [Op.exec] at hexec
      split at hexec <;> cases hexec
      rename_i row hrow
      refine ⟨(Table.mem_of_find hrow).2, by simp [hpaid], db, by simp, row, ?_, rfl⟩
      simpa using hrow
    · rename_i hpaid
      rw [pure_eq, steps_ret_iff] at hmove
      obtain ⟨-, hret, rfl⟩ := hmove
      cases hret
      exact ⟨hid, by simp [hpaid], db₁, by simp, intent, by simpa using hintent, rfl⟩
  obtain ⟨hid', rfl, hsource⟩ := hupdated
  obtain ⟨db₂, h₄, uuid, row, es, rfl, hrow, hs₃⟩ := sql_past hs₂ (outside_ret _)
  rw [pure_eq, steps_ret_iff] at hs₃
  obtain ⟨-, hres, rfl⟩ := hs₃
  cases hres
  cases hrow
  refine ⟨rfl, intent, updated, uuid, ⟨db₁, by simp, ?_⟩, hsource, by simp [hid']⟩
  simpa using hintent

/-- What a returned execution did: it moved the intent and published one event of it. -/
theorem emitCompleted_ret {run : Run} {now : Time} {h : List Db} {res : StepResult}
    {m : List Effect} (hs : Steps (Respond now) (emitCompleted run) [] h (.ret res) m) :
    res = none ∧ ∃ intent row,
      (∃ db ∈ h, Table.find PaymentIntent.id db.intents run.intentID = some intent) ∧
      row.topic = topicCompleted ∧ row.aggregateID = some run.intentID ∧
      m = moved run.intentID intent .paidOut .completed now ++ [.insertOutbox row] := by
  obtain ⟨hres, intent, updated, uuid, hintent, -, hlog⟩ := emitCompleted_published hs
  exact ⟨hres, intent, _, hintent, rfl, rfl, hlog⟩

/-- The step never calls the rail. -/
theorem emitCompleted_calls (run : Run) : (emitCompleted run).Calls NoRail := by
  unfold emitCompleted
  refine (sql_calls _).orThrow.bind fun intent => ?_
  refine (completeIntent_calls run intent).bind fun updated => ?_
  exact (sql_calls _).orThrow.bind fun _ => .ret _

end Selatpay.Saga
