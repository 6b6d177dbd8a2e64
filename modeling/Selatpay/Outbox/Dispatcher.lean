import Selatpay.Core.Trace
import Selatpay.Saga.Runner

/-!
# The outbox dispatcher

`drainOnce` claims a batch of due rows and resolves each of them inside one
transaction: it sends the message and marks the row delivered or schedules a retry.
A send cannot be undone, the statements are undone together when the pass does not
commit. Times are microseconds, as `timestamptz` keeps them; durations are
nanoseconds.
-/

namespace Selatpay.Outbox

/-! ## Rows and messages -/

/-- A row of `outbox`. -/
structure Row where
  id : UUID
  topic : String
  aggregateID : Option UUID
  payload : String
  /-- The column `headers`, by what `json.Unmarshal` makes of it. -/
  headers : Except String (List (String × String))
  createdAt : Int
  nextAttemptAt : Int
  deliveredAt : Option Int
  attempts : Int
  lastError : Option String
  deriving DecidableEq

/-- `Message`. -/
structure Message where
  id : UUID
  topic : String
  aggregateID : Option UUID
  payload : String
  headers : List (String × String)
  attempts : Int
  createdAt : Int
  deriving DecidableEq

/-- `toMessage`. -/
def toMessage (row : Row) : Except String Message :=
  match row.headers with
  | .error err => .error ("outbox: unmarshal headers: " ++ err)
  | .ok headers => .ok ⟨row.id, row.topic, row.aggregateID, row.payload, headers, row.attempts,
      row.createdAt⟩

/-- `Publish`, with the identifier and the start of the transaction the row is inserted in. -/
def publish (topic : String) (aggregateID : Option UUID) (payload : String)
    (headers : List (String × String)) (id : UUID) (now : Int) : Except String Row :=
  if topic = "" then .error "outbox: topic is required"
  else .ok ⟨id, topic, aggregateID, if payload = "" then "null" else payload, .ok headers, now, now,
    none, 0, none⟩

/-! ## Configuration -/

/-- The tunables of a dispatcher that `drainOnce` reads. -/
structure Config where
  topic : String
  batchSize : Int
  maxAttempts : Int
  backoffBase : Int
  backoffMax : Int
  deriving DecidableEq

/-- `Dispatcher`: a configuration with its defaults filled in. -/
structure Dispatcher extends Config where
  topic_ne : topic ≠ ""
  batchSize_pos : 0 < batchSize
  maxAttempts_pos : 0 < maxAttempts
  backoffBase_pos : 0 < backoffBase
  backoffMax_pos : 0 < backoffMax

/-- A positive setting, or its default. -/
def orDefault (value default : Int) : Int := if value ≤ 0 then default else value

theorem orDefault_pos {value default : Int} (h : 0 < default) : 0 < orDefault value default := by
  unfold orDefault
  split <;> omega

/-- `NewDispatcher`. -/
def newDispatcher (cfg : Config) : Except String Dispatcher :=
  if h : cfg.topic = "" then .error "outbox: topic is required"
  else .ok {
    topic := cfg.topic
    batchSize := orDefault cfg.batchSize 32
    maxAttempts := orDefault cfg.maxAttempts 12
    backoffBase := orDefault cfg.backoffBase 1000000000
    backoffMax := orDefault cfg.backoffMax 300000000000
    topic_ne := h
    batchSize_pos := orDefault_pos (by decide)
    maxAttempts_pos := orDefault_pos (by decide)
    backoffBase_pos := orDefault_pos (by decide)
    backoffMax_pos := orDefault_pos (by decide) }

/-- The window `computeBackoff` draws from. -/
def Dispatcher.candidate (d : Dispatcher) (attempt : Int) : Int :=
  let candidate := Saga.delayLoop d.backoffMax (attempt - 1).toNat d.backoffBase
  if candidate > d.backoffMax then d.backoffMax else candidate

/-- The delays `computeBackoff` may draw. -/
def Dispatcher.Draws (d : Dispatcher) (attempt delay : Int) : Prop :=
  if d.candidate attempt ≤ 0 then delay = 0 else 0 ≤ delay ∧ delay < d.candidate attempt

instance (d : Dispatcher) (attempt delay : Int) : Decidable (d.Draws attempt delay) :=
  inferInstanceAs (Decidable (ite _ _ _))

theorem Dispatcher.Draws.nonneg {d : Dispatcher} {attempt delay : Int}
    (h : d.Draws attempt delay) : 0 ≤ delay := by
  unfold Dispatcher.Draws at h
  split at h <;> omega

/-- The delay of a message that has used up its attempts: `100 * 365 * 24 * time.Hour`. -/
def exhaustedDelay : Int := 100 * 365 * 24 * 3600000000000

/-- A time some nanoseconds later, truncated to the microseconds of a column. -/
def addDelay (now delay : Int) : Int := now + delay / 1000

/-! ## One pass -/

/-- The calls of a pass. -/
inductive Op
  | claimDueOutbox (topic : String) (limit : Int)
  | send (msg : Message)
  | markOutboxDelivered (id : UUID)
  | computeBackoff (attempt : Int)
  | timeNow
  | scheduleOutboxRetry (id : UUID) (nextAttemptAt : Int) (lastError : String)
  | commit

/-- Their replies; `Send` returns nil or an error. -/
def Op.Rep : Op → Type
  | .claimDueOutbox _ _ => Except DbError (List Row)
  | .send _ => Option String
  | .markOutboxDelivered _ => Except DbError Unit
  | .computeBackoff _ => Int
  | .timeNow => Int
  | .scheduleOutboxRetry _ _ _ => Except DbError Unit
  | .commit => Except DbError Unit

/-- Programs of the dispatcher. An error of a statement ends the pass with a rollback. -/
abbrev DispatcherM := Prog Op.Rep GoError

/-- `ClaimDueOutbox`. -/
def claimDueOutbox (topic : String) (limit : Int) : DispatcherM (Except DbError (List Row)) :=
  Prog.query (Op.claimDueOutbox topic limit)

/-- `Sender.Send`. -/
def send (msg : Message) : DispatcherM (Option String) := Prog.query (Op.send msg)

/-- `MarkOutboxDelivered`. -/
def markOutboxDelivered (id : UUID) : DispatcherM (Except DbError Unit) :=
  Prog.query (Op.markOutboxDelivered id)

/-- `computeBackoff`. -/
def computeBackoff (attempt : Int) : DispatcherM Int := Prog.query (Op.computeBackoff attempt)

/-- `time.Now`. -/
def timeNow : DispatcherM Int := Prog.query Op.timeNow

/-- `ScheduleOutboxRetry`. -/
def scheduleOutboxRetry (id : UUID) (nextAttemptAt : Int) (lastError : String) :
    DispatcherM (Except DbError Unit) :=
  Prog.query (Op.scheduleOutboxRetry id nextAttemptAt lastError)

/-- `tx.Commit`. -/
def commit : DispatcherM (Except DbError Unit) := Prog.query Op.commit

/-- The row of a message that was sent is marked. -/
def markDelivered (row : Row) : DispatcherM Unit :=
  (markOutboxDelivered row.id).orThrow fun e => .wrap "mark delivered" (.db e)

/-- The retry of a message whose next attempt is known. -/
def scheduleRetry (row : Row) (err : String) (nextAttemptAt : Int) : DispatcherM Unit :=
  (scheduleOutboxRetry row.id nextAttemptAt err).orThrow fun e => .wrap "schedule retry" (.db e)

/-- The retry of a message after a delay. -/
def retryAfter (row : Row) (err : String) (delay : Int) : DispatcherM Unit :=
  timeNow.bind fun now => scheduleRetry row err (addDelay now delay)

/-- The end of the loop body, by what `Send` has returned. -/
def afterSend (d : Dispatcher) (row : Row) : Option String → DispatcherM Unit
  | none => markDelivered row
  | some err =>
    let attempt := row.attempts + 1
    if attempt ≥ d.maxAttempts then retryAfter row err exhaustedDelay
    else (computeBackoff attempt).bind fun delay => retryAfter row err delay

/-- The loop of `drainOnce` over the claimed rows. -/
def drainRows (d : Dispatcher) : List Row → DispatcherM Unit
  | [] => .ret ()
  | row :: rows => match toMessage row with
    | .error _ => drainRows d rows
    | .ok msg => (send msg).bind fun sendErr =>
      (afterSend d row sendErr).bind fun _ => drainRows d rows

/-- The end of `drainOnce`. -/
def commitDrain : DispatcherM Bool :=
  (commit.orThrow fun e => .wrap "commit drain" (.db e)).bind fun _ => .ret true

/-- `Dispatcher.drainOnce`, from its first statement on. -/
def drainOnce (d : Dispatcher) : DispatcherM Bool :=
  ((claimDueOutbox d.topic d.batchSize).orThrow fun e => .wrap "claim batch" (.db e)).bind
    fun rows =>
      if rows.length = 0 then .ret false
      else (drainRows d rows).bind fun _ => commitDrain

/-! ## The statements -/

/-- What a statement of a pass does to the row with its identifier. -/
inductive Update
  | delivered (id : UUID) (now : Int)
  | retry (id : UUID) (nextAttemptAt : Int) (lastError : String)
  deriving DecidableEq

/-- The row a statement updates. -/
def Update.id : Update → UUID
  | .delivered id _ => id
  | .retry id _ _ => id

/-- Whether it marks its row delivered. -/
def Update.isDelivered : Update → Bool
  | .delivered _ _ => true
  | .retry _ _ _ => false

/-- `UPDATE outbox SET … WHERE id = $1`, seen from one row. -/
def Update.apply (u : Update) (row : Row) : Row :=
  if row.id = u.id then match u with
    | .delivered _ now => { row with deliveredAt := some now, lastError := none }
    | .retry _ nextAttemptAt lastError => { row with
        attempts := row.attempts + 1
        nextAttemptAt := nextAttemptAt
        lastError := some lastError }
  else row

/-- All statements of a pass, seen from one row. -/
def applyLog (log : List Update) (row : Row) : Row := log.foldl (fun row u => u.apply row) row

/-- The rows `ClaimDueOutbox` selects from at the time `now` of its transaction. -/
def Row.Due (topic : String) (now : Int) (row : Row) : Prop :=
  row.topic = topic ∧ row.deliveredAt = none ∧ row.nextAttemptAt ≤ now

instance (topic : String) (now : Int) (row : Row) : Decidable (row.Due topic now) :=
  inferInstanceAs (Decidable (_ ∧ _))

/-- An answer `ClaimDueOutbox` can give: due rows in the order of `next_attempt_at`, as many as
the limit allows, and none is left out for a later one. -/
structure Claims (rows : List Row) (topic : String) (now limit : Int) (batch : List Row) :
    Prop where
  due : ∀ r ∈ batch, r ∈ rows ∧ r.Due topic now
  nodup : (batch.map Row.id).Nodup
  sorted : batch.Pairwise fun q r => q.nextAttemptAt ≤ r.nextAttemptAt
  size : (batch.length : Int) ≤ limit
  full : ∀ q ∈ rows, q.Due topic now → q ∈ batch ∨
    (batch.length : Int) = limit ∧ ∀ r ∈ batch, r.nextAttemptAt ≤ q.nextAttemptAt

instance (rows : List Row) (topic : String) (now limit : Int) (batch : List Row) :
    Decidable (Claims rows topic now limit batch) :=
  decidable_of_iff ((∀ r ∈ batch, r ∈ rows ∧ r.Due topic now) ∧ (batch.map Row.id).Nodup ∧
      (batch.Pairwise fun q r => q.nextAttemptAt ≤ r.nextAttemptAt) ∧
      (batch.length : Int) ≤ limit ∧
      ∀ q ∈ rows, q.Due topic now → q ∈ batch ∨
        (batch.length : Int) = limit ∧ ∀ r ∈ batch, r.nextAttemptAt ≤ q.nextAttemptAt)
    ⟨fun ⟨a, b, c, e, f⟩ => ⟨a, b, c, e, f⟩, fun ⟨a, b, c, e, f⟩ => ⟨a, b, c, e, f⟩⟩

/-! ## Runs -/

/-- A pass under way. -/
structure Pass where
  /-- `NOW()` of its transaction. -/
  start : Int
  prog : DispatcherM Bool
  /-- The rows it has claimed. -/
  batch : List Row
  /-- The rows it has called `Send` for, and whether that returned nil. -/
  sends : List (UUID × Bool)
  /-- The statements of its transaction. -/
  log : List Update
  /-- Its transaction is committed. -/
  committed : Bool

/-- A pass that is over. -/
structure Ended where
  sends : List (UUID × Bool)
  log : List Update
  committed : Bool
  deriving DecidableEq

/-- The table, the clock, the pass of the dispatcher and the passes before it. -/
structure World where
  now : Int
  rows : List Row
  pass : Option Pass
  ended : List Ended

/-- An empty outbox. -/
def World.init (now : Int) : World := ⟨now, [], none, []⟩

/-- How a commit ends. -/
inductive CommitAnswer
  | done
  /-- It takes effect and its acknowledgement is lost. -/
  | lost (msg : String)
  | failed (msg : String)
  deriving DecidableEq

/-- How the next call of a pass is answered. -/
inductive Input
  | claim (batch : List Row)
  /-- The statement fails. -/
  | failed (err : DbError)
  | send (err : Option String)
  /-- The statement is executed. -/
  | done
  | draw (delay : Int)
  | clock
  | commit (answer : CommitAnswer)

/-- What can happen. -/
inductive Event
  | elapse (d : Nat)
  /-- A transaction that began at `createdAt` commits a published row. -/
  | publish (topic : String) (aggregateID : Option UUID) (payload : String)
      (headers : List (String × String)) (id : UUID) (createdAt : Int)
  /-- The dispatcher begins a pass. -/
  | begin
  | call (input : Input)
  /-- The dispatcher dies, and its transaction with it. -/
  | crash

/-- The next call of a pass. -/
def Pass.answer (d : Dispatcher) (now : Int) (rows : List Row) (p : Pass) : Input → Option Pass
  | .claim batch => match p.prog with
    | .call (.claimDueOutbox topic limit) k =>
      if Claims rows topic p.start limit batch then
        some { p with prog := k (.ok batch : Except DbError (List Row)), batch := batch }
      else none
    | _ => none
  | .failed err => match p.prog with
    | .call (.claimDueOutbox _ _) k =>
      some { p with prog := k (.error err : Except DbError (List Row)) }
    | .call (.markOutboxDelivered _) k =>
      some { p with prog := k (.error err : Except DbError Unit) }
    | .call (.scheduleOutboxRetry _ _ _) k =>
      some { p with prog := k (.error err : Except DbError Unit) }
    | _ => none
  | .send err => match p.prog with
    | .call (.send msg) k => some { p with
        prog := k err
        sends := p.sends ++ [(msg.id, err.isNone)] }
    | _ => none
  | .done => match p.prog with
    | .call (.markOutboxDelivered id) k => some { p with
        prog := k (.ok () : Except DbError Unit)
        log := p.log ++ [.delivered id p.start] }
    | .call (.scheduleOutboxRetry id nextAttemptAt lastError) k => some { p with
        prog := k (.ok () : Except DbError Unit)
        log := p.log ++ [.retry id nextAttemptAt lastError] }
    | _ => none
  | .draw delay => match p.prog with
    | .call (.computeBackoff attempt) k =>
      if d.Draws attempt delay then some { p with prog := k delay } else none
    | _ => none
  | .clock => match p.prog with
    | .call .timeNow k => some { p with prog := k now }
    | _ => none
  | .commit answer => match p.prog with
    | .call .commit k => some (match answer with
      | .done => { p with prog := k (.ok () : Except DbError Unit), committed := true }
      | .lost msg => { p with
          prog := k (.error (.failed msg) : Except DbError Unit)
          committed := true }
      | .failed msg => { p with prog := k (.error (.failed msg) : Except DbError Unit) })
    | _ => none

/-- The pass has returned. -/
def Pass.over (p : Pass) : Bool :=
  match p.prog with
  | .call _ _ => false
  | _ => true

/-- A pass is over: its statements take effect together, or not at all. -/
def World.finish (s : World) (p : Pass) : World where
  now := s.now
  rows := if p.committed then s.rows.map (applyLog p.log) else s.rows
  pass := none
  ended := s.ended ++ [⟨p.sends, p.log, p.committed⟩]

/-- The step function. -/
def step (d : Dispatcher) (s : World) : Event → Option World
  | .elapse t => some { s with now := s.now + t }
  | .publish topic aggregateID payload headers id createdAt =>
    match publish topic aggregateID payload headers id createdAt with
    | .error _ => none
    | .ok row => if createdAt ≤ s.now ∧ id ∉ s.rows.map Row.id then
        some { s with rows := s.rows ++ [row] }
      else none
  | .begin => match s.pass with
    | some _ => none
    | none => some { s with pass := some ⟨s.now, drainOnce d, [], [], [], false⟩ }
  | .call input => match s.pass with
    | none => none
    | some p => match p.answer d s.now s.rows input with
      | none => none
      | some p' => some (if p'.over then s.finish p' else { s with pass := some p' })
  | .crash => match s.pass with
    | none => none
    | some p => some (s.finish { p with committed := false })

end Selatpay.Outbox
