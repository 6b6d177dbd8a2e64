import Selatpay.Core.Trace
import Selatpay.Saga.Runner
import Selatpay.Chain.Watcher

/-!
# Watchers and workers on one database

The world is the database with its open transactions, the clock, the workers and
the watcher's memory. Every source of nondeterminism is an event: time passes, a
merchant creates an intent, the watcher works on a signature, a worker claims a
run, executes one call of its step, commits, fails or crashes. Workers are named
by the owner string they put into `lease_owner`. A transaction's `NOW()` is the
time it began.
-/

namespace Selatpay.Settlement

open Store Saga Chain

/-- A worker, by the text it leaves in `lease_owner`. -/
abbrev Owner := String

/-- What is fixed at deployment. -/
structure Env where
  /-- The configuration each worker was started with. -/
  config : Owner → Config
  /-- The steps in the registry. -/
  registered : StepName → Bool
  /-- The rails in the router. -/
  rails : List String
  /-- The deposits the watcher accepts. -/
  watcher : WatcherConfig

/-- The configuration a worker runs with. -/
def Env.runner (env : Env) (w : Owner) : Config := (env.config w).withDefaults

/-- A call of the rail and its answer. -/
abbrev RailCall := SubmitRequest × RailAnswer

/-- What a worker is doing in its `Tick`. -/
inductive Worker
  | idle
  /-- It holds a snapshot of the row it has claimed. -/
  | claimed (run : Run)
  /-- Its transaction is open; `rail` is the call of the rail it has made in it. -/
  | executing (run : Run) (began : Time) (prog : StepM Unit) (rail : Option RailCall)
  /-- The execution failed and the saga row is still to be written. -/
  | failing (run : Run) (decision : Decision) (rail : Option RailCall)

/-- The run a worker is busy with. -/
def Worker.run : Worker → Option Run
  | .idle => none
  | .claimed run => some run
  | .executing run _ _ _ => some run
  | .failing run _ _ => some run

/-- The call of the rail a worker has made in its open or failed transaction. -/
def Worker.rail : Worker → Option RailCall
  | .idle => none
  | .claimed _ => none
  | .executing _ _ _ rail => rail
  | .failing _ _ rail => rail

/-- The state of the system. -/
structure World where
  /-- The committed database, the locks and the logs of the open transactions. -/
  tx : TxState Db Effect Key Owner
  /-- The database clock. -/
  now : Time
  worker : Owner → Worker
  /-- The watcher's map of references. -/
  refs : References
  /-- The signatures the watcher is working on. -/
  sightings : List Sighting
  /-- Every request the rail has received. -/
  calls : List SubmitRequest

/-- The committed database. -/
abbrev World.db (s : World) : Db := s.tx.db

/-- A deployment before its first intent: the chart of accounts and the merchants. -/
def World.init (accounts : List Ledger.Account) (merchants : List Merchant) (now : Time) :
    World where
  tx := .init ⟨⟨accounts, [], []⟩, merchants, [], [], [], [], [], []⟩
  now := now
  worker := fun _ => .idle
  refs := []
  sightings := []
  calls := []

/-! ## Creating an intent -/

/-- A create request together with what the server generates for it. -/
structure CreateIntent where
  merchantID : UUID
  externalRef : String
  amountIDR : Int
  rate : Quoter.Rate
  spreadBps : Int
  expiresAt : Time
  referencePubkey : PublicKey
  quoteID : UUID
  intentID : UUID

/-- `validateCreateRequest`. -/
def CreateIntent.valid (c : CreateIntent) : Prop :=
  Ledger.isBlank c.externalRef = false ∧ c.externalRef.utf8ByteSize ≤ 128 ∧ 0 < c.amountIDR

/-- The ranges of the columns of a quote and its intent. -/
def CreateIntent.quotable (c : CreateIntent) : Prop :=
  0 ≤ c.rate.scale ∧ c.rate.scale ≤ 18 ∧ IsInt64 c.amountIDR

/-- What the server generates has not been used, and the merchant has no such intent yet. -/
def CreateIntent.unused (c : CreateIntent) (tx : TxState Db Effect Key Owner) : Prop :=
  c.quoteID ≠ c.intentID ∧ c.intentID ≠ 0 ∧ tx.unseen engine (.id c.quoteID) ∧
    tx.unseen engine (.id c.intentID) ∧ tx.unseen engine (.merchantRef c.merchantID c.externalRef) ∧
    (∀ i ∈ tx.db.intents, i.referencePubkey ≠ some c.referencePubkey) ∧
    ∃ m ∈ tx.db.merchants, m.id = c.merchantID

instance (c : CreateIntent) (tx : TxState Db Effect Key Owner) :
    Decidable (c.valid ∧ c.quotable ∧ c.unused tx) := by
  unfold CreateIntent.valid CreateIntent.quotable CreateIntent.unused
  infer_instance

/-- The rows of a created intent. -/
def CreateIntent.rows (c : CreateIntent) (amountUSDC : Int) (now : Time) : Quote × PaymentIntent :=
  (⟨c.quoteID, c.rate.num, c.rate.scale, c.spreadBps, c.expiresAt⟩,
    ⟨c.intentID, c.merchantID, c.externalRef, c.amountIDR, amountUSDC, c.quoteID,
      some c.referencePubkey, .pending, now⟩)

/-- Insert a quote and its intent. -/
def createIntent (db : Db) (rows : Quote × PaymentIntent) : Db :=
  { db with quotes := db.quotes ++ [rows.1], intents := db.intents ++ [rows.2] }

/-! ## Claims -/

/-- The rows `ClaimDueSagaRun` selects from. -/
def due (r : SagaRun) (now : Time) : Prop :=
  (r.state = .pending ∨ r.state = .running) ∧ r.nextRunAt ≤ now ∧
    ∀ leaseUntil, r.leaseUntil = some leaseUntil → leaseUntil < now

instance (r : SagaRun) (now : Time) : Decidable (due r now) := by
  unfold due
  infer_instance

/-- No transaction holds the lock. -/
def unlocked (tx : TxState Db Effect Key Owner) (k : Key) : Prop := ∀ p ∈ tx.locks, p.1 ≠ k

instance (tx : TxState Db Effect Key Owner) (k : Key) : Decidable (unlocked tx k) :=
  inferInstanceAs (Decidable (∀ p ∈ tx.locks, p.1 ≠ k))

/-- The row is the one `ClaimDueSagaRun` picks: due, not locked and no later than any other. -/
def claimable (s : World) (row : SagaRun) : Prop :=
  due row s.now ∧ unlocked s.tx (.id row.id) ∧
    ∀ r ∈ s.db.sagas, due r s.now → unlocked s.tx (.id r.id) → row.nextRunAt ≤ r.nextRunAt

instance (s : World) (row : SagaRun) : Decidable (claimable s row) := by
  unfold claimable
  infer_instance

/-- Rewrite one saga row of the committed database. -/
def World.writeSaga (s : World) (id : UUID) (f : SagaRun → SagaRun) : World :=
  { s with tx.db.sagas := Table.update SagaRun.id s.db.sagas id f }

/-- Set what a worker is doing. -/
def World.setWorker (s : World) (w : Owner) (x : Worker) : World :=
  { s with worker := Function.update s.worker w x }

/-! ## Events -/

/-- How a commit ends for its worker. -/
inductive CommitAnswer
  | ok
  /-- The transaction was not committed; so ends every one the balance trigger refuses. -/
  | failed (msg : String)
  /-- The transaction was committed, but the worker is told otherwise. -/
  | lost (msg : String)
  deriving DecidableEq, Repr

/-- One event. -/
inductive Event
  /-- Time passes. -/
  | elapse (d : Nat)
  /-- A merchant creates an intent. -/
  | create (c : CreateIntent)
  /-- The watcher reloads its references. -/
  | refresh
  /-- The watcher looks a signature up and compares the references it knows. -/
  | observe (signature : String) (commitment : Commitment) (answer : RpcAnswer)
  /-- The watcher reads the intent of the matched reference. -/
  | link (n : Nat)
  /-- The watcher commits the deposit; its transaction began at `began`. -/
  | record (n : Nat) (uuid : UUID) (began : Time)
  /-- The watcher gives a signature up. -/
  | forget (n : Nat)
  /-- A worker claims a run. -/
  | claim (w : Owner) (id : UUID)
  /-- A worker opens the transaction of its step, or finds no such step. -/
  | start (w : Owner)
  /-- The transaction of a worker cannot be opened. -/
  | refuse (w : Owner) (msg : String)
  /-- A worker's next call is answered. -/
  | exec (w : Owner) (input : Input)
  /-- A worker rolls its failed step back. -/
  | abandon (w : Owner)
  /-- A worker commits its step. -/
  | commit (w : Owner) (answer : CommitAnswer)
  /-- A worker writes the failure or the retry; `clock` is its own clock. -/
  | settle (w : Owner) (clock : Time) (delay : Int)
  /-- A worker is gone, or gives its tick up. -/
  | crash (w : Owner)

/-- The keys an answered call locks. -/
def lockedKeys (c : Call) : Input → List Key
  | .row uuid => c.locks uuid
  | _ => []

/-- Generated ids are new, and locks held by others are waited for. -/
def grantable (tx : TxState Db Effect Key Owner) (w : Owner) (c : Call) : Input → Prop
  | .row uuid => tx.unseen engine (.id uuid) ∧ tx.locks.available w (c.locks uuid)
  | _ => True

instance (tx : TxState Db Effect Key Owner) (w : Owner) (c : Call) (input : Input) :
    Decidable (grantable tx w c input) :=
  match input with
  | .row uuid => inferInstanceAs (Decidable (tx.unseen engine (.id uuid) ∧
      tx.locks.available w (c.locks uuid)))
  | .fail _ => inferInstanceAs (Decidable True)
  | .rail _ => inferInstanceAs (Decidable True)

/-- The call of the rail, if this was one. -/
def railCall (c : Call) (input : Input) (rail : Option RailCall) : Option RailCall :=
  match c, input with
  | .submit req, .rail answer => some (req, answer)
  | _, _ => rail

/-- The request the rail receives, if this is one. -/
def requests : Call → List SubmitRequest
  | .submit req => [req]
  | _ => []

/-- Roll a worker's transaction back. -/
def World.rollback (s : World) (w : Owner) (x : Worker) : World :=
  { s with tx := s.tx.rollback w }.setWorker w x

/-- Commit a worker's transaction. -/
def World.commit (s : World) (w : Owner) (x : Worker) : World :=
  { s with tx := s.tx.commit engine w }.setWorker w x

/-- The deferred balance trigger lets the transaction through. -/
def World.balanced (s : World) (w : Owner) : Bool :=
  Ledger.commitAllowed s.db.ledger (ledgerLog (s.tx.log w))

/-- A worker that learns of an error decides what to write. -/
def World.failed (env : Env) (w : Owner) (run : Run) (rail : Option RailCall) (err : GoError) :
    Worker :=
  .failing run (afterFailure (env.runner w) run err) rail

/-- The schedule a worker draws its delays from. -/
def Env.backoff (env : Env) (w : Owner) : Backoff :=
  newBackoff (env.runner w).backoffBase (env.runner w).backoffMax

/-- One event; `none` when it is not enabled. -/
def World.step (env : Env) (s : World) : Event → Option World
  | .elapse d => some { s with now := s.now + d }
  | .create c =>
    if c.valid ∧ c.quotable ∧ c.unused s.tx then
      match Quoter.quoteAmount c.amountIDR c.rate c.spreadBps with
      | .ok amountUSDC => some { s with tx.db := createIntent s.db (c.rows amountUSDC s.now) }
      | .error _ => none
    else none
  | .refresh => some { s with refs := refreshReferences s.db }
  | .observe signature commitment answer =>
    match checkTransfer env.watcher signature commitment answer with
    | .ok (some (deposit, message)) =>
      some { s with sightings := s.sightings ++ [matchReference s.refs deposit message] }
    | .ok none => some s
    | .error _ => some s
  | .link n =>
    match s.sightings[n]? with
    | some (.seen deposit hit) =>
      some { s with sightings := s.sightings.set n (linkReference s.refs deposit hit) }
    | _ => none
  | .record n uuid began =>
    match s.sightings[n]? with
    | some (.linked deposit hit intentID) =>
      if began ≤ s.now ∧ acceptable s.db (depositRow deposit hit intentID began) ∧
          s.tx.unseen engine (.id uuid) then
        some { s with
          tx.db := recordDeposit s.db (depositRow deposit hit intentID began) uuid began
          sightings := s.sightings.eraseIdx n }
      else none
    | _ => none
  | .forget n => some { s with sightings := s.sightings.eraseIdx n }
  | .claim w id =>
    match s.worker w, Table.find SagaRun.id s.db.sagas id with
    | .idle, some row =>
      if claimable s row then
        some ((s.writeSaga id (·.claim w (s.now + (env.runner w).leaseDuration))).setWorker w
          (.claimed (toRun (row.claim w (s.now + (env.runner w).leaseDuration)))))
      else none
    | _, _ => none
  | .start w =>
    match s.worker w with
    | .claimed run =>
      if env.registered run.currentStep then
        some (s.setWorker w (.executing run s.now (executeStep env.rails run) none))
      else
        some (s.setWorker w (.failing run
          (.fail (.new ("unknown step " ++ quoted run.currentStep.text))) none))
    | _ => none
  | .refuse w msg =>
    match s.worker w with
    | .claimed run =>
      some (s.setWorker w (World.failed env w run none (.wrap "begin tx" (.new msg))))
    | _ => none
  | .exec w input =>
    match s.worker w with
    | .executing run began (.call c k) rail =>
      match c.answer (s.db.view (s.tx.log w)) began input with
      | some (r, es) =>
        if grantable s.tx w c input then
          some ({ s with
            tx := s.tx.extend w (lockedKeys c input) es
            calls := s.calls ++ requests c }.setWorker w
              (.executing run began (k r) (railCall c input rail)))
        else none
      | none => none
    | _ => none
  | .abandon w =>
    match s.worker w with
    | .executing run _ (.throw err) rail => some (s.rollback w (World.failed env w run rail err))
    | _ => none
  | .commit w answer =>
    match s.worker w with
    | .executing run _ (.ret ()) rail =>
      match answer with
      | .ok => if s.balanced w then some (s.commit w .idle) else none
      | .failed msg =>
        some (s.rollback w (World.failed env w run rail (.wrap "commit" (.new msg))))
      | .lost msg =>
        if s.balanced w then
          some (s.commit w (World.failed env w run rail (.wrap "commit" (.new msg))))
        else none
    | _ => none
  | .settle w clock delay =>
    match s.worker w with
    | .failing run decision _ =>
      if unlocked s.tx (.id run.id) then
        match decision with
        | .fail cause => some ((s.writeSaga run.id (·.fail cause.text)).setWorker w .idle)
        | .retry cause =>
          if (env.backoff w).drawsAfter run delay then
            some ((s.writeSaga run.id (·.retry (clock + delay) cause.text)).setWorker w .idle)
          else none
      else none
    | _ => none
  | .crash w => some (s.rollback w .idle)

/-! ## What an event changes -/

section Fields

variable (s : World) (w v : Owner) (x : Worker) (id : UUID) (f : SagaRun → SagaRun)

@[simp] theorem setWorker_tx : (s.setWorker w x).tx = s.tx := rfl

@[simp] theorem setWorker_self : (s.setWorker w x).worker w = x := by simp [World.setWorker]

@[simp] theorem setWorker_ne (h : v ≠ w) : (s.setWorker w x).worker v = s.worker v := by
  simp [World.setWorker, h]

@[simp] theorem setWorker_calls : (s.setWorker w x).calls = s.calls := rfl

@[simp] theorem rollback_tx : (s.rollback w x).tx = s.tx.rollback w := rfl

@[simp] theorem rollback_worker : (s.rollback w x).worker = (s.setWorker w x).worker := rfl

@[simp] theorem commit_tx : (s.commit w x).tx = s.tx.commit engine w := rfl

@[simp] theorem commit_worker : (s.commit w x).worker = (s.setWorker w x).worker := rfl

@[simp] theorem writeSaga_sagas :
    (s.writeSaga id f).db.sagas = Table.update SagaRun.id s.db.sagas id f := rfl

@[simp] theorem writeSaga_log : (s.writeSaga id f).tx.log = s.tx.log := rfl

@[simp] theorem writeSaga_worker : (s.writeSaga id f).worker = s.worker := rfl

end Fields

/-- The worker whose transaction an event rolls back. -/
def Event.rollsBack : Event → Option Owner
  | .abandon w => some w
  | .commit w (.failed _) => some w
  | .crash w => some w
  | _ => none

/-- The worker whose transaction an event commits. -/
def Event.commits : Event → Option Owner
  | .commit w .ok => some w
  | .commit w (.lost _) => some w
  | _ => none

/-- The events that write to a saga row. -/
def Event.writesRow : Event → Bool
  | .claim _ _ => true
  | .commit _ .ok => true
  | .commit _ (.lost _) => true
  | .settle _ _ _ => true
  | _ => false

/-- The write to a saga row that a decision asks for. -/
inductive Settles (env : Env) (w : Owner) (run : Run) (clock : Time) (delay : Int) :
    Decision → (SagaRun → SagaRun) → Prop
  | fail (cause : GoError) : Settles env w run clock delay (.fail cause) (·.fail cause.text)
  | retry (cause : GoError) : (env.backoff w).drawsAfter run delay →
      Settles env w run clock delay (.retry cause) (·.retry (clock + delay) cause.text)

/-- The changes an event can make to the database, the transactions and the workers. -/
inductive Change (env : Env) (s : World) : Event → World → Prop
  /-- Only the clock and the watcher's memory change. -/
  | quiet {e : Event} {t : World} (he : e.writesRow = false) (htx : t.tx = s.tx)
      (hworker : t.worker = s.worker) (hcalls : t.calls = s.calls) (hnow : s.now ≤ t.now) :
      Change env s e t
  | create {c : CreateIntent} {amountUSDC : Int} (hunused : c.unused s.tx) (hvalid : c.valid)
      (hquotable : c.quotable)
      (hquote : Quoter.quoteAmount c.amountIDR c.rate c.spreadBps = .ok amountUSDC) :
      Change env s (.create c) { s with tx.db := createIntent s.db (c.rows amountUSDC s.now) }
  | record {n : Nat} {uuid : UUID} {began : Time} {row : OnchainPayment}
      {sightings : List Sighting} (hok : acceptable s.db row)
      (hid : s.tx.unseen engine (.id uuid)) :
      Change env s (.record n uuid began)
        { s with tx.db := recordDeposit s.db row uuid began, sightings := sightings }
  | claim {w : Owner} {id : UUID} {row : SagaRun} (hidle : s.worker w = .idle)
      (hrow : Table.find SagaRun.id s.db.sagas id = some row) (hclaim : claimable s row) :
      Change env s (.claim w id)
        ((s.writeSaga id (·.claim w (s.now + (env.runner w).leaseDuration))).setWorker w
          (.claimed (toRun (row.claim w (s.now + (env.runner w).leaseDuration)))))
  /-- The step is begun, or the run is given up before. -/
  | start {e : Event} {w : Owner} {run : Run} {x : Worker} (he : e.writesRow = false)
      (hw : s.worker w = .claimed run)
      (hx : x = .executing run s.now (executeStep env.rails run) none ∨
        ∃ decision, x = .failing run decision none) :
      Change env s e (s.setWorker w x)
  | exec {w : Owner} {input : Input} {run : Run} {began : Time} {c : Call} {k : c.Rep → StepM Unit}
      {rail : Option RailCall} {r : c.Rep} {es : List Effect}
      (hw : s.worker w = .executing run began (.call c k) rail)
      (hanswer : c.answer (s.db.view (s.tx.log w)) began input = some (r, es))
      (hgrant : grantable s.tx w c input) :
      Change env s (.exec w input)
        ({ s with
          tx := s.tx.extend w (lockedKeys c input) es
          calls := s.calls ++ requests c }.setWorker w
            (.executing run began (k r) (railCall c input rail)))
  /-- A step failed, its commit failed, or its worker is gone. -/
  | rollback {e : Event} {w : Owner} {x : Worker} (he : e.rollsBack = some w)
      (hx : x = .idle ∨ ∃ run began prog rail decision,
        s.worker w = .executing run began prog rail ∧ x = .failing run decision rail) :
      Change env s e (s.rollback w x)
  | commit {e : Event} {w : Owner} {run : Run} {began : Time} {rail : Option RailCall} {x : Worker}
      (he : e.commits = some w) (hw : s.worker w = .executing run began (.ret ()) rail)
      (hx : e = .commit w .ok ∧ x = .idle ∨
        ∃ msg decision, e = .commit w (.lost msg) ∧ x = .failing run decision rail) :
      Change env s e (s.commit w x)
  | settle {w : Owner} {clock : Time} {delay : Int} {run : Run} {decision : Decision}
      {rail : Option RailCall} {f : SagaRun → SagaRun}
      (hw : s.worker w = .failing run decision rail) (hfree : unlocked s.tx (.id run.id))
      (hf : Settles env w run clock delay decision f) :
      Change env s (.settle w clock delay) ((s.writeSaga run.id f).setWorker w .idle)

/-- Every event makes one of these changes. -/
theorem step_change {env : Env} {s t : World} {e : Event} (h : s.step env e = some t) :
    Change env s e t := by
  cases e with
  | elapse d =>
    cases h
    exact .quiet rfl rfl rfl rfl (by simp)
  | create c =>
    simp only [World.step] at h
    split at h
    · rename_i hguard
      split at h <;> cases h
      exact .create hguard.2.2 hguard.1 hguard.2.1 ‹_›
    · cases h
  | refresh =>
    cases h
    exact .quiet rfl rfl rfl rfl le_rfl
  | observe signature commitment answer =>
    simp only [World.step] at h
    split at h <;> cases h <;> exact .quiet rfl rfl rfl rfl le_rfl
  | link n =>
    simp only [World.step] at h
    split at h <;> cases h
    exact .quiet rfl rfl rfl rfl le_rfl
  | record n uuid began =>
    simp only [World.step] at h
    split at h
    · split at h <;> cases h
      rename_i hguard
      exact .record hguard.2.1 hguard.2.2
    · cases h
  | forget n =>
    cases h
    exact .quiet rfl rfl rfl rfl le_rfl
  | claim w id =>
    simp only [World.step] at h
    split at h
    · split at h <;> cases h
      exact .claim ‹_› ‹_› ‹_›
    · cases h
  | start w =>
    simp only [World.step] at h
    split at h
    · split at h <;> cases h
      · exact .start rfl ‹_› (.inl rfl)
      · exact .start rfl ‹_› (.inr ⟨_, rfl⟩)
    · cases h
  | refuse w msg =>
    simp only [World.step] at h
    split at h <;> cases h
    exact .start rfl ‹_› (.inr ⟨_, rfl⟩)
  | exec w input =>
    simp only [World.step] at h
    split at h
    · split at h
      · split at h <;> cases h
        exact .exec ‹_› ‹_› ‹_›
      · cases h
    · cases h
  | abandon w =>
    simp only [World.step] at h
    split at h <;> cases h
    exact .rollback rfl (.inr ⟨_, _, _, _, _, ‹_›, rfl⟩)
  | commit w answer =>
    simp only [World.step] at h
    split at h
    · rename_i hw
      cases answer with
      | ok =>
        simp only at h
        split at h <;> cases h
        exact .commit rfl hw (.inl ⟨rfl, rfl⟩)
      | failed msg =>
        cases h
        exact .rollback rfl (.inr ⟨_, _, _, _, _, hw, rfl⟩)
      | lost msg =>
        simp only at h
        split at h <;> cases h
        exact .commit rfl hw (.inr ⟨_, _, rfl, rfl⟩)
    · cases h
  | settle w clock delay =>
    simp only [World.step] at h
    split at h
    · rename_i decision _ hw
      split at h
      · cases decision with
        | fail cause =>
          cases h
          exact .settle hw ‹_› (.fail cause)
        | retry cause =>
          simp only at h
          split at h <;> cases h
          exact .settle hw ‹_› (.retry cause ‹_›)
      · cases h
    · cases h
  | crash w =>
    cases h
    exact .rollback rfl (.inl rfl)

/-- What one event does to one worker and the log of its transaction. -/
inductive WorkerChange (env : Env) (s : World) (e : Event) (t : World) (v : Owner) : Prop
  | same (hworker : t.worker v = s.worker v) (hlog : t.tx.log v = s.tx.log v)
  | claim {id : UUID} {row : SagaRun} (he : e = .claim v id) (hidle : s.worker v = .idle)
      (hrow : Table.find SagaRun.id s.db.sagas id = some row) (hclaim : claimable s row)
      (hworker : t.worker v =
        .claimed (toRun (row.claim v (s.now + (env.runner v).leaseDuration))))
      (hlog : t.tx.log v = s.tx.log v)
  | start {run : Run} (hw : s.worker v = .claimed run)
      (hworker : t.worker v = .executing run s.now (executeStep env.rails run) none ∨
        ∃ decision, t.worker v = .failing run decision none)
      (hlog : t.tx.log v = s.tx.log v)
  | exec {input : Input} {run : Run} {began : Time} {c : Call} {k : c.Rep → StepM Unit}
      {rail : Option RailCall} {r : c.Rep} {es : List Effect}
      (hw : s.worker v = .executing run began (.call c k) rail)
      (hanswer : c.answer (s.db.view (s.tx.log v)) began input = some (r, es))
      (hworker : t.worker v = .executing run began (k r) (railCall c input rail))
      (hlog : t.tx.log v = s.tx.log v ++ es) (hdb : t.db = s.db) (he : e = .exec v input)
  | rollback (he : e.rollsBack = some v)
      (hworker : t.worker v = .idle ∨ ∃ run began prog rail decision,
        s.worker v = .executing run began prog rail ∧ t.worker v = .failing run decision rail)
      (hlog : t.tx.log v = [])
  | commit {run : Run} {began : Time} {rail : Option RailCall} (he : e.commits = some v)
      (hw : s.worker v = .executing run began (.ret ()) rail)
      (hworker : t.worker v = .idle ∨ ∃ decision, t.worker v = .failing run decision rail)
      (hlog : t.tx.log v = []) (hdb : t.db = s.db.view (s.tx.log v))
  | settle {run : Run} {decision : Decision} {rail : Option RailCall}
      (hw : s.worker v = .failing run decision rail) (hworker : t.worker v = .idle)
      (hlog : t.tx.log v = s.tx.log v)

/-- An event changes at most the worker it is about. -/
theorem Change.worker {env : Env} {s t : World} {e : Event} (h : Change env s e t) (v : Owner) :
    WorkerChange env s e t v := by
  cases h with
  | quiet he htx hworker => exact .same (by rw [hworker]) (by rw [htx])
  | create => exact .same rfl rfl
  | record => exact .same rfl rfl
  | @claim w id row hidle hrow hclaim =>
    obtain rfl | hv := eq_or_ne v w
    · exact .claim rfl hidle hrow hclaim (by simp) rfl
    · exact .same (by simp [hv]) rfl
  | @start _ w run x he hw hx =>
    obtain rfl | hv := eq_or_ne v w
    · exact .start hw (by simpa using hx) rfl
    · exact .same (by simp [hv]) rfl
  | @exec w input run began c k rail r es hw hanswer =>
    obtain rfl | hv := eq_or_ne v w
    · exact .exec hw hanswer (by simp) (by simp) rfl rfl
    · exact .same (by simp [hv]) (by simp [hv])
  | @rollback _ w x he hx =>
    obtain rfl | hv := eq_or_ne v w
    · exact .rollback he (by simpa using hx) (by simp [TxState.rollback])
    · exact .same (by simp [hv]) (by simp [TxState.rollback, hv])
  | @commit _ w run began rail x he hw hx =>
    obtain rfl | hv := eq_or_ne v w
    · refine .commit he hw ?_ (by simp [TxState.commit]) rfl
      obtain ⟨-, rfl⟩ | ⟨msg, decision, -, rfl⟩ := hx
      · exact .inl (by simp)
      · exact .inr ⟨decision, by simp⟩
    · exact .same (by simp [hv]) (by simp [TxState.commit, hv])
  | @settle w clock delay run decision rail f hw =>
    obtain rfl | hv := eq_or_ne v w
    · exact .settle hw (by simp) rfl
    · exact .same (by simp [hv]) rfl

/-- What a worker commits is the view of its transaction. -/
theorem Change.commit_db {env : Env} {s t : World} {e : Event} {w : Owner} (h : Change env s e t)
    (he : e.commits = some w) : t.db = s.db.view (s.tx.log w) := by
  unfold Event.commits at he
  split at he <;> cases he
  all_goals
    cases h with
    | quiet he => cases he
    | start he => cases he
    | rollback he => cases he
    | commit he => cases he; rfl

/-! ## A small deployment -/

/-- The chart of accounts that the migrations seed. -/
def chartOfAccounts : List Ledger.Account :=
  [⟨101, "asset_hot_wallet_usdc", .asset, "USDC"⟩,
    ⟨102, "liability_user_funds_usdc", .liability, "USDC"⟩,
    ⟨103, "merchant_payable_idr", .liability, "IDR"⟩,
    ⟨104, "asset_cash_out_idr", .asset, "IDR"⟩,
    ⟨105, "revenue_fx_spread_idr", .revenue, "IDR"⟩,
    ⟨106, "expense_network_fee_usdc", .expense, "USDC"⟩,
    ⟨107, "expense_fx_swap_idr", .expense, "IDR"⟩,
    ⟨108, "equity_fx_settlement_usdc", .equity, "USDC"⟩]

/-- Leases of ten units and three attempts for each step. -/
def smallEnv : Env where
  config := fun _ => ⟨10, 3, 1, 4⟩
  registered := fun _ => true
  rails := [mockIDRBankName]
  watcher := ⟨11, 12, 6⟩

/-- One merchant with bank details. -/
def smallWorld : World :=
  .init chartOfAccounts [⟨1, some "BCA", some "0123456789", some "Toko Selat"⟩] 0

/-- A transfer to the hot wallet that names the reference 99. -/
def transferMessage (amount : Nat) : Message :=
  .plain [21, 12, 11, 22, tokenProgramID, 99] false [⟨4, [0, 1, 2, 3],
    [12, .ofNat amount, .ofNat (amount / 256), .ofNat (amount / 65536), 0, 0, 0, 0, 0, 6]⟩]

/-- An intent over 1000 rupiah with the reference 99. -/
def ordering (spreadBps : Int) : List Event :=
  [.create ⟨1, "order-1", 1000, ⟨16250, 0⟩, spreadBps, 100, 99, 2, 3⟩, .refresh]

/-- A finalized deposit for it; the first one enqueues the run 4. -/
def depositing (signature : String) (amount : Nat) (uuid : UUID) : List Event :=
  [.observe signature .finalized (.found 5 none (transferMessage amount)), .link 0,
    .record 0 uuid 0]

/-- The next statements of a worker's step, with the ids they may use. -/
def statements (w : Owner) (first count : Nat) : List Event :=
  (List.range count).map fun n => .exec w (.row (.ofNat 128 (first + n)))

/-- A worker claims the run and executes the statements of its step. -/
def executing (w : Owner) (first count : Nat) : List Event :=
  [.claim w 4, .start w] ++ statements w first count

/-- The rail confirms. -/
def confirmed : RailAnswer := .ok ⟨.success, "bank-1", ""⟩

/-- The execution of `credit_deposit`. -/
def crediting (w : Owner) (first : Nat) : List Event := executing w first 10 ++ [.commit w .ok]

/-- The execution of `trigger_payout` up to the answer of the rail. -/
def submitting (w : Owner) (first : Nat) (answer : RailAnswer) : List Event :=
  executing w first 4 ++ [.exec w (.rail answer)]

/-- The execution of `trigger_payout` with a rail that confirms. -/
def paying (w : Owner) (first : Nat) : List Event :=
  submitting w first confirmed ++ statements w (first + 4) 3 ++ [.commit w .ok]

end Selatpay.Settlement
