import Selatpay.Chain.SplParser
import Selatpay.Store.Statements

/-!
# The deposit watcher

`ProcessSignature` looks a transaction up, checks its transfer, matches a known
reference and then records the deposit; a finalized deposit that is linked to an
intent also enqueues the settlement saga. The reference map is read twice, so the
work on one signature is split at these reads.
-/

namespace Selatpay.Chain

open Store

/-- The deposits the watcher accepts. -/
structure WatcherConfig where
  hotWalletATA : PublicKey
  mint : PublicKey
  expectedDecimals : Nat
  deriving DecidableEq, Repr

/-- The in-memory map from references to intents; later entries replace earlier ones. -/
abbrev References := List (PublicKey × UUID)

/-- The intent a reference is mapped to; an absent one reads as the nil id. -/
def References.lookup (refs : References) (pub : PublicKey) : UUID :=
  match refs.reverse.find? fun r => r.1 = pub with
  | some r => r.2
  | none => 0

/-- `ListActiveReferenceIntents` and the map built from it. -/
def refreshReferences (db : Db) : References :=
  (db.intents.filter fun i => i.state = .pending ∨ i.state = .funded).filterMap fun i =>
    i.referencePubkey.map fun pub => (pub, i.id)

/-- What the RPC node answers for a signature. -/
inductive RpcAnswer
  | notFound
  | error (msg : String)
  | empty
  /-- The transaction failed on chain. -/
  | failed
  | undecodable (msg : String)
  | found (slot : Int) (blockTime : Option Time) (message : Message)

/-- A deposit that passed the checks. -/
structure Deposit where
  signature : String
  slot : Int
  blockTime : Option Time
  transfer : SPLTransfer
  commitment : Commitment
  deriving DecidableEq, Repr

/-- The part of `ProcessSignature` before the references are matched. -/
def checkTransfer (cfg : WatcherConfig) (signature : String) (commitment : Commitment) :
    RpcAnswer → Except String (Option (Deposit × Message))
  | .notFound => .ok none
  | .error msg => .error ("chain: getTransaction " ++ signature ++ ": " ++ msg)
  | .empty => .ok none
  | .failed => .ok none
  | .undecodable msg => .error ("chain: decode transaction " ++ signature ++ ": " ++ msg)
  | .found slot blockTime message =>
    match parseSPLTransferChecked message with
    | .error .noSPLTransfer => .ok none
    | .error (.malformed msg) => .error ("chain: parse transfer " ++ signature ++ ": " ++ msg)
    | .ok transfer =>
      if transfer.dest ≠ cfg.hotWalletATA then .ok none
      else if transfer.mint ≠ cfg.mint then .ok none
      else if transfer.decimals ≠ cfg.expectedDecimals then
        .error ("chain: mint decimals mismatch: tx=" ++ toString transfer.decimals ++ " want=" ++
          toString cfg.expectedDecimals)
      else if transfer.amount > 2 ^ 63 - 1 then
        .error ("chain: amount " ++ toString transfer.amount ++ " exceeds int64 range")
      else .ok (some (⟨signature, slot, blockTime, transfer, commitment⟩, message))

/-- The work on one signature. -/
inductive Sighting
  /-- The references of the message were compared with the known ones. -/
  | seen (deposit : Deposit) (hit : Option PublicKey)
  /-- The intent of the reference was looked up. -/
  | linked (deposit : Deposit) (hit : Option PublicKey) (intentID : Option UUID)
  deriving DecidableEq, Repr

/-- The deposit a sighting is about. -/
def Sighting.deposit : Sighting → Deposit
  | .seen deposit _ => deposit
  | .linked deposit _ _ => deposit

/-- The first read of `matchReference`. -/
def matchReference (refs : References) (deposit : Deposit) (message : Message) : Sighting :=
  .seen deposit (referencesIn message (refs.map Prod.fst)).head?

/-- `intentIDPtr`: the nil id is no link. -/
def intentIDPtr (id : UUID) : Option UUID := if id = 0 then none else some id

/-- The second read of `matchReference`. -/
def linkReference (refs : References) (deposit : Deposit) (hit : Option PublicKey) : Sighting :=
  .linked deposit hit (hit.bind fun pub => intentIDPtr (refs.lookup pub))

/-- The row of a deposit. -/
def depositRow (deposit : Deposit) (hit : Option PublicKey) (intentID : Option UUID)
    (createdAt : Time) : OnchainPayment where
  signature := deposit.signature
  slot := deposit.slot
  blockTime := deposit.blockTime
  fromAta := deposit.transfer.source
  toAta := deposit.transfer.dest
  mint := deposit.transfer.mint
  amount := deposit.transfer.amount
  referencePubkey := hit
  commitment := deposit.commitment
  intentID := intentID
  createdAt := createdAt

/-- The conflict branch of `UpsertOnchainPayment`. -/
def mergePayment (old new : OnchainPayment) : OnchainPayment :=
  { old with
    commitment := if old.commitment.rank < new.commitment.rank then new.commitment
      else old.commitment
    intentID := old.intentID.or new.intentID }

/-- `UpsertOnchainPayment`: the resulting table and the returned row. -/
def upsertOnchainPayment (db : Db) (new : OnchainPayment) : Db × OnchainPayment :=
  match Table.find OnchainPayment.signature db.payments new.signature with
  | none => ({ db with payments := db.payments ++ [new] }, new)
  | some old =>
    ({ db with
        payments := Table.update OnchainPayment.signature db.payments new.signature
          (mergePayment · new) },
      mergePayment old new)

/-- The saga row `EnqueueSagaRun` inserts. -/
def newSagaRun (uuid intentID : UUID) (now : Time) : SagaRun :=
  ⟨uuid, intentID, .settlement, .creditDeposit, .pending, 0, now, none, none, none⟩

/-- `EnqueueSagaRun`: nothing happens when the intent already has a run. -/
def enqueueSagaRun (db : Db) (uuid intentID : UUID) (now : Time) : Db :=
  match db.sagas.find? fun r => r.intentID = intentID ∧ r.sagaKind = .settlement with
  | some _ => db
  | none => { db with sagas := db.sagas ++ [newSagaRun uuid intentID now] }

/-- The transaction of `ProcessSignature`. -/
def recordDeposit (db : Db) (new : OnchainPayment) (uuid : UUID) (now : Time) : Db :=
  match upsertOnchainPayment db new with
  | (db', row) =>
    match row.commitment, row.intentID with
    | .finalized, some intentID => enqueueSagaRun db' uuid intentID now
    | _, _ => db'

/-- The checks and the foreign key of `onchain_payments`. -/
def acceptable (db : Db) (new : OnchainPayment) : Prop :=
  0 < new.amount ∧ 0 ≤ new.slot ∧
    ∀ intentID, new.intentID = some intentID → ∃ i ∈ db.intents, i.id = intentID

instance (db : Db) (new : OnchainPayment) : Decidable (acceptable db new) :=
  match h : new.intentID with
  | none => decidable_of_iff (0 < new.amount ∧ 0 ≤ new.slot) (by simp [acceptable, h])
  | some intentID =>
    decidable_of_iff (0 < new.amount ∧ 0 ≤ new.slot ∧ ∃ i ∈ db.intents, i.id = intentID)
      (by simp [acceptable, h])

/-- A reference that is found is in the map. -/
theorem mem_of_lookup {refs : References} {pub : PublicKey} (h : refs.lookup pub ≠ 0) :
    (pub, refs.lookup pub) ∈ refs := by
  unfold References.lookup at h ⊢
  split
  · rename_i r hfind
    have hpub : r.1 = pub := by simpa using List.find?_some hfind
    have hmem := List.mem_reverse.mp (List.mem_of_find?_eq_some hfind)
    rwa [← hpub]
  · rename_i hnone
    simp [hnone] at h

/-- The transfer of a message that passes the checks of `ProcessSignature`. -/
structure Accepts (cfg : WatcherConfig) (msg : Message) (t : SPLTransfer) : Prop where
  parsed : parseSPLTransferChecked msg = .ok t
  dest : t.dest = cfg.hotWalletATA
  mint : t.mint = cfg.mint
  decimals : t.decimals = cfg.expectedDecimals
  amount : t.amount < 2 ^ 63

theorem Accepts.unique {cfg : WatcherConfig} {msg : Message} {t t' : SPLTransfer}
    (h : Accepts cfg msg t) (h' : Accepts cfg msg t') : t = t' :=
  Except.ok.inj (h.parsed.symm.trans h'.parsed)

/-- An answer gives a deposit exactly if it is a transaction whose transfer is accepted. -/
theorem checkTransfer_eq_some {cfg : WatcherConfig} {signature : String} {commitment : Commitment}
    {answer : RpcAnswer} {deposit : Deposit} {message : Message} :
    checkTransfer cfg signature commitment answer = .ok (some (deposit, message)) ↔
      answer = .found deposit.slot deposit.blockTime message ∧
        Accepts cfg message deposit.transfer ∧ deposit.signature = signature ∧
        deposit.commitment = commitment := by
  constructor
  · intro h
    unfold checkTransfer at h
    split at h <;> try cases h
    next slot blockTime message =>
    split at h <;> try cases h
    next t hparse =>
    split at h <;> try cases h
    next hdest =>
    split at h <;> try cases h
    next hmint =>
    split at h <;> try cases h
    next hdecimals =>
    split at h <;> cases h
    next hamount =>
    have hlt : t.amount < 2 ^ 63 := by omega
    exact ⟨rfl, ⟨hparse, not_ne_iff.mp hdest, not_ne_iff.mp hmint, not_ne_iff.mp hdecimals, hlt⟩,
      rfl, rfl⟩
  · rintro ⟨rfl, h, rfl, rfl⟩
    have hamount : ¬ deposit.transfer.amount > 2 ^ 63 - 1 := by
      have := h.amount
      omega
    simp only [checkTransfer, h.parsed, h.dest, h.mint, h.decimals, ne_eq, not_true, if_false,
      if_neg hamount]

/-- A deposit that passed the checks carries the signature and the commitment it was looked up
with. -/
theorem checkTransfer_ok {cfg : WatcherConfig} {signature : String} {commitment : Commitment}
    {answer : RpcAnswer} {deposit : Deposit} {message : Message}
    (h : checkTransfer cfg signature commitment answer = .ok (some (deposit, message))) :
    deposit.signature = signature ∧ deposit.commitment = commitment :=
  (checkTransfer_eq_some.mp h).2.2

/-! ## What a recorded deposit changes -/

/-- A payment that is finalized and linked to an intent. -/
def Settled (p : OnchainPayment) (intentID : UUID) : Prop :=
  p.intentID = some intentID ∧ p.commitment = .finalized

instance (p : OnchainPayment) (intentID : UUID) : Decidable (Settled p intentID) :=
  inferInstanceAs (Decidable (_ ∧ _))

/-- A settled payment is not changed any more. -/
theorem mergePayment_settled {old : OnchainPayment} {intentID : UUID} (h : Settled old intentID)
    (new : OnchainPayment) : mergePayment old new = old := by
  have hrank : ¬ Commitment.finalized.rank < new.commitment.rank := by
    cases new.commitment <;> decide
  cases old
  obtain ⟨hid, hfinal⟩ := h
  simp only at hid hfinal
  simp [mergePayment, hid, hfinal, hrank]

/-- The payments after an upsert: the row is new, or the stored one is merged with it. -/
inductive PaymentsUpserted (payments : List OnchainPayment) (new : OnchainPayment) :
    List OnchainPayment → Prop
  | inserted : (∀ p ∈ payments, p.signature ≠ new.signature) →
      PaymentsUpserted payments new (payments ++ [new])
  | merged : PaymentsUpserted payments new
      (Table.update OnchainPayment.signature payments new.signature (mergePayment · new))

/-- The saga runs after a deposit was recorded: unchanged, or one more for the intent of a
finalized payment. -/
inductive SagaEnqueued (payments : List OnchainPayment) (sagas : List SagaRun) (uuid : UUID)
    (now : Time) : List SagaRun → Prop
  | unchanged : SagaEnqueued payments sagas uuid now sagas
  | enqueued {p : OnchainPayment} {intentID : UUID} : p ∈ payments →
      p.intentID = some intentID → p.commitment = .finalized →
      (∀ r ∈ sagas, r.intentID ≠ intentID) →
      SagaEnqueued payments sagas uuid now (sagas ++ [newSagaRun uuid intentID now])

/-- An upsert changes the payments only and returns a stored row. -/
theorem upsertOnchainPayment_spec (db : Db) (new : OnchainPayment) : ∃ payments,
    (upsertOnchainPayment db new).1 = { db with payments := payments } ∧
      PaymentsUpserted db.payments new payments ∧ (upsertOnchainPayment db new).2 ∈ payments := by
  unfold upsertOnchainPayment
  cases hf : Table.find OnchainPayment.signature db.payments new.signature with
  | none => exact ⟨_, rfl, .inserted (Table.find_eq_none_iff.mp hf), by simp⟩
  | some old =>
    obtain ⟨hmem, hsig⟩ := Table.mem_of_find hf
    exact ⟨_, rfl, .merged, List.mem_map.mpr ⟨old, hmem, by simp [hsig]⟩⟩

/-- Settled payments stay. -/
theorem PaymentsUpserted.settled {payments payments' : List OnchainPayment} {new : OnchainPayment}
    (h : PaymentsUpserted payments new payments') {p : OnchainPayment} (hp : p ∈ payments)
    {intentID : UUID} (hsettled : Settled p intentID) : p ∈ payments' := by
  cases h with
  | inserted => exact List.mem_append_left _ hp
  | merged => exact List.mem_map.mpr ⟨p, hp, by simp [mergePayment_settled hsettled]⟩

/-- Recording a deposit upserts a payment and enqueues at most one run. -/
theorem recordDeposit_spec (db : Db) (new : OnchainPayment) (uuid : UUID) (now : Time) :
    ∃ payments sagas, recordDeposit db new uuid now =
        { db with payments := payments, sagas := sagas } ∧
      PaymentsUpserted db.payments new payments ∧
      SagaEnqueued payments db.sagas uuid now sagas := by
  obtain ⟨payments, hdb, hupsert, hmem⟩ := upsertOnchainPayment_spec db new
  unfold recordDeposit
  generalize upsertOnchainPayment db new = result at hdb hmem
  obtain ⟨db', row⟩ := result
  simp only at hdb hmem ⊢
  subst hdb
  cases hc : row.commitment with
  | processed => exact ⟨payments, db.sagas, rfl, hupsert, .unchanged⟩
  | confirmed => exact ⟨payments, db.sagas, rfl, hupsert, .unchanged⟩
  | finalized =>
    cases hi : row.intentID with
    | none => exact ⟨payments, db.sagas, rfl, hupsert, .unchanged⟩
    | some intentID =>
      simp only [enqueueSagaRun]
      split
      · exact ⟨payments, db.sagas, rfl, hupsert, .unchanged⟩
      · rename_i hnone
        refine ⟨payments, _, rfl, hupsert, .enqueued hmem hi hc ?_⟩
        intro r hr hid
        have hkind : r.sagaKind = .settlement := by cases r.sagaKind; rfl
        simpa [hid, hkind] using List.find?_eq_none.mp hnone r hr

end Selatpay.Chain
