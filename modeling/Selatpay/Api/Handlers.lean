import Selatpay.Idempotency.Middleware
import Selatpay.Ledger.Types
import Selatpay.Quoter.Amount
import Selatpay.SolanaPay.Amount
import Selatpay.SolanaPay.Url

/-!
# The handlers of payment intents

`createPaymentIntent` and `getPaymentIntent` are programs over single statements of
the database, the rate provider, the clock and the allocator of reference keys, so
that concurrent requests interleave at every one of them. Everything a request draws
from outside, the ids of its rows among it, comes with the request as its `Draw`.
-/

namespace Selatpay.Api

open Idempotency Store

/-- `http.StatusCreated`. -/
def statusCreated : Status := ⟨201, valid_created⟩

/-- `http.StatusNotFound`. -/
def statusNotFound : Status := ⟨404, by decide⟩

/-! ## Rows and what callers see of them -/

/-- A row of `payment_intents`, with the columns the handlers return. -/
structure PaymentIntent extends Store.PaymentIntent where
  recipientAta : Option String
  createdAt : Time
  deriving DecidableEq, Repr

/-- A row of `quotes`, with the columns the handlers return. -/
structure Quote extends Store.Quote where
  pair : String
  deriving DecidableEq, Repr

/-- `apispec.CreatePaymentIntentRequest`, without the description nothing reads. -/
structure CreateRequest where
  externalRef : String
  amountIDR : Int
  deriving DecidableEq, Repr

/-- `apispec.Quote`. -/
structure QuoteView where
  id : UUID
  pair : String
  rate : String
  spreadBps : Int
  expiresAt : Time
  deriving DecidableEq, Repr

/-- `apispec.PaymentIntent`. -/
structure IntentView where
  id : UUID
  merchantID : UUID
  externalRef : String
  amountIDR : Int
  quotedAmountUSDC : Int
  state : IntentState
  referencePubkey : Option Text
  recipientAta : Option String
  createdAt : Time
  quote : QuoteView
  solanaPayURL : Option Text
  deriving DecidableEq, Repr

/-- What a response carries. -/
inductive Body
  | intent (v : IntentView)
  /-- `apispec.Error`. -/
  | error (code message : String)
  deriving DecidableEq, Repr

/-! ## Statements -/

/-- `CreateQuoteParams`. -/
structure CreateQuoteParams where
  pair : String
  rateNum : Int
  rateScale : Int
  spreadBps : Int
  expiresAt : Time
  deriving DecidableEq, Repr

/-- `CreatePaymentIntentParams`. -/
structure CreatePaymentIntentParams where
  merchantID : UUID
  externalRef : String
  amountIDR : Int
  quotedAmountUSDC : Int
  quoteID : UUID
  state : IntentState
  referencePubkey : Option PublicKey
  recipientAta : Option String
  deriving DecidableEq, Repr

/-- The calls of the handlers. -/
inductive Op
  | getPaymentIntentByMerchantRef (merchantID : UUID) (externalRef : String)
  | getPaymentIntentByID (id : UUID)
  | getQuote (id : UUID)
  | createQuote (p : CreateQuoteParams)
  | createPaymentIntent (p : CreatePaymentIntentParams)
  /-- `Provider.Rate`. -/
  | rate (pair : String)
  | now
  /-- `Allocator.Allocate`. -/
  | allocate

/-- Their replies. -/
def Op.Rep : Op → Type
  | .getPaymentIntentByMerchantRef _ _ => Except DbError PaymentIntent
  | .getPaymentIntentByID _ => Except DbError PaymentIntent
  | .getQuote _ => Except DbError Quote
  | .createQuote _ => Except DbError Quote
  | .createPaymentIntent _ => Except DbError PaymentIntent
  | .rate _ => Except String Quoter.Rate
  | .now => Time
  | .allocate => Except String PublicKey

/-- Programs of the handlers; every error is answered in them. -/
abbrev HandlerM := Prog Op.Rep Empty

/-- Issue a call and go on with its reply. -/
def ask {α : Type} (o : Op) (k : o.Rep → HandlerM α) : HandlerM α := .call o k

/-! ## The tables -/

/-- The tables of the handlers. -/
structure Db where
  quotes : List Quote
  intents : List PaymentIntent

/-- What a request draws from outside. -/
structure Draw where
  rate : Except String Quoter.Rate
  now : Time
  /-- The `gen_random_uuid()` of its quote. -/
  quoteID : UUID
  /-- The public key of its fresh keypair. -/
  reference : Except String PublicKey
  /-- The `gen_random_uuid()` of its intent. -/
  intentID : UUID
  /-- The `NOW()` of its insertion. -/
  createdAt : Time

/-- The violation of a check of a column. -/
def checkViolation : DbError := .failed "new row violates check constraint (SQLSTATE 23514)"

/-- A reference to a quote that is not there. -/
def noQuote : DbError :=
  .failed "insert or update on table \"payment_intents\" violates foreign key constraint"

/-- A text with a zero byte, which is no text for the database. -/
def invalidText : DbError :=
  .failed "invalid byte sequence for encoding \"UTF8\": 0x00 (SQLSTATE 22021)"

/-- The database takes the text. -/
def IsText (s : String) : Prop := '\x00' ∉ s.toList

instance (s : String) : Decidable (IsText s) := inferInstanceAs (Decidable (¬ _ ∈ _))

/-- The key of the constraint `UNIQUE (merchant_id, external_ref)`. -/
def PaymentIntent.ref (p : PaymentIntent) : UUID × String := (p.merchantID, p.externalRef)

/-- A selected row, or that there is none. -/
def rowOrNone {α : Type} : Option α → Except DbError α
  | some row => .ok row
  | none => .error .noRows

/-- The quote of an id. -/
def Db.quote (db : Db) (id : UUID) : Option Quote := Table.find (·.id) db.quotes id

/-- The intent of an id. -/
def Db.intent (db : Db) (id : UUID) : Option PaymentIntent := Table.find (·.id) db.intents id

/-- The intent of a merchant's reference. -/
def Db.intentByRef (db : Db) (merchantID : UUID) (externalRef : String) : Option PaymentIntent :=
  Table.find PaymentIntent.ref db.intents (merchantID, externalRef)

/-- The checks of `quotes`. -/
def CreateQuoteParams.Checks (p : CreateQuoteParams) : Prop :=
  0 < p.rateNum ∧ (0 ≤ p.rateScale ∧ p.rateScale ≤ 18) ∧ 0 ≤ p.spreadBps ∧ p.spreadBps ≤ 10000

instance (p : CreateQuoteParams) : Decidable p.Checks := inferInstanceAs (Decidable (_ ∧ _))

/-- The row of a new quote. -/
def CreateQuoteParams.row (p : CreateQuoteParams) (d : Draw) : Quote where
  id := d.quoteID
  rateNum := p.rateNum
  rateScale := p.rateScale
  spreadBps := p.spreadBps
  expiresAt := p.expiresAt
  pair := p.pair

/-- The row of a new intent. -/
def CreatePaymentIntentParams.row (p : CreatePaymentIntentParams) (d : Draw) : PaymentIntent where
  id := d.intentID
  merchantID := p.merchantID
  externalRef := p.externalRef
  amountIDR := p.amountIDR
  quotedAmountUSDC := p.quotedAmountUSDC
  quoteID := p.quoteID
  referencePubkey := p.referencePubkey
  state := p.state
  updatedAt := d.createdAt
  recipientAta := p.recipientAta
  createdAt := d.createdAt

/-- `INSERT INTO quotes … RETURNING *`. -/
def Db.insertQuote (db : Db) (d : Draw) (p : CreateQuoteParams) : Except DbError Quote × Db :=
  if p.Checks then (.ok (p.row d), { db with quotes := db.quotes ++ [p.row d] })
  else (.error checkViolation, db)

/-- `INSERT INTO payment_intents … RETURNING *`. -/
def Db.insertIntent (db : Db) (d : Draw) (p : CreatePaymentIntentParams) :
    Except DbError PaymentIntent × Db :=
  if ¬ IsText p.externalRef then (.error invalidText, db)
  else if ¬ (0 < p.amountIDR ∧ 0 < p.quotedAmountUSDC) then (.error checkViolation, db)
  else if (db.intentByRef p.merchantID p.externalRef).isSome then (.error .unique, db)
  else if (db.quote p.quoteID).isNone then (.error noQuote, db)
  else (.ok (p.row d), { db with intents := db.intents ++ [p.row d] })

/-- The reply and the effect of a call that is executed. -/
def Db.execute (db : Db) (d : Draw) : (o : Op) → o.Rep × Db
  | .getPaymentIntentByMerchantRef merchantID externalRef =>
    (if IsText externalRef then rowOrNone (db.intentByRef merchantID externalRef)
      else .error invalidText, db)
  | .getPaymentIntentByID id => (rowOrNone (db.intent id), db)
  | .getQuote id => (rowOrNone (db.quote id), db)
  | .createQuote p => db.insertQuote d p
  | .createPaymentIntent p => db.insertIntent d p
  | .rate _ => (d.rate, db)
  | .now => (d.now, db)
  | .allocate => (d.reference, db)

/-- The reply of a call when the database reports an error. -/
def Op.failure (d : Draw) (msg : String) : (o : Op) → o.Rep
  | .getPaymentIntentByMerchantRef _ _ => (.error (.failed msg) : Except DbError PaymentIntent)
  | .getPaymentIntentByID _ => (.error (.failed msg) : Except DbError PaymentIntent)
  | .getQuote _ => (.error (.failed msg) : Except DbError Quote)
  | .createQuote _ => (.error (.failed msg) : Except DbError Quote)
  | .createPaymentIntent _ => (.error (.failed msg) : Except DbError PaymentIntent)
  | .rate _ => d.rate
  | .now => d.now
  | .allocate => d.reference

/-- The reply and the effect of a call. -/
def Db.answer (db : Db) (d : Draw) (o : Op) : Outcome → o.Rep × Db
  | .done => db.execute d o
  | .lost msg => (o.failure d msg, (db.execute d o).2)
  | .failed msg => (o.failure d msg, db)

/-- The ids drawn for a call are new. -/
def Draw.IsNew (d : Draw) (db : Db) : Op → Prop
  | .createQuote _ => ∀ q ∈ db.quotes, q.id ≠ d.quoteID
  | .createPaymentIntent _ => ∀ p ∈ db.intents, p.id ≠ d.intentID
  | _ => True

instance (d : Draw) (db : Db) (o : Op) : Decidable (d.IsNew db o) := by
  cases o <;> unfold Draw.IsNew <;> infer_instance

/-! ## Responses -/

/-- `Handlers`, with the configuration of its quoter and what it takes from libraries. -/
structure Handlers where
  /-- `Quoter.spreadBps` and `Quoter.ttl`. -/
  spreadBps : Int
  ttl : Time
  hotWalletPubkey : PublicKey
  usdcMint : PublicKey
  usdcDecimals : Nat
  solanaPayLabel : String
  solanaPayMessage : String
  /-- The texts of keys. -/
  keys : SolanaPay.KeyCodec
  /-- `FindAssociatedTokenAddress` of the hot wallet and the mint. -/
  associatedTokenAddress : Except String String
  /-- `json.Decoder.Decode` of a body. -/
  decode : Bytes → Except String CreateRequest
  /-- `json.Encoder.Encode` of a response. -/
  encode : Body → Bytes

namespace Handlers

/-- `writeJSON`. -/
def writeJSON (h : Handlers) (status : Status) (v : Body) : List WriterCall :=
  [.setHeader "Content-Type" "application/json", .writeHeader status, .write (h.encode v)]

/-- `writeError`. -/
def writeError (h : Handlers) (status : Status) (code msg : String) : List WriterCall :=
  h.writeJSON status (.error code msg)

/-- `formatRate`. -/
def formatRate (num scale : Int) : String :=
  if scale ≤ 0 then toString num
  else
    let str := (toString num).toList
    if scale.toNat ≥ str.length then
      "0." ++ String.ofList (List.replicate (scale.toNat - str.length) '0' ++ str)
    else String.ofList (str.take (str.length - scale.toNat)) ++ "." ++
      String.ofList (str.drop (str.length - scale.toNat))

/-- `buildPayURL`; the reference is kept as the key its text encodes. -/
def buildPayURL (h : Handlers) (p : PaymentIntent) : Except String Text :=
  match p.referencePubkey with
  | none => .ok []
  | some refPub =>
    let msg := if h.solanaPayMessage = "" then "Order " ++ p.externalRef else h.solanaPayMessage
    SolanaPay.buildURL h.keys {
      recipient := h.hotWalletPubkey
      splToken := some h.usdcMint
      amount := SolanaPay.formatAmount (p.quotedAmountUSDC % 2 ^ 64).toNat h.usdcDecimals
      references := [refPub]
      label := text h.solanaPayLabel
      message := text msg
      memo := [] }

/-- `intentToAPI`. -/
def intentToAPI (h : Handlers) (p : PaymentIntent) (q : Quote) : IntentView where
  id := p.id
  merchantID := p.merchantID
  externalRef := p.externalRef
  amountIDR := p.amountIDR
  quotedAmountUSDC := p.quotedAmountUSDC
  state := p.state
  referencePubkey := p.referencePubkey.map h.keys.base58
  recipientAta := p.recipientAta
  createdAt := p.createdAt
  quote := ⟨q.id, q.pair, formatRate q.rateNum q.rateScale, q.spreadBps, q.expiresAt⟩
  solanaPayURL := match h.buildPayURL p with
    | .ok url => if url = [] then none else some url
    | .error _ => none

/-! ## Issuing a quote -/

/-- `PairUSDCIDR`. -/
def pairUSDCIDR : String := "USDC/IDR"

/-- What the handlers read of an issued quote. -/
structure Issued where
  id : UUID
  amountUSDC : Int
  deriving DecidableEq, Repr

/-- The end of `Quoter.Issue`, which persists the quote. -/
def persist (h : Handlers) (pair : String) (rate : Quoter.Rate) (amountUSDC : Int) (now : Time) :
    Prog Op.Rep String Issued :=
  .call (.createQuote ⟨pair, rate.num, rate.scale, h.spreadBps, now + h.ttl⟩)
    fun (row : Except DbError Quote) => match row with
      | .ok row => .ret ⟨row.id, amountUSDC⟩
      | .error err => .throw ("persist quote: " ++ err.text)

/-- `Quoter.Issue` after the provider has replied. -/
def afterRate (h : Handlers) (pair : String) (amountIDR : Int) :
    Except String Quoter.Rate → Prog Op.Rep String Issued
  | .error err => .throw ("fetch rate: " ++ err)
  | .ok rate =>
    if rate.num ≤ 0 then .throw Quoter.QuoteError.invalidRate.text
    else match Quoter.quoteAmount amountIDR rate h.spreadBps with
      | .error err => .throw err.text
      | .ok amountUSDC => .call .now fun (now : Time) => h.persist pair rate amountUSDC now

/-- `Quoter.Issue`, up to the text of its error. -/
def issue (h : Handlers) (pair : String) (amountIDR : Int) : Prog Op.Rep String Issued :=
  if amountIDR ≤ 0 then .throw Quoter.QuoteError.amountNonPositive.text
  else if h.spreadBps < 0 ∨ h.spreadBps > 10000 then .throw Quoter.QuoteError.invalidSpread.text
  else .call (.rate pair) (h.afterRate pair amountIDR)

/-! ## The handlers -/

/-- `validateCreateRequest`: the first violated rule. -/
def validateCreateRequest (r : CreateRequest) : Option String :=
  if Ledger.isBlank r.externalRef then some "external_ref is required"
  else if r.externalRef.utf8ByteSize > 128 then some "external_ref exceeds 128 characters"
  else if r.amountIDR ≤ 0 then some "amount_idr must be positive"
  else none

/-- Fetch the quote of an intent and describe the intent. -/
def describe (h : Handlers) (status : Status) (p : PaymentIntent) : HandlerM (List WriterCall) :=
  ask (.getQuote p.quoteID) fun (quote : Except DbError Quote) => match quote with
    | .ok quote => .ret (h.writeJSON status (.intent (h.intentToAPI p quote)))
    | .error err => .ret (h.writeError statusInternalServerError "fetch_quote" err.text)

/-- The insertion of `CreatePaymentIntent`. -/
def place (h : Handlers) (p : CreatePaymentIntentParams) : HandlerM (List WriterCall) :=
  ask (.createPaymentIntent p) fun (created : Except DbError PaymentIntent) => match created with
    | .ok created => h.describe statusCreated created
    | .error err => .ret (h.writeError statusInternalServerError "create_intent" err.text)

/-- `CreatePaymentIntent` after its quote is issued, or is not. -/
def afterQuote (h : Handlers) (merchantID : UUID) (body : CreateRequest) :
    Except String Issued → HandlerM (List WriterCall)
  | .error err => .ret (h.writeError statusInternalServerError "quote_failed" err)
  | .ok qt => ask .allocate fun (ref : Except String PublicKey) => match ref with
    | .error err => .ret (h.writeError statusInternalServerError "allocate_reference" err)
    | .ok ref => match h.associatedTokenAddress with
      | .error err => .ret (h.writeError statusInternalServerError "derive_ata" err)
      | .ok ata => h.place ⟨merchantID, body.externalRef, body.amountIDR, qt.amountUSDC, qt.id,
          .pending, some ref, some ata⟩

/-- `CreatePaymentIntent` for a reference without an intent. -/
def create (h : Handlers) (merchantID : UUID) (body : CreateRequest) :
    HandlerM (List WriterCall) :=
  (h.issue pairUSDCIDR body.amountIDR).attempt.bind (h.afterQuote merchantID body)

/-- `CreatePaymentIntent` for a request that is valid. -/
def lookUp (h : Handlers) (merchantID : UUID) (body : CreateRequest) :
    HandlerM (List WriterCall) :=
  ask (.getPaymentIntentByMerchantRef merchantID body.externalRef)
    fun (existing : Except DbError PaymentIntent) => match existing with
      | .ok existing => h.describe statusOK existing
      | .error .noRows => h.create merchantID body
      | .error err => .ret (h.writeError statusInternalServerError "lookup" err.text)

/-- The response without a merchant. -/
def unauthenticated (h : Handlers) : List WriterCall :=
  h.writeError statusUnauthorized "unauthenticated" "no merchant on context"

/-- `CreatePaymentIntent`. -/
def createPaymentIntent (h : Handlers) (merchant : Option UUID) (body : Bytes) :
    HandlerM (List WriterCall) :=
  match merchant with
  | none => .ret h.unauthenticated
  | some merchantID => match h.decode body with
    | .error err => .ret (h.writeError statusBadRequest "invalid_json" err)
    | .ok body => match validateCreateRequest body with
      | some err => .ret (h.writeError statusBadRequest "invalid_request" err)
      | none => h.lookUp merchantID body

/-- The response for an intent that is not there, or not the caller's. -/
def notFound (h : Handlers) : List WriterCall :=
  h.writeError statusNotFound "not_found" "payment intent not found"

/-- `GetPaymentIntent` for a request with a merchant. -/
def fetch (h : Handlers) (merchantID id : UUID) : HandlerM (List WriterCall) :=
  ask (.getPaymentIntentByID id) fun (intent : Except DbError PaymentIntent) => match intent with
    | .error .noRows => .ret h.notFound
    | .error err => .ret (h.writeError statusInternalServerError "fetch_intent" err.text)
    | .ok intent =>
      if intent.merchantID ≠ merchantID then .ret h.notFound else h.describe statusOK intent

/-- `GetPaymentIntent`. -/
def getPaymentIntent (h : Handlers) (merchant : Option UUID) (id : UUID) :
    HandlerM (List WriterCall) :=
  match merchant with
  | none => .ret h.unauthenticated
  | some merchantID => h.fetch merchantID id

end Handlers

end Selatpay.Api
