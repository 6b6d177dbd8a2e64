import Selatpay.Api.Requests

/-!
# The stages of a handler

Between two of its calls a handler is at one of a few stages, each of them a program
that is left to run and what is known by then. `Handles` lists what a reply leads to,
failures included. In every run each request is at a stage whose facts hold, intents
are unique by id and by reference, and each has its quote.
-/

namespace Selatpay.Api

open Idempotency

/-- How far a handler has come. -/
inductive Handling
  /-- The intent of the reference is looked up. -/
  | looking (m : UUID) (c : CreateRequest)
  /-- There was none, and the rate is asked for. -/
  | missed (m : UUID) (c : CreateRequest)
  /-- The amount is priced at this rate, and the clock is read. -/
  | rated (m : UUID) (c : CreateRequest) (rate : Quoter.Rate) (amountUSDC : Int)
  /-- The quote is inserted. -/
  | timed (m : UUID) (c : CreateRequest) (rate : Quoter.Rate) (amountUSDC : Int) (now : Store.Time)
  /-- The quote is issued, and a reference is allocated. -/
  | priced (m : UUID) (c : CreateRequest) (qt : Handlers.Issued)
  /-- The intent is inserted. -/
  | placing (p : CreatePaymentIntentParams)
  /-- An intent of the merchant is at hand, and its quote is fetched. -/
  | found (status : Status) (p : PaymentIntent)
  /-- An intent is looked up by its id. -/
  | fetching (m id : UUID)
  /-- The handler has written its response. -/
  | ended (calls : List WriterCall)

/-- The stages between a lookup that has missed and the insertion. -/
def Handling.InTurn : Handling → Prop
  | .missed _ _ => True
  | .rated _ _ _ _ => True
  | .timed _ _ _ _ _ => True
  | .priced _ _ _ => True
  | .placing _ => True
  | _ => False

/-- The quoter takes the amount and its own spread. -/
def Handlers.Quotes (h : Handlers) (c : CreateRequest) : Prop :=
  0 < c.amountIDR ∧ 0 ≤ h.spreadBps ∧ h.spreadBps ≤ 10000

/-- The parameters of the intent of a priced request. -/
def CreateRequest.params (c : CreateRequest) (m : UUID) (qt : Handlers.Issued)
    (ref : Store.PublicKey) (ata : String) : CreatePaymentIntentParams :=
  ⟨m, c.externalRef, c.amountIDR, qt.amountUSDC, qt.id, .pending, some ref, some ata⟩

/-- The parameters of the quote of a priced request. -/
def Handlers.quoteParams (h : Handlers) (rate : Quoter.Rate) (now : Store.Time) :
    CreateQuoteParams :=
  ⟨Handlers.pairUSDCIDR, rate.num, rate.scale, h.spreadBps, now + h.ttl⟩

/-- What is left to run. -/
def Handling.prog (h : Handlers) : Handling → HandlerM (List WriterCall)
  | .looking m c => h.lookUp m c
  | .missed m c => h.create m c
  | .rated m c rate amountUSDC => Prog.bind (Prog.attempt (.call .now fun now =>
      h.persist Handlers.pairUSDCIDR rate amountUSDC now)) (h.afterQuote m c)
  | .timed m c rate amountUSDC now =>
      (h.persist Handlers.pairUSDCIDR rate amountUSDC now).attempt.bind (h.afterQuote m c)
  | .priced m c qt => h.afterQuote m c (.ok qt)
  | .placing p => h.place p
  | .found status p => h.describe status p
  | .fetching m id => h.fetch m id
  | .ended calls => .ret calls

/-- A failure inside the handler. -/
def Handlers.internalError (h : Handlers) (code msg : String) : Handling :=
  .ended (h.writeError statusInternalServerError code msg)

/-- What a reply leads to. -/
inductive Handles (h : Handlers) : Handling → (o : Op) → o.Rep → Handling → Prop
  | found {m c} (p : PaymentIntent) :
      Handles h (.looking m c) (.getPaymentIntentByMerchantRef m c.externalRef)
        (.ok p : Except DbError PaymentIntent) (.found statusOK p)
  | missed {m c} : h.Quotes c →
      Handles h (.looking m c) (.getPaymentIntentByMerchantRef m c.externalRef)
        (.error .noRows : Except DbError PaymentIntent) (.missed m c)
  | unquotable {m c} (msg : String) : ¬ h.Quotes c →
      Handles h (.looking m c) (.getPaymentIntentByMerchantRef m c.externalRef)
        (.error .noRows : Except DbError PaymentIntent) (h.internalError "quote_failed" msg)
  | lookupFailed {m c} {err : DbError} : err ≠ .noRows →
      Handles h (.looking m c) (.getPaymentIntentByMerchantRef m c.externalRef)
        (.error err : Except DbError PaymentIntent) (h.internalError "lookup" err.text)
  | rated {m c rate amountUSDC} :
      Quoter.quoteAmount c.amountIDR rate h.spreadBps = .ok amountUSDC →
      Handles h (.missed m c) (.rate Handlers.pairUSDCIDR)
        (.ok rate : Except String Quoter.Rate) (.rated m c rate amountUSDC)
  | unpriced {m c rate err} : Quoter.quoteAmount c.amountIDR rate h.spreadBps = .error err →
      Handles h (.missed m c) (.rate Handlers.pairUSDCIDR)
        (.ok rate : Except String Quoter.Rate) (h.internalError "quote_failed" err.text)
  | rateFailed {m c} (err : String) :
      Handles h (.missed m c) (.rate Handlers.pairUSDCIDR)
        (.error err : Except String Quoter.Rate)
        (h.internalError "quote_failed" ("fetch rate: " ++ err))
  | timed {m c rate amountUSDC} (now : Store.Time) :
      Handles h (.rated m c rate amountUSDC) .now now (.timed m c rate amountUSDC now)
  | priced {m c rate amountUSDC now} (q : Quote) :
      Handles h (.timed m c rate amountUSDC now) (.createQuote (h.quoteParams rate now))
        (.ok q : Except DbError Quote) (.priced m c ⟨q.id, amountUSDC⟩)
  | quoteFailed {m c rate amountUSDC now} (err : DbError) :
      Handles h (.timed m c rate amountUSDC now) (.createQuote (h.quoteParams rate now))
        (.error err : Except DbError Quote)
        (h.internalError "quote_failed" ("persist quote: " ++ err.text))
  | placing {m c qt ata} (ref : Store.PublicKey) : h.associatedTokenAddress = .ok ata →
      Handles h (.priced m c qt) .allocate (.ok ref : Except String Store.PublicKey)
        (.placing (c.params m qt ref ata))
  | noAddress {m c qt err} (ref : Store.PublicKey) : h.associatedTokenAddress = .error err →
      Handles h (.priced m c qt) .allocate (.ok ref : Except String Store.PublicKey)
        (h.internalError "derive_ata" err)
  | noReference {m c qt} (err : String) :
      Handles h (.priced m c qt) .allocate (.error err : Except String Store.PublicKey)
        (h.internalError "allocate_reference" err)
  | created {p} (row : PaymentIntent) :
      Handles h (.placing p) (.createPaymentIntent p) (.ok row : Except DbError PaymentIntent)
        (.found statusCreated row)
  | notCreated {p} (err : DbError) :
      Handles h (.placing p) (.createPaymentIntent p) (.error err : Except DbError PaymentIntent)
        (h.internalError "create_intent" err.text)
  | described {status p} (q : Quote) :
      Handles h (.found status p) (.getQuote p.quoteID) (.ok q : Except DbError Quote)
        (.ended (h.writeJSON status (.intent (h.intentToAPI p q))))
  | noQuote {status p} (err : DbError) :
      Handles h (.found status p) (.getQuote p.quoteID) (.error err : Except DbError Quote)
        (h.internalError "fetch_quote" err.text)
  | owned {m id} (p : PaymentIntent) : p.merchantID = m →
      Handles h (.fetching m id) (.getPaymentIntentByID id)
        (.ok p : Except DbError PaymentIntent) (.found statusOK p)
  | foreign {m id} (p : PaymentIntent) : p.merchantID ≠ m →
      Handles h (.fetching m id) (.getPaymentIntentByID id)
        (.ok p : Except DbError PaymentIntent) (.ended h.notFound)
  | absent {m id} : Handles h (.fetching m id) (.getPaymentIntentByID id)
      (.error .noRows : Except DbError PaymentIntent) (.ended h.notFound)
  | fetchFailed {m id} {err : DbError} : err ≠ .noRows →
      Handles h (.fetching m id) (.getPaymentIntentByID id)
        (.error err : Except DbError PaymentIntent) (h.internalError "fetch_intent" err.text)

section Programs

variable {h : Handlers} {st : Handling} {o : Op} {k : o.Rep → HandlerM (List WriterCall)}

/-- The program of a request that is quoted. -/
theorem create_of_quotes {m : UUID} {c : CreateRequest} (hq : h.Quotes c) :
    h.create m c = .call (.rate Handlers.pairUSDCIDR) fun rate =>
      (h.afterRate Handlers.pairUSDCIDR c.amountIDR rate).attempt.bind (h.afterQuote m c) := by
  have hamount : ¬ c.amountIDR ≤ 0 := by have := hq.1; omega
  have hspread : ¬ (h.spreadBps < 0 ∨ h.spreadBps > 10000) := by have := hq.2; omega
  rw [Handlers.create, Handlers.issue, if_neg hamount, if_neg hspread]
  rfl

/-- The program of a request that is not quoted. -/
theorem create_of_not_quotes {m : UUID} {c : CreateRequest} (hq : ¬ h.Quotes c) :
    ∃ msg, h.create m c = .ret (h.writeError statusInternalServerError "quote_failed" msg) := by
  rw [Handlers.create, Handlers.issue]
  by_cases hamount : c.amountIDR ≤ 0
  · rw [if_pos hamount]
    exact ⟨_, rfl⟩
  · have hspread : h.spreadBps < 0 ∨ h.spreadBps > 10000 := by
      unfold Handlers.Quotes at hq
      omega
    rw [if_neg hamount, if_pos hspread]
    exact ⟨_, rfl⟩

/-- A handler goes from stage to stage. -/
theorem handles_of_prog (hprog : st.prog h = .call o k) (reply : o.Rep) :
    ∃ st', Handles h st o reply st' ∧ k reply = st'.prog h := by
  cases st with
  | looking m c =>
    cases hprog
    match reply with
    | .ok p => exact ⟨_, .found p, rfl⟩
    | .error .noRows =>
      by_cases hq : h.Quotes c
      · exact ⟨_, .missed hq, rfl⟩
      · obtain ⟨msg, hmsg⟩ := create_of_not_quotes (m := m) hq
        exact ⟨_, .unquotable msg hq, hmsg⟩
    | .error .unique => exact ⟨_, .lookupFailed (by simp), rfl⟩
    | .error (.failed msg) => exact ⟨_, .lookupFailed (by simp), rfl⟩
  | missed m c =>
    by_cases hq : h.Quotes c
    · rw [Handling.prog, create_of_quotes hq] at hprog
      cases hprog
      match reply with
      | .error err => exact ⟨_, .rateFailed err, rfl⟩
      | .ok rate =>
        cases hquote : Quoter.quoteAmount c.amountIDR rate h.spreadBps with
        | error err =>
          refine ⟨_, .unpriced hquote, ?_⟩
          by_cases hnum : rate.num ≤ 0
          · have hamount : ¬ c.amountIDR ≤ 0 := by have := hq.1; omega
            rw [Quoter.quoteAmount, if_neg hamount, if_pos hnum] at hquote
            cases hquote
            simp only [Handlers.afterRate, if_pos hnum]
            rfl
          · simp only [Handlers.afterRate, if_neg hnum, hquote]
            rfl
        | ok amountUSDC =>
          have hnum : ¬ rate.num ≤ 0 := by
            have := (Quoter.valid_of_quoteAmount_eq_ok hquote).2.1
            omega
          refine ⟨_, .rated hquote, ?_⟩
          simp only [Handlers.afterRate, if_neg hnum, hquote]
          rfl
    · obtain ⟨msg, hmsg⟩ := create_of_not_quotes (m := m) hq
      rw [Handling.prog, hmsg] at hprog
      cases hprog
  | rated m c rate amountUSDC =>
    cases hprog
    exact ⟨_, .timed reply, rfl⟩
  | timed m c rate amountUSDC now =>
    cases hprog
    match reply with
    | .ok q => exact ⟨_, .priced q, rfl⟩
    | .error err => exact ⟨_, .quoteFailed err, rfl⟩
  | priced m c qt =>
    cases hprog
    match reply with
    | .error err => exact ⟨_, .noReference err, rfl⟩
    | .ok ref =>
      cases hata : h.associatedTokenAddress with
      | error err => exact ⟨_, .noAddress ref hata, rfl⟩
      | ok ata => exact ⟨_, .placing ref hata, rfl⟩
  | placing p =>
    cases hprog
    match reply with
    | .ok row => exact ⟨_, .created row, rfl⟩
    | .error err => exact ⟨_, .notCreated err, rfl⟩
  | found status p =>
    cases hprog
    match reply with
    | .ok q => exact ⟨_, .described q, rfl⟩
    | .error err => exact ⟨_, .noQuote err, rfl⟩
  | fetching m id =>
    cases hprog
    match reply with
    | .ok p =>
      by_cases hm : p.merchantID = m
      · exact ⟨_, .owned p hm, by simp only [hm, ne_eq, not_true, if_false]; rfl⟩
      · exact ⟨_, .foreign p hm, by simp only [hm, ne_eq, not_false_iff, if_true]; rfl⟩
    | .error .noRows => exact ⟨_, .absent, rfl⟩
    | .error .unique => exact ⟨_, .fetchFailed (by simp), rfl⟩
    | .error (.failed msg) => exact ⟨_, .fetchFailed (by simp), rfl⟩
  | ended calls => cases hprog

end Programs

end Selatpay.Api
