import Selatpay.Api.Stages

/-!
# What every run of the API keeps

The tables grow by rows with new keys, every intent has its quote, and every request
is at a stage whose facts hold: what it has looked up is stored and is its merchant's.
-/

namespace Selatpay.Api

open Idempotency

/-! ## The tables -/

/-- The keys of the tables, and the reference of intents to quotes. -/
structure Db.Sound (db : Db) : Prop where
  quoteIDs : (db.quotes.map (·.id)).Nodup
  intentIDs : (db.intents.map (·.id)).Nodup
  refs : (db.intents.map PaymentIntent.ref).Nodup
  quoted : ∀ p ∈ db.intents, ∃ q ∈ db.quotes, q.id = p.quoteID

/-- What a call can do to the tables. -/
inductive Db.Effect (db : Db) (d : Draw) : Op → Db → Prop
  | same {o : Op} : Effect db d o db
  | quote {p : CreateQuoteParams} :
      Effect db d (.createQuote p) { db with quotes := db.quotes ++ [p.row d] }
  | intent {p : CreatePaymentIntentParams} : db.intentByRef p.merchantID p.externalRef = none →
      (∃ q ∈ db.quotes, q.id = p.quoteID) →
      Effect db d (.createPaymentIntent p) { db with intents := db.intents ++ [p.row d] }

section Tables

variable {db db' : Db} {d : Draw} {o : Op} {out : Outcome}

/-- An insertion adds the row of its parameters, or changes nothing and returns no row. -/
theorem Db.insertQuote_cases (db : Db) (d : Draw) (p : CreateQuoteParams) :
    ((∃ err, (db.insertQuote d p).1 = .error err) ∧ (db.insertQuote d p).2 = db) ∨
      db.insertQuote d p = (.ok (p.row d), { db with quotes := db.quotes ++ [p.row d] }) := by
  unfold Db.insertQuote
  split
  · exact .inr rfl
  · exact .inl ⟨⟨_, rfl⟩, rfl⟩

/-- An insertion adds the row of its parameters under a new reference and with its quote, or changes
nothing and returns no row. -/
theorem Db.insertIntent_cases (db : Db) (d : Draw) (p : CreatePaymentIntentParams) :
    ((∃ err, (db.insertIntent d p).1 = .error err) ∧ (db.insertIntent d p).2 = db) ∨
      db.intentByRef p.merchantID p.externalRef = none ∧ (∃ q ∈ db.quotes, q.id = p.quoteID) ∧
        db.insertIntent d p = (.ok (p.row d), { db with intents := db.intents ++ [p.row d] }) := by
  unfold Db.insertIntent
  by_cases htext : IsText p.externalRef
  case neg => exact .inl (by simp [htext])
  by_cases hcheck : 0 < p.amountIDR ∧ 0 < p.quotedAmountUSDC
  case neg => exact .inl (by simp [htext, hcheck])
  cases hrow : db.intentByRef p.merchantID p.externalRef with
  | some row => exact .inl (by simp [htext, hcheck])
  | none =>
    cases hquote : db.quote p.quoteID with
    | none => exact .inl (by simp [htext, hcheck])
    | some q => exact .inr ⟨rfl, ⟨q, Table.mem_of_find hquote⟩, by simp [htext, hcheck]⟩

theorem Db.effect_execute (db : Db) (d : Draw) (o : Op) : db.Effect d o (db.execute d o).2 := by
  cases o with
  | createQuote p =>
    obtain ⟨-, hsame⟩ | hadd := db.insertQuote_cases d p
    · rw [Db.execute, hsame]
      exact .same
    · rw [Db.execute, hadd]
      exact .quote
  | createPaymentIntent p =>
    obtain ⟨-, hsame⟩ | ⟨hnone, hquote, hadd⟩ := db.insertIntent_cases d p
    · rw [Db.execute, hsame]
      exact .same
    · rw [Db.execute, hadd]
      exact .intent hnone hquote
  | getPaymentIntentByMerchantRef m ref => exact .same
  | getPaymentIntentByID id => exact .same
  | getQuote id => exact .same
  | rate pair => exact .same
  | now => exact .same
  | allocate => exact .same

theorem Db.effect_answer (db : Db) (d : Draw) (o : Op) (out : Outcome) :
    db.Effect d o (db.answer d o out).2 := by
  cases out with
  | done => exact db.effect_execute d o
  | lost msg => exact db.effect_execute d o
  | failed msg => exact .same

/-- No call removes or rewrites a row. -/
theorem Db.Effect.grow (h : db.Effect d o db') :
    db.quotes <+: db'.quotes ∧ db.intents <+: db'.intents := by
  cases h with
  | same => exact ⟨List.prefix_rfl, List.prefix_rfl⟩
  | quote => exact ⟨List.prefix_append _ _, List.prefix_rfl⟩
  | intent _ _ => exact ⟨List.prefix_rfl, List.prefix_append _ _⟩

theorem Db.Effect.sound (h : db.Effect d o db') (hs : db.Sound) (hnew : d.IsNew db o) :
    db'.Sound := by
  cases h with
  | same => exact hs
  | quote =>
    refine ⟨Table.nodup_map_concat hs.quoteIDs hnew, hs.intentIDs, hs.refs, fun p hp => ?_⟩
    obtain ⟨q, hq, hid⟩ := hs.quoted p hp
    exact ⟨q, List.mem_append_left _ hq, hid⟩
  | @intent p hnone hquote =>
    exact ⟨hs.quoteIDs, Table.nodup_map_concat hs.intentIDs hnew,
      Table.nodup_map_concat hs.refs (Table.find_eq_none_iff.mp hnone),
      Table.forall_mem_concat hs.quoted hquote⟩

theorem rowOrNone_eq_ok {α : Type} {x : Option α} {a : α} : rowOrNone x = .ok a ↔ x = some a := by
  cases x <;> simp [rowOrNone]

/-- The rate is the one that was drawn. -/
theorem Db.answer_rate {pair : String} : (db.answer d (.rate pair) out).1 = d.rate := by
  cases out <;> rfl

/-- A lookup by reference fails, or returns the row or that there is none. -/
theorem Db.answer_byRef (db : Db) (d : Draw) (m : UUID) (ref : String) (out : Outcome) :
    (∃ msg, (db.answer d (.getPaymentIntentByMerchantRef m ref) out).1 =
      (.error (.failed msg) : Except DbError PaymentIntent)) ∨
    (db.answer d (.getPaymentIntentByMerchantRef m ref) out).1 =
      rowOrNone (db.intentByRef m ref) := by
  cases out with
  | lost msg => exact .inl ⟨msg, rfl⟩
  | failed msg => exact .inl ⟨msg, rfl⟩
  | done =>
    change (∃ msg, (if IsText ref then rowOrNone _ else .error invalidText) = _) ∨
      (if IsText ref then rowOrNone _ else .error invalidText) = _
    split
    · exact .inr rfl
    · exact .inl ⟨_, rfl⟩

/-- The intent a lookup by reference returns. -/
theorem Db.answer_byRef_ok {m : UUID} {ref : String} {p : PaymentIntent}
    (h : (db.answer d (.getPaymentIntentByMerchantRef m ref) out).1 =
      (.ok p : Except DbError PaymentIntent)) : p ∈ db.intents ∧ p.ref = (m, ref) := by
  obtain ⟨msg, hfailed⟩ | hrow := db.answer_byRef d m ref out
  · cases hfailed.symm.trans h
  · exact Table.mem_of_find (rowOrNone_eq_ok.mp (hrow.symm.trans h))

/-- The intent a lookup by id returns. -/
theorem Db.answer_byID_ok {id : UUID} {p : PaymentIntent}
    (h : (db.answer d (.getPaymentIntentByID id) out).1 = (.ok p : Except DbError PaymentIntent)) :
    p ∈ db.intents ∧ p.id = id := by
  cases out with
  | lost msg => cases h
  | failed msg => cases h
  | done => exact Table.mem_of_find (rowOrNone_eq_ok.mp h)

/-- The quote an insertion returns is inserted. -/
theorem Db.answer_createQuote_ok {p : CreateQuoteParams} {q : Quote}
    (h : (db.answer d (.createQuote p) out).1 = (.ok q : Except DbError Quote)) :
    q ∈ (db.answer d (.createQuote p) out).2.quotes := by
  cases out with
  | lost msg => cases h
  | failed msg => cases h
  | done =>
    obtain ⟨⟨err, herr⟩, -⟩ | hadd := db.insertQuote_cases d p
    · simp only [Db.answer, Db.execute, herr] at h
      cases h
    · simp only [Db.answer, Db.execute, hadd] at h ⊢
      cases h
      simp

/-- The intent an insertion returns is inserted. -/
theorem Db.answer_createIntent_ok {p : CreatePaymentIntentParams} {row : PaymentIntent}
    (h : (db.answer d (.createPaymentIntent p) out).1 = (.ok row : Except DbError PaymentIntent)) :
    row = p.row d ∧ row ∈ (db.answer d (.createPaymentIntent p) out).2.intents := by
  cases out with
  | lost msg => cases h
  | failed msg => cases h
  | done =>
    obtain ⟨⟨err, herr⟩, -⟩ | ⟨-, -, hadd⟩ := db.insertIntent_cases d p
    · simp only [Db.answer, Db.execute, herr] at h
      cases h
    · simp only [Db.answer, Db.execute, hadd] at h ⊢
      cases h
      exact ⟨rfl, by simp⟩

end Tables

/-! ## What the stages know -/

/-- The merchant and the body of a request to create an intent that is well formed. -/
def Env.asks (env : Env) (r : Request) : Option (UUID × CreateRequest) :=
  match r.route, r.merchant, env.handlers.decode r.body with
  | .createPaymentIntent, some m, .ok c =>
    if Handlers.validateCreateRequest c = none then some (m, c) else none
  | _, _, _ => none

/-- The intent is the caller's, and of the reference that is asked for. -/
def Env.Concerns (env : Env) (r : Request) (p : PaymentIntent) : Prop :=
  r.merchant = some p.merchantID ∧ ∀ m c, env.asks r = some (m, c) → p.externalRef = c.externalRef

/-- The response describes a stored intent. -/
def Env.Describes (env : Env) (db : Db) (r : Request) (calls : List WriterCall) : Prop :=
  ∃ status p q, (status = statusOK ∨ status = statusCreated) ∧ p ∈ db.intents ∧
    env.Concerns r p ∧
    calls = env.handlers.writeJSON status (.intent (env.handlers.intentToAPI p q))

/-- The response is an error. -/
def Handlers.Refuses (h : Handlers) (calls : List WriterCall) : Prop :=
  ∃ status code msg, 400 ≤ status.code ∧ calls = h.writeError status code msg

/-- What a stage says about its request and the tables. -/
def Handling.Facts (env : Env) (db : Db) (r : Request) (d : Draw) : Handling → Prop
  | .looking m c => env.asks r = some (m, c)
  | .missed m c => env.asks r = some (m, c) ∧ env.handlers.Quotes c
  | .rated m c rate amountUSDC => env.asks r = some (m, c) ∧ d.rate = .ok rate ∧
      Quoter.quoteAmount c.amountIDR rate env.handlers.spreadBps = .ok amountUSDC
  | .timed m c rate amountUSDC _ => env.asks r = some (m, c) ∧ d.rate = .ok rate ∧
      Quoter.quoteAmount c.amountIDR rate env.handlers.spreadBps = .ok amountUSDC
  | .priced m c qt => env.asks r = some (m, c) ∧ 0 < qt.amountUSDC ∧
      ∃ q ∈ db.quotes, q.id = qt.id
  | .placing p => (∃ c, env.asks r = some (p.merchantID, c) ∧ p.externalRef = c.externalRef ∧
      p.amountIDR = c.amountIDR) ∧ 0 < p.quotedAmountUSDC ∧ ∃ q ∈ db.quotes, q.id = p.quoteID
  | .found status p => (status = statusOK ∨ status = statusCreated) ∧ p ∈ db.intents ∧
      env.Concerns r p
  | .fetching m _ => r.merchant = some m ∧ env.asks r = none
  | .ended calls => env.Describes db r calls ∨ env.handlers.Refuses calls

section Facts

variable {env : Env} {db db' : Db} {d : Draw} {r : Request} {st st' : Handling} {o : Op}
  {reply : o.Rep} {out : Outcome}

theorem Env.merchant_of_asks {m : UUID} {c : CreateRequest} (h : env.asks r = some (m, c)) :
    r.merchant = some m := by
  unfold Env.asks at h
  split at h
  · next hm _ =>
    split at h
    · cases h
      exact hm
    · cases h
  · cases h

/-- A well-formed request passes the validation. -/
theorem Env.valid_of_asks {m : UUID} {c : CreateRequest} (h : env.asks r = some (m, c)) :
    Handlers.validateCreateRequest c = none := by
  unfold Env.asks at h
  split at h
  · split at h
    · cases h
      assumption
    · cases h
  · cases h

/-- Rows that are added leave what a stage says. -/
theorem Handling.Facts.mono (h : st.Facts env db r d) (hquotes : db.quotes ⊆ db'.quotes)
    (hintents : db.intents ⊆ db'.intents) : st.Facts env db' r d := by
  cases st with
  | looking m c => exact h
  | missed m c => exact h
  | rated m c rate amountUSDC => exact h
  | timed m c rate amountUSDC now => exact h
  | fetching m id => exact h
  | priced m c qt =>
    obtain ⟨hasks, hpos, q, hq, hid⟩ := h
    exact ⟨hasks, hpos, q, hquotes hq, hid⟩
  | placing p =>
    obtain ⟨hasks, hpos, q, hq, hid⟩ := h
    exact ⟨hasks, hpos, q, hquotes hq, hid⟩
  | found status p =>
    obtain ⟨hstatus, hp, hconcerns⟩ := h
    exact ⟨hstatus, hintents hp, hconcerns⟩
  | ended calls =>
    obtain ⟨status, p, q, hstatus, hp, hrest⟩ | herr := h
    · exact .inl ⟨status, p, q, hstatus, hintents hp, hrest⟩
    · exact .inr herr

theorem Handlers.internalError_facts (code msg : String) :
    (env.handlers.internalError code msg).Facts env db r d :=
  .inr ⟨_, _, _, by decide, rfl⟩

theorem Handlers.notFound_facts : (Handling.ended env.handlers.notFound).Facts env db r d :=
  .inr ⟨_, _, _, by decide, rfl⟩

/-- What a stage says holds again at the stage a reply leads to. -/
theorem Handling.Facts.handles (hf : st.Facts env db r d) (h : Handles env.handlers st o reply st')
    (hreply : (db.answer d o out).1 = reply) : st'.Facts env (db.answer d o out).2 r d := by
  obtain ⟨hquotes, hintents⟩ := (db.effect_answer d o out).grow
  cases h with
  | found p =>
    obtain ⟨hp, href⟩ := Db.answer_byRef_ok hreply
    obtain ⟨hm, he⟩ := Prod.mk.inj href
    refine ⟨.inl rfl, hintents.subset hp, (Env.merchant_of_asks hf).trans (by rw [hm]), ?_⟩
    intro m' c' hasks
    cases hf.symm.trans hasks
    exact he
  | missed hq => exact ⟨hf, hq⟩
  | rated hquote => exact ⟨hf.1, Db.answer_rate.symm.trans hreply, hquote⟩
  | timed now => exact hf
  | priced q =>
    obtain ⟨hpos, -⟩ := Quoter.range_of_quoteAmount_eq_ok hf.2.2
    exact ⟨hf.1, hpos, q, Db.answer_createQuote_ok hreply, rfl⟩
  | placing ref hata =>
    obtain ⟨hasks, hpos, q, hq, hid⟩ := hf
    exact ⟨⟨_, hasks, rfl, rfl⟩, hpos, q, hquotes.subset hq, hid⟩
  | created row =>
    obtain ⟨⟨c, hasks, href, -⟩, -, -⟩ := hf
    obtain ⟨rfl, hrow⟩ := Db.answer_createIntent_ok hreply
    refine ⟨.inr rfl, hrow, Env.merchant_of_asks hasks, ?_⟩
    intro m' c' hasks'
    cases hasks.symm.trans hasks'
    exact href
  | described q =>
    obtain ⟨hstatus, hp, hconcerns⟩ := hf
    exact .inl ⟨_, _, q, hstatus, hintents.subset hp, hconcerns, rfl⟩
  | owned p hm =>
    obtain ⟨hp, -⟩ := Db.answer_byID_ok hreply
    exact ⟨.inl rfl, hintents.subset hp, hf.1.trans (by rw [hm]), by simp [hf.2]⟩
  | foreign p _ => exact Handlers.notFound_facts
  | absent => exact Handlers.notFound_facts
  | unquotable msg _ => exact Handlers.internalError_facts _ _
  | lookupFailed _ => exact Handlers.internalError_facts _ _
  | unpriced _ => exact Handlers.internalError_facts _ _
  | rateFailed err => exact Handlers.internalError_facts _ _
  | quoteFailed err => exact Handlers.internalError_facts _ _
  | noAddress ref _ => exact Handlers.internalError_facts _ _
  | noReference err => exact Handlers.internalError_facts _ _
  | notCreated err => exact Handlers.internalError_facts _ _
  | noQuote err => exact Handlers.internalError_facts _ _
  | fetchFailed _ => exact Handlers.internalError_facts _ _

end Facts

/-! ## Whole runs -/

/-- The handler of the request is at the stage. -/
structure Exchange.At (env : Env) (db : Db) (x : Exchange) (st : Handling) : Prop where
  prog : x.handler = st.prog env.handlers
  facts : st.Facts env db x.request x.draw
  /-- What the middleware has received from the handler is its response. -/
  served : ∀ calls, x.outer.served = some calls → st = .ended calls
  request : x.outer.request = x.request.toMiddleware

/-- Sound tables, requests in phases of the middleware, and handlers at stages. -/
structure Tracked (env : Env) (s : World) : Prop where
  middleware : Idempotency.Tracked env.idempotency s.idempotency
  db : s.db.Sound
  stages : ∀ x ∈ s.exchanges, ∃ st, x.At env s.db st

section Runs

variable {env : Env} {s t : World} {e : Event}

theorem Exchange.At.mono {db db' : Db} {x : Exchange} {st : Handling} (h : x.At env db st)
    (hquotes : db.quotes ⊆ db'.quotes) (hintents : db.intents ⊆ db'.intents) : x.At env db' st :=
  ⟨h.prog, h.facts.mono hquotes hintents, h.served, h.request⟩

/-- The stage a request starts at. -/
theorem Env.exchange_at (env : Env) (db : Db) (r : Request) (d : Draw) :
    ∃ st : Handling, ¬ st.InTurn ∧ (env.exchange r d).At env db st := by
  have hstart : ∃ st : Handling, ¬ st.InTurn ∧ env.serve r = st.prog env.handlers ∧
      st.Facts env db r d := by
    have hrefused (calls : List WriterCall) (h : env.handlers.Refuses calls) :
        ∃ st : Handling, ¬ st.InTurn ∧ Prog.ret calls = st.prog env.handlers ∧
          st.Facts env db r d :=
      ⟨.ended calls, id, rfl, .inr h⟩
    unfold Env.serve
    cases hroute : r.route with
    | getPaymentIntent id =>
      cases hm : r.merchant with
      | none => exact hrefused _ ⟨_, _, _, by decide, rfl⟩
      | some m => exact ⟨.fetching m id, (fun h => h), rfl, hm, by simp [Env.asks, hroute]⟩
    | createPaymentIntent =>
      cases hm : r.merchant with
      | none => exact hrefused _ ⟨_, _, _, by decide, rfl⟩
      | some m =>
        simp only [Handlers.createPaymentIntent]
        cases hdecode : env.handlers.decode r.body with
        | error err => exact hrefused _ ⟨_, _, _, by decide, rfl⟩
        | ok c =>
          cases hvalid : Handlers.validateCreateRequest c with
          | some err =>
            simp only [hvalid]
            exact hrefused _ ⟨_, _, _, by decide, rfl⟩
          | none =>
            refine ⟨.looking m c, id, by simp only [hvalid]; rfl, ?_⟩
            simp [Handling.Facts, Env.asks, hroute, hm, hdecode, hvalid]
  obtain ⟨st, hturn, hprog, hfacts⟩ := hstart
  exact ⟨st, hturn, hprog, hfacts, (fun calls h => by cases h), rfl⟩

/-- The middleware receives what the handler has returned. -/
theorem Exchange.served_of_answer {x : Exchange} {out : Outcome} {y : Idempotency.Exchange}
    {stores stores' : Stores} (h : x.outer.answer stores (x.input out) = some (y, stores')) :
    y.request = x.outer.request ∧ ∀ calls, y.served = some calls →
      x.outer.served = some calls ∨ x.handler = .ret calls := by
  generalize hinput : x.input out = input at h
  cases Idempotency.Exchange.proceeds_of_answer h with
  | store hprog => exact ⟨rfl, fun calls hserved => .inl hserved⟩
  | respond hprog => exact ⟨rfl, fun calls hserved => .inl hserved⟩
  | @serve calls captured k hprog =>
    refine ⟨rfl, fun calls' hserved => .inr ?_⟩
    cases hserved
    simp only [Exchange.input, hprog] at hinput
    split at hinput
    · next hret =>
      cases hinput
      exact hret
    · cases hinput

/-- A stage whose handler has returned is an end. -/
theorem Exchange.At.ended_of_ret {db : Db} {x : Exchange} {st : Handling} (h : x.At env db st)
    {calls : List WriterCall} (hret : x.handler = .ret calls) : st = .ended calls := by
  have hprog := h.prog
  have hfacts := h.facts
  rw [hret] at hprog
  cases st with
  | ended calls' =>
    cases hprog
    rfl
  | missed m c =>
    rw [Handling.prog, create_of_quotes hfacts.2] at hprog
    cases hprog
  | looking m c => cases hprog
  | rated m c rate amountUSDC => cases hprog
  | timed m c rate amountUSDC now => cases hprog
  | priced m c qt => cases hprog
  | placing p => cases hprog
  | found status p => cases hprog
  | fetching m id => cases hprog

/-- What the middleware has received is what the handler has returned. -/
theorem Exchange.At.ret_of_served {db : Db} {x : Exchange} {st : Handling} (h : x.At env db st)
    {calls : List WriterCall} (hserved : x.outer.served = some calls) :
    x.handler = .ret calls := by
  rw [h.prog, h.served calls hserved]
  rfl

/-- A call of the middleware leaves the handler where it is. -/
theorem Exchange.At.answer {db : Db} {x : Exchange} {st : Handling} (h : x.At env db st)
    {out : Outcome} {y : Idempotency.Exchange} {stores stores' : Stores}
    (hanswer : x.outer.answer stores (x.input out) = some (y, stores')) :
    Exchange.At env db { x with outer := y } st := by
  obtain ⟨hreq, hserved⟩ := x.served_of_answer hanswer
  refine ⟨h.prog, h.facts, fun calls hcalls => ?_, hreq.trans h.request⟩
  rcases hserved calls hcalls with hold | hret
  · exact h.served calls hold
  · exact h.ended_of_ret hret

/-- A call takes a handler from one stage to the next. -/
theorem Exchange.At.handles {db : Db} {x : Exchange} {st : Handling} (h : x.At env db st) {o : Op}
    {k : o.Rep → HandlerM (List WriterCall)} (hprog : x.handler = .call o k) (out : Outcome) :
    ∃ st', Handles env.handlers st o (db.answer x.draw o out).1 st' ∧
      Exchange.At env (db.answer x.draw o out).2
        { x with handler := k (db.answer x.draw o out).1 } st' := by
  obtain ⟨st', hhandles, hrest⟩ :=
    handles_of_prog (h.prog.symm.trans hprog) (db.answer x.draw o out).1
  refine ⟨st', hhandles, hrest, h.facts.handles hhandles rfl, fun calls hcalls => ?_, h.request⟩
  have hended := h.served calls hcalls
  rw [h.prog, hended] at hprog
  cases hprog

theorem tracked_step (hs : Tracked env s) (h : step env s e = some t) : Tracked env t := by
  have hchange := change_of_step h
  have hmiddleware : Idempotency.Tracked env.idempotency t.idempotency := by
    obtain hsame | ⟨e', he'⟩ := hchange.idempotency
    · rw [hsame]
      exact hs.middleware
    · exact Idempotency.tracked_step hs.middleware he'
  cases hchange with
  | @arrive r d =>
    obtain ⟨st, -, hst⟩ := env.exchange_at s.db r d
    exact ⟨hmiddleware, hs.db, Table.forall_mem_concat hs.stages ⟨st, hst⟩⟩
  | expire => exact ⟨hmiddleware, hs.db, hs.stages⟩
  | @middleware n out x y stores hx hanswer =>
    obtain ⟨st, hst⟩ := hs.stages x (List.mem_of_getElem? hx)
    exact ⟨hmiddleware, hs.db, Table.forall_mem_set hs.stages ⟨st, hst.answer hanswer⟩ n⟩
  | @handler n out x o k hx hin hprog hnew =>
    have heffect := s.db.effect_answer x.draw o out
    obtain ⟨hquotes, hintents⟩ := heffect.grow
    obtain ⟨st, hst⟩ := hs.stages x (List.mem_of_getElem? hx)
    obtain ⟨st', -, hst'⟩ := hst.handles hprog out
    refine ⟨hmiddleware, heffect.sound hs.db hnew,
      Table.forall_mem_set (fun z hz => ?_) ⟨st', hst'⟩ n⟩
    obtain ⟨stz, hstz⟩ := hs.stages z hz
    exact ⟨stz, hstz.mono hquotes.subset hintents.subset⟩

theorem Tracked.init (env : Env) : Tracked env .init :=
  ⟨Idempotency.Tracked.init _, ⟨by simp [World.init], by simp [World.init], by simp [World.init],
    by simp [World.init]⟩, by simp [World.init]⟩

end Runs

end Selatpay.Api
