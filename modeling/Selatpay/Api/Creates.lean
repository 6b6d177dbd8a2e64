import Selatpay.Api.Invariant
import Selatpay.Core.Turns
import Selatpay.Idempotency.Availability

/-!
# Concurrent requests for one reference

`CreatePaymentIntent` looks for an intent of the reference, and inserts one later
without anything that marks the reference as taken in between. Of two requests whose
lookups both miss, one is told that the insertion failed. As long as no lookup misses
while another request of the reference is on its way to its insertion, and everything
outside is available, all requests of the reference are answered with one intent.
-/

namespace Selatpay.Api

open Idempotency

/-- The reference a well-formed request is about. -/
def Env.target (env : Env) (r : Request) : Option (UUID × String) :=
  (env.asks r).map fun (m, c) => (m, c.externalRef)

/-- The handler has found no intent, and has not inserted one yet. -/
def Exchange.InTurn (x : Exchange) : Prop :=
  match x.handler with
  | .call (.rate _) _ => True
  | .call .now _ => True
  | .call (.createQuote _) _ => True
  | .call .allocate _ => True
  | .call (.createPaymentIntent _) _ => True
  | _ => False

/-- The rate prices the request, and fits into a quote. -/
def Env.Prices (env : Env) (c : CreateRequest) : Except String Quoter.Rate → Prop
  | .error _ => False
  | .ok rate => (0 ≤ rate.scale ∧ rate.scale ≤ 18) ∧
      (Quoter.quoteAmount c.amountIDR rate env.handlers.spreadBps).isOk = true

/-- Rate provider and allocator are available to a request, and the reference is a text of the
database. -/
def Env.Supplied (env : Env) (r : Request) (d : Draw) : Prop :=
  ∀ q ∈ env.asks r, IsText q.2.externalRef ∧ env.Prices q.2 d.rate ∧ d.reference.isOk = true ∧
    env.handlers.associatedTokenAddress.isOk = true

/-- Both create an intent with one `Idempotency-Key`. -/
def Request.SharesKey (a b : Request) : Prop :=
  a.route = .createPaymentIntent ∧ b.route = .createPaymentIntent ∧ a.merchant = b.merchant ∧
    a.idempotencyKey = b.idempotencyKey

/-- The next call is one to Redis. -/
def Exchange.AsksRedis (x : Exchange) : Prop :=
  match x.outer.prog with
  | .call (.store (.redisGet _)) _ => True
  | .call (.store (.redisSet _ _)) _ => True
  | _ => False

/-- A lookup finds no intent only while no other request of the reference is in its turn. -/
def Exchange.LooksAlone (env : Env) (s : World) (x : Exchange) : Prop :=
  x.InHandler → match x.handler with
    | .call (.getPaymentIntentByMerchantRef m ref) _ => s.db.intentByRef m ref = none →
        ∀ y ∈ s.exchanges, env.target y.request = some (m, ref) → ¬ y.InTurn
    | _ => True

/-- Everything outside is available, a key is used again with the same body only, and lookups that
find no intent take turns. -/
def CreatesInTurn (env : Env) (s : World) : Event → Prop
  | .arrive r d => env.Supplied r d ∧
      ∀ x ∈ s.exchanges, x.request.SharesKey r → r.idempotencyKey = "" ∨ x.request.body = r.body
  | .call n out => ∀ x ∈ s.exchanges[n]?, (x.AsksRedis ∨ out = .done) ∧ x.LooksAlone env s
  | .expire _ => True

instance (x : Exchange) : Decidable x.InTurn := by
  unfold Exchange.InTurn
  split <;> infer_instance

instance (env : Env) (c : CreateRequest) (rate : Except String Quoter.Rate) :
    Decidable (env.Prices c rate) := by
  unfold Env.Prices
  split <;> infer_instance

instance (env : Env) (r : Request) (d : Draw) : Decidable (env.Supplied r d) :=
  inferInstanceAs (Decidable (∀ q ∈ env.asks r, _))

instance (a b : Request) : Decidable (a.SharesKey b) := inferInstanceAs (Decidable (_ ∧ _))

instance : (x : Exchange) → Decidable x.AsksRedis
  | ⟨_, _, ⟨_, .call (.store (.redisGet _)) _, _, _⟩, _⟩ => .isTrue trivial
  | ⟨_, _, ⟨_, .call (.store (.redisSet _ _)) _, _, _⟩, _⟩ => .isTrue trivial
  | ⟨_, _, ⟨_, .call (.store (.getIdempotencyKey _ _)) _, _, _⟩, _⟩ => .isFalse (fun h => h)
  | ⟨_, _, ⟨_, .call (.store (.insertIdempotencyKey _)) _, _, _⟩, _⟩ => .isFalse (fun h => h)
  | ⟨_, _, ⟨_, .call (.serveHTTP _) _, _, _⟩, _⟩ => .isFalse (fun h => h)
  | ⟨_, _, ⟨_, .call (.respond _) _, _, _⟩, _⟩ => .isFalse (fun h => h)
  | ⟨_, _, ⟨_, .ret _, _, _⟩, _⟩ => .isFalse (fun h => h)

instance (env : Env) (s : World) (x : Exchange) : Decidable (x.LooksAlone env s) := by
  unfold Exchange.LooksAlone
  refine @instDecidableForall _ _ inferInstance ?_
  split <;> infer_instance

instance (env : Env) (s : World) (e : Event) : Decidable (CreatesInTurn env s e) := by
  unfold CreatesInTurn
  split <;> infer_instance

/-! ## Turns as stages -/

section Stages

variable {env : Env} {db : Db} {x : Exchange} {st st' : Handling} {o : Op} {reply : o.Rep}

theorem Exchange.At.inTurn_iff (h : x.At env db st) : x.InTurn ↔ st.InTurn := by
  have hprog := h.prog
  have hfacts := h.facts
  unfold Exchange.InTurn
  cases st with
  | missed m c =>
    rw [Handling.prog, create_of_quotes hfacts.2] at hprog
    rw [hprog]
    rfl
  | _ =>
    rw [hprog]
    rfl

theorem Env.target_of_asks {r : Request} {m : UUID} {c : CreateRequest}
    (h : env.asks r = some (m, c)) : env.target r = some (m, c.externalRef) := by
  simp [Env.target, h]

theorem Env.asks_of_target {r : Request} {m : UUID} {ref : String}
    (h : env.target r = some (m, ref)) : ∃ c, env.asks r = some (m, c) ∧ c.externalRef = ref := by
  obtain ⟨⟨m', c⟩, hasks, hpair⟩ := Option.map_eq_some_iff.mp h
  cases hpair
  exact ⟨c, hasks, rfl⟩

theorem Env.exists_asks {r : Request} (h : (env.target r).isSome = true) :
    ∃ m c, env.asks r = some (m, c) := by
  obtain ⟨⟨m, ref⟩, htarget⟩ := Option.isSome_iff_exists.mp h
  obtain ⟨c, hasks, -⟩ := Env.asks_of_target htarget
  exact ⟨m, c, hasks⟩

/-- A request enters its turn with a lookup that has missed. -/
theorem Handles.inTurn (h : Handles env.handlers st o reply st') (hturn : st'.InTurn) :
    st.InTurn ∨ ∃ m c, st = .looking m c ∧ st' = .missed m c := by
  cases h with
  | missed _ => exact .inr ⟨_, _, rfl, rfl⟩
  | rated _ => exact .inl trivial
  | timed _ => exact .inl trivial
  | priced _ => exact .inl trivial
  | placing _ _ => exact .inl trivial
  | _ => cases hturn

end Stages

/-! ## Nothing fails in a turn -/

section Success

variable {env : Env} {db : Db} {x : Exchange} {st st' : Handling} {o : Op} {m : UUID}
  {c : CreateRequest}

theorem rowOrNone_eq_error {α : Type} {row : Option α} {err : DbError}
    (h : rowOrNone row = .error err) : row = none ∧ err = .noRows := by
  cases row with
  | none =>
    cases h
    exact ⟨rfl, rfl⟩
  | some a => cases h

/-- A reference that is looked up has no intent, or the lookup says so. -/
theorem Db.intentByRef_of_noRows {d : Draw} {ref : String} {out : Outcome}
    (h : (db.answer d (.getPaymentIntentByMerchantRef m ref) out).1 =
      (.error .noRows : Except DbError PaymentIntent)) : db.intentByRef m ref = none := by
  obtain ⟨msg, hfailed⟩ | hrow := db.answer_byRef d m ref out
  · cases hfailed.symm.trans h
  · exact (rowOrNone_eq_error (hrow.symm.trans h)).1

/-- A rate that prices a request. -/
theorem Env.Prices.exists_rate {rate : Except String Quoter.Rate} (h : env.Prices c rate) :
    ∃ r amountUSDC, rate = .ok r ∧ (0 ≤ r.scale ∧ r.scale ≤ 18) ∧
      Quoter.quoteAmount c.amountIDR r env.handlers.spreadBps = .ok amountUSDC := by
  cases rate with
  | error err => cases h
  | ok r =>
    obtain ⟨hscale, hok⟩ := h
    cases hquote : Quoter.quoteAmount c.amountIDR r env.handlers.spreadBps with
    | error err => simp [hquote, Except.isOk, Except.toBool] at hok
    | ok amountUSDC => exact ⟨r, amountUSDC, rfl, hscale, hquote⟩

/-- An intent whose checks hold is inserted under a reference without one. -/
theorem Db.insertIntent_of_unplaced {d : Draw} {p : CreatePaymentIntentParams}
    (htext : IsText p.externalRef) (hamount : 0 < p.amountIDR) (hquoted : 0 < p.quotedAmountUSDC)
    (hquote : ∃ q ∈ db.quotes, q.id = p.quoteID) (hs : db.Sound)
    (hnone : db.intentByRef p.merchantID p.externalRef = none) :
    (db.insertIntent d p).1 = .ok (p.row d) := by
  obtain ⟨q, hq, hid⟩ := hquote
  have hfind : db.quote p.quoteID = some q := hid ▸ Table.find_of_mem hs.quoteIDs hq
  simp [Db.insertIntent, htext, hamount, hquoted, hnone, hfind]

/-- A request that is supplied is described an intent when its handler ends. -/
theorem Exchange.At.describes (h : x.At env db st) (hs : db.Sound)
    (hasks : env.asks x.request = some (m, c)) (hsupplied : env.Supplied x.request x.draw)
    (hunplaced : st.InTurn → db.intentByRef m c.externalRef = none)
    (hhandles : Handles env.handlers st o (db.answer x.draw o .done).1 st')
    {calls : List WriterCall} (hended : st' = .ended calls) :
    env.Describes db x.request calls := by
  have hfacts := h.facts
  obtain ⟨htext, hprices, href, hata⟩ := hsupplied (m, c) hasks
  obtain ⟨rate, amountUSDC, hrate, hscale, hquote⟩ := hprices.exists_rate
  obtain ⟨hamount, hnum, hspread, hspread'⟩ := Quoter.valid_of_quoteAmount_eq_ok hquote
  generalize hreply : (db.answer x.draw o .done).1 = reply at hhandles
  cases hhandles with
  | found p => cases hended
  | missed _ => cases hended
  | rated _ => cases hended
  | timed _ => cases hended
  | priced _ => cases hended
  | placing _ _ => cases hended
  | created _ => cases hended
  | owned _ _ => cases hended
  | described q =>
    cases hended
    obtain ⟨hstatus, hp, hconcerns⟩ := hfacts
    exact ⟨_, _, q, hstatus, hp, hconcerns, rfl⟩
  | foreign p _ => exact absurd hasks (by simp [hfacts.2])
  | absent => exact absurd hasks (by simp [hfacts.2])
  | fetchFailed _ => exact absurd hasks (by simp [hfacts.2])
  | unquotable msg hnot =>
    cases hfacts.symm.trans hasks
    exact absurd ⟨hamount, hspread, by omega⟩ hnot
  | lookupFailed hne =>
    cases hfacts.symm.trans hasks
    change (if IsText c.externalRef then rowOrNone _ else .error invalidText) = _ at hreply
    rw [if_pos htext] at hreply
    exact absurd (rowOrNone_eq_error hreply).2 hne
  | unpriced herr =>
    cases hfacts.1.symm.trans hasks
    cases hrate.symm.trans hreply
    simp [hquote] at herr
  | rateFailed err => cases hrate.symm.trans hreply
  | quoteFailed err =>
    cases hrate.symm.trans hfacts.2.1
    have hchecks (now : Store.Time) : (env.handlers.quoteParams rate now).Checks :=
      ⟨hnum, hscale, hspread, hspread'.le⟩
    change (db.insertQuote x.draw _).1 = _ at hreply
    rw [Db.insertQuote, if_pos (hchecks _)] at hreply
    cases hreply
  | noAddress _ herr => simp [herr, Except.isOk, Except.toBool] at hata
  | noReference err =>
    have herr : x.draw.reference = .error err := hreply
    simp [herr, Except.isOk, Except.toBool] at href
  | notCreated err =>
    obtain ⟨⟨c', hasks', href', hidr⟩, hquoted, hstored⟩ := hfacts
    cases hasks'.symm.trans hasks
    have hnone := hunplaced trivial
    have hpos : 0 < c.amountIDR := hamount
    rw [← href'] at hnone
    rw [← hidr] at hpos
    have hok := Db.insertIntent_of_unplaced (d := x.draw) (href' ▸ htext) hpos hquoted hstored hs
      hnone
    cases hok.symm.trans hreply
  | noQuote err =>
    obtain ⟨q, hq, hid⟩ := hs.quoted _ hfacts.2.1
    have hfind : db.quote _ = some q := hid ▸ Table.find_of_mem hs.quoteIDs hq
    have hok : rowOrNone (db.quote _) = .error err := hreply
    simp [hfind, rowOrNone] at hok

end Success

/-! ## Responses -/

section Responses

variable {env : Env} {db db' : Db} {r : Request} {calls : List WriterCall}

/-- A response with an intent, captured or not. -/
theorem Handlers.writeJSON_response (h : Handlers) {status : Status}
    (hstatus : status = statusOK ∨ status = statusCreated) (v : Body) :
    (capture .fresh (h.writeJSON status v)).status = status ∧
      (capture .fresh (h.writeJSON status v)).responseWriter.status = status ∧
      (capture .fresh (h.writeJSON status v)).responseWriter.body = h.encode v ∧
      (ResponseWriter.fresh.calls (h.writeJSON status v)).status = status ∧
      (ResponseWriter.fresh.calls (h.writeJSON status v)).body = h.encode v := by
  rcases hstatus with rfl | rfl <;> exact ⟨rfl, rfl, rfl, rfl, rfl⟩

/-- The caller has received an intent of the reference that is stored. -/
def Env.Receives (env : Env) (db : Db) (r : Request) (w : ResponseWriter) : Prop :=
  (w.status = statusOK ∨ w.status = statusCreated) ∧
    ∃ p q, p ∈ db.intents ∧ env.Concerns r p ∧
      w.body = env.handlers.encode (.intent (env.handlers.intentToAPI p q))

theorem Env.Describes.receives (h : env.Describes db r calls) :
    env.Receives db r (capture .fresh calls).responseWriter ∧
      env.Receives db r (ResponseWriter.fresh.calls calls) ∧
      (capture .fresh calls).status.code < 400 := by
  obtain ⟨status, p, q, hstatus, hp, hconcerns, rfl⟩ := h
  obtain ⟨hcaptured, hstatus₁, hbody₁, hstatus₂, hbody₂⟩ :=
    env.handlers.writeJSON_response hstatus (.intent (env.handlers.intentToAPI p q))
  refine ⟨⟨by rwa [hstatus₁], p, q, hp, hconcerns, hbody₁⟩,
    ⟨by rwa [hstatus₂], p, q, hp, hconcerns, hbody₂⟩, ?_⟩
  rw [hcaptured]
  rcases hstatus with rfl | rfl <;> decide

theorem Env.Describes.mono (h : env.Describes db r calls) (hintents : db.intents ⊆ db'.intents) :
    env.Describes db' r calls := by
  obtain ⟨status, p, q, hstatus, hp, hrest⟩ := h
  exact ⟨status, p, q, hstatus, hintents hp, hrest⟩

/-- Requests that ask for the same ask for the same reference. -/
theorem Env.asks_congr {a b : Request} (hroute : a.route = b.route)
    (hmerchant : a.merchant = b.merchant) (hbody : a.body = b.body) : env.asks a = env.asks b := by
  simp only [Env.asks, hroute, hmerchant, hbody]

end Responses

/-! ## Turns are taken one after the other -/

/-- The turns of a reference are taken one after the other and nothing has failed in them. -/
structure Converging (env : Env) (s : World) : Prop where
  tracked : Tracked env s
  captured : RowsCaptured env.idempotency s.idempotency
  supplied : ∀ x ∈ s.exchanges, env.Supplied x.request x.draw
  bodies : ∀ x ∈ s.exchanges, ∀ y ∈ s.exchanges, x.request.SharesKey y.request →
    y.request.idempotencyKey = "" ∨ x.request.body = y.request.body
  order : InOrder (fun x : Exchange => env.target x.request) Exchange.InTurn Exchange.InTurn
    (fun _ => False) s.exchanges
  unplaced : ∀ x ∈ s.exchanges, x.InTurn → ∀ m ref, env.target x.request = some (m, ref) →
    s.db.intentByRef m ref = none
  described : ∀ x ∈ s.exchanges, (env.target x.request).isSome = true → ∀ calls,
    x.handler = .ret calls → env.Describes s.db x.request calls
  settled : ∀ x ∈ s.exchanges, (env.target x.request).isSome = true →
    x.outer.prog.Wp (Op.Fits (env.idempotency.keyed x.outer))
      (fun _ g => g.Settled (env.idempotency.keyed x.outer) x.outer.request)
      ⟨x.outer.w, x.outer.served⟩

section Steps

variable {env : Env} {s t : World} {e : Event}

/-- A request to create an intent, as the middleware sees it. -/
theorem Env.keyed_of_target {x : Exchange} (hx : x.outer.request = x.request.toMiddleware)
    {m : UUID} (hm : x.request.merchant = some m) :
    env.idempotency.keyed x.outer = ⟨m, x.request.idempotencyKey, env.sum256 x.request.body⟩ := by
  simp [Idempotency.Env.keyed, Middleware.keyed, Idempotency.Env.middleware, Env.idempotency, hx,
    Request.toMiddleware, hm, hashRequest, Except.toOption]

theorem Env.route_of_asks {r : Request} {m : UUID} {c : CreateRequest}
    (h : env.asks r = some (m, c)) : r.route = .createPaymentIntent := by
  unfold Env.asks at h
  split at h
  · next hroute _ _ => exact hroute
  · cases h

/-- The middleware takes care of requests to create an intent with a key. -/
theorem Request.guarded_iff (r : Request) :
    r.toMiddleware.Guarded ↔ r.route = .createPaymentIntent ∧ r.idempotencyKey ≠ "" := by
  cases hroute : r.route with
  | createPaymentIntent =>
    simp [Idempotency.Request.Guarded, Request.toMiddleware, hroute, Route.method, isMutating]
  | getPaymentIntent id =>
    simp [Idempotency.Request.Guarded, Request.toMiddleware, hroute, Route.method, isMutating]

/-- A request whose response was captured has a merchant. -/
theorem Tracked.merchant_of_ran (hs : Tracked env s) {y : Exchange} (hy : y ∈ s.exchanges)
    {calls : List WriterCall} (hran : y.outer.Ran calls) :
    ∃ m, y.request.merchant = some m := by
  obtain ⟨st, hst⟩ := hs.stages y hy
  obtain ⟨p, hp⟩ := hs.middleware.phases y.outer (List.mem_map_of_mem hy)
  have hcalls := hp.ran_iff.mp hran
  have hfacts := hp.facts
  cases p with
  | ran calls' v =>
    obtain ⟨-, hadmits, -⟩ := hfacts
    rw [hst.request] at hadmits
    exact Option.isSome_iff_exists.mp hadmits.1
  | _ => cases hcalls

/-- Every recorded response was captured, after an event as before. -/
theorem Tracked.rowsCaptured (hs : Tracked env s)
    (hcaptured : RowsCaptured env.idempotency s.idempotency) (h : step env s e = some t) :
    RowsCaptured env.idempotency t.idempotency := by
  obtain hsame | ⟨e', he'⟩ := (change_of_step h).idempotency
  · rw [hsame]
    exact hcaptured
  · exact rowsCaptured_step hs.middleware hcaptured he'

/-- A request whose response was recorded under the key of another one shares that key. -/
theorem Tracked.sharesKey_of_ran (hs : Tracked env s) {x y : Exchange} (hx : x ∈ s.exchanges)
    (hy : y ∈ s.exchanges) (hroute : x.request.route = .createPaymentIntent) {m : UUID}
    (hm : x.request.merchant = some m) {calls : List WriterCall} (hran : y.outer.Ran calls)
    (hident : (env.idempotency.keyed y.outer).ident = (env.idempotency.keyed x.outer).ident) :
    y.request.SharesKey x.request ∧ x.request.idempotencyKey ≠ "" ∧ y.handler = .ret calls := by
  obtain ⟨stx, hstx⟩ := hs.stages x hx
  obtain ⟨sty, hsty⟩ := hs.stages y hy
  have hguarded := hran.1
  rw [hsty.request, Request.guarded_iff] at hguarded
  obtain ⟨m', hm'⟩ := hs.merchant_of_ran hy hran
  rw [Env.keyed_of_target hsty.request hm', Env.keyed_of_target hstx.request hm] at hident
  obtain ⟨rfl, hkey⟩ := Prod.mk.inj hident
  refine ⟨⟨hguarded.1, hroute, hm'.trans hm.symm, hkey⟩, fun hempty => ?_,
    hsty.ret_of_served hran.2.1⟩
  exact hguarded.2 (hkey.trans hempty)

/-- A record of the key of a request holds a response to that request. -/
theorem Converging.record_describes (hs : Converging env s) {x : Exchange} (hx : x ∈ s.exchanges)
    {m : UUID} {c : CreateRequest} (hasks : env.asks x.request = some (m, c)) {r : Record}
    (hr : r ∈ s.stores.rows) (hident : r.ident = (env.idempotency.keyed x.outer).ident) :
    ∃ calls, r = (env.idempotency.keyed x.outer).record calls ∧
      env.Describes s.db x.request calls := by
  obtain ⟨_, houter, calls, hran, rfl⟩ := hs.captured r hr
  obtain ⟨y, hy, rfl⟩ := List.mem_map.mp houter
  obtain ⟨stx, hstx⟩ := hs.tracked.stages x hx
  obtain ⟨sty, hsty⟩ := hs.tracked.stages y hy
  have hm := Env.merchant_of_asks hasks
  obtain ⟨hshares, hkey, hret⟩ :=
    hs.tracked.sharesKey_of_ran hx hy (Env.route_of_asks hasks) hm hran hident
  have hbody := (hs.bodies y hy x hx hshares).resolve_left hkey
  obtain ⟨hroute, hroute', hmerchant, hsameKey⟩ := hshares
  have hsame : env.asks y.request = env.asks x.request :=
    Env.asks_congr (hroute.trans hroute'.symm) hmerchant hbody
  have htarget : (env.target y.request).isSome = true := by
    rw [Env.target, hsame, hasks]
    rfl
  refine ⟨calls, ?_, ?_⟩
  · rw [Env.keyed_of_target hstx.request hm, Env.keyed_of_target hsty.request (hmerchant.trans hm),
      hbody, hsameKey]
  · obtain ⟨status, p, q, hstatus, hp, ⟨hp₁, hp₂⟩, hcalls⟩ := hs.described y hy htarget calls hret
    exact ⟨status, p, q, hstatus, hp, ⟨hmerchant ▸ hp₁, hsame ▸ hp₂⟩, hcalls⟩

/-- A record of the key of a request fits the request. -/
theorem Converging.record_fits (hs : Converging env s) {x : Exchange} (hx : x ∈ s.exchanges)
    {m : UUID} {c : CreateRequest} (hasks : env.asks x.request = some (m, c)) {r : Record}
    (hr : r ∈ s.stores.rows) (hident : r.ident = (env.idempotency.keyed x.outer).ident) :
    (env.idempotency.keyed x.outer).Fits r := by
  obtain ⟨calls, rfl, hdescribes⟩ := hs.record_describes hx hasks hr hident
  exact ⟨rfl, hdescribes.receives.2.2⟩

/-- The statements a request makes are answered with records that fit it. -/
theorem Converging.fits (hs : Converging env s) {x : Exchange} (hx : x ∈ s.exchanges)
    {m : UUID} {c : CreateRequest} (hasks : env.asks x.request = some (m, c)) {o : StoreOp}
    {k : (Idempotency.Op.store o).Rep → MiddlewareM Unit} {out : Outcome}
    (hprog : x.outer.prog = .call (.store o) k) (hok : x.AsksRedis ∨ out = .done) :
    o.Fits (env.idempotency.keyed x.outer) (s.stores.answer o out).1 := by
  obtain ⟨p, hp⟩ := hs.tracked.middleware.phases x.outer (List.mem_map_of_mem hx)
  obtain ⟨reply, p', hnext⟩ := hp.next hprog
  obtain ⟨v, v', hv, -⟩ := Phase.next_store hnext
  cases o with
  | redisGet ck =>
    obtain rfl : ck = cacheKey _ _ := by
      cases Seen.reads_of_next hv <;> rfl
    intro payload hpayload
    obtain ⟨r, hr, hck, hraw⟩ :=
      hs.tracked.middleware.sound.cached _ _ (Stores.answer_redisGet_ok hpayload)
    obtain ⟨hm, hk⟩ := cacheKey_inj.mp hck
    cases hraw
    rw [hm, hk]
    exact hs.record_fits hx hasks hr (Prod.ext hm.symm hk.symm)
  | redisSet ck value => trivial
  | insertIdempotencyKey r => trivial
  | getIdempotencyKey m' k' =>
    obtain ⟨rfl, rfl⟩ : m' = (env.idempotency.keyed x.outer).merchantID ∧
        k' = (env.idempotency.keyed x.outer).key := by
      cases Seen.reads_of_next hv <;> exact ⟨rfl, rfl⟩
    have hdone : out = .done := by
      rcases hok with hredis | hdone
      · simp [Exchange.AsksRedis, hprog] at hredis
      · exact hdone
    subst hdone
    cases hrow : s.stores.row (env.idempotency.keyed x.outer).merchantID
        (env.idempotency.keyed x.outer).key with
    | none =>
      right
      simp only [Stores.answer, Stores.execute, hrow]
    | some r =>
      obtain ⟨hr, hident⟩ := Table.mem_of_find hrow
      refine .inl ⟨r, ?_, hs.record_fits hx hasks hr hident⟩
      simp only [Stores.answer, Stores.execute, hrow]

/-- A well-formed request starts with the lookup of its reference. -/
theorem Env.serve_of_asks {r : Request} {m : UUID} {c : CreateRequest}
    (h : env.asks r = some (m, c)) : env.serve r = env.handlers.lookUp m c := by
  have hvalid := Env.valid_of_asks h
  unfold Env.asks at h
  split at h
  · next hroute hm hdecode =>
    split at h
    · cases h
      simp only [Env.serve, hroute, hm, Handlers.createPaymentIntent, hdecode, hvalid]
    · cases h
  · cases h

/-- No request arrives in its turn. -/
theorem Env.exchange_not_inTurn (env : Env) (r : Request) (d : Draw) :
    ¬ (env.exchange r d).InTurn := by
  obtain ⟨st, hst, hat⟩ := env.exchange_at ⟨[], []⟩ r d
  rwa [hat.inTurn_iff]

theorem Converging.arrive (hs : Converging env s) {r : Request} {d : Draw}
    (hok : CreatesInTurn env s (.arrive r d)) (h : step env s (.arrive r d) = some t) :
    Converging env t := by
  have htracked := tracked_step hs.tracked h
  have hcaptured := hs.tracked.rowsCaptured hs.captured h
  cases h
  obtain ⟨hsupplied, hbodies⟩ := hok
  have hnew {P : Exchange → Prop} (hold : ∀ x ∈ s.exchanges, P x) (hr : P (env.exchange r d)) :
      ∀ x ∈ s.exchanges ++ [env.exchange r d], P x := Table.forall_mem_concat hold hr
  refine ⟨htracked, hcaptured, hnew hs.supplied hsupplied, ?_,
    hs.order.arrive (env.exchange_not_inTurn r d), ?_, ?_, ?_⟩
  · refine hnew (fun x hx => hnew (hs.bodies x hx) (hbodies x hx)) (hnew ?_ fun _ => .inr rfl)
    rintro y hy ⟨hroute, hroute', hmerchant, hkey⟩
    rcases hbodies y hy ⟨hroute', hroute, hmerchant.symm, hkey.symm⟩ with hempty | hbody
    · exact .inl (hkey.symm.trans hempty)
    · exact .inr hbody.symm
  · refine hnew hs.unplaced fun hturn => absurd hturn (env.exchange_not_inTurn r d)
  · refine hnew hs.described fun htarget calls hret => ?_
    obtain ⟨m, c, hasks⟩ := Env.exists_asks htarget
    cases (Env.serve_of_asks hasks).symm.trans hret
  · refine hnew hs.settled fun htarget => ?_
    obtain ⟨m, c, hasks⟩ := Env.exists_asks htarget
    refine handler_fits env.idempotency.finds fun _ => ⟨?_, rfl⟩
    exact Option.isSome_iff_exists.mpr ⟨m, Env.merchant_of_asks hasks⟩

/-- A request that has made a call. -/
theorem Converging.set (hs : Converging env s) {n : Nat} {x x' : Exchange}
    {stores : Stores} {db : Db} (hx : s.exchanges[n]? = some x)
    (h : step env s e = some ⟨stores, db, s.exchanges.set n x'⟩)
    (hrequest : x'.request = x.request) (hdraw : x'.draw = x.draw)
    (hintents : s.db.intents ⊆ db.intents)
    (henter : x'.InTurn → x.InTurn ∨
      ∀ y ∈ s.exchanges, env.target y.request = env.target x.request → ¬ y.InTurn)
    (hunplaced : ∀ y ∈ s.exchanges.set n x', y.InTurn → ∀ m ref,
      env.target y.request = some (m, ref) → db.intentByRef m ref = none)
    (hdescribed : (env.target x.request).isSome = true → ∀ calls, x'.handler = .ret calls →
      env.Describes db x.request calls)
    (hsettled : (env.target x.request).isSome = true →
      x'.outer.prog.Wp (Op.Fits (env.idempotency.keyed x'.outer))
        (fun _ g => g.Settled (env.idempotency.keyed x'.outer) x'.outer.request)
        ⟨x'.outer.w, x'.outer.served⟩) :
    Converging env ⟨stores, db, s.exchanges.set n x'⟩ := by
  have hmem := List.mem_of_getElem? hx
  have hset {P : Exchange → Prop} (hold : ∀ z ∈ s.exchanges, P z) (hnew : P x') :
      ∀ z ∈ s.exchanges.set n x', P z := Table.forall_mem_set hold hnew n
  have hcaptured := hs.tracked.rowsCaptured hs.captured h
  rw [← hrequest] at hdescribed hsettled
  refine ⟨tracked_step hs.tracked h, hcaptured, hset hs.supplied ?_, ?_, ?_, hunplaced,
    hset (fun z hz htarget calls hret => ?_) hdescribed, hset hs.settled hsettled⟩
  · rw [hrequest, hdraw]
    exact hs.supplied x hmem
  · refine hset (fun z hz => hset (hs.bodies z hz) ?_) (hset ?_ fun _ => .inr rfl)
    · rw [hrequest]
      exact hs.bodies z hz x hmem
    · rw [hrequest]
      exact hs.bodies x hmem
  · refine hs.order.move (fun _ => id) hx (by rw [hrequest]) (fun hturn hnot => hnot hturn) ?_
    intro hturn
    rcases henter hturn with hold | hfree
    · exact .inl hold
    · exact .inr ⟨id, hfree⟩
  · exact (hs.described z hz htarget calls hret).mono hintents

/-- A call of the middleware leaves the turns as they are. -/
theorem Converging.middleware (hs : Converging env s) {n : Nat} {out : Outcome} {x : Exchange}
    {y : Idempotency.Exchange} {stores : Stores} (hx : s.exchanges[n]? = some x)
    (hanswer : x.outer.answer s.stores (x.input out) = some (y, stores))
    (hok : CreatesInTurn env s (.call n out))
    (h : step env s (.call n out) =
      some ⟨stores, s.db, s.exchanges.set n { x with outer := y }⟩) :
    Converging env ⟨stores, s.db, s.exchanges.set n { x with outer := y }⟩ := by
  have hmem := List.mem_of_getElem? hx
  have hunplaced : ∀ z ∈ s.exchanges.set n { x with outer := y }, z.InTurn → ∀ m ref,
      env.target z.request = some (m, ref) → s.db.intentByRef m ref = none :=
    Table.forall_mem_set hs.unplaced (by exact hs.unplaced x hmem) n
  refine hs.set hx h rfl rfl (fun _ => id) .inl hunplaced (hs.described x hmem) fun htarget => ?_
  obtain ⟨m, c, hasks⟩ := Env.exists_asks htarget
  obtain ⟨hreq, -⟩ := x.served_of_answer hanswer
  have hwp := Idempotency.Exchange.wp_of_answer (hs.settled x hmem htarget) hanswer ?_
  · simpa only [Idempotency.Env.keyed, hreq] using hwp
  · intro out' o k hinput hprog
    have hout : out' = out := by
      simp only [Exchange.input, hprog, Input.store.injEq] at hinput
      exact hinput.symm
    subst hout
    exact hs.fits hmem hasks hprog (hok x hx).1

/-- A handler does not ask Redis. -/
theorem Exchange.InHandler.not_asksRedis {x : Exchange} (h : x.InHandler) : ¬ x.AsksRedis := by
  unfold Exchange.InHandler at h
  split at h
  · next captured k hprog => simp [Exchange.AsksRedis, hprog]
  · cases h

/-- A call in a turn adds no intent but its last one. -/
theorem Handles.intents {db : Db} {d : Draw} {st st' : Handling} {o : Op} {out : Outcome}
    (h : Handles env.handlers st o (db.answer d o out).1 st') :
    (db.answer d o out).2.intents = db.intents ∨
      ∃ p, st = .placing p ∧ ¬ st'.InTurn ∧
        (db.answer d o out).2.intents = db.intents ++ [p.row d] := by
  have heffect := db.effect_answer d o out
  generalize (db.answer d o out).1 = reply at h
  generalize (db.answer d o out).2 = db' at heffect
  cases heffect with
  | same => exact .inl rfl
  | quote => exact .inl rfl
  | intent _ _ =>
    cases h with
    | created row => exact .inr ⟨_, rfl, id, rfl⟩
    | notCreated err => exact .inr ⟨_, rfl, id, rfl⟩

/-- A turn is entered by a lookup that has missed, and then nobody else of the reference is in
one. -/
theorem Exchange.At.enters {x : Exchange} {o : Op} {k : o.Rep → HandlerM (List WriterCall)}
    {st st' : Handling} (hst : x.At env s.db st) (hin : x.InHandler)
    (halone : x.LooksAlone env s) (hprog : x.handler = .call o k)
    (hhandles : Handles env.handlers st o (s.db.answer x.draw o .done).1 st')
    (hturn : st'.InTurn) (hnot : ¬ st.InTurn) : ∃ m ref, env.target x.request = some (m, ref) ∧
      s.db.intentByRef m ref = none ∧
      ∀ y ∈ s.exchanges, env.target y.request = env.target x.request → ¬ y.InTurn := by
  have hfacts := hst.facts
  generalize hreply : (s.db.answer x.draw o .done).1 = reply at hhandles
  obtain hin' | ⟨m, c, rfl, rfl⟩ := hhandles.inTurn hturn
  · exact absurd hin' hnot
  · cases hhandles with
    | missed _ =>
      have htarget := Env.target_of_asks hfacts
      have hnone := Db.intentByRef_of_noRows hreply
      have hfree := halone hin
      rw [hprog] at hfree
      exact ⟨m, _, htarget, hnone, htarget ▸ hfree hnone⟩

/-- The reference of an intent that is about to be inserted. -/
theorem Exchange.At.target_of_placing {db : Db} {x : Exchange} {p : CreatePaymentIntentParams}
    (h : x.At env db (.placing p)) :
    env.target x.request = some (p.merchantID, p.externalRef) := by
  obtain ⟨⟨c, hasks, href, -⟩, -⟩ := h.facts
  rw [Env.target_of_asks hasks, href]

/-- A reference without an intent has none after a call, unless the call inserts it. -/
theorem Handles.intentByRef {db : Db} {d : Draw} {st st' : Handling} {o : Op} {out : Outcome}
    (h : Handles env.handlers st o (db.answer d o out).1 st') {m : UUID} {ref : String}
    (hnone : db.intentByRef m ref = none)
    (hother : ∀ p, st = .placing p → ¬ st'.InTurn → (p.row d).ref ≠ (m, ref)) :
    (db.answer d o out).2.intentByRef m ref = none := by
  rcases h.intents with hsame | ⟨p, hst, hnot, hadd⟩
  · simpa only [Db.intentByRef, hsame] using hnone
  · rw [Db.intentByRef, hadd, Table.find_append, Table.find_singleton,
      if_neg (hother p hst hnot), Option.or_none]
    exact hnone

/-- The reference of a request in its turn has no intent before the request inserts it. -/
theorem Converging.unplaced_handler (hs : Converging env s) {n : Nat} {x y : Exchange} {o : Op}
    {k : o.Rep → HandlerM (List WriterCall)} {st st' : Handling} (hx : s.exchanges[n]? = some x)
    (hin : x.InHandler) (hprog : x.handler = .call o k) (halone : x.LooksAlone env s)
    (hst : x.At env s.db st)
    (hhandles : Handles env.handlers st o (s.db.answer x.draw o .done).1 st')
    (hst' : Exchange.At env (s.db.answer x.draw o .done).2
      { x with handler := k (s.db.answer x.draw o .done).1 } st')
    (hy : y ∈ s.exchanges.set n { x with handler := k (s.db.answer x.draw o .done).1 })
    (hyturn : y.InTurn) {m : UUID} {ref : String} (htarget : env.target y.request = some (m, ref)) :
    (s.db.answer x.draw o .done).2.intentByRef m ref = none := by
  have hmem := List.mem_of_getElem? hx
  obtain ⟨i, hi⟩ := List.mem_iff_getElem?.mp hy
  by_cases hni : n = i
  · -- The request itself, which has not inserted its intent yet.
    subst hni
    rw [List.getElem?_set_self (List.getElem?_eq_some_iff.mp hx).1] at hi
    cases hi
    have hturn' := hst'.inTurn_iff.mp hyturn
    refine hhandles.intentByRef ?_ fun p _ hnot => absurd hturn' hnot
    by_cases hold : st.InTurn
    · exact hs.unplaced x hmem (hst.inTurn_iff.mpr hold) m ref htarget
    · obtain ⟨m', ref', htarget', hnone, -⟩ := hst.enters hin halone hprog hhandles hturn' hold
      cases htarget'.symm.trans htarget
      exact hnone
  · -- Another request; an intent of its reference would have come from a second turn.
    rw [List.getElem?_set_ne hni] at hi
    have hnone := hs.unplaced y (List.mem_of_getElem? hi) hyturn m ref htarget
    refine hhandles.intentByRef hnone ?_
    rintro p rfl - href
    have htarget' := hst.target_of_placing.trans (congrArg some href)
    exact hni (hs.order.once n i x y hx hi (htarget'.trans htarget.symm)
      (hst.inTurn_iff.mpr trivial) hyturn)

/-- A call of a handler enters a turn, goes on in it, ends it with its insertion, or is none of
these. -/
theorem Converging.handler (hs : Converging env s) {n : Nat} {out : Outcome} {x : Exchange} {o : Op}
    {k : o.Rep → HandlerM (List WriterCall)} (hx : s.exchanges[n]? = some x) (hin : x.InHandler)
    (hprog : x.handler = .call o k) (hok : CreatesInTurn env s (.call n out))
    (h : step env s (.call n out) = some ⟨s.stores, (s.db.answer x.draw o out).2,
      s.exchanges.set n { x with handler := k (s.db.answer x.draw o out).1 }⟩) :
    Converging env ⟨s.stores, (s.db.answer x.draw o out).2,
      s.exchanges.set n { x with handler := k (s.db.answer x.draw o out).1 }⟩ := by
  have hmem := List.mem_of_getElem? hx
  obtain ⟨hdone, halone⟩ := hok x hx
  obtain rfl : out = .done := hdone.resolve_left hin.not_asksRedis
  obtain ⟨st, hst⟩ := hs.tracked.stages x hmem
  obtain ⟨st', hhandles, hst'⟩ := hst.handles hprog .done
  obtain ⟨-, hgrow⟩ := (s.db.effect_answer x.draw o .done).grow
  refine hs.set hx h rfl rfl hgrow.subset (fun hturn => ?_) (fun y hy hyturn m ref =>
    hs.unplaced_handler hx hin hprog halone hst hhandles hst' hy hyturn)
    (fun htarget calls hret => ?_) (hs.settled x hmem)
  · by_cases hold : st.InTurn
    · exact .inl (hst.inTurn_iff.mpr hold)
    · obtain ⟨m, ref, -, -, hfree⟩ :=
        hst.enters hin halone hprog hhandles (hst'.inTurn_iff.mp hturn) hold
      exact .inr hfree
  · obtain ⟨m, c, hasks⟩ := Env.exists_asks htarget
    refine (hst.describes hs.tracked.db hasks (hs.supplied x hmem) ?_ hhandles
      (hst'.ended_of_ret hret)).mono hgrow.subset
    intro hturn
    exact hs.unplaced x hmem (hst.inTurn_iff.mpr hturn) m _ (Env.target_of_asks hasks)

theorem converging_step (hs : Converging env s) (hok : CreatesInTurn env s e)
    (h : step env s e = some t) : Converging env t := by
  cases change_of_step h with
  | arrive => exact hs.arrive hok h
  | expire =>
    exact ⟨tracked_step hs.tracked h, hs.captured, hs.supplied, hs.bodies, hs.order, hs.unplaced,
      hs.described, hs.settled⟩
  | middleware hx hanswer => exact hs.middleware hx hanswer hok h
  | handler hx hin hprog _ => exact hs.handler hx hin hprog hok h

theorem Converging.init (env : Env) : Converging env .init := by
  refine ⟨Tracked.init env, ?_, ?_, ?_, .nil, ?_, ?_, ?_⟩
  all_goals simp [World.init, World.idempotency, RowsCaptured, Stores.empty]

/-- A request that was answered from a record has received the intent of that record. -/
theorem Converging.receives_replay (hs : Converging env s) {x : Exchange} (hx : x ∈ s.exchanges)
    {m : UUID} {c : CreateRequest} (hasks : env.asks x.request = some (m, c)) {r : Record}
    (hr : r ∈ s.stores.rows) (hident : r.ident = (env.idempotency.keyed x.outer).ident)
    (hw : x.outer.w = ResponseWriter.fresh.calls (replay r)) :
    env.Receives s.db x.request x.outer.w := by
  obtain ⟨calls, rfl, hdescribes⟩ := hs.record_describes hx hasks hr hident
  obtain ⟨hstatus, hbody⟩ := replay_record_response (env.idempotency.keyed x.outer) calls
  obtain ⟨⟨hok, p, q, hp, hconcerns, henc⟩, -, -⟩ := hdescribes.receives
  rw [hw]
  exact ⟨by rwa [hstatus], p, q, hp, hconcerns, hbody.trans henc⟩

/-- A record below 400 is not replayed as an error. -/
theorem not_isError_replay {r : Record} (h : r.statusCode.code < 400) : ¬ IsError (replay r) := by
  have hsettled : r.statusCode.settled.code < 400 := by
    unfold Status.settled
    split
    · decide
    · exact h
  rw [IsError, (replay_response r).1]
  omega

/-- A request of a reference that has ended has received an intent of the reference. -/
theorem Converging.receives (hs : Converging env s) {x : Exchange} (hx : x ∈ s.exchanges)
    {m : UUID} {c : CreateRequest} (hasks : env.asks x.request = some (m, c))
    (hended : x.outer.Ended) : env.Receives s.db x.request x.outer.w := by
  have htarget : (env.target x.request).isSome = true := by
    simp [Env.target_of_asks hasks]
  obtain ⟨st, hst⟩ := hs.tracked.stages x hx
  have hsettled := hs.settled x hx htarget
  have hprogEnded := hended
  unfold Idempotency.Exchange.Ended at hended
  split at hended
  case h_2 => cases hended
  next hprog =>
  rw [hprog] at hsettled
  cases hserved : x.outer.served with
  | some calls =>
    have hreceives := (hs.described x hx htarget calls (hst.ret_of_served hserved)).receives
    simp only [Prog.Wp, Received.Settled, hserved] at hsettled
    rcases hsettled with hw | hw
    · rw [hw]
      exact hreceives.1
    · rw [hw]
      exact hreceives.2.1
  | none =>
    simp only [Prog.Wp, Received.Settled, hserved] at hsettled
    obtain ⟨hguarded, r, ⟨-, hlow⟩, hw⟩ := hsettled
    obtain ⟨p, hp⟩ := hs.tracked.middleware.phases x.outer (List.mem_map_of_mem hx)
    have hends := hp.ends hprogEnded
    have hfacts := hp.facts
    cases p with
    | answered =>
      obtain ⟨-, -, calls, hw', herr | ⟨-, r', hr', hident, -, rfl⟩⟩ := hfacts
      · rw [IsError, ← hw', hw] at herr
        exact absurd herr (not_isError_replay hlow)
      · exact hs.receives_replay hx hasks hr' hident hw'
    | ran calls v => cases hserved.symm.trans hfacts.2.2.1
    | refused calls => cases hserved.symm.trans hfacts.2.1
    | passed => exact absurd hguarded hfacts
    | rejecting => cases hends
    | looking v => cases hends
    | passing => cases hends

end Steps

/-- In a run in which lookups take turns, all requests of a reference that have ended have received
one and the same intent. -/
theorem creates_converge {env : Env} {es : List Event} {s : World}
    (h : Path (step env) (CreatesInTurn env) .init es s) (m : UUID) (ref : String) :
    ∃ id, ∀ x ∈ s.exchanges, env.target x.request = some (m, ref) → x.outer.Ended →
      (x.outer.w.status = statusOK ∨ x.outer.w.status = statusCreated) ∧
        ∃ v, x.outer.w.body = env.handlers.encode (.intent v) ∧ v.id = id := by
  have hs : Converging env s :=
    h.invariant (fun _ _ _ => converging_step) (Converging.init env)
  have hreceives : ∀ x ∈ s.exchanges, env.target x.request = some (m, ref) → x.outer.Ended →
      (x.outer.w.status = statusOK ∨ x.outer.w.status = statusCreated) ∧
        ∃ p q, p ∈ s.db.intents ∧ p.ref = (m, ref) ∧
          x.outer.w.body = env.handlers.encode (.intent (env.handlers.intentToAPI p q)) := by
    intro x hx htarget hended
    obtain ⟨c, hasks, rfl⟩ := Env.asks_of_target htarget
    obtain ⟨hstatus, p, q, hp, ⟨hmerchant, href⟩, hbody⟩ := hs.receives hx hasks hended
    have hm : m = p.merchantID :=
      Option.some_inj.mp ((Env.merchant_of_asks hasks).symm.trans hmerchant)
    exact ⟨hstatus, p, q, hp, Prod.ext hm.symm (href m c hasks), hbody⟩
  by_cases hplaced : ∃ p ∈ s.db.intents, p.ref = (m, ref)
  · obtain ⟨p₀, hp₀, href₀⟩ := hplaced
    refine ⟨p₀.id, fun x hx htarget hended => ?_⟩
    obtain ⟨hstatus, p, q, hp, href, hbody⟩ := hreceives x hx htarget hended
    have hsame : p = p₀ := Table.eq_of_mem hs.tracked.db.refs hp hp₀ (href.trans href₀.symm)
    exact ⟨hstatus, _, hbody, congrArg (·.id) hsame⟩
  · refine ⟨0, fun x hx htarget hended => ?_⟩
    obtain ⟨-, p, -, hp, href, -⟩ := hreceives x hx htarget hended
    exact absurd ⟨p, hp, href⟩ hplaced

/-- A request of merchant 1 for the one order. -/
def orderWith (key : String) : Request := ⟨.createPaymentIntent, key, some 1, [1]⟩

/-- A request creates the intent, while one with a key has looked its record up; that one finds the
intent, and is repeated. -/
def inTurn : List Event :=
  [.arrive (orderWith "") (drawOf 0), .arrive (orderWith "k") (drawOf 1), .call 1 .done] ++
  List.replicate 8 (.call 0 .done) ++ List.replicate 4 (.call 1 .done) ++
  [.arrive (orderWith "k") (drawOf 2), .call 2 .done, .call 2 .done]

theorem creates_converge_inTurn : ∃ s id,
    Path (step oneOrder) (CreatesInTurn oneOrder) .init inTurn s ∧
    s.exchanges.map (fun x => x.outer.w.status.code) = [201, 200, 200] ∧
    ∀ x ∈ s.exchanges, oneOrder.target x.request = some (1, "order-1") → x.outer.Ended →
      (x.outer.w.status = statusOK ∨ x.outer.w.status = statusCreated) ∧
        ∃ v, x.outer.w.body = oneOrder.handlers.encode (.intent v) ∧ v.id = id := by
  obtain ⟨s, hs, hcodes⟩ : ∃ s,
      runIf (step oneOrder) (CreatesInTurn oneOrder) .init inTurn = some s ∧
      s.exchanges.map (fun x => x.outer.w.status.code) = [201, 200, 200] :=
    exists_of_any (by decide +kernel)
  have hpath := Path.of_runIf hs
  obtain ⟨id, hid⟩ := creates_converge hpath 1 "order-1"
  exact ⟨s, id, hpath, hcodes, hid⟩

/-- Two requests whose lookups both find no intent. -/
def racing : List Event :=
  [.arrive (orderWith "") (drawOf 0), .arrive (orderWith "") (drawOf 1)] ++
  (List.replicate 8 [Event.call 0 .done, .call 1 .done]).flatten.dropLast

theorem racing_create_fails : ∃ s, run (step oneOrder) .init racing = some s ∧
    (∀ x ∈ s.exchanges, oneOrder.target x.request = some (1, "order-1") ∧ x.outer.Ended) ∧
    s.exchanges.map (fun x => (x.outer.w.status.code, x.outer.w.body)) =
      [(201, [20]), (500, [0])] :=
  exists_of_any (by decide +kernel)

end Selatpay.Api
