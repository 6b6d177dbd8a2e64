import Selatpay.Api.Creates

/-!
# Responses and the requests they answer

A request to create an intent may be answered with a row that an earlier request has
inserted. Whatever the history, the intent is the caller's and of the reference that is asked
for, and its payment URL asks for the quoted amount. The rupiah amount is that of the request
only as long as a reference is used again with the same amount: nothing compares the two.
-/

namespace Selatpay.Api

open Idempotency

/-! ## Requests that bypass the middleware -/

/-- A request without a key is handed to its handler, and the caller receives what that writes. -/
def PassedOn (x : Idempotency.Exchange) : Prop :=
  (x.prog = (serveHTTP false).bind (fun _ => .ret ()) ∧ x.w = .fresh) ∨
    ∃ calls, x.prog = .ret () ∧ x.served = some calls ∧ x.w = ResponseWriter.fresh.calls calls

theorem passedOn_exchange (env : Idempotency.Env) {r : Idempotency.Request} (h : ¬ r.Guarded) :
    PassedOn (env.exchange r) := by
  refine .inl ⟨?_, rfl⟩
  simp only [Idempotency.Env.exchange, Middleware.handler]
  by_cases hmut : isMutating r.method = false
  · rw [if_pos hmut]
  · rw [if_neg hmut, if_pos (by_contra fun hkey => h ⟨by simpa using hmut, hkey⟩)]

theorem PassedOn.answer {x y : Idempotency.Exchange} {s s' : Stores} {input : Input}
    (h : PassedOn x) (hanswer : x.answer s input = some (y, s')) : PassedOn y := by
  cases Exchange.proceeds_of_answer hanswer with
  | store hcall =>
    rcases h with ⟨hprog, -⟩ | ⟨calls, hprog, -⟩
    · cases hcall.symm.trans hprog
    · cases hcall.symm.trans hprog
  | @serve calls captured k hcall =>
    rcases h with ⟨hprog, hw⟩ | ⟨calls, hprog, -⟩
    · cases hcall.symm.trans hprog
      exact .inr ⟨calls, rfl, rfl, by simp [hw]⟩
    · cases hcall.symm.trans hprog
  | respond hcall =>
    rcases h with ⟨hprog, -⟩ | ⟨calls, hprog, -⟩
    · cases hcall.symm.trans hprog
    · cases hcall.symm.trans hprog

/-! ## Where intents come from -/

/-- A price is an `int64`. -/
def Handling.Priced : Handling → Prop
  | .priced _ _ qt => qt.amountUSDC < 2 ^ 63
  | .placing p => p.quotedAmountUSDC < 2 ^ 63
  | _ => True

/-- The intent was inserted for a request that asked for it, at a price that is an `int64`. -/
def Env.Origin (env : Env) (xs : List Exchange) (p : PaymentIntent) : Prop :=
  (0 < p.quotedAmountUSDC ∧ p.quotedAmountUSDC < 2 ^ 63) ∧
    ∃ x ∈ xs, ∃ c, env.asks x.request = some (p.merchantID, c) ∧
      c.externalRef = p.externalRef ∧ c.amountIDR = p.amountIDR

section Stages

variable {env : Env} {db : Db} {d : Draw} {r : Request} {st st' : Handling} {o : Op}
  {reply : o.Rep}

theorem Handling.priced_of_not_inTurn (h : ¬ st.InTurn) : st.Priced := by
  cases st with
  | priced m c qt => exact absurd trivial h
  | placing p => exact absurd trivial h
  | _ => trivial

/-- A price stays what the quoter has computed. -/
theorem Handling.Priced.handles (hst : st.Priced) (hfacts : st.Facts env db r d)
    (h : Handles env.handlers st o reply st') : st'.Priced := by
  cases h with
  | priced q => exact (Quoter.range_of_quoteAmount_eq_ok hfacts.2.2).2
  | placing ref hata => exact hst
  | _ => trivial

/-- A create request that is not well formed is refused at once. -/
theorem Env.serve_of_not_asks (hroute : r.route = .createPaymentIntent)
    (h : env.asks r = none) : ∃ calls, env.serve r = .ret calls ∧ env.handlers.Refuses calls := by
  simp only [Env.serve, hroute]
  simp only [Env.asks, hroute] at h
  cases hm : r.merchant with
  | none => exact ⟨_, rfl, _, _, _, by decide, rfl⟩
  | some m =>
    simp only [Handlers.createPaymentIntent]
    cases hdecode : env.handlers.decode r.body with
    | error err => exact ⟨_, rfl, _, _, _, by decide, rfl⟩
    | ok c =>
      cases hvalid : Handlers.validateCreateRequest c with
      | some err =>
        simp only [hvalid]
        exact ⟨_, rfl, _, _, _, by decide, rfl⟩
      | none => simp [hm, hdecode, hvalid] at h

end Stages

/-- What is known in every run. -/
structure Attributed (env : Env) (s : World) : Prop where
  tracked : Tracked env s
  captured : RowsCaptured env.idempotency s.idempotency
  stages : ∀ x ∈ s.exchanges, ∃ st, x.At env s.db st ∧ st.Priced
  intents : ∀ p ∈ s.db.intents, env.Origin s.exchanges p
  refused : ∀ x ∈ s.exchanges, x.request.route = .createPaymentIntent →
    env.asks x.request = none → ∃ calls, x.handler = .ret calls ∧ env.handlers.Refuses calls
  passed : ∀ x ∈ s.exchanges, ¬ x.request.toMiddleware.Guarded → PassedOn x.outer

section Runs

variable {env : Env} {s t : World} {e : Event}

/-- Requests that stay in the history keep being an origin. -/
theorem Env.Origin.mono {xs ys : List Exchange} {p : PaymentIntent} (h : env.Origin xs p)
    (hsub : ∀ x ∈ xs, ∃ y ∈ ys, y.request = x.request) : env.Origin ys p := by
  obtain ⟨hprice, x, hx, c, hasks, hrest⟩ := h
  obtain ⟨y, hy, hreq⟩ := hsub x hx
  exact ⟨hprice, y, hy, c, by rw [hreq, hasks], hrest⟩

/-- A request that goes on is still in the history. -/
theorem exists_request_of_set {xs : List Exchange} {n : Nat} {x x' : Exchange}
    (hx : xs[n]? = some x) (hreq : x'.request = x.request) :
    ∀ z ∈ xs, ∃ y ∈ xs.set n x', y.request = z.request := by
  intro z hz
  obtain ⟨i, hi⟩ := List.mem_iff_getElem?.mp hz
  have hlt : n < xs.length := (List.getElem?_eq_some_iff.mp hx).1
  by_cases hni : n = i
  · subst hni
    obtain rfl : x = z := Option.some_inj.mp (hx.symm.trans hi)
    exact ⟨x', List.mem_set hlt _, hreq⟩
  · exact ⟨z, List.mem_iff_getElem?.mpr ⟨i, (List.getElem?_set_ne hni).trans hi⟩, rfl⟩

theorem attributed_step (hs : Attributed env s) (h : step env s e = some t) :
    Attributed env t := by
  have htracked := tracked_step hs.tracked h
  have hcaptured := hs.tracked.rowsCaptured hs.captured h
  cases change_of_step h with
  | expire =>
    exact ⟨htracked, hcaptured, hs.stages, hs.intents, hs.refused, hs.passed⟩
  | @arrive r d =>
    obtain ⟨st, hturn, hst⟩ := env.exchange_at s.db r d
    refine ⟨htracked, hcaptured, Table.forall_mem_concat hs.stages
      ⟨st, hst, Handling.priced_of_not_inTurn hturn⟩, fun p hp => (hs.intents p hp).mono
      fun x hx => ⟨x, List.mem_append_left _ hx, rfl⟩, Table.forall_mem_concat hs.refused
      fun hroute hasks => Env.serve_of_not_asks hroute hasks, Table.forall_mem_concat hs.passed
      fun hguarded => passedOn_exchange env.idempotency hguarded⟩
  | @middleware n out x y stores hx hanswer =>
    have hmem := List.mem_of_getElem? hx
    obtain ⟨st, hst, hpriced⟩ := hs.stages x hmem
    refine ⟨htracked, hcaptured, Table.forall_mem_set hs.stages ⟨st, hst.answer hanswer, hpriced⟩ n,
      fun p hp => (hs.intents p hp).mono (exists_request_of_set hx rfl),
      Table.forall_mem_set hs.refused ?_ n, Table.forall_mem_set hs.passed ?_ n⟩
    · exact hs.refused x hmem
    · intro hguarded
      exact (hs.passed x hmem hguarded).answer hanswer
  | @handler n out x o k hx hin hprog hnew =>
    have hmem := List.mem_of_getElem? hx
    obtain ⟨hquotes, hintents⟩ := (s.db.effect_answer x.draw o out).grow
    obtain ⟨st, hst, hpriced⟩ := hs.stages x hmem
    obtain ⟨st', hhandles, hst'⟩ := hst.handles hprog out
    have hsub := @exists_request_of_set s.exchanges n x
      { x with handler := k (s.db.answer x.draw o out).1 } hx rfl
    refine ⟨htracked, hcaptured, Table.forall_mem_set (fun z hz => ?_)
      ⟨st', hst', hpriced.handles hst.facts hhandles⟩ n, fun p hp => ?_,
      Table.forall_mem_set hs.refused (fun hroute hasks => ?_) n,
      Table.forall_mem_set hs.passed ?_ n⟩
    · obtain ⟨stz, hstz, hz⟩ := hs.stages z hz
      exact ⟨stz, hstz.mono hquotes.subset hintents.subset, hz⟩
    · rcases hhandles.intents with hsame | ⟨params, rfl, -, hadd⟩
      · exact (hs.intents p (hsame ▸ hp)).mono hsub
      · rcases List.mem_append.mp (hadd ▸ hp) with hp | hp
        · exact (hs.intents p hp).mono hsub
        · rw [List.mem_singleton.mp hp]
          obtain ⟨⟨c, hasks, href, hamount⟩, hpos, -⟩ := hst.facts
          obtain ⟨y, hy, hreq⟩ := hsub x hmem
          exact ⟨⟨hpos, hpriced⟩, y, hy, c, hreq ▸ hasks, href.symm, hamount.symm⟩
    · obtain ⟨calls, hret, -⟩ := hs.refused x hmem hroute hasks
      rw [hret] at hprog
      cases hprog
    · exact hs.passed x hmem

theorem Attributed.init (env : Env) : Attributed env .init := by
  refine ⟨Tracked.init env, ?_, ?_, ?_, ?_, ?_⟩
  all_goals simp [World.init, World.idempotency, RowsCaptured, Stores.empty]

/-! ## Where responses come from -/

/-- A final status reaches the caller, captured or not. -/
theorem Handlers.writeJSON_status (h : Handlers) {status : Status}
    (hfinal : status.informational = false) (v : Body) :
    (capture .fresh (h.writeJSON status v)).responseWriter.status = status ∧
      (ResponseWriter.fresh.calls (h.writeJSON status v)).status = status := by
  constructor
  · have hcaptured : (capture .fresh (h.writeJSON status v)).status = status := by
      simp [capture, Handlers.writeJSON, CaptureWriter.call, CaptureWriter.writeHeader,
        CaptureWriter.write]
    rw [(capture_response _).1, hcaptured, settled_of_final hfinal]
  · set w := ResponseWriter.fresh.call (.setHeader "Content-Type" "application/json")
    have hsent : (w.writeHeader status).sent = some status.settled := by
      rw [ResponseWriter.writeHeader_final rfl hfinal, settled_of_final hfinal]
    have hwrite : ((w.writeHeader status).write (h.encode v)).sent = some status.settled :=
      (ResponseWriter.write_eq (.inl hsent)).1
    change ((w.writeHeader status).write (h.encode v)).sent.getD statusOK = status
    rw [hwrite, settled_of_final hfinal]
    rfl

/-- An error of a handler is one for the caller, captured or not. -/
theorem Handlers.Refuses.code_le {h : Handlers} {calls : List WriterCall}
    (hcalls : h.Refuses calls) : 400 ≤ (capture .fresh calls).responseWriter.status.code ∧
      400 ≤ (ResponseWriter.fresh.calls calls).status.code := by
  obtain ⟨status, code, msg, hstatus, rfl⟩ := hcalls
  obtain ⟨hcaptured, hdirect⟩ :=
    h.writeJSON_status (final_of_error hstatus) (.error code msg)
  rw [Handlers.writeError, hcaptured, hdirect]
  exact ⟨hstatus, hstatus⟩

/-- The caller receives what a handler has written. -/
def Carries (calls : List WriterCall) (w : ResponseWriter) : Prop :=
  (w.status = (capture .fresh calls).responseWriter.status ∧
      w.body = (capture .fresh calls).responseWriter.body) ∨
    w = ResponseWriter.fresh.calls calls

/-- The request has received what the handler of an equal request of its merchant has written. -/
structure Exchange.AnsweredBy (x y : Exchange) (calls : List WriterCall) : Prop where
  ret : y.handler = .ret calls
  route : y.request.route = x.request.route
  merchant : y.request.merchant = x.request.merchant
  body : y.request.body = x.request.body
  carries : Carries calls x.outer.w

/-- A replayed response was written for an equal request. -/
theorem Attributed.answeredBy_replay (hs : Attributed env s) {x : Exchange} (hx : x ∈ s.exchanges)
    (hroute : x.request.route = .createPaymentIntent)
    (hhash : ∀ y ∈ s.exchanges, env.sum256 y.request.body = env.sum256 x.request.body →
      y.request.body = x.request.body)
    {m : UUID} (hm : x.request.merchant = some m) {r : Record} (hr : r ∈ s.stores.rows)
    (hident : r.ident = (env.idempotency.keyed x.outer).ident)
    (hsame : r.requestHash = (env.idempotency.keyed x.outer).hash)
    (hw : x.outer.w = ResponseWriter.fresh.calls (replay r)) :
    ∃ y ∈ s.exchanges, ∃ calls, x.AnsweredBy y calls := by
  obtain ⟨_, houter, calls, hran, rfl⟩ := hs.captured r hr
  obtain ⟨y, hy, rfl⟩ := List.mem_map.mp houter
  obtain ⟨stx, hstx⟩ := hs.tracked.stages x hx
  obtain ⟨sty, hsty⟩ := hs.tracked.stages y hy
  obtain ⟨⟨hroute', -, hmerchant, -⟩, -, hret⟩ :=
    hs.tracked.sharesKey_of_ran hx hy hroute hm hran hident
  have hbody : y.request.body = x.request.body := by
    rw [Env.keyed_of_target hstx.request hm,
      Env.keyed_of_target hsty.request (hmerchant.trans hm)] at hsame
    exact hhash y hy hsame
  obtain ⟨hstatus, hreplayed⟩ := replay_record_response (env.idempotency.keyed y.outer) calls
  rw [← hw] at hstatus hreplayed
  exact ⟨y, hy, calls, hret, hroute'.trans hroute.symm, hmerchant, hbody,
    .inl ⟨hstatus, hreplayed⟩⟩

/-- A response to a create request is an error, or was written for an equal request. -/
theorem Attributed.answeredBy (hs : Attributed env s) {x : Exchange} (hx : x ∈ s.exchanges)
    (hroute : x.request.route = .createPaymentIntent) (hended : x.outer.Ended)
    (hhash : ∀ y ∈ s.exchanges, env.sum256 y.request.body = env.sum256 x.request.body →
      y.request.body = x.request.body) :
    400 ≤ x.outer.w.status.code ∨ ∃ y ∈ s.exchanges, ∃ calls, x.AnsweredBy y calls := by
  obtain ⟨st, hst⟩ := hs.tracked.stages x hx
  have hown {calls : List WriterCall} (hserved : x.outer.served = some calls)
      (hw : Carries calls x.outer.w) : ∃ y ∈ s.exchanges, ∃ calls, x.AnsweredBy y calls :=
    ⟨x, hx, calls, hst.ret_of_served hserved, rfl, rfl, rfl, hw⟩
  by_cases hguarded : x.request.toMiddleware.Guarded
  case neg =>
    rcases hs.passed x hx hguarded with ⟨hprog, -⟩ | ⟨calls, -, hserved, hw⟩
    · simp [Idempotency.Exchange.Ended, hprog, serveHTTP, Prog.query, Prog.bind] at hended
    · exact .inr (hown hserved (.inr hw))
  obtain ⟨p, hp⟩ := hs.tracked.middleware.phases x.outer (List.mem_map_of_mem hx)
  have hends := hp.ends hended
  have hfacts := hp.facts
  cases p with
  | answered =>
    obtain ⟨-, -, calls, hw, herr | ⟨hadmits, r, hr, hident, hsame, rfl⟩⟩ := hfacts
    · left
      rw [hw]
      exact herr
    · right
      rw [hst.request] at hadmits
      obtain ⟨m, hm⟩ := Option.isSome_iff_exists.mp hadmits.1
      exact hs.answeredBy_replay hx hroute hhash hm hr hident hsame hw
  | ran calls v =>
    obtain ⟨-, -, hserved, hw, -⟩ := hfacts
    exact .inr (hown hserved (.inl ⟨by rw [hw], by rw [hw]⟩))
  | refused calls =>
    obtain ⟨-, hserved, hw, -⟩ := hfacts
    exact .inr (hown hserved (.inl ⟨by rw [hw], by rw [hw]⟩))
  | passed => exact absurd (hst.request ▸ hguarded) hfacts
  | rejecting => cases hends
  | looking v => cases hends
  | passing => cases hends

/-- What an error carries is an error. -/
theorem Carries.code_le {calls : List WriterCall} {w : ResponseWriter} (h : Carries calls w)
    (hcalls : env.handlers.Refuses calls) : 400 ≤ w.status.code := by
  obtain ⟨hcaptured, hdirect⟩ := hcalls.code_le
  rcases h with ⟨hstatus, -⟩ | rfl
  · rwa [hstatus]
  · exact hdirect

/-- What describes an intent carries one. -/
theorem Carries.receives {calls : List WriterCall} {w : ResponseWriter} {r : Request}
    (h : Carries calls w) (hcalls : env.Describes s.db r calls) : env.Receives s.db r w := by
  obtain ⟨⟨hcode, hrest⟩, hdirect, -⟩ := hcalls.receives
  rcases h with ⟨hstatus, hbody⟩ | rfl
  · exact ⟨by rwa [hstatus], by rwa [hbody]⟩
  · exact hdirect

/-- A create request that is answered without an error was well formed, and has received a stored
intent of its merchant and its reference. -/
theorem Attributed.receives (hs : Attributed env s) {x : Exchange} (hx : x ∈ s.exchanges)
    (hroute : x.request.route = .createPaymentIntent) (hended : x.outer.Ended)
    (hhash : ∀ y ∈ s.exchanges, env.sum256 y.request.body = env.sum256 x.request.body →
      y.request.body = x.request.body)
    (hcode : x.outer.w.status.code < 400) :
    ∃ m c, env.asks x.request = some (m, c) ∧ env.Receives s.db x.request x.outer.w := by
  obtain herr | ⟨y, hy, calls, hanswered⟩ := hs.answeredBy hx hroute hended hhash
  · omega
  have hsame : env.asks y.request = env.asks x.request :=
    Env.asks_congr hanswered.route hanswered.merchant hanswered.body
  have hnot : ¬ env.handlers.Refuses calls := by
    intro hrefuses
    have hle := hanswered.carries.code_le hrefuses
    omega
  cases hasks : env.asks x.request with
  | none =>
    obtain ⟨calls', hret, hrefuses⟩ :=
      hs.refused y hy (hanswered.route.trans hroute) (hsame.trans hasks)
    cases hanswered.ret.symm.trans hret
    exact absurd hrefuses hnot
  | some q =>
    obtain ⟨st, hst⟩ := hs.tracked.stages y hy
    have hfacts := hst.facts
    rw [hst.ended_of_ret hanswered.ret] at hfacts
    obtain ⟨hstatus, p, qt, hp, ⟨hmerchant, href⟩, hbody⟩ :=
      hanswered.carries.receives (hfacts.resolve_right hnot)
    refine ⟨q.1, q.2, rfl, hstatus, p, qt, hp, ⟨hanswered.merchant ▸ hmerchant, ?_⟩, hbody⟩
    exact hsame ▸ href

end Runs

/-! ## What a response says -/

/-- The URL, if there is one, is read as a request for the quoted amount. -/
def IntentView.AsksForQuoted (v : IntentView) (keys : SolanaPay.KeyCodec) (decimals : Nat) :
    Prop :=
  ∀ url ∈ v.solanaPayURL, ∃ params, ∃ n : Nat,
    (∀ hierarchical, SolanaPay.parseURL keys hierarchical url = .ok params) ∧
      SolanaPay.parseAmount params.amount decimals = .ok n ∧ (n : Int) = v.quotedAmountUSDC

theorem Handlers.intentToAPI_asksForQuoted (h : Handlers) (hdecimals : h.usdcDecimals ≤ 19)
    {p : PaymentIntent} (hpos : 0 < p.quotedAmountUSDC) (hlt : p.quotedAmountUSDC < 2 ^ 63)
    (q : Quote) : (h.intentToAPI p q).AsksForQuoted h.keys h.usdcDecimals := by
  intro url hurl
  have hbuild : h.buildPayURL p = .ok url ∧ url ≠ [] := by
    simp only [Handlers.intentToAPI, Option.mem_def] at hurl
    split at hurl
    · next url' hok =>
      split at hurl
      · cases hurl
      · next hne =>
        cases hurl
        exact ⟨hok, hne⟩
    · cases hurl
  obtain ⟨hok, hne⟩ := hbuild
  unfold Handlers.buildPayURL at hok
  split at hok
  · cases hok
    exact absurd rfl hne
  · next refPub href =>
    refine ⟨_, p.quotedAmountUSDC.toNat, SolanaPay.parseURL_of_buildURL_eq_ok hok, ?_, ?_⟩
    · have hamount : (p.quotedAmountUSDC % 2 ^ 64).toNat = p.quotedAmountUSDC.toNat := by
        rw [Int.emod_eq_of_lt (by omega) (by omega)]
      rw [hamount]
      exact SolanaPay.parseAmount_formatAmount hdecimals (by omega)
    · exact Int.toNat_of_nonneg hpos.le

/-- Everyone who asks for the reference asks for the same amount. -/
def Env.KeepsAmount (env : Env) (s : World) (m : UUID) (c : CreateRequest) : Prop :=
  ∀ y ∈ s.exchanges, ∀ c', env.asks y.request = some (m, c') → c'.externalRef = c.externalRef →
    c'.amountIDR = c.amountIDR

/-- In every run, a create request that is answered with 200 or 201 has received an intent of its
merchant and its reference whose URL asks for the quoted amount; its rupiah amount is the one of the
request when all requests for the reference ask for the same. -/
theorem create_response_matches {env : Env} {es : List Event} {s : World}
    (h : Path (step env) anyStep .init es s)
    (hhash : ∀ x ∈ s.exchanges, ∀ y ∈ s.exchanges,
      env.sum256 x.request.body = env.sum256 y.request.body → x.request.body = y.request.body)
    {x : Exchange} (hx : x ∈ s.exchanges) (hroute : x.request.route = .createPaymentIntent)
    (hended : x.outer.Ended)
    (hstatus : x.outer.w.status = statusOK ∨ x.outer.w.status = statusCreated) :
    ∃ m c v, env.asks x.request = some (m, c) ∧
      x.outer.w.body = env.handlers.encode (.intent v) ∧ v.merchantID = m ∧
      v.externalRef = c.externalRef ∧
      (env.handlers.usdcDecimals ≤ 19 →
        v.AsksForQuoted env.handlers.keys env.handlers.usdcDecimals) ∧
      (env.KeepsAmount s m c → v.amountIDR = c.amountIDR) := by
  have hs : Attributed env s :=
    h.invariant (fun _ _ _ hs _ => attributed_step hs) (Attributed.init env)
  have hcode : x.outer.w.status.code < 400 := by
    rcases hstatus with hstatus | hstatus
    · rw [hstatus]
      decide
    · rw [hstatus]
      decide
  obtain ⟨m, c, hasks, -, p, q, hp, ⟨hmerchant, href⟩, hbody⟩ :=
    hs.receives hx hroute hended (fun y hy => hhash y hy x hx) hcode
  have hm : p.merchantID = m :=
    (Option.some_inj.mp ((Env.merchant_of_asks hasks).symm.trans hmerchant)).symm
  have hexternal : p.externalRef = c.externalRef := href m c hasks
  obtain ⟨⟨hpos, hlt⟩, y, hy, c', hasks', href', hamount⟩ := hs.intents p hp
  refine ⟨m, c, _, hasks, hbody, hm, hexternal,
    fun hdecimals => env.handlers.intentToAPI_asksForQuoted hdecimals hpos hlt q, fun hkeeps => ?_⟩
  have hsame : c'.amountIDR = c.amountIDR :=
    hkeeps y hy c' (hm ▸ hasks') (href'.trans hexternal)
  exact hamount.symm.trans hsame

theorem create_response_matches_inTurn : ∃ s, run (step oneOrder) .init inTurn = some s ∧
    s.exchanges.map (fun x => x.outer.w.status.code) = [201, 200, 200] ∧
    ∀ x ∈ s.exchanges, ∃ v, x.outer.w.body = oneOrder.handlers.encode (.intent v) ∧
      v.merchantID = 1 ∧ v.externalRef = "order-1" ∧ v.amountIDR = 1000000 ∧
      v.AsksForQuoted .bytes32 6 := by
  obtain ⟨s, hs, hcodes, hall⟩ : ∃ s, run (step oneOrder) .init inTurn = some s ∧
      s.exchanges.map (fun x => x.outer.w.status.code) = [201, 200, 200] ∧
      ∀ x ∈ s.exchanges, x.request.route = .createPaymentIntent ∧ x.outer.Ended ∧
        (x.outer.w.status = statusOK ∨ x.outer.w.status = statusCreated) ∧
        oneOrder.asks x.request = some (1, ⟨"order-1", 1000000⟩) :=
    exists_of_any (by decide +kernel)
  refine ⟨s, hs, hcodes, fun x hx => ?_⟩
  obtain ⟨hroute, hended, hstatus, hasks⟩ := hall x hx
  obtain ⟨m, c, v, hasks', hbody, hm, href, hurl, hamount⟩ :=
    @create_response_matches oneOrder inTurn s (Path.of_run hs) (fun _ _ _ _ h => h) x hx hroute
      hended hstatus
  cases hasks.symm.trans hasks'
  refine ⟨v, hbody, hm, href, hamount fun y hy c' hasksY _ => ?_, hurl (by decide)⟩
  cases (hall y hy).2.2.2.symm.trans hasksY
  rfl

/-- A deployment in which a body asks for so many million rupiah under one reference, and a response
shows the millions. -/
def oneReference : Env :=
  { oneOrder with handlers := { oneOrder.handlers with
      decode := fun body => .ok ⟨"order-1", 1000000 * (body.headD 0).toNat⟩
      encode := fun
        | .intent v => [UInt8.ofNat (v.amountIDR / 1000000).toNat]
        | .error _ _ => [0] } }

/-- An order of one million rupiah, and then one of two millions under the same reference. -/
def changedAmount : List Event :=
  .arrive ⟨.createPaymentIntent, "", some 1, [1]⟩ (drawOf 0) :: List.replicate 8 (.call 0 .done) ++
  .arrive ⟨.createPaymentIntent, "", some 1, [2]⟩ (drawOf 1) :: List.replicate 3 (.call 1 .done)

theorem changedAmount_answered : ∃ s x c, run (step oneReference) .init changedAmount = some s ∧
    x ∈ s.exchanges ∧ x.request.route = .createPaymentIntent ∧ x.outer.Ended ∧
    x.outer.w.status = statusOK ∧ oneReference.asks x.request = some (1, c) ∧
    ∀ v, x.outer.w.body = oneReference.handlers.encode (.intent v) →
      v.amountIDR ≠ c.amountIDR := by
  obtain ⟨s, hs, x, hx, hroute, hended, hstatus, hasks, hbody⟩ : ∃ s,
      run (step oneReference) .init changedAmount = some s ∧ ∃ x ∈ s.exchanges,
        x.request.route = .createPaymentIntent ∧ x.outer.Ended ∧ x.outer.w.status = statusOK ∧
        oneReference.asks x.request = some (1, ⟨"order-1", 2000000⟩) ∧ x.outer.w.body = [1] :=
    exists_of_any (by decide +kernel)
  refine ⟨s, x, _, hs, hx, hroute, hended, hstatus, hasks, fun v hv hamount => ?_⟩
  have hshown : [1] = oneReference.handlers.encode (.intent v) := hbody.symm.trans hv
  simp only [oneReference, hamount] at hshown
  exact absurd hshown (by decide)

end Selatpay.Api
