import Selatpay.Api.Handlers
import Selatpay.Idempotency.Turns

/-!
# Requests to the API

A request passes the idempotency middleware, and the handler of its route runs where
the middleware calls it. An event lets one request make its next call, of the
middleware or of the handler. Forgetting the handlers gives a run of the middleware
over arbitrary handlers, so that everything known about such runs holds here.
-/

namespace Selatpay.Api

open Idempotency

/-- The routes of payment intents. -/
inductive Route
  | createPaymentIntent
  | getPaymentIntent (id : UUID)
  deriving DecidableEq

/-- The method of a route. -/
def Route.method : Route → String
  | .createPaymentIntent => "POST"
  | .getPaymentIntent _ => "GET"

/-- A request. -/
structure Request where
  route : Route
  /-- The header `Idempotency-Key`, empty when it is absent. -/
  idempotencyKey : String
  /-- The merchant the request was authenticated as. -/
  merchant : Option UUID
  body : Bytes
  deriving DecidableEq

/-- A request as the middleware reads it. -/
def Request.toMiddleware (r : Request) : Idempotency.Request :=
  ⟨r.route.method, r.idempotencyKey, r.merchant, .ok r.body⟩

/-- What is fixed at deployment. -/
structure Env where
  handlers : Handlers
  /-- SHA-256. -/
  sum256 : Bytes → Bytes
  /-- A Redis is configured. -/
  redis : Bool

/-- The deployment as the middleware sees it; the merchant is the authenticated one. -/
def Env.idempotency (env : Env) : Idempotency.Env := ⟨env.sum256, (·.merchant), env.redis⟩

/-- The handler of a request. -/
def Env.serve (env : Env) (r : Request) : HandlerM (List WriterCall) :=
  match r.route with
  | .createPaymentIntent => env.handlers.createPaymentIntent r.merchant r.body
  | .getPaymentIntent id => env.handlers.getPaymentIntent r.merchant id

/-- A request and how far it has come. -/
structure Exchange where
  request : Request
  draw : Draw
  /-- The request in the middleware. -/
  outer : Idempotency.Exchange
  /-- What is left of its handler. -/
  handler : HandlerM (List WriterCall)

/-- The state of the system. -/
structure World where
  stores : Stores
  db : Db
  exchanges : List Exchange

/-- A deployment before its first request. -/
def World.init : World := ⟨.empty, ⟨[], []⟩, []⟩

/-- What can happen. -/
inductive Event
  | arrive (r : Request) (d : Draw)
  /-- A request makes its next call. -/
  | call (n : Nat) (out : Outcome)
  /-- A key leaves Redis: its time is over or it is evicted. -/
  | expire (ck : String)

/-- A request that has just arrived. -/
def Env.exchange (env : Env) (r : Request) (d : Draw) : Exchange :=
  ⟨r, d, env.idempotency.exchange r.toMiddleware, env.serve r⟩

/-- The middleware has called the handler. -/
def Exchange.InHandler (x : Exchange) : Prop :=
  match x.outer.prog with
  | .call (.serveHTTP _) _ => True
  | _ => False

instance (x : Exchange) : Decidable x.InHandler := by
  unfold Exchange.InHandler
  split <;> infer_instance

/-- How the next call of the middleware is answered: by the handler when it has returned. -/
def Exchange.input (x : Exchange) (out : Outcome) : Input :=
  match x.outer.prog with
  | .call (.respond _) _ => .respond
  | .call (.serveHTTP _) _ => match x.handler with
    | .ret calls => .serve calls
    | _ => .respond
  | _ => .store out

/-- The step function. -/
def step (env : Env) (s : World) : Event → Option World
  | .arrive r d => some { s with exchanges := s.exchanges ++ [env.exchange r d] }
  | .expire ck => some { s with stores := s.stores.setCache ck none }
  | .call n out => match s.exchanges[n]? with
    | none => none
    | some x => match x.outer.answer s.stores (x.input out) with
      | some (y, stores) => some ⟨stores, s.db, s.exchanges.set n { x with outer := y }⟩
      | none => if x.InHandler then match x.handler with
          | .call o k => if x.draw.IsNew s.db o then
              let answer := s.db.answer x.draw o out
              some ⟨s.stores, answer.2, s.exchanges.set n { x with handler := k answer.1 }⟩
            else none
          | _ => none
        else none

/-- The requests as the middleware sees them. -/
def World.idempotency (s : World) : Idempotency.World := ⟨s.stores, s.exchanges.map (·.outer)⟩

/-! ## One event -/

/-- What an event can do. -/
inductive Change (env : Env) (s : World) : Event → World → Prop
  | arrive {r : Request} {d : Draw} :
      Change env s (.arrive r d) ⟨s.stores, s.db, s.exchanges ++ [env.exchange r d]⟩
  | expire {ck : String} :
      Change env s (.expire ck) ⟨s.stores.setCache ck none, s.db, s.exchanges⟩
  | middleware {n : Nat} {out : Outcome} {x : Exchange} {y : Idempotency.Exchange}
      {stores : Stores} : s.exchanges[n]? = some x →
      x.outer.answer s.stores (x.input out) = some (y, stores) →
      Change env s (.call n out) ⟨stores, s.db, s.exchanges.set n { x with outer := y }⟩
  | handler {n : Nat} {out : Outcome} {x : Exchange} {o : Op}
      {k : o.Rep → HandlerM (List WriterCall)} : s.exchanges[n]? = some x → x.InHandler →
      x.handler = .call o k → x.draw.IsNew s.db o →
      Change env s (.call n out) ⟨s.stores, (s.db.answer x.draw o out).2,
        s.exchanges.set n { x with handler := k (s.db.answer x.draw o out).1 }⟩

section Events

variable {env : Env} {s t : World} {e : Event}

theorem change_of_step (h : step env s e = some t) : Change env s e t := by
  cases e with
  | arrive r d =>
    cases h
    exact .arrive
  | expire ck =>
    cases h
    exact .expire
  | call n out =>
    simp only [step] at h
    split at h
    · cases h
    · next x hx =>
      split at h
      · next y stores hanswer =>
        cases h
        exact .middleware hx hanswer
      · split at h
        · next hin =>
          split at h
          · next o k hprog =>
            split at h
            · next hnew =>
              cases h
              exact .handler hx hin hprog hnew
            · cases h
          · cases h
        · cases h

/-- Where the handler is at a call, the middleware waits. -/
theorem Exchange.answer_eq_none {x : Exchange} (hin : x.InHandler) {o : Op}
    {k : o.Rep → HandlerM (List WriterCall)} (hprog : x.handler = .call o k) (stores : Stores)
    (out : Outcome) : x.outer.answer stores (x.input out) = none := by
  unfold Exchange.InHandler at hin
  split at hin
  · next captured k' houter => simp [Exchange.input, Idempotency.Exchange.answer, houter, hprog]
  · cases hin

theorem step_of_change (h : Change env s e t) : step env s e = some t := by
  cases h with
  | arrive => rfl
  | expire => rfl
  | middleware hx hanswer => simp [step, hx, hanswer]
  | @handler n out x o k hx hin hprog hnew =>
    simp only [step, hx, x.answer_eq_none hin hprog]
    rw [if_pos hin, hprog]
    simp [hnew]

/-- Without its handlers, an event is one of the middleware or none. -/
theorem Change.idempotency (h : Change env s e t) : t.idempotency = s.idempotency ∨
    ∃ e', Idempotency.step env.idempotency s.idempotency e' = some t.idempotency := by
  cases h with
  | @arrive r d =>
    refine .inr ⟨.arrive r.toMiddleware, ?_⟩
    simp [Idempotency.step, World.idempotency, Env.exchange]
  | @expire ck => exact .inr ⟨.expire ck, rfl⟩
  | @middleware n out x y stores hx hanswer =>
    refine .inr ⟨.call n (x.input out), ?_⟩
    simp [Idempotency.step, World.idempotency, hx, hanswer, List.map_set]
  | @handler n out x o k hx hin hprog hnew =>
    left
    have hsame : (s.exchanges.map (·.outer)).set n x.outer = s.exchanges.map (·.outer) := by
      have houter : (s.exchanges.map (·.outer))[n]? = some x.outer := by simp [hx]
      obtain ⟨hlt, hget⟩ := List.getElem?_eq_some_iff.mp houter
      rw [← hget]
      exact List.set_getElem_self hlt
    simp [World.idempotency, List.map_set, hsame]

end Events

/-! ## A small deployment -/

/-- A deployment in which every body asks for one million rupiah under one reference. -/
def oneOrder : Env where
  handlers := {
    spreadBps := 50
    ttl := 60
    hotWalletPubkey := 7
    usdcMint := 9
    usdcDecimals := 6
    solanaPayLabel := "Selatpay"
    solanaPayMessage := ""
    keys := .bytes32
    associatedTokenAddress := .ok "ata"
    decode := fun _ => .ok ⟨"order-1", 1000000⟩
    encode := fun
      | .intent v => [UInt8.ofNat v.id.toNat]
      | .error _ _ => [0] }
  sum256 := id
  redis := false

/-- A draw with its own ids and reference, at the rate of 16250 rupiah. -/
def drawOf (n : Nat) : Draw :=
  ⟨.ok ⟨16250, 0⟩, 1000, BitVec.ofNat 128 (10 + n), .ok (BitVec.ofNat 256 (n + 1)),
    BitVec.ofNat 128 (20 + n), 1000⟩

end Selatpay.Api
