import Selatpay.Core.Hoare
import Selatpay.Idempotency.Turns

/-!
# Requests whose record fits

When the durable store replies to every lookup and a record it finds is one of the
request's own body with a status below 400, the middleware never answers with an error
of its own: it replays that record, or the response is the wrapped handler's.
-/

namespace Selatpay.Idempotency

/-- A record of the body of a request, with a status below 400. -/
def Keyed.Fits (q : Keyed) (r : Record) : Prop := r.requestHash = q.hash ∧ r.statusCode.code < 400

/-- A lookup finds a fitting record or that there is none; Redis may know of it or not. -/
def StoreOp.Fits (q : Keyed) : (o : StoreOp) → o.Rep → Prop
  | .redisGet _, (reply : Except RedisError Raw) =>
    ∀ p, reply = .ok (some p) → q.Fits (p.record q.merchantID q.key)
  | .getIdempotencyKey _ _, (reply : Except DbError Record) =>
    (∃ r, reply = .ok r ∧ q.Fits r) ∨ reply = .error .noRows
  | _, _ => True

/-- How a `Get` ends then. -/
def Keyed.Found (q : Keyed) (x : Except GoError Record) : Prop :=
  (∃ r, x = .ok r ∧ q.Fits r) ∨ x = .error errNotFound

/-- A `Get` finds what there is. -/
def Store.Finds (store : Store) : Prop := ∀ q : Keyed, (store.get q.merchantID q.key).Wp
  (fun (_ : Unit) o reply _ => o.Fits q reply) (fun x _ => q.Found x) ()

theorem newPGStore_finds : newPGStore.Finds := by
  rintro q (reply : Except DbError Record) ⟨⟩ hreply
  obtain ⟨r, rfl, hr⟩ | rfl := hreply
  · exact .inl ⟨r, rfl, hr⟩
  · exact .inr rfl

theorem newCachedStore_finds {inner : Store} (h : inner.Finds) : (newCachedStore inner).Finds := by
  intro q
  have hthrough : ((inner.get q.merchantID q.key).bind fun r =>
      (CachedStore.warm (cacheKey q.merchantID q.key) r).bind fun _ => .ret r).Wp
        (fun (_ : Unit) o reply _ => o.Fits q reply) (fun x _ => q.Found x) () := by
    refine (h q).bind (fun r _ hr => ?_) fun e _ he => he
    intro reply _ _
    exact hr
  rintro (reply : Except RedisError Raw) ⟨⟩ hreply
  match reply, hreply with
  | .error err, _ => exact hthrough
  | .ok none, _ => exact hthrough
  | .ok (some p), hreply => exact .inl ⟨_, rfl, hreply p rfl⟩

theorem Env.finds (env : Env) : env.middleware.store.Finds := by
  cases h : env.redis with
  | false => simpa [Env.middleware, h] using newPGStore_finds
  | true => simpa [Env.middleware, h] using newCachedStore_finds newPGStore_finds

/-! ## The middleware -/

/-- What the caller has received, and the calls of the wrapped handler. -/
structure Received where
  w : ResponseWriter
  served : Option (List WriterCall)

/-- How a call of the middleware is answered when lookups find fitting records. -/
def Op.Fits (q : Keyed) (g : Received) : (o : Op) → o.Rep → Received → Prop
  | .store o, reply, g' => o.Fits q reply ∧ g' = g
  | .serveHTTP captured, (calls : List WriterCall), g' => g' =
      ⟨if captured then (capture g.w calls).responseWriter else g.w.calls calls, some calls⟩
  | .respond calls, _, g' => g' = { g with w := g.w.calls calls }

/-- The response is a replay of a fitting record, or the handler's. -/
def Received.Settled (q : Keyed) (r : Request) (g : Received) : Prop :=
  match g.served with
  | none => r.Guarded ∧ ∃ w, q.Fits w ∧ g.w = ResponseWriter.fresh.calls (replay w)
  | some calls => g.w = (capture .fresh calls).responseWriter ∨
      g.w = ResponseWriter.fresh.calls calls

section Handler

variable {m : Middleware} {sum256 : Bytes → Bytes} {q : Keyed} {r : Request} {g : Received}

/-- A program of a store inside the middleware. -/
theorem onStore_fits {α : Type} {Q : Except GoError α → Unit → Prop} {p : StoreM α}
    (h : p.Wp (fun (_ : Unit) o reply _ => o.Fits q reply) Q ()) :
    (onStore p).Wp (Op.Fits q) (fun x g' => ∃ y, x = .ok y ∧ g' = g ∧ Q y ()) g := by
  refine Prog.Wp.attempt (Q := fun y g' => g' = g ∧ Q y ()) ?_ ?_
  · refine h.lift (fun _ => g) ?_ fun x _ hx => ⟨rfl, hx⟩
    rintro _ o reply g' ⟨hfits, rfl⟩
    exact ⟨(), hfits, rfl⟩
  · rintro y g' ⟨rfl, hy⟩
    exact ⟨y, rfl, rfl, hy⟩

/-- Behind a lookup that has found nothing, the response is the handler's. -/
theorem captureAndPut_fits :
    (m.captureAndPut q.merchantID q.key q.hash).Wp (Op.Fits q) (fun _ g => g.Settled q r)
      ⟨.fresh, none⟩ := by
  rintro (calls : List WriterCall) g rfl
  change Prog.Wp _ _ (if (capture .fresh calls).status.code ≥ 500 then _ else _) _
  have hsettled : Received.Settled q r ⟨(capture .fresh calls).responseWriter, some calls⟩ :=
    .inl rfl
  by_cases hstatus : (capture .fresh calls).status.code ≥ 500
  · rw [if_pos hstatus]
    exact hsettled
  · rw [if_neg hstatus]
    refine (onStore_fits (Prog.wp_true _ ())).bind ?_ fun e => e.elim
    rintro x g ⟨y, -, rfl, -⟩
    exact hsettled

/-- `Handler` for a request that it serves or passes on. -/
theorem handler_fits (hm : m.store.Finds) (hserves : r.Guarded → m.Admits r) :
    (m.handler sum256 r).Wp (Op.Fits (m.keyed sum256 r))
      (fun _ g => g.Settled (m.keyed sum256 r) r) ⟨.fresh, none⟩ := by
  have hpass : ((serveHTTP false).bind fun _ => .ret ()).Wp (Op.Fits (m.keyed sum256 r))
      (fun _ g => g.Settled (m.keyed sum256 r) r) ⟨.fresh, none⟩ := by
    rintro calls g rfl
    exact .inr rfl
  by_cases hmut : isMutating r.method = false
  · rw [Middleware.handler, if_pos hmut]
    exact hpass
  by_cases hkey : r.idempotencyKey = ""
  · rw [Middleware.handler, if_neg hmut, if_pos hkey]
    exact hpass
  have hguarded : r.Guarded := ⟨by simpa using hmut, hkey⟩
  obtain ⟨hres, hbody⟩ := hserves hguarded
  rw [Middleware.handler, if_neg hmut, if_neg hkey]
  cases hmerchant : m.resolver r with
  | none => simp [hmerchant] at hres
  | some merchantID =>
    cases hbytes : r.body with
    | error err => simp [hbytes, Except.isOk, Except.toBool] at hbody
    | ok body =>
      have hq : m.keyed sum256 r = ⟨merchantID, r.idempotencyKey, hashRequest sum256 body⟩ := by
        simp [Middleware.keyed, hmerchant, hbytes, Except.toOption]
      generalize hkeyed : m.keyed sum256 r = q at hq
      subst hq
      refine (onStore_fits (hm _)).bind ?_ fun e => e.elim
      rintro x g ⟨y, hx, rfl, hy⟩
      cases hx
      obtain ⟨w, rfl, hhash, hstatus⟩ | rfl := hy
      · have hrespond : m.afterLookup merchantID r.idempotencyKey (hashRequest sum256 body)
            (.ok w) = respond (replay w) := by
          simp [Middleware.afterLookup, constantTimeCompare, hhash]
        rw [hrespond]
        rintro reply g rfl
        exact ⟨hguarded, w, ⟨hhash, hstatus⟩, rfl⟩
      · exact captureAndPut_fits (q := ⟨merchantID, r.idempotencyKey, hashRequest sum256 body⟩)

end Handler

/-- A call of a request that is answered so keeps its judgement. -/
theorem Exchange.wp_of_answer {q : Keyed} {Q : Except Empty Unit → Received → Prop}
    {x y : Exchange} {s s' : Stores} {input : Input}
    (h : x.prog.Wp (Op.Fits q) Q ⟨x.w, x.served⟩) (hanswer : x.answer s input = some (y, s'))
    (hfits : ∀ out o k, input = .store out → x.prog = .call (.store o) k →
      o.Fits q (s.answer o out).1) : y.prog.Wp (Op.Fits q) Q ⟨y.w, y.served⟩ := by
  cases Exchange.proceeds_of_answer hanswer with
  | @store out o k hprog =>
    rw [hprog] at h
    exact h _ _ ⟨hfits out o k rfl hprog, rfl⟩
  | serve hprog =>
    rw [hprog] at h
    exact h _ _ rfl
  | respond hprog =>
    rw [hprog] at h
    exact h _ _ rfl

end Selatpay.Idempotency
