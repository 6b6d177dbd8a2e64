import Selatpay.Core.Simulation
import Selatpay.Idempotency.Store

/-!
# The cache is transparent

Any number of clients call `Get` and `Put` on one store, and their statements
interleave. A run over `CachedStore` is simulated by a run over the `PGStore` beneath
it, in which a hit of the cache is a lookup of the row and what concerns only Redis
happens not at all: the durable rows are the same, and so is what every call returns.
-/

namespace Selatpay.Idempotency

/-- A call on a store. -/
inductive Call
  | get (merchantID : UUID) (key : String)
  | put (r : Record)
  deriving DecidableEq, Repr

/-- What the call returns. -/
def Call.Result : Call → Type
  | .get _ _ => Record
  | .put _ => Record × Bool

/-- The merchant and the key the call is about. -/
def Call.ident : Call → UUID × String
  | .get merchantID key => (merchantID, key)
  | .put r => r.ident

/-- The program of the call on a store. -/
def Store.invoke (store : Store) : (c : Call) → StoreM c.Result
  | .get merchantID key => store.get merchantID key
  | .put r => store.put r

/-- A call and how far it has come. -/
structure Session where
  call : Call
  prog : StoreM call.Result

/-- What a call has returned. -/
inductive Returned
  | record (r : Record)
  | stored (r : Record) (created : Bool)
  | error (err : GoError)
  deriving DecidableEq, Repr

/-- What a call reports when its program returns. -/
def Call.returned : (c : Call) → c.Result → Returned
  | .get _ _, r => .record r
  | .put _, (r, created) => .stored r created

/-- What the call has returned, once it has. -/
def Session.returned (x : Session) : Option Returned :=
  match x.prog with
  | .ret a => some (x.call.returned a)
  | .throw err => some (.error err)
  | .call _ _ => none

/-- A store and the calls its clients have made. -/
structure Clients where
  stores : Stores
  sessions : List Session

/-- Nothing is stored and nothing was called. -/
def Clients.init : Clients := ⟨.empty, []⟩

/-- What can happen. -/
inductive Clients.Event
  | begin (c : Call)
  /-- A call makes its next statement. -/
  | statement (n : Nat) (out : Outcome)
  /-- A key leaves Redis: its time is over or it is evicted. -/
  | expire (ck : String)

/-- The step function of clients of a store. -/
def Clients.step (store : Store) (s : Clients) : Clients.Event → Option Clients
  | .begin c => some { s with sessions := s.sessions ++ [⟨c, store.invoke c⟩] }
  | .statement n out => match s.sessions[n]? with
    | some ⟨c, .call o k⟩ => some ⟨(s.stores.answer o out).2,
        s.sessions.set n ⟨c, k (s.stores.answer o out).1⟩⟩
    | _ => none
  | .expire ck => some { s with stores := s.stores.setCache ck none }

/-- The events over the durable store that an event over the cached one stands for: a hit is a
lookup of the row, and no other statement to Redis is seen. -/
def Clients.durable (s : Clients) : Clients.Event → List Clients.Event
  | .begin c => [.begin c]
  | .expire _ => []
  | .statement n out => match s.sessions[n]? with
    | some ⟨_, .call (.redisGet ck) _⟩ => match (s.stores.answer (.redisGet ck) out).1 with
      | .ok (some _) => [.statement n .done]
      | _ => []
    | some ⟨_, .call (.redisSet _ _) _⟩ => []
    | _ => [.statement n out]

/-! ## What a call has seen -/

/-- What a call knows before its first statement. -/
def Call.start : Call → Seen
  | .get _ _ => .nothing
  | .put r => .writing r

/-- How a call ends. -/
def Call.Ends : (c : Call) → Seen → Except GoError c.Result → Prop
  | .get _ _ => Seen.GetEnds
  | .put _ => Seen.PutEnds

/-- The call has seen this of the row of its key. -/
structure Session.Follows (s : Stores) (x : Session) (v : Seen) : Prop where
  obeys : x.prog.Obeys (Seen.next x.call.ident.1 x.call.ident.2) x.call.Ends v
  holds : v.Holds s x.call.ident.1 x.call.ident.2

/-- Sound tables, and every call has seen what is there. -/
structure Clients.Tracked (s : Clients) : Prop where
  sound : s.stores.Sound
  follows : ∀ x ∈ s.sessions, ∃ v, x.Follows s.stores v

section Tracked

variable {store : Store} {s t : Clients} {e : Clients.Event}

theorem Store.Lawful.follows (h : store.Lawful) (s : Stores) (c : Call) :
    Session.Follows s ⟨c, store.invoke c⟩ c.start := by
  cases c with
  | get m k => exact ⟨h.get m k, trivial⟩
  | put r => exact ⟨h.put r, rfl⟩

theorem Session.Follows.mono {s t : Stores} {x : Session} {v : Seen} (h : x.Follows s v)
    (hst : s.rows <+: t.rows) : x.Follows t v :=
  ⟨h.obeys, h.holds.mono hst⟩

/-- A statement of a call is one its protocol allows. -/
theorem Session.Follows.answer {s : Stores} {c : Call} {o : StoreOp} {k : o.Rep → StoreM c.Result}
    {v : Seen} (h : Session.Follows s ⟨c, .call o k⟩ v) (hs : s.Sound) (out : Outcome) :
    (s.answer o out).2.Sound ∧
      ∃ v', Session.Follows (s.answer o out).2 ⟨c, k (s.answer o out).1⟩ v' := by
  obtain ⟨v', hnext, hobeys⟩ := h.obeys (s.answer o out).1
  obtain ⟨hsound, hholds⟩ := h.holds.answer hs hnext
  exact ⟨hsound, v', hobeys, hholds⟩

/-- A call makes its next statement. -/
theorem Clients.step_call {n : Nat} {out : Outcome} {c : Call} {o : StoreOp}
    {k : o.Rep → StoreM c.Result} (hx : s.sessions[n]? = some ⟨c, .call o k⟩) :
    Clients.step store s (.statement n out) = some ⟨(s.stores.answer o out).2,
      s.sessions.set n ⟨c, k (s.stores.answer o out).1⟩⟩ := by
  simp [Clients.step, hx]

/-- The statement a call makes and what becomes of it. -/
theorem Clients.step_statement {n : Nat} {out : Outcome}
    (h : Clients.step store s (.statement n out) = some t) :
    ∃ c o k, s.sessions[n]? = some ⟨c, .call o k⟩ ∧
      t = ⟨(s.stores.answer o out).2, s.sessions.set n ⟨c, k (s.stores.answer o out).1⟩⟩ := by
  simp only [Clients.step] at h
  split at h
  · next c o k hx =>
    cases h
    exact ⟨c, o, k, hx, rfl⟩
  · cases h

theorem Clients.tracked_step (hstore : store.Lawful) (hs : s.Tracked)
    (h : Clients.step store s e = some t) : t.Tracked := by
  cases e with
  | begin c =>
    cases h
    exact ⟨hs.sound, Table.forall_mem_concat hs.follows ⟨_, hstore.follows s.stores c⟩⟩
  | expire ck =>
    cases h
    refine ⟨hs.sound.setCache (by simp), fun x hx => ?_⟩
    obtain ⟨v, hv⟩ := hs.follows x hx
    exact ⟨v, hv.mono List.prefix_rfl⟩
  | statement n out =>
    obtain ⟨c, o, k, hx, rfl⟩ := Clients.step_statement h
    obtain ⟨v, hv⟩ := hs.follows _ (List.mem_of_getElem? hx)
    obtain ⟨hsound, v', hv'⟩ := hv.answer hs.sound out
    refine ⟨hsound, Table.forall_mem_set (fun y hy => ?_) ⟨v', hv'⟩ n⟩
    obtain ⟨w, hw⟩ := hs.follows y hy
    exact ⟨w, hw.mono (Stores.rows_prefix_answer _ _ _)⟩

theorem Clients.Tracked.init : Clients.init.Tracked :=
  ⟨⟨by simp [Clients.init, Stores.empty], by simp [Clients.init, Stores.empty]⟩,
    by simp [Clients.init]⟩

end Tracked

/-! ## The simulation -/

/-- The statement is one to Postgres. -/
def StoreOp.Durable : StoreOp → Prop
  | .getIdempotencyKey _ _ => True
  | .insertIdempotencyKey _ => True
  | _ => False

/-- What `CachedStore` does with what the store beneath has returned. -/
def Call.warmed : (c : Call) → c.Result → StoreM c.Result
  | .get merchantID key, r => (CachedStore.warm (cacheKey merchantID key) r).bind fun _ => .ret r
  | .put _, (stored, created) =>
    (CachedStore.warm (cacheKey stored.merchantID stored.key) stored).bind fun _ =>
      .ret (stored, created)

/-- A call on the cached store, and the same call on the store beneath. -/
inductive Shadows : Session → Session → Prop
  /-- Redis has not been asked yet. -/
  | lookup (m : UUID) (k : String) :
      Shadows ⟨.get m k, CachedStore.get newPGStore m k⟩ ⟨.get m k, PGStore.get m k⟩
  /-- The store beneath works, or has returned and Redis is still to be told. -/
  | within {c : Call} {q : StoreM c.Result} : q.Calls StoreOp.Durable →
      Shadows ⟨c, q.bind c.warmed⟩ ⟨c, q⟩
  | returned {c : Call} (a : c.Result) : Shadows ⟨c, .ret a⟩ ⟨c, .ret a⟩

/-- The same rows, and every call as far as the one it is simulated by. -/
structure Clients.Mirrors (s t : Clients) : Prop where
  tracked : s.Tracked
  rows : t.stores.rows = s.stores.rows
  shadows : List.Forall₂ Shadows s.sessions t.sessions

section Simulation

variable {s t : Stores}

theorem Stores.row_congr (h : t.rows = s.rows) (m : UUID) (k : String) : t.row m k = s.row m k := by
  rw [Stores.row, Stores.row, h]

/-- A statement to Postgres depends on the rows only. -/
theorem Stores.answer_durable (h : t.rows = s.rows) {o : StoreOp} (ho : o.Durable) (out : Outcome) :
    (t.answer o out).1 = (s.answer o out).1 ∧
      (t.answer o out).2.rows = (s.answer o out).2.rows := by
  cases o with
  | redisGet ck => cases ho
  | redisSet ck value => cases ho
  | getIdempotencyKey m k =>
    cases out with
    | done =>
      refine ⟨?_, h⟩
      simp only [Stores.answer, Stores.execute, Stores.row_congr h]
      rfl
    | lost msg => exact ⟨rfl, h⟩
    | failed msg => exact ⟨rfl, h⟩
  | insertIdempotencyKey r =>
    have hinsert : (t.insert r).1 = (s.insert r).1 ∧ (t.insert r).2.rows = (s.insert r).2.rows := by
      unfold Stores.insert
      rw [Stores.row_congr h]
      split
      · exact ⟨rfl, h⟩
      · split
        · exact ⟨rfl, by rw [h]⟩
        · exact ⟨rfl, h⟩
    cases out with
    | done => exact hinsert
    | lost msg => exact ⟨rfl, hinsert.2⟩
    | failed msg => exact ⟨rfl, h⟩

end Simulation

theorem PGStore.get_calls (m : UUID) (k : String) : (PGStore.get m k).Calls StoreOp.Durable := by
  refine (Prog.Calls.query trivial).bind fun (row : Except DbError Record) => ?_
  cases row with
  | ok r => exact .ret r
  | error err => cases err <;> exact .throw _

theorem PGStore.put_calls (r : Record) : (PGStore.put r).Calls StoreOp.Durable := by
  refine (Prog.Calls.query trivial).bind fun (inserted : Except DbError Record) => ?_
  cases inserted with
  | ok w => exact .ret _
  | error err =>
    cases err with
    | noRows => exact (PGStore.get_calls _ _).mapErr.bind fun _ => .ret _
    | unique => exact .throw _
    | failed msg => exact .throw _

/-- A call starts simulated by the same call. -/
theorem Shadows.invoke (c : Call) :
    Shadows ⟨c, (newCachedStore newPGStore).invoke c⟩ ⟨c, newPGStore.invoke c⟩ := by
  cases c with
  | get m k => exact .lookup m k
  | put r => exact .within (PGStore.put_calls r)

/-- Redis is told of a record, whatever it replies. -/
theorem Call.warmed_eq (c : Call) (a : c.Result) :
    ∃ ck value, c.warmed a = .call (.redisSet ck value) fun _ => .ret a := by
  cases c with
  | get m k => exact ⟨_, _, rfl⟩
  | put r => exact ⟨_, _, rfl⟩

section Statements

variable {s t : Clients} {n : Nat} {out : Outcome}

/-- The call on the store beneath keeps up when one on the cached store becomes `x` and leaves the
tables as `stores`. -/
def Clients.Matched (s t : Clients) (n : Nat) (out : Outcome) (stores : Stores) (x : Session) :
    Prop :=
  ∃ t' y, run (Clients.step newPGStore) t (s.durable (.statement n out)) = some t' ∧
    t'.sessions = t.sessions.set n y ∧ t'.stores.rows = stores.rows ∧ Shadows x y

/-- What is not seen by the store beneath is matched by doing nothing. -/
theorem Clients.Mirrors.still (h : s.Mirrors t) {x y : Session} {stores : Stores}
    (hdurable : s.durable (.statement n out) = []) (hy : t.sessions[n]? = some y)
    (hrows : stores.rows = s.stores.rows) (hxy : Shadows x y) : s.Matched t n out stores x := by
  obtain ⟨hlt, hget⟩ := List.getElem?_eq_some_iff.mp hy
  have hself : t.sessions = t.sessions.set n y := by rw [← hget, List.set_getElem_self]
  exact ⟨t, y, by rw [hdurable]; rfl, hself, h.rows.trans hrows.symm, hxy⟩

/-- A hit of the cache is matched by a lookup of the row. -/
theorem Clients.Mirrors.hit (h : s.Mirrors t) {m : UUID} {key : String} {p : CachePayload}
    (hcached : s.stores.cache (cacheKey m key) = some (some p))
    (hdurable : s.durable (.statement n out) = [.statement n .done])
    (hy : t.sessions[n]? = some ⟨.get m key, PGStore.get m key⟩) :
    s.Matched t n out s.stores ⟨.get m key, .ret (p.record m key)⟩ := by
  obtain ⟨r, hr, hck, hp⟩ := h.tracked.sound.cached _ _ hcached
  obtain ⟨rfl, rfl⟩ := cacheKey_inj.mp hck
  cases hp
  have hrow : t.stores.row r.merchantID r.key = some r := by
    rw [Stores.row_congr h.rows]
    exact (Stores.row_eq_some h.tracked.sound).mpr ⟨hr, rfl⟩
  have hstep : Clients.step newPGStore t (.statement n .done) =
      some ⟨t.stores, t.sessions.set n ⟨.get r.merchantID r.key, .ret r⟩⟩ := by
    have hanswer : t.stores.answer (.getIdempotencyKey r.merchantID r.key) .done =
        ((.ok r : Except DbError Record), t.stores) := by
      simp only [Stores.answer, Stores.execute, hrow]
      rfl
    refine (Clients.step_call hy).trans ?_
    rw [hanswer]
    rfl
  refine ⟨⟨t.stores, t.sessions.set n ⟨.get r.merchantID r.key, .ret r⟩⟩, _, ?_, rfl, h.rows,
    .returned (c := .get _ _) r⟩
  simp [hdurable, run, hstep]

/-- A statement of a call on the cached store is matched by the call on the store beneath. -/
theorem Clients.Mirrors.statement (h : s.Mirrors t) {c : Call} {o : StoreOp}
    {k : o.Rep → StoreM c.Result} (hx : s.sessions[n]? = some ⟨c, .call o k⟩) (out : Outcome) :
    s.Matched t n out (s.stores.answer o out).2 ⟨c, k (s.stores.answer o out).1⟩ := by
  obtain ⟨y, hy, hxy⟩ := exists_getElem?_of_forall₂ h.shadows hx
  generalize hsession : (⟨c, .call o k⟩ : Session) = x at hxy
  cases hxy with
  | returned a => cases hsession
  | lookup m key =>
    cases hsession
    rw [Stores.answer_redisGet_snd]
    have hmiss : s.durable (.statement n out) = [] → s.Matched t n out s.stores
        ⟨.get m key, (PGStore.get m key).bind (Call.warmed (.get m key))⟩ := fun hnone =>
      h.still hnone hy rfl (.within (PGStore.get_calls m key))
    generalize hreply : (s.stores.answer (.redisGet (cacheKey m key)) out).1 = reply
    match reply, hreply with
    | .error err, hreply => exact hmiss (by simp [Clients.durable, hx, hreply])
    | .ok none, hreply => exact hmiss (by simp [Clients.durable, hx, hreply])
    | .ok (some p), hreply =>
      exact h.hit (Stores.answer_redisGet_ok hreply) (by simp [Clients.durable, hx, hreply]) hy
  | @within _ q hq =>
    cases hq with
    | throw err => cases hsession
    | ret a =>
      obtain ⟨ck, value, hwarm⟩ := Call.warmed_eq _ a
      rw [Prog.ret_bind, hwarm] at hsession
      cases hsession
      exact h.still (by simp [Clients.durable, hx]) hy (Stores.rows_answer (by simp) _)
        (.returned a)
    | @call o' k' ho hk =>
      cases hsession
      obtain ⟨hreply, hrows⟩ := Stores.answer_durable h.rows ho out
      have hdurable : s.durable (.statement n out) = [.statement n out] := by
        cases o with
        | redisGet ck => cases ho
        | redisSet ck value => cases ho
        | getIdempotencyKey m key => simp [Clients.durable, hx]
        | insertIdempotencyKey r => simp [Clients.durable, hx]
      refine ⟨⟨(t.stores.answer o out).2, t.sessions.set n ⟨c, k' (t.stores.answer o out).1⟩⟩, _,
        ?_, rfl, hrows, ?_⟩
      · simp [hdurable, run, Clients.step_call hy]
      · rw [hreply]
        exact .within (hk _)

end Statements

/-- A run over the cached store is simulated by one over the store beneath. -/
theorem Clients.simulates : Simulates (Clients.step (newCachedStore newPGStore))
    (Clients.step newPGStore) Clients.durable Clients.Mirrors := by
  intro s t e s' h hstep
  have htracked := Clients.tracked_step (newCachedStore_lawful newPGStore_lawful) h.tracked hstep
  cases e with
  | begin c =>
    cases hstep
    exact ⟨_, rfl, htracked, h.rows, List.rel_append h.shadows (.cons (.invoke c) .nil)⟩
  | expire ck =>
    cases hstep
    exact ⟨t, rfl, htracked, h.rows, h.shadows⟩
  | statement n out =>
    obtain ⟨c, o, k, hx, rfl⟩ := Clients.step_statement hstep
    obtain ⟨t', y, hrun, hsessions, hrows, hxy⟩ := h.statement hx out
    exact ⟨t', hrun, htracked, hrows, hsessions ▸ forall₂_set h.shadows n hxy⟩

/-- What the call has returned, the same call has returned. -/
def Session.Agrees (x y : Session) : Prop := y.call = x.call ∧ ∀ v ∈ x.returned, y.returned = some v

theorem Shadows.agrees {x y : Session} (h : Shadows x y) : x.Agrees y := by
  cases h with
  | lookup m k => exact ⟨rfl, fun v hv => by cases hv⟩
  | returned a => exact ⟨rfl, fun v hv => hv⟩
  | @within c q hq =>
    refine ⟨rfl, fun v hv => ?_⟩
    cases hq with
    | throw err => exact hv
    | call _ _ => cases hv
    | ret a =>
      obtain ⟨ck, value, hwarm⟩ := Call.warmed_eq c a
      rw [Prog.ret_bind, hwarm] at hv
      cases hv

/-- A record that `Get` has returned is the row of its key. -/
theorem Clients.Tracked.get_returned {s : Clients} (h : s.Tracked) {m : UUID} {k : String}
    {p : StoreM Record} (hx : ⟨.get m k, p⟩ ∈ s.sessions) {r : Record}
    (hr : (⟨.get m k, p⟩ : Session).returned = some (.record r)) : s.stores.row m k = some r := by
  obtain ⟨v, hobeys, hholds⟩ := h.follows _ hx
  cases p with
  | throw err => cases hr
  | call o f => cases hr
  | ret a =>
    cases hr
    cases v with
    | row w =>
      obtain rfl : r = w := hobeys
      exact (Stores.row_eq_some h.sound).mpr hholds
    | nothing => cases hobeys
    | noRow => cases hobeys
    | writing w => cases hobeys

/-- Over the cached store, every cached payload is the durable row of its key, `Get` returns the row
of its key, and the run is one over the store beneath: with the same rows, and with the same results
of all calls. -/
theorem cachedStore_refines_pgStore {es : List Clients.Event} {s : Clients}
    (h : run (Clients.step (newCachedStore newPGStore)) .init es = some s) :
    (∀ m k raw, s.stores.cache (cacheKey m k) = some raw →
      ∃ r, s.stores.row m k = some r ∧ raw = some r.payload) ∧
    (∀ x ∈ s.sessions, ∀ m k r, x.call = .get m k → x.returned = some (.record r) →
      s.stores.row m k = some r) ∧
    ∃ t, run (Clients.step newPGStore) .init
        (translated (Clients.step (newCachedStore newPGStore)) Clients.durable .init es) = some t ∧
      t.stores.rows = s.stores.rows ∧ List.Forall₂ Session.Agrees s.sessions t.sessions := by
  have hinit : Clients.Mirrors .init .init := ⟨.init, rfl, .nil⟩
  obtain ⟨t, hrun, ht⟩ := Clients.simulates.run hinit h
  refine ⟨fun m k raw hraw => ?_, ?_, t, hrun, ht.rows, ht.shadows.imp fun _ _ => Shadows.agrees⟩
  · obtain ⟨r, hr, hck, hpayload⟩ := ht.tracked.sound.cached _ _ hraw
    obtain ⟨rfl, rfl⟩ := cacheKey_inj.mp hck
    exact ⟨r, (Stores.row_eq_some ht.tracked.sound).mpr ⟨hr, rfl⟩, hpayload⟩
  · rintro ⟨c, p⟩ hx m k r rfl hr
    exact ht.tracked.get_returned hx hr

/-- The record of a created order. -/
def orderRecord (body : Bytes) : Record := ⟨7, "order-1", [1], ⟨201, valid_created⟩, body⟩

/-- Two clients put a record under one key; the loser caches the winner's, its key expires while a
third client reads it through the cache, and a fourth one reads it while Redis is down. -/
def contended : List Clients.Event :=
  [.begin (.put (orderRecord [10])), .begin (.put (orderRecord [11])), .statement 0 .done,
    .statement 1 .done, .statement 1 .done, .statement 1 .done, .begin (.get 7 "order-1"),
    .statement 2 .done, .expire (cacheKey 7 "order-1"), .statement 0 .done,
    .begin (.get 7 "order-1"), .statement 3 (.failed "connection refused"), .statement 3 .done,
    .statement 3 (.failed "connection refused")]

theorem cachedStore_refines_pgStore_contended : ∃ s t,
    run (Clients.step (newCachedStore newPGStore)) .init contended = some s ∧
      s.sessions.map Session.returned = [some (.stored (orderRecord [10]) true),
        some (.stored (orderRecord [10]) false), some (.record (orderRecord [10])),
        some (.record (orderRecord [10]))] ∧
      run (Clients.step newPGStore) .init (translated (Clients.step (newCachedStore newPGStore))
        Clients.durable .init contended) = some t ∧ t.stores.rows = s.stores.rows ∧
      List.Forall₂ Session.Agrees s.sessions t.sessions := by
  obtain ⟨s, hs, hreturned⟩ : ∃ s,
      run (Clients.step (newCachedStore newPGStore)) .init contended = some s ∧
        s.sessions.map Session.returned = [some (.stored (orderRecord [10]) true),
          some (.stored (orderRecord [10]) false), some (.record (orderRecord [10])),
          some (.record (orderRecord [10]))] := exists_of_any (by decide +kernel)
  obtain ⟨-, -, t, ht⟩ := cachedStore_refines_pgStore hs
  exact ⟨s, t, hs, hreturned, ht⟩

end Selatpay.Idempotency
