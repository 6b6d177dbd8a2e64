import Selatpay.Core.Hoare
import Selatpay.Idempotency.Turns

/-!
# One request at a time

When requests do not overlap and the durable store executes its statements, `Handler`
is a function of the rows it starts from: it replays the row of its key, rejects
another body with a conflict, or runs the wrapped handler and stores what it answered
below 500. A history of such requests is decided, key by key, by the first request
whose handler answered below 500.
-/

namespace Selatpay.Idempotency

/-! ## What the stores do when they run alone -/

/-- The durable store replies with a row or that there is none; a Redis may fail. -/
def StoreOp.Succeeds : (o : StoreOp) → o.Rep → Prop
  | .getIdempotencyKey _ _, (reply : Except DbError Record) => match reply with
    | .ok _ => True
    | .error err => err = .noRows
  | .insertIdempotencyKey _, (reply : Except DbError Record) => match reply with
    | .ok _ => True
    | .error err => err = .noRows
  | _, _ => True

/-- The row of a key. -/
def rowOf (rows : List Record) (m : UUID) (k : String) : Option Record :=
  Table.find Record.ident rows (m, k)

/-- How the tables answer a statement that succeeds, by the rows alone: Redis may know a row or
not. -/
def StoreOp.Answers (rows : List Record) : (o : StoreOp) → o.Rep → List Record → Prop
  | .redisGet ck, (reply : Except RedisError Raw), rows' => rows' = rows ∧
      ∀ raw, reply = .ok raw → ∃ r ∈ rows, ck = cacheKey r.merchantID r.key ∧ raw = some r.payload
  | .redisSet _ _, _, rows' => rows' = rows
  | .getIdempotencyKey m k, (reply : Except DbError Record), rows' =>
      rows' = rows ∧ reply = (rowOf rows m k).elim (.error .noRows) .ok
  | .insertIdempotencyKey r, (reply : Except DbError Record), rows' =>
      match rowOf rows r.merchantID r.key with
      | none => reply = .ok r ∧ rows' = rows ++ [r]
      | some _ => reply = .error .noRows ∧ rows' = rows

/-- What a `Get` returns. -/
def getResult (rows : List Record) (m : UUID) (k : String) : Except GoError Record :=
  (rowOf rows m k).elim (.error errNotFound) .ok

/-- The rows after a `Put`. -/
def putRows (rows : List Record) (r : Record) : List Record :=
  (rowOf rows r.merchantID r.key).elim (rows ++ [r]) fun _ => rows

/-- What a store does when its calls succeed. -/
structure Store.Meets (store : Store) : Prop where
  get : ∀ rows m k, (rows.map Record.ident).Nodup →
    (store.get m k).Wp StoreOp.Answers (fun x rows' => rows' = rows ∧ x = getResult rows m k) rows
  put : ∀ rows r, (store.put r).Wp StoreOp.Answers (fun _ rows' => rows' = putRows rows r) rows

theorem PGStore.get_wp (rows : List Record) (m : UUID) (k : String) :
    (PGStore.get m k).Wp StoreOp.Answers (fun x rows' => rows' = rows ∧ x = getResult rows m k)
      rows := by
  rintro reply rows' ⟨rfl, rfl⟩
  cases h : rowOf rows' m k with
  | none => exact ⟨rfl, by simp [getResult, h]⟩
  | some r => exact ⟨rfl, by simp [getResult, h]⟩

theorem PGStore.put_wp (rows : List Record) (r : Record) :
    (PGStore.put r).Wp StoreOp.Answers (fun _ rows' => rows' = putRows rows r) rows := by
  intro (reply : Except DbError Record) rows' hreply
  simp only [StoreOp.Answers] at hreply
  cases h : rowOf rows r.merchantID r.key with
  | none =>
    rw [h] at hreply
    obtain ⟨rfl, rfl⟩ := hreply
    exact (by simp [putRows, h] : rows ++ [r] = putRows rows r)
  | some w =>
    rw [h] at hreply
    obtain ⟨rfl, rfl⟩ := hreply
    have hsame : rows' = putRows rows' r := by simp [putRows, h]
    change (((PGStore.get r.merchantID r.key).mapErr _).bind _).Wp _ _ rows'
    refine ((PGStore.get_wp rows' _ _).mapErr (R := fun _ s => s = rows') ?_).bind ?_ ?_
    · rintro x s ⟨hs, -⟩
      exact hs
    · rintro a s rfl
      exact hsame
    · rintro e s rfl
      exact hsame

theorem newPGStore_meets : newPGStore.Meets := ⟨fun rows m k _ => PGStore.get_wp rows m k,
  PGStore.put_wp⟩

/-- Telling Redis changes no row. -/
theorem CachedStore.warm_wp (rows : List Record) (ck : String) (r : Record) :
    (CachedStore.warm ck r).Wp StoreOp.Answers (fun x rows' => rows' = rows ∧ x = .ok ()) rows := by
  rintro reply rows' rfl
  exact ⟨rfl, rfl⟩

theorem CachedStore.get_wp {inner : Store} (h : inner.Meets) {rows : List Record}
    (hnodup : (rows.map Record.ident).Nodup) (m : UUID) (k : String) :
    (CachedStore.get inner m k).Wp StoreOp.Answers
      (fun x rows' => rows' = rows ∧ x = getResult rows m k) rows := by
  have hthrough : ((inner.get m k).bind fun r =>
      (CachedStore.warm (cacheKey m k) r).bind fun _ => .ret r).Wp StoreOp.Answers
        (fun x rows' => rows' = rows ∧ x = getResult rows m k) rows := by
    refine (h.get rows m k hnodup).bind ?_ fun e s hs => hs
    rintro r s ⟨rfl, hr⟩
    refine (CachedStore.warm_wp s _ r).bind ?_ ?_
    · rintro - s ⟨rfl, -⟩
      exact ⟨rfl, hr⟩
    · rintro e s ⟨-, he⟩
      cases he
  rintro (reply : Except RedisError Raw) rows' ⟨rfl, hraw⟩
  match reply, hraw with
  | .error err, _ => exact hthrough
  | .ok none, _ => exact hthrough
  | .ok (some p), hraw =>
    obtain ⟨r, hr, hck, hp⟩ := hraw _ rfl
    obtain ⟨rfl, rfl⟩ := cacheKey_inj.mp hck
    cases hp
    have hrow : rowOf rows' r.merchantID r.key = some r := Table.find_of_mem hnodup hr
    exact ⟨rfl, by simp [getResult, hrow]⟩

theorem newCachedStore_meets {inner : Store} (h : inner.Meets) : (newCachedStore inner).Meets := by
  refine ⟨fun rows m k hnodup => CachedStore.get_wp h hnodup m k, fun rows r => ?_⟩
  refine (h.put rows r).bind ?_ fun e s hs => hs
  rintro ⟨stored, created⟩ s hs
  refine (CachedStore.warm_wp s _ stored).bind ?_ ?_
  · rintro - s ⟨rfl, -⟩
    exact hs
  · rintro e s ⟨-, he⟩
    cases he

/-! ## What `Handler` does when it runs alone -/

/-- The rows, what the caller has received, and the calls of the wrapped handler. -/
structure Progress where
  rows : List Record
  w : ResponseWriter
  served : Option (List WriterCall)

/-- How a call of the middleware is answered. -/
def Op.Answers (g : Progress) : (o : Op) → o.Rep → Progress → Prop
  | .store o, reply, g' => ∃ rows', o.Answers g.rows reply rows' ∧ g' = { g with rows := rows' }
  | .serveHTTP captured, (calls : List WriterCall), g' => g' = { g with
      w := if captured then (capture g.w calls).responseWriter else g.w.calls calls
      served := some calls }
  | .respond calls, _, g' => g' = { g with w := g.w.calls calls }

/-- The response for a body other than the recorded one. -/
def conflict : List WriterCall :=
  httpError "idempotency key reused with a different request body" statusConflict

/-- What becomes of a request that is looked up in these rows. -/
def Keyed.Handled (q : Keyed) (rows : List Record) (g : Progress) : Prop :=
  match rowOf rows q.merchantID q.key with
  | some r => g.rows = rows ∧ g.served = none ∧
      g.w = ResponseWriter.fresh.calls (if r.requestHash = q.hash then replay r else conflict)
  | none => ∃ calls, g.served = some calls ∧ g.w = (capture .fresh calls).responseWriter ∧
      g.rows = if (capture .fresh calls).status.code < 500 then rows ++ [q.record calls] else rows

/-- What becomes of any request. -/
def Middleware.Handled (m : Middleware) (sum256 : Bytes → Bytes) (r : Request) (rows : List Record)
    (g : Progress) : Prop :=
  if r.Guarded then
    if m.Admits r then (m.keyed sum256 r).Handled rows g else g.rows = rows ∧ g.served = none
  else g.rows = rows

section Handler

variable {m : Middleware} {sum256 : Bytes → Bytes} {rows : List Record} {q : Keyed}

/-- A program of a store inside the middleware. -/
theorem onStore_wp {α : Type} {Q : Except GoError α → List Record → Prop} {p : StoreM α}
    {w : ResponseWriter} {served : Option (List WriterCall)} (h : p.Wp StoreOp.Answers Q rows) :
    (onStore p).Wp Op.Answers (fun x g => ∃ y rows', x = .ok y ∧ g = ⟨rows', w, served⟩ ∧ Q y rows')
      ⟨rows, w, served⟩ := by
  refine Prog.Wp.attempt (Q := fun y g => ∃ rows', g = ⟨rows', w, served⟩ ∧ Q y rows') ?_ ?_
  · refine h.lift (fun rows => (⟨rows, w, served⟩ : Progress)) ?_ fun x rows' hx => ⟨rows', rfl, hx⟩
    rintro rows o r g ⟨rows', hanswers, rfl⟩
    exact ⟨rows', hanswers, rfl⟩
  · rintro y g ⟨rows', rfl, hy⟩
    exact ⟨y, rows', rfl, rfl, hy⟩

/-- The wrapped handler runs and its response is stored. -/
theorem captureAndPut_wp (hm : m.store.Meets)
    (hrow : rowOf rows q.merchantID q.key = none) :
    (m.captureAndPut q.merchantID q.key q.hash).Wp Op.Answers (fun _ g => q.Handled rows g)
      ⟨rows, .fresh, none⟩ := by
  rintro (calls : List WriterCall) g rfl
  change Prog.Wp _ _ (if (capture .fresh calls).status.code ≥ 500 then _ else _) _
  by_cases hstatus : (capture .fresh calls).status.code ≥ 500
  · rw [if_pos hstatus]
    simp only [Prog.Wp, Keyed.Handled, hrow]
    exact ⟨calls, rfl, rfl, by rw [if_neg (by omega)]⟩
  · rw [if_neg hstatus]
    refine (onStore_wp (hm.put rows (q.record calls))).bind ?_ fun e => e.elim
    rintro x g ⟨y, rows', -, rfl, rfl⟩
    have hput : putRows rows (q.record calls) = rows ++ [q.record calls] := by
      simp [putRows, Keyed.record, hrow]
    simp only [Prog.Wp, Keyed.Handled, hrow]
    exact ⟨calls, rfl, rfl, by rw [if_pos (by omega), hput]⟩

/-- `Handler` for a request with a key, a merchant and a body. -/
theorem lookup_wp (hm : m.store.Meets) (hnodup : (rows.map Record.ident).Nodup) :
    ((onStore (m.store.get q.merchantID q.key)).bind
      (m.afterLookup q.merchantID q.key q.hash)).Wp Op.Answers (fun _ g => q.Handled rows g)
        ⟨rows, .fresh, none⟩ := by
  refine (onStore_wp (hm.get rows q.merchantID q.key hnodup)).bind ?_ fun e => e.elim
  rintro x g ⟨y, rows', hx, rfl, rfl, rfl⟩
  cases hx
  cases hrow : rowOf rows' q.merchantID q.key with
  | none =>
    rw [getResult, hrow]
    exact captureAndPut_wp hm hrow
  | some r =>
    have hrespond : m.afterLookup q.merchantID q.key q.hash (.ok r) =
        respond (if r.requestHash = q.hash then replay r else conflict) := by
      by_cases hhash : r.requestHash = q.hash
      · simp [Middleware.afterLookup, constantTimeCompare, hhash]
      · simp [Middleware.afterLookup, constantTimeCompare, hhash, conflict]
    rw [getResult, hrow, Option.elim_some, hrespond]
    rintro reply g rfl
    change q.Handled rows' _
    simp [Keyed.Handled, hrow]

/-- `Handler` as a function of the rows it starts from. -/
theorem handler_wp (hm : m.store.Meets) (hnodup : (rows.map Record.ident).Nodup) (r : Request) :
    (m.handler sum256 r).Wp Op.Answers (fun _ g => m.Handled sum256 r rows g)
      ⟨rows, .fresh, none⟩ := by
  have hpass (hguard : ¬ r.Guarded) : ((serveHTTP false).bind fun _ => .ret ()).Wp Op.Answers
      (fun _ g => m.Handled sum256 r rows g) ⟨rows, .fresh, none⟩ := by
    rintro calls g rfl
    change m.Handled sum256 r rows _
    simp [Middleware.Handled, hguard]
  have hreject (hguard : r.Guarded) (hadmits : ¬ m.Admits r) (calls : List WriterCall) :
      (respond calls).Wp Op.Answers (fun _ g => m.Handled sum256 r rows g)
        ⟨rows, .fresh, none⟩ := by
    rintro reply g rfl
    change m.Handled sum256 r rows _
    simp [Middleware.Handled, hguard, hadmits]
  by_cases hmut : isMutating r.method = false
  · rw [Middleware.handler, if_pos hmut]
    exact hpass fun h => by simp [h.1] at hmut
  by_cases hkey : r.idempotencyKey = ""
  · rw [Middleware.handler, if_neg hmut, if_pos hkey]
    exact hpass fun h => h.2 hkey
  have hguarded : r.Guarded := ⟨by simpa using hmut, hkey⟩
  rw [Middleware.handler, if_neg hmut, if_neg hkey]
  cases hres : m.resolver r with
  | none => exact hreject hguarded (by simp [Middleware.Admits, hres]) _
  | some merchantID =>
    cases hbody : r.body with
    | error err =>
      exact hreject hguarded (by simp [Middleware.Admits, hbody, Except.isOk, Except.toBool]) _
    | ok body =>
      have hadmits : m.Admits r := by
        simp [Middleware.Admits, hres, hbody, Except.isOk, Except.toBool]
      have hq : m.keyed sum256 r = ⟨merchantID, r.idempotencyKey, hashRequest sum256 body⟩ := by
        simp [Middleware.keyed, hres, hbody, Except.toOption]
      simp only [Middleware.Handled, hguarded, hadmits, if_true, hq]
      exact lookup_wp hm hnodup

end Handler

/-! ## One request after the other -/

/-- A request arrives when all others have ended, and the durable store never fails. -/
def OneAtATime (s : World) : Event → Prop
  | .arrive _ => ∀ x ∈ s.exchanges, x.Ended
  | .call n (.store out) => ∀ x ∈ s.exchanges[n]?, match x.prog with
    | .call (.store o) _ => o.Succeeds (s.stores.answer o out).1
    | _ => True
  | _ => True

instance : (o : StoreOp) → (reply : o.Rep) → Decidable (o.Succeeds reply)
  | .redisGet _, _ => .isTrue trivial
  | .redisSet _ _, _ => .isTrue trivial
  | .getIdempotencyKey _ _, .ok _ => .isTrue trivial
  | .getIdempotencyKey _ _, .error err => inferInstanceAs (Decidable (err = DbError.noRows))
  | .insertIdempotencyKey _, .ok _ => .isTrue trivial
  | .insertIdempotencyKey _, .error err => inferInstanceAs (Decidable (err = DbError.noRows))

instance (s : World) : (e : Event) → Decidable (OneAtATime s e)
  | .arrive _ => inferInstanceAs (Decidable (∀ x ∈ s.exchanges, x.Ended))
  | .call n (.store out) => @Option.decidableForallMem _ _ (fun
      | ⟨_, .call (.store o) _, _, _⟩ =>
        inferInstanceAs (Decidable (o.Succeeds (s.stores.answer o out).1))
      | ⟨_, .call (.serveHTTP _) _, _, _⟩ => .isTrue trivial
      | ⟨_, .call (.respond _) _, _, _⟩ => .isTrue trivial
      | ⟨_, .ret _, _, _⟩ => .isTrue trivial) s.exchanges[n]?
  | .call _ (.serve _) => .isTrue trivial
  | .call _ .respond => .isTrue trivial
  | .expire _ => .isTrue trivial

/-- Requests handled one after the other, and the rows they leave. -/
inductive History (env : Env) : List Exchange → List Record → Prop
  | nil : History env [] []
  | snoc {xs : List Exchange} {rows rows' : List Record} {x : Exchange} : History env xs rows →
      env.middleware.Handled env.sum256 x.request rows ⟨rows', x.w, x.served⟩ →
      History env (xs ++ [x]) rows'

/-- The requests have been handled one after the other, the last one perhaps not to its end. -/
structure InSequence (env : Env) (s : World) : Prop where
  tracked : Tracked env s
  history : ∃ xs rows, History env xs rows ∧ (∀ x ∈ xs, x.Ended) ∧
    (s.exchanges = xs ∧ s.stores.rows = rows ∨ ∃ y, s.exchanges = xs ++ [y] ∧
      y.prog.Wp Op.Answers (fun _ g => env.middleware.Handled env.sum256 y.request rows g)
        ⟨s.stores.rows, y.w, y.served⟩)

section Runs

variable {env : Env} {s t : World} {e : Event}

theorem Env.meets (env : Env) : env.middleware.store.Meets := by
  cases h : env.redis with
  | false => simpa [Env.middleware, h] using newPGStore_meets
  | true => simpa [Env.middleware, h] using newCachedStore_meets newPGStore_meets

/-- Sound tables answer a statement that succeeds by their rows. -/
theorem StoreOp.answers_of_succeeds {s : Stores} {o : StoreOp} {out : Outcome} (hs : s.Sound)
    (h : o.Succeeds (s.answer o out).1) :
    o.Answers s.rows (s.answer o out).1 (s.answer o out).2.rows := by
  cases o with
  | redisGet ck =>
    refine ⟨by rw [Stores.answer_redisGet_snd], fun raw hraw => ?_⟩
    exact hs.cached ck raw (Stores.answer_redisGet_ok hraw)
  | redisSet ck value => exact Stores.rows_answer (by simp) out
  | getIdempotencyKey m k =>
    refine ⟨by rw [Stores.answer_get_snd], ?_⟩
    cases out with
    | lost msg => cases h
    | failed msg => cases h
    | done =>
      have hexecute : s.row m k = rowOf s.rows m k := rfl
      simp only [Stores.answer, Stores.execute, hexecute]
      cases rowOf s.rows m k <;> rfl
  | insertIdempotencyKey r =>
    cases out with
    | lost msg => cases h
    | failed msg => cases h
    | done =>
      have hexecute : s.row r.merchantID r.key = rowOf s.rows r.merchantID r.key := rfl
      simp only [Stores.answer, Stores.execute, Stores.insert, StoreOp.Answers, hexecute] at h ⊢
      by_cases hbody : r.responseBody = []
      · rw [if_pos hbody] at h
        cases h
      · rw [if_neg hbody]
        cases rowOf s.rows r.merchantID r.key <;> exact ⟨rfl, rfl⟩

/-- A call of a request, by the rows. -/
theorem Exchange.answers_of_answer {s s' : Stores} {x x' : Exchange} {input : Input}
    (hs : s.Sound) (h : x.answer s input = some (x', s'))
    (hok : ∀ out o k, input = .store out → x.prog = .call (.store o) k →
      o.Succeeds (s.answer o out).1) :
    ∃ o k reply, x.prog = .call o k ∧ x'.prog = k reply ∧ x'.request = x.request ∧
      o.Answers ⟨s.rows, x.w, x.served⟩ reply ⟨s'.rows, x'.w, x'.served⟩ := by
  cases Exchange.proceeds_of_answer h with
  | @store out o k hprog =>
    exact ⟨.store o, k, _, hprog, rfl, rfl, _, StoreOp.answers_of_succeeds hs
      (hok out o k rfl hprog), rfl⟩
  | @serve calls captured k hprog =>
    exact ⟨.serveHTTP captured, k, calls, hprog, rfl, rfl, rfl⟩
  | @respond calls k hprog => exact ⟨.respond calls, k, (), hprog, rfl, rfl, rfl⟩

/-- A request that has ended makes no call. -/
theorem Exchange.Ended.answer_eq_none {x : Exchange} (h : x.Ended) (s : Stores) (input : Input) :
    x.answer s input = none := by
  unfold Exchange.Ended at h
  split at h
  · next a hprog => cases input <;> simp [Exchange.answer, hprog]
  · cases h

/-- When all requests have ended, they are a history. -/
theorem InSequence.of_ended (hs : InSequence env s) (h : ∀ x ∈ s.exchanges, x.Ended) :
    History env s.exchanges s.stores.rows := by
  obtain ⟨xs, rows, hxs, -, ⟨rfl, rfl⟩ | ⟨y, hexchanges, hy⟩⟩ := hs.history
  · exact hxs
  · have hended := h y (by simp [hexchanges])
    unfold Exchange.Ended at hended
    split at hended
    · next a hprog =>
      rw [hprog] at hy
      rw [hexchanges]
      exact .snoc hxs hy
    · cases hended

theorem inSequence_step (hs : InSequence env s) (hok : OneAtATime s e)
    (h : step env s e = some t) : InSequence env t := by
  refine ⟨tracked_step hs.tracked h, ?_⟩
  cases e with
  | arrive r =>
    cases h
    exact ⟨s.exchanges, s.stores.rows, hs.of_ended hok, hok, .inr ⟨_, rfl,
      handler_wp env.meets hs.tracked.sound.unique r⟩⟩
  | expire ck =>
    cases h
    exact hs.history
  | call n input =>
    simp only [step] at h
    split at h
    · cases h
    · next x hx =>
      split at h
      · cases h
      · next x' stores hanswer =>
        cases h
        have hactive : ¬ x.Ended := fun hended => by simp [hended.answer_eq_none] at hanswer
        obtain ⟨xs, rows, hxs, hended, ⟨rfl, -⟩ | ⟨y, hexchanges, hy⟩⟩ := hs.history
        · exact absurd (hended x (List.mem_of_getElem? hx)) hactive
        · have hlast : n = xs.length ∧ x = y := by
            rw [hexchanges, List.getElem?_append] at hx
            split at hx
            · exact absurd (hended x (List.mem_of_getElem? hx)) hactive
            · obtain ⟨hzero, hget⟩ := List.getElem?_eq_some_iff.mp hx
              simp only [List.length_singleton] at hzero
              exact ⟨by omega, by simpa using hget.symm⟩
          obtain ⟨rfl, rfl⟩ := hlast
          obtain ⟨o, k, reply, hprog, hprog', hreq, hanswers⟩ :=
            Exchange.answers_of_answer hs.tracked.sound hanswer fun out o k hinput hprog => by
              subst hinput
              simpa [hprog] using hok x hx
          rw [hprog] at hy
          refine ⟨xs, rows, hxs, hended, .inr ⟨x', by simp [hexchanges], ?_⟩⟩
          rw [hprog', hreq]
          exact hy reply _ hanswers

theorem InSequence.init (env : Env) : InSequence env .init :=
  ⟨.init env, [], [], .nil, by simp, .inl ⟨rfl, rfl⟩⟩

end Runs

/-! ## What a history has decided -/

section Histories

variable {env : Env} {xs : List Exchange} {rows rows' : List Record} {x y : Exchange}
  {m : UUID} {k : String}

/-- A request leaves the rows and no handler response below 500, or it is the first one of its key
whose handler has answered below 500. -/
theorem handled_cases
    (h : env.middleware.Handled env.sum256 x.request rows ⟨rows', x.w, x.served⟩) :
    (rows' = rows ∧ ∀ calls, ¬ x.Ran calls) ∨ ∃ calls, env.middleware.Admits x.request ∧
      rowOf rows (env.keyed x).merchantID (env.keyed x).key = none ∧ x.Ran calls ∧
      x.w = (capture .fresh calls).responseWriter ∧
      rows' = rows ++ [(env.keyed x).record calls] := by
  unfold Middleware.Handled at h
  split at h
  case isFalse hguard => exact .inl ⟨h, fun calls hran => hguard hran.1⟩
  case isTrue hguard =>
  split at h
  case isFalse =>
    obtain ⟨hrows, hserved⟩ := h
    refine .inl ⟨hrows, fun calls hran => ?_⟩
    cases hserved.symm.trans hran.2.1
  case isTrue hadmits =>
    unfold Keyed.Handled at h
    split at h
    · obtain ⟨hrows, hserved, -⟩ := h
      refine .inl ⟨hrows, fun calls hran => ?_⟩
      cases hserved.symm.trans hran.2.1
    · next hrow =>
      obtain ⟨calls, hserved, hw, hrows⟩ := h
      by_cases hstatus : (capture .fresh calls).status.code < 500
      · rw [if_pos hstatus] at hrows
        exact .inr ⟨calls, hadmits, hrow, ⟨hguard, hserved, hstatus⟩, hw, hrows⟩
      · rw [if_neg hstatus] at hrows
        refine .inl ⟨hrows, fun calls' hran => ?_⟩
        cases hserved.symm.trans hran.2.1
        exact hstatus hran.2.2

/-- A handler response below 500 is the row of its key. -/
theorem History.row_of_ran (h : History env xs rows) (hx : x ∈ xs) (hcarries : x.Carries env m k)
    {calls : List WriterCall} (hran : x.Ran calls) : env.middleware.Admits x.request ∧
      x.w = (capture .fresh calls).responseWriter ∧
      rowOf rows m k = some ((env.keyed x).record calls) := by
  have hident := hcarries.ident
  induction h with
  | nil => cases hx
  | @snoc xs rows rows' z hxs hz ih =>
    rcases List.mem_append.mp hx with hx | hx
    · obtain ⟨hadmits, hw, hrow⟩ := ih hx
      refine ⟨hadmits, hw, ?_⟩
      rcases handled_cases hz with ⟨rfl, -⟩ | ⟨_, -, -, -, -, rfl⟩
      · exact hrow
      · rw [rowOf, Table.find_append]
        exact Option.or_eq_some_iff.mpr (.inl hrow)
    · obtain rfl := List.mem_singleton.mp hx
      rcases handled_cases hz with ⟨-, hnone⟩ | ⟨calls', hadmits, hrow, hran', hw, rfl⟩
      · exact absurd hran (hnone calls)
      · cases hran'.2.1.symm.trans hran.2.1
        obtain ⟨rfl, rfl⟩ := Prod.mk.inj hident
        refine ⟨hadmits, hw, ?_⟩
        rw [rowOf, Table.find_append, show Table.find _ rows _ = none from hrow,
          Table.find_singleton]
        exact if_pos rfl

/-- A row is a handler response below 500. -/
theorem History.ran_of_row (h : History env xs rows) {r : Record} (hr : rowOf rows m k = some r) :
    ∃ x ∈ xs, x.Carries env m k ∧ ∃ calls, x.Ran calls := by
  induction h generalizing r with
  | nil => cases hr
  | @snoc xs rows rows' z hxs hz ih =>
    have hold (hrow : ∃ r, rowOf rows m k = some r) :
        ∃ x ∈ xs ++ [z], x.Carries env m k ∧ ∃ calls, x.Ran calls := by
      obtain ⟨r, hr⟩ := hrow
      obtain ⟨x, hx, hrest⟩ := ih hr
      exact ⟨x, List.mem_append_left _ hx, hrest⟩
    rcases handled_cases hz with ⟨rfl, -⟩ | ⟨calls, hadmits, -, hran, -, rfl⟩
    · exact hold ⟨r, hr⟩
    · rw [rowOf, Table.find_append, Option.or_eq_some_iff] at hr
      rcases hr with hr | ⟨-, hr⟩
      · exact hold ⟨r, hr⟩
      · obtain ⟨hmem, hident⟩ := Table.mem_of_find hr
        rw [List.mem_singleton.mp hmem] at hident
        exact ⟨z, by simp, Exchange.carries_of_admits hran.1 hadmits hident, calls, hran⟩

/-- The response to a request, by the requests before it: the wrapped handler runs unless it has
answered one of them below 500; otherwise the caller gets that response again, or a conflict for
another body. -/
def Replays (env : Env) (past : List Exchange) (y : Exchange) (m : UUID) (k : String) (b : Bytes) :
    Prop :=
  (y.served.isSome = true ↔ ∀ x ∈ past, x.Carries env m k → ∀ calls, ¬ x.Ran calls) ∧
    ∀ x ∈ past, x.Carries env m k → ∀ calls, x.Ran calls → ∃ a, x.request.body = .ok a ∧
      (b = a → y.w.status = x.w.status ∧ y.w.body = x.w.body) ∧
      (b ≠ a → y.w.status = statusConflict)

theorem History.replays_last (hsum : Function.Injective env.sum256) (h : History env xs rows)
    (hy : env.middleware.Handled env.sum256 y.request rows ⟨rows', y.w, y.served⟩)
    (hcarries : y.Carries env m k) {b : Bytes} (hbody : y.request.body = .ok b) :
    Replays env xs y m k b := by
  have hadmits : env.middleware.Admits y.request := by
    refine ⟨?_, by simp [hbody, Except.isOk, Except.toBool]⟩
    exact congrArg Option.isSome hcarries.2.1
  have hhash : (env.keyed y).hash = env.sum256 b := by
    obtain ⟨b', hb', hhash⟩ := Exchange.exists_body hadmits
    cases hbody.symm.trans hb'
    exact hhash
  obtain ⟨hm, hk⟩ := Prod.mk.inj hcarries.ident
  have hhandled : (env.keyed y).Handled rows ⟨rows', y.w, y.served⟩ := by
    rwa [Middleware.Handled, if_pos hcarries.1, if_pos hadmits] at hy
  cases hrow : rowOf rows m k with
  | none =>
    simp only [Keyed.Handled, hm, hk, hrow] at hhandled
    obtain ⟨calls, hserved, -⟩ := hhandled
    have hfirst : ∀ x ∈ xs, x.Carries env m k → ∀ calls, ¬ x.Ran calls := by
      intro x hx hxcarries calls hran
      cases hrow.symm.trans (h.row_of_ran hx hxcarries hran).2.2
    refine ⟨by simpa [hserved] using hfirst, fun x hx hxcarries calls hran => ?_⟩
    exact absurd hran (hfirst x hx hxcarries calls)
  | some r =>
    simp only [Keyed.Handled, hm, hk, hrow] at hhandled
    obtain ⟨-, hserved, hw⟩ := hhandled
    constructor
    · obtain ⟨x, hx, hxcarries, calls, hran⟩ := h.ran_of_row hrow
      rw [hserved]
      refine ⟨fun hsome => (by cases hsome), fun hnone => ?_⟩
      exact absurd hran (hnone x hx hxcarries calls)
    · intro x hx hxcarries calls hran
      obtain ⟨hxadmits, hxw, hxrow⟩ := h.row_of_ran hx hxcarries hran
      obtain ⟨a, ha, hxhash⟩ := Exchange.exists_body hxadmits
      cases hrow.symm.trans hxrow
      have hiff : ((env.keyed x).record calls).requestHash = (env.keyed y).hash ↔ b = a := by
        rw [hhash, show ((env.keyed x).record calls).requestHash = _ from hxhash]
        exact hsum.eq_iff.trans eq_comm
      refine ⟨a, ha, fun heq => ?_, fun hne => ?_⟩
      · rw [if_pos (hiff.mpr heq)] at hw
        rw [hw, hxw]
        exact replay_record_response _ calls
      · rw [if_neg (hne ∘ hiff.mp)] at hw
        rw [hw]
        rfl

theorem History.replays (hsum : Function.Injective env.sum256) (h : History env xs rows) {j : Nat}
    (hy : xs[j]? = some y) (hcarries : y.Carries env m k) {b : Bytes}
    (hbody : y.request.body = .ok b) : Replays env (xs.take j) y m k b := by
  induction h with
  | nil => simp at hy
  | @snoc xs rows rows' z hxs hz ih =>
    by_cases hj : j < xs.length
    · rw [List.getElem?_append_left hj] at hy
      rw [List.take_append_of_le_length (by omega)]
      exact ih hy
    · rw [List.getElem?_append_right (by omega)] at hy
      obtain ⟨hzero, hget⟩ := List.getElem?_eq_some_iff.mp hy
      simp only [List.length_singleton] at hzero
      obtain rfl : j = xs.length := by omega
      obtain rfl : z = y := by simpa using hget
      rw [List.take_left]
      exact hxs.replays_last hsum hz hcarries hbody

end Histories

/-- A request that has ended belongs to a history. -/
theorem InSequence.replays {env : Env} {s : World} (hs : InSequence env s)
    (hsum : Function.Injective env.sum256) {j : Nat} {y : Exchange} {m : UUID} {k : String}
    {b : Bytes} (hy : s.exchanges[j]? = some y) (hended : y.Ended) (hcarries : y.Carries env m k)
    (hbody : y.request.body = .ok b) : Replays env (s.exchanges.take j) y m k b := by
  obtain ⟨xs, rows, hxs, hall, ⟨rfl, -⟩ | ⟨z, hexchanges, -⟩⟩ := hs.history
  · exact hxs.replays hsum hy hcarries hbody
  by_cases hj : j < xs.length
  · rw [hexchanges, List.getElem?_append_left hj] at hy
    rw [hexchanges, List.take_append_of_le_length (by omega)]
    exact hxs.replays hsum hy hcarries hbody
  · refine (hs.of_ended fun x hx => ?_).replays hsum hy hcarries hbody
    rw [hexchanges] at hx hy
    rcases List.mem_append.mp hx with hx | hx
    · exact hall x hx
    · rw [List.getElem?_append_right (by omega)] at hy
      rw [List.mem_singleton.mp hx, ← List.mem_singleton.mp (List.mem_of_getElem? hy)]
      exact hended

/-- A row stays the row of its key when rows are added. -/
theorem Stores.row_mono {s t : Stores} (h : s.rows <+: t.rows) {m : UUID} {k : String} {r : Record}
    (hr : s.row m k = some r) : t.row m k = some r := by
  obtain ⟨rest, hrest⟩ := h
  rw [Stores.row, ← hrest, Table.find_append]
  exact Option.or_eq_some_iff.mpr (.inl hr)

/-- No run removes or rewrites a row. -/
theorem rows_grow_of_path {env : Env} {u s : World} {es : List Event} (hu : Tracked env u)
    (h : Path (step env) OneAtATime u es s) : u.stores.rows <+: s.stores.rows := by
  have hinv : ∀ s e t, Tracked env s → OneAtATime s e → step env s e = some t → Tracked env t :=
    fun _ _ _ hs _ => tracked_step hs
  have hgrow : ∀ s e t, Tracked env s → OneAtATime s e → step env s e = some t →
      s.stores.rows <+: t.stores.rows := fun _ _ _ hs _ hstep => (hs.change hstep).rows_grow
  exact h.related (R := fun s t => s.stores.rows <+: t.stores.rows) (fun _ => List.prefix_rfl)
    (fun _ _ _ => List.IsPrefix.trans) hinv hgrow hu

/-- In a run of requests that do not overlap, with a store that does not fail and an injective hash,
every request with a key is answered as the requests before it have decided, and no record is ever
altered. -/
theorem sequential_replay {env : Env} (hsum : Function.Injective env.sum256) {u s : World}
    {es es' : List Event} (h : Path (step env) OneAtATime .init es u)
    (h' : Path (step env) OneAtATime u es' s) :
    (∀ (j : Nat) (y : Exchange) (m : UUID) (k : String) (b : Bytes), s.exchanges[j]? = some y →
      y.Ended → y.Carries env m k → y.request.body = .ok b →
        Replays env (s.exchanges.take j) y m k b) ∧
      ∀ m k r, u.stores.row m k = some r → s.stores.row m k = some r := by
  have hu : InSequence env u := h.invariant (fun _ _ _ => inSequence_step) (.init env)
  have hs : InSequence env s := h'.invariant (fun _ _ _ => inSequence_step) hu
  refine ⟨fun j y m k b hy hended hcarries hbody => ?_, fun m k r hr => ?_⟩
  · exact hs.replays hsum hy hended hcarries hbody
  · exact Stores.row_mono (rows_grow_of_path hu.tracked h') hr

/-- A create request whose handler fails, its retry that creates, and a retry of that one. -/
def failedFirst : List Event :=
  .arrive (ordering [1]) :: missing 0 ++
    [.call 0 (.serve [.writeHeader ⟨503, by decide⟩, .write [9]]), .arrive (ordering [1])] ++
    missing 1 ++ [.call 1 (.serve (created [10])), .call 1 (.store .done), .call 1 (.store .done),
      .arrive (ordering [1]), .call 2 (.store .done), .call 2 .respond]

/-- The key is used again for another body, while Redis is down. -/
def reusedKey : List Event :=
  [.arrive (ordering [2]), .call 3 (.store (.failed "connection refused")), .call 3 (.store .done),
    .call 3 (.store (.failed "connection refused")), .call 3 .respond]

theorem sequential_replay_reusedKey : ∃ u s x y z,
    Path (step smallEnv) OneAtATime .init failedFirst u ∧
      Path (step smallEnv) OneAtATime u reusedKey s ∧ s.exchanges[1]? = some x ∧
      s.exchanges[2]? = some y ∧ s.exchanges[3]? = some z ∧ x.Ran (created [10]) ∧
      Replays smallEnv (s.exchanges.take 1) x 7 "order-1" [1] ∧
      Replays smallEnv (s.exchanges.take 2) y 7 "order-1" [1] ∧
      Replays smallEnv (s.exchanges.take 3) z 7 "order-1" [2] ∧
      y.w.body = [10] ∧ z.w.status = statusConflict := by
  obtain ⟨u, hu, s, hs, x, hx, y, hy, z, hz, hran, hbody, hstatus, hended, hrequests⟩ : ∃ u,
      runIf (step smallEnv) OneAtATime .init failedFirst = some u ∧
        ∃ s ∈ runIf (step smallEnv) OneAtATime u reusedKey, ∃ x ∈ s.exchanges[1]?,
          ∃ y ∈ s.exchanges[2]?, ∃ z ∈ s.exchanges[3]?, x.Ran (created [10]) ∧ y.w.body = [10] ∧
            z.w.status = statusConflict ∧ (x.Ended ∧ y.Ended ∧ z.Ended) ∧
            [x, y, z].map Exchange.request = [ordering [1], ordering [1], ordering [2]] :=
    exists_of_any (by decide +kernel)
  have hsum : Function.Injective smallEnv.sum256 := Function.injective_id
  have hcarries (e : Exchange) (b : Bytes) (he : e.request = ordering b) :
      e.Carries smallEnv 7 "order-1" ∧ e.request.body = .ok b := by
    rw [Exchange.Carries, he]
    exact ⟨⟨⟨rfl, by simp [ordering]⟩, rfl, rfl⟩, rfl⟩
  simp only [List.map_cons, List.map_nil, List.cons.injEq, and_true] at hrequests
  obtain ⟨hreplays, -⟩ := sequential_replay hsum (.of_runIf hu) (.of_runIf hs)
  obtain ⟨hxcarries, hxbody⟩ := hcarries x _ hrequests.1
  obtain ⟨hycarries, hybody⟩ := hcarries y _ hrequests.2.1
  obtain ⟨hzcarries, hzbody⟩ := hcarries z _ hrequests.2.2
  exact ⟨u, s, x, y, z, .of_runIf hu, .of_runIf hs, hx, hy, hz, hran,
    hreplays 1 x _ _ _ hx hended.1 hxcarries hxbody,
    hreplays 2 y _ _ _ hy hended.2.1 hycarries hybody,
    hreplays 3 z _ _ _ hz hended.2.2 hzcarries hzbody, hbody, hstatus⟩

end Selatpay.Idempotency
