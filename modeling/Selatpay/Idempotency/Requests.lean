import Selatpay.Core.Trace
import Selatpay.Idempotency.Middleware

/-!
# Requests in flight

The world is the store and the requests that have arrived, each at some call of
its `Handler`. An event lets one request make its next call: a statement of the
store, a run of the wrapped handler, or a response. In every run the cache holds
copies of rows, every request is in the phase its calls have brought it to, and
every row is the captured response of a request.
-/

namespace Selatpay.Idempotency

/-- What is fixed at deployment. -/
structure Env where
  /-- SHA-256. -/
  sum256 : Bytes → Bytes
  resolver : Request → Option UUID
  /-- A Redis is configured. -/
  redis : Bool

/-- The middleware the server sets up. -/
def Env.middleware (env : Env) : Middleware :=
  ⟨if env.redis then newCachedStore newPGStore else newPGStore, env.resolver⟩

/-- A request and how far it has come. -/
structure Exchange where
  request : Request
  prog : MiddlewareM Unit
  /-- What its caller has received. -/
  w : ResponseWriter
  /-- The calls the wrapped handler has made, once it has run. -/
  served : Option (List WriterCall)

/-- The state of the system. -/
structure World where
  stores : Stores
  exchanges : List Exchange

/-- A deployment before its first request. -/
def World.init : World := ⟨.empty, []⟩

/-- How the next call of a request is answered. -/
inductive Input
  | store (out : Outcome)
  | serve (calls : List WriterCall)
  | respond

/-- What can happen. -/
inductive Event
  | arrive (r : Request)
  /-- A request makes its next call. -/
  | call (n : Nat) (input : Input)
  /-- A key leaves Redis: its time is over or it is evicted. -/
  | expire (ck : String)

/-- A request that has just arrived. -/
def Env.exchange (env : Env) (r : Request) : Exchange :=
  ⟨r, env.middleware.handler env.sum256 r, .fresh, none⟩

/-- The next call of a request. -/
def Exchange.answer (x : Exchange) (s : Stores) : Input → Option (Exchange × Stores)
  | .store out => match x.prog with
    | .call (.store o) k => some ({ x with prog := k (s.answer o out).1 }, (s.answer o out).2)
    | _ => none
  | .serve calls => match x.prog with
    | .call (.serveHTTP captured) k => some ({ x with
        prog := k calls
        w := if captured then (capture x.w calls).responseWriter else x.w.calls calls
        served := some calls }, s)
    | _ => none
  | .respond => match x.prog with
    | .call (.respond calls) k => some ({ x with prog := k (), w := x.w.calls calls }, s)
    | _ => none

/-- The step function. -/
def step (env : Env) (s : World) : Event → Option World
  | .arrive r => some { s with exchanges := s.exchanges ++ [env.exchange r] }
  | .call n input => match s.exchanges[n]? with
    | none => none
    | some x => match x.answer s.stores input with
      | none => none
      | some (x', stores) => some ⟨stores, s.exchanges.set n x'⟩
  | .expire ck => some { s with stores := s.stores.setCache ck none }

/-- Whose record a request is about. -/
def Env.keyed (env : Env) (x : Exchange) : Keyed := env.middleware.keyed env.sum256 x.request

/-! ## One call of one request -/

/-- What a call can do to the phase of a request and to the store. -/
inductive Move (q : Keyed) (s : Stores) : Phase → Op → Input → Phase → Stores → Prop
  | reject {calls : List WriterCall} : IsError calls →
      Move q s .rejecting (.respond calls) .respond .answered s
  | look {v v' : Seen} {o : StoreOp} {out : Outcome} :
      v.next q.merchantID q.key o (s.answer o out).1 = some v' →
      Move q s (.looking v) (.store o) (.store out) (.looking v') (s.answer o out).2
  | answer {v : Seen} {calls : List WriterCall} : v.Allows q.hash calls →
      Move q s (.looking v) (.respond calls) .respond .answered s
  | serve {calls : List WriterCall} : (capture .fresh calls).status.code < 500 →
      Move q s (.looking .noRow) (.serveHTTP true) (.serve calls)
        (.ran calls (.writing (q.record calls))) s
  | refuse {calls : List WriterCall} : 500 ≤ (capture .fresh calls).status.code →
      Move q s (.looking .noRow) (.serveHTTP true) (.serve calls) (.refused calls) s
  | put {calls : List WriterCall} {v v' : Seen} {o : StoreOp} {out : Outcome} :
      v.next q.merchantID q.key o (s.answer o out).1 = some v' →
      Move q s (.ran calls v) (.store o) (.store out) (.ran calls v') (s.answer o out).2
  | pass {calls : List WriterCall} :
      Move q s .passing (.serveHTTP false) (.serve calls) .passed s

/-- What the caller of a request has received, and the calls of its handler, after a call. -/
def Exchange.receives (x : Exchange) : Op → Input → ResponseWriter × Option (List WriterCall)
  | .serveHTTP captured, .serve calls =>
    (if captured then (capture x.w calls).responseWriter else x.w.calls calls, some calls)
  | .respond calls, _ => (x.w.calls calls, x.served)
  | _, _ => (x.w, x.served)

/-- What a call of a request can do. -/
inductive Exchange.Proceeds (x : Exchange) (s : Stores) : Input → Exchange → Stores → Prop
  | store {out : Outcome} {o : StoreOp} {k : (Op.store o).Rep → MiddlewareM Unit} :
      x.prog = .call (.store o) k →
      Proceeds x s (.store out) { x with prog := k (s.answer o out).1 } (s.answer o out).2
  | serve {calls : List WriterCall} {captured : Bool}
      {k : (Op.serveHTTP captured).Rep → MiddlewareM Unit} :
      x.prog = .call (.serveHTTP captured) k →
      Proceeds x s (.serve calls) { x with
        prog := k calls
        w := if captured then (capture x.w calls).responseWriter else x.w.calls calls
        served := some calls } s
  | respond {calls : List WriterCall} {k : (Op.respond calls).Rep → MiddlewareM Unit} :
      x.prog = .call (.respond calls) k →
      Proceeds x s .respond { x with prog := k (), w := x.w.calls calls } s

/-- What a phase says about its request. -/
def Phase.Facts (env : Env) (s : Stores) (x : Exchange) : Phase → Prop
  | .rejecting => x.request.Guarded ∧ x.w = .fresh ∧ x.served = none
  | .looking v => x.request.Guarded ∧ env.middleware.Admits x.request ∧ x.w = .fresh ∧
      x.served = none ∧ v.Holds s (env.keyed x).merchantID (env.keyed x).key ∧
      ∀ r, v ≠ .writing r
  | .answered => x.request.Guarded ∧ x.served = none ∧
      ∃ calls, x.w = ResponseWriter.fresh.calls calls ∧
        (IsError calls ∨ env.middleware.Admits x.request ∧ ∃ r ∈ s.rows,
          r.ident = (env.keyed x).ident ∧ r.requestHash = (env.keyed x).hash ∧ calls = replay r)
  | .ran calls v => x.request.Guarded ∧ env.middleware.Admits x.request ∧ x.served = some calls ∧
      x.w = (capture .fresh calls).responseWriter ∧ (capture .fresh calls).status.code < 500 ∧
      v.Holds s (env.keyed x).merchantID (env.keyed x).key ∧
      ∀ r, v = .writing r → r = (env.keyed x).record calls
  | .refused calls => x.request.Guarded ∧ x.served = some calls ∧
      x.w = (capture .fresh calls).responseWriter ∧ 500 ≤ (capture .fresh calls).status.code
  | .passing => ¬ x.request.Guarded
  | .passed => ¬ x.request.Guarded

/-- The request is in the phase. -/
structure Exchange.In (env : Env) (s : Stores) (x : Exchange) (p : Phase) : Prop where
  obeys : x.prog.Obeys (Phase.next (env.keyed x)) Phase.Ends p
  facts : p.Facts env s x

section Calls

variable {env : Env} {q : Keyed} {s s' : Stores} {x x' : Exchange} {p p' : Phase} {input : Input}

theorem Move.of_store {o : StoreOp} {out : Outcome}
    (h : p.next q (.store o) (s.answer o out).1 = some p') :
    Move q s p (.store o) (.store out) p' (s.answer o out).2 := by
  obtain ⟨v, v', hv, ⟨rfl, rfl⟩ | ⟨calls, rfl, rfl⟩⟩ := Phase.next_store h
  · exact .look hv
  · exact .put hv

/-- The wrapped handler runs behind a lookup without a row, or for a request that is passed on. -/
theorem Move.of_serve {captured : Bool} {calls : List WriterCall}
    (h : p.next q (.serveHTTP captured) calls = some p') :
    Move q s p (.serveHTTP captured) (.serve calls) p' s := by
  cases p with
  | looking v =>
    cases v with
    | noRow =>
      cases captured with
      | false => cases h
      | true =>
        simp only [Phase.next] at h
        split at h
        · cases h
          exact .refuse ‹_›
        · cases h
          exact .serve (by omega)
    | nothing => cases captured <;> cases h
    | row r => cases captured <;> cases h
    | writing r => cases captured <;> cases h
  | passing =>
    cases captured with
    | false => cases h; exact .pass
    | true => cases h
  | rejecting => cases h
  | answered => cases h
  | ran calls v => cases h
  | refused calls => cases h
  | passed => cases h

/-- The middleware answers a request it rejects or whose lookup it has seen. -/
theorem Move.of_respond {calls : List WriterCall} {reply : (Op.respond calls).Rep}
    (h : p.next q (.respond calls) reply = some p') :
    Move q s p (.respond calls) .respond p' s := by
  cases p with
  | rejecting =>
    simp only [Phase.next] at h
    split at h
    · cases h; exact .reject ‹_›
    · cases h
  | looking v =>
    have hnext : (if v.Allows q.hash calls then some Phase.answered else none) = some p' := by
      cases v <;> exact h
    split at hnext
    · cases hnext; exact .answer ‹_›
    · cases hnext
  | answered => cases h
  | ran calls v => cases h
  | refused calls => cases h
  | passing => cases h
  | passed => cases h

theorem Exchange.proceeds_of_answer (h : x.answer s input = some (x', s')) :
    x.Proceeds s input x' s' := by
  cases input with
  | store out =>
    simp only [Exchange.answer] at h
    split at h
    · next o k hprog =>
      cases h
      exact .store hprog
    · cases h
  | serve calls =>
    simp only [Exchange.answer] at h
    split at h
    · next captured k hprog =>
      cases h
      exact .serve hprog
    · cases h
  | respond =>
    simp only [Exchange.answer] at h
    split at h
    · next calls k hprog =>
      cases h
      exact .respond hprog
    · cases h

/-- What the next call of a request is and does. -/
theorem Exchange.answer_cases (h : x.answer s input = some (x', s')) :
    ∃ o k reply, x.prog = .call o k ∧
      x' = ⟨x.request, k reply, (x.receives o input).1, (x.receives o input).2⟩ ∧
      ∀ q p p', Phase.next q p o reply = some p' → Move q s p o input p' s' := by
  cases proceeds_of_answer h with
  | @store out o k hprog => exact ⟨.store o, k, _, hprog, rfl, fun q p p' => .of_store⟩
  | @serve calls captured k hprog =>
    exact ⟨.serveHTTP captured, k, calls, hprog, rfl, fun q p p' => .of_serve⟩
  | @respond calls k hprog =>
    exact ⟨.respond calls, k, (), hprog, rfl, fun q p p' => .of_respond⟩

/-- What a phase says holds again in the phase a call leads to. -/
theorem Phase.Facts.move {o : Op} (hs : s.Sound) (hp : p.Facts env s x)
    (h : Move (env.keyed x) s p o input p' s') (hreq : x'.request = x.request)
    (hrec : (x'.w, x'.served) = x.receives o input) : s'.Sound ∧ p'.Facts env s' x' := by
  have hkeyed : env.keyed x' = env.keyed x := by simp [Env.keyed, hreq]
  obtain ⟨hw, hserved⟩ := Prod.mk.inj hrec
  cases h with
  | reject herr =>
    obtain ⟨hguard, hfresh, hnone⟩ := hp
    exact ⟨hs, hreq ▸ hguard, hserved.trans hnone, _, by rw [hw, hfresh], .inl herr⟩
  | look hv =>
    obtain ⟨hguard, hadmits, hfresh, hnone, hseen, -⟩ := hp
    obtain ⟨hsound, hseen'⟩ := hseen.answer hs hv
    exact ⟨hsound, hreq ▸ hguard, hreq ▸ hadmits, hw.trans hfresh, hserved.trans hnone,
      hkeyed ▸ hseen', fun r => Seen.next_ne_writing hv⟩
  | @answer v calls hv =>
    obtain ⟨hguard, hadmits, hfresh, hnone, hseen, -⟩ := hp
    refine ⟨hs, hreq ▸ hguard, hserved.trans hnone, calls, by rw [hw, hfresh], ?_⟩
    cases v with
    | nothing => exact .inl hv
    | row r =>
      obtain ⟨-, herr⟩ | ⟨hhash, hreplay⟩ := hv
      · exact .inl herr
      · exact .inr ⟨hreq ▸ hadmits, r, hseen.1, hkeyed ▸ hseen.2, hkeyed ▸ hhash, hreplay⟩
    | noRow => cases hv
    | writing r => cases hv
  | serve hstatus =>
    obtain ⟨hguard, hadmits, hfresh, -⟩ := hp
    refine ⟨hs, hreq ▸ hguard, hreq ▸ hadmits, hserved, by rw [hw, hfresh]; rfl, hstatus, ?_, ?_⟩
    · rw [hkeyed]
      exact rfl
    · rintro r ⟨⟩
      rw [hkeyed]
  | refuse hstatus =>
    obtain ⟨hguard, -, hfresh, -⟩ := hp
    exact ⟨hs, hreq ▸ hguard, hserved, by rw [hw, hfresh]; rfl, hstatus⟩
  | @put calls v v' o out hv =>
    obtain ⟨hguard, hadmits, hcalls, hcap, hstatus, hseen, hwriting⟩ := hp
    obtain ⟨hsound, hseen'⟩ := hseen.answer hs hv
    refine ⟨hsound, hreq ▸ hguard, hreq ▸ hadmits, hserved.trans hcalls, hw.trans hcap, hstatus,
      hkeyed ▸ hseen', fun r hr => ?_⟩
    exact absurd hr (Seen.next_ne_writing hv)
  | pass => exact ⟨hs, fun hguard => hp (hreq ▸ hguard)⟩

/-- Rows that are added leave what a phase says. -/
theorem Phase.Facts.mono (h : p.Facts env s x) (hrows : s.rows <+: s'.rows) :
    p.Facts env s' x := by
  cases p with
  | looking v =>
    obtain ⟨hguard, hadmits, hfresh, hnone, hseen, hwriting⟩ := h
    exact ⟨hguard, hadmits, hfresh, hnone, hseen.mono hrows, hwriting⟩
  | answered =>
    obtain ⟨hguard, hnone, calls, hw, herr | ⟨hadmits, r, hr, hrest⟩⟩ := h
    · exact ⟨hguard, hnone, calls, hw, .inl herr⟩
    · exact ⟨hguard, hnone, calls, hw, .inr ⟨hadmits, r, hrows.subset hr, hrest⟩⟩
  | ran calls v =>
    obtain ⟨hguard, hadmits, hcalls, hcap, hstatus, hseen, hwriting⟩ := h
    exact ⟨hguard, hadmits, hcalls, hcap, hstatus, hseen.mono hrows, hwriting⟩
  | rejecting => exact h
  | refused calls => exact h
  | passing => exact h
  | passed => exact h

theorem Exchange.In.mono (h : x.In env s p) (hrows : s.rows <+: s'.rows) : x.In env s' p :=
  ⟨h.obeys, h.facts.mono hrows⟩

/-- No call removes a row. -/
theorem Move.rows_grow {o : Op} (h : Move q s p o input p' s') : s.rows <+: s'.rows := by
  cases h with
  | look _ => exact Stores.rows_prefix_answer _ _ _
  | put _ => exact Stores.rows_prefix_answer _ _ _
  | reject _ => exact List.prefix_rfl
  | answer _ => exact List.prefix_rfl
  | serve _ => exact List.prefix_rfl
  | refuse _ => exact List.prefix_rfl
  | pass => exact List.prefix_rfl

end Calls

/-! ## One event -/

theorem Env.lawful (env : Env) : env.middleware.store.Lawful := by
  cases h : env.redis with
  | false => simpa [Env.middleware, h] using newPGStore_lawful
  | true => simpa [Env.middleware, h] using newCachedStore_lawful newPGStore_lawful

/-- What an event can do to a world whose requests are in phases. -/
inductive Change (env : Env) (s : World) : Event → World → Prop
  | arrive {r : Request} :
      (env.exchange r).In env s.stores (env.middleware.start r) →
      Change env s (.arrive r) ⟨s.stores, s.exchanges ++ [env.exchange r]⟩
  | call {n : Nat} {input : Input} {x x' : Exchange} {o : Op} {k : o.Rep → MiddlewareM Unit}
      {p p' : Phase} {stores : Stores} : s.exchanges[n]? = some x → x.prog = .call o k →
      x.In env s.stores p → Move (env.keyed x) s.stores p o input p' stores → stores.Sound →
      x'.request = x.request → x'.In env stores p' →
      Change env s (.call n input) ⟨stores, s.exchanges.set n x'⟩
  | expire {ck : String} : Change env s (.expire ck) ⟨s.stores.setCache ck none, s.exchanges⟩

/-- Sound tables, and every request in a phase. -/
structure Tracked (env : Env) (s : World) : Prop where
  sound : s.stores.Sound
  phases : ∀ x ∈ s.exchanges, ∃ p, x.In env s.stores p

section Events

variable {env : Env} {s t : World} {e : Event}

theorem Env.exchange_in (env : Env) (s : Stores) (r : Request) :
    (env.exchange r).In env s (env.middleware.start r) := by
  refine ⟨handler_obeys env.lawful r, ?_⟩
  unfold Middleware.start
  split
  · split
    · exact ⟨‹_›, ‹_›, rfl, rfl, trivial, fun r h => by cases h⟩
    · exact ⟨‹_›, rfl, rfl⟩
  · exact ‹_›

theorem Tracked.change (hs : Tracked env s) (h : step env s e = some t) : Change env s e t := by
  cases e with
  | arrive r => cases h; exact .arrive (env.exchange_in _ r)
  | expire ck => cases h; exact .expire
  | call n input =>
    simp only [step] at h
    split at h
    · cases h
    · next x hx =>
      split at h
      · cases h
      · next x' stores hanswer =>
        cases h
        obtain ⟨p, hp⟩ := hs.phases x (List.mem_of_getElem? hx)
        obtain ⟨o, k, reply, hprog, rfl, hmove⟩ := Exchange.answer_cases hanswer
        have hobeys := hp.obeys
        rw [hprog] at hobeys
        obtain ⟨p', hnext, hobeys'⟩ := hobeys reply
        have hmove := hmove _ _ _ hnext
        obtain ⟨hsound, hfacts⟩ : stores.Sound ∧ p'.Facts env stores
            ⟨x.request, k reply, (x.receives o input).1, (x.receives o input).2⟩ :=
          hp.facts.move hs.sound hmove rfl rfl
        exact .call hx hprog hp hmove hsound rfl ⟨hobeys', hfacts⟩

theorem Change.rows_grow (h : Change env s e t) : s.stores.rows <+: t.stores.rows := by
  cases h with
  | arrive _ => exact List.prefix_rfl
  | expire => exact List.prefix_rfl
  | call _ _ _ hmove _ _ _ => exact hmove.rows_grow

theorem tracked_step (hs : Tracked env s) (h : step env s e = some t) : Tracked env t := by
  cases hs.change h with
  | arrive hx =>
    exact ⟨hs.sound, Table.forall_mem_concat hs.phases ⟨_, hx⟩⟩
  | expire =>
    refine ⟨hs.sound.setCache (by simp), fun y hy => ?_⟩
    obtain ⟨p, hp⟩ := hs.phases y hy
    exact ⟨p, hp.mono List.prefix_rfl⟩
  | call _ _ _ hmove hsound _ hx' =>
    refine ⟨hsound, Table.forall_mem_set (fun y hy => ?_) ⟨_, hx'⟩ _⟩
    obtain ⟨p, hp⟩ := hs.phases y hy
    exact ⟨p, hp.mono hmove.rows_grow⟩

theorem Tracked.init (env : Env) : Tracked env .init :=
  ⟨⟨by simp [World.init, Stores.empty], by simp [World.init, Stores.empty]⟩, by simp [World.init]⟩

end Events

end Selatpay.Idempotency
