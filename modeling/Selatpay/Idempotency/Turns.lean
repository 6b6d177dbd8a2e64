import Selatpay.Core.Turns
import Selatpay.Idempotency.Requests

/-!
# One execution per key

Between a lookup that finds no row and the insertion of the response nothing marks
the key as taken, so two requests with one key can both run the handler. As long
as no lookup misses the row of a key while another request of that key is on its
way from its own lookup to its insertion, and no insertion fails, at most one
request per key gets a response below 500 from the handler, and every other one
gets that response again or an error.
-/

namespace Selatpay.Idempotency

/-- The request is about to run the wrapped handler, or to insert its response. -/
def Exchange.InTurn (x : Exchange) : Prop :=
  match x.prog with
  | .call (.serveHTTP true) _ => True
  | .call (.store (.insertIdempotencyKey _)) _ => True
  | _ => False

/-- The wrapped handler has answered the request with these calls and a status below 500. -/
def Exchange.Ran (x : Exchange) (calls : List WriterCall) : Prop :=
  x.request.Guarded ∧ x.served = some calls ∧ (capture .fresh calls).status.code < 500

/-- `Handler` has returned. -/
def Exchange.Ended (x : Exchange) : Prop :=
  match x.prog with
  | .ret _ => True
  | _ => False

/-- A lookup finds no row only while no other request of its key is in its turn, and a response is
inserted with a body and by a statement that is executed. -/
def TakesTurns (env : Env) (s : World) : Event → Prop
  | .call n (.store out) => ∀ x ∈ s.exchanges[n]?, match x.prog with
    | .call (.store (.getIdempotencyKey m k)) _ => out = .done → s.stores.row m k = none →
        ∀ y ∈ s.exchanges, (env.keyed y).ident = (m, k) → ¬ y.InTurn
    | .call (.store (.insertIdempotencyKey r)) _ => out.executed = true ∧ r.responseBody ≠ []
    | _ => True
  | _ => True

instance (x : Exchange) : Decidable x.InTurn := by
  unfold Exchange.InTurn
  split <;> infer_instance

instance (x : Exchange) (calls : List WriterCall) : Decidable (x.Ran calls) :=
  inferInstanceAs (Decidable (_ ∧ _))

instance (x : Exchange) : Decidable x.Ended := by
  unfold Exchange.Ended
  split <;> infer_instance

instance (env : Env) (s : World) (e : Event) : Decidable (TakesTurns env s e) := by
  unfold TakesTurns
  split
  · refine @Option.decidableForallMem _ _ (fun x => ?_) _
    split <;> infer_instance
  · infer_instance

/-! ## Turns as phases -/

/-- The phases of a request in its turn. -/
def Phase.InTurn : Phase → Prop
  | .looking .noRow => True
  | .ran _ (.writing _) => True
  | _ => False

/-- The calls of the handler that has answered the request. -/
def Phase.calls : Phase → Option (List WriterCall)
  | .ran calls _ => some calls
  | _ => none

section Phases

variable {env : Env} {q : Keyed} {s s' : Stores} {x : Exchange} {p p' : Phase} {o : Op}
  {input : Input}

/-- Every call can be answered. -/
theorem Op.exists_rep (o : Op) : Nonempty o.Rep := by
  cases o with
  | store o => exact ⟨o.failure ""⟩
  | serveHTTP captured => exact ⟨([] : List WriterCall)⟩
  | respond calls => exact ⟨()⟩

/-- A call a request is about to make is one its phase allows. -/
theorem Exchange.In.next (hx : x.In env s p) {k : o.Rep → MiddlewareM Unit}
    (hprog : x.prog = .call o k) : ∃ reply p', p.next (env.keyed x) o reply = some p' := by
  have hobeys := hx.obeys
  rw [hprog] at hobeys
  obtain ⟨reply⟩ := Op.exists_rep o
  obtain ⟨p', hnext, -⟩ := hobeys reply
  exact ⟨reply, p', hnext⟩

/-- A request that has ended is in a phase to end in. -/
theorem Exchange.In.ends (hx : x.In env s p) (h : x.Ended) : p.Ends (.ok ()) := by
  have hobeys := hx.obeys
  unfold Exchange.Ended at h
  split at h
  · next a hprog =>
    rw [hprog] at hobeys
    exact hobeys
  · cases h

/-- A request is in its turn when its phase is one of a turn. -/
theorem Exchange.In.inTurn_iff (hx : x.In env s p) : x.InTurn ↔ p.InTurn := by
  constructor
  · intro h
    unfold Exchange.InTurn at h
    split at h
    · next k hprog =>
      obtain ⟨calls, p', hnext⟩ := hx.next hprog
      cases Move.of_serve (s := s) hnext <;> trivial
    · next r k hprog =>
      obtain ⟨reply, p', hnext⟩ := hx.next hprog
      obtain ⟨v, v', hv, ⟨rfl, -⟩ | ⟨calls, rfl, -⟩⟩ := Phase.next_store hnext
      · cases Seen.reads_of_next hv <;> exact absurd rfl (hx.facts.2.2.2.2.2 _)
      · cases Seen.reads_of_next hv <;> trivial
    · cases h
  · intro hp
    have hends : ¬ p.Ends (.ok ()) := by
      unfold Phase.InTurn at hp
      split at hp
      · exact id
      · exact id
      · cases hp
    have hobeys := hx.obeys
    cases hprog : x.prog with
    | ret a => exact absurd (by simpa [hprog] using hobeys) hends
    | throw e => exact e.elim
    | call o k =>
      obtain ⟨reply, p', hnext⟩ := hx.next hprog
      cases o with
      | store o =>
        obtain ⟨v, v', hv, ⟨rfl, -⟩ | ⟨calls, rfl, -⟩⟩ := Phase.next_store hnext
        · cases Seen.reads_of_next hv <;> cases hp
        · cases Seen.reads_of_next hv with
          | inserted r w => simp [Exchange.InTurn, hprog]
          | conflict r reply => simp [Exchange.InTurn, hprog]
          | _ => cases hp
      | serveHTTP captured =>
        cases Move.of_serve (s := s) hnext with
        | pass => cases hp
        | _ => simp [Exchange.InTurn, hprog]
      | respond calls =>
        cases Move.of_respond (s := s) hnext with
        | reject _ => cases hp
        | @answer v _ hallows =>
          cases v with
          | noRow => cases hallows
          | _ => cases hp

/-- The handler has answered a request below 500 when its phase says so. -/
theorem Exchange.In.ran_iff (hx : x.In env s p) {calls : List WriterCall} :
    x.Ran calls ↔ p.calls = some calls := by
  have hfacts := hx.facts
  cases p with
  | ran a v =>
    obtain ⟨hguard, -, hserved, -, hstatus, -⟩ := hfacts
    constructor
    · rintro ⟨-, hcalls, -⟩
      exact hserved.symm.trans hcalls
    · rintro ⟨⟩
      exact ⟨hguard, hserved, hstatus⟩
  | refused a =>
    obtain ⟨-, hserved, -, hstatus⟩ := hfacts
    simp only [Phase.calls, reduceCtorEq, iff_false]
    rintro ⟨-, hcalls, hlt⟩
    cases hserved.symm.trans hcalls
    omega
  | rejecting => simp [Phase.calls, Exchange.Ran, hfacts.2.2]
  | looking v => simp [Phase.calls, Exchange.Ran, hfacts.2.2.2.1]
  | answered => simp [Phase.calls, Exchange.Ran, hfacts.2.1]
  | passing =>
    simp only [Phase.calls, reduceCtorEq, iff_false]
    exact fun h => hfacts h.1
  | passed =>
    simp only [Phase.calls, reduceCtorEq, iff_false]
    exact fun h => hfacts h.1

/-- What a call does to the turns of its key. -/
inductive Turn (q : Keyed) (s : Stores) : Phase → Op → Input → Phase → Stores → Prop
  | enter : s.row q.merchantID q.key = none →
      Turn q s (.looking .nothing) (.store (.getIdempotencyKey q.merchantID q.key)) (.store .done)
        (.looking .noRow) s
  | serve {calls : List WriterCall} : Turn q s (.looking .noRow) (.serveHTTP true) (.serve calls)
      (.ran calls (.writing (q.record calls))) s
  | insert {calls : List WriterCall} {r : Record} {v : Seen} {out : Outcome} :
      ¬ (Phase.ran calls v).InTurn →
      Turn q s (.ran calls (.writing r)) (.store (.insertIdempotencyKey r)) (.store out)
        (.ran calls v) (s.answer (.insertIdempotencyKey r) out).2
  | other {p p' : Phase} {o : Op} {input : Input} {s' : Stores} : ¬ p'.InTurn →
      (p.InTurn → p.calls = none) → p'.calls = p.calls → s'.rows = s.rows →
      Turn q s p o input p' s'

/-- A call enters a turn, runs the handler in it, ends it with an insertion, or is none of these. -/
theorem Move.turn (h : Move q s p o input p' s') (hp : ∀ r, p ≠ .looking (.writing r)) :
    Turn q s p o input p' s' := by
  cases h with
  | serve _ => exact .serve
  | reject _ => exact .other id (fun _ => rfl) rfl rfl
  | answer _ => exact .other id (fun _ => rfl) rfl rfl
  | refuse _ => exact .other id (fun _ => rfl) rfl rfl
  | pass => exact .other id (fun _ => rfl) rfl rfl
  | @look v v' o out hv =>
    obtain ⟨r, rfl, -⟩ | ⟨rfl, rfl, rfl, rfl, hrow⟩ | ⟨-, hne, hrows⟩ := Seen.next_cases hv
    · exact absurd rfl (hp r)
    · exact .enter hrow
    · exact .other (fun h => by cases v' <;> simp_all [Phase.InTurn]) (fun _ => rfl) rfl hrows
  | @put calls v v' o out hv =>
    have hnew : ¬ (Phase.ran calls v').InTurn := by
      cases v' with
      | writing r => exact absurd rfl (Seen.next_ne_writing hv)
      | nothing => exact id
      | row r => exact id
      | noRow => exact id
    obtain ⟨r, rfl, rfl⟩ | ⟨rfl, rfl, rfl, rfl, -⟩ | ⟨hne, -, hrows⟩ := Seen.next_cases hv
    · exact .insert hnew
    · exact .other hnew False.elim rfl rfl
    · refine .other hnew (fun h => ?_) rfl hrows
      cases v with
      | writing r => exact absurd rfl (hne r)
      | nothing => cases h
      | row r => cases h
      | noRow => cases h

/-- A handler that has answered a request stays the one that has. -/
theorem Turn.calls_mono (h : Turn q s p o input p' s') {calls : List WriterCall}
    (hp : p.calls = some calls) : p'.calls = some calls := by
  cases h with
  | enter _ => cases hp
  | serve => cases hp
  | insert _ => exact hp
  | other _ _ hcalls _ => rw [hcalls, hp]

end Phases

/-! ## Where rows come from -/

/-- Every row is the captured response of a request. -/
def RowsCaptured (env : Env) (s : World) : Prop :=
  ∀ r ∈ s.stores.rows, ∃ x ∈ s.exchanges, ∃ calls, x.Ran calls ∧ r = (env.keyed x).record calls

section Rows

variable {env : Env} {s t : World} {e : Event}

/-- A call of a request as a turn of its key. -/
theorem Tracked.turn (hs : Tracked env s) {n : Nat} {input : Input}
    (h : step env s (.call n input) = some t) :
    ∃ x x' o k p p' stores, s.exchanges[n]? = some x ∧ t = ⟨stores, s.exchanges.set n x'⟩ ∧
      x.prog = .call o k ∧ env.keyed x' = env.keyed x ∧ x.In env s.stores p ∧
      x'.In env stores p' ∧ Turn (env.keyed x) s.stores p o input p' stores := by
  cases hs.change h with
  | @call _ _ x x' o k p p' stores hx hprog hp hmove _ hreq hp' =>
    refine ⟨x, x', o, k, p, p', stores, hx, rfl, hprog, by simp [Env.keyed, hreq], hp, hp',
      hmove.turn fun r => ?_⟩
    rintro rfl
    exact hp.facts.2.2.2.2.2 r rfl

/-- A request goes on as one with the same key, and a handler that has answered it stays. -/
theorem Tracked.survives (hs : Tracked env s) (h : step env s e = some t) {x : Exchange}
    (hx : x ∈ s.exchanges) :
    ∃ x' ∈ t.exchanges, env.keyed x' = env.keyed x ∧ ∀ calls, x.Ran calls → x'.Ran calls := by
  cases e with
  | arrive r =>
    cases h
    exact ⟨x, List.mem_append_left _ hx, rfl, fun _ => id⟩
  | expire ck =>
    cases h
    exact ⟨x, hx, rfl, fun _ => id⟩
  | call n input =>
    obtain ⟨y, y', o, k, p, p', stores, hy, rfl, -, hkeyed, hp, hp', hturn⟩ := hs.turn h
    obtain ⟨i, hi⟩ := List.mem_iff_getElem?.mp hx
    by_cases hin : n = i
    · subst hin
      obtain rfl : y = x := Option.some_inj.mp (hy.symm.trans hi)
      have hlt : n < s.exchanges.length := (List.getElem?_eq_some_iff.mp hi).1
      refine ⟨y', List.mem_iff_getElem?.mpr ⟨n, List.getElem?_set_self hlt⟩, hkeyed, ?_⟩
      intro calls hran
      exact hp'.ran_iff.mpr (hturn.calls_mono (hp.ran_iff.mp hran))
    · exact ⟨x, List.mem_iff_getElem?.mpr ⟨i, (List.getElem?_set_ne hin).trans hi⟩, rfl,
        fun _ => id⟩

theorem rowsCaptured_step (hs : Tracked env s) (hrows : RowsCaptured env s)
    (h : step env s e = some t) : RowsCaptured env t := by
  have hold : ∀ r ∈ s.stores.rows, ∃ x ∈ t.exchanges, ∃ calls, x.Ran calls ∧
      r = (env.keyed x).record calls := by
    intro r hr
    obtain ⟨x, hx, calls, hran, hrec⟩ := hrows r hr
    obtain ⟨x', hx', hkeyed, hran'⟩ := hs.survives h hx
    exact ⟨x', hx', calls, hran' calls hran, by rw [hkeyed, hrec]⟩
  cases e with
  | arrive r => cases h; exact hold
  | expire ck => cases h; exact hold
  | call n input =>
    obtain ⟨y, y', o, k, p, p', stores, hy, rfl, -, hkeyed, hp, hp', hturn⟩ := hs.turn h
    intro r hr
    cases hturn with
    | enter _ => exact hold r hr
    | serve => exact hold r hr
    | other _ _ _ hsame => exact hold r (hsame ▸ hr)
    | @insert calls w v out hv =>
      rcases Stores.mem_answer_insert hr with hr | rfl
      · exact hold r hr
      · obtain ⟨-, -, -, -, -, -, hwriting⟩ := hp.facts
        have hlt : n < s.exchanges.length := (List.getElem?_eq_some_iff.mp hy).1
        refine ⟨y', List.mem_set hlt _, calls, hp'.ran_iff.mpr rfl, ?_⟩
        rw [hkeyed]
        exact hwriting r rfl

end Rows

/-! ## Turns are taken one after the other -/

/-- The request has entered a turn of its key. -/
def Exchange.Entered (x : Exchange) : Prop := x.InTurn ∨ ∃ calls, x.Ran calls

/-- A response is stored when its request leaves the turn, and only one request per key enters. -/
structure Orderly (env : Env) (s : World) : Prop where
  tracked : Tracked env s
  rows : RowsCaptured env s
  stored : ∀ x ∈ s.exchanges, ∀ calls, x.Ran calls → ¬ x.InTurn →
    ∃ r ∈ s.stores.rows, r.ident = (env.keyed x).ident
  once : ∀ (i j : Nat) (x y : Exchange), s.exchanges[i]? = some x → s.exchanges[j]? = some y →
    (env.keyed x).ident = (env.keyed y).ident → x.Entered → y.Entered → i = j

section Turns

variable {env : Env} {s t : World} {e : Event}

theorem Exchange.In.entered_iff {x : Exchange} {s : Stores} {p : Phase} (hx : x.In env s p) :
    x.Entered ↔ p.InTurn ∨ ∃ calls, p.calls = some calls := by
  simp only [Exchange.Entered, hx.inTurn_iff, hx.ran_iff]

/-- A request that has just arrived has not entered. -/
theorem Env.not_entered (env : Env) (s : Stores) (r : Request) : ¬ (env.exchange r).Entered := by
  rw [(env.exchange_in s r).entered_iff, Middleware.start]
  split
  · split <;> simp [Phase.InTurn, Phase.calls]
  · simp [Phase.InTurn, Phase.calls]

/-- The requests of an orderly state, as clients of the table of records. -/
theorem Orderly.inOrder (hs : Orderly env s) :
    InOrder (fun x => (env.keyed x).ident) Exchange.InTurn Exchange.Entered
      (fun i => ∃ r ∈ s.stores.rows, r.ident = i) s.exchanges := by
  refine ⟨fun x hx hentered hturn => ?_, hs.once⟩
  obtain hturn' | ⟨calls, hran⟩ := hentered
  · exact absurd hturn' hturn
  · exact hs.stored x hx calls hran hturn

/-- A request that has entered and is not in its turn has its key's row stored. -/
theorem Orderly.stored_move (hs : Orderly env s) {n : Nat} {input : Input} {y y' : Exchange}
    {o : Op} {k : o.Rep → MiddlewareM Unit} {p p' : Phase} {stores : Stores}
    (hok : TakesTurns env s (.call n input)) (hy : s.exchanges[n]? = some y)
    (hprog : y.prog = .call o k) (hp : y.In env s.stores p) (hp' : y'.In env stores p')
    (hmove : Turn (env.keyed y) s.stores p o input p' stores) (hentered : y'.Entered)
    (hturn : ¬ y'.InTurn) : ∃ r ∈ stores.rows, r.ident = (env.keyed y).ident := by
  rw [hp'.entered_iff] at hentered
  rw [hp'.inTurn_iff] at hturn
  obtain ⟨calls, hran⟩ := hentered.resolve_left hturn
  cases hmove with
  | enter _ => cases hran
  | serve => exact absurd trivial hturn
  | @insert calls' r v out _ =>
    obtain ⟨-, -, -, -, -, -, hwriting⟩ := hp.facts
    have hinsert := hok y hy
    simp only [hprog] at hinsert
    obtain ⟨w, hw, hident⟩ := Stores.exists_row_insert hinsert.1 hinsert.2
    exact ⟨w, hw, hident.trans (by rw [hwriting r rfl]; rfl)⟩
  | other _ hin hcalls hsame =>
    rw [hcalls] at hran
    have hout : ¬ y.InTurn := by
      rw [hp.inTurn_iff]
      intro h
      rw [hin h] at hran
      cases hran
    have hstored := hs.stored y (List.mem_of_getElem? hy) calls (hp.ran_iff.mpr hran) hout
    rwa [← hsame] at hstored

/-- A request that has entered had entered before, or does so while its key has no row and no
request of its key is in its turn. -/
theorem entered_of_takesTurns {n : Nat} {input : Input} {y y' : Exchange}
    {o : Op} {k : o.Rep → MiddlewareM Unit} {p p' : Phase} {stores : Stores}
    (hok : TakesTurns env s (.call n input)) (hy : s.exchanges[n]? = some y)
    (hprog : y.prog = .call o k) (hp : y.In env s.stores p) (hp' : y'.In env stores p')
    (hturn : Turn (env.keyed y) s.stores p o input p' stores) (hentered : y'.Entered) :
    y.Entered ∨ (¬ ∃ r ∈ s.stores.rows, r.ident = (env.keyed y).ident) ∧
      ∀ z ∈ s.exchanges, (env.keyed z).ident = (env.keyed y).ident → ¬ z.InTurn := by
  rw [hp'.entered_iff] at hentered
  rw [hp.entered_iff]
  cases hturn with
  | serve => exact .inl (.inl trivial)
  | insert _ => exact .inl (.inl trivial)
  | other hin _ hcalls _ =>
    rw [hcalls] at hentered
    exact .inl (.inr (hentered.resolve_left hin))
  | enter hrow =>
    have hfree := hok y hy
    simp only [hprog] at hfree
    refine .inr ⟨?_, hfree trivial hrow⟩
    rintro ⟨r, hr, hident⟩
    exact Stores.row_eq_none.mp hrow r hr hident

theorem inOrder_step (hs : Orderly env s) (hok : TakesTurns env s e) (h : step env s e = some t) :
    InOrder (fun x => (env.keyed x).ident) Exchange.InTurn Exchange.Entered
      (fun i => ∃ r ∈ t.stores.rows, r.ident = i) t.exchanges := by
  cases e with
  | expire ck => cases h; exact hs.inOrder
  | arrive r => cases h; exact hs.inOrder.arrive (env.not_entered s.stores r)
  | call n input =>
    have hgrows := (hs.tracked.change h).rows_grow
    obtain ⟨y, y', o, k, p, p', stores, hy, rfl, hprog, hkeyed, hp, hp', hturn⟩ := hs.tracked.turn h
    refine hs.inOrder.move ?_ hy (by rw [hkeyed]) ?_ ?_
    · rintro i ⟨r, hr, hident⟩
      exact ⟨r, hgrows.subset hr, hident⟩
    · exact hs.stored_move hok hy hprog hp hp' hturn
    · exact entered_of_takesTurns hok hy hprog hp hp' hturn

theorem orderly_step (hs : Orderly env s) (hok : TakesTurns env s e) (h : step env s e = some t) :
    Orderly env t := by
  have horder := inOrder_step hs hok h
  refine ⟨tracked_step hs.tracked h, rowsCaptured_step hs.tracked hs.rows h, ?_, horder.once⟩
  intro x hx calls hran
  exact horder.left x hx (.inr ⟨calls, hran⟩)

theorem Orderly.init (env : Env) : Orderly env .init := by
  refine ⟨.init env, ?_, ?_, ?_⟩ <;> simp [RowsCaptured, World.init, Stores.empty]

/-- A run in which turns are taken one after the other is orderly. -/
theorem orderly_of_path {es : List Event}
    (h : Path (step env) (TakesTurns env) .init es s) : Orderly env s :=
  h.invariant (fun _ _ _ => orderly_step) (.init env)

end Turns

/-! ## One execution per key -/

/-- The request is one of the merchant and carries the key. -/
def Exchange.Carries (env : Env) (x : Exchange) (merchantID : UUID) (key : String) : Prop :=
  x.request.Guarded ∧ env.resolver x.request = some merchantID ∧ x.request.idempotencyKey = key

instance (env : Env) (x : Exchange) (merchantID : UUID) (key : String) :
    Decidable (x.Carries env merchantID key) := inferInstanceAs (Decidable (_ ∧ _))

/-- No two requests of the key got a response below 500 from the handler. -/
def RunsOnce (env : Env) (s : World) (merchantID : UUID) (key : String) : Prop :=
  ∀ (i j : Nat) (x y : Exchange) (a b : List WriterCall), s.exchanges[i]? = some x →
    s.exchanges[j]? = some y → x.Carries env merchantID key → y.Carries env merchantID key →
    x.Ran a → y.Ran b → i = j

/-- The caller of `y` has received the stored response of `x`, for a body with the same hash. -/
def Repeats (env : Env) (s : World) (x y : Exchange) : Prop :=
  (∃ calls, x.Ran calls ∧ (env.keyed x).record calls ∈ s.stores.rows) ∧
    y.w.status = x.w.status ∧ y.w.body = x.w.body ∧
    ∃ a b, x.request.body = .ok a ∧ y.request.body = .ok b ∧ env.sum256 a = env.sum256 b

section Executions

variable {env : Env} {s : World} {merchantID : UUID} {key : String} {x y : Exchange} {p : Phase}

theorem Exchange.Carries.ident (h : x.Carries env merchantID key) :
    (env.keyed x).ident = (merchantID, key) := by
  obtain ⟨-, hres, hkey⟩ := h
  simp [Env.keyed, Middleware.keyed, Env.middleware, Keyed.ident, hres, hkey]

/-- A request of the key of an admitted one carries that key. -/
theorem Exchange.carries_of_admits (hguard : x.request.Guarded)
    (hadmits : env.middleware.Admits x.request)
    (h : (env.keyed x).ident = (merchantID, key)) : x.Carries env merchantID key := by
  obtain ⟨m, hm⟩ := Option.isSome_iff_exists.mp hadmits.1
  obtain ⟨hid, hkey⟩ := Prod.mk.inj h
  refine ⟨hguard, hm.trans ?_, hkey⟩
  rw [← hid]
  simp [Env.keyed, Middleware.keyed, hm]

theorem Exchange.exists_body (h : env.middleware.Admits x.request) :
    ∃ body, x.request.body = .ok body ∧ (env.keyed x).hash = env.sum256 body := by
  cases hbody : x.request.body with
  | error err => simp [Middleware.Admits, hbody, Except.isOk, Except.toBool] at h
  | ok body => exact ⟨body, rfl, by simp [Env.keyed, Middleware.keyed, hbody, hashRequest,
      Except.toOption]⟩

/-- A request that was answered with a replay repeats the response of the request whose record was
replayed. -/
theorem repeats_of_replay (hs : Orderly env s) {r : Record} (hr : r ∈ s.stores.rows)
    (hw : y.w = ResponseWriter.fresh.calls (replay r)) (hadmits : env.middleware.Admits y.request)
    (hcarries : y.Carries env merchantID key) (hident : r.ident = (env.keyed y).ident)
    (hhash : r.requestHash = (env.keyed y).hash) :
    ∃ x ∈ s.exchanges, x.Carries env merchantID key ∧ Repeats env s x y := by
  obtain ⟨x, hx, calls, hran, rfl⟩ := hs.rows r hr
  obtain ⟨p, hp⟩ := hs.tracked.phases x hx
  have hcalls := hp.ran_iff.mp hran
  cases p with
  | ran calls' v =>
    cases hcalls
    obtain ⟨hxguard, hxadmits, -, hxw, -⟩ := hp.facts
    obtain ⟨a, ha, hahash⟩ := Exchange.exists_body hxadmits
    obtain ⟨b, hb, hbhash⟩ := Exchange.exists_body hadmits
    obtain ⟨hstatus, hbody⟩ := replay_record_response (env.keyed x) calls
    rw [← hw, ← hxw] at hstatus hbody
    refine ⟨x, hx, Exchange.carries_of_admits hxguard hxadmits (hident.trans hcarries.ident),
      ⟨calls, hran, hr⟩, hstatus, hbody, a, b, ha, hb, ?_⟩
    rw [← hahash, ← hbhash]
    exact hhash
  | rejecting => cases hcalls
  | looking v => cases hcalls
  | answered => cases hcalls
  | refused calls => cases hcalls
  | passing => cases hcalls
  | passed => cases hcalls

/-- As long as turns are taken one after the other, at most one request of a key is answered by
the handler below 500, and every other one gets that response again or an error. -/
theorem one_execution_per_key {es : List Event}
    (h : Path (step env) (TakesTurns env) .init es s) (merchantID : UUID) (key : String) :
    RunsOnce env s merchantID key ∧
      ∀ y ∈ s.exchanges, y.Carries env merchantID key → y.Ended →
        (∃ calls, y.Ran calls) ∨ 400 ≤ y.w.status.code ∨
          ∃ x ∈ s.exchanges, x.Carries env merchantID key ∧ Repeats env s x y := by
  have hs := orderly_of_path h
  constructor
  · intro i j x y a b hi hj hx hy ha hb
    exact hs.once i j x y hi hj (hx.ident.trans hy.ident.symm) (.inr ⟨a, ha⟩) (.inr ⟨b, hb⟩)
  · intro y hy hcarries hended
    obtain ⟨p, hp⟩ := hs.tracked.phases y hy
    have hfacts := hp.facts
    cases p with
    | ran calls v => exact .inl ⟨calls, hp.ran_iff.mpr rfl⟩
    | refused calls =>
      obtain ⟨-, -, hw, hstatus⟩ := hfacts
      right; left
      rw [hw, (capture_response calls).1, settled_of_final (final_of_error (by omega))]
      omega
    | answered =>
      obtain ⟨-, -, calls, hw, herr | ⟨hadmits, r, hr, hident, hhash, rfl⟩⟩ := hfacts
      · exact .inr (.inl (by rw [hw]; exact herr))
      · exact .inr (.inr (repeats_of_replay hs hr hw hadmits hcarries hident hhash))
    | rejecting => exact absurd (hp.ends hended) id
    | looking v => exact absurd (hp.ends hended) id
    | passing => exact absurd hcarries.1 hfacts
    | passed => exact absurd hcarries.1 hfacts

end Executions

/-- A deployment with a Redis and an injective hash. -/
def smallEnv : Env := ⟨id, Request.merchant, true⟩

/-- A create request of merchant 7. -/
def ordering (body : Bytes) : Request := ⟨"POST", "order-1", some 7, .ok body⟩

/-- A handler that answers 201. -/
def created (body : Bytes) : List WriterCall := [.writeHeader ⟨201, by decide⟩, .write body]

/-- A request finds no record. -/
def missing (n : Nat) : List Event := [.call n (.store .done), .call n (.store .done)]

/-- A request runs to its end, is retried, and its key is used again for another body. -/
def retried : List Event :=
  .arrive (ordering [1]) :: missing 0 ++
    [.call 0 (.serve (created [10])), .call 0 (.store .done), .call 0 (.store .done),
      .arrive (ordering [1]), .call 1 (.store .done), .call 1 .respond,
      .arrive (ordering [2]), .call 2 (.store .done), .call 2 .respond]

theorem one_execution_per_key_retried : ∃ s x y,
    Path (step smallEnv) (TakesTurns smallEnv) .init retried s ∧ x ∈ s.exchanges[0]? ∧
      y ∈ s.exchanges[1]? ∧ x.Ran (created [10]) ∧ y.w.status.code = 201 ∧ y.w.body = [10] ∧
      RunsOnce smallEnv s 7 "order-1" ∧ ((∃ calls, y.Ran calls) ∨ 400 ≤ y.w.status.code ∨
        ∃ x ∈ s.exchanges, x.Carries smallEnv 7 "order-1" ∧ Repeats smallEnv s x y) := by
  obtain ⟨s, hs, x, hx, y, hy, hran, hstatus, hbody, hcarries, hended⟩ : ∃ s,
      runIf (step smallEnv) (TakesTurns smallEnv) .init retried = some s ∧
        ∃ x ∈ s.exchanges[0]?, ∃ y ∈ s.exchanges[1]?, x.Ran (created [10]) ∧
          y.w.status.code = 201 ∧ y.w.body = [10] ∧ y.Carries smallEnv 7 "order-1" ∧ y.Ended :=
    exists_of_any (by decide +kernel)
  obtain ⟨honce, hrest⟩ := one_execution_per_key (.of_runIf hs) 7 "order-1"
  exact ⟨s, x, y, .of_runIf hs, hx, hy, hran, hstatus, hbody, honce,
    hrest y (List.mem_of_getElem? hy) hcarries hended⟩

/-- Two requests with one key and one body look their record up before either is stored. -/
def raced : List Event :=
  [.arrive (ordering [1]), .arrive (ordering [1])] ++ missing 0 ++ missing 1 ++
    [.call 0 (.serve (created [10])), .call 1 (.serve (created [11])),
      .call 0 (.store .done), .call 0 (.store .done),
      .call 1 (.store .done), .call 1 (.store .done), .call 1 (.store .done)]

/-- Both run the handler to a 201, and the two callers receive different bodies. -/
theorem raced_runs_twice : ∃ s, run (step smallEnv) .init raced = some s ∧
    ∃ x ∈ s.exchanges[0]?, ∃ y ∈ s.exchanges[1]?, x.Carries smallEnv 7 "order-1" ∧
      y.Carries smallEnv 7 "order-1" ∧ x.Ended ∧ y.Ended ∧ x.Ran (created [10]) ∧
      y.Ran (created [11]) ∧ x.w.status.code = 201 ∧ y.w.status.code = 201 ∧
      x.w.body = [10] ∧ y.w.body = [11] :=
  exists_of_any (by decide +kernel)

end Selatpay.Idempotency
