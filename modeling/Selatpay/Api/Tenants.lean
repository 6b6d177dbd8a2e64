import Selatpay.Api.Invariant
import Selatpay.Core.Simulation
import Selatpay.Idempotency.Tenants

/-!
# Merchants do not see each other

Take a merchant's requests out of a history, and every other request goes on as
before, call by call: the lookup of its idempotency record, the lookup of its
reference, the insertion under the unique constraint and the fetch by id all answer
as if the rows of that merchant were not there.
-/

namespace Selatpay.Api

open Idempotency

/-- The request is one of another merchant. -/
def Exchange.notOf (B : UUID) (x : Exchange) : Bool := x.request.merchant ≠ some B

/-- The events of a history without those of a merchant's requests. -/
def Event.without (B : UUID) (s : World) : Event → List Event
  | .arrive r d => if r.merchant = some B then [] else [.arrive r d]
  | .call n out => match s.exchanges[n]? with
    | none => []
    | some x => if x.notOf B then [.call (position (Exchange.notOf B) s.exchanges n) out] else []
  | .expire ck => [.expire ck]

/-- The second tables are the first ones without the data of a merchant. -/
structure Db.Hides (B : UUID) (db db' : Db) : Prop where
  intents : db'.intents = db.intents.filter fun p => p.merchantID ≠ B
  quotes : db'.quotes ⊆ db.quotes

/-! ## One call of a handler -/

section Calls

variable {env : Env} {B : UUID} {db db' : Db} {x : Exchange} {st : Handling} {o : Op}
  {k : o.Rep → HandlerM (List WriterCall)} {out : Outcome}

/-- A lookup by reference is one of the caller's references. -/
theorem Exchange.At.merchant_of_byRef {m : UUID} {ref : String}
    {k : (Op.getPaymentIntentByMerchantRef m ref).Rep → HandlerM (List WriterCall)}
    (h : x.At env db st) (hprog : x.handler = .call (.getPaymentIntentByMerchantRef m ref) k) :
    x.request.merchant = some m := by
  have hfacts := h.facts
  obtain ⟨st', hhandles, -⟩ := handles_of_prog (h.prog.symm.trans hprog) (.error .unique)
  cases hhandles with
  | lookupFailed _ => exact Env.merchant_of_asks hfacts

/-- An intent is inserted for the caller, with a quote that is stored. -/
theorem Exchange.At.placing {p : CreatePaymentIntentParams}
    {k : (Op.createPaymentIntent p).Rep → HandlerM (List WriterCall)} (h : x.At env db st)
    (hprog : x.handler = .call (.createPaymentIntent p) k) :
    x.request.merchant = some p.merchantID ∧ ∃ q ∈ db.quotes, q.id = p.quoteID := by
  have hfacts := h.facts
  obtain ⟨st', hhandles, -⟩ := handles_of_prog (h.prog.symm.trans hprog) (.error .unique)
  cases hhandles with
  | notCreated _ =>
    obtain ⟨⟨c, hasks, -⟩, -, hquote⟩ := hfacts
    exact ⟨Env.merchant_of_asks hasks, hquote⟩

/-- A quote that is fetched is stored. -/
theorem Exchange.At.quote_of_getQuote {id : UUID}
    {k : (Op.getQuote id).Rep → HandlerM (List WriterCall)} (h : x.At env db st) (hs : db.Sound)
    (hprog : x.handler = .call (.getQuote id) k) : ∃ q ∈ db.quotes, q.id = id := by
  have hfacts := h.facts
  obtain ⟨st', hhandles, -⟩ := handles_of_prog (h.prog.symm.trans hprog) (.error .unique)
  cases hhandles with
  | noQuote _ => exact hs.quoted _ hfacts.2.1

/-- An intent of another merchant is answered like one that is not there. -/
theorem Exchange.At.foreign_eq_absent {id : UUID}
    {k : (Op.getPaymentIntentByID id).Rep → HandlerM (List WriterCall)} (h : x.At env db st)
    (hprog : x.handler = .call (.getPaymentIntentByID id) k) {p : PaymentIntent}
    (hp : x.request.merchant ≠ some p.merchantID) : k (.ok p) = k (.error .noRows) := by
  have hfacts := h.facts
  have hst := h.prog.symm.trans hprog
  obtain ⟨st₁, hhandles₁, hk₁⟩ := handles_of_prog hst (.ok p)
  obtain ⟨st₂, hhandles₂, hk₂⟩ := handles_of_prog hst (.error .noRows)
  rw [hk₁, hk₂]
  cases hhandles₁ with
  | owned p hm => exact absurd (hm ▸ hfacts.1) hp
  | foreign p _ =>
    cases hhandles₂ with
    | absent => rfl
    | fetchFailed hne => exact absurd rfl hne

theorem Db.Hides.intentByRef (h : db.Hides B db') {m : UUID} (hm : m ≠ B) (ref : String) :
    db'.intentByRef m ref = db.intentByRef m ref := by
  rw [Db.intentByRef, h.intents, Db.intentByRef]
  refine Table.find_filter fun p hp href => ?_
  obtain ⟨rfl, -⟩ := Prod.mk.inj href
  simpa using hm

/-- A quote both have is the same. -/
theorem Db.Hides.quote (h : db.Hides B db') (hs : db.Sound) (hs' : db'.Sound) {id : UUID}
    (hq : ∃ q ∈ db'.quotes, q.id = id) : db'.quote id = db.quote id := by
  obtain ⟨q, hq, rfl⟩ := hq
  rw [Db.quote, Db.quote, Table.find_of_mem hs'.quoteIDs hq,
    Table.find_of_mem hs.quoteIDs (h.quotes hq)]

theorem Db.Hides.intent (h : db.Hides B db') (hs : db.Sound) (id : UUID) :
    db'.intent id = db.intent id ∨
      db'.intent id = none ∧ ∃ p, db.intent id = some p ∧ p.merchantID = B := by
  rw [Db.intent, h.intents]
  by_cases hB : ∃ p ∈ db.intents, p.id = id ∧ p.merchantID = B
  · obtain ⟨p, hp, rfl, hm⟩ := hB
    refine .inr ⟨Table.find_filter_hidden hs.intentIDs hp (by simp [hm]), p, ?_, hm⟩
    exact Table.find_of_mem hs.intentIDs hp
  · refine .inl (Table.find_filter fun p hp hid => ?_)
    simpa using fun hm => hB ⟨p, hp, hid, hm⟩

/-- A new intent of another merchant is inserted alike. -/
theorem Db.Hides.insertIntent (h : db.Hides B db') (hs : db.Sound) (hs' : db'.Sound) (d : Draw)
    {p : CreatePaymentIntentParams} (hp : p.merchantID ≠ B)
    (hq : ∃ q ∈ db'.quotes, q.id = p.quoteID) :
    (db'.insertIntent d p).1 = (db.insertIntent d p).1 ∧
      (db.insertIntent d p).2.Hides B (db'.insertIntent d p).2 := by
  have href := h.intentByRef hp p.externalRef
  have hquote := h.quote hs hs' hq
  have hadd : ({ db with intents := db.intents ++ [p.row d] } : Db).Hides B
      { db' with intents := db'.intents ++ [p.row d] } := by
    refine ⟨?_, h.quotes⟩
    simp [h.intents, CreatePaymentIntentParams.row, hp]
  unfold Db.insertIntent
  rw [href, hquote]
  repeat' split
  all_goals first
    | exact ⟨rfl, h⟩
    | exact ⟨rfl, hadd⟩

/-- A call for another merchant leads to the same program and has the same effect. -/
theorem Exchange.At.execute_of_hides {st' : Handling} (hs : db.Sound) (hs' : db'.Sound)
    (hx : x.At env db st) (hx' : x.At env db' st') (hB : x.request.merchant ≠ some B)
    (h : db.Hides B db') (hprog : x.handler = .call o k) :
    k (db'.execute x.draw o).1 = k (db.execute x.draw o).1 ∧
      (db.execute x.draw o).2.Hides B (db'.execute x.draw o).2 := by
  cases o with
  | getPaymentIntentByMerchantRef m ref =>
    have hm : m ≠ B := fun he => hB (he ▸ hx.merchant_of_byRef hprog)
    refine ⟨?_, h⟩
    simp only [Db.execute, h.intentByRef hm ref]
  | getPaymentIntentByID id =>
    refine ⟨?_, h⟩
    obtain hsame | ⟨hnone, p, hp, rfl⟩ := h.intent hs id
    · simp only [Db.execute, hsame]
    · simp only [Db.execute, hnone, hp, rowOrNone]
      exact (hx.foreign_eq_absent hprog hB).symm
  | getQuote id =>
    have hquote := h.quote hs hs' (hx'.quote_of_getQuote hs' hprog)
    refine ⟨?_, h⟩
    simp only [Db.execute, hquote]
  | createQuote p =>
    have hquotes : db'.quotes ++ [p.row x.draw] ⊆ db.quotes ++ [p.row x.draw] :=
      fun q hq => by
        rcases List.mem_append.mp hq with hq | hq
        · exact List.mem_append_left _ (h.quotes hq)
        · exact List.mem_append_right _ hq
    simp only [Db.execute, Db.insertQuote]
    split
    · exact ⟨rfl, h.intents, hquotes⟩
    · exact ⟨rfl, h⟩
  | createPaymentIntent p =>
    have hm : p.merchantID ≠ B := fun he => hB (he ▸ (hx.placing hprog).1)
    obtain ⟨hreply, heffect⟩ := h.insertIntent hs hs' x.draw hm (hx'.placing hprog).2
    exact ⟨congrArg k hreply, heffect⟩
  | rate pair => exact ⟨rfl, h⟩
  | now => exact ⟨rfl, h⟩
  | allocate => exact ⟨rfl, h⟩

theorem Exchange.At.answer_of_hides {st' : Handling} (hs : db.Sound) (hs' : db'.Sound)
    (hx : x.At env db st) (hx' : x.At env db' st') (hB : x.request.merchant ≠ some B)
    (h : db.Hides B db') (hprog : x.handler = .call o k) (out : Outcome) :
    k (db'.answer x.draw o out).1 = k (db.answer x.draw o out).1 ∧
      (db.answer x.draw o out).2.Hides B (db'.answer x.draw o out).2 := by
  have hexecute := hx.execute_of_hides hs hs' hx' hB h hprog
  cases out with
  | done => exact hexecute
  | lost msg => exact ⟨rfl, hexecute.2⟩
  | failed msg => exact ⟨rfl, h⟩

/-- Ids that are new are new without a merchant's data. -/
theorem Db.Hides.isNew (h : db.Hides B db') {d : Draw} (hnew : d.IsNew db o) : d.IsNew db' o := by
  cases o with
  | createQuote p => exact fun q hq => hnew q (h.quotes hq)
  | createPaymentIntent p =>
    intro row hrow
    rw [h.intents] at hrow
    exact hnew row (List.mem_filter.mp hrow).1
  | _ => trivial

/-- A call for the hidden merchant does not show. -/
theorem Exchange.At.hides_of_answer (hx : x.At env db st) (hB : x.request.merchant = some B)
    (h : db.Hides B db') (hprog : x.handler = .call o k) (out : Outcome) :
    (db.answer x.draw o out).2.Hides B db' := by
  have heffect := db.effect_answer x.draw o out
  generalize (db.answer x.draw o out).2 = db'' at heffect
  cases heffect with
  | same => exact h
  | quote => exact ⟨h.intents, fun q hq => List.mem_append_left _ (h.quotes hq)⟩
  | @intent p _ _ =>
    have hm : B = p.merchantID :=
      Option.some_inj.mp (hB.symm.trans (hx.placing hprog).1)
    exact ⟨by simp [h.intents, CreatePaymentIntentParams.row, hm], h.quotes⟩

end Calls

/-! ## Whole histories -/

/-- The second world is the first one without a merchant. -/
structure Hides (env : Env) (B : UUID) (s t : World) : Prop where
  tracked : Tracked env s
  tracked' : Tracked env t
  stores : s.stores.Hides B t.stores
  db : s.db.Hides B t.db
  exchanges : t.exchanges = s.exchanges.filter (Exchange.notOf B)

section Histories

variable {env : Env} {B : UUID} {s s' t : World} {e : Event}

/-- The request in the middleware, with the merchant it was authenticated as. -/
theorem Tracked.outer_in (hs : Tracked env s) {x : Exchange} (hx : x ∈ s.exchanges) :
    (∃ p, x.outer.In env.idempotency s.stores p) ∧
      env.idempotency.resolver x.outer.request = x.request.merchant := by
  obtain ⟨st, hst⟩ := hs.stages x hx
  refine ⟨hs.middleware.phases x.outer (List.mem_map_of_mem hx), ?_⟩
  rw [hst.request]
  rfl

/-- An event of another merchant's request happens in both worlds, one of the hidden merchant in
the first only. -/
theorem hides_step (h : Hides env B s t) (hstep : step env s e = some s') :
    ∃ t', run (step env) t (e.without B s) = some t' ∧ Hides env B s' t' := by
  have htracked := tracked_step h.tracked hstep
  have hone {e' : Event} {t' : World} (he : step env t e' = some t')
      (hstores : s'.stores.Hides B t'.stores) (hdb : s'.db.Hides B t'.db)
      (hexchanges : t'.exchanges = s'.exchanges.filter (Exchange.notOf B)) :
      ∃ t', run (step env) t [e'] = some t' ∧ Hides env B s' t' :=
    ⟨t', by simp [run, he], htracked, tracked_step h.tracked' he, hstores, hdb, hexchanges⟩
  have hnone (hstores : s'.stores.Hides B t.stores) (hdb : s'.db.Hides B t.db)
      (hexchanges : t.exchanges = s'.exchanges.filter (Exchange.notOf B)) :
      ∃ t', run (step env) t [] = some t' ∧ Hides env B s' t' :=
    ⟨t, rfl, htracked, h.tracked', hstores, hdb, hexchanges⟩
  cases change_of_step hstep with
  | @arrive r d =>
    by_cases hB : r.merchant = some B
    · rw [Event.without, if_pos hB]
      exact hnone h.stores h.db (by simp [h.exchanges, Exchange.notOf, Env.exchange, hB])
    · rw [Event.without, if_neg hB]
      exact hone rfl h.stores h.db (by simp [h.exchanges, Exchange.notOf, Env.exchange, hB])
  | @expire ck => exact hone rfl (h.stores.setCache ck none) h.db h.exchanges
  | @middleware n out x y stores hx hanswer =>
    obtain ⟨⟨p, hp⟩, hresolver⟩ := h.tracked.outer_in (List.mem_of_getElem? hx)
    simp only [Event.without, hx]
    by_cases hB : x.request.merchant = some B
    · have hnot : x.notOf B = false := by simp [Exchange.notOf, hB]
      rw [hnot]
      refine hnone (hp.hides_of_answer (hresolver.trans hB) h.stores hanswer) h.db ?_
      refine h.exchanges.trans (filter_set_hidden hx hnot ?_).symm
      exact hnot
    · have hnot : x.notOf B = true := by simp [Exchange.notOf, hB]
      obtain ⟨stores', hanswer', hstores⟩ :=
        hp.answer_of_hides (fun he => hB (hresolver.symm.trans he)) h.stores hanswer
      have hx' : t.exchanges[position (Exchange.notOf B) s.exchanges n]? = some x := by
        rw [h.exchanges]
        exact getElem?_filter_position hx hnot
      rw [if_pos hnot]
      refine hone (step_of_change (.middleware hx' hanswer')) hstores h.db ?_
      rw [h.exchanges]
      refine (filter_set_position hx hnot ?_).symm
      exact hnot
  | @handler n out x o k hx hin hprog hnew =>
    obtain ⟨st, hst⟩ := h.tracked.stages x (List.mem_of_getElem? hx)
    simp only [Event.without, hx]
    by_cases hB : x.request.merchant = some B
    · have hnot : x.notOf B = false := by simp [Exchange.notOf, hB]
      rw [hnot]
      refine hnone h.stores (hst.hides_of_answer hB h.db hprog out) ?_
      refine h.exchanges.trans (filter_set_hidden hx hnot ?_).symm
      exact hnot
    · have hnot : x.notOf B = true := by simp [Exchange.notOf, hB]
      have hx' : t.exchanges[position (Exchange.notOf B) s.exchanges n]? = some x := by
        rw [h.exchanges]
        exact getElem?_filter_position hx hnot
      obtain ⟨st', hst'⟩ := h.tracked'.stages x (List.mem_of_getElem? hx')
      obtain ⟨hk, hdb⟩ :=
        hst.answer_of_hides h.tracked.db h.tracked'.db hst' hB h.db hprog out
      rw [if_pos hnot]
      refine hone (step_of_change (.handler hx' hin hprog (h.db.isNew hnew))) h.stores hdb ?_
      rw [h.exchanges, hk]
      refine (filter_set_position hx hnot ?_).symm
      exact hnot

theorem hides_simulates (env : Env) (B : UUID) :
    Simulates (step env) (step env) (fun s e => e.without B s) (Hides env B) :=
  fun _ _ _ _ h hstep => hides_step h hstep

theorem Hides.init (env : Env) (B : UUID) : Hides env B .init .init :=
  ⟨Tracked.init env, Tracked.init env, ⟨rfl, fun _ _ _ => rfl⟩, ⟨rfl, fun _ => id⟩, rfl⟩

/-- In the history without a merchant's requests all others receive what they have received. -/
theorem tenant_noninterference (env : Env) (B : UUID) {es : List Event}
    (h : run (step env) .init es = some s) :
    ∃ t, run (step env) .init
        (translated (step env) (fun s e => e.without B s) .init es) = some t ∧
      t.exchanges = s.exchanges.filter (Exchange.notOf B) := by
  obtain ⟨t, ht, hhides⟩ := (hides_simulates env B).run (Hides.init env B) h
  exact ⟨t, ht, hhides.exchanges⟩

end Histories

/-- Merchant 2 creates an intent; merchant 1 creates one with the same key and reference in the
meantime and asks for both. -/
def sharedKey : List Event :=
  [.arrive ⟨.createPaymentIntent, "k", some 2, [1]⟩ (drawOf 0),
    .arrive ⟨.createPaymentIntent, "k", some 1, [2]⟩ (drawOf 1)] ++
  (List.replicate 9 [Event.call 0 .done, .call 1 .done]).flatten ++
  [.call 0 .done, .call 1 .done, .arrive ⟨.getPaymentIntent 20, "", some 1, []⟩ (drawOf 2),
    .arrive ⟨.getPaymentIntent 21, "", some 1, []⟩ (drawOf 3)] ++
  [.call 2 .done, .call 3 .done, .call 3 .done, .call 3 .done, .call 2 .done]

theorem tenant_noninterference_sharedKey : ∃ s t, run (step oneOrder) .init sharedKey = some s ∧
    run (step oneOrder) .init
      (translated (step oneOrder) (fun s e => e.without 2 s) .init sharedKey) = some t ∧
    t.exchanges = s.exchanges.filter (Exchange.notOf 2) ∧
    s.exchanges.map (fun x => (x.outer.w.status.code, x.outer.w.body)) =
      [(201, [20]), (201, [21]), (404, [0]), (200, [21])] := by
  obtain ⟨s, hs, hreceived⟩ : ∃ s, run (step oneOrder) .init sharedKey = some s ∧
      s.exchanges.map (fun x => (x.outer.w.status.code, x.outer.w.body)) =
        [(201, [20]), (201, [21]), (404, [0]), (200, [21])] :=
    exists_of_any (by decide +kernel)
  obtain ⟨t, ht, hexchanges⟩ := tenant_noninterference oneOrder 2 hs
  exact ⟨s, t, hs, ht, hexchanges, hreceived⟩

end Selatpay.Api
