import Selatpay.Idempotency.Turns

/-!
# The store keeps merchants apart

Every statement the middleware makes for a request names the merchant of the request,
in the primary key of a row or in the key of the cache. Two stores that differ in the
data of one merchant only therefore answer the requests of all others alike, and a
statement for that merchant leaves the difference as it is.
-/

namespace Selatpay.Idempotency

/-- The statement is about data of the merchant. -/
def StoreOp.Of (m : UUID) : StoreOp → Prop
  | .redisGet ck => ∃ k, ck = cacheKey m k
  | .redisSet ck _ => ∃ k, ck = cacheKey m k
  | .getIdempotencyKey m' _ => m' = m
  | .insertIdempotencyKey r => r.merchantID = m

/-- The second store is the first one without the data of a merchant. -/
structure Stores.Hides (B : UUID) (s t : Stores) : Prop where
  rows : t.rows = s.rows.filter fun r => r.merchantID ≠ B
  cache : ∀ m k, m ≠ B → t.cache (cacheKey m k) = s.cache (cacheKey m k)

section Statements

variable {B m : UUID} {s t : Stores} {o : StoreOp} {out : Outcome}

/-- The rows of other merchants are the same. -/
theorem Stores.Hides.row (h : s.Hides B t) (hm : m ≠ B) (k : String) : t.row m k = s.row m k := by
  rw [Stores.row, h.rows, Stores.row]
  refine Table.find_filter fun r hr hident => ?_
  obtain ⟨rfl, -⟩ := Prod.mk.inj hident
  simpa using hm

/-- The cache may change alike. -/
theorem Stores.Hides.setCache (h : s.Hides B t) (ck : String) (value : Option Raw) :
    (s.setCache ck value).Hides B (t.setCache ck value) := by
  refine ⟨h.rows, fun m k hm => ?_⟩
  by_cases hck : cacheKey m k = ck
  · simp [Stores.setCache, hck]
  · simpa [Stores.setCache, Function.update_of_ne hck] using h.cache m k hm

/-- Rows of other merchants are inserted alike. -/
theorem Stores.Hides.insert (h : s.Hides B t) {r : Record} (hr : r.merchantID ≠ B) :
    (t.insert r).1 = (s.insert r).1 ∧ (s.insert r).2.Hides B (t.insert r).2 := by
  have hrow := h.row hr r.key
  unfold Stores.insert
  rw [hrow]
  split
  · exact ⟨rfl, h⟩
  · cases s.row r.merchantID r.key with
    | some w => exact ⟨rfl, h⟩
    | none => exact ⟨rfl, by simp [h.rows, hr], h.cache⟩

theorem Stores.Hides.execute (h : s.Hides B t) (ho : o.Of m) (hm : m ≠ B) :
    (t.execute o).1 = (s.execute o).1 ∧ (s.execute o).2.Hides B (t.execute o).2 := by
  cases o with
  | redisGet ck =>
    obtain ⟨k, rfl⟩ := ho
    have hcache := h.cache m k hm
    exact ⟨by simp only [Stores.execute, hcache]; rfl, h⟩
  | redisSet ck value => exact ⟨rfl, h.setCache ck (some value)⟩
  | getIdempotencyKey m' k =>
    obtain rfl : m' = m := ho
    have hrow := h.row hm k
    exact ⟨by simp only [Stores.execute, hrow]; rfl, h⟩
  | insertIdempotencyKey r =>
    obtain rfl : r.merchantID = m := ho
    exact h.insert hm

/-- A statement for another merchant has the same reply and the same effect. -/
theorem Stores.Hides.answer (h : s.Hides B t) (ho : o.Of m) (hm : m ≠ B) (out : Outcome) :
    (t.answer o out).1 = (s.answer o out).1 ∧ (s.answer o out).2.Hides B (t.answer o out).2 := by
  have hexecute := h.execute ho hm
  cases out with
  | done => exact hexecute
  | lost msg => exact ⟨rfl, hexecute.2⟩
  | failed msg => exact ⟨rfl, h⟩

/-- A statement for the hidden merchant does not show. -/
theorem Stores.Hides.execute_hidden (h : s.Hides B t) (ho : o.Of B) :
    (s.execute o).2.Hides B t := by
  cases o with
  | redisGet ck => exact h
  | getIdempotencyKey m' k => exact h
  | redisSet ck value =>
    obtain ⟨k, rfl⟩ := ho
    refine ⟨h.rows, fun m k' hm => (h.cache m k' hm).trans ?_⟩
    have hck : cacheKey m k' ≠ cacheKey B k := fun he => hm (cacheKey_inj.mp he).1
    simp [Stores.execute, Stores.setCache, Function.update_of_ne hck]
  | insertIdempotencyKey r =>
    obtain ⟨-, hsame⟩ | ⟨-, hadd⟩ := Stores.insert_cases s r
    · simpa [Stores.execute, hsame] using h
    · have hr : r.merchantID = B := ho
      rw [Stores.execute, hadd]
      exact ⟨by simp [h.rows, hr], h.cache⟩

theorem Stores.Hides.answer_hidden (h : s.Hides B t) (ho : o.Of B) (out : Outcome) :
    (s.answer o out).2.Hides B t := by
  cases out with
  | done => exact h.execute_hidden ho
  | lost msg => exact h.execute_hidden ho
  | failed msg => exact h

end Statements

/-! ## The statements of a request -/

section Requests

variable {env : Env} {s s' t : Stores} {x y : Exchange} {p : Phase} {input : Input} {B : UUID}

/-- What a store program does next is about the merchant it has been called for. -/
theorem Seen.Holds.of {m : UUID} {k : String} {v v' : Seen} {o : StoreOp} {reply : o.Rep}
    (hv : v.Holds s m k) (h : v.next m k o reply = some v') : o.Of m := by
  cases Seen.reads_of_next h with
  | hit p => exact ⟨k, rfl⟩
  | miss reply => exact ⟨k, rfl⟩
  | found r => exact rfl
  | absent => exact rfl
  | unread reply => exact rfl
  | inserted r w => exact (Prod.mk.inj hv).1
  | conflict r reply => exact (Prod.mk.inj hv).1
  | warmed r reply hck =>
    obtain rfl | rfl := hck
    · exact ⟨k, rfl⟩
    · obtain ⟨hm, -⟩ := Prod.mk.inj hv.2
      exact ⟨r.key, by rw [hm]⟩

/-- A statement of a request is about the merchant of the request. -/
theorem Exchange.In.store_of (hx : x.In env s p) {o : StoreOp}
    {k : (Op.store o).Rep → MiddlewareM Unit} (hprog : x.prog = .call (.store o) k) :
    ∃ m, env.resolver x.request = some m ∧ o.Of m := by
  obtain ⟨reply, p', hnext⟩ := hx.next hprog
  have hfacts := hx.facts
  have hmerchant (hadmits : env.middleware.Admits x.request) :
      env.resolver x.request = some (env.keyed x).merchantID := by
    obtain ⟨m, hm⟩ := Option.isSome_iff_exists.mp hadmits.1
    have hresolver : env.resolver x.request = some m := hm
    simp [Env.keyed, Middleware.keyed, Env.middleware, hresolver]
  obtain ⟨v, v', hv, ⟨rfl, -⟩ | ⟨calls, rfl, -⟩⟩ := Phase.next_store hnext
  · obtain ⟨-, hadmits, -, -, hseen, -⟩ := hfacts
    exact ⟨_, hmerchant hadmits, hseen.of hv⟩
  · obtain ⟨-, hadmits, -, -, -, hseen, -⟩ := hfacts
    exact ⟨_, hmerchant hadmits, hseen.of hv⟩

/-- A request of another merchant goes on alike. -/
theorem Exchange.In.answer_of_hides (hx : x.In env s p) (hB : env.resolver x.request ≠ some B)
    (h : s.Hides B t) (hanswer : x.answer s input = some (y, s')) :
    ∃ t', x.answer t input = some (y, t') ∧ s'.Hides B t' := by
  cases Exchange.proceeds_of_answer hanswer with
  | @store out o k hprog =>
    obtain ⟨m, hm, ho⟩ := hx.store_of hprog
    have hne : m ≠ B := fun he => hB (he ▸ hm)
    obtain ⟨hreply, hhides⟩ := h.answer ho hne out
    exact ⟨_, by simp only [Exchange.answer, hprog, hreply], hhides⟩
  | serve hprog => exact ⟨t, by simp only [Exchange.answer, hprog], h⟩
  | respond hprog => exact ⟨t, by simp only [Exchange.answer, hprog], h⟩

/-- A request of the hidden merchant does not show. -/
theorem Exchange.In.hides_of_answer (hx : x.In env s p) (hB : env.resolver x.request = some B)
    (h : s.Hides B t) (hanswer : x.answer s input = some (y, s')) : s'.Hides B t := by
  cases Exchange.proceeds_of_answer hanswer with
  | @store out o k hprog =>
    obtain ⟨m, hm, ho⟩ := hx.store_of hprog
    obtain rfl : B = m := Option.some_inj.mp (hB.symm.trans hm)
    exact h.answer_hidden ho out
  | serve hprog => exact h
  | respond hprog => exact h

end Requests

end Selatpay.Idempotency
