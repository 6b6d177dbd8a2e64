import Mathlib.Tactic
import Selatpay.Core.Protocol
import Selatpay.Core.Table
import Selatpay.Data.Errors
import Selatpay.Data.Uuid

/-!
# The store of idempotency records

`PGStore` keeps one row per merchant and key, inserted with `ON CONFLICT DO
NOTHING`; `CachedStore` puts a Redis read-through cache in front of it. Both are
programs over single statements, so that the calls of many requests interleave at
every statement. Rows are written once and never change, which is why a cached
payload can be trusted: `Seen` follows what the replies have told about the row of
one key.
-/

namespace Selatpay.Idempotency

/-- The bytes of a body or a hash. -/
abbrev Bytes := List UInt8

/-- A status code that `net/http` accepts. -/
structure Status where
  code : Nat
  valid : 100 ≤ code ∧ code ≤ 999
  deriving DecidableEq, Repr

/-- `http.StatusCreated` is accepted. -/
theorem valid_created : 100 ≤ 201 ∧ 201 ≤ 999 := by decide

/-- `Record`, the replayable response tied to an idempotency key. -/
structure Record where
  merchantID : UUID
  key : String
  requestHash : Bytes
  statusCode : Status
  responseBody : Bytes
  deriving DecidableEq, Repr

/-- The primary key of `idempotency_keys`. -/
def Record.ident (r : Record) : UUID × String := (r.merchantID, r.key)

/-- `ErrNotFound`. -/
def errNotFound : GoError := .new "idempotency: key not found"

/-- `errors.Is` along a chain of wrappings. -/
def isError (target : GoError) : GoError → Bool
  | .wrap msg err => .wrap msg err = target || isError target err
  | .terminal err => .terminal err = target || isError target err
  | err => err = target

/-! ## Statements -/

/-- `cachePayload`. -/
structure CachePayload where
  requestHash : Bytes
  statusCode : Status
  responseBody : Bytes
  deriving DecidableEq, Repr

/-- A value in Redis, by the payload `json.Unmarshal` reads from it. -/
abbrev Raw := Option CachePayload

/-- What a record is cached as. -/
def Record.payload (r : Record) : CachePayload := ⟨r.requestHash, r.statusCode, r.responseBody⟩

/-- The record a payload stands for. -/
def CachePayload.record (p : CachePayload) (merchantID : UUID) (key : String) : Record :=
  ⟨merchantID, key, p.requestHash, p.statusCode, p.responseBody⟩

@[simp] theorem record_payload (r : Record) : r.payload.record r.merchantID r.key = r := rfl

/-- What the Redis client can report. -/
inductive RedisError
  /-- `redis.Nil`: there is no such key. -/
  | nil
  | failed (msg : String)
  deriving DecidableEq, Repr

/-- The statements a store makes. -/
inductive StoreOp
  | redisGet (ck : String)
  | redisSet (ck : String) (value : Raw)
  | getIdempotencyKey (merchantID : UUID) (key : String)
  | insertIdempotencyKey (r : Record)

/-- Their replies. -/
def StoreOp.Rep : StoreOp → Type
  | .redisGet _ => Except RedisError Raw
  | .redisSet _ _ => Except RedisError Unit
  | .getIdempotencyKey _ _ => Except DbError Record
  | .insertIdempotencyKey _ => Except DbError Record

/-- Programs of stores. -/
abbrev StoreM := Prog StoreOp.Rep GoError

/-- The `Store` interface. -/
structure Store where
  get : UUID → String → StoreM Record
  /-- The winning record, and whether it is the one put. -/
  put : Record → StoreM (Record × Bool)

/-! ## `PGStore` -/

/-- `PGStore.Get`. -/
def PGStore.get (merchantID : UUID) (key : String) : StoreM Record :=
  (Prog.query (.getIdempotencyKey merchantID key)).bind fun (row : Except DbError Record) =>
    match row with
    | .ok row => .ret row
    | .error .noRows => .throw errNotFound
    | .error err => .throw (.wrap "get idempotency" (.db err))

/-- `PGStore.Put`. -/
def PGStore.put (r : Record) : StoreM (Record × Bool) :=
  (Prog.query (.insertIdempotencyKey r)).bind fun (inserted : Except DbError Record) =>
    match inserted with
    | .ok inserted => .ret (inserted, true)
    | .error .noRows =>
      ((PGStore.get r.merchantID r.key).mapErr (.wrap "fetch conflict winner")).bind
        fun existing => .ret (existing, false)
    | .error err => .throw (.wrap "insert idempotency" (.db err))

/-- `NewPGStore`. -/
def newPGStore : Store := ⟨PGStore.get, PGStore.put⟩

/-! ## `CachedStore` -/

/-- `cacheKey`. -/
def cacheKey (merchantID : UUID) (key : String) : String :=
  "idemp:" ++ merchantID.text ++ ":" ++ key

/-- `CachedStore.warm`. -/
def CachedStore.warm (ck : String) (r : Record) : StoreM Unit :=
  (Prog.query (.redisSet ck (some r.payload))).bind fun _ => .ret ()

/-- `CachedStore.Get`. -/
def CachedStore.get (inner : Store) (merchantID : UUID) (key : String) : StoreM Record :=
  let ck := cacheKey merchantID key
  let throughStore := (inner.get merchantID key).bind fun r =>
    (CachedStore.warm ck r).bind fun _ => .ret r
  (Prog.query (.redisGet ck)).bind fun (raw : Except RedisError Raw) =>
    match raw with
    | .ok (some p) => .ret (p.record merchantID key)
    | .ok none => throughStore
    | .error _ => throughStore

/-- `CachedStore.Put`. -/
def CachedStore.put (inner : Store) (r : Record) : StoreM (Record × Bool) :=
  (inner.put r).bind fun (stored, created) =>
    (CachedStore.warm (cacheKey stored.merchantID stored.key) stored).bind fun _ =>
      .ret (stored, created)

/-- `NewCachedStore`. -/
def newCachedStore (inner : Store) : Store := ⟨CachedStore.get inner, CachedStore.put inner⟩

/-- The cache keys of different merchants and keys differ. -/
theorem cacheKey_inj {m m' : UUID} {k k' : String} :
    cacheKey m k = cacheKey m' k' ↔ m = m' ∧ k = k' := by
  constructor
  · intro h
    have hlist := congrArg String.toList h
    simp only [cacheKey, String.toList_append, List.append_assoc] at hlist
    have hrest := List.append_cancel_left hlist
    have hlen : m.text.toList.length = m'.text.toList.length := by
      simp [UUID.text, uuidChars]
    obtain ⟨hm, hk⟩ := List.append_inj hrest hlen
    exact ⟨UUID.text_injective (String.toList_injective hm),
      String.toList_injective (List.append_cancel_left hk)⟩
  · rintro ⟨rfl, rfl⟩
    rfl

/-! ## The tables behind the statements -/

/-- The durable rows and the content of Redis. -/
structure Stores where
  rows : List Record
  cache : String → Option Raw

/-- Nothing is stored. -/
def Stores.empty : Stores := ⟨[], fun _ => none⟩

/-- The row of a merchant's key. -/
def Stores.row (s : Stores) (merchantID : UUID) (key : String) : Option Record :=
  Table.find Record.ident s.rows (merchantID, key)

/-- The violation of `response_body BYTEA NOT NULL`. -/
def nullBody : DbError := .failed ("null value in column \"response_body\" of relation " ++
  "\"idempotency_keys\" violates not-null constraint (SQLSTATE 23502)")

/-- `INSERT … ON CONFLICT (merchant_id, key) DO NOTHING RETURNING *`. The bytes of a buffer nothing
was written to are a nil slice, and the driver sends a nil slice as NULL. -/
def Stores.insert (s : Stores) (r : Record) : Except DbError Record × Stores :=
  if r.responseBody = [] then (.error nullBody, s)
  else match s.row r.merchantID r.key with
    | none => (.ok r, { s with rows := s.rows ++ [r] })
    | some _ => (.error .noRows, s)

/-- What Redis holds under a key, or that it holds nothing any more. -/
def Stores.setCache (s : Stores) (ck : String) (value : Option Raw) : Stores :=
  { s with cache := Function.update s.cache ck value }

/-- The reply and the effect of a statement that is executed. -/
def Stores.execute (s : Stores) : (o : StoreOp) → o.Rep × Stores
  | .redisGet ck => ((match s.cache ck with
    | some raw => .ok raw
    | none => .error .nil : Except RedisError Raw), s)
  | .redisSet ck value =>
    ((.ok () : Except RedisError Unit), s.setCache ck (some value))
  | .getIdempotencyKey merchantID key => ((match s.row merchantID key with
    | some r => .ok r
    | none => .error .noRows : Except DbError Record), s)
  | .insertIdempotencyKey r => s.insert r

/-- The reply of a statement that reports an error. -/
def StoreOp.failure (msg : String) : (o : StoreOp) → o.Rep
  | .redisGet _ => (.error (.failed msg) : Except RedisError Raw)
  | .redisSet _ _ => (.error (.failed msg) : Except RedisError Unit)
  | .getIdempotencyKey _ _ => (.error (.failed msg) : Except DbError Record)
  | .insertIdempotencyKey _ => (.error (.failed msg) : Except DbError Record)

/-- How a statement ends. -/
inductive Outcome
  | done
  /-- It is executed and its reply is lost. -/
  | lost (msg : String)
  /-- It is not executed. -/
  | failed (msg : String)
  deriving DecidableEq, Repr

/-- The reply and the effect of a statement. -/
def Stores.answer (s : Stores) (o : StoreOp) : Outcome → o.Rep × Stores
  | .done => s.execute o
  | .lost msg => (o.failure msg, (s.execute o).2)
  | .failed msg => (o.failure msg, s)

/-- The statement is executed. -/
def Outcome.executed : Outcome → Bool
  | .done => true
  | .lost _ => true
  | .failed _ => false

/-- One row per merchant and key, and a cache that holds copies of rows. -/
structure Stores.Sound (s : Stores) : Prop where
  unique : (s.rows.map Record.ident).Nodup
  cached : ∀ ck raw, s.cache ck = some raw →
    ∃ r ∈ s.rows, ck = cacheKey r.merchantID r.key ∧ raw = some r.payload

namespace Stores

variable {s : Stores} {r : Record} {m : UUID} {k : String}

theorem row_eq_some (hs : s.Sound) : s.row m k = some r ↔ r ∈ s.rows ∧ r.ident = (m, k) := by
  constructor
  · exact Table.mem_of_find
  · rintro ⟨hr, hk⟩
    rw [row, ← hk]
    exact Table.find_of_mem hs.unique hr

theorem row_eq_none : s.row m k = none ↔ ∀ r ∈ s.rows, r.ident ≠ (m, k) := Table.find_eq_none_iff

/-- An insertion adds its record under a new key, or changes nothing and returns no record. -/
theorem insert_cases (s : Stores) (r : Record) :
    ((∃ err, (s.insert r).1 = .error err) ∧ (s.insert r).2 = s) ∨ s.row r.merchantID r.key = none ∧
      s.insert r = (.ok r, { s with rows := s.rows ++ [r] }) := by
  unfold insert
  split
  · exact .inl ⟨⟨_, rfl⟩, rfl⟩
  · cases h : s.row r.merchantID r.key with
    | none => exact .inr ⟨rfl, rfl⟩
    | some w => exact .inl ⟨⟨_, rfl⟩, rfl⟩

/-- After the insertion of a record with a body the key has a row. -/
theorem exists_row_insert {out : Outcome} (hout : out.executed = true)
    (hbody : r.responseBody ≠ []) :
    ∃ w ∈ (s.answer (.insertIdempotencyKey r) out).2.rows, w.ident = r.ident := by
  have hinsert : ∃ w ∈ (s.insert r).2.rows, w.ident = r.ident := by
    rw [insert, if_neg hbody]
    cases h : s.row r.merchantID r.key with
    | none => exact ⟨r, by simp, rfl⟩
    | some w => exact ⟨w, Table.mem_of_find h⟩
  cases out with
  | done => exact hinsert
  | lost msg => exact hinsert
  | failed msg => cases hout

theorem Sound.insert (hs : s.Sound) (r : Record) : (s.insert r).2.Sound := by
  obtain ⟨-, hsame⟩ | ⟨hnone, hadd⟩ := insert_cases s r
  · rwa [hsame]
  · rw [hadd]
    refine ⟨Table.nodup_map_concat hs.unique (row_eq_none.mp hnone), fun ck raw hraw => ?_⟩
    obtain ⟨a, ha, hrest⟩ := hs.cached ck raw hraw
    exact ⟨a, List.mem_append_left _ ha, hrest⟩

/-- A copy of a row may be cached, and a key may leave the cache at any time. -/
theorem Sound.setCache (hs : s.Sound) {ck : String} {value : Option Raw}
    (h : ∀ raw, value = some raw →
      ∃ r ∈ s.rows, ck = cacheKey r.merchantID r.key ∧ raw = some r.payload) :
    (s.setCache ck value).Sound := by
  refine ⟨hs.unique, fun ck' raw hraw => ?_⟩
  simp only [Stores.setCache] at hraw
  by_cases hck : ck' = ck
  · subst hck
    rw [Function.update_self] at hraw
    exact h raw hraw
  · rw [Function.update_of_ne hck] at hraw
    exact hs.cached ck' raw hraw

/-- No statement removes or rewrites a row. -/
theorem rows_prefix_execute (s : Stores) (o : StoreOp) : s.rows <+: (s.execute o).2.rows := by
  cases o with
  | redisGet ck => exact List.prefix_rfl
  | redisSet ck value => exact List.prefix_rfl
  | getIdempotencyKey m k => exact List.prefix_rfl
  | insertIdempotencyKey r =>
    obtain ⟨-, hsame⟩ | ⟨-, hadd⟩ := insert_cases s r
    · simp [execute, hsame]
    · simp [execute, hadd]

theorem rows_prefix_answer (s : Stores) (o : StoreOp) (out : Outcome) :
    s.rows <+: (s.answer o out).2.rows := by
  cases out with
  | done => exact rows_prefix_execute s o
  | lost msg => exact rows_prefix_execute s o
  | failed msg => exact List.prefix_rfl

@[simp] theorem answer_redisGet_snd (s : Stores) (ck : String) (out : Outcome) :
    (s.answer (.redisGet ck) out).2 = s := by
  cases out <;> rfl

@[simp] theorem answer_get_snd (s : Stores) (m : UUID) (k : String) (out : Outcome) :
    (s.answer (.getIdempotencyKey m k) out).2 = s := by
  cases out <;> rfl

theorem Sound.answer_insert (hs : s.Sound) (r : Record) (out : Outcome) :
    (s.answer (.insertIdempotencyKey r) out).2.Sound := by
  cases out with
  | done => exact hs.insert r
  | lost msg => exact hs.insert r
  | failed msg => exact hs

/-- A value Redis returns is the value it holds. -/
theorem answer_redisGet_ok {ck : String} {out : Outcome} {raw : Raw}
    (h : (s.answer (.redisGet ck) out).1 = (.ok raw : Except RedisError Raw)) :
    s.cache ck = some raw := by
  cases out with
  | lost msg => cases h
  | failed msg => cases h
  | done =>
    cases hc : s.cache ck with
    | none => simp [answer, execute, hc] at h
    | some raw' =>
      simp only [answer, execute, hc] at h
      cases h
      rfl

/-- A row that is returned is the row of the key. -/
theorem answer_get_ok {out : Outcome}
    (h : (s.answer (.getIdempotencyKey m k) out).1 = (.ok r : Except DbError Record)) :
    s.row m k = some r := by
  cases out with
  | lost msg => cases h
  | failed msg => cases h
  | done =>
    cases hrow : s.row m k with
    | none => simp [answer, execute, hrow] at h
    | some r' =>
      simp only [answer, execute, hrow] at h
      cases h
      rfl

/-- No row is returned when there is none. -/
theorem answer_get_noRows {out : Outcome}
    (h : (s.answer (.getIdempotencyKey m k) out).1 = (.error .noRows : Except DbError Record)) :
    out = .done ∧ s.row m k = none := by
  cases out with
  | lost msg => cases h
  | failed msg => cases h
  | done =>
    cases hrow : s.row m k with
    | none => exact ⟨rfl, rfl⟩
    | some r' => simp [answer, execute, hrow] at h

/-- An insertion that returns a row has inserted its record. -/
theorem answer_insert_ok {out : Outcome} {w : Record}
    (h : (s.answer (.insertIdempotencyKey r) out).1 = (.ok w : Except DbError Record)) :
    w = r ∧ r ∈ (s.answer (.insertIdempotencyKey r) out).2.rows := by
  cases out with
  | lost msg => cases h
  | failed msg => cases h
  | done =>
    obtain ⟨⟨err, herr⟩, -⟩ | ⟨-, hadd⟩ := insert_cases s r
    · simp only [answer, execute, herr] at h
      cases h
    · simp only [answer, execute, hadd] at h ⊢
      cases h
      exact ⟨rfl, by simp⟩

/-- An insertion adds no row but its record. -/
theorem mem_answer_insert {out : Outcome} {w : Record}
    (h : w ∈ (s.answer (.insertIdempotencyKey r) out).2.rows) : w ∈ s.rows ∨ w = r := by
  have hinsert : w ∈ (s.insert r).2.rows → w ∈ s.rows ∨ w = r := by
    obtain ⟨-, hsame⟩ | ⟨-, hadd⟩ := insert_cases s r
    · rw [hsame]
      exact .inl
    · rw [hadd]
      simp
  cases out with
  | done => exact hinsert h
  | lost msg => exact hinsert h
  | failed msg => exact .inl h

/-- Only an insertion adds a row. -/
theorem rows_answer {o : StoreOp} (ho : ∀ r, o ≠ .insertIdempotencyKey r) (out : Outcome) :
    (s.answer o out).2.rows = s.rows := by
  cases o with
  | insertIdempotencyKey r => exact absurd rfl (ho r)
  | redisGet ck => cases out <;> rfl
  | redisSet ck value => cases out <;> rfl
  | getIdempotencyKey m k => cases out <;> rfl

end Stores

/-! ## What a program has seen of a row -/

/-- What the replies so far have told about the row of a key. -/
inductive Seen
  | nothing
  /-- The row is this record. -/
  | row (r : Record)
  /-- There was no row. -/
  | noRow
  /-- This record is about to be inserted. -/
  | writing (r : Record)

/-- Which statements a store makes for a key, and what their replies tell. -/
def Seen.next (m : UUID) (k : String) : Seen → (o : StoreOp) → o.Rep → Option Seen
  | .nothing, .redisGet ck, (raw : Except RedisError Raw) =>
    if ck = cacheKey m k then some (match raw with
      | .ok (some p) => .row (p.record m k)
      | _ => .nothing)
    else none
  | .nothing, .getIdempotencyKey m' k', (reply : Except DbError Record) =>
    if m' = m ∧ k' = k then some (match reply with
      | .ok r => .row r
      | .error .noRows => .noRow
      | .error _ => .nothing)
    else none
  | .writing r, .insertIdempotencyKey r', (reply : Except DbError Record) =>
    if r' = r then some (match reply with
      | .ok w => .row w
      | .error _ => .nothing)
    else none
  | .row r, .redisSet ck value, _ =>
    if (ck = cacheKey m k ∨ ck = cacheKey r.merchantID r.key) ∧ value = some r.payload then
      some (.row r)
    else none
  | _, _, _ => none

/-- The statements of a store and what their replies tell, case by case. -/
inductive Seen.Reads (m : UUID) (k : String) : Seen → (o : StoreOp) → o.Rep → Seen → Prop
  | hit (p : CachePayload) : Reads m k .nothing (.redisGet (cacheKey m k))
      (.ok (some p) : Except RedisError Raw) (.row (p.record m k))
  | miss (reply : Except RedisError Raw) :
      Reads m k .nothing (.redisGet (cacheKey m k)) reply .nothing
  | found (r : Record) :
      Reads m k .nothing (.getIdempotencyKey m k) (.ok r : Except DbError Record) (.row r)
  | absent :
      Reads m k .nothing (.getIdempotencyKey m k) (.error .noRows : Except DbError Record) .noRow
  | unread (reply : Except DbError Record) :
      Reads m k .nothing (.getIdempotencyKey m k) reply .nothing
  | inserted (r w : Record) :
      Reads m k (.writing r) (.insertIdempotencyKey r) (.ok w : Except DbError Record) (.row w)
  | conflict (r : Record) (reply : Except DbError Record) :
      Reads m k (.writing r) (.insertIdempotencyKey r) reply .nothing
  | warmed (r : Record) {ck : String} (reply : Except RedisError Unit) :
      ck = cacheKey m k ∨ ck = cacheKey r.merchantID r.key →
      Reads m k (.row r) (.redisSet ck (some r.payload)) reply (.row r)

theorem Seen.reads_of_next {m : UUID} {k : String} {v v' : Seen} {o : StoreOp} {reply : o.Rep}
    (h : v.next m k o reply = some v') : Reads m k v o reply v' := by
  unfold Seen.next at h
  split at h
  · split at h
    case isFalse => cases h
    case isTrue hck =>
      subst hck
      split at h <;> cases h
      · exact .hit _
      · exact .miss _
  · split at h
    case isFalse => cases h
    case isTrue hk =>
      obtain ⟨rfl, rfl⟩ := hk
      split at h <;> cases h
      · exact .found _
      · exact .absent
      · exact .unread _
  · split at h
    case isFalse => cases h
    case isTrue hr =>
      subst hr
      split at h <;> cases h
      · exact .inserted _ _
      · exact .conflict _ _
  · split at h
    case isFalse => cases h
    case isTrue hset =>
      obtain ⟨hck, rfl⟩ := hset
      cases h
      exact .warmed _ _ hck
  · cases h

/-- No statement goes back to a record that is about to be inserted. -/
theorem Seen.next_ne_writing {m : UUID} {k : String} {v v' : Seen} {o : StoreOp} {reply : o.Rep}
    (h : v.next m k o reply = some v') {r : Record} : v' ≠ .writing r := by
  rintro rfl
  cases Seen.reads_of_next h

/-- What has been seen is there. -/
def Seen.Holds (s : Stores) (m : UUID) (k : String) : Seen → Prop
  | .nothing => True
  | .row r => r ∈ s.rows ∧ r.ident = (m, k)
  | .noRow => True
  | .writing r => r.ident = (m, k)

theorem Seen.Holds.mono {s t : Stores} {m : UUID} {k : String} {v : Seen} (h : v.Holds s m k)
    (hst : s.rows <+: t.rows) : v.Holds t m k := by
  cases v with
  | row r => exact ⟨hst.subset h.1, h.2⟩
  | nothing => trivial
  | noRow => trivial
  | writing r => exact h

/-- A statement the protocol allows keeps the tables sound, and what its reply tells is so. -/
theorem Seen.Holds.answer {s : Stores} {m : UUID} {k : String} {out : Outcome} {v v' : Seen}
    {o : StoreOp} (hs : s.Sound) (hv : v.Holds s m k)
    (hnext : v.next m k o (s.answer o out).1 = some v') :
    (s.answer o out).2.Sound ∧ v'.Holds (s.answer o out).2 m k := by
  have hreads := Seen.reads_of_next hnext
  generalize hreply : (s.answer o out).1 = reply at hreads
  cases hreads with
  | hit p =>
    obtain ⟨r, hr, hck, hp⟩ := hs.cached _ _ (Stores.answer_redisGet_ok hreply)
    obtain ⟨rfl, rfl⟩ := cacheKey_inj.mp hck
    cases hp
    rw [Stores.answer_redisGet_snd]
    exact ⟨hs, hr, rfl⟩
  | miss reply =>
    rw [Stores.answer_redisGet_snd]
    exact ⟨hs, trivial⟩
  | found r =>
    rw [Stores.answer_get_snd]
    exact ⟨hs, Table.mem_of_find (Stores.answer_get_ok hreply)⟩
  | absent =>
    rw [Stores.answer_get_snd]
    exact ⟨hs, trivial⟩
  | unread reply =>
    rw [Stores.answer_get_snd]
    exact ⟨hs, trivial⟩
  | inserted r w =>
    obtain ⟨rfl, hmem⟩ := Stores.answer_insert_ok hreply
    exact ⟨hs.answer_insert w out, hmem, hv⟩
  | conflict r reply => exact ⟨hs.answer_insert r out, trivial⟩
  | warmed r reply hck =>
    refine ⟨?_, hv.mono (Stores.rows_prefix_answer _ _ _)⟩
    obtain ⟨hmem, hident⟩ := hv
    obtain ⟨rfl, rfl⟩ := Prod.mk.inj hident
    rw [or_self] at hck
    have hset : (s.setCache _ (some (some r.payload))).Sound :=
      hs.setCache fun raw hraw => ⟨r, hmem, hck, (Option.some_inj.mp hraw).symm⟩
    cases out with
    | done => exact hset
    | lost msg => exact hset
    | failed msg => exact hs

/-- A statement inserts a record, finds out that there is no row, or adds no row. -/
theorem Seen.next_cases {s : Stores} {m : UUID} {k : String} {out : Outcome} {v v' : Seen}
    {o : StoreOp} (h : v.next m k o (s.answer o out).1 = some v') :
    (∃ r, v = .writing r ∧ o = .insertIdempotencyKey r) ∨
      (v = .nothing ∧ o = .getIdempotencyKey m k ∧ out = .done ∧ v' = .noRow ∧
        s.row m k = none) ∨
      (∀ r, v ≠ .writing r) ∧ v' ≠ .noRow ∧ (s.answer o out).2.rows = s.rows := by
  have hreads := Seen.reads_of_next h
  generalize hreply : (s.answer o out).1 = reply at hreads
  cases hreads with
  | inserted r w => exact .inl ⟨r, rfl, rfl⟩
  | conflict r reply => exact .inl ⟨r, rfl, rfl⟩
  | absent =>
    obtain ⟨rfl, hrow⟩ := Stores.answer_get_noRows hreply
    exact .inr (.inl ⟨rfl, rfl, rfl, rfl, hrow⟩)
  | hit p => exact .inr (.inr (by simp))
  | miss reply => exact .inr (.inr (by simp))
  | found r => exact .inr (.inr (by simp))
  | unread reply => exact .inr (.inr (by simp))
  | warmed r reply _ => exact .inr (.inr ⟨by simp, by simp, Stores.rows_answer (by simp) _⟩)

/-! ## What the stores do -/

/-- How `Get` ends. -/
def Seen.GetEnds : Seen → Except GoError Record → Prop
  | .row r, .ok r' => r' = r
  | .noRow, .error err => err = errNotFound
  | .nothing, .error err => isError errNotFound err = false
  | _, _ => False

/-- How `Put` ends. -/
def Seen.PutEnds : Seen → Except GoError (Record × Bool) → Prop
  | .row r, .ok (stored, _) => stored = r
  | .writing _, _ => False
  | _, .ok _ => False
  | _, .error _ => True

/-- What the middleware relies on of a store. -/
structure Store.Lawful (store : Store) : Prop where
  get : ∀ m k, (store.get m k).Obeys (Seen.next m k) Seen.GetEnds .nothing
  put : ∀ r, (store.put r).Obeys (Seen.next r.merchantID r.key) Seen.PutEnds (.writing r)

theorem PGStore.get_obeys (m : UUID) (k : String) :
    (PGStore.get m k).Obeys (Seen.next m k) Seen.GetEnds .nothing := by
  intro (reply : Except DbError Record)
  refine ⟨_, if_pos ⟨rfl, rfl⟩, ?_⟩
  cases reply with
  | ok r => exact rfl
  | error err =>
    cases err with
    | noRows => exact rfl
    | unique => exact rfl
    | failed msg => exact rfl

theorem PGStore.put_obeys (r : Record) :
    (PGStore.put r).Obeys (Seen.next r.merchantID r.key) Seen.PutEnds (.writing r) := by
  intro (reply : Except DbError Record)
  refine ⟨_, if_pos rfl, ?_⟩
  cases reply with
  | ok r => exact rfl
  | error err =>
    cases err with
    | unique => trivial
    | failed msg => trivial
    | noRows =>
      change (((PGStore.get r.merchantID r.key).mapErr _).bind _).Obeys _ _ Seen.nothing
      refine (PGStore.get_obeys _ _).mapErr.bind ?_ ?_
      · rintro v existing ⟨y, hy, hx⟩
        cases y with
        | error err => cases hx
        | ok r' =>
          cases hx
          cases v with
          | row w => exact hy
          | nothing => exact hy
          | noRow => exact hy
          | writing w => exact hy
      · rintro v err ⟨y, hy, -⟩
        cases v with
        | writing w => cases y <;> exact hy
        | row w => trivial
        | nothing => trivial
        | noRow => trivial

theorem newPGStore_lawful : newPGStore.Lawful := ⟨PGStore.get_obeys, PGStore.put_obeys⟩

theorem CachedStore.warm_obeys {m : UUID} {k ck : String} {r : Record}
    (hck : ck = cacheKey m k ∨ ck = cacheKey r.merchantID r.key) :
    (CachedStore.warm ck r).Obeys (Seen.next m k) (fun v x => v = .row r ∧ x = .ok ())
      (.row r) := by
  intro reply
  exact ⟨_, if_pos ⟨hck, rfl⟩, rfl, rfl⟩

theorem CachedStore.get_obeys {inner : Store} (h : inner.Lawful) (m : UUID) (k : String) :
    (CachedStore.get inner m k).Obeys (Seen.next m k) Seen.GetEnds .nothing := by
  have hthrough : ((inner.get m k).bind fun r =>
      (CachedStore.warm (cacheKey m k) r).bind fun _ => .ret r).Obeys (Seen.next m k)
        Seen.GetEnds .nothing := by
    refine (h.get m k).bind (fun v r hv => ?_) fun v err hv => hv
    cases v with
    | row w =>
      obtain rfl : r = w := hv
      refine (CachedStore.warm_obeys (.inl rfl)).bind ?_ ?_
      · rintro v - ⟨rfl, -⟩
        exact rfl
      · rintro v err ⟨-, herr⟩
        cases herr
    | nothing => cases hv
    | noRow => cases hv
    | writing w => cases hv
  intro (reply : Except RedisError Raw)
  cases reply with
  | error err => exact ⟨.nothing, by simp [Seen.next], hthrough⟩
  | ok raw =>
    cases raw with
    | none => exact ⟨.nothing, by simp [Seen.next], hthrough⟩
    | some p => exact ⟨.row (p.record m k), by simp [Seen.next], rfl⟩

theorem CachedStore.put_obeys {inner : Store} (h : inner.Lawful) (r : Record) :
    (CachedStore.put inner r).Obeys (Seen.next r.merchantID r.key) Seen.PutEnds (.writing r) := by
  refine (h.put r).bind ?_ fun v err hv => ?_
  · rintro v ⟨stored, created⟩ hv
    cases v with
    | row w =>
      obtain rfl : stored = w := hv
      refine (CachedStore.warm_obeys (.inr rfl)).bind ?_ ?_
      · rintro v - ⟨rfl, -⟩
        exact rfl
      · rintro v err ⟨-, herr⟩
        cases herr
    | nothing => cases hv
    | noRow => cases hv
    | writing w => cases hv
  · cases v with
    | writing w => cases hv
    | row w => trivial
    | nothing => trivial
    | noRow => trivial

theorem newCachedStore_lawful {inner : Store} (h : inner.Lawful) : (newCachedStore inner).Lawful :=
  ⟨CachedStore.get_obeys h, CachedStore.put_obeys h⟩

end Selatpay.Idempotency
