import Selatpay.Core.Program
import Selatpay.Core.Table
import Selatpay.Core.Trace
import Selatpay.Core.Turns
import Selatpay.Data.Uuid

/-!
# The bank stub

`mockidrbank` answers `POST /payouts` and replays the first answer of an
`X-Idempotency-Key`. Looking the key up, deciding and storing the answer are three
steps, and the mutex covers the first and the last one alone. Requests interleave
at these steps.
-/

namespace Selatpay.MockBank

/-- The bytes of a request body. -/
abbrev Bytes := List UInt8

/-- The fields of `submitRequest` that an answer depends on. -/
structure SubmitRequest where
  amountIDR : Int
  accountNumber : String
  deriving DecidableEq, Repr

/-- `submitResponse`. -/
structure SubmitResponse where
  reference : String
  status : String
  message : String
  deriving DecidableEq, Repr

/-- `cachedResponse`. -/
structure CachedResponse where
  statusCode : Nat
  body : String
  deriving DecidableEq, Repr

/-- What a caller receives. -/
structure Response where
  contentType : String
  statusCode : Nat
  body : String
  deriving DecidableEq, Repr

/-- A request to `/payouts`. -/
structure Request where
  method : String
  /-- The header `X-Idempotency-Key`, empty when it is absent. -/
  idempotencyKey : String
  /-- The query parameter `fail`, empty when it is absent. -/
  fail : String
  /-- The body, or the error of reading it. -/
  body : Except String Bytes
  deriving DecidableEq

/-- How `json.Marshal` writes a character of a string. -/
def jsonChar (c : Char) : String :=
  if c = '"' then "\\\"" else if c = '\\' then "\\\\"
  else if c = '\x08' then "\\b" else if c = '\x0c' then "\\f"
  else if c = '\n' then "\\n" else if c = '\r' then "\\r" else if c = '\t' then "\\t"
  else if c.toNat < 0x20 ∨ c = '<' ∨ c = '>' ∨ c = '&' ∨ c.toNat = 0x2028 ∨ c.toNat = 0x2029 then
    "\\u" ++ String.ofList (hexDigits 4 c.toNat)
  else c.toString

/-- How `json.Marshal` writes a string. -/
def jsonString (s : String) : String := "\"" ++ String.join (s.toList.map jsonChar) ++ "\""

/-- `json.Marshal` of a `submitResponse`, with an empty message left out. -/
def SubmitResponse.marshal (r : SubmitResponse) : String :=
  "\x7b\"reference\":" ++ jsonString r.reference ++ ",\"status\":" ++ jsonString r.status ++
    (if r.message = "" then "" else ",\"message\":" ++ jsonString r.message) ++ "\x7d"

/-- `server.decide`, with the identifier it draws. -/
def decide (newString : UUID) (fail : String) (req : SubmitRequest) : Nat × SubmitResponse :=
  if fail = "retry" then (503, ⟨"", "retryable", "downstream temporarily unavailable"⟩)
  else if fail = "permanent" then (422, ⟨"", "rejected", "account closed"⟩)
  else (200, ⟨"MIDR-" ++ newString.text, "succeeded",
    "paid " ++ toString req.amountIDR ++ " IDR to " ++ req.accountNumber⟩)

/-- The steps of a request that concern others, and the decision. -/
inductive Op
  | lookup (key : String)
  | decide (fail : String) (req : SubmitRequest)
  | store (key : String) (v : CachedResponse)

/-- Their replies. -/
def Op.Rep : Op → Type
  | .lookup _ => Option CachedResponse
  | .decide _ _ => Nat × SubmitResponse
  | .store _ _ => Unit

/-- Programs of the server. -/
abbrev ServerM := Prog Op.Rep Empty

/-- `http.Error`. -/
def httpError (msg : String) (statusCode : Nat) : Response :=
  ⟨"text/plain; charset=utf-8", statusCode, msg ++ "\n"⟩

/-- `server.write`. -/
def write (statusCode : Nat) (body : String) : Response := ⟨"application/json", statusCode, body⟩

/-- Reading and decoding the body; an empty one is the zero request. -/
def Request.parse (unmarshal : Bytes → Except String SubmitRequest) (r : Request) :
    Except String SubmitRequest :=
  match r.body with
  | .error err => .error ("read body: " ++ err)
  | .ok body =>
    let body := body.take (2 ^ 20)
    if body.length > 0 then match unmarshal body with
      | .error err => .error ("decode body: " ++ err)
      | .ok req => .ok req
    else .ok ⟨0, ""⟩

/-- The end of `handlePayouts` once it has decided. -/
def storeAndWrite (key : String) (statusCode : Nat) (respBytes : String) : ServerM Response :=
  .call (.store key ⟨statusCode, respBytes⟩) fun _ => .ret (write statusCode respBytes)

/-- The part of `handlePayouts` from the decision on. -/
def decideAndStore (r : Request) (req : SubmitRequest) : ServerM Response :=
  .call (.decide r.fail req) fun (decision : Nat × SubmitResponse) =>
    storeAndWrite r.idempotencyKey decision.1 decision.2.marshal

/-- `handlePayouts` after the lookup. -/
def afterLookup (unmarshal : Bytes → Except String SubmitRequest) (r : Request) :
    Option CachedResponse → ServerM Response
  | some cached => .ret (write cached.statusCode cached.body)
  | none => match r.parse unmarshal with
    | .error msg => .ret (httpError msg 400)
    | .ok req => decideAndStore r req

/-- `server.handlePayouts`. -/
def handlePayouts (unmarshal : Bytes → Except String SubmitRequest) (r : Request) :
    ServerM Response :=
  if r.method ≠ "POST" then .ret (httpError "method not allowed" 405)
  else if r.idempotencyKey = "" then .ret (httpError "X-Idempotency-Key header required" 400)
  else .call (.lookup r.idempotencyKey) (afterLookup unmarshal r)

/-! ## Requests in flight -/

/-- A request and how far it has come. -/
structure Exchange where
  request : Request
  prog : ServerM Response
  /-- How often `decide` was invoked for it. -/
  decided : Nat

/-- The key a request carries. -/
def Exchange.key (x : Exchange) : String := x.request.idempotencyKey

/-- The cache of the server and the requests that have arrived. -/
structure World where
  cache : String → Option CachedResponse
  exchanges : List Exchange

/-- A server that has just started. -/
def World.init : World := ⟨fun _ => none, []⟩

/-- What can happen. -/
inductive Event
  | arrive (r : Request)
  /-- A request takes its next step; a decision draws the identifier. -/
  | call (n : Nat) (newString : UUID)

/-- The next step of a request. -/
def Exchange.answer (x : Exchange) (cache : String → Option CachedResponse) (newString : UUID) :
    Option (Exchange × (String → Option CachedResponse)) :=
  match x.prog with
  | .call (.lookup key) k => some ({ x with prog := k (cache key) }, cache)
  | .call (.decide fail req) k => some ({ x with
      prog := k (decide newString fail req)
      decided := x.decided + 1 }, cache)
  | .call (.store key v) k =>
    some ({ x with prog := k () }, Function.update cache key (some v))
  | .ret _ => none

/-- The step function. -/
def step (unmarshal : Bytes → Except String SubmitRequest) (s : World) : Event → Option World
  | .arrive r => some { s with exchanges := s.exchanges ++ [⟨r, handlePayouts unmarshal r, 0⟩] }
  | .call n newString => match s.exchanges[n]? with
    | none => none
    | some x => match x.answer s.cache newString with
      | none => none
      | some (x', cache) => some ⟨cache, s.exchanges.set n x'⟩

/-- A POST with a key and a body that can be read and decoded. -/
def Request.WellFormed (unmarshal : Bytes → Except String SubmitRequest) (r : Request) : Prop :=
  r.method = "POST" ∧ r.idempotencyKey ≠ "" ∧ (r.parse unmarshal).isOk = true

instance (unmarshal : Bytes → Except String SubmitRequest) (r : Request) :
    Decidable (r.WellFormed unmarshal) := inferInstanceAs (Decidable (_ ∧ _))

/-- The request is about to decide, or to store its answer. -/
def Exchange.InTurn (x : Exchange) : Prop :=
  match x.prog with
  | .call (.decide _ _) _ => True
  | .call (.store _ _) _ => True
  | _ => False

/-- What the request was answered with. -/
def Exchange.response (x : Exchange) : Option Response :=
  match x.prog with
  | .ret response => some response
  | _ => none

/-- A lookup for a well-formed request finds nothing only while no other request of the key is
between such a lookup and its store. -/
def TakesTurns (unmarshal : Bytes → Except String SubmitRequest) (s : World) : Event → Prop
  | .arrive _ => True
  | .call n _ => ∀ x ∈ s.exchanges[n]?, match x.prog with
    | .call (.lookup key) _ => s.cache key = none → x.request.WellFormed unmarshal →
        ∀ y ∈ s.exchanges, y.key = key → ¬ y.InTurn
    | _ => True

instance (x : Exchange) : Decidable x.InTurn := by
  unfold Exchange.InTurn
  split <;> infer_instance

instance (unmarshal : Bytes → Except String SubmitRequest) (s : World) (e : Event) :
    Decidable (TakesTurns unmarshal s e) := by
  unfold TakesTurns
  split
  · infer_instance
  · refine @Option.decidableForallMem _ _ (fun x => ?_) _
    split <;> infer_instance

/-! ## The stages of a request -/

/-- How far a request has come. -/
inductive Stage
  | looking
  | deciding (req : SubmitRequest)
  | storing (v : CachedResponse)
  | answered (response : Response)

/-- What is left of `handlePayouts` at a stage. -/
def Stage.prog (unmarshal : Bytes → Except String SubmitRequest) (r : Request) :
    Stage → ServerM Response
  | .looking => .call (.lookup r.idempotencyKey) (afterLookup unmarshal r)
  | .deciding req => decideAndStore r req
  | .storing v => storeAndWrite r.idempotencyKey v.statusCode v.body
  | .answered response => .ret response

/-- What a stage says about its request. -/
def Stage.Facts (unmarshal : Bytes → Except String SubmitRequest)
    (cache : String → Option CachedResponse) (x : Exchange) : Stage → Prop
  | .looking => x.request.method = "POST" ∧ x.key ≠ "" ∧ x.decided = 0
  | .deciding _ => x.request.WellFormed unmarshal ∧ x.decided = 0
  | .storing _ => x.request.WellFormed unmarshal ∧ x.decided = 1
  | .answered response => x.decided ≤ 1 ∧ (x.request.WellFormed unmarshal →
      ∃ v, cache x.key = some v ∧ response = write v.statusCode v.body)

/-- The request is at the stage. -/
structure Exchange.At (unmarshal : Bytes → Except String SubmitRequest)
    (cache : String → Option CachedResponse) (x : Exchange) (stage : Stage) : Prop where
  prog : x.prog = stage.prog unmarshal x.request
  facts : stage.Facts unmarshal cache x

/-- The request has entered the turn of its key. -/
def Exchange.Entered (x : Exchange) : Prop := x.InTurn ∨ 0 < x.decided

/-- What a step of a request does, as far as its key is concerned. -/
inductive Move (unmarshal : Bytes → Except String SubmitRequest)
    (cache : String → Option CachedResponse) (x : Exchange) :
    Exchange → (String → Option CachedResponse) → Prop
  /-- It is answered without a decision of its own. -/
  | reply {x' : Exchange} : ¬ x'.Entered → Move unmarshal cache x x' cache
  /-- It finds nothing and goes on to decide. -/
  | enter {x' : Exchange} {k : Option CachedResponse → ServerM Response} :
      x.prog = .call (.lookup x.key) k → cache x.key = none → x.request.WellFormed unmarshal →
      x'.InTurn → Move unmarshal cache x x' cache
  | decide {x' : Exchange} : x.InTurn → x'.InTurn → Move unmarshal cache x x' cache
  | store {x' : Exchange} {v : CachedResponse} : x.InTurn → ¬ x'.InTurn → 0 < x'.decided →
      Move unmarshal cache x x' (Function.update cache x.key (some v))

section Steps

variable {unmarshal : Bytes → Except String SubmitRequest}
  {cache cache' : String → Option CachedResponse} {x x' : Exchange} {stage : Stage}
  {newString : UUID}

/-- A request that has just arrived looks its key up, or has been turned away. -/
theorem exists_at_arrive (r : Request) :
    ∃ stage, Exchange.At unmarshal cache ⟨r, handlePayouts unmarshal r, 0⟩ stage ∧
      ¬ Exchange.Entered ⟨r, handlePayouts unmarshal r, 0⟩ := by
  unfold handlePayouts
  by_cases hmethod : r.method = "POST"
  · by_cases hkey : r.idempotencyKey = ""
    · refine ⟨.answered (httpError "X-Idempotency-Key header required" 400), ⟨?_, ?_⟩, ?_⟩
      · simp [hmethod, hkey, Stage.prog]
      · exact ⟨by simp, fun hwf => absurd hkey hwf.2.1⟩
      · simp [Exchange.Entered, Exchange.InTurn, hmethod, hkey]
    · refine ⟨.looking, ⟨?_, hmethod, hkey, rfl⟩, ?_⟩
      · simp [hmethod, hkey, Stage.prog]
      · simp [Exchange.Entered, Exchange.InTurn, hmethod, hkey]
  · refine ⟨.answered (httpError "method not allowed" 405), ⟨?_, ?_⟩, ?_⟩
    · simp [hmethod, Stage.prog]
    · exact ⟨by simp, fun hwf => absurd hwf.1 hmethod⟩
    · simp [Exchange.Entered, Exchange.InTurn, hmethod]

/-- A request that finds its key answers from the cache, turns a malformed body away, or goes on
to decide. -/
theorem Exchange.At.looked (hx : x.At unmarshal cache .looking)
    (h : x' = { x with prog := afterLookup unmarshal x.request (cache x.key) }) :
    (∃ stage', x'.At unmarshal cache stage') ∧ Move unmarshal cache x x' cache := by
  obtain ⟨hprog, hmethod, hkey, hdecided⟩ := hx
  subst h
  cases hcache : cache x.key with
  | some v =>
    refine ⟨⟨.answered (write v.statusCode v.body), rfl, ?_⟩, .reply ?_⟩
    · exact ⟨by simp [hdecided], fun _ => ⟨v, hcache, rfl⟩⟩
    · simp [Exchange.Entered, Exchange.InTurn, afterLookup, hdecided]
  | none =>
    cases hparse : x.request.parse unmarshal with
    | error msg =>
      have hmalformed : ¬ x.request.WellFormed unmarshal := by
        simp [Request.WellFormed, hparse, Except.isOk, Except.toBool]
      refine ⟨⟨.answered (httpError msg 400), ?_, ?_⟩, .reply ?_⟩
      · simp [afterLookup, hparse, Stage.prog]
      · exact ⟨by simp [hdecided], fun hwf => absurd hwf hmalformed⟩
      · simp [Exchange.Entered, Exchange.InTurn, afterLookup, hparse, hdecided]
    | ok req =>
      have hwf : x.request.WellFormed unmarshal :=
        ⟨hmethod, hkey, by simp [hparse, Except.isOk, Except.toBool]⟩
      refine ⟨⟨.deciding req, ?_, hwf, hdecided⟩, .enter hprog hcache hwf ?_⟩
      · simp [afterLookup, hparse, Stage.prog]
      · simp [Exchange.InTurn, afterLookup, hparse, decideAndStore]

/-- Where a step leads, and what it does to the turns. -/
theorem Exchange.At.answer (hx : x.At unmarshal cache stage)
    (h : x.answer cache newString = some (x', cache')) :
    x'.request = x.request ∧ (∃ stage', x'.At unmarshal cache' stage') ∧
      Move unmarshal cache x x' cache' := by
  obtain ⟨hprog, hfacts⟩ := id hx
  unfold Exchange.answer at h
  cases stage with
  | looking =>
    simp only [hprog, Stage.prog, Option.some.injEq, Prod.mk.injEq] at h
    obtain ⟨hx', rfl⟩ := h
    exact ⟨by rw [← hx'], hx.looked hx'.symm⟩
  | deciding req =>
    simp only [hprog, Stage.prog, decideAndStore, Option.some.injEq, Prod.mk.injEq] at h
    obtain ⟨rfl, rfl⟩ := h
    obtain ⟨hwf, hdecided⟩ := hfacts
    refine ⟨rfl, ⟨.storing ⟨(decide newString x.request.fail req).1,
      (decide newString x.request.fail req).2.marshal⟩, rfl, hwf, by simp [hdecided]⟩,
      .decide ?_ ?_⟩
    · simp [Exchange.InTurn, hprog, Stage.prog, decideAndStore]
    · simp [Exchange.InTurn, storeAndWrite]
  | storing v =>
    simp only [hprog, Stage.prog, storeAndWrite, Option.some.injEq, Prod.mk.injEq] at h
    obtain ⟨rfl, rfl⟩ := h
    obtain ⟨hwf, hdecided⟩ := hfacts
    refine ⟨rfl, ⟨.answered (write v.statusCode v.body), rfl, by simp [hdecided], fun _ => ?_⟩,
      .store ?_ ?_ ?_⟩
    · exact ⟨v, by simp [Exchange.key], rfl⟩
    · simp [Exchange.InTurn, hprog, Stage.prog, storeAndWrite]
    · simp [Exchange.InTurn]
    · simp [hdecided]
  | answered response => simp [hprog, Stage.prog] at h

/-- Answers that are cached stay, so what a stage says stays. -/
theorem Exchange.At.mono (hx : x.At unmarshal cache stage)
    (hgrow : ∀ v, cache x.key = some v → cache' x.key = some v) :
    x.At unmarshal cache' stage := by
  refine ⟨hx.prog, ?_⟩
  have hfacts := hx.facts
  cases stage with
  | answered response =>
    refine ⟨hfacts.1, fun hwf => ?_⟩
    obtain ⟨v, hv, hresponse⟩ := hfacts.2 hwf
    exact ⟨v, hgrow v hv, hresponse⟩
  | looking => exact hfacts
  | deciding req => exact hfacts
  | storing v => exact hfacts

end Steps

/-! ## One decision per key -/

/-- Every request is at a stage, turns are taken in order, and a key is free during its turn. -/
structure Inv (unmarshal : Bytes → Except String SubmitRequest) (s : World) : Prop where
  stages : ∀ x ∈ s.exchanges, ∃ stage, x.At unmarshal s.cache stage
  order : InOrder Exchange.key Exchange.InTurn Exchange.Entered (fun k => s.cache k ≠ none)
    s.exchanges
  free : ∀ x ∈ s.exchanges, x.InTurn → s.cache x.key = none

section Runs

variable {unmarshal : Bytes → Except String SubmitRequest} {s t : World} {e : Event}

theorem Inv.init : Inv unmarshal .init := ⟨by simp [World.init], .nil, by simp [World.init]⟩

/-- The cache is only added to. -/
theorem Move.grows {cache cache' : String → Option CachedResponse} {x x' : Exchange}
    (h : Move unmarshal cache x x' cache') (hfree : x.InTurn → cache x.key = none) {k : String}
    {v : CachedResponse} (hv : cache k = some v) : cache' k = some v := by
  cases h with
  | store hturn _ _ =>
    have hne : k ≠ x.key := by
      rintro rfl
      rw [hfree hturn] at hv
      cases hv
    rwa [Function.update_of_ne hne]
  | reply _ => exact hv
  | enter _ _ _ _ => exact hv
  | decide _ _ => exact hv

/-- A step of one request keeps the turns in order. -/
theorem Inv.order_move (hs : Inv unmarshal s) {n : Nat} {newString : UUID} {x x' : Exchange}
    {cache : String → Option CachedResponse}
    (hok : TakesTurns unmarshal s (.call n newString)) (hx : s.exchanges[n]? = some x)
    (hrequest : x'.request = x.request) (hmove : Move unmarshal s.cache x x' cache) :
    InOrder Exchange.key Exchange.InTurn Exchange.Entered (fun k => cache k ≠ none)
      (s.exchanges.set n x') := by
  have hmem : x ∈ s.exchanges := List.mem_of_getElem? hx
  have hkey : x'.key = x.key := by simp [Exchange.key, hrequest]
  have hgrow : ∀ k, s.cache k ≠ none → cache k ≠ none := by
    intro k hk
    obtain ⟨v, hv⟩ := Option.ne_none_iff_exists'.mp hk
    rw [hmove.grows (hs.free x hmem) hv]
    simp
  refine hs.order.move hgrow hx hkey (fun hentered hturn => ?_) fun hentered => ?_
  · cases hmove with
    | reply hnot => exact absurd hentered hnot
    | enter _ _ _ hturn' => exact absurd hturn' hturn
    | decide _ hturn' => exact absurd hturn' hturn
    | store _ _ _ => simp
  · cases hmove with
    | reply hnot => exact absurd hentered hnot
    | decide hturn _ => exact .inl (.inl hturn)
    | store hturn _ _ => exact .inl (.inl hturn)
    | enter hprog hnone hwf _ =>
      have hfree := hok x hx
      simp only [hprog] at hfree
      exact .inr ⟨by simp [hnone], hfree hnone hwf⟩

/-- A key stays free while one of its requests is in its turn. -/
theorem Inv.free_move (hs : Inv unmarshal s) {n : Nat} {x x' y : Exchange}
    {cache : String → Option CachedResponse} (hx : s.exchanges[n]? = some x)
    (hrequest : x'.request = x.request) (hmove : Move unmarshal s.cache x x' cache)
    (horder : InOrder Exchange.key Exchange.InTurn Exchange.Entered (fun k => cache k ≠ none)
      (s.exchanges.set n x'))
    (hy : y ∈ s.exchanges.set n x') (hturn : y.InTurn) : cache y.key = none := by
  have hmem : x ∈ s.exchanges := List.mem_of_getElem? hx
  have hkey : x'.key = x.key := by simp [Exchange.key, hrequest]
  have hfree (hnew : x'.InTurn → s.cache x'.key = none) : s.cache y.key = none :=
    Table.forall_mem_set hs.free hnew n y hy hturn
  cases hmove with
  | reply hnot => exact hfree fun hturn' => absurd (.inl hturn') hnot
  | enter _ hnone _ _ => exact hfree fun _ => hkey ▸ hnone
  | decide hturn' _ => exact hfree fun _ => hkey ▸ hs.free x hmem hturn'
  | store hturn' hover hdecided =>
    have hne : y.key ≠ x.key := by
      intro hsame
      have hlt : n < s.exchanges.length := (List.getElem?_eq_some_iff.mp hx).1
      have hself : (s.exchanges.set n x')[n]? = some x' := List.getElem?_set_self hlt
      obtain ⟨i, hi⟩ := List.mem_iff_getElem?.mp hy
      obtain rfl : i = n := horder.once i n y x' hi hself (hsame.trans hkey.symm)
        (.inl hturn) (.inr hdecided)
      rw [hself] at hi
      exact hover (Option.some_inj.mp hi ▸ hturn)
    rw [Function.update_of_ne hne]
    exact hfree fun hturn' => absurd hturn' hover

theorem inv_step (hs : Inv unmarshal s) (hok : TakesTurns unmarshal s e)
    (h : step unmarshal s e = some t) : Inv unmarshal t := by
  cases e with
  | arrive r =>
    cases h
    obtain ⟨stage, hat, hnot⟩ : ∃ stage, Exchange.At unmarshal s.cache
        ⟨r, handlePayouts unmarshal r, 0⟩ stage ∧ _ := exists_at_arrive r
    exact ⟨Table.forall_mem_concat hs.stages ⟨stage, hat⟩, hs.order.arrive hnot,
      Table.forall_mem_concat hs.free fun hturn => absurd (.inl hturn) hnot⟩
  | call n newString =>
    simp only [step] at h
    cases hx : s.exchanges[n]? with
    | none => simp [hx] at h
    | some x =>
      cases hanswer : x.answer s.cache newString with
      | none => simp [hx, hanswer] at h
      | some next =>
        obtain ⟨x', cache⟩ := next
        simp only [hx, hanswer, Option.some.injEq] at h
        subst h
        have hmem : x ∈ s.exchanges := List.mem_of_getElem? hx
        obtain ⟨stage, hat⟩ := hs.stages x hmem
        obtain ⟨hrequest, hat', hmove⟩ := hat.answer hanswer
        have horder := hs.order_move hok hx hrequest hmove
        refine ⟨Table.forall_mem_set (fun y hy => ?_) ?_ n, horder,
          fun y => hs.free_move hx hrequest hmove horder⟩
        · obtain ⟨stage', hat''⟩ := hs.stages y hy
          exact ⟨stage', hat''.mono fun v => hmove.grows (hs.free x hmem)⟩
        · exact hat'

/-- `decide` was invoked for at most one request of the key, and for that one once. -/
def DecidesOnce (s : World) (key : String) : Prop :=
  (∀ x ∈ s.exchanges, x.key = key → x.decided ≤ 1) ∧
    ∀ (i j : Nat) (x y : Exchange), s.exchanges[i]? = some x → s.exchanges[j]? = some y →
      x.key = key → y.key = key → 0 < x.decided → 0 < y.decided → i = j

/-- A well-formed request that was answered has received the cached answer of its key. -/
theorem Inv.response_eq (hs : Inv unmarshal s) {x : Exchange} (hx : x ∈ s.exchanges)
    (hwf : x.request.WellFormed unmarshal) {response : Response}
    (h : x.response = some response) :
    ∃ v, s.cache x.key = some v ∧ response = write v.statusCode v.body := by
  obtain ⟨stage, hprog, hfacts⟩ := hs.stages x hx
  unfold Exchange.response at h
  cases stage with
  | answered response' =>
    simp only [hprog, Stage.prog, Option.some.injEq] at h
    exact h ▸ hfacts.2 hwf
  | looking => simp [hprog, Stage.prog] at h
  | deciding req => simp [hprog, Stage.prog, decideAndStore] at h
  | storing v => simp [hprog, Stage.prog, storeAndWrite] at h

/-- `decide` is invoked at most once for a request. -/
theorem Inv.decided_le_one (hs : Inv unmarshal s) {x : Exchange} (hx : x ∈ s.exchanges) :
    x.decided ≤ 1 := by
  obtain ⟨stage, -, hfacts⟩ := hs.stages x hx
  cases stage with
  | looking => exact hfacts.2.2.le.trans (Nat.zero_le 1)
  | deciding req => exact hfacts.2.le.trans (Nat.zero_le 1)
  | storing v => exact hfacts.2.le
  | answered response => exact hfacts.1

/-- As long as turns are taken one after the other, all well-formed requests of a key that have
been answered received the same response, and `decide` was invoked at most once for the key. -/
theorem one_decision_per_key {es : List Event}
    (h : Path (step unmarshal) (TakesTurns unmarshal) .init es s) (key : String) :
    (∀ x ∈ s.exchanges, ∀ y ∈ s.exchanges, x.key = key → y.key = key →
      x.request.WellFormed unmarshal → y.request.WellFormed unmarshal →
      ∀ a ∈ x.response, ∀ b ∈ y.response, a = b) ∧ DecidesOnce s key := by
  have hs : Inv unmarshal s := h.invariant (fun _ _ _ => inv_step) .init
  refine ⟨?_, fun x hx _ => hs.decided_le_one hx, ?_⟩
  · intro x hx y hy hxkey hykey hxwf hywf a ha b hb
    obtain ⟨v, hv, rfl⟩ := hs.response_eq hx hxwf ha
    obtain ⟨w, hw, rfl⟩ := hs.response_eq hy hywf hb
    rw [hxkey] at hv
    rw [hykey, hv] at hw
    cases hw
    rfl
  · intro i j x y hi hj hxkey hykey hx hy
    exact hs.order.once i j x y hi hj (hxkey.trans hykey.symm) (.inr hx) (.inr hy)

end Runs

/-- A decoder that reads every body as one request. -/
def fixedRequest (_ : Bytes) : Except String SubmitRequest := .ok ⟨15000, "0011223344"⟩

/-- A payout request with the key `payout-1`. -/
def submitting (fail : String) : Request := ⟨"POST", "payout-1", fail, .ok [123, 125]⟩

/-- A request runs to its end and is repeated with another fail mode. -/
def repeated : List Event :=
  [.arrive (submitting ""), .call 0 1, .call 0 1, .call 0 1,
    .arrive (submitting "permanent"), .call 1 2]

theorem one_decision_per_key_repeated : ∃ s x y a b,
    Path (step fixedRequest) (TakesTurns fixedRequest) .init repeated s ∧ x ∈ s.exchanges[0]? ∧
      y ∈ s.exchanges[1]? ∧ a ∈ x.response ∧ b ∈ y.response ∧ a.statusCode = 200 ∧ a = b ∧
      DecidesOnce s "payout-1" := by
  obtain ⟨s, hs, x, hx, y, hy, a, ha, b, hb, hstatus, hxkey, hykey, hxwf, hywf⟩ : ∃ s,
      runIf (step fixedRequest) (TakesTurns fixedRequest) .init repeated = some s ∧
        ∃ x ∈ s.exchanges[0]?, ∃ y ∈ s.exchanges[1]?, ∃ a ∈ x.response, ∃ b ∈ y.response,
          a.statusCode = 200 ∧ x.key = "payout-1" ∧ y.key = "payout-1" ∧
          x.request.WellFormed fixedRequest ∧ y.request.WellFormed fixedRequest :=
    exists_of_any (by decide +kernel)
  obtain ⟨hsame, honce⟩ := one_decision_per_key (.of_runIf hs) "payout-1"
  exact ⟨s, x, y, a, b, .of_runIf hs, hx, hy, ha, hb, hstatus,
    hsame x (List.mem_of_getElem? hx) y (List.mem_of_getElem? hy) hxkey hykey hxwf hywf a ha b hb,
    honce⟩

/-- Two requests with one key look it up before either has stored its answer. -/
def raced : List Event :=
  [.arrive (submitting ""), .arrive (submitting ""), .call 0 0, .call 1 0,
    .call 0 1, .call 1 2, .call 0 0, .call 1 0]

/-- Both decide, and the two callers receive different references. -/
theorem raced_decides_twice : ∃ s, run (step fixedRequest) .init raced = some s ∧
    ∃ x ∈ s.exchanges[0]?, ∃ y ∈ s.exchanges[1]?, x.key = "payout-1" ∧ y.key = "payout-1" ∧
      x.request.WellFormed fixedRequest ∧ y.request.WellFormed fixedRequest ∧
      x.decided = 1 ∧ y.decided = 1 ∧ ∃ a ∈ x.response, ∃ b ∈ y.response,
        a.statusCode = 200 ∧ b.statusCode = 200 ∧ a.body ≠ b.body :=
  exists_of_any (by decide +kernel)

end Selatpay.MockBank
