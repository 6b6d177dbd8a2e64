import Selatpay.Idempotency.Store

/-!
# The idempotency middleware

A request with an `Idempotency-Key` looks its record up, and either gets the
recorded response again or runs the wrapped handler behind a `captureWriter` and
stores what was captured. The handler is arbitrary: a run of it is the list of
calls it makes on its response writer. `Phase` is how far a request has come, as
far as the other requests can be concerned with it.
-/

namespace Selatpay.Idempotency

/-! ## Response writers -/

/-- `http.StatusOK`. -/
def statusOK : Status := ⟨200, by decide⟩

/-- `http.StatusBadRequest`. -/
def statusBadRequest : Status := ⟨400, by decide⟩

/-- `http.StatusUnauthorized`. -/
def statusUnauthorized : Status := ⟨401, by decide⟩

/-- `http.StatusConflict`. -/
def statusConflict : Status := ⟨409, by decide⟩

/-- `http.StatusInternalServerError`. -/
def statusInternalServerError : Status := ⟨500, by decide⟩

/-- A status sent ahead of the final one. -/
def Status.informational (s : Status) : Bool := s.code ≤ 199 && s.code ≠ 101

/-- `bodyAllowedForStatus` of `net/http`. -/
def Status.bodyAllowed (s : Status) : Bool := 200 ≤ s.code && s.code ≠ 204 && s.code ≠ 304

/-- What a handler does to its response writer. -/
inductive WriterCall
  | setHeader (name value : String)
  | writeHeader (status : Status)
  | write (p : Bytes)
  deriving DecidableEq, Repr

/-- The server's response writer: what the caller receives. -/
structure ResponseWriter where
  header : List (String × String)
  /-- The final status, once it is sent. -/
  sent : Option Status
  body : Bytes
  deriving DecidableEq, Repr

/-- Nothing is written yet. -/
def ResponseWriter.fresh : ResponseWriter := ⟨[], none, []⟩

/-- The status the caller sees. -/
def ResponseWriter.status (w : ResponseWriter) : Status := w.sent.getD statusOK

/-- `WriteHeader`: the first status that is not informational is final. -/
def ResponseWriter.writeHeader (w : ResponseWriter) (status : Status) : ResponseWriter :=
  if w.sent.isSome || status.informational then w else { w with sent := some status }

/-- `Write`, with its implicit `WriteHeader(200)`. -/
def ResponseWriter.write (w : ResponseWriter) (p : Bytes) : ResponseWriter :=
  let w := w.writeHeader statusOK
  if w.status.bodyAllowed then { w with body := w.body ++ p } else w

/-- One call of a handler. -/
def ResponseWriter.call (w : ResponseWriter) : WriterCall → ResponseWriter
  | .setHeader name value =>
    if w.sent.isSome then w
    else { w with header := (name, value) :: w.header.filter fun h => h.1 ≠ name }
  | .writeHeader status => w.writeHeader status
  | .write p => w.write p

/-- All calls of a handler. -/
def ResponseWriter.calls (w : ResponseWriter) (calls : List WriterCall) : ResponseWriter :=
  calls.foldl ResponseWriter.call w

/-- `captureWriter`. -/
structure CaptureWriter where
  responseWriter : ResponseWriter
  status : Status
  wroteHeader : Bool
  buf : Bytes
  deriving DecidableEq, Repr

/-- `captureWriter.WriteHeader`. -/
def CaptureWriter.writeHeader (c : CaptureWriter) (status : Status) : CaptureWriter :=
  if c.wroteHeader then c
  else { c with
    status := status
    wroteHeader := true
    responseWriter := c.responseWriter.writeHeader status }

/-- `captureWriter.Write`. -/
def CaptureWriter.write (c : CaptureWriter) (p : Bytes) : CaptureWriter :=
  let c := if c.wroteHeader then c else c.writeHeader statusOK
  { c with buf := c.buf ++ p, responseWriter := c.responseWriter.write p }

/-- One call of a handler on a `captureWriter`. -/
def CaptureWriter.call (c : CaptureWriter) : WriterCall → CaptureWriter
  | .setHeader name value =>
    { c with responseWriter := c.responseWriter.call (.setHeader name value) }
  | .writeHeader status => c.writeHeader status
  | .write p => c.write p

/-- The `captureWriter` around a response after the calls of a handler. -/
def capture (w : ResponseWriter) (calls : List WriterCall) : CaptureWriter :=
  calls.foldl CaptureWriter.call ⟨w, statusOK, false, []⟩

/-- `http.Error`. -/
def httpError (msg : String) (status : Status) : List WriterCall :=
  [.setHeader "Content-Type" "text/plain; charset=utf-8",
    .setHeader "X-Content-Type-Options" "nosniff", .writeHeader status,
    .write (msg ++ "\n").toUTF8.toList]

/-- How a recorded response is replayed. -/
def replay (r : Record) : List WriterCall :=
  [.setHeader "Idempotent-Replay" "true", .writeHeader r.statusCode, .write r.responseBody]

/-! ## A replay looks like the captured response -/

/-- The final status of a response that was given this one. -/
def Status.settled (s : Status) : Status := if s.informational then statusOK else s

/-- What the capture knows of the response behind it. -/
structure CaptureWriter.Faithful (c : CaptureWriter) : Prop where
  unwritten : c.wroteHeader = false →
    c.status = statusOK ∧ c.buf = [] ∧ c.responseWriter.sent = none
  sent : c.responseWriter.sent = some c.status.settled ∨ (c.responseWriter.sent = none ∧
    c.buf = [] ∧ (c.wroteHeader = true → c.status.informational = true))
  body : c.responseWriter.body = if c.status.settled.bodyAllowed then c.buf else []

theorem settled_of_informational {s : Status} (h : s.informational = true) :
    s.settled = statusOK := by
  simp [Status.settled, h]

theorem settled_of_final {s : Status} (h : s.informational = false) : s.settled = s := by
  simp [Status.settled, h]

/-- An error status is final. -/
theorem final_of_error {s : Status} (h : 400 ≤ s.code) : s.informational = false := by
  simp only [Status.informational, Bool.and_eq_false_iff, decide_eq_false_iff_not]
  omega

@[simp] theorem settled_statusOK : statusOK.settled = statusOK := rfl

theorem ResponseWriter.writeHeader_informational {w : ResponseWriter} {s : Status}
    (h : s.informational = true) : w.writeHeader s = w := by
  simp [ResponseWriter.writeHeader, h]

theorem ResponseWriter.writeHeader_final {w : ResponseWriter} {s : Status} (hw : w.sent = none)
    (h : s.informational = false) : w.writeHeader s = { w with sent := some s } := by
  simp [ResponseWriter.writeHeader, h, hw]

theorem ResponseWriter.writeHeader_sent {w : ResponseWriter} {s t : Status}
    (hw : w.sent = some t) : w.writeHeader s = w := by
  simp [ResponseWriter.writeHeader, hw]

/-- A write settles the status that was given. -/
theorem ResponseWriter.write_eq {w : ResponseWriter} {s : Status} {p : Bytes}
    (h : w.sent = some s.settled ∨ (w.sent = none ∧ s.settled = statusOK)) :
    (w.write p).sent = some s.settled ∧
      (w.write p).body = if s.settled.bodyAllowed then w.body ++ p else w.body := by
  have hsent : (w.writeHeader statusOK).sent = some s.settled ∧
      (w.writeHeader statusOK).body = w.body := by
    obtain h | ⟨hw, hs⟩ := h
    · rw [writeHeader_sent h]
      exact ⟨h, rfl⟩
    · rw [writeHeader_final hw rfl, hs]
      exact ⟨rfl, rfl⟩
  simp only [ResponseWriter.write, ResponseWriter.status, hsent.1, Option.getD_some]
  split
  · exact ⟨rfl, by rw [hsent.2]⟩
  · exact hsent

namespace CaptureWriter.Faithful

variable {c : CaptureWriter}

theorem writeHeader (h : c.Faithful) (s : Status) : (c.writeHeader s).Faithful := by
  cases hc : c.wroteHeader with
  | true => simpa [CaptureWriter.writeHeader, hc] using h
  | false =>
    obtain ⟨hstatus, hbuf, hsent⟩ := h.unwritten hc
    have hbody : c.responseWriter.body = [] := by simpa [hbuf] using h.body
    simp only [CaptureWriter.writeHeader, hc]
    refine ⟨by simp, ?_, ?_⟩
    · cases hs : s.informational with
      | true =>
        refine .inr ⟨?_, hbuf, fun _ => hs⟩
        simpa [ResponseWriter.writeHeader_informational hs] using hsent
      | false =>
        left
        simp [ResponseWriter.writeHeader_final hsent hs, settled_of_final hs]
    · cases hs : s.informational with
      | true => simp [ResponseWriter.writeHeader_informational hs, hbuf, hbody]
      | false => simp [ResponseWriter.writeHeader_final hsent hs, hbuf, hbody]

theorem write (h : c.Faithful) (p : Bytes) : (c.write p).Faithful := by
  set d := if c.wroteHeader then c else c.writeHeader statusOK with hd
  have hfaithful : d.Faithful := by
    rw [hd]
    split
    · exact h
    · exact h.writeHeader statusOK
  have hwrote : d.wroteHeader = true := by
    rw [hd]
    split
    · assumption
    · rename_i hc
      simp [CaptureWriter.writeHeader, hc]
  have hsent : d.responseWriter.sent = some d.status.settled ∨
      (d.responseWriter.sent = none ∧ d.status.settled = statusOK) := by
    obtain hs | ⟨hs, -, hinf⟩ := hfaithful.sent
    · exact .inl hs
    · exact .inr ⟨hs, settled_of_informational (hinf hwrote)⟩
  obtain ⟨hwritten, hbody⟩ := ResponseWriter.write_eq (p := p) hsent
  have hwrite : c.write p =
      { d with buf := d.buf ++ p, responseWriter := d.responseWriter.write p } := rfl
  rw [hwrite]
  refine ⟨by simp [hwrote], .inl hwritten, ?_⟩
  rw [hbody, hfaithful.body]
  split <;> rfl

theorem call (h : c.Faithful) (w : WriterCall) : (c.call w).Faithful := by
  cases w with
  | setHeader name value =>
    have hsame : (c.responseWriter.call (.setHeader name value)).sent = c.responseWriter.sent ∧
        (c.responseWriter.call (.setHeader name value)).body = c.responseWriter.body := by
      simp only [ResponseWriter.call]
      split <;> exact ⟨rfl, rfl⟩
    refine ⟨fun hw => ?_, ?_, ?_⟩
    · simpa [CaptureWriter.call, hsame] using h.unwritten hw
    · simpa [CaptureWriter.call, hsame] using h.sent
    · exact hsame.2.trans h.body
  | writeHeader s => exact h.writeHeader s
  | write p => exact h.write p

end CaptureWriter.Faithful

/-- The capture of any handler is faithful. -/
theorem capture_faithful (calls : List WriterCall) :
    (capture ResponseWriter.fresh calls).Faithful := by
  have hstart : CaptureWriter.Faithful ⟨.fresh, statusOK, false, []⟩ :=
    ⟨fun _ => ⟨rfl, rfl, rfl⟩, .inr ⟨rfl, rfl, by simp⟩, rfl⟩
  rw [capture]
  generalize (⟨.fresh, statusOK, false, []⟩ : CaptureWriter) = c at hstart
  induction calls generalizing c with
  | nil => exact hstart
  | cons w calls ih => exact ih _ (hstart.call w)

/-- The response the caller of a captured handler receives. -/
theorem capture_response (calls : List WriterCall) :
    (capture .fresh calls).responseWriter.status = (capture .fresh calls).status.settled ∧
      (capture .fresh calls).responseWriter.body =
        if (capture .fresh calls).status.settled.bodyAllowed then (capture .fresh calls).buf
        else [] := by
  have h := capture_faithful calls
  refine ⟨?_, h.body⟩
  obtain hsent | ⟨hsent, -, hinf⟩ := h.sent
  · simp [ResponseWriter.status, hsent]
  · rw [ResponseWriter.status, hsent, Option.getD_none]
    cases hw : (capture .fresh calls).wroteHeader with
    | true => rw [settled_of_informational (hinf hw)]
    | false => rw [(h.unwritten hw).1, settled_statusOK]

/-- The response the caller of a replay receives. -/
theorem replay_response (r : Record) :
    (ResponseWriter.fresh.calls (replay r)).status = r.statusCode.settled ∧
      (ResponseWriter.fresh.calls (replay r)).body =
        if r.statusCode.settled.bodyAllowed then r.responseBody else [] := by
  set w := ResponseWriter.fresh.call (.setHeader "Idempotent-Replay" "true") with hw
  have hwrite : ResponseWriter.fresh.calls (replay r) =
      (w.writeHeader r.statusCode).write r.responseBody := rfl
  have hsent : (w.writeHeader r.statusCode).sent = some r.statusCode.settled ∨
      ((w.writeHeader r.statusCode).sent = none ∧ r.statusCode.settled = statusOK) := by
    cases hs : r.statusCode.informational with
    | true =>
      rw [ResponseWriter.writeHeader_informational hs]
      exact .inr ⟨rfl, settled_of_informational hs⟩
    | false =>
      rw [ResponseWriter.writeHeader_final rfl hs, settled_of_final hs]
      exact .inl rfl
  have hbody : (w.writeHeader r.statusCode).body = [] := by
    unfold ResponseWriter.writeHeader
    split <;> rfl
  obtain ⟨hwritten, hwrittenBody⟩ := ResponseWriter.write_eq (p := r.responseBody) hsent
  rw [hwrite, ResponseWriter.status, hwritten, hwrittenBody, hbody, List.nil_append]
  exact ⟨rfl, rfl⟩

/-! ## The handler -/

/-- A request as the middleware reads it. -/
structure Request where
  method : String
  /-- The header `Idempotency-Key`, empty when it is absent. -/
  idempotencyKey : String
  /-- The merchant the request was authenticated as. -/
  merchant : Option UUID
  /-- The body, or the error of reading it. -/
  body : Except String Bytes
  deriving DecidableEq

/-- `HashRequest`, over the SHA-256 of the deployment. -/
def hashRequest (sum256 : Bytes → Bytes) (body : Bytes) : Bytes := sum256 body

/-- `subtle.ConstantTimeCompare`. -/
def constantTimeCompare (x y : Bytes) : Int := if x = y then 1 else 0

/-- `isMutating`. -/
def isMutating (method : String) : Bool :=
  method = "POST" || method = "PUT" || method = "PATCH" || method = "DELETE"

/-- The calls of the middleware. -/
inductive Op
  | store (o : StoreOp)
  /-- `next.ServeHTTP`, on the response writer itself or on a `captureWriter` around it. -/
  | serveHTTP (captured : Bool)
  /-- The middleware writes a response of its own. -/
  | respond (calls : List WriterCall)

/-- Their replies; the wrapped handler leaves the calls it has made. -/
def Op.Rep : Op → Type
  | .store o => o.Rep
  | .serveHTTP _ => List WriterCall
  | .respond _ => Unit

/-- Programs of the middleware; every error is handled in them. -/
abbrev MiddlewareM := Prog Op.Rep Empty

/-- Run a store program and look at its error. -/
def onStore {α : Type} (p : StoreM α) : MiddlewareM (Except GoError α) :=
  (p.lift Op.store fun _ r => r).attempt

/-- `next.ServeHTTP`. -/
def serveHTTP (captured : Bool) : MiddlewareM (List WriterCall) :=
  Prog.query (Op.serveHTTP captured)

/-- Write a response. -/
def respond (calls : List WriterCall) : MiddlewareM Unit := Prog.query (Op.respond calls)

/-- `Middleware`. -/
structure Middleware where
  store : Store
  resolver : Request → Option UUID

/-- The end of `Handler` after a lookup that found nothing: run the handler and store its
response. -/
def Middleware.captureAndPut (m : Middleware) (merchantID : UUID) (key : String) (hash : Bytes) :
    MiddlewareM Unit :=
  (serveHTTP true).bind fun calls =>
    let cap := capture .fresh calls
    if cap.status.code ≥ 500 then .ret ()
    -- The response is out: whatever `Put` reports, nothing more is done.
    else (onStore (m.store.put ⟨merchantID, key, hash, cap.status, cap.buf⟩)).bind fun _ => .ret ()

/-- The switch of `Handler` over the result of the lookup. -/
def Middleware.afterLookup (m : Middleware) (merchantID : UUID) (key : String) (hash : Bytes) :
    Except GoError Record → MiddlewareM Unit
  | .ok existing =>
    if constantTimeCompare existing.requestHash hash ≠ 1 then
      respond (httpError "idempotency key reused with a different request body" statusConflict)
    else respond (replay existing)
  | .error err =>
    if isError errNotFound err then m.captureAndPut merchantID key hash
    else respond (httpError "idempotency lookup failed" statusInternalServerError)

/-- `Middleware.Handler`. -/
def Middleware.handler (sum256 : Bytes → Bytes) (m : Middleware) (r : Request) :
    MiddlewareM Unit :=
  if isMutating r.method = false then (serveHTTP false).bind fun _ => .ret ()
  else if r.idempotencyKey = "" then (serveHTTP false).bind fun _ => .ret ()
  else match m.resolver r with
    | none => respond (httpError "unauthenticated" statusUnauthorized)
    | some merchantID => match r.body with
      | .error _ => respond (httpError "read body" statusBadRequest)
      | .ok body =>
        let hash := hashRequest sum256 body
        (onStore (m.store.get merchantID r.idempotencyKey)).bind
          (m.afterLookup merchantID r.idempotencyKey hash)

/-! ## The phases of a request -/

/-- Whose record a request is about, and the hash of its body. -/
structure Keyed where
  merchantID : UUID
  key : String
  hash : Bytes

/-- The primary key of the record. -/
def Keyed.ident (q : Keyed) : UUID × String := (q.merchantID, q.key)

/-- The record of a captured response. -/
def Keyed.record (q : Keyed) (calls : List WriterCall) : Record :=
  ⟨q.merchantID, q.key, q.hash, (capture .fresh calls).status, (capture .fresh calls).buf⟩

/-- A replay of a captured response gives its caller the same status and body. -/
theorem replay_record_response (q : Keyed) (calls : List WriterCall) :
    (ResponseWriter.fresh.calls (replay (q.record calls))).status =
        (capture .fresh calls).responseWriter.status ∧
      (ResponseWriter.fresh.calls (replay (q.record calls))).body =
        (capture .fresh calls).responseWriter.body := by
  obtain ⟨hstatus, hbody⟩ := capture_response calls
  obtain ⟨hstatus', hbody'⟩ := replay_response (q.record calls)
  exact ⟨hstatus'.trans hstatus.symm, hbody'.trans hbody.symm⟩

/-- What is replayed, stored and compared for a request. -/
def Middleware.keyed (sum256 : Bytes → Bytes) (m : Middleware) (r : Request) : Keyed :=
  ⟨(m.resolver r).getD 0, r.idempotencyKey, hashRequest sum256 (r.body.toOption.getD [])⟩

/-- How far a request has come. -/
inductive Phase
  /-- It cannot be served and is told so. -/
  | rejecting
  /-- Its record is looked up. -/
  | looking (v : Seen)
  /-- The middleware has answered it. -/
  | answered
  /-- The handler has answered it with these calls and its response is stored. -/
  | ran (calls : List WriterCall) (v : Seen)
  /-- The handler has failed with these calls. -/
  | refused (calls : List WriterCall)
  /-- It is none of the middleware's business. -/
  | passing
  | passed

/-- The calls write an error. -/
def IsError (calls : List WriterCall) : Prop :=
  400 ≤ (ResponseWriter.fresh.calls calls).status.code

instance (calls : List WriterCall) : Decidable (IsError calls) :=
  inferInstanceAs (Decidable (_ ≤ _))

/-- The responses the middleware may write itself, by what it has seen of the record. -/
def Seen.Allows (hash : Bytes) (calls : List WriterCall) : Seen → Prop
  | .nothing => IsError calls
  | .row r => (r.requestHash ≠ hash ∧ IsError calls) ∨ (r.requestHash = hash ∧ calls = replay r)
  | .noRow => False
  | .writing _ => False

instance (hash : Bytes) (calls : List WriterCall) (v : Seen) : Decidable (v.Allows hash calls) := by
  cases v <;> unfold Seen.Allows <;> infer_instance

/-- The phases a request goes through. -/
def Phase.next (q : Keyed) : Phase → (o : Op) → o.Rep → Option Phase
  | .rejecting, .respond calls, _ => if IsError calls then some .answered else none
  | .looking v, .store o, reply => (v.next q.merchantID q.key o reply).map .looking
  | .looking v, .respond calls, _ => if v.Allows q.hash calls then some .answered else none
  | .looking .noRow, .serveHTTP true, (calls : List WriterCall) =>
    if (capture .fresh calls).status.code ≥ 500 then some (.refused calls)
    else some (.ran calls (.writing (q.record calls)))
  | .ran calls v, .store o, reply => (v.next q.merchantID q.key o reply).map (.ran calls)
  | .passing, .serveHTTP false, _ => some .passed
  | _, _, _ => none

/-- The phases a request can end in. -/
def Phase.Ends : Phase → Except Empty Unit → Prop
  | .rejecting, _ => False
  | .looking _, _ => False
  | .ran _ (.writing _), _ => False
  | .passing, _ => False
  | _, _ => True

/-- The middleware takes care of the request. -/
def Request.Guarded (r : Request) : Prop := isMutating r.method = true ∧ r.idempotencyKey ≠ ""

/-- The request has a merchant and a body. -/
def Middleware.Admits (m : Middleware) (r : Request) : Prop :=
  (m.resolver r).isSome = true ∧ r.body.isOk = true

instance (r : Request) : Decidable r.Guarded := inferInstanceAs (Decidable (_ ∧ _))

instance (m : Middleware) (r : Request) : Decidable (m.Admits r) :=
  inferInstanceAs (Decidable (_ ∧ _))

/-- The phase a request starts in. -/
def Middleware.start (m : Middleware) (r : Request) : Phase :=
  if r.Guarded then if m.Admits r then .looking .nothing else .rejecting else .passing

theorem isError_httpError (msg : String) {s : Status} (h : 400 ≤ s.code) :
    IsError (httpError msg s) := by
  set w := (ResponseWriter.fresh.call (.setHeader "Content-Type" "text/plain; charset=utf-8")).call
    (.setHeader "X-Content-Type-Options" "nosniff") with hw
  have hwrite : ResponseWriter.fresh.calls (httpError msg s) =
      (w.writeHeader s).write (msg ++ "\n").toUTF8.toList := rfl
  have hfinal := final_of_error h
  have hsent : (w.writeHeader s).sent = some s.settled := by
    rw [ResponseWriter.writeHeader_final rfl hfinal, settled_of_final hfinal]
  rw [IsError, hwrite, ResponseWriter.status, (ResponseWriter.write_eq (.inl hsent)).1,
    Option.getD_some, settled_of_final hfinal]
  exact h

section Phases

variable {q : Keyed} {m : Middleware} {sum256 : Bytes → Bytes} {calls : List WriterCall}

theorem Phase.next_looking (v : Seen) (o : StoreOp) (reply : o.Rep) :
    (Phase.looking v).next q (.store o) reply =
      (v.next q.merchantID q.key o reply).map .looking := by
  cases v <;> rfl

theorem Phase.next_ran (calls : List WriterCall) (v : Seen) (o : StoreOp) (reply : o.Rep) :
    (Phase.ran calls v).next q (.store o) reply =
      (v.next q.merchantID q.key o reply).map (.ran calls) := by
  cases v <;> rfl

/-- A statement is a step of a lookup or of a `Put`. -/
theorem Phase.next_store {p p' : Phase} {o : StoreOp} {reply : o.Rep}
    (h : p.next q (.store o) reply = some p') :
    ∃ v v', v.next q.merchantID q.key o reply = some v' ∧
      (p = .looking v ∧ p' = .looking v' ∨ ∃ calls, p = .ran calls v ∧ p' = .ran calls v') := by
  cases p with
  | looking v =>
    rw [Phase.next_looking, Option.map_eq_some_iff] at h
    obtain ⟨v', hv, rfl⟩ := h
    exact ⟨v, v', hv, .inl ⟨rfl, rfl⟩⟩
  | ran calls v =>
    rw [Phase.next_ran, Option.map_eq_some_iff] at h
    obtain ⟨v', hv, rfl⟩ := h
    exact ⟨v, v', hv, .inr ⟨calls, rfl, rfl⟩⟩
  | rejecting => cases h
  | answered => cases h
  | refused calls => cases h
  | passing => cases h
  | passed => cases h

theorem respond_obeys {v : Seen} (h : v.Allows q.hash calls) :
    (respond calls).Obeys (Phase.next q) Phase.Ends (.looking v) := by
  intro (reply : Unit)
  exact ⟨.answered, by simp [Phase.next, h], trivial⟩

theorem reject_obeys (h : IsError calls) :
    (respond calls).Obeys (Phase.next q) Phase.Ends .rejecting := by
  intro (reply : Unit)
  exact ⟨.answered, by simp [Phase.next, h], trivial⟩

/-- A program of a store inside the middleware. -/
theorem onStore_obeys {α : Type} {Q : Seen → Except GoError α → Prop} {p : StoreM α} {v : Seen}
    (f : Seen → Phase) (hf : ∀ v o (reply : o.Rep), (f v).next q (.store o) reply =
      (v.next q.merchantID q.key o reply).map f)
    (h : p.Obeys (Seen.next q.merchantID q.key) Q v) :
    (onStore p).Obeys (Phase.next q) (fun p x => ∃ v y, p = f v ∧ x = .ok y ∧ Q v y) (f v) := by
  refine Prog.Obeys.attempt (Q := fun p y => ∃ v, p = f v ∧ Q v y) ?_ ?_
  · refine h.lift f (fun v v' o reply hv => ?_) fun v y hy => ⟨v, rfl, hy⟩
    exact (hf v o reply).trans (congrArg (Option.map f) hv)
  · rintro p y ⟨v, hp, hy⟩
    exact ⟨v, y, hp, rfl, hy⟩

/-- The handler runs behind a lookup that has found no row, and its response is inserted. -/
theorem captureAndPut_obeys (hm : m.store.Lawful) :
    (m.captureAndPut q.merchantID q.key q.hash).Obeys (Phase.next q) Phase.Ends
      (.looking .noRow) := by
  intro (calls : List WriterCall)
  change ∃ p, _ ∧ Prog.Obeys _ _ p (if (capture .fresh calls).status.code ≥ 500 then _ else _)
  by_cases hstatus : (capture .fresh calls).status.code ≥ 500
  · refine ⟨.refused calls, by simp [Phase.next, hstatus], ?_⟩
    rw [if_pos hstatus]
    trivial
  · refine ⟨.ran calls (.writing (q.record calls)), by simp [Phase.next, hstatus], ?_⟩
    rw [if_neg hstatus]
    refine (onStore_obeys (.ran calls) (Phase.next_ran calls) (hm.put (q.record calls))).bind ?_ ?_
    · rintro p x ⟨v, y, rfl, -, hy⟩
      cases v with
      | writing r => cases hy
      | nothing => trivial
      | row r => trivial
      | noRow => trivial
    · intro p e
      exact e.elim

theorem afterLookup_obeys (hm : m.store.Lawful) {v : Seen} {x : Except GoError Record}
    (hx : v.GetEnds x) : (m.afterLookup q.merchantID q.key q.hash x).Obeys (Phase.next q)
      Phase.Ends (.looking v) := by
  cases x with
  | ok existing =>
    cases v with
    | row r =>
      obtain rfl : existing = r := hx
      by_cases hhash : existing.requestHash = q.hash
      · simp only [Middleware.afterLookup, constantTimeCompare, hhash, if_true]
        exact respond_obeys (.inr ⟨hhash, rfl⟩)
      · simp only [Middleware.afterLookup, constantTimeCompare, hhash, if_false]
        exact respond_obeys (.inl ⟨hhash, isError_httpError _ (by decide)⟩)
    | nothing => cases hx
    | noRow => cases hx
    | writing r => cases hx
  | error err =>
    cases v with
    | noRow =>
      obtain rfl : err = errNotFound := hx
      exact captureAndPut_obeys hm
    | nothing =>
      have herr : isError errNotFound err = false := hx
      simp only [Middleware.afterLookup, herr]
      exact respond_obeys (isError_httpError _ (by decide))
    | row r => cases hx
    | writing r => cases hx

theorem lookup_obeys (hm : m.store.Lawful) :
    ((onStore (m.store.get q.merchantID q.key)).bind
      (m.afterLookup q.merchantID q.key q.hash)).Obeys (Phase.next q) Phase.Ends
        (.looking .nothing) := by
  refine (onStore_obeys .looking Phase.next_looking (hm.get q.merchantID q.key)).bind ?_
    fun p e => e.elim
  rintro p x ⟨v, y, rfl, hx, hy⟩
  cases hx
  exact afterLookup_obeys hm hy

/-- `Handler` goes through the phases, whatever the store replies and the handler does. -/
theorem handler_obeys (hm : m.store.Lawful) (r : Request) :
    (m.handler sum256 r).Obeys (Phase.next (m.keyed sum256 r)) Phase.Ends (m.start r) := by
  have hpass : ((serveHTTP false).bind fun _ => .ret ()).Obeys (Phase.next (m.keyed sum256 r))
      Phase.Ends .passing := fun _ => ⟨.passed, rfl, trivial⟩
  by_cases hmut : isMutating r.method = false
  · simpa [Middleware.handler, Middleware.start, Request.Guarded, hmut] using hpass
  by_cases hkey : r.idempotencyKey = ""
  · simpa [Middleware.handler, Middleware.start, Request.Guarded, hmut, hkey] using hpass
  have hguarded : r.Guarded := ⟨by simpa using hmut, hkey⟩
  rw [Middleware.start, if_pos hguarded, Middleware.handler, if_neg hmut, if_neg hkey]
  cases hres : m.resolver r with
  | none =>
    rw [if_neg (by simp [Middleware.Admits, hres])]
    exact reject_obeys (isError_httpError _ (by decide))
  | some merchantID =>
    cases hbody : r.body with
    | error err =>
      rw [if_neg (by simp [Middleware.Admits, hbody, Except.isOk, Except.toBool])]
      exact reject_obeys (isError_httpError _ (by decide))
    | ok body =>
      have hq : m.keyed sum256 r = ⟨merchantID, r.idempotencyKey, hashRequest sum256 body⟩ := by
        simp [Middleware.keyed, hres, hbody, Except.toOption]
      rw [if_pos (by simp [Middleware.Admits, hres, hbody, Except.isOk, Except.toBool]), hq]
      exact lookup_obeys hm

end Phases

end Selatpay.Idempotency
