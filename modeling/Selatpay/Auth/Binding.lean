import Mathlib.Data.Set.Function
import Selatpay.Auth.Hmac

/-!
# What a request signature binds

The signed text joins a timestamp, a method, a path and the hash of a body by newlines.
The path may have newlines of its own: the first two parts have none, and neither has the
hash at the end, so that the parts are found from both sides. A request that is passed on
carries the body that was hashed.
-/

namespace Selatpay.Auth

open Decimal

/-! ## Bodies -/

/-- What is left to read of a body. -/
inductive BodyReader
  | eof
  | failed (err : String)
  | piece (bytes : Text) (rest : BodyReader)

/-- The loop of `io.ReadAll`. -/
def readAllLoop : Text → BodyReader → Except String Text
  | read, .eof => .ok read
  | _, .failed err => .error err
  | read, .piece bytes rest => readAllLoop (read ++ bytes) rest

/-- `io.ReadAll`. -/
def readAll (body : BodyReader) : Except String Text := readAllLoop [] body

/-- `strings.NewReader`. -/
def newReader (s : Text) : BodyReader := .piece s .eof

@[simp] theorem readAll_newReader (s : Text) : readAll (newReader s) = .ok s := rfl

/-- A request as it arrives, its body unread. -/
structure Incoming where
  keyID : Text
  timestamp : Text
  signature : Text
  method : Text
  path : Text
  body : BodyReader

/-- The request with its body read. -/
def Incoming.read (r : Incoming) : Request :=
  ⟨r.keyID, r.timestamp, r.signature, r.method, r.path, (readAll r.body).toOption⟩

/-! ## The signed text -/

/-- What a client signs. -/
structure SignedRequest where
  timestamp : Text
  method : Text
  path : Text
  body : Text
  deriving DecidableEq, Repr

/-- The timestamp and the method are single lines. -/
def SignedRequest.SingleLines (x : SignedRequest) : Prop := 10 ∉ x.timestamp ∧ 10 ∉ x.method

/-- An arrived request, as it was signed if its body was this. -/
def Incoming.signed (r : Incoming) (body : Text) : SignedRequest :=
  ⟨r.timestamp, r.method, r.path, body⟩

section Hashed

variable (hmac : Text → Text → Hex.Digest) (sum256 : Text → Hex.Digest)
  (parseRFC3339 : Text → Option Instant)

/-- The text whose keyed hash is the signature. -/
def canonical (x : SignedRequest) : Text :=
  x.timestamp ++ 10 :: (x.method ++ 10 :: (x.path ++ 10 :: Hex.encode (sum256 x.body).1))

/-- The signature of a request. -/
def SignedRequest.sign (secret : Text) (x : SignedRequest) : Text :=
  Auth.sign hmac sum256 secret x.method x.path x.timestamp x.body

/-- `Middleware` on a request with an unread body: the refusal, or what the next handler is called
with. -/
def serve (store : KeyStore) (now : Instant) (r : Incoming) :
    Except AuthError (Identity × Incoming) :=
  match middleware hmac sum256 parseRFC3339 store now r.read, readAll r.body with
  | .error err, _ => .error err
  | .ok _, .error _ => .error .badBody
  | .ok id, .ok body => .ok (id, { r with body := newReader body })

variable {hmac sum256 parseRFC3339}

theorem SignedRequest.sign_eq (secret : Text) (x : SignedRequest) :
    x.sign hmac sum256 secret = (hmac secret (canonical sum256 x)).1 := rfl

/-- The parts of the signed text are determined by it, whatever the path. -/
theorem canonical_inj {x y : SignedRequest} (hx : x.SingleLines) (hy : y.SingleLines)
    (h : canonical sum256 x = canonical sum256 y) :
    x.timestamp = y.timestamp ∧ x.method = y.method ∧ x.path = y.path ∧
      sum256 x.body = sum256 y.body := by
  have hhex : ∀ d : Hex.Digest, 10 ∉ Hex.encode d.1 := fun d => Hex.notMem_encode (by decide) d.1
  obtain ⟨htimestamp, h⟩ := Text.append_cons_inj hx.1 hy.1 h
  obtain ⟨hmethod, h⟩ := Text.append_cons_inj hx.2 hy.2 h
  obtain ⟨hpath, h⟩ := Text.append_cons_inj_right (hhex _) (hhex _) h
  exact ⟨htimestamp, hmethod, hpath, Subtype.ext (Hex.encode_injective h)⟩

/-- A timestamp that is read has no newline, if RFC 3339 times have none. -/
theorem newline_notMem_of_parseTimestamp
    (hrfc : ∀ raw t, parseRFC3339 raw = some t → 10 ∉ raw) {raw : Text} {t : Instant}
    (h : parseTimestamp parseRFC3339 raw = some t) : 10 ∉ raw := by
  unfold parseTimestamp at h
  split at h
  · next ts hts => exact hrfc raw ts hts
  · split at h
    · next secs hsecs => exact notMem_of_parseInt rfl (by decide) (by decide) hsecs
    · cases h

/-- What is passed on: a request that the middleware accepts, with the body that it read. -/
theorem serve_eq_ok {store : KeyStore} {now : Instant} {r r' : Incoming} {id : Identity} :
    serve hmac sum256 parseRFC3339 store now r = .ok (id, r') ↔
      ∃ body, readAll r.body = .ok body ∧ r' = { r with body := newReader body } ∧
        middleware hmac sum256 parseRFC3339 store now r.read = .ok id := by
  unfold serve
  cases hmid : middleware hmac sum256 parseRFC3339 store now r.read with
  | error err => simp
  | ok id' =>
    cases hread : readAll r.body with
    | error err => simp
    | ok body => simp [and_comm, eq_comm]

/-- What is passed on was signed, with the body that the next handler reads, under the secret of
its key. -/
theorem signature_of_serve {store : KeyStore} {now : Instant} {r r' : Incoming} {id : Identity}
    (h : serve hmac sum256 parseRFC3339 store now r = .ok (id, r')) :
    ∃ body secret ts, readAll r'.body = .ok body ∧ store r.keyID = .ok (id.merchantID, secret) ∧
      parseTimestamp parseRFC3339 r.timestamp = some ts ∧
      r'.signed body = r.signed body ∧
      Hex.decode r.signature = .ok ((r.signed body).sign hmac sum256 secret) := by
  obtain ⟨body, hread, rfl, haccept⟩ := serve_eq_ok.mp h
  obtain ⟨-, ⟨ts, hts, -⟩, hcheck⟩ := (middleware_eq_ok ..).mp haccept
  obtain ⟨body', secret, hbody, hstore, hdecode, -⟩ := (checkSignature_eq_ok ..).mp hcheck
  have hsame : body = body' := by
    simpa [Incoming.read, hread, Except.toOption] using hbody
  subst hsame
  exact ⟨body, secret, ts, readAll_newReader body, hstore, hts, rfl, hdecode⟩

end Hashed

/-- Signed texts are equal only for equal timestamps, methods, paths and hashes of bodies, whatever
the paths. So, where the hashes do not collide, a request that is passed on with a signature which
was made under the secret of its key is one that was signed, with the body that the next handler
reads. -/
theorem serve_binds_request (hmac : Text → Text → Hex.Digest) (sum256 : Text → Hex.Digest) :
    (∀ x y : SignedRequest, x.SingleLines → y.SingleLines →
      canonical sum256 x = canonical sum256 y →
      x.timestamp = y.timestamp ∧ x.method = y.method ∧ x.path = y.path ∧
        sum256 x.body = sum256 y.body) ∧
    ∀ (parseRFC3339 : Text → Option Instant), (∀ raw t, parseRFC3339 raw = some t → 10 ∉ raw) →
      ∀ (store : KeyStore) (now : Instant) (r r' : Incoming) (id : Identity), 10 ∉ r.method →
      serve hmac sum256 parseRFC3339 store now r = .ok (id, r') →
      ∃ body secret, readAll r'.body = .ok body ∧ store r.keyID = .ok (id.merchantID, secret) ∧
        r'.signed body = r.signed body ∧
        Hex.decode r.signature = .ok ((r.signed body).sign hmac sum256 secret) ∧
        ∀ signed : Set SignedRequest, (∀ x ∈ signed, x.SingleLines) →
          Set.InjOn (hmac secret) (canonical sum256 '' insert (r.signed body) signed) →
          Set.InjOn sum256 (SignedRequest.body '' insert (r.signed body) signed) →
          (∃ x ∈ signed, Hex.decode r.signature = .ok (x.sign hmac sum256 secret)) →
          r'.signed body ∈ signed := by
  refine ⟨fun x y hx hy h => canonical_inj hx hy h, ?_⟩
  intro parseRFC3339 hrfc store now r r' id hmethod hserve
  obtain ⟨body, secret, ts, hread, hstore, hts, hsame, hdecode⟩ := signature_of_serve hserve
  refine ⟨body, secret, hread, hstore, hsame, hdecode, ?_⟩
  rintro signed hlines hmac' hsum ⟨x, hx, hdecode'⟩
  have hself : r.signed body ∈ insert (r.signed body) signed := Set.mem_insert _ _
  have hother : x ∈ insert (r.signed body) signed := Set.mem_insert_of_mem _ hx
  have hsign : hmac secret (canonical sum256 (r.signed body)) =
      hmac secret (canonical sum256 x) := by
    rw [SignedRequest.sign_eq] at hdecode hdecode'
    exact Subtype.ext (Except.ok.inj (hdecode.symm.trans hdecode'))
  have htext : canonical sum256 (r.signed body) = canonical sum256 x :=
    hmac' (Set.mem_image_of_mem _ hself) (Set.mem_image_of_mem _ hother) hsign
  have hline : (r.signed body).SingleLines :=
    ⟨newline_notMem_of_parseTimestamp hrfc hts, hmethod⟩
  obtain ⟨h₁, h₂, h₃, h₄⟩ := canonical_inj hline (hlines x hx) htext
  have hbody : (r.signed body).body = x.body :=
    hsum (Set.mem_image_of_mem _ hself) (Set.mem_image_of_mem _ hother) h₄
  have heq : r.signed body = x := by
    cases x
    simp_all [Incoming.signed]
  rw [hsame, heq]
  exact hx

/-- A hash that adds the bytes up. -/
def checksum (s : Text) : Hex.Digest :=
  ⟨s.foldl (· + ·) 0 :: List.replicate 31 0, by simp⟩

/-- A keyed one. -/
def keyedChecksum (secret s : Text) : Hex.Digest := checksum (secret ++ s)

/-- A request with a newline in its path. -/
def newlineRequest : SignedRequest := ⟨text "1780000000", text "GET", text "/v1\nGET", text "abc"⟩

/-- Another one with the same secret. -/
def plainRequest : SignedRequest := ⟨text "1780000000", text "GET", text "/v1", text "abd"⟩

/-- The first request as it arrives, in two pieces. -/
def newlinePath : Incoming where
  keyID := text "key"
  timestamp := newlineRequest.timestamp
  signature := Hex.encode (newlineRequest.sign keyedChecksum checksum (text "secret"))
  method := newlineRequest.method
  path := newlineRequest.path
  body := .piece (text "ab") (.piece (text "c") .eof)

/-- The request is passed on, and is the one of two signed requests that it was signed as. -/
theorem serve_binds_request_newlinePath :
    serve keyedChecksum checksum (fun _ => none) (fun _ => .ok (0, text "secret"))
        (.unix 1780000000) newlinePath =
      .ok (⟨0, text "key"⟩, { newlinePath with body := newReader (text "abc") }) ∧
    newlineRequest.sign keyedChecksum checksum (text "secret") ≠
      plainRequest.sign keyedChecksum checksum (text "secret") ∧
    ({ newlinePath with body := newReader (text "abc") } : Incoming).signed (text "abc") ∈
      ({newlineRequest, plainRequest} : Set SignedRequest) := by
  have haccept : middleware keyedChecksum checksum (fun _ => none)
      (fun _ => .ok (0, text "secret")) (.unix 1780000000) newlinePath.read =
        .ok ⟨0, text "key"⟩ := by
    decide +kernel
  have hserve := serve_eq_ok.mpr ⟨text "abc", rfl, rfl, haccept⟩
  refine ⟨hserve, by decide +kernel, ?_⟩
  obtain ⟨body, secret, hread, hstore, hsame, hdecode, hbind⟩ :=
    (serve_binds_request keyedChecksum checksum).2 (fun _ => none) (by simp) _ _ _ _ _
      (by decide) hserve
  obtain rfl : text "abc" = body := by simpa using hread
  obtain rfl : text "secret" = secret := by simpa using hstore
  have hsigned : newlinePath.signed (text "abc") = newlineRequest := rfl
  have hmem : newlineRequest ∈ ({newlineRequest, plainRequest} : Set SignedRequest) :=
    Set.mem_insert _ _
  rw [hsigned] at hbind
  refine hbind {newlineRequest, plainRequest} ?_ ?_ ?_ ⟨newlineRequest, hmem, hdecode⟩
  · rintro x (rfl | rfl) <;> exact ⟨by decide, by decide⟩
  · rw [Set.insert_eq_of_mem hmem, Set.image_pair, Set.injOn_pair]
    decide +kernel
  · rw [Set.insert_eq_of_mem hmem, Set.image_pair, Set.injOn_pair]
    decide +kernel

end Selatpay.Auth
