import Selatpay.Core.Clock
import Selatpay.Core.Decimal
import Selatpay.Core.Hex
import Selatpay.Data.Uuid

/-!
# Request authentication

`middleware` authenticates a request by a keyed hash over its timestamp, method, path and
body, and refuses a timestamp that is too far from the clock. The keyed hash, the hash of
the body and the reading of an RFC 3339 time are parameters. `middleware_eq_ok` says what
reaches the next handler; the bound on the clock skew is read off it.
-/

namespace Selatpay.Auth

open Decimal

/-- `MaxClockSkew`, five minutes. -/
def maxClockSkew : Int := 300000000000

/-- The ways in which a request is refused. -/
inductive AuthError
  | missingCredentials | badTimestamp | badBody | unknownKey | badSignature
  deriving DecidableEq, Repr

/-- The status of a refusal. -/
def AuthError.status : AuthError → Nat
  | .badBody => 400
  | _ => 401

/-- The code of a refusal. -/
def AuthError.code : AuthError → String
  | .missingCredentials => "missing_credentials"
  | .badTimestamp => "bad_timestamp"
  | .badBody => "bad_body"
  | .unknownKey => "unknown_key"
  | .badSignature => "bad_signature"

/-- The message of a refusal. -/
def AuthError.message : AuthError → String
  | .missingCredentials => "auth: missing required HMAC headers"
  | .badTimestamp => "auth: timestamp unparseable or outside allowed clock skew"
  | .badBody => "auth: failed to read request body"
  | .unknownKey => "auth: unknown or revoked key id"
  | .badSignature => "auth: signature does not match request"

/-- What the middleware reads of a request; a body that cannot be read is missing. -/
structure Request where
  /-- `X-Selatpay-Key-Id`. -/
  keyID : Text
  /-- `X-Selatpay-Timestamp`. -/
  timestamp : Text
  /-- `X-Selatpay-Signature`. -/
  signature : Text
  method : Text
  path : Text
  body : Option Text
  deriving DecidableEq, Repr

/-- `KeyStore.Lookup`: the merchant and the secret of a key. -/
abbrev KeyStore := Text → Except String (UUID × Text)

/-- What the next handler finds in the context. -/
structure Identity where
  merchantID : UUID
  keyID : Text
  deriving DecidableEq, Repr

variable (hmac : Text → Text → Hex.Digest) (sum256 : Text → Hex.Digest)
  (parseRFC3339 : Text → Option Instant)

/-- `Sign`: timestamp, method, path and hash of the body, on lines of their own. -/
def sign (secret method path timestamp body : Text) : Text :=
  (hmac secret (timestamp ++ 10 :: (method ++ 10 :: (path ++ 10 ::
    Hex.encode (sum256 body).1)))).1

/-- `parseTimestamp`: an RFC 3339 time, or Unix seconds. -/
def parseTimestamp (raw : Text) : Option Instant :=
  match parseRFC3339 raw with
  | some t => some t
  | none => match parseInt raw with
    | .ok secs => some (.unix secs)
    | .error _ => none

/-- The second half of `Middleware`: the body, the key and the signature. -/
def checkSignature (store : KeyStore) (r : Request) : Except AuthError Identity :=
  match r.body with
  | none => .error .badBody
  | some body => match store r.keyID with
    | .error _ => .error .unknownKey
    | .ok (merchantID, secret) =>
      let expected := sign hmac sum256 secret r.method r.path r.timestamp body
      match Hex.decode r.signature with
      | .error _ => .error .badSignature
      | .ok provided =>
        if expected ≠ provided then .error .badSignature else .ok ⟨merchantID, r.keyID⟩

/-- `Middleware`: the refusal, or the identity with which the next handler is called. -/
def middleware (store : KeyStore) (now : Instant) (r : Request) : Except AuthError Identity :=
  if r.keyID = [] ∨ r.timestamp = [] ∨ r.signature = [] then .error .missingCredentials
  else match parseTimestamp parseRFC3339 r.timestamp with
    | none => .error .badTimestamp
    | some ts =>
      if absDuration (now.sub ts) > maxClockSkew then .error .badTimestamp
      else checkSignature hmac sum256 store r

/-- What passes the second half: a readable body and a signature under the secret of the key. -/
theorem checkSignature_eq_ok {store : KeyStore} {r : Request} {id : Identity} :
    checkSignature hmac sum256 store r = .ok id ↔
      ∃ body secret, r.body = some body ∧ store r.keyID = .ok (id.merchantID, secret) ∧
        Hex.decode r.signature =
          .ok (sign hmac sum256 secret r.method r.path r.timestamp body) ∧ id.keyID = r.keyID := by
  obtain ⟨merchantID, keyID⟩ := id
  unfold checkSignature
  constructor
  · intro h
    split at h
    · cases h
    next body hbody =>
      split at h
      · cases h
      next merchant secret hstore =>
        dsimp only at h
        split at h
        · cases h
        next provided hdecode =>
          split at h
          · cases h
          next heq =>
            obtain ⟨rfl, rfl⟩ := Identity.mk.inj (Except.ok.inj h)
            exact ⟨body, secret, hbody, hstore, by rw [hdecode, not_not.mp heq], rfl⟩
  · rintro ⟨body, secret, hbody, hstore, hdecode, rfl⟩
    simp [hbody, hstore, hdecode]

/-- What the next handler is called for. -/
theorem middleware_eq_ok {store : KeyStore} {now : Instant} {r : Request} {id : Identity} :
    middleware hmac sum256 parseRFC3339 store now r = .ok id ↔
      (r.keyID ≠ [] ∧ r.timestamp ≠ [] ∧ r.signature ≠ []) ∧
      (∃ ts, parseTimestamp parseRFC3339 r.timestamp = some ts ∧
        absDuration (now.sub ts) ≤ maxClockSkew) ∧
      checkSignature hmac sum256 store r = .ok id := by
  unfold middleware
  split
  · next hmissing =>
    simp only [reduceCtorEq, false_iff]
    tauto
  · next hpresent =>
    have hall : r.keyID ≠ [] ∧ r.timestamp ≠ [] ∧ r.signature ≠ [] := by tauto
    cases hparse : parseTimestamp parseRFC3339 r.timestamp with
    | none => simp
    | some ts =>
      by_cases hskew : absDuration (now.sub ts) > maxClockSkew
      · simp [hskew]
      · simp [hskew, hall, not_lt.mp hskew]

/-! ## The clock skew -/

/-- Whoever signs with the timestamp is let through only within the allowed skew. -/
def SkewBounded (timestamp : Text) (now : Instant) : Prop :=
  ∀ (store : KeyStore) (r : Request) (id : Identity), r.timestamp = timestamp →
    middleware hmac sum256 parseRFC3339 store now r = .ok id →
    ∃ ts, parseTimestamp parseRFC3339 timestamp = some ts ∧ |now.nanos - ts.nanos| ≤ maxClockSkew

/-- The request that a client with a secret sends. -/
def signedRequest (secret timestamp : Text) : Request where
  keyID := text "key"
  timestamp := timestamp
  signature := Hex.encode (sign hmac sum256 secret (text "GET") (text "/") timestamp [])
  method := text "GET"
  path := text "/"
  body := some []

/-- A signed request is let through whenever its timestamp passes the check. -/
theorem middleware_signedRequest (merchantID : UUID) (secret : Text) {timestamp : Text}
    {now ts : Instant} (hne : timestamp ≠ [])
    (hparse : parseTimestamp parseRFC3339 timestamp = some ts)
    (hskew : absDuration (now.sub ts) ≤ maxClockSkew) :
    middleware hmac sum256 parseRFC3339 (fun _ => .ok (merchantID, secret)) now
      (signedRequest hmac sum256 secret timestamp) = .ok ⟨merchantID, text "key"⟩ := by
  have hkey : text "key" ≠ [] := by decide
  have hsig : (signedRequest hmac sum256 secret timestamp).signature ≠ [] := by
    rw [signedRequest, Ne, Hex.encode_eq_nil]
    exact Hex.Digest.ne_nil _
  exact (middleware_eq_ok ..).mpr ⟨⟨hkey, hne, hsig⟩, ⟨ts, hparse, hskew⟩,
    (checkSignature_eq_ok ..).mpr ⟨[], secret, rfl, rfl, Hex.decode_encode _, rfl⟩⟩

/-- The check passes within the skew, and for whatever is too far ahead to be subtracted. -/
theorem absDuration_sub_le_skew {now ts : Instant} :
    absDuration (now.sub ts) ≤ maxClockSkew ↔
      now.nanos - ts.nanos ≤ -2 ^ 63 ∨ |now.nanos - ts.nanos| ≤ maxClockSkew := by
  rw [absDuration_sub_le (by decide) (by decide)]
  simp [maxClockSkew]

/-- The skew is bounded for precisely the timestamps that are less than `2 ^ 63` nanoseconds
ahead of the clock, apart from those that are missing or unreadable. -/
theorem skewBounded_iff (timestamp : Text) (now : Instant) :
    SkewBounded hmac sum256 parseRFC3339 timestamp now ↔
      timestamp = [] ∨ ∀ ts, parseTimestamp parseRFC3339 timestamp = some ts →
        ts.nanos - now.nanos < 2 ^ 63 := by
  constructor
  · intro hbounded
    refine or_iff_not_imp_left.mpr fun hne ts hparse => ?_
    by_contra hfar
    have hskew : absDuration (now.sub ts) ≤ maxClockSkew :=
      absDuration_sub_le_skew.mpr (.inl (by omega))
    obtain ⟨ts', hparse', hclose⟩ := hbounded _ _ _ rfl
      (middleware_signedRequest hmac sum256 parseRFC3339 0 [] hne hparse hskew)
    obtain rfl := Option.some.inj (hparse.symm.trans hparse')
    rw [abs_le, maxClockSkew] at hclose
    omega
  · rintro hahead store r id rfl haccept
    obtain ⟨⟨-, hne, -⟩, ⟨ts, hparse, hskew⟩, -⟩ := (middleware_eq_ok ..).mp haccept
    rcases hahead with hnil | hahead
    · exact absurd hnil hne
    · have hlt := hahead ts hparse
      rcases absDuration_sub_le_skew.mp hskew with hfar | hclose
      · omega
      · exact ⟨ts, hparse, hclose⟩

/-- Whatever the hashes, a signed request dated in the year 3000 in Unix seconds reaches the next
handler in 2026. -/
theorem middleware_year_3000 (hnone : parseRFC3339 (text "32503680000") = none) :
    parseTimestamp parseRFC3339 (text "32503680000") = some (.unix 32503680000) ∧
      middleware hmac sum256 parseRFC3339 (fun _ => .ok (0, [])) (.unix 1780000000)
        (signedRequest hmac sum256 [] (text "32503680000")) = .ok ⟨0, text "key"⟩ := by
  have hint : parseInt (text "32503680000") = .ok 32503680000 := by decide +kernel
  have hparse : parseTimestamp parseRFC3339 (text "32503680000") = some (.unix 32503680000) := by
    rw [parseTimestamp, hnone, hint]
  have hskew : absDuration ((Instant.unix 1780000000).sub (.unix 32503680000)) ≤ maxClockSkew := by
    decide +kernel
  exact ⟨hparse, middleware_signedRequest hmac sum256 parseRFC3339 0 [] (by decide) hparse hskew⟩

/-- A hash for concrete requests. -/
def zeroDigest : Hex.Digest := ⟨List.replicate 32 0, List.length_replicate⟩

/-- The accepted timestamp is almost a thousand years ahead. -/
theorem middleware_accepts_year_3000 :
    middleware (fun _ _ => zeroDigest) (fun _ => zeroDigest) (fun _ => none)
        (fun _ => .ok (0, [])) (.unix 1780000000)
        (signedRequest (fun _ _ => zeroDigest) (fun _ => zeroDigest) [] (text "32503680000")) =
      .ok ⟨0, text "key"⟩ ∧
      maxClockSkew < |(Instant.unix 1780000000).nanos - (Instant.unix 32503680000).nanos| ∧
      ¬ SkewBounded (fun _ _ => zeroDigest) (fun _ => zeroDigest) (fun _ => none)
        (text "32503680000") (.unix 1780000000) := by
  obtain ⟨hparse, haccept⟩ :=
    middleware_year_3000 (fun _ _ => zeroDigest) (fun _ => zeroDigest) (fun _ => none) rfl
  have hfar : maxClockSkew <
      |(Instant.unix 1780000000).nanos - (Instant.unix 32503680000).nanos| := by decide +kernel
  refine ⟨haccept, hfar, fun hbounded => ?_⟩
  obtain ⟨ts, hts, hclose⟩ := hbounded _ _ _ rfl haccept
  obtain rfl := Option.some.inj (hparse.symm.trans hts)
  exact absurd hclose (not_le.mpr hfar)

end Selatpay.Auth
