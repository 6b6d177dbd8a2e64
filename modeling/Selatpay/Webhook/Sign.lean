import Selatpay.Core.Clock
import Selatpay.Webhook.Header

/-!
# Webhook signatures

`sign` produces the signature header of a webhook and `verify` checks one, over any keyed
hash with digests of 32 bytes. What `verify` accepts is said once, by `verify_eq_ok`:
soundness, the round trip and the behaviour during a rotation of secrets follow from it
and from what is read out of a header.
-/

namespace Selatpay.Webhook

open Decimal

variable (hmac : Text → Text → Hex.Digest)

/-- The bytes that are signed: the timestamp, a point and the body. -/
def signedPayload (t : Int) (body : Text) : Text := formatInt t ++ 46 :: body

/-- `Sign`. -/
def sign (secret body : Text) (ts : Instant) : Except SignatureError Text :=
  if secret = [] then .error .emptySecret
  else
    let unix := ts.toUnix
    let sum := hmac secret (signedPayload unix body)
    .ok (text "t=" ++ formatInt unix ++ text "," ++ signatureScheme ++ text "=" ++
      Hex.encode sum.1)

/-- `Verify`. -/
def verify (secret body header : Text) (now : Instant) (tolerance : Int) :
    Except SignatureError Unit :=
  if secret = [] then .error .emptySecret
  else match parseSignatureHeader header with
    | .error err => .error err
    | .ok (ts, mac) =>
      if tolerance > 0 ∧ absDuration (now.sub (.unix ts)) > tolerance then
        .error (.outsideTolerance tolerance)
      else if mac ≠ (hmac secret (signedPayload ts body)).1 then .error .mismatch
      else .ok ()

/-- The entry of a timestamp. -/
def timestampEntry (t : Int) : Text := timestampKey ++ 61 :: formatInt t

/-- The entry of a signature. -/
def signatureEntry (mac : Text) : Text := signatureScheme ++ 61 :: Hex.encode mac

/-- A keyed hash that repeats the first byte of its key, for concrete headers. -/
def firstByteHmac : Text → Text → Hex.Digest := fun key _ =>
  ⟨List.replicate 32 (key.headD 0), List.length_replicate⟩

section Acceptance

variable {hmac} {secret body header : Text} {now : Instant} {tolerance : Int}

/-- Accepted are the headers whose timestamp passes the check of its age and whose signature
is the hash of that timestamp and the body. -/
theorem verify_eq_ok : verify hmac secret body header now tolerance = .ok () ↔
    secret ≠ [] ∧ ∃ t,
      parseSignatureHeader header = .ok (t, (hmac secret (signedPayload t body)).1) ∧
      (0 < tolerance → absDuration (now.sub (.unix t)) ≤ tolerance) := by
  unfold verify
  split
  · next hs => simp [hs]
  · next hs =>
    cases hparse : parseSignatureHeader header with
    | error err => simp
    | ok p =>
      obtain ⟨ts, mac⟩ := p
      simp only [ne_eq, hs, not_false_eq_true, true_and, Except.ok.injEq, Prod.mk.injEq]
      constructor
      · intro h
        split at h
        · cases h
        next hage =>
          split at h
          · cases h
          next hmac' =>
            exact ⟨ts, ⟨rfl, not_not.mp hmac'⟩, fun hpos => not_lt.mp fun hlt => hage ⟨hpos, hlt⟩⟩
      · rintro ⟨t, ⟨rfl, rfl⟩, hage⟩
        rw [if_neg fun h => absurd (hage h.1) (not_le.mpr h.2), if_neg (not_not.mpr rfl)]

/-- The signed bytes determine the timestamp and the body. -/
theorem signedPayload_injective {t t' : Int} {body body' : Text}
    (h : signedPayload t body = signedPayload t' body') : t = t' ∧ body = body' := by
  have hpoint : ∀ x : Int, 46 ∉ formatInt x := notMem_formatInt rfl (by decide)
  obtain ⟨ht, hbody⟩ := Text.append_cons_inj (hpoint t) (hpoint t') h
  exact ⟨formatInt_injective ht, hbody⟩

end Acceptance

/-! ## The round trip -/

/-- Only spaces and tabs. -/
def IsPad (s : Text) : Prop := ∀ c ∈ s, isSpace c

instance (s : Text) : Decidable (IsPad s) := List.decidableBAll (isSpace ·) s

/-- A signed header is the two entries. -/
theorem sign_eq_ok {secret : Text} (h : secret ≠ []) (body : Text) (ts : Instant) :
    sign hmac secret body ts = .ok (timestampEntry ts.toUnix ++ 44 ::
      signatureEntry (hmac secret (signedPayload ts.toUnix body)).1) := by
  simp only [sign, h, if_false, timestampEntry, signatureEntry, List.append_assoc]
  rfl

theorem isSpace_formatInt (t : Int) : ∀ c ∈ formatInt t, isSpace c = false :=
  isSpace_eq_false (notMem_formatInt rfl (by decide) t) (notMem_formatInt rfl (by decide) t)

theorem isSpace_encode (mac : Text) : ∀ c ∈ Hex.encode mac, isSpace c = false :=
  isSpace_eq_false (Hex.notMem_encode rfl mac) (Hex.notMem_encode rfl mac)

theorem comma_notMem_timestampEntry (t : Int) : 44 ∉ timestampEntry t := by
  have hkey : 44 ∉ timestampKey := by decide
  have hval : 44 ∉ formatInt t := notMem_formatInt rfl (by decide) t
  simp [timestampEntry, hkey, hval]

theorem comma_notMem_signatureEntry (mac : Text) : 44 ∉ signatureEntry mac := by
  have hkey : 44 ∉ signatureScheme := by decide
  have hval : 44 ∉ Hex.encode mac := Hex.notMem_encode rfl mac
  simp [signatureEntry, hkey, hval]

theorem IsPad.comma_notMem {s : Text} (h : IsPad s) : 44 ∉ s := by
  intro hmem
  exact absurd (h 44 hmem) (by decide)

/-- What the two entries are read as, whatever spaces surround them. -/
theorem entry_timestampEntry {l r : Text} (hl : IsPad l) (hr : IsPad r) (t : Int) :
    entry (trimSpace (l ++ timestampEntry t ++ r)) = some (timestampKey, formatInt t) :=
  entry_trimSpace_pad hl hr (Text.forall_mem_of_all (by decide)) (isSpace_formatInt t)

theorem entry_signatureEntry {l r : Text} (hl : IsPad l) (hr : IsPad r) (mac : Text) :
    entry (trimSpace (l ++ signatureEntry mac ++ r)) = some (signatureScheme, Hex.encode mac) :=
  entry_trimSpace_pad hl hr (Text.forall_mem_of_all (by decide)) (isSpace_encode mac)

/-- A part that can stand in a header beside the two entries. -/
def IsExtra (part : Text) : Prop := 44 ∉ part ∧ IsForeign part

/-- The parts of a header that puts others before, between and after the two entries. -/
def surround (pre mid post : List Text) (ts sig : Text) : List Text :=
  pre ++ ts :: (mid ++ sig :: post)

section Surrounded

variable {pre mid post : List Text} {tl tr vl vr : Text} {t : Int} {mac : Text}
variable (hextra : ∀ part ∈ pre ++ mid ++ post, IsExtra part) (htl : IsPad tl) (htr : IsPad tr)
  (hvl : IsPad vl) (hvr : IsPad vr)

include hextra htl htr hvl hvr

/-- Splitting gives the parts back. -/
theorem splitOn_surround :
    splitOn ([44].intercalate (surround pre mid post (tl ++ timestampEntry t ++ tr)
      (vl ++ signatureEntry mac ++ vr))) 44 =
      surround pre mid post (tl ++ timestampEntry t ++ tr) (vl ++ signatureEntry mac ++ vr) := by
  rw [splitOn_eq]
  apply List.splitOn_intercalate
  · intro part hpart
    simp only [surround, List.mem_append, List.mem_cons] at hpart hextra
    rcases hpart with hpart | rfl | hpart | rfl | hpart
    · exact (hextra part (.inl (.inl hpart))).1
    · simp [htl.comma_notMem, htr.comma_notMem, comma_notMem_timestampEntry]
    · exact (hextra part (.inl (.inr hpart))).1
    · simp [hvl.comma_notMem, hvr.comma_notMem, comma_notMem_signatureEntry]
    · exact (hextra part (.inr hpart)).1
  · simp [surround]

/-- The only values under the two keys are those of the two entries. -/
theorem valuesOf_surround :
    valuesOf timestampKey (surround pre mid post (tl ++ timestampEntry t ++ tr)
      (vl ++ signatureEntry mac ++ vr)) = [formatInt t] ∧
    valuesOf signatureScheme (surround pre mid post (tl ++ timestampEntry t ++ tr)
      (vl ++ signatureEntry mac ++ vr)) = [Hex.encode mac] := by
  have hforeign : ∀ ps : List Text, ps ⊆ pre ++ mid ++ post →
      valuesOf timestampKey ps = [] ∧ valuesOf signatureScheme ps = [] :=
    fun _ hsub => valuesOf_of_isForeign fun part hpart => (hextra part (hsub hpart)).2
  have hpre := hforeign pre (by simp)
  have hmid := hforeign mid (by simp)
  have hpost := hforeign post (by simp)
  have hts := entry_timestampEntry htl htr t
  have hsig := entry_signatureEntry hvl hvr mac
  simp only [surround, valuesOf_append, valuesOf_cons_some hts, valuesOf_cons_some hsig, hpre,
    hmid, hpost, signatureScheme_ne, signatureScheme_ne.symm, if_true, if_false,
    List.nil_append, and_self]

end Surrounded

/-- The two entries are read whatever stands around them. -/
theorem parseSignatureHeader_surround {pre mid post : List Text} {tl tr vl vr : Text} {t : Int}
    (ht : IsInt64 t) (mac : Hex.Digest) (hextra : ∀ part ∈ pre ++ mid ++ post, IsExtra part)
    (htl : IsPad tl) (htr : IsPad tr) (hvl : IsPad vl) (hvr : IsPad vr) :
    parseSignatureHeader ([44].intercalate (surround pre mid post (tl ++ timestampEntry t ++ tr)
      (vl ++ signatureEntry mac.1 ++ vr))) = .ok (t, mac.1) := by
  have hparse := parseInt_formatInt ht
  apply parseSignatureHeader_eq_ok.mpr
  rw [splitOn_surround hextra htl htr hvl hvr, (valuesOf_surround hextra htl htr hvl hvr).1,
    (valuesOf_surround hextra htl htr hvl hvr).2]
  refine ⟨by simp [hparse], ⟨_, rfl, hparse⟩, _, rfl, ?_, Hex.decode_encode mac.1⟩
  simpa using mac.ne_nil

/-- A timestamp within the tolerance passes the check of its age. -/
theorem absDuration_sub_unix_le {now ts : Instant} {tolerance : Int} (htol : IsInt64 tolerance)
    (hclose : tolerance ≤ 0 ∨ |now.nanos - ts.wholeSecond.nanos| ≤ tolerance) :
    0 < tolerance → absDuration (now.sub (.unix ts.toUnix)) ≤ tolerance := by
  intro hpos
  have hle : tolerance ≤ 2 ^ 63 - 1 := by
    unfold IsInt64 at htol
    omega
  rw [absDuration_sub_le hpos.le hle, Instant.unix_toUnix]
  rcases hclose with hclose | hclose
  · omega
  · exact .inr (.inl hclose)

/-- What is signed is accepted within the tolerance, with any foreign parts before, between
and after the two entries and any spaces around these. -/
theorem verify_sign {secret : Text} (hsecret : secret ≠ []) (body : Text) (ts now : Instant)
    {tolerance : Int} (htol : IsInt64 tolerance)
    (hclose : tolerance ≤ 0 ∨ |now.nanos - ts.wholeSecond.nanos| ≤ tolerance) :
    ∃ signed t v, sign hmac secret body ts = .ok signed ∧ splitOn signed 44 = [t, v] ∧
      ∀ pre mid post : List Text, (∀ part ∈ pre ++ mid ++ post, IsExtra part) →
      ∀ tl tr vl vr : Text, IsPad tl → IsPad tr → IsPad vl → IsPad vr →
        verify hmac secret body ([44].intercalate
          (surround pre mid post (tl ++ t ++ tr) (vl ++ v ++ vr))) now tolerance = .ok () := by
  have hsplit : splitOn (timestampEntry ts.toUnix ++ 44 ::
      signatureEntry (hmac secret (signedPayload ts.toUnix body)).1) 44 =
      [timestampEntry ts.toUnix,
        signatureEntry (hmac secret (signedPayload ts.toUnix body)).1] := by
    rw [splitOn_eq,
      List.splitOn_append_cons_self_of_not_mem (comma_notMem_timestampEntry ts.toUnix),
      List.splitOn_eq_singleton (comma_notMem_signatureEntry _)]
  refine ⟨_, _, _, sign_eq_ok hmac hsecret body ts, hsplit, ?_⟩
  intro pre mid post hextra tl tr vl vr htl htr hvl hvr
  exact verify_eq_ok.mpr ⟨hsecret, ts.toUnix,
    parseSignatureHeader_surround ts.isInt64_toUnix _ hextra htl htr hvl hvr,
    absDuration_sub_unix_le htol hclose⟩

theorem verify_sign_beside_v2 : ∃ signed t v,
    sign firstByteHmac (text "k") (text "body") (.unix 1700000000) = .ok signed ∧
      splitOn signed 44 = [t, v] ∧
      verify firstByteHmac (text "k") (text "body")
        ([44].intercalate (surround [] [] [text "v2=deadbeef"] ([] ++ t ++ []) ([32] ++ v ++ [9])))
        (.unix 1700000060) 60000000000 = .ok () := by
  obtain ⟨signed, t, v, hsign, hsplit, hverify⟩ := @verify_sign firstByteHmac (text "k")
    (by decide) (text "body") (.unix 1700000000) (.unix 1700000060) 60000000000 (by decide)
    (.inr (by decide +kernel))
  have hentry : entry (trimSpace (text "v2=deadbeef")) = some (text "v2", text "deadbeef") := by
    decide
  have hextra : IsExtra (text "v2=deadbeef") := by
    refine ⟨by decide, fun key val he => ?_⟩
    obtain ⟨rfl, rfl⟩ := Prod.mk.inj (Option.some.inj (hentry.symm.trans he))
    decide
  exact ⟨signed, t, v, hsign, hsplit, hverify [] [] [text "v2=deadbeef"] (by simpa using hextra)
    [] [] [32] [9] (by decide) (by decide) (by decide) (by decide)⟩

/-! ## Several signatures -/

/-- The header of a timestamp and its signatures under a list of secrets. -/
def rotationHeader (body : Text) (ts : Instant) (secrets : List Text) : Text :=
  [44].intercalate (timestampEntry ts.toUnix :: secrets.map fun secret =>
    signatureEntry (hmac secret (signedPayload ts.toUnix body)).1)

theorem valuesOf_signatureEntries (macs : List Text) :
    valuesOf timestampKey (macs.map signatureEntry) = [] ∧
      valuesOf signatureScheme (macs.map signatureEntry) = macs.map Hex.encode := by
  induction macs with
  | nil => exact ⟨rfl, rfl⟩
  | cons mac macs ih =>
    have hsig : entry (trimSpace (signatureEntry mac)) =
        some (signatureScheme, Hex.encode mac) := by
      simpa using entry_signatureEntry (l := []) (r := []) (by decide) (by decide) mac
    rw [List.map_cons, valuesOf_cons_some hsig, valuesOf_cons_some hsig, if_neg signatureScheme_ne,
      if_pos rfl, ih.1, ih.2]
    exact ⟨rfl, rfl⟩

/-- The values of such a header. -/
theorem valuesOf_rotationHeader (body : Text) (ts : Instant) (secrets : List Text) :
    valuesOf timestampKey (splitOn (rotationHeader hmac body ts secrets) 44) =
        [formatInt ts.toUnix] ∧
      valuesOf signatureScheme (splitOn (rotationHeader hmac body ts secrets) 44) =
        secrets.map fun secret => Hex.encode (hmac secret (signedPayload ts.toUnix body)).1 := by
  have hcomma : ∀ part ∈ timestampEntry ts.toUnix :: secrets.map (fun secret =>
      signatureEntry (hmac secret (signedPayload ts.toUnix body)).1), 44 ∉ part := by
    intro part hpart
    rcases List.mem_cons.mp hpart with rfl | hpart
    · exact comma_notMem_timestampEntry _
    · obtain ⟨secret, -, rfl⟩ := List.mem_map.mp hpart
      exact comma_notMem_signatureEntry _
  have hts : entry (trimSpace (timestampEntry ts.toUnix)) =
      some (timestampKey, formatInt ts.toUnix) := by
    simpa using entry_timestampEntry (l := []) (r := []) (by decide) (by decide) ts.toUnix
  have hsigs := valuesOf_signatureEntries
    (secrets.map fun secret => (hmac secret (signedPayload ts.toUnix body)).1)
  simp only [List.map_map, Function.comp_def] at hsigs
  rw [splitOn_eq, rotationHeader, List.splitOn_intercalate 44 hcomma (by simp),
    valuesOf_cons_some hts, valuesOf_cons_some hts, if_pos rfl, if_neg signatureScheme_ne.symm,
    hsigs.1, hsigs.2]
  exact ⟨rfl, rfl⟩

/-- The last of the signatures is the one that is read. -/
theorem parseSignatureHeader_rotationHeader (body : Text) (ts : Instant) (secrets : List Text)
    (last : Text) :
    parseSignatureHeader (rotationHeader hmac body ts (secrets ++ [last])) =
      .ok (ts.toUnix, (hmac last (signedPayload ts.toUnix body)).1) := by
  obtain ⟨hts, hsigs⟩ := valuesOf_rotationHeader hmac body ts (secrets ++ [last])
  have hparse := parseInt_formatInt ts.isInt64_toUnix
  apply parseSignatureHeader_eq_ok.mpr
  rw [hts, hsigs, List.map_append, List.map_singleton, List.getLast?_concat]
  refine ⟨by simp [hparse], ⟨_, rfl, hparse⟩, _, rfl, ?_, Hex.decode_encode _⟩
  simpa using Hex.Digest.ne_nil _

theorem sign_eq_rotationHeader {secret : Text} (h : secret ≠ []) (body : Text) (ts : Instant) :
    sign hmac secret body ts = .ok (rotationHeader hmac body ts [secret]) := by
  rw [sign_eq_ok hmac h]
  simp [rotationHeader]

/-! ## Soundness -/

/-- The header has an entry with this timestamp. -/
def HasTimestamp (header : Text) (t : Int) : Prop :=
  ∃ v ∈ valuesOf timestampKey (splitOn header 44), parseInt v = .ok t

/-- The header has an entry with this signature. -/
def HasSignature (header mac : Text) : Prop :=
  ∃ v ∈ valuesOf signatureScheme (splitOn header 44), Hex.decode v = .ok mac

/-- The header is accepted only for a timestamp and a signature that it has, the signature
being that of the timestamp and the body, and the timestamp within the tolerance. -/
def Sound (secret body header : Text) (now : Instant) (tolerance : Int) : Prop :=
  verify hmac secret body header now tolerance = .ok () →
    ∃ t, parseSignatureHeader header = .ok (t, (hmac secret (signedPayload t body)).1) ∧
      HasTimestamp header t ∧ HasSignature header (hmac secret (signedPayload t body)).1 ∧
      |now.nanos - t * 1000000000| ≤ tolerance

/-- The age that is computed for a timestamp is compared as the exact age is: the timestamp is
less than `2 ^ 63` nanoseconds ahead; it is an instant, unless it is out of tolerance
anyway; and the largest tolerance does not meet a timestamp `2 ^ 63` nanoseconds ago. -/
def AgeExact (now : Instant) (t tolerance : Int) : Prop :=
  -2 ^ 63 < now.nanos - (Instant.unix t).nanos ∧
    (t + Instant.unixToInternal < 2 ^ 63 ∨
      tolerance < |now.nanos - (Instant.unix t).nanos|) ∧
    (now.nanos - (Instant.unix t).nanos < 2 ^ 63 ∨ tolerance < 2 ^ 63 - 1 ∨
      |now.nanos - t * 1000000000| ≤ tolerance)

/-- The comparison of the computed age is that of the exact age precisely under this
condition. -/
theorem ageExact_iff {now : Instant} {t tolerance : Int} (ht : IsInt64 t) (hpos : 0 < tolerance)
    (htol : IsInt64 tolerance) :
    AgeExact now t tolerance ↔
      (absDuration (now.sub (.unix t)) ≤ tolerance → |now.nanos - t * 1000000000| ≤ tolerance) := by
  have hle : tolerance ≤ 2 ^ 63 - 1 := by
    unfold IsInt64 at htol
    omega
  rw [absDuration_sub_le hpos.le hle, AgeExact]
  by_cases hrange : t + Instant.unixToInternal < 2 ^ 63
  · rw [Instant.nanos_unix ht hrange]
    generalize now.nanos - t * 1000000000 = d
    rw [abs_le]
    omega
  · rw [Instant.nanos_unix_of_le ht (by omega)]
    have hshift : now.nanos - (t - 2 ^ 64) * 1000000000 =
        now.nanos - t * 1000000000 + 2 ^ 64 * 1000000000 := by ring
    rw [hshift]
    generalize now.nanos - t * 1000000000 = d
    rw [abs_le, abs_le, lt_abs]
    omega

/-- Verification is sound for precisely the headers whose timestamp, when its signature is
right, is compared by its exact age; and what is signed is a timestamp and a body. -/
theorem sound_iff_ageExact {secret : Text} (hsecret : secret ≠ []) (body header : Text)
    (now : Instant) {tolerance : Int} (hpos : 0 < tolerance) (htol : IsInt64 tolerance) :
    (Sound hmac secret body header now tolerance ↔
      ∀ t, parseSignatureHeader header = .ok (t, (hmac secret (signedPayload t body)).1) →
        AgeExact now t tolerance) ∧
    ∀ t t' body body', signedPayload t body = signedPayload t' body' → t = t' ∧ body = body' := by
  refine ⟨⟨fun hsound t hparse => ?_, fun hexact haccept => ?_⟩,
    fun t t' body body' => signedPayload_injective⟩
  · obtain ⟨-, ⟨v, hv, ht⟩, -⟩ := parseSignatureHeader_eq_ok.mp hparse
    apply (ageExact_iff (isInt64_of_parseInt ht) hpos htol).mpr
    intro hage
    obtain ⟨t', hparse', -, -, hclose⟩ :=
      hsound (verify_eq_ok.mpr ⟨hsecret, t, hparse, fun _ => hage⟩)
    obtain rfl := (Prod.mk.inj (Except.ok.inj (hparse.symm.trans hparse'))).1
    exact hclose
  · obtain ⟨-, t, hparse, hage⟩ := verify_eq_ok.mp haccept
    obtain ⟨-, ⟨v, hv, ht⟩, w, hw, -, hmac'⟩ := parseSignatureHeader_eq_ok.mp hparse
    have hclose := (ageExact_iff (isInt64_of_parseInt ht) hpos htol).mp (hexact t hparse)
    exact ⟨t, hparse, ⟨v, List.mem_of_getLast? hv, ht⟩, ⟨w, List.mem_of_getLast? hw, hmac'⟩,
      hclose (hage hpos)⟩

theorem sound_recent_header :
    Sound firstByteHmac [1] [] (timestampEntry 1780000000 ++ 44 ::
      signatureEntry (List.replicate 32 1)) (.unix 1780000060) 300000000000 := by
  apply (sound_iff_ageExact firstByteHmac (by decide) [] _ _ (by norm_num)
    (by unfold IsInt64; norm_num)).1.mpr
  intro t hparse
  have hread : parseSignatureHeader (timestampEntry 1780000000 ++ 44 ::
      signatureEntry (List.replicate 32 1)) = .ok (1780000000, List.replicate 32 1) := by
    decide +kernel
  obtain rfl := (Prod.mk.inj (Except.ok.inj (hread.symm.trans hparse))).1
  unfold AgeExact
  decide +kernel

/-- Whatever the hash, what is signed in the year 3000 is accepted in 2026 under a tolerance of
five minutes, and no timestamp of its header is within it. -/
theorem verify_year_3000 :
    verify hmac [1] [] (rotationHeader hmac [] (.unix 32503680000) [[1]]) (.unix 1780000000)
        300000000000 = .ok () ∧
      ∀ t, HasTimestamp (rotationHeader hmac [] (.unix 32503680000) [[1]]) t →
        300000000000 < |(Instant.unix 1780000000).nanos - t * 1000000000| := by
  have hunix : (Instant.unix 32503680000).toUnix = 32503680000 := by decide
  have hparse : parseInt (formatInt 32503680000) = .ok 32503680000 := by decide +kernel
  have hread := parseSignatureHeader_rotationHeader hmac [] (.unix 32503680000) [] [1]
  refine ⟨verify_eq_ok.mpr ⟨by decide, _, hread, fun _ => by decide +kernel⟩, ?_⟩
  rintro t ⟨v, hv, ht⟩
  rw [(valuesOf_rotationHeader hmac [] (.unix 32503680000) [[1]]).1, hunix,
    List.mem_singleton] at hv
  rw [hv, hparse] at ht
  obtain rfl := Except.ok.inj ht
  decide +kernel

/-- A signature of the year 3000 is accepted, so verification is not sound. -/
theorem verify_accepts_year_3000 :
    sign firstByteHmac [1] [] (.unix 32503680000) =
        .ok (rotationHeader firstByteHmac [] (.unix 32503680000) [[1]]) ∧
      verify firstByteHmac [1] [] (rotationHeader firstByteHmac [] (.unix 32503680000) [[1]])
        (.unix 1780000000) 300000000000 = .ok () ∧
      ¬ Sound firstByteHmac [1] [] (rotationHeader firstByteHmac [] (.unix 32503680000) [[1]])
        (.unix 1780000000) 300000000000 := by
  obtain ⟨haccept, hfar⟩ := verify_year_3000 firstByteHmac
  refine ⟨sign_eq_rotationHeader firstByteHmac (by decide) [] _, haccept, fun hsound => ?_⟩
  obtain ⟨t, -, htime, -, hclose⟩ := hsound haccept
  exact absurd hclose (not_le.mpr (hfar t htime))

/-! ## Rotation -/

/-- A header of a rotation of secrets: every timestamp in it is that of an instant and every
signature is that of the instant and the body under some secret; at least one of each is
there, and the given secret is among those that signed. -/
structure IsRotation (secret body header : Text) (ts : Instant) : Prop where
  timestamps : ∀ v ∈ valuesOf timestampKey (splitOn header 44), parseInt v = .ok ts.toUnix
  signatures : ∀ v ∈ valuesOf signatureScheme (splitOn header 44), ∃ other,
    Hex.decode v = .ok (hmac other (signedPayload ts.toUnix body)).1
  timestamped : valuesOf timestampKey (splitOn header 44) ≠ []
  signed : HasSignature header (hmac secret (signedPayload ts.toUnix body)).1

/-- A header of a rotation is accepted within the tolerance precisely if its last signature
is that of the secret. -/
theorem verify_rotation_iff {secret body header : Text} {ts now : Instant} {tolerance : Int}
    (hrotation : IsRotation hmac secret body header ts) (htol : IsInt64 tolerance)
    (hclose : tolerance ≤ 0 ∨ |now.nanos - ts.wholeSecond.nanos| ≤ tolerance) :
    verify hmac secret body header now tolerance = .ok () ↔
      secret ≠ [] ∧ ∃ v, (valuesOf signatureScheme (splitOn header 44)).getLast? = some v ∧
        Hex.decode v = .ok (hmac secret (signedPayload ts.toUnix body)).1 := by
  obtain ⟨htimes, -, hne, -⟩ := hrotation
  constructor
  · intro h
    obtain ⟨hsecret, t, hparse, -⟩ := verify_eq_ok.mp h
    obtain ⟨-, ⟨v, hv, ht⟩, w, hw, -, hmac'⟩ := parseSignatureHeader_eq_ok.mp hparse
    have heq := htimes v (List.mem_of_getLast? hv)
    obtain rfl := Except.ok.inj (ht.symm.trans heq)
    exact ⟨hsecret, w, hw, hmac'⟩
  · rintro ⟨hsecret, w, hw, hmac'⟩
    have hlast := List.getLast?_eq_some_getLast hne
    refine verify_eq_ok.mpr ⟨hsecret, ts.toUnix, parseSignatureHeader_eq_ok.mpr
      ⟨fun v hv => ⟨_, htimes v hv⟩, ⟨_, hlast, htimes _ (List.mem_of_getLast? hlast)⟩,
        w, hw, ?_, hmac'⟩, absDuration_sub_unix_le htol hclose⟩
    rintro rfl
    exact Hex.Digest.ne_nil _ (Except.ok.inj hmac').symm

/-- The header of several signatures is one of a rotation, in any order of the secrets. -/
theorem isRotation_rotationHeader {secret : Text} {secrets : List Text} (h : secret ∈ secrets)
    (body : Text) (ts : Instant) :
    IsRotation hmac secret body (rotationHeader hmac body ts secrets) ts := by
  obtain ⟨hts, hsigs⟩ := valuesOf_rotationHeader hmac body ts secrets
  constructor
  · rw [hts]
    simp [parseInt_formatInt ts.isInt64_toUnix]
  · rw [hsigs]
    intro v hv
    obtain ⟨other, -, rfl⟩ := List.mem_map.mp hv
    exact ⟨other, Hex.decode_encode _⟩
  · simp [hts]
  · refine ⟨_, ?_, Hex.decode_encode _⟩
    rw [hsigs]
    exact List.mem_map_of_mem h

theorem verify_rotation_last :
    verify firstByteHmac [1] [] (rotationHeader firstByteHmac [] (.unix 1780000000) [[2], [1]])
      (.unix 1780000060) 300000000000 = .ok () :=
  (verify_rotation_iff firstByteHmac
    (isRotation_rotationHeader firstByteHmac (by decide) [] (.unix 1780000000))
    (by decide) (.inr (by decide +kernel))).mpr ⟨by decide, _, rfl, by decide +kernel⟩

/-- Whatever the hash, a valid signature is refused when one that another secret makes of the same
bytes follows it. -/
theorem verify_two_signatures {secret other body : Text} {ts now : Instant} {tolerance : Int}
    (hsecret : secret ≠ []) (hother : (hmac other (signedPayload ts.toUnix body)).1 ≠
      (hmac secret (signedPayload ts.toUnix body)).1) (htol : IsInt64 tolerance)
    (hclose : tolerance ≤ 0 ∨ |now.nanos - ts.wholeSecond.nanos| ≤ tolerance) :
    verify hmac secret body (rotationHeader hmac body ts [secret, other]) now tolerance =
      .error .mismatch := by
  have hread := parseSignatureHeader_rotationHeader hmac body ts [secret] other
  have hage := absDuration_sub_unix_le htol hclose
  rw [List.singleton_append] at hread
  rw [verify, if_neg hsecret, hread]
  dsimp only
  rw [if_neg fun h => absurd (hage h.1) (not_le.mpr h.2), if_pos hother]

/-- The valid signature is there, and it is refused. -/
theorem verify_rotation_first :
    IsRotation firstByteHmac [1] []
        (rotationHeader firstByteHmac [] (.unix 1780000000) [[1], [2]]) (.unix 1780000000) ∧
      verify firstByteHmac [1] [] (rotationHeader firstByteHmac [] (.unix 1780000000) [[1], [2]])
        (.unix 1780000060) 300000000000 = .error .mismatch :=
  ⟨isRotation_rotationHeader firstByteHmac (by decide) [] _,
    verify_two_signatures firstByteHmac (by decide) (by decide) (by decide)
      (.inr (by decide +kernel))⟩

end Selatpay.Webhook
