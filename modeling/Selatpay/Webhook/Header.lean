import Selatpay.Core.Decimal
import Selatpay.Core.Hex

/-!
# The signature header

`parseSignatureHeader` reads the timestamp and the signature of a webhook out of a
comma-separated list of `key=value` entries. Whatever it returns comes from the last
entry of each of the two keys, which `parseSignatureHeader_eq_ok` says once and for all
headers.
-/

namespace Selatpay.Webhook

open Decimal

/-! ## Splitting -/

/-- The loop of `splitOn`, with the part that is being read. -/
def splitLoop (sep : UInt8) : Text → Text → List Text
  | part, [] => [part]
  | part, c :: s => if c = sep then part :: splitLoop sep [] s else splitLoop sep (part ++ [c]) s

/-- `splitOn`. -/
def splitOn (s : Text) (sep : UInt8) : List Text := splitLoop sep [] s

/-- A space or a tab. -/
def isSpace (c : UInt8) : Bool := c == 32 || c == 9

/-- `trimSpace`. -/
def trimSpace (s : Text) : Text := (s.dropWhile isSpace).rdropWhile isSpace

/-- `indexByte`, without an index where the source returns `-1`. -/
def indexByte (s : Text) (b : UInt8) : Option Nat := s.findIdx? (· == b)

/-- The key and the value of a trimmed part, around its first `=`. -/
def entry (part : Text) : Option (Text × Text) :=
  match indexByte part 61 with
  | none => none
  | some eq => some (part.take eq, part.drop (eq + 1))

theorem splitLoop_eq (sep : UInt8) (part s : Text) :
    splitLoop sep part s = (s.splitOn sep).modifyHead (part ++ ·) := by
  induction s generalizing part with
  | nil => simp [splitLoop]
  | cons c s ih =>
    rw [splitLoop, List.splitOn_cons_eq_if_modifyHead]
    by_cases hc : c = sep
    · simp only [hc, if_true, ih, List.nil_append, beq_self_eq_true, List.modifyHead_cons,
        List.append_nil]
      congr 1
      exact congrFun List.modifyHead_id _
    · simp [hc, ih, List.modifyHead_modifyHead, Function.comp_def]

/-- The loop splits as the library does. -/
theorem splitOn_eq (s : Text) (sep : UInt8) : splitOn s sep = s.splitOn sep := by
  rw [splitOn, splitLoop_eq]
  exact congrFun List.modifyHead_id _

/-- The entry of a part is its cut at the first `=`. -/
theorem entry_eq_cut (part : Text) : entry part = Text.cut 61 part := by
  induction part with
  | nil => rfl
  | cons c s ih =>
    unfold entry indexByte at ih ⊢
    rw [List.findIdx?_cons, Text.cut, ← ih]
    by_cases hc : c = 61
    · simp [hc]
    · cases hfind : s.findIdx? (· == 61) <;> simp [hc]

/-- A text with neither of the two bytes has no space. -/
theorem isSpace_eq_false {s : Text} (hspace : 32 ∉ s) (htab : 9 ∉ s) :
    ∀ c ∈ s, isSpace c = false := by
  intro c hc
  have h32 : c ≠ 32 := fun h => hspace (h ▸ hc)
  have h9 : c ≠ 9 := fun h => htab (h ▸ hc)
  simp [isSpace, h32, h9]

/-- Texts without spaces are not trimmed, and the spaces around them are. -/
theorem trimSpace_pad {l s r : Text} (hl : ∀ c ∈ l, isSpace c) (hs : ∀ c ∈ s, isSpace c = false)
    (hr : ∀ c ∈ r, isSpace c) (hne : s ≠ []) : trimSpace (l ++ s ++ r) = s := by
  have hdrop : ∀ {t u : Text}, (∀ c ∈ t, isSpace c = false) → t ≠ [] →
      (t ++ u).dropWhile isSpace = t ++ u := by
    intro t u ht hne
    obtain ⟨c, t, rfl⟩ := List.exists_cons_of_ne_nil hne
    simp [ht c List.mem_cons_self]
  have hleft : (l ++ s ++ r).dropWhile isSpace = s ++ r := by
    rw [List.append_assoc, List.dropWhile_append_of_pos hl, hdrop hs hne]
  have hright : (s ++ r).reverse.dropWhile isSpace = s.reverse := by
    rw [List.reverse_append, List.dropWhile_append_of_pos (by simpa using hr)]
    simpa using hdrop (u := []) (t := s.reverse) (by simpa using hs) (by simpa using hne)
  rw [trimSpace, hleft, List.rdropWhile, hright, List.reverse_reverse]

/-! ## Reading -/

/-- The errors of signing and verification. -/
inductive SignatureError
  | emptySecret
  | emptyHeader
  | badTimestamp (num : Text) (err : NumError)
  | missingTimestamp
  | missingSignature
  | badHex (err : Hex.DecodeError)
  | outsideTolerance (tolerance : Int)
  | mismatch
  deriving DecidableEq, Repr

/-- The text of each error, over the quoting of texts, the format of a duration and the
error texts of `encoding/hex`. -/
def SignatureError.message (quote : Text → Text) (duration : Int → Text)
    (hex : Hex.DecodeError → Text) : SignatureError → Text
  | .emptySecret => text "webhook: signing secret is empty"
  | .emptyHeader => text "webhook: empty signature header"
  | .badTimestamp num err => text "webhook: bad timestamp: " ++ err.text "ParseInt" quote num
  | .missingTimestamp => text "webhook: missing t= in signature header"
  | .missingSignature => text "webhook: missing v1= in signature header"
  | .badHex err => text "webhook: bad signature hex: " ++ hex err
  | .outsideTolerance tolerance =>
      text "webhook: signature timestamp outside " ++ duration tolerance ++ text " tolerance"
  | .mismatch => text "webhook: signature mismatch"

/-- `SignatureScheme`. -/
def signatureScheme : Text := text "v1"

/-- The key of the timestamp. -/
def timestampKey : Text := text "t"

/-- The variables of the loop of `parseSignatureHeader`. -/
structure HeaderState where
  ts : Int
  macHex : Text
  hasTS : Bool
  deriving DecidableEq, Repr

/-- One round of the loop. -/
def readPart (st : HeaderState) (part : Text) : Except SignatureError HeaderState :=
  match entry (trimSpace part) with
  | none => .ok st
  | some (key, val) =>
    if key = timestampKey then match parseInt val with
      | .error err => .error (.badTimestamp val err)
      | .ok n => .ok { st with ts := n, hasTS := true }
    else if key = signatureScheme then .ok { st with macHex := val }
    else .ok st

/-- The loop over the parts. -/
def readParts : HeaderState → List Text → Except SignatureError HeaderState
  | st, [] => .ok st
  | st, part :: rest => match readPart st part with
    | .error err => .error err
    | .ok st => readParts st rest

/-- `parseSignatureHeader`. -/
def parseSignatureHeader (s : Text) : Except SignatureError (Int × Text) :=
  if s = [] then .error .emptyHeader
  else match readParts ⟨0, [], false⟩ (splitOn s 44) with
    | .error err => .error err
    | .ok st =>
      if st.hasTS = false then .error .missingTimestamp
      else if st.macHex = [] then .error .missingSignature
      else match Hex.decode st.macHex with
        | .error err => .error (.badHex err)
        | .ok mac => .ok (st.ts, mac)

/-! ## What is read -/

/-- The values that the parts of a header have under a key. -/
def valuesOf (key : Text) (parts : List Text) : List Text :=
  ((parts.filterMap fun part => entry (trimSpace part)).filter (·.1 == key)).map Prod.snd

/-- A part under neither of the two keys. -/
def IsForeign (part : Text) : Prop :=
  ∀ key val, entry (trimSpace part) = some (key, val) → key ≠ timestampKey ∧ key ≠ signatureScheme

theorem valuesOf_append (key : Text) (ps qs : List Text) :
    valuesOf key (ps ++ qs) = valuesOf key ps ++ valuesOf key qs := by
  simp [valuesOf]

theorem valuesOf_cons_none {key part : Text} {ps : List Text}
    (h : entry (trimSpace part) = none) : valuesOf key (part :: ps) = valuesOf key ps := by
  simp [valuesOf, h]

theorem valuesOf_cons_some {key part k v : Text} {ps : List Text}
    (h : entry (trimSpace part) = some (k, v)) :
    valuesOf key (part :: ps) = if k = key then v :: valuesOf key ps else valuesOf key ps := by
  by_cases hk : k = key <;> simp [valuesOf, h, hk]

/-- Every value comes from a part. -/
theorem mem_valuesOf {key v : Text} {ps : List Text} :
    v ∈ valuesOf key ps ↔ ∃ part ∈ ps, entry (trimSpace part) = some (key, v) := by
  simp only [valuesOf, List.mem_map, List.mem_filter, List.mem_filterMap, beq_iff_eq]
  constructor
  · rintro ⟨⟨k, v'⟩, ⟨⟨part, hpart, he⟩, hk⟩, hv⟩
    exact ⟨part, hpart, by rw [he, ← hk, ← hv]⟩
  · rintro ⟨part, hpart, he⟩
    exact ⟨(key, v), ⟨⟨part, hpart, he⟩, rfl⟩, rfl⟩

/-- Foreign parts have no value under either key. -/
theorem valuesOf_of_isForeign {ps : List Text} (h : ∀ part ∈ ps, IsForeign part) :
    valuesOf timestampKey ps = [] ∧ valuesOf signatureScheme ps = [] := by
  constructor <;> rw [List.eq_nil_iff_forall_not_mem] <;> intro v hv <;>
    obtain ⟨part, hpart, he⟩ := mem_valuesOf.mp hv
  · exact (h part hpart _ _ he).1 rfl
  · exact (h part hpart _ _ he).2 rfl

/-- An entry without spaces is read whatever spaces surround it. -/
theorem entry_trimSpace_pad {l key val r : Text} (hl : ∀ c ∈ l, isSpace c)
    (hr : ∀ c ∈ r, isSpace c) (hkey : ∀ c ∈ key, isSpace c = false ∧ c ≠ 61)
    (hval : ∀ c ∈ val, isSpace c = false) :
    entry (trimSpace (l ++ (key ++ 61 :: val) ++ r)) = some (key, val) := by
  have hspace : ∀ c ∈ key ++ 61 :: val, isSpace c = false := by
    intro c hc
    rcases List.mem_append.mp hc with hc | hc
    · exact (hkey c hc).1
    · rcases List.mem_cons.mp hc with rfl | hc
      · rfl
      · exact hval c hc
  rw [trimSpace_pad hl hspace hr (by simp), entry_eq_cut,
    Text.cut_append_cons fun h => (hkey 61 h).2 rfl]

theorem signatureScheme_ne : signatureScheme ≠ timestampKey := by decide

/-- The loop keeps the last value under each of the two keys, and fails on a timestamp that
is no number. -/
theorem readParts_eq_ok {st st' : HeaderState} {parts : List Text} :
    readParts st parts = .ok st' ↔
      (∀ v ∈ valuesOf timestampKey parts, ∃ n, parseInt v = .ok n) ∧
      st'.hasTS = (st.hasTS || !(valuesOf timestampKey parts).isEmpty) ∧
      ((valuesOf timestampKey parts).getLast?.elim (st'.ts = st.ts) (parseInt · = .ok st'.ts)) ∧
      st'.macHex = (valuesOf signatureScheme parts).getLast?.getD st.macHex := by
  induction parts generalizing st with
  | nil =>
    obtain ⟨ts, mac, has⟩ := st
    obtain ⟨ts', mac', has'⟩ := st'
    simp only [readParts, valuesOf, List.filterMap_nil, List.filter_nil, List.map_nil,
      Except.ok.injEq, HeaderState.mk.injEq, List.not_mem_nil, List.getLast?_nil,
      Option.elim_none, Option.getD_none, List.isEmpty_nil, Bool.not_true, Bool.or_false]
    grind
  | cons part rest ih =>
    rw [readParts, readPart]
    cases he : entry (trimSpace part) with
    | none => simp only [valuesOf_cons_none he, ih]
    | some kv =>
      obtain ⟨k, v⟩ := kv
      simp only [valuesOf_cons_some he]
      by_cases ht : k = timestampKey
      · have hs : timestampKey ≠ signatureScheme := signatureScheme_ne.symm
        simp only [ht, hs, if_true, if_false, List.getLast?_cons, Option.elim_some]
        cases hparse : parseInt v with
        | error err => simp [hparse]
        | ok n =>
          simp only [ih, hparse, List.mem_cons, forall_eq_or_imp, Except.ok.injEq, exists_eq',
            true_and]
          cases (valuesOf timestampKey rest).getLast? with
          | none => simp [hparse, @eq_comm _ n]
          | some w => simp
      · by_cases hs : k = signatureScheme
        · simp only [hs, signatureScheme_ne, if_true, if_false, ih, List.getLast?_cons,
            Option.getD_some]
        · simp only [ht, hs, if_false, ih]

/-- A header is read if the loop over its parts ends with a timestamp and a signature. -/
theorem parseSignatureHeader_eq_ok_iff_readParts {s mac : Text} {t : Int} :
    parseSignatureHeader s = .ok (t, mac) ↔
      s ≠ [] ∧ ∃ w, readParts ⟨0, [], false⟩ (splitOn s 44) = .ok ⟨t, w, true⟩ ∧ w ≠ [] ∧
        Hex.decode w = .ok mac := by
  constructor
  · intro h
    unfold parseSignatureHeader at h
    split at h <;> try cases h
    next hs =>
    split at h <;> try cases h
    next st hst =>
    split at h <;> try cases h
    next hts =>
    split at h <;> try cases h
    next hne =>
    split at h <;> cases h
    next hmac =>
    have htrue : st.hasTS = true := by simpa using hts
    exact ⟨hs, st.macHex, by rw [← htrue, hst], hne, hmac⟩
  · rintro ⟨hs, w, hread, hne, hmac⟩
    simp [parseSignatureHeader, hs, hread, hne, hmac]

/-- What a header is read as: the last timestamp, when all of them are numbers, and the bytes
of the last signature. -/
theorem parseSignatureHeader_eq_ok {s mac : Text} {t : Int} :
    parseSignatureHeader s = .ok (t, mac) ↔
      (∀ v ∈ valuesOf timestampKey (splitOn s 44), ∃ n, parseInt v = .ok n) ∧
      (∃ v, (valuesOf timestampKey (splitOn s 44)).getLast? = some v ∧ parseInt v = .ok t) ∧
      ∃ v, (valuesOf signatureScheme (splitOn s 44)).getLast? = some v ∧ v ≠ [] ∧
        Hex.decode v = .ok mac := by
  simp only [parseSignatureHeader_eq_ok_iff_readParts, readParts_eq_ok]
  constructor
  · rintro ⟨-, w, ⟨hall, hhas, hts, hmac⟩, hne, hdecode⟩
    refine ⟨hall, ?_, ?_⟩
    · cases hlast : (valuesOf timestampKey (splitOn s 44)).getLast? with
      | none => simp [List.getLast?_eq_none_iff.mp hlast] at hhas
      | some v =>
        rw [hlast] at hts
        exact ⟨v, rfl, hts⟩
    · cases hlast : (valuesOf signatureScheme (splitOn s 44)).getLast? with
      | none =>
        rw [hlast] at hmac
        exact absurd hmac hne
      | some v =>
        rw [hlast, Option.getD_some] at hmac
        exact ⟨v, rfl, hmac ▸ hne, hmac ▸ hdecode⟩
  · rintro ⟨hall, ⟨v, hv, ht⟩, w, hw, hne, hmac⟩
    have hs : s ≠ [] := by
      rintro rfl
      simp [splitOn, splitLoop, valuesOf, trimSpace, entry, indexByte] at hv
    have hnonempty : (valuesOf timestampKey (splitOn s 44)).isEmpty = false := by
      rw [List.isEmpty_eq_false_iff]
      intro hnil
      rw [hnil] at hv
      cases hv
    refine ⟨hs, w, ⟨hall, ?_, ?_, ?_⟩, hne, hmac⟩
    · rw [hnonempty]
      rfl
    · rw [hv]
      exact ht
    · rw [hw]
      rfl

end Selatpay.Webhook
