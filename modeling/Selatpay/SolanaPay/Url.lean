import Selatpay.Core.Base58
import Selatpay.Core.NetUrl
import Selatpay.Store.Schema

/-!
# Solana Pay transfer requests

`buildURL` renders the parameters of a transfer request as a `solana:` URL, with the
query parameters in the sorted order of `url.Values.Encode`, and `parseURL` reads them
back. Texts are byte strings, and the texts of keys are those of a library that promises
to read back what it writes.
-/

namespace Selatpay.SolanaPay

open Store NetUrl

/-! ## Keys -/

/-- The texts of keys in solana-go, and what they promise. -/
structure KeyCodec where
  /-- `PublicKey.String`. -/
  base58 : PublicKey → Text
  /-- `PublicKeyFromBase58`, with the texts of its errors. -/
  publicKeyFromBase58 : Text → Except Text PublicKey
  publicKeyFromBase58_base58 : ∀ key, publicKeyFromBase58 (base58 key) = .ok key
  base58_ne_nil : ∀ key, base58 key ≠ []
  mem_alphabet : ∀ key, ∀ c ∈ base58 key, c ∈ Base58.alphabet

/-- The alphabet of base 58 has no delimiter of a URL. -/
theorem KeyCodec.notDelimiter_of_mem (keys : KeyCodec) {key : PublicKey} {c : UInt8}
    (h : c ∈ keys.base58 key) : isControl c = false ∧ c ≠ 35 ∧ c ≠ 63 ∧ c ≠ 47 := by
  have halphabet : ∀ c ∈ Base58.alphabet, isControl c = false ∧ c ≠ 35 ∧ c ≠ 63 ∧ c ≠ 47 := by
    decide +kernel
  exact halphabet c (keys.mem_alphabet key c h)

/-- The 32 bytes of a key. -/
def keyBytes (key : PublicKey) : Text :=
  (Nat.digitsAppend 256 32 key.toNat).reverse.map UInt8.ofNat

/-- The key with the given bytes. -/
def keyOfBytes (bytes : Text) : PublicKey :=
  BitVec.ofNat 256 (Nat.ofDigits 256 (bytes.map UInt8.toNat).reverse)

/-- The key of a text in base 58 of 32 bytes, with one text for every error. -/
def keyOfText (s : Text) : Except Text PublicKey :=
  match Base58.decode s with
  | .error _ => .error (text "invalid key")
  | .ok val => if val.length ≠ 32 then .error (text "invalid key") else .ok (keyOfBytes val)

theorem length_keyBytes (key : PublicKey) : (keyBytes key).length = 32 := by
  have hlt : key.toNat < 256 ^ 32 := by simpa using key.isLt
  simp [keyBytes, Nat.length_digitsAppend (by norm_num) 32 hlt]

theorem keyOfBytes_keyBytes (key : PublicKey) : keyOfBytes (keyBytes key) = key := by
  have hid : ∀ d ∈ Nat.digitsAppend 256 32 key.toNat, (UInt8.ofNat d).toNat = d := by
    intro d hd
    exact UInt8.toNat_ofNat_of_lt (Nat.lt_of_mem_digitsAppend (by norm_num) 32 d hd)
  have hmap : (Nat.digitsAppend 256 32 key.toNat).map (fun d => (UInt8.ofNat d).toNat) =
      Nat.digitsAppend 256 32 key.toNat := by
    rw [List.map_congr_left hid, List.map_id']
  have hbytes : ((keyBytes key).map UInt8.toNat).reverse = Nat.digitsAppend 256 32 key.toNat := by
    rw [keyBytes, List.map_reverse, List.map_reverse, List.reverse_reverse, List.map_map]
    exact hmap
  rw [keyOfBytes, hbytes, Nat.digitsAppend, Nat.ofDigits_append_replicate_zero,
    Nat.ofDigits_digits, BitVec.ofNat_toNat, BitVec.setWidth_eq]

theorem keyBytes_ne_nil (key : PublicKey) : keyBytes key ≠ [] := by
  intro hnil
  have hlength := length_keyBytes key
  rw [hnil] at hlength
  cases hlength

/-- A key is read back from the base 58 of its bytes. -/
theorem keyOfText_encode (key : PublicKey) :
    keyOfText (Base58.encode (keyBytes key)) = .ok key := by
  simp [keyOfText, Base58.decode_encode (keyBytes_ne_nil key), length_keyBytes,
    keyOfBytes_keyBytes]

/-- The base 58 of the 32 bytes of a key keeps the promises. -/
def KeyCodec.bytes32 : KeyCodec where
  base58 key := Base58.encode (keyBytes key)
  publicKeyFromBase58 := keyOfText
  publicKeyFromBase58_base58 := keyOfText_encode
  base58_ne_nil key := Base58.encode_ne_nil (keyBytes_ne_nil key)
  mem_alphabet _ _ := Base58.mem_alphabet_of_mem_encode

section Transfer

variable (keys : KeyCodec)

/-! ## Building -/

/-- `URLParams`. -/
structure URLParams where
  recipient : PublicKey
  splToken : Option PublicKey
  amount : Text
  references : List PublicKey
  label : Text
  message : Text
  memo : Text
  deriving DecidableEq, Repr

/-- The query parameters of a transfer request. -/
inductive Param
  | amount | splToken | reference | label | message | memo
  deriving DecidableEq, Repr

/-- The key of a parameter in the query. -/
def Param.name : Param → Text
  | .amount => text "amount"
  | .splToken => text "spl-token"
  | .reference => text "reference"
  | .label => text "label"
  | .message => text "message"
  | .memo => text "memo"

/-- Set a parameter unless its value is empty. -/
def setUnlessEmpty (param : Param) (value : Text) (q : Values) : Values :=
  if value = [] then q else q.set param.name value

/-- The query of a transfer request, in the order in which `BuildURL` fills it. -/
def query (p : URLParams) : Values :=
  let q := setUnlessEmpty .amount p.amount .empty
  let q := match p.splToken with
    | none => q
    | some mint => q.set Param.splToken.name (keys.base58 mint)
  let q := p.references.foldl (fun q r => q.add Param.reference.name (keys.base58 r)) q
  let q := setUnlessEmpty .label p.label q
  let q := setUnlessEmpty .message p.message q
  setUnlessEmpty .memo p.memo q

/-- `BuildURL`. -/
def buildURL (p : URLParams) : Except String Text :=
  if p.recipient = 0 then .error "solanapay: recipient public key is required"
  else if p.splToken = some 0 then .error "solanapay: spl-token mint is zero"
  else if p.references.any (· = 0) then .error "solanapay: reference public key is zero"
  else .ok (URL.string ⟨text "solana", keys.base58 p.recipient, (query keys p).encode⟩)

/-! ## Parsing -/

/-- The causes of `ErrInvalidURL`. -/
inductive URLError
  | empty
  | parse (err : NetUrl.ParseError)
  | scheme (s : Text)
  | missingRecipient
  | recipient (err : Text)
  | splToken (err : Text)
  | reference (err : Text)
  deriving DecidableEq, Repr

/-- The text of each error, over `%q`. -/
def URLError.text (quote : Text → Text) (e : URLError) : Text :=
  Selatpay.text "solanapay: invalid transfer-request URL" ++ match e with
    | .empty => []
    | .parse err => Selatpay.text ": " ++ err.text quote
    | .scheme s => Selatpay.text ": scheme " ++ quote s
    | .missingRecipient => Selatpay.text ": missing recipient"
    | .recipient err => Selatpay.text ": recipient: " ++ err
    | .splToken err => Selatpay.text ": spl-token: " ++ err
    | .reference err => Selatpay.text ": reference: " ++ err

/-- The loop over the references. -/
def parseReferences : List Text → Except URLError (List PublicKey)
  | [] => .ok []
  | s :: rest => match keys.publicKeyFromBase58 s with
    | .error err => .error (.reference err)
    | .ok ref => (parseReferences rest).map (ref :: ·)

/-- The mint of a query, if it names one. -/
def parseMint (s : Text) : Except URLError (Option PublicKey) :=
  if s = [] then .ok none
  else match keys.publicKeyFromBase58 s with
    | .error err => .error (.splToken err)
    | .ok mint => .ok (some mint)

/-- `ParseURL`, with the reading of an authority and a path left open. -/
def parseURL (hierarchical : Text → Text → Except Text Unit) (s : Text) :
    Except URLError URLParams :=
  if s = [] then .error .empty
  else match NetUrl.parse hierarchical s with
    | .error err => .error (.parse err)
    | .ok u =>
      if u.scheme ≠ text "solana" then .error (.scheme u.scheme)
      else if u.opaquePart = [] then .error .missingRecipient
      else match keys.publicKeyFromBase58 u.opaquePart with
        | .error err => .error (.recipient err)
        | .ok recipient =>
          let q := parseQuery u.rawQuery
          match parseMint keys (q.get Param.splToken.name) with
          | .error err => .error err
          | .ok splToken => match parseReferences keys (q.values Param.reference.name) with
            | .error err => .error err
            | .ok references => .ok {
                recipient, splToken, references
                amount := q.get Param.amount.name
                label := q.get Param.label.name
                message := q.get Param.message.name
                memo := q.get Param.memo.name }

/-! ## The round trip -/

@[simp] theorem Param.name_inj {a b : Param} : a.name = b.name ↔ a = b := by
  cases a <;> cases b <;> decide +kernel

@[simp] theorem values_setUnlessEmpty (param k : Param) (value : Text) (q : Values) :
    (setUnlessEmpty param value q).values k.name =
      if k = param ∧ value ≠ [] then [value] else q.values k.name := by
  unfold setUnlessEmpty
  split
  · next h => simp [h]
  · next h => simp [h]

/-- The references are added in order and change no other parameter. -/
theorem values_foldl_reference (refs : List PublicKey) (q : Values) (k : Param) :
    (refs.foldl (fun q r => q.add Param.reference.name (keys.base58 r)) q).values k.name =
      q.values k.name ++ if k = .reference then refs.map keys.base58 else [] := by
  induction refs generalizing q with
  | nil => simp
  | cons r refs ih =>
    rw [List.foldl_cons, ih, Values.values_add]
    by_cases hk : k = .reference <;> simp [hk]

/-- What `BuildURL` puts under each parameter. -/
theorem values_query (p : URLParams) (k : Param) : (query keys p).values k.name =
    match k with
    | .amount => if p.amount = [] then [] else [p.amount]
    | .splToken => p.splToken.toList.map keys.base58
    | .reference => p.references.map keys.base58
    | .label => if p.label = [] then [] else [p.label]
    | .message => if p.message = [] then [] else [p.message]
    | .memo => if p.memo = [] then [] else [p.memo] := by
  cases k <;> cases hmint : p.splToken <;>
    simp [query, hmint, values_foldl_reference]

/-- A text parameter is read back, whether it was left out or not. -/
theorem get_query (p : URLParams) :
    (query keys p).get Param.amount.name = p.amount ∧
      (query keys p).get Param.label.name = p.label ∧
      (query keys p).get Param.message.name = p.message ∧
      (query keys p).get Param.memo.name = p.memo := by
  have hget : ∀ s : Text, (if s = [] then [] else [s]).headD [] = s := by
    intro s
    split
    · next h => rw [h]; rfl
    · rfl
  simp only [Values.get, values_query, hget, and_self]

theorem parseMint_get_query (p : URLParams) :
    parseMint keys ((query keys p).get Param.splToken.name) = .ok p.splToken := by
  rw [Values.get, values_query]
  cases p.splToken with
  | none => rfl
  | some mint => simp [parseMint, keys.base58_ne_nil, keys.publicKeyFromBase58_base58]

theorem parseReferences_map_base58 (refs : List PublicKey) :
    parseReferences keys (refs.map keys.base58) = .ok refs := by
  induction refs with
  | nil => rfl
  | cons r refs ih =>
    simp only [List.map_cons, parseReferences, keys.publicKeyFromBase58_base58, ih]
    rfl

/-- An encoded query has no control character and no fragment. -/
theorem notControl_of_mem_encode {q : Values} {c : UInt8} (h : c ∈ q.encode) :
    isControl c = false ∧ c ≠ 35 := by
  have hbytes : ∀ n < 256, isQueryByte (UInt8.ofNat n) →
      isControl (UInt8.ofNat n) = false ∧ UInt8.ofNat n ≠ 35 := by decide +kernel
  rcases mem_encode h with h | rfl | rfl
  · have hc := hbytes c.toNat c.toNat_lt
    rw [UInt8.ofNat_toNat] at hc
    exact hc h
  · decide
  · decide

/-- The text of the parameters is split into its parts. -/
theorem parse_string_query (hierarchical : Text → Text → Except Text Unit) (p : URLParams) :
    NetUrl.parse hierarchical
      (URL.string ⟨text "solana", keys.base58 p.recipient, (query keys p).encode⟩) =
        .ok ⟨text "solana", keys.base58 p.recipient, (query keys p).encode⟩ := by
  have hscheme : text "solana" ≠ [] ∧ ∀ c ∈ text "solana", 97 ≤ c ∧ c ≤ 122 :=
    ⟨by decide, Text.forall_mem_of_all (by decide)⟩
  exact NetUrl.parse_string hierarchical _ hscheme.1 hscheme.2
    (fun _ => keys.notDelimiter_of_mem) (fun _ => notControl_of_mem_encode)

/-- The text of the parameters is read back as the same parameters. -/
theorem parseURL_string (hierarchical : Text → Text → Except Text Unit) (p : URLParams) :
    parseURL keys hierarchical
      (URL.string ⟨text "solana", keys.base58 p.recipient, (query keys p).encode⟩) = .ok p := by
  have hne : URL.string ⟨text "solana", keys.base58 p.recipient, (query keys p).encode⟩ ≠ [] := by
    simp [URL.string, show text "solana" ≠ [] by decide]
  obtain ⟨hamount, hlabel, hmessage, hmemo⟩ := get_query keys p
  have hrefs : parseReferences keys ((query keys p).values Param.reference.name) =
      .ok p.references := by
    rw [values_query]
    exact parseReferences_map_base58 keys p.references
  simp only [parseURL, hne, if_false, parse_string_query, keys.base58_ne_nil, ne_eq,
    not_true_eq_false, keys.publicKeyFromBase58_base58, get_parseQuery_encode,
    values_parseQuery_encode, parseMint_get_query, hrefs, hamount, hlabel, hmessage, hmemo]

/-- A URL that is built is read back as its parameters. -/
theorem parseURL_of_buildURL_eq_ok {keys : KeyCodec} {p : URLParams} {url : Text}
    (h : buildURL keys p = .ok url) (hierarchical : Text → Text → Except Text Unit) :
    parseURL keys hierarchical url = .ok p := by
  unfold buildURL at h
  repeat' split at h
  all_goals cases h
  exact parseURL_string keys hierarchical p

/-- The URL of valid parameters is read back as the same parameters. -/
theorem parseURL_buildURL {p : URLParams} (hrecipient : p.recipient ≠ 0)
    (hmint : p.splToken ≠ some 0) (hreferences : ∀ r ∈ p.references, r ≠ 0) :
    ∃ url, buildURL keys p = .ok url ∧ ∀ hierarchical, parseURL keys hierarchical url = .ok p := by
  have hzero : p.references.any (· = 0) = false := by
    rw [List.any_eq_false]
    intro r hr
    rw [decide_eq_true_eq]
    exact hreferences r hr
  have hbuild : buildURL keys p =
      .ok (URL.string ⟨text "solana", keys.base58 p.recipient, (query keys p).encode⟩) := by
    simp only [buildURL, hrecipient, hmint, hzero, if_false, Bool.false_eq_true]
  exact ⟨_, hbuild, parseURL_of_buildURL_eq_ok hbuild⟩

end Transfer

theorem parseURL_buildURL_twoReferences :
    ∃ url, buildURL .bytes32 ⟨7, some 9, text "1.5", [3, 3], [38, 255, 0], [], text "a=b;c#d"⟩ =
        .ok url ∧
      ∀ hierarchical, parseURL .bytes32 hierarchical url =
        .ok ⟨7, some 9, text "1.5", [3, 3], [38, 255, 0], [], text "a=b;c#d"⟩ :=
  parseURL_buildURL .bytes32 (by decide) (by decide) (by simp)

end Selatpay.SolanaPay
