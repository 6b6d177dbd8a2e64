import Mathlib.Data.List.Sort
import Selatpay.Core.Assoc
import Selatpay.Core.Hex

/-!
# Opaque URLs and their queries

Query escaping, query values and URLs as package `net/url` has them. A URL here is a
scheme, an opaque part and a query; what follows an authority or a path is a parameter
of parsing, since such a URL has no opaque part. Escaping, encoding the values of a
query and printing a URL are each undone by the corresponding parser.
-/

namespace Selatpay.NetUrl

/-! ## Escaping -/

/-- The bytes that escaping leaves alone. -/
def isUnreserved (c : UInt8) : Bool :=
  (97 ≤ c && c ≤ 122) || (65 ≤ c && c ≤ 90) || (48 ≤ c && c ≤ 57) ||
    c == 45 || c == 95 || c == 46 || c == 126

/-- One byte of `QueryEscape`. -/
def escapeByte (c : UInt8) : Text :=
  if isUnreserved c then [c]
  else if c = 32 then [43]
  else [37, Hex.upperDigit (c.toNat / 16), Hex.upperDigit (c.toNat % 16)]

/-- `QueryEscape`. -/
def queryEscape (s : Text) : Text := s.flatMap escapeByte

/-- `unescape`, with the plus sign read as a space in a query; the error is the escape
that is malformed. -/
def unescape (plus : Bool) : Text → Except Text Text
  | [] => .ok []
  | c :: s =>
    if c = 37 then match s with
      | a :: b :: s => match Hex.nibble a, Hex.nibble b with
        | some hi, some lo => (unescape plus s).map (Hex.byte hi lo :: ·)
        | _, _ => .error [c, a, b]
      | s => .error (c :: s)
    else (unescape plus s).map ((if plus && c == 43 then 32 else c) :: ·)

/-- The bytes of an escaped text. -/
def isQueryByte (c : UInt8) : Bool := isUnreserved c || c == 37 || c == 43

theorem isUnreserved_upperDigit : ∀ n < 16, isUnreserved (Hex.upperDigit n) := by decide

theorem isQueryByte_of_mem {s : Text} {c : UInt8} (h : c ∈ queryEscape s) : isQueryByte c := by
  obtain ⟨b, -, hb⟩ := List.mem_flatMap.mp h
  unfold escapeByte at hb
  split at hb
  · next hu =>
    obtain rfl := List.mem_singleton.mp hb
    simp [isQueryByte, hu]
  · split at hb
    · obtain rfl := List.mem_singleton.mp hb
      rfl
    · simp only [List.mem_cons, List.not_mem_nil, or_false] at hb
      rcases hb with rfl | rfl | rfl
      · rfl
      · simp [isQueryByte, isUnreserved_upperDigit _ (Hex.div_lt b)]
      · simp [isQueryByte, isUnreserved_upperDigit _ (Hex.mod_lt b)]

/-- No delimiter is left in an escaped text. -/
theorem notMem_queryEscape {c : UInt8} (hc : isQueryByte c = false) (s : Text) :
    c ∉ queryEscape s := by
  intro h
  simp [isQueryByte_of_mem h] at hc

theorem unescape_cons {plus : Bool} {c : UInt8} (h : c ≠ 37) (s : Text) :
    unescape plus (c :: s) =
      (unescape plus s).map ((if plus && c == 43 then 32 else c) :: ·) := by
  rw [unescape.eq_def]
  simp [h]

/-- One escaped byte is read back. -/
theorem unescape_escapeByte (c : UInt8) (s : Text) :
    unescape true (escapeByte c ++ s) = (unescape true s).map (c :: ·) := by
  unfold escapeByte
  split
  · next hu =>
    have hpercent : c ≠ 37 := by
      rintro rfl
      cases hu
    have hplus : c ≠ 43 := by
      rintro rfl
      cases hu
    simp [unescape_cons hpercent, hplus]
  · split
    · next hspace =>
      subst hspace
      simp [unescape_cons]
    · simp only [List.cons_append, List.nil_append, unescape, if_true,
        Hex.nibble_upperDigit _ (Hex.div_lt c), Hex.nibble_upperDigit _ (Hex.mod_lt c),
        Hex.byte_div_mod]

/-- An escaped text is read back. -/
theorem unescape_queryEscape (s : Text) : unescape true (queryEscape s) = .ok s := by
  induction s with
  | nil => rfl
  | cons c s ih =>
    rw [queryEscape, List.flatMap_cons, unescape_escapeByte, ← queryEscape, ih]
    rfl

/-! ## Values -/

/-- `Values`: a map from keys to lists of values. -/
structure Values where
  entries : List (Text × List Text)
  nodup : (Assoc.keys entries).Nodup

namespace Values

/-- The map without keys. -/
def empty : Values := ⟨[], List.nodup_nil⟩

/-- The values of a key. -/
def values (q : Values) (key : Text) : List Text := Assoc.get [] q.entries key

/-- `Get`: the first value of a key, or the empty text. -/
def get (q : Values) (key : Text) : Text := (q.values key).headD []

/-- `Set`. -/
def set (q : Values) (key value : Text) : Values :=
  ⟨Assoc.update [] key (fun _ => [value]) q.entries, Assoc.nodup_keys_update [] key _ q.nodup⟩

/-- `Add`. -/
def add (q : Values) (key value : Text) : Values :=
  ⟨Assoc.update [] key (· ++ [value]) q.entries, Assoc.nodup_keys_update [] key _ q.nodup⟩

@[simp] theorem values_empty (k : Text) : empty.values k = [] := rfl

@[simp] theorem values_set (q : Values) (key value k : Text) :
    (q.set key value).values k = if k = key then [value] else q.values k :=
  Assoc.get_update [] key _ q.entries k

@[simp] theorem values_add (q : Values) (key value k : Text) :
    (q.add key value).values k = if k = key then q.values key ++ [value] else q.values k :=
  Assoc.get_update [] key _ q.entries k

/-- The keys in order, each with its values. -/
def sorted (q : Values) : List (Text × List Text) :=
  q.entries.insertionSort fun a b => a.1 ≤ b.1

/-- Every key with every one of its values, in the order of `Encode`. -/
def pairs (q : Values) : List (Text × Text) :=
  q.sorted.flatMap fun e => e.2.map (e.1, ·)

/-- `key=value`, escaped. -/
def encodePair (p : Text × Text) : Text := queryEscape p.1 ++ 61 :: queryEscape p.2

/-- `Encode`. -/
def encode (q : Values) : Text := [38].intercalate (q.pairs.map encodePair)

/-- The values of a key among the pairs of entries with distinct keys. -/
theorem filter_flatMap_pairs {es : List (Text × List Text)} (h : (Assoc.keys es).Nodup)
    (k : Text) : ((es.flatMap fun e => e.2.map (e.1, ·)).filter (·.1 == k)).map Prod.snd =
      Assoc.get [] es k := by
  induction es with
  | nil => rfl
  | cons e es ih =>
    obtain ⟨key, vs⟩ := e
    obtain ⟨hnot, hes⟩ := List.nodup_cons.mp h
    rw [List.flatMap_cons, List.filter_append, List.map_append, ih hes, Assoc.get]
    by_cases hk : key = k
    · subst hk
      simp [List.filter_map, Function.comp_def, Assoc.get_of_notMem (d := []) hnot]
    · simp [hk, List.filter_map, Function.comp_def]

/-- The values of a key, in the order of the pairs. -/
theorem filter_pairs (q : Values) (k : Text) :
    (q.pairs.filter (·.1 == k)).map Prod.snd = q.values k := by
  have hperm := List.perm_insertionSort (fun a b => a.1 ≤ b.1) q.entries
  have hnodup : (Assoc.keys q.sorted).Nodup := (hperm.map Prod.fst).nodup_iff.mpr q.nodup
  rw [pairs, filter_flatMap_pairs hnodup, values, sorted, Assoc.get_perm hperm hnodup]

end Values

/-! ## Reading a query -/

/-- One step of `parseQuery`; what cannot be read is skipped. -/
def addPair (m : Values) (pair : Text) : Values :=
  if 59 ∈ pair then m
  else if pair = [] then m
  else
    let (key, value) := (Text.cut 61 pair).getD (pair, [])
    match unescape true key, unescape true value with
    | .ok key, .ok value => m.add key value
    | _, _ => m

/-- `parseQuery` without a limit on the number of pairs; `URL.Query` drops its error. -/
def parseQuery (query : Text) : Values := (query.splitOn 38).foldl addPair .empty

theorem addPair_encodePair (m : Values) (p : Text × Text) :
    addPair m (Values.encodePair p) = m.add p.1 p.2 := by
  have hcut : Text.cut 61 (Values.encodePair p) = some (queryEscape p.1, queryEscape p.2) :=
    Text.cut_append_cons (notMem_queryEscape rfl _) _
  have hsemicolon : 59 ∉ Values.encodePair p := by
    simp [Values.encodePair, notMem_queryEscape (c := 59) rfl]
  have hne : Values.encodePair p ≠ [] := by simp [Values.encodePair]
  simp only [addPair, hsemicolon, hne, if_false, hcut, Option.getD_some, unescape_queryEscape]

/-- Adding pairs appends the values of each key. -/
theorem values_foldl_add (ps : List (Text × Text)) (m : Values) (k : Text) :
    (ps.foldl (fun m p => m.add p.1 p.2) m).values k =
      m.values k ++ (ps.filter (·.1 == k)).map Prod.snd := by
  induction ps generalizing m with
  | nil => simp
  | cons p ps ih =>
    rw [List.foldl_cons, ih, Values.values_add]
    by_cases hp : p.1 = k
    · simp [hp]
    · simp [hp, Ne.symm hp]

/-- Every key has its values again once they are encoded and read. -/
theorem values_parseQuery_encode (q : Values) (k : Text) :
    (parseQuery q.encode).values k = q.values k := by
  have hfold : parseQuery q.encode = q.pairs.foldl (fun m p => m.add p.1 p.2) .empty := by
    by_cases hpairs : q.pairs = []
    · rw [parseQuery, Values.encode, hpairs]
      rfl
    · have hsep : ∀ l ∈ q.pairs.map Values.encodePair, 38 ∉ l := by
        intro l hl
        obtain ⟨p, -, rfl⟩ := List.mem_map.mp hl
        simp [Values.encodePair, notMem_queryEscape (c := 38) rfl]
      rw [parseQuery, Values.encode, List.splitOn_intercalate 38 hsep (by simpa using hpairs),
        List.foldl_map]
      simp only [addPair_encodePair]
  rw [hfold, values_foldl_add, Values.values_empty, List.nil_append, Values.filter_pairs]

/-- The first value of a key is read back with all of them. -/
theorem get_parseQuery_encode (q : Values) (k : Text) :
    (parseQuery q.encode).get k = q.get k := by
  rw [Values.get, values_parseQuery_encode, Values.get]

/-- The bytes of an encoded query. -/
theorem mem_encode {q : Values} {c : UInt8} (h : c ∈ q.encode) :
    isQueryByte c ∨ c = 38 ∨ c = 61 := by
  rcases Text.mem_of_mem_intercalate h with h | ⟨l, hl, h⟩
  · exact .inr (.inl (List.mem_singleton.mp h))
  · obtain ⟨p, -, rfl⟩ := List.mem_map.mp hl
    rcases List.mem_append.mp h with h | h
    · exact .inl (isQueryByte_of_mem h)
    · rcases List.mem_cons.mp h with rfl | h
      · exact .inr (.inr rfl)
      · exact .inl (isQueryByte_of_mem h)

/-! ## URLs -/

/-- `URL`, as far as it is read: scheme, opaque part and query. -/
structure URL where
  scheme : Text
  opaquePart : Text
  rawQuery : Text
  deriving DecidableEq, Repr

/-- `URL.String` of a URL with an opaque part. -/
def URL.string (u : URL) : Text :=
  (if u.scheme = [] then [] else u.scheme ++ [58]) ++ u.opaquePart ++
    if u.rawQuery = [] then [] else 63 :: u.rawQuery

/-- The errors of `Parse`. -/
inductive Error
  | controlCharacter
  | missingScheme
  | escape (s : Text)
  /-- What is wrong with an authority or a path. -/
  | hierarchical (msg : Text)
  deriving DecidableEq, Repr

/-- The text of each error, over the quoting of a text. -/
def Error.text (quote : Text → Text) : Error → Text
  | .controlCharacter => Selatpay.text "net/url: invalid control character in URL"
  | .missingScheme => Selatpay.text "missing protocol scheme"
  | .escape s => Selatpay.text "invalid URL escape " ++ quote s
  | .hierarchical msg => msg

/-- The error of `Parse` and the text it is about. -/
structure ParseError where
  url : Text
  err : Error
  deriving DecidableEq, Repr

/-- The text of an error of `Parse`. -/
def ParseError.text (quote : Text → Text) (e : ParseError) : Text :=
  Selatpay.text "parse " ++ quote e.url ++ Selatpay.text ": " ++ e.err.text quote

/-- The letters. -/
def isLetter (c : UInt8) : Bool := (97 ≤ c && c ≤ 122) || (65 ≤ c && c ≤ 90)

/-- What a scheme has besides letters, except at its start. -/
def isSchemeByte (c : UInt8) : Bool := (48 ≤ c && c ≤ 57) || c == 43 || c == 45 || c == 46

/-- The loop of `getScheme`: what it has passed, and the rest. -/
def getSchemeLoop (raw : Text) : Text → Text → Except Error (Text × Text)
  | _, [] => .ok ([], raw)
  | done, c :: rest =>
    if isLetter c then getSchemeLoop raw (done ++ [c]) rest
    else if isSchemeByte c then
      if done = [] then .ok ([], raw) else getSchemeLoop raw (done ++ [c]) rest
    else if c = 58 then if done = [] then .error .missingScheme else .ok (done, rest)
    else .ok ([], raw)

/-- `getScheme`: the scheme, empty if there is none, and the rest. -/
def getScheme (raw : Text) : Except Error (Text × Text) := getSchemeLoop raw [] raw

/-- `strings.ToLower` of a scheme. -/
def toLower (s : Text) : Text := s.map fun c => if 65 ≤ c ∧ c ≤ 90 then c + 32 else c

/-- The bytes that no URL may have. -/
def isControl (c : UInt8) : Bool := c < 32 || c == 127

/-- `parse`, for a text without a fragment. -/
def parseURL (hierarchical : Text → Text → Except Text Unit) (raw : Text) : Except Error URL :=
  if raw.any isControl then .error .controlCharacter
  else if raw = text "*" then .ok ⟨[], [], []⟩
  else match getScheme raw with
    | .error err => .error err
    | .ok (scheme, rest) =>
      let scheme := toLower scheme
      let (rest, rawQuery) := (Text.cut 63 rest).getD (rest, [])
      if rest.head? ≠ some 47 ∧ scheme ≠ [] then .ok ⟨scheme, rest, rawQuery⟩
      else match hierarchical scheme rest with
        | .error msg => .error (.hierarchical msg)
        | .ok () => .ok ⟨scheme, [], rawQuery⟩

/-- `Parse`, with the reading of an authority and a path left open. -/
def parse (hierarchical : Text → Text → Except Text Unit) (raw : Text) : Except ParseError URL :=
  let (u, frag) := (Text.cut 35 raw).getD (raw, [])
  match parseURL hierarchical u with
  | .error err => .error ⟨u, err⟩
  | .ok url => match unescape false frag with
    | .error s => .error ⟨raw, .escape s⟩
    | .ok _ => .ok url

/-- A scheme of letters is found. -/
theorem getSchemeLoop_letters {s : Text} (hs : ∀ c ∈ s, isLetter c) (raw done rest : Text)
    (hne : done ++ s ≠ []) : getSchemeLoop raw done (s ++ 58 :: rest) = .ok (done ++ s, rest) := by
  induction s generalizing done with
  | nil =>
    have hdone : done ≠ [] := by simpa using hne
    simp [getSchemeLoop, isLetter, isSchemeByte, hdone]
  | cons c s ih =>
    have hc := hs c List.mem_cons_self
    have hrest := ih (fun a ha => hs a (List.mem_cons_of_mem c ha)) (done ++ [c]) (by simp)
    rw [List.cons_append, getSchemeLoop, if_pos hc, hrest]
    simp

theorem isLetter_of_lower {c : UInt8} (h : 97 ≤ c ∧ c ≤ 122) : isLetter c := by
  simp [isLetter, h]

theorem isControl_of_lower {c : UInt8} (h : 97 ≤ c ∧ c ≤ 122) : isControl c = false ∧ c ≠ 35 := by
  simp only [UInt8.le_iff_toNat_le] at h
  simp only [isControl, Bool.or_eq_false_iff, decide_eq_false_iff_not, beq_eq_false_iff_ne,
    UInt8.lt_iff_toNat_lt, ne_eq, ← UInt8.toNat_inj]
  simp at h ⊢
  omega

theorem toLower_of_lower {s : Text} (h : ∀ c ∈ s, 97 ≤ c ∧ c ≤ 122) : toLower s = s := by
  have hid : ∀ c ∈ s, (if 65 ≤ c ∧ c ≤ 90 then c + 32 else c) = c := by
    intro c hc
    have hlower := (h c hc).1
    rw [if_neg]
    rintro ⟨-, hupper⟩
    exact absurd (UInt8.le_trans hlower hupper) (by decide)
  rw [toLower, List.map_congr_left hid, List.map_id']

/-- The query of a URL with its mark, if there is one. -/
def URL.markedQuery (u : URL) : Text := if u.rawQuery = [] then [] else 63 :: u.rawQuery

theorem URL.string_eq {u : URL} (hscheme : u.scheme ≠ []) :
    u.string = u.scheme ++ 58 :: (u.opaquePart ++ u.markedQuery) := by
  by_cases hq : u.rawQuery = [] <;> simp [URL.string, URL.markedQuery, hscheme, hq]

theorem URL.mem_markedQuery {u : URL} {c : UInt8} (h : c ∈ u.markedQuery) :
    c = 63 ∨ c ∈ u.rawQuery := by
  unfold URL.markedQuery at h
  split at h
  · cases h
  · exact List.mem_cons.mp h

/-- The query is what follows the first mark. -/
theorem URL.cut_markedQuery (u : URL) {s : Text} (hmark : 63 ∉ s) :
    (Text.cut 63 (s ++ u.markedQuery)).getD (s ++ u.markedQuery, []) = (s, u.rawQuery) := by
  unfold URL.markedQuery
  split
  · next hq =>
    rw [List.append_nil, Text.cut_eq_none.mpr hmark, hq]
    rfl
  · rw [Text.cut_append_cons hmark]
    rfl

section Printed

variable {u : URL} (hscheme : u.scheme ≠ []) (hletters : ∀ c ∈ u.scheme, 97 ≤ c ∧ c ≤ 122)
  (hpart : ∀ c ∈ u.opaquePart, isControl c = false ∧ c ≠ 35 ∧ c ≠ 63 ∧ c ≠ 47)
  (hquery : ∀ c ∈ u.rawQuery, isControl c = false ∧ c ≠ 35)

include hscheme hletters

theorem getScheme_string : getScheme u.string = .ok (u.scheme, u.opaquePart ++ u.markedQuery) := by
  have hloop := getSchemeLoop_letters (fun c hc => isLetter_of_lower (hletters c hc)) u.string []
    (u.opaquePart ++ u.markedQuery) (by simpa using hscheme)
  rwa [← URL.string_eq hscheme, List.nil_append] at hloop

include hpart hquery

/-- A printed URL has no control character and no fragment. -/
theorem notControl_string : ∀ c ∈ u.string, isControl c = false ∧ c ≠ 35 := by
  intro c hc
  rw [URL.string_eq hscheme, List.mem_append, List.mem_cons, List.mem_append] at hc
  rcases hc with hc | rfl | hc | hc
  · exact isControl_of_lower (hletters c hc)
  · decide
  · exact ⟨(hpart c hc).1, (hpart c hc).2.1⟩
  · rcases URL.mem_markedQuery hc with rfl | hc
    · decide
    · exact hquery c hc

theorem parseURL_string (hierarchical : Text → Text → Except Text Unit) :
    parseURL hierarchical u.string = .ok u := by
  have hcontrol : u.string.any isControl = false := by
    rw [List.any_eq_false]
    intro c hc
    simp [(notControl_string hscheme hletters hpart hquery c hc).1]
  have hstar : u.string ≠ text "*" := by
    intro h
    have hcolon : (58 : UInt8) ∈ text "*" := by
      rw [← h, URL.string_eq hscheme]
      simp
    revert hcolon
    decide
  have hcut := u.cut_markedQuery fun h => (hpart 63 h).2.2.1 rfl
  have hslash : u.opaquePart.head? ≠ some 47 :=
    fun h => (hpart 47 (List.mem_of_mem_head? h)).2.2.2 rfl
  simp [parseURL, hcontrol, hstar, getScheme_string hscheme hletters, toLower_of_lower hletters,
    hcut, hslash, hscheme]

end Printed

/-- A printed URL with a lower-case scheme and an opaque part is read back. -/
theorem parse_string (hierarchical : Text → Text → Except Text Unit) (u : URL)
    (hscheme : u.scheme ≠ []) (hletters : ∀ c ∈ u.scheme, 97 ≤ c ∧ c ≤ 122)
    (hpart : ∀ c ∈ u.opaquePart, isControl c = false ∧ c ≠ 35 ∧ c ≠ 63 ∧ c ≠ 47)
    (hquery : ∀ c ∈ u.rawQuery, isControl c = false ∧ c ≠ 35) :
    parse hierarchical u.string = .ok u := by
  have hbytes := notControl_string hscheme hletters hpart hquery
  have hhash : Text.cut 35 u.string = none :=
    Text.cut_eq_none.mpr fun h => (hbytes 35 h).2 rfl
  have hurl := parseURL_string hscheme hletters hpart hquery hierarchical
  simp [parse, hhash, hurl, unescape]

end Selatpay.NetUrl
