import Selatpay.Core.Decimal
import Selatpay.Payout.Rail

/-!
# Reading the bodies back

A reader of the objects that both ends write: string and integer members in the order of
the Go structs. It shows that what the ends rely on `encoding/json` for can be had, with
every escape of `json.Marshal` undone.
-/

namespace Selatpay.Payout

open Saga MockBank

/-! ## Characters and escapes -/

/-- The characters of a byte string that is UTF-8. -/
def charsOf (raw : Text) : Option (List Char) :=
  (ByteArray.utf8Decode? ⟨raw.toArray⟩).map Array.toList

theorem charsOf_text (s : String) : charsOf (text s) = some s.toList := by
  have hbytes : (⟨(text s).toArray⟩ : ByteArray) = s.toList.utf8Encode := by
    rw [String.utf8Encode_toList]
    rfl
  rw [charsOf, hbytes, List.utf8Decode?_utf8Encode]
  rfl

/-- The value of a hexadecimal digit in lower case. -/
def hexValue (c : Char) : Nat := if c.isDigit then c.toNat - 48 else c.toNat - 87

/-- The character an escape of one letter stands for. -/
def unescape (c : Char) : Char :=
  if c = 'b' then '\x08' else if c = 'f' then '\x0c' else if c = 'n' then '\n'
  else if c = 'r' then '\r' else if c = 't' then '\t' else c

/-- The rest of a string literal, and what follows it. -/
def unquote : List Char → Option (List Char × List Char)
  | [] => none
  | '"' :: rest => some ([], rest)
  | '\\' :: 'u' :: a :: b :: c :: d :: rest =>
    let n := ((hexValue a * 16 + hexValue b) * 16 + hexValue c) * 16 + hexValue d
    (unquote rest).map fun p => (Char.ofNat n :: p.1, p.2)
  | '\\' :: c :: rest => (unquote rest).map fun p => (unescape c :: p.1, p.2)
  | c :: rest => (unquote rest).map fun p => (c :: p.1, p.2)

theorem hexValue_hexDigit (n : Nat) : hexValue (hexDigit n) = n % 16 := by
  have hall : ∀ k < 16, hexValue (Nat.digitChar k) = k := by decide
  exact hall (n % 16) (Nat.mod_lt n (by decide))

/-- Four digits give back a number that fits. -/
theorem unquote_hexDigits {n : Nat} (h : n < 2 ^ 16) (rest : List Char) :
    unquote ('\\' :: 'u' :: hexDigits 4 n ++ rest) =
      (unquote rest).map fun p => (Char.ofNat n :: p.1, p.2) := by
  have hdigits : hexDigits 4 n = [hexDigit (n / 16 / 16 / 16), hexDigit (n / 16 / 16),
      hexDigit (n / 16), hexDigit n] := rfl
  have hvalue : ((n / 16 / 16 / 16 % 16 * 16 + n / 16 / 16 % 16) * 16 + n / 16 % 16) * 16 + n % 16 =
      n := by
    omega
  rw [hdigits]
  simp only [List.cons_append, List.nil_append, unquote, hexValue_hexDigit, hvalue]

/-- An escape of one letter. -/
theorem unquote_escape {c : Char} (h : c ≠ 'u') (rest : List Char) :
    unquote ('\\' :: c :: rest) = (unquote rest).map fun p => (unescape c :: p.1, p.2) := by
  rw [unquote]
  exact fun _ _ _ _ _ hu => absurd hu h

/-- Every character is read as it was written. -/
theorem unquote_jsonChar (c : Char) (rest : List Char) :
    unquote ((jsonChar c).toList ++ rest) = (unquote rest).map fun p => (c :: p.1, p.2) := by
  unfold jsonChar
  split_ifs with hquote hslash hb hf hn hr ht hu
  · rw [hquote]
    exact unquote_escape (by decide) rest
  · rw [hslash]
    exact unquote_escape (by decide) rest
  · rw [hb]
    exact unquote_escape (by decide) rest
  · rw [hf]
    exact unquote_escape (by decide) rest
  · rw [hn]
    exact unquote_escape (by decide) rest
  · rw [hr]
    exact unquote_escape (by decide) rest
  · rw [ht]
    exact unquote_escape (by decide) rest
  · have hlt : c.toNat < 2 ^ 16 := by
      rcases hu with h | rfl | rfl | rfl | h | h
      · omega
      · decide
      · decide
      · decide
      · omega
      · omega
    have hread := unquote_hexDigits hlt rest
    rw [Char.ofNat_toNat] at hread
    simpa using hread
  · rw [show c.toString.toList = [c] from String.toList_singleton c, List.singleton_append, unquote]
    · exact hquote
    · exact fun _ _ _ _ _ h => absurd h hslash
    · exact fun _ _ h => absurd h hslash

/-- A string is read as it was written. -/
theorem unquote_chars (cs rest : List Char) :
    unquote (cs.flatMap (fun c => (jsonChar c).toList) ++ '"' :: rest) = some (cs, rest) := by
  induction cs with
  | nil => rfl
  | cons c cs ih => rw [List.flatMap_cons, List.append_assoc, unquote_jsonChar, ih]; rfl

theorem toList_jsonString (s : String) :
    (jsonString s).toList = '"' :: (s.toList.flatMap (fun c => (jsonChar c).toList) ++ ['"']) := by
  simp [jsonString, String.toList_append, String.toList_join, List.flatMap, Function.comp_def]

/-! ## Members -/

/-- What follows a text. -/
def expect (lit : String) (cs : List Char) : Option (List Char) :=
  if lit.toList.isPrefixOf cs then some (cs.drop lit.toList.length) else none

/-- A string literal, and what follows it. -/
def readString : List Char → Option (String × List Char)
  | '"' :: cs => (unquote cs).map fun p => (String.ofList p.1, p.2)
  | _ => none

/-- The characters of a printed integer. -/
def isIntChar (c : Char) : Bool := c.isDigit || c = '-'

/-- An integer, and what follows it. -/
def readInt (cs : List Char) : Option (Int × List Char) :=
  match Decimal.parseInt (text (String.ofList (cs.takeWhile isIntChar))) with
  | .error _ => none
  | .ok n => some (n, cs.dropWhile isIntChar)

theorem expect_append (lit : String) (cs : List Char) :
    expect lit (lit.toList ++ cs) = some cs := by
  simp [expect]

theorem readString_jsonString (s : String) (cs : List Char) :
    readString ((jsonString s).toList ++ cs) = some (s, cs) := by
  rw [toList_jsonString]
  simp [readString, unquote_chars]

/-- A printed natural number is a numeral of its value. -/
theorem numeral_repr (m : Nat) : (∀ c ∈ (Nat.repr m).toList, c.isDigit) ∧
    Decimal.IsNumeral (text (Nat.repr m)) ∧ Decimal.value (text (Nat.repr m)) = m := by
  have hdigits : ∀ c ∈ Nat.toDigits 10 m, c.isDigit :=
    fun _ hc => Nat.isDigit_of_mem_toDigits (b := 10) (by decide) (by decide) hc
  obtain ⟨hall, hlength, hvalue⟩ := Decimal.text_ofList_digits hdigits
  have hrepr : Nat.repr m = String.ofList (Nat.toDigits 10 m) := rfl
  rw [hrepr]
  refine ⟨by simpa using hdigits, ⟨?_, hall⟩, ?_⟩
  · rw [← List.length_pos_iff, hlength]
    exact Nat.length_toDigits_pos
  · rw [hvalue]
    exact Nat.ofDigitChars_toDigits (by decide) (by decide)

/-- The parts of a printed integer. -/
theorem toString_int (n : Int) :
    (0 ≤ n ∧ toString n = Nat.repr n.natAbs) ∨ n < 0 ∧ toString n = "-" ++ Nat.repr n.natAbs := by
  cases n with
  | ofNat m => exact .inl ⟨Int.natCast_nonneg m, rfl⟩
  | negSucc m => exact .inr ⟨Int.negSucc_lt_zero m, rfl⟩

theorem parseInt_toString {n : Int} (h : IsInt64 n) :
    Decimal.parseInt (text (toString n)) = .ok n := by
  obtain ⟨hlo, hhi⟩ := h
  obtain ⟨-, hnumeral, hvalue⟩ := numeral_repr n.natAbs
  have hread : Decimal.parseUint (text (Nat.repr n.natAbs)) = .ok n.natAbs :=
    Decimal.parseUint_eq_ok.mpr ⟨hnumeral, hvalue.symm, by omega⟩
  unfold Decimal.parseInt
  rcases toString_int n with ⟨hpos, hprint⟩ | ⟨hneg, hprint⟩
  · have hlt : ¬ n.natAbs ≥ 2 ^ 63 := by omega
    rw [hprint, Decimal.sign_of_isNumeral hnumeral]
    simp only [hread, true_and, hlt, if_false, reduceCtorEq, false_and]
    congr 1
    omega
  · have hle : ¬ n.natAbs > 2 ^ 63 := by omega
    have hsign : Decimal.sign (text ("-" ++ Nat.repr n.natAbs)) =
        (true, text (Nat.repr n.natAbs)) := by
      rw [text_append]
      rfl
    rw [hprint, hsign]
    simp only [hread, reduceCtorEq, false_and, if_false, true_and, hle, if_true]
    congr 1
    omega

theorem isIntChar_of_mem {n : Int} : ∀ c ∈ (toString n).toList, isIntChar c := by
  have hdigits := (numeral_repr n.natAbs).1
  intro c hc
  rcases toString_int n with ⟨-, hprint⟩ | ⟨-, hprint⟩
  · rw [hprint] at hc
    simp [isIntChar, hdigits c hc]
  · rw [hprint, String.toList_append, List.mem_append] at hc
    rcases hc with hc | hc
    · obtain rfl := List.mem_singleton.mp hc
      rfl
    · simp [isIntChar, hdigits c hc]

theorem readInt_toString {n : Int} (h : IsInt64 n) {cs : List Char}
    (hcs : ∀ c ∈ cs.head?, isIntChar c = false) :
    readInt ((toString n).toList ++ cs) = some (n, cs) := by
  have hstop : cs.takeWhile isIntChar = [] ∧ cs.dropWhile isIntChar = cs := by
    cases cs with
    | nil => exact ⟨rfl, rfl⟩
    | cons c cs => simp [hcs c rfl]
  rw [readInt, List.takeWhile_append_of_pos isIntChar_of_mem,
    List.dropWhile_append_of_pos isIntChar_of_mem, hstop.1, hstop.2, List.append_nil,
    String.ofList_toList, parseInt_toString h]

/-! ## The two bodies -/

/-- A string member, and what follows it. -/
def member (key : String) (cs : List Char) : Option (String × List Char) :=
  (expect key cs).bind readString

/-- The optional last member of an object, and its end. -/
def lastMember (key : String) (cs : List Char) : Option String :=
  match expect key cs with
  | none => if cs = ['\x7d'] then some "" else none
  | some cs => match readString cs with
    | some (s, ['\x7d']) => some s
    | _ => none

theorem member_append (key s : String) (cs : List Char) :
    member key (key.toList ++ ((jsonString s).toList ++ cs)) = some (s, cs) := by
  rw [member, expect_append]
  exact readString_jsonString s cs

/-- The last member is written only if it is not empty. -/
theorem lastMember_append {key : String} (hkey : expect key ['\x7d'] = none) (s : String) :
    lastMember key ((if s = "" then "" else key ++ jsonString s).toList ++ "\x7d".toList) =
      some s := by
  by_cases hs : s = ""
  · rw [if_pos hs, hs]
    change lastMember key ['\x7d'] = some ""
    simp [lastMember, hkey]
  · rw [if_neg hs, String.toList_append, List.append_assoc]
    simp only [lastMember, expect_append, readString_jsonString]
    rfl

/-- The members of a request that the bank reads. -/
def readRequest (cs : List Char) : Option MockBank.SubmitRequest :=
  (member "\x7b\"intent_id\":" cs).bind fun intentID =>
    (member ",\"payout_id\":" intentID.2).bind fun payoutID =>
      ((expect ",\"amount_idr\":" payoutID.2).bind readInt).bind fun amountIDR =>
        (member ",\"bank_code\":" amountIDR.2).bind fun bankCode =>
          (member ",\"account_number\":" bankCode.2).bind fun accountNumber =>
            (member ",\"account_name\":" accountNumber.2).bind fun accountName =>
              (lastMember ",\"memo\":" accountName.2).map fun _ =>
                ⟨amountIDR.1, accountNumber.1⟩

/-- The members of a response. -/
def readResponse (cs : List Char) : Option SubmitResponse :=
  (member "\x7b\"reference\":" cs).bind fun reference =>
    (member ",\"status\":" reference.2).bind fun status =>
      (lastMember ",\"message\":" status.2).map fun message => ⟨reference.1, status.1, message⟩

/-- The characters of parts put together. -/
theorem toList_foldl_append (s : String) (parts : List String) :
    (parts.foldl (· ++ ·) s).toList = s.toList ++ parts.flatMap String.toList := by
  induction parts generalizing s with
  | nil => simp
  | cons part parts ih => rw [List.foldl_cons, ih, String.toList_append]; simp

theorem readRequest_marshal (b : SubmitBody) (h : IsInt64 b.amountIDR) :
    readRequest b.marshal.toList = some ⟨b.amountIDR, b.accountNumber⟩ := by
  have hparts : b.marshal = [jsonString b.intentID, ",\"payout_id\":", jsonString b.payoutID,
      ",\"amount_idr\":", toString b.amountIDR, ",\"bank_code\":", jsonString b.bankCode,
      ",\"account_number\":", jsonString b.accountNumber, ",\"account_name\":",
      jsonString b.accountName, if b.memo = "" then "" else ",\"memo\":" ++ jsonString b.memo,
      "\x7d"].foldl (· ++ ·) "\x7b\"intent_id\":" := rfl
  have hcomma : ∀ cs : List Char, ∀ c ∈ (",\"bank_code\":".toList ++ cs).head?,
      isIntChar c = false := by
    rintro cs c ⟨⟩
    rfl
  rw [hparts, toList_foldl_append]
  simp only [List.flatMap_cons, List.flatMap_nil, List.append_nil]
  rw [readRequest, member_append, Option.bind_some, member_append, Option.bind_some, expect_append,
    Option.bind_some, readInt_toString h (hcomma _), Option.bind_some, member_append,
    Option.bind_some, member_append, Option.bind_some, member_append, Option.bind_some,
    lastMember_append (by decide), Option.map_some]

theorem readResponse_marshal (r : SubmitResponse) : readResponse r.marshal.toList = some r := by
  have hparts : r.marshal = [jsonString r.reference, ",\"status\":", jsonString r.status,
      if r.message = "" then "" else ",\"message\":" ++ jsonString r.message,
      "\x7d"].foldl (· ++ ·) "\x7b\"reference\":" := rfl
  rw [hparts, toList_foldl_append]
  simp only [List.flatMap_cons, List.flatMap_nil, List.append_nil]
  rw [readResponse, member_append, Option.bind_some, member_append, Option.bind_some,
    lastMember_append (by decide), Option.map_some]

/-- The two readers as a JSON library. -/
def memberJson : Json where
  decodeRequest raw := match (charsOf raw).bind readRequest with
    | none => .error "invalid body"
    | some req => .ok req
  decodeResponse raw := ((charsOf raw).bind readResponse).getD ⟨"", "", ""⟩
  fromBytes raw := String.ofList ((charsOf raw).getD [])
  decodeRequest_marshal b h := by simp [charsOf_text, readRequest_marshal b h]
  decodeResponse_marshal r := by simp [charsOf_text, readResponse_marshal]

end Selatpay.Payout
