import Mathlib.Data.Nat.Digits.Lemmas
import Selatpay.Core.Text

/-!
# Base 58

A byte string is a number of leading zeros and a number in base 256; base 58 writes the
same zeros and the same number. Both directions go through that pair, `Numeral`, so the
round trip is that of the pair in each of the two bases.
-/

namespace Selatpay.Base58

/-! ## Digits with leading zeros -/

/-- The number of leading zeros of a string of digits, and its value. -/
structure Numeral where
  zeros : Nat
  value : Nat
  deriving DecidableEq, Repr

/-- The digits of a numeral, the most significant first. -/
def Numeral.digits (b : Nat) (n : Numeral) : List Nat :=
  List.replicate n.zeros 0 ++ (Nat.digits b n.value).reverse

/-- The numeral of a string of digits. -/
def numeral (b : Nat) (l : List Nat) : Numeral :=
  ⟨(l.takeWhile (· == 0)).length, Nat.ofDigits b l.reverse⟩

/-- The first significant digit is not zero. -/
theorem takeWhile_digits_reverse (b n : Nat) :
    (Nat.digits b n).reverse.takeWhile (· == 0) = [] := by
  cases hrev : (Nat.digits b n).reverse with
  | nil => rfl
  | cons d l =>
    have hdigits : Nat.digits b n = (d :: l).reverse := by rw [← hrev, List.reverse_reverse]
    have hn : n ≠ 0 := by
      rintro rfl
      simp at hdigits
    have hlast := Nat.getLast_digit_ne_zero b hn
    simp only [hdigits, List.getLast_reverse, List.head_cons] at hlast
    simp [hlast]

/-- A numeral is read back from its digits. -/
theorem numeral_digits (b : Nat) (n : Numeral) : numeral b (n.digits b) = n := by
  have hzeros : (n.digits b).takeWhile (· == 0) = List.replicate n.zeros 0 := by
    rw [Numeral.digits, List.takeWhile_append_of_pos (by simp), takeWhile_digits_reverse,
      List.append_nil]
  have hvalue : Nat.ofDigits b (n.digits b).reverse = n.value := by
    rw [Numeral.digits, List.reverse_append, List.reverse_reverse, List.reverse_replicate,
      Nat.ofDigits_append_replicate_zero, Nat.ofDigits_digits]
  rw [numeral, hzeros, hvalue, List.length_replicate]

/-- Digits are given back by their numeral. -/
theorem digits_numeral {b : Nat} (hb : 1 < b) {l : List Nat} (h : ∀ d ∈ l, d < b) :
    (numeral b l).digits b = l := by
  have hsplit := List.takeWhile_append_dropWhile (p := (· == 0)) (l := l)
  have hzeros : l.takeWhile (· == 0) = List.replicate (numeral b l).zeros 0 :=
    List.eq_replicate_iff.mpr ⟨rfl, fun d hd => by simpa using List.mem_takeWhile_imp hd⟩
  have hvalue : (numeral b l).value = Nat.ofDigits b (l.dropWhile (· == 0)).reverse := by
    change Nat.ofDigits b l.reverse = _
    rw [← hsplit, List.reverse_append, hzeros, List.reverse_replicate,
      Nat.ofDigits_append_replicate_zero, ← hzeros, hsplit]
  have hdigits : Nat.digits b (numeral b l).value = (l.dropWhile (· == 0)).reverse := by
    rw [hvalue]
    apply Nat.digits_ofDigits b hb
    · intro d hd
      exact h d ((List.dropWhile_suffix _).subset (List.mem_reverse.mp hd))
    · intro hne
      rw [List.getLast_reverse]
      have hhead := List.head_dropWhile_not (· == 0) (l := l) (by simpa using hne)
      simpa using hhead
  rw [Numeral.digits, hdigits, List.reverse_reverse, ← hzeros, hsplit]

/-! ## The encoding -/

/-- The alphabet, without the letters and digits that look alike. -/
def alphabet : Text := text "123456789ABCDEFGHJKLMNPQRSTUVWXYZabcdefghijkmnopqrstuvwxyz"

/-- The symbol of a digit. -/
def symbol (d : Nat) : UInt8 := alphabet.getD d 0

/-- The digit of a symbol. -/
def digit (c : UInt8) : Option Nat := alphabet.findIdx? (· == c)

theorem digit_symbol : ∀ d < 58, digit (symbol d) = some d := by decide +kernel

theorem symbol_mem : ∀ d < 58, symbol d ∈ alphabet := by decide +kernel

/-- `base58.Encode`. -/
def encode (bytes : Text) : Text :=
  ((numeral 256 (bytes.map UInt8.toNat)).digits 58).map symbol

/-- The errors of `base58.Decode`. -/
inductive DecodeError
  | zeroLength
  | invalidDigit
  deriving DecidableEq, Repr

/-- `base58.Decode`. -/
def decode (s : Text) : Except DecodeError Text :=
  if s = [] then .error .zeroLength
  else match s.mapM digit with
    | none => .error .invalidDigit
    | some digits => .ok (((numeral 58 digits).digits 256).map UInt8.ofNat)

theorem digits_lt {b : Nat} (hb : 1 < b) (n : Numeral) : ∀ d ∈ n.digits b, d < b := by
  intro d hd
  rcases List.mem_append.mp hd with hd | hd
  · rw [List.eq_of_mem_replicate hd]
    omega
  · exact Nat.digits_lt_base hb (List.mem_reverse.mp hd)

/-- Symbols are read back digit by digit. -/
theorem mapM_digit_map_symbol {l : List Nat} (h : ∀ d ∈ l, d < 58) :
    (l.map symbol).mapM digit = some l := by
  induction l with
  | nil => rfl
  | cons d l ih =>
    have hl := ih fun e he => h e (List.mem_cons_of_mem d he)
    rw [List.map_cons, List.mapM_cons, digit_symbol d (h d List.mem_cons_self), hl]
    rfl

theorem toNat_lt_of_mem (bytes : Text) : ∀ d ∈ bytes.map UInt8.toNat, d < 256 := by
  intro d hd
  obtain ⟨b, -, rfl⟩ := List.mem_map.mp hd
  exact b.toNat_lt

theorem encode_ne_nil {bytes : Text} (h : bytes ≠ []) : encode bytes ≠ [] := by
  intro hnil
  have hempty : (numeral 256 (bytes.map UInt8.toNat)).digits 58 = [] := List.map_eq_nil_iff.mp hnil
  have hnum := numeral_digits 58 (numeral 256 (bytes.map UInt8.toNat))
  have hback := digits_numeral (by norm_num) (toNat_lt_of_mem bytes)
  rw [hempty] at hnum
  rw [← hnum] at hback
  exact h (List.map_eq_nil_iff.mp hback.symm)

/-- Encoded bytes are read back. -/
theorem decode_encode {bytes : Text} (h : bytes ≠ []) : decode (encode bytes) = .ok bytes := by
  have hdigits := digits_lt (b := 58) (by norm_num) (numeral 256 (bytes.map UInt8.toNat))
  have hback := digits_numeral (by norm_num) (toNat_lt_of_mem bytes)
  rw [decode, if_neg (encode_ne_nil h)]
  simp only [encode, mapM_digit_map_symbol hdigits, numeral_digits, hback]
  simp [Function.comp_def]

/-- Only symbols of the alphabet are written. -/
theorem mem_alphabet_of_mem_encode {bytes : Text} {c : UInt8} (h : c ∈ encode bytes) :
    c ∈ alphabet := by
  obtain ⟨d, hd, rfl⟩ := List.mem_map.mp h
  exact symbol_mem d (digits_lt (by norm_num) _ d hd)

end Selatpay.Base58
