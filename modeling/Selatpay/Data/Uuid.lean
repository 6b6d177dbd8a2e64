import Mathlib.Tactic

/-!
# Identifiers

A UUID is its 128 bits; its text is the canonical grouped hexadecimal form. The
external references of journal entries and the idempotency key of a payout are
built from this text, so it has to be injective.
-/

namespace Selatpay

/-- A UUID. -/
abbrev UUID := BitVec 128

/-- One lower-case hexadecimal digit. -/
def hexDigit (n : Nat) : Char := Nat.digitChar (n % 16)

/-- The `k` low hexadecimal digits of a number, most significant first. -/
def hexDigits : Nat → Nat → List Char
  | 0, _ => []
  | k + 1, n => hexDigits k (n / 16) ++ [hexDigit n]

/-- The characters of the canonical text: groups of 8, 4, 4, 4 and 12 digits. -/
def uuidChars (n : Nat) : List Char :=
  hexDigits 8 (n / 16 ^ 24) ++ ['-'] ++ hexDigits 4 (n / 16 ^ 20) ++ ['-'] ++
    hexDigits 4 (n / 16 ^ 16) ++ ['-'] ++ hexDigits 4 (n / 16 ^ 12) ++ ['-'] ++ hexDigits 12 n

/-- The canonical text of a UUID. -/
def UUID.text (id : UUID) : String := String.ofList (uuidChars id.toNat)

@[simp] theorem length_hexDigits (k n : Nat) : (hexDigits k n).length = k := by
  induction k generalizing n with
  | zero => rfl
  | succ k ih => simp [hexDigits, ih]

theorem hexDigit_injective {m n : Nat} (h : hexDigit m = hexDigit n) : m % 16 = n % 16 := by
  have hall : ∀ a < 16, ∀ b < 16, Nat.digitChar a = Nat.digitChar b → a = b := by decide
  exact hall _ (Nat.mod_lt _ (by decide)) _ (Nat.mod_lt _ (by decide)) h

/-- Equal digits mean equal numbers up to the digits shown. -/
theorem hexDigits_injective {k m n : Nat} (h : hexDigits k m = hexDigits k n) :
    m % 16 ^ k = n % 16 ^ k := by
  induction k generalizing m n with
  | zero => simp [Nat.mod_one]
  | succ k ih =>
    obtain ⟨hhigh, hlow⟩ := List.append_inj' h rfl
    have hdigit := hexDigit_injective (List.singleton_inj.mp hlow)
    have hrest := ih hhigh
    rw [Nat.pow_succ', Nat.mod_mul, Nat.mod_mul (x := n), hdigit, hrest]

theorem uuidChars_injective {m n : Nat} (hm : m < 2 ^ 128) (hn : n < 2 ^ 128)
    (h : uuidChars m = uuidChars n) : m = n := by
  unfold uuidChars at h
  obtain ⟨h, h12⟩ := List.append_inj' h (by simp)
  obtain ⟨h, -⟩ := List.append_inj' h (by simp)
  obtain ⟨h, h4⟩ := List.append_inj' h (by simp)
  obtain ⟨h, -⟩ := List.append_inj' h (by simp)
  obtain ⟨h, h4'⟩ := List.append_inj' h (by simp)
  obtain ⟨h, -⟩ := List.append_inj' h (by simp)
  obtain ⟨h, h4''⟩ := List.append_inj' h (by simp)
  obtain ⟨h8, -⟩ := List.append_inj' h (by simp)
  have e12 := hexDigits_injective h12
  have e4 := hexDigits_injective h4
  have e4' := hexDigits_injective h4'
  have e4'' := hexDigits_injective h4''
  have e8 := hexDigits_injective h8
  norm_num at e12 e4 e4' e4'' e8 hm hn
  omega

/-- The text determines the identifier. -/
theorem UUID.text_injective {a b : UUID} (h : a.text = b.text) : a = b := by
  apply BitVec.eq_of_toNat_eq
  exact uuidChars_injective a.isLt b.isLt (String.ofList_injective h)

theorem UUID.text_inj {a b : UUID} : a.text = b.text ↔ a = b :=
  ⟨UUID.text_injective, congrArg _⟩

/-- A text that ends in an identifier determines it. -/
theorem append_text_inj (a : String) {i j : UUID} : a ++ i.text = a ++ j.text ↔ i = j :=
  (String.append_right_inj a).trans UUID.text_inj

/-- Texts that begin with different characters differ, whatever follows. -/
theorem append_ne_append {a b x y : String} {c d : Char} (ha : a.toList.head? = some c)
    (hb : b.toList.head? = some d) (hcd : c ≠ d) : a ++ x ≠ b ++ y := by
  intro h
  have hhead := congrArg (fun s => s.toList.head?) h
  simp only [String.toList_append, List.head?_append, ha, hb, Option.some_or,
    Option.some.injEq] at hhead
  exact hcd hhead

end Selatpay
