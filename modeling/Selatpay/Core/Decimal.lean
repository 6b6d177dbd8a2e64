import Mathlib.Data.Nat.Digits.Lemmas
import Selatpay.Core.Int64
import Selatpay.Core.Text

/-!
# Decimal numerals

The value of a list of digits, the printing and reading of 64-bit integers as package
`strconv` does both in base ten, and the number that a plain decimal with a point
denotes. Reading is characterised once, by `parseUint_eq_ok`; the round trips follow.
-/

namespace Selatpay.Decimal

/-! ## Digits -/

/-- The bytes `0` to `9`. -/
def isDigit (c : UInt8) : Bool := 48 ≤ c && c ≤ 57

/-- The number a digit stands for. -/
def digit (c : UInt8) : Nat := c.toNat - 48

/-- The digit of a number below ten. -/
def digitByte (d : Nat) : UInt8 := UInt8.ofNat (48 + d)

/-- Only digits. -/
def IsDigits (s : Text) : Prop := ∀ c ∈ s, isDigit c

instance (s : Text) : Decidable (IsDigits s) := List.decidableBAll (isDigit ·) s

/-- At least one digit and nothing else. -/
def IsNumeral (s : Text) : Prop := s ≠ [] ∧ IsDigits s

instance (s : Text) : Decidable (IsNumeral s) := inferInstanceAs (Decidable (s ≠ [] ∧ IsDigits s))

/-- The value of a list of digits, the most significant first. -/
def value (s : Text) : Nat := s.foldl (fun n c => n * 10 + digit c) 0

theorem isDigit_iff {c : UInt8} : isDigit c ↔ 48 ≤ c.toNat ∧ c.toNat ≤ 57 := by
  simp [isDigit, UInt8.le_iff_toNat_le]

theorem digit_lt {c : UInt8} (h : isDigit c) : digit c < 10 := by
  have hc := isDigit_iff.mp h
  unfold digit
  omega

theorem toNat_digitByte {d : Nat} (h : d < 10) : (digitByte d).toNat = 48 + d := by
  simp only [digitByte, UInt8.toNat_ofNat']
  omega

theorem isDigit_digitByte {d : Nat} (h : d < 10) : isDigit (digitByte d) := by
  rw [isDigit_iff, toNat_digitByte h]
  omega

theorem digit_digitByte {d : Nat} (h : d < 10) : digit (digitByte d) = d := by
  rw [digit, toNat_digitByte h]
  omega

/-- A byte that is no digit does not stand among digits. -/
theorem IsDigits.notMem {s : Text} (h : IsDigits s) {c : UInt8} (hc : isDigit c = false) :
    c ∉ s := by
  intro hmem
  simp [h c hmem] at hc

theorem isDigits_append {s t : Text} : IsDigits (s ++ t) ↔ IsDigits s ∧ IsDigits t := by
  simp only [IsDigits, List.mem_append]
  exact ⟨fun h => ⟨fun c hc => h c (.inl hc), fun c hc => h c (.inr hc)⟩,
    fun h c hc => hc.elim (h.1 c) (h.2 c)⟩

theorem isDigits_replicate_zero (k : Nat) : IsDigits (List.replicate k 48) := by
  intro c hc
  rw [List.eq_of_mem_replicate hc]
  rfl

/-- A value that is carried on by further digits. -/
theorem foldl_value (n : Nat) (s : Text) :
    s.foldl (fun n c => n * 10 + digit c) n = n * 10 ^ s.length + value s := by
  induction s generalizing n with
  | nil => simp [value]
  | cons c s ih =>
    have hvalue : value (c :: s) = digit c * 10 ^ s.length + value s := by
      rw [value, List.foldl_cons, ih, Nat.zero_mul, Nat.zero_add]
    rw [List.foldl_cons, ih, hvalue, List.length_cons]
    ring

theorem value_append (s t : Text) : value (s ++ t) = value s * 10 ^ t.length + value t := by
  rw [value, List.foldl_append, foldl_value]
  rfl

theorem value_singleton (c : UInt8) : value [c] = digit c := by simp [value]

@[simp] theorem value_replicate_zero (k : Nat) : value (List.replicate k 48) = 0 := by
  induction k with
  | zero => rfl
  | succ k ih =>
    rw [List.replicate_succ', value_append, ih, value_singleton]
    rfl

/-- Digits stay below the power of ten of their number. -/
theorem value_lt {s : Text} (h : IsDigits s) : value s < 10 ^ s.length := by
  induction s using List.reverseRecOn with
  | nil => simp [value]
  | append_singleton s c ih =>
    have hs := ih (isDigits_append.mp h).1
    have hc := digit_lt (h c (by simp))
    rw [value_append, value_singleton, List.length_append, List.length_singleton, pow_succ]
    omega

/-- Zeros on the right scale the value. -/
theorem value_rightpad {s : Text} {width : Nat} :
    value (s.rightpad width 48) = value s * 10 ^ (width - s.length) := by
  simp [value_append]

/-- Padding to a width makes a numeral of any digits, unless nothing is asked for. -/
theorem isNumeral_rightpad {s : Text} {width : Nat} (h : s.length ≤ width) :
    IsNumeral (s.rightpad width 48) ↔ 0 < width ∧ IsDigits s := by
  have hlength : (s.rightpad width 48).length = width := by
    simp
    omega
  have hne : s.rightpad width 48 ≠ [] ↔ 0 < width := by
    rw [← List.length_pos_iff, hlength]
  have hdigits : IsDigits (s.rightpad width 48) ↔ IsDigits s := by
    simp [isDigits_append, isDigits_replicate_zero]
  rw [IsNumeral, hne, hdigits]

/-! ## Digit characters -/

/-- The byte of a digit character is a digit of the same value. -/
theorem isDigit_toUInt8 {c : Char} (h : c.isDigit) :
    isDigit c.val.toUInt8 ∧ digit c.val.toUInt8 = c.toNat - 48 ∧ c.val ≤ 127 := by
  simp only [Char.isDigit, Bool.and_eq_true, decide_eq_true_eq, UInt32.le_iff_toNat_le] at h
  have hlow : 48 ≤ c.val.toNat := h.1
  have hhigh : c.val.toNat ≤ 57 := h.2
  have hbyte : c.val.toUInt8.toNat = c.val.toNat := by
    rw [UInt32.toNat_toUInt8]
    omega
  refine ⟨isDigit_iff.mpr (by omega), by rw [digit, hbyte]; rfl, ?_⟩
  rw [UInt32.le_iff_toNat_le]
  exact hhigh.trans (by decide)

/-- Digit characters are as many digit bytes of the same value. -/
theorem text_ofList_digits {l : List Char} (h : ∀ c ∈ l, c.isDigit) :
    IsDigits (text (String.ofList l)) ∧ (text (String.ofList l)).length = l.length ∧
      value (text (String.ofList l)) = Nat.ofDigitChars 10 l 0 := by
  rw [text_ofList fun c hc => (isDigit_toUInt8 (h c hc)).2.2]
  refine ⟨?_, by simp, ?_⟩
  · intro b hb
    obtain ⟨c, hc, rfl⟩ := List.mem_map.mp hb
    exact (isDigit_toUInt8 (h c hc)).1
  · rw [value, List.foldl_map, Nat.ofDigitChars_eq_foldl]
    refine List.foldl_ext _ _ _ fun n c hc => ?_
    rw [(isDigit_toUInt8 (h c hc)).2.1, Nat.mul_comm]
    rfl

/-! ## Unsigned integers -/

/-- `strconv.FormatUint` in base ten. -/
def formatUint (n : Nat) : Text :=
  if n = 0 then [48] else (Nat.digits 10 n).reverse.map digitByte

/-- The digits of a number, written with the most significant first, have its value. -/
theorem value_map_digitByte {l : List Nat} (h : ∀ d ∈ l, d < 10) :
    value (l.reverse.map digitByte) = Nat.ofDigits 10 l := by
  induction l with
  | nil => rfl
  | cons d l ih =>
    have hl := ih fun d hd => h d (List.mem_cons_of_mem _ hd)
    rw [List.reverse_cons, List.map_append, value_append, hl, List.map_singleton, value_singleton,
      digit_digitByte (h d List.mem_cons_self), Nat.ofDigits_cons, List.length_singleton]
    omega

@[simp] theorem value_formatUint (n : Nat) : value (formatUint n) = n := by
  unfold formatUint
  split
  · next h => rw [h]; rfl
  · rw [value_map_digitByte fun d hd => Nat.digits_lt_base (by norm_num) hd, Nat.ofDigits_digits]

theorem isNumeral_formatUint (n : Nat) : IsNumeral (formatUint n) := by
  unfold formatUint
  split
  · exact ⟨by simp, isDigits_replicate_zero 1⟩
  · next h =>
    refine ⟨by simpa [Nat.digits_eq_nil_iff_eq_zero] using h, fun c hc => ?_⟩
    obtain ⟨d, hd, rfl⟩ := List.mem_map.mp hc
    exact isDigit_digitByte (Nat.digits_lt_base (by norm_num) (List.mem_reverse.mp hd))

theorem formatUint_injective : Function.Injective formatUint := fun m n h => by
  simpa using congrArg value h

/-- A number below a power of ten has at most that many digits. -/
theorem length_formatUint_le {n k : Nat} (hk : 0 < k) (h : n < 10 ^ k) :
    (formatUint n).length ≤ k := by
  unfold formatUint
  split
  · exact hk
  · simpa using (Nat.digits_length_le_iff (by norm_num) n).mpr h

/-- The two ways in which reading an integer fails. -/
inductive NumError
  | invalidSyntax
  | outOfRange
  deriving DecidableEq, Repr

/-- The error text of a function of `strconv` for a text, over the quoting of texts. -/
def NumError.text (err : NumError) (fn : String) (quote : Text → Text) (num : Text) : Text :=
  Selatpay.text ("strconv." ++ fn ++ ": parsing ") ++ quote num ++ Selatpay.text ": " ++
    match err with
    | .invalidSyntax => Selatpay.text "invalid syntax"
    | .outOfRange => Selatpay.text "value out of range"

/-- The digit loop of `strconv.ParseUint` in base ten and 64 bits. -/
def parseDigits : Nat → Text → Except NumError Nat
  | n, [] => .ok n
  | n, c :: rest =>
    if isDigit c then
      let n₁ := n * 10 + digit c
      if n₁ > 2 ^ 64 - 1 then .error .outOfRange else parseDigits n₁ rest
    else .error .invalidSyntax

/-- `strconv.ParseUint(s, 10, 64)`. -/
def parseUint (s : Text) : Except NumError Nat :=
  if s = [] then .error .invalidSyntax else parseDigits 0 s

/-- The loop reads digits whose value, carried on from a number in range, is in range. -/
theorem parseDigits_eq_ok {n m : Nat} {s : Text} (hn : n < 2 ^ 64) :
    parseDigits n s = .ok m ↔ IsDigits s ∧ m = n * 10 ^ s.length + value s ∧ m < 2 ^ 64 := by
  induction s generalizing n with
  | nil =>
    simp only [parseDigits, Except.ok.injEq, IsDigits, value, List.not_mem_nil, List.length_nil,
      List.foldl_nil]
    constructor
    · rintro rfl
      exact ⟨by simp, by simp, hn⟩
    · rintro ⟨-, hm, -⟩
      omega
  | cons c s ih =>
    have hvalue : n * 10 ^ (c :: s).length + value (c :: s)
        = (n * 10 + digit c) * 10 ^ s.length + value s := by
      rw [← foldl_value n (c :: s), List.foldl_cons, foldl_value]
    rw [parseDigits, hvalue]
    by_cases hc : isDigit c
    · have hdigits : IsDigits (c :: s) ↔ IsDigits s := by simp [IsDigits, hc]
      by_cases hrange : n * 10 + digit c > 2 ^ 64 - 1
      · have hle : n * 10 + digit c ≤ (n * 10 + digit c) * 10 ^ s.length :=
          Nat.le_mul_of_pos_right _ (by positivity)
        simp only [hc, hrange, if_true, reduceCtorEq, false_iff]
        rintro ⟨-, hm, hlt⟩
        omega
      · simp only [hc, hrange, if_true, if_false, hdigits]
        exact ih (by omega)
    · simp [hc, IsDigits]

/-- Exactly the numerals in range are read, each as its value. -/
theorem parseUint_eq_ok {s : Text} {n : Nat} :
    parseUint s = .ok n ↔ IsNumeral s ∧ n = value s ∧ n < 2 ^ 64 := by
  unfold parseUint
  split
  · next h => simp [h, IsNumeral]
  · next h =>
    rw [parseDigits_eq_ok (by norm_num)]
    simp [IsNumeral, h]

theorem parseUint_formatUint {n : Nat} (h : n < 2 ^ 64) : parseUint (formatUint n) = .ok n :=
  parseUint_eq_ok.mpr ⟨isNumeral_formatUint n, by simp, h⟩

/-! ## Signed integers -/

/-- `strconv.FormatInt` in base ten. -/
def formatInt (x : Int) : Text :=
  if x < 0 then 45 :: formatUint x.natAbs else formatUint x.natAbs

/-- The sign of a text and the rest of it. -/
def sign : Text → Bool × Text
  | 43 :: s => (false, s)
  | 45 :: s => (true, s)
  | s => (false, s)

/-- `strconv.ParseInt(s, 10, 64)`. -/
def parseInt (s : Text) : Except NumError Int :=
  match parseUint (sign s).2 with
  | .error e => .error e
  | .ok un =>
    if (sign s).1 = false ∧ un ≥ 2 ^ 63 then .error .outOfRange
    else if (sign s).1 = true ∧ un > 2 ^ 63 then .error .outOfRange
    else .ok (if (sign s).1 then -un else un)

/-- A text that is read is read as a 64-bit integer. -/
theorem isInt64_of_parseInt {s : Text} {x : Int} (h : parseInt s = .ok x) : IsInt64 x := by
  unfold parseInt at h
  unfold IsInt64
  split at h
  · cases h
  · next un hun =>
    cases hsign : (sign s).1 <;> simp only [hsign] at h <;> grind

/-- A numeral has no sign. -/
theorem sign_of_isNumeral {s : Text} (h : IsNumeral s) : sign s = (false, s) := by
  unfold sign
  split
  · exact absurd (h.2 43 (by simp)) (by decide)
  · exact absurd (h.2 45 (by simp)) (by decide)
  · rfl

/-- Every 64-bit integer is read back from its printed form. -/
theorem parseInt_formatInt {x : Int} (h : IsInt64 x) : parseInt (formatInt x) = .ok x := by
  obtain ⟨hlo, hhi⟩ := h
  have hread : parseUint (formatUint x.natAbs) = .ok x.natAbs :=
    parseUint_formatUint (by omega)
  unfold parseInt formatInt
  by_cases hneg : x < 0
  · have hle : ¬ x.natAbs > 2 ^ 63 := by omega
    simp only [hneg, if_true, sign, hread, reduceCtorEq, false_and, if_false, true_and, hle]
    congr 1
    omega
  · have hlt : ¬ x.natAbs ≥ 2 ^ 63 := by omega
    simp only [hneg, if_false, sign_of_isNumeral (isNumeral_formatUint _), hread, true_and, hlt,
      reduceCtorEq, false_and]
    congr 1
    omega

/-- A text that is read is made of digits and possibly a sign. -/
theorem notMem_of_parseInt {c : UInt8} (hc : isDigit c = false) (hplus : c ≠ 43) (hminus : c ≠ 45)
    {s : Text} {x : Int} (h : parseInt s = .ok x) : c ∉ s := by
  have hdigits : c ∉ (sign s).2 := by
    unfold parseInt at h
    split at h
    · cases h
    · next un hun => exact (parseUint_eq_ok.mp hun).1.2.notMem hc
  unfold sign at hdigits
  split at hdigits <;> simp_all

/-- A printed integer is made of digits and possibly a minus sign. -/
theorem notMem_formatInt {c : UInt8} (hc : isDigit c = false) (hminus : c ≠ 45) (x : Int) :
    c ∉ formatInt x := by
  have hdigits := (isNumeral_formatUint x.natAbs).2.notMem hc
  unfold formatInt
  split <;> simp [hdigits, hminus]

/-- Different integers are printed differently. -/
theorem formatInt_injective : Function.Injective formatInt := by
  have hminus : ∀ m n : Nat, 45 :: formatUint m ≠ formatUint n := fun m n h =>
    (isNumeral_formatUint n).2.notMem (c := 45) rfl (h ▸ List.mem_cons_self)
  intro x y h
  unfold formatInt at h
  split at h <;> split at h
  · have := formatUint_injective (List.cons.inj h).2
    omega
  · exact absurd h (hminus _ _)
  · exact absurd h.symm (hminus _ _)
  · have := formatUint_injective h
    omega

/-! ## Numbers with a point -/

/-- The number that a plain decimal denotes, and how many fractional digits it has: a
numeral, or a numeral, a point and digits. -/
def denoted (s : Text) : Option (ℚ × ℕ) :=
  match Text.cut 46 s with
  | none => if IsNumeral s then some (value s, 0) else none
  | some (w, f) =>
    if IsNumeral w ∧ IsDigits f then some (value w + value f / 10 ^ f.length, f.length) else none

theorem denoted_of_isNumeral {w : Text} (h : IsNumeral w) :
    denoted w = some ((value w : ℚ), 0) := by
  rw [denoted, Text.cut_eq_none.mpr (h.2.notMem rfl)]
  simp [h]

theorem denoted_point {w f : Text} (hw : IsNumeral w) (hf : IsDigits f) :
    denoted (w ++ 46 :: f) = some ((value w : ℚ) + value f / 10 ^ f.length, f.length) := by
  rw [denoted, Text.cut_append_cons (hw.2.notMem rfl)]
  simp [hw, hf]

end Selatpay.Decimal
