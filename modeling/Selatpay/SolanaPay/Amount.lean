import Selatpay.Core.Decimal

/-!
# Amounts in display units

`formatAmount` renders a number of base units as a decimal with at most `decimals`
fractional digits and `parseAmount` reads one back, both in `uint64`; `decimalToRaw`,
of the payer tool, reads the same texts with exact rationals. The three agree on what
`formatAmount` prints. What `parseAmount` reads is the number its text denotes, as long
as the last addition does not leave 64 bits.
-/

namespace Selatpay.SolanaPay

open Decimal

/-! ## Printing -/

/-- The multiplications of the loop of `pow10`, in `uint64`. -/
def pow10Loop : Nat → Nat → Nat
  | 0, r => r
  | n + 1, r => pow10Loop n (r * 10 % 2 ^ 64)

/-- The `uint64` power of ten. -/
def pow10 (n : Nat) : Nat := pow10Loop n 1

/-- `%0*d`: the digits of a number, with zeros on the left up to a width. -/
def padZeros (width n : Nat) : Text := (formatUint n).leftpad width 48

/-- `strings.TrimRight` of zeros. -/
def trimZeros (s : Text) : Text := s.rdropWhile (· == 48)

/-- `FormatAmount`. -/
def formatAmount (raw decimals : Nat) : Text :=
  if decimals = 0 then formatUint raw
  else
    let divisor := pow10 decimals
    let whole := raw / divisor
    let frac := raw % divisor
    if frac = 0 then formatUint whole
    else formatUint whole ++ 46 :: trimZeros (padZeros decimals frac)

/-! ## Reading -/

/-- The errors of `ParseAmount`. -/
inductive AmountError
  | empty
  | exponential (s : Text)
  | whole (num : Text) (err : NumError)
  | overflow (s : Text)
  | precision (frac : Text) (decimals : Nat)
  | fraction (num : Text) (err : NumError)
  deriving DecidableEq, Repr

/-- The text of each error of `ParseAmount`, over the quoting of `%q`. -/
def AmountError.message (quote : Text → Text) : AmountError → Text
  | .empty => text "solanapay: empty amount"
  | .exponential s => text "solanapay: exponential notation not supported: " ++ quote s
  | .whole num err => text "solanapay: parse whole part: " ++ err.text "ParseUint" quote num
  | .overflow s => text "solanapay: amount overflow: " ++ quote s
  | .precision frac decimals => text "solanapay: fractional part " ++ quote frac ++
      text " exceeds " ++ formatUint decimals ++ text " decimals"
  | .fraction num err =>
      text "solanapay: parse fractional part: " ++ err.text "ParseUint" quote num

/-- `strings.SplitN(s, ".", 2)`: the first part, and the second if there is a point. -/
def splitPoint (s : Text) : Text × Option Text :=
  match Text.cut 46 s with
  | none => (s, none)
  | some (whole, frac) => (whole, some frac)

/-- The fractional part of an amount, padded on the right and added in `uint64`. -/
def addFraction (result decimals : Nat) (frac : Text) : Except AmountError Nat :=
  if frac.length > decimals then .error (.precision frac decimals)
  else
    let frac := frac.rightpad decimals 48
    match parseUint frac with
    | .error err => .error (.fraction frac err)
    | .ok f => .ok ((result + f) % 2 ^ 64)

/-- `ParseAmount`. -/
def parseAmount (s : Text) (decimals : Nat) : Except AmountError Nat :=
  if s = [] then .error .empty
  else if s.any fun c => c == 101 || c == 69 then .error (.exponential s)
  else
    let parts := splitPoint s
    match parseUint parts.1 with
    | .error err => .error (.whole parts.1 err)
    | .ok whole =>
      let multiplier := pow10 decimals
      if multiplier > 0 ∧ whole > (2 ^ 64 - 1) / multiplier then .error (.overflow s)
      else
        let result := whole * multiplier % 2 ^ 64
        match parts.2 with
        | none => .ok result
        | some frac => addFraction result decimals frac

/-! ## Reading with rationals -/

/-- The errors of `decimalToRaw`. -/
inductive RawError
  | invalid (s : Text)
  | precision (s : Text) (decimals : Nat)
  | negative
  | overflow
  deriving DecidableEq, Repr

/-- The text of each error of `decimalToRaw`, over the quoting of `%q`. -/
def RawError.message (quote : Text → Text) : RawError → Text
  | .invalid s => text "invalid decimal " ++ quote s
  | .precision s decimals => text "amount " ++ s ++ text " exceeds " ++ formatUint decimals ++
      text " decimals of precision"
  | .negative => text "amount must be non-negative"
  | .overflow => text "amount overflows uint64"

/-- `Rat.SetString`: a plain decimal is read as the number it denotes; signs, fractions,
exponents and the other forms it has are read by `other`. -/
def ratSetString (other : Text → Option ℚ) (s : Text) : Option ℚ :=
  match denoted s with
  | some (q, _) => some q
  | none => other s

/-- `decimalToRaw`. -/
def decimalToRaw (other : Text → Option ℚ) (s : Text) (decimals : Nat) : Except RawError Nat :=
  match ratSetString other s with
  | none => .error (.invalid s)
  | some rat =>
    let rat := rat * 10 ^ decimals
    if rat.isInt = false then .error (.precision s decimals)
    else if rat.num < 0 then .error .negative
    else if rat.num ≥ 2 ^ 64 then .error .overflow
    else .ok rat.num.toNat

/-! ## What is read -/

/-- The loop multiplies exactly as long as the product stays in 64 bits. -/
theorem pow10Loop_eq {n r : Nat} (h : r * 10 ^ n < 2 ^ 64) : pow10Loop n r = r * 10 ^ n := by
  induction n generalizing r with
  | zero => simp [pow10Loop]
  | succ n ih =>
    have hmul : r * 10 ^ (n + 1) = r * 10 * 10 ^ n := by ring
    have hle : r * 10 ≤ r * 10 * 10 ^ n := Nat.le_mul_of_pos_right _ (by positivity)
    have hmod : r * 10 % 2 ^ 64 = r * 10 := Nat.mod_eq_of_lt (by omega)
    rw [pow10Loop, hmod, ih (by omega), hmul]

section Representable

variable {d : Nat} (hd : d ≤ 19)

include hd

/-- A power of ten up to the nineteenth is representable. -/
theorem pow_lt_two_pow_64 : 10 ^ d < 2 ^ 64 :=
  calc 10 ^ d ≤ 10 ^ 19 := Nat.pow_le_pow_right (by norm_num) hd
    _ < 2 ^ 64 := by norm_num

theorem pow10_eq : pow10 d = 10 ^ d := by
  have hlt := pow_lt_two_pow_64 hd
  rw [pow10, pow10Loop_eq (by omega), Nat.one_mul]

/-- Padded fractional digits are representable. -/
theorem value_rightpad_lt {frac : Text} (hle : frac.length ≤ d)
    (hdigits : IsDigits (frac.rightpad d 48)) : value (frac.rightpad d 48) < 2 ^ 64 := by
  have hlength : (frac.rightpad d 48).length = d := by
    simp
    omega
  have hlt := value_lt hdigits
  rw [hlength] at hlt
  exact hlt.trans (pow_lt_two_pow_64 hd)

/-- The fractional digits that are accepted, and what they add. -/
theorem addFraction_eq_ok {result v : Nat} {frac : Text} :
    addFraction result d frac = .ok v ↔
      frac.length ≤ d ∧ 0 < d ∧ IsDigits frac ∧
        v = (result + value frac * 10 ^ (d - frac.length)) % 2 ^ 64 := by
  unfold addFraction
  split
  · next hlen =>
    simp only [reduceCtorEq, false_iff]
    omega
  · next hlen =>
    have hle : frac.length ≤ d := by omega
    dsimp only
    constructor
    · intro h
      split at h
      · cases h
      · next f hf =>
        obtain ⟨hs, rfl, -⟩ := parseUint_eq_ok.mp hf
        obtain ⟨hpos, hfrac⟩ := (isNumeral_rightpad hle).mp hs
        exact ⟨hle, hpos, hfrac, by rw [← value_rightpad]; exact (Except.ok.inj h).symm⟩
    · rintro ⟨-, hpos, hfrac, rfl⟩
      have hs := (isNumeral_rightpad hle).mpr ⟨hpos, hfrac⟩
      have hf : parseUint (frac.rightpad d 48) = .ok (value (frac.rightpad d 48)) :=
        parseUint_eq_ok.mpr ⟨hs, rfl, value_rightpad_lt hd hle hs.2⟩
      simp only [hf, value_rightpad]

omit hd in
/-- A numeral, and a numeral followed by a point and digits, is no exponential notation. -/
theorem any_exponent_eq_false {s : Text} (h : ∀ c ∈ s, isDigit c ∨ c = 46) :
    (s.any fun c => c == 101 || c == 69) = false := by
  rw [List.any_eq_false]
  intro c hc
  rcases h c hc with h | rfl
  · have := isDigit_iff.mp h
    simp only [Bool.or_eq_true, beq_iff_eq, not_or]
    constructor <;> rintro rfl <;> simp at this
  · decide

/-- A whole part that is accepted, and what goes on from it. -/
theorem parseAmount_eq_of_whole {s : Text}
    (hexp : (s.any fun c => c == 101 || c == 69) = false) (hs : IsNumeral (splitPoint s).1)
    (hfits : value (splitPoint s).1 * 10 ^ d < 2 ^ 64) :
    parseAmount s d = match (splitPoint s).2 with
      | none => .ok (value (splitPoint s).1 * 10 ^ d)
      | some frac => addFraction (value (splitPoint s).1 * 10 ^ d) d frac := by
  have hpos : 0 < 10 ^ d := by positivity
  have hne : s ≠ [] := by
    rintro rfl
    exact hs.1 rfl
  have hle : value (splitPoint s).1 ≤ value (splitPoint s).1 * 10 ^ d :=
    Nat.le_mul_of_pos_right _ hpos
  have hwhole : parseUint (splitPoint s).1 = .ok (value (splitPoint s).1) :=
    parseUint_eq_ok.mpr ⟨hs, rfl, by omega⟩
  have hguard : ¬ (10 ^ d > 0 ∧ value (splitPoint s).1 > (2 ^ 64 - 1) / 10 ^ d) := by
    rintro ⟨-, hgt⟩
    have := (Nat.div_lt_iff_lt_mul hpos).mp hgt
    omega
  simp only [parseAmount, hne, if_false, hexp, Bool.false_eq_true, hwhole, pow10_eq hd, hguard,
    Nat.mod_eq_of_lt hfits]

/-- An accepted amount has a numeral as its whole part, whose scaled value fits. -/
theorem whole_of_parseAmount {s : Text} {v : Nat} (h : parseAmount s d = .ok v) :
    (s.any fun c => c == 101 || c == 69) = false ∧ IsNumeral (splitPoint s).1 ∧
      value (splitPoint s).1 * 10 ^ d < 2 ^ 64 := by
  have hpos : 0 < 10 ^ d := by positivity
  unfold parseAmount at h
  split at h
  · cases h
  split at h
  · cases h
  next hexp =>
    dsimp only at h
    split at h
    · cases h
    next whole hwhole =>
      rw [pow10_eq hd] at h
      split at h
      · cases h
      next hguard =>
        obtain ⟨hs, rfl, -⟩ := parseUint_eq_ok.mp hwhole
        have hle : ¬ (2 ^ 64 - 1) / 10 ^ d < value (splitPoint s).1 :=
          fun hlt => hguard ⟨hpos, hlt⟩
        rw [Nat.div_lt_iff_lt_mul hpos] at hle
        exact ⟨by simpa using hexp, hs, by omega⟩

/-- Exactly the numerals whose scaled value fits are read as whole amounts. -/
theorem parseAmount_whole {s : Text} {v : Nat} (hpoint : Text.cut 46 s = none) :
    parseAmount s d = .ok v ↔ IsNumeral s ∧ value s * 10 ^ d < 2 ^ 64 ∧ v = value s * 10 ^ d := by
  have hsplit : splitPoint s = (s, none) := by rw [splitPoint, hpoint]
  constructor
  · intro h
    obtain ⟨hexp, hs, hfits⟩ := whole_of_parseAmount hd h
    rw [parseAmount_eq_of_whole hd hexp hs hfits] at h
    rw [hsplit] at h hs hfits
    exact ⟨hs, hfits, (Except.ok.inj h).symm⟩
  · rintro ⟨hs, hfits, rfl⟩
    have hexp := any_exponent_eq_false fun c hc => .inl (hs.2 c hc)
    rw [parseAmount_eq_of_whole hd hexp (by rwa [hsplit]) (by rwa [hsplit]), hsplit]

/-- Exactly the numerals with at most `d` further digits after the point are read, when
the whole part fits; the sum is reduced to 64 bits. -/
theorem parseAmount_point {s w f : Text} {v : Nat} (hpoint : Text.cut 46 s = some (w, f)) :
    parseAmount s d = .ok v ↔
      IsNumeral w ∧ value w * 10 ^ d < 2 ^ 64 ∧ f.length ≤ d ∧ 0 < d ∧ IsDigits f ∧
        v = (value w * 10 ^ d + value f * 10 ^ (d - f.length)) % 2 ^ 64 := by
  have hsplit : splitPoint s = (w, some f) := by rw [splitPoint, hpoint]
  constructor
  · intro h
    obtain ⟨hexp, hs, hfits⟩ := whole_of_parseAmount hd h
    rw [parseAmount_eq_of_whole hd hexp hs hfits] at h
    rw [hsplit] at h hs hfits
    exact ⟨hs, hfits, (addFraction_eq_ok hd).mp h⟩
  · rintro ⟨hs, hfits, hfrac⟩
    have hexp : (s.any fun c => c == 101 || c == 69) = false := by
      apply any_exponent_eq_false
      intro c hc
      rw [(Text.cut_eq_some.mp hpoint).1] at hc
      rcases List.mem_append.mp hc with hc | hc
      · exact .inl (hs.2 c hc)
      · rcases List.mem_cons.mp hc with rfl | hc
        · exact .inr rfl
        · exact .inl (hfrac.2.2.1 c hc)
    rw [parseAmount_eq_of_whole hd hexp (by rwa [hsplit]) (by rwa [hsplit]), hsplit]
    exact (addFraction_eq_ok hd).mpr hfrac

end Representable

/-! ## Exactness -/

/-- The amount is read as the number its text denotes, in base units, and a number out of
range is refused. -/
def ReadsExactly (s : Text) (d : Nat) : Prop :=
  (∀ v, parseAmount s d = .ok v →
    ∃ q places, denoted s = some (q, places) ∧ places ≤ d ∧ (v : ℚ) = q * 10 ^ d) ∧
  ∀ q places, denoted s = some (q, places) → 2 ^ 64 - 1 < q * 10 ^ d →
    ∃ err, parseAmount s d = .error err

/-- The sum of the scaled whole part and the scaled fractional part fits in 64 bits when
the whole part alone does. -/
def SumFits (s : Text) (d : Nat) : Prop :=
  match Text.cut 46 s with
  | none => True
  | some (w, f) => IsNumeral w → IsDigits f → f.length ≤ d → value w * 10 ^ d < 2 ^ 64 →
      value w * 10 ^ d + value f * 10 ^ (d - f.length) < 2 ^ 64

/-- A decimal with at most `d` fractional digits, scaled. -/
theorem scale_point {d w f n : Nat} (hn : n ≤ d) :
    ((w : ℚ) + f / 10 ^ n) * 10 ^ d = ((w * 10 ^ d + f * 10 ^ (d - n) : ℕ) : ℚ) := by
  have hpow : (10 : ℚ) ^ d = 10 ^ n * 10 ^ (d - n) := by
    rw [← pow_add, Nat.add_sub_cancel' hn]
  have hne : (10 : ℚ) ^ n ≠ 0 := by positivity
  push_cast
  rw [hpow]
  field_simp

/-- An amount that is read fits in 64 bits. -/
theorem parseAmount_lt {d : Nat} (hd : d ≤ 19) {s : Text} {v : Nat}
    (h : parseAmount s d = .ok v) : v < 2 ^ 64 := by
  cases hpoint : Text.cut 46 s with
  | none =>
    obtain ⟨-, hlt, rfl⟩ := (parseAmount_whole hd hpoint).mp h
    exact hlt
  | some p =>
    obtain ⟨-, -, -, -, -, rfl⟩ := (parseAmount_point hd hpoint).mp h
    exact Nat.mod_lt _ (by norm_num)

/-- What is read as the number denoted cannot be out of range. -/
theorem readsExactly_of_read {d : Nat} (hd : d ≤ 19) {s : Text}
    (h : ∀ v, parseAmount s d = .ok v →
      ∃ q places, denoted s = some (q, places) ∧ places ≤ d ∧ (v : ℚ) = q * 10 ^ d) :
    ReadsExactly s d := by
  refine ⟨h, fun q places hq hrange => ?_⟩
  cases hparse : parseAmount s d with
  | error err => exact ⟨err, rfl⟩
  | ok v =>
    obtain ⟨q', places', hq', -, hv⟩ := h v hparse
    obtain ⟨rfl, rfl⟩ := Prod.mk.inj (Option.some.inj (hq.symm.trans hq'))
    have hlt : (v : ℚ) + 1 ≤ 2 ^ 64 := by exact_mod_cast parseAmount_lt hd hparse
    rw [← hv] at hrange
    linarith

/-- Reading is exact for precisely the texts whose last addition does not overflow. -/
theorem readsExactly_iff_sumFits {d : Nat} (hd : d ≤ 19) (s : Text) :
    ReadsExactly s d ↔ SumFits s d := by
  constructor
  · rintro ⟨hexact, -⟩
    unfold SumFits
    split
    · trivial
    · next w f hpoint =>
      intro hw hf hlen hfits
      rcases Nat.eq_zero_or_pos d with rfl | hpos
      · obtain rfl := List.length_eq_zero_iff.mp (Nat.le_zero.mp hlen)
        simpa [value] using hfits
      · have hread := (parseAmount_point hd hpoint).mpr ⟨hw, hfits, hlen, hpos, hf, rfl⟩
        obtain ⟨q, places, hden, -, hv⟩ := hexact _ hread
        rw [(Text.cut_eq_some.mp hpoint).1, denoted_point hw hf] at hden
        obtain ⟨rfl, rfl⟩ := Prod.mk.inj (Option.some.inj hden)
        rw [scale_point hlen, Nat.cast_inj] at hv
        rw [← hv]
        exact Nat.mod_lt _ (by norm_num)
  · intro hsum
    apply readsExactly_of_read hd
    intro v hv
    cases hpoint : Text.cut 46 s with
    | none =>
      obtain ⟨hs, -, rfl⟩ := (parseAmount_whole hd hpoint).mp hv
      exact ⟨value s, 0, denoted_of_isNumeral hs, Nat.zero_le d, by push_cast; rfl⟩
    | some p =>
      obtain ⟨w, f⟩ := p
      obtain ⟨hw, hfits, hlen, -, hf, rfl⟩ := (parseAmount_point hd hpoint).mp hv
      rw [SumFits, hpoint] at hsum
      rw [Nat.mod_eq_of_lt (hsum hw hf hlen hfits), ← scale_point hlen]
      refine ⟨_, _, ?_, hlen, rfl⟩
      rw [(Text.cut_eq_some.mp hpoint).1]
      exact denoted_point hw hf

theorem readsExactly_one_and_a_half : ReadsExactly (text "1.5") 6 :=
  (readsExactly_iff_sumFits (by norm_num) (text "1.5")).mpr (by intro _ _ _ _; decide +kernel)

/-- Six decimals and a whole part that just fits: the sum is `2 ^ 64`, and zero is read. -/
theorem not_readsExactly_at_limit :
    parseAmount (text "18446744073709.551616") 6 = .ok 0 ∧
      denoted (text "18446744073709.551616") = some (18446744073709551616 / 10 ^ 6, 6) ∧
      ¬ ReadsExactly (text "18446744073709.551616") 6 := by
  have hparse : parseAmount (text "18446744073709.551616") 6 = .ok 0 := by decide +kernel
  have hden : denoted (text "18446744073709.551616") =
      some (18446744073709551616 / 10 ^ 6, 6) := by decide +kernel
  refine ⟨hparse, hden, ?_⟩
  rintro ⟨-, hrange⟩
  obtain ⟨err, herr⟩ := hrange _ _ hden (by norm_num)
  rw [hparse] at herr
  cases herr

/-! ## The round trip -/

/-- Padding on the right gives the trimmed zeros back. -/
theorem rightpad_trimZeros (s : Text) : (trimZeros s).rightpad s.length 48 = s := by
  have happend : trimZeros s ++ s.rtakeWhile (· == 48) = s := List.rdropWhile_append_rtakeWhile ..
  have hlength := congrArg List.length happend
  rw [List.length_append] at hlength
  have hzeros : s.rtakeWhile (· == 48) = List.replicate (s.length - (trimZeros s).length) 48 :=
    List.eq_replicate_iff.mpr ⟨by omega, fun c hc => by simpa using List.mem_rtakeWhile_imp hc⟩
  rw [List.rightpad, ← hzeros, happend]

section Fraction

variable {d n : Nat} (hlt : n < 10 ^ d)

include hlt

theorem length_padZeros (hd : 0 < d) : (padZeros d n).length = d := by
  have hle := length_formatUint_le hd hlt
  simp only [padZeros, List.leftpad, List.length_append, List.length_replicate]
  omega

omit hlt in
theorem value_padZeros : value (padZeros d n) = n := by
  simp [padZeros, value_append]

omit hlt in
theorem isDigits_padZeros : IsDigits (padZeros d n) := by
  simp only [padZeros, List.leftpad, isDigits_append]
  exact ⟨isDigits_replicate_zero _, (isNumeral_formatUint n).2⟩

/-- The printed fraction: digits that do not end in a zero and that stand for the fraction
once they are padded again. -/
theorem trimZeros_padZeros (hpos : 0 < n) :
    IsDigits (trimZeros (padZeros d n)) ∧ (trimZeros (padZeros d n)).length ≤ d ∧
      value (trimZeros (padZeros d n)) * 10 ^ (d - (trimZeros (padZeros d n)).length) = n ∧
      ∃ c, (trimZeros (padZeros d n)).getLast? = some c ∧ isDigit c ∧ c ≠ 48 := by
  have hd : 0 < d := by
    rcases Nat.eq_zero_or_pos d with rfl | hd
    · simp at hlt
      omega
    · exact hd
  have hsub : trimZeros (padZeros d n) <+: padZeros d n := List.rdropWhile_prefix ..
  have hdigits : IsDigits (trimZeros (padZeros d n)) :=
    fun c hc => isDigits_padZeros c (hsub.subset hc)
  have hle := hsub.length_le
  rw [length_padZeros hlt hd] at hle
  have hvalue := congrArg value (rightpad_trimZeros (padZeros d n))
  rw [value_rightpad, length_padZeros hlt hd, value_padZeros] at hvalue
  have hne : trimZeros (padZeros d n) ≠ [] := by
    intro hnil
    rw [hnil] at hvalue
    simp [value] at hvalue
    omega
  refine ⟨hdigits, hle, hvalue, _, List.getLast?_eq_some_getLast hne, ?_, ?_⟩
  · exact hdigits _ (List.getLast_mem hne)
  · have hlast : ¬ ((trimZeros (padZeros d n)).getLast hne == 48) = true :=
      List.rdropWhile_last_not (· == 48) (padZeros d n) hne
    simpa using hlast

end Fraction

section Formatted

variable {raw d : Nat} (hd : d ≤ 19)

include hd

/-- The two forms of a printed amount. -/
theorem formatAmount_eq : formatAmount raw d =
    if raw % 10 ^ d = 0 then formatUint (raw / 10 ^ d)
    else formatUint (raw / 10 ^ d) ++ 46 :: trimZeros (padZeros d (raw % 10 ^ d)) := by
  unfold formatAmount
  split
  · next hzero => simp [hzero, Nat.mod_one]
  · rw [pow10_eq hd]

/-- A printed amount is read back. -/
theorem parseAmount_formatAmount (hraw : raw < 2 ^ 64) :
    parseAmount (formatAmount raw d) d = .ok raw := by
  have hwhole := isNumeral_formatUint (raw / 10 ^ d)
  have hdiv : raw / 10 ^ d * 10 ^ d + raw % 10 ^ d = raw := Nat.div_add_mod' raw (10 ^ d)
  rw [formatAmount_eq hd]
  split
  · next hzero =>
    apply (parseAmount_whole hd (Text.cut_eq_none.mpr (hwhole.2.notMem rfl))).mpr
    rw [value_formatUint]
    exact ⟨hwhole, by omega, by omega⟩
  · next hpos =>
    have hlt : raw % 10 ^ d < 10 ^ d := Nat.mod_lt _ (by positivity)
    obtain ⟨hf, hlen, hvalue, c, hc, -⟩ := trimZeros_padZeros hlt (Nat.pos_of_ne_zero hpos)
    apply (parseAmount_point hd (Text.cut_append_cons (hwhole.2.notMem rfl) _)).mpr
    rw [value_formatUint, hvalue, hdiv, Nat.mod_eq_of_lt hraw]
    have hd0 : 0 < d := by
      rcases Nat.eq_zero_or_pos d with rfl | hd0
      · simp at hpos
        omega
      · exact hd0
    exact ⟨hwhole, by omega, hlen, hd0, hf, rfl⟩

/-- A printed amount denotes the number of display units. -/
theorem denoted_formatAmount :
    ∃ places, denoted (formatAmount raw d) = some ((raw : ℚ) / 10 ^ d, places) := by
  have hwhole := isNumeral_formatUint (raw / 10 ^ d)
  have hdiv : raw / 10 ^ d * 10 ^ d + raw % 10 ^ d = raw := Nat.div_add_mod' raw (10 ^ d)
  have hne : (10 : ℚ) ^ d ≠ 0 := by positivity
  rw [formatAmount_eq hd]
  split
  · next hzero =>
    have hq : ((raw / 10 ^ d : ℕ) : ℚ) = raw / 10 ^ d := by
      rw [eq_div_iff hne]
      exact_mod_cast by omega
    rw [denoted_of_isNumeral hwhole, value_formatUint, hq]
    exact ⟨0, rfl⟩
  · next hpos =>
    have hlt : raw % 10 ^ d < 10 ^ d := Nat.mod_lt _ (by positivity)
    obtain ⟨hf, hlen, hvalue, -⟩ := trimZeros_padZeros hlt (Nat.pos_of_ne_zero hpos)
    have hscale := scale_point (w := raw / 10 ^ d)
      (f := value (trimZeros (padZeros d (raw % 10 ^ d)))) hlen
    rw [hvalue, hdiv, ← eq_div_iff hne] at hscale
    rw [denoted_point hwhole hf, value_formatUint, hscale]
    exact ⟨_, rfl⟩

/-- A printed amount does not end in the point, and after a point not in a zero. -/
theorem getLast?_formatAmount : ∃ c, (formatAmount raw d).getLast? = some c ∧ c ≠ 46 ∧
    (46 ∈ formatAmount raw d → c ≠ 48) := by
  have hwhole := isNumeral_formatUint (raw / 10 ^ d)
  rw [formatAmount_eq hd]
  split
  · have hpoint := hwhole.2.notMem (c := 46) rfl
    refine ⟨_, List.getLast?_eq_some_getLast hwhole.1, ?_, fun h => absurd h hpoint⟩
    rintro he
    exact hpoint (he ▸ List.getLast_mem hwhole.1)
  · next hpos =>
    have hlt : raw % 10 ^ d < 10 ^ d := Nat.mod_lt _ (by positivity)
    obtain ⟨-, -, -, c, hc, hdigit, hne⟩ := trimZeros_padZeros hlt (Nat.pos_of_ne_zero hpos)
    refine ⟨c, by simp [List.getLast?_append, List.getLast?_cons, hc], ?_, fun _ => hne⟩
    rintro rfl
    cases hdigit

end Formatted

/-- The payer tool reads a text that denotes a number of base units as that number. -/
theorem decimalToRaw_of_denoted {s : Text} {raw d places : Nat} (hraw : raw < 2 ^ 64)
    (h : denoted s = some ((raw : ℚ) / 10 ^ d, places)) (other : Text → Option ℚ) :
    decimalToRaw other s d = .ok raw := by
  have hset : ratSetString other s = some ((raw : ℚ) / 10 ^ d) := by rw [ratSetString, h]
  have hscale : (raw : ℚ) / 10 ^ d * 10 ^ d = (raw : ℚ) := div_mul_cancel₀ _ (by positivity)
  have hsign : ¬ (raw : ℤ) < 0 := by omega
  have hrange : ¬ (raw : ℤ) ≥ 2 ^ 64 := by omega
  simp only [decimalToRaw, hset, hscale, Rat.isInt, Rat.den_natCast, Rat.num_natCast, hsign,
    hrange, if_false, Int.toNat_natCast]
  rfl

/-- Printing an amount and reading it back, here and in the payer tool. -/
theorem formatAmount_roundTrip {raw d : Nat} (hraw : raw < 2 ^ 64) (hd : d ≤ 19) :
    parseAmount (formatAmount raw d) d = .ok raw ∧
      (∃ places, denoted (formatAmount raw d) = some ((raw : ℚ) / 10 ^ d, places)) ∧
      (46 ∈ formatAmount raw d → (formatAmount raw d).getLast? ≠ some 48) ∧
      (formatAmount raw d).getLast? ≠ some 46 ∧
      (∀ raw' < 2 ^ 64, formatAmount raw' d = formatAmount raw d → raw' = raw) ∧
      ∀ other, decimalToRaw other (formatAmount raw d) d = .ok raw := by
  have hparse := parseAmount_formatAmount hd hraw
  obtain ⟨places, hden⟩ := @denoted_formatAmount raw d hd
  obtain ⟨c, hlast, hpoint, hzero⟩ := @getLast?_formatAmount raw d hd
  refine ⟨hparse, ⟨places, hden⟩, fun h => ?_, ?_, fun raw' hraw' he => ?_,
    decimalToRaw_of_denoted hraw hden⟩
  · rw [hlast]
    simpa using hzero h
  · rw [hlast]
    simpa using hpoint
  · have hparse' := parseAmount_formatAmount hd hraw'
    rw [he, hparse] at hparse'
    exact (Except.ok.inj hparse').symm

theorem formatAmount_roundTrip_max :
    parseAmount (formatAmount (2 ^ 64 - 1) 19) 19 = .ok (2 ^ 64 - 1) ∧
      formatAmount (2 ^ 64 - 1) 19 = text "1.8446744073709551615" :=
  ⟨(formatAmount_roundTrip (by norm_num) (by norm_num)).1, by decide +kernel⟩

end Selatpay.SolanaPay
