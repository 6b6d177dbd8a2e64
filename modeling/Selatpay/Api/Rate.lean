import Selatpay.Api.Handlers

/-!
# Printed rates

`formatRate` moves the decimal point of a number by its scale, with zeros in front where
the number has too few digits. What it prints has as many fractional digits as the scale
and denotes the rate, so both can be read off it.
-/

namespace Selatpay.Api.Handlers

open Decimal

/-- At least one digit, or a point with at least one digit on each side. -/
def IsPlainDecimal (s : Text) : Prop :=
  IsNumeral s ∨ ∃ w f, s = w ++ 46 :: f ∧ IsNumeral w ∧ IsNumeral f

/-- The characters of a printed number. -/
theorem toString_natCast (n : Nat) : toString (n : Int) = String.ofList (Nat.toDigits 10 n) := rfl

/-- Digits with a point among them denote what they denote without it, over a power of ten. -/
theorem denoted_point_eq {w f : Text} (hw : IsNumeral w) (hf : IsDigits f) :
    denoted (w ++ 46 :: f) = some ((value (w ++ f) : ℚ) / 10 ^ f.length, f.length) := by
  have hne : (10 : ℚ) ^ f.length ≠ 0 := by positivity
  rw [denoted_point hw hf, value_append]
  push_cast
  rw [add_div, mul_div_cancel_right₀ _ hne]

/-- The two parts around the point: they are digits, the second has as many as the scale, and
together they are the number. -/
theorem formatRate_pos (n : Nat) {scale : Nat} (hscale : 0 < scale) :
    ∃ w f, text (formatRate n scale) = w ++ 46 :: f ∧ IsNumeral w ∧ IsDigits f ∧
      f.length = scale ∧ value (w ++ f) = n := by
  have hdigits : ∀ c ∈ Nat.toDigits 10 n, c.isDigit := fun c hc =>
    Nat.isDigit_of_mem_toDigits (by decide) (by decide) hc
  have hvalue : Nat.ofDigitChars 10 (Nat.toDigits 10 n) 0 = n := Nat.ofDigitChars_ten_toDigits
  have hnot : ¬ (scale : Int) ≤ 0 := by omega
  simp only [formatRate, if_neg hnot, toString_natCast, String.toList_ofList, Int.toNat_natCast]
  generalize Nat.toDigits 10 n = str at hdigits hvalue
  split
  · next hlong =>
    have hpad : ∀ c ∈ List.replicate (scale - str.length) '0' ++ str, c.isDigit := by
      intro c hc
      rcases List.mem_append.mp hc with hc | hc
      · rw [List.eq_of_mem_replicate hc]
        rfl
      · exact hdigits c hc
    obtain ⟨hf, hlength, hval⟩ := text_ofList_digits hpad
    refine ⟨[48], text (String.ofList (List.replicate (scale - str.length) '0' ++ str)),
      text_append _ _, ⟨by simp, isDigits_replicate_zero 1⟩, hf, ?_, ?_⟩
    · rw [hlength, List.length_append, List.length_replicate]
      omega
    · rw [value_append, hval, Nat.ofDigitChars_append, Nat.ofDigitChars_replicate_zero]
      simpa [value_singleton, digit] using hvalue
  · next hshort =>
    have hw : ∀ c ∈ str.take (str.length - scale), c.isDigit := fun c hc =>
      hdigits c (List.mem_of_mem_take hc)
    have hf : ∀ c ∈ str.drop (str.length - scale), c.isDigit := fun c hc =>
      hdigits c (List.mem_of_mem_drop hc)
    obtain ⟨hw, hwlen, -⟩ := text_ofList_digits hw
    obtain ⟨hf, hflen, -⟩ := text_ofList_digits hf
    refine ⟨text (String.ofList (str.take (str.length - scale))), _, ?_, ⟨?_, hw⟩, hf, ?_, ?_⟩
    · rw [text_append, text_append, List.append_assoc]
      rfl
    · rw [← List.length_pos_iff, hwlen, List.length_take]
      omega
    · rw [hflen, List.length_drop]
      omega
    · rw [← text_append, ← String.ofList_append, List.take_append_drop,
        (text_ofList_digits hdigits).2.2, hvalue]

/-- What is printed denotes the rate, with as many fractional digits as the scale. -/
theorem denoted_formatRate (n scale : Nat) : IsPlainDecimal (text (formatRate n scale)) ∧
    denoted (text (formatRate n scale)) = some ((n : ℚ) / 10 ^ scale, scale) := by
  rcases Nat.eq_zero_or_pos scale with rfl | hpos
  · have hdigits : ∀ c ∈ Nat.toDigits 10 n, c.isDigit := fun c hc =>
      Nat.isDigit_of_mem_toDigits (by decide) (by decide) hc
    obtain ⟨hall, hlength, hvalue⟩ := text_ofList_digits hdigits
    have hprint : formatRate n (0 : Nat) = String.ofList (Nat.toDigits 10 n) := rfl
    have hnumeral : IsNumeral (text (String.ofList (Nat.toDigits 10 n))) := by
      refine ⟨?_, hall⟩
      rw [← List.length_pos_iff, hlength]
      exact Nat.length_toDigits_pos
    rw [hprint, denoted_of_isNumeral hnumeral, hvalue, Nat.ofDigitChars_ten_toDigits, pow_zero,
      div_one]
    exact ⟨.inl hnumeral, rfl⟩
  · obtain ⟨w, f, htext, hw, hf, hlength, hvalue⟩ := formatRate_pos n hpos
    have hne : f ≠ [] := by
      rw [← List.length_pos_iff, hlength]
      exact hpos
    rw [htext, denoted_point_eq hw hf, hvalue, hlength]
    exact ⟨.inr ⟨w, f, rfl, hw, hne, hf⟩, rfl⟩

/-- A printed rate denotes `num / 10 ^ scale` exactly, with `scale` fractional digits and at least
one digit on each side of a point, and the number and the scale can be recovered from it. -/
theorem formatRate_exact (num scale : Int) (hnum : 0 < num) (hscale : 0 ≤ scale) :
    IsPlainDecimal (text (formatRate num scale)) ∧
    denoted (text (formatRate num scale)) = some ((num : ℚ) / 10 ^ scale.toNat, scale.toNat) ∧
    ∀ num' scale' : Int, 0 < num' → 0 ≤ scale' → formatRate num' scale' = formatRate num scale →
      num' = num ∧ scale' = scale := by
  obtain ⟨n, rfl⟩ := Int.eq_ofNat_of_zero_le hnum.le
  obtain ⟨k, rfl⟩ := Int.eq_ofNat_of_zero_le hscale
  obtain ⟨hplain, hdenoted⟩ := denoted_formatRate n k
  refine ⟨hplain, by simpa using hdenoted, ?_⟩
  intro num' scale' hnum' hscale' hsame
  obtain ⟨n', rfl⟩ := Int.eq_ofNat_of_zero_le hnum'.le
  obtain ⟨k', rfl⟩ := Int.eq_ofNat_of_zero_le hscale'
  have hdenoted' := (denoted_formatRate n' k').2
  rw [hsame, hdenoted, Option.some.injEq, Prod.mk.injEq] at hdenoted'
  obtain ⟨hvalue, rfl⟩ := hdenoted'
  have hne : (10 : ℚ) ^ k ≠ 0 := by positivity
  rw [div_left_inj' hne] at hvalue
  exact ⟨by exact_mod_cast hvalue.symm, rfl⟩

/-- A rate below one is printed with zeros after the point. -/
theorem formatRate_exact_small : formatRate 617 7 = "0.0000617" ∧
    denoted (text (formatRate 617 7)) = some ((617 : ℚ) / 10 ^ 7, 7) :=
  ⟨by decide, (formatRate_exact 617 7 (by decide) (by decide)).2.1⟩

end Selatpay.Api.Handlers
