import Selatpay.Quoter.Amount

/-!
# The price at the rate a quote was given

A rate is stored as `num / 10 ^ scale`. A price at that rate multiplies the rupiah
amount by the power of ten; the quote engine multiplies the rate by it. For a
positive scale the two quotients are never the same price, so the engine answers
as the rate demands only where neither quotient is a positive `int64`.
-/

namespace Selatpay.Quoter

/-- The denominator of a price over the scaled rupiah amount. -/
def spreadRate (rate : Rate) (spreadBps : Int) : Int := rate.num * (10000 - spreadBps)

/-- The USDC minor units of an amount at the rate `num / 10 ^ scale`, rounded down once. -/
def priceAtRate (amountIDR : Int) (rate : Rate) (spreadBps : Int) : Int :=
  amountIDR * 10 ^ 10 * 10 ^ rate.scale.toNat / spreadRate rate spreadBps

/-- The engine returns the price at the rate where that is a positive `int64` and an error
where it is not. -/
def PricesAtRate (amountIDR : Int) (rate : Rate) (spreadBps : Int) : Prop :=
  if 1 ≤ priceAtRate amountIDR rate spreadBps ∧
      priceAtRate amountIDR rate spreadBps ≤ 2 ^ 63 - 1 then
    quoteAmount amountIDR rate spreadBps = .ok (priceAtRate amountIDR rate spreadBps)
  else (quoteAmount amountIDR rate spreadBps).isOk = false

instance (amountIDR : Int) (rate : Rate) (spreadBps : Int) :
    Decidable (PricesAtRate amountIDR rate spreadBps) := by
  unfold PricesAtRate
  infer_instance

/-- The scale is zero, or both the price at the rate and the quotient the engine takes are
below one unit or beyond `int64`. -/
def ScaleHarmless (amountIDR : Int) (rate : Rate) (spreadBps : Int) : Prop :=
  rate.scale = 0 ∨
    amountIDR * 10 ^ 10 * 10 ^ rate.scale.toNat < spreadRate rate spreadBps ∨
    2 ^ 63 * spreadRate rate spreadBps ≤ amountIDR * 10 ^ 10 * 10 ^ rate.scale.toNat ∧
      (amountIDR * 10 ^ 10 < effectiveRate rate spreadBps ∨
        2 ^ 63 * effectiveRate rate spreadBps ≤ amountIDR * 10 ^ 10)

instance (amountIDR : Int) (rate : Rate) (spreadBps : Int) :
    Decidable (ScaleHarmless amountIDR rate spreadBps) := by
  unfold ScaleHarmless
  infer_instance

/-- The same rate with one more digit. -/
def Rate.rescaled (rate : Rate) : Rate := ⟨rate.num * 10, rate.scale + 1⟩

/-- The engine's denominator is the price's, times the power of ten. -/
theorem effectiveRate_eq (rate : Rate) (spreadBps : Int) :
    effectiveRate rate spreadBps = spreadRate rate spreadBps * 10 ^ rate.scale.toNat := rfl

/-- One more digit changes neither the rate nor the price at it. -/
theorem priceAtRate_rescaled (amountIDR spreadBps : Int) {rate : Rate} (hs : 0 ≤ rate.scale) :
    priceAtRate amountIDR rate.rescaled spreadBps = priceAtRate amountIDR rate spreadBps := by
  have hexp : (rate.scale + 1).toNat = rate.scale.toNat + 1 := by omega
  have hnum : amountIDR * 10 ^ 10 * 10 ^ (rate.scale.toNat + 1) =
      10 * (amountIDR * 10 ^ 10 * 10 ^ rate.scale.toNat) := by ring
  have hden : rate.num * 10 * (10000 - spreadBps) = 10 * (rate.num * (10000 - spreadBps)) := by
    ring
  simp only [priceAtRate, spreadRate, Rate.rescaled, hexp, hnum, hden]
  exact Int.mul_ediv_mul_of_pos _ _ (by norm_num)

section Admissible

variable {amountIDR spreadBps : Int} {rate : Rate} (ha : 0 < amountIDR) (hn : 0 < rate.num)
  (hscale : rate.scale ≤ 18) (hb : 0 ≤ spreadBps) (hb' : spreadBps ≤ 9999)
include hn hb'

/-- The price at an admissible rate has a positive denominator. -/
theorem spreadRate_pos : 0 < spreadRate rate spreadBps :=
  mul_pos hn (by omega)

/-- The range of the price at the rate, without the rounding. -/
theorem priceAtRate_mem_range_iff :
    (1 ≤ priceAtRate amountIDR rate spreadBps ∧
        priceAtRate amountIDR rate spreadBps ≤ 2 ^ 63 - 1) ↔
      spreadRate rate spreadBps ≤ amountIDR * 10 ^ 10 * 10 ^ rate.scale.toNat ∧
        amountIDR * 10 ^ 10 * 10 ^ rate.scale.toNat < 2 ^ 63 * spreadRate rate spreadBps := by
  have hE : 0 < spreadRate rate spreadBps := spreadRate_pos hn hb'
  have hlow := Int.le_ediv_iff_mul_le (a := 1)
    (b := amountIDR * 10 ^ 10 * 10 ^ rate.scale.toNat) hE
  have hhigh := Int.ediv_lt_iff_lt_mul (b := 2 ^ 63)
    (a := amountIDR * 10 ^ 10 * 10 ^ rate.scale.toNat) hE
  unfold priceAtRate
  omega

include ha hscale hb

/-- What the engine answers, without the rounding. -/
theorem quoteAmount_isOk_iff :
    (quoteAmount amountIDR rate spreadBps).isOk ↔
      effectiveRate rate spreadBps ≤ amountIDR * 10 ^ 10 ∧
        amountIDR * 10 ^ 10 < 2 ^ 63 * effectiveRate rate spreadBps := by
  have hE : 0 < effectiveRate rate spreadBps := effectiveRate_pos hn (by omega)
  have hlow := Int.le_ediv_iff_mul_le (a := 1) (b := amountIDR * 10 ^ 10) hE
  have hhigh := Int.ediv_lt_iff_lt_mul (b := 2 ^ 63) (a := amountIDR * 10 ^ 10) hE
  have hnonneg : 0 ≤ amountIDR * 10 ^ 10 / effectiveRate rate spreadBps :=
    Int.ediv_nonneg (by positivity) hE.le
  rw [quoteAmount_eq hscale ha hn hb (by omega)]
  generalize amountIDR * 10 ^ 10 / effectiveRate rate spreadBps = out at hlow hhigh hnonneg ⊢
  have hrange : (effectiveRate rate spreadBps ≤ amountIDR * 10 ^ 10 ∧
      amountIDR * 10 ^ 10 < 2 ^ 63 * effectiveRate rate spreadBps) ↔
      1 ≤ out ∧ out < 2 ^ 63 := by omega
  rw [hrange]
  by_cases hfit : IsInt64 out
  · have hlt : out < 2 ^ 63 := hfit.2
    by_cases hpos : out ≤ 0
    · have hout : ¬ 1 ≤ out := by omega
      simp [hfit, hpos, hout, Except.isOk, Except.toBool]
    · have hout : 1 ≤ out := by omega
      simpa [hfit, hpos, hout, Except.isOk, Except.toBool] using hlt
  · have hge : ¬ out < 2 ^ 63 := by
      unfold IsInt64 at hfit
      omega
    simpa [hfit, Except.isOk, Except.toBool] using fun _ => Int.not_lt.mp hge

/-- With a positive scale an issued price is below the price at the rate. -/
theorem lt_priceAtRate_of_quoteAmount_eq_ok {q : Int} (hs : 0 < rate.scale)
    (h : quoteAmount amountIDR rate spreadBps = .ok q) :
    q < priceAtRate amountIDR rate spreadBps := by
  obtain ⟨-, -, -, -, hq, -, hqe⟩ := quoteAmount_eq_ok hscale h
  have hE : 0 < spreadRate rate spreadBps := spreadRate_pos hn hb'
  have hK : (1 : Int) < 10 ^ rate.scale.toNat := one_lt_pow₀ (by norm_num) (by omega)
  have hle : q * effectiveRate rate spreadBps ≤ amountIDR * 10 ^ 10 := by
    rw [hqe]
    exact Int.ediv_mul_le _ (effectiveRate_pos hn (by omega)).ne'
  have hmul : q * 10 ^ rate.scale.toNat ≤ priceAtRate amountIDR rate spreadBps := by
    rw [priceAtRate, Int.le_ediv_iff_mul_le hE]
    calc q * 10 ^ rate.scale.toNat * spreadRate rate spreadBps
        = q * effectiveRate rate spreadBps := by rw [effectiveRate_eq]; ring
      _ ≤ amountIDR * 10 ^ 10 := hle
      _ ≤ amountIDR * 10 ^ 10 * 10 ^ rate.scale.toNat :=
        le_mul_of_one_le_right (by positivity) hK.le
  have hlt : q * 1 < q * 10 ^ rate.scale.toNat := mul_lt_mul_of_pos_left hK hq
  omega

/-- Without a scale the engine prices at the rate. -/
theorem pricesAtRate_of_scale_eq_zero (hs : rate.scale = 0) :
    PricesAtRate amountIDR rate spreadBps := by
  have hsame : amountIDR * 10 ^ 10 / effectiveRate rate spreadBps =
      priceAtRate amountIDR rate spreadBps := by
    simp [effectiveRate, priceAtRate, spreadRate, hs]
  unfold PricesAtRate
  rw [quoteAmount_eq hscale ha hn hb (by omega)]
  simp only [hsame, IsInt64]
  by_cases hrange : 1 ≤ priceAtRate amountIDR rate spreadBps ∧
      priceAtRate amountIDR rate spreadBps ≤ 2 ^ 63 - 1
  · rw [if_pos hrange, if_neg (by omega), if_neg (by omega)]
  · rw [if_neg hrange]
    split
    · rfl
    · rw [if_pos (by omega)]
      rfl

/-- With a positive scale the engine answers as the rate demands only where both answers are
errors. -/
theorem pricesAtRate_iff_of_scale_pos (hs : 0 < rate.scale) :
    PricesAtRate amountIDR rate spreadBps ↔
      ¬ (1 ≤ priceAtRate amountIDR rate spreadBps ∧
          priceAtRate amountIDR rate spreadBps ≤ 2 ^ 63 - 1) ∧
        ¬ (quoteAmount amountIDR rate spreadBps).isOk := by
  unfold PricesAtRate
  split
  · rename_i hrange
    have hne : quoteAmount amountIDR rate spreadBps ≠
        .ok (priceAtRate amountIDR rate spreadBps) := fun h =>
      (lt_priceAtRate_of_quoteAmount_eq_ok ha hn hscale hb hb' hs h).false
    exact iff_of_false hne fun h => h.1 hrange
  · rename_i hrange
    simp only [hrange, not_false_eq_true, true_and, Bool.not_eq_true]

/-- The engine answers as the rate demands exactly where the scale is harmless. -/
theorem pricesAtRate_iff_scaleHarmless (hs : 0 ≤ rate.scale) :
    PricesAtRate amountIDR rate spreadBps ↔ ScaleHarmless amountIDR rate spreadBps := by
  by_cases hzero : rate.scale = 0
  · exact iff_of_true (pricesAtRate_of_scale_eq_zero ha hn hscale hb hb' hzero) (.inl hzero)
  · have hK : (1 : Int) ≤ 10 ^ rate.scale.toNat := one_le_pow₀ (by norm_num)
    have hP : amountIDR * 10 ^ 10 ≤ amountIDR * 10 ^ 10 * 10 ^ rate.scale.toNat :=
      le_mul_of_one_le_right (by positivity) hK
    have hE : spreadRate rate spreadBps ≤ effectiveRate rate spreadBps :=
      le_mul_of_one_le_right (spreadRate_pos hn hb').le hK
    rw [pricesAtRate_iff_of_scale_pos ha hn hscale hb hb' (by omega),
      priceAtRate_mem_range_iff hn hb', quoteAmount_isOk_iff ha hn hscale hb hb']
    unfold ScaleHarmless
    omega

omit ha hn hscale hb hb' in
/-- An engine that prices at the rate issues nothing but the price at the rate. -/
theorem toOption_of_pricesAtRate (h : PricesAtRate amountIDR rate spreadBps) :
    (quoteAmount amountIDR rate spreadBps).toOption =
      if 1 ≤ priceAtRate amountIDR rate spreadBps ∧
          priceAtRate amountIDR rate spreadBps ≤ 2 ^ 63 - 1 then
        some (priceAtRate amountIDR rate spreadBps)
      else none := by
  unfold PricesAtRate at h
  split at h
  · rename_i hrange
    rw [if_pos hrange, h]
    rfl
  · rename_i hrange
    rw [if_neg hrange]
    cases hq : quoteAmount amountIDR rate spreadBps with
    | error e => rfl
    | ok q => simp [hq, Except.isOk, Except.toBool] at h

/-- The engine answers with the price at the rate, or with an error where there is none,
exactly when the scale is harmless; and where it is harmless for a rate and for the same
rate with one more digit, the two are priced the same. -/
theorem pricesAtRate_iff (hs : 0 ≤ rate.scale) :
    (PricesAtRate amountIDR rate spreadBps ↔ ScaleHarmless amountIDR rate spreadBps) ∧
      (rate.scale ≤ 17 → ScaleHarmless amountIDR rate spreadBps →
        ScaleHarmless amountIDR rate.rescaled spreadBps →
        (quoteAmount amountIDR rate spreadBps).toOption =
          (quoteAmount amountIDR rate.rescaled spreadBps).toOption) := by
  have hiff := pricesAtRate_iff_scaleHarmless ha hn hscale hb hb' hs
  refine ⟨hiff, fun hle hharmless hharmless' => ?_⟩
  have hnum : 0 < rate.rescaled.num := by
    simp only [Rate.rescaled]
    omega
  have hscale' : rate.rescaled.scale ≤ 18 := by
    simp only [Rate.rescaled]
    omega
  have hs' : 0 ≤ rate.rescaled.scale := by
    simp only [Rate.rescaled]
    omega
  have hiff' := pricesAtRate_iff_scaleHarmless ha hnum hscale' hb hb' hs'
  rw [toOption_of_pricesAtRate (hiff.mpr hharmless),
    toOption_of_pricesAtRate (hiff'.mpr hharmless'), priceAtRate_rescaled amountIDR spreadBps hs]

end Admissible

/-- At a whole-rupiah rate the scale is harmless and the price is the one at the rate. -/
theorem pricesAtRate_whole_rupiah : PricesAtRate 1000000 ⟨16250, 0⟩ 50 :=
  (pricesAtRate_iff (by decide) (by decide) (by decide) (by decide) (by decide)
    (by decide)).1.mpr (.inl rfl)

/-- A million rupiah at 16250.0 is charged a hundredth of what it is charged at 16250. -/
theorem scaled_rate_underprices :
    quoteAmount 1000000 ⟨16250, 0⟩ 0 = .ok 61538461 ∧
      priceAtRate 1000000 ⟨162500, 1⟩ 0 = 61538461 ∧
      quoteAmount 1000000 ⟨162500, 1⟩ 0 = .ok 615384 ∧
      ¬ PricesAtRate 1000000 ⟨162500, 1⟩ 0 := by
  decide

end Selatpay.Quoter
