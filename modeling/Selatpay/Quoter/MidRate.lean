import Selatpay.Quoter.Amount

/-!
# When a quoted price covers its own rupiah amount

The settlement step values a quoted USDC amount at the mid rate and refuses to
book a payout above that value. Both the price and the value are rounded down,
and the price divides by the power of ten of the scale where the value does too,
so a quote that was issued need not pass. The condition under which it does is
the existence of an integer between the least price worth the amount and the
exact price, together with the range of the value.
-/

namespace Selatpay.Quoter

/-- The least USDC amount whose value at the mid rate reaches the rupiah amount. -/
def leastCovering (amountIDR : Int) (rate : Rate) : Int :=
  (amountIDR * 10 ^ (6 + rate.scale.toNat) + rate.num - 1) / rate.num

/-- The greatest USDC amount whose value at the mid rate is representable. -/
def greatestValued (rate : Rate) : Int :=
  (2 ^ 63 * 10 ^ (6 + rate.scale.toNat) - 1) / rate.num

/-- The exact price lies at or above the least covering amount and below the first amount
whose value leaves the range. -/
def MidCovers (amountIDR : Int) (rate : Rate) (spreadBps : Int) : Prop :=
  leastCovering amountIDR rate * effectiveRate rate spreadBps ≤ amountIDR * 10 ^ 10 ∧
    amountIDR * 10 ^ 10 < (greatestValued rate + 1) * effectiveRate rate spreadBps

instance (amountIDR : Int) (rate : Rate) (spreadBps : Int) :
    Decidable (MidCovers amountIDR rate spreadBps) := inferInstanceAs (Decidable (_ ∧ _))

/-- The mid value of a nonnegative amount is the floor of the quotient when it is in range. -/
theorem computeMidIDR_eq {q : Int} {rate : Rate} (hq : 0 ≤ q) (hn : 0 ≤ rate.num)
    (hs : 0 ≤ rate.scale) : computeMidIDR q rate.num rate.scale =
      if q * rate.num / 10 ^ (6 + rate.scale.toNat) < 2 ^ 63 then
        q * rate.num / 10 ^ (6 + rate.scale.toNat) else 0 := by
  have hexp : ((usdcDecimals : Int) + rate.scale).toNat = 6 + rate.scale.toNat := by
    simp only [usdcDecimals]
    omega
  have hnum : 0 ≤ q * rate.num := mul_nonneg hq hn
  have hnonneg : 0 ≤ q * rate.num / 10 ^ (6 + rate.scale.toNat) :=
    Int.ediv_nonneg hnum (by positivity)
  simp only [computeMidIDR, hexp, Int.tdiv_eq_ediv_of_nonneg hnum, IsInt64]
  by_cases h : q * rate.num / 10 ^ (6 + rate.scale.toNat) < 2 ^ 63
  · rw [if_pos h, if_neg (by omega)]
  · rw [if_neg h, if_pos (by omega)]

/-- The value reaches the amount exactly from the least covering amount on. -/
theorem le_value_iff {amountIDR q : Int} {rate : Rate} (hn : 0 < rate.num) :
    amountIDR ≤ q * rate.num / 10 ^ (6 + rate.scale.toNat) ↔
      leastCovering amountIDR rate ≤ q := by
  have hpow : (0 : Int) < 10 ^ (6 + rate.scale.toNat) := by positivity
  rw [Int.le_ediv_iff_mul_le hpow, leastCovering, ← Int.lt_add_one_iff (b := q),
    Int.ediv_lt_iff_lt_mul hn, add_mul, one_mul]
  omega

/-- The value is in range exactly up to the greatest valued amount. -/
theorem value_lt_iff {q : Int} {rate : Rate} (hn : 0 < rate.num) :
    q * rate.num / 10 ^ (6 + rate.scale.toNat) < 2 ^ 63 ↔ q ≤ greatestValued rate := by
  have hpow : (0 : Int) < 10 ^ (6 + rate.scale.toNat) := by positivity
  rw [Int.ediv_lt_iff_lt_mul hpow, greatestValued, Int.le_ediv_iff_mul_le hn]
  omega

/-- An issued price is valued at least at its rupiah amount exactly when an amount between
the least covering one and the greatest valued one is what the exact price rounds to. -/
theorem quoteAmount_mid_covers_iff {amountIDR spreadBps q : Int} {rate : Rate}
    (hs : 0 ≤ rate.scale) (hscale : rate.scale ≤ 18)
    (h : quoteAmount amountIDR rate spreadBps = .ok q) :
    amountIDR ≤ computeMidIDR q rate.num rate.scale ↔ MidCovers amountIDR rate spreadBps := by
  obtain ⟨ha, hn, hb, hb', hq, -, hqe⟩ := quoteAmount_eq_ok hscale h
  have heff : 0 < effectiveRate rate spreadBps := by
    have : 0 < 10000 - spreadBps := by omega
    unfold effectiveRate
    positivity
  have hlow : leastCovering amountIDR rate ≤ q ↔
      leastCovering amountIDR rate * effectiveRate rate spreadBps ≤ amountIDR * 10 ^ 10 := by
    rw [hqe, Int.le_ediv_iff_mul_le heff]
  have hhigh : q ≤ greatestValued rate ↔
      amountIDR * 10 ^ 10 < (greatestValued rate + 1) * effectiveRate rate spreadBps := by
    rw [hqe, ← Int.lt_add_one_iff, Int.ediv_lt_iff_lt_mul heff]
  rw [computeMidIDR_eq hq.le hn.le hs, MidCovers, ← hlow, ← hhigh, ← value_lt_iff hn,
    ← le_value_iff hn]
  split
  · exact ⟨fun hle => ⟨hle, ‹_›⟩, fun hc => hc.1⟩
  · exact ⟨fun hle => by omega, fun hc => absurd hc.2 ‹_›⟩

/-- At 50 basis points and a whole rate the demo amount is covered. -/
theorem quoteAmount_mid_covers_demo :
    quoteAmount 1500000 ⟨16250, 0⟩ 50 = .ok 92771550 ∧
      1500000 ≤ computeMidIDR 92771550 16250 0 :=
  have h : quoteAmount 1500000 ⟨16250, 0⟩ 50 = .ok 92771550 := by decide
  ⟨h, (quoteAmount_mid_covers_iff (by decide) (by decide) h).mpr (by decide)⟩

/-- Without a spread the two floors lose a rupiah: the issued price of 1000 is worth 999. -/
theorem quoteAmount_mid_short :
    ¬ ∀ (amountIDR : Int) (rate : Rate) (spreadBps q : Int), 0 < amountIDR → 0 < rate.num →
      0 ≤ rate.scale → rate.scale ≤ 18 → 0 ≤ spreadBps → spreadBps ≤ 10000 →
      quoteAmount amountIDR rate spreadBps = .ok q →
      amountIDR ≤ computeMidIDR q rate.num rate.scale := by
  intro h
  have := h 1000 ⟨16250, 0⟩ 0 61538 (by decide) (by decide) (by decide) (by decide) (by decide)
    (by decide) (by decide)
  revert this
  decide

/-- With a whole rate and no spread the price covers the amount only if it is exact. -/
theorem midCovers_no_spread_iff {amountIDR : Int} {rate : Rate} (hn : 0 < rate.num)
    (hs : rate.scale = 0) (hfit : amountIDR * 10 ^ 10 < (greatestValued rate + 1) *
      effectiveRate rate 0) :
    MidCovers amountIDR rate 0 ↔ rate.num ∣ amountIDR * 10 ^ 6 := by
  have heff : effectiveRate rate 0 = rate.num * 10 ^ 4 := by simp [effectiveRate, hs]
  have hcover : leastCovering amountIDR rate * rate.num ≤ amountIDR * 10 ^ 6 ↔
      rate.num ∣ amountIDR * 10 ^ 6 := by
    have hdef : leastCovering amountIDR rate =
        (amountIDR * 10 ^ 6 + rate.num - 1) / rate.num := by simp [leastCovering, hs]
    have hup : amountIDR * 10 ^ 6 ≤ leastCovering amountIDR rate * rate.num := by
      have := Int.lt_ediv_add_one_mul_self (amountIDR * 10 ^ 6 + rate.num - 1) hn
      rw [hdef]
      nlinarith
    constructor
    · intro hle
      exact ⟨leastCovering amountIDR rate, by rw [mul_comm rate.num]; exact le_antisymm hup hle⟩
    · rintro ⟨c, hc⟩
      have : leastCovering amountIDR rate = c := by
        rw [hdef, hc, show rate.num * c + rate.num - 1 = (rate.num - 1) + rate.num * c by ring,
          Int.add_mul_ediv_left _ _ hn.ne', Int.ediv_eq_zero_of_lt (by omega) (by omega), zero_add]
      rw [this, hc, mul_comm]
  rw [MidCovers, and_iff_left hfit, heff, ← hcover]
  constructor <;> intro h <;> nlinarith

/-- The scale divides the price and the value alike: from three decimals on no quote covers
its amount. -/
theorem not_midCovers_of_scale {amountIDR spreadBps : Int} {rate : Rate} (ha : 0 < amountIDR)
    (hn : 0 < rate.num) (hb : spreadBps < 10000) (hs : 3 ≤ rate.scale) :
    ¬ MidCovers amountIDR rate spreadBps := by
  rintro ⟨hlow, -⟩
  have hup : amountIDR * 10 ^ (6 + rate.scale.toNat) ≤ leastCovering amountIDR rate * rate.num := by
    have := Int.lt_ediv_add_one_mul_self (amountIDR * 10 ^ (6 + rate.scale.toNat) + rate.num - 1) hn
    unfold leastCovering
    nlinarith
  have hpow : (10 : Int) ^ 3 ≤ 10 ^ rate.scale.toNat :=
    pow_le_pow_right₀ (by norm_num) (by omega)
  have hchain : amountIDR * 10 ^ 12 ≤ amountIDR * 10 ^ 10 := by
    calc amountIDR * 10 ^ 12
        = amountIDR * (10 ^ 6 * 10 ^ 3) * 1 * 10 ^ 3 := by ring
      _ ≤ amountIDR * (10 ^ 6 * 10 ^ rate.scale.toNat) * (10000 - spreadBps) *
            10 ^ rate.scale.toNat := by
          have : 1 ≤ 10000 - spreadBps := by omega
          gcongr
      _ ≤ leastCovering amountIDR rate * rate.num * (10000 - spreadBps) *
            10 ^ rate.scale.toNat := by
          have : 0 ≤ 10000 - spreadBps := by omega
          rw [← pow_add]
          gcongr
      _ = leastCovering amountIDR rate * effectiveRate rate spreadBps := by
          unfold effectiveRate
          ring
      _ ≤ amountIDR * 10 ^ 10 := hlow
  omega

end Selatpay.Quoter
