import Selatpay.Core.Int64

/-!
# Pricing a rupiah amount in USDC

`quoteAmount` is the quote engine's price and `computeMidIDR` the settlement
step's valuation of that price at the mid rate. Both round toward zero on their
own.
-/

namespace Selatpay.Quoter

/-- The rate `num / 10 ^ scale` rupiah for one USDC. -/
structure Rate where
  num : Int
  scale : Int
  deriving DecidableEq, Repr

/-- The errors of the quote engine. -/
inductive QuoteError
  | amountNonPositive
  | invalidRate
  | invalidSpread
  | overflow
  | roundsToZero
  deriving DecidableEq, Repr

/-- The text of each error. -/
def QuoteError.text : QuoteError → String
  | .amountNonPositive => "quoter: amount must be positive"
  | .invalidRate => "quoter: rate must be positive"
  | .invalidSpread => "quoter: spread_bps must be in [0, 10000]"
  | .overflow => "quoter: computed amount overflows int64"
  | .roundsToZero => "quoter: computed amount rounds to zero"

/-- Decimals of the USDC mint. -/
def usdcDecimals : Nat := 6

/-- The multiplications of the loop of `pow10`, in `int64`. -/
def pow10Loop : Nat → Int → Int
  | 0, r => r
  | n + 1, r => pow10Loop n (wrap64 (r * 10))

/-- The `int64` power of ten. -/
def pow10 (n : Int) : Int := pow10Loop n.toNat 1

/-- The USDC minor units charged for a rupiah amount. -/
def quoteAmount (amountIDR : Int) (rate : Rate) (spreadBps : Int) : Except QuoteError Int :=
  if amountIDR ≤ 0 then .error .amountNonPositive
  else if rate.num ≤ 0 then .error .invalidRate
  else if spreadBps < 0 ∨ spreadBps > 10000 then .error .invalidSpread
  else
    let num := amountIDR * pow10 usdcDecimals * 10000
    let effRate := rate.num * (10000 - spreadBps)
    let effRate := if rate.scale > 0 then effRate * pow10 rate.scale else effRate
    if effRate = 0 then .error .invalidRate
    else
      let out := num.tdiv effRate
      if ¬ IsInt64 out then .error .overflow
      else if out ≤ 0 then .error .roundsToZero
      else .ok out

/-- The rupiah value of a quoted USDC amount at the mid rate; zero when it leaves `int64`. -/
def computeMidIDR (quotedAmountUSDC rateNum rateScale : Int) : Int :=
  let num := quotedAmountUSDC * rateNum
  let denom := 10 ^ (usdcDecimals + rateScale).toNat
  let out := num.tdiv denom
  if ¬ IsInt64 out then 0 else out

/-- Below nineteen digits the loop of `pow10` does not wrap. -/
theorem pow10Loop_eq (n m : Nat) (h : n + m ≤ 18) : pow10Loop n (10 ^ m) = 10 ^ (n + m) := by
  induction n generalizing m with
  | zero => simp [pow10Loop]
  | succ n ih =>
    have hle : (10 : Int) ^ (m + 1) ≤ 10 ^ 18 := pow_le_pow_right₀ (by norm_num) (by omega)
    have hpos : (0 : Int) < 10 ^ (m + 1) := by positivity
    have hfit : IsInt64 (10 ^ (m + 1)) := by
      unfold IsInt64
      omega
    rw [pow10Loop, ← pow_succ, wrap64_of_isInt64 hfit, ih (m + 1) (by omega)]
    congr 1
    omega

/-- Every scale the schema admits has an exact power of ten. -/
theorem pow10_eq {n : Int} (h : n ≤ 18) : pow10 n = 10 ^ n.toNat := by
  simpa [pow10] using pow10Loop_eq n.toNat 0 (by omega)

/-- The price before rounding has this denominator over `amountIDR * 10 ^ 10`. -/
def effectiveRate (rate : Rate) (spreadBps : Int) : Int :=
  rate.num * (10000 - spreadBps) * 10 ^ rate.scale.toNat

/-- An admissible rate and spread have a positive denominator. -/
theorem effectiveRate_pos {rate : Rate} {spreadBps : Int} (hn : 0 < rate.num)
    (hb : spreadBps < 10000) : 0 < effectiveRate rate spreadBps := by
  have hspread : 0 < 10000 - spreadBps := by omega
  unfold effectiveRate
  positivity

/-- On admissible arguments the engine rounds one exact quotient and checks its range. -/
theorem quoteAmount_eq {amountIDR spreadBps : Int} {rate : Rate} (hscale : rate.scale ≤ 18)
    (ha : 0 < amountIDR) (hn : 0 < rate.num) (hb : 0 ≤ spreadBps) (hb' : spreadBps < 10000) :
    quoteAmount amountIDR rate spreadBps =
      let out := amountIDR * 10 ^ 10 / effectiveRate rate spreadBps
      if ¬ IsInt64 out then .error .overflow
      else if out ≤ 0 then .error .roundsToZero
      else .ok out := by
  have heff : (if rate.scale > 0 then rate.num * (10000 - spreadBps) * pow10 rate.scale
      else rate.num * (10000 - spreadBps)) = effectiveRate rate spreadBps := by
    unfold effectiveRate
    split
    · rw [pow10_eq hscale]
    · rw [Int.toNat_of_nonpos (by omega), pow_zero, mul_one]
  have hnum : amountIDR * pow10 usdcDecimals * 10000 = amountIDR * 10 ^ 10 := by
    rw [pow10_eq (by decide), show ((usdcDecimals : Nat) : Int).toNat = 6 from rfl]
    ring
  have hpos : 0 < effectiveRate rate spreadBps := effectiveRate_pos hn hb'
  unfold quoteAmount
  rw [if_neg (by omega), if_neg (by omega), if_neg (by omega)]
  simp only [heff, hnum]
  rw [if_neg (by omega), Int.tdiv_eq_ediv_of_nonneg (by positivity)]

/-- A price is only issued for admissible arguments. -/
theorem valid_of_quoteAmount_eq_ok {amountIDR spreadBps q : Int} {rate : Rate}
    (h : quoteAmount amountIDR rate spreadBps = .ok q) :
    0 < amountIDR ∧ 0 < rate.num ∧ 0 ≤ spreadBps ∧ spreadBps < 10000 := by
  unfold quoteAmount at h
  by_cases ha : amountIDR ≤ 0
  · simp [ha] at h
  by_cases hn : rate.num ≤ 0
  · simp [ha, hn] at h
  by_cases hb : spreadBps < 0 ∨ spreadBps > 10000
  · simp [ha, hn, hb] at h
  have hne : spreadBps ≠ 10000 := by
    intro he
    simp [ha, hn, he] at h
  omega

/-- An issued price is positive and an `int64`. -/
theorem range_of_quoteAmount_eq_ok {amountIDR spreadBps q : Int} {rate : Rate}
    (h : quoteAmount amountIDR rate spreadBps = .ok q) : 0 < q ∧ q < 2 ^ 63 := by
  unfold quoteAmount at h
  dsimp only at h
  repeat' split at h
  all_goals cases h
  all_goals
    unfold IsInt64 at *
    omega

/-- What an issued price is: its arguments were admissible and it is the rounded quotient. -/
theorem quoteAmount_eq_ok {amountIDR spreadBps q : Int} {rate : Rate} (hscale : rate.scale ≤ 18)
    (h : quoteAmount amountIDR rate spreadBps = .ok q) :
    0 < amountIDR ∧ 0 < rate.num ∧ 0 ≤ spreadBps ∧ spreadBps < 10000 ∧ 0 < q ∧ IsInt64 q ∧
      q = amountIDR * 10 ^ 10 / effectiveRate rate spreadBps := by
  obtain ⟨ha, hn, hb, hb'⟩ := valid_of_quoteAmount_eq_ok h
  rw [quoteAmount_eq hscale ha hn hb hb'] at h
  generalize amountIDR * 10 ^ 10 / effectiveRate rate spreadBps = out at h ⊢
  by_cases hfit : IsInt64 out
  · by_cases hpos : out ≤ 0
    · simp [hfit, hpos] at h
    · simp only [hfit, hpos, not_true_eq_false, if_false, Except.ok.injEq] at h
      subst h
      exact ⟨ha, hn, hb, hb', by omega, hfit, rfl⟩
  · simp [hfit] at h

end Selatpay.Quoter
