import Selatpay.Quoter.Amount

/-!
# How the price moves with its arguments

Every issued price is one rounded quotient, so two prices compare as their amounts and
their effective rates do. An amount that is split loses at most the unit that two
roundings cost more than one.
-/

namespace Selatpay.Quoter

section Effective

variable {rate : Rate}

/-- The effective rate falls as the spread grows. -/
theorem effectiveRate_anti_spread {spreadBps spreadBps' : Int} (hn : 0 < rate.num)
    (h : spreadBps ≤ spreadBps') :
    effectiveRate rate spreadBps' ≤ effectiveRate rate spreadBps := by
  have hpow : (0 : Int) ≤ 10 ^ rate.scale.toNat := by positivity
  unfold effectiveRate
  exact mul_le_mul_of_nonneg_right (mul_le_mul_of_nonneg_left (by omega) hn.le) hpow

/-- The effective rate grows with the rate. -/
theorem effectiveRate_mono_num {num' spreadBps : Int} (hb : spreadBps < 10000)
    (h : rate.num ≤ num') :
    effectiveRate rate spreadBps ≤ effectiveRate ⟨num', rate.scale⟩ spreadBps := by
  have hpow : (0 : Int) ≤ 10 ^ rate.scale.toNat := by positivity
  have hspread : 0 ≤ 10000 - spreadBps := by omega
  unfold effectiveRate
  exact mul_le_mul_of_nonneg_right (mul_le_mul_of_nonneg_right h hspread) hpow

end Effective

/-- A quotient falls as its positive divisor grows. -/
theorem ediv_le_ediv_of_divisor_le {a c d : Int} (ha : 0 ≤ a) (hc : 0 < c) (h : c ≤ d) :
    a / d ≤ a / c := by
  rw [Int.le_ediv_iff_mul_le hc]
  have hquot : 0 ≤ a / d := Int.ediv_nonneg ha (by omega)
  calc a / d * c ≤ a / d * d := mul_le_mul_of_nonneg_left h hquot
    _ ≤ a := Int.ediv_mul_le a (by omega)

/-- Two roundings of parts lose less than two units, and one rounding of the whole none of what
they keep. -/
theorem ediv_add_bounds (a b : Int) {c : Int} (hc : 0 < c) :
    a / c + b / c ≤ (a + b) / c ∧ (a + b) / c ≤ a / c + b / c + 1 := by
  refine ⟨Int.ediv_add_ediv_le_add_ediv hc, ?_⟩
  have ha : a < (a / c + 1) * c := Int.lt_ediv_add_one_mul_self a hc
  have hb : b < (b / c + 1) * c := Int.lt_ediv_add_one_mul_self b hc
  have hsum : a + b < (a / c + b / c + 2) * c := by
    have : (a / c + b / c + 2) * c = (a / c + 1) * c + (b / c + 1) * c := by ring
    omega
  have := Int.ediv_lt_of_lt_mul hc hsum
  omega

/-- A larger amount at a lower effective rate costs no less. -/
theorem quoteAmount_le_quoteAmount {a a' spreadBps spreadBps' q q' : Int} {rate rate' : Rate}
    (hscale : rate.scale ≤ 18) (hscale' : rate'.scale ≤ 18)
    (h : quoteAmount a rate spreadBps = .ok q) (h' : quoteAmount a' rate' spreadBps' = .ok q')
    (hamount : a ≤ a') (hrate : effectiveRate rate' spreadBps' ≤ effectiveRate rate spreadBps) :
    q ≤ q' := by
  obtain ⟨ha, -, -, -, -, -, rfl⟩ := quoteAmount_eq_ok hscale h
  obtain ⟨-, hn', -, hb', -, -, rfl⟩ := quoteAmount_eq_ok hscale' h'
  have hpos : 0 < effectiveRate rate' spreadBps' := effectiveRate_pos hn' hb'
  calc a * 10 ^ 10 / effectiveRate rate spreadBps
      ≤ a * 10 ^ 10 / effectiveRate rate' spreadBps' :=
        ediv_le_ediv_of_divisor_le (by positivity) hpos hrate
    _ ≤ a' * 10 ^ 10 / effectiveRate rate' spreadBps' := Int.ediv_le_ediv hpos (by omega)

/-- The price never falls with the amount or the spread and never rises with the rate, and
splitting an amount gains at most one minor unit. -/
theorem quoteAmount_monotone_nearly_additive (rate : Rate) (hn : 0 < rate.num)
    (hs : rate.scale ≤ 18) :
    (∀ a a' spreadBps q q', quoteAmount a rate spreadBps = .ok q →
      quoteAmount a' rate spreadBps = .ok q' → a ≤ a' → q ≤ q') ∧
    (∀ a spreadBps spreadBps' q q', quoteAmount a rate spreadBps = .ok q →
      quoteAmount a rate spreadBps' = .ok q' → spreadBps ≤ spreadBps' → q ≤ q') ∧
    (∀ a num' spreadBps q q', quoteAmount a rate spreadBps = .ok q →
      quoteAmount a ⟨num', rate.scale⟩ spreadBps = .ok q' → rate.num ≤ num' → q' ≤ q) ∧
    (∀ a b spreadBps qa qb q, quoteAmount a rate spreadBps = .ok qa →
      quoteAmount b rate spreadBps = .ok qb → quoteAmount (a + b) rate spreadBps = .ok q →
      qa + qb ≤ q ∧ q ≤ qa + qb + 1) := by
  refine ⟨?_, ?_, ?_, ?_⟩
  · intro a a' spreadBps q q' h h' hle
    exact quoteAmount_le_quoteAmount hs hs h h' hle le_rfl
  · intro a spreadBps spreadBps' q q' h h' hle
    exact quoteAmount_le_quoteAmount hs hs h h' le_rfl (effectiveRate_anti_spread hn hle)
  · intro a num' spreadBps q q' h h' hle
    have hb := (valid_of_quoteAmount_eq_ok h).2.2.2
    have hscale : (Rate.mk num' rate.scale).scale ≤ 18 := hs
    exact quoteAmount_le_quoteAmount hscale hs h' h le_rfl (effectiveRate_mono_num hb hle)
  · intro a b spreadBps qa qb q ha hb hab
    obtain ⟨-, -, -, hspread, -, -, rfl⟩ := quoteAmount_eq_ok hs ha
    obtain ⟨-, -, -, -, -, -, rfl⟩ := quoteAmount_eq_ok hs hb
    obtain ⟨-, -, -, -, -, -, rfl⟩ := quoteAmount_eq_ok hs hab
    rw [add_mul]
    exact ediv_add_bounds _ _ (effectiveRate_pos hn hspread)

/-- At 16250 rupiah and half a percent, a million rupiah in these two parts gains a unit. -/
theorem quoteAmount_monotone_nearly_additive_million :
    quoteAmount 300001 ⟨16250, 0⟩ 50 = .ok 18554371 ∧
    quoteAmount 699999 ⟨16250, 0⟩ 50 = .ok 43293328 ∧
    quoteAmount (300001 + 699999) ⟨16250, 0⟩ 50 = .ok 61847700 ∧
    (18554371 + 43293328 : Int) ≤ 61847700 ∧ (61847700 : Int) ≤ 18554371 + 43293328 + 1 :=
  ⟨by decide, by decide, by decide,
    (quoteAmount_monotone_nearly_additive ⟨16250, 0⟩ (by decide) (by decide)).2.2.2
      300001 699999 50 _ _ _ (by decide) (by decide) (by decide)⟩

end Selatpay.Quoter
