import Mathlib.Tactic

/-!
# Signed 64-bit integers

Machine integers are integers; an operation that can leave the range is wrapped
where the source performs it in `int64`.
-/

namespace Selatpay

/-- Two's complement reduction to 64 bits. -/
def wrap64 (x : Int) : Int := x.bmod (2 ^ 64)

/-- The integer is representable in 64 bits (`big.Int.IsInt64`). -/
def IsInt64 (x : Int) : Prop := -2 ^ 63 ≤ x ∧ x < 2 ^ 63

instance (x : Int) : Decidable (IsInt64 x) :=
  inferInstanceAs (Decidable (-2 ^ 63 ≤ x ∧ x < 2 ^ 63))

/-- A representable integer is not changed by the reduction. -/
theorem wrap64_of_isInt64 {x : Int} (h : IsInt64 x) : wrap64 x = x := by
  obtain ⟨h1, h2⟩ := h
  exact Int.bmod_eq_of_le (by norm_num; omega) (by norm_num; omega)

/-- A multiple of the modulus does not change the reduction. -/
theorem wrap64_eq_of_dvd {x y : Int} (hy : IsInt64 y) (h : 2 ^ 64 ∣ x - y) : wrap64 x = y := by
  obtain ⟨k, hk⟩ := h
  have hx : x = y + ((2 ^ 64 : ℕ) : Int) * k := by
    push_cast
    omega
  rw [wrap64, hx, Int.add_mul_bmod_self_left]
  exact wrap64_of_isInt64 hy

/-- Exactly the multiples of the modulus are reduced to zero. -/
theorem wrap64_eq_zero {x : Int} : wrap64 x = 0 ↔ 2 ^ 64 ∣ x := by
  rw [wrap64, ← Int.dvd_iff_bmod_eq_zero]
  norm_num

/-- Whatever is reduced is representable. -/
theorem isInt64_wrap64 (x : Int) : IsInt64 (wrap64 x) := by
  have hlo := Int.le_bmod (x := x) (m := 2 ^ 64) (by norm_num)
  have hhi := Int.bmod_lt (x := x) (m := 2 ^ 64) (by norm_num)
  unfold IsInt64 wrap64
  norm_num at hlo hhi ⊢
  omega

end Selatpay
