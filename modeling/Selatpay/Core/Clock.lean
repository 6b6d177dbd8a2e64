import Selatpay.Core.Int64

/-!
# Instants and durations

Instants and durations as package `time` has them: an instant is a signed 64-bit number
of seconds since the year one and a number of nanoseconds, a duration is a signed 64-bit
number of nanoseconds. Subtraction saturates; the other operations wrap around.
-/

namespace Selatpay

/-- `time.Time`. -/
structure Instant where
  /-- Seconds since the first of January of the year one. -/
  sec : Int
  nsec : Nat
  isInt64_sec : IsInt64 sec
  nsec_lt : nsec < 1000000000

namespace Instant

/-- The seconds from the year one to the Unix epoch. -/
def unixToInternal : Int := 62135596800

/-- The nanoseconds since the Unix epoch, exactly. -/
def nanos (x : Instant) : Int := (x.sec - unixToInternal) * 1000000000 + x.nsec

/-- `time.Unix(t, 0)`. -/
def unix (t : Int) : Instant := ⟨wrap64 (t + unixToInternal), 0, isInt64_wrap64 _, by norm_num⟩

/-- `Time.Unix`. -/
def toUnix (x : Instant) : Int := wrap64 (x.sec - unixToInternal)

/-- The whole second of an instant. -/
def wholeSecond (x : Instant) : Instant := { x with nsec := 0, nsec_lt := by norm_num }

/-- `Time.Sub`: the difference, or the closest duration if it is out of range. -/
def sub (x u : Instant) : Int := max (-2 ^ 63) (min (x.nanos - u.nanos) (2 ^ 63 - 1))

theorem isInt64_toUnix (x : Instant) : IsInt64 x.toUnix := isInt64_wrap64 _

/-- The Unix time of an instant names its whole second, for instants out of the range of
Unix times as well. -/
theorem unix_toUnix (x : Instant) : unix x.toUnix = x.wholeSecond := by
  have hsec : wrap64 (wrap64 (x.sec - unixToInternal) + unixToInternal) = x.sec := by
    rw [wrap64, wrap64, Int.bmod_add_bmod, Int.sub_add_cancel]
    exact wrap64_of_isInt64 x.isInt64_sec
  simp [unix, toUnix, wholeSecond, hsec]

/-- A Unix time that stays in range with the shift to the year one is exact. -/
theorem nanos_unix {t : Int} (h : IsInt64 t) (hrange : t + unixToInternal < 2 ^ 63) :
    (unix t).nanos = t * 1000000000 := by
  have hshift : IsInt64 (t + unixToInternal) := by
    unfold IsInt64 unixToInternal at *
    omega
  simp [nanos, unix, wrap64_of_isInt64 hshift]

/-- A Unix time beyond that range names an instant in the distant past. -/
theorem nanos_unix_of_le {t : Int} (h : IsInt64 t) (hrange : 2 ^ 63 ≤ t + unixToInternal) :
    (unix t).nanos = (t - 2 ^ 64) * 1000000000 := by
  have hwrap : wrap64 (t + unixToInternal) = t + unixToInternal - 2 ^ 64 := by
    apply wrap64_eq_of_dvd
    · unfold IsInt64 unixToInternal at *
      omega
    · exact ⟨1, by ring⟩
  simp only [nanos, unix, hwrap]
  push_cast
  ring

end Instant

/-- The absolute value of a duration, whose negation wraps around. -/
def absDuration (d : Int) : Int := if d < 0 then wrap64 (-d) else d

/-- The distance of two instants, as it is computed, is within a bound also when the second
one is too far ahead to be subtracted. -/
theorem absDuration_sub_le {x u : Instant} {tol : Int} (hpos : 0 ≤ tol) (hle : tol ≤ 2 ^ 63 - 1) :
    absDuration (x.sub u) ≤ tol ↔
      x.nanos - u.nanos ≤ -2 ^ 63 ∨ |x.nanos - u.nanos| ≤ tol ∨
        (2 ^ 63 ≤ x.nanos - u.nanos ∧ tol = 2 ^ 63 - 1) := by
  unfold absDuration Instant.sub
  generalize x.nanos - u.nanos = d
  by_cases hlow : d ≤ -2 ^ 63
  · have hmin : max (-2 ^ 63) (min d (2 ^ 63 - 1)) = -2 ^ 63 := by omega
    have hneg : wrap64 (-(-2 ^ 63)) = -2 ^ 63 := by decide
    rw [hmin, if_pos (by norm_num), hneg]
    exact ⟨fun _ => .inl hlow, fun _ => by omega⟩
  · by_cases hsign : d < 0
    · have hself : max (-2 ^ 63) (min d (2 ^ 63 - 1)) = d := by omega
      have hneg : wrap64 (-d) = -d := wrap64_of_isInt64 (by unfold IsInt64; omega)
      rw [hself, if_pos hsign, hneg, abs_of_neg hsign]
      omega
    · have hnonneg : ¬ max (-2 ^ 63) (min d (2 ^ 63 - 1)) < 0 := by omega
      rw [if_neg hnonneg, abs_of_nonneg (by omega)]
      omega

end Selatpay
