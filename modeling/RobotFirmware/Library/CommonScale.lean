import Mathlib.Algebra.Order.Field.Basic
import Mathlib.Algebra.Order.AbsoluteValue.Basic
import Mathlib.Tactic.Linarith
import Mathlib.Tactic.FieldSimp

/-! The common factor that brings several magnitudes within a limit and keeps their ratios. -/
namespace Limit

variable {K : Type*} [Field K] [LinearOrder K] [IsStrictOrderedRing K] {limit peak k x : K}

/-- One where the peak respects the limit, and otherwise what takes the peak to it. -/
def factor (limit peak : K) : K := if peak ≤ limit then 1 else limit / peak

omit [IsStrictOrderedRing K] in
theorem factor_of_le (hp : peak ≤ limit) : factor limit peak = 1 := if_pos hp

omit [IsStrictOrderedRing K] in
theorem factor_of_lt (hp : limit < peak) : factor limit peak = limit / peak :=
  if_neg (not_le.mpr hp)

/-- The factor depends on the proportion of limit and peak only. -/
theorem factor_mul (hk : 0 < k) : factor (k * limit) (k * peak) = factor limit peak := by
  unfold factor
  by_cases hp : peak ≤ limit
  · have hkp : k * peak ≤ k * limit := mul_le_mul_of_nonneg_left hp hk.le
    rw [if_pos hp, if_pos hkp]
  · have hkp : ¬ k * peak ≤ k * limit := fun h => hp (le_of_mul_le_mul_left h hk)
    rw [if_neg hp, if_neg hkp, mul_div_mul_left limit peak hk.ne']

/-- Whatever the peak covers is brought within the limit. -/
theorem abs_factor_mul_le (hl : 0 < limit) (hx : |x| ≤ peak) : |factor limit peak * x| ≤ limit := by
  by_cases hp : peak ≤ limit
  · rw [factor_of_le hp, one_mul]
    exact hx.trans hp
  · have hpos : 0 < peak := hl.trans (not_le.mp hp)
    have hfactor : 0 < limit / peak := div_pos hl hpos
    rw [factor_of_lt (not_le.mp hp), abs_mul, abs_of_pos hfactor]
    calc limit / peak * |x| ≤ limit / peak * peak := mul_le_mul_of_nonneg_left hx hfactor.le
      _ = limit := div_mul_cancel₀ limit hpos.ne'

end Limit
