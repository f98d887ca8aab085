import Mathlib.Algebra.Order.Field.Basic
import Mathlib.Tactic.FieldSimp
import RobotFirmware.Library.Float

/-! Relative errors, how products and quotients compose them, and formats whose rounding has a
relative error of its own. -/
namespace Fp

section
variable {K : Type*} [Field K] [LinearOrder K] [IsStrictOrderedRing K] {a b x y ε δ : K}

/-- `x` is `a` up to the relative error `ε`. -/
def Near (ε a x : K) : Prop := |x - a| ≤ ε * |a|

theorem Near.refl (a : K) : Near 0 a a := by simp [Near]

theorem Near.mono (h : Near ε a x) (hle : ε ≤ δ) : Near δ a x :=
  h.trans (mul_le_mul_of_nonneg_right hle (abs_nonneg a))

theorem Near.abs_upper (h : Near ε a x) : |x| ≤ (1 + ε) * |a| := by
  have hsum : |x| ≤ |x - a| + |a| := by
    have := abs_add_le (x - a) a
    rwa [sub_add_cancel] at this
  unfold Near at h
  linarith

theorem Near.abs_lower (h : Near ε a x) : (1 - ε) * |a| ≤ |x| := by
  have hsum : |a| ≤ |x - a| + |x| := by
    have := abs_sub_abs_le_abs_sub a x
    rw [abs_sub_comm] at this
    linarith
  unfold Near at h
  linarith

theorem Near.trans (h : Near ε a x) (h' : Near δ x y) (hδ : 0 ≤ δ) :
    Near (ε + δ + ε * δ) a y := by
  have hx := h.abs_upper
  have hsplit : |y - a| ≤ |y - x| + |x - a| := by
    have := abs_add_le (y - x) (x - a)
    rwa [sub_add_sub_cancel] at this
  unfold Near at *
  calc |y - a| ≤ |y - x| + |x - a| := hsplit
    _ ≤ δ * |x| + ε * |a| := add_le_add h' h
    _ ≤ δ * ((1 + ε) * |a|) + ε * |a| := by
        have := mul_le_mul_of_nonneg_left hx hδ
        linarith
    _ = (ε + δ + ε * δ) * |a| := by ring

theorem Near.mul_left (h : Near ε a x) (b : K) : Near ε (b * a) (b * x) := by
  have hscaled := mul_le_mul_of_nonneg_left h (abs_nonneg b)
  unfold Near
  rw [← mul_sub, abs_mul, abs_mul]
  linarith

theorem Near.div_right (h : Near ε a x) (b : K) : Near ε (a / b) (x / b) := by
  rw [div_eq_inv_mul, div_eq_inv_mul]
  exact h.mul_left _

/-- The error of a reciprocal grows by the error itself. -/
theorem Near.inv (h : Near ε a x) (hε : ε < 1) (ha : a ≠ 0) : Near (ε / (1 - ε)) a⁻¹ x⁻¹ := by
  have hleft : 0 < 1 - ε := by linarith
  have hpos : 0 < |a| := abs_pos.mpr ha
  have hx : 0 < |x| := lt_of_lt_of_le (mul_pos hleft hpos) h.abs_lower
  have hne : x ≠ 0 := abs_pos.mp hx
  have hdiff : x⁻¹ - a⁻¹ = (a - x) * (a⁻¹ * x⁻¹) := by field_simp
  have hinv : |x|⁻¹ ≤ ((1 - ε) * |a|)⁻¹ := inv_anti₀ (mul_pos hleft hpos) h.abs_lower
  have hnonneg : 0 ≤ ε * |a| := le_trans (abs_nonneg _) h
  unfold Near at *
  rw [hdiff, abs_mul, abs_mul, abs_inv, abs_inv, abs_sub_comm]
  calc |x - a| * (|a|⁻¹ * |x|⁻¹) ≤ ε * |a| * (|a|⁻¹ * ((1 - ε) * |a|)⁻¹) := by
        apply mul_le_mul h _ (by positivity) hnonneg
        exact mul_le_mul_of_nonneg_left hinv (by positivity)
    _ = ε / (1 - ε) * |a|⁻¹ := by field_simp

theorem Near.pos (h : Near ε a x) (hε : ε < 1) (ha : 0 < a) : 0 < x := by
  have hdist := (abs_le.mp h).1
  rw [abs_of_pos ha] at hdist
  have hkept : ε * a < 1 * a := mul_lt_mul_of_pos_right hε ha
  linarith

end

/-- Rounding adds at most the relative error `u`, and nothing leaves the range. -/
structure Format.Precise (F : Format) (u : ℚ) : Prop where
  nonneg : 0 ≤ u
  near (q : ℚ) : 1 / 2 ^ 126 ≤ |q| → |q| ≤ singleMax → ∃ r, F.round q = .finite r ∧ Near u q r

theorem Format.exactSingle_precise {u : ℚ} (hu : 0 ≤ u) : Format.exactSingle.Precise u :=
  ⟨hu, fun q _ hq => ⟨q, Format.exactSingle_of_le hq, (Near.refl q).mono hu⟩⟩

theorem Env.ranged_precise : Env.ranged.single.Precise (1 / 2 ^ 24) :=
  Format.exactSingle_precise (by norm_num)

end Fp
