import Mathlib.Algebra.Order.Ring.Pow
import Mathlib.Data.Real.Basic
import RobotFirmware.Library.Binary

/-! The standard model of rounding with underflow, how the error of a result composes from those
of its operands, and how far an accumulator drifts. -/
namespace Fp

/-- One rounding adds the relative error `u` and the absolute error `η`, and a rounded value is
not rounded again. -/
structure Format.Standard (F : Format) (u η : ℚ) : Prop where
  relative_nonneg : 0 ≤ u
  absolute_nonneg : 0 ≤ η
  error (q : ℚ) : |q| ≤ 2 ^ 127 → ∃ r, F.round q = .finite r ∧ |r - q| ≤ u * |q| + η
  again (q r : ℚ) : F.round q = .finite r → F.round r = .finite r

theorem Format.binary_standard (P : Places) :
    (Format.binary P).Standard (1 / 2 ^ 24) (1 / 2 ^ 150) where
  relative_nonneg := by norm_num
  absolute_nonneg := by norm_num
  error q hq := by
    have hle := P.abs_nearest_le_pow hq
    refine ⟨_, Places.round_of_lt (Places.lt_top le_rfl hle), ?_⟩
    have hsize : 0 ≤ 1 / 2 ^ 24 * |q| := by positivity
    have hleast : (0 : ℚ) ≤ 1 / 2 ^ 150 := by positivity
    rcases P.nearest_error q with h | h
    · linarith
    · linarith
  again _ _ h := Format.binary_round_round P h

section
variable {K : Type*} [Field K] [LinearOrder K] [IsStrictOrderedRing K]
  {a b c x y z s t ε δ η θ μ : K}

/-- `x` is `a`, whose size is at most `s`, up to the error `ε * s + η`. -/
structure Approx (s ε η a x : K) : Prop where
  size : |a| ≤ s
  error : |x - a| ≤ ε * s + η

theorem Approx.refl (h : |a| ≤ s) : Approx s 0 0 a a := by
  refine ⟨h, ?_⟩
  rw [sub_self, abs_zero, zero_mul, zero_add]

theorem Approx.scale_nonneg (h : Approx s ε η a x) : 0 ≤ s := (abs_nonneg a).trans h.size

theorem Approx.mono (h : Approx s ε η a x) (hε : ε ≤ δ) (hη : η ≤ θ) : Approx s δ θ a x := by
  refine ⟨h.size, h.error.trans ?_⟩
  have hscaled := mul_le_mul_of_nonneg_right hε h.scale_nonneg
  linarith

theorem Approx.abs_le (h : Approx s ε η a x) : |x| ≤ (1 + ε) * s + η := by
  have hsplit : |x| ≤ |x - a| + |a| := by
    have := abs_add_le (x - a) a
    rwa [sub_add_cancel] at this
  have hsize := h.size
  have herror := h.error
  linarith

theorem Approx.step (h : Approx s ε η a x) {u ν : K} (hu : 0 ≤ u)
    (hy : |y - x| ≤ u * |x| + ν) : Approx s (ε + u + u * ε) (η + u * η + ν) a y := by
  refine ⟨h.size, ?_⟩
  have hx := mul_le_mul_of_nonneg_left h.abs_le hu
  have hsplit : |y - a| ≤ |y - x| + |x - a| := by
    have := abs_add_le (y - x) (x - a)
    rwa [sub_add_sub_cancel] at this
  have herror := h.error
  calc |y - a| ≤ |y - x| + |x - a| := hsplit
    _ ≤ u * ((1 + ε) * s + η) + ν + (ε * s + η) := by linarith
    _ = (ε + u + u * ε) * s + (η + u * η + ν) := by ring

theorem Approx.add (ha : Approx s ε η a x) (hb : Approx t ε θ b y) :
    Approx (s + t) ε (η + θ) (a + b) (x + y) := by
  refine ⟨(abs_add_le a b).trans (add_le_add ha.size hb.size), ?_⟩
  have hsplit : |x + y - (a + b)| ≤ |x - a| + |y - b| := by
    rw [add_sub_add_comm]
    exact abs_add_le _ _
  have hx := ha.error
  have hy := hb.error
  linarith

omit [IsStrictOrderedRing K] in
theorem Approx.neg (h : Approx s ε η a x) : Approx s ε η (-a) (-x) := by
  refine ⟨(abs_neg a).trans_le h.size, ?_⟩
  rw [neg_sub_neg, abs_sub_comm]
  exact h.error

theorem Approx.sub (ha : Approx s ε η a x) (hb : Approx t ε θ b y) :
    Approx (s + t) ε (η + θ) (a - b) (x - y) := by
  rw [sub_eq_add_neg, sub_eq_add_neg]
  exact ha.add hb.neg

theorem Approx.mul_near (h : Approx s ε η a x) (hc : Near μ c y) (hμ : 0 ≤ μ) :
    Approx (s * |c|) (ε + μ + μ * ε) (η * |c| + μ * (η * |c|)) (a * c) (x * y) := by
  have hscaled : Approx (s * |c|) ε (η * |c|) (a * c) (x * c) := by
    have hsize := mul_le_mul_of_nonneg_right h.size (abs_nonneg c)
    have herror := mul_le_mul_of_nonneg_right h.error (abs_nonneg c)
    refine ⟨(abs_mul a c).trans_le hsize, ?_⟩
    rw [← sub_mul, abs_mul]
    linarith
  have hfactor : |x * y - x * c| ≤ μ * |x * c| + 0 := by
    have hleft := hc.mul_left x
    unfold Near at hleft
    linarith
  exact (hscaled.step hμ hfactor).mono le_rfl (by linarith)

end

/-- A result with an error is rounded to one with the error of the format on top. -/
theorem Approx.round {F : Format} {u ν : ℚ} (hF : F.Standard u ν) {s ε η a x : ℚ}
    (h : Approx s ε η a x) (hmax : (1 + ε) * s + η ≤ 2 ^ 127) :
    ∃ r, F.round x = .finite r ∧ Approx s (ε + u + u * ε) (η + u * η + ν) a r := by
  obtain ⟨r, hr, herror⟩ := hF.error x (h.abs_le.trans hmax)
  exact ⟨r, hr, h.step hF.relative_nonneg herror⟩

section
variable {K : Type*} [Field K] [LinearOrder K] [IsStrictOrderedRing K]
  {u c ε δ S X d e x y : K} {n : ℕ}

/-- After `n` rounded additions whose terms have errors of sum `S`, each rounding adding `c`
beside its relative error `u`. -/
def Drift (u c : K) (n : ℕ) (S X x : K) : Prop := |x - X| ≤ (1 + u) ^ n * (S + n * c)

theorem Drift.step (h : Drift u c n S X x) (hu : 0 ≤ u) (hc : 0 ≤ c) (hd : |d - δ| ≤ ε)
    (hy : |y - (x + d)| ≤ u * (|x + d - (X + δ)|) + c) :
    Drift u c (n + 1) (S + ε) (X + δ) y := by
  have hsum : |x + d - (X + δ)| ≤ (1 + u) ^ n * (S + n * c) + ε := by
    rw [add_sub_add_comm]
    exact (abs_add_le _ _).trans (add_le_add h hd)
  have hsplit : |y - (X + δ)| ≤ |y - (x + d)| + |x + d - (X + δ)| := by
    have := abs_add_le (y - (x + d)) (x + d - (X + δ))
    rwa [sub_add_sub_cancel] at this
  have hone : 1 ≤ (1 + u) ^ n := one_le_pow₀ (by linarith)
  have hε : 0 ≤ ε := (abs_nonneg _).trans hd
  have hscaled := mul_le_mul_of_nonneg_left hsum hu
  have hterm : (1 + u) * ε ≤ (1 + u) ^ (n + 1) * ε := by
    apply mul_le_mul_of_nonneg_right _ hε
    rw [pow_succ]
    exact le_mul_of_one_le_left (by linarith) hone
  have hround : c ≤ (1 + u) ^ (n + 1) * c :=
    le_mul_of_one_le_left hc (one_le_pow₀ (by linarith))
  unfold Drift
  calc |y - (X + δ)| ≤ (1 + u) * ((1 + u) ^ n * (S + n * c) + ε) + c := by linarith
    _ = (1 + u) ^ (n + 1) * (S + n * c) + (1 + u) * ε + c := by ring
    _ ≤ (1 + u) ^ (n + 1) * (S + n * c) + (1 + u) ^ (n + 1) * ε + (1 + u) ^ (n + 1) * c := by
        linarith
    _ = (1 + u) ^ (n + 1) * (S + ε + ((n + 1 : ℕ) : K) * c) := by
        push_cast
        ring

/-- Fewer additions than half of `1 / u` at most double the errors. -/
theorem Drift.le_two_mul (h : Drift u c n S X x) (hu : 0 ≤ u) (hu₁ : u ≤ 1) (hn : n * u ≤ 1 / 2)
    (hS : 0 ≤ S + n * c) : |x - X| ≤ 2 * (S + n * c) := by
  have hbernoulli : 1 / 2 ≤ (1 - u) ^ n := by
    have hle := one_add_mul_le_pow (a := -u) (by linarith) n
    rw [← sub_eq_add_neg] at hle
    linarith
  have hproduct : (1 + u) ^ n * (1 - u) ^ n ≤ 1 := by
    rw [← mul_pow]
    apply pow_le_one₀
    · exact mul_nonneg (by linarith) (by linarith)
    · have hsquare := mul_nonneg hu hu
      linarith
  have hdouble : (1 + u) ^ n ≤ 2 := by
    have hpos : 0 ≤ (1 + u) ^ n := pow_nonneg (by linarith) n
    have hhalf := mul_le_mul_of_nonneg_left hbernoulli hpos
    linarith
  unfold Drift at h
  exact h.trans (mul_le_mul_of_nonneg_right hdouble hS)

end

/-- A rounded addition to an accumulator that stands for a real number within `R`. -/
theorem Drift.round {F : Format} {u ν : ℚ} (hF : F.Standard u ν) {n : ℕ}
    {X δ ε S R c : ℝ} {x d : ℚ} (h : Drift (u : ℝ) c n S X x) (hd : |(d : ℝ) - δ| ≤ ε)
    (hR : |X + δ| ≤ R) (hc : u * R + ν ≤ c) (hmax : |x + d| ≤ 2 ^ 127) :
    ∃ y, F.round (x + d) = .finite y ∧ Drift (u : ℝ) c (n + 1) (S + ε) (X + δ) y := by
  obtain ⟨y, hy, herror⟩ := hF.error (x + d) hmax
  have hu : (0 : ℝ) ≤ u := by exact_mod_cast hF.relative_nonneg
  have hν : (0 : ℝ) ≤ ν := by exact_mod_cast hF.absolute_nonneg
  have herror' : |(y : ℝ) - (x + d)| ≤ u * |(x + d : ℝ)| + ν := by exact_mod_cast herror
  have hsize : |(x + d : ℝ)| ≤ |(x : ℝ) + d - (X + δ)| + R := by
    have hsplit := abs_add_le ((x : ℝ) + d - (X + δ)) (X + δ)
    rw [sub_add_cancel] at hsplit
    linarith
  have hscaled := mul_le_mul_of_nonneg_left hsize hu
  have hRnonneg : 0 ≤ R := (abs_nonneg _).trans hR
  have hcnonneg : 0 ≤ c := le_trans (add_nonneg (mul_nonneg hu hRnonneg) hν) hc
  exact ⟨y, hy, h.step hu hcnonneg hd (by linarith)⟩

end Fp
