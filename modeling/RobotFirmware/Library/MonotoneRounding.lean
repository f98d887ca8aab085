import RobotFirmware.Library.Float

/-! Formats whose rounding keeps the order of exact results, and what else keeps the order of
floating-point data: the limiter, and the conversions from and to integers. -/
namespace Fp

/-- Rounding never reverses the order of two results. -/
def Format.Monotone (F : Format) : Prop := ∀ q r, q ≤ r → Datum.le (F.round q) (F.round r) = true

theorem Format.exact_monotone : Format.exact.Monotone := fun _ _ h => decide_eq_true h

variable {F : Format}

/-- Two finite results that round to finite values keep their order. -/
theorem Format.Monotone.finite (hF : F.Monotone) {q r s t : ℚ} (hqr : q ≤ r)
    (hs : F.round q = .finite s) (ht : F.round r = .finite t) : s ≤ t := by
  have hle := hF q r hqr
  rw [hs, ht] at hle
  exact of_decide_eq_true hle

/-- On finite values the limiter is the usual one. -/
theorem Datum.clamp_eq_max_min {lo hi : ℚ} (hlh : lo ≤ hi) (q : ℚ) :
    clamp (finite lo) (finite hi) (finite q) = finite (max lo (min hi q)) := by
  simp only [clamp, lt_finite, decide_eq_true_eq]
  split_ifs with hover hunder
  · rw [min_eq_left hover.le, max_eq_right hlh]
  · have hq : q ≤ hi := not_lt.mp hover
    rw [min_eq_right hq, max_eq_left hunder.le]
  · have hq : q ≤ hi := not_lt.mp hover
    rw [min_eq_right hq, max_eq_right (not_lt.mp hunder)]

theorem Env.ofInt_mono {E : Env} (hE : E.single.Monotone) {n m : Int32} {s t : ℚ}
    (hnm : n.toInt ≤ m.toInt) (hs : E.ofInt n = .finite s) (ht : E.ofInt m = .finite t) :
    s ≤ t := by
  have hcast : (n.toInt : ℚ) ≤ m.toInt := by exact_mod_cast hnm
  exact hE.finite hcast hs ht

theorem roundAway_mono {q r : ℚ} (h : q ≤ r) : roundAway q ≤ roundAway r := by
  unfold roundAway
  split_ifs with hq hr hr
  · exact Int.floor_le_floor (by linarith)
  · linarith
  · have hceil : ⌈q - 1 / 2⌉ ≤ 0 := Int.ceil_le.mpr (by push_cast; linarith)
    have hfloor : 0 ≤ ⌊r + 1 / 2⌋ := Int.floor_nonneg.mpr (by linarith)
    omega
  · exact Int.ceil_le_ceil (by linarith)

/-- An `int` stays within its range when it becomes a `float`. -/
theorem Env.ofInt_bounded (E : Env) (n : Int32) :
    ∃ r, E.ofInt n = .finite r ∧ |r| ≤ 2 ^ 31 := by
  have hlo := Int32.le_toInt n
  have hhi := Int32.toInt_lt n
  have hn : |(n.toInt : ℚ)| ≤ 2 ^ 31 := by
    rw [abs_le]
    constructor
    · exact_mod_cast hlo
    · exact_mod_cast hhi.le
  exact E.single.round_le n.toInt 31 (by norm_num) hn

end Fp
