import Mathlib.Analysis.SpecialFunctions.Trigonometric.Bounds
import RobotFirmware.Library.Drift
import RobotFirmware.Chassis.OdomZero

/-! How far the odometry that the task computes in `float` is from the pose that the counts stand
for. -/
namespace RobotFirmware.Chassis
open Fp Planar

/-- The metres of a count and the half-track, as the source writes them. -/
def countM : ℚ := 1508 / 10000 / 1040

def halfTrackM : ℚ := 115 / 1000

def countArc (countDelta : Wheels Int32) : Arc ℚ :=
  Arc.ofSides halfTrackM (sideM countM (leftDeltas countDelta))
    (sideM countM (rightDeltas countDelta))

/-- What the two sides have rolled, forwards or backwards. -/
def rolledM (countDelta : Wheels Int32) : ℚ :=
  |sideM countM (leftDeltas countDelta)| + |sideM countM (rightDeltas countDelta)|

/-- `left_m` and `right_m` -/
def computedSideM (E : Env) (deltas : Int32 × Int32) : Datum :=
  Datum.mul E.single (Datum.mul E.single (.finite (1 / 2))
    (Datum.add E.single (E.ofInt deltas.1) (E.ofInt deltas.2))) (metresPerCount E)

/-- `distance_m` -/
def computedDistanceM (E : Env) (countDelta : Wheels Int32) : Datum :=
  Datum.mul E.single (.finite (1 / 2)) (Datum.add E.single
    (computedSideM E (leftDeltas countDelta)) (computedSideM E (rightDeltas countDelta)))

/-- `delta_yaw_rad` -/
def computedYawRad (E : Env) (countDelta : Wheels Int32) : Datum :=
  Datum.div E.single (Datum.sub E.single (computedSideM E (rightDeltas countDelta))
    (computedSideM E (leftDeltas countDelta))) (Datum.mul E.single (.finite 2) (turnGeometryM E))

section
variable {E : Env} (hE : E.single.Standard (1 / 2 ^ 24) (1 / 2 ^ 150))
include hE

theorem standard_near {q : ℚ} (hlo : 1 / 2 ^ 100 ≤ |q|) (hhi : |q| ≤ 2 ^ 127) :
    ∃ r, E.single.round q = .finite r ∧ Near (17 / 2 ^ 28) q r := by
  obtain ⟨r, hr, herror⟩ := hE.error q hhi
  refine ⟨r, hr, ?_⟩
  unfold Near
  linarith

theorem metresPerCount_near :
    ∃ m, metresPerCount E = .finite m ∧ Near (9 / 2 ^ 26 : ℚ) countM m := by
  obtain ⟨c, hc, hnear⟩ := standard_near hE (q := 1508 / 10000)
    (by rw [abs_of_pos] <;> norm_num) (by rw [abs_of_pos] <;> norm_num)
  have hrev : literalF E 1040 = .finite 1040 := by
    have hround := E.single.round_int 1040 (by norm_num)
    exact_mod_cast hround
  have hquotient := hnear.div_right 1040
  have hsize := hquotient.abs_lower
  have hsize' := hquotient.abs_upper
  rw [abs_of_pos (by norm_num : (0 : ℚ) < 1508 / 10000 / 1040)] at hsize hsize'
  obtain ⟨m, hm, hrounded⟩ := standard_near hE (q := c / 1040)
    (le_trans (by norm_num) hsize) (hsize'.trans (by norm_num))
  refine ⟨m, ?_, (hquotient.trans hrounded (by norm_num)).mono (by norm_num)⟩
  have hc' : literalF E (1508 / 10000) = .finite c := hc
  unfold metresPerCount
  rw [hc', hrev, Datum.div_finite E.single c (by norm_num : (1040 : ℚ) ≠ 0), hm]

theorem track_near : ∃ t, Datum.mul E.single (.finite 2) (turnGeometryM E) = .finite t ∧
    t ≠ 0 ∧ Near (5 / 2 ^ 25 : ℚ) (100 / 23) t⁻¹ := by
  obtain ⟨g, hg, hnear⟩ := standard_near hE (q := 115 / 1000)
    (by rw [abs_of_pos] <;> norm_num) (by rw [abs_of_pos] <;> norm_num)
  have hdouble := hnear.mul_left 2
  have hsize := hdouble.abs_lower
  have hsize' := hdouble.abs_upper
  rw [abs_of_pos (by norm_num : (0 : ℚ) < 2 * (115 / 1000))] at hsize hsize'
  obtain ⟨t, ht, hrounded⟩ := standard_near hE (q := 2 * g)
    (le_trans (by norm_num) hsize) (hsize'.trans (by norm_num))
  have hnear' : Near (9 / 2 ^ 26 : ℚ) (2 * (115 / 1000)) t :=
    (hdouble.trans hrounded (by norm_num)).mono (by norm_num)
  have hpos : 0 < t := hnear'.pos (by norm_num) (by norm_num)
  have hinverse := (hnear'.inv (by norm_num) (by norm_num)).mono
    (by norm_num : (9 / 2 ^ 26 : ℚ) / (1 - 9 / 2 ^ 26) ≤ 5 / 2 ^ 25)
  have hvalue : (2 * (115 / 1000) : ℚ)⁻¹ = 100 / 23 := by norm_num
  rw [hvalue] at hinverse
  have hg' : turnGeometryM E = .finite g := hg
  exact ⟨t, by rw [hg', Datum.mul_finite, ht], hpos.ne', hinverse⟩

omit hE in
/-- Small integers add without rounding. -/
theorem ofInt_add_ofInt {a b : Int32} (ha : |a.toInt| ≤ 2 ^ 20) (hb : |b.toInt| ≤ 2 ^ 20) :
    Datum.add E.single (E.ofInt a) (E.ofInt b) = .finite (a.toInt + b.toInt) ∧
      |(a.toInt + b.toInt : ℚ)| ≤ 2 ^ 21 := by
  have ha' : E.ofInt a = .finite a.toInt := E.single.round_int _ (ha.trans (by norm_num))
  have hb' : E.ofInt b = .finite b.toInt := E.single.round_int _ (hb.trans (by norm_num))
  have hsum : |a.toInt + b.toInt| ≤ 2 ^ 21 :=
    (abs_add_le _ _).trans ((add_le_add ha hb).trans (by norm_num))
  have hround := E.single.round_int _ (hsum.trans (by norm_num))
  push_cast at hround
  refine ⟨?_, by exact_mod_cast hsum⟩
  rw [ha', hb', Datum.add_finite, hround]

/-- A side rolls what its counts stand for, up to rounding. -/
theorem computedSideM_approx (deltas : Int32 × Int32) (hfirst : |deltas.1.toInt| ≤ 2 ^ 20)
    (hsecond : |deltas.2.toInt| ≤ 2 ^ 20) : |sideM countM deltas| ≤ 2 ^ 10 ∧
      ∃ m, computedSideM E deltas = .finite m ∧
        Approx |sideM countM deltas| (9 / 2 ^ 25) (1 / 2 ^ 140) (sideM countM deltas) m := by
  obtain ⟨hsum, hsumLe⟩ := ofInt_add_ofInt (E := E) hfirst hsecond
  obtain ⟨c, hc, hscale⟩ := metresPerCount_near hE
  set counts : ℚ := 1 / 2 * (deltas.1.toInt + deltas.2.toInt) with hcounts
  have hcountsLe : |counts| ≤ 2 ^ 20 := by
    rw [hcounts, abs_mul, abs_of_pos (by norm_num : (0 : ℚ) < 1 / 2)]
    linarith
  have hexact : counts * countM = sideM countM deltas := by
    unfold sideM mean
    rw [hcounts]
    ring
  have hcountM : |countM| = countM := abs_of_pos (by norm_num [countM])
  have hsize : |counts| * countM = |sideM countM deltas| := by
    rw [← hexact, abs_mul counts, hcountM]
  have hcountMLe : countM ≤ 1 / 2 ^ 10 := by norm_num [countM]
  have hpos : 0 < countM := by norm_num [countM]
  have hsizeLe : |sideM countM deltas| ≤ 2 ^ 10 := by
    have hproduct : |counts| * countM ≤ 2 ^ 20 * (1 / 2 ^ 10) :=
      mul_le_mul hcountsLe hcountMLe hpos.le (by norm_num)
    rw [← hsize]
    exact hproduct.trans (by norm_num)
  obtain ⟨l, hl, hleft⟩ := (Approx.refl (le_refl |counts|)).round hE (by linarith)
  have hproduct := hleft.mul_near hscale (by norm_num)
  rw [hcountM, hsize, hexact] at hproduct
  obtain ⟨m, hm, hside⟩ := hproduct.round hE (by linarith)
  refine ⟨hsizeLe, m, ?_, hside.mono (by norm_num) (by linarith)⟩
  unfold computedSideM
  rw [hsum, Datum.mul_finite, hl, hc, Datum.mul_finite, hm]

/-- Deltas that a counter between its limits can make, and far more. -/
def SmallDeltas (countDelta : Wheels Int32) : Prop := ∀ i, |(countDelta i).toInt| ≤ 2 ^ 20

theorem rolledM_le {countDelta : Wheels Int32} (h : SmallDeltas countDelta) :
    rolledM countDelta ≤ 2 ^ 11 := by
  have hleft := (computedSideM_approx hE (leftDeltas countDelta) (h 0) (h 1)).1
  have hright := (computedSideM_approx hE (rightDeltas countDelta) (h 2) (h 3)).1
  unfold rolledM
  linarith

theorem computedDistanceM_approx {countDelta : Wheels Int32} (h : SmallDeltas countDelta) :
    ∃ m, computedDistanceM E countDelta = .finite m ∧
      Approx (rolledM countDelta / 2) (7 / 2 ^ 24) (1 / 2 ^ 130) (countArc countDelta).distance
        m := by
  obtain ⟨hleftLe, l, hl, hleft⟩ := computedSideM_approx hE (leftDeltas countDelta)
    (h 0) (h 1)
  obtain ⟨hrightLe, r, hr, hright⟩ := computedSideM_approx hE (rightDeltas countDelta)
    (h 2) (h 3)
  obtain ⟨s, hs, hsum⟩ := (hleft.add hright).round hE (by linarith)
  have hhalf := hsum.mul_near (Near.refl (1 / 2 : ℚ)) le_rfl
  rw [abs_of_pos (by norm_num : (0 : ℚ) < 1 / 2)] at hhalf
  obtain ⟨m, hm, hdistance⟩ := hhalf.round hE (by linarith)
  refine ⟨m, ?_, ?_⟩
  · unfold computedDistanceM
    rw [hl, hr, Datum.add_finite, hs, Datum.mul_finite, mul_comm, hm]
  · have hexact : (sideM countM (leftDeltas countDelta) + sideM countM (rightDeltas countDelta)) *
        (1 / 2) = (countArc countDelta).distance := by
      unfold countArc Arc.ofSides mean
      ring
    have hrolled : (|sideM countM (leftDeltas countDelta)| +
        |sideM countM (rightDeltas countDelta)|) * (1 / 2) = rolledM countDelta / 2 := by
      unfold rolledM
      ring
    rw [hexact, hrolled] at hdistance
    exact hdistance.mono (by norm_num) (by norm_num)

theorem computedYawRad_approx {countDelta : Wheels Int32} (h : SmallDeltas countDelta) :
    ∃ y, computedYawRad E countDelta = .finite y ∧
      Approx (rolledM countDelta * (100 / 23)) (10 / 2 ^ 24) (1 / 2 ^ 130)
        (countArc countDelta).turn y := by
  obtain ⟨hleftLe, l, hl, hleft⟩ := computedSideM_approx hE (leftDeltas countDelta)
    (h 0) (h 1)
  obtain ⟨hrightLe, r, hr, hright⟩ := computedSideM_approx hE (rightDeltas countDelta)
    (h 2) (h 3)
  obtain ⟨t, ht, hne, hinverse⟩ := track_near hE
  obtain ⟨s, hs, hdifference⟩ := (hright.sub hleft).round hE (by linarith)
  have hquotient := hdifference.mul_near hinverse (by norm_num)
  rw [abs_of_pos (by norm_num : (0 : ℚ) < 100 / 23), ← div_eq_mul_inv] at hquotient
  obtain ⟨y, hy, hturn⟩ := hquotient.round hE (by linarith)
  refine ⟨y, ?_, ?_⟩
  · unfold computedYawRad
    rw [hl, hr, ht, Datum.sub_finite, hs, Datum.div_finite E.single s hne, hy]
  · have hexact : (sideM countM (rightDeltas countDelta) - sideM countM (leftDeltas countDelta)) *
        (100 / 23) = (countArc countDelta).turn := by
      unfold countArc Arc.ofSides halfTrackM
      ring
    have hrolled : (|sideM countM (rightDeltas countDelta)| +
        |sideM countM (leftDeltas countDelta)|) * (100 / 23) =
          rolledM countDelta * (100 / 23) := by
      unfold rolledM
      ring
    rw [hexact, hrolled] at hturn
    exact hturn.mono (by norm_num) (by norm_num)

end

/-- The trigonometric functions of the environment are within `τ` of the real ones. -/
structure Trig (E : Env) (τ : ℚ) : Prop where
  cos (q : ℚ) : ∃ c : ℚ, E.cosf (.finite q) = .finite c ∧ |(c : ℝ) - Real.cos q| ≤ τ
  sin (q : ℚ) : ∃ c : ℚ, E.sinf (.finite q) = .finite c ∧ |(c : ℝ) - Real.sin q| ≤ τ

/-- The rounded product of a distance and the cosine or the sine of a heading. -/
theorem component_error {E : Env} (hE : E.single.Standard (1 / 2 ^ 24) (1 / 2 ^ 150))
    {f : ℝ → ℝ} (hone : ∀ a, |f a| ≤ 1) (hlipschitz : ∀ a b, |f a - f b| ≤ |a - b|)
    {w D m c M : ℚ} {τ e : ℝ} (hm : Approx (w / 2) (7 / 2 ^ 24) (1 / 2 ^ 130) D m)
    (hw : w ≤ 2 ^ 20) {heading : ℝ} (hheading : |(M : ℝ) - heading| ≤ e) (hτ : τ ≤ 1)
    (hc : |(c : ℝ) - f M| ≤ τ) : ∃ p, E.single.round (m * c) = .finite p ∧
      |(p : ℝ) - D * f heading| ≤ w * ((τ + e) / 2 + 9 / 2 ^ 24) + 1 / 2 ^ 128 := by
  have hw₀ := hm.scale_nonneg
  have hfactor : |(c : ℝ)| ≤ 2 := by
    have hsplit : |(c : ℝ)| ≤ |(c : ℝ) - f M| + |f M| := by
      have := abs_add_le ((c : ℝ) - f M) (f M)
      rwa [sub_add_cancel] at this
    have := hone M
    linarith
  have hfactorQ : |c| ≤ 2 := by exact_mod_cast hfactor
  have hmLe := hm.abs_le
  have hproductLe : |m * c| ≤ ((1 + 7 / 2 ^ 24) * (w / 2) + 1 / 2 ^ 130) * 2 := by
    rw [abs_mul]
    exact mul_le_mul hmLe hfactorQ (abs_nonneg c) (by positivity)
  obtain ⟨p, hp, hround⟩ := hE.error (m * c) (by linarith)
  refine ⟨p, hp, ?_⟩
  have hroundR : |(p : ℝ) - m * c| ≤ 1 / 2 ^ 24 * (((1 + 7 / 2 ^ 24) * (w / 2) + 1 / 2 ^ 130) * 2) +
      1 / 2 ^ 150 := by
    have hscaled := mul_le_mul_of_nonneg_left hproductLe (by norm_num : (0 : ℚ) ≤ 1 / 2 ^ 24)
    have hle : |p - m * c| ≤ 1 / 2 ^ 24 * (((1 + 7 / 2 ^ 24) * (w / 2) + 1 / 2 ^ 130) * 2) +
        1 / 2 ^ 150 := by linarith
    have hcast := Rat.cast_le (K := ℝ).mpr hle
    push_cast at hcast
    exact hcast
  have hw₀R : (0 : ℝ) ≤ w / 2 := by exact_mod_cast hw₀
  -- the distance, then the heading
  have hdistance : |(m : ℝ) * c - D * c| ≤ (7 / 2 ^ 24 * (w / 2) + 1 / 2 ^ 130) * 2 := by
    have herror := Rat.cast_le (K := ℝ).mpr hm.error
    push_cast at herror
    rw [← sub_mul, abs_mul]
    exact mul_le_mul herror hfactor (abs_nonneg _) (by positivity)
  have hangle : |(D : ℝ) * c - D * f heading| ≤ w / 2 * (τ + e) := by
    have hsize : |(D : ℝ)| ≤ w / 2 := by exact_mod_cast hm.size
    have hnear : |(c : ℝ) - f heading| ≤ τ + e := by
      have hsplit := abs_add_le ((c : ℝ) - f M) (f M - f heading)
      rw [sub_add_sub_cancel] at hsplit
      have := (hlipschitz M heading).trans hheading
      linarith
    rw [← mul_sub, abs_mul]
    exact mul_le_mul hsize hnear (abs_nonneg _) hw₀R
  have hsplit : |(p : ℝ) - D * f heading| ≤
      |(p : ℝ) - m * c| + (|(m : ℝ) * c - D * c| + |(D : ℝ) * c - D * f heading|) := by
    have hfirst := abs_add_le ((p : ℝ) - m * c) (m * c - D * f heading)
    have hsecond := abs_add_le ((m : ℝ) * c - D * c) (D * c - D * f heading)
    rw [sub_add_sub_cancel] at hfirst hsecond
    linarith
  linarith

/-- The pose that counts stand for, from the origin on. -/
noncomputable def truePose (deltas : List (Wheels Int32)) : Pose ℝ :=
  Pose.origin.along Real.cos Real.sin
    (deltas.map fun d => ⟨(countArc d).distance, (countArc d).turn⟩)

/-- The metres that both sides have rolled together. -/
def rolled (deltas : List (Wheels Int32)) : ℚ := (deltas.map rolledM).sum

/-- The samples in which a wheel has moved. -/
def moves (deltas : List (Wheels Int32)) : ℕ := deltas.countP fun d => decide (∃ i, d i ≠ 0)

def StaysWithin (R Y : ℚ) (deltas : List (Wheels Int32)) : Prop :=
  ∀ p, p <+: deltas → |(truePose p).x| ≤ R ∧ |(truePose p).y| ≤ R ∧ |(truePose p).yaw| ≤ Y

/-- The errors of the turns, and of adding one of them. -/
def turnErrors (W : ℚ) (n : ℕ) : ℚ := W * (1000 / 23 / 2 ^ 24) + n / 2 ^ 130

def additionError (bound : ℚ) : ℚ := bound / 2 ^ 24 + 1 / 2 ^ 150

/-- How far the yaw can be off after `n` samples that move the sides by `W` metres. -/
def yawDrift (Y W : ℚ) (n : ℕ) : ℚ := 2 * (turnErrors W n + n * additionError Y)

def componentErrors (τ e W : ℚ) (n : ℕ) : ℚ :=
  W * ((τ + e) / 2 + 9 / 2 ^ 24) + n / 2 ^ 128

/-- How far a coordinate can be off when the yaw is never off by more than `e`. -/
def positionDrift (R τ e W : ℚ) (n : ℕ) : ℚ :=
  2 * (componentErrors τ e W n + n * additionError R)

theorem truePose_concat (deltas : List (Wheels Int32)) (d : Wheels Int32) :
    truePose (deltas ++ [d]) = (truePose deltas).advance Real.cos Real.sin
      ⟨(countArc d).distance, (countArc d).turn⟩ := by
  unfold truePose
  rw [List.map_append, Pose.along_append]
  rfl

theorem rolledM_nonneg (d : Wheels Int32) : 0 ≤ rolledM d :=
  add_nonneg (abs_nonneg _) (abs_nonneg _)

theorem rolled_concat (deltas : List (Wheels Int32)) (d : Wheels Int32) :
    rolled (deltas ++ [d]) = rolled deltas + rolledM d := by
  simp [rolled]

theorem moves_concat_of_moves (deltas : List (Wheels Int32)) {d : Wheels Int32}
    (h : ∃ i, d i ≠ 0) : moves (deltas ++ [d]) = moves deltas + 1 := by
  unfold moves
  rw [List.countP_append, List.countP_singleton, if_pos (decide_eq_true h)]

/-- A sample without counts changes nothing. -/
theorem concat_of_still (deltas : List (Wheels Int32)) {d : Wheels Int32} (h : ∀ i, d i = 0) :
    truePose (deltas ++ [d]) = truePose deltas ∧ rolled (deltas ++ [d]) = rolled deltas ∧
      moves (deltas ++ [d]) = moves deltas := by
  have hleft : sideM countM (leftDeltas d) = 0 := by simp [sideM, mean, leftDeltas, h]
  have hright : sideM countM (rightDeltas d) = 0 := by simp [sideM, mean, rightDeltas, h]
  refine ⟨?_, ?_, ?_⟩
  · rw [truePose_concat]
    simp [countArc, Arc.ofSides, hleft, hright, Pose.advance, mean]
  · rw [rolled_concat, rolledM, hleft, hright, abs_zero, add_zero, add_zero]
  · simp [moves, h]

structure Tracked (E : Env) (R Y τ e : ℚ) (deltas : List (Wheels Int32)) (odom : OdomOver Datum)
    (x y yaw : ℚ) : Prop where
  xM : odom.xM = .finite x
  yM : odom.yM = .finite y
  yawRad : odom.yawRad = .finite yaw
  rounded : E.single.round x = .finite x ∧ E.single.round y = .finite y ∧
    E.single.round yaw = .finite yaw
  xDrift : Drift ((1 / 2 ^ 24 : ℚ) : ℝ) (additionError R) (moves deltas)
    (componentErrors τ e (rolled deltas) (moves deltas)) (truePose deltas).x x
  yDrift : Drift ((1 / 2 ^ 24 : ℚ) : ℝ) (additionError R) (moves deltas)
    (componentErrors τ e (rolled deltas) (moves deltas)) (truePose deltas).y y
  yawDrift : Drift ((1 / 2 ^ 24 : ℚ) : ℝ) (additionError Y) (moves deltas)
    (turnErrors (rolled deltas) (moves deltas)) (truePose deltas).yaw yaw

/-- `midpoint_yaw_rad` -/
def computedMiddle (E : Env) (yawRad : Datum) (countDelta : Wheels Int32) : Datum :=
  Datum.add E.single yawRad (Datum.mul E.single (.finite (1 / 2)) (computedYawRad E countDelta))

theorem integrateOdom_pose (E : Env) (odom : OdomOver Datum) (d : Wheels Int32) (dtS : Datum) :
    let next := integrateOdomOver E.arith odom d dtS (metresPerCount E) (turnGeometryM E)
    let middle := computedMiddle E odom.yawRad d
    next.xM = Datum.add E.single odom.xM
        (Datum.mul E.single (computedDistanceM E d) (E.cosf middle)) ∧
      next.yM = Datum.add E.single odom.yM
        (Datum.mul E.single (computedDistanceM E d) (E.sinf middle)) ∧
      next.yawRad = Datum.add E.single odom.yawRad (computedYawRad E d) := ⟨rfl, rfl, rfl⟩

/-- A period of at least a microsecond, up to rounding. -/
def LongEnough (dtS : Datum) : Prop := ∃ q, dtS = .finite q ∧ 1 / 2 ^ 20 ≤ q

def OdomOver.Finite (odom : OdomOver Datum) : Prop :=
  ∃ x y yaw v w, odom = ⟨.finite x, .finite y, .finite yaw, .finite v, .finite w⟩

theorem finitePositive_of_pos {x : Datum} {q : ℚ} (hx : x = .finite q) (hq : 0 < q) :
    finitePositive x = true := by
  simp [finitePositive, hx, hq]

section
variable {E : Env} (hE : E.single.Standard (1 / 2 ^ 24) (1 / 2 ^ 150))
include hE

theorem parameters_positive :
    finitePositive (metresPerCount E) = true ∧ finitePositive (turnGeometryM E) = true := by
  obtain ⟨m, hm, hnear⟩ := metresPerCount_near hE
  obtain ⟨g, hg, hnear'⟩ := standard_near hE (q := 115 / 1000)
    (by rw [abs_of_pos] <;> norm_num) (by rw [abs_of_pos] <;> norm_num)
  have hmPos : 0 < m := hnear.pos (by norm_num) (by norm_num [countM])
  have hgPos : 0 < g := hnear'.pos (by norm_num) (by norm_num)
  exact ⟨finitePositive_of_pos hm hmPos, finitePositive_of_pos hg hgPos⟩

/-- A finite pose is never refused. -/
theorem update_accepts {odom : OdomOver Datum} {x y yaw : ℚ} (hx : odom.xM = .finite x)
    (hy : odom.yM = .finite y) (hyaw : odom.yawRad = .finite yaw) {dtS : Datum}
    (hdt : finitePositive dtS = true) (d : Wheels Int32) :
    robotChassisOdomUpdateOver E.arith odom (some d) dtS (metresPerCount E) (turnGeometryM E) =
      (true, integrateOdomOver E.arith odom d dtS (metresPerCount E) (turnGeometryM E)) := by
  obtain ⟨hm, hg⟩ := parameters_positive hE
  have hvalid : odomArgumentsValidOver E.arith odom dtS (metresPerCount E) (turnGeometryM E) =
      (finitePositive dtS && finitePositive (metresPerCount E) &&
        finitePositive (turnGeometryM E) && odom.xM.isFinite && odom.yM.isFinite &&
        odom.yawRad.isFinite) := rfl
  apply if_pos
  rw [hvalid, hdt, hm, hg, hx, hy, hyaw]
  rfl

theorem still_update {odom : OdomOver Datum} {x y yaw : ℚ} (hx : odom.xM = .finite x)
    (hy : odom.yM = .finite y) (hyaw : odom.yawRad = .finite yaw)
    (hrounded : E.single.round x = .finite x ∧ E.single.round y = .finite y ∧
      E.single.round yaw = .finite yaw) {τ : ℚ} (htrig : Trig E τ) {d : Wheels Int32}
    (h : ∀ i, d i = 0) (dtS : Datum) :
    let next := integrateOdomOver E.arith odom d dtS (metresPerCount E) (turnGeometryM E)
    next.xM = .finite x ∧ next.yM = .finite y ∧ next.yawRad = .finite yaw := by
  have hzero : E.single.round 0 = .finite 0 := by
    have hround := E.single.round_int 0 (by norm_num)
    rwa [Int.cast_zero] at hround
  obtain ⟨m, hm, _⟩ := metresPerCount_near hE
  obtain ⟨t, ht, hne, _⟩ := track_near hE
  have hint : E.ofInt 0 = .finite 0 := hzero
  have hside : ∀ deltas : Int32 × Int32, deltas.1 = 0 → deltas.2 = 0 →
      computedSideM E deltas = .finite 0 := by
    intro deltas hfirst hsecond
    unfold computedSideM
    rw [hfirst, hsecond, hint, Datum.add_finite, add_zero, hzero, Datum.mul_finite, mul_zero,
      hzero, hm, Datum.mul_finite, zero_mul, hzero]
  have hleft := hside (leftDeltas d) (h 0) (h 1)
  have hright := hside (rightDeltas d) (h 2) (h 3)
  have hdistance : computedDistanceM E d = .finite 0 := by
    unfold computedDistanceM
    rw [hleft, hright, Datum.add_finite, add_zero, hzero, Datum.mul_finite, mul_zero, hzero]
  have hturn : computedYawRad E d = .finite 0 := by
    unfold computedYawRad
    rw [hleft, hright, ht, Datum.sub_finite, sub_zero, hzero, Datum.div_finite E.single 0 hne,
      zero_div, hzero]
  have hmiddle : computedMiddle E odom.yawRad d = .finite yaw := by
    unfold computedMiddle
    rw [hturn, hyaw, Datum.mul_finite, mul_zero, hzero, Datum.add_finite, add_zero, hrounded.2.2]
  obtain ⟨c, hc, _⟩ := htrig.cos yaw
  obtain ⟨s, hs, _⟩ := htrig.sin yaw
  obtain ⟨hnextX, hnextY, hnextYaw⟩ := integrateOdom_pose E odom d dtS
  refine ⟨?_, ?_, ?_⟩
  · rw [hnextX, hx, hdistance, hmiddle, hc, Datum.mul_finite, zero_mul, hzero, Datum.add_finite,
      add_zero, hrounded.1]
  · rw [hnextY, hy, hdistance, hmiddle, hs, Datum.mul_finite, zero_mul, hzero, Datum.add_finite,
      add_zero, hrounded.2.1]
  · rw [hnextYaw, hyaw, hturn, Datum.add_finite, add_zero, hrounded.2.2]

omit hE in
theorem LongEnough.positive {dtS : Datum} (h : LongEnough dtS) : finitePositive dtS = true := by
  obtain ⟨q, hq, hlong⟩ := h
  exact finitePositive_of_pos hq (lt_of_lt_of_le (by norm_num) hlong)

theorem velocity_finite {m : ℚ} (hm : |m| ≤ 2 ^ 14) {dtS : Datum} (hdt : LongEnough dtS) :
    ∃ v, Datum.div E.single (.finite m) dtS = .finite v := by
  obtain ⟨q, hq, hlong⟩ := hdt
  have hpos : 0 < q := lt_of_lt_of_le (by norm_num) hlong
  have hquotient : |m / q| ≤ 2 ^ 127 := by
    rw [abs_div, abs_of_pos hpos, div_le_iff₀ hpos]
    linarith
  obtain ⟨v, hv, _⟩ := hE.error (m / q) hquotient
  exact ⟨v, by rw [hq, Datum.div_finite E.single m hpos.ne', hv]⟩

/-- A sample gives finite velocities, whatever the pose. -/
theorem velocities_finite {d : Wheels Int32} (hd : SmallDeltas d) {dtS : Datum}
    (hdt : LongEnough dtS) (odom : OdomOver Datum) :
    let next := integrateOdomOver E.arith odom d dtS (metresPerCount E) (turnGeometryM E)
    ∃ v w, next.linearXMps = .finite v ∧ next.angularZRadps = .finite w := by
  obtain ⟨m, hm, hdistance⟩ := computedDistanceM_approx hE hd
  obtain ⟨a, ha, hturn⟩ := computedYawRad_approx hE hd
  have hrolled := rolledM_le hE hd
  have hmLe := hdistance.abs_le
  have haLe := hturn.abs_le
  obtain ⟨v, hv⟩ := velocity_finite hE (m := m) (by linarith) hdt
  obtain ⟨w, hw⟩ := velocity_finite hE (m := a) (by linarith) hdt
  rw [← hm] at hv
  rw [← ha] at hw
  exact ⟨v, w, hv, hw⟩

variable {R Y τ e : ℚ} {deltas : List (Wheels Int32)} {odom : OdomOver Datum} {x y yaw : ℚ}
  {d : Wheels Int32}

/-- The next sample moves the wheels, and the bounds on the poses and the errors are moderate. -/
structure Moderate (R Y τ e : ℚ) (deltas : List (Wheels Int32)) (d : Wheels Int32) : Prop where
  small : SmallDeltas d
  few : moves deltas + 1 ≤ 2 ^ 23
  start : |(truePose deltas).yaw| ≤ Y
  stop : |(truePose (deltas ++ [d])).x| ≤ R ∧ |(truePose (deltas ++ [d])).y| ≤ R ∧
    |(truePose (deltas ++ [d])).yaw| ≤ Y
  region : R ≤ 2 ^ 40 ∧ Y ≤ 2 ^ 40
  trig : 0 ≤ τ ∧ τ ≤ 1
  yaw : yawDrift Y (rolled deltas + rolledM d) (moves deltas + 1) ≤ e
  error : e ≤ 2 ^ 60
  position : positionDrift R τ e (rolled deltas + rolledM d) (moves deltas + 1) ≤ 2 ^ 100

omit hE in
theorem rolled_nonneg (deltas : List (Wheels Int32)) : 0 ≤ rolled deltas := by
  unfold rolled
  apply List.sum_nonneg
  intro r hr
  obtain ⟨d, _, rfl⟩ := List.mem_map.mp hr
  exact rolledM_nonneg d

omit hE in
theorem nonneg_of_abs_le {a : ℝ} {B : ℚ} (h : |a| ≤ B) : 0 ≤ B := by
  exact_mod_cast (abs_nonneg a).trans h

omit hE in
theorem additionError_nonneg (hY : 0 ≤ Y) : 0 ≤ additionError Y := by
  unfold additionError
  positivity

omit hE in
theorem turnErrors_concat (W w : ℚ) (n : ℕ) : ((turnErrors (W + w) (n + 1) : ℚ) : ℝ) =
    turnErrors W n + (10 / 2 ^ 24 * (w * (100 / 23)) + 1 / 2 ^ 130) := by
  unfold turnErrors
  push_cast
  ring

omit hE in
theorem componentErrors_concat (W w : ℚ) (n : ℕ) :
    ((componentErrors τ e (W + w) (n + 1) : ℚ) : ℝ) =
      componentErrors τ e W n + (w * ((τ + e) / 2 + 9 / 2 ^ 24) + 1 / 2 ^ 128) := by
  unfold componentErrors
  push_cast
  ring

omit hE in
theorem drift_close {c S X x : ℝ} {n : ℕ} (h : Drift ((1 / 2 ^ 24 : ℚ) : ℝ) c n S X x)
    (hn : n ≤ 2 ^ 23) (hS : 0 ≤ S) (hc : 0 ≤ c) : |x - X| ≤ 2 * (S + n * c) := by
  have hnR : (n : ℝ) ≤ 2 ^ 23 := by exact_mod_cast hn
  apply h.le_two_mul
  · norm_num
  · norm_num
  · push_cast
    linarith
  · positivity

omit hE in
theorem drift_within {c S : ℚ} {X x : ℝ} {n : ℕ} (h : Drift ((1 / 2 ^ 24 : ℚ) : ℝ) c n S X x)
    (hn : n ≤ 2 ^ 23) (hS : 0 ≤ S) (hc : 0 ≤ c) : |x - X| ≤ ((2 * (S + n * c) : ℚ) : ℝ) := by
  push_cast
  exact drift_close h hn (by exact_mod_cast hS) (by exact_mod_cast hc)

/-- A rounded addition to a coordinate that stays within `B`. -/
theorem add_tracked {ε S X δ : ℝ} {n : ℕ} {B p q : ℚ}
    (h : Drift ((1 / 2 ^ 24 : ℚ) : ℝ) (additionError B) n S X p) (hn : n ≤ 2 ^ 23) (hS : 0 ≤ S)
    (hq : |(q : ℝ) - δ| ≤ ε) (hB : |X + δ| ≤ B)
    (hmax : 2 * (S + n * additionError B) + ε + B ≤ 2 ^ 127) :
    ∃ r, Datum.add E.single (.finite p) (.finite q) = .finite r ∧
      E.single.round r = .finite r ∧
      Drift ((1 / 2 ^ 24 : ℚ) : ℝ) (additionError B) (n + 1) (S + ε) (X + δ) r := by
  have hc : (0 : ℝ) ≤ additionError B := by
    exact_mod_cast additionError_nonneg (nonneg_of_abs_le hB)
  have hfar := drift_close h hn hS hc
  have hsize : |(p : ℝ) + q| ≤ 2 ^ 127 := by
    have hsplit := abs_add_le ((p : ℝ) - X + (q - δ)) (X + δ)
    have herrors := abs_add_le ((p : ℝ) - X) (q - δ)
    have hsum : (p : ℝ) - X + (q - δ) + (X + δ) = p + q := by ring
    rw [hsum] at hsplit
    linarith
  have hsizeQ : |p + q| ≤ 2 ^ 127 := by exact_mod_cast hsize
  have hround : ((1 / 2 ^ 24 : ℚ) : ℝ) * B + ((1 / 2 ^ 150 : ℚ) : ℝ) ≤ additionError B := by
    unfold additionError
    push_cast
    linarith
  obtain ⟨r, hr, hdrift⟩ := h.round hE hq hB hround hsizeQ
  exact ⟨r, hr, hE.again _ _ hr, hdrift⟩

/-- The heading of a sample that moves the wheels, and the heading half-way through it. -/
theorem moving_yaw (hmod : Moderate R Y τ e deltas d)
    (htracked : Tracked E R Y τ e deltas odom x y yaw) :
    (∃ yaw', Datum.add E.single (.finite yaw) (computedYawRad E d) = .finite yaw' ∧
      E.single.round yaw' = .finite yaw' ∧
      Drift ((1 / 2 ^ 24 : ℚ) : ℝ) (additionError Y) (moves deltas + 1)
        (turnErrors (rolled deltas + rolledM d) (moves deltas + 1))
        (truePose (deltas ++ [d])).yaw yaw') ∧
    ∃ middle, computedMiddle E (.finite yaw) d = .finite middle ∧
      |(middle : ℝ) - ((truePose deltas).yaw + (countArc d).turn / 2)| ≤ e := by
  obtain ⟨turn, hturn, hturnApprox⟩ := computedYawRad_approx hE hmod.small
  have hpose := truePose_concat deltas d
  have hyawPose : (truePose (deltas ++ [d])).yaw = (truePose deltas).yaw + (countArc d).turn := by
    rw [hpose]
    rfl
  have hrolled : (0 : ℝ) ≤ rolled deltas := by exact_mod_cast rolled_nonneg deltas
  have hrolledM : (0 : ℝ) ≤ rolledM d := by exact_mod_cast rolledM_nonneg d
  have hY := nonneg_of_abs_le hmod.start
  have hc : (0 : ℝ) ≤ additionError Y := by exact_mod_cast additionError_nonneg hY
  have hfew := hmod.few
  have hslack : (0 : ℝ) ≤ turnErrors (rolled deltas) (moves deltas) := by
    unfold turnErrors
    push_cast
    positivity
  have hyawBound := Rat.cast_le (K := ℝ).mpr hmod.yaw
  unfold yawDrift at hyawBound
  push_cast at hyawBound
  rw [turnErrors_concat] at hyawBound
  have hnc : 0 ≤ (moves deltas : ℝ) * additionError Y := by positivity
  have hfar := drift_close htracked.yawDrift (by omega) hslack hc
  have herror : (e : ℝ) ≤ 2 ^ 60 := by exact_mod_cast hmod.error
  have hregion : (Y : ℝ) ≤ 2 ^ 40 := by exact_mod_cast hmod.region.2
  have hturnError := Rat.cast_le (K := ℝ).mpr hturnApprox.error
  push_cast at hturnError
  have hwhole := hmod.stop.2.2
  rw [hyawPose] at hwhole
  constructor
  · obtain ⟨yaw', hyaw', hrounded, hdrift⟩ := add_tracked hE htracked.yawDrift (by omega) hslack
      hturnError hwhole (by linarith)
    refine ⟨yaw', ?_, hrounded, ?_⟩
    · rw [hturn, hyaw']
    · rw [hyawPose, turnErrors_concat]
      exact hdrift
  · -- half of the turn, and the same addition
    have hhalf := hturnApprox.mul_near (Near.refl (1 / 2 : ℚ)) le_rfl
    rw [abs_of_pos (by norm_num : (0 : ℚ) < 1 / 2)] at hhalf
    have hrolledLe := rolledM_le hE hmod.small
    obtain ⟨half, hhalfTurn, hhalfApprox⟩ := hhalf.round hE (by linarith)
    have hhalfError := Rat.cast_le (K := ℝ).mpr hhalfApprox.error
    push_cast at hhalfError
    have hmiddleLe : |(truePose deltas).yaw + (countArc d).turn * (1 / 2)| ≤ Y := by
      obtain ⟨hlow, hhigh⟩ := abs_le.mp hmod.start
      obtain ⟨hlow', hhigh'⟩ := abs_le.mp hwhole
      rw [abs_le]
      constructor <;> linarith
    obtain ⟨middle, hmiddle, _, hdrift⟩ := add_tracked hE htracked.yawDrift (by omega) hslack
      hhalfError hmiddleLe (by linarith)
    refine ⟨middle, ?_, ?_⟩
    · unfold computedMiddle
      rw [hturn, Datum.mul_finite, mul_comm, hhalfTurn, hmiddle]
    · have hclose := drift_close hdrift hmod.few (by positivity) hc
      have hsame : (truePose deltas).yaw + (countArc d).turn / 2 =
          (truePose deltas).yaw + (countArc d).turn * (1 / 2) := by ring
      rw [hsame]
      push_cast at hclose
      linarith

/-- A coordinate after a sample that moves the wheels. -/
theorem moving_coordinate {f : ℝ → ℝ} (hone : ∀ a, |f a| ≤ 1)
    (hlipschitz : ∀ a b, |f a - f b| ≤ |a - b|) (hmod : Moderate R Y τ e deltas d)
    {X : ℝ} {p middle c : ℚ} (hdrift : Drift ((1 / 2 ^ 24 : ℚ) : ℝ) (additionError R)
      (moves deltas) (componentErrors τ e (rolled deltas) (moves deltas)) X p)
    (hmiddle : |(middle : ℝ) - ((truePose deltas).yaw + (countArc d).turn / 2)| ≤ e)
    (hc : |(c : ℝ) - f middle| ≤ τ)
    (hwithin : |X + (countArc d).distance *
      f ((truePose deltas).yaw + (countArc d).turn / 2)| ≤ R) :
    ∃ r, Datum.add E.single (.finite p)
        (Datum.mul E.single (computedDistanceM E d) (.finite c)) = .finite r ∧
      E.single.round r = .finite r ∧
      Drift ((1 / 2 ^ 24 : ℚ) : ℝ) (additionError R) (moves deltas + 1)
        (componentErrors τ e (rolled deltas + rolledM d) (moves deltas + 1))
        (X + (countArc d).distance * f ((truePose deltas).yaw + (countArc d).turn / 2)) r := by
  obtain ⟨m, hm, happrox⟩ := computedDistanceM_approx hE hmod.small
  have hsmall : rolledM d ≤ 2 ^ 20 := (rolledM_le hE hmod.small).trans (by norm_num)
  have hτ : (0 : ℝ) ≤ τ := by exact_mod_cast hmod.trig.1
  obtain ⟨q, hq, herror⟩ := component_error hE hone hlipschitz happrox hsmall hmiddle
    (by exact_mod_cast hmod.trig.2) hc
  have he : (0 : ℝ) ≤ e := (abs_nonneg _).trans hmiddle
  have hrolled : (0 : ℝ) ≤ rolled deltas := by exact_mod_cast rolled_nonneg deltas
  have hrolledM : (0 : ℝ) ≤ rolledM d := by exact_mod_cast rolledM_nonneg d
  have hslack : (0 : ℝ) ≤ componentErrors τ e (rolled deltas) (moves deltas) := by
    unfold componentErrors
    push_cast
    positivity
  have hfew := hmod.few
  have hterm : 0 ≤ (rolledM d : ℝ) * ((τ + e) / 2 + 9 / 2 ^ 24) + 1 / 2 ^ 128 := by positivity
  have hc₀ : (0 : ℝ) ≤ additionError R := by
    exact_mod_cast additionError_nonneg (nonneg_of_abs_le hwithin)
  have hposition := Rat.cast_le (K := ℝ).mpr hmod.position
  have hregion : (R : ℝ) ≤ 2 ^ 40 := by exact_mod_cast hmod.region.1
  unfold positionDrift at hposition
  push_cast at hposition
  rw [componentErrors_concat] at hposition ⊢
  obtain ⟨r, hr, hrounded, hnext⟩ := add_tracked hE hdrift (by omega) hslack herror hwithin
    (by linarith)
  refine ⟨r, ?_, hrounded, hnext⟩
  rw [hm, Datum.mul_finite, hq, hr]

theorem update_tracked (htrig : Trig E τ) (htracked : Tracked E R Y τ e deltas odom x y yaw)
    {dtS : Datum} (hdt : finitePositive dtS = true)
    (hd : (∀ i, d i = 0) ∨ Moderate R Y τ e deltas d) :
    ∃ x' y' yaw', Tracked E R Y τ e (deltas ++ [d])
      (robotChassisOdomUpdateOver E.arith odom (some d) dtS (metresPerCount E)
        (turnGeometryM E)).2 x' y' yaw' := by
  obtain ⟨hx, hy, hyaw, hrounded, hxDrift, hyDrift, hyawDrift⟩ := htracked
  rw [update_accepts hE hx hy hyaw hdt d]
  by_cases hstill : ∀ i, d i = 0
  · obtain ⟨hpose, hrolled, hmoves⟩ := concat_of_still deltas hstill
    obtain ⟨hx', hy', hyaw'⟩ := still_update hE hx hy hyaw hrounded htrig hstill dtS
    refine ⟨x, y, yaw, hx', hy', hyaw', hrounded, ?_, ?_, ?_⟩
    · rwa [hpose, hrolled, hmoves]
    · rwa [hpose, hrolled, hmoves]
    · rwa [hpose, hrolled, hmoves]
  · have hmod : Moderate R Y τ e deltas d := hd.resolve_left hstill
    have hmoving : ∃ i, d i ≠ 0 := not_forall.mp hstill
    have hmoves := moves_concat_of_moves deltas hmoving
    have hrolled := rolled_concat deltas d
    have hpose := truePose_concat deltas d
    obtain ⟨⟨yaw', hyaw', hroundedYaw, hyawNext⟩, middle, hmiddle, hclose⟩ :=
      moving_yaw hE hmod ⟨hx, hy, hyaw, hrounded, hxDrift, hyDrift, hyawDrift⟩
    obtain ⟨c, hc, hcos⟩ := htrig.cos middle
    obtain ⟨s, hs, hsin⟩ := htrig.sin middle
    have hstopX := hmod.stop.1
    have hstopY := hmod.stop.2.1
    have hposeX : (truePose (deltas ++ [d])).x = (truePose deltas).x + (countArc d).distance *
        Real.cos ((truePose deltas).yaw + (countArc d).turn / 2) := by
      rw [hpose]
      rfl
    have hposeY : (truePose (deltas ++ [d])).y = (truePose deltas).y + (countArc d).distance *
        Real.sin ((truePose deltas).yaw + (countArc d).turn / 2) := by
      rw [hpose]
      rfl
    rw [hposeX] at hstopX
    rw [hposeY] at hstopY
    obtain ⟨x', hx', hroundedX, hxNext⟩ := moving_coordinate hE Real.abs_cos_le_one
      Real.abs_cos_sub_cos_le hmod hxDrift hclose hcos hstopX
    obtain ⟨y', hy', hroundedY, hyNext⟩ := moving_coordinate hE Real.abs_sin_le_one
      Real.abs_sin_sub_sin_le hmod hyDrift hclose hsin hstopY
    obtain ⟨hnextX, hnextY, hnextYaw⟩ := integrateOdom_pose E odom d dtS
    refine ⟨x', y', yaw', ?_, ?_, ?_, ⟨hroundedX, hroundedY, hroundedYaw⟩, ?_, ?_, ?_⟩
    · rw [hnextX, hx, hyaw, hmiddle, hc, hx']
    · rw [hnextY, hy, hyaw, hmiddle, hs, hy']
    · rw [hnextYaw, hyaw, hyaw']
    · rw [hmoves, hrolled, hposeX]
      exact hxNext
    · rw [hmoves, hrolled, hposeY]
      exact hyNext
    · rw [hmoves, hrolled]
      exact hyawNext

omit hE in
theorem yawDrift_mono (hY : 0 ≤ Y) {W W' : ℚ} {n n' : ℕ} (hW : W ≤ W') (hn : n ≤ n') :
    yawDrift Y W n ≤ yawDrift Y W' n' := by
  have hn' : (n : ℚ) ≤ n' := by exact_mod_cast hn
  have hadd := mul_le_mul_of_nonneg_right hn' (additionError_nonneg hY)
  unfold yawDrift turnErrors
  linarith

omit hE in
theorem positionDrift_mono (hR : 0 ≤ R) (hτ : 0 ≤ τ) (he : 0 ≤ e) {W W' : ℚ} {n n' : ℕ}
    (hW : W ≤ W') (hn : n ≤ n') : positionDrift R τ e W n ≤ positionDrift R τ e W' n' := by
  have hn' : (n : ℚ) ≤ n' := by exact_mod_cast hn
  have hadd := mul_le_mul_of_nonneg_right hn' (additionError_nonneg hR)
  have hcomponent := mul_le_mul_of_nonneg_right hW
    (by positivity : 0 ≤ (τ + e) / 2 + 9 / 2 ^ 24)
  unfold positionDrift componentErrors
  linarith

omit hE in
theorem moves_le_concat (deltas : List (Wheels Int32)) (d : Wheels Int32) :
    moves deltas ≤ moves (deltas ++ [d]) := by
  unfold moves
  rw [List.countP_append]
  omega

omit hE in
theorem StaysWithin.start (h : StaysWithin R Y (deltas ++ [d])) : StaysWithin R Y deltas :=
  fun p hp => h p (hp.trans (List.prefix_append deltas [d]))

omit hE in
theorem taskOdomAlong_concat (odom : OdomOver Datum)
    (samples : List (OdomSample Datum)) (s : OdomSample Datum) :
    taskOdomAlong E odom (samples ++ [s]) =
      (robotChassisOdomUpdateOver E.arith (taskOdomAlong E odom samples) (some s.countDelta)
        s.dtS (metresPerCount E) (turnGeometryM E)).2 := List.foldl_concat ..

theorem samples_tracked (htrig : Trig E τ) (hτ : 0 ≤ τ ∧ τ ≤ 1) (hregion : R ≤ 2 ^ 40 ∧ Y ≤ 2 ^ 40)
    (he : 0 ≤ e ∧ e ≤ 2 ^ 60) {samples : List (OdomSample Datum)}
    (hdt : ∀ s ∈ samples, finitePositive s.dtS = true)
    (hsmall : ∀ s ∈ samples, SmallDeltas s.countDelta)
    (hwithin : StaysWithin R Y (samples.map (·.countDelta)))
    (hmoves : moves (samples.map (·.countDelta)) ≤ 2 ^ 23)
    (hyaw : yawDrift Y (rolled (samples.map (·.countDelta)))
      (moves (samples.map (·.countDelta))) ≤ e)
    (hposition : positionDrift R τ e (rolled (samples.map (·.countDelta)))
      (moves (samples.map (·.countDelta))) ≤ 2 ^ 100) :
    ∃ x y yaw, Tracked E R Y τ e (samples.map (·.countDelta))
      (taskOdomAlong E (.zero E.arith) samples) x y yaw := by
  induction samples using List.reverseRecOn with
  | nil =>
    have hzero : E.single.round 0 = .finite 0 := by
      have hround := E.single.round_int 0 (by norm_num)
      rwa [Int.cast_zero] at hround
    refine ⟨0, 0, 0, rfl, rfl, rfl, ⟨hzero, hzero, hzero⟩, ?_, ?_, ?_⟩
    · simp [Drift, moves, rolled, componentErrors, truePose, Pose.origin]
    · simp [Drift, moves, rolled, componentErrors, truePose, Pose.origin]
    · simp [Drift, moves, rolled, turnErrors, truePose, Pose.origin]
  | append_singleton samples s ih =>
    rw [List.forall_mem_append] at hdt hsmall
    have hsdt := hdt.2 s (List.mem_singleton_self s)
    have hssmall := hsmall.2 s (List.mem_singleton_self s)
    rw [List.map_append, List.map_cons, List.map_nil] at hwithin hmoves hyaw hposition ⊢
    set deltas := samples.map (·.countDelta)
    have horigin := hwithin [] (List.nil_prefix)
    have hR := nonneg_of_abs_le horigin.1
    have hY := nonneg_of_abs_le horigin.2.2
    have hfewer := moves_le_concat deltas s.countDelta
    have hshorter : rolled deltas ≤ rolled (deltas ++ [s.countDelta]) := by
      have hlast := rolledM_nonneg s.countDelta
      rw [rolled_concat]
      linarith
    obtain ⟨x, y, yaw, htracked⟩ := ih hdt.1 hsmall.1 hwithin.start (hfewer.trans hmoves)
      ((yawDrift_mono hY hshorter hfewer).trans hyaw)
      ((positionDrift_mono hR hτ.1 he.1 hshorter hfewer).trans hposition)
    rw [taskOdomAlong_concat]
    apply update_tracked hE htrig htracked hsdt
    by_cases hstill : ∀ i, s.countDelta i = 0
    · exact .inl hstill
    · right
      have hcount := moves_concat_of_moves deltas (not_forall.mp hstill)
      rw [hcount] at hmoves hyaw hposition
      rw [rolled_concat] at hyaw hposition
      exact ⟨hssmall, hmoves, (hwithin deltas (List.prefix_append ..)).2.2,
        hwithin _ (List.prefix_refl _), hregion, hτ, hyaw, he.2, hposition⟩

/-- Still samples roll nothing, the others at most two kilometres. -/
theorem rolled_le_moves {deltas : List (Wheels Int32)} (hsmall : ∀ d ∈ deltas, SmallDeltas d) :
    rolled deltas ≤ moves deltas * 2 ^ 11 := by
  induction deltas using List.reverseRecOn with
  | nil => simp [rolled, moves]
  | append_singleton deltas d ih =>
    rw [List.forall_mem_append] at hsmall
    have hrest := ih hsmall.1
    by_cases hstill : ∀ i, d i = 0
    · obtain ⟨_, hrolled, hmoves⟩ := concat_of_still deltas hstill
      rwa [hrolled, hmoves]
    · have hcount := moves_concat_of_moves deltas (not_forall.mp hstill)
      have hlast := rolledM_le hE (hsmall.2 d (List.mem_singleton_self d))
      rw [rolled_concat, hcount]
      push_cast
      linarith

/-- What the task computes is finite, and as close to the true pose as the number of moving
samples, the metres rolled, and the bounds on the pose say. -/
theorem path_drift (htrig : Trig E τ) (hτ : τ ≤ 1)
    (hregion : R ≤ 2 ^ 40 ∧ Y ≤ 2 ^ 40) {samples : List (OdomSample Datum)}
    (hdt : ∀ s ∈ samples, finitePositive s.dtS = true)
    (hsmall : ∀ s ∈ samples, SmallDeltas s.countDelta)
    (hwithin : StaysWithin R Y (samples.map (·.countDelta)))
    (hmoves : moves (samples.map (·.countDelta)) ≤ 2 ^ 23) :
    let deltas := samples.map (·.countDelta)
    let odom := taskOdomAlong E (.zero E.arith) samples
    let yawError := yawDrift Y (rolled deltas) (moves deltas)
    let positionError := positionDrift R τ yawError (rolled deltas) (moves deltas)
    ∃ x y yaw : ℚ, odom.xM = .finite x ∧ odom.yM = .finite y ∧ odom.yawRad = .finite yaw ∧
      |(x : ℝ) - (truePose deltas).x| ≤ positionError ∧
      |(y : ℝ) - (truePose deltas).y| ≤ positionError ∧
      |(yaw : ℝ) - (truePose deltas).yaw| ≤ yawError := by
  intro deltas odom yawError positionError
  have hτ₀ : 0 ≤ τ := by
    obtain ⟨_, _, hcos⟩ := htrig.cos 0
    exact nonneg_of_abs_le hcos
  have horigin := hwithin [] List.nil_prefix
  have hR := nonneg_of_abs_le horigin.1
  have hY := nonneg_of_abs_le horigin.2.2
  have hsmall' : ∀ d ∈ deltas, SmallDeltas d := by
    intro d hd
    obtain ⟨s, hs, rfl⟩ := List.mem_map.mp hd
    exact hsmall s hs
  have hn : (moves deltas : ℚ) ≤ 2 ^ 23 := by exact_mod_cast hmoves
  have hW := rolled_nonneg deltas
  have hW' : rolled deltas ≤ 2 ^ 34 := by
    have hmoved := rolled_le_moves hE hsmall'
    linarith
  have hadditionY : additionError Y ≤ 2 ^ 17 := by
    have := hregion.2
    unfold additionError
    linarith
  have hadditionR : additionError R ≤ 2 ^ 17 := by
    have := hregion.1
    unfold additionError
    linarith
  have hproductY : moves deltas * additionError Y ≤ 2 ^ 23 * 2 ^ 17 :=
    mul_le_mul hn hadditionY (additionError_nonneg hY) (by norm_num)
  have hproductR : moves deltas * additionError R ≤ 2 ^ 23 * 2 ^ 17 :=
    mul_le_mul hn hadditionR (additionError_nonneg hR) (by norm_num)
  have hslackY : 0 ≤ turnErrors (rolled deltas) (moves deltas) :=
    add_nonneg (mul_nonneg hW (by norm_num)) (by positivity)
  have hnonnegY : 0 ≤ moves deltas * additionError Y :=
    mul_nonneg (Nat.cast_nonneg _) (additionError_nonneg hY)
  have hyaw : 0 ≤ yawError ∧ yawError ≤ 2 ^ 60 := by
    constructor
    · show 0 ≤ 2 * _
      linarith
    · show 2 * _ ≤ _
      unfold turnErrors
      linarith
  have hslackR : 0 ≤ componentErrors τ yawError (rolled deltas) (moves deltas) := by
    have hfactor : 0 ≤ (τ + yawError) / 2 + 9 / 2 ^ 24 := by linarith
    exact add_nonneg (mul_nonneg hW hfactor) (by positivity)
  have hposition : positionError ≤ 2 ^ 100 := by
    have hfactor : (τ + yawError) / 2 + 9 / 2 ^ 24 ≤ 2 ^ 60 := by linarith
    have hproduct : rolled deltas * ((τ + yawError) / 2 + 9 / 2 ^ 24) ≤ 2 ^ 34 * 2 ^ 60 := by
      apply mul_le_mul hW' hfactor _ (by norm_num)
      linarith
    show 2 * _ ≤ _
    unfold componentErrors
    linarith
  obtain ⟨x, y, yaw, hx, hy, hyawRad, _, hxDrift, hyDrift, hyawDrift⟩ := samples_tracked hE htrig
    ⟨hτ₀, hτ⟩ hregion hyaw hdt hsmall hwithin hmoves le_rfl hposition
  exact ⟨x, y, yaw, hx, hy, hyawRad,
    drift_within hxDrift hmoves hslackR (additionError_nonneg hR),
    drift_within hyDrift hmoves hslackR (additionError_nonneg hR),
    drift_within hyawDrift hmoves hslackY (additionError_nonneg hY)⟩

/-- Every update along such a path is accepted and leaves the odometry finite. -/
theorem path_accepts (htrig : Trig E τ) (hτ : τ ≤ 1) (hregion : R ≤ 2 ^ 40 ∧ Y ≤ 2 ^ 40)
    {before after : List (OdomSample Datum)} {s : OdomSample Datum}
    (hdt : ∀ x ∈ before ++ s :: after, LongEnough x.dtS)
    (hsmall : ∀ x ∈ before ++ s :: after, SmallDeltas x.countDelta)
    (hwithin : StaysWithin R Y ((before ++ s :: after).map (·.countDelta)))
    (hmoves : moves ((before ++ s :: after).map (·.countDelta)) ≤ 2 ^ 23) :
    let update := robotChassisOdomUpdateOver E.arith (taskOdomAlong E (.zero E.arith) before)
      (some s.countDelta) s.dtS (metresPerCount E) (turnGeometryM E)
    update.1 = true ∧ update.2.Finite := by
  have hfinite : ∀ samples, samples <+: before ++ s :: after → ∃ x y yaw : ℚ,
      (taskOdomAlong E (.zero E.arith) samples).xM = .finite x ∧
      (taskOdomAlong E (.zero E.arith) samples).yM = .finite y ∧
      (taskOdomAlong E (.zero E.arith) samples).yawRad = .finite yaw := by
    intro samples hinitial
    have hdeltas := hinitial.map (·.countDelta)
    obtain ⟨x, y, yaw, hx, hy, hyaw, _⟩ := path_drift hE htrig hτ hregion
      (fun x hx => (hdt x (hinitial.subset hx)).positive)
      (fun x hx => hsmall x (hinitial.subset hx)) (fun p hp => hwithin p (hp.trans hdeltas))
      (hdeltas.sublist.countP_le.trans hmoves)
    exact ⟨x, y, yaw, hx, hy, hyaw⟩
  have hs : s ∈ before ++ s :: after := List.mem_append_right _ List.mem_cons_self
  obtain ⟨_, _, _, hx, hy, hyaw⟩ := hfinite before (List.prefix_append _ _)
  obtain ⟨x', y', yaw', hx', hy', hyaw'⟩ := hfinite (before ++ [s]) ⟨after, by simp⟩
  have haccepts := update_accepts hE hx hy hyaw (hdt s hs).positive s.countDelta
  obtain ⟨v, w, hv, hw⟩ := velocities_finite hE (hsmall s hs) (hdt s hs)
    (taskOdomAlong E (.zero E.arith) before)
  rw [taskOdomAlong_concat, haccepts] at hx' hy' hyaw'
  rw [haccepts]
  refine ⟨rfl, x', y', yaw', v, w, ?_⟩
  rw [← hx', ← hy', ← hyaw', ← hv, ← hw]

end

end RobotFirmware.Chassis
