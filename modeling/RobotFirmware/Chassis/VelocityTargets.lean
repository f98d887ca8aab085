import RobotFirmware.Library.CommonScale
import RobotFirmware.Chassis.RemoteQueue

/-! The conversion of a velocity command to wheel targets: the values it rounds, what they are
in exact arithmetic, and what becomes of them when an intermediate result leaves the range of
`float`. -/
namespace RobotFirmware.Chassis
open Fp

/-- The counts of the two sides before they are limited. -/
structure SideCounts where
  left : Datum
  right : Datum

/-- `left_counts` and `right_counts` at their declarations. -/
def requestedCounts (E : Env)
    (linearXMps angularZRadps turnGeometryM countsPerMetrePerStep : Datum) : SideCounts where
  left := Datum.mul E.single
    (Datum.sub E.single linearXMps (Datum.mul E.single angularZRadps turnGeometryM))
    countsPerMetrePerStep
  right := Datum.mul E.single
    (Datum.add E.single linearXMps (Datum.mul E.single angularZRadps turnGeometryM))
    countsPerMetrePerStep

def peakCounts (counts : SideCounts) : Datum := Datum.fmax counts.left.abs counts.right.abs

def countsLimited (E : Env) (counts : SideCounts) (maxTargetCounts : Int32) : Bool :=
  Datum.lt (E.ofInt maxTargetCounts) (peakCounts counts)

def roundedCounts (E : Env) (counts : SideCounts) (maxTargetCounts : Int32) : SideCounts :=
  let scale := Datum.div E.single (E.ofInt maxTargetCounts) (peakCounts counts)
  if countsLimited E counts maxTargetCounts then
    ⟨Datum.mul E.single counts.left scale, Datum.mul E.single counts.right scale⟩
  else counts

theorem twistToTargets_eq (E : Env) {v w g k : ℚ} {maxTargetCounts : Int32} (hg : 0 < g)
    (hk : 0 < k) (hm : 0 < maxTargetCounts.toInt) :
    robotChassisCoreTwistToTargets E (.finite v) (.finite w) (.finite g) (.finite k)
        maxTargetCounts =
      let counts := requestedCounts E (.finite v) (.finite w) (.finite g) (.finite k)
      let rounded := roundedCounts E counts maxTargetCounts
      some (fun i => if i < 2 then E.lroundf rounded.left else E.lroundf rounded.right,
        countsLimited E counts maxTargetCounts) := by
  have hg' : ¬ g ≤ 0 := not_le.mpr hg
  have hk' : ¬ k ≤ 0 := not_le.mpr hk
  have hm' : 0 < maxTargetCounts := Int32.lt_iff_toInt_lt.mpr hm
  unfold robotChassisCoreTwistToTargets
  rw [if_pos (by simp [finitePositive, hg', hk', hm'])]
  unfold roundedCounts countsLimited peakCounts requestedCounts
  dsimp only
  split_ifs <;> rfl

theorem ofInt_exact {E : Env} (hE : E.single.ExactInRange) (n : Int32) :
    E.ofInt n = .finite n.toInt := by
  apply hE
  have hlo := Int32.le_toInt n
  have hhi := Int32.toInt_lt n
  have habs : |n.toInt| ≤ 2 ^ 31 := abs_le.mpr ⟨by omega, by omega⟩
  have habs' : |(n.toInt : ℚ)| ≤ 2 ^ 31 := by exact_mod_cast habs
  exact habs'.trans (two_pow_le_singleMax (by norm_num))

/-- Finite counts are limited by the common factor; the peak never overflows the scale. -/
theorem roundedCounts_finite {E : Env} (hE : E.single.ExactInRange) {l r : ℚ} {m : Int32}
    (hm : 0 < m.toInt) :
    roundedCounts E ⟨.finite l, .finite r⟩ m =
        ⟨.finite (Limit.factor (m.toInt : ℚ) (max |l| |r|) * l),
          .finite (Limit.factor (m.toInt : ℚ) (max |l| |r|) * r)⟩ ∧
      countsLimited E ⟨.finite l, .finite r⟩ m = decide ((m.toInt : ℚ) < max |l| |r|) := by
  have hpeak : peakCounts ⟨.finite l, .finite r⟩ = .finite (max |l| |r|) := by
    simp [peakCounts]
  have hlimited : countsLimited E ⟨.finite l, .finite r⟩ m =
      decide ((m.toInt : ℚ) < max |l| |r|) := by
    rw [countsLimited, hpeak, ofInt_exact hE, Datum.lt_finite]
  refine ⟨?_, hlimited⟩
  have hm' : (0 : ℚ) < m.toInt := by exact_mod_cast hm
  unfold roundedCounts
  rw [hlimited, hpeak, ofInt_exact hE]
  by_cases hp : (m.toInt : ℚ) < max |l| |r|
  · have hpos : 0 < max |l| |r| := hm'.trans hp
    have hm31 : (m.toInt : ℚ) ≤ 2 ^ 31 := by exact_mod_cast (Int32.toInt_lt m).le
    have hmax : (m.toInt : ℚ) ≤ singleMax := hm31.trans (two_pow_le_singleMax (by norm_num))
    have hscale : |(m.toInt : ℚ) / (max |l| |r|)| ≤ singleMax := by
      rw [abs_of_pos (div_pos hm' hpos)]
      have hone : (m.toInt : ℚ) / (max |l| |r|) ≤ 1 := (div_le_one hpos).mpr hp.le
      exact hone.trans (two_pow_le_singleMax (k := 0) (by norm_num))
    have hbound : ∀ x, |x| ≤ max |l| |r| → |x * ((m.toInt : ℚ) / (max |l| |r|))| ≤ singleMax := by
      intro x hx
      have hle := Limit.abs_factor_mul_le hm' hx
      rw [Limit.factor_of_lt hp, mul_comm] at hle
      exact hle.trans hmax
    rw [Datum.div_finite _ _ hpos.ne', hE _ hscale, Limit.factor_of_lt hp]
    simp only [hp, decide_true, if_true, Datum.mul_finite]
    rw [hE _ (hbound l (le_max_left _ _)), hE _ (hbound r (le_max_right _ _)), mul_comm l,
      mul_comm r]
  · rw [Limit.factor_of_le (not_lt.mp hp)]
    simp only [hp, decide_false, Bool.false_eq_true, if_false, one_mul]

def SideInRange (v p k : ℚ) : Prop :=
  |p| ≤ singleMax ∧ |v + p| ≤ singleMax ∧ |(v + p) * k| ≤ singleMax

/-- A side is computed exactly, or one of its results overflows and the side is infinite. -/
theorem side_cases {v p k : ℚ} (hk : 0 < k) :
    (SideInRange v p k ∧
      Datum.mul .exactSingle (Datum.add .exactSingle (.finite v) (Format.exactSingle.round p))
        (.finite k) = .finite ((v + p) * k)) ∨
    (¬ SideInRange v p k ∧ ∃ s,
      Datum.mul .exactSingle (Datum.add .exactSingle (.finite v) (Format.exactSingle.round p))
        (.finite k) = .inf s) := by
  have hinf : ∀ s, Datum.mul .exactSingle (.inf s) (.finite k) = .inf (s ^^ decide (k < 0)) :=
    fun s => if_neg hk.ne'
  by_cases hp : |p| ≤ singleMax
  · rw [Format.exactSingle_of_le hp, Datum.add_finite]
    by_cases hvp : |v + p| ≤ singleMax
    · rw [Format.exactSingle_of_le hvp, Datum.mul_finite]
      by_cases hvpk : |(v + p) * k| ≤ singleMax
      · exact .inl ⟨⟨hp, hvp, hvpk⟩, Format.exactSingle_of_le hvpk⟩
      · exact .inr ⟨fun h => hvpk h.2.2, _, Format.exactSingle_of_lt (not_le.mp hvpk)⟩
    · rw [Format.exactSingle_of_lt (not_le.mp hvp), hinf]
      exact .inr ⟨fun h => hvp h.2.1, _, rfl⟩
  · rw [Format.exactSingle_of_lt (not_le.mp hp)]
    exact .inr ⟨fun h => hp h.1, _, hinf _⟩

theorem exactSingle_neg (p : ℚ) :
    (Format.exactSingle.round p).neg = Format.exactSingle.round (-p) := by
  by_cases hp : |p| ≤ singleMax
  · have hn : |-p| ≤ singleMax := (abs_neg p).trans_le hp
    rw [Format.exactSingle_of_le hp, Format.exactSingle_of_le hn, Datum.neg_finite]
  · have hn : singleMax < |-p| := (not_le.mp hp).trans_eq (abs_neg p).symm
    rw [Format.exactSingle_of_lt (not_le.mp hp), Format.exactSingle_of_lt hn]
    have hzero : p ≠ 0 := by
      intro h
      rw [h, abs_zero] at hp
      exact hp (by norm_num [singleMax])
    rcases lt_or_gt_of_ne hzero with h | h
    · simp [Datum.neg, h, h.le]
    · simp [Datum.neg, h, h.le]

theorem requestedCounts_ranged {E : Env} (hE : E.single = .exactSingle) (v w g k : ℚ) :
    requestedCounts E (.finite v) (.finite w) (.finite g) (.finite k) =
      ⟨Datum.mul .exactSingle
          (Datum.add .exactSingle (.finite v) (Format.exactSingle.round (-(w * g)))) (.finite k),
        Datum.mul .exactSingle
          (Datum.add .exactSingle (.finite v) (Format.exactSingle.round (w * g))) (.finite k)⟩ := by
  unfold requestedCounts Datum.sub
  rw [hE, Datum.mul_finite, exactSingle_neg]

/-- An infinite side makes the scale zero, and zero times that side is no number. -/
theorem roundedCounts_of_inf {E : Env} (hE : E.single.ExactInRange) {counts : SideCounts}
    {m : Int32} {s : Bool} (hi : counts.left = .inf s ∨ counts.right = .inf s) :
    ¬ ((roundedCounts E counts m).left.isFinite = true ∧
      (roundedCounts E counts m).right.isFinite = true) := by
  have hpeak : peakCounts counts = .inf false := by
    unfold peakCounts
    rcases hi with hi | hi
    · rw [hi]
      cases counts.right <;> rfl
    · rw [hi]
      cases counts.left <;> rfl
  have hlimited : countsLimited E counts m = true := by
    rw [countsLimited, hpeak, ofInt_exact hE]
    rfl
  have hzero : ∀ t, Datum.mul E.single (.inf t) (.finite 0) = .nan := by
    intro t
    simp [Datum.mul]
  intro hboth
  unfold roundedCounts at hboth
  rw [hlimited, hpeak, ofInt_exact hE] at hboth
  obtain ⟨hl, hr⟩ := hboth
  change (Datum.mul E.single counts.left (.finite 0)).isFinite = true at hl
  change (Datum.mul E.single counts.right (.finite 0)).isFinite = true at hr
  rcases hi with hi | hi
  · rw [hi, hzero] at hl
    cases hl
  · rw [hi, hzero] at hr
    cases hr

/-- The larger side is the sum of the magnitudes. -/
theorem max_abs_sides (v p : ℚ) : max |v + -p| |v + p| = |v| + |p| := by
  rcases abs_cases v with ⟨hv, _⟩ | ⟨hv, _⟩ <;> rcases abs_cases p with ⟨hp, _⟩ | ⟨hp, _⟩ <;>
    rcases abs_cases (v + -p) with ⟨ha, _⟩ | ⟨ha, _⟩ <;>
    rcases abs_cases (v + p) with ⟨hb, _⟩ | ⟨hb, _⟩ <;>
    rw [hv, hp, ha, hb] <;> rw [max_def] <;> split_ifs <;> linarith

/-- Both sides stay in range exactly when the sum of the magnitudes does, before and after the
conversion to counts. -/
theorem sides_inRange_iff {v w g k : ℚ} (hg : 0 < g) (hk : 0 < k) :
    SideInRange v (-(w * g)) k ∧ SideInRange v (w * g) k ↔
      |v| + |w| * g ≤ singleMax ∧ (|v| + |w| * g) * k ≤ singleMax := by
  have hp : |w| * g = |w * g| := by rw [abs_mul, abs_of_pos hg]
  rw [hp, ← max_abs_sides]
  have hturn : |w * g| ≤ max |v + -(w * g)| |v + w * g| := by
    rw [max_abs_sides]
    exact le_add_of_nonneg_left (abs_nonneg v)
  have hleft : ∀ x : ℚ, |x * k| = |x| * k := fun x => by rw [abs_mul, abs_of_pos hk]
  have hmax : max |v + -(w * g)| |v + w * g| * k =
      max (|v + -(w * g)| * k) (|v + w * g| * k) := max_mul_of_nonneg _ _ hk.le
  unfold SideInRange
  rw [abs_neg, hleft, hleft, hmax, max_le_iff, max_le_iff]
  constructor
  · intro h
    obtain ⟨⟨_, hl, hlk⟩, _, hr, hrk⟩ := h
    exact ⟨⟨hl, hr⟩, hlk, hrk⟩
  · intro h
    obtain ⟨⟨hl, hr⟩, hlk, hrk⟩ := h
    have hturn' : |w * g| ≤ singleMax := hturn.trans (max_le hl hr)
    exact ⟨⟨hturn', hl, hlk⟩, hturn', hr, hrk⟩

/-- What the conversion owes its caller: it refuses, or it rounds finite values only, to targets
within the limit. -/
def ConversionSafe (E : Env) (v w g k : Datum) (m : Int32) : Prop :=
  ∀ targets limited, robotChassisCoreTwistToTargets E v w g k m = some (targets, limited) →
    (roundedCounts E (requestedCounts E v w g k) m).left.isFinite = true ∧
      (roundedCounts E (requestedCounts E v w g k) m).right.isFinite = true ∧
      ∀ i, |(targets i).toInt| ≤ m.toInt

/-- The targets of finite counts are the limited counts, rounded within the limit. -/
theorem targets_of_finite {E : Env} (hE : E.single.ExactInRange) {v w g k l r : ℚ} {m : Int32}
    (hg : 0 < g) (hk : 0 < k) (hm : 0 < m.toInt)
    (hc : requestedCounts E (.finite v) (.finite w) (.finite g) (.finite k) =
      ⟨.finite l, .finite r⟩) :
    ∃ targets, robotChassisCoreTwistToTargets E (.finite v) (.finite w) (.finite g) (.finite k) m =
        some (targets, decide ((m.toInt : ℚ) < max |l| |r|)) ∧
      ∀ i, (targets i).toInt =
          roundAway (Limit.factor (m.toInt : ℚ) (max |l| |r|) * if i.val < 2 then l else r) ∧
        |(targets i).toInt| ≤ m.toInt := by
  obtain ⟨hrounded, hlimited⟩ := roundedCounts_finite hE hm (l := l) (r := r)
  have hm' : (0 : ℚ) < m.toInt := by exact_mod_cast hm
  have hside : ∀ x, |x| ≤ max |l| |r| →
      (E.lroundf (.finite (Limit.factor (m.toInt : ℚ) (max |l| |r|) * x))).toInt =
        roundAway (Limit.factor (m.toInt : ℚ) (max |l| |r|) * x) ∧
      |roundAway (Limit.factor (m.toInt : ℚ) (max |l| |r|) * x)| ≤ m.toInt := by
    intro x hx
    obtain ⟨hlo, hhi⟩ := abs_le.mp (Limit.abs_factor_mul_le hm' hx)
    exact ⟨E.lroundf_finite (Int32.toInt_lt m) hlo hhi, abs_roundAway_le hlo hhi⟩
  have htwist := twistToTargets_eq E (v := v) (w := w) hg hk hm
  dsimp only at htwist
  rw [hc, hrounded, hlimited] at htwist
  refine ⟨_, htwist, ?_⟩
  intro i
  dsimp only
  by_cases hi : i.val < 2
  · obtain ⟨hround, hbound⟩ := hside l (le_max_left _ _)
    have hi' : i < 2 := hi
    rw [if_pos hi', if_pos hi, hround]
    exact ⟨rfl, hbound⟩
  · obtain ⟨hround, hbound⟩ := hside r (le_max_right _ _)
    have hi' : ¬ i < 2 := hi
    rw [if_neg hi', if_neg hi, hround]
    exact ⟨rfl, hbound⟩

/-- The conversion is safe exactly when no intermediate count overflows. -/
theorem conversion_safe_iff {E : Env} (hE : E.single = .exactSingle) {v w g k : ℚ} {m : Int32}
    (hg : 0 < g) (hk : 0 < k) (hm : 0 < m.toInt) :
    ConversionSafe E (.finite v) (.finite w) (.finite g) (.finite k) m ↔
      |v| + |w| * g ≤ singleMax ∧ (|v| + |w| * g) * k ≤ singleMax := by
  have hE' : E.single.ExactInRange := by
    rw [hE]
    exact Format.exactSingle_exactInRange
  rw [← sides_inRange_iff hg hk]
  have hcounts := requestedCounts_ranged hE v w g k
  have hsome := twistToTargets_eq E (v := v) (w := w) hg hk hm
  rcases side_cases (v := v) (p := -(w * g)) hk with ⟨hl, hleft⟩ | ⟨hl, s, hleft⟩
  · rcases side_cases (v := v) (p := w * g) hk with ⟨hr, hright⟩ | ⟨hr, s, hright⟩
    · rw [hleft, hright] at hcounts
      refine ⟨fun _ => ⟨hl, hr⟩, fun _ => ?_⟩
      obtain ⟨targets, htwist, htargets⟩ := targets_of_finite hE' hg hk hm hcounts
      intro targets' limited htwist'
      rw [htwist] at htwist'
      cases htwist'
      rw [hcounts, (roundedCounts_finite hE' hm).1]
      exact ⟨rfl, rfl, fun i => (htargets i).2⟩
    · refine ⟨fun h => ?_, fun h => absurd h.2 hr⟩
      obtain ⟨hfl, hfr, _⟩ := h _ _ hsome
      rw [hright] at hcounts
      exact absurd ⟨hfl, hfr⟩ (roundedCounts_of_inf hE' (s := s) (.inr (by rw [hcounts])))
  · refine ⟨fun h => ?_, fun h => absurd h.1 hl⟩
    obtain ⟨hfl, hfr, _⟩ := h _ _ hsome
    rw [hleft] at hcounts
    exact absurd ⟨hfl, hfr⟩ (roundedCounts_of_inf hE' (s := s) (.inl (by rw [hcounts])))

/-- One metre per second with the parameters of the firmware. -/
theorem conversion_safe_iff_metre :
    ConversionSafe .ranged (.finite 1) (.finite 0) (turnGeometryM .ranged)
      (countsPerMetrePerStep .ranged) 20 := by
  have hg : turnGeometryM .ranged = .finite (115 / 1000) := by decide +kernel
  have hk : countsPerMetrePerStep .ranged = .finite (26000 / 377) := by decide +kernel
  rw [hg, hk]
  exact (conversion_safe_iff rfl (by norm_num) (by norm_num) (by decide)).mpr
    ⟨by norm_num [singleMax], by norm_num [singleMax]⟩

/-- A velocity command that the callback accepts and whose counts overflow. -/
theorem conversion_overflows :
    supportedTwistIsValid .ranged (some ⟨fun i => .finite (if i.val = 0 then 10 ^ 37 else 0),
      fun _ => .finite 0⟩) = true ∧
    ¬ ConversionSafe .ranged (.finite (10 ^ 37)) (.finite 0) (turnGeometryM .ranged)
      (countsPerMetrePerStep .ranged) 20 := by
  refine ⟨by decide +kernel, ?_⟩
  intro hsafe
  have hsome : (robotChassisCoreTwistToTargets .ranged (.finite (10 ^ 37)) (.finite 0)
      (turnGeometryM .ranged) (countsPerMetrePerStep .ranged) 20).isSome = true := by
    decide +kernel
  obtain ⟨⟨targets, limited⟩, htwist⟩ := Option.isSome_iff_exists.mp hsome
  have hnan : (roundedCounts .ranged (requestedCounts .ranged (.finite (10 ^ 37)) (.finite 0)
      (turnGeometryM .ranged) (countsPerMetrePerStep .ranged)) 20).left = .nan := by
    decide +kernel
  obtain ⟨hleft, _⟩ := hsafe targets limited htwist
  rw [hnan] at hleft
  cases hleft

end RobotFirmware.Chassis
