import RobotFirmware.Library.CommonScale
import RobotFirmware.Drive.Core
import Mathlib.Tactic.FinCases
import Mathlib.Tactic.NormNum
import Mathlib.Tactic.GCongr

/-! The target computation on the output struct of its caller, for every argument: when it
succeeds, what it leaves behind when it does not, and the targets of a success. -/
namespace RobotFirmware.Drive
open Fp

/-- `robot_drive_core_zero_output` on the struct its argument points to. -/
def robotDriveCoreZeroOutputAt (output : CoreOutput) : CoreOutput where
  targetMps := (List.finRange 4).foldl
    (fun targets wheel => Function.update targets wheel (.finite 0)) output.targetMps
  limited := false

/-- `robot_drive_core_compute_targets` on an output struct with the given content. -/
def robotDriveCoreComputeTargetsAt (E : Env) (config : Option CoreConfig)
    (input : Option CoreInput) (output : CoreOutput) : CoreStatus × CoreOutput :=
  let output := robotDriveCoreZeroOutputAt output
  match config with
  | none => (.invalidArgument, output)
  | some config =>
    if input.isNone then (.invalidArgument, output)
    else if !config.turnGeometryM.isFinite || Datum.le config.turnGeometryM (.finite 0) ||
        !config.maxTargetMps.isFinite || Datum.le config.maxTargetMps (.finite 0) then
      (.invalidConfig, output)
    else
      let kinematics := robotDriveKinematicsCompute E input config.turnGeometryM output
      let output := kinematics.2
      if kinematics.1 ≠ .ok then (kinematics.1, robotDriveCoreZeroOutputAt output)
      else
        let peak := peakTarget output
        if !peak.isFinite then (.numericError, robotDriveCoreZeroOutputAt output)
        else if Datum.lt config.maxTargetMps peak then
          let scale := Datum.div E.single config.maxTargetMps peak
          if !scale.isFinite || Datum.le scale (.finite 0) then
            (.numericError, robotDriveCoreZeroOutputAt output)
          else
            (.ok, { targetMps := fun wheel => Datum.mul E.single (output.targetMps wheel) scale
                    limited := true })
        else (.ok, output)

theorem robotDriveCoreZeroOutputAt_eq (output : CoreOutput) :
    robotDriveCoreZeroOutputAt output = robotDriveCoreZeroOutput := by
  unfold robotDriveCoreZeroOutputAt robotDriveCoreZeroOutput
  congr 1
  funext wheel
  fin_cases wheel <;> rfl

/-- The call writes its whole output: what was there before does not matter. -/
theorem robotDriveCoreComputeTargetsAt_eq (E : Env) (config : Option CoreConfig)
    (input : Option CoreInput) (output : CoreOutput) :
    robotDriveCoreComputeTargetsAt E config input output =
      robotDriveCoreComputeTargets E config input := by
  unfold robotDriveCoreComputeTargetsAt robotDriveCoreComputeTargets
  cases config with
  | none => simp only [robotDriveCoreZeroOutputAt_eq]
  | some config => simp only [robotDriveCoreZeroOutputAt_eq]

/-- A test of the source passes for finite positive values only. -/
theorem finite_pos_of_test {x : Datum} (hf : x.isFinite = true)
    (hl : Datum.le x (.finite 0) = false) : ∃ q, x = .finite q ∧ 0 < q := by
  cases x with
  | finite q => exact ⟨q, rfl, by simpa using hl⟩
  | inf negative => cases hf
  | nan => cases hf

theorem finite_of_test {x : Datum} (hf : x.isFinite = true) : ∃ q, x = .finite q := by
  cases x with
  | finite q => exact ⟨q, rfl⟩
  | inf negative => cases hf
  | nan => cases hf

theorem finite_of_kinematics_ok {E : Env} {input : CoreInput} {g : Datum} {output : CoreOutput}
    (hok : (robotDriveKinematicsCompute E (some input) g output).1 = .ok) :
    input.linearXMps.isFinite = true ∧ input.angularZRadps.isFinite = true := by
  unfold robotDriveKinematicsCompute at hok
  dsimp only at hok
  split_ifs at hok with hfinite
  all_goals
    rw [Bool.or_eq_true, not_or, Bool.not_eq_true', Bool.not_eq_true', Bool.not_eq_false,
      Bool.not_eq_false] at hfinite
    exact hfinite

theorem tests_of_ok {E : Env} {config : CoreConfig} {input : CoreInput}
    (hok : (robotDriveCoreComputeTargets E (some config) (some input)).1 = .ok) :
    (∃ g, config.turnGeometryM = .finite g ∧ 0 < g) ∧
      (∃ m, config.maxTargetMps = .finite m ∧ 0 < m) ∧
      (robotDriveKinematicsCompute E (some input) config.turnGeometryM
        robotDriveCoreZeroOutput).1 = .ok := by
  unfold robotDriveCoreComputeTargets at hok
  dsimp only at hok
  split_ifs at hok with hinput hconfig hkinematics
  · exact absurd hok hkinematics
  all_goals
    simp only [Bool.or_eq_true, Bool.not_eq_true', not_or, Bool.not_eq_true,
      Bool.not_eq_false] at hconfig
    obtain ⟨⟨⟨hgf, hg⟩, hmf⟩, hm⟩ := hconfig
    exact ⟨finite_pos_of_test hgf hg, finite_pos_of_test hmf hm, not_not.mp hkinematics⟩

theorem computeTargets_zero (E : Env) {config : Option CoreConfig} {input : Option CoreInput}
    (hn : (robotDriveCoreComputeTargets E config input).1 ≠ .ok) :
    (robotDriveCoreComputeTargets E config input).2 = robotDriveCoreZeroOutput := by
  unfold robotDriveCoreComputeTargets at hn ⊢
  cases config with
  | none => rfl
  | some config =>
    dsimp only at hn ⊢
    split_ifs at hn ⊢ with h1 h2 h3 h4 h5 h6
    all_goals first | rfl | exact absurd rfl hn

/-- A wheel target of the command is beyond `FLT_MAX`. -/
def WheelOverflows (E : Env) (input : CoreInput) (turnGeometryM : Datum) : Prop :=
  let turn := Datum.mul E.double input.angularZRadps turnGeometryM
  ¬ (Datum.le (Datum.sub E.double input.linearXMps turn).abs fltMax = true ∧
    Datum.le (Datum.add E.double input.linearXMps turn).abs fltMax = true)

theorem le_fltMax_iff {x : Datum} : Datum.le x.abs fltMax = true ↔
    ¬ ((!x.isFinite) = true ∨ Datum.lt fltMax x.abs = true) := by
  cases x <;> simp [fltMax, Datum.abs, Datum.le, Datum.lt, Datum.isFinite]

theorem kinematics_ok_iff {E : Env} {input : CoreInput} {g : ℚ} (hg : 0 < g)
    (hv : input.linearXMps.isFinite = true) (hw : input.angularZRadps.isFinite = true)
    (output : CoreOutput) :
    (robotDriveKinematicsCompute E (some input) (.finite g) output).1 = .ok ↔
      ¬ WheelOverflows E input (.finite g) := by
  have hg' : ¬ g ≤ 0 := not_le.mpr hg
  unfold robotDriveKinematicsCompute WheelOverflows
  simp only [hv, hw, le_fltMax_iff, Datum.isFinite_finite, Datum.le_finite, hg', Bool.not_true,
    Bool.or_self, Bool.false_eq_true, if_false, decide_false, Bool.or_eq_true, not_not]
  split_ifs with h
  · simp only [false_iff, not_and, not_not]
    tauto
  · simp only [true_iff]
    tauto

theorem finite_of_le_fltMax {x : Datum} (hx : Datum.le x.abs fltMax = true) :
    ∃ q, x = .finite q ∧ |q| ≤ singleMax := by
  cases x with
  | finite q => exact ⟨q, rfl, by simpa [fltMax, singleMax] using hx⟩
  | inf negative => cases hx
  | nan => cases hx

theorem toSingle_finite {E : Env} (hE : E.single.SingleLaws) {x : Datum}
    (hx : Datum.le x.abs fltMax = true) : ∃ q, E.toSingle x = .finite q ∧ |q| ≤ singleMax := by
  obtain ⟨q, rfl, hq⟩ := finite_of_le_fltMax hx
  exact hE.inRange q hq

theorem peakTarget_finite {output : CoreOutput}
    (ht : ∀ wheel, ∃ q, output.targetMps wheel = .finite q ∧ |q| ≤ singleMax) :
    ∃ p, peakTarget output = .finite p ∧ p ≤ singleMax := by
  have hfold : ∀ (wheels : List Wheel) (p : ℚ), p ≤ singleMax → ∃ p',
      wheels.foldl (fun peak wheel => Datum.fmax peak (output.targetMps wheel).abs)
        (.finite p) = .finite p' ∧ p' ≤ singleMax := by
    intro wheels
    induction wheels with
    | nil => exact fun p hp => ⟨p, rfl, hp⟩
    | cons wheel wheels ih =>
      intro p hp
      obtain ⟨q, hq, hle⟩ := ht wheel
      rw [List.foldl_cons, hq, Datum.abs_finite, Datum.fmax_finite]
      exact ih _ (max_le hp hle)
  exact hfold _ 0 (by norm_num [singleMax])

/-- With a limit that is not tiny, the range test of the wheels is the only one that a finite
command can fail. -/
theorem computeTargets_ok_iff {E : Env} (hE : E.single.SingleLaws) {input : CoreInput}
    {g m : ℚ} (hg : 0 < g) (hm : 1 / 2 ^ 10 ≤ m) (hv : input.linearXMps.isFinite = true)
    (hw : input.angularZRadps.isFinite = true) :
    (robotDriveCoreComputeTargets E (some ⟨.finite g, .finite m⟩) (some input)).1 = .ok ↔
      ¬ WheelOverflows E input (.finite g) := by
  have hmpos : 0 < m := lt_of_lt_of_le (by norm_num) hm
  have hkinematics := kinematics_ok_iff (E := E) hg hv hw robotDriveCoreZeroOutput
  constructor
  · intro hok
    obtain ⟨_, _, hk⟩ := tests_of_ok hok
    exact hkinematics.mp hk
  · intro hin
    have hk := hkinematics.mpr hin
    unfold WheelOverflows at hin
    obtain ⟨hleft, hright⟩ := not_not.mp hin
    have houtput : ∀ wheel, ∃ q, (robotDriveKinematicsCompute E (some input) (.finite g)
        robotDriveCoreZeroOutput).2.targetMps wheel = .finite q ∧ |q| ≤ singleMax := by
      intro wheel
      unfold robotDriveKinematicsCompute at hk ⊢
      dsimp only at hk ⊢
      split_ifs at hk ⊢
      dsimp only
      split_ifs
      · exact toSingle_finite hE hleft
      · exact toSingle_finite hE hright
    obtain ⟨p, hp, hle⟩ := peakTarget_finite houtput
    have hg' : ¬ g ≤ 0 := not_le.mpr hg
    have hm' : ¬ m ≤ 0 := not_le.mpr hmpos
    unfold robotDriveCoreComputeTargets
    simp only [hk, hp, Datum.isFinite_finite, Datum.le_finite, hg', hm', Datum.lt_finite,
      Option.isNone_some, Bool.not_true, Bool.or_false, Bool.false_eq_true, decide_false,
      if_false, ne_eq, not_true_eq_false, decide_eq_true_eq]
    by_cases hlt : m < p
    · have hpos : 0 < p := hmpos.trans hlt
      have hone : m / p ≤ 1 := (div_le_one hpos).mpr hlt.le
      have hscale : |m / p| ≤ singleMax := by
        rw [abs_of_pos (div_pos hmpos hpos)]
        exact hone.trans (two_pow_le_singleMax (k := 0) (by norm_num))
      obtain ⟨r, hr, _⟩ := hE.inRange _ hscale
      -- the quotient of a thousandth and the largest float is still a normal number
      have hlow : 1 / 2 ^ 138 ≤ m / p := by
        rw [le_div_iff₀ hpos]
        calc 1 / 2 ^ 138 * p ≤ 1 / 2 ^ 138 * singleMax := by gcongr
          _ ≤ 1 / 2 ^ 10 := by norm_num [singleMax]
          _ ≤ m := hm
      have hrpos : 0 < r := lt_of_lt_of_le (by norm_num) (hE.keeps _ r 138 (by norm_num) hlow hr)
      have hr' : ¬ r ≤ 0 := not_le.mpr hrpos
      rw [if_pos hlt, Datum.div_finite _ _ hpos.ne', hr]
      simp [hr']
    · rw [if_neg hlt]

def wheelSpeed (v w g : ℚ) (wheel : Wheel) : ℚ := if wheel.val < 2 then v - w * g else v + w * g

/-- The larger magnitude of the two sides. -/
def peakSpeed (v w g : ℚ) : ℚ := max |v - w * g| |v + w * g|

theorem abs_wheelSpeed_le (v w g : ℚ) (wheel : Wheel) :
    |wheelSpeed v w g wheel| ≤ peakSpeed v w g := by
  unfold wheelSpeed peakSpeed
  split_ifs
  · exact le_max_left _ _
  · exact le_max_right _ _

/-- The arguments are there with the given finite values, and each side stays within
`FLT_MAX`. -/
structure Accepts (config : Option CoreConfig) (input : Option CoreInput) (v w g m : ℚ) :
    Prop where
  config : config = some ⟨.finite g, .finite m⟩
  input : input = some ⟨.finite v, .finite w⟩
  turn : 0 < g
  limit : 0 < m
  left : |v - w * g| ≤ 2 ^ 128 - 2 ^ 104
  right : |v + w * g| ≤ 2 ^ 128 - 2 ^ 104

def limitedOutput (v w g m : ℚ) : CoreOutput where
  targetMps := fun wheel =>
    .finite (Limit.factor m (peakSpeed v w g) * wheelSpeed v w g wheel)
  limited := decide (m < peakSpeed v w g)

theorem kinematics_exact {E : Env} (hE : E.Exact) {v w g : ℚ} (hg : 0 < g)
    (output : CoreOutput) :
    robotDriveKinematicsCompute E (some ⟨.finite v, .finite w⟩) (.finite g) output =
      if |v - w * g| ≤ 2 ^ 128 - 2 ^ 104 ∧ |v + w * g| ≤ 2 ^ 128 - 2 ^ 104 then
        (.ok, { output with targetMps := fun wheel => .finite (wheelSpeed v w g wheel) })
      else (.numericError, output) := by
  obtain ⟨hs, hd⟩ := hE
  have hg' : ¬ g ≤ 0 := not_le.mpr hg
  have hspeed : (fun wheel : Wheel => if wheel.val < 2 then E.toSingle (.finite (v - w * g))
      else E.toSingle (.finite (v + w * g))) = fun wheel => .finite (wheelSpeed v w g wheel) := by
    funext wheel
    unfold wheelSpeed Env.toSingle
    rw [hs]
    split_ifs <;> rfl
  unfold robotDriveKinematicsCompute fltMax
  simp only [hd, Datum.isFinite_finite, Datum.le_finite, hg', Datum.mul_finite,
    Format.exact_round, Datum.sub_finite, Datum.add_finite, Datum.abs_finite, Datum.lt_finite,
    hspeed]
  simp only [Bool.not_true, Bool.or_false, Bool.false_eq_true, if_false, Bool.false_or,
    decide_false, Bool.or_eq_true, decide_eq_true_eq]
  by_cases hin : |v - w * g| ≤ 2 ^ 128 - 2 ^ 104 ∧ |v + w * g| ≤ 2 ^ 128 - 2 ^ 104
  · rw [if_pos hin, if_neg (by rw [not_or, not_lt, not_lt]; exact hin)]
  · rw [if_neg hin, if_pos (by rw [← not_le, ← not_le, ← not_and_or]; exact hin)]

theorem peakTarget_exact (v w g : ℚ) (limited : Bool) :
    peakTarget ⟨fun wheel => .finite (wheelSpeed v w g wheel), limited⟩ =
      .finite (peakSpeed v w g) := by
  have hwheels : List.finRange 4 = [0, 1, 2, 3] := rfl
  unfold peakTarget
  simp only [hwheels, List.foldl_cons, List.foldl_nil, Datum.abs_finite, Datum.fmax_finite]
  simp [wheelSpeed, peakSpeed]

theorem computeTargets_of_accepts {E : Env} (hE : E.Exact) {config : Option CoreConfig}
    {input : Option CoreInput} {v w g m : ℚ} (ha : Accepts config input v w g m) :
    robotDriveCoreComputeTargets E config input = (.ok, limitedOutput v w g m) := by
  obtain ⟨rfl, rfl, hg, hm, hleft, hright⟩ := ha
  have hg' : ¬ g ≤ 0 := not_le.mpr hg
  have hm' : ¬ m ≤ 0 := not_le.mpr hm
  have hk := kinematics_exact hE (v := v) (w := w) hg robotDriveCoreZeroOutput
  rw [if_pos ⟨hleft, hright⟩] at hk
  unfold robotDriveCoreComputeTargets limitedOutput
  simp only [hk, peakTarget_exact, hE.1, Datum.isFinite_finite, Datum.le_finite, hg', hm',
    Datum.lt_finite, Option.isNone_some, Bool.not_true, Bool.or_false, Bool.false_eq_true,
    decide_false, if_false, ne_eq, not_true_eq_false, decide_eq_true_eq]
  by_cases hp : m < peakSpeed v w g
  · have hpos : 0 < peakSpeed v w g := hm.trans hp
    have hscale : ¬ m / peakSpeed v w g ≤ 0 := not_le.mpr (div_pos hm hpos)
    rw [if_pos hp, Datum.div_finite _ _ hpos.ne', Limit.factor_of_lt hp]
    simp only [Format.exact_round, Datum.isFinite_finite, Datum.le_finite, hscale,
      Datum.mul_finite, Bool.not_true, Bool.or_false, decide_false, Bool.false_eq_true, if_false,
      hp, decide_true, mul_comm]
  · rw [if_neg hp, Limit.factor_of_le (not_lt.mp hp)]
    simp only [one_mul, hp, decide_false]
    rfl

theorem accepts_of_ok {E : Env} (hE : E.Exact) {config : Option CoreConfig}
    {input : Option CoreInput} (hok : (robotDriveCoreComputeTargets E config input).1 = .ok) :
    ∃ v w g m, Accepts config input v w g m := by
  cases config with
  | none => cases hok
  | some config =>
    cases input with
    | none => cases hok
    | some input =>
      obtain ⟨⟨g, hg, hgpos⟩, ⟨m, hm, hmpos⟩, hkinematics⟩ := tests_of_ok hok
      obtain ⟨hvf, hwf⟩ := finite_of_kinematics_ok hkinematics
      obtain ⟨v, hv⟩ := finite_of_test hvf
      obtain ⟨w, hw⟩ := finite_of_test hwf
      obtain ⟨linearXMps, angularZRadps⟩ := input
      obtain ⟨turnGeometryM, maxTargetMps⟩ := config
      cases hg
      cases hm
      cases hv
      cases hw
      rw [kinematics_exact hE hgpos] at hkinematics
      split_ifs at hkinematics with hin
      exact ⟨v, w, g, m, rfl, rfl, hgpos, hmpos, hin.1, hin.2⟩

/-- When the computation succeeds, that every failure leaves a zero output whatever was there
before, and the targets of a success: both sides scaled by one factor and within the limit. -/
theorem computeTargets_spec {E : Env} (hE : E.Exact) (config : Option CoreConfig)
    (input : Option CoreInput) (prior : CoreOutput) :
    ((robotDriveCoreComputeTargetsAt E config input prior).1 = .ok ↔
      ∃ v w g m, Accepts config input v w g m) ∧
    ((robotDriveCoreComputeTargetsAt E config input prior).1 ≠ .ok →
      (∀ wheel, (robotDriveCoreComputeTargetsAt E config input prior).2.targetMps wheel =
        .finite 0) ∧
      (robotDriveCoreComputeTargetsAt E config input prior).2.limited = false) ∧
    ∀ v w g m, Accepts config input v w g m → ∃ targets : Wheel → ℚ,
      (∀ wheel, (robotDriveCoreComputeTargetsAt E config input prior).2.targetMps wheel =
        .finite (targets wheel)) ∧
      (∀ wheel, targets wheel =
        Limit.factor m (peakSpeed v w g) * wheelSpeed v w g wheel ∧ |targets wheel| ≤ m) ∧
      ((robotDriveCoreComputeTargetsAt E config input prior).2.limited = true ↔
        m < peakSpeed v w g) := by
  rw [robotDriveCoreComputeTargetsAt_eq]
  refine ⟨⟨accepts_of_ok hE, ?_⟩, ?_, ?_⟩
  · intro haccepts
    obtain ⟨v, w, g, m, ha⟩ := haccepts
    rw [computeTargets_of_accepts hE ha]
  · intro hn
    rw [computeTargets_zero E hn]
    exact ⟨fun _ => rfl, rfl⟩
  · intro v w g m ha
    rw [computeTargets_of_accepts hE ha]
    refine ⟨fun wheel => Limit.factor m (peakSpeed v w g) * wheelSpeed v w g wheel,
      fun _ => rfl, ?_, ?_⟩
    · intro wheel
      exact ⟨rfl, Limit.abs_factor_mul_le ha.limit (abs_wheelSpeed_le v w g wheel)⟩
    · exact decide_eq_true_iff

/-- Two metres per second with a limit of one, over an output full of old values. -/
theorem computeTargets_spec_limited : ∃ targets : Wheel → ℚ,
    (∀ wheel, (robotDriveCoreComputeTargetsAt .rational
      (some ⟨.finite (115 / 1000), .finite 1⟩) (some ⟨.finite 2, .finite 0⟩)
      ⟨fun _ => .nan, false⟩).2.targetMps wheel = .finite (targets wheel)) ∧
    ∀ wheel, |targets wheel| ≤ 1 := by
  have ha : Accepts (some ⟨.finite (115 / 1000), .finite 1⟩) (some ⟨.finite 2, .finite 0⟩)
      2 0 (115 / 1000) 1 :=
    ⟨rfl, rfl, by norm_num, by norm_num, by norm_num, by norm_num⟩
  obtain ⟨_, _, hok⟩ := computeTargets_spec Env.rational_exact
    (some ⟨.finite (115 / 1000), .finite 1⟩) (some ⟨.finite 2, .finite 0⟩) ⟨fun _ => .nan, false⟩
  obtain ⟨targets, htargets, hlimited, _⟩ := hok 2 0 (115 / 1000) 1 ha
  exact ⟨targets, htargets, fun wheel => (hlimited wheel).2⟩

end RobotFirmware.Drive
