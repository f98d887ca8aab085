import RobotFirmware.Chassis.Actuation
import RobotFirmware.Library.Rounding

/-! The battery condition for arming in the millivolts of the ADC. The voltage is computed in
`float`, but no rounding of that format moves the two limits to another millivolt. -/
namespace RobotFirmware.Chassis
open Fp Trace

def batteryVolts (E : Env) (mv : Int32) : Datum :=
  Datum.mul E.single (Datum.div E.single (E.ofInt mv) (literalF E 1000)) (literalF E (403 / 100))

/-- Rounding at most halves or doubles. -/
theorem near_size {u q r : ℚ} (hu : u ≤ 1 / 2 ^ 24) (h : Near u q r) :
    1 / 2 * |q| ≤ |r| ∧ |r| ≤ 2 * |q| := by
  have hlower := h.abs_lower
  have hupper := h.abs_upper
  have hslack : u * |q| ≤ 1 / 2 * |q| :=
    mul_le_mul_of_nonneg_right (by linarith) (abs_nonneg q)
  constructor <;> linarith

theorem round_near {F : Format} {u q : ℚ} (hF : F.Precise u) (hlo : 1 / 10 ^ 4 ≤ |q|)
    (hhi : |q| ≤ 10 ^ 11) : ∃ r, F.round q = .finite r ∧ Near u q r := by
  apply hF.near
  · exact le_trans (by norm_num) hlo
  · exact hhi.trans (by norm_num [singleMax])

section
variable {E : Env} {u : ℚ} (hE : E.single.Precise u) (hu : u ≤ 1 / 2 ^ 24)
include hE hu

/-- Up to rounding the voltage is 4.03 mV for each mV at the pin. -/
theorem batteryVolts_near (mv : Int32) : ∃ v : ℚ, batteryVolts E mv = .finite v ∧
    Near (1 / 2 ^ 20 : ℚ) (mv.toInt * (403 / 100000)) v := by
  have hu₀ := hE.nonneg
  have hsquare : u * u ≤ u * (1 / 2 ^ 24) := mul_le_mul_of_nonneg_left hu hu₀
  have hthousand : literalF E 1000 = .finite 1000 := by
    have hround := E.single.round_int 1000 (by norm_num)
    exact_mod_cast hround
  obtain ⟨ratio, hratio, hnearRatio⟩ := round_near hE (q := 403 / 100)
    (by rw [abs_of_pos] <;> norm_num) (by rw [abs_of_pos] <;> norm_num)
  have hliteral : literalF E (403 / 100) = .finite ratio := hratio
  have hsizeRatio := near_size hu hnearRatio
  rw [abs_of_pos (by norm_num : (0 : ℚ) < 403 / 100)] at hsizeRatio
  unfold batteryVolts Env.ofInt
  rw [hthousand, hliteral]
  by_cases hzero : mv.toInt = 0
  · have hround := E.single.round_int 0 (by norm_num)
    rw [Int.cast_zero] at hround
    refine ⟨0, ?_, ?_⟩
    · rw [hzero, Int.cast_zero, hround, Datum.div_finite _ _ (by norm_num), zero_div, hround,
        Datum.mul_finite, zero_mul, hround]
    · rw [hzero, Int.cast_zero, zero_mul]
      simp [Near]
  · have hone : (1 : ℚ) ≤ |(mv.toInt : ℚ)| := by exact_mod_cast Int.one_le_abs hzero
    have htop : |(mv.toInt : ℚ)| ≤ 2 ^ 31 := by
      have hle := mv.le_toInt
      have hlt := mv.toInt_lt
      have hsmall : |mv.toInt| ≤ 2 ^ 31 := abs_le.mpr ⟨by omega, by omega⟩
      exact_mod_cast hsmall
    obtain ⟨a, ha, hnearA⟩ := round_near hE (q := mv.toInt) (by linarith) (by linarith)
    have hsizeA := near_size hu hnearA
    have hquotient : |a / 1000| = |a| / 1000 := by
      rw [abs_div, abs_of_pos (by norm_num : (0 : ℚ) < 1000)]
    obtain ⟨b, hb, hnearB⟩ := round_near hE (q := a / 1000) (by linarith) (by linarith)
    have hsizeB := near_size hu hnearB
    have hproductLo : 1 / 4000 * 2 ≤ |b| * |ratio| :=
      mul_le_mul (by linarith) (by linarith) (by norm_num) (abs_nonneg b)
    have hproductHi : |b| * |ratio| ≤ 2 ^ 34 / 1000 * 10 :=
      mul_le_mul (by linarith) (by linarith) (abs_nonneg ratio) (by norm_num)
    obtain ⟨v, hv, hnearV⟩ := round_near hE (q := b * ratio)
      (by rw [abs_mul]; linarith) (by rw [abs_mul]; linarith)
    refine ⟨v, ?_, ?_⟩
    · rw [ha, Datum.div_finite _ _ (by norm_num), hb, Datum.mul_finite, hv]
    · -- the four roundings, innermost first
      have hpin : Near (3 * u) (mv.toInt / 1000 : ℚ) b :=
        ((hnearA.div_right 1000).trans hnearB hu₀).mono (by linarith)
      have hscale : Near u ((mv.toInt / 1000 : ℚ) * (403 / 100)) (mv.toInt / 1000 * ratio) :=
        hnearRatio.mul_left _
      have hproduct : Near (3 * u) (mv.toInt / 1000 * ratio : ℚ) (b * ratio) := by
        have := hpin.mul_left ratio
        rwa [mul_comm ratio, mul_comm ratio] at this
      have hexact : Near (5 * u) ((mv.toInt / 1000 : ℚ) * (403 / 100)) (b * ratio) :=
        (hscale.trans hproduct (by linarith)).mono (by linarith)
      have hresult : Near (7 * u) ((mv.toInt / 1000 : ℚ) * (403 / 100)) v :=
        (hexact.trans hnearV hu₀).mono (by linarith)
      have hsame : (mv.toInt / 1000 : ℚ) * (403 / 100) = mv.toInt * (403 / 100000) := by ring
      rw [hsame] at hresult
      exact hresult.mono (by linarith)

/-- Between six and twelve volts are the readings from 1489 to 2977 mV, however it is rounded. -/
theorem volts_in_range {mv : Int32} {v : ℚ} (hv : batteryVolts E mv = .finite v) :
    6 ≤ v ∧ v ≤ 12 ↔ 1489 ≤ mv.toInt ∧ mv.toInt ≤ 2977 := by
  obtain ⟨v', hv', hnear⟩ := batteryVolts_near hE hu mv
  rw [hv] at hv'
  cases hv'
  have hbounds := abs_le.mp hnear
  rw [abs_mul, abs_of_pos (by norm_num : (0 : ℚ) < 403 / 100000)] at hbounds
  obtain ⟨hlower, hupper⟩ := hbounds
  constructor
  · rintro ⟨h6, h12⟩
    have hpos : 0 ≤ mv.toInt := by
      by_contra hneg
      have hle : (mv.toInt : ℚ) ≤ -1 := by exact_mod_cast (by omega : mv.toInt ≤ -1)
      rw [abs_of_neg (by linarith)] at hupper
      linarith
    have hcast : (0 : ℚ) ≤ mv.toInt := by exact_mod_cast hpos
    rw [abs_of_nonneg hcast] at hlower hupper
    constructor
    · by_contra hlow
      have hle : (mv.toInt : ℚ) ≤ 1488 := by exact_mod_cast (by omega : mv.toInt ≤ 1488)
      linarith
    · by_contra hhigh
      have hle : (2978 : ℚ) ≤ mv.toInt := by exact_mod_cast (by omega : 2978 ≤ mv.toInt)
      linarith
  · rintro ⟨hlow, hhigh⟩
    have hle : (1489 : ℚ) ≤ mv.toInt := by exact_mod_cast hlow
    have hge : (mv.toInt : ℚ) ≤ 2977 := by exact_mod_cast hhigh
    rw [abs_of_nonneg (by linarith)] at hlower hupper
    constructor <;> linarith

/-- A calibrated reading between the two limits. -/
def AdcReading.InRange (adc : AdcReading) : Prop :=
  adc.raw.isSome = true ∧ ∃ mv, adc.adcMv = some mv ∧ 1489 ≤ mv.toInt ∧ mv.toInt ≤ 2977

theorem printBatteryStatus_iff (d : Diag) (adc : AdcReading) : printBatteryStatus E d adc = true ↔
    d.batteryAdc = true ∧ d.batteryCalibrated = true ∧ adc.InRange := by
  have h6 : literalF E 6 = .finite 6 := by
    have hround := E.single.round_int 6 (by norm_num)
    exact_mod_cast hround
  have h12 : literalF E 12 = .finite 12 := by
    have hround := E.single.round_int 12 (by norm_num)
    exact_mod_cast hround
  unfold printBatteryStatus readBattery AdcReading.InRange
  cases hadc : d.batteryAdc with
  | false => simp
  | true =>
    rw [if_pos rfl]
    cases adc.raw with
    | none => simp
    | some raw =>
      dsimp only
      cases hcalibrated : d.batteryCalibrated with
      | false => simp
      | true =>
        rw [if_pos rfl]
        cases adc.adcMv with
        | none => simp
        | some mv =>
          obtain ⟨v, hv, _⟩ := batteryVolts_near hE hu mv
          have hrange := volts_in_range hE hu hv
          unfold batteryVolts at hv
          simp [hv, h6, h12, hrange]

end

theorem act_battery (E : Env) (d : Diag) (a : Action) :
    (act E d a).batteryAdc = d.batteryAdc ∧
      (act E d a).batteryCalibrated = d.batteryCalibrated := by
  have hsubmit : ∀ (d : Diag) targets nowMs, (submitTargets d targets nowMs).batteryAdc =
      d.batteryAdc ∧ (submitTargets d targets nowMs).batteryCalibrated = d.batteryCalibrated := by
    intro d targets nowMs
    unfold submitTargets
    dsimp only
    split_ifs <;> exact ⟨rfl, rfl⟩
  have harm : ∀ (d : Diag) r nowMs, (armIfBatteryOk E d r nowMs).batteryAdc = d.batteryAdc ∧
      (armIfBatteryOk E d r nowMs).batteryCalibrated = d.batteryCalibrated := by
    intro d r nowMs
    unfold armIfBatteryOk
    split_ifs <;> exact ⟨rfl, rfl⟩
  cases a with
  | wake nowUs => exact ⟨rfl, rfl⟩
  | event event r =>
    cases event with
    | arm => exact harm d r d.nowMs
    | targets targets limited => exact hsubmit d targets d.nowMs
    | _ => exact ⟨rfl, rfl⟩
  | sample counts =>
    show (sampleEncoders E d counts).batteryAdc = _ ∧
      (sampleEncoders E d counts).batteryCalibrated = _
    unfold sampleEncoders stepSample
    dsimp only
    split_ifs <;> exact ⟨rfl, rfl⟩
  | char ch r =>
    have hcommand : (processCommand E d r d.uartLine.chars d.nowMs).batteryAdc = d.batteryAdc ∧
        (processCommand E d r d.uartLine.chars d.nowMs).batteryCalibrated =
          d.batteryCalibrated := by
      unfold processCommand
      cases parseCommand E.single d.uartLine.chars with
      | arm => exact harm d r d.nowMs
      | run wheel target => exact hsubmit d _ d.nowMs
      | odomZero =>
        dsimp only
        split_ifs <;> exact ⟨rfl, rfl⟩
      | imuPause durationMs =>
        dsimp only
        split_ifs <;> exact ⟨rfl, rfl⟩
      | gain kp ki =>
        dsimp only
        split_ifs <;> exact ⟨rfl, rfl⟩
      | _ => exact ⟨rfl, rfl⟩
    show (pollUartChar E d ch r d.nowMs).batteryAdc = _ ∧
      (pollUartChar E d ch r d.nowMs).batteryCalibrated = _
    unfold pollUartChar
    split_ifs
    · exact hcommand
    · exact ⟨rfl, rfl⟩
    · exact ⟨rfl, rfl⟩
    · exact ⟨rfl, rfl⟩

def armReading (E : Env) (x : Event Diag Action) : Option AdcReading :=
  match x.label with
  | .char ch r => if completedCommand E x.before ch = some .arm then some r.adc else none
  | .event event r => if event = .arm then some r.adc else none
  | .wake _ | .sample _ => none

theorem coreCallOf_eq_arm {E : Env} {x : Event Diag Action} :
    coreCallOf E x.before x.label = some .arm ↔
      ∃ adc, armReading E x = some adc ∧ printBatteryStatus E x.before adc = true := by
  obtain ⟨d, a, d'⟩ := x
  constructor
  · intro hcall
    rcases coreCallOf_eq_some hcall with ⟨ch, r, command, rfl, hcommand, h⟩ | ⟨_, _, _, _, h⟩ |
      ⟨event, r, rfl, h⟩ | ⟨_, _, h⟩
    · obtain ⟨rfl, hbattery⟩ := commandCall_eq_arm h
      exact ⟨r.adc, if_pos hcommand, hbattery⟩
    · cases h
    · obtain ⟨rfl, hbattery⟩ := eventCall_eq_arm h
      refine ⟨r.adc, ?_, hbattery⟩
      show (if RemoteEvent.arm = .arm then some r.adc else none) = _
      rw [if_pos rfl]
    · rcases h with ⟨_, h⟩ | h <;> cases h
  · rintro ⟨adc, hreading, hbattery⟩
    unfold armReading at hreading
    dsimp only at hreading hbattery
    split at hreading
    · next ch r =>
      split_ifs at hreading with hcommand
      cases hreading
      unfold coreCallOf
      dsimp only
      rw [hcommand]
      exact if_pos hbattery
    · next event r =>
      split_ifs at hreading with hevent
      cases hreading
      rw [hevent]
      exact if_pos hbattery
    · cases hreading
    · cases hreading

theorem arm_enters {core : Core} (nowMs : UInt32) (hb : core.state ≠ .armed) :
    (robotChassisCoreArm core nowMs).2.state = .armed ↔
      core.state = .disarmed ∧ core.zeroSeen = true := by
  unfold robotChassisCoreArm
  split_ifs with hrefused
  · constructor
    · exact fun h => absurd h hb
    · rintro ⟨hstate, hzero⟩
      rcases hrefused with h | h
      · exact absurd hstate h
      · rw [hzero] at h
        cases h
  · rw [not_or, not_not, Bool.not_eq_false] at hrefused
    exact ⟨fun _ => hrefused, fun _ => rfl⟩

theorem enters_armed_iff {E : Env} {x : Event Diag Action}
    (hd : Det (act E) x.before x.label x.after) : EntersArmed x ↔
      x.before.core.state = .disarmed ∧ x.before.core.zeroSeen = true ∧
        coreCallOf E x.before x.label = some .arm := by
  have hcore : x.after.core = applyCall E x.before.core x.before.nowMs
      (coreCallOf E x.before x.label) := by
    rw [← act_core]
    exact congrArg Diag.core (show x.after = act E x.before x.label from hd.symm)
  constructor
  · rintro ⟨hb, ha⟩
    have hcall : coreCallOf E x.before x.label = some .arm := by
      rcases act_outcome hd with ⟨_, hsame⟩ | ⟨call, r, hcall, ho⟩
      · rw [hsame] at ha
        exact absurd ha hb
      · have harm := (ho.enters_armed hb ha).1
        dsimp only at harm
        rw [hcall, harm]
    rw [hcall, applyCall_some] at hcore
    rw [hcore] at ha
    obtain ⟨hstate, hzero⟩ := (arm_enters x.before.nowMs hb).mp ha
    exact ⟨hstate, hzero, hcall⟩
  · rintro ⟨hstate, hzero, hcall⟩
    have hb : x.before.core.state ≠ .armed := by
      rw [hstate]
      simp
    rw [hcall, applyCall_some] at hcore
    refine ⟨hb, ?_⟩
    rw [hcore]
    exact (arm_enters x.before.nowMs hb).mpr ⟨hstate, hzero⟩

/-- In every run the core is armed exactly by those ARM lines and remote arms that find it
disarmed, after a confirmation that nothing has revoked, with a calibrated ADC that reads between
1489 and 2977 mV. -/
theorem armed_exactly {E : Env} {u : ℚ} (hE : E.single.Precise u) (hu : u ≤ 1 / 2 ^ 24)
    {inp : StartInputs} {d₀ d : Diag} (hs : robotChassisDiagStart E inp = .ok d₀)
    {newer older : List (Event Diag Action)} {x : Event Diag Action}
    (hp : Path (Det (act E)) d₀ (newer ++ x :: older) d) :
    EntersArmed x ↔ x.before.core.state = .disarmed ∧ Since (Confirms E) (Revokes E) older ∧
      inp.adcCalibrated = true ∧ ∃ adc, armReading E x = some adc ∧ adc.InRange := by
  obtain ⟨hold, hd, _⟩ := hp.at_event
  have hdrivers : x.before.batteryAdc = true ∧ x.before.batteryCalibrated = inp.adcCalibrated := by
    obtain ⟨core, _, rfl⟩ := start_eq hs
    refine hold.invariant (P := fun d => d.batteryAdc = true ∧
      d.batteryCalibrated = inp.adcCalibrated) ?_ ⟨rfl, rfl⟩
    rintro d a _ ⟨hadc, hcalibrated⟩ rfl
    obtain ⟨hadc', hcalibrated'⟩ := act_battery E d a
    exact ⟨hadc'.trans hadc, hcalibrated'.trans hcalibrated⟩
  rw [enters_armed_iff hd, zeroSeen_iff_since (started_of_start hs) hold, coreCallOf_eq_arm]
  simp only [printBatteryStatus_iff hE hu, hdrivers.1, hdrivers.2, true_and]
  constructor
  · rintro ⟨hstate, hsince, adc, hreading, hcalibrated, hrange⟩
    exact ⟨hstate, hsince, hcalibrated, adc, hreading, hrange⟩
  · rintro ⟨hstate, hsince, hcalibrated, adc, hreading, hrange⟩
    exact ⟨hstate, hsince, adc, hreading, hcalibrated, hrange⟩

theorem armed_exactly_remote : ∃ newer x older,
    controlHistory .rational readyDiag [armingIteration] = newer ++ x :: older ∧ EntersArmed x ∧
      ∃ adc, armReading .rational x = some adc ∧ adc.InRange := by
  have hh : ∃ x older, controlHistory .rational readyDiag [armingIteration] =
      [_] ++ x :: older ∧ x.before.core.state ≠ .armed ∧ x.after.core.state = .armed :=
    ⟨_, _, rfl, by decide +kernel, by decide +kernel⟩
  obtain ⟨x, older, hh, harmed⟩ := hh
  have hexact : Env.rational.single.Precise 0 := ⟨le_rfl, fun q _ _ => ⟨q, rfl, Near.refl q⟩⟩
  have hp := path_controlHistory .rational readyDiag [armingIteration]
  rw [hh] at hp
  obtain ⟨_, _, _, hreading⟩ :=
    (armed_exactly hexact (by norm_num) readyDiag_start hp).mp harmed
  exact ⟨_, x, older, hh, harmed, hreading⟩

end RobotFirmware.Chassis
