import RobotFirmware.Library.MonotoneRounding
import RobotFirmware.Chassis.TargetLimit
import RobotFirmware.Chassis.Encoders
import RobotFirmware.Chassis.Stall
import RobotFirmware.Chassis.Uart

/-! A run of the control loop and its replay with a wheel that moves less: until a stall makes
the difference, the wheel is never driven less in the replay. -/
namespace RobotFirmware.Chassis
open Fp Trace

variable {E : Env} {config : CoreConfig}

theorem nextIntegral_le (hE : E.single.Monotone) (ht : Tuned config) {q r : ℚ}
    (hq : |q| ≤ 40) (hr : |r| ≤ 40) (hqr : q ≤ r) {n m : Int32} (hnm : n.toInt ≤ m.toInt) :
    ∃ q' r', nextIntegral E config (.finite q) (E.ofInt n) = .finite q' ∧
      nextIntegral E config (.finite r) (E.ofInt m) = .finite r' ∧
      |q'| ≤ 40 ∧ |r'| ≤ 40 ∧ q' ≤ r' := by
  obtain ⟨s, hs, hsl⟩ := E.ofInt_bounded n
  obtain ⟨t, ht', htl⟩ := E.ofInt_bounded m
  have hst := E.ofInt_mono hE hnm hs ht'
  have hq31 : |q| ≤ 2 ^ 31 := hq.trans (by norm_num)
  have hr31 : |r| ≤ 2 ^ 31 := hr.trans (by norm_num)
  obtain ⟨u, hu, _⟩ := Datum.add_bounded E.single (by norm_num) hq31 hsl
  obtain ⟨v, hv, _⟩ := Datum.add_bounded E.single (by norm_num) hr31 htl
  have huv : u ≤ v := hE.finite (add_le_add hqr hst) hu hv
  have hlimits : (-40 : ℚ) ≤ 40 := by norm_num
  have hclamp : ∀ x : ℚ, |max (-40) (min 40 x)| ≤ 40 := by
    intro x
    exact abs_le.mpr ⟨le_max_left _ _, max_le hlimits (min_le_left _ _)⟩
  refine ⟨max (-40) (min 40 u), max (-40) (min 40 v), ?_, ?_, hclamp u, hclamp v, ?_⟩
  · unfold nextIntegral
    rw [hs, hu, ht.integralLimit, Datum.neg_finite]
    exact Datum.clamp_eq_max_min hlimits u
  · unfold nextIntegral
    rw [ht', hv, ht.integralLimit, Datum.neg_finite]
    exact Datum.clamp_eq_max_min hlimits v
  · exact max_le_max le_rfl (min_le_min le_rfl huv)

theorem nextCommand_le (hE : E.single.Monotone) (ht : Tuned config)
    (hg : GainsValid config.kp config.kiPerStep) {q r : ℚ} (hq : |q| ≤ 40) (hr : |r| ≤ 40)
    (hqr : q ≤ r) {n m : Int32} (hnm : n.toInt ≤ m.toInt) :
    (E.lroundf (nextCommand E config (.finite q) (E.ofInt n))).toInt ≤
      (E.lroundf (nextCommand E config (.finite r) (E.ofInt m))).toInt := by
  obtain ⟨⟨kp, hkp, hkpl⟩, ⟨ki, hki, hkil⟩, _, hmax⟩ := ht
  obtain ⟨⟨kp', hkp', hkpos⟩, ki', hki', hipos⟩ := gainsValid_iff.mp hg
  rw [hkp] at hkp'
  rw [hki] at hki'
  cases hkp'
  cases hki'
  obtain ⟨s, hs, hsl⟩ := E.ofInt_bounded n
  obtain ⟨t, ht', htl⟩ := E.ofInt_bounded m
  have hst := E.ofInt_mono hE hnm hs ht'
  have hq6 : |q| ≤ 2 ^ 6 := hq.trans (by norm_num)
  have hr6 : |r| ≤ 2 ^ 6 := hr.trans (by norm_num)
  -- the two products of each command
  obtain ⟨a, ha, hal⟩ := Datum.mul_bounded E.single (by norm_num) hkpl hsl
  obtain ⟨b, hb, hbl⟩ := Datum.mul_bounded E.single (by norm_num) hkpl htl
  obtain ⟨c, hc, hcl⟩ := Datum.mul_bounded E.single (by norm_num) hkil hq6
  obtain ⟨d, hd, hdl⟩ := Datum.mul_bounded E.single (by norm_num) hkil hr6
  have hab : a ≤ b := hE.finite (mul_le_mul_of_nonneg_left hst hkpos) ha hb
  have hcd : c ≤ d := hE.finite (mul_le_mul_of_nonneg_left hqr hipos) hc hd
  have hc35 : |c| ≤ 2 ^ (4 + 31) := hcl.trans (by norm_num)
  have hd35 : |d| ≤ 2 ^ (4 + 31) := hdl.trans (by norm_num)
  obtain ⟨u, hu, _⟩ := Datum.add_bounded E.single (by norm_num) hal hc35
  obtain ⟨v, hv, _⟩ := Datum.add_bounded E.single (by norm_num) hbl hd35
  have huv : u ≤ v := hE.finite (add_le_add hab hcd) hu hv
  have h100 : E.ofInt 100 = .finite 100 := E.single.round_int 100 (by norm_num)
  have hm100 : E.ofInt (-100) = .finite (-100) := by
    have hneg : (-100 : Int32).toInt = -100 := by decide
    rw [Env.ofInt, hneg]
    exact E.single.round_int (-100) (by norm_num)
  have hlimits : (-100 : ℚ) ≤ 100 := by norm_num
  have hcommand : ∀ x : ℚ, (E.lroundf (.finite (max (-100) (min 100 x)))).toInt =
      roundAway (max (-100) (min 100 x)) := by
    intro x
    apply E.lroundf_finite (n := 100) (by norm_num)
    · exact le_max_left _ _
    · exact max_le hlimits (min_le_left _ _)
  unfold nextCommand
  rw [hmax, h100, hm100, hs, ht', hkp, hki, ha, hb, hc, hd, hu, hv,
    Datum.clamp_eq_max_min hlimits, Datum.clamp_eq_max_min hlimits, hcommand, hcommand]
  exact roundAway_mono (max_le_max le_rfl (min_le_min le_rfl huv))

/-- The second core is the first one, but for a wheel that is driven no less. -/
structure Core.Lags (i : Wheel) (a b : Core) : Prop where
  config : b.config = a.config
  state : b.state = a.state
  targetCounts : b.targetCounts = a.targetCounts
  lastCommandMs : b.lastCommandMs = a.lastCommandMs
  zeroSeen : b.zeroSeen = a.zeroSeen
  integral : ∃ q r, a.integral i = .finite q ∧ b.integral i = .finite r ∧ q ≤ r
  output : (a.output i).toInt ≤ (b.output i).toInt

theorem Core.Lags.refl {i : Wheel} {core : Core} {q : ℚ} (hq : core.integral i = .finite q) :
    core.Lags i core := ⟨rfl, rfl, rfl, rfl, rfl, ⟨q, q, hq, hq, le_rfl⟩, le_rfl⟩

section Calls

variable {i : Wheel} {a b : Core} (h : Core.Lags i a b)
include h

theorem Core.Lags.zeroControl : (zeroControl a).Lags i (zeroControl b) :=
  ⟨h.config, h.state, rfl, h.lastCommandMs, h.zeroSeen, ⟨0, 0, rfl, rfl, le_rfl⟩, le_rfl⟩

theorem Core.Lags.stop (reason : StopReason) :
    (robotChassisCoreStop a reason).Lags i (robotChassisCoreStop b reason) := by
  have hz := h.zeroControl
  unfold robotChassisCoreStop
  dsimp only
  split_ifs
  · exact ⟨hz.config, rfl, rfl, hz.lastCommandMs, rfl, hz.integral, hz.output⟩
  · exact ⟨hz.config, rfl, rfl, hz.lastCommandMs, rfl, hz.integral, hz.output⟩
  · exact ⟨hz.config, rfl, rfl, hz.lastCommandMs, hz.zeroSeen, hz.integral, hz.output⟩

theorem Core.Lags.updateGains (kp ki : Datum) :
    (robotChassisCoreUpdateGains a kp ki).2.Lags i (robotChassisCoreUpdateGains b kp ki).2 := by
  have hz := h.zeroControl
  unfold robotChassisCoreUpdateGains
  rw [h.state]
  split_ifs
  · exact h
  · refine ⟨?_, h.state, rfl, hz.lastCommandMs, rfl, hz.integral, hz.output⟩
    dsimp only
    rw [h.config]

theorem Core.Lags.acceptZero (nowMs : UInt32) :
    (robotChassisCoreAcceptZero a nowMs).Lags i (robotChassisCoreAcceptZero b nowMs) := by
  have hz := h.zeroControl
  unfold robotChassisCoreAcceptZero
  dsimp only
  rw [show (Chassis.zeroControl b).state = (Chassis.zeroControl a).state from h.state]
  split_ifs
  · exact ⟨hz.config, rfl, rfl, rfl, rfl, hz.integral, hz.output⟩
  · exact ⟨hz.config, rfl, rfl, rfl, rfl, hz.integral, hz.output⟩

theorem Core.Lags.arm (nowMs : UInt32) :
    (robotChassisCoreArm a nowMs).2.Lags i (robotChassisCoreArm b nowMs).2 := by
  have hz := h.zeroControl
  unfold robotChassisCoreArm
  rw [h.state, h.zeroSeen]
  split_ifs
  · exact h
  · exact ⟨hz.config, rfl, rfl, rfl, hz.zeroSeen, hz.integral, hz.output⟩

theorem Core.Lags.clearFault :
    (robotChassisCoreClearFault a).2.Lags i (robotChassisCoreClearFault b).2 := by
  have hz := h.zeroControl
  unfold robotChassisCoreClearFault
  rw [h.state, h.zeroSeen]
  split_ifs
  · exact h
  · exact ⟨hz.config, rfl, rfl, hz.lastCommandMs, hz.zeroSeen, hz.integral, hz.output⟩

theorem Core.Lags.submit (targets : Option (Wheels Int32)) (nowMs : UInt32) :
    (robotChassisCoreSubmit b targets nowMs).1 = (robotChassisCoreSubmit a targets nowMs).1 ∧
    (robotChassisCoreSubmit a targets nowMs).2.Lags i
      (robotChassisCoreSubmit b targets nowMs).2 := by
  unfold robotChassisCoreSubmit
  cases targets with
  | none => exact ⟨rfl, h⟩
  | some targets =>
    dsimp only
    rw [h.state, h.config]
    split_ifs
    · exact ⟨rfl, h⟩
    · cases scanTargets a.config.maxTargetCounts targets (List.finRange 4) false with
      | none => exact ⟨rfl, h.stop .invalidTarget⟩
      | some anyNonzero =>
        cases anyNonzero with
        | true => exact ⟨rfl, rfl, rfl, rfl, rfl, h.zeroSeen, h.integral, h.output⟩
        | false => exact ⟨rfl, rfl, rfl, rfl, rfl, h.zeroSeen, ⟨0, 0, rfl, rfl, le_rfl⟩, le_rfl⟩

theorem Core.Lags.call {call : Call} (hcall : call.sample = none) (nowMs : UInt32) :
    (call.run E a nowMs).2.Lags i (call.run E b nowMs).2 := by
  cases call with
  | updateGains kp ki => exact h.updateGains kp ki
  | acceptZero => exact h.acceptZero nowMs
  | arm => exact h.arm nowMs
  | submit targets => exact (h.submit targets nowMs).2
  | stop cause => exact h.stop cause.reason
  | clearFault => exact h.clearFault
  | step delta =>
    cases delta with
    | none => exact h
    | some delta => cases hcall

end Calls

theorem step_cases (E : Env) (core : Core) (delta : Wheels Int32) (nowMs : UInt32) :
    (core.state ≠ .armed ∧
      robotChassisCoreStep E core (some delta) nowMs = { core with output := fun _ => 0 }) ∨
    (core.state = .armed ∧ core.TimedOut nowMs ∧
      robotChassisCoreStep E core (some delta) nowMs = robotChassisCoreStop core .timeout) ∨
    (core.state = .armed ∧ ¬ core.TimedOut nowMs ∧
      robotChassisCoreStep E core (some delta) nowMs = robotChassisCoreStop core .encoderStall) ∨
    (core.state = .armed ∧ ¬ core.TimedOut nowMs ∧
      robotChassisCoreStep E core (some delta) nowMs = core.drive E delta) := by
  have ho := outcome E core ⟨.step (some delta), nowMs.toNat⟩
  have hcore : coreStep E core ⟨.step (some delta), nowMs.toNat⟩ =
      robotChassisCoreStep E core (some delta) nowMs := by
    rw [coreStep, coreCall_nowMs]
    rfl
  have hms : UInt32.ofNat nowMs.toNat = nowMs := UInt32.ofNat_toNat
  rw [hcore] at ho
  generalize robotChassisCoreStep E core (some delta) nowMs = core' at ho ⊢
  cases ho with
  | stepIdle ha => exact .inl ⟨ha, rfl⟩
  | stepTimeout ha ht =>
    rw [hms] at ht
    exact .inr (.inl ⟨ha, ht, rfl⟩)
  | stepStall ha ht _ =>
    rw [hms] at ht
    exact .inr (.inr (.inl ⟨ha, ht, rfl⟩))
  | stepDrive ha ht _ =>
    rw [hms] at ht
    exact .inr (.inr (.inr ⟨ha, ht, rfl⟩))

/-- The wheel update, where the second core sees the greater error. -/
theorem Core.Lags.drive (hE : E.single.Monotone) {i : Wheel} {a b : Core} (h : a.Lags i b)
    (ht : Tuned a.config) (hg : GainsValid a.config.kp a.config.kiPerStep)
    (ha : a.Within 40) (hb : b.Within 40) {delta delta' : Wheels Int32}
    (hbehind : a.targetCounts i ≠ 0 →
      (a.targetCounts i - delta i).toInt ≤ (a.targetCounts i - delta' i).toInt) :
    (a.drive E delta).Lags i (b.drive E delta') := by
  obtain ⟨q, r, hq, hr, hqr⟩ := h.integral
  by_cases hi : a.targetCounts i = 0
  · have hi' : b.targetCounts i = 0 := by
      rw [h.targetCounts]
      exact hi
    refine ⟨h.config, h.state, h.targetCounts, h.lastCommandMs, h.zeroSeen, ?_, ?_⟩
    · exact ⟨0, 0, if_pos hi, if_pos hi', le_rfl⟩
    · have hout : a.nextOutput E delta i = 0 := if_pos hi
      have hout' : b.nextOutput E delta' i = 0 := if_pos hi'
      show (a.nextOutput E delta i).toInt ≤ (b.nextOutput E delta' i).toInt
      rw [hout, hout']
  · have hi' : b.targetCounts i ≠ 0 := by
      rw [h.targetCounts]
      exact hi
    obtain ⟨_, hq', hql⟩ := ha.integral i
    obtain ⟨_, hr', hrl⟩ := hb.integral i
    rw [hq] at hq'
    rw [hr] at hr'
    cases hq'
    cases hr'
    obtain ⟨u, v, hu, hv, hul, hvl, huv⟩ := nextIntegral_le hE ht hql hrl hqr (hbehind hi)
    have hintegral : a.nextIntegral E delta i = .finite u := by
      rw [Core.nextIntegral, if_neg hi, hq]
      exact hu
    have hintegral' : b.nextIntegral E delta' i = .finite v := by
      rw [Core.nextIntegral, if_neg hi', hr, h.config, h.targetCounts]
      exact hv
    refine ⟨h.config, h.state, h.targetCounts, h.lastCommandMs, h.zeroSeen, ?_, ?_⟩
    · exact ⟨u, v, hintegral, hintegral', huv⟩
    · show (a.nextOutput E delta i).toInt ≤ (b.nextOutput E delta' i).toInt
      rw [Core.nextOutput, if_neg hi, hintegral, Core.nextOutput, if_neg hi', hintegral',
        h.config, h.targetCounts]
      exact nextCommand_le hE ht hg hul hvl huv (hbehind hi)

def FaultsAlone (a b : Core) : Prop :=
  (a.state = .armed ∧ b.state = .faultLatched) ∨ (a.state = .faultLatched ∧ b.state = .armed)

/-- A sample of each core, where the stall check does not stop one of them alone. -/
theorem Core.Lags.step (hE : E.single.Monotone) {i : Wheel} {a b : Core} (h : a.Lags i b)
    (ht : Tuned a.config) (hg : GainsValid a.config.kp a.config.kiPerStep)
    (ha : a.Within 40) (hb : b.Within 40) {delta delta' : Wheels Int32} {nowMs : UInt32}
    (hbehind : a.targetCounts i ≠ 0 →
      (a.targetCounts i - delta i).toInt ≤ (a.targetCounts i - delta' i).toInt)
    (hstall : ¬ FaultsAlone (robotChassisCoreStep E a (some delta) nowMs)
      (robotChassisCoreStep E b (some delta') nowMs)) :
    (robotChassisCoreStep E a (some delta) nowMs).Lags i
      (robotChassisCoreStep E b (some delta') nowMs) := by
  have htimed : b.TimedOut nowMs ↔ a.TimedOut nowMs := by
    unfold Core.TimedOut
    rw [h.config, h.lastCommandMs]
  rcases step_cases E a delta nowMs with ⟨hs, hstep⟩ | ⟨hs, hto, hstep⟩ | ⟨hs, hto, hstep⟩ |
    ⟨hs, hto, hstep⟩ <;>
  rcases step_cases E b delta' nowMs with ⟨hs', hstep'⟩ | ⟨hs', hto', hstep'⟩ |
    ⟨hs', hto', hstep'⟩ | ⟨hs', hto', hstep'⟩ <;>
  rw [h.state] at hs' <;> (try rw [htimed] at hto') <;> (try contradiction) <;>
  rw [hstep, hstep'] at hstall ⊢
  · exact ⟨h.config, h.state, h.targetCounts, h.lastCommandMs, h.zeroSeen, h.integral, le_rfl⟩
  · exact h.stop .timeout
  · exact h.stop .encoderStall
  · exact absurd (.inr ⟨stop_state a .encoderStall, h.state.trans hs'⟩) hstall
  · exact absurd (.inl ⟨hs, stop_state b .encoderStall⟩) hstall
  · exact h.drive hE ht hg ha hb hbehind

/-- The signed duty of the last command, positive forward. -/
def Motor.drive (m : Motor) : ℤ :=
  match m.mode with
  | .forward => m.speed.toNat
  | .reverse => -(m.speed.toNat : ℤ)
  | .coast | .brake => 0

@[simp] theorem stopAll_drive (brake : Bool) (motors : Wheels Motor) (i : Wheel) :
    (stopAll brake motors i).drive = 0 := by
  cases brake <;> rfl

/-- The signed duty of an output, past the dead zone of 200 ticks. -/
def dutyOf (output : ℤ) : ℤ :=
  if output = 0 then 0 else if 0 < output then 200 + output else output - 200

theorem dutyOf_mono {n m : ℤ} (h : n ≤ m) : dutyOf n ≤ dutyOf m := by
  unfold dutyOf
  split_ifs <;> omega

theorem applyOutput_drive {core : Core} (hw : ∀ i, |(core.output i).toInt| ≤ 100) (i : Wheel)
    (motor : Motor) : (applyOutput core i motor).drive =
      if core.state ≠ .armed ∨ core.targetCounts i = 0 then 0
      else dutyOf (core.output i).toInt := by
  unfold applyOutput
  dsimp only
  by_cases hidle : core.state ≠ .armed ∨ core.targetCounts i = 0
  · have hcoast : core.state ≠ .armed ∨ core.targetCounts i = 0 ∨ core.output i = 0 :=
      hidle.imp_right .inl
    rw [if_pos hcoast, if_pos hidle]
    rfl
  · rw [if_neg hidle]
    by_cases hzero : core.output i = 0
    · rw [if_pos (.inr (.inr hzero)), hzero]
      rfl
    · have hdriven : ¬ (core.state ≠ .armed ∨ core.targetCounts i = 0 ∨ core.output i = 0) := by
        rw [← or_assoc]
        exact fun h => h.elim hidle hzero
      have hduty := commandToDuty_toNat hzero (hw i)
      have hne : (core.output i).toInt ≠ 0 := by
        intro hz
        apply hzero
        rw [← Int32.toInt_inj, hz, Int32.toInt_zero]
      rw [if_neg hdriven]
      unfold dutyOf
      rw [if_neg hne]
      by_cases hpos : 0 < (core.output i).toInt
      · have hlt : (0 : Int32) < core.output i := Int32.lt_iff_toInt_lt.mpr hpos
        rw [abs_of_pos hpos] at hduty
        rw [if_pos hlt, if_pos hpos]
        exact hduty
      · have hlt : ¬ (0 : Int32) < core.output i := fun h => hpos (Int32.lt_iff_toInt_lt.mp h)
        rw [abs_of_nonpos (not_lt.mp hpos)] at hduty
        rw [if_neg hlt, if_neg hpos]
        show -((commandToDuty (core.output i)).toUInt32.toNat : ℤ) = _
        omega

/-- What holds in every run of the task, whatever its inputs. -/
structure Diag.Sound (d : Diag) : Prop where
  regulated : d.Regulated
  inv : d.core.Inv
  valid : configValid (some d.core.config) = true
  limit : d.core.config.maxTargetCounts = 20
  /-- The range check lets the least value pass. -/
  targets : ∀ i, d.core.targetCounts i = Int32.minValue ∨ InRange 20 (d.core.targetCounts i)

theorem Diag.Sound.of_started {d : Diag} (hs : Started E d) : d.Sound := by
  obtain ⟨config, hconfig, hvalid, hcore⟩ := init_eq_some hs.core
  cases hconfig
  refine ⟨regulated_of_started hs, ?_, ?_, ?_, ?_⟩
  · rw [hcore]
    exact initialCore_inv _
  · rw [hcore]
    exact hvalid
  · rw [hcore]
    rfl
  · intro i
    right
    rw [hcore]
    show InRange 20 0
    decide

theorem Diag.Sound.act {d : Diag} (h : d.Sound) (x : Action) : (Chassis.act E d x).Sound := by
  have hregulated := regulated_step (E := E) d x _ h.regulated rfl
  have hdet : Det (Chassis.act E) d x (Chassis.act E d x) := rfl
  rcases act_outcome hdet with ⟨_, hcore⟩ | ⟨call, r, _, ho⟩
  · refine ⟨hregulated, ?_, ?_, ?_, ?_⟩ <;> rw [hcore]
    · exact h.inv
    · exact h.valid
    · exact h.limit
    · exact h.targets
  · refine ⟨hregulated, ho.inv h.inv, ho.configValid h.valid, ?_, ?_⟩
    · rw [ho.maxTargetCounts]
      exact h.limit
    · intro i
      have hm : 0 < d.core.config.maxTargetCounts.toInt := by
        rw [h.limit]
        decide
      rcases ho.targetCounts with hk | hz | ⟨targets, _, _, _, href, ht⟩
      · rw [hk]
        exact h.targets i
      · rw [hz]
        right
        show InRange 20 0
        decide
      · rw [ht]
        by_contra hout
        rw [not_or] at hout
        rw [refuses_iff hm, h.limit] at href
        exact href ⟨i, hout.1, hout.2⟩

theorem Diag.Sound.gains {d : Diag} (h : d.Sound) :
    GainsValid d.core.config.kp d.core.config.kiPerStep := by
  obtain ⟨hkp, hki, _⟩ := configValid_iff.mp h.valid
  exact gainsValid_iff.mpr ⟨hkp, hki⟩

theorem Diag.Sound.output {d : Diag} (h : d.Sound) (i : Wheel) :
    |(d.core.output i).toInt| ≤ 100 := by
  have hout := h.regulated.2.output i
  have h100 : (100 : Int32).toInt = 100 := by decide
  rw [h.regulated.1.maxOutput, h100] at hout
  exact hout

/-- The error of a wheel stays in `int`, unless its target is the least value. -/
theorem Diag.Sound.error {d : Diag} (h : d.Sound) {i : Wheel} {delta : Int32}
    (htarget : d.core.targetCounts i ≠ Int32.minValue)
    (hdelta : -90000 ≤ delta.toInt ∧ delta.toInt ≤ 90000) :
    (d.core.targetCounts i - delta).toInt = (d.core.targetCounts i).toInt - delta.toInt := by
  obtain ⟨hl, hh⟩ := (h.targets i).resolve_left htarget
  have h20 : (20 : Int32).toInt = 20 := by decide
  rw [h20] at hl hh
  exact Word.sub_toInt (by omega) (by omega)

/-- The second task is the first one, but for its counts, its odometry and a wheel that is
driven no less. -/
structure Diag.Lags (i : Wheel) (a b : Diag) : Prop where
  core : a.core.Lags i b.core
  drive : (a.motors i).drive ≤ (b.motors i).drive
  batteryAdc : b.batteryAdc = a.batteryAdc
  batteryCalibrated : b.batteryCalibrated = a.batteryCalibrated
  uartLine : b.uartLine = a.uartLine
  nowMs : b.nowMs = a.nowMs
  counts : PcntCount (a.lastCounts i) ∧ PcntCount (b.lastCounts i)

structure KeepsBattery (d d' : Diag) : Prop where
  adc : d'.batteryAdc = d.batteryAdc
  calibrated : d'.batteryCalibrated = d.batteryCalibrated

theorem processCommand_keepsBattery (E : Env) (d : Diag) (r : Readings) (chars : List Char)
    (nowMs : UInt32) : KeepsBattery d (processCommand E d r chars nowMs) := by
  unfold processCommand armIfBatteryOk submitTargets
  cases parseCommand E.single chars <;> dsimp only <;> (try split_ifs) <;> exact ⟨rfl, rfl⟩

theorem act_keepsBattery (E : Env) (d : Diag) (x : Action) : KeepsBattery d (act E d x) := by
  cases x with
  | wake nowUs => exact ⟨rfl, rfl⟩
  | char ch r =>
    show KeepsBattery d (pollUartChar E d ch r d.nowMs)
    unfold pollUartChar
    split_ifs
    · have hline := processCommand_keepsBattery E d r d.uartLine.chars d.nowMs
      exact ⟨hline.adc, hline.calibrated⟩
    · exact ⟨rfl, rfl⟩
    · exact ⟨rfl, rfl⟩
    · exact ⟨rfl, rfl⟩
  | event event r =>
    show KeepsBattery d (handleRemoteEvent E d event r d.nowMs)
    unfold handleRemoteEvent armIfBatteryOk submitTargets
    cases event <;> dsimp only <;> (try split_ifs) <;> exact ⟨rfl, rfl⟩
  | sample counts =>
    show KeepsBattery d (sampleEncoders E d counts)
    unfold sampleEncoders stepSample
    dsimp only
    split_ifs <;> exact ⟨rfl, rfl⟩

theorem armIfBatteryOk_leaves (E : Env) (d : Diag) (r : Readings) (nowMs : UInt32) :
    (armIfBatteryOk E d r nowMs).motors = d.motors := by
  unfold armIfBatteryOk
  split_ifs <;> rfl

theorem Core.ControlZero.setpoints {core : Core} (hz : core.ControlZero) :
    controlSetpointsAreZero core = true := by
  unfold controlSetpointsAreZero
  rw [decide_eq_true_eq]
  exact fun i => ⟨(hz.at_wheel i).1, (hz.at_wheel i).2.1⟩

theorem pollUartChar_motors_eq (E : Env) (d : Diag) (ch : Char) (r : Readings)
    (nowMs : UInt32) : (pollUartChar E d ch r nowMs).motors =
      if ch = '\r' ∨ ch = '\n' then
        if 0 < d.uartLine.chars.length then
          (processCommand E d r d.uartLine.chars nowMs).motors
        else d.motors
      else if d.uartLine.chars.length + 1 < 64 then d.motors
      else stopAll true d.motors := by
  unfold pollUartChar
  split_ifs <;> rfl

theorem act_sample_nowMs (E : Env) (d : Diag) (counts : Wheels (Option Int32)) :
    (act E d (.sample counts)).nowMs = d.nowMs := by
  show (sampleEncoders E d counts).nowMs = d.nowMs
  unfold sampleEncoders stepSample
  dsimp only
  split_ifs <;> rfl

theorem act_lastCounts (E : Env) (d : Diag) {x : Action} (hx : ∀ counts, x ≠ .sample counts) :
    (act E d x).lastCounts = d.lastCounts := by
  cases x with
  | wake nowUs => rfl
  | char ch r => exact pollUartChar_lastCounts E d ch r _
  | event event r => exact (handleRemoteEvent_kept E d event r _).lastCounts
  | sample counts => exact absurd rfl (hx counts)

section Replay

variable {i : Wheel} {a b : Diag} (h : Diag.Lags i a b)
include h

theorem Diag.Lags.printBatteryStatus (adc : AdcReading) :
    Chassis.printBatteryStatus E b adc = Chassis.printBatteryStatus E a adc := by
  unfold Chassis.printBatteryStatus readBattery
  rw [h.batteryAdc, h.batteryCalibrated]

theorem Diag.Lags.coreCallOf {x : Action} (hx : ∀ counts, x ≠ .sample counts) :
    Chassis.coreCallOf E b x = Chassis.coreCallOf E a x := by
  cases x with
  | wake nowUs => rfl
  | char ch r =>
    have hcompleted : completedCommand E b ch = completedCommand E a ch := by
      unfold completedCommand
      rw [h.uartLine]
    have hover : Overflows b ch ↔ Overflows a ch := by
      unfold Overflows
      rw [h.uartLine]
    have hcommand : ∀ command, commandCall E b r command = commandCall E a r command := by
      intro command
      unfold commandCall
      rw [h.printBatteryStatus]
    unfold Chassis.coreCallOf
    dsimp only
    rw [hcompleted]
    cases completedCommand E a ch with
    | some command => exact hcommand command
    | none => exact if_congr hover rfl rfl
  | event event r =>
    cases event with
    | arm =>
      have hbattery : Chassis.printBatteryStatus E b r.adc = Chassis.printBatteryStatus E a r.adc :=
        h.printBatteryStatus r.adc
      exact if_congr (by rw [hbattery]) rfl rfl
    | _ => rfl
  | sample counts => exact absurd rfl (hx counts)

theorem Diag.Lags.act_core {x : Action} (hx : ∀ counts, x ≠ .sample counts) :
    (act E a x).core.Lags i (act E b x).core := by
  rw [Chassis.act_core, Chassis.act_core, h.coreCallOf hx, h.nowMs]
  cases hcall : Chassis.coreCallOf E a x with
  | none => exact h.core
  | some call =>
    rw [applyCall_some, applyCall_some]
    apply h.core.call
    rcases coreCallOf_eq_some hcall with ⟨_, _, command, _, _, hc⟩ | ⟨_, _, _, _, rfl⟩ |
      ⟨event, r, _, hc⟩ | ⟨counts, rfl, _⟩
    · cases command <;> simp only [commandCall, Option.ite_none_right_eq_some, Option.some.injEq,
        reduceCtorEq] at hc
      all_goals first | exact hc ▸ rfl | exact hc.2 ▸ rfl
    · rfl
    · cases event <;> simp only [eventCall, Option.ite_none_right_eq_some, Option.some.injEq]
        at hc
      all_goals first | exact hc ▸ rfl | exact hc.2 ▸ rfl
    · exact absurd rfl (hx counts)

theorem Diag.Lags.submit_drive (targets : Wheels Int32) (nowMs : UInt32) :
    ((submitTargets a targets nowMs).motors i).drive ≤
      ((submitTargets b targets nowMs).motors i).drive := by
  have hsame := (h.core.submit (some targets) nowMs).1
  unfold submitTargets
  dsimp only
  rw [hsame]
  split_ifs
  · exact h.drive
  · rw [stopAll_drive, stopAll_drive]

theorem Diag.Lags.command_drive (ha : a.Sound) (hb : b.Sound) (r : Readings)
    (chars : List Char) (nowMs : UInt32) :
    ((processCommand E a r chars nowMs).motors i).drive ≤
      ((processCommand E b r chars nowMs).motors i).drive := by
  unfold processCommand
  cases parseCommand E.single chars with
  | zero => rw [acceptZero, stopAll_drive, acceptZero, stopAll_drive]
  | arm => rw [armIfBatteryOk_leaves, armIfBatteryOk_leaves]; exact h.drive
  | odomZero =>
    dsimp only
    split_ifs <;> exact h.drive
  | imuPause durationMs =>
    -- a disarmed core has no setpoints, so neither task refuses alone
    by_cases hs : a.core.state = .disarmed
    · have hs' : b.core.state = .disarmed := h.core.state.trans hs
      have hidle := (ha.inv.idle (by rw [hs]; simp)).setpoints
      have hidle' := (hb.inv.idle (by rw [hs']; simp)).setpoints
      dsimp only
      rw [if_pos ⟨hs, hidle⟩, if_pos ⟨hs', hidle'⟩, stopAll_drive, stopAll_drive]
    · have hs' : b.core.state ≠ .disarmed := fun hb => hs (h.core.state.symm.trans hb)
      dsimp only
      rw [if_neg fun hc => hs hc.1, if_neg fun hc => hs' hc.1]
      exact h.drive
  | gain kp ki =>
    dsimp only
    split_ifs <;> exact h.drive
  | run wheel target => exact h.submit_drive _ nowMs
  | invalid => rw [rejectInput, stopAll_drive, rejectInput, stopAll_drive]
  | _ => exact h.drive

theorem Diag.Lags.act_drive (ha : a.Sound) (hb : b.Sound) {x : Action}
    (hx : ∀ counts, x ≠ .sample counts) :
    ((act E a x).motors i).drive ≤ ((act E b x).motors i).drive := by
  cases x with
  | wake nowUs => exact h.drive
  | char ch r =>
    show ((pollUartChar E a ch r a.nowMs).motors i).drive ≤
      ((pollUartChar E b ch r b.nowMs).motors i).drive
    rw [pollUartChar_motors_eq, pollUartChar_motors_eq, h.uartLine, h.nowMs]
    split_ifs
    · exact h.command_drive ha hb r _ _
    · exact h.drive
    · exact h.drive
    · rw [stopAll_drive, stopAll_drive]
  | event event r =>
    show ((handleRemoteEvent E a event r a.nowMs).motors i).drive ≤
      ((handleRemoteEvent E b event r b.nowMs).motors i).drive
    rw [h.nowMs]
    cases event with
    | zero => rw [handleRemoteEvent, acceptZero, stopAll_drive, handleRemoteEvent, acceptZero,
        stopAll_drive]
    | arm =>
      rw [handleRemoteEvent, armIfBatteryOk_leaves, handleRemoteEvent, armIfBatteryOk_leaves]
      exact h.drive
    | stop => rw [handleRemoteEvent, stopAll_drive, handleRemoteEvent, stopAll_drive]
    | targets targets limited => exact h.submit_drive targets _
    | unknown => rw [handleRemoteEvent, rejectInput, stopAll_drive, handleRemoteEvent, rejectInput,
        stopAll_drive]
  | sample counts => exact absurd rfl (hx counts)

theorem Diag.Lags.act_line {x y : Action} (hbyte : y.byte = x.byte) :
    (Chassis.act E b y).uartLine = (Chassis.act E a x).uartLine := by
  have hchars : (Chassis.act E b y).uartLine.chars = (Chassis.act E a x).uartLine.chars := by
    rw [act_uartLine, act_uartLine, hbyte, h.uartLine]
  generalize (Chassis.act E b y).uartLine = line at hchars ⊢
  obtain ⟨chars, fits⟩ := line
  subst hchars
  rfl

theorem Diag.Lags.act (ha : a.Sound) (hb : b.Sound) {x : Action}
    (hx : ∀ counts, x ≠ .sample counts) : Diag.Lags i (Chassis.act E a x) (Chassis.act E b x) := by
  have hbattery := act_keepsBattery E a x
  have hbattery' := act_keepsBattery E b x
  refine ⟨h.act_core hx, h.act_drive ha hb hx, ?_, ?_, h.act_line rfl, ?_, ?_⟩
  · rw [hbattery.adc, hbattery'.adc]
    exact h.batteryAdc
  · rw [hbattery.calibrated, hbattery'.calibrated]
    exact h.batteryCalibrated
  · cases x with
    | wake nowUs => rfl
    | char ch r =>
      show (pollUartChar E b ch r b.nowMs).nowMs = (pollUartChar E a ch r a.nowMs).nowMs
      rw [pollUartChar_nowMs, pollUartChar_nowMs]
      exact h.nowMs
    | event event r =>
      show (handleRemoteEvent E b event r b.nowMs).nowMs =
        (handleRemoteEvent E a event r a.nowMs).nowMs
      rw [handleRemoteEvent_nowMs, handleRemoteEvent_nowMs]
      exact h.nowMs
    | sample counts => exact absurd rfl (hx counts)
  · rw [act_lastCounts E a hx, act_lastCounts E b hx]
    exact h.counts

end Replay

/-- The same reads fail, and the wheel of the second task has moved no further. -/
structure Behind (i : Wheel) (a b : Diag) (counts counts' : Wheels (Option Int32)) : Prop where
  answers : ∀ j, (counts' j).isSome = (counts j).isSome
  inRange : ∀ n, counts i = some n ∨ counts' i = some n → PcntCount n
  moved : ((encoderRead b counts').2.2 i).toInt ≤ ((encoderRead a counts).2.2 i).toInt

theorem act_sample_core (E : Env) (d : Diag) (counts : Wheels (Option Int32)) :
    (act E d (.sample counts)).core =
      if (encoderRead d counts).1 = true then
        robotChassisCoreStep E d.core (some (encoderRead d counts).2.2) d.nowMs
      else robotChassisCoreStop d.core .encoderStall := by
  rw [act_core]
  unfold coreCallOf
  dsimp only
  split_ifs
  · rw [applyCall_some]
    rfl
  · rw [applyCall_some]
    rfl

theorem act_sample_drive {d : Diag} {counts : Wheels (Option Int32)} (i : Wheel)
    (hsound : (act E d (.sample counts)).Sound) :
    ((act E d (.sample counts)).motors i).drive =
      if (act E d (.sample counts)).core.state ≠ .armed ∨
        (act E d (.sample counts)).core.targetCounts i = 0 then 0
      else dutyOf ((act E d (.sample counts)).core.output i).toInt := by
  have hout : ∀ j, |((act E d (.sample counts)).core.output j).toInt| ≤ 100 := hsound.output
  rcases sampleEncoders_motors E d counts with ⟨hidle, hm⟩ | ⟨_, _, hm⟩
  · have hstate : (act E d (.sample counts)).core.state ≠ .armed := by
      rcases hidle with hfail | ⟨hlatched, _⟩
      · have hread : ¬ (encoderRead d counts).1 = true := by
          rw [hfail]
          simp
        rw [act_sample_core, if_neg hread]
        exact stop_ne_armed _ _
      · show (sampleEncoders E d counts).core.state ≠ .armed
        rw [hlatched]
        simp
    rw [if_pos (.inl hstate)]
    show ((sampleEncoders E d counts).motors i).drive = 0
    rw [hm, stopAll_drive]
  · rw [← applyOutput_drive hout i (d.motors i)]
    show ((sampleEncoders E d counts).motors i).drive = _
    rw [hm]
    rfl

theorem encoderRead_count (d : Diag) (counts : Wheels (Option Int32)) (i : Wheel) :
    (encoderRead d counts).2.1 i = d.lastCounts i ∨
      counts i = some ((encoderRead d counts).2.1 i) := by
  obtain ⟨hread, hkept⟩ := readEncoders_spec counts (List.nodup_finRange 4) d.lastCounts
    (fun _ => 0) i
  by_cases hin : i ∈ (List.finRange 4).takeWhile fun j => (counts j).isSome
  · obtain ⟨n, hn, hlast, _⟩ := hread hin
    right
    rw [hn, ← hlast]
    rfl
  · exact .inl (hkept hin).1

theorem encoderRead_delta {d : Diag} {counts : Wheels (Option Int32)} {i : Wheel}
    (hlast : PcntCount (d.lastCounts i)) (hcounts : ∀ n, counts i = some n → PcntCount n) :
    -90000 ≤ ((encoderRead d counts).2.2 i).toInt ∧
      ((encoderRead d counts).2.2 i).toInt ≤ 90000 := by
  obtain ⟨hread, hkept⟩ := readEncoders_spec counts (List.nodup_finRange 4) d.lastCounts
    (fun _ => 0) i
  by_cases hin : i ∈ (List.finRange 4).takeWhile fun j => (counts j).isSome
  · obtain ⟨n, hn, _, hdelta⟩ := hread hin
    unfold encoderRead
    rw [hdelta]
    exact safeCountDelta_bounds (hcounts n hn) hlast
  · unfold encoderRead
    rw [(hkept hin).2]
    decide

theorem Diag.Lags.sample (hE : E.single.Monotone) {i : Wheel} {a b : Diag}
    (h : Diag.Lags i a b) (ha : a.Sound) (hb : b.Sound)
    (htarget : a.core.targetCounts i ≠ Int32.minValue)
    {counts counts' : Wheels (Option Int32)} (hbehind : Behind i a b counts counts')
    (hstall : ¬ FaultsAlone (Chassis.act E a (.sample counts)).core
      (Chassis.act E b (.sample counts')).core) :
    Diag.Lags i (Chassis.act E a (.sample counts)) (Chassis.act E b (.sample counts')) := by
  have hread : (encoderRead b counts').1 = (encoderRead a counts).1 := by
    have hnone : (∃ j, counts' j = none) ↔ ∃ j, counts j = none := by
      apply exists_congr
      intro j
      have hj := hbehind.answers j
      cases hc : counts j <;> cases hc' : counts' j <;> simp [hc, hc'] at hj ⊢
    have hiff : (encoderRead b counts').1 = false ↔ (encoderRead a counts).1 = false := by
      rw [encoderRead_fst, encoderRead_fst]
      exact hnone
    cases hfirst : (encoderRead a counts).1 with
    | true =>
      rw [← Bool.not_eq_false]
      rw [← Bool.not_eq_false] at hfirst
      exact fun hf => hfirst (hiff.mp hf)
    | false => exact hiff.mpr hfirst
  have hdelta := encoderRead_delta h.counts.1 fun n hn => hbehind.inRange n (.inl hn)
  have hdelta' := encoderRead_delta h.counts.2 fun n hn => hbehind.inRange n (.inr hn)
  have herror : (a.core.targetCounts i - (encoderRead a counts).2.2 i).toInt ≤
      (a.core.targetCounts i - (encoderRead b counts').2.2 i).toInt := by
    have hmoved := hbehind.moved
    rw [ha.error htarget hdelta, ha.error htarget hdelta']
    omega
  have hcore : (Chassis.act E a (.sample counts)).core.Lags i
      (Chassis.act E b (.sample counts')).core := by
    rw [act_sample_core, act_sample_core, hread] at hstall ⊢
    by_cases hok : (encoderRead a counts).1 = true
    · rw [if_pos hok, if_pos hok, h.nowMs] at hstall ⊢
      exact h.core.step hE ha.regulated.1 ha.gains ha.regulated.2 hb.regulated.2
        (fun _ => herror) hstall
    · rw [if_neg hok, if_neg hok]
      exact h.core.stop .encoderStall
  have hbattery := act_keepsBattery E a (.sample counts)
  have hbattery' := act_keepsBattery E b (.sample counts')
  refine ⟨hcore, ?_, ?_, ?_, h.act_line rfl, ?_, ?_⟩
  · rw [act_sample_drive i (ha.act _), act_sample_drive i (hb.act _), hcore.state,
      hcore.targetCounts]
    split_ifs
    · exact le_rfl
    · exact dutyOf_mono hcore.output
  · rw [hbattery.adc, hbattery'.adc]
    exact h.batteryAdc
  · rw [hbattery.calibrated, hbattery'.calibrated]
    exact h.batteryCalibrated
  · rw [act_sample_nowMs, act_sample_nowMs]
    exact h.nowMs
  · have hcounts : ∀ (d : Diag) (c : Wheels (Option Int32)), PcntCount (d.lastCounts i) →
        (∀ n, c i = some n → PcntCount n) →
        PcntCount ((Chassis.act E d (.sample c)).lastCounts i) := by
      intro d c hlast hc
      show PcntCount ((sampleEncoders E d c).lastCounts i)
      rw [sampleEncoders_lastCounts]
      rcases encoderRead_count d c i with hk | hn
      · rw [hk]
        exact hlast
      · exact hc _ hn
    exact ⟨hcounts a counts h.counts.1 fun n hn => hbehind.inRange n (.inl hn),
      hcounts b counts' h.counts.2 fun n hn => hbehind.inRange n (.inr hn)⟩

inductive Replays (E : Env) (i : Wheel) : Diag × Diag → Action × Action → Diag × Diag → Prop
  | same {a b : Diag} (x : Action) (hx : ∀ counts, x ≠ .sample counts) :
      Replays E i (a, b) (x, x) (act E a x, act E b x)
  | sample {a b : Diag} {counts counts' : Wheels (Option Int32)}
      (hbehind : Behind i a b counts counts') :
      Replays E i (a, b) (.sample counts, .sample counts')
        (act E a (.sample counts), act E b (.sample counts'))

/-- The replay is behind, and the target of the wheel is not the least value. -/
structure Trails (i : Wheel) (p : Diag × Diag) : Prop where
  lags : Diag.Lags i p.1 p.2
  sound : p.1.Sound ∧ p.2.Sound
  target : p.1.core.targetCounts i ≠ Int32.minValue

theorem Trails.step (hE : E.single.Monotone) {i : Wheel} {p p' : Diag × Diag}
    {x : Action × Action} (hi : Trails i p) (hstall : ¬ FaultsAlone p'.1.core p'.2.core)
    (htarget : p'.1.core.targetCounts i ≠ Int32.minValue) (hs : Replays E i p x p') :
    Trails i p' := by
  obtain ⟨ha, hb⟩ := hi.sound
  cases hs with
  | same x hx => exact ⟨hi.lags.act ha hb hx, ⟨ha.act x, hb.act x⟩, htarget⟩
  | @sample a b counts counts' hbehind =>
    have hlags := hi.lags.sample hE ha hb hi.target hbehind hstall
    exact ⟨hlags, ⟨ha.act (.sample counts), hb.act (.sample counts')⟩, htarget⟩

theorem trails_start {inp : StartInputs} {d : Diag} (hs : robotChassisDiagStart E inp = .ok d)
    (i : Wheel) : Trails i (d, d) := by
  have hsound := Diag.Sound.of_started (started_of_start hs)
  obtain ⟨core, hinit, hd⟩ := start_eq hs
  obtain ⟨config, _, _, hcore⟩ := init_eq_some hinit
  have hcount : PcntCount (d.lastCounts i) := by
    rw [hd]
    show PcntCount 0
    unfold PcntCount
    decide
  have hintegral : d.core.integral i = .finite 0 := by
    rw [hd, hcore]
    rfl
  refine ⟨⟨.refl hintegral, le_rfl, rfl, rfl, rfl, rfl, hcount, hcount⟩, ⟨hsound, hsound⟩, ?_⟩
  rw [hd, hcore]
  show (0 : Int32) ≠ Int32.minValue
  decide

/-- A run of the task and a replay of it that differs in the encoder counts only, and in which
a wheel moves no further from sample to sample: the wheel is never driven less in the replay,
and the states of the two never differ, as long as no stall stops one of them alone and no
accepted target of the wheel is the least value. -/
theorem lag_never_eases (hE : E.single.Monotone) {inp : StartInputs} {d a b : Diag}
    (hs : robotChassisDiagStart E inp = .ok d) {i : Wheel}
    {h : List (Event (Diag × Diag) (Action × Action))}
    (hp : Path (Replays E i) (d, d) h (a, b))
    (hstall : ∀ x ∈ h, ¬ FaultsAlone x.after.1.core x.after.2.core)
    (htarget : ∀ x ∈ h, x.after.1.core.targetCounts i ≠ Int32.minValue) :
    b.core.state = a.core.state ∧ (a.core.output i).toInt ≤ (b.core.output i).toInt ∧
      (a.motors i).drive ≤ (b.motors i).drive := by
  have hinv : Trails i (a, b) := hp.invariant_of_guard
    (G := fun x => ¬ FaultsAlone x.after.1.core x.after.2.core ∧
      x.after.1.core.targetCounts i ≠ Int32.minValue)
    (fun _ _ _ hi hg hstep => hi.step hE hg.1 hg.2 hstep) (trails_start hs i)
    fun x hx => ⟨hstall x hx, htarget x hx⟩
  exact ⟨hinv.lags.core.state, hinv.lags.core.output, hinv.lags.drive⟩

def firstWheel : Wheel := ⟨0, by decide⟩

def allAt (count : Int32) : Wheels (Option Int32) := fun _ => some count

def commandActions : List Action :=
  [.wake 1000000, .event .zero goodReadings, .event .arm goodReadings,
    .event (.targets (fun _ => 5) false) goodReadings]

def commanded (steps : ℕ) : Diag := (commandActions.take steps).foldl (act .rational) readyDiag

instance (a b : Core) : Decidable (FaultsAlone a b) := inferInstanceAs (Decidable (_ ∨ _))

theorem behind_commanded : Behind firstWheel (commanded 4) (commanded 4) (allAt 4) (allAt 3) := by
  refine ⟨fun _ => rfl, ?_, by decide +kernel⟩
  rintro n (hn | hn) <;> cases hn <;> unfold PcntCount <;> decide

/-- The wheels move by four counts, and in the replay by three. -/
theorem lag_never_eases_slower : ∃ h a b,
    Path (Replays .rational firstWheel) (readyDiag, readyDiag) h (a, b) ∧
    0 < (a.motors firstWheel).drive ∧ (a.motors firstWheel).drive ≤ (b.motors firstWheel).drive := by
  have hp : Path (Replays .rational firstWheel) (readyDiag, readyDiag) _
      (act .rational (commanded 4) (.sample (allAt 4)),
        act .rational (commanded 4) (.sample (allAt 3))) :=
    ((((Trace.Path.refl.snoc (.same (.wake 1000000) nofun)).snoc
      (.same (.event .zero goodReadings) nofun)).snoc
      (.same (.event .arm goodReadings) nofun)).snoc
      (.same (.event (.targets (fun _ => 5) false) goodReadings) nofun)).snoc
      (.sample behind_commanded)
  refine ⟨_, _, _, hp, by decide +kernel, ?_⟩
  refine (lag_never_eases Format.exact_monotone readyDiag_start hp ?_ ?_).2.2
  · simp only [List.forall_mem_cons]
    refine ⟨?_, ?_, ?_, ?_, ?_, by simp⟩ <;> decide +kernel
  · simp only [List.forall_mem_cons]
    refine ⟨?_, ?_, ?_, ?_, ?_, by simp⟩ <;> decide +kernel

end RobotFirmware.Chassis
