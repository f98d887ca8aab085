import RobotFirmware.Chassis.Envelope
import RobotFirmware.Chassis.ArmingGate

/-! What the motors were last commanded to do, at the end of every iteration and between the
actions of one. -/
namespace RobotFirmware.Chassis
open Fp Trace

/-- The firmware configuration, up to gains that a GAIN line may have set. -/
structure Tuned (config : CoreConfig) : Prop where
  kp : ∃ q, config.kp = .finite q ∧ |q| ≤ 2 ^ 4
  ki : ∃ q, config.kiPerStep = .finite q ∧ |q| ≤ 2 ^ 0
  integralLimit : config.integralLimit = .finite 40
  maxOutput : config.maxOutput = 100

theorem tuned_firmwareConfig (E : Env) : Tuned (firmwareConfig E) := by
  have h5 : literalF E 5 = .finite 5 := E.single.round_int 5 (by norm_num)
  have h40 : literalF E 40 = .finite 40 := E.single.round_int 40 (by norm_num)
  have hki := E.single.round_le (1 / 4) 0 (by norm_num) (by norm_num [abs_le])
  refine ⟨⟨5, h5, by norm_num⟩, hki, h40, rfl⟩

theorem gains_of_withinLimits {E : Env} {kp ki : Datum}
    (hg : gainsWithinLimits E kp ki = true) :
    (∃ q, kp = .finite q ∧ |q| ≤ 2 ^ 4) ∧ ∃ q, ki = .finite q ∧ |q| ≤ 2 ^ 0 := by
  have h10 : literalF E 10 = .finite 10 := E.single.round_int 10 (by norm_num)
  have h1 : literalF E 1 = .finite 1 := E.single.round_int 1 (by norm_num)
  unfold gainsWithinLimits at hg
  simp only [Bool.and_eq_true, h10, h1] at hg
  obtain ⟨⟨⟨hkl, hkh⟩, hil⟩, hih⟩ := hg
  obtain ⟨p, hp, hpl, hph⟩ := Datum.finite_of_le hkl hkh
  obtain ⟨q, hq, hql, hqh⟩ := Datum.finite_of_le hil hih
  refine ⟨⟨p, hp, abs_le.mpr ⟨by linarith, by linarith⟩⟩, q, hq, abs_le.mpr ⟨?_, ?_⟩⟩
  · rw [pow_zero]
    linarith
  · rw [pow_zero]
    exact hqh

theorem gains_of_coreCall {E : Env} {d : Diag} {a : Action} {kp ki : Datum}
    (hc : coreCallOf E d a = some (.updateGains kp ki)) : gainsWithinLimits E kp ki = true := by
  rcases coreCallOf_eq_some hc with ⟨_, _, _, _, _, h⟩ | ⟨_, _, _, _, h⟩ | ⟨_, _, _, h⟩ |
    ⟨_, _, h⟩
  · exact (commandCall_eq_updateGains h).2
  · cases h
  · exact absurd h eventCall_ne_updateGains
  · rcases h with ⟨_, h⟩ | h <;> cases h

theorem tuned_step {E : Env} {d d' : Diag} {a : Action} (hd : Det (act E) d a d')
    (ht : Tuned d.core.config) : Tuned d'.core.config := by
  rcases act_outcome hd with ⟨_, hsame⟩ | ⟨call, r, hc, ho⟩
  · rw [hsame]
    exact ht
  · rcases ho.config with hk | ⟨kp, ki, hcall, _, _, _, _, hk⟩
    · rw [hk]
      exact ht
    · dsimp only at hcall
      subst hcall
      obtain ⟨hkp, hki⟩ := gains_of_withinLimits (gains_of_coreCall hc)
      rw [hk]
      exact ⟨hkp, hki, ht.integralLimit, ht.maxOutput⟩

/-- Within these gains no control step overflows, in any lawful format. -/
theorem Tuned.tame {E : Env} {config : CoreConfig} (ht : Tuned config) :
    config.Tame E 40 := by
  obtain ⟨⟨kp, hkp, hkpl⟩, ⟨ki, hki, hkil⟩, hlimit, hmax⟩ := ht
  have hint : ∀ n : Int32, ∃ r, E.ofInt n = .finite r ∧ |r| ≤ 2 ^ 31 := by
    intro n
    have hlo := Int32.le_toInt n
    have hhi := Int32.toInt_lt n
    have hn : |(n.toInt : ℚ)| ≤ 2 ^ 31 := by
      rw [abs_le]
      constructor
      · exact_mod_cast hlo
      · exact_mod_cast hhi.le
    exact E.single.round_le n.toInt 31 (by norm_num) hn
  have h100 : (100 : Int32).toInt = 100 := by decide
  have hm100 : (-100 : Int32).toInt = -100 := by decide
  refine ⟨hlimit, by norm_num, ?_, ?_, ?_, ?_, ?_⟩
  · rw [hmax, h100]
    norm_num
  · rw [hmax, Env.ofInt, h100]
    exact E.single.round_int 100 (by norm_num)
  · rw [hmax, Env.ofInt, hm100, h100]
    exact E.single.round_int (-100) (by norm_num)
  · intro q n hq
    obtain ⟨r, hr, hrl⟩ := hint n
    have hq31 : |q| ≤ 2 ^ 31 := hq.trans (by norm_num)
    obtain ⟨s, hs, _⟩ := Datum.add_bounded E.single (by norm_num) hq31 hrl
    rw [hr, hs]
    simp
  · intro q n hq
    obtain ⟨r, hr, hrl⟩ := hint n
    have hq6 : |q| ≤ 2 ^ 6 := hq.trans (by norm_num)
    obtain ⟨u, hu, hul⟩ := Datum.mul_bounded E.single (by norm_num) hkpl hrl
    obtain ⟨v, hv, hvl⟩ := Datum.mul_bounded E.single (by norm_num) hkil hq6
    have hv35 : |v| ≤ 2 ^ (4 + 31) := hvl.trans (by norm_num)
    obtain ⟨s, hs, _⟩ := Datum.add_bounded E.single (by norm_num) hul hv35
    rw [hkp, hki, hr, hu, hv, hs]
    simp

/-- The gains and the control arrays of the task stay bounded. -/
def Diag.Regulated (d : Diag) : Prop := Tuned d.core.config ∧ d.core.Within 40

theorem regulated_step {E : Env} (d : Diag) (a : Action) (d' : Diag) (hr : d.Regulated)
    (hd : Det (act E) d a d') : d'.Regulated := by
  refine ⟨tuned_step hd hr.1, ?_⟩
  rcases act_outcome hd with ⟨_, hsame⟩ | ⟨call, r, _, ho⟩
  · rw [hsame]
    exact hr.2
  · exact ho.within (E := E) hr.1.tame hr.2

theorem regulated_of_started {E : Env} {d : Diag} (hs : Started E d) : d.Regulated := by
  have ht := tuned_firmwareConfig E
  unfold Diag.Regulated
  rw [hs.core_eq]
  exact ⟨ht, Core.ControlZero.within ⟨rfl, rfl, rfl, rfl⟩ (by norm_num)
    (ht.tame (E := E)).positive.le⟩

/-- The drive command of a motor, as the core asks for it. -/
structure DrivenAs (core : Core) (i : Wheel) (motor : Motor) : Prop where
  armed : core.state = .armed
  target : core.targetCounts i ≠ 0
  output : core.output i ≠ 0
  direction : motor.mode = if 0 < (core.output i).toInt then .forward else .reverse
  speed : (motor.speed.toNat : ℤ) = 200 + min |(core.output i).toInt| 100
  bounds : 201 ≤ motor.speed.toNat ∧ motor.speed.toNat ≤ 300

theorem commandToDuty_toNat {n : Int32} (hn : n ≠ 0) (hl : |n.toInt| ≤ 100) :
    ((commandToDuty n).toUInt32.toNat : ℤ) = 200 + |n.toInt| := by
  have hmin : n ≠ Int32.minValue := by
    intro hn
    rw [hn] at hl
    exact absurd hl (by decide)
  have habs : n.abs.toInt = |n.toInt| := Word.abs_toInt hmin
  have hnonneg := abs_nonneg n.toInt
  have h200 : (200 : Int32).toInt = 200 := by decide
  have h300 : (200 + 100 : Int32).toInt = 300 := by decide
  have h400 : (400 : Int32).toInt = 400 := by decide
  have hsum : (200 + n.abs).toInt = 200 + |n.toInt| := by
    rw [Word.add_toInt] <;> rw [h200, habs] <;> omega
  have hcap : ¬ (200 + 100 : Int32) < 200 + n.abs := by
    rw [Int32.lt_iff_toInt_lt, h300, hsum]
    omega
  have hperiod : ¬ (400 : Int32) ≤ 200 + n.abs := by
    rw [Int32.le_iff_toInt_le, h400, hsum]
    omega
  have hpos : (0 : Int32) ≤ 200 + n.abs := by
    rw [Int32.le_iff_toInt_le, Int32.toInt_zero, hsum]
    omega
  unfold commandToDuty
  rw [if_neg hn]
  dsimp only
  rw [if_neg hcap, if_neg hperiod, Int32.toNat_toUInt32_of_le hpos, Int32.toNatClampNeg, hsum]
  omega

/-- `apply_outputs` coasts a motor or drives it as the core asks. -/
theorem applyOutput_cases {core : Core} (hw : ∀ i, |(core.output i).toInt| ≤ 100) (i : Wheel)
    (motor : Motor) : (applyOutput core i motor).mode = .coast ∨
      DrivenAs core i (applyOutput core i motor) := by
  unfold applyOutput
  dsimp only
  by_cases h : core.state ≠ .armed ∨ core.targetCounts i = 0 ∨ core.output i = 0
  · rw [if_pos h]
    exact .inl rfl
  · rw [if_neg h]
    right
    simp only [not_or, not_not] at h
    obtain ⟨ha, ht, ho⟩ := h
    have hne : (core.output i).toInt ≠ 0 := by
      intro hz
      apply ho
      rw [← Int32.toInt_inj, hz, Int32.toInt_zero]
    have hspeed := commandToDuty_toNat ho (hw i)
    have hpos := abs_pos.mpr hne
    have hle := hw i
    refine ⟨ha, ht, ho, ?_, ?_, ?_⟩
    · simp only [Int32.lt_iff_toInt_lt, Int32.toInt_zero]
    · rw [min_eq_left hle]
      exact hspeed
    · dsimp only
      omega

theorem not_driven_stopAll (brake : Bool) (motors : Wheels Motor) (i : Wheel) :
    ¬ (stopAll brake motors i).Driven := by
  unfold stopAll Motor.Driven
  cases brake <;> simp

def LeavesOrStops (d d' : Diag) : Prop :=
  d'.motors = d.motors ∨ ∃ brake, d'.motors = stopAll brake d.motors

theorem submitTargets_motors (d : Diag) (targets : Wheels Int32) (nowMs : UInt32) :
    LeavesOrStops d (submitTargets d targets nowMs) := by
  unfold submitTargets
  dsimp only
  split_ifs
  · exact .inl rfl
  · exact .inr ⟨true, rfl⟩

theorem armIfBatteryOk_motors (E : Env) (d : Diag) (r : Readings) (nowMs : UInt32) :
    LeavesOrStops d (armIfBatteryOk E d r nowMs) := by
  unfold armIfBatteryOk
  split_ifs <;> exact .inl rfl

theorem processCommand_motors (E : Env) (d : Diag) (r : Readings) (chars : List Char)
    (nowMs : UInt32) : LeavesOrStops d (processCommand E d r chars nowMs) := by
  unfold processCommand
  cases parseCommand E.single chars with
  | zero => exact .inr ⟨false, rfl⟩
  | arm => exact armIfBatteryOk_motors E d r nowMs
  | clear => exact .inl rfl
  | status => exact .inl rfl
  | bat => exact .inl rfl
  | odomZero =>
    dsimp only
    split_ifs <;> exact .inl rfl
  | imuPause durationMs =>
    dsimp only
    split_ifs
    · exact .inr ⟨false, rfl⟩
    · exact .inl rfl
  | gain kp ki =>
    dsimp only
    split_ifs <;> exact .inl rfl
  | run wheel target => exact submitTargets_motors d _ nowMs
  | invalid => exact .inr ⟨true, rfl⟩

theorem handleRemoteEvent_motors (E : Env) (d : Diag) (event : RemoteEvent) (r : Readings)
    (nowMs : UInt32) : LeavesOrStops d (handleRemoteEvent E d event r nowMs) := by
  cases event with
  | zero => exact .inr ⟨false, rfl⟩
  | arm => exact armIfBatteryOk_motors E d r nowMs
  | stop => exact .inr ⟨true, rfl⟩
  | targets targets limited => exact submitTargets_motors d targets nowMs
  | unknown => exact .inr ⟨true, rfl⟩

theorem pollUartChar_motors (E : Env) (d : Diag) (ch : Char) (r : Readings)
    (nowMs : UInt32) : LeavesOrStops d (pollUartChar E d ch r nowMs) := by
  unfold pollUartChar
  split_ifs
  · exact processCommand_motors E d r _ nowMs
  · exact .inl rfl
  · exact .inl rfl
  · exact .inr ⟨true, rfl⟩

/-- The motors at the end of the sample: braked after a failed read or a stall, and as the
core asks otherwise. -/
theorem sampleEncoders_motors (E : Env) (d : Diag) (counts : Wheels (Option Int32)) :
    (((encoderRead d counts).1 = false ∨
      ((sampleEncoders E d counts).core.state = .faultLatched ∧
        (sampleEncoders E d counts).core.stopReason = .encoderStall)) ∧
      (sampleEncoders E d counts).motors = stopAll true d.motors) ∨
    ((encoderRead d counts).1 = true ∧
      ¬ ((sampleEncoders E d counts).core.state = .faultLatched ∧
        (sampleEncoders E d counts).core.stopReason = .encoderStall) ∧
      (sampleEncoders E d counts).motors =
        applyOutputs (sampleEncoders E d counts).core d.motors) := by
  unfold sampleEncoders encoderRead
  dsimp only
  by_cases hr : (readEncoders counts (List.finRange 4) d.lastCounts fun _ => 0).1 = true
  · rw [if_pos hr]
    rw [stepSample_core]
    unfold stepSample
    dsimp only
    by_cases hf : (robotChassisCoreStep E d.core (some (readEncoders counts (List.finRange 4)
        d.lastCounts fun _ => 0).2.2) d.nowMs).state = .faultLatched ∧
        (robotChassisCoreStep E d.core (some (readEncoders counts (List.finRange 4)
        d.lastCounts fun _ => 0).2.2) d.nowMs).stopReason = .encoderStall
    · refine .inl ⟨.inr hf, ?_⟩
      split_ifs <;> rfl
    · refine .inr ⟨hr, hf, ?_⟩
      split_ifs <;> rfl
  · rw [if_neg hr]
    exact .inl ⟨.inl (Bool.eq_false_iff.mpr hr), rfl⟩

/-- Only a complete sample starts a motor; everything else leaves the motors or stops them. -/
theorem act_motors (E : Env) (d : Diag) (a : Action) : LeavesOrStops d (act E d a) ∨
    (act E d a).motors = applyOutputs (act E d a).core d.motors := by
  cases a with
  | wake nowUs => exact .inl (.inl rfl)
  | char ch r => exact .inl (pollUartChar_motors E d ch r _)
  | event event r => exact .inl (handleRemoteEvent_motors E d event r _)
  | sample counts =>
    rcases sampleEncoders_motors E d counts with ⟨_, hm⟩ | ⟨_, _, hm⟩
    · exact .inl (.inr ⟨true, hm⟩)
    · exact .inr hm

/-- A motor that an action finds at rest and leaves driven has a core behind it that is armed
and gives the wheel a target. -/
theorem driven_of_act {E : Env} {d : Diag} {a : Action} {i : Wheel}
    (hb : ¬ (d.motors i).Driven) (ha : ((act E d a).motors i).Driven) :
    (act E d a).core.state = .armed ∧ (act E d a).core.targetCounts i ≠ 0 := by
  rcases act_motors E d a with (hm | ⟨brake, hm⟩) | hm
  · rw [hm] at ha
    exact absurd ha hb
  · rw [hm] at ha
    exact absurd ha (not_driven_stopAll brake d.motors i)
  · rw [hm] at ha
    change (applyOutput (act E d a).core i (d.motors i)).Driven at ha
    unfold applyOutput at ha
    by_cases h : (act E d a).core.state ≠ .armed ∨ (act E d a).core.targetCounts i = 0 ∨
        (act E d a).core.output i = 0
    · dsimp only at ha
      rw [if_pos h] at ha
      simp [Motor.Driven] at ha
    · simp only [not_or, not_not] at h
      exact ⟨h.1, h.2.1⟩

/-- A line that stops the motors: ZERO or STOP, a rejected RUN, or no command at all. -/
def lineHalts (d : Diag) : Command → Prop
  | .zero | .invalid => True
  | .run wheel target =>
    (robotChassisCoreSubmit d.core (some (runTargets wheel target)) d.nowMs).1 = false
  | .arm | .clear | .status | .bat | .odomZero | .imuPause _ | .gain _ _ => False

def eventHalts (d : Diag) : RemoteEvent → Prop
  | .zero | .stop | .unknown => True
  | .targets targets _ => (robotChassisCoreSubmit d.core (some targets) d.nowMs).1 = false
  | .arm => False

def Halts (E : Env) (x : Event Diag Action) : Prop :=
  match x.label with
  | .char ch _ => Overflows x.before ch ∨
      ∃ command, completedCommand E x.before ch = some command ∧ lineHalts x.before command
  | .event event _ => eventHalts x.before event
  | .wake _ | .sample _ => False

/-- After a halting action the core is not armed and no motor is driven. -/
def Diag.Halted (d : Diag) : Prop := d.core.state ≠ .armed ∧ ∀ i, ¬ (d.motors i).Driven

theorem submitTargets_halts {d : Diag} {targets : Wheels Int32}
    (hr : (robotChassisCoreSubmit d.core (some targets) d.nowMs).1 = false) :
    (submitTargets d targets d.nowMs).Halted := by
  constructor
  · rw [submitTargets_core]
    rcases submit_cases d.core targets d.nowMs with ⟨hn, h⟩ | ⟨_, _, h⟩ | ⟨_, _, h, _⟩
    · rw [h]
      exact hn
    · rw [h]
      exact stop_ne_armed _ _
    · rw [hr] at h
      cases h
  · intro i
    have hnot : ¬ (robotChassisCoreSubmit d.core (some targets) d.nowMs).1 = true := by simp [hr]
    unfold submitTargets
    dsimp only
    rw [if_neg hnot]
    exact not_driven_stopAll true d.motors i

theorem rejectInput_halts (d : Diag) : (rejectInput d).Halted :=
  ⟨stop_ne_armed _ _, not_driven_stopAll true d.motors⟩

theorem acceptZero_halts (d : Diag) (nowMs : UInt32) : (acceptZero d nowMs).Halted :=
  ⟨acceptZero_ne_armed d.core nowMs, not_driven_stopAll false d.motors⟩

theorem processCommand_halts {E : Env} {d : Diag} {r : Readings} {chars : List Char}
    (hh : lineHalts d (parseCommand E.single chars)) :
    (processCommand E d r chars d.nowMs).Halted := by
  unfold processCommand
  cases hc : parseCommand E.single chars with
  | zero => exact acceptZero_halts d d.nowMs
  | run wheel target =>
    rw [hc] at hh
    exact submitTargets_halts hh
  | invalid => exact rejectInput_halts d
  | _ =>
    rw [hc] at hh
    exact hh.elim

theorem halted_of_halts {E : Env} {x : Event Diag Action}
    (hd : Det (act E) x.before x.label x.after) (hh : Halts E x) : x.after.Halted := by
  obtain ⟨d, a, d'⟩ := x
  have hd : act E d a = d' := hd
  subst hd
  cases a with
  | wake nowUs => exact hh.elim
  | char ch r =>
    change (pollUartChar E d ch r d.nowMs).Halted
    unfold pollUartChar
    rcases hh with ho | ⟨command, hc, hl⟩
    · rw [if_neg ho.1, dif_neg ho.2]
      exact ⟨(rejectInput_halts d).1, (rejectInput_halts d).2⟩
    · dsimp only at hc hl
      unfold completedCommand at hc
      split_ifs at hc with ht
      cases hc
      have hline := processCommand_halts (r := r) hl
      rw [if_pos ht.1, if_pos ht.2]
      exact ⟨hline.1, hline.2⟩
  | event event r =>
    change (handleRemoteEvent E d event r d.nowMs).Halted
    cases event with
    | zero => exact acceptZero_halts d d.nowMs
    | arm => exact hh.elim
    | stop => exact ⟨stop_ne_armed _ _, not_driven_stopAll true d.motors⟩
    | targets targets limited => exact submitTargets_halts hh
    | unknown => exact rejectInput_halts d
  | sample counts => exact hh.elim

def EntersArmed (x : Event Diag Action) : Prop :=
  x.before.core.state ≠ .armed ∧ x.after.core.state = .armed

/-- A RUN line or a remote command whose targets the core accepts. -/
def AcceptsTargets (E : Env) (x : Event Diag Action) : Prop :=
  ∃ targets, coreCallOf E x.before x.label = some (.submit (some targets)) ∧
    (robotChassisCoreSubmit x.before.core (some targets) x.before.nowMs).1 = true

/-- The core was armed and later took over targets, in a history newest first. -/
def ArmedThenCommanded (E : Env) (h : List (Event Diag Action)) : Prop :=
  ∃ newer s between a older, h = newer ++ s :: (between ++ a :: older) ∧
    AcceptsTargets E s ∧ EntersArmed a

/-- Without a later arm and accepted targets the motors stay off, and an armed core has no
targets. -/
theorem off_after_halt {E : Env} {d₀ d : Diag} {h : List (Event Diag Action)}
    (hh : d₀.Halted) (hp : Path (Det (act E)) d₀ h d) (hn : ¬ ArmedThenCommanded E h) :
    (∀ i, ¬ (d.motors i).Driven) ∧ (d.core.state = .armed →
      (∃ a ∈ h, EntersArmed a) ∧ ∀ i, d.core.targetCounts i = 0) := by
  induction hp with
  | refl => exact ⟨hh.2, fun ha => absurd ha hh.1⟩
  | @snoc h d d' a hp hd ih =>
    have hn' : ¬ ArmedThenCommanded E h := by
      intro hex
      obtain ⟨newer, s, between, x, older, rfl, hs, hx⟩ := hex
      exact hn ⟨_ :: newer, s, between, x, older, rfl, hs, hx⟩
    obtain ⟨hoff, hidle⟩ := ih hn'
    have harmed : d'.core.state = .armed →
        (∃ x ∈ (⟨d, a, d'⟩ : Event Diag Action) :: h, EntersArmed x) ∧
          ∀ i, d'.core.targetCounts i = 0 := by
      intro ha
      by_cases hb : d.core.state = .armed
      · obtain ⟨⟨x, hx, hxa⟩, htargets⟩ := hidle hb
        refine ⟨⟨x, List.mem_cons_of_mem _ hx, hxa⟩, ?_⟩
        rcases act_outcome hd with ⟨_, hsame⟩ | ⟨call, r, hc, ho⟩
        · rw [hsame]
          exact htargets
        · rcases ho.targetCounts with hk | hz | ⟨targets, hcall, _, _, hrefuses, _⟩
          · rw [hk]
            exact htargets
          · rw [hz]
            exact fun _ => rfl
          · -- accepted targets after the arm are what the hypothesis excludes
            dsimp only at hcall
            subst hcall
            obtain ⟨between, older, rfl⟩ := List.append_of_mem hx
            have hok : (robotChassisCoreSubmit d.core (some targets) d.nowMs).1 = true := by
              rcases submit_cases d.core targets d.nowMs with ⟨hna, _⟩ | ⟨_, href, _⟩ |
                ⟨_, _, hok, _⟩
              · exact absurd hb hna
              · exact absurd href hrefuses
              · exact hok
            exact absurd ⟨[], _, between, x, older, rfl, ⟨targets, hc, hok⟩, hxa⟩ hn
      · have hx : EntersArmed ⟨d, a, d'⟩ := ⟨hb, ha⟩
        obtain ⟨_, _, hzero⟩ := enters_armed_step (x := ⟨d, a, d'⟩) hd hb ha
        exact ⟨⟨_, List.mem_cons_self, hx⟩, fun i => (hzero.at_wheel i).1⟩
    refine ⟨?_, harmed⟩
    intro i hdriven
    cases hd
    obtain ⟨ha, ht⟩ := driven_of_act (hoff i) hdriven
    exact ht ((harmed ha).2 i)

theorem readEncoders_fst (counts : Wheels (Option Int32)) (l : List Wheel)
    (last delta : Wheels Int32) :
    (readEncoders counts l last delta).1 = false ↔ ∃ i ∈ l, counts i = none := by
  induction l generalizing last delta with
  | nil => simp [readEncoders]
  | cons i l ih =>
    unfold readEncoders
    cases hc : counts i with
    | none => simp [hc]
    | some n =>
      dsimp only
      rw [ih]
      simp [hc]

theorem encoderRead_fst (d : Diag) (counts : Wheels (Option Int32)) :
    (encoderRead d counts).1 = false ↔ ∃ i, counts i = none := by
  unfold encoderRead
  rw [readEncoders_fst]
  simp

def beforeSample (E : Env) (d : Diag) (it : Iteration) : Diag :=
  processRemoteEvents E (pollUart E (wake d it.nowUs) it.data (wake d it.nowUs).nowMs) it.events
    (pollUart E (wake d it.nowUs) it.data (wake d it.nowUs).nowMs).nowMs

theorem controlTaskIteration_sample (E : Env) (d : Diag) (it : Iteration) :
    controlTaskIteration E d it = sampleEncoders E (beforeSample E d it) it.counts := rfl

theorem sampleEncoders_of_failed {E : Env} {d : Diag} {counts : Wheels (Option Int32)}
    (hr : (encoderRead d counts).1 = false) :
    (sampleEncoders E d counts).core = robotChassisCoreStop d.core .encoderStall := by
  have hnot : ¬ (encoderRead d counts).1 = true := by simp [hr]
  unfold encoderRead at hnot
  unfold sampleEncoders
  dsimp only
  rw [if_neg hnot]

theorem iteration_motor {E : Env} {d : Diag} {it : Iteration} (i : Wheel)
    (hr : (controlTaskIteration E d it).Regulated) :
    (((controlTaskIteration E d it).motors i).mode = .coast ∨
      ((controlTaskIteration E d it).motors i).mode = .brake) ∨
    DrivenAs (controlTaskIteration E d it).core i ((controlTaskIteration E d it).motors i) := by
  have hw : ∀ i, |((controlTaskIteration E d it).core.output i).toInt| ≤ 100 := by
    intro i
    have ho := hr.2.output i
    rw [hr.1.maxOutput] at ho
    exact ho
  rw [controlTaskIteration_sample] at hw ⊢
  rcases sampleEncoders_motors E (beforeSample E d it) it.counts with ⟨_, hm⟩ | ⟨_, _, hm⟩
  · rw [hm]
    exact .inl (.inr rfl)
  · rw [hm]
    rcases applyOutput_cases hw i ((beforeSample E d it).motors i) with hc | hd
    · exact .inl (.inl hc)
    · exact .inr hd

theorem iteration_fault {E : Env} {d : Diag} {it : Iteration}
    (hinv : (controlTaskIteration E d it).core.Inv)
    (hf : (∃ i, it.counts i = none) ∨
      ((controlTaskIteration E d it).core.state = .faultLatched ∧
        (controlTaskIteration E d it).core.stopReason = .encoderStall)) :
    (controlTaskIteration E d it).core.state = .faultLatched ∧
      ∀ i, ((controlTaskIteration E d it).motors i).mode = .brake ∧
        (controlTaskIteration E d it).core.output i = 0 := by
  have hlatched : (controlTaskIteration E d it).core.state = .faultLatched := by
    rcases hf with hn | ⟨hl, _⟩
    · have hr := (encoderRead_fst (beforeSample E d it) it.counts).mpr hn
      rw [controlTaskIteration_sample, sampleEncoders_of_failed hr]
      exact stop_state _ _
    · exact hl
  refine ⟨hlatched, fun i => ⟨?_, ?_⟩⟩
  · rw [← encoderRead_fst (beforeSample E d it), controlTaskIteration_sample] at hf
    rw [controlTaskIteration_sample]
    rcases sampleEncoders_motors E (beforeSample E d it) it.counts with ⟨_, hm⟩ | ⟨hr, hn, _⟩
    · rw [hm]
      rfl
    · rcases hf with hf | hf
      · rw [hr] at hf
        cases hf
      · exact absurd hf hn
  · have hne : (controlTaskIteration E d it).core.state ≠ .armed := by
      rw [hlatched]
      simp
    exact ((hinv.idle hne).at_wheel i).2.1

/-- At the end of every iteration each motor is stopped or driven as the core asks, faults
brake, and after a halting action a motor turns only once the core was armed again and took
over targets. -/
theorem actuation_safe {E : Env} {d₀ : Diag} (hs : Started E d₀) (its : List Iteration)
    (it : Iteration) :
    (∀ i, ((((its ++ [it]).foldl (controlTaskIteration E) d₀).motors i).mode = .coast ∨
        (((its ++ [it]).foldl (controlTaskIteration E) d₀).motors i).mode = .brake) ∨
      DrivenAs ((its ++ [it]).foldl (controlTaskIteration E) d₀).core i
        (((its ++ [it]).foldl (controlTaskIteration E) d₀).motors i)) ∧
    ((∃ i, it.counts i = none) ∨
      (((its ++ [it]).foldl (controlTaskIteration E) d₀).core.state = .faultLatched ∧
        ((its ++ [it]).foldl (controlTaskIteration E) d₀).core.stopReason = .encoderStall) →
      ((its ++ [it]).foldl (controlTaskIteration E) d₀).core.state = .faultLatched ∧
        ∀ i, (((its ++ [it]).foldl (controlTaskIteration E) d₀).motors i).mode = .brake ∧
          ((its ++ [it]).foldl (controlTaskIteration E) d₀).core.output i = 0) ∧
    ∀ newer mid x older, controlHistory E d₀ (its ++ [it]) = newer ++ (mid ++ x :: older) →
      Halts E x → (∀ i, ¬ (x.after.motors i).Driven) ∧
        ∀ y ∈ mid.head?, (∃ i, (y.after.motors i).Driven) → ArmedThenCommanded E mid := by
  have hp := path_controlHistory E d₀ (its ++ [it])
  have hr := hp.invariant regulated_step (regulated_of_started hs)
  have hinv := diag_inv hs hp
  refine ⟨?_, ?_, ?_⟩
  · rw [List.foldl_append] at hr ⊢
    exact fun i => iteration_motor i hr
  · rw [List.foldl_append] at hinv ⊢
    exact iteration_fault hinv
  · intro newer mid x older hh hx
    rw [hh] at hp
    obtain ⟨s, hleft, _⟩ := hp.split
    obtain ⟨_, hd, hmid⟩ := hleft.at_event
    have hhalt := halted_of_halts hd hx
    refine ⟨hhalt.2, ?_⟩
    intro y hy hdriven
    obtain ⟨i, hi⟩ := hdriven
    by_contra hn
    obtain ⟨hoff, _⟩ := off_after_halt hhalt hmid hn
    cases hmid with
    | refl => simp at hy
    | snoc _ _ =>
      cases hy
      exact hoff i hi

def drivingIteration : Iteration :=
  ⟨1000000, [], [(.zero, goodReadings), (.arm, goodReadings),
    (.targets (fun _ => 5) false, goodReadings)], fun _ => some 0⟩

theorem actuation_safe_driving :
    DrivenAs (controlTaskIteration .rational readyDiag drivingIteration).core 0
      ((controlTaskIteration .rational readyDiag drivingIteration).motors 0) ∧
    ((controlTaskIteration .rational readyDiag drivingIteration).motors 0).speed = 226 := by
  obtain ⟨hmotor, _, _⟩ := actuation_safe readyDiag_started [] drivingIteration
  have hturning : ¬ (((controlTaskIteration .rational readyDiag drivingIteration).motors 0).mode =
      .coast ∨ ((controlTaskIteration .rational readyDiag drivingIteration).motors 0).mode =
      .brake) := by decide +kernel
  exact ⟨(hmotor 0).resolve_left hturning, by decide +kernel⟩

end RobotFirmware.Chassis
