import Mathlib.Analysis.SpecialFunctions.Trigonometric.Basic
import RobotFirmware.Chassis.OdometryPath
import RobotFirmware.Chassis.Encoders
import RobotFirmware.Chassis.Uart

/-! The odometry of the control task as a path over the samples it takes, from the latest
accepted ODOMZERO line on, and what that path says about the path from any other pose. -/
namespace RobotFirmware.Chassis
open Fp Planar Trace

/-- The action ends an ODOMZERO line that the task accepts. -/
def ResetsOdom (E : Env) (d : Diag) : Action → Prop
  | .char ch _ => completedCommand E d ch = some .odomZero ∧ d.core.state = .disarmed
  | _ => False

instance (E : Env) (d : Diag) : DecidablePred (ResetsOdom E d)
  | .char ch _ => inferInstanceAs (Decidable (completedCommand E d ch = some .odomZero ∧ _))
  | .wake _ | .event _ _ | .sample _ => inferInstanceAs (Decidable False)

/-- `(float)period_us / 1000000.0f` -/
def periodS (E : Env) (d : Diag) : Datum :=
  Datum.div E.single (E.ofInt d.periodUs) (literalF E 1000000)

def passedSample (E : Env) (d : Diag) : Action → Option (OdomSample Datum)
  | .sample counts =>
    if (encoderRead d counts).1 then some ⟨(encoderRead d counts).2.2, periodS E d⟩ else none
  | _ => none

def updateWith (E : Env) (odom : Odom) (s : OdomSample Datum) : Bool × Odom :=
  robotChassisOdomUpdate E odom (some s.countDelta) s.dtS (metresPerCount E) (turnGeometryM E)

/-- The odometry that an action writes, and its time. -/
def odomWrite (E : Env) (d : Diag) : Action → Option (Odom × ℤ)
  | .char ch r => if ResetsOdom E d (.char ch r) then some (.zero, r.clockUs) else none
  | a => (passedSample E d a).bind fun s =>
    if (updateWith E d.odom s).1 then some ((updateWith E d.odom s).2, d.nowUs) else none

theorem completedCommand_eq (E : Env) (d : Diag) (ch : Char) (r : Readings) :
    completedCommand E d ch = (processedLine d (.char ch r)).map (parseCommand E.single) := by
  by_cases hline : isTerminator ch = true ∧ 0 < d.uartLine.chars.length
  · have hemit : processedLine d (.char ch r) = some d.uartLine.chars := if_pos hline
    rw [hemit]
    exact if_pos ⟨isTerminator_iff.mp hline.1, hline.2⟩
  · have hemit : processedLine d (.char ch r) = none := if_neg hline
    rw [hemit]
    exact if_neg fun h => hline ⟨isTerminator_iff.mpr h.1, h.2⟩

/-- An ODOMZERO is accepted where the line that a byte ends is one, while disarmed. -/
theorem resetsOdom_char_iff {E : Env} {d : Diag} {ch : Char} {r : Readings} :
    ResetsOdom E d (.char ch r) ↔ ∃ line, processedLine d (.char ch r) = some line ∧
      parseCommand E.single line = .odomZero ∧ d.core.state = .disarmed := by
  unfold ResetsOdom
  dsimp only
  rw [completedCommand_eq E d ch r]
  cases processedLine d (.char ch r) with
  | none => simp
  | some line => simp

theorem sampleEncoders_of_read {E : Env} {d : Diag} {counts : Wheels (Option Int32)}
    (hread : (encoderRead d counts).1 = true) :
    sampleEncoders E d counts = stepSample E { d with lastCounts := (encoderRead d counts).2.1 }
      (encoderRead d counts).2.2 := if_pos hread

theorem sampleEncoders_of_not_read {E : Env} {d : Diag} {counts : Wheels (Option Int32)}
    (hread : ¬ (encoderRead d counts).1 = true) :
    sampleEncoders E d counts =
      { d with
        lastCounts := (encoderRead d counts).2.1
        core := robotChassisCoreStop d.core .encoderStall
        motors := stopAll true d.motors } := if_neg hread

theorem stepSample_write (E : Env) (d : Diag) (delta : Wheels Int32) :
    ((stepSample E d delta).odom, (stepSample E d delta).odomSampledAtUs) =
      (if (updateWith E d.odom ⟨delta, periodS E d⟩).1 then
        some ((updateWith E d.odom ⟨delta, periodS E d⟩).2, d.nowUs)
      else none).getD (d.odom, d.odomSampledAtUs) := by
  unfold stepSample updateWith periodS
  dsimp only
  by_cases haccepted : (robotChassisOdomUpdate E d.odom (some delta)
      (Datum.div E.single (E.ofInt d.periodUs) (literalF E 1000000)) (metresPerCount E)
      (turnGeometryM E)).1 = true
  · rw [if_pos haccepted, if_pos haccepted, Option.getD_some]
  · rw [if_neg haccepted, if_neg haccepted, Option.getD_none]

theorem sampleEncoders_odom (E : Env) (d : Diag) (counts : Wheels (Option Int32)) :
    ((sampleEncoders E d counts).odom, (sampleEncoders E d counts).odomSampledAtUs) =
      (odomWrite E d (.sample counts)).getD (d.odom, d.odomSampledAtUs) := by
  unfold odomWrite
  dsimp only
  by_cases hread : (encoderRead d counts).1 = true
  · have hpassed : passedSample E d (.sample counts) =
        some ⟨(encoderRead d counts).2.2, periodS E d⟩ := if_pos hread
    have hwrite := stepSample_write E { d with lastCounts := (encoderRead d counts).2.1 }
      (encoderRead d counts).2.2
    rw [sampleEncoders_of_read hread, hwrite, hpassed]
    rfl
  · have hnone : passedSample E d (.sample counts) = none := if_neg hread
    rw [sampleEncoders_of_not_read hread, hnone]
    rfl

/-- An action writes the odometry together with its time, or neither. -/
theorem act_odom (E : Env) (d : Diag) (a : Action) :
    ((act E d a).odom, (act E d a).odomSampledAtUs) =
      (odomWrite E d a).getD (d.odom, d.odomSampledAtUs) := by
  cases a with
  | wake nowUs => rfl
  | event event r => exact handleRemoteEvent_odom E d event r _
  | sample counts => exact sampleEncoders_odom E d counts
  | char ch r =>
    unfold odomWrite
    dsimp only
    rcases pollUartChar_cases E d ch r d.nowMs with ⟨line, hline, hd⟩ | ⟨hnone, _, hd⟩ |
      ⟨hnone, _, line, hd⟩
    · have hprocessed := processCommand_odom E d r line d.nowMs
      have hresets : ResetsOdom E d (.char ch r) ↔
          parseCommand E.single line = .odomZero ∧ d.core.state = .disarmed := by
        rw [resetsOdom_char_iff, hline]
        simp
      rw [act, hd, if_congr hresets rfl rfl]
      dsimp only
      rw [hprocessed]
      split_ifs <;> rfl
    · have hkept : ¬ ResetsOdom E d (.char ch r) := by
        rw [resetsOdom_char_iff, hnone]
        simp
      rw [act, hd, if_neg hkept]
      rfl
    · have hkept : ¬ ResetsOdom E d (.char ch r) := by
        rw [resetsOdom_char_iff, hnone]
        simp
      rw [act, hd, if_neg hkept]
      rfl

def Diag.withOdom (d : Diag) (odom : Odom) (sampledAtUs : ℤ) : Diag :=
  { d with odom := odom, odomSampledAtUs := sampledAtUs }

variable (E : Env) (d : Diag) (odom : Odom) (sampledAtUs : ℤ)

theorem armIfBatteryOk_withOdom (r : Readings) (nowMs : UInt32) :
    armIfBatteryOk E (d.withOdom odom sampledAtUs) r nowMs =
      (armIfBatteryOk E d r nowMs).withOdom odom sampledAtUs := by
  have hbattery : printBatteryStatus E (d.withOdom odom sampledAtUs) r.adc =
      printBatteryStatus E d r.adc := rfl
  unfold armIfBatteryOk
  rw [hbattery]
  split_ifs
  · rfl
  · rfl

theorem submitTargets_withOdom (targets : Wheels Int32) (nowMs : UInt32) :
    submitTargets (d.withOdom odom sampledAtUs) targets nowMs =
      (submitTargets d targets nowMs).withOdom odom sampledAtUs := by
  unfold submitTargets
  change (if (robotChassisCoreSubmit d.core (some targets) nowMs).1 then _ else _) = _
  dsimp only
  split_ifs
  · rfl
  · rfl

theorem processCommand_withOdom (r : Readings) (chars : List Char) (nowMs : UInt32) :
    ∃ odom' sampledAtUs', processCommand E (d.withOdom odom sampledAtUs) r chars nowMs =
      (processCommand E d r chars nowMs).withOdom odom' sampledAtUs' := by
  unfold processCommand
  cases parseCommand E.single chars with
  | zero => exact ⟨odom, sampledAtUs, rfl⟩
  | clear => exact ⟨odom, sampledAtUs, rfl⟩
  | status => exact ⟨odom, sampledAtUs, rfl⟩
  | bat => exact ⟨odom, sampledAtUs, rfl⟩
  | invalid => exact ⟨odom, sampledAtUs, rfl⟩
  | arm => exact ⟨odom, sampledAtUs, armIfBatteryOk_withOdom E d odom sampledAtUs r nowMs⟩
  | run wheel target => exact ⟨odom, sampledAtUs, submitTargets_withOdom d odom sampledAtUs _ _⟩
  | odomZero =>
    by_cases hd : d.core.state = .disarmed
    · refine ⟨.zero, r.clockUs, (if_pos hd).trans ?_⟩
      dsimp only
      rw [if_pos hd]
      rfl
    · refine ⟨odom, sampledAtUs, (if_neg hd).trans ?_⟩
      dsimp only
      rw [if_neg hd]
  | imuPause durationMs =>
    by_cases hd : d.core.state = .disarmed ∧ controlSetpointsAreZero d.core
    · refine ⟨odom, sampledAtUs, (if_pos hd).trans ?_⟩
      dsimp only
      rw [if_pos hd]
      rfl
    · refine ⟨odom, sampledAtUs, (if_neg hd).trans ?_⟩
      dsimp only
      rw [if_neg hd]
  | gain kp ki =>
    refine ⟨odom, sampledAtUs, ?_⟩
    dsimp only
    split_ifs
    · rfl
    · rfl

theorem pollUartChar_withOdom (ch : Char) (r : Readings) (nowMs : UInt32) :
    ∃ odom' sampledAtUs', pollUartChar E (d.withOdom odom sampledAtUs) ch r nowMs =
      (pollUartChar E d ch r nowMs).withOdom odom' sampledAtUs' := by
  unfold pollUartChar
  by_cases hend : ch = '\r' ∨ ch = '\n'
  · rw [if_pos hend, if_pos hend]
    by_cases hused : 0 < d.uartLine.chars.length
    · obtain ⟨odom', sampledAtUs', hline⟩ :=
        processCommand_withOdom E d odom sampledAtUs r d.uartLine.chars nowMs
      have hprocessed : processCommand E (d.withOdom odom sampledAtUs) r
          (d.withOdom odom sampledAtUs).uartLine.chars nowMs =
            (processCommand E d r d.uartLine.chars nowMs).withOdom odom' sampledAtUs' := hline
      refine ⟨odom', sampledAtUs', (if_pos hused).trans ?_⟩
      rw [if_pos hused, hprocessed]
      rfl
    · refine ⟨odom, sampledAtUs, (if_neg hused).trans ?_⟩
      rw [if_neg hused]
  · rw [if_neg hend, if_neg hend]
    by_cases hroom : d.uartLine.chars.length + 1 < 64
    · refine ⟨odom, sampledAtUs, (dif_pos hroom).trans ?_⟩
      rw [dif_pos hroom]
      rfl
    · refine ⟨odom, sampledAtUs, (dif_neg hroom).trans ?_⟩
      rw [dif_neg hroom]
      rfl

theorem handleRemoteEvent_withOdom (event : RemoteEvent) (r : Readings) (nowMs : UInt32) :
    handleRemoteEvent E (d.withOdom odom sampledAtUs) event r nowMs =
      (handleRemoteEvent E d event r nowMs).withOdom odom sampledAtUs := by
  cases event with
  | zero => rfl
  | arm => exact armIfBatteryOk_withOdom E d odom sampledAtUs r nowMs
  | stop => rfl
  | targets targets limited => exact submitTargets_withOdom d odom sampledAtUs targets nowMs
  | unknown => rfl

def controlStep (E : Env) (d : Diag) (delta : Wheels Int32) : Diag :=
  let core := robotChassisCoreStep E d.core (some delta) d.nowMs
  { d with
    core := core
    motors :=
      if core.state = .faultLatched ∧ core.stopReason = .encoderStall then stopAll true d.motors
      else applyOutputs core d.motors }

theorem stepSample_controlStep (delta : Wheels Int32) :
    ∃ odom sampledAtUs,
      stepSample E d delta = (controlStep E d delta).withOdom odom sampledAtUs := by
  by_cases haccepted : (updateWith E d.odom ⟨delta, periodS E d⟩).1 = true
  · exact ⟨_, _, if_pos haccepted⟩
  · exact ⟨d.odom, d.odomSampledAtUs, if_neg haccepted⟩

theorem stepSample_withOdom (delta : Wheels Int32) :
    ∃ odom' sampledAtUs', stepSample E (d.withOdom odom sampledAtUs) delta =
      (stepSample E d delta).withOdom odom' sampledAtUs' := by
  obtain ⟨_, _, hplain⟩ := stepSample_controlStep E d delta
  obtain ⟨odom', sampledAtUs', hother⟩ :=
    stepSample_controlStep E (d.withOdom odom sampledAtUs) delta
  refine ⟨odom', sampledAtUs', ?_⟩
  rw [hplain, hother]
  rfl

theorem sampleEncoders_withOdom (counts : Wheels (Option Int32)) :
    ∃ odom' sampledAtUs', sampleEncoders E (d.withOdom odom sampledAtUs) counts =
      (sampleEncoders E d counts).withOdom odom' sampledAtUs' := by
  by_cases hread : (encoderRead d counts).1 = true
  · obtain ⟨odom', sampledAtUs', hstep⟩ := stepSample_withOdom E
      { d with lastCounts := (encoderRead d counts).2.1 } odom sampledAtUs
      (encoderRead d counts).2.2
    rw [sampleEncoders_of_read hread]
    exact ⟨odom', sampledAtUs', (if_pos hread).trans hstep⟩
  · rw [sampleEncoders_of_not_read hread]
    exact ⟨odom, sampledAtUs, if_neg hread⟩

theorem act_withOdom (a : Action) :
    ∃ odom' sampledAtUs', act E (d.withOdom odom sampledAtUs) a =
      (act E d a).withOdom odom' sampledAtUs' := by
  cases a with
  | wake nowUs => exact ⟨odom, sampledAtUs, rfl⟩
  | event event r =>
    exact ⟨odom, sampledAtUs, handleRemoteEvent_withOdom E d odom sampledAtUs event r d.nowMs⟩
  | char ch r => exact pollUartChar_withOdom E d odom sampledAtUs ch r d.nowMs
  | sample counts => exact sampleEncoders_withOdom E d odom sampledAtUs counts

def passedSamples (E : Env) : Diag → List Action → List (OdomSample Datum)
  | _, [] => []
  | d, a :: actions => (passedSample E d a).toList ++ passedSamples E (act E d a) actions

def ResetFree (E : Env) : Diag → List Action → Prop
  | _, [] => True
  | d, a :: actions => ¬ ResetsOdom E d a ∧ ResetFree E (act E d a) actions

theorem run_withOdom (actions : List Action) :
    passedSamples E (d.withOdom odom sampledAtUs) actions = passedSamples E d actions ∧
      (ResetFree E (d.withOdom odom sampledAtUs) actions ↔ ResetFree E d actions) := by
  induction actions generalizing d odom sampledAtUs with
  | nil => exact ⟨rfl, Iff.rfl⟩
  | cons a actions ih =>
    obtain ⟨odom', sampledAtUs', hact⟩ := act_withOdom E d odom sampledAtUs a
    obtain ⟨hsamples, hfree⟩ := ih (act E d a) odom' sampledAtUs'
    have hpassed : passedSample E (d.withOdom odom sampledAtUs) a = passedSample E d a := by
      cases a <;> rfl
    have hresets : ResetsOdom E (d.withOdom odom sampledAtUs) a ↔ ResetsOdom E d a := by
      cases a <;> rfl
    unfold passedSamples ResetFree
    rw [hact, hpassed, hsamples, hresets, hfree]
    exact ⟨rfl, Iff.rfl⟩

def taskOdomAlong (E : Env) (odom : OdomOver Datum) (samples : List (OdomSample Datum)) :
    OdomOver Datum :=
  odomAlong E.arith (metresPerCount E) (turnGeometryM E) odom samples

theorem updateWith_over (s : OdomSample Datum) :
    (updateWith E odom s).2.over = taskOdomAlong E odom.over [s] := by
  have hover := robotChassisOdomUpdate_over E odom (some s.countDelta) s.dtS (metresPerCount E)
    (turnGeometryM E)
  exact (congrArg Prod.snd hover).symm

variable {E d}

theorem act_odom_of_not_reset {a : Action} (ha : ¬ ResetsOdom E d a) :
    (act E d a).odom.over = taskOdomAlong E d.odom.over (passedSample E d a).toList := by
  have hact := congrArg Prod.fst (act_odom E d a)
  have hwrite : odomWrite E d a = (passedSample E d a).bind fun s =>
      if (updateWith E d.odom s).1 then some ((updateWith E d.odom s).2, d.nowUs) else none := by
    cases a with
    | char ch r => exact if_neg ha
    | _ => rfl
  dsimp only at hact
  rw [hwrite] at hact
  rw [hact]
  cases hpassed : passedSample E d a with
  | none => rfl
  | some s =>
    rw [Option.bind_some, Option.toList_some, ← updateWith_over]
    by_cases haccepted : (updateWith E d.odom s).1 = true
    · rw [if_pos haccepted, Option.getD_some]
    · rw [if_neg haccepted, Option.getD_none]
      exact congrArg Odom.over (odomUpdate_refused haccepted).symm

/-- Until the odometry is reset, it is the path over the samples the task takes. -/
theorem run_odom {actions : List Action} (hf : ResetFree E d actions) :
    (actions.foldl (act E) d).odom.over =
      taskOdomAlong E d.odom.over (passedSamples E d actions) := by
  induction actions generalizing d with
  | nil => rfl
  | cons a actions ih =>
    have hhead := act_odom_of_not_reset hf.1
    have htail := ih hf.2
    rw [List.foldl_cons, htail, hhead]
    exact List.foldl_append.symm

theorem act_odom_of_reset {a : Action} (ha : ResetsOdom E d a) : (act E d a).odom = .zero := by
  have hact := congrArg Prod.fst (act_odom E d a)
  cases a with
  | char ch r =>
    have hwrite : odomWrite E d (.char ch r) = some (.zero, r.clockUs) := if_pos ha
    rw [hwrite] at hact
    exact hact
  | wake nowUs => exact ha.elim
  | event event r => exact ha.elim
  | sample counts => exact ha.elim

section Exact

variable {K : Type*} [Field K] [LinearOrder K] [IsStrictOrderedRing K] {cos sin : K → K}
  {metresPerCount turnGeometryM : K}

theorem odomAlong_compose (h : AngleAddition cos sin) (hm : 0 < metresPerCount)
    (ht : 0 < turnGeometryM) (start : OdomOver K) {samples : List (OdomSample K)}
    (hdt : ∀ s ∈ samples, 0 < s.dtS) :
    (odomAlong (.exact cos sin) metresPerCount turnGeometryM start samples).pose =
      start.pose.compose cos sin (odomAlong (.exact cos sin) metresPerCount turnGeometryM
        (.zero (.exact cos sin)) samples).pose := by
  have horigin : (OdomOver.zero (.exact cos sin)).pose = Pose.origin := by
    simp [OdomOver.pose, OdomOver.zero, Arith.exact, Pose.origin]
  rw [odomAlong_pose hm ht start hdt, odomAlong_pose hm ht _ hdt, horigin]
  exact Pose.along_eq_compose h start.pose _

/-- In exact arithmetic with the addition formulas a path looks the same from every pose. The
task reports the path since its latest accepted ODOMZERO from zero; had that line left the pose
alone, it would report the same samples from the pose it had. -/
theorem odom_origin_independent (h : AngleAddition cos sin) (hm : 0 < metresPerCount)
    (ht : 0 < turnGeometryM) (start : OdomOver K) {samples : List (OdomSample K)}
    (hdt : ∀ s ∈ samples, 0 < s.dtS) :
    (let along := fun odom => odomAlong (.exact cos sin) metresPerCount turnGeometryM odom samples
     let rel := along (.zero (.exact cos sin))
     (along start).xM = start.xM + cos start.yawRad * rel.xM - sin start.yawRad * rel.yM ∧
      (along start).yM = start.yM + sin start.yawRad * rel.xM + cos start.yawRad * rel.yM ∧
      (along start).yawRad = start.yawRad + rel.yawRad ∧
      (samples ≠ [] → (along start).linearXMps = rel.linearXMps ∧
        (along start).angularZRadps = rel.angularZRadps)) ∧
    ∀ (E : Env) (d : Diag) (a : Action) (rest : List Action), ResetsOdom E d a →
      ResetFree E (act E d a) rest → ∃ since : List (OdomSample Datum),
        (rest.foldl (act E) (act E d a)).odom.over = taskOdomAlong E (.zero E.arith) since ∧
        (rest.foldl (act E) ((act E d a).withOdom d.odom d.odomSampledAtUs)).odom.over =
          taskOdomAlong E d.odom.over since := by
  constructor
  · have hseen := odomAlong_compose h hm ht start hdt
    refine ⟨congrArg Pose.x hseen, congrArg Pose.y hseen, congrArg Pose.yaw hseen, fun hne => ?_⟩
    exact odomAlong_velocity hm ht start _ hdt hne
  · intro E d a rest ha hfree
    refine ⟨passedSamples E (act E d a) rest, ?_, ?_⟩
    · have hrun := run_odom hfree
      rw [act_odom_of_reset ha] at hrun
      exact hrun
    · obtain ⟨hsamples, hsame⟩ := run_withOdom E (act E d a) d.odom d.odomSampledAtUs rest
      have hrun := run_odom (hsame.mpr hfree)
      rw [hsamples] at hrun
      exact hrun

/-- Seen from a pose that faces along the second axis, the first axis of a path is the second. -/
theorem odom_origin_independent_left :
    (odomAlong (.exact Real.cos Real.sin) 1 1 ⟨1, 2, Real.pi / 2, 0, 0⟩
      [⟨fun i => if i < 2 then 10 else 30, 1⟩, ⟨fun _ => 7, 2⟩]).yM =
    2 + (odomAlong (.exact Real.cos Real.sin) 1 1 (.zero (.exact Real.cos Real.sin))
      [⟨fun i => if i < 2 then 10 else 30, 1⟩, ⟨fun _ => 7, 2⟩]).xM := by
  have hdt : ∀ s ∈ [(⟨fun i => if i < 2 then 10 else 30, 1⟩ : OdomSample ℝ),
      ⟨fun _ => 7, 2⟩], 0 < s.dtS := by simp
  have hleft := (odom_origin_independent ⟨Real.cos_add, Real.sin_add⟩ one_pos one_pos
    ⟨1, 2, Real.pi / 2, 0, 0⟩ hdt).1.2.1
  rw [Real.sin_pi_div_two, Real.cos_pi_div_two, one_mul, zero_mul, add_zero] at hleft
  exact hleft

end Exact

end RobotFirmware.Chassis
