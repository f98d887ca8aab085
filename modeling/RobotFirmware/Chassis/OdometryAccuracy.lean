import RobotFirmware.Chassis.OdometryDrift
import RobotFirmware.Chassis.OdomStamps

/-! The accuracy of the odometry over runs of the control task, from the start or the latest
accepted ODOMZERO line on. -/
namespace RobotFirmware.Chassis
open Fp Planar Trace

/-- The counts come from counters that restart at the limit. -/
def CountsWithin (counts : Wheels (Option Int32)) : Prop :=
  ∀ i n, counts i = some n → |n.toInt| < 30000

/-- One pass after the other, within the range of the period. -/
def PassesPaced (its : List Iteration) : Prop :=
  its.IsChain fun it next => it.nowUs < next.nowUs ∧ next.nowUs - it.nowUs < 2 ^ 31

theorem abs_shortest_le (limit raw : ℤ) : |WrapCounter.shortest limit raw| ≤ |raw| := by
  unfold WrapCounter.shortest
  dsimp only
  split_ifs
  · omega
  · omega
  · omega
  · exact le_rfl

theorem safeCountDelta_small {current previous : Int32} (hcurrent : |current.toInt| < 30000)
    (hprevious : |previous.toInt| < 30000) :
    |(robotChassisSafeCountDelta current previous encoderCountLimit).toInt| ≤ 2 ^ 20 := by
  have hlimit : encoderCountLimit.toInt = 30000 := by decide
  have hraw : |current.toInt - previous.toInt| < 60000 := by
    obtain ⟨hlow, hhigh⟩ := abs_lt.mp hcurrent
    obtain ⟨hlow', hhigh'⟩ := abs_lt.mp hprevious
    rw [abs_lt]
    constructor <;> omega
  rw [safeCountDelta_toInt (by omega) (by omega), hlimit]
  have hshortest := abs_shortest_le 30000 (current.toInt - previous.toInt)
  omega

/-- The read loop keeps the counts within the limits and delivers small deltas. -/
theorem encoderRead_small {d : Diag} {counts : Wheels (Option Int32)}
    (hlast : ∀ i, |(d.lastCounts i).toInt| < 30000) (hcounts : CountsWithin counts) :
    (∀ i, |((encoderRead d counts).2.1 i).toInt| < 30000) ∧
      SmallDeltas (encoderRead d counts).2.2 := by
  have hwheel : ∀ i, |((encoderRead d counts).2.1 i).toInt| < 30000 ∧
      |((encoderRead d counts).2.2 i).toInt| ≤ 2 ^ 20 := by
    intro i
    obtain ⟨hread, hkept⟩ := readEncoders_spec counts (List.nodup_finRange 4) d.lastCounts
      (fun _ => 0) i
    by_cases hi : i ∈ (List.finRange 4).takeWhile fun j => (counts j).isSome
    · obtain ⟨n, hn, hcount, hdelta⟩ := hread hi
      unfold encoderRead
      rw [hcount, hdelta]
      exact ⟨hcounts i n hn, safeCountDelta_small (hcounts i n hn) (hlast i)⟩
    · obtain ⟨hcount, hdelta⟩ := hkept hi
      unfold encoderRead
      rw [hcount, hdelta]
      exact ⟨hlast i, by decide⟩
  exact ⟨fun i => (hwheel i).1, fun i => (hwheel i).2⟩

theorem processCommand_clock (E : Env) (d : Diag) (r : Readings) (chars : List Char)
    (nowMs : UInt32) : (processCommand E d r chars nowMs).periodUs = d.periodUs ∧
      (processCommand E d r chars nowMs).priorUs = d.priorUs := by
  unfold processCommand armIfBatteryOk submitTargets
  cases parseCommand E.single chars <;> dsimp only <;> (try split_ifs) <;> exact ⟨rfl, rfl⟩

theorem handleRemoteEvent_clock (E : Env) (d : Diag) (event : RemoteEvent) (r : Readings)
    (nowMs : UInt32) : (handleRemoteEvent E d event r nowMs).periodUs = d.periodUs ∧
      (handleRemoteEvent E d event r nowMs).priorUs = d.priorUs := by
  unfold handleRemoteEvent armIfBatteryOk submitTargets
  cases event <;> dsimp only <;> (try split_ifs) <;> exact ⟨rfl, rfl⟩

theorem input_clock (E : Env) (d : Diag) {it : Iteration} {a : Action} (ha : a ∈ it.inputs) :
    (act E d a).periodUs = d.periodUs ∧ (act E d a).priorUs = d.priorUs := by
  rcases Iteration.mem_inputs ha with ⟨ch, r, rfl⟩ | ⟨event, r, rfl⟩
  · rcases pollUartChar_cases E d ch r d.nowMs with ⟨line, _, hd⟩ | ⟨_, _, hd⟩ | ⟨_, _, line, hd⟩
    · rw [act, hd]
      exact processCommand_clock E d r line d.nowMs
    · rw [act, hd]
      exact ⟨rfl, rfl⟩
    · rw [act, hd]
      exact ⟨rfl, rfl⟩
  · exact handleRemoteEvent_clock E d event r d.nowMs

theorem beforeSample_clock (E : Env) (d : Diag) (it : Iteration) :
    (beforeSample E d it).periodUs = (wake d it.nowUs).periodUs ∧
      (beforeSample E d it).priorUs = it.nowUs := by
  have hinputs : ∀ (inputs : List Action) (d : Diag), inputs ⊆ it.inputs →
      (inputs.foldl (act E) d).periodUs = d.periodUs ∧
        (inputs.foldl (act E) d).priorUs = d.priorUs := by
    intro inputs
    induction inputs with
    | nil => exact fun _ _ => ⟨rfl, rfl⟩
    | cons a inputs ih =>
      intro d hsub
      obtain ⟨ha, hrest⟩ := List.cons_subset.mp hsub
      obtain ⟨hperiod, hprior⟩ := ih (act E d a) hrest
      obtain ⟨hperiod', hprior'⟩ := input_clock E d ha
      exact ⟨hperiod.trans hperiod', hprior.trans hprior'⟩
  rw [beforeSample_eq]
  exact hinputs it.inputs (wake d it.nowUs) (List.Subset.refl _)

theorem sampleEncoders_priorUs (E : Env) (d : Diag) (counts : Wheels (Option Int32)) :
    (sampleEncoders E d counts).priorUs = d.priorUs := by
  unfold sampleEncoders stepSample
  dsimp only
  split_ifs <;> rfl

theorem wake_period {d : Diag} {nowUs : ℤ}
    (hpace : d.priorUs = 0 ∨ d.priorUs < nowUs ∧ nowUs - d.priorUs < 2 ^ 31) :
    0 < (wake d nowUs).periodUs.toInt := by
  unfold wake
  dsimp only
  by_cases hprior : d.priorUs = 0
  · rw [if_neg (not_not.mpr hprior)]
    decide
  · obtain ⟨hlater, hshort⟩ := hpace.resolve_left hprior
    rw [if_pos hprior, Int32.toInt_ofInt_of_le (by omega) (by omega)]
    omega

theorem periodS_longEnough {E : Env} (hE : E.single.Standard (1 / 2 ^ 24) (1 / 2 ^ 150)) {d : Diag}
    (hperiod : 0 < d.periodUs.toInt) : LongEnough (periodS E d) := by
  have hmillion : literalF E 1000000 = .finite 1000000 := by
    have hround := E.single.round_int 1000000 (by norm_num)
    exact_mod_cast hround
  have hone : (1 : ℚ) ≤ d.periodUs.toInt := by exact_mod_cast hperiod
  have htop : (d.periodUs.toInt : ℚ) ≤ 2 ^ 31 := by exact_mod_cast d.periodUs.toInt_lt.le
  have habs : |(d.periodUs.toInt : ℚ)| = d.periodUs.toInt := abs_of_pos (by linarith)
  obtain ⟨us, hus, hnear⟩ := standard_near hE (q := d.periodUs.toInt)
    (by rw [habs]; exact le_trans (by norm_num) hone)
    (by rw [habs]; exact htop.trans (by norm_num))
  have hquotient := hnear.div_right 1000000
  have hsize := hquotient.abs_lower
  have hsize' := hquotient.abs_upper
  rw [abs_of_pos (by positivity : (0 : ℚ) < d.periodUs.toInt / 1000000)] at hsize hsize'
  obtain ⟨s, hs, hrounded⟩ := standard_near hE (q := us / 1000000) (by linarith) (by linarith)
  have huspos : 0 < us := hnear.pos (by norm_num) (by linarith)
  have hpos : 0 < s := hrounded.pos (by norm_num) (by positivity)
  have hus' : E.ofInt d.periodUs = .finite us := hus
  have hlong := (hquotient.trans hrounded (by norm_num)).abs_lower
  rw [abs_of_pos (by positivity : (0 : ℚ) < d.periodUs.toInt / 1000000), abs_of_pos hpos] at hlong
  refine ⟨s, ?_, by linarith⟩
  unfold periodS
  rw [hus', hmillion, Datum.div_finite E.single us (by norm_num : (1000000 : ℚ) ≠ 0), hs]

theorem passedSamples_append (E : Env) (d : Diag) (older newer : List Action) :
    passedSamples E d (older ++ newer) =
      passedSamples E d older ++ passedSamples E (older.foldl (act E) d) newer := by
  induction older generalizing d with
  | nil => rfl
  | cons a older ih =>
    rw [List.cons_append, passedSamples, ih, passedSamples, List.foldl_cons, List.append_assoc]

theorem passedSamples_of_inputs (E : Env) {actions : List Action}
    (ha : ∀ a ∈ actions, ∀ counts, a ≠ .sample counts) (d : Diag) :
    passedSamples E d actions = [] := by
  induction actions generalizing d with
  | nil => rfl
  | cons a actions ih =>
    obtain ⟨hfirst, hrest⟩ := List.forall_mem_cons.mp ha
    have hnone : passedSample E d a = none := by
      cases a with
      | sample counts => exact absurd rfl (hfirst counts)
      | _ => rfl
    rw [passedSamples, hnone, ih hrest]
    rfl

theorem iteration_passedSamples (E : Env) (d : Diag) (it : Iteration) :
    passedSamples E d it.actions =
      (passedSample E (beforeSample E d it) (.sample it.counts)).toList := by
  have hinputs : ∀ a ∈ it.inputs, ∀ counts, a ≠ .sample counts := by
    intro a ha counts
    rcases Iteration.mem_inputs ha with ⟨ch, r, rfl⟩ | ⟨event, r, rfl⟩
    · exact nofun
    · exact nofun
  have hwake : passedSample E d (.wake it.nowUs) = none := rfl
  rw [Iteration.actions_eq, passedSamples, hwake, passedSamples_append,
    passedSamples_of_inputs E hinputs, beforeSample_eq]
  exact List.append_nil _

theorem iteration_priorUs (E : Env) (d : Diag) (it : Iteration) :
    (controlTaskIteration E d it).priorUs = it.nowUs :=
  (sampleEncoders_priorUs E (beforeSample E d it) it.counts).trans (beforeSample_clock E d it).2

theorem iteration_lastCounts (E : Env) (d : Diag) (it : Iteration) :
    (controlTaskIteration E d it).lastCounts =
      (encoderRead (beforeSample E d it) it.counts).2.1 :=
  sampleEncoders_lastCounts E (beforeSample E d it) it.counts

/-- What the passes give to the odometry has a period and small deltas. -/
theorem samples_regular {E : Env} (hE : E.single.Standard (1 / 2 ^ 24) (1 / 2 ^ 150))
    {its : List Iteration} (hpaced : PassesPaced its) (hcounts : ∀ it ∈ its, CountsWithin it.counts)
    {d : Diag} (hlast : ∀ i, |(d.lastCounts i).toInt| < 30000)
    (hprior : d.priorUs = 0 ∨ ∀ it ∈ its.head?, d.priorUs < it.nowUs ∧
      it.nowUs - d.priorUs < 2 ^ 31) :
    ∀ s ∈ passedSamples E d (its.flatMap Iteration.actions),
      LongEnough s.dtS ∧ SmallDeltas s.countDelta := by
  induction its generalizing d with
  | nil => exact fun s hs => absurd hs List.not_mem_nil
  | cons it its ih =>
    obtain ⟨hfirst, hrest⟩ := List.forall_mem_cons.mp hcounts
    have hpace : d.priorUs = 0 ∨ d.priorUs < it.nowUs ∧ it.nowUs - d.priorUs < 2 ^ 31 :=
      hprior.imp id fun h => h it rfl
    have hbefore : ∀ i, |((beforeSample E d it).lastCounts i).toInt| < 30000 := by
      rw [beforeSample_lastCounts]
      exact hlast
    obtain ⟨hread, hsmall⟩ := encoderRead_small hbefore hfirst
    intro s hs
    rw [List.flatMap_cons, passedSamples_append, iteration_passedSamples,
      ← controlTaskIteration_eq] at hs
    rcases List.mem_append.mp hs with hown | hlater
    · have hsome := Option.mem_toList.mp hown
      unfold passedSample at hsome
      dsimp only at hsome
      split_ifs at hsome
      cases hsome
      refine ⟨periodS_longEnough hE ?_, hsmall⟩
      rw [(beforeSample_clock E d it).1]
      exact wake_period hpace
    · refine ih hpaced.tail hrest ?_ ?_ s hlater
      · rw [iteration_lastCounts]
        exact hread
      · right
        rw [iteration_priorUs]
        intro next hnext
        cases its with
        | nil => cases hnext
        | cons following its =>
          cases hnext
          exact hpaced.rel

theorem ResetFree.start {E : Env} {d : Diag} {actions rest : List Action}
    (h : ResetFree E d (actions ++ rest)) : ResetFree E d actions := by
  induction actions generalizing d with
  | nil => trivial
  | cons a actions ih => exact ⟨h.1, ih h.2⟩

/-- The actions since the start or since the latest accepted ODOMZERO line. -/
def SinceZero (E : Env) (d : Diag) (older : List Action) : Prop :=
  older = [] ∨ ∃ before a, older = before ++ [a] ∧ ResetsOdom E (before.foldl (act E) d) a

theorem odom_sinceZero {E : Env} {inp : StartInputs} {d : Diag}
    (hs : robotChassisDiagStart E inp = .ok d) {older : List Action} (hz : SinceZero E d older) :
    (older.foldl (act E) d).odom = .zero := by
  rcases hz with rfl | ⟨before, a, rfl, hreset⟩
  · obtain ⟨core, _, rfl⟩ := start_eq hs
    rfl
  · rw [List.foldl_append]
    exact act_odom_of_reset hreset

/-- The odometry is the path over the samples since then. -/
theorem odom_since {E : Env} {inp : StartInputs} {d : Diag}
    (hs : robotChassisDiagStart E inp = .ok d) {its : List Iteration} {older newer : List Action}
    (hsplit : its.flatMap Iteration.actions = older ++ newer) (hz : SinceZero E d older)
    (hfree : ResetFree E (older.foldl (act E) d) newer) :
    (its.foldl (controlTaskIteration E) d).odom.over = taskOdomAlong E (.zero E.arith)
      (passedSamples E (older.foldl (act E) d) newer) := by
  have hodom := run_odom hfree
  rw [odom_sinceZero hs hz] at hodom
  rw [iterations_eq, hsplit, List.foldl_append]
  exact hodom

/-- What a run from the start passes to the odometry is regular, from any of its actions on. -/
theorem samples_since_regular {E : Env} (hE : E.single.Standard (1 / 2 ^ 24) (1 / 2 ^ 150))
    {inp : StartInputs} {d : Diag} (hs : robotChassisDiagStart E inp = .ok d)
    {its : List Iteration} (hpaced : PassesPaced its) (hcounts : ∀ it ∈ its, CountsWithin it.counts)
    {older newer : List Action} (hsplit : its.flatMap Iteration.actions = older ++ newer) :
    ∀ s ∈ passedSamples E (older.foldl (act E) d) newer,
      LongEnough s.dtS ∧ SmallDeltas s.countDelta := by
  obtain ⟨core, _, rfl⟩ := start_eq hs
  have hlast : ∀ i, |((initialDiag core inp).lastCounts i).toInt| < 30000 := by
    intro i
    show |(0 : Int32).toInt| < 30000
    decide
  have hregular := samples_regular hE hpaced hcounts hlast (.inl rfl)
  rw [hsplit, passedSamples_append] at hregular
  exact (List.forall_mem_append.mp hregular).2

/-- The action hands this sample to the odometry, which takes it and stays finite. -/
structure TakesSample (E : Env) (d : Diag) (a : Action) (s : OdomSample Datum) : Prop where
  accepted : (updateWith E d.odom s).1 = true
  written : (act E d a).odom = (updateWith E d.odom s).2
  stamped : (act E d a).odomSampledAtUs = d.nowUs
  finite : (act E d a).odom.over.Finite

/-- An update that accepts a sample is the one that the action writes. -/
theorem takesSample {E : Env} {d : Diag} {a : Action} {s : OdomSample Datum}
    (hs : passedSample E d a = some s)
    (h : (robotChassisOdomUpdateOver E.arith d.odom.over (some s.countDelta) s.dtS
      (metresPerCount E) (turnGeometryM E)).1 = true)
    (hfinite : (robotChassisOdomUpdateOver E.arith d.odom.over (some s.countDelta) s.dtS
      (metresPerCount E) (turnGeometryM E)).2.Finite) : TakesSample E d a s := by
  rw [robotChassisOdomUpdate_over] at h hfinite
  have haccepted : (updateWith E d.odom s).1 = true := h
  have hwrite : odomWrite E d a = some ((updateWith E d.odom s).2, d.nowUs) := by
    cases a with
    | sample counts =>
      unfold odomWrite
      dsimp only
      rw [hs, Option.bind_some, if_pos haccepted]
    | _ => cases hs
  have hact := act_odom E d a
  rw [hwrite, Option.getD_some] at hact
  have hwritten : (act E d a).odom = (updateWith E d.odom s).2 := congrArg Prod.fst hact
  exact ⟨haccepted, hwritten, congrArg Prod.snd hact, by rw [hwritten]; exact hfinite⟩

/-- In every run from a successful start, in any format with the rounding of binary32: since the
start or the latest accepted ODOMZERO line every sample that the task passes on is taken by the
odometry, which stays finite, and it differs from the pose that the counts stand for by no more than
the drift of so many additions, as long as that pose stays within the bounds `R` and `Y` and at most
2^23 samples have moved a wheel. -/
theorem odometry_accuracy {E : Env} (hE : E.single.Standard (1 / 2 ^ 24) (1 / 2 ^ 150))
    {R Y τ : ℚ} (htrig : Trig E τ) (hτ : τ ≤ 1) (hregion : R ≤ 2 ^ 40 ∧ Y ≤ 2 ^ 40)
    {inp : StartInputs} {d : Diag} (hs : robotChassisDiagStart E inp = .ok d)
    {its : List Iteration} (hpaced : PassesPaced its) (hcounts : ∀ it ∈ its, CountsWithin it.counts)
    {older newer : List Action} (hsplit : its.flatMap Iteration.actions = older ++ newer)
    (hzero : SinceZero E d older) (hfree : ResetFree E (older.foldl (act E) d) newer)
    (hwithin : StaysWithin R Y
      ((passedSamples E (older.foldl (act E) d) newer).map (·.countDelta)))
    (hmoves : moves ((passedSamples E (older.foldl (act E) d) newer).map (·.countDelta)) ≤
      2 ^ 23) :
    (∀ before a after, newer = before ++ a :: after →
      ∀ s ∈ passedSample E ((older ++ before).foldl (act E) d) a,
        TakesSample E ((older ++ before).foldl (act E) d) a s) ∧
    let deltas := (passedSamples E (older.foldl (act E) d) newer).map (·.countDelta)
    let odom := (its.foldl (controlTaskIteration E) d).odom
    let yawError := yawDrift Y (rolled deltas) (moves deltas)
    let positionError := positionDrift R τ yawError (rolled deltas) (moves deltas)
    ∃ x y yaw : ℚ, odom.xM = .finite x ∧ odom.yM = .finite y ∧ odom.yawRad = .finite yaw ∧
      |(x : ℝ) - (truePose deltas).x| ≤ positionError ∧
      |(y : ℝ) - (truePose deltas).y| ≤ positionError ∧
      |(yaw : ℝ) - (truePose deltas).yaw| ≤ yawError := by
  have hregular := samples_since_regular hE hs hpaced hcounts hsplit
  constructor
  · intro before a after hnewer s hpassed
    rw [hnewer] at hfree
    rw [List.foldl_append] at hpassed ⊢
    have hsamples : passedSamples E (older.foldl (act E) d) newer =
        passedSamples E (older.foldl (act E) d) before ++ s ::
          passedSamples E (act E (before.foldl (act E) (older.foldl (act E) d)) a) after := by
      rw [hnewer, passedSamples_append, passedSamples, hpassed]
      rfl
    have hodom := run_odom hfree.start
    rw [odom_sinceZero hs hzero] at hodom
    rw [hsamples] at hregular hwithin hmoves
    obtain ⟨haccepted, hfinite⟩ := path_accepts hE htrig hτ hregion (fun s hs => (hregular s hs).1)
      (fun s hs => (hregular s hs).2) hwithin hmoves
    apply takesSample hpassed
    · rw [hodom]
      exact haccepted
    · rw [hodom]
      exact hfinite
  · have hdrift := path_drift hE htrig hτ hregion (fun s hs => (hregular s hs).1.positive)
      (fun s hs => (hregular s hs).2) hwithin hmoves
    rw [← odom_since hs hsplit hzero hfree] at hdrift
    exact hdrift

/-- Binary arithmetic whose trigonometric functions are good near zero only. -/
def straightEnv : Env :=
  .binary (fun _ => 0) (fun x => if x = .finite 0 then .finite 1 else .finite 0) fun _ => .finite 0

theorem straightEnv_trig : Trig straightEnv 1 where
  cos q := by
    by_cases hq : q = 0
    · refine ⟨1, by simp [straightEnv, Env.binary, hq], ?_⟩
      rw [hq]
      simp
    · refine ⟨0, by simp [straightEnv, Env.binary, hq], ?_⟩
      rw [Rat.cast_zero, zero_sub, abs_neg, Rat.cast_one]
      exact Real.abs_cos_le_one q
  sin q := by
    refine ⟨0, rfl, ?_⟩
    rw [Rat.cast_zero, zero_sub, abs_neg, Rat.cast_one]
    exact Real.abs_sin_le_one q

def straightDiag : Diag := initialDiag (initialCore (firmwareConfig straightEnv)) readyInputs

theorem straightDiag_start : robotChassisDiagStart straightEnv readyInputs = .ok straightDiag := by
  have hvalid : configValid (some (firmwareConfig straightEnv)) = true := by decide +kernel
  have hinit : robotChassisCoreInit (some (firmwareConfig straightEnv)) =
      some (initialCore (firmwareConfig straightEnv)) := if_pos hvalid
  unfold robotChassisDiagStart
  rw [hinit]
  rfl

def straightPass : Iteration := ⟨10000, [], [], fun _ => some 100⟩

theorem straight_sample : passedSample straightEnv (wake straightDiag 10000)
    (.sample straightPass.counts) =
      some ⟨fun _ => 100, periodS straightEnv (wake straightDiag 10000)⟩ := by
  have hread : (encoderRead (wake straightDiag 10000) straightPass.counts).1 = true := by
    decide +kernel
  have hdelta : (encoderRead (wake straightDiag 10000) straightPass.counts).2.2 =
      fun _ => 100 := by
    decide +kernel
  unfold passedSample
  dsimp only
  rw [if_pos hread, hdelta]

theorem straight_pose : truePose [fun _ => 100] = ⟨29 / 2000, 0, 0⟩ := by
  have hhundred : (100 : Int32).toInt = 100 := by decide
  have harc : countArc (fun _ => 100) = ⟨29 / 2000, 0⟩ := by
    norm_num [countArc, Arc.ofSides, sideM, mean, countM, halfTrackM, leftDeltas, rightDeltas,
      hhundred]
  simp [truePose, harc, Pose.origin, Pose.advance]

theorem straight_rolled : rolled [fun _ => 100] = 29 / 1000 := by
  have hhundred : (100 : Int32).toInt = 100 := by decide
  norm_num [rolled, rolledM, sideM, mean, countM, leftDeltas, rightDeltas, hhundred]

theorem straight_within : StaysWithin 1 1 [fun _ => 100] := by
  intro p hp
  rcases List.prefix_cons_iff.mp hp with rfl | ⟨rest, rfl, hrest⟩
  · simp [truePose, Pose.origin]
  · rw [List.prefix_nil.mp hrest, straight_pose]
    norm_num

theorem odometry_accuracy_straight :
    TakesSample straightEnv (wake straightDiag 10000) (.sample straightPass.counts)
      ⟨fun _ => 100, periodS straightEnv (wake straightDiag 10000)⟩ ∧
    ∃ x : ℚ,
      ([straightPass].foldl (controlTaskIteration straightEnv) straightDiag).odom.xM = .finite x ∧
        |(x : ℝ) - 29 / 2000| ≤ 1 / 10 := by
  have hdeltas : (passedSamples straightEnv straightDiag
      ([straightPass].flatMap Iteration.actions)).map (·.countDelta) = [fun _ => 100] := by
    decide +kernel
  have hfree : ResetFree straightEnv straightDiag ([straightPass].flatMap Iteration.actions) := by
    decide +kernel
  have hcounts : ∀ it ∈ [straightPass], CountsWithin it.counts := by
    intro it hit i n hn
    rw [List.mem_singleton.mp hit] at hn
    cases hn
    decide
  have hmoves : moves [fun _ => 100] = 1 := by decide
  have hpaced : PassesPaced [straightPass] := List.isChain_singleton _
  have hsplit : [straightPass].flatMap Iteration.actions =
      [] ++ [straightPass].flatMap Iteration.actions := rfl
  obtain ⟨htakes, haccuracy⟩ := odometry_accuracy (Format.binary_standard .single)
    straightEnv_trig le_rfl (R := 1) (Y := 1) (by norm_num) straightDiag_start hpaced
    hcounts hsplit (.inl rfl) hfree
    (by rw [List.foldl_nil, hdeltas]; exact straight_within)
    (by rw [List.foldl_nil, hdeltas, hmoves]; norm_num)
  rw [List.foldl_nil, hdeltas] at haccuracy
  dsimp only at haccuracy
  rw [straight_rolled, hmoves, straight_pose] at haccuracy
  obtain ⟨x, _, _, hx, _, _, herror, _, _⟩ := haccuracy
  refine ⟨htakes [.wake 10000] _ [] rfl _ straight_sample, x, hx, herror.trans ?_⟩
  norm_num [positionDrift, componentErrors, yawDrift, turnErrors, additionError]

end RobotFirmware.Chassis
