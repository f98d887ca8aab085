import RobotFirmware.Chassis.EncoderLines
import RobotFirmware.Chassis.OdometryAccuracy

/-! From the lines of the encoders to the heading: the yaw follows the displacement of the phases,
whatever path the robot has taken. -/
namespace RobotFirmware.Chassis
open Fp Planar Trace WrapCounter Quadrature

def lineIterations : Electrics → List LinePass → List Iteration
  | _, [] => []
  | s, p :: passes => p.iteration s :: lineIterations (s.run p.all) passes

/-- The deltas of the passes are those that the iterations pass to the odometry. -/
theorem lineDeltas_eq (E : Env) (r : Rig) (passes : List LinePass) :
    lineDeltas E r passes = (passedSamples E r.diag
      ((lineIterations r.electrics passes).flatMap Iteration.actions)).map (·.countDelta) := by
  induction passes generalizing r with
  | nil => rfl
  | cons p passes ih =>
    have hfirst : (passedDelta E r.diag (p.iteration r.electrics)).toList =
        ((passedSample E (beforeSample E r.diag (p.iteration r.electrics))
          (.sample (p.iteration r.electrics).counts)).toList).map (·.countDelta) := by
      unfold passedDelta passedSample
      dsimp only
      split_ifs
      · rfl
      · rfl
    rw [lineDeltas, lineIterations, List.flatMap_cons, passedSamples_append, List.map_append,
      iteration_passedSamples, ← controlTaskIteration_eq, hfirst, ih (r.pass E p)]
    rfl

theorem rig_passes (E : Env) (r : Rig) (passes : List LinePass) :
    (passes.foldl (Rig.pass E) r).diag =
      (lineIterations r.electrics passes).foldl (controlTaskIteration E) r.diag := by
  induction passes generalizing r with
  | nil => rfl
  | cons p passes ih =>
    rw [List.foldl_cons, ih (r.pass E p)]
    rfl

def LinesPaced (passes : List LinePass) : Prop :=
  passes.IsChain fun p next => p.nowUs < next.nowUs ∧ next.nowUs - p.nowUs < 2 ^ 31

theorem LinesPaced.paced {passes : List LinePass} (h : LinesPaced passes) (s : Electrics) :
    PassesPaced (lineIterations s passes) := by
  induction passes generalizing s with
  | nil => exact List.IsChain.nil
  | cons p passes ih =>
    have hrest := ih h.tail (s.run p.all)
    cases passes with
    | nil => exact List.isChain_singleton _
    | cons next passes => exact List.isChain_cons_cons.mpr ⟨h.rel, hrest⟩

/-- The units restart at the limit, so the counts stay within it. -/
theorem lineIterations_counts (passes : List LinePass) {s : Electrics} {counts : Wheels ℤ}
    (hs : ∀ i, s.units i = decoderAt i (counts i))
    (hcounts : ∀ i, |counts i| < encoderCountLimit.toInt) :
    ∀ it ∈ lineIterations s passes, CountsWithin it.counts := by
  have hlimit : encoderCountLimit.toInt = 30000 := by decide
  induction passes generalizing s counts with
  | nil => exact fun it hit => absurd hit List.not_mem_nil
  | cons p passes ih =>
    refine List.forall_mem_cons.mpr ⟨?_, ?_⟩
    · intro i n hn
      have hunit := run_decoders s counts hs (p.upTo i) i
      have hrange := run_inRange (hcounts i) ((encoderPins i).steps s.levels (p.upTo i))
      unfold LinePass.iteration at hn
      dsimp only at hn
      split_ifs at hn
      cases hn
      rw [hunit, ← hlimit]
      exact (congrArg abs (reading_toInt hrange)).trans_lt hrange
    · exact ih (run_decoders s counts hs p.all) fun i => run_inRange (hcounts i) _

/-- The heading of a robot whose wheels have turned by these counts. -/
def heading (counts : Wheels ℤ) : ℚ :=
  ((List.finRange 4).map fun i => if i.val < 2 then -counts i else counts i).sum * countM /
    (4 * halfTrackM)

theorem heading_eq (counts : Wheels ℤ) : heading counts =
    (counts 2 + counts 3 - (counts 0 + counts 1)) * countM / (4 * halfTrackM) := by
  have hsum : ((List.finRange 4).map fun i => if i.val < 2 then -counts i else counts i).sum =
      counts 2 + counts 3 - (counts 0 + counts 1) := by
    simp [List.finRange_succ]
    ring
  unfold heading
  rw [hsum]
  push_cast
  rfl

theorem countArc_turn (countDelta : Wheels Int32) :
    (countArc countDelta).turn = heading fun i => (countDelta i).toInt := by
  rw [heading_eq]
  unfold countArc Arc.ofSides sideM mean leftDeltas rightDeltas
  dsimp only
  field_simp
  ring

theorem heading_add (a b : Wheels ℤ) : heading (a + b) = heading a + heading b := by
  rw [heading_eq, heading_eq, heading_eq]
  simp only [Pi.add_apply]
  push_cast
  ring

def totalCounts (deltas : List (Wheels Int32)) (i : Wheel) : ℤ :=
  (deltas.map fun d => (d i).toInt).sum

/-- The yaw depends on the sums of the deltas only. -/
theorem truePose_yaw (deltas : List (Wheels Int32)) :
    (truePose deltas).yaw = heading (totalCounts deltas) := by
  induction deltas using List.reverseRecOn with
  | nil => simp [truePose, Pose.origin, heading, totalCounts]
  | append_singleton deltas d ih =>
    have htotal : totalCounts (deltas ++ [d]) = totalCounts deltas + fun i => (d i).toInt := by
      funext i
      simp [totalCounts]
    rw [truePose_concat, htotal, heading_add, ← countArc_turn]
    push_cast
    rw [← ih]
    rfl

/-- From the lines of the encoders to the odometry: however the pins change between the reads,
since the start or the latest accepted ODOMZERO line the yaw is the heading of what the phases
have moved between the complete passes at both ends, up to the drift, as long as the pose stays
within the bounds `R` and `Y` and at most 2^23 samples have moved a wheel. -/
theorem heading_follows_lines {E : Env} (hE : E.single.Standard (1 / 2 ^ 24) (1 / 2 ^ 150))
    {R Y τ : ℚ} (htrig : Trig E τ) (hτ : τ ≤ 1) (hregion : R ≤ 2 ^ 40 ∧ Y ≤ 2 ^ 40)
    {inp : StartInputs} {d : Diag} (hs : robotChassisDiagStart E inp = .ok d) {ω : Type}
    {o : PcntDriver ω} {s t : Units ω} (ht : initEncoders o s = .ok () t) {levels : ℕ → Bool}
    {first second : List LinePass} (hpaced : LinesPaced (first ++ second))
    (hread : ∀ i, WellRead t.unit levels (first ++ second) i) {inputs newer : List Action}
    (hinputs : ∀ a ∈ inputs, ∀ counts, a ≠ .sample counts)
    (hsplit : (lineIterations ⟨levels, t.unit⟩ (first ++ second)).flatMap Iteration.actions =
      (lineIterations ⟨levels, t.unit⟩ first).flatMap Iteration.actions ++ inputs ++ newer)
    (hzero : SinceZero E d
      ((lineIterations ⟨levels, t.unit⟩ first).flatMap Iteration.actions ++ inputs))
    (hfree : ResetFree E (((lineIterations ⟨levels, t.unit⟩ first).flatMap Iteration.actions ++
      inputs).foldl (act E) d) newer) :
    let deltas := (passedSamples E (((lineIterations ⟨levels, t.unit⟩ first).flatMap
      Iteration.actions ++ inputs).foldl (act E) d) newer).map (·.countDelta)
    let odom := ((first ++ second).foldl (Rig.pass E) ⟨d, ⟨levels, t.unit⟩⟩).diag.odom
    StaysWithin R Y deltas → moves deltas ≤ 2 ^ 23 → ∃ yaw : ℚ, odom.yawRad = .finite yaw ∧
      |(yaw : ℝ) - heading (displacement levels (first ++ second) - displacement levels first)| ≤
        yawDrift Y (rolled deltas) (moves deltas) := by
  intro deltas odom hwithin hmoves
  have hlimit : (0 : ℤ) < encoderCountLimit.toInt := by decide
  have hunits : ∀ i, (Electrics.mk levels t.unit).units i = decoderAt i 0 := by
    intro i
    show t.unit i = decoderUnit i
    rw [initEncoders_units ht]
  have hcounts := lineIterations_counts (first ++ second) hunits fun _ => hlimit
  have hits := hpaced.paced ⟨levels, t.unit⟩
  have hregular := samples_since_regular hE hs hits hcounts hsplit
  obtain ⟨_, _, yaw, _, _, hyaw, _, _, herror⟩ := path_drift hE htrig hτ hregion
    (fun s hs => (hregular s hs).1.positive) (fun s hs => (hregular s hs).2) hwithin hmoves
  rw [← odom_since hs hsplit hzero hfree] at hyaw
  have hodom : odom = ((lineIterations ⟨levels, t.unit⟩ (first ++ second)).foldl
      (controlTaskIteration E) d).odom :=
    congrArg Diag.odom (rig_passes E ⟨d, ⟨levels, t.unit⟩⟩ (first ++ second))
  -- the deltas of all passes are those of the first, and those since
  have hdeltas : lineDeltas E ⟨d, ⟨levels, t.unit⟩⟩ (first ++ second) =
      lineDeltas E ⟨d, ⟨levels, t.unit⟩⟩ first ++ deltas := by
    rw [lineDeltas_eq, lineDeltas_eq, hsplit, passedSamples_append, passedSamples_append,
      passedSamples_of_inputs E hinputs, List.append_nil, List.map_append]
  have htotal : totalCounts deltas =
      displacement levels (first ++ second) - displacement levels first := by
    funext i
    have hwhole := lineDeltas_displacement hs ht (hread i)
    have hbefore := lineDeltas_displacement hs ht (hread i).start
    rw [hdeltas, List.map_append, List.sum_append, hbefore] at hwhole
    exact eq_sub_of_add_eq' hwhole
  rw [← hodom] at hyaw
  rw [← htotal, ← truePose_yaw]
  exact ⟨yaw, hyaw, herror⟩

/-- Two steps of one left wheel turn the robot to the right. -/
theorem heading_follows_lines_turning : ∃ t, initEncoders acceptingDriver (.none ()) = .ok () t ∧
    ∃ yaw : ℚ, ([turningPass [6, 7] fun _ => true].foldl (Rig.pass straightEnv)
      ⟨straightDiag, ⟨fun _ => false, t.unit⟩⟩).diag.odom.yawRad = .finite yaw ∧
        |(yaw : ℝ) - (-29 / 46000 : ℚ)| ≤ 1 / 1000000 := by
  obtain ⟨t, ht⟩ := initEncoders_accepted acceptingDriver_accepts (.none ())
  have hunit : t.unit = decoderUnit := initEncoders_units ht
  have hread : ∀ i, WellRead t.unit (fun _ => false)
      ([] ++ [turningPass [6, 7] fun _ => true]) i := by
    intro i
    refine ⟨?_, ?_⟩
    · revert i
      decide
    · rw [hunit]
      revert i
      decide +kernel
  have hfree : ResetFree straightEnv straightDiag ((lineIterations ⟨fun _ => false, t.unit⟩
      ([] ++ [turningPass [6, 7] fun _ => true])).flatMap Iteration.actions) := by
    rw [hunit]
    decide +kernel
  have hdeltas : (passedSamples straightEnv straightDiag ((lineIterations ⟨fun _ => false, t.unit⟩
      ([] ++ [turningPass [6, 7] fun _ => true])).flatMap Iteration.actions)).map (·.countDelta) =
        [fun i => if i.val = 0 then 2 else 0] := by
    rw [hunit]
    decide +kernel
  set delta : Wheels Int32 := fun i => if i.val = 0 then 2 else 0
  have hleft : sideM countM (leftDeltas delta) = 29 / 200000 := by
    have hfirst : (delta 0).toInt = 2 := by decide
    have hsecond : (delta 1).toInt = 0 := by decide
    norm_num [sideM, mean, leftDeltas, hfirst, hsecond, countM]
  have hright : sideM countM (rightDeltas delta) = 0 := by
    have hthird : (delta 2).toInt = 0 := by decide
    have hfourth : (delta 3).toInt = 0 := by decide
    norm_num [sideM, mean, rightDeltas, hthird, hfourth]
  have harc : countArc delta = ⟨29 / 400000, -29 / 46000⟩ := by
    norm_num [countArc, Arc.ofSides, hleft, hright, mean, halfTrackM]
  have hrolled : rolled [delta] = 29 / 200000 := by
    norm_num [rolled, rolledM, hleft, hright]
  have hmoves : moves [delta] = 1 := by decide
  have hwithin : StaysWithin 1 1 [delta] := by
    intro p hp
    rcases List.prefix_cons_iff.mp hp with rfl | ⟨rest, rfl, hrest⟩
    · simp [truePose, Pose.origin]
    · have hcos := Real.abs_cos_le_one (-29 / 46000 / 2)
      have hsin := Real.abs_sin_le_one (-29 / 46000 / 2)
      rw [List.prefix_nil.mp hrest]
      simp only [truePose, harc, Pose.origin, List.map_cons, List.map_nil, Pose.along_cons,
        Pose.along_nil, Pose.advance, zero_add]
      push_cast
      rw [abs_mul, abs_mul, abs_of_pos (by norm_num : (0 : ℝ) < 29 / 400000)]
      refine ⟨by linarith, by linarith, by norm_num [abs_le]⟩
  have hdisplacement : heading (displacement (fun _ => false)
      ([] ++ [turningPass [6, 7] fun _ => true]) - displacement (fun _ => false) []) =
        -29 / 46000 := by
    decide +kernel
  have hpaced : LinesPaced ([] ++ [turningPass [6, 7] fun _ => true]) := List.isChain_singleton _
  have hsplit : (lineIterations ⟨fun _ => false, t.unit⟩
      ([] ++ [turningPass [6, 7] fun _ => true])).flatMap Iteration.actions =
        (lineIterations ⟨fun _ => false, t.unit⟩ []).flatMap Iteration.actions ++ [] ++
          (lineIterations ⟨fun _ => false, t.unit⟩
            ([] ++ [turningPass [6, 7] fun _ => true])).flatMap Iteration.actions := rfl
  have hfollows := heading_follows_lines (Format.binary_standard .single) straightEnv_trig le_rfl
    (R := 1) (Y := 1) (by norm_num) straightDiag_start ht hpaced hread
    (fun _ h => absurd h List.not_mem_nil) hsplit (.inl rfl) hfree
  have hnone : (lineIterations ⟨fun _ => false, t.unit⟩ []).flatMap Iteration.actions = [] := rfl
  rw [List.append_nil, hnone, List.foldl_nil, hdeltas, hdisplacement] at hfollows
  obtain ⟨yaw, hyaw, herror⟩ := hfollows hwithin (by rw [hmoves]; norm_num)
  refine ⟨t, ht, yaw, hyaw, herror.trans ?_⟩
  rw [hrolled, hmoves]
  norm_num [yawDrift, turnErrors, additionError]

end RobotFirmware.Chassis
