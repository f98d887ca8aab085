import Mathlib.Data.Rat.Cast.Order
import RobotFirmware.Library.Arithmetic
import RobotFirmware.Library.RigidMotion
import RobotFirmware.Chassis.Odometry

/-! The odometry over any arithmetic, and along paths in exact arithmetic: a path driven back
restores the pose, and the result does not depend on the origin. -/
namespace RobotFirmware.Chassis
open Fp Planar

/-- `robot_chassis_odom_t` over other numbers. -/
structure OdomOver (F : Type*) where
  xM : F
  yM : F
  yawRad : F
  linearXMps : F
  angularZRadps : F

def Odom.over (odom : Odom) : OdomOver Datum :=
  ⟨odom.xM, odom.yM, odom.yawRad, odom.linearXMps, odom.angularZRadps⟩

section AnyArithmetic

variable {F : Type*} (A : Arith F)

def OdomOver.zero : OdomOver F :=
  ⟨A.literal 0, A.literal 0, A.literal 0, A.literal 0, A.literal 0⟩

def finitePositiveOver (x : F) : Bool := A.isFinite x && !A.le x (A.literal 0)

def odomArgumentsValidOver (odom : OdomOver F) (dtS metresPerCount turnGeometryM : F) : Bool :=
  finitePositiveOver A dtS && finitePositiveOver A metresPerCount &&
    finitePositiveOver A turnGeometryM && A.isFinite odom.xM && A.isFinite odom.yM &&
    A.isFinite odom.yawRad

def integrateOdomOver (odom : OdomOver F) (countDelta : Wheels Int32)
    (dtS metresPerCount turnGeometryM : F) : OdomOver F :=
  let half := A.literal (1 / 2)
  let leftCounts := A.mul half
    (A.add (A.ofInt (leftDeltas countDelta).1) (A.ofInt (leftDeltas countDelta).2))
  let rightCounts := A.mul half
    (A.add (A.ofInt (rightDeltas countDelta).1) (A.ofInt (rightDeltas countDelta).2))
  let leftM := A.mul leftCounts metresPerCount
  let rightM := A.mul rightCounts metresPerCount
  let distanceM := A.mul half (A.add leftM rightM)
  let deltaYawRad := A.div (A.sub rightM leftM) (A.mul (A.literal 2) turnGeometryM)
  let midpointYawRad := A.add odom.yawRad (A.mul half deltaYawRad)
  { xM := A.add odom.xM (A.mul distanceM (A.cosf midpointYawRad))
    yM := A.add odom.yM (A.mul distanceM (A.sinf midpointYawRad))
    yawRad := A.add odom.yawRad deltaYawRad
    linearXMps := A.div distanceM dtS
    angularZRadps := A.div deltaYawRad dtS }

/-- `robot_chassis_odom_update` with the arithmetic as a parameter. -/
def robotChassisOdomUpdateOver (odom : OdomOver F) (countDelta : Option (Wheels Int32))
    (dtS metresPerCount turnGeometryM : F) : Bool × OdomOver F :=
  match countDelta with
  | none => (false, odom)
  | some delta =>
    if odomArgumentsValidOver A odom dtS metresPerCount turnGeometryM then
      (true, integrateOdomOver A odom delta dtS metresPerCount turnGeometryM)
    else (false, odom)

variable {A}

/-- A call that returns false leaves the whole struct alone. -/
theorem odomUpdateOver_refused {odom : OdomOver F} {countDelta : Option (Wheels Int32)}
    {dtS metresPerCount turnGeometryM : F}
    (hr : (robotChassisOdomUpdateOver A odom countDelta dtS metresPerCount turnGeometryM).1 =
      false) :
    (robotChassisOdomUpdateOver A odom countDelta dtS metresPerCount turnGeometryM).2 = odom := by
  unfold robotChassisOdomUpdateOver at hr ⊢
  cases countDelta with
  | none => rfl
  | some delta =>
    dsimp only at hr ⊢
    split_ifs at hr ⊢
    rfl

end AnyArithmetic

/-- The firmware is the instance with the arithmetic of its environment. -/
theorem robotChassisOdomUpdate_over (E : Env) (odom : Odom) (countDelta : Option (Wheels Int32))
    (dtS metresPerCount turnGeometryM : Datum) :
    robotChassisOdomUpdateOver E.arith odom.over countDelta dtS metresPerCount turnGeometryM =
      Prod.map id Odom.over
        (robotChassisOdomUpdate E odom countDelta dtS metresPerCount turnGeometryM) := by
  have hvalid : odomArgumentsValidOver E.arith odom.over dtS metresPerCount turnGeometryM =
      odomArgumentsValid odom dtS metresPerCount turnGeometryM := rfl
  unfold robotChassisOdomUpdateOver robotChassisOdomUpdate
  cases countDelta with
  | none => rfl
  | some delta =>
    dsimp only
    rw [hvalid]
    split_ifs
    · rfl
    · rfl

/-- The arguments of one update that change from sample to sample. -/
structure OdomSample (F : Type*) where
  countDelta : Wheels Int32
  dtS : F

def odomAlong {F : Type*} (A : Arith F) (metresPerCount turnGeometryM : F) (odom : OdomOver F)
    (samples : List (OdomSample F)) : OdomOver F :=
  samples.foldl (fun odom s => (robotChassisOdomUpdateOver A odom (some s.countDelta) s.dtS
    metresPerCount turnGeometryM).2) odom

/-- Every count of `t` is the negative of the one in `s`, as integers. -/
def OdomSample.Negates {F : Type*} (s t : OdomSample F) : Prop :=
  ∀ i, (t.countDelta i).toInt = -(s.countDelta i).toInt

section Exact

variable {K : Type*} [Field K] [LinearOrder K] [IsStrictOrderedRing K] {cos sin : K → K}
  {metresPerCount turnGeometryM : K}

def OdomOver.pose (odom : OdomOver K) : Pose K := ⟨odom.xM, odom.yM, odom.yawRad⟩

def sideM (metresPerCount : K) (deltas : Int32 × Int32) : K :=
  mean (deltas.1.toInt : K) (deltas.2.toInt : K) * metresPerCount

def OdomSample.arc (metresPerCount turnGeometryM : K) (s : OdomSample K) : Arc K :=
  Arc.ofSides turnGeometryM (sideM metresPerCount (leftDeltas s.countDelta))
    (sideM metresPerCount (rightDeltas s.countDelta))

omit [LinearOrder K] [IsStrictOrderedRing K] in
theorem sideM_neg {deltas opposite : Int32 × Int32}
    (hfirst : opposite.1.toInt = -deltas.1.toInt) (hsecond : opposite.2.toInt = -deltas.2.toInt) :
    sideM metresPerCount opposite = -sideM metresPerCount deltas := by
  unfold sideM
  rw [hfirst, hsecond, Int.cast_neg, Int.cast_neg, mean_neg, neg_mul]

omit [LinearOrder K] [IsStrictOrderedRing K] in
theorem OdomSample.Negates.arc {s t : OdomSample K} (h : s.Negates t) :
    t.arc metresPerCount turnGeometryM = (s.arc metresPerCount turnGeometryM).back := by
  have hleft : sideM metresPerCount (leftDeltas t.countDelta) =
      -sideM metresPerCount (leftDeltas s.countDelta) := sideM_neg (h 0) (h 1)
  have hright : sideM metresPerCount (rightDeltas t.countDelta) =
      -sideM metresPerCount (rightDeltas s.countDelta) := sideM_neg (h 2) (h 3)
  unfold OdomSample.arc
  rw [hleft, hright, Arc.ofSides_neg]

/-- In exact arithmetic every update with positive parameters is accepted. It advances the pose
along the arc of the sample, and the velocities are those of the arc. -/
theorem exact_update (cos sin : K → K) (hm : 0 < metresPerCount) (ht : 0 < turnGeometryM)
    (odom : OdomOver K) {s : OdomSample K} (hdt : 0 < s.dtS) :
    ∃ next, robotChassisOdomUpdateOver (.exact cos sin) odom (some s.countDelta) s.dtS
        metresPerCount turnGeometryM = (true, next) ∧
      next.pose = odom.pose.advance cos sin (s.arc metresPerCount turnGeometryM) ∧
      next.linearXMps = (s.arc metresPerCount turnGeometryM).distance / s.dtS ∧
      next.angularZRadps = (s.arc metresPerCount turnGeometryM).turn / s.dtS := by
  have hvalid : odomArgumentsValidOver (.exact cos sin) odom s.dtS metresPerCount
      turnGeometryM = true := by
    simp [odomArgumentsValidOver, finitePositiveOver, Arith.exact, hm, ht, hdt]
  have hhalf : ∀ x : K, ((1 / 2 : ℚ) : K) * x = x / 2 := by
    intro x
    push_cast
    ring
  have htwo : ((2 : ℚ) : K) = 2 := by norm_num
  refine ⟨_, if_pos hvalid, ?_, ?_, ?_⟩
  · unfold OdomOver.pose Pose.advance integrateOdomOver OdomSample.arc Arc.ofSides sideM
      mean Arith.exact
    dsimp only
    simp only [hhalf, htwo]
  · unfold integrateOdomOver OdomSample.arc Arc.ofSides sideM
      mean Arith.exact
    dsimp only
    simp only [hhalf]
  · unfold integrateOdomOver OdomSample.arc Arc.ofSides sideM
      mean Arith.exact
    dsimp only
    simp only [hhalf, htwo]

theorem odomAlong_cons {F : Type*} (A : Arith F) (metresPerCount turnGeometryM : F)
    (odom : OdomOver F) (s : OdomSample F) (samples : List (OdomSample F)) :
    odomAlong A metresPerCount turnGeometryM odom (s :: samples) =
      odomAlong A metresPerCount turnGeometryM (robotChassisOdomUpdateOver A odom
        (some s.countDelta) s.dtS metresPerCount turnGeometryM).2 samples := rfl

theorem odomAlong_pose (hm : 0 < metresPerCount) (ht : 0 < turnGeometryM) (odom : OdomOver K)
    {samples : List (OdomSample K)} (hdt : ∀ s ∈ samples, 0 < s.dtS) :
    (odomAlong (.exact cos sin) metresPerCount turnGeometryM odom samples).pose =
      odom.pose.along cos sin (samples.map (·.arc metresPerCount turnGeometryM)) := by
  induction samples generalizing odom with
  | nil => rfl
  | cons s samples ih =>
    obtain ⟨hs, hrest⟩ := List.forall_mem_cons.mp hdt
    obtain ⟨next, hnext, hpose, _, _⟩ := exact_update cos sin hm ht odom hs
    rw [odomAlong_cons, hnext, ih next hrest, hpose]
    rfl

theorem odomAlong_velocity (hm : 0 < metresPerCount) (ht : 0 < turnGeometryM)
    (odom other : OdomOver K) {samples : List (OdomSample K)} (hdt : ∀ s ∈ samples, 0 < s.dtS)
    (hne : samples ≠ []) :
    (odomAlong (.exact cos sin) metresPerCount turnGeometryM odom samples).linearXMps =
        (odomAlong (.exact cos sin) metresPerCount turnGeometryM other samples).linearXMps ∧
      (odomAlong (.exact cos sin) metresPerCount turnGeometryM odom samples).angularZRadps =
        (odomAlong (.exact cos sin) metresPerCount turnGeometryM other samples).angularZRadps := by
  induction samples generalizing odom other with
  | nil => exact absurd rfl hne
  | cons s samples ih =>
    obtain ⟨hs, hrest⟩ := List.forall_mem_cons.mp hdt
    rw [odomAlong_cons, odomAlong_cons]
    cases samples with
    | cons t samples => exact ih _ _ hrest (List.cons_ne_nil t samples)
    | nil =>
      obtain ⟨next, hnext, _, hlinear, hangular⟩ := exact_update cos sin hm ht odom hs
      obtain ⟨next', hnext', _, hlinear', hangular'⟩ := exact_update cos sin hm ht other hs
      rw [hnext, hnext']
      exact ⟨hlinear.trans hlinear'.symm, hangular.trans hangular'.symm⟩

omit [LinearOrder K] [IsStrictOrderedRing K] in
theorem arcs_of_negated (metresPerCount turnGeometryM : K) {path negated : List (OdomSample K)}
    (h : List.Forall₂ OdomSample.Negates path negated) :
    negated.map (·.arc metresPerCount turnGeometryM) =
      (path.map (·.arc metresPerCount turnGeometryM)).map Arc.back := by
  induction h with
  | nil => rfl
  | cons hfirst _ ih => rw [List.map_cons, List.map_cons, List.map_cons, ih, hfirst.arc]

/-- Any path, followed by the same path backwards with every count negated, is accepted sample
by sample and ends in the pose it started from. What is refused changes nothing, in any
arithmetic. A count without a negative in `int` cannot be driven back. -/
theorem odom_reversible (hm : 0 < metresPerCount) (ht : 0 < turnGeometryM) (odom : OdomOver K)
    {there back : List (OdomSample K)} (hthere : ∀ s ∈ there, 0 < s.dtS)
    (hback : ∀ s ∈ back, 0 < s.dtS)
    (hnegated : List.Forall₂ OdomSample.Negates there.reverse back) :
    (∀ odom, ∀ s ∈ there ++ back, (robotChassisOdomUpdateOver (.exact cos sin) odom
      (some s.countDelta) s.dtS metresPerCount turnGeometryM).1 = true) ∧
    (odomAlong (.exact cos sin) metresPerCount turnGeometryM
      (odomAlong (.exact cos sin) metresPerCount turnGeometryM odom there) back).pose =
        odom.pose ∧
    ∀ {F : Type} (A : Arith F) (odom : OdomOver F) (countDelta : Option (Wheels Int32))
      (dtS metresPerCount turnGeometryM : F),
      (robotChassisOdomUpdateOver A odom countDelta dtS metresPerCount turnGeometryM).1 =
        false →
      (robotChassisOdomUpdateOver A odom countDelta dtS metresPerCount turnGeometryM).2 =
        odom := by
  refine ⟨?_, ?_, fun _ _ _ _ _ _ hr => odomUpdateOver_refused hr⟩
  · intro odom s hs
    have hdt : 0 < s.dtS := (List.mem_append.mp hs).elim (hthere s) (hback s)
    obtain ⟨next, hnext, _⟩ := exact_update cos sin hm ht odom hdt
    rw [hnext]
  · have harcs := arcs_of_negated metresPerCount turnGeometryM hnegated
    rw [odomAlong_pose hm ht _ hback, odomAlong_pose hm ht _ hthere, harcs, List.map_reverse]
    exact Pose.along_back odom.pose _

/-- Out along a curve and back, with the identity and the square in place of the cosine and the
sine. -/
theorem odom_reversible_curve :
    (odomAlong (.exact (fun x : ℚ => x) fun x => x * x) 2 3
      (odomAlong (.exact (fun x : ℚ => x) fun x => x * x) 2 3 ⟨1, 2, 3, 4, 5⟩
        [⟨fun i => if i < 2 then 10 else 30, 1⟩, ⟨fun _ => 5, 2⟩])
      [⟨fun _ => -5, 1⟩, ⟨fun i => if i < 2 then -10 else -30, 7⟩]).pose = ⟨1, 2, 3⟩ := by
  have hthere : ∀ s ∈ [(⟨fun i => if i < 2 then 10 else 30, 1⟩ : OdomSample ℚ),
      ⟨fun _ => 5, 2⟩], 0 < s.dtS := by simp
  have hback : ∀ s ∈ [(⟨fun _ => -5, 1⟩ : OdomSample ℚ),
      ⟨fun i => if i < 2 then -10 else -30, 7⟩], 0 < s.dtS := by simp
  have hlast : OdomSample.Negates (⟨fun _ => 5, 2⟩ : OdomSample ℚ) ⟨fun _ => -5, 1⟩ := by
    unfold OdomSample.Negates
    decide
  have hfirst : OdomSample.Negates (⟨fun i => if i < 2 then 10 else 30, 1⟩ : OdomSample ℚ)
      ⟨fun i => if i < 2 then -10 else -30, 7⟩ := by
    unfold OdomSample.Negates
    decide
  exact (odom_reversible (by norm_num) (by norm_num) ⟨1, 2, 3, 4, 5⟩ hthere hback
    (.cons hlast (.cons hfirst .nil))).2.1

end Exact

end RobotFirmware.Chassis
