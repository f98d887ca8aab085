import RobotFirmware.Chassis.Core

/-! Encoder deltas, differential-drive odometry and the conversion of velocity commands to
wheel targets. -/
namespace RobotFirmware.Chassis
open Fp

structure Odom where
  xM : Datum
  yM : Datum
  yawRad : Datum
  linearXMps : Datum
  angularZRadps : Datum
  deriving DecidableEq

def Odom.zero : Odom := ⟨.finite 0, .finite 0, .finite 0, .finite 0, .finite 0⟩

/-- The shortest of the direct difference and the two that cross a counter boundary. -/
def robotChassisSafeCountDelta (currentCount previousCount countLimit : Int32) : Int32 :=
  let rawDelta := currentCount - previousCount
  if countLimit ≤ 0 then rawDelta
  else
    let positiveWrapDelta := rawDelta + countLimit
    let negativeWrapDelta := rawDelta - countLimit
    let bestDelta := if positiveWrapDelta.abs < rawDelta.abs then positiveWrapDelta else rawDelta
    if negativeWrapDelta.abs < bestDelta.abs then negativeWrapDelta else bestDelta

def finitePositive (x : Datum) : Bool := x.isFinite && !Datum.le x (.finite 0)

/-- The arguments and the pose that `robot_chassis_odom_update` integrates from. -/
def odomArgumentsValid (odom : Odom) (dtS metresPerCount turnGeometryM : Datum) : Bool :=
  finitePositive dtS && finitePositive metresPerCount && finitePositive turnGeometryM &&
    odom.xM.isFinite && odom.yM.isFinite && odom.yawRad.isFinite

/-- Midpoint integration of one four-wheel sample. -/
def integrateOdom (E : Env) (odom : Odom) (countDelta : Wheels Int32)
    (dtS metresPerCount turnGeometryM : Datum) : Odom :=
  let add := Datum.add E.single
  let mul := Datum.mul E.single
  let half := Datum.finite (1 / 2)
  let leftCounts := mul half (add (E.ofInt (countDelta 0)) (E.ofInt (countDelta 1)))
  let rightCounts := mul half (add (E.ofInt (countDelta 2)) (E.ofInt (countDelta 3)))
  let leftM := mul leftCounts metresPerCount
  let rightM := mul rightCounts metresPerCount
  let distanceM := mul half (add leftM rightM)
  let deltaYawRad := Datum.div E.single (Datum.sub E.single rightM leftM)
    (mul (.finite 2) turnGeometryM)
  let midpointYawRad := add odom.yawRad (mul half deltaYawRad)
  { xM := add odom.xM (mul distanceM (E.cosf midpointYawRad))
    yM := add odom.yM (mul distanceM (E.sinf midpointYawRad))
    yawRad := add odom.yawRad deltaYawRad
    linearXMps := Datum.div E.single distanceM dtS
    angularZRadps := Datum.div E.single deltaYawRad dtS }

def leftDeltas (countDelta : Wheels Int32) : Int32 × Int32 := (countDelta 0, countDelta 1)

def rightDeltas (countDelta : Wheels Int32) : Int32 × Int32 := (countDelta 2, countDelta 3)

/-- A refused sample leaves the pose alone. -/
def robotChassisOdomUpdate (E : Env) (odom : Odom) (countDelta : Option (Wheels Int32))
    (dtS metresPerCount turnGeometryM : Datum) : Bool × Odom :=
  match countDelta with
  | none => (false, odom)
  | some delta =>
    if odomArgumentsValid odom dtS metresPerCount turnGeometryM then
      (true, integrateOdom E odom delta dtS metresPerCount turnGeometryM)
    else (false, odom)

/-- The targets and the limited flag, or nothing when an argument is refused. -/
def robotChassisCoreTwistToTargets (E : Env)
    (linearXMps angularZRadps turnGeometryM countsPerMetrePerStep : Datum)
    (maxTargetCounts : Int32) : Option (Wheels Int32 × Bool) :=
  if linearXMps.isFinite && angularZRadps.isFinite && finitePositive turnGeometryM &&
      finitePositive countsPerMetrePerStep && decide (0 < maxTargetCounts) then
    let mul := Datum.mul E.single
    let leftCounts := mul (Datum.sub E.single linearXMps (mul angularZRadps turnGeometryM))
      countsPerMetrePerStep
    let rightCounts := mul (Datum.add E.single linearXMps (mul angularZRadps turnGeometryM))
      countsPerMetrePerStep
    let peak := Datum.fmax leftCounts.abs rightCounts.abs
    let limited := Datum.lt (E.ofInt maxTargetCounts) peak
    let scale := Datum.div E.single (E.ofInt maxTargetCounts) peak
    let left := E.lroundf (if limited then mul leftCounts scale else leftCounts)
    let right := E.lroundf (if limited then mul rightCounts scale else rightCounts)
    some (fun i => if i < 2 then left else right, limited)
  else none

end RobotFirmware.Chassis
