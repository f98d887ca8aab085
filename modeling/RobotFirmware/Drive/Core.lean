import RobotFirmware.Library.Float

/-! The pure core of the drive dry run: wheel targets from a velocity command, scaled down
together when one exceeds the limit. The output pointers are never null here. -/
namespace RobotFirmware.Drive
open Fp

/-- A wheel in the order LF, LR, RF, RR. -/
abbrev Wheel := Fin 4

structure CoreConfig where
  turnGeometryM : Datum
  maxTargetMps : Datum
  deriving DecidableEq

structure CoreInput where
  linearXMps : Datum
  angularZRadps : Datum
  deriving DecidableEq

structure CoreOutput where
  targetMps : Wheel → Datum
  limited : Bool
  deriving DecidableEq

inductive CoreStatus
  | ok
  | invalidArgument
  | invalidConfig
  | invalidCommand
  | numericError
  deriving DecidableEq

def robotDriveCoreZeroOutput : CoreOutput := ⟨fun _ => .finite 0, false⟩

def fltMax : Datum := .finite (2 ^ 128 - 2 ^ 104)

def robotDriveKinematicsCompute (E : Env) (input : Option CoreInput) (turnGeometryM : Datum)
    (output : CoreOutput) : CoreStatus × CoreOutput :=
  match input with
  | none => (.invalidArgument, output)
  | some input =>
    if !input.linearXMps.isFinite || !input.angularZRadps.isFinite then (.invalidCommand, output)
    else if !turnGeometryM.isFinite || Datum.le turnGeometryM (.finite 0) then
      (.invalidConfig, output)
    else
      let turn := Datum.mul E.double input.angularZRadps turnGeometryM
      let left := Datum.sub E.double input.linearXMps turn
      let right := Datum.add E.double input.linearXMps turn
      if !left.isFinite || !right.isFinite || Datum.lt fltMax left.abs ||
          Datum.lt fltMax right.abs then
        (.numericError, output)
      else
        -- the first two wheels are the left ones
        (.ok, { output with
          targetMps := fun wheel => if wheel.val < 2 then E.toSingle left else E.toSingle right })

/-- The largest magnitude of a target. -/
def peakTarget (output : CoreOutput) : Datum :=
  (List.finRange 4).foldl (fun peak wheel => Datum.fmax peak (output.targetMps wheel).abs)
    (.finite 0)

def robotDriveCoreComputeTargets (E : Env) (config : Option CoreConfig)
    (input : Option CoreInput) : CoreStatus × CoreOutput :=
  match config with
  | none => (.invalidArgument, robotDriveCoreZeroOutput)
  | some config =>
    if input.isNone then (.invalidArgument, robotDriveCoreZeroOutput)
    else if !config.turnGeometryM.isFinite || Datum.le config.turnGeometryM (.finite 0) ||
        !config.maxTargetMps.isFinite || Datum.le config.maxTargetMps (.finite 0) then
      (.invalidConfig, robotDriveCoreZeroOutput)
    else
      let kinematics :=
        robotDriveKinematicsCompute E input config.turnGeometryM robotDriveCoreZeroOutput
      if kinematics.1 ≠ .ok then (kinematics.1, robotDriveCoreZeroOutput)
      else
        let output := kinematics.2
        let peak := peakTarget output
        if !peak.isFinite then (.numericError, robotDriveCoreZeroOutput)
        else if Datum.lt config.maxTargetMps peak then
          let scale := Datum.div E.single config.maxTargetMps peak
          if !scale.isFinite || Datum.le scale (.finite 0) then
            (.numericError, robotDriveCoreZeroOutput)
          else
            (.ok, { targetMps := fun wheel => Datum.mul E.single (output.targetMps wheel) scale
                    limited := true })
        else (.ok, output)

end RobotFirmware.Drive
