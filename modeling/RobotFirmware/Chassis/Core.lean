import RobotFirmware.Library.Float
import Mathlib.Data.List.FinRange

/-! The pure control core of the chassis diagnostic: arming, command acceptance, faults and
the PI step. Machine integers keep their widths; float operations go through the environment.
The object pointers are never null here, while array arguments may be. -/
namespace RobotFirmware.Chassis
open Fp

abbrev Wheel := Fin 4

abbrev Wheels (α : Type) := Wheel → α

inductive State
  | disarmed
  | armed
  | faultLatched
  deriving DecidableEq

inductive StopReason
  | startup
  | none
  | explicit
  | timeout
  | invalidTarget
  | encoderStall
  deriving DecidableEq

structure CoreConfig where
  kp : Datum
  kiPerStep : Datum
  integralLimit : Datum
  maxOutput : Int32
  maxTargetCounts : Int32
  commandTimeoutMs : UInt32
  stallSteps : UInt16
  deriving DecidableEq

structure Core where
  config : CoreConfig
  state : State
  stopReason : StopReason
  targetCounts : Wheels Int32
  output : Wheels Int32
  integral : Wheels Datum
  stallCount : Wheels UInt16
  lastCommandMs : UInt32
  zeroSeen : Bool
  deriving DecidableEq

def zeroControl (core : Core) : Core :=
  { core with
    targetCounts := fun _ => 0
    output := fun _ => 0
    integral := fun _ => .finite 0
    stallCount := fun _ => 0 }

def configValid : Option CoreConfig → Bool
  | .none => false
  | .some config =>
    config.kp.isFinite && Datum.le (.finite 0) config.kp &&
    config.kiPerStep.isFinite && Datum.le (.finite 0) config.kiPerStep &&
    config.integralLimit.isFinite && Datum.lt (.finite 0) config.integralLimit &&
    decide (0 < config.maxOutput) && decide (0 < config.maxTargetCounts) &&
    decide (0 < config.commandTimeoutMs) && decide (0 < config.stallSteps)

/-- The state `memset` leaves before the configuration is copied in. -/
def initialCore (config : CoreConfig) : Core where
  config := config
  state := .disarmed
  stopReason := .startup
  targetCounts := fun _ => 0
  output := fun _ => 0
  integral := fun _ => .finite 0
  stallCount := fun _ => 0
  lastCommandMs := 0
  zeroSeen := false

def robotChassisCoreInit (config : Option CoreConfig) : Option Core :=
  if configValid config then config.map initialCore else .none

def robotChassisCoreUpdateGains (core : Core) (kp kiPerStep : Datum) : Bool × Core :=
  if core.state ≠ .disarmed ∨ kp.isFinite = false ∨ Datum.lt kp (.finite 0) ∨
      kiPerStep.isFinite = false ∨ Datum.lt kiPerStep (.finite 0) then (false, core)
  else
    (true, { zeroControl core with
      config := { core.config with kp := kp, kiPerStep := kiPerStep }
      zeroSeen := false
      stopReason := .explicit })

/-- A zero request confirms the operator without releasing a latched fault. -/
def robotChassisCoreAcceptZero (core : Core) (nowMs : UInt32) : Core :=
  let core := { zeroControl core with lastCommandMs := nowMs, zeroSeen := true }
  if core.state ≠ .faultLatched then { core with state := .disarmed, stopReason := .explicit }
  else core

def robotChassisCoreArm (core : Core) (nowMs : UInt32) : Bool × Core :=
  if core.state ≠ .disarmed ∨ core.zeroSeen = false then (false, core)
  else (true, { zeroControl core with
    state := .armed, stopReason := .none, lastCommandMs := nowMs })

/-- Every reason other than the two faults leaves the core disarmed, whatever its state was. -/
def robotChassisCoreStop (core : Core) (reason : StopReason) : Core :=
  let core := { zeroControl core with stopReason := reason }
  if reason = .invalidTarget ∨ reason = .encoderStall then
    { core with state := .faultLatched, zeroSeen := false }
  else
    { core with
      state := .disarmed
      zeroSeen := if reason = .timeout then false else core.zeroSeen }

/-- The scan of the targets: whether any is nonzero, or nothing at the first one whose
32-bit `abs` exceeds the limit. -/
def scanTargets (maxTargetCounts : Int32) (targets : Wheels Int32) :
    List Wheel → Bool → Option Bool
  | [], anyNonzero => some anyNonzero
  | i :: rest, anyNonzero =>
    if maxTargetCounts < (targets i).abs then none
    else scanTargets maxTargetCounts targets rest (anyNonzero || targets i != 0)

def robotChassisCoreSubmit (core : Core) (targetCounts : Option (Wheels Int32))
    (nowMs : UInt32) : Bool × Core :=
  match targetCounts with
  | .none => (false, core)
  | .some targets =>
    if core.state ≠ .armed then (false, core)
    else
      match scanTargets core.config.maxTargetCounts targets (List.finRange 4) false with
      | .none => (false, robotChassisCoreStop core .invalidTarget)
      | .some true =>
        (true, { core with
          targetCounts := targets, lastCommandMs := nowMs, stopReason := .none })
      | .some false =>
        (true, { core with
          targetCounts := targets
          lastCommandMs := nowMs
          stopReason := .explicit
          output := fun _ => 0
          integral := fun _ => .finite 0
          stallCount := fun _ => 0 })

def robotChassisCoreClearFault (core : Core) : Bool × Core :=
  if core.state ≠ .faultLatched ∨ core.zeroSeen = false then (false, core)
  else (true, { zeroControl core with state := .disarmed, stopReason := .explicit })

/-- The stall count of a commanded wheel after one more sample, saturating at `UINT16_MAX`. -/
def nextStallCount (count : UInt16) (delta : Int32) : UInt16 :=
  if delta = 0 then (if count < 65535 then count + 1 else count) else 0

def controlError (E : Env) (target delta : Int32) : Datum := E.ofInt (target - delta)

def nextIntegral (E : Env) (config : CoreConfig) (integral error : Datum) : Datum :=
  Datum.clamp config.integralLimit.neg config.integralLimit (Datum.add E.single integral error)

/-- The PI command before it is rounded, limited to the configured output. -/
def nextCommand (E : Env) (config : CoreConfig) (integral error : Datum) : Datum :=
  Datum.clamp (E.ofInt (-config.maxOutput)) (E.ofInt config.maxOutput)
    (Datum.add E.single (Datum.mul E.single config.kp error)
      (Datum.mul E.single config.kiPerStep integral))

/-- The wheel loop. The stall exit abandons the wheels that are still to come. -/
def stepWheels (E : Env) (delta : Wheels Int32) : List Wheel → Core → Core
  | [], core => core
  | i :: rest, core =>
    if core.targetCounts i = 0 then
      stepWheels E delta rest { core with
        output := Function.update core.output i 0
        integral := Function.update core.integral i (.finite 0)
        stallCount := Function.update core.stallCount i 0 }
    else
      let count := nextStallCount (core.stallCount i) (delta i)
      let core := { core with stallCount := Function.update core.stallCount i count }
      if core.config.stallSteps ≤ count then robotChassisCoreStop core .encoderStall
      else
        let error := controlError E (core.targetCounts i) (delta i)
        let integral := nextIntegral E core.config (core.integral i) error
        let command := nextCommand E core.config integral error
        stepWheels E delta rest { core with
          integral := Function.update core.integral i integral
          output := Function.update core.output i (E.lroundf command) }

def robotChassisCoreStep (E : Env) (core : Core) (countDelta : Option (Wheels Int32))
    (nowMs : UInt32) : Core :=
  match countDelta with
  | .none => core
  | .some delta =>
    if core.state ≠ .armed then { core with output := fun _ => 0 }
    else if core.config.commandTimeoutMs < nowMs - core.lastCommandMs then
      robotChassisCoreStop core .timeout
    else stepWheels E delta (List.finRange 4) core

/-- The stop reasons the firmware passes to `robot_chassis_core_stop`. -/
inductive StopCause
  | explicit
  | timeout
  | invalidTarget
  | encoderStall
  deriving DecidableEq

def StopCause.reason : StopCause → StopReason
  | .explicit => .explicit
  | .timeout => .timeout
  | .invalidTarget => .invalidTarget
  | .encoderStall => .encoderStall

inductive Call
  | updateGains (kp kiPerStep : Datum)
  | acceptZero
  | arm
  | submit (targetCounts : Option (Wheels Int32))
  | stop (cause : StopCause)
  | clearFault
  | step (countDelta : Option (Wheels Int32))

/-- The returned value, absent for `void`, and the core left behind. -/
def Call.run (E : Env) (core : Core) (nowMs : UInt32) : Call → Option Bool × Core
  | .updateGains kp ki =>
    let r := robotChassisCoreUpdateGains core kp ki; (.some r.1, r.2)
  | .acceptZero => (.none, robotChassisCoreAcceptZero core nowMs)
  | .arm => let r := robotChassisCoreArm core nowMs; (.some r.1, r.2)
  | .submit targets => let r := robotChassisCoreSubmit core targets nowMs; (.some r.1, r.2)
  | .stop cause => (.none, robotChassisCoreStop core cause.reason)
  | .clearFault => let r := robotChassisCoreClearFault core; (.some r.1, r.2)
  | .step delta => (.none, robotChassisCoreStep E core delta nowMs)

/-- A call and the true time in milliseconds at which it is made. The clock argument is that
time modulo `2 ^ 32`, so without a condition on the times it can be any 32-bit value. -/
structure CoreCall where
  call : Call
  time : ℕ

def CoreCall.nowMs (c : CoreCall) : UInt32 := .ofNat c.time

def coreStep (E : Env) (core : Core) (c : CoreCall) : Core := (c.call.run E core c.nowMs).2

def CoreCall.ret (E : Env) (core : Core) (c : CoreCall) : Option Bool :=
  (c.call.run E core c.nowMs).1

end RobotFirmware.Chassis
