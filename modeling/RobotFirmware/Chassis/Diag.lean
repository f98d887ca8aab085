import RobotFirmware.Library.Scanf
import RobotFirmware.Chassis.Odometry

/-! The chassis diagnostic task: motors, battery check, command lines, remote events and the
body of the control loop. Log output is left out; hardware reads are inputs. -/
namespace RobotFirmware.Chassis
open Fp Scanf

inductive MotorMode
  | coast
  | brake
  | forward
  | reverse
  deriving DecidableEq

structure Motor where
  mode : MotorMode
  speed : UInt32
  deriving DecidableEq

def Motor.Driven (m : Motor) : Prop := m.mode = .forward ∨ m.mode = .reverse

instance (m : Motor) : Decidable m.Driven := inferInstanceAs (Decidable (_ ∨ _))

def stopAll (brake : Bool) (motors : Wheels Motor) : Wheels Motor :=
  fun i => { motors i with mode := if brake then .brake else .coast }

/-- The dead zone of 200 ticks plus the command, limited to 300 of the 400 ticks of a period. -/
def commandToDuty (command : Int32) : Int32 :=
  if command = 0 then 0
  else
    let duty := 200 + command.abs
    let duty := if 200 + 100 < duty then 200 + 100 else duty
    if 400 ≤ duty then 400 - 1 else duty

def applyOutput (core : Core) (i : Wheel) (motor : Motor) : Motor :=
  let command := core.output i
  if core.state ≠ .armed ∨ core.targetCounts i = 0 ∨ command = 0 then
    { motor with mode := .coast }
  else
    { mode := if 0 < command then .forward else .reverse
      speed := (commandToDuty command).toUInt32 }

def applyOutputs (core : Core) (motors : Wheels Motor) : Wheels Motor :=
  fun i => applyOutput core i (motors i)

def controlSetpointsAreZero (core : Core) : Bool :=
  decide (∀ i, core.targetCounts i = 0 ∧ core.output i = 0)

/-- The first `used` characters of the 64-byte line buffer, which keep room for the
terminating zero. -/
structure UartLine where
  chars : List Char
  fits : chars.length ≤ 63

def UartLine.empty : UartLine := ⟨[], by simp⟩

/-- The statics of the file and the locals `control_task` carries around its loop. -/
structure Diag where
  core : Core
  motors : Wheels Motor
  lastCounts : Wheels Int32
  odom : Odom
  odomSampledAtUs : ℤ
  batteryAdc : Bool
  batteryCalibrated : Bool
  uartLine : UartLine
  /-- Durations handed to `robot_imu_request_test_pause`, newest first. -/
  imuPauses : List UInt32
  priorUs : ℤ
  nowUs : ℤ
  nowMs : UInt32
  periodUs : Int32

structure AdcReading where
  raw : Option Int32
  adcMv : Option Int32

/-- The hardware reads that handling one byte or one event may make. -/
structure Readings where
  adc : AdcReading
  clockUs : ℤ

structure BatterySample where
  raw : Int32
  adcMv : Int32
  batteryV : Datum
  calibrated : Bool

def literalF (E : Env) (q : ℚ) : Datum := E.single.round q

def readBattery (E : Env) (d : Diag) (adc : AdcReading) : Option BatterySample :=
  if d.batteryAdc then
    match adc.raw with
    | none => none
    | some raw =>
      if d.batteryCalibrated then
        match adc.adcMv with
        | none => none
        | some mv => some {
            raw := raw
            adcMv := mv
            batteryV := Datum.mul E.single
              (Datum.div E.single (E.ofInt mv) (literalF E 1000)) (literalF E (403 / 100))
            calibrated := true }
      else some { raw := raw, adcMv := -1, batteryV := literalF E (-1), calibrated := false }
  else none

/-- The battery condition for arming. -/
def printBatteryStatus (E : Env) (d : Diag) (adc : AdcReading) : Bool :=
  match readBattery E d adc with
  | none => false
  | some sample =>
    sample.calibrated && Datum.le (literalF E 6) sample.batteryV &&
      Datum.le sample.batteryV (literalF E 12)

inductive Command
  | zero
  | arm
  | clear
  | status
  | bat
  | odomZero
  | imuPause (durationMs : UInt32)
  | gain (kp ki : Datum)
  | run (wheel target : Int32)
  | invalid
  deriving DecidableEq

/-- `"IMUPAUSE %u %c"` -/
def imuPauseFormat : List Directive :=
  literals ['I', 'M', 'U', 'P', 'A', 'U', 'S', 'E'] ++ [.space, .uint, .space, .char]

/-- `"GAIN %f %f %c"` -/
def gainFormat : List Directive :=
  literals ['G', 'A', 'I', 'N'] ++ [.space, .float, .space, .float, .space, .char]

/-- `"RUN %d %d %c"` -/
def runFormat : List Directive :=
  literals ['R', 'U', 'N'] ++ [.space, .int, .space, .int, .space, .char]

/-- The command a line is taken for, with the tests in the order of `process_command`. The
line ends at its first zero character, as C strings do. -/
def parseCommand (F : Format) (chars : List Char) : Command :=
  let line := (chars.takeWhile (· ≠ '\x00')).dropWhile fun c => c = ' ' || c = '\t'
  if line = ['Z', 'E', 'R', 'O'] ∨ line = ['S', 'T', 'O', 'P'] then .zero
  else if line = ['A', 'R', 'M'] then .arm
  else if line = ['C', 'L', 'E', 'A', 'R'] then .clear
  else if line = ['S', 'T', 'A', 'T', 'U', 'S'] then .status
  else if line = ['B', 'A', 'T'] then .bat
  else if line = ['O', 'D', 'O', 'M', 'Z', 'E', 'R', 'O'] then .odomZero
  else
    match sscanf F imuPauseFormat line with
    | [.uint durationMs] => .imuPause durationMs
    | _ =>
      match sscanf F gainFormat line with
      | [.float kp, .float ki] => .gain kp ki
      | _ =>
        match sscanf F runFormat line with
        | [.int wheel, .int target] =>
          if 0 ≤ wheel ∧ wheel ≤ 4 then .run wheel target else .invalid
        | _ => .invalid

/-- The targets of a RUN line: wheel zero stands for all four. -/
def runTargets (wheel target : Int32) : Wheels Int32 :=
  fun i => if wheel = 0 ∨ wheel.toInt = i.val + 1 then target else 0

/-- The limits of the GAIN command, below those of the core. -/
def gainsWithinLimits (E : Env) (kp ki : Datum) : Bool :=
  Datum.le (.finite 0) kp && Datum.le kp (literalF E 10) &&
    Datum.le (.finite 0) ki && Datum.le ki (literalF E 1)

def submitTargets (d : Diag) (targets : Wheels Int32) (nowMs : UInt32) : Diag :=
  let r := robotChassisCoreSubmit d.core (some targets) nowMs
  let d := { d with core := r.2 }
  if r.1 then d else { d with motors := stopAll true d.motors }

/-- The fault for input that is no command, which also brakes the motors. -/
def rejectInput (d : Diag) : Diag :=
  { d with
    core := robotChassisCoreStop d.core .invalidTarget
    motors := stopAll true d.motors }

def acceptZero (d : Diag) (nowMs : UInt32) : Diag :=
  { d with
    core := robotChassisCoreAcceptZero d.core nowMs
    motors := stopAll false d.motors }

def armIfBatteryOk (E : Env) (d : Diag) (r : Readings) (nowMs : UInt32) : Diag :=
  if printBatteryStatus E d r.adc then
    { d with core := (robotChassisCoreArm d.core nowMs).2 }
  else d

def processCommand (E : Env) (d : Diag) (r : Readings) (chars : List Char)
    (nowMs : UInt32) : Diag :=
  match parseCommand E.single chars with
  | .zero => acceptZero d nowMs
  | .arm => armIfBatteryOk E d r nowMs
  | .clear => { d with core := (robotChassisCoreClearFault d.core).2 }
  | .status => d
  | .bat => d
  | .odomZero =>
    if d.core.state = .disarmed then
      { d with odom := .zero, odomSampledAtUs := r.clockUs }
    else d
  | .imuPause durationMs =>
    if d.core.state = .disarmed ∧ controlSetpointsAreZero d.core then
      { d with motors := stopAll false d.motors, imuPauses := durationMs :: d.imuPauses }
    else d
  | .gain kp ki =>
    if gainsWithinLimits E kp ki then
      { d with core := (robotChassisCoreUpdateGains d.core kp ki).2 }
    else d
  | .run wheel target => submitTargets d (runTargets wheel target) nowMs
  | .invalid => rejectInput d

def pollUartChar (E : Env) (d : Diag) (ch : Char) (r : Readings) (nowMs : UInt32) : Diag :=
  if ch = '\r' ∨ ch = '\n' then
    if 0 < d.uartLine.chars.length then
      { processCommand E d r d.uartLine.chars nowMs with uartLine := .empty }
    else d
  else if h : d.uartLine.chars.length + 1 < 64 then
    { d with uartLine := ⟨d.uartLine.chars ++ [ch], by
        rw [List.length_append, List.length_singleton]; omega⟩ }
  else { rejectInput d with uartLine := .empty }

/-- The characters `uart_read_bytes` delivered, each with the reads it may cause. -/
def pollUart (E : Env) (d : Diag) (data : List (Char × Readings)) (nowMs : UInt32) : Diag :=
  data.foldl (fun d x => pollUartChar E d x.1 x.2 nowMs) d

/-- A queued event; the last constructor stands for a type outside the enumeration. -/
inductive RemoteEvent
  | zero
  | arm
  | stop
  | targets (targets : Wheels Int32) (limited : Bool)
  | unknown
  deriving DecidableEq

def handleRemoteEvent (E : Env) (d : Diag) (event : RemoteEvent) (r : Readings)
    (nowMs : UInt32) : Diag :=
  match event with
  | .zero => acceptZero d nowMs
  | .arm => armIfBatteryOk E d r nowMs
  | .stop =>
    { d with
      core := robotChassisCoreStop d.core .explicit
      motors := stopAll true d.motors }
  | .targets targets _ => submitTargets d targets nowMs
  | .unknown => rejectInput d

/-- The events received until the queue is found empty. -/
def processRemoteEvents (E : Env) (d : Diag) (events : List (RemoteEvent × Readings))
    (nowMs : UInt32) : Diag :=
  events.foldl (fun d x => handleRemoteEvent E d x.1 x.2 nowMs) d

def encoderCountLimit : Int32 := 30000

/-- The read loop: whether all reads succeeded, the new `s_last_counts` and the deltas. The
first failure ends it with the earlier wheels already stored. -/
def readEncoders (counts : Wheels (Option Int32)) :
    List Wheel → Wheels Int32 → Wheels Int32 → Bool × Wheels Int32 × Wheels Int32
  | [], last, delta => (true, last, delta)
  | i :: rest, last, delta =>
    match counts i with
    | none => (false, last, delta)
    | some n =>
      readEncoders counts rest (Function.update last i n)
        (Function.update delta i (robotChassisSafeCountDelta n (last i) encoderCountLimit))

/-- `WHEEL_CIRCUMFERENCE_M_CANDIDATE / COUNTS_PER_REV_CANDIDATE` -/
def metresPerCount (E : Env) : Datum :=
  Datum.div E.single (literalF E (1508 / 10000)) (literalF E 1040)

def turnGeometryM (E : Env) : Datum := literalF E (115 / 1000)

/-- The top of the loop: one clock reading for the whole iteration. -/
def wake (d : Diag) (nowUs : ℤ) : Diag :=
  { d with
    nowUs := nowUs
    nowMs := .ofInt (nowUs.tdiv 1000)
    periodUs := if d.priorUs ≠ 0 then .ofInt (nowUs - d.priorUs) else 10000
    priorUs := nowUs }

def stepSample (E : Env) (d : Diag) (delta : Wheels Int32) : Diag :=
  let core := robotChassisCoreStep E d.core (some delta) d.nowMs
  let motors :=
    if core.state = .faultLatched ∧ core.stopReason = .encoderStall then stopAll true d.motors
    else applyOutputs core d.motors
  let next := robotChassisOdomUpdate E d.odom (some delta)
    (Datum.div E.single (E.ofInt d.periodUs) (literalF E 1000000)) (metresPerCount E)
    (turnGeometryM E)
  if next.1 then
    { d with core := core, motors := motors, odom := next.2, odomSampledAtUs := d.nowUs }
  else { d with core := core, motors := motors }

def sampleEncoders (E : Env) (d : Diag) (counts : Wheels (Option Int32)) : Diag :=
  let r := readEncoders counts (List.finRange 4) d.lastCounts fun _ => 0
  let d := { d with lastCounts := r.2.1 }
  if r.1 then stepSample E d r.2.2
  else
    { d with
      core := robotChassisCoreStop d.core .encoderStall
      motors := stopAll true d.motors }

structure Iteration where
  nowUs : ℤ
  data : List (Char × Readings)
  events : List (RemoteEvent × Readings)
  counts : Wheels (Option Int32)

def controlTaskIteration (E : Env) (d : Diag) (it : Iteration) : Diag :=
  let d := wake d it.nowUs
  let d := pollUart E d it.data d.nowMs
  let d := processRemoteEvents E d it.events d.nowMs
  sampleEncoders E d it.counts

inductive EspErr
  | noMem
  | invalidArg
  | invalidState
  | driver (code : Int32)
  deriving DecidableEq

/-- What the drivers answer to `robot_chassis_diag_start`. The ADC calibration may fail. -/
structure StartInputs where
  clockUs : ℤ
  queueCreated : Bool
  adcUnit : Except EspErr Unit
  adcCalibrated : Bool
  encoders : Except EspErr Unit
  motors : Except EspErr Unit
  uartConfig : Except EspErr Unit
  uartPins : Except EspErr Unit
  uartInstall : Except EspErr Unit
  taskCreated : Bool

def firmwareConfig (E : Env) : CoreConfig where
  kp := literalF E 5
  kiPerStep := literalF E (1 / 4)
  integralLimit := literalF E 40
  maxOutput := 100
  maxTargetCounts := 20
  commandTimeoutMs := 500
  stallSteps := 100

/-- The state the control task finds, with every motor coasting. -/
def initialDiag (core : Core) (inp : StartInputs) : Diag where
  core := core
  motors := fun _ => ⟨.coast, 0⟩
  lastCounts := fun _ => 0
  odom := .zero
  odomSampledAtUs := inp.clockUs
  batteryAdc := true
  batteryCalibrated := inp.adcCalibrated
  uartLine := .empty
  imuPauses := []
  priorUs := 0
  nowUs := 0
  nowMs := 0
  periodUs := 0

/-- A UART driver that is already there counts as installed. -/
def installed : Except EspErr Unit → Except EspErr Unit
  | .error .invalidState => .ok ()
  | r => r

/-- The control task starts only when every driver came up. -/
def robotChassisDiagStart (E : Env) (inp : StartInputs) : Except EspErr Diag := do
  let core ← (robotChassisCoreInit (some (firmwareConfig E))).elim (.error .invalidArg) .ok
  if !inp.queueCreated then throw .noMem
  inp.adcUnit
  inp.encoders
  inp.motors
  inp.uartConfig
  inp.uartPins
  installed inp.uartInstall
  if !inp.taskCreated then throw .noMem
  return initialDiag core inp

end RobotFirmware.Chassis
