import RobotFirmware.Library.Fifo
import RobotFirmware.Library.Path
import RobotFirmware.Drive.Core

/-! The drive dry run: the calls of a producer, the task and the queues of length one between
them. The 64-bit clock counts microseconds and does not wrap. Log output is left out. -/
namespace RobotFirmware.Drive
open Fp Trace Queue

inductive StopReason
  | none
  | startup
  | commandTimeout
  | invalidCommand
  | externalRequest
  | coreError
  deriving DecidableEq

structure Snapshot where
  targetMps : Wheel → Datum
  commandReceivedAtUs : ℤ
  evaluatedAtUs : ℤ
  commandSequence : UInt32
  stopReason : StopReason
  stopped : Bool
  inputFault : Bool
  targetLimited : Bool
  dryRun : Bool
  deriving DecidableEq

inductive EventType
  | command
  | stop
  deriving DecidableEq

structure DriveEvent where
  type : EventType
  input : CoreInput
  receivedAtUs : ℤ
  sequence : UInt32
  stopReason : StopReason
  valid : Bool
  deriving DecidableEq

/-- The static variables of the file. -/
structure Statics where
  eventQueue : Option (Fifo DriveEvent 1)
  snapshotQueue : Option (Fifo Snapshot 1)
  task : Bool
  sNextSequence : UInt32

/-- The value of `next_sequence` and the counter it leaves, which are the same. -/
def nextSequence (sNextSequence : UInt32) : UInt32 :=
  if sNextSequence + 1 = 0 then sNextSequence + 1 + 1 else sNextSequence + 1

def isInputFault (reason : StopReason) : Bool :=
  decide (reason = .invalidCommand) || decide (reason = .coreError)

def makeStoppedSnapshot (reason : StopReason) (evaluatedAtUs commandReceivedAtUs : ℤ)
    (sequence : UInt32) : Snapshot where
  targetMps := fun _ => .finite 0
  commandReceivedAtUs := commandReceivedAtUs
  evaluatedAtUs := evaluatedAtUs
  commandSequence := sequence
  stopReason := reason
  stopped := true
  inputFault := isInputFault reason
  targetLimited := false
  dryRun := true

def publishSnapshot (s : Statics) (snapshot : Snapshot) : Statics :=
  { s with snapshotQueue := s.snapshotQueue.map fun q => q.overwrite snapshot }

structure Options where
  turnGeometryMm : ℕ
  maxTargetMmps : ℕ
  commandTimeoutMs : ℕ

/-- An option in thousandths, as a `float`. -/
def thousandths (E : Env) (n : ℕ) : Datum :=
  Datum.div E.single (E.single.round n) (E.single.round 1000)

def Options.config (E : Env) (o : Options) : CoreConfig :=
  ⟨thousandths E o.turnGeometryMm, thousandths E o.maxTargetMmps⟩

def Options.timeoutUs (o : Options) : ℤ := o.commandTimeoutMs * 1000

structure TaskState where
  active : DriveEvent
  hasActiveCommand : Bool
  stopReason : StopReason
  deriving DecidableEq

def DriveEvent.zero : DriveEvent := ⟨.command, ⟨.finite 0, .finite 0⟩, 0, 0, .none, false⟩

def TaskState.initial : TaskState := ⟨.zero, false, .startup⟩

def TaskState.receive (incoming : DriveEvent) : TaskState :=
  if incoming.type = .command ∧ incoming.valid = true then ⟨incoming, true, .none⟩
  else
    ⟨incoming, false, if incoming.type = .stop then incoming.stopReason else .invalidCommand⟩

/-- The task state stops with a reason; the snapshot shows it. -/
def TaskState.halt (t : TaskState) (reason : StopReason) (nowUs : ℤ) : TaskState × Snapshot :=
  ({ t with hasActiveCommand := false, stopReason := reason },
    makeStoppedSnapshot reason nowUs t.active.receivedAtUs t.active.sequence)

def runningSnapshot (event : DriveEvent) (output : CoreOutput) (nowUs : ℤ) : Snapshot where
  targetMps := output.targetMps
  commandReceivedAtUs := event.receivedAtUs
  evaluatedAtUs := nowUs
  commandSequence := event.sequence
  stopReason := .none
  stopped := false
  inputFault := false
  targetLimited := output.limited
  dryRun := true

/-- The iteration from its reading of the clock to its snapshot. -/
def TaskState.evaluate (E : Env) (o : Options) (t : TaskState) (nowUs : ℤ) :
    TaskState × Snapshot :=
  if !t.hasActiveCommand then
    (t, makeStoppedSnapshot t.stopReason nowUs t.active.receivedAtUs t.active.sequence)
  else
    let ageUs := nowUs - t.active.receivedAtUs
    if ageUs < 0 ∨ o.timeoutUs < ageUs then
      t.halt (if ageUs < 0 then .coreError else .commandTimeout) nowUs
    else
      let computed := robotDriveCoreComputeTargets E (some (o.config E)) (some t.active.input)
      if computed.1 ≠ .ok then
        t.halt (if computed.1 = .invalidCommand then .invalidCommand else .coreError) nowUs
      else (t, runningSnapshot t.active computed.2 nowUs)

inductive StartError
  | invalidState
  | noMem
  deriving DecidableEq

/-- What the operating system grants to `robot_drive_start`. -/
structure StartInputs where
  eventQueue : Bool
  snapshotQueue : Bool
  task : Bool
  clockUs : ℤ

def robotDriveStart (s : Statics) (inp : StartInputs) : Option StartError × Statics :=
  if s.task || s.eventQueue.isSome || s.snapshotQueue.isSome then (some .invalidState, s)
  else if !inp.eventQueue || !inp.snapshotQueue then (some .noMem, s)
  else
    let s := { s with eventQueue := some .empty, snapshotQueue := some .empty }
    let s := publishSnapshot s (makeStoppedSnapshot .startup inp.clockUs 0 0)
    if inp.task then (none, { s with task := true })
    else (some .noMem, { s with eventQueue := none, snapshotQueue := none, task := false })

inductive ProducerCall
  | submitCmdVel (linearXMps angularZRadps : Datum)
  | requestStop (reason : StopReason)
  deriving DecidableEq

/-- The event a call builds with the time and the sequence number it takes. -/
def ProducerCall.event (clockUs : ℤ) (sequence : UInt32) : ProducerCall → DriveEvent
  | .submitCmdVel linearXMps angularZRadps =>
    let valid := linearXMps.isFinite && angularZRadps.isFinite
    ⟨.command, ⟨linearXMps, angularZRadps⟩, clockUs, sequence,
      if valid then .none else .invalidCommand, valid⟩
  | .requestStop reason =>
    ⟨.stop, ⟨.finite 0, .finite 0⟩, clockUs, sequence, reason, false⟩

/-- The component is not started, or a stop has no reason. -/
def ProducerCall.refused (s : Statics) : ProducerCall → Bool
  | .submitCmdVel _ _ => s.eventQueue.isNone
  | .requestStop reason => s.eventQueue.isNone || decide (reason = .none)

/-- A call up to the event it is about to send, if it is not refused. -/
def ProducerCall.prepare (s : Statics) (clockUs : ℤ) (call : ProducerCall) :
    Option DriveEvent × Statics :=
  if call.refused s then (none, s)
  else
    let sequence := nextSequence s.sNextSequence
    (some (call.event clockUs sequence), { s with sNextSequence := sequence })

def sendEvent (s : Statics) (event : DriveEvent) : Statics :=
  { s with eventQueue := s.eventQueue.map fun q => q.overwrite event }

/-- A whole call that nothing interrupts. An invalid command is sent and reported as failed. -/
def ProducerCall.run (s : Statics) (clockUs : ℤ) (call : ProducerCall) : Bool × Statics :=
  match call.prepare s clockUs with
  | (none, s) => (false, s)
  | (some event, s) => (decide (event.type = .stop) || event.valid, sendEvent s event)

def robotDriveSubmitCmdVel (s : Statics) (linearXMps angularZRadps : Datum) (clockUs : ℤ) :
    Bool × Statics :=
  (ProducerCall.submitCmdVel linearXMps angularZRadps).run s clockUs

def robotDriveRequestStop (s : Statics) (reason : StopReason) (clockUs : ℤ) : Bool × Statics :=
  (ProducerCall.requestStop reason).run s clockUs

def robotDriveGetSnapshot (s : Statics) : Option Snapshot :=
  s.snapshotQueue.bind fun q => q.items.head?

theorem publishSnapshot_spec {s : Statics} {q : Fifo Snapshot 1} (hq : s.snapshotQueue = some q)
    (snapshot : Snapshot) :
    (publishSnapshot s snapshot).snapshotQueue = some (q.overwrite snapshot) ∧
      robotDriveGetSnapshot (publishSnapshot s snapshot) = some snapshot := by
  unfold robotDriveGetSnapshot publishSnapshot
  rw [hq]
  exact ⟨rfl, rfl⟩

theorem sendEvent_spec {s : Statics} {q : Fifo DriveEvent 1} (hq : s.eventQueue = some q)
    (event : DriveEvent) : (sendEvent s event).eventQueue = some (q.overwrite event) := by
  unfold sendEvent
  rw [hq]
  rfl

inductive Pc
  | receiving
  | evaluating
  | publishing (snapshot : Snapshot)

structure System where
  clockUs : ℤ
  statics : Statics
  /-- The event of a producer call between its clock reading and its send. -/
  hand : Option DriveEvent
  task : TaskState
  pc : Pc

inductive Action
  | tick (us : ℕ)
  | prepare (call : ProducerCall)
  | send
  | receive
  | evaluate
  | publish
  deriving DecidableEq

def step (E : Env) (o : Options) (s : System) : Action → Option System
  | .tick us => some { s with clockUs := s.clockUs + us }
  | .prepare call =>
    match s.hand with
    | none =>
      let prepared := call.prepare s.statics s.clockUs
      some { s with hand := prepared.1, statics := prepared.2 }
    | some _ => none
  | .send =>
    match s.hand with
    | some event => some { s with hand := none, statics := sendEvent s.statics event }
    | none => none
  | .receive =>
    match s.pc with
    | .receiving =>
      match s.statics.eventQueue.bind Fifo.receive with
      | some (incoming, q) =>
        some { s with task := .receive incoming, pc := .evaluating
                      statics := { s.statics with eventQueue := some q } }
      | none => some { s with pc := .evaluating }
    | _ => none
  | .evaluate =>
    match s.pc with
    | .evaluating =>
      let evaluated := s.task.evaluate E o s.clockUs
      some { s with task := evaluated.1, pc := .publishing evaluated.2 }
    | _ => none
  | .publish =>
    match s.pc with
    | .publishing snapshot =>
      some { s with statics := publishSnapshot s.statics snapshot, pc := .receiving }
    | _ => none

/-- A call that is not refused is its two steps, if nothing comes between them. -/
theorem runAll_call {E : Env} {o : Options} {s : System} {call : ProducerCall}
    (hh : s.hand = none) (hr : call.refused s.statics = false) :
    runAll (step E o) s [.prepare call, .send] =
      some { s with statics := (call.run s.statics s.clockUs).2 } := by
  have hprepare : call.prepare s.statics s.clockUs =
      (some (call.event s.clockUs (nextSequence s.statics.sNextSequence)),
        { s.statics with sNextSequence := nextSequence s.statics.sNextSequence }) := by
    unfold ProducerCall.prepare
    rw [hr]
    rfl
  unfold ProducerCall.run
  simp only [runAll, step, hh, hprepare, Option.bind_some]

/-- The component after a successful start, before the task takes its first step. -/
structure Started (s : System) : Prop where
  start : ∃ before inp, robotDriveStart before inp = (none, s.statics)
  hand : s.hand = none
  task : s.task = .initial
  pc : s.pc = .receiving

end RobotFirmware.Drive
