import RobotFirmware.Library.EarlyReturn
import RobotFirmware.Microros.Publisher

/-! The ROS entities of a session: their flags, their creation and their destruction. Every call
that the task makes is logged, newest first; the answers to the calls are inputs. -/
namespace RobotFirmware.Microros
open Fp EarlyReturn

inductive Entity
  | support
  | node
  | heartbeatPublisher
  | imuPublisher
  | odomPublisher
  | commandSubscription
  | cmdVelSubscription
  | heartbeatTimer
  | imuTimer
  | executor
  deriving DecidableEq

/-- A call of the task. An init call tells whether the entity exists after it, and a
publication is logged when `rcl_publish` is called. -/
inductive Call
  | waitForAgent
  | createRosEntities
  | init (e : Entity) (acquired : Bool)
  | executorInit (handles : ℕ) (ok : Bool)
  | executorAdd (e : Entity) (ok : Bool)
  | fini (e : Entity)
  | runRosSession
  | sessionReturned
  | syncSession (synced : Bool)
  | pingAgent (ok : Bool)
  | publishHeartbeat (data : Int32)
  | publishImu (message : ImuMessage)
  | publishOdom (message : OdomMessage)
  | motion (request : MotionRequest)

/-- The flags of `robot_microros_entities_t` and the calls made so far. -/
structure Entities where
  initialized : Entity → Bool
  log : List Call

def Entities.call (t : Entities) (c : Call) : Entities := { t with log := c :: t.log }

def Entities.set (t : Entities) (e : Entity) (flag : Bool) : Entities :=
  { t with initialized := Function.update t.initialized e flag }

def resetEntityHandles (t : Entities) : Entities := { t with initialized := fun _ => false }

/-- The executor comes before the entities that it serves. -/
def destroyOrder : List Entity :=
  [.executor, .imuTimer, .heartbeatTimer, .cmdVelSubscription, .commandSubscription,
    .imuPublisher, .odomPublisher, .heartbeatPublisher, .node, .support]

def destroyRosEntities (t : Entities) : Entities :=
  resetEntityHandles
    (destroyOrder.foldl (fun u e => if t.initialized e then u.call (.fini e) else u) t)

/-- The answers to the calls of a creation. -/
structure CreateAnswers where
  support : Bool
  contextValid : Bool
  node : Bool
  publisher : Bool
  rmwHandle : Bool
  publisherTimeout : Bool
  imuPublisher : Bool
  commandSubscription : Bool
  cmdVelSubscription : Bool
  heartbeatTimer : Bool
  imuTimer : Bool
  executor : Bool
  addHeartbeatTimer : Bool
  addImuTimer : Bool
  addCommandSubscription : Bool
  addCmdVelSubscription : Bool

/-- A support whose init fails may leave a context behind. -/
def initSupport (ok contextValid : Bool) (t : Entities) : Except Entities Entities :=
  let t := t.call (.init .support (ok || contextValid))
  if ok then .ok (t.set .support true) else .error (t.set .support contextValid)

def initEntity (e : Entity) (ok : Bool) (t : Entities) : Except Entities Entities :=
  let t := t.call (.init e ok)
  if ok then .ok (t.set e true) else .error t

def configurePublisherTimeout (rmwHandle ok : Bool) (t : Entities) : Except Entities Entities :=
  if rmwHandle && ok then .ok t else .error t

def initExecutor (handles : ℕ) (ok : Bool) (t : Entities) : Except Entities Entities :=
  let t := t.call (.executorInit handles ok)
  if ok then .ok (t.set .executor true) else .error t

def addHandle (e : Entity) (ok : Bool) (t : Entities) : Except Entities Entities :=
  let t := t.call (.executorAdd e ok)
  if ok then .ok t else .error t

def modePublisher : AppMode → Entity
  | .chassis => .odomPublisher
  | .dryRun => .heartbeatPublisher

def executorHandles : AppMode → ℕ
  | .chassis => 3
  | .dryRun => 4

/-- A step that is compiled only without the chassis. -/
def unlessChassis (mode : AppMode) (step : Entities → Except Entities Entities) (t : Entities) :
    Except Entities Entities :=
  match mode with
  | .chassis => .ok t
  | .dryRun => step t

/-- The function up to its label `fail`. -/
def createUntilFail (mode : AppMode) (a : CreateAnswers) (t : Entities) :
    Except Entities Entities := do
  let t ← initSupport a.support a.contextValid t
  let t ← initEntity .node a.node t
  let t ← initEntity (modePublisher mode) a.publisher t
  let t ← configurePublisherTimeout a.rmwHandle a.publisherTimeout t
  let t ← initEntity .imuPublisher a.imuPublisher t
  let t ← initEntity .commandSubscription a.commandSubscription t
  let t ← initEntity .cmdVelSubscription a.cmdVelSubscription t
  let t ← unlessChassis mode (initEntity .heartbeatTimer a.heartbeatTimer) t
  let t ← initEntity .imuTimer a.imuTimer t
  let t ← initExecutor (executorHandles mode) a.executor t
  let t ← unlessChassis mode (addHandle .heartbeatTimer a.addHeartbeatTimer) t
  let t ← addHandle .imuTimer a.addImuTimer t
  let t ← addHandle .commandSubscription a.addCommandSubscription t
  addHandle .cmdVelSubscription a.addCmdVelSubscription t

def createRosEntities (mode : AppMode) (a : CreateAnswers) (t : Entities) : Bool × Entities :=
  match createUntilFail mode a (resetEntityHandles (t.call .createRosEntities)) with
  | .ok t => (true, t)
  | .error t => (false, destroyRosEntities t)

def Call.aboutEntities : Call → Bool
  | .createRosEntities | .init _ _ | .executorInit _ _ | .executorAdd _ _ | .fini _ => true
  | _ => false

def Keeps (I : List Call → Prop) (x : Except Entities Entities) : Prop :=
  ExceptEnds x (fun u => I u.log) fun u => I u.log

section
variable {I : List Call → Prop} (hI : ∀ x log, x.aboutEntities = true → I log → I (x :: log))
  {t : Entities}
include hI

theorem destroyRosEntities_keeps (h : I t.log) : I (destroyRosEntities t).log := by
  have hfold : ∀ (order : List Entity) (u : Entities), I u.log →
      I (order.foldl (fun u e => if t.initialized e then u.call (.fini e) else u) u).log := by
    intro order
    induction order with
    | nil => exact fun u hu => hu
    | cons e order ih =>
      intro u hu
      apply ih
      dsimp only
      split_ifs
      · exact hI (.fini e) u.log rfl hu
      · exact hu
  exact hfold destroyOrder t h

theorem initSupport_keeps (h : I t.log) (ok contextValid : Bool) :
    Keeps I (initSupport ok contextValid t) := by
  have hcall := hI (.init .support (ok || contextValid)) t.log rfl h
  cases ok <;> exact hcall

theorem initEntity_keeps (h : I t.log) (e : Entity) (ok : Bool) :
    Keeps I (initEntity e ok t) := by
  have hcall := hI (.init e ok) t.log rfl h
  cases ok <;> exact hcall

omit hI in
theorem configurePublisherTimeout_keeps (h : I t.log) (rmwHandle ok : Bool) :
    Keeps I (configurePublisherTimeout rmwHandle ok t) := by
  unfold configurePublisherTimeout
  split_ifs <;> exact h

theorem initExecutor_keeps (h : I t.log) (handles : ℕ) (ok : Bool) :
    Keeps I (initExecutor handles ok t) := by
  have hcall := hI (.executorInit handles ok) t.log rfl h
  cases ok <;> exact hcall

theorem addHandle_keeps (h : I t.log) (e : Entity) (ok : Bool) : Keeps I (addHandle e ok t) := by
  have hcall := hI (.executorAdd e ok) t.log rfl h
  cases ok <;> exact hcall

omit hI in
theorem unlessChassis_keeps (h : I t.log) (mode : AppMode)
    {step : Entities → Except Entities Entities} (hstep : Keeps I (step t)) :
    Keeps I (unlessChassis mode step t) := by
  cases mode with
  | chassis => exact h
  | dryRun => exact hstep

theorem createUntilFail_keeps (h : I t.log) (mode : AppMode) (a : CreateAnswers) :
    Keeps I (createUntilFail mode a t) := by
  unfold createUntilFail
  refine (initSupport_keeps hI h a.support a.contextValid).bind fun t h => ?_
  refine (initEntity_keeps hI h .node a.node).bind fun t h => ?_
  refine (initEntity_keeps hI h (modePublisher mode) a.publisher).bind fun t h => ?_
  refine (configurePublisherTimeout_keeps h a.rmwHandle a.publisherTimeout).bind fun t h => ?_
  refine (initEntity_keeps hI h .imuPublisher a.imuPublisher).bind fun t h => ?_
  refine (initEntity_keeps hI h .commandSubscription a.commandSubscription).bind fun t h => ?_
  refine (initEntity_keeps hI h .cmdVelSubscription a.cmdVelSubscription).bind fun t h => ?_
  refine (unlessChassis_keeps h mode
    (initEntity_keeps hI h .heartbeatTimer a.heartbeatTimer)).bind fun t h => ?_
  refine (initEntity_keeps hI h .imuTimer a.imuTimer).bind fun t h => ?_
  refine (initExecutor_keeps hI h (executorHandles mode) a.executor).bind fun t h => ?_
  refine (unlessChassis_keeps h mode
    (addHandle_keeps hI h .heartbeatTimer a.addHeartbeatTimer)).bind fun t h => ?_
  refine (addHandle_keeps hI h .imuTimer a.addImuTimer).bind fun t h => ?_
  refine (addHandle_keeps hI h .commandSubscription a.addCommandSubscription).bind fun t h => ?_
  exact addHandle_keeps hI h .cmdVelSubscription a.addCmdVelSubscription

/-- What every call about entities keeps, a creation keeps. -/
theorem createRosEntities_keeps (h : I t.log) (mode : AppMode) (a : CreateAnswers) :
    I (createRosEntities mode a t).2.log := by
  have hbegin := hI .createRosEntities t.log rfl h
  have hends : Keeps I (createUntilFail mode a (resetEntityHandles (t.call .createRosEntities))) :=
    createUntilFail_keeps hI hbegin mode a
  unfold createRosEntities
  cases hresult : createUntilFail mode a (resetEntityHandles (t.call .createRosEntities)) with
  | ok u =>
    rw [hresult] at hends
    exact hends
  | error u =>
    rw [hresult] at hends
    exact destroyRosEntities_keeps hI hends

end

end RobotFirmware.Microros
