import RobotFirmware.Library.Path
import RobotFirmware.Microros.Entities

/-! The micro-ROS task: setup, the discovery of the agent, the creation of the entities and the
session, over and over. Clock readings and the answers of the middleware are inputs. -/
namespace RobotFirmware.Microros
open Fp Trace Queue

/-- Where the task stands. A session keeps its two local variables here. -/
inductive Pc
  | setup
  | discovering
  | creating
  | opening
  | running (consecutivePingFailures : ℕ) (nextAgentPingAtUs : ℤ)
  | stopped

structure Task where
  pc : Pc
  entities : Entities
  ros : RosStatics

def Task.start : Task := ⟨.setup, ⟨fun _ => false, []⟩, .zero⟩

def Task.log (t : Task) : List Call := t.entities.log

def Task.calls (t : Task) (cs : List Call) : Task :=
  { t with entities := { t.entities with log := cs.reverse ++ t.entities.log } }

def Task.waitForAgent (t : Task) : Task := { t.calls [.waitForAgent] with pc := .discovering }

def Task.requestMotionStop (t : Task) : Task := t.calls [.motion (.stop .externalRequest)]

structure SetupAnswers where
  queueCreated : Bool
  messages : Bool
  initOptions : Bool
  domainId : Bool
  rmwOptions : Bool
  udpAddress : Bool

/-- The label `fatal`. -/
def fatal (t : Task) : Task :=
  let t := t.requestMotionStop
  { t with
    pc := .stopped
    entities := destroyRosEntities t.entities
    ros := { t.ros with commandQueue := none } }

def setup (a : SetupAnswers) (t : Task) : Task :=
  let t := { t with entities := resetEntityHandles t.entities }
  if !a.queueCreated then fatal t
  else
    let t := { t with ros := { t.ros with commandQueue := some .empty, heartbeat := 0 } }
    if !a.messages || !a.initOptions || !a.domainId || !a.rmwOptions || !a.udpAddress then fatal t
    else t.waitForAgent

/-- A callback that the executor runs, with what it reads. -/
inductive Callback
  | heartbeatTimer (timer published : Bool)
  | imuTimer (timer : Bool) (r : TimerReadings)
  | command (msg : Option Int32) (remoteOk : Bool) (nowUs : ℤ)
  | cmdVel (msg : Option Chassis.Twist) (submitted : Bool)

/-- Without the chassis there is a heartbeat. -/
def Callback.registered (mode : AppMode) : Callback → Bool
  | .heartbeatTimer _ _ => mode = .dryRun
  | _ => true

def runCallback (c : Deployment) (t : Task) : Callback → Task
  | .heartbeatTimer timer published =>
    let result := heartbeatTimerCallback t.ros timer published
    { t.calls (result.1.map .publishHeartbeat).toList with ros := result.2 }
  | .imuTimer timer r =>
    let result := imuTimerCallback c.env c.libm c.mode c.imu t.ros timer r
    { t.calls ((result.1.map .publishOdom).toList ++ (result.2.1.map .publishImu).toList) with
      ros := result.2.2 }
  | .command msg remoteOk nowUs =>
    let result := commandSubscriptionCallback c.mode t.ros msg remoteOk nowUs
    { t.calls (result.1.map .motion) with ros := result.2 }
  | .cmdVel msg submitted => t.calls ((cmdVelMotionRequests c.env msg submitted).map .motion)

def refreshTimeSync (c : Deployment) (t : Task) (nowUs : ℤ) (answer : SyncAnswer) : Task :=
  let result := refreshTimeSyncIfDue c.timeSyncPeriodMs t.ros nowUs answer
  { t.calls (result.1.map .syncSession).toList with ros := result.2 }

/-- The readings before the loop of `run_ros_session`. -/
structure SessionStart where
  nowUs : ℤ
  syncUs : ℤ
  syncAnswer : SyncAnswer

/-- `prepare_new_ros_session` and `run_ros_session` up to its loop. -/
def openSession (c : Deployment) (t : Task) (r : SessionStart) : Task :=
  let t := { t with ros := prepareNewRosSession t.ros }
  let t := refreshTimeSync c (t.calls [.runRosSession]) r.syncUs r.syncAnswer
  { t with pc := .running 0 (r.nowUs + 1000000) }

/-- From the return of `run_ros_session` to the next discovery. -/
def closeSession (t : Task) : Task :=
  let t := (t.calls [.sessionReturned]).requestMotionStop
  let t := { t with
    ros := { resetCommandQueue t.ros with timeSynced := false }
    entities := destroyRosEntities t.entities }
  t.waitForAgent

structure Iteration where
  callbacks : List Callback
  timeoutUs : ℤ
  syncUs : ℤ
  syncAnswer : SyncAnswer
  nowUs : ℤ
  pingOk : Bool

/-- The loop up to the ping. -/
def spin (c : Deployment) (t : Task) (i : Iteration) : Task :=
  let t := i.callbacks.foldl (runCallback c) t
  let t := { t with ros := checkCommandTimeout t.ros i.timeoutUs }
  refreshTimeSync c t i.syncUs i.syncAnswer

/-- The ping, and the return from the session at the third failure in a row. -/
def pingAgent (t : Task) (failures : ℕ) (nextAgentPingAtUs nowUs : ℤ) (ok : Bool) : Task :=
  if nowUs < nextAgentPingAtUs then t
  else
    let t := t.calls [.pingAgent ok]
    if ok then { t with pc := .running 0 (nowUs + 1000000) }
    else if 3 ≤ failures + 1 then closeSession t
    else { t with pc := .running (failures + 1) (nowUs + 1000000) }

inductive Action
  | setup (a : SetupAnswers)
  | discover (reachable : Bool)
  | create (a : CreateAnswers)
  | openSession (r : SessionStart)
  | iterate (i : Iteration)

def taskStep (c : Deployment) (t : Task) (a : Action) : Option Task :=
  match t.pc, a with
  | .setup, .setup a => some (setup a t)
  | .discovering, .discover reachable =>
    some (if reachable then { t with pc := .creating } else t)
  | .creating, .create a =>
    match createRosEntities c.mode a t.entities with
    | (true, entities) => some { t with entities := entities, pc := .opening }
    | (false, entities) => some { t with entities := entities }.waitForAgent
  | .opening, .openSession r => some (openSession c t r)
  | .running failures nextAgentPingAtUs, .iterate i =>
    if i.callbacks.all (Callback.registered c.mode) then
      some (pingAgent (spin c t i) failures nextAgentPingAtUs i.nowUs i.pingOk)
    else none
  | _, _ => none

inductive TaskStep (c : Deployment) (t : Task) : Action → Task → Prop
  | setup (a : SetupAnswers) (hpc : t.pc = .setup) : TaskStep c t (.setup a) (setup a t)
  | waiting (hpc : t.pc = .discovering) : TaskStep c t (.discover false) t
  | discovered (hpc : t.pc = .discovering) :
      TaskStep c t (.discover true) { t with pc := .creating }
  | created (a : CreateAnswers) (hpc : t.pc = .creating)
      (hcreated : (createRosEntities c.mode a t.entities).1 = true) :
      TaskStep c t (.create a)
        { t with entities := (createRosEntities c.mode a t.entities).2, pc := .opening }
  | failed (a : CreateAnswers) (hpc : t.pc = .creating)
      (hfailed : (createRosEntities c.mode a t.entities).1 = false) :
      TaskStep c t (.create a)
        { t with entities := (createRosEntities c.mode a t.entities).2 }.waitForAgent
  | opened (r : SessionStart) (hpc : t.pc = .opening) :
      TaskStep c t (.openSession r) (openSession c t r)
  | iterated (i : Iteration) (failures : ℕ) (nextAgentPingAtUs : ℤ)
      (hpc : t.pc = .running failures nextAgentPingAtUs) :
      TaskStep c t (.iterate i)
        (pingAgent (spin c t i) failures nextAgentPingAtUs i.nowUs i.pingOk)

theorem taskStep_of_enabled {c : Deployment} {t t' : Task} {a : Action}
    (hs : Enabled (taskStep c) t a t') : TaskStep c t a t' := by
  unfold Enabled taskStep at hs
  split at hs
  next a hpc =>
    cases hs
    exact .setup a hpc
  next reachable hpc =>
    cases hs
    cases reachable with
    | true => exact .discovered hpc
    | false => exact .waiting hpc
  next a hpc =>
    cases hresult : createRosEntities c.mode a t.entities with
    | mk created entities =>
      have hentities : entities = (createRosEntities c.mode a t.entities).2 := by rw [hresult]
      rw [hresult] at hs
      cases created with
      | true =>
        cases hs
        rw [hentities]
        exact .created a hpc (by rw [hresult])
      | false =>
        cases hs
        rw [hentities]
        exact .failed a hpc (by rw [hresult])
  next r hpc =>
    cases hs
    exact .opened r hpc
  next failures nextAgentPingAtUs i hpc =>
    split_ifs at hs
    cases hs
    exact .iterated i failures nextAgentPingAtUs hpc
  next => cases hs

theorem pc_of_create {c : Deployment} {t t' : Task} {a : CreateAnswers}
    (hs : Enabled (taskStep c) t (.create a) t') : t.pc = .creating := by
  cases taskStep_of_enabled hs with
  | created a hpc _ => exact hpc
  | failed a hpc _ => exact hpc

def Call.fromCallback : Call → Bool
  | .publishHeartbeat _ | .publishImu _ | .publishOdom _ | .motion _ => true
  | _ => false

def Call.stamped : Call → Bool
  | .publishImu _ | .publishOdom _ => true
  | _ => false

theorem Task.calls_calls (t : Task) (cs ds : List Call) :
    (t.calls cs).calls ds = t.calls (cs ++ ds) := by
  unfold Task.calls
  simp

structure CallbackEffect (t : Task) (cs : List Call) (ros : RosStatics) : Prop where
  synced : ros.timeSynced = t.ros.timeSynced
  fromCallback : ∀ x ∈ cs, x.fromCallback = true
  stamped : ∀ x ∈ cs, x.stamped = true → t.ros.timeSynced = true

theorem imuTimerCallback_effect (c : Deployment) (t : Task) (timer : Bool) (r : TimerReadings) :
    CallbackEffect t
      (((imuTimerCallback c.env c.libm c.mode c.imu t.ros timer r).1.map .publishOdom).toList ++
        ((imuTimerCallback c.env c.libm c.mode c.imu t.ros timer r).2.1.map .publishImu).toList)
      (imuTimerCallback c.env c.libm c.mode c.imu t.ros timer r).2.2 := by
  obtain ⟨hsynced, hodom, himu⟩ :=
    imuTimerCallback_timeSynced c.env c.libm c.mode c.imu t.ros timer r
  constructor
  · exact hsynced
  · intro x hx
    rcases List.mem_append.mp hx with hx | hx
    · obtain ⟨message, _, rfl⟩ := Option.map_eq_some_iff.mp (Option.mem_toList.mp hx)
      rfl
    · obtain ⟨message, _, rfl⟩ := Option.map_eq_some_iff.mp (Option.mem_toList.mp hx)
      rfl
  · intro x hx _
    rcases List.mem_append.mp hx with hx | hx
    · obtain ⟨message, hmessage, _⟩ := Option.map_eq_some_iff.mp (Option.mem_toList.mp hx)
      exact hodom message hmessage
    · obtain ⟨message, hmessage, _⟩ := Option.map_eq_some_iff.mp (Option.mem_toList.mp hx)
      exact himu message hmessage

theorem runCallback_spec (c : Deployment) (t : Task) (callback : Callback) :
    ∃ cs ros, runCallback c t callback = { t.calls cs with ros := ros } ∧
      CallbackEffect t cs ros := by
  cases callback with
  | heartbeatTimer timer published =>
    refine ⟨_, _, rfl, ?_, ?_, ?_⟩
    · unfold heartbeatTimerCallback
      split_ifs <;> rfl
    · intro x hx
      obtain ⟨data, _, rfl⟩ := Option.map_eq_some_iff.mp (Option.mem_toList.mp hx)
      rfl
    · intro x hx hstamped
      obtain ⟨data, _, rfl⟩ := Option.map_eq_some_iff.mp (Option.mem_toList.mp hx)
      cases hstamped
  | imuTimer timer r => exact ⟨_, _, rfl, imuTimerCallback_effect c t timer r⟩
  | command msg remoteOk nowUs =>
    refine ⟨_, _, rfl, ?_, ?_, ?_⟩
    · unfold commandSubscriptionCallback overwriteCommand
      cases msg with
      | none => rfl
      | some data =>
        cases c.mode with
        | dryRun => rfl
        | chassis =>
          dsimp only
          split_ifs <;> rfl
    · intro x hx
      obtain ⟨request, _, rfl⟩ := List.mem_map.mp hx
      rfl
    · intro x hx hstamped
      obtain ⟨request, _, rfl⟩ := List.mem_map.mp hx
      cases hstamped
  | cmdVel msg submitted =>
    refine ⟨(cmdVelMotionRequests c.env msg submitted).map .motion, t.ros, rfl, rfl, ?_, ?_⟩
    · intro x hx
      obtain ⟨request, _, rfl⟩ := List.mem_map.mp hx
      rfl
    · intro x hx hstamped
      obtain ⟨request, _, rfl⟩ := List.mem_map.mp hx
      cases hstamped

theorem runCallbacks_spec (c : Deployment) (t : Task) (callbacks : List Callback) :
    ∃ cs ros, callbacks.foldl (runCallback c) t = { t.calls cs with ros := ros } ∧
      CallbackEffect t cs ros := by
  induction callbacks generalizing t with
  | nil => exact ⟨[], t.ros, rfl, rfl, by simp, by simp⟩
  | cons callback callbacks ih =>
    obtain ⟨cs, ros, hfirst, heffect⟩ := runCallback_spec c t callback
    obtain ⟨ds, ros', hrest, heffect'⟩ := ih (runCallback c t callback)
    rw [List.foldl_cons, hrest, hfirst]
    rw [hfirst] at heffect'
    have hsynced : ros'.timeSynced = t.ros.timeSynced := heffect'.synced.trans heffect.synced
    refine ⟨cs ++ ds, ros', ?_, hsynced, ?_, ?_⟩
    · rw [← Task.calls_calls]
      rfl
    · intro x hx
      rcases List.mem_append.mp hx with hx | hx
      · exact heffect.fromCallback x hx
      · exact heffect'.fromCallback x hx
    · intro x hx hstamped
      rcases List.mem_append.mp hx with hx | hx
      · exact heffect.stamped x hx hstamped
      · rw [← heffect.synced]
        exact heffect'.stamped x hx hstamped

theorem checkCommandTimeout_timeSynced (s : RosStatics) (nowUs : ℤ) :
    (checkCommandTimeout s nowUs).timeSynced = s.timeSynced := by
  unfold checkCommandTimeout
  cases s.commandQueue.bind fun q => q.items.head? with
  | none => rfl
  | some latest =>
    dsimp only
    split_ifs <;> rfl

/-- A pass up to its ping is the calls of the callbacks and a synchronisation. -/
theorem spin_spec (c : Deployment) (t : Task) (i : Iteration) :
    ∃ cs ros, spin c t i =
        refreshTimeSync c { t.calls cs with ros := ros } i.syncUs i.syncAnswer ∧
      CallbackEffect t cs ros := by
  obtain ⟨cs, ros, hcallbacks, heffect⟩ := runCallbacks_spec c t i.callbacks
  refine ⟨cs, checkCommandTimeout ros i.timeoutUs, ?_, ?_, ?_, ?_⟩
  · unfold spin
    rw [hcallbacks]
  · rw [checkCommandTimeout_timeSynced]
    exact heffect.synced
  · exact heffect.fromCallback
  · exact heffect.stamped

theorem spin_pc (c : Deployment) (t : Task) (i : Iteration) : (spin c t i).pc = t.pc := by
  obtain ⟨cs, ros, hspin, _⟩ := spin_spec c t i
  rw [hspin]
  rfl

end RobotFirmware.Microros
