import RobotFirmware.Library.Relay
import RobotFirmware.Microros.Motion
import RobotFirmware.Microros.Lifecycle
import RobotFirmware.Chassis.RemoteStop

/-! The micro-ROS task and the control task of the chassis side by side. The first one makes
requests to the second, as its callbacks and the ends of its sessions ask for. -/
namespace RobotFirmware.Microros
open Trace Queue
open Chassis (RemoteCall RemoteEvent System SystemAction systemStep)

/-- The call that a motion request is on the chassis, where a stop has no reason. -/
def MotionRequest.remoteCall : MotionRequest → RemoteCall
  | .stop _ => .stop
  | .submit linearXMps angularZRadps => .submitCmdVel linearXMps angularZRadps
  | .zero => .zero
  | .arm => .arm

theorem MotionRequest.remoteCall_chassis (E : Fp.Env) (q : Chassis.RemoteQueue)
    (request : MotionRequest) :
    Chassis.remoteCall E false q request.remoteCall = some (false, (request.chassis E q).2) := by
  cases request <;> rfl

def Call.request : Call → Option MotionRequest
  | .motion request => some request
  | _ => none

def requestsOf (log : List Call) : List MotionRequest := log.reverse.filterMap Call.request

def Task.requests (t : Task) : List MotionRequest := requestsOf t.log

theorem requestsOf_append (new log : List Call) :
    requestsOf (new ++ log) = requestsOf log ++ requestsOf new := by
  unfold requestsOf
  rw [List.reverse_append, List.filterMap_append]

theorem requestsOf_cons {x : Call} {log : List Call} (hx : x.request = none) :
    requestsOf (x :: log) = requestsOf log := by
  have hone : requestsOf [x] = [] := by simp [requestsOf, hx]
  have happend := requestsOf_append [x] log
  rw [hone, List.append_nil] at happend
  exact happend

/-- Calls in order add their own requests. -/
theorem requests_calls (t : Task) (cs : List Call) :
    (t.calls cs).requests = t.requests ++ cs.filterMap Call.request := by
  have happend := requestsOf_append cs.reverse t.log
  unfold requestsOf at happend
  rw [List.reverse_reverse] at happend
  exact happend

/-- A call that may be left out and requests no motion. -/
theorem requests_optional {β : Type} (o : Option β) {f : β → Call}
    (hf : ∀ x, (f x).request = none) : (o.map f).toList.filterMap Call.request = [] := by
  cases o with
  | none => rfl
  | some x => simp [hf]

/-- Calls about entities request no motion. -/
theorem requestsOf_entity {requests : List MotionRequest} (x : Call) (log : List Call)
    (hx : x.aboutEntities = true) (h : requestsOf log = requests) :
    requestsOf (x :: log) = requests := by
  have hnone : x.request = none := by
    cases x with
    | motion request => cases hx
    | _ => rfl
  rw [requestsOf_cons hnone]
  exact h

/-- A command asks for ZERO or ARM, then for a stop if that was refused; anything else asks for
a stop. -/
def commandAsks (msg : Option Int32) (remoteOk : Bool) : List MotionRequest :=
  match msg with
  | none => []
  | some data =>
    let request := if data = 0 then [MotionRequest.zero] else if data = 1 then [.arm] else []
    if request ≠ [] ∧ remoteOk = true then request else request ++ [.stop .externalRequest]

theorem commandSubscriptionCallback_asks (s : RosStatics) (msg : Option Int32) (remoteOk : Bool)
    (nowUs : ℤ) :
    (commandSubscriptionCallback .chassis s msg remoteOk nowUs).1 = commandAsks msg remoteOk := by
  unfold commandSubscriptionCallback commandAsks
  cases msg with
  | none => rfl
  | some data =>
    dsimp only
    by_cases h0 : data = 0
    · simp only [h0]
      cases remoteOk <;> simp
    · by_cases h1 : data = 1
      · simp only [h1]
        cases remoteOk <;> simp
      · simp [h0, h1]

def Callback.asks (E : Fp.Env) : Callback → List MotionRequest
  | .command msg remoteOk _ => commandAsks msg remoteOk
  | .cmdVel msg submitted => cmdVelMotionRequests E msg submitted
  | .heartbeatTimer _ _ | .imuTimer _ _ => []

def Action.asks (E : Fp.Env) : Action → List MotionRequest
  | .iterate i => i.callbacks.flatMap (Callback.asks E)
  | .setup _ | .discover _ | .create _ | .openSession _ => []

def GivesUp (t t' : Task) : Prop :=
  ((∃ failures nextAgentPingAtUs, t.pc = .running failures nextAgentPingAtUs) ∧
    t'.pc = .discovering) ∨ (t.pc = .setup ∧ t'.pc = .stopped)

instance (t t' : Task) : Decidable (GivesUp t t') :=
  decidable_of_iff
    ((match t.pc, t'.pc with
      | .running _ _, .discovering | .setup, .stopped => true
      | _, _ => false) = true) (by
    unfold GivesUp
    cases t.pc <;> cases t'.pc <;> simp)

/-- What a step of the task asks for: its callbacks first, and at last the stop of a task that
gives up. -/
def asked (E : Fp.Env) (t : Task) (a : Action) (t' : Task) : List MotionRequest :=
  a.asks E ++ if GivesUp t t' then [.stop .externalRequest] else []

variable {c : Deployment}

theorem runCallback_requests {t : Task} (hmode : c.mode = .chassis) (callback : Callback) :
    (runCallback c t callback).requests = t.requests ++ callback.asks c.env := by
  have hmotion : ∀ requests : List MotionRequest,
      (requests.map Call.motion).filterMap Call.request = requests := by
    intro requests
    rw [List.filterMap_map]
    exact List.filterMap_some
  cases callback with
  | heartbeatTimer timer published =>
    show (t.calls _).requests = _
    rw [requests_calls, requests_optional _ fun _ => rfl]
    rfl
  | imuTimer timer r =>
    show (t.calls _).requests = _
    rw [requests_calls, List.filterMap_append, requests_optional _ fun _ => rfl,
      requests_optional _ fun _ => rfl]
    rfl
  | command msg remoteOk nowUs =>
    show (t.calls _).requests = _
    rw [requests_calls, hmotion, hmode, commandSubscriptionCallback_asks]
    rfl
  | cmdVel msg submitted =>
    show (t.calls _).requests = _
    rw [requests_calls, hmotion]
    rfl

theorem refreshTimeSync_requests (t : Task) (nowUs : ℤ) (answer : SyncAnswer) :
    (refreshTimeSync c t nowUs answer).requests = t.requests := by
  show (t.calls _).requests = _
  rw [requests_calls, requests_optional _ fun _ => rfl, List.append_nil]

theorem spin_requests {t : Task} (hmode : c.mode = .chassis) (i : Iteration) :
    (spin c t i).requests = t.requests ++ i.callbacks.flatMap (Callback.asks c.env) := by
  have hcallbacks : ∀ (callbacks : List Callback) (t : Task),
      (callbacks.foldl (runCallback c) t).requests =
        t.requests ++ callbacks.flatMap (Callback.asks c.env) := by
    intro callbacks
    induction callbacks with
    | nil => exact fun t => (List.append_nil _).symm
    | cons callback callbacks ih =>
      intro t
      rw [List.foldl_cons, ih, runCallback_requests hmode, List.append_assoc]
      rfl
  unfold spin
  dsimp only
  rw [refreshTimeSync_requests]
  exact hcallbacks i.callbacks t

theorem closeSession_requests (t : Task) :
    (closeSession t).requests = t.requests ++ [.stop .externalRequest] := by
  have hstopped : requestsOf ((t.calls [.sessionReturned]).requestMotionStop).log =
      t.requests ++ [.stop .externalRequest] := by
    have hreturned : (t.calls [.sessionReturned]).requests = t.requests :=
      (requests_calls t [.sessionReturned]).trans (List.append_nil _)
    have hstop := requests_calls (t.calls [.sessionReturned]) [.motion (.stop .externalRequest)]
    rw [hreturned] at hstop
    exact hstop
  have hdestroyed := destroyRosEntities_keeps
    (I := fun log => requestsOf log = t.requests ++ [MotionRequest.stop .externalRequest])
    requestsOf_entity (t := ((t.calls [.sessionReturned]).requestMotionStop).entities) hstopped
  show requestsOf (.waitForAgent :: _) = _
  rw [requestsOf_cons rfl]
  exact hdestroyed

theorem fatal_requests (t : Task) :
    (fatal t).requests = t.requests ++ [.stop .externalRequest] := by
  have hstopped : requestsOf t.requestMotionStop.log = t.requests ++ [.stop .externalRequest] :=
    requests_calls t [.motion (.stop .externalRequest)]
  exact destroyRosEntities_keeps
    (I := fun log => requestsOf log = t.requests ++ [MotionRequest.stop .externalRequest])
    requestsOf_entity (t := t.requestMotionStop.entities) hstopped

theorem waitForAgent_requests (t : Task) : t.waitForAgent.requests = t.requests :=
  (requests_calls t [.waitForAgent]).trans (List.append_nil _)

theorem asked_of_givesUp {E : Fp.Env} {t t' : Task} {a : Action} (hup : GivesUp t t') :
    asked E t a t' = a.asks E ++ [.stop .externalRequest] := by
  unfold asked
  rw [if_pos hup]

theorem asked_of_not_givesUp {E : Fp.Env} {t t' : Task} {a : Action} (hup : ¬ GivesUp t t') :
    asked E t a t' = a.asks E := by
  unfold asked
  rw [if_neg hup, List.append_nil]

theorem setup_requests {t : Task} (a : SetupAnswers) (hpc : t.pc = .setup) :
    (setup a t).requests = t.requests ++ asked c.env t (.setup a) (setup a t) := by
  unfold setup
  dsimp only
  split_ifs with hqueue hother
  · rw [asked_of_givesUp (.inr ⟨hpc, rfl⟩), fatal_requests]
    rfl
  · rw [asked_of_givesUp (.inr ⟨hpc, rfl⟩), fatal_requests]
    rfl
  · have hnot : ∀ u : Task, ¬ GivesUp t u.waitForAgent := by
      intro u
      simp [GivesUp, hpc, Task.waitForAgent]
    rw [asked_of_not_givesUp (hnot _), waitForAgent_requests]
    exact (List.append_nil _).symm

theorem pingAgent_requests {t u : Task} {failures : ℕ} {nextAgentPingAtUs : ℤ} (i : Iteration)
    (hpc : t.pc = .running failures nextAgentPingAtUs) (hu : u.pc = t.pc) :
    (pingAgent u failures nextAgentPingAtUs i.nowUs i.pingOk).requests = u.requests ++
      if GivesUp t (pingAgent u failures nextAgentPingAtUs i.nowUs i.pingOk) then
        [.stop .externalRequest] else [] := by
  have hrunning : ∀ {v : Task} {n : ℕ} {us : ℤ}, v.pc = .running n us → ¬ GivesUp t v := by
    intro v n us hv
    simp [GivesUp, hpc, hv]
  have hping : ∀ ok, (u.calls [.pingAgent ok]).requests = u.requests := by
    intro ok
    rw [requests_calls]
    exact List.append_nil _
  unfold pingAgent
  dsimp only
  by_cases hdue : i.nowUs < nextAgentPingAtUs
  · rw [if_pos hdue, if_neg (hrunning (hu.trans hpc)), List.append_nil]
  · rw [if_neg hdue]
    by_cases hok : i.pingOk = true
    · rw [if_pos hok, if_neg (hrunning rfl), List.append_nil]
      exact hping _
    · rw [if_neg hok]
      by_cases hlimit : 3 ≤ failures + 1
      · rw [if_pos hlimit, if_pos (.inl ⟨⟨_, _, hpc⟩, rfl⟩), closeSession_requests, hping]
      · rw [if_neg hlimit, if_neg (hrunning rfl), List.append_nil]
        exact hping _

/-- A step makes exactly the requests that it is asked for. -/
theorem taskStep_requests {t t' : Task} {a : Action} (hmode : c.mode = .chassis)
    (hs : TaskStep c t a t') : t'.requests = t.requests ++ asked c.env t a t' := by
  cases hs with
  | setup a h => exact setup_requests a h
  | iterated i failures nextAgentPingAtUs h =>
    rw [pingAgent_requests i h (spin_pc c t i), spin_requests hmode, List.append_assoc]
    rfl
  | waiting h =>
    rw [asked_of_not_givesUp (by simp [GivesUp, h])]
    exact (List.append_nil _).symm
  | discovered h =>
    rw [asked_of_not_givesUp (by simp [GivesUp, h])]
    exact (List.append_nil _).symm
  | created a h hcreated =>
    have hkept := createRosEntities_keeps (I := fun log => requestsOf log = t.requests)
      requestsOf_entity (t := t.entities) rfl c.mode a
    rw [asked_of_not_givesUp (by simp [GivesUp, h])]
    exact hkept.trans (List.append_nil _).symm
  | failed a h hfailed =>
    have hkept := createRosEntities_keeps (I := fun log => requestsOf log = t.requests)
      requestsOf_entity (t := t.entities) rfl c.mode a
    rw [asked_of_not_givesUp (by simp [GivesUp, h]), waitForAgent_requests]
    exact hkept.trans (List.append_nil _).symm
  | opened r h =>
    have hrun := requests_calls { t with ros := prepareNewRosSession t.ros } [.runRosSession]
    rw [asked_of_not_givesUp (by simp [GivesUp, h])]
    show (refreshTimeSync c _ r.syncUs r.syncAnswer).requests = _
    rw [refreshTimeSync_requests]
    exact hrun

/-- The two tasks, and the requests of the latest step of the micro-ROS task that it still has
to make before it goes on. -/
structure Robot where
  ros : Task
  outstanding : List MotionRequest
  chassis : System

inductive RobotAction
  | ros (a : Action)
  | request
  | control (a : SystemAction)

/-- The micro-ROS task takes its steps whole and makes their requests one at a time. -/
def robotStep (c : Deployment) (s : Robot) : RobotAction → Option Robot
  | .ros a =>
    match s.outstanding with
    | [] => (taskStep { c with mode := .chassis } s.ros a).map fun ros => { s with
        ros := ros
        outstanding := ros.requests.drop s.ros.requests.length }
    | _ :: _ => none
  | .request =>
    match s.outstanding with
    | [] => none
    | request :: rest =>
      (systemStep c.env s.chassis (.remote request.remoteCall)).map fun chassis => { s with
        outstanding := rest
        chassis := chassis }
  | .control a =>
    match a with
    | .remote _ => none
    | a => (systemStep c.env s.chassis a).map fun chassis => { s with chassis := chassis }

inductive RobotSteps (c : Deployment) (s : Robot) : RobotAction → Robot → Prop
  | ros (a : Action) (ros : Task) (hidle : s.outstanding = [])
      (hstep : TaskStep { c with mode := .chassis } s.ros a ros) :
      RobotSteps c s (.ros a) { s with ros := ros, outstanding := asked c.env s.ros a ros }
  | request (request : MotionRequest) (rest : List MotionRequest) (chassis : System)
      (houtstanding : s.outstanding = request :: rest)
      (hstep : systemStep c.env s.chassis (.remote request.remoteCall) = some chassis) :
      RobotSteps c s .request { s with outstanding := rest, chassis := chassis }
  | control (a : SystemAction) (chassis : System) (hlocal : ∀ call, a ≠ .remote call)
      (hstep : systemStep c.env s.chassis a = some chassis) :
      RobotSteps c s (.control a) { s with chassis := chassis }

theorem robotSteps_of_enabled {c : Deployment} {s s' : Robot} {a : RobotAction}
    (hs : Enabled (robotStep c) s a s') : RobotSteps c s a s' := by
  unfold Enabled robotStep at hs
  cases a with
  | ros a =>
    dsimp only at hs
    split at hs
    next hidle =>
      obtain ⟨ros, hros, rfl⟩ := Option.map_eq_some_iff.mp hs
      have hstep := taskStep_of_enabled hros
      rw [taskStep_requests rfl hstep, List.drop_left]
      exact .ros a ros hidle hstep
    next => cases hs
  | request =>
    dsimp only at hs
    split at hs
    next => cases hs
    next request rest houtstanding =>
      obtain ⟨chassis, hstep, rfl⟩ := Option.map_eq_some_iff.mp hs
      exact .request request rest chassis houtstanding hstep
  | control a =>
    dsimp only at hs
    split at hs
    next => cases hs
    next hlocal =>
      obtain ⟨chassis, hstep, rfl⟩ := Option.map_eq_some_iff.mp hs
      exact .control a chassis hlocal hstep

def bootedRobot : Robot := ⟨.start, [], Chassis.readySystem⟩

def slowForward : Chassis.Twist :=
  ⟨fun i => .finite (if i.val = 0 then 1 / 10 else 0), fun _ => .finite 0⟩

def drivingSession : List RobotAction :=
  [.ros (.setup ⟨true, true, true, true, true, true⟩), .ros (.discover true),
    .ros (.create allSucceed), .ros (.openSession ⟨0, 0, ⟨true, true⟩⟩),
    .ros (.iterate ⟨[.command (some 0) true 500000, .command (some 1) true 500000,
      .cmdVel (some slowForward) true], 500000, 500000, ⟨true, true⟩, 500000, true⟩),
    .request, .request, .request,
    .control (.wake 1000000), .control .beginDrain,
    .control .receive, .control (.handle Chassis.goodReadings),
    .control .receive, .control (.handle Chassis.goodReadings),
    .control .receive, .control (.handle Chassis.goodReadings),
    .control .finishDrain, .control (.sample fun _ => some 0),
    .ros (.iterate (silentPass 1000000 false)), .ros (.iterate (silentPass 2000000 false))]

theorem drivingSession_driven : ∃ h s,
    Path (Enabled (robotStep physicalDeployment)) bootedRobot h s ∧
      ∀ i, (s.chassis.diag.motors i).Driven := by
  have hrun : (runAll (robotStep physicalDeployment) bootedRobot drivingSession).map
      (fun s => decide (∀ i, (s.chassis.diag.motors i).Driven)) = some true := by
    decide +kernel
  obtain ⟨s, hs, hdriven⟩ := Option.map_eq_some_iff.mp hrun
  obtain ⟨h, hp, _⟩ := path_of_runAll hs
  exact ⟨h, s, hp, of_decide_eq_true hdriven⟩

end RobotFirmware.Microros
