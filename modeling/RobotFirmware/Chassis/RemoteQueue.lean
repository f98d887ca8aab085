import RobotFirmware.Library.Fifo
import RobotFirmware.Chassis.ArmingGate

/-! The remote event queue between the micro-ROS task and the control task, with any
interleaving of the two. A stop that finds the queue full is lost. -/
namespace RobotFirmware.Chassis
open Fp Trace Queue

def remoteQueueLength : ℕ := 8

abbrev RemoteQueue := Fifo RemoteEvent remoteQueueLength

def queueRemoteEvent (q : RemoteQueue) (event : RemoteEvent) : Bool × RemoteQueue :=
  q.send event

def robotChassisDiagRemoteZero (q : RemoteQueue) : Bool × RemoteQueue := queueRemoteEvent q .zero

def robotChassisDiagRemoteArm (q : RemoteQueue) : Bool × RemoteQueue := queueRemoteEvent q .arm

def robotChassisDiagRemoteStop (q : RemoteQueue) : Bool × RemoteQueue := queueRemoteEvent q .stop

/-- `COUNTS_PER_REV_CANDIDATE * (CONTROL_PERIOD_MS / 1000) / WHEEL_CIRCUMFERENCE_M_CANDIDATE` -/
def countsPerMetrePerStep (E : Env) : Datum :=
  Datum.div E.single
    (Datum.mul E.single (literalF E 1040) (Datum.div E.single (E.ofInt 10) (literalF E 1000)))
    (literalF E (1508 / 10000))

def robotChassisDiagSubmitCmdVel (E : Env) (q : RemoteQueue) (linearXMps angularZRadps : Datum) :
    Bool × RemoteQueue :=
  match robotChassisCoreTwistToTargets E linearXMps angularZRadps (turnGeometryM E)
      (countsPerMetrePerStep E) 20 with
  | none => (false, q)
  | some (targets, limited) => queueRemoteEvent q (.targets targets limited)

/-- The linear and angular parts of a `Twist` message, in `double`. -/
structure Twist where
  linear : Fin 3 → Datum
  angular : Fin 3 → Datum

def supportedTwistIsValid (E : Env) : Option Twist → Bool
  | none => false
  | some command =>
    let small := fun x => Datum.le (Datum.abs x) (E.double.round (1 / 1000000))
    decide (∀ i, (command.linear i).isFinite = true ∧ (command.angular i).isFinite = true) &&
      small (command.linear 1) && small (command.linear 2) &&
      small (command.angular 0) && small (command.angular 1)

/-- The two components that the robot uses. -/
def Twist.linearX (command : Twist) : Datum := command.linear 0

def Twist.angularZ (command : Twist) : Datum := command.angular 2

def Twist.unsupported (command : Twist) : List Datum :=
  [command.linear 1, command.linear 2, command.angular 0, command.angular 1]

/-- What the micro-ROS task does with the queue, one queue operation a step. -/
inductive RemoteCall
  | zero
  | arm
  | stop
  | submitCmdVel (linearXMps angularZRadps : Datum)
  /-- `command_subscription_callback`, up to its first queue operation. -/
  | command (data : Int32)
  /-- `cmd_vel_subscription_callback`, up to its first queue operation. -/
  | cmdVel (msg : Option Twist)
  /-- The stop a callback issues after its submission failed. -/
  | refusedStop

/-- Whether a callback still has to stop, and the queue. A call out of turn is refused. -/
def remoteCall (E : Env) (refused : Bool) (q : RemoteQueue) :
    RemoteCall → Option (Bool × RemoteQueue)
  | .refusedStop => if refused then some (false, (robotChassisDiagRemoteStop q).2) else none
  | .zero => if refused then none else some (false, (robotChassisDiagRemoteZero q).2)
  | .arm => if refused then none else some (false, (robotChassisDiagRemoteArm q).2)
  | .stop => if refused then none else some (false, (robotChassisDiagRemoteStop q).2)
  | .submitCmdVel linearXMps angularZRadps =>
    if refused then none
    else some (false, (robotChassisDiagSubmitCmdVel E q linearXMps angularZRadps).2)
  | .command data =>
    if refused then none
    else if data = 0 then
      some (!(robotChassisDiagRemoteZero q).1, (robotChassisDiagRemoteZero q).2)
    else if data = 1 then
      some (!(robotChassisDiagRemoteArm q).1, (robotChassisDiagRemoteArm q).2)
    else some (false, (robotChassisDiagRemoteStop q).2)
  | .cmdVel msg =>
    if refused then none
    else if supportedTwistIsValid E msg then
      msg.map fun command =>
        let r := robotChassisDiagSubmitCmdVel E q (E.toSingle (command.linear 0))
          (E.toSingle (command.angular 2))
        (!r.1, r.2)
    else some (false, (robotChassisDiagRemoteStop q).2)

inductive ControlPc
  | waiting
  | polling
  | draining
  | handling (event : RemoteEvent)
  | sampling

structure System where
  diag : Diag
  pc : ControlPc
  queue : RemoteQueue
  /-- A callback of the micro-ROS task failed to submit and has yet to stop. -/
  refused : Bool

inductive SystemAction
  | remote (call : RemoteCall)
  | wake (nowUs : ℤ)
  | char (ch : Char) (r : Readings)
  | beginDrain
  | receive
  | handle (r : Readings)
  | finishDrain
  | sample (counts : Wheels (Option Int32))

/-- One step of either task. The control task takes its steps in the order of its loop. -/
def systemStep (E : Env) (s : System) : SystemAction → Option System
  | .remote call =>
    (remoteCall E s.refused s.queue call).map fun r => { s with refused := r.1, queue := r.2 }
  | .wake nowUs =>
    match s.pc with
    | .waiting => some { s with diag := act E s.diag (.wake nowUs), pc := .polling }
    | _ => none
  | .char ch r =>
    match s.pc with
    | .polling => some { s with diag := act E s.diag (.char ch r) }
    | _ => none
  | .beginDrain =>
    match s.pc with
    | .polling => some { s with pc := .draining }
    | _ => none
  | .receive =>
    match s.pc, s.queue.receive with
    | .draining, some (event, queue) => some { s with pc := .handling event, queue := queue }
    | _, _ => none
  | .handle r =>
    match s.pc with
    | .handling event => some { s with diag := act E s.diag (.event event r), pc := .draining }
    | _ => none
  | .finishDrain =>
    match s.pc, s.queue.receive with
    | .draining, none => some { s with pc := .sampling }
    | _, _ => none
  | .sample counts =>
    match s.pc with
    | .sampling => some { s with diag := act E s.diag (.sample counts), pc := .waiting }
    | _ => none

def ControlPc.hand : ControlPc → List RemoteEvent
  | .handling event => [event]
  | .waiting | .polling | .draining | .sampling => []

/-- The events still to be handled, oldest first. -/
def System.pending (s : System) : List RemoteEvent := s.pc.hand ++ s.queue.items

def RemoteCall.RequestsArm : RemoteCall → Prop
  | .arm => True
  | .command data => data = 1
  | .zero | .stop | .submitCmdVel _ _ | .cmdVel _ | .refusedStop => False

/-- The call is, or ends in, a call of `robot_chassis_diag_remote_stop`. -/
def RemoteCall.RequestsStop (E : Env) : RemoteCall → Prop
  | .stop | .refusedStop => True
  | .command data => data ≠ 0 ∧ data ≠ 1
  | .cmdVel msg => supportedTwistIsValid E msg = false
  | .zero | .arm | .submitCmdVel _ _ => False

def SystemAction.own : SystemAction → Option Action
  | .wake nowUs => some (.wake nowUs)
  | .char ch r => some (.char ch r)
  | .sample counts => some (.sample counts)
  | .remote _ | .beginDrain | .receive | .handle _ | .finishDrain => none

/-- What one step does to the control task and to the pending events. -/
inductive System.Change (E : Env) (s s' : System) : SystemAction → Prop
  | sent {call : RemoteCall} {event : RemoteEvent} : s'.diag = s.diag →
      s'.pending = s.pending ++ [event] → (event = .arm → call.RequestsArm) →
      Change E s s' (.remote call)
  | own {a : SystemAction} {action : Action} : a.own = some action →
      s'.diag = act E s.diag action → s'.pending = s.pending → Change E s s' a
  | handled {event : RemoteEvent} {r : Readings} : s.pending = event :: s'.pending →
      s'.diag = act E s.diag (.event event r) → Change E s s' (.handle r)
  | moved {a : SystemAction} : a.own = none → s'.diag = s.diag → s'.pending = s.pending →
      Change E s s' a

theorem pending_send (s : System) (event : RemoteEvent) (refused : Bool) :
    System.pending { s with refused := refused, queue := (queueRemoteEvent s.queue event).2 } =
      s.pending ++ [event] ∨
    System.pending { s with refused := refused, queue := (queueRemoteEvent s.queue event).2 } =
      s.pending := by
  unfold System.pending queueRemoteEvent
  rcases s.queue.send_items event with h | h
  · left
    rw [h, List.append_assoc]
  · right
    rw [h]

/-- Every remote call sends at most one event, an arm only when it asks for one. -/
theorem remoteCall_cases {E : Env} {refused refused' : Bool} {q q' : RemoteQueue}
    {call : RemoteCall} (hc : remoteCall E refused q call = some (refused', q')) :
    (q' = q ∧ ¬ call.RequestsStop E) ∨ ∃ event, q' = (queueRemoteEvent q event).2 ∧
      (event = .arm → call.RequestsArm) ∧ (call.RequestsStop E → event = .stop) := by
  unfold remoteCall at hc
  cases call with
  | zero =>
    split_ifs at hc
    cases hc
    exact .inr ⟨.zero, rfl, by simp, by simp [RemoteCall.RequestsStop]⟩
  | arm =>
    split_ifs at hc
    cases hc
    exact .inr ⟨.arm, rfl, fun _ => trivial, by simp [RemoteCall.RequestsStop]⟩
  | stop =>
    split_ifs at hc
    cases hc
    exact .inr ⟨.stop, rfl, by simp, by simp⟩
  | refusedStop =>
    split_ifs at hc
    cases hc
    exact .inr ⟨.stop, rfl, by simp, by simp⟩
  | submitCmdVel linearXMps angularZRadps =>
    split_ifs at hc
    cases hc
    unfold robotChassisDiagSubmitCmdVel
    split
    · exact .inl ⟨rfl, by simp [RemoteCall.RequestsStop]⟩
    · exact .inr ⟨.targets _ _, rfl, by simp, by simp [RemoteCall.RequestsStop]⟩
  | command data =>
    dsimp only at hc
    split_ifs at hc with hr h0 h1
    · cases hc
      exact .inr ⟨.zero, rfl, by simp, by simp [RemoteCall.RequestsStop, h0]⟩
    · cases hc
      exact .inr ⟨.arm, rfl, fun _ => h1, by simp [RemoteCall.RequestsStop, h1]⟩
    · cases hc
      exact .inr ⟨.stop, rfl, by simp, by simp⟩
  | cmdVel msg =>
    dsimp only at hc
    split_ifs at hc with hr hv
    · obtain ⟨command, rfl, hq⟩ := Option.map_eq_some_iff.mp hc
      cases hq
      unfold robotChassisDiagSubmitCmdVel
      split
      · exact .inl ⟨rfl, by simp [RemoteCall.RequestsStop, hv]⟩
      · exact .inr ⟨.targets _ _, rfl, by simp, by simp [RemoteCall.RequestsStop, hv]⟩
    · cases hc
      exact .inr ⟨.stop, rfl, by simp, by simp⟩

/-- A move of the control task between two places without an event in hand. -/
theorem pending_moved {s : System} {pc pc' : ControlPc} (diag : Diag) (hpc : s.pc = pc)
    (hhand : pc'.hand = pc.hand) :
    System.pending { s with diag := diag, pc := pc' } = s.pending := by
  unfold System.pending
  rw [hhand, hpc]

/-- Every step of either task is one of the four changes. -/
theorem systemStep_change {E : Env} {s s' : System} {a : SystemAction}
    (hs : systemStep E s a = some s') : System.Change E s s' a := by
  unfold systemStep at hs
  cases a with
  | remote call =>
    obtain ⟨⟨refused, q⟩, hc, rfl⟩ := Option.map_eq_some_iff.mp hs
    rcases remoteCall_cases hc with ⟨rfl, _⟩ | ⟨event, rfl, harm, _⟩
    · exact .moved rfl rfl rfl
    · rcases pending_send s event refused with h | h
      · exact .sent rfl h harm
      · exact .moved rfl rfl h
  | wake nowUs =>
    dsimp only at hs
    split at hs
    · next hpc =>
      cases hs
      exact .own rfl rfl (pending_moved _ hpc rfl)
    · cases hs
  | char ch r =>
    dsimp only at hs
    split at hs
    · cases hs
      exact .own rfl rfl rfl
    · cases hs
  | beginDrain =>
    dsimp only at hs
    split at hs
    · next hpc =>
      cases hs
      exact .moved rfl rfl (pending_moved _ hpc rfl)
    · cases hs
  | receive =>
    dsimp only at hs
    split at hs
    · next event queue hpc hr =>
      cases hs
      refine .moved rfl rfl ?_
      unfold System.pending
      rw [hpc, Fifo.items_of_receive hr]
      rfl
    · cases hs
  | handle r =>
    dsimp only at hs
    split at hs
    · next event hpc =>
      cases hs
      refine .handled ?_ rfl
      unfold System.pending
      rw [hpc]
      rfl
    · cases hs
  | finishDrain =>
    dsimp only at hs
    split at hs
    · next hpc _ =>
      cases hs
      exact .moved rfl rfl (pending_moved _ hpc rfl)
    · cases hs
  | sample counts =>
    dsimp only at hs
    split at hs
    · next hpc =>
      cases hs
      exact .own rfl rfl (pending_moved _ hpc rfl)
    · cases hs

/-- In any interleaving the control task makes a run of its own actions. -/
theorem control_path {E : Env} {s₀ s : System} {h : List (Event System SystemAction)}
    (hp : Path (Enabled (systemStep E)) s₀ h s) :
    ∃ hc, Path (Det (act E)) s₀.diag hc s.diag := by
  induction hp with
  | refl => exact ⟨[], .refl⟩
  | snoc _ hs ih =>
    obtain ⟨hc, hpc⟩ := ih
    cases systemStep_change hs with
    | sent hd _ _ => exact ⟨hc, hd ▸ hpc⟩
    | own _ hd _ => exact ⟨_, hpc.snoc hd.symm⟩
    | handled _ hd => exact ⟨_, hpc.snoc hd.symm⟩
    | moved _ hd _ => exact ⟨hc, hd ▸ hpc⟩

end RobotFirmware.Chassis
