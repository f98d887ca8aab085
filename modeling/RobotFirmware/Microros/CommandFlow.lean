import RobotFirmware.Chassis.Actuation
import RobotFirmware.Microros.Robot

/-! The way of a command from its message over the queue of remote events to the motors. Nothing
is handled twice, out of order or without a message that asked for it, and no motor turns without
a command and an arm that can be traced back to a line or a message. -/
namespace RobotFirmware.Microros
open Fp Trace Queue
open Chassis (RemoteEvent System SystemAction systemStep)

variable {c : Deployment}

/-- The event that a request puts into the queue; a command that cannot be converted puts none. -/
def MotionRequest.event (E : Env) : MotionRequest → Option RemoteEvent
  | .stop _ => some .stop
  | .zero => some .zero
  | .arm => some .arm
  | .submit linearXMps angularZRadps =>
    (Chassis.robotChassisCoreTwistToTargets E linearXMps angularZRadps (Chassis.turnGeometryM E)
      (Chassis.countsPerMetrePerStep E) 20).map fun result => .targets result.1 result.2

/-- What a step of the micro-ROS task asks for. -/
def askedBy (E : Env) (x : Event Robot RobotAction) : List MotionRequest :=
  match x.label with
  | .ros a => asked E x.before.ros a x.after.ros
  | .request | .control _ => []

def madeBy (x : Event Robot RobotAction) : List MotionRequest :=
  match x.label with
  | .request => x.before.outstanding.take 1
  | .ros _ | .control _ => []

/-- The event of the request, if the queue has room for it. -/
def acceptedBy (E : Env) (x : Event Robot RobotAction) : List RemoteEvent :=
  if x.before.chassis.queue.items.length < Chassis.remoteQueueLength then
    (madeBy x).filterMap (MotionRequest.event E)
  else []

/-- The event that the control task handles. -/
def handledBy (x : Event Robot RobotAction) : List RemoteEvent :=
  match x.label with
  | .control (.handle _) => x.before.chassis.pc.hand
  | _ => []

theorem MotionRequest.pending {E : Env} {s s' : System} (request : MotionRequest)
    (hs : systemStep E s (.remote request.remoteCall) = some s') : s'.diag = s.diag ∧
      s'.pending = s.pending ++ if s.queue.items.length < Chassis.remoteQueueLength then
        (request.event E).toList else [] := by
  have hsend : ∀ event : RemoteEvent, (Chassis.queueRemoteEvent s.queue event).2.items =
      s.queue.items ++ if s.queue.items.length < Chassis.remoteQueueLength then [event]
        else [] := by
    intro event
    unfold Chassis.queueRemoteEvent Fifo.send
    split_ifs
    · rfl
    · exact (List.append_nil _).symm
  obtain ⟨⟨refused, queue⟩, hcall, rfl⟩ := Option.map_eq_some_iff.mp hs
  have hturn : s.refused = false := by
    cases hrefused : s.refused with
    | false => rfl
    | true =>
      rw [hrefused] at hcall
      cases request <;> cases hcall
  rw [hturn, MotionRequest.remoteCall_chassis] at hcall
  cases hcall
  refine ⟨rfl, ?_⟩
  show s.pc.hand ++ (request.chassis E s.queue).2.items = _
  unfold System.pending
  rw [List.append_assoc]
  congr 1
  cases request with
  | stop reason => exact hsend .stop
  | zero => exact hsend .zero
  | arm => exact hsend .arm
  | submit linearXMps angularZRadps =>
    unfold MotionRequest.chassis Chassis.robotChassisDiagSubmitCmdVel MotionRequest.event
    dsimp only
    split
    · next hnone =>
      rw [hnone]
      simp
    · next targets limited hsome =>
      rw [hsome]
      exact hsend (.targets targets limited)

/-- The control task takes the events it handles from the front. -/
theorem control_pending {s s' : System} {a : SystemAction} (hlocal : ∀ call, a ≠ .remote call)
    (hs : systemStep c.env s a = some s') :
    (match a with | .handle _ => s.pc.hand | _ => []) ++ s'.pending = s.pending := by
  cases a with
  | remote call => exact absurd rfl (hlocal call)
  | handle r =>
    unfold systemStep at hs
    dsimp only at hs
    split at hs
    · next event hpc =>
      cases hs
      unfold System.pending
      rw [hpc]
      rfl
    · cases hs
  | _ =>
    cases Chassis.systemStep_change hs with
    | own _ _ hp => exact hp
    | moved _ _ hp => exact hp

theorem outstanding_step {x : Event Robot RobotAction}
    (hs : Enabled (robotStep c) x.before x.label x.after) :
    madeBy x ++ x.after.outstanding = x.before.outstanding ++ askedBy c.env x := by
  obtain ⟨s, a, s'⟩ := x
  have hstep := robotSteps_of_enabled hs
  dsimp only at hstep
  cases hstep with
  | ros a ros hidle hstep =>
    unfold madeBy askedBy
    dsimp only
    rw [hidle]
  | request request rest chassis houtstanding hstep =>
    unfold madeBy askedBy
    dsimp only
    rw [houtstanding, List.append_nil]
    rfl
  | control a chassis hlocal hstep => exact (List.append_nil _).symm

theorem pending_step {x : Event Robot RobotAction}
    (hs : Enabled (robotStep c) x.before x.label x.after) :
    handledBy x ++ x.after.chassis.pending = x.before.chassis.pending ++ acceptedBy c.env x := by
  obtain ⟨s, a, s'⟩ := x
  have hstep := robotSteps_of_enabled hs
  dsimp only at hstep
  cases hstep with
  | ros a ros hidle hstep =>
    unfold handledBy acceptedBy madeBy
    simp
  | request request rest chassis houtstanding hstep =>
    obtain ⟨_, hpending⟩ := request.pending hstep
    unfold handledBy acceptedBy madeBy
    dsimp only
    rw [houtstanding, hpending]
    split_ifs
    · cases hevent : request.event c.env <;> simp [hevent]
    · rfl
  | control a chassis hlocal hstep =>
    have hfront := control_pending hlocal hstep
    have hnone : acceptedBy c.env ⟨s, .control a, { s with chassis := chassis }⟩ = [] := by
      unfold acceptedBy madeBy
      simp
    rw [hnone, List.append_nil]
    unfold handledBy
    dsimp only
    cases a <;> exact hfront

section
variable {s₀ s : Robot} {h : List (Event Robot RobotAction)}

theorem made_asked (hidle : s₀.outstanding = []) (hp : Path (Enabled (robotStep c)) s₀ h s) :
    brought madeBy h ++ s.outstanding = brought (askedBy c.env) h :=
  hp.relay hidle fun _ hs => outstanding_step hs

theorem handled_accepted (hempty : s₀.chassis.pending = [])
    (hp : Path (Enabled (robotStep c)) s₀ h s) :
    brought handledBy h ++ s.chassis.pending = brought (acceptedBy c.env) h := by
  apply hp.relay (a := s₀)
  · exact hempty
  · exact fun _ hs => pending_step hs

theorem accepted_sublist (E : Env) (h : List (Event Robot RobotAction)) :
    (brought (acceptedBy E) h).Sublist
      ((brought madeBy h).filterMap (MotionRequest.event E)) := by
  rw [← brought_filterMap]
  refine brought_sublist fun x _ => ?_
  unfold acceptedBy
  split_ifs
  · exact List.Sublist.refl _
  · exact List.nil_sublist _

theorem pending_sublist (hidle : s₀.outstanding = []) (hempty : s₀.chassis.pending = [])
    (hp : Path (Enabled (robotStep c)) s₀ h s) :
    (brought handledBy h ++ s.chassis.pending).Sublist
      ((brought (askedBy c.env) h).filterMap (MotionRequest.event c.env)) := by
  rw [handled_accepted hempty hp, ← made_asked hidle hp, List.filterMap_append]
  exact (accepted_sublist c.env h).trans (List.sublist_append_left _ _)

theorem accepted_of_room (E : Env) (hroom : ∀ x ∈ h, x.label = .request →
      x.before.chassis.queue.items.length < Chassis.remoteQueueLength) :
    brought (acceptedBy E) h = (brought madeBy h).filterMap (MotionRequest.event E) := by
  rw [← brought_filterMap]
  refine brought_congr fun x hx => ?_
  unfold acceptedBy
  by_cases hlabel : x.label = .request
  · rw [if_pos (hroom x hx hlabel)]
  · have hnone : madeBy x = [] := by
      unfold madeBy
      split
      · next h => exact absurd h hlabel
      · rfl
      · rfl
    rw [hnone]
    exact ite_self _

/-- A step that handles an event takes the control task through `handleRemoteEvent`. -/
theorem handle_step {x : Event Robot RobotAction} {r : Chassis.Readings}
    (hs : Enabled (robotStep c) x.before x.label x.after) (hl : x.label = .control (.handle r)) :
    ∃ event, handledBy x = [event] ∧
      x.after.chassis.diag = Chassis.handleRemoteEvent c.env x.before.chassis.diag event r
        x.before.chassis.diag.nowMs := by
  have hstep := robotSteps_of_enabled hs
  unfold handledBy
  rw [hl] at hstep ⊢
  generalize x.after = after at hstep ⊢
  cases hstep with
  | control a chassis hlocal hstep =>
    unfold systemStep at hstep
    dsimp only at hstep
    split at hstep
    · next event hpc =>
      cases hstep
      refine ⟨event, ?_, rfl⟩
      dsimp only
      rw [hpc]
      rfl
    · cases hstep

/-- In any interleaving of the two tasks the requests that the messages and the ends of sessions
ask for are made in their order, each once; the control task handles exactly the events of those
that find room in the queue, in the same order, each once; and if all find room, nothing is lost. -/
theorem commands_in_order (hidle : s₀.outstanding = []) (hempty : s₀.chassis.pending = [])
    (hp : Path (Enabled (robotStep c)) s₀ h s) :
    brought madeBy h ++ s.outstanding = brought (askedBy c.env) h ∧
    brought handledBy h ++ s.chassis.pending = brought (acceptedBy c.env) h ∧
    (∀ x ∈ h, ∀ r, x.label = .control (.handle r) → ∃ event, handledBy x = [event] ∧
      x.after.chassis.diag = Chassis.handleRemoteEvent c.env x.before.chassis.diag event r
        x.before.chassis.diag.nowMs) ∧
    (brought handledBy h ++ s.chassis.pending).Sublist
      ((brought (askedBy c.env) h).filterMap (MotionRequest.event c.env)) ∧
    ((∀ x ∈ h, x.label = .request →
        x.before.chassis.queue.items.length < Chassis.remoteQueueLength) →
      brought handledBy h ++ s.chassis.pending ++
          s.outstanding.filterMap (MotionRequest.event c.env) =
        (brought (askedBy c.env) h).filterMap (MotionRequest.event c.env)) := by
  have hmade := made_asked hidle hp
  have hhandled := handled_accepted hempty hp
  refine ⟨hmade, hhandled, ?_, pending_sublist hidle hempty hp, ?_⟩
  · intro x hx r hl
    obtain ⟨new, old, rfl⟩ := List.append_of_mem hx
    exact handle_step hp.at_event.2.1 hl
  intro hroom
  rw [hhandled, accepted_of_room c.env hroom, ← hmade, List.filterMap_append]

theorem commands_in_order_driving : ∃ h s,
    Path (Enabled (robotStep physicalDeployment)) bootedRobot h s ∧
      (∀ i, (s.chassis.diag.motors i).Driven) ∧
      (brought handledBy h ++ s.chassis.pending).Sublist
        ((brought (askedBy .rational) h).filterMap (MotionRequest.event .rational)) := by
  obtain ⟨h, s, hp, hdriven⟩ := drivingSession_driven
  exact ⟨h, s, hp, hdriven, (commands_in_order rfl rfl hp).2.2.2.1⟩

end

def controlAction (s : Robot) : RobotAction → Option Chassis.Action
  | .control (.handle r) => s.chassis.pc.hand.head?.map fun event => .event event r
  | .control a => a.own
  | .ros _ | .request => none

theorem controlAction_diag {s s' : Robot} {a : RobotAction} (hs : Enabled (robotStep c) s a s') :
    (controlAction s a = none ∧ s'.chassis.diag = s.chassis.diag) ∨
      ∃ action, controlAction s a = some action ∧
        Det (Chassis.act c.env) s.chassis.diag action s'.chassis.diag := by
  cases robotSteps_of_enabled hs with
  | ros a ros hidle hstep => exact .inl ⟨rfl, rfl⟩
  | request request rest chassis houtstanding hstep => exact .inl ⟨rfl, (request.pending hstep).1⟩
  | control a chassis hlocal hstep =>
    cases a with
    | remote call => exact absurd rfl (hlocal call)
    | handle r =>
      unfold systemStep at hstep
      dsimp only at hstep
      split at hstep
      · next event hpc =>
        cases hstep
        refine .inr ⟨.event event r, ?_, rfl⟩
        unfold controlAction
        dsimp only
        rw [hpc]
        rfl
      · cases hstep
    | _ =>
      cases Chassis.systemStep_change hstep with
      | own ho hd _ => exact .inr ⟨_, ho, hd.symm⟩
      | moved ho hd _ => exact .inl ⟨ho, hd⟩

/-- The event sets the target of the wheel: a RUN line, or targets that came from the queue. -/
def SetsTarget (E : Env) (i : Chassis.Wheel) (v : Int32) (x : Event Robot RobotAction) : Prop :=
  (∃ ch r wheel target, x.label = .control (.char ch r) ∧
    Chassis.completedCommand E x.before.chassis.diag ch = some (.run wheel target) ∧
    Chassis.runTargets wheel target i = v) ∨
  ∃ targets limited, .targets targets limited ∈ handledBy x ∧ targets i = v

/-- The event arms with a good battery: an ARM line, or an arm that came from the queue. -/
def ArmsCore (E : Env) (x : Event Robot RobotAction) : Prop :=
  (∃ ch r, x.label = .control (.char ch r) ∧
    Chassis.completedCommand E x.before.chassis.diag ch = some .arm ∧
    Chassis.BatteryOk E x.before.chassis.diag r.adc) ∨
  ∃ r, x.label = .control (.handle r) ∧ .arm ∈ handledBy x ∧
    Chassis.BatteryOk E x.before.chassis.diag r.adc

/-- A line is an action of its own, and an event comes from the hand of the control task. -/
theorem controlAction_char {s : Robot} {a : RobotAction} {ch : Char} {r : Chassis.Readings}
    (h : controlAction s a = some (.char ch r)) : a = .control (.char ch r) := by
  cases a with
  | ros a => cases h
  | request => cases h
  | control a =>
    cases a with
    | handle r =>
      obtain ⟨event, _, h⟩ := Option.map_eq_some_iff.mp h
      cases h
    | char ch r =>
      cases h
      rfl
    | _ => cases h

theorem controlAction_event {s : Robot} {a : RobotAction} {event : RemoteEvent}
    {r : Chassis.Readings} (h : controlAction s a = some (.event event r)) :
    a = .control (.handle r) ∧ event ∈ s.chassis.pc.hand := by
  cases a with
  | ros a => cases h
  | request => cases h
  | control a =>
    cases a with
    | handle r =>
      obtain ⟨event, hevent, h⟩ := Option.map_eq_some_iff.mp h
      cases h
      exact ⟨rfl, List.mem_of_mem_head? hevent⟩
    | _ => cases h

theorem controlAction_sample {s : Robot} {a : RobotAction} {counts : Chassis.Wheels (Option Int32)}
    (h : controlAction s a = some (.sample counts)) : a = .control (.sample counts) := by
  cases a with
  | ros a => cases h
  | request => cases h
  | control a =>
    cases a with
    | handle r =>
      obtain ⟨event, _, h⟩ := Option.map_eq_some_iff.mp h
      cases h
    | sample counts =>
      cases h
      rfl
    | _ => cases h

theorem commandCall_eq_submit {E : Env} {d : Chassis.Diag} {r : Chassis.Readings}
    {command : Chassis.Command} {targets : Chassis.Wheels Int32}
    (hc : Chassis.commandCall E d r command = some (.submit (some targets))) :
    ∃ wheel target, command = .run wheel target ∧
      targets = Chassis.runTargets wheel target := by
  unfold Chassis.commandCall at hc
  cases command with
  | run wheel target =>
    cases hc
    exact ⟨wheel, target, rfl, rfl⟩
  | arm =>
    dsimp only at hc
    split_ifs at hc
    cases hc
  | gain kp ki =>
    dsimp only at hc
    split_ifs at hc
    cases hc
  | _ => cases hc

theorem eventCall_eq_submit {E : Env} {d : Chassis.Diag} {r : Chassis.Readings}
    {event : RemoteEvent} {targets : Chassis.Wheels Int32}
    (hc : Chassis.eventCall E d r event = some (.submit (some targets))) :
    ∃ limited, event = .targets targets limited := by
  unfold Chassis.eventCall at hc
  cases event with
  | targets targets limited =>
    cases hc
    exact ⟨limited, rfl⟩
  | arm =>
    dsimp only at hc
    split_ifs at hc
    cases hc
  | _ => cases hc

/-- A target other than zero is set by a command that finds the core armed. -/
theorem target_entry {x : Event Robot RobotAction} {i : Chassis.Wheel} {v : Int32} (hv : v ≠ 0)
    (hs : Enabled (robotStep c) x.before x.label x.after)
    (hb : x.before.chassis.diag.core.targetCounts i ≠ v)
    (ha : x.after.chassis.diag.core.targetCounts i = v) :
    SetsTarget c.env i v x ∧ x.before.chassis.diag.core.state = .armed := by
  rcases controlAction_diag hs with ⟨_, hsame⟩ | ⟨action, haction, hact⟩
  · rw [hsame] at ha
    exact absurd ha hb
  rcases Chassis.act_outcome hact with ⟨_, hsame⟩ | ⟨call, r, hcall, ho⟩
  · rw [hsame] at ha
    exact absurd ha hb
  rcases ho.targetCounts with hk | hz | ⟨targets, rfl, _, harmed, _, htargets⟩
  · rw [hk] at ha
    exact absurd ha hb
  · rw [hz] at ha
    exact absurd ha.symm hv
  · rw [htargets] at ha
    refine ⟨?_, harmed⟩
    rcases Chassis.coreCallOf_eq_some hcall with ⟨ch, r, command, rfl, hcommand, h⟩ |
      ⟨_, _, _, _, h⟩ | ⟨event, r, rfl, h⟩ | ⟨_, _, h⟩
    · obtain ⟨wheel, target, rfl, rfl⟩ := commandCall_eq_submit h
      exact .inl ⟨ch, r, wheel, target, controlAction_char haction, hcommand, ha⟩
    · cases h
    · obtain ⟨limited, rfl⟩ := eventCall_eq_submit h
      obtain ⟨hlabel, hevent⟩ := controlAction_event haction
      refine .inr ⟨targets, limited, ?_, ha⟩
      unfold handledBy
      rw [hlabel]
      exact hevent
    · rcases h with ⟨_, h⟩ | h <;> cases h

theorem armed_entry {x : Event Robot RobotAction}
    (hs : Enabled (robotStep c) x.before x.label x.after)
    (hb : x.before.chassis.diag.core.state ≠ .armed)
    (ha : x.after.chassis.diag.core.state = .armed) : ArmsCore c.env x := by
  rcases controlAction_diag hs with ⟨_, hsame⟩ | ⟨action, haction, hact⟩
  · rw [hsame] at ha
    exact absurd ha hb
  have harms := (Chassis.enters_armed_step
    (x := ⟨x.before.chassis.diag, action, x.after.chassis.diag⟩) hact hb ha).1
  cases action with
  | wake nowUs => exact harms.elim
  | char ch r => exact .inl ⟨ch, r, controlAction_char haction, harms⟩
  | event event r =>
    obtain ⟨hlabel, hevent⟩ := controlAction_event haction
    obtain ⟨rfl, hbattery⟩ := harms
    refine .inr ⟨r, hlabel, ?_, hbattery⟩
    unfold handledBy
    rw [hlabel]
    exact hevent
  | sample counts => exact harms.elim

/-- Only a sample of an armed core with a target starts a motor. -/
theorem driven_entry {x : Event Robot RobotAction} {i : Chassis.Wheel}
    (hs : Enabled (robotStep c) x.before x.label x.after)
    (hb : ¬ (x.before.chassis.diag.motors i).Driven)
    (ha : (x.after.chassis.diag.motors i).Driven) :
    (∃ counts, x.label = .control (.sample counts)) ∧
      x.after.chassis.diag.core.state = .armed ∧
      x.after.chassis.diag.core.targetCounts i ≠ 0 := by
  rcases controlAction_diag hs with ⟨_, hsame⟩ | ⟨action, haction, hact⟩
  · rw [hsame] at ha
    exact absurd ha hb
  have hstopped : ∀ d', Chassis.LeavesOrStops x.before.chassis.diag d' →
      ¬ (d'.motors i).Driven := by
    rintro d' (hm | ⟨brake, hm⟩)
    · rw [hm]
      exact hb
    · rw [hm]
      exact Chassis.not_driven_stopAll brake _ i
  rw [← show Chassis.act c.env x.before.chassis.diag action = x.after.chassis.diag from hact]
    at ha ⊢
  refine ⟨?_, Chassis.driven_of_act hb ha⟩
  cases action with
  | wake nowUs => exact absurd ha (hstopped _ (.inl rfl))
  | char ch r => exact absurd ha (hstopped _ (Chassis.pollUartChar_motors c.env _ ch r _))
  | event event r =>
    exact absurd ha (hstopped _ (Chassis.handleRemoteEvent_motors c.env _ event r _))
  | sample counts => exact ⟨counts, controlAction_sample haction⟩

def AsksForTargets (E : Env) (targets : Chassis.Wheels Int32) (limited : Bool)
    (p : Event Robot RobotAction) : Prop :=
  ∃ i twist submitted, p.label = .ros (.iterate i) ∧
    Callback.cmdVel (some twist) submitted ∈ i.callbacks ∧
    Chassis.supportedTwistIsValid E (some twist) = true ∧
    Chassis.robotChassisCoreTwistToTargets E (E.toSingle twist.linearX)
      (E.toSingle twist.angularZ) (Chassis.turnGeometryM E) (Chassis.countsPerMetrePerStep E) 20 =
        some (targets, limited)

def AsksToArm (p : Event Robot RobotAction) : Prop :=
  ∃ i remoteOk nowUs, p.label = .ros (.iterate i) ∧
    Callback.command (some 1) remoteOk nowUs ∈ i.callbacks

theorem mem_askedBy {E : Env} {p : Event Robot RobotAction} {request : MotionRequest}
    (hp : request ∈ askedBy E p) (hr : ∀ reason, request ≠ .stop reason) :
    ∃ i callback, p.label = .ros (.iterate i) ∧ callback ∈ i.callbacks ∧
      request ∈ callback.asks E := by
  unfold askedBy at hp
  split at hp
  · next a hlabel =>
    unfold asked at hp
    rcases List.mem_append.mp hp with hp | hp
    · cases a with
      | iterate i =>
        obtain ⟨callback, hcallback, hasks⟩ := List.mem_flatMap.mp hp
        exact ⟨i, callback, hlabel, hcallback, hasks⟩
      | _ => cases hp
    · split_ifs at hp
      · exact absurd (List.mem_singleton.mp hp) (hr _)
      · cases hp
  · cases hp
  · cases hp

theorem asks_submit {E : Env} {callback : Callback} {v w : Datum}
    (hasks : MotionRequest.submit v w ∈ callback.asks E) : ∃ twist submitted,
      callback = .cmdVel (some twist) submitted ∧
      Chassis.supportedTwistIsValid E (some twist) = true ∧ v = E.toSingle twist.linearX ∧
      w = E.toSingle twist.angularZ := by
  cases callback with
  | cmdVel msg submitted =>
    unfold Callback.asks cmdVelMotionRequests at hasks
    cases msg with
    | none => simp at hasks
    | some twist =>
      dsimp only at hasks
      split_ifs at hasks with hinvalid hsubmitted
      · simp at hasks
      · simp only [List.mem_singleton, MotionRequest.submit.injEq] at hasks
        exact ⟨twist, submitted, rfl, by simpa using hinvalid, hasks⟩
      · simp only [List.mem_cons, MotionRequest.submit.injEq, reduceCtorEq, List.not_mem_nil,
          or_false] at hasks
        exact ⟨twist, submitted, rfl, by simpa using hinvalid, hasks⟩
  | command msg remoteOk nowUs =>
    unfold Callback.asks commandAsks at hasks
    cases msg with
    | none => cases hasks
    | some data =>
      dsimp only at hasks
      split_ifs at hasks <;> simp at hasks
  | _ => cases hasks

theorem asks_arm {E : Env} {callback : Callback} (hasks : MotionRequest.arm ∈ callback.asks E) :
    ∃ remoteOk nowUs, callback = .command (some 1) remoteOk nowUs := by
  cases callback with
  | cmdVel msg submitted =>
    unfold Callback.asks cmdVelMotionRequests at hasks
    cases msg with
    | none => simp at hasks
    | some twist =>
      dsimp only at hasks
      split_ifs at hasks <;> simp at hasks
  | command msg remoteOk nowUs =>
    unfold Callback.asks commandAsks at hasks
    cases msg with
    | none => cases hasks
    | some data =>
      dsimp only at hasks
      by_cases h1 : data = 1
      · exact ⟨remoteOk, nowUs, by rw [h1]⟩
      · split_ifs at hasks <;> simp at hasks
  | _ => cases hasks

/-- What is handled was asked for before. -/
theorem handled_asked {s₀ : Robot} {older : List (Event Robot RobotAction)}
    {x : Event Robot RobotAction} {event : RemoteEvent} (hidle : s₀.outstanding = [])
    (hempty : s₀.chassis.pending = []) (hp : Path (Enabled (robotStep c)) s₀ older x.before)
    (hx : event ∈ handledBy x) :
    ∃ p ∈ older, ∃ request ∈ askedBy c.env p, request.event c.env = some event := by
  have hpending : event ∈ x.before.chassis.pending := by
    unfold handledBy at hx
    split at hx
    · exact List.mem_append_left _ hx
    · cases hx
  have hsublist := (pending_sublist hidle hempty hp).subset (List.mem_append_right _ hpending)
  obtain ⟨request, hrequest, hevent⟩ := List.mem_filterMap.mp hsublist
  obtain ⟨p, hp, hasks⟩ := mem_brought.mp hrequest
  exact ⟨p, hp, request, hasks, hevent⟩

theorem targets_asked {E : Env} {p : Event Robot RobotAction} {request : MotionRequest}
    {targets : Chassis.Wheels Int32} {limited : Bool} (hp : request ∈ askedBy E p)
    (hr : request.event E = some (.targets targets limited)) :
    AsksForTargets E targets limited p := by
  cases request with
  | submit v w =>
    obtain ⟨result, hresult, htargets⟩ := Option.map_eq_some_iff.mp hr
    cases htargets
    obtain ⟨i, callback, hlabel, hcallback, hasks⟩ := mem_askedBy hp (by simp)
    obtain ⟨twist, submitted, rfl, hvalid, rfl, rfl⟩ := asks_submit hasks
    exact ⟨i, twist, submitted, hlabel, hcallback, hvalid, hresult⟩
  | _ => cases hr

theorem arm_asked {E : Env} {p : Event Robot RobotAction} {request : MotionRequest}
    (hp : request ∈ askedBy E p) (hr : request.event E = some .arm) : AsksToArm p := by
  cases request with
  | arm =>
    obtain ⟨i, callback, hlabel, hcallback, hasks⟩ := mem_askedBy hp (by simp)
    obtain ⟨remoteOk, nowUs, rfl⟩ := asks_arm hasks
    exact ⟨i, remoteOk, nowUs, hlabel, hcallback⟩
  | submit v w =>
    obtain ⟨result, _, h⟩ := Option.map_eq_some_iff.mp hr
    cases h
  | _ => cases hr

/-- A RUN line with the target for the wheel, or a message before that asked for it. -/
def Commands (E : Env) (i : Chassis.Wheel) (v : Int32) (x : Event Robot RobotAction)
    (older : List (Event Robot RobotAction)) : Prop :=
  SetsTarget E i v x ∧ ∀ targets limited, .targets targets limited ∈ handledBy x →
    ∃ p ∈ older, AsksForTargets E targets limited p

/-- An ARM line, or a message before that asked to arm, with a good battery. -/
def Arms (E : Env) (x : Event Robot RobotAction) (older : List (Event Robot RobotAction)) : Prop :=
  ArmsCore E x ∧ (.arm ∈ handledBy x → ∃ p ∈ older, AsksToArm p)

theorem started_at_rest {E : Env} {d : Chassis.Diag} (hs : Chassis.Started E d) :
    d.core.state ≠ .armed ∧ d.core.targetCounts = fun _ => 0 := by
  have hcore := hs.core
  unfold Chassis.robotChassisCoreInit at hcore
  split_ifs at hcore
  rw [← Option.some.inj hcore]
  exact ⟨by simp [Chassis.initialCore], rfl⟩

/-- A motor that turns was started by a sample; its target was set before by a command and not
changed since; and that command found a core armed by an earlier request, both of which can be
traced back to a line or a message. -/
theorem motion_has_cause {s₀ s : Robot} {h : List (Event Robot RobotAction)} {i : Chassis.Wheel}
    (hs : Chassis.Started c.env s₀.chassis.diag) (hidle : s₀.outstanding = [])
    (hempty : s₀.chassis.pending = []) (hp : Path (Enabled (robotStep c)) s₀ h s)
    (hdriven : (s.chassis.diag.motors i).Driven) :
    ∃ turning sample driving command waiting arm older v,
      h = turning ++ sample :: (driving ++ command :: (waiting ++ arm :: older)) ∧ v ≠ 0 ∧
      (∃ counts, sample.label = .control (.sample counts)) ∧
      (∀ x ∈ turning, (x.after.chassis.diag.motors i).Driven) ∧
      Commands c.env i v command (waiting ++ arm :: older) ∧
      (∀ x ∈ driving, x.after.chassis.diag.core.targetCounts i = v) ∧
      Arms c.env arm older ∧ (∀ x ∈ waiting, x.after.chassis.diag.core.state = .armed) := by
  obtain ⟨hstate, htargets⟩ := started_at_rest hs
  have hcoast : ¬ (s₀.chassis.diag.motors i).Driven := by
    rw [hs.motors i]
    simp [Chassis.Motor.Driven]
  obtain ⟨turning, sample, h₁, rfl, hoff, hon, hturning⟩ := hp.exists_latest_entry
    (P := fun s => (s.chassis.diag.motors i).Driven) hcoast hdriven
  obtain ⟨hp₁, hsample, _⟩ := hp.at_event
  obtain ⟨hlabel, harmed, hv⟩ := driven_entry hsample hoff hon
  obtain ⟨counts, hlabel⟩ := hlabel
  -- a sample sets no targets
  have htarget : sample.before.chassis.diag.core.targetCounts i =
      sample.after.chassis.diag.core.targetCounts i := by
    by_contra hne
    obtain ⟨hset, _⟩ := target_entry hv hsample hne rfl
    rcases hset with ⟨_, _, _, _, h, _⟩ | ⟨_, _, h, _⟩
    · rw [hlabel] at h
      cases h
    · unfold handledBy at h
      rw [hlabel] at h
      cases h
  have hzero : ¬ s₀.chassis.diag.core.targetCounts i =
      sample.after.chassis.diag.core.targetCounts i := by
    rw [htargets]
    exact fun h => hv h.symm
  obtain ⟨driving, command, h₂, rfl, hother, hset, hdriving⟩ := hp₁.exists_latest_entry
    (P := fun s => s.chassis.diag.core.targetCounts i =
      sample.after.chassis.diag.core.targetCounts i) hzero htarget
  obtain ⟨hp₂, hcommand, _⟩ := hp₁.at_event
  obtain ⟨hsets, hready⟩ := target_entry hv hcommand hother hset
  obtain ⟨waiting, arm, older, rfl, hsafe, hlive, hwaiting⟩ := hp₂.exists_latest_entry
    (P := fun s => s.chassis.diag.core.state = .armed) hstate hready
  obtain ⟨hp₃, harm, _⟩ := hp₂.at_event
  have harms := armed_entry harm hsafe hlive
  refine ⟨turning, sample, driving, command, waiting, arm, older, _, rfl, hv, ⟨counts, hlabel⟩,
    fun x hx => (hturning x hx).2, ⟨hsets, ?_⟩, fun x hx => (hdriving x hx).2, ⟨harms, ?_⟩,
    fun x hx => (hwaiting x hx).2⟩
  · intro targets limited hhandled
    obtain ⟨p, hmem, request, hasked, hevent⟩ := handled_asked hidle hempty hp₂ hhandled
    exact ⟨p, hmem, targets_asked hasked hevent⟩
  · intro hhandled
    obtain ⟨p, hmem, request, hasked, hevent⟩ := handled_asked hidle hempty hp₃ hhandled
    exact ⟨p, hmem, arm_asked hasked hevent⟩

theorem motion_has_cause_driving : ∃ h s,
    Path (Enabled (robotStep physicalDeployment)) bootedRobot h s ∧
      ∀ i, (s.chassis.diag.motors i).Driven ∧
        ∃ command ∈ h, ∃ v, v ≠ 0 ∧ SetsTarget .rational i v command := by
  obtain ⟨h, s, hp, hdriven⟩ := drivingSession_driven
  refine ⟨h, s, hp, fun i => ⟨hdriven i, ?_⟩⟩
  obtain ⟨turning, sample, driving, command, _, _, _, v, rfl, hv, _, _, hcommand, _⟩ :=
    motion_has_cause Chassis.readyDiag_started rfl rfl hp (hdriven i)
  refine ⟨command, ?_, v, hv, hcommand.1⟩
  exact List.mem_append_right _ (List.mem_cons_of_mem _
    (List.mem_append_right _ List.mem_cons_self))

end RobotFirmware.Microros
