import RobotFirmware.Chassis.Actuation
import RobotFirmware.Chassis.RemoteStop
import RobotFirmware.Microros.Robot

/-! What follows when the micro-ROS task loses the agent or gives up its setup: the control task
disarms. -/
namespace RobotFirmware.Microros
open Trace Queue
open Chassis (System SystemAction systemStep)

/-- Where the task stands without a session. -/
def Pc.released : Pc → Bool
  | .discovering | .creating | .opening | .stopped => true
  | .setup | .running _ _ => false

variable {c : Deployment}

/-- Between sessions the task requests no motion. -/
theorem released_step {t t' : Task} {a : Action} (hpc : t.pc.released = true)
    (hopen : ∀ r, a ≠ .openSession r) (hs : TaskStep c t a t') :
    t'.pc.released = true ∧ asked c.env t a t' = [] := by
  have hquiet : ∀ u : Task, ¬ GivesUp t u := by
    rintro u (⟨⟨failures, nextAgentPingAtUs, h⟩, _⟩ | ⟨h, _⟩)
    · rw [h] at hpc
      cases hpc
    · rw [h] at hpc
      cases hpc
  rw [asked_of_not_givesUp (hquiet t')]
  cases hs with
  | setup a h =>
    rw [h] at hpc
    cases hpc
  | waiting h => exact ⟨hpc, rfl⟩
  | discovered h => exact ⟨rfl, rfl⟩
  | created a h hcreated => exact ⟨rfl, rfl⟩
  | failed a h hfailed => exact ⟨rfl, rfl⟩
  | opened r h => exact absurd rfl (hopen r)
  | iterated i failures nextAgentPingAtUs h =>
    rw [h] at hpc
    cases hpc

def SendsStop (x : Event Robot RobotAction) : Prop :=
  x.label = .request ∧ x.before.outstanding = [.stop .externalRequest]

def ConsoleArms (E : Fp.Env) (x : Event Robot RobotAction) : Prop :=
  ∃ a, x.label = .control a ∧
    Chassis.ArmRequest E ⟨x.before.chassis, a, x.after.chassis⟩

/-- The event neither opens a session nor arms, and a final stop finds room. -/
structure Harmless (E : Fp.Env) (x : Event Robot RobotAction) : Prop where
  session : ∀ r, x.label ≠ .ros (.openSession r)
  console : ¬ ConsoleArms E x
  room : SendsStop x → x.before.chassis.queue.items.length < Chassis.remoteQueueLength

/-- The final stop is still to be made, or nothing pending can leave the core armed. -/
structure Disarming (s : Robot) : Prop where
  released : s.ros.pc.released = true
  stop : (∃ front, s.outstanding = front ++ [.stop .externalRequest]) ∨
    (s.outstanding = [] ∧ s.chassis.Halting)

theorem Disarming.of_givesUp {s s' : Robot} {a : RobotAction} (hup : GivesUp s.ros s'.ros)
    (hs : Enabled (robotStep c) s a s') : Disarming s' ∧
      ∃ front, s'.outstanding = front ++ [.stop .externalRequest] := by
  have hsame : ¬ GivesUp s.ros s.ros := by
    rintro (⟨⟨failures, nextAgentPingAtUs, hpc⟩, hpc'⟩ | ⟨hpc, hpc'⟩)
    · rw [hpc] at hpc'
      cases hpc'
    · rw [hpc] at hpc'
      cases hpc'
  cases robotSteps_of_enabled hs with
  | ros a ros hidle hstep =>
    have hlast : ∃ front, asked c.env s.ros a ros = front ++ [.stop .externalRequest] :=
      ⟨_, asked_of_givesUp hup⟩
    have hpc : ros.pc.released = true := by
      rcases hup with ⟨_, hpc⟩ | ⟨_, hpc⟩
      · rw [hpc]
        rfl
      · rw [hpc]
        rfl
    exact ⟨⟨hpc, .inl hlast⟩, hlast⟩
  | request request rest chassis houtstanding hstep => exact absurd hup hsame
  | control a chassis hlocal hstep => exact absurd hup hsame

theorem Disarming.step {s s' : Robot} {a : RobotAction} (hi : Disarming s)
    (hg : Harmless c.env ⟨s, a, s'⟩) (hs : Enabled (robotStep c) s a s') : Disarming s' := by
  obtain ⟨hpc, hstop⟩ := hi
  cases robotSteps_of_enabled hs with
  | ros a ros hidle hstep =>
    have hopen : ∀ r, a ≠ .openSession r := by
      rintro r rfl
      exact hg.session r rfl
    obtain ⟨hpc', hsame⟩ := released_step hpc hopen hstep
    refine ⟨hpc', .inr ⟨?_, ?_⟩⟩
    · exact hsame
    · rcases hstop with ⟨front, hfront⟩ | ⟨_, hhalting⟩
      · rw [hidle] at hfront
        exact absurd hfront (by simp)
      · exact hhalting
  | request request rest chassis houtstanding hstep =>
    refine ⟨hpc, ?_⟩
    rcases hstop with ⟨front, hfront⟩ | ⟨hnone, _⟩
    · rw [houtstanding] at hfront
      cases front with
      | nil =>
        -- the stop itself is made
        obtain ⟨rfl, rfl⟩ := List.cons.inj hfront
        have hroom := hg.room ⟨rfl, houtstanding⟩
        exact .inr ⟨rfl, Chassis.halting_of_room hstep trivial hroom⟩
      | cons first front =>
        obtain ⟨_, hrest⟩ := List.cons.inj hfront
        exact .inl ⟨front, hrest⟩
    · rw [houtstanding] at hnone
      cases hnone
  | control a chassis hlocal hstep =>
    refine ⟨hpc, hstop.imp_right fun h => ⟨h.1, ?_⟩⟩
    have hnoarm : ¬ Chassis.ArmRequest c.env ⟨s.chassis, a, chassis⟩ :=
      fun harm => hg.console ⟨a, rfl, harm⟩
    exact h.2.step hnoarm hstep

theorem act_off {E : Fp.Env} {d : Chassis.Diag} {a : Chassis.Action}
    (hoff : ∀ i, ¬ (d.motors i).Driven) (harmed : (Chassis.act E d a).core.state ≠ .armed)
    (i : Chassis.Wheel) : ¬ ((Chassis.act E d a).motors i).Driven :=
  fun hdriven => harmed (Chassis.driven_of_act (hoff i) hdriven).1

theorem sample_off {E : Fp.Env} {d : Chassis.Diag} {counts : Chassis.Wheels (Option Int32)}
    (harmed : (Chassis.act E d (.sample counts)).core.state ≠ .armed) (i : Chassis.Wheel) :
    ¬ ((Chassis.act E d (.sample counts)).motors i).Driven := by
  show ¬ ((Chassis.sampleEncoders E d counts).motors i).Driven
  rcases Chassis.sampleEncoders_motors E d counts with ⟨_, hm⟩ | ⟨_, _, hm⟩
  · rw [hm]
    exact Chassis.not_driven_stopAll true d.motors i
  · rw [hm]
    show ¬ (Chassis.applyOutput (Chassis.sampleEncoders E d counts).core i (d.motors i)).Driven
    unfold Chassis.applyOutput
    dsimp only
    rw [if_pos (.inl harmed)]
    simp [Chassis.Motor.Driven]

def Samples (x : Event Robot RobotAction) : Prop := ∃ counts, x.label = .control (.sample counts)

/-- Nothing is left to be made or handled, the core is not armed, and the motors are off once
there has been a sample. -/
structure Settled (new : List (Event Robot RobotAction)) (s : Robot) : Prop where
  released : s.ros.pc.released = true
  idle : s.outstanding = []
  pending : s.chassis.pending = []
  disarmed : s.chassis.diag.core.state ≠ .armed
  off : (∃ y ∈ new, Samples y) → ∀ i, ¬ (s.chassis.diag.motors i).Driven

theorem Settled.control {new : List (Event Robot RobotAction)} {s s' : Robot}
    {a : SystemAction} {chassis : System} (hi : Settled new s) (hlocal : ∀ call, a ≠ .remote call)
    (hnoarm : ¬ Chassis.ArmRequest c.env ⟨s.chassis, a, chassis⟩)
    (hstep : systemStep c.env s.chassis a = some chassis) :
    chassis.pending = [] ∧ chassis.diag.core.state ≠ .armed ∧
      ((∃ y ∈ ⟨s, .control a, s'⟩ :: new, Samples y) →
        ∀ i, ¬ (chassis.diag.motors i).Driven) := by
  have hpending := hi.pending
  cases Chassis.systemStep_change hstep with
  | @sent call event _ _ _ => exact absurd rfl (hlocal call)
  | own ho hd hp =>
    rename_i action
    have harmed : (Chassis.act c.env s.chassis.diag action).core.state ≠ .armed :=
      Chassis.not_armed_act hi.disarmed fun ha =>
        hnoarm (Chassis.SystemAction.armRequest_of_own ho ha)
    rw [hp, hd]
    refine ⟨hpending, harmed, ?_⟩
    rintro ⟨y, hy, counts, hsample⟩
    rcases List.mem_cons.mp hy with rfl | hy
    · cases hsample
      cases ho
      exact sample_off harmed
    · exact act_off (hi.off ⟨y, hy, counts, hsample⟩) harmed
  | handled hp _ =>
    rw [hpending] at hp
    cases hp
  | moved ho hd hp =>
    rw [hp, hd]
    refine ⟨hpending, hi.disarmed, ?_⟩
    rintro ⟨y, hy, counts, hsample⟩
    rcases List.mem_cons.mp hy with rfl | hy
    · cases hsample
      cases ho
    · exact hi.off ⟨y, hy, counts, hsample⟩

theorem Settled.step {new : List (Event Robot RobotAction)} {s s' : Robot} {a : RobotAction}
    (hi : Settled new s) (hg : Harmless c.env ⟨s, a, s'⟩) (hs : Enabled (robotStep c) s a s') :
    Settled (⟨s, a, s'⟩ :: new) s' := by
  cases robotSteps_of_enabled hs with
  | ros a ros hidle hstep =>
    have hopen : ∀ r, a ≠ .openSession r := by
      rintro r rfl
      exact hg.session r rfl
    obtain ⟨hpc, hsame⟩ := released_step hi.released hopen hstep
    refine ⟨hpc, hsame, hi.pending, hi.disarmed, ?_⟩
    · rintro ⟨y, hy, counts, hsample⟩
      rcases List.mem_cons.mp hy with rfl | hy
      · cases hsample
      · exact hi.off ⟨y, hy, counts, hsample⟩
  | request request rest chassis houtstanding hstep =>
    rw [hi.idle] at houtstanding
    cases houtstanding
  | control a chassis hlocal hstep =>
    have hnoarm : ¬ Chassis.ArmRequest c.env ⟨s.chassis, a, chassis⟩ :=
      fun harm => hg.console ⟨a, rfl, harm⟩
    obtain ⟨hpending, hdisarmed, hoff⟩ := hi.control hlocal hnoarm hstep
    exact ⟨hi.released, hi.idle, hpending, hdisarmed, hoff⟩

theorem Settled.run {s s' : Robot} {new : List (Event Robot RobotAction)} (hi : Settled [] s)
    (hp : Path (Enabled (robotStep c)) s new s') (hg : ∀ x ∈ new, Harmless c.env x) :
    Settled new s' := by
  induction hp with
  | refl => exact hi
  | snoc _ hs ih =>
    have hrest := ih fun x hx => hg x (List.mem_cons_of_mem _ hx)
    exact hrest.step (hg _ List.mem_cons_self) hs

theorem Disarming.drain {s s' : Robot} (hi : Disarming s) (hidle : s.outstanding = [])
    (hs : Enabled (robotStep c) s (.control .finishDrain) s') : Settled [] s' := by
  cases robotSteps_of_enabled hs with
  | control _ chassis _ hstep =>
    rcases hi.stop with ⟨front, hfront⟩ | ⟨_, hhalting⟩
    · rw [hidle] at hfront
      exact absurd hfront (by simp)
    · obtain ⟨hpending, _⟩ := Chassis.finishDrain_eq hstep
      have hpending' : chassis.pending = [] := by
        cases Chassis.systemStep_change hstep with
        | own ho _ _ => cases ho
        | moved _ _ hp =>
          rw [hp]
          exact hpending
      refine ⟨hi.released, hidle, hpending', hhalting.at_finish hstep, ?_⟩
      rintro ⟨y, hy, _⟩
      cases hy

/-- When a session ends or the setup fails, the last request of the micro-ROS task is a stop. If
it finds room in the queue, then after the next drain of the control task the chassis is not
armed, and from the next sample on no motor is driven, until a new session or an ARM line. -/
theorem agent_loss_disarms {s₀ s : Robot} {newer older : List (Event Robot RobotAction)}
    {e : Event Robot RobotAction}
    (hp : Path (Enabled (robotStep c)) s₀ (newer ++ e :: older) s)
    (hup : GivesUp e.before.ros e.after.ros) (hharmless : ∀ x ∈ newer, Harmless c.env x) :
    (∃ front, e.after.outstanding = front ++ [.stop .externalRequest]) ∧
    ∀ rest x between, newer = rest ++ x :: between → x.label = .control .finishDrain →
      x.before.outstanding = [] → s.chassis.diag.core.state ≠ .armed ∧
        ((∃ y ∈ rest, Samples y) → ∀ i, ¬ (s.chassis.diag.motors i).Driven) := by
  obtain ⟨_, hstep, hnew⟩ := hp.at_event
  have hstart := Disarming.of_givesUp hup hstep
  refine ⟨hstart.2, ?_⟩
  rintro rest x between rfl hlabel hidle
  obtain ⟨hold, hdrain, hrest⟩ := hnew.at_event
  have hbefore : Disarming x.before := hold.invariant_of_guard (G := Harmless c.env)
    (fun _ _ _ hi hg hs => hi.step hg hs) hstart.1
    fun y hy => hharmless y (List.mem_append_right _ (List.mem_cons_of_mem _ hy))
  rw [hlabel] at hdrain
  have hsettled := (hbefore.drain hidle hdrain).run hrest
    fun y hy => hharmless y (List.mem_append_left _ hy)
  exact ⟨hsettled.disarmed, hsettled.off⟩

theorem harmless_control {E : Fp.Env} {x : Event Robot RobotAction} {a : SystemAction}
    (hlabel : x.label = .control a) (hchar : ∀ ch r, a ≠ .char ch r)
    (hlocal : ∀ call, a ≠ .remote call) : Harmless E x := by
  constructor
  · intro r h
    rw [hlabel] at h
    cases h
  · rintro ⟨a', ha, harm⟩
    rw [hlabel] at ha
    cases ha
    cases a with
    | char ch r => exact hchar ch r rfl
    | remote call => exact hlocal call rfl
    | _ => exact harm
  · rintro ⟨h, _⟩
    rw [hlabel] at h
    cases h

def stopDrain : List RobotAction :=
  [.control (.wake 1010000), .control .beginDrain, .control .receive,
    .control (.handle Chassis.goodReadings)]

def Pc.inSession : Pc → Bool
  | .running _ _ => true
  | _ => false

def Pc.waits : Pc → Bool
  | .discovering => true
  | _ => false

/-- The driving robot, the one that has lost the agent, and the one before the drain ends. -/
def lostAgent : Option (Robot × Robot × Robot × Robot × Robot) := do
  let driving ← runAll (robotStep physicalDeployment) bootedRobot drivingSession
  let lost ← robotStep physicalDeployment driving (.ros (.iterate (silentPass 3000000 false)))
  let stopped ← robotStep physicalDeployment lost .request
  let handled ← runAll (robotStep physicalDeployment) stopped stopDrain
  let drained ← robotStep physicalDeployment handled (.control .finishDrain)
  let sampled ← robotStep physicalDeployment drained (.control (.sample fun _ => some 0))
  return (driving, lost, stopped, handled, sampled)

def lostAgentFacts : Option (Bool × Bool × Bool × ℕ × Bool) :=
  lostAgent.map fun (driving, lost, _, handled, _) =>
    (driving.ros.pc.inSession, decide (∀ i, (driving.chassis.diag.motors i).Driven),
      lost.ros.pc.waits, lost.chassis.queue.items.length, handled.outstanding.isEmpty)

theorem lostAgentFacts_eq : lostAgentFacts = some (true, true, true, 0, true) := by
  decide +kernel

theorem stopDrain_harmless {E : Fp.Env} {h : List (Event Robot RobotAction)}
    (hlabels : h.map Event.label = stopDrain.reverse) : ∀ x ∈ h, Harmless E x := by
  intro x hx
  have hlabel : x.label ∈ stopDrain := by
    rw [← List.mem_reverse, ← hlabels]
    exact List.mem_map_of_mem hx
  simp only [stopDrain, List.mem_cons, List.not_mem_nil, or_false] at hlabel
  rcases hlabel with h | h | h | h
  all_goals exact harmless_control h (by intro ch r hc; cases hc) (by intro call hc; cases hc)

theorem agent_loss_disarms_driving : ∃ h s e,
    Path (Enabled (robotStep physicalDeployment)) bootedRobot h s ∧ e ∈ h ∧
      GivesUp e.before.ros e.after.ros ∧ (∀ i, (e.before.chassis.diag.motors i).Driven) ∧
      s.chassis.diag.core.state ≠ .armed ∧ ∀ i, ¬ (s.chassis.diag.motors i).Driven := by
  obtain ⟨⟨driving, lost, stopped, handled, sampled⟩, hrobots, hfacts⟩ :=
    Option.map_eq_some_iff.mp lostAgentFacts_eq
  simp only [Prod.mk.injEq, decide_eq_true_eq, List.isEmpty_iff] at hfacts
  obtain ⟨hrunning, hdriven, hwaits, hroom, hidle⟩ := hfacts
  obtain ⟨_, hdrive, hrobots⟩ := Option.bind_eq_some_iff.mp hrobots
  obtain ⟨_, hlose, hrobots⟩ := Option.bind_eq_some_iff.mp hrobots
  obtain ⟨_, hstop, hrobots⟩ := Option.bind_eq_some_iff.mp hrobots
  obtain ⟨_, hhandle, hrobots⟩ := Option.bind_eq_some_iff.mp hrobots
  obtain ⟨drained, hdrain, hrobots⟩ := Option.bind_eq_some_iff.mp hrobots
  obtain ⟨_, hsample, hrobots⟩ := Option.bind_eq_some_iff.mp hrobots
  cases hrobots
  obtain ⟨older, hold, _⟩ := path_of_runAll hdrive
  obtain ⟨between, hbetween, hlabels⟩ := path_of_runAll hhandle
  have hup : GivesUp driving.ros lost.ros := by
    refine .inl ⟨?_, ?_⟩
    · unfold Pc.inSession at hrunning
      split at hrunning
      next failures nextAgentPingAtUs hpc => exact ⟨failures, nextAgentPingAtUs, hpc⟩
      next => cases hrunning
    · unfold Pc.waits at hwaits
      split at hwaits
      next hpc => exact hpc
      next => cases hwaits
  have hpath := ((Path.append (.snoc (.snoc hold hlose) hstop) hbetween).snoc hdrain).snoc hsample
  have hharmless : ∀ x ∈ ⟨drained, .control (.sample fun _ => some 0), sampled⟩ ::
      ⟨handled, .control .finishDrain, drained⟩ :: (between ++ [⟨lost, .request, stopped⟩]),
      Harmless physicalDeployment.env x := by
    intro x hx
    rcases List.mem_cons.mp hx with rfl | hx
    · exact harmless_control rfl (by intro ch r hc; cases hc) (by intro call hc; cases hc)
    rcases List.mem_cons.mp hx with rfl | hx
    · exact harmless_control rfl (by intro ch r hc; cases hc) (by intro call hc; cases hc)
    rcases List.mem_append.mp hx with hx | hx
    · exact stopDrain_harmless hlabels x hx
    · cases List.mem_singleton.mp hx
      refine ⟨(by intro r h; cases h), (by rintro ⟨a, h, _⟩; cases h), fun _ => ?_⟩
      rw [hroom]
      decide
  have hloss := agent_loss_disarms (c := physicalDeployment) (e := ⟨driving, _, lost⟩)
    (by simpa using hpath) hup hharmless
  obtain ⟨hstate, hoff⟩ := hloss.2 [_] _ _ rfl rfl hidle
  have hmem : ⟨driving, .ros (.iterate (silentPass 3000000 false)), lost⟩ ∈
      between ++ ⟨lost, .request, stopped⟩ ::
        ⟨driving, .ros (.iterate (silentPass 3000000 false)), lost⟩ :: older :=
    List.mem_append_right _ (List.mem_cons_of_mem _ List.mem_cons_self)
  exact ⟨_, _, _, hpath, List.mem_cons_of_mem _ (List.mem_cons_of_mem _ hmem), hup, hdriven,
    hstate, hoff ⟨_, List.mem_singleton_self _, _, rfl⟩⟩

end RobotFirmware.Microros
