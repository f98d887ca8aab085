import RobotFirmware.Chassis.RemoteStop

/-! The start of the application: the buzzer, the motion backend, the IMU, the network and the
micro-ROS task, in this order, with the backend running beside the rest. The results of the
components are inputs; their errors are only logged. -/
namespace RobotFirmware.App
open Trace Queue Chassis

/-- The motion component of a mode: its start, its steps and the request to stop it. -/
structure Backend (κ σ ι : Type) where
  start : κ → Option σ
  step : σ → ι → Option σ
  /-- The step is a call of the micro-ROS task. -/
  remote : ι → Bool
  requestStop : σ → Bool × σ

inductive Stage
  | imu
  | wifi
  | microros
  deriving DecidableEq

inductive Pc
  | presetBuzzer
  | configureBuzzer
  | lowerBuzzer
  | startingMotion
  | starting (stage : Stage)
  | stopping
  | running
  | halted
  | stopped (stopQueued : Bool)
  deriving DecidableEq

/-- The main task, the buzzer pin and the motion backend. -/
structure Boot (σ : Type) where
  pc : Pc
  buzzerLevel : Bool
  buzzerDriven : Bool
  motion : Option σ

inductive Action (κ ι : Type)
  /-- The next GPIO call of `board_buzzer_force_off` returns. -/
  | gpio (ok : Bool)
  | startMotion (inputs : κ)
  | started (ok : Bool)
  | requestStop
  | background (a : ι)

variable {κ σ ι : Type}

def Stage.next : Stage → Pc
  | .imu => .starting .wifi
  | .wifi => .starting .microros
  | .microros => .running

def appStep (M : Backend κ σ ι) (s : Boot σ) (a : Action κ ι) : Option (Boot σ) :=
  match a, s.pc with
  | .gpio ok, .presetBuzzer =>
    some (if ok then { s with buzzerLevel := false, pc := .configureBuzzer }
      else { s with pc := .halted })
  | .gpio ok, .configureBuzzer =>
    some (if ok then { s with buzzerDriven := true, pc := .lowerBuzzer }
      else { s with pc := .halted })
  | .gpio ok, .lowerBuzzer =>
    some (if ok then { s with buzzerLevel := false, pc := .startingMotion }
      else { s with pc := .halted })
  | .startMotion inputs, .startingMotion =>
    match M.start inputs with
    | some motion => some { s with motion := some motion, pc := .starting .imu }
    | none => some { s with pc := .halted }
  | .started ok, .starting stage => some { s with pc := if ok then stage.next else .stopping }
  | .requestStop, .stopping =>
    s.motion.map fun motion => { s with
      motion := some (M.requestStop motion).2
      pc := .stopped (M.requestStop motion).1 }
  | .background a, pc =>
    if M.remote a = true ∧ pc ≠ .running then none
    else (s.motion.bind fun motion => M.step motion a).map fun motion =>
      { s with motion := some motion }
  | _, _ => none

/-- The latch of the pin is arbitrary after a reset. -/
def powerOn (σ : Type) (buzzerLevel : Bool) : Boot σ := ⟨.presetBuzzer, buzzerLevel, false, none⟩

inductive Steps (M : Backend κ σ ι) (s : Boot σ) : Action κ ι → Boot σ → Prop
  | preset (h : s.pc = .presetBuzzer) :
      Steps M s (.gpio true) { s with buzzerLevel := false, pc := .configureBuzzer }
  | configured (h : s.pc = .configureBuzzer) :
      Steps M s (.gpio true) { s with buzzerDriven := true, pc := .lowerBuzzer }
  | lowered (h : s.pc = .lowerBuzzer) :
      Steps M s (.gpio true) { s with buzzerLevel := false, pc := .startingMotion }
  | gpioFailed (h : s.pc = .presetBuzzer ∨ s.pc = .configureBuzzer ∨ s.pc = .lowerBuzzer) :
      Steps M s (.gpio false) { s with pc := .halted }
  | motionStarted (h : s.pc = .startingMotion) (inputs : κ) (motion : σ)
      (hstart : M.start inputs = some motion) :
      Steps M s (.startMotion inputs) { s with motion := some motion, pc := .starting .imu }
  | motionFailed (h : s.pc = .startingMotion) (inputs : κ) :
      Steps M s (.startMotion inputs) { s with pc := .halted }
  | started (stage : Stage) (h : s.pc = .starting stage) :
      Steps M s (.started true) { s with pc := stage.next }
  | failed (stage : Stage) (h : s.pc = .starting stage) :
      Steps M s (.started false) { s with pc := .stopping }
  | stopRequested (h : s.pc = .stopping) (motion : σ) (hmotion : s.motion = some motion) :
      Steps M s .requestStop { s with
        motion := some (M.requestStop motion).2
        pc := .stopped (M.requestStop motion).1 }
  | background (a : ι) (motion motion' : σ) (hmotion : s.motion = some motion)
      (hstep : M.step motion a = some motion') (hremote : M.remote a = true → s.pc = .running) :
      Steps M s (.background a) { s with motion := some motion' }

theorem steps_of_step {M : Backend κ σ ι} {s s' : Boot σ} {a : Action κ ι}
    (hs : Enabled (appStep M) s a s') : Steps M s a s' := by
  unfold Enabled appStep at hs
  split at hs
  · rename_i ok hpc
    cases hs
    cases ok with
    | true => exact .preset hpc
    | false => exact .gpioFailed (.inl hpc)
  · rename_i ok hpc
    cases hs
    cases ok with
    | true => exact .configured hpc
    | false => exact .gpioFailed (.inr (.inl hpc))
  · rename_i ok hpc
    cases hs
    cases ok with
    | true => exact .lowered hpc
    | false => exact .gpioFailed (.inr (.inr hpc))
  · rename_i inputs hpc
    cases hstart : M.start inputs with
    | some motion =>
      rw [hstart] at hs
      cases hs
      exact .motionStarted hpc inputs motion hstart
    | none =>
      rw [hstart] at hs
      cases hs
      exact .motionFailed hpc inputs
  · rename_i ok stage hpc
    cases hs
    cases ok with
    | true => exact .started stage hpc
    | false => exact .failed stage hpc
  · rename_i hpc
    obtain ⟨motion, hmotion, rfl⟩ := Option.map_eq_some_iff.mp hs
    exact .stopRequested hpc motion hmotion
  · rename_i a
    split_ifs at hs with hremote
    obtain ⟨motion', hbind, rfl⟩ := Option.map_eq_some_iff.mp hs
    obtain ⟨motion, hmotion, hstep⟩ := Option.bind_eq_some_iff.mp hbind
    exact .background a motion motion' hmotion hstep fun hr =>
      of_not_not fun hne => hremote ⟨hr, hne⟩
  · cases hs

/-- The buzzer is silent once its pin is driven. -/
def Pc.quiet (buzzerLevel buzzerDriven : Bool) : Pc → Prop
  | .presetBuzzer => buzzerDriven = false
  | .configureBuzzer => buzzerDriven = false ∧ buzzerLevel = false
  | .halted => buzzerDriven = true → buzzerLevel = false
  | _ => buzzerDriven = true ∧ buzzerLevel = false

def Pc.hasMotion : Pc → Bool
  | .starting _ | .stopping | .running | .stopped _ => true
  | _ => false

/-- Before the micro-ROS task runs the motion backend satisfies `P`. -/
structure Quiet (P : σ → Prop) (s : Boot σ) : Prop where
  buzzer : s.pc.quiet s.buzzerLevel s.buzzerDriven
  motion : s.motion.isSome = s.pc.hasMotion
  untouched : (s.pc = .stopping ∨ ∃ stage, s.pc = .starting stage) →
    ∀ motion, s.motion = some motion → P motion

section
variable {M : Backend κ σ ι} {P : σ → Prop} {s s' : Boot σ} {a : Action κ ι}

theorem Quiet.step (hquiet : Quiet P s)
    (hstart : ∀ inputs motion, M.start inputs = some motion → P motion)
    (hstep : ∀ motion i motion', P motion → M.remote i = false →
      M.step motion i = some motion' → P motion')
    (hs : Steps M s a s') : Quiet P s' := by
  obtain ⟨hbuzzer, hmotion, huntouched⟩ := hquiet
  cases hs with
  | preset h =>
    rw [h] at hbuzzer hmotion
    exact ⟨⟨hbuzzer, rfl⟩, hmotion, by simp⟩
  | configured h =>
    rw [h] at hbuzzer hmotion
    exact ⟨⟨rfl, hbuzzer.2⟩, hmotion, by simp⟩
  | lowered h =>
    rw [h] at hbuzzer hmotion
    exact ⟨⟨hbuzzer.1, rfl⟩, hmotion, by simp⟩
  | gpioFailed h =>
    refine ⟨?_, ?_, by simp⟩
    · rcases h with h | h | h <;> rw [h] at hbuzzer
      · exact fun hdriven => absurd (hdriven.symm.trans hbuzzer) (by decide)
      · exact fun _ => hbuzzer.2
      · exact fun _ => hbuzzer.2
    · rcases h with h | h | h <;> rw [h] at hmotion <;> exact hmotion
  | motionStarted h inputs motion hok =>
    rw [h] at hbuzzer
    refine ⟨hbuzzer, rfl, fun _ m hm => ?_⟩
    cases hm
    exact hstart inputs motion hok
  | motionFailed h inputs =>
    rw [h] at hbuzzer hmotion
    exact ⟨fun _ => hbuzzer.2, hmotion, by simp⟩
  | started stage h =>
    have hbefore := huntouched (.inr ⟨stage, h⟩)
    rw [h] at hbuzzer hmotion
    cases stage with
    | imu => exact ⟨hbuzzer, hmotion, fun _ => hbefore⟩
    | wifi => exact ⟨hbuzzer, hmotion, fun _ => hbefore⟩
    | microros => exact ⟨hbuzzer, hmotion, by simp [Stage.next]⟩
  | failed stage h =>
    have hbefore := huntouched (.inr ⟨stage, h⟩)
    rw [h] at hbuzzer hmotion
    exact ⟨hbuzzer, hmotion, fun _ => hbefore⟩
  | stopRequested h motion hsome =>
    rw [h] at hbuzzer
    exact ⟨hbuzzer, rfl, by simp⟩
  | background i motion motion' hsome hok hremote =>
    rw [hsome] at hmotion
    refine ⟨hbuzzer, hmotion, fun hpc m hm => ?_⟩
    cases hm
    have hlocal : M.remote i = false := by
      by_contra hr
      rw [Bool.not_eq_false] at hr
      rw [hremote hr] at hpc
      simp at hpc
    exact hstep motion i motion' (huntouched hpc motion hsome) hlocal hok

theorem quiet_of_path {buzzerLevel : Bool} {h : List (Event (Boot σ) (Action κ ι))}
    (hstart : ∀ inputs motion, M.start inputs = some motion → P motion)
    (hstep : ∀ motion i motion', P motion → M.remote i = false →
      M.step motion i = some motion' → P motion')
    (hp : Path (Enabled (appStep M)) (powerOn σ buzzerLevel) h s) : Quiet P s := by
  have hinit : Quiet P (powerOn σ buzzerLevel) := ⟨rfl, rfl, by simp [powerOn]⟩
  exact hp.invariant (fun _ _ _ hquiet hs => hquiet.step hstart hstep (steps_of_step hs)) hinit

end

def chassisBackend (E : Fp.Env) : Backend StartInputs System SystemAction where
  start inputs := (robotChassisDiagStart E inputs).toOption.map fun diag =>
    ⟨diag, .waiting, .empty, false⟩
  step := systemStep E
  remote
    | .remote _ => true
    | _ => false
  requestStop s :=
    let r := robotChassisDiagRemoteStop s.queue
    (r.1, { s with queue := r.2 })

abbrev ChassisBoot := Boot System

abbrev ChassisAction := Action StartInputs SystemAction

variable {E : Fp.Env}

def ArmLine (E : Fp.Env) (x : Event ChassisBoot ChassisAction) : Prop :=
  ∃ a motion motion', x.label = .background a ∧ x.before.motion = some motion ∧
    ArmRequest E ⟨motion, a, motion'⟩

def Drains (x : Event ChassisBoot ChassisAction) : Prop := x.label = .background .finishDrain

/-- Nothing is queued from the start of the chassis to that of the micro-ROS task. -/
theorem pending_step {s s' : System} {a : SystemAction} (hpending : s.pending = [])
    (hlocal : (chassisBackend E).remote a = false) (hs : systemStep E s a = some s') :
    s'.pending = [] := by
  cases systemStep_change hs with
  | sent _ _ _ => cases hlocal
  | own _ _ hp => rw [hp, hpending]
  | handled hp _ =>
    rw [hpending] at hp
    cases hp
  | moved _ _ hp => rw [hp, hpending]

theorem chassis_start_pending {inputs : StartInputs} {motion : System}
    (hs : (chassisBackend E).start inputs = some motion) : motion.pending = [] := by
  obtain ⟨diag, _, rfl⟩ := Option.map_eq_some_iff.mp hs
  rfl

theorem requestStop_pending {s : System} (hpending : s.pending = []) :
    ((chassisBackend E).requestStop s).1 = true ∧
      ((chassisBackend E).requestStop s).2.pending = [.stop] := by
  unfold System.pending at hpending
  obtain ⟨hhand, hitems⟩ := List.append_eq_nil_iff.mp hpending
  have hroom : s.queue.items.length < remoteQueueLength := by
    rw [hitems]
    decide
  obtain ⟨hok, hsent⟩ := Fifo.send_of_room (x := RemoteEvent.stop) hroom
  refine ⟨hok, ?_⟩
  unfold System.pending
  show s.pc.hand ++ (s.queue.send RemoteEvent.stop).2.items = _
  rw [hsent, hhand, hitems]
  rfl

/-- After the stop: what is pending shrinks, and only an ARM line gets past it. -/
structure Stopping (E : Fp.Env) (new : List (Event ChassisBoot ChassisAction)) (s : ChassisBoot)
    (queued : Bool) : Prop where
  pc : s.pc = .stopped queued
  motion : ∃ motion, s.motion = some motion ∧
    ((∀ x ∈ new, ¬ ArmLine E x) → motion.Halting) ∧
    ((∃ x ∈ new, Drains x) → motion.pending = [])

theorem Stopping.step {new : List (Event ChassisBoot ChassisAction)} {s s' : ChassisBoot}
    {a : ChassisAction} {queued : Bool} (hi : Stopping E new s queued)
    (hs : Enabled (appStep (chassisBackend E)) s a s') :
    Stopping E (⟨s, a, s'⟩ :: new) s' queued := by
  obtain ⟨hpc, motion, hmotion, hhalting, hdrained⟩ := hi
  cases steps_of_step hs with
  | background i motion' motion'' hsome hstep hremote =>
    rw [hmotion] at hsome
    cases hsome
    have hlocal : (chassisBackend E).remote i = false := by
      by_contra hr
      rw [Bool.not_eq_false] at hr
      rw [hremote hr] at hpc
      cases hpc
    refine ⟨hpc, motion'', rfl, fun hnone => ?_, fun hdrain => ?_⟩
    · obtain ⟨hthis, hnew⟩ := List.forall_mem_cons.mp hnone
      exact (hhalting hnew).step (fun harm => hthis ⟨i, motion, _, rfl, hmotion, harm⟩) hstep
    · obtain ⟨x, hx, hdrains⟩ := hdrain
      rcases List.mem_cons.mp hx with rfl | hx
      · cases hdrains
        have hfinish : systemStep E motion .finishDrain = some motion'' := hstep
        exact pending_step (finishDrain_eq hfinish).1 hlocal hfinish
      · exact pending_step (hdrained ⟨x, hx, hdrains⟩) hlocal hstep
  | preset h => rw [hpc] at h; cases h
  | configured h => rw [hpc] at h; cases h
  | lowered h => rw [hpc] at h; cases h
  | gpioFailed h => rw [hpc] at h; simp at h
  | motionStarted h => rw [hpc] at h; cases h
  | motionFailed h => rw [hpc] at h; cases h
  | started stage h => rw [hpc] at h; cases h
  | failed stage h => rw [hpc] at h; cases h
  | stopRequested h => rw [hpc] at h; cases h

theorem Stopping.run {a s : ChassisBoot} {new : List (Event ChassisBoot ChassisAction)}
    {queued : Bool} (ha : Stopping E [] a queued)
    (hp : Path (Enabled (appStep (chassisBackend E))) a new s) : Stopping E new s queued := by
  induction hp with
  | refl => exact ha
  | snoc _ hs ih => exact ih.step hs

theorem Pc.quiet_silent {pc : Pc} {buzzerLevel buzzerDriven : Bool}
    (hquiet : pc.quiet buzzerLevel buzzerDriven) (hdriven : buzzerDriven = true) :
    buzzerLevel = false := by
  subst hdriven
  cases pc with
  | presetBuzzer => cases hquiet
  | halted => exact hquiet rfl
  | _ => exact hquiet.2

theorem Pc.quiet_driven {pc : Pc} {buzzerLevel buzzerDriven : Bool}
    (hquiet : pc.quiet buzzerLevel buzzerDriven) (hmotion : pc.hasMotion = true) :
    buzzerDriven = true := by
  cases pc with
  | starting stage => exact hquiet.1
  | stopping => exact hquiet.1
  | running => exact hquiet.1
  | stopped queued => exact hquiet.1
  | _ => cases hmotion

theorem chassis_quiet {buzzerLevel : Bool} {h : List (Event ChassisBoot ChassisAction)}
    {s : ChassisBoot}
    (hp : Path (Enabled (appStep (chassisBackend E))) (powerOn System buzzerLevel) h s) :
    Quiet (fun motion => motion.pending = []) s :=
  quiet_of_path (fun _ _ => chassis_start_pending)
    (fun _ _ _ hpending hlocal hs => pending_step hpending hlocal hs) hp

/-- The stop after a failure finds the queue empty. -/
theorem stop_accepted {s s' : ChassisBoot} (hquiet : Quiet (fun motion => motion.pending = []) s)
    (hs : Enabled (appStep (chassisBackend E)) s .requestStop s') : Stopping E [] s' true := by
  cases steps_of_step hs with
  | stopRequested hpc motion hmotion =>
    obtain ⟨hok, hpending⟩ := requestStop_pending (E := E)
      (hquiet.untouched (.inl hpc) motion hmotion)
    refine ⟨?_, _, rfl, fun _ => ?_, fun hdrain => ?_⟩
    · show Pc.stopped _ = _
      rw [hok]
    · exact .inr ⟨[], [], hpending, List.not_mem_nil⟩
    · obtain ⟨x, hx, _⟩ := hdrain
      exact absurd hx List.not_mem_nil

/-- However the start of the application interleaves with the control loop and the console: the
buzzer pin is driven only at its silent level and before any motion, and a failure after the
start of the chassis always finds room for its stop, after which the micro-ROS task never runs
and, once the control task has emptied its queue, the core stays disarmed until an ARM line. -/
theorem startup_failure_disarms {buzzerLevel : Bool}
    {h : List (Event ChassisBoot ChassisAction)} {s : ChassisBoot}
    (hp : Path (Enabled (appStep (chassisBackend E))) (powerOn System buzzerLevel) h s) :
    (s.buzzerDriven = true → s.buzzerLevel = false) ∧
    (s.motion.isSome = true → s.buzzerDriven = true) ∧
    ∀ new e old, h = new ++ e :: old → e.label = .requestStop →
      s.pc = .stopped true ∧ (∀ x ∈ new, x.before.pc = .stopped true) ∧
      ((∃ x ∈ new, Drains x) → (∀ x ∈ new, ¬ ArmLine E x) →
        ∀ motion, s.motion = some motion → motion.diag.core.state ≠ .armed) := by
  have hquiet := chassis_quiet hp
  refine ⟨Pc.quiet_silent hquiet.buzzer, fun hmotion => ?_, ?_⟩
  · rw [hquiet.motion] at hmotion
    exact Pc.quiet_driven hquiet.buzzer hmotion
  · intro new e old hh hlabel
    subst hh
    obtain ⟨hbefore, hstep, hnew⟩ := hp.at_event
    rw [hlabel] at hstep
    have hstop := stop_accepted (chassis_quiet hbefore) hstep
    obtain ⟨hpc, motion, hmotion, hhalting, hdrained⟩ := hstop.run hnew
    refine ⟨hpc, fun x hx => ?_, fun hdrain hnone motion' hmotion' => ?_⟩
    · obtain ⟨newer, older, rfl⟩ := List.append_of_mem hx
      exact (hstop.run hnew.at_event.1).pc
    · rw [hmotion] at hmotion'
      cases hmotion'
      rcases hhalting hnone with ⟨harmed, _⟩ | ⟨before, behind, hpending, _⟩
      · exact harmed
      · rw [hdrained hdrain] at hpending
        exact absurd hpending (by simp)

def consoleStart : List ChassisAction :=
  [.gpio true, .gpio true, .gpio true, .startMotion readyInputs, .started true,
    .background (.wake 1000000)] ++
  ['Z', 'E', 'R', 'O', '\n', 'A', 'R', 'M', '\n'].map
    (fun ch => .background (.char ch goodReadings)) ++
  [.background .beginDrain, .background .finishDrain, .background (.sample fun _ => some 0),
    .started false]

def nextDrain : List ChassisAction :=
  [.background (.wake 1010000), .background .beginDrain, .background .receive,
    .background (.handle goodReadings), .background .finishDrain]

def Boot.coreState (s : ChassisBoot) : Option State := s.motion.map fun motion =>
  motion.diag.core.state

/-- The core when the stop is sent and after the next drain. -/
def failedStart : Option (Option State × Option State) :=
  (runAll (appStep (chassisBackend .rational)) (powerOn System true) consoleStart).bind fun s =>
    (runAll (appStep (chassisBackend .rational)) s (.requestStop :: nextDrain)).map fun s' =>
      (s.coreState, s'.coreState)

theorem startup_failure_disarms_console : ∃ h s e,
    Path (Enabled (appStep (chassisBackend .rational))) (powerOn System true) h s ∧
    e ∈ h ∧ e.label = .requestStop ∧ e.before.coreState = some .armed ∧
    ∀ motion, s.motion = some motion → motion.diag.core.state ≠ .armed := by
  have hrun : failedStart = some (some .armed, some .disarmed) := by decide +kernel
  obtain ⟨s, hs, hrest⟩ := Option.bind_eq_some_iff.mp hrun
  obtain ⟨s', hs', hstates⟩ := Option.map_eq_some_iff.mp hrest
  rw [Prod.mk.injEq] at hstates
  unfold runAll at hs'
  obtain ⟨t, ht, htail⟩ := Option.bind_eq_some_iff.mp hs'
  obtain ⟨old, hold, _⟩ := path_of_runAll hs
  obtain ⟨new, hnew, hlabels⟩ := path_of_runAll htail
  have hp := Path.append (hold.snoc ht) hnew
  have hlabel : ∀ x ∈ new, x.label ∈ nextDrain := by
    intro x hx
    rw [← List.mem_reverse, ← hlabels]
    exact List.mem_map_of_mem hx
  have hdrains : ∃ x ∈ new, Drains x := by
    have hmem : Action.background .finishDrain ∈ new.map Event.label := by
      rw [hlabels]
      simp [nextDrain]
    obtain ⟨x, hx, hfinish⟩ := List.mem_map.mp hmem
    exact ⟨x, hx, hfinish⟩
  have hnone : ∀ x ∈ new, ¬ ArmLine .rational x := by
    rintro x hx ⟨a, motion, motion', ha, _, harm⟩
    have hcases := hlabel x hx
    rw [ha] at hcases
    simp only [nextDrain, List.mem_cons, List.not_mem_nil, or_false, Action.background.injEq]
      at hcases
    rcases hcases with rfl | rfl | rfl | rfl | rfl <;> exact harm
  obtain ⟨_, _, hstop⟩ := startup_failure_disarms hp
  exact ⟨_, s', _, hp, List.mem_append_right new List.mem_cons_self, rfl, hstates.1,
    (hstop new _ old rfl rfl).2.2 hdrains hnone⟩

end RobotFirmware.App
