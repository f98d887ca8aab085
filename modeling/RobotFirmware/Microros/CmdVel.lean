import RobotFirmware.Chassis.RemoteQueue
import RobotFirmware.Drive.Spec
import RobotFirmware.Drive.Targets

/-! The velocity callback of the micro-ROS task in the dry-run mode and the iteration of the
drive task that follows it. -/
namespace RobotFirmware.Microros
open Fp Trace Queue Drive
open Chassis (Twist supportedTwistIsValid)

/-- `request_motion_stop` in the dry-run mode. -/
def requestMotionStop (s : Statics) (reason : Drive.StopReason) (clockUs : ℤ) : Bool × Statics :=
  robotDriveRequestStop s reason clockUs

def submitMotionCommand (s : Statics) (linearXMps angularZRadps : Datum) (clockUs : ℤ) :
    Bool × Statics :=
  robotDriveSubmitCmdVel s linearXMps angularZRadps clockUs

/-- The two components of a message that are used, as `float`. -/
def driveInput (E : Env) (command : Twist) : CoreInput :=
  ⟨E.toSingle command.linearX, E.toSingle command.angularZ⟩

/-- The callback with the clock readings of its submission and of its stop. -/
def cmdVelSubscriptionCallback (E : Env) (s : Statics) (msg : Option Twist)
    (submitUs stopUs : ℤ) : Statics :=
  match msg with
  | none => (requestMotionStop s .invalidCommand stopUs).2
  | some command =>
    if !supportedTwistIsValid E (some command) then
      (requestMotionStop s .invalidCommand stopUs).2
    else
      let input := driveInput E command
      let submitted := submitMotionCommand s input.linearXMps input.angularZRadps submitUs
      if !submitted.1 then (requestMotionStop submitted.2 .externalRequest stopUs).2
      else submitted.2

/-- One pass of the loop of `robot_drive_task`, with its reading of the clock. -/
def robotDriveTaskIteration (E : Env) (o : Options) (s : Statics) (t : TaskState) (nowUs : ℤ) :
    Statics × TaskState :=
  let received :=
    match s.eventQueue.bind Fifo.receive with
    | some (incoming, q) => ({ s with eventQueue := some q }, TaskState.receive incoming)
    | none => (s, t)
  let evaluated := received.2.evaluate E o nowUs
  (publishSnapshot received.1 evaluated.2, evaluated.1)

/-- A pass that nothing but time interrupts is the three steps of the task. -/
theorem runAll_iteration {E : Env} {o : Options} {s : System} (hpc : s.pc = .receiving)
    (us : ℕ) :
    runAll (step E o) s [.receive, .tick us, .evaluate, .publish] =
      some { s with
        clockUs := s.clockUs + us
        statics := (robotDriveTaskIteration E o s.statics s.task (s.clockUs + us)).1
        task := (robotDriveTaskIteration E o s.statics s.task (s.clockUs + us)).2 } := by
  unfold robotDriveTaskIteration
  cases hr : s.statics.eventQueue.bind Fifo.receive with
  | none => simp [runAll, step, hpc, hr]
  | some r => simp [runAll, step, hpc, hr]

structure Running (s : Statics) : Prop where
  events : ∃ q, s.eventQueue = some q
  snapshots : ∃ q, s.snapshotQueue = some q

theorem run_spec {s : Statics} (hs : Running s) {call : ProducerCall}
    (hr : call.refused s = false) (clockUs : ℤ) :
    ∃ sequence, (call.run s clockUs).1 =
        (decide ((call.event clockUs sequence).type = .stop) ||
          (call.event clockUs sequence).valid) ∧
      (∃ q, (call.run s clockUs).2.eventQueue = some q ∧
        q.items = [call.event clockUs sequence]) ∧
      ∃ q, (call.run s clockUs).2.snapshotQueue = some q := by
  obtain ⟨⟨q, hq⟩, hsnapshots⟩ := hs
  refine ⟨nextSequence s.sNextSequence, ?_⟩
  have hrun : call.run s clockUs =
      (decide ((call.event clockUs (nextSequence s.sNextSequence)).type = .stop) ||
        (call.event clockUs (nextSequence s.sNextSequence)).valid,
        sendEvent { s with sNextSequence := nextSequence s.sNextSequence }
          (call.event clockUs (nextSequence s.sNextSequence))) := by
    unfold ProducerCall.run ProducerCall.prepare
    rw [hr]
    rfl
  rw [hrun]
  exact ⟨rfl, ⟨_, sendEvent_spec (s := { s with sNextSequence := _ }) hq _, rfl⟩, hsnapshots⟩

theorem iteration_snapshot {E : Env} {o : Options} {s : Statics} {q : Fifo DriveEvent 1}
    {event : DriveEvent} (hq : s.eventQueue = some q) (hone : q.items = [event])
    (hs : ∃ q, s.snapshotQueue = some q) {nowUs : ℤ} (hg : event.Genuine nowUs)
    (t : TaskState) :
    robotDriveGetSnapshot (robotDriveTaskIteration E o s t nowUs).1 =
      some (specSnapshot E o (some event) nowUs nowUs) := by
  obtain ⟨snapshots, hsnapshots⟩ := hs
  have hreceive : ∃ q', q.receive = some (event, q') := by
    cases hr : q.receive with
    | none =>
      rw [Fifo.receive_eq_none.mp hr] at hone
      cases hone
    | some r =>
      obtain ⟨incoming, q'⟩ := r
      have hitems := Fifo.items_of_receive hr
      rw [hone] at hitems
      obtain ⟨rfl, _⟩ := List.cons.inj hitems
      exact ⟨q', rfl⟩
  obtain ⟨q', hr⟩ := hreceive
  have hbind : s.eventQueue.bind Fifo.receive = some (event, q') := by
    rw [hq]
    exact hr
  unfold robotDriveTaskIteration
  rw [hbind]
  have hgenuine : ∀ e ∈ some event, e.Genuine nowUs := fun e he => Option.some.inj he ▸ hg
  have hfresh : ((TaskState.receive event).evaluate E o nowUs).2 =
      specSnapshot E o (some event) nowUs nowUs := (evaluate_fresh hgenuine).1
  have hpublished := (publishSnapshot_spec (s := { s with eventQueue := some q' }) hsnapshots
    ((TaskState.receive event).evaluate E o nowUs).2).2
  rw [← hfresh]
  exact hpublished

/-- The call of the callback whose event stays in the queue. -/
def lastCall (E : Env) (command : Twist) : ProducerCall :=
  let input := driveInput E command
  if !supportedTwistIsValid E (some command) then .requestStop .invalidCommand
  else if input.linearXMps.isFinite && input.angularZRadps.isFinite then
    .submitCmdVel input.linearXMps input.angularZRadps
  else .requestStop .externalRequest

def lastUs (submitUs stopUs : ℤ) : ProducerCall → ℤ
  | .submitCmdVel _ _ => submitUs
  | .requestStop _ => stopUs

/-- A stop overwrites a submission that failed. -/
theorem callback_spec {E : Env} {s : Statics} (hs : Running s) (command : Twist)
    (submitUs stopUs : ℤ) :
    ∃ sequence q, (cmdVelSubscriptionCallback E s (some command) submitUs stopUs).eventQueue =
        some q ∧
      q.items = [(lastCall E command).event (lastUs submitUs stopUs (lastCall E command))
        sequence] ∧
      ∃ q, (cmdVelSubscriptionCallback E s (some command) submitUs stopUs).snapshotQueue =
        some q := by
  obtain ⟨events, hevents⟩ := hs.events
  have hstop : ∀ (t : Statics) (reason : Drive.StopReason), t.eventQueue.isSome = true →
      reason ≠ .none → (ProducerCall.requestStop reason).refused t = false := by
    intro t reason ht hne
    simp [ProducerCall.refused, hne, Option.isNone_eq_false_iff.mpr ht]
  unfold cmdVelSubscriptionCallback lastCall requestMotionStop submitMotionCommand
  dsimp only
  by_cases hv : supportedTwistIsValid E (some command) = true
  · have hv' : ¬ (!supportedTwistIsValid E (some command)) = true := by simp [hv]
    rw [if_neg hv', if_neg hv']
    have hsubmit : (ProducerCall.submitCmdVel (driveInput E command).linearXMps
        (driveInput E command).angularZRadps).refused s = false := by
      simp [ProducerCall.refused, hevents]
    obtain ⟨sequence, hreturn, ⟨q, hq, hone⟩, hsnapshots⟩ := run_spec hs hsubmit submitUs
    have hreturn' : (robotDriveSubmitCmdVel s (driveInput E command).linearXMps
        (driveInput E command).angularZRadps submitUs).1 =
        ((driveInput E command).linearXMps.isFinite &&
          (driveInput E command).angularZRadps.isFinite) := hreturn
    rw [hreturn']
    by_cases hf : ((driveInput E command).linearXMps.isFinite &&
        (driveInput E command).angularZRadps.isFinite) = true
    · have hf' : ¬ (!((driveInput E command).linearXMps.isFinite &&
          (driveInput E command).angularZRadps.isFinite)) = true := by simp [hf]
      rw [if_neg hf', if_pos hf]
      exact ⟨sequence, q, hq, hone, hsnapshots⟩
    · have hf' : (!((driveInput E command).linearXMps.isFinite &&
          (driveInput E command).angularZRadps.isFinite)) = true := by simp [hf]
      rw [if_pos hf', if_neg hf]
      obtain ⟨sequence', _, ⟨q', hq', hone'⟩, hsnapshots'⟩ := run_spec ⟨⟨q, hq⟩, hsnapshots⟩
        (hstop _ .externalRequest (by simp [hq]) (by simp)) stopUs
      exact ⟨sequence', q', hq', hone', hsnapshots'⟩
  · have hv' : (!supportedTwistIsValid E (some command)) = true := by simp [hv]
    rw [if_pos hv', if_pos hv']
    obtain ⟨sequence, _, ⟨q, hq, hone⟩, hsnapshots⟩ := run_spec hs
      (hstop s .invalidCommand (by simp [hevents]) (by simp)) stopUs
    exact ⟨sequence, q, hq, hone, hsnapshots⟩

def NonFiniteComponent (command : Twist) : Prop :=
  ∃ i, (command.linear i).isFinite = false ∨ (command.angular i).isFinite = false

/-- An axis the robot does not have is beyond `1.0e-6`. -/
def UnsupportedAxis (E : Env) (command : Twist) : Prop :=
  ∃ x ∈ command.unsupported, Datum.lt (E.double.round (1 / 1000000)) x.abs = true

/-- A used component is finite as a `double` and not as a `float`. -/
def FloatOverflows (E : Env) (command : Twist) : Prop :=
  (command.linearX.isFinite = true ∧ (E.toSingle command.linearX).isFinite = false) ∨
    (command.angularZ.isFinite = true ∧ (E.toSingle command.angularZ).isFinite = false)

def BadTwist (E : Env) (o : Options) (command : Twist) : Prop :=
  NonFiniteComponent command ∨ UnsupportedAxis E command ∨ FloatOverflows E command ∨
    WheelOverflows E (driveInput E command) (o.config E).turnGeometryM

theorem supportedTwistIsValid_iff {E : Env} {command : Twist} :
    supportedTwistIsValid E (some command) = true ↔
      ¬ NonFiniteComponent command ∧ ¬ UnsupportedAxis E command := by
  obtain ⟨epsilon, hepsilon, _⟩ := E.double.round_le (1 / 1000000) 0 (by norm_num)
    (by norm_num [abs_le])
  have hsmall : ∀ x : Datum, x.isFinite = true → (Datum.le x.abs (.finite epsilon) = true ↔
      ¬ Datum.lt (.finite epsilon) x.abs = true) := by
    intro x hx
    obtain ⟨q, rfl⟩ := finite_of_test hx
    simp
  have hfinite : ¬ NonFiniteComponent command ↔
      ∀ i, (command.linear i).isFinite = true ∧ (command.angular i).isFinite = true := by
    simp [NonFiniteComponent]
  unfold supportedTwistIsValid UnsupportedAxis
  rw [hfinite, hepsilon]
  simp only [Bool.and_eq_true, decide_eq_true_eq]
  constructor
  · intro h
    obtain ⟨⟨⟨⟨hall, h1⟩, h2⟩, h3⟩, h4⟩ := h
    refine ⟨hall, ?_⟩
    rw [hsmall _ (hall _).1] at h1 h2
    rw [hsmall _ (hall _).2] at h3 h4
    simp [Twist.unsupported, h1, h2, h3, h4]
  · intro h
    obtain ⟨hall, hnone⟩ := h
    have hle : ∀ x ∈ command.unsupported, x.isFinite = true →
        Datum.le x.abs (.finite epsilon) = true := by
      intro x hx hf
      exact (hsmall x hf).mpr fun hlt => hnone ⟨x, hx, hlt⟩
    unfold Twist.unsupported at hle
    exact ⟨⟨⟨⟨hall, hle _ (by simp) (hall 1).1⟩, hle _ (by simp) (hall 2).1⟩,
      hle _ (by simp) (hall 0).2⟩, hle _ (by simp) (hall 1).2⟩

structure InMenu (o : Options) : Prop where
  turn : 1 ≤ o.turnGeometryMm ∧ o.turnGeometryMm ≤ 2000
  limit : 1 ≤ o.maxTargetMmps ∧ o.maxTargetMmps ≤ 10000

theorem thousandths_spec {E : Env} (hE : E.single.SingleLaws) {n : ℕ} (hn : 1 ≤ n)
    (hle : n ≤ 10000) : ∃ q, thousandths E n = .finite q ∧ 1 / 2 ^ 10 ≤ q := by
  have hround : ∀ m : ℕ, m ≤ 10000 → E.single.round m = .finite m := by
    intro m hm
    have habs : |(m : ℤ)| ≤ 2 ^ 24 := abs_le.mpr ⟨by omega, by omega⟩
    have := E.single.round_int m habs
    rw [Int.cast_natCast] at this
    exact this
  have hthousand := hround 1000 (by norm_num)
  have hn' : (1 : ℚ) ≤ n := by exact_mod_cast hn
  have hle' : (n : ℚ) ≤ 10000 := by exact_mod_cast hle
  have hrange : |(n : ℚ) / 1000| ≤ singleMax := by
    rw [abs_of_nonneg (by positivity)]
    have hten : (n : ℚ) / 1000 ≤ 2 ^ 4 := by linarith
    exact hten.trans (two_pow_le_singleMax (by norm_num))
  obtain ⟨q, hq, _⟩ := hE.inRange _ hrange
  refine ⟨q, ?_, ?_⟩
  · unfold thousandths
    push_cast at hthousand
    rw [hround n hle, hthousand, Datum.div_finite _ _ (by norm_num), hq]
  · have hlow : 1 / 2 ^ 10 ≤ (n : ℚ) / 1000 := by
      rw [div_le_div_iff₀ (by norm_num) (by norm_num)]
      linarith
    exact hE.keeps _ q 10 (by norm_num) hlow hq

structure ShowsFault (snapshot : Snapshot) : Prop where
  stopped : snapshot.stopped = true
  zero : ∀ wheel, snapshot.targetMps wheel = .finite 0
  inputFault : snapshot.inputFault = true

structure Carries (E : Env) (o : Options) (command : Twist) (snapshot : Snapshot) : Prop where
  running : snapshot.stopped = false
  targets : snapshot.targetMps =
    (robotDriveCoreComputeTargets E (some (o.config E)) (some (driveInput E command))).2.targetMps

/-- A bad message is reported, and a good one is carried unless it has timed out. -/
def Reports (E : Env) (o : Options) (command : Twist) (ageUs : ℤ) (snapshot : Snapshot) : Prop :=
  (BadTwist E o command → ShowsFault snapshot) ∧
    (¬ BadTwist E o command → ageUs ≤ o.timeoutUs → Carries E o command snapshot)

theorem showsFault_stopped_iff (reason : Drive.StopReason) (event : Option DriveEvent) (nowUs : ℤ) :
    ShowsFault ((Verdict.stopped reason).snapshot event nowUs) ↔
      reason = .invalidCommand ∨ reason = .coreError := by
  constructor
  · intro h
    simpa [Verdict.snapshot, makeStoppedSnapshot, isInputFault] using h.inputFault
  · intro h
    refine ⟨rfl, fun _ => rfl, ?_⟩
    simpa [Verdict.snapshot, makeStoppedSnapshot, isInputFault] using h

theorem faultReason_fault (status : CoreStatus) :
    faultReason status = .invalidCommand ∨ faultReason status = .coreError := by
  unfold faultReason
  split_ifs
  · exact .inl rfl
  · exact .inr rfl

/-- The verdict on the command of a message whose used components are finite as `float`. -/
theorem reports_command_iff {E : Env} (hE : E.single.SingleLaws) {o : Options} (ho : InMenu o)
    {command : Twist} (hv : supportedTwistIsValid E (some command) = true)
    (hf : ¬ FloatOverflows E command) {event : DriveEvent} (hsound : Sound event)
    (hinput : event.input = driveInput E command) (nowUs : ℤ) :
    Reports E o command (nowUs - event.receivedAtUs)
        (specSnapshot E o (some event) nowUs nowUs) ↔
      (WheelOverflows E (driveInput E command) (o.config E).turnGeometryM →
        nowUs - event.receivedAtUs ≤ o.timeoutUs) := by
  obtain ⟨hfinite, hsupported⟩ := supportedTwistIsValid_iff.mp hv
  have hbad : BadTwist E o command ↔
      WheelOverflows E (driveInput E command) (o.config E).turnGeometryM := by
    unfold BadTwist
    tauto
  obtain ⟨g, hg, hglow⟩ := thousandths_spec hE ho.turn.1 (ho.turn.2.trans (by norm_num))
  obtain ⟨m, hm, hmlow⟩ := thousandths_spec hE ho.limit.1 ho.limit.2
  have hconfig : o.config E = ⟨.finite g, .finite m⟩ := by rw [Options.config, hg, hm]
  have hgpos : 0 < g := lt_of_lt_of_le (by norm_num) hglow
  have hok := computeTargets_ok_iff hE hgpos hmlow hsound.2.1 hsound.2.2
  have hcomputed : computed E o event =
      robotDriveCoreComputeTargets E (some ⟨.finite g, .finite m⟩) (some event.input) := by
    rw [computed, hconfig]
  unfold Reports specSnapshot
  rw [hbad, hconfig, ← hinput]
  by_cases hwheel : WheelOverflows E event.input (.finite g)
  · have hfailed : (computed E o event).1 ≠ .ok := by
      rw [hcomputed]
      exact fun h => hok.mp h hwheel
    rw [verdict_failed hsound hfailed, showsFault_stopped_iff]
    by_cases hto : nowUs - event.receivedAtUs ≤ o.timeoutUs
    · rw [if_pos hto]
      simp [hwheel, hto, faultReason_fault]
    · rw [if_neg hto]
      simp [hwheel, hto]
  · have hrunning : (computed E o event).1 = .ok := by
      rw [hcomputed]
      exact hok.mpr hwheel
    rw [verdict_ok hsound hrunning]
    refine ⟨fun _ h => absurd h hwheel, fun _ => ⟨fun h => absurd h hwheel, fun _ hto => ?_⟩⟩
    rw [if_pos hto]
    refine ⟨rfl, ?_⟩
    rw [← hinput, hconfig, ← hcomputed]
    rfl

theorem lastCall_of_invalid {E : Env} {command : Twist}
    (hv : ¬ supportedTwistIsValid E (some command) = true) :
    lastCall E command = .requestStop .invalidCommand := by
  have hinvalid : (!supportedTwistIsValid E (some command)) = true := by simp [hv]
  unfold lastCall
  dsimp only
  rw [if_pos hinvalid]

/-- The stop of the callback takes the place of the event that reported the fault. -/
theorem lastCall_of_overflow {E : Env} {command : Twist}
    (hv : supportedTwistIsValid E (some command) = true) (hf : FloatOverflows E command) :
    lastCall E command = .requestStop .externalRequest := by
  have hvalid : ¬ (!supportedTwistIsValid E (some command)) = true := by simp [hv]
  have hinput : ¬ ((driveInput E command).linearXMps.isFinite &&
      (driveInput E command).angularZRadps.isFinite) = true := by
    unfold driveInput
    rcases hf with ⟨_, h⟩ | ⟨_, h⟩ <;> simp [h]
  unfold lastCall
  dsimp only
  rw [if_neg hvalid, if_neg hinput]

theorem lastCall_of_finite {E : Env} {command : Twist}
    (hv : supportedTwistIsValid E (some command) = true) (hf : ¬ FloatOverflows E command) :
    ((driveInput E command).linearXMps.isFinite = true ∧
      (driveInput E command).angularZRadps.isFinite = true) ∧
    lastCall E command = .submitCmdVel (driveInput E command).linearXMps
      (driveInput E command).angularZRadps := by
  have hvalid : ¬ (!supportedTwistIsValid E (some command)) = true := by simp [hv]
  have hcomponents : ∀ i, (command.linear i).isFinite = true ∧
      (command.angular i).isFinite = true := by
    simpa [NonFiniteComponent] using (supportedTwistIsValid_iff.mp hv).1
  have hinput : (driveInput E command).linearXMps.isFinite = true ∧
      (driveInput E command).angularZRadps.isFinite = true := by
    unfold FloatOverflows Twist.linearX Twist.angularZ at hf
    unfold driveInput Twist.linearX Twist.angularZ
    simpa [(hcomponents 0).1, (hcomponents 2).2] using hf
  refine ⟨hinput, ?_⟩
  unfold lastCall
  dsimp only
  rw [if_neg hvalid, if_pos (by rw [hinput.1, hinput.2]; rfl)]

/-- A bad message is reported as an input fault exactly when it does not overflow in the
conversion to `float`, and is not judged too late for the range test of its wheels. -/
theorem bad_twist_reported_iff {E : Env} (hE : E.single.SingleLaws) {o : Options} (ho : InMenu o)
    {s : Statics} (hs : Running s) (t : TaskState) (command : Twist) {submitUs stopUs nowUs : ℤ}
    (hsubmit : submitUs ≤ stopUs) (hstop : stopUs ≤ nowUs) :
    ∃ snapshot, robotDriveGetSnapshot (robotDriveTaskIteration E o
        (cmdVelSubscriptionCallback E s (some command) submitUs stopUs) t nowUs).1 =
          some snapshot ∧
      (Reports E o command (nowUs - submitUs) snapshot ↔
        (supportedTwistIsValid E (some command) = true →
          ¬ FloatOverflows E command ∧
          (WheelOverflows E (driveInput E command) (o.config E).turnGeometryM →
            nowUs - submitUs ≤ o.timeoutUs))) := by
  obtain ⟨sequence, q, hq, hone, hsnapshots⟩ := callback_spec (E := E) hs command submitUs stopUs
  have hlast : lastUs submitUs stopUs (lastCall E command) ≤ nowUs := by
    cases lastCall E command with
    | submitCmdVel linearXMps angularZRadps => exact hsubmit.trans hstop
    | requestStop reason => exact hstop
  have hgenuine := ((lastCall E command).event_genuine
    (lastUs submitUs stopUs (lastCall E command)) sequence).mono hlast
  refine ⟨_, iteration_snapshot hq hone hsnapshots hgenuine t, ?_⟩
  by_cases hv : supportedTwistIsValid E (some command) = true
  · by_cases hf : FloatOverflows E command
    · rw [lastCall_of_overflow hv hf]
      constructor
      · intro hreports
        have hfault := hreports.1 (.inr (.inr (.inl hf)))
        rcases (showsFault_stopped_iff _ _ _).mp hfault with h | h <;> cases h
      · exact fun h => absurd hf (h hv).1
    · obtain ⟨hinput, hcall⟩ := lastCall_of_finite hv hf
      rw [hcall]
      let event := (ProducerCall.submitCmdVel (driveInput E command).linearXMps
        (driveInput E command).angularZRadps).event submitUs sequence
      have hsound : Sound event := ⟨rfl, hinput⟩
      have hcommand := reports_command_iff hE ho hv hf hsound rfl nowUs
      exact hcommand.trans ⟨fun h _ => ⟨hf, h⟩, fun h => (h hv).2⟩
  · have hbad : BadTwist E o command := by
      by_contra hgood
      unfold BadTwist at hgood
      exact hv (supportedTwistIsValid_iff.mpr (by tauto))
    rw [lastCall_of_invalid hv]
    refine ⟨fun _ h => absurd h hv, fun _ => ⟨fun _ => ?_, fun h => absurd hbad h⟩⟩
    exact (showsFault_stopped_iff _ _ _).mpr (.inl rfl)

def readyStatics : Statics := (robotDriveStart ⟨none, none, false, 0⟩ ⟨true, true, true, 0⟩).2

theorem readyStatics_running : Running readyStatics := ⟨⟨_, rfl⟩, ⟨_, rfl⟩⟩

def menuDefaults : Options := ⟨115, 1000, 500⟩

theorem menuDefaults_inMenu : InMenu menuDefaults :=
  ⟨⟨by decide, by decide⟩, ⟨by decide, by decide⟩⟩

def planar (linearX angularZ : ℚ) : Twist :=
  ⟨fun i => .finite (if i.val = 0 then linearX else 0),
    fun i => .finite (if i.val = 2 then angularZ else 0)⟩

def sideways : Twist := ⟨fun i => .finite (if i.val = 1 then 1 else 0), fun _ => .finite 0⟩

theorem bad_twist_reported_iff_sideways : ∃ snapshot,
    robotDriveGetSnapshot (robotDriveTaskIteration .ranged menuDefaults
      (cmdVelSubscriptionCallback .ranged readyStatics (some sideways) 100 200) .initial 300).1 =
        some snapshot ∧ Reports .ranged menuDefaults sideways 200 snapshot := by
  obtain ⟨snapshot, hshown, hreports⟩ := bad_twist_reported_iff (E := .ranged)
    Format.exactSingle_singleLaws menuDefaults_inMenu readyStatics_running .initial sideways
    (show (100 : ℤ) ≤ 200 by norm_num) (show (200 : ℤ) ≤ 300 by norm_num)
  have hv : supportedTwistIsValid .ranged (some sideways) = false := by decide +kernel
  exact ⟨snapshot, hshown, hreports.mpr fun h => by rw [hv] at h; cases h⟩

/-- A finite speed beyond `FLT_MAX` stops the drive as if someone else had asked for it. -/
theorem bad_twist_unreported :
    BadTwist .ranged menuDefaults (planar (10 ^ 39) 0) ∧ ∀ snapshot,
      robotDriveGetSnapshot (robotDriveTaskIteration .ranged menuDefaults
        (cmdVelSubscriptionCallback .ranged readyStatics (some (planar (10 ^ 39) 0)) 100 200)
          .initial 300).1 = some snapshot →
      snapshot.stopReason = .externalRequest ∧ snapshot.inputFault = false := by
  constructor
  · exact .inr (.inr (.inl (.inl ⟨rfl, by decide +kernel⟩)))
  · have hshown : (robotDriveGetSnapshot (robotDriveTaskIteration .ranged menuDefaults
        (cmdVelSubscriptionCallback .ranged readyStatics (some (planar (10 ^ 39) 0)) 100 200)
          .initial 300).1).map (fun x => (x.stopReason, x.inputFault)) =
        some (.externalRequest, false) := by decide +kernel
    intro snapshot hsnapshot
    rw [hsnapshot] at hshown
    exact Prod.mk.inj (Option.some.inj hshown)

end RobotFirmware.Microros
