import RobotFirmware.Chassis.Invariant
import RobotFirmware.Chassis.Diag

/-! The control loop as a sequence of actions, each of which makes at most one call into the
core. Runs of the loop thereby inherit what holds of runs of the core. -/
namespace RobotFirmware.Chassis
open Fp Trace

/-- The smallest steps of an iteration, in the order in which it takes them. -/
inductive Action
  | wake (nowUs : ℤ)
  | char (ch : Char) (r : Readings)
  | event (event : RemoteEvent) (r : Readings)
  | sample (counts : Wheels (Option Int32))

def act (E : Env) (d : Diag) : Action → Diag
  | .wake nowUs => wake d nowUs
  | .char ch r => pollUartChar E d ch r d.nowMs
  | .event event r => handleRemoteEvent E d event r d.nowMs
  | .sample counts => sampleEncoders E d counts

def Iteration.actions (it : Iteration) : List Action :=
  .wake it.nowUs :: it.data.map (fun x => .char x.1 x.2) ++
    it.events.map (fun x => .event x.1 x.2) ++ [.sample it.counts]

/-- The command that a character completes, when it ends a non-empty line. -/
def completedCommand (E : Env) (d : Diag) (ch : Char) : Option Command :=
  if (ch = '\r' ∨ ch = '\n') ∧ 0 < d.uartLine.chars.length then
    some (parseCommand E.single d.uartLine.chars)
  else none

def Overflows (d : Diag) (ch : Char) : Prop :=
  ¬ (ch = '\r' ∨ ch = '\n') ∧ ¬ d.uartLine.chars.length + 1 < 64

instance (d : Diag) (ch : Char) : Decidable (Overflows d ch) :=
  inferInstanceAs (Decidable (_ ∧ _))

def commandCall (E : Env) (d : Diag) (r : Readings) : Command → Option Call
  | .zero => some .acceptZero
  | .arm => if printBatteryStatus E d r.adc then some .arm else none
  | .clear => some .clearFault
  | .gain kp ki => if gainsWithinLimits E kp ki then some (.updateGains kp ki) else none
  | .run wheel target => some (.submit (some (runTargets wheel target)))
  | .invalid => some (.stop .invalidTarget)
  | .status | .bat | .odomZero | .imuPause _ => none

def eventCall (E : Env) (d : Diag) (r : Readings) : RemoteEvent → Option Call
  | .zero => some .acceptZero
  | .arm => if printBatteryStatus E d r.adc then some .arm else none
  | .stop => some (.stop .explicit)
  | .targets targets _ => some (.submit (some targets))
  | .unknown => some (.stop .invalidTarget)

def encoderRead (d : Diag) (counts : Wheels (Option Int32)) :
    Bool × Wheels Int32 × Wheels Int32 :=
  readEncoders counts (List.finRange 4) d.lastCounts fun _ => 0

def coreCallOf (E : Env) (d : Diag) : Action → Option Call
  | .wake _ => none
  | .char ch r =>
    match completedCommand E d ch with
    | some command => commandCall E d r command
    | none => if Overflows d ch then some (.stop .invalidTarget) else none
  | .event event r => eventCall E d r event
  | .sample counts =>
    let read := encoderRead d counts
    if read.1 then some (.step (some read.2.2)) else some (.stop .encoderStall)

/-- Where a call of an action comes from: a command line, an overflow, a remote event or the
sample. -/
theorem coreCallOf_eq_some {E : Env} {d : Diag} {a : Action} {call : Call}
    (hc : coreCallOf E d a = some call) :
    (∃ ch r command, a = .char ch r ∧ completedCommand E d ch = some command ∧
      commandCall E d r command = some call) ∨
    (∃ ch r, a = .char ch r ∧ Overflows d ch ∧ call = .stop .invalidTarget) ∨
    (∃ event r, a = .event event r ∧ eventCall E d r event = some call) ∨
    ∃ counts, a = .sample counts ∧
      ((∃ delta, call = .step (some delta)) ∨ call = .stop .encoderStall) := by
  cases a with
  | wake nowUs => cases hc
  | char ch r =>
    unfold coreCallOf at hc
    dsimp only at hc
    cases hcmd : completedCommand E d ch with
    | none =>
      rw [hcmd] at hc
      dsimp only at hc
      split_ifs at hc with ho
      cases hc
      exact .inr (.inl ⟨ch, r, rfl, ho, rfl⟩)
    | some command =>
      rw [hcmd] at hc
      exact .inl ⟨ch, r, command, rfl, hcmd, hc⟩
  | event event r => exact .inr (.inr (.inl ⟨event, r, rfl, hc⟩))
  | sample counts =>
    unfold coreCallOf at hc
    dsimp only at hc
    split_ifs at hc
    · cases hc
      exact .inr (.inr (.inr ⟨counts, rfl, .inl ⟨_, rfl⟩⟩))
    · cases hc
      exact .inr (.inr (.inr ⟨counts, rfl, .inr rfl⟩))

theorem commandCall_eq_arm {E : Env} {d : Diag} {r : Readings} {command : Command}
    (hc : commandCall E d r command = some .arm) :
    command = .arm ∧ printBatteryStatus E d r.adc = true := by
  cases command with
  | arm =>
    unfold commandCall at hc
    dsimp only at hc
    split_ifs at hc with hb
    exact ⟨rfl, hb⟩
  | gain kp ki =>
    unfold commandCall at hc
    dsimp only at hc
    split_ifs at hc
    cases hc
  | _ => cases hc

theorem commandCall_eq_updateGains {E : Env} {d : Diag} {r : Readings} {command : Command}
    {kp ki : Datum} (hc : commandCall E d r command = some (.updateGains kp ki)) :
    command = .gain kp ki ∧ gainsWithinLimits E kp ki = true := by
  cases command with
  | arm =>
    unfold commandCall at hc
    dsimp only at hc
    split_ifs at hc
    cases hc
  | gain kp ki =>
    unfold commandCall at hc
    dsimp only at hc
    split_ifs at hc with hg
    cases hc
    exact ⟨rfl, hg⟩
  | _ => cases hc

theorem eventCall_eq_arm {E : Env} {d : Diag} {r : Readings} {event : RemoteEvent}
    (hc : eventCall E d r event = some .arm) :
    event = .arm ∧ printBatteryStatus E d r.adc = true := by
  cases event with
  | arm =>
    unfold eventCall at hc
    dsimp only at hc
    split_ifs at hc with hb
    exact ⟨rfl, hb⟩
  | _ => cases hc

/-- Gains are updated from the command line only. -/
theorem eventCall_ne_updateGains {E : Env} {d : Diag} {r : Readings} {event : RemoteEvent}
    {kp ki : Datum} : eventCall E d r event ≠ some (.updateGains kp ki) := by
  intro hc
  cases event with
  | arm =>
    unfold eventCall at hc
    dsimp only at hc
    split_ifs at hc
    cases hc
  | _ => cases hc

def applyCall (E : Env) (core : Core) (nowMs : UInt32) : Option Call → Core
  | none => core
  | some call => coreStep E core ⟨call, nowMs.toNat⟩

@[simp] theorem coreCall_nowMs (call : Call) (nowMs : UInt32) :
    (CoreCall.mk call nowMs.toNat).nowMs = nowMs := UInt32.ofNat_toNat

theorem submitTargets_core (d : Diag) (targets : Wheels Int32) (nowMs : UInt32) :
    (submitTargets d targets nowMs).core =
      (robotChassisCoreSubmit d.core (some targets) nowMs).2 := by
  unfold submitTargets
  dsimp only
  split_ifs <;> rfl

theorem armIfBatteryOk_core (E : Env) (d : Diag) (r : Readings) (nowMs : UInt32) :
    (armIfBatteryOk E d r nowMs).core =
      if printBatteryStatus E d r.adc then (robotChassisCoreArm d.core nowMs).2 else d.core := by
  unfold armIfBatteryOk
  split_ifs <;> rfl

/-- Calls made with the 32-bit clock of the task. -/
theorem applyCall_some (E : Env) (core : Core) (nowMs : UInt32) (call : Call) :
    applyCall E core nowMs (some call) = (call.run E core nowMs).2 := by
  rw [applyCall, coreStep, coreCall_nowMs]

theorem processCommand_core (E : Env) (d : Diag) (r : Readings) (chars : List Char)
    (nowMs : UInt32) :
    (processCommand E d r chars nowMs).core =
      applyCall E d.core nowMs (commandCall E d r (parseCommand E.single chars)) := by
  unfold processCommand
  cases parseCommand E.single chars with
  | zero => rw [commandCall, applyCall_some]; rfl
  | arm =>
    dsimp only [commandCall]
    rw [armIfBatteryOk_core]
    split_ifs
    · rw [applyCall_some]; rfl
    · rfl
  | clear => rw [commandCall, applyCall_some]; rfl
  | gain kp ki =>
    dsimp only [commandCall]
    split_ifs
    · rw [applyCall_some]; rfl
    · rfl
  | run wheel target => rw [commandCall, applyCall_some]; exact submitTargets_core d _ nowMs
  | invalid => rw [commandCall, applyCall_some]; rfl
  | status => rfl
  | bat => rfl
  | odomZero => dsimp only; split_ifs <;> rfl
  | imuPause durationMs => dsimp only; split_ifs <;> rfl

theorem handleRemoteEvent_core (E : Env) (d : Diag) (event : RemoteEvent) (r : Readings)
    (nowMs : UInt32) :
    (handleRemoteEvent E d event r nowMs).core =
      applyCall E d.core nowMs (eventCall E d r event) := by
  cases event with
  | zero => rw [eventCall, applyCall_some]; rfl
  | arm =>
    rw [handleRemoteEvent, armIfBatteryOk_core, eventCall]
    split_ifs
    · rw [applyCall_some]; rfl
    · rfl
  | stop => rw [eventCall, applyCall_some]; rfl
  | targets targets limited =>
    rw [eventCall, applyCall_some]; exact submitTargets_core d targets nowMs
  | unknown => rw [eventCall, applyCall_some]; rfl

theorem stepSample_core (E : Env) (d : Diag) (delta : Wheels Int32) :
    (stepSample E d delta).core = robotChassisCoreStep E d.core (some delta) d.nowMs := by
  unfold stepSample
  dsimp only
  split_ifs <;> rfl

/-- Every action changes the core by the one call it makes, if it makes one. -/
theorem act_core (E : Env) (d : Diag) (a : Action) :
    (act E d a).core = applyCall E d.core d.nowMs (coreCallOf E d a) := by
  cases a with
  | wake nowUs => rfl
  | char ch r =>
    rw [act, pollUartChar, coreCallOf, completedCommand]
    by_cases ht : ch = '\r' ∨ ch = '\n'
    · have ho : ¬ Overflows d ch := fun h => h.1 ht
      rw [if_pos ht]
      by_cases hu : 0 < d.uartLine.chars.length
      · rw [if_pos hu, if_pos ⟨ht, hu⟩]
        exact processCommand_core E d r _ _
      · have hline : ¬ ((ch = '\r' ∨ ch = '\n') ∧ 0 < d.uartLine.chars.length) :=
          fun h => hu h.2
        rw [if_neg hu, if_neg hline]
        dsimp only
        rw [if_neg ho]
        rfl
    · have hline : ¬ ((ch = '\r' ∨ ch = '\n') ∧ 0 < d.uartLine.chars.length) := fun h => ht h.1
      rw [if_neg ht, if_neg hline]
      dsimp only
      by_cases hu : d.uartLine.chars.length + 1 < 64
      · have ho : ¬ Overflows d ch := fun h => h.2 hu
        rw [dif_pos hu, if_neg ho]
        rfl
      · rw [dif_neg hu, if_pos ⟨ht, hu⟩, applyCall_some]
        rfl
  | event event r => exact handleRemoteEvent_core E d event r _
  | sample counts =>
    rw [act, sampleEncoders, coreCallOf, encoderRead]
    dsimp only
    split_ifs
    · rw [stepSample_core, applyCall_some]
      rfl
    · rw [applyCall_some]
      rfl

/-- What handling a command or an event leaves alone. -/
structure Kept (d d' : Diag) : Prop where
  nowMs : d'.nowMs = d.nowMs
  lastCounts : d'.lastCounts = d.lastCounts
  uartLine : d'.uartLine = d.uartLine

theorem processCommand_kept (E : Env) (d : Diag) (r : Readings) (chars : List Char)
    (nowMs : UInt32) : Kept d (processCommand E d r chars nowMs) := by
  unfold processCommand armIfBatteryOk submitTargets
  cases parseCommand E.single chars <;> dsimp only <;> (try split_ifs) <;> exact ⟨rfl, rfl, rfl⟩

theorem handleRemoteEvent_kept (E : Env) (d : Diag) (event : RemoteEvent) (r : Readings)
    (nowMs : UInt32) : Kept d (handleRemoteEvent E d event r nowMs) := by
  unfold handleRemoteEvent armIfBatteryOk submitTargets
  cases event <;> dsimp only <;> (try split_ifs) <;> exact ⟨rfl, rfl, rfl⟩

@[simp] theorem pollUartChar_nowMs (E : Env) (d : Diag) (ch : Char) (r : Readings)
    (nowMs : UInt32) : (pollUartChar E d ch r nowMs).nowMs = d.nowMs := by
  unfold pollUartChar
  split_ifs
  · exact (processCommand_kept E d r _ nowMs).nowMs
  · rfl
  · rfl
  · rfl

@[simp] theorem handleRemoteEvent_nowMs (E : Env) (d : Diag) (event : RemoteEvent)
    (r : Readings) (nowMs : UInt32) :
    (handleRemoteEvent E d event r nowMs).nowMs = d.nowMs :=
  (handleRemoteEvent_kept E d event r nowMs).nowMs

theorem pollUart_eq (E : Env) (d : Diag) (data : List (Char × Readings)) :
    pollUart E d data d.nowMs =
      (data.map fun x => Action.char x.1 x.2).foldl (act E) d ∧
      ((data.map fun x => Action.char x.1 x.2).foldl (act E) d).nowMs = d.nowMs := by
  induction data generalizing d with
  | nil => exact ⟨rfl, rfl⟩
  | cons x data ih =>
    have hn : (act E d (.char x.1 x.2)).nowMs = d.nowMs := pollUartChar_nowMs E d x.1 x.2 _
    have := ih (act E d (.char x.1 x.2))
    rw [hn] at this
    exact this

theorem processRemoteEvents_eq (E : Env) (d : Diag) (events : List (RemoteEvent × Readings)) :
    processRemoteEvents E d events d.nowMs =
      (events.map fun x => Action.event x.1 x.2).foldl (act E) d ∧
      ((events.map fun x => Action.event x.1 x.2).foldl (act E) d).nowMs = d.nowMs := by
  induction events generalizing d with
  | nil => exact ⟨rfl, rfl⟩
  | cons x events ih =>
    have hn : (act E d (.event x.1 x.2)).nowMs = d.nowMs :=
      handleRemoteEvent_nowMs E d x.1 x.2 _
    have := ih (act E d (.event x.1 x.2))
    rw [hn] at this
    exact this

/-- One pass of the loop is the run of its actions. -/
theorem controlTaskIteration_eq (E : Env) (d : Diag) (it : Iteration) :
    controlTaskIteration E d it = it.actions.foldl (act E) d := by
  have hu := (pollUart_eq E (wake d it.nowUs) it.data).1
  rw [controlTaskIteration, Iteration.actions, List.foldl_append, List.foldl_append,
    List.foldl_cons]
  rw [hu, (processRemoteEvents_eq E _ it.events).1]
  rfl

theorem iterations_eq (E : Env) (d : Diag) (its : List Iteration) :
    its.foldl (controlTaskIteration E) d = (its.flatMap Iteration.actions).foldl (act E) d := by
  induction its generalizing d with
  | nil => rfl
  | cons it its ih =>
    rw [List.foldl_cons, ih, List.flatMap_cons, List.foldl_append, controlTaskIteration_eq]

theorem firmwareConfig_init {E : Env} (hE : E.Exact) :
    robotChassisCoreInit (some (firmwareConfig E)) = some (initialCore (firmwareConfig E)) := by
  have hv : configValid (some (firmwareConfig E)) = true := by
    simp [configValid, firmwareConfig, literalF, hE.1, Format.exact]
  rw [robotChassisCoreInit, if_pos hv]
  rfl

structure Started (E : Env) (d : Diag) : Prop where
  core : robotChassisCoreInit (some (firmwareConfig E)) = some d.core
  motors : ∀ i, d.motors i = ⟨.coast, 0⟩

theorem start_eq {E : Env} {inp : StartInputs} {d : Diag}
    (hs : robotChassisDiagStart E inp = .ok d) :
    ∃ core, robotChassisCoreInit (some (firmwareConfig E)) = some core ∧
      d = initialDiag core inp := by
  unfold robotChassisDiagStart at hs
  obtain ⟨clockUs, queue, adcUnit, adcCalibrated, encoders, motors, config, pins, install, task⟩ :=
    inp
  cases hc : robotChassisCoreInit (some (firmwareConfig E)) with
  | none =>
    rw [hc] at hs
    cases hs
  | some core =>
    rw [hc] at hs
    dsimp only at hs
    generalize installed install = ready at hs
    cases queue <;> cases adcUnit <;> cases encoders <;> cases motors <;> cases config <;>
      cases pins <;> cases ready <;> cases task <;> cases hs
    exact ⟨core, rfl, rfl⟩

theorem started_of_start {E : Env} {inp : StartInputs} {d : Diag}
    (hs : robotChassisDiagStart E inp = .ok d) : Started E d := by
  obtain ⟨core, hc, rfl⟩ := start_eq hs
  exact ⟨hc, fun _ => rfl⟩

def readyInputs : StartInputs :=
  ⟨1000, true, .ok (), true, .ok (), .ok (), .ok (), .ok (), .ok (), true⟩

def readyDiag : Diag := initialDiag (initialCore (firmwareConfig .rational)) readyInputs

theorem readyDiag_start : robotChassisDiagStart .rational readyInputs = .ok readyDiag := by
  unfold robotChassisDiagStart
  rw [firmwareConfig_init Env.rational_exact]
  rfl

theorem readyDiag_started : Started .rational readyDiag := started_of_start readyDiag_start

/-- An action, as seen by the core. -/
theorem act_outcome {E : Env} {d d' : Diag} {a : Action} (hs : Det (act E) d a d') :
    (coreCallOf E d a = none ∧ d'.core = d.core) ∨
      ∃ call r, coreCallOf E d a = some call ∧
        Outcome E d.core ⟨call, d.nowMs.toNat⟩ r d'.core := by
  subst hs
  cases hc : coreCallOf E d a with
  | none => exact .inl ⟨rfl, by rw [act_core, hc]; rfl⟩
  | some call =>
    refine .inr ⟨call, (CoreCall.mk call d.nowMs.toNat).ret E d.core, rfl, ?_⟩
    rw [act_core, hc]
    exact outcome E d.core ⟨call, d.nowMs.toNat⟩

/-- A run of the control task contains a run of the core. -/
theorem coreRun_of_path {E : Env} {d₀ d : Diag} {h : List (Event Diag Action)}
    (hs : Started E d₀) (hp : Path (Det (act E)) d₀ h d) :
    ∃ hc, CoreRun E (some (firmwareConfig E)) hc d.core := by
  induction hp with
  | refl => exact ⟨[], _, hs.core, .refl⟩
  | @snoc h d d' a _ hd ih =>
    obtain ⟨hc, core₀, hi, hpc⟩ := ih
    have hcore := act_core E d a
    rw [show act E d a = d' from hd] at hcore
    rw [hcore]
    cases coreCallOf E d a with
    | none => exact ⟨hc, core₀, hi, hpc⟩
    | some call => exact ⟨_, core₀, hi, hpc.snoc rfl⟩

theorem diag_inv {E : Env} {d₀ d : Diag} {h : List (Event Diag Action)}
    (hs : Started E d₀) (hp : Path (Det (act E)) d₀ h d) : d.core.Inv := by
  obtain ⟨hc, hr⟩ := coreRun_of_path hs hp
  exact hr.inv

end RobotFirmware.Chassis
