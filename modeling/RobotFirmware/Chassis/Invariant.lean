import RobotFirmware.Chassis.Outcome

/-! The representation invariant of the core over every run from initialisation. -/
namespace RobotFirmware.Chassis
open Fp Trace

/-- The events `h`, newest first, lead from a successful initialisation to `core`. -/
def CoreRun (E : Env) (config : Option CoreConfig) (h : List (Event Core CoreCall))
    (core : Core) : Prop :=
  ∃ core₀, robotChassisCoreInit config = some core₀ ∧ Path (Det (coreStep E)) core₀ h core

theorem init_eq_some {config : Option CoreConfig} {core : Core}
    (hi : robotChassisCoreInit config = some core) :
    ∃ c, config = some c ∧ configValid (some c) = true ∧ core = initialCore c := by
  unfold robotChassisCoreInit at hi
  split_ifs at hi with hv
  cases config with
  | none => cases hi
  | some c => exact ⟨c, rfl, hv, (Option.some.inj hi).symm⟩

theorem configValid_iff {config : CoreConfig} : configValid (some config) = true ↔
    (∃ q, config.kp = .finite q ∧ 0 ≤ q) ∧ (∃ q, config.kiPerStep = .finite q ∧ 0 ≤ q) ∧
    (∃ q, config.integralLimit = .finite q ∧ 0 < q) ∧ 0 < config.maxOutput ∧
    0 < config.maxTargetCounts ∧ 0 < config.commandTimeoutMs ∧ 0 < config.stallSteps := by
  have hle : ∀ x, (x.isFinite = true ∧ Datum.le (.finite 0) x = true) ↔
      ∃ q, x = .finite q ∧ 0 ≤ q := by
    intro x
    cases x <;> simp [Datum.isFinite]
  have hlt : ∀ x, (x.isFinite = true ∧ Datum.lt (.finite 0) x = true) ↔
      ∃ q, x = .finite q ∧ 0 < q := by
    intro x
    cases x <;> simp [Datum.isFinite]
  unfold configValid
  simp only [Bool.and_eq_true, decide_eq_true_eq, and_assoc, ← hle, ← hlt]

/-- A property of initial cores that every call preserves holds of every run. -/
theorem CoreRun.invariant {E : Env} {config : Option CoreConfig} {h : List (Event Core CoreCall)}
    {core : Core} {P : Core → Prop}
    (hinit : ∀ c, configValid (some c) = true → P (initialCore c))
    (hstep : ∀ s c s', P s → Det (coreStep E) s c s' → P s')
    (hr : CoreRun E config h core) : P core := by
  obtain ⟨core₀, hi, hp⟩ := hr
  obtain ⟨c, _, hv, rfl⟩ := init_eq_some hi
  exact hp.invariant hstep (hinit c hv)

theorem CoreRun.at_event {E : Env} {config : Option CoreConfig}
    {new old : List (Event Core CoreCall)} {e : Event Core CoreCall} {core : Core}
    (hr : CoreRun E config (new ++ e :: old) core) :
    CoreRun E config old e.before ∧ Det (coreStep E) e.before e.label e.after ∧
      Path (Det (coreStep E)) e.after new core := by
  obtain ⟨core₀, hi, hp⟩ := hr
  obtain ⟨hold, hs, hnew⟩ := hp.at_event
  exact ⟨⟨core₀, hi, hold⟩, hs, hnew⟩

theorem CoreRun.of_mem {E : Env} {config : Option CoreConfig} {h : List (Event Core CoreCall)}
    {e : Event Core CoreCall} {core : Core} (hr : CoreRun E config h core) (he : e ∈ h) :
    ∃ old, CoreRun E config old e.before ∧ CoreRun E config (e :: old) e.after ∧
      Det (coreStep E) e.before e.label e.after := by
  obtain ⟨new, old, rfl⟩ := List.append_of_mem he
  obtain ⟨⟨core₀, hi, hold⟩, hs, _⟩ := hr.at_event
  exact ⟨old, ⟨core₀, hi, hold⟩, ⟨core₀, hi, hold.snoc hs⟩, hs⟩

theorem CoreRun.of_calls {E : Env} {config : Option CoreConfig} {core₀ : Core}
    (hi : robotChassisCoreInit config = some core₀) (calls : List CoreCall) :
    CoreRun E config (history (coreStep E) core₀ calls) (calls.foldl (coreStep E) core₀) :=
  ⟨core₀, hi, path_history (coreStep E) core₀ calls⟩

theorem CoreRun.snoc {E : Env} {config : Option CoreConfig} {h : List (Event Core CoreCall)}
    {core : Core} (hr : CoreRun E config h core) (c : CoreCall) :
    CoreRun E config (⟨core, c, coreStep E core c⟩ :: h) (coreStep E core c) := by
  obtain ⟨core₀, hi, hp⟩ := hr
  exact ⟨core₀, hi, hp.snoc rfl⟩

/-- The configuration of the unit test of the core. -/
def testConfig (stallSteps : UInt16) : CoreConfig where
  kp := .finite 5
  kiPerStep := .finite (1 / 4)
  integralLimit := .finite 40
  maxOutput := 20
  maxTargetCounts := 3
  commandTimeoutMs := 500
  stallSteps := stallSteps

theorem testConfig_init (stallSteps : UInt16) (hs : 0 < stallSteps) :
    robotChassisCoreInit (some (testConfig stallSteps)) =
      some (initialCore (testConfig stallSteps)) := by
  have hv : configValid (some (testConfig stallSteps)) = true := by
    simp [configValid, testConfig, hs]
  rw [robotChassisCoreInit, if_pos hv]
  rfl

def stallCalls : List CoreCall :=
  [⟨.acceptZero, 10⟩, ⟨.arm, 20⟩, ⟨.submit (some fun i => if i.val < 2 then 2 else 0), 30⟩,
    ⟨.step (some fun i => if i.val = 0 then 1 else 0), 40⟩]

/-- What holds between any two calls. -/
structure Core.Inv (core : Core) : Prop where
  idle : core.state ≠ .armed → core.ControlZero
  latched : core.state = .faultLatched →
    core.stopReason = .invalidTarget ∨ core.stopReason = .encoderStall
  disarmed : core.state = .disarmed →
    core.stopReason = .startup ∨ core.stopReason = .explicit ∨ core.stopReason = .timeout
  armed : core.state = .armed → core.stopReason = .none ∨ core.stopReason = .explicit
  held : core.state = .armed → core.stopReason = .explicit → core.ControlZero
  confirmed : core.state = .armed → core.zeroSeen = true

theorem Core.Inv.of_disarmed {core : Core} (hs : core.state = .disarmed)
    (hz : core.ControlZero) (hr : core.stopReason = .startup ∨ core.stopReason = .explicit ∨
      core.stopReason = .timeout) : core.Inv := by
  refine ⟨fun _ => hz, ?_, fun _ => hr, ?_, ?_, ?_⟩ <;> intro h <;> rw [hs] at h <;> cases h

theorem Core.Inv.of_latched {core : Core} (hs : core.state = .faultLatched)
    (hz : core.ControlZero) (hr : core.stopReason = .invalidTarget ∨
      core.stopReason = .encoderStall) : core.Inv := by
  refine ⟨fun _ => hz, fun _ => hr, ?_, ?_, ?_, ?_⟩ <;> intro h <;> rw [hs] at h <;> cases h

theorem Core.Inv.of_armed {core : Core} (hs : core.state = .armed)
    (hr : core.stopReason = .none ∨ core.stopReason = .explicit)
    (hz : core.stopReason = .explicit → core.ControlZero) (hc : core.zeroSeen = true) :
    core.Inv := by
  refine ⟨fun h => absurd hs h, ?_, ?_, fun _ => hr, fun _ => hz, fun _ => hc⟩ <;>
    intro h <;> rw [hs] at h <;> cases h

theorem initialCore_inv (config : CoreConfig) : (initialCore config).Inv :=
  .of_disarmed rfl ⟨rfl, rfl, rfl, rfl⟩ (.inl rfl)

theorem stop_inv (core : Core) (cause : StopCause) :
    (robotChassisCoreStop core cause.reason).Inv := by
  have hz := stop_controlZero core cause.reason
  cases cause with
  | explicit => exact .of_disarmed rfl hz (.inr (.inl rfl))
  | timeout => exact .of_disarmed rfl hz (.inr (.inr rfl))
  | invalidTarget => exact .of_latched rfl hz (.inl rfl)
  | encoderStall => exact .of_latched rfl hz (.inr rfl)

/-- A wheel without a target is driven to zero, so zero arrays stay zero. -/
theorem drive_controlZero (E : Env) {core : Core} (delta : Wheels Int32)
    (hz : core.ControlZero) : (core.drive E delta).ControlZero := by
  have ht : ∀ i, core.targetCounts i = 0 := fun i => congrFun hz.targetCounts i
  refine ⟨hz.targetCounts, ?_, ?_, ?_⟩ <;> funext i
  · simp [Core.drive, Core.nextOutput, ht]
  · simp [Core.drive, Core.nextIntegral, ht]
  · simp [Core.drive, Core.nextStall, ht]

theorem Outcome.inv {E : Env} {core core' : Core} {c : CoreCall} {r : Option Bool}
    (ho : Outcome E core c r core') (hinv : core.Inv) : core'.Inv := by
  cases ho with
  | gains hd _ => exact .of_disarmed hd ⟨rfl, rfl, rfl, rfl⟩ (.inr (.inl rfl))
  | zeroLatched hf => exact .of_latched hf ⟨rfl, rfl, rfl, rfl⟩ (hinv.latched hf)
  | zero _ => exact .of_disarmed rfl ⟨rfl, rfl, rfl, rfl⟩ (.inr (.inl rfl))
  | arm _ hz => exact .of_armed rfl (.inl rfl) (fun h => absurd h (by simp)) hz
  | submit ha _ _ =>
    exact .of_armed ha (.inl rfl) (fun h => absurd h (by simp)) (hinv.confirmed ha)
  | submitZero ha _ _ =>
    exact .of_armed ha (.inr rfl) (fun _ => ⟨rfl, rfl, rfl, rfl⟩) (hinv.confirmed ha)
  | submitInvalid _ _ => exact stop_inv core .invalidTarget
  | stop => exact stop_inv core _
  | clear _ _ => exact .of_disarmed rfl ⟨rfl, rfl, rfl, rfl⟩ (.inr (.inl rfl))
  | stepIdle ha =>
    have hz := hinv.idle ha
    exact ⟨fun _ => ⟨hz.targetCounts, rfl, hz.integral, hz.stallCount⟩, hinv.latched,
      hinv.disarmed, hinv.armed, fun h => absurd h ha, fun h => absurd h ha⟩
  | stepTimeout _ _ => exact stop_inv core .timeout
  | stepStall _ _ _ => exact stop_inv core .encoderStall
  | stepDrive ha _ _ =>
    exact .of_armed ha (hinv.armed ha) (fun h => drive_controlZero E _ (hinv.held ha h))
      (hinv.confirmed ha)
  | gainsRefused _ => exact hinv
  | armRefused _ => exact hinv
  | submitRefused _ => exact hinv
  | clearRefused _ => exact hinv
  | stepNull => exact hinv

theorem CoreRun.inv {E : Env} {config : Option CoreConfig} {h : List (Event Core CoreCall)}
    {core : Core} (hr : CoreRun E config h core) : core.Inv :=
  hr.invariant (fun c _ => initialCore_inv c) fun _ _ _ hinv hs => (outcome_of_det hs).inv hinv

/-- The state and the reason determine which arrays are zero and whether zero was seen. -/
theorem reachable_representation {E : Env} {config : Option CoreConfig}
    {h : List (Event Core CoreCall)} {core : Core} (hr : CoreRun E config h core) :
    (core.state ≠ .armed → ∀ i, core.targetCounts i = 0 ∧ core.output i = 0 ∧
      core.integral i = .finite 0 ∧ core.stallCount i = 0) ∧
    (core.state = .faultLatched →
      core.stopReason = .invalidTarget ∨ core.stopReason = .encoderStall) ∧
    (core.state = .disarmed → core.stopReason = .startup ∨ core.stopReason = .explicit ∨
      core.stopReason = .timeout) ∧
    (core.state = .armed → core.stopReason = .none ∨ core.stopReason = .explicit) ∧
    (core.state = .armed → core.stopReason = .explicit → ∀ i, core.targetCounts i = 0 ∧
      core.output i = 0 ∧ core.integral i = .finite 0 ∧ core.stallCount i = 0) ∧
    (core.state = .armed → core.zeroSeen = true) := by
  have hinv := hr.inv
  refine ⟨?_, hinv.latched, hinv.disarmed, hinv.armed, ?_, hinv.confirmed⟩
  · intro ha i
    exact (hinv.idle ha).at_wheel i
  · intro ha he i
    exact (hinv.held ha he).at_wheel i

/-- The invariant where a stall ends a run in the middle of the wheel loop. -/
theorem reachable_representation_stall :
    CoreRun .rational (some (testConfig 1))
      (history (coreStep .rational) (initialCore (testConfig 1)) stallCalls)
      (stallCalls.foldl (coreStep .rational) (initialCore (testConfig 1))) ∧
    ((stallCalls.foldl (coreStep .rational) (initialCore (testConfig 1))).state =
        .faultLatched) ∧
    ((stallCalls.foldl (coreStep .rational) (initialCore (testConfig 1))).stopReason =
        .invalidTarget ∨
      (stallCalls.foldl (coreStep .rational) (initialCore (testConfig 1))).stopReason =
        .encoderStall) := by
  have hr := CoreRun.of_calls (E := .rational) (testConfig_init 1 (by decide)) stallCalls
  have hs : (stallCalls.foldl (coreStep .rational) (initialCore (testConfig 1))).state =
      .faultLatched := by decide
  exact ⟨hr, hs, (reachable_representation hr).2.1 hs⟩

end RobotFirmware.Chassis
