import RobotFirmware.Chassis.Control

/-! Arming over whole runs of the control task. The flag `zero_seen` records exactly whether the
operator has confirmed since the last event that revokes a confirmation. -/
namespace RobotFirmware.Chassis
open Fp Trace

def DropsZero (core : Core) (nowMs : UInt32) : Call → Prop
  | .updateGains kp ki => core.state = .disarmed ∧ GainsValid kp ki
  | .stop cause => cause ≠ .explicit
  | .submit targets => core.state = .armed ∧ ∃ t, targets = some t ∧ core.Refuses t
  | .step delta => core.state = .armed ∧
      ∃ d, delta = some d ∧ (core.TimedOut nowMs ∨ ∃ i, core.Stalls d i)
  | .acceptZero | .arm | .clearFault => False

theorem Outcome.zeroSeen_iff {E : Env} {core core' : Core} {c : CoreCall} {r : Option Bool}
    (ho : Outcome E core c r core') : core'.zeroSeen = true ↔
      c.call = .acceptZero ∨ (¬ DropsZero core c.nowMs c.call ∧ core.zeroSeen = true) := by
  cases ho with
  | gains hd hg => simp [DropsZero, hd, hg]
  | gainsRefused hn => simp [DropsZero, hn]
  | zeroLatched _ => simp
  | zero _ => simp
  | arm _ _ => simp [DropsZero, zeroControl]
  | armRefused _ => simp [DropsZero]
  | submit _ hr _ => simp [DropsZero, hr]
  | submitZero _ hr _ => simp [DropsZero, hr, zeroControl]
  | submitInvalid ha hr => simp [DropsZero, ha, hr, stop_zeroSeen]
  | submitRefused hn =>
    rcases hn with hn | hn
    · simp [DropsZero, hn]
    · simp [DropsZero, hn]
  | @stop cause _ => cases cause <;> simp [DropsZero, stop_zeroSeen, StopCause.reason]
  | clear _ _ => simp [DropsZero, zeroControl]
  | clearRefused _ => simp [DropsZero]
  | stepNull => simp [DropsZero]
  | stepIdle hn => simp [DropsZero, hn]
  | stepTimeout ha ht => simp [DropsZero, CoreCall.nowMs, ha, ht, stop_zeroSeen]
  | @stepStall _ _ ha _ hs =>
    have hs' : ∃ i, core.Stalls _ i := hs
    simp [DropsZero, ha, hs', stop_zeroSeen]
  | stepDrive ha ht hs => simp [DropsZero, CoreCall.nowMs, ht, hs, Core.drive]

/-- Only a successful arm of a confirmed core enters ARMED, and it leaves nothing to drive. -/
theorem Outcome.enters_armed {E : Env} {core core' : Core} {c : CoreCall} {r : Option Bool}
    (ho : Outcome E core c r core') (hb : core.state ≠ .armed) (ha : core'.state = .armed) :
    c.call = .arm ∧ core.zeroSeen = true ∧ core'.ControlZero := by
  cases ho with
  | arm _ hz => exact ⟨rfl, hz, rfl, rfl, rfl, rfl⟩
  | gains hd _ => exact absurd (hd.symm.trans ha) (by simp)
  | zeroLatched hf => exact absurd (hf.symm.trans ha) (by simp)
  | zero _ => exact absurd ha (by simp)
  | clear _ _ => exact absurd ha (by simp)
  | submitInvalid => exact absurd ha (stop_ne_armed _ _)
  | stop => exact absurd ha (stop_ne_armed _ _)
  | stepTimeout => exact absurd ha (stop_ne_armed _ _)
  | stepStall => exact absurd ha (stop_ne_armed _ _)
  | _ => exact absurd ha hb

theorem updateGains_fst {core : Core} {kp ki : Datum} :
    (robotChassisCoreUpdateGains core kp ki).1 = true ↔
      core.state = .disarmed ∧ GainsValid kp ki := by
  have ho : Outcome .rational core ⟨.updateGains kp ki, 0⟩
      (some (robotChassisCoreUpdateGains core kp ki).1)
      (robotChassisCoreUpdateGains core kp ki).2 :=
    outcome .rational core ⟨.updateGains kp ki, 0⟩
  generalize robotChassisCoreUpdateGains core kp ki = r at ho
  obtain ⟨ok, core'⟩ := r
  cases ho with
  | gains hd hg => simp [hd, hg]
  | gainsRefused hn => simp [hn]

def Confirms (E : Env) (x : Event Diag Action) : Prop :=
  match x.label with
  | .char ch _ => completedCommand E x.before ch = some .zero
  | .event event _ => event = .zero
  | .wake _ | .sample _ => False

/-- A line that revokes: a successful gain update, an invalid target or no command at all. -/
def lineRevokes (E : Env) (d : Diag) : Command → Prop
  | .gain kp ki => gainsWithinLimits E kp ki = true ∧
      (robotChassisCoreUpdateGains d.core kp ki).1 = true
  | .run wheel target => d.core.state = .armed ∧ d.core.Refuses (runTargets wheel target)
  | .invalid => True
  | .zero | .arm | .clear | .status | .bat | .odomZero | .imuPause _ => False

def eventRevokes (d : Diag) : RemoteEvent → Prop
  | .targets targets _ => d.core.state = .armed ∧ d.core.Refuses targets
  | .unknown => True
  | .zero | .arm | .stop => False

/-- A failed encoder read, or the timeout or stall of an armed core. -/
def sampleRevokes (d : Diag) (counts : Wheels (Option Int32)) : Prop :=
  (encoderRead d counts).1 = false ∨
    (d.core.state = .armed ∧
      (d.core.TimedOut d.nowMs ∨ ∃ i, d.core.Stalls (encoderRead d counts).2.2 i))

def Revokes (E : Env) (x : Event Diag Action) : Prop :=
  match x.label with
  | .char ch _ => Overflows x.before ch ∨
      ∃ command, completedCommand E x.before ch = some command ∧ lineRevokes E x.before command
  | .event event _ => eventRevokes x.before event
  | .sample counts => sampleRevokes x.before counts
  | .wake _ => False

def BatteryOk (E : Env) (d : Diag) (adc : AdcReading) : Prop :=
  ∃ sample v, readBattery E d adc = some sample ∧ sample.calibrated = true ∧
    sample.batteryV = .finite v ∧ 6 ≤ v ∧ v ≤ 12

def ArmsWithBattery (E : Env) (x : Event Diag Action) : Prop :=
  match x.label with
  | .char ch r => completedCommand E x.before ch = some .arm ∧ BatteryOk E x.before r.adc
  | .event event r => event = .arm ∧ BatteryOk E x.before r.adc
  | .wake _ | .sample _ => False

theorem batteryOk_of_status {E : Env} {d : Diag} {adc : AdcReading}
    (hb : printBatteryStatus E d adc = true) : BatteryOk E d adc := by
  unfold printBatteryStatus at hb
  cases hr : readBattery E d adc with
  | none =>
    rw [hr] at hb
    cases hb
  | some sample =>
    have h6 : literalF E 6 = .finite 6 := E.single.round_int 6 (by norm_num)
    have h12 : literalF E 12 = .finite 12 := E.single.round_int 12 (by norm_num)
    rw [hr] at hb
    simp only [Bool.and_eq_true, h6, h12] at hb
    obtain ⟨⟨hc, hlo⟩, hhi⟩ := hb
    obtain ⟨v, hv, hvl, hvh⟩ := Datum.finite_of_le hlo hhi
    exact ⟨sample, v, hr, hc, hv, hvl, hvh⟩

theorem confirms_iff {E : Env} {x : Event Diag Action} :
    Confirms E x ↔ coreCallOf E x.before x.label = some .acceptZero := by
  obtain ⟨d, a, d'⟩ := x
  cases a with
  | wake nowUs => simp [Confirms, coreCallOf]
  | char ch r =>
    simp only [Confirms, coreCallOf]
    cases hc : completedCommand E d ch with
    | none =>
      dsimp only
      split_ifs <;> simp
    | some command =>
      cases command <;> simp only [commandCall] <;> (try split_ifs) <;> simp
  | event event r => cases event <;> simp only [Confirms, coreCallOf, eventCall] <;>
      (try split_ifs) <;> simp
  | sample counts =>
    simp only [Confirms, coreCallOf]
    split_ifs <;> simp

/-- At the level of actions a confirmation is revoked exactly when the call revokes it. -/
theorem revokes_iff {E : Env} {x : Event Diag Action} :
    Revokes E x ↔ ∃ call, coreCallOf E x.before x.label = some call ∧
      DropsZero x.before.core x.before.nowMs call := by
  obtain ⟨d, a, d'⟩ := x
  cases a with
  | wake nowUs => simp [Revokes, coreCallOf]
  | char ch r =>
    simp only [Revokes, coreCallOf]
    cases hc : completedCommand E d ch with
    | none =>
      dsimp only
      by_cases ho : Overflows d ch <;> simp [ho, DropsZero]
    | some command =>
      have hno : ¬ Overflows d ch := by
        intro ho
        unfold completedCommand at hc
        have hline : ¬ ((ch = '\r' ∨ ch = '\n') ∧ 0 < d.uartLine.chars.length) :=
          fun h => ho.1 h.1
        rw [if_neg hline] at hc
        cases hc
      simp only [hno, false_or, Option.some.injEq, exists_eq_left']
      cases command with
      | gain kp ki =>
        simp only [lineRevokes, commandCall, updateGains_fst]
        by_cases hg : gainsWithinLimits E kp ki = true <;> simp [hg, DropsZero]
      | arm =>
        simp only [lineRevokes, commandCall]
        split_ifs <;> simp [DropsZero]
      | _ => simp [lineRevokes, commandCall, DropsZero]
  | event event r =>
    simp only [Revokes, coreCallOf]
    cases event with
    | arm =>
      simp only [eventRevokes, eventCall]
      split_ifs <;> simp [DropsZero]
    | _ => simp [eventRevokes, eventCall, DropsZero]
  | sample counts =>
    simp only [Revokes, coreCallOf, sampleRevokes]
    cases hr : (encoderRead d counts).1 with
    | false => simp [DropsZero]
    | true => simp [DropsZero]

theorem zeroSeen_step {E : Env} (x : Event Diag Action)
    (hd : Det (act E) x.before x.label x.after) : x.after.core.zeroSeen = true ↔
      Confirms E x ∨ (¬ Revokes E x ∧ x.before.core.zeroSeen = true) := by
  rw [confirms_iff, revokes_iff]
  rcases act_outcome hd with ⟨hc, hsame⟩ | ⟨call, r, hc, ho⟩
  · rw [hc, hsame]
    simp
  · rw [hc, ho.zeroSeen_iff, coreCall_nowMs]
    simp

theorem enters_armed_step {E : Env} {x : Event Diag Action}
    (hd : Det (act E) x.before x.label x.after) (hb : x.before.core.state ≠ .armed)
    (ha : x.after.core.state = .armed) : ArmsWithBattery E x ∧
      x.before.core.zeroSeen = true ∧ x.after.core.ControlZero := by
  rcases act_outcome hd with ⟨_, hsame⟩ | ⟨call, r, hc, ho⟩
  · rw [hsame] at ha
    exact absurd ha hb
  · obtain ⟨harm, hz, hzero⟩ := ho.enters_armed hb ha
    dsimp only at harm
    subst harm
    refine ⟨?_, hz, hzero⟩
    obtain ⟨d, a, d'⟩ := x
    dsimp only at hc
    -- the two entry points are the only actions that call arm
    rcases coreCallOf_eq_some hc with ⟨ch, r, command, rfl, hcmd, h⟩ | ⟨_, _, _, _, h⟩ |
      ⟨event, r, rfl, h⟩ | ⟨_, _, h⟩
    · obtain ⟨rfl, hbattery⟩ := commandCall_eq_arm h
      exact ⟨hcmd, batteryOk_of_status hbattery⟩
    · cases h
    · obtain ⟨rfl, hbattery⟩ := eventCall_eq_arm h
      exact ⟨rfl, batteryOk_of_status hbattery⟩
    · rcases h with ⟨_, h⟩ | h <;> cases h

/-- The actions of a run of iterations, newest first. The run ends in the state after the
iterations by `iterations_eq`. -/
def controlHistory (E : Env) (d₀ : Diag) (its : List Iteration) : List (Event Diag Action) :=
  history (act E) d₀ (its.flatMap Iteration.actions)

theorem path_controlHistory (E : Env) (d₀ : Diag) (its : List Iteration) :
    Path (Det (act E)) d₀ (controlHistory E d₀ its) (its.foldl (controlTaskIteration E) d₀) := by
  rw [iterations_eq]
  exact path_history (act E) d₀ (its.flatMap Iteration.actions)

theorem Started.core_eq {E : Env} {d : Diag} (hs : Started E d) :
    d.core = initialCore (firmwareConfig E) := by
  obtain ⟨c, hc, _, hcore⟩ := init_eq_some hs.core
  cases hc
  exact hcore

/-- `zero_seen` is the confirmation of the operator since the last event that revoked it. -/
theorem zeroSeen_iff_since {E : Env} {d₀ d : Diag} {h : List (Event Diag Action)}
    (hs : Started E d₀) (hp : Path (Det (act E)) d₀ h d) :
    d.core.zeroSeen = true ↔ Since (Confirms E) (Revokes E) h := by
  refine hp.flag_iff_since (fun s => s.core.zeroSeen = true) ?_ fun x hd => zeroSeen_step x hd
  rw [hs.core_eq]
  simp [initialCore]

/-- Every transition into ARMED is an arm request with a good battery after a confirmation
that nothing has revoked, and it leaves all targets and outputs zero. -/
theorem arming_gate {E : Env} {d₀ : Diag} (hs : Started E d₀) (its : List Iteration)
    {newer older : List (Event Diag Action)} {x : Event Diag Action}
    (hh : controlHistory E d₀ its = newer ++ x :: older)
    (hb : x.before.core.state ≠ .armed) (ha : x.after.core.state = .armed) :
    ArmsWithBattery E x ∧ Since (Confirms E) (Revokes E) older ∧
      ∀ i, x.after.core.targetCounts i = 0 ∧ x.after.core.output i = 0 := by
  have hp := path_controlHistory E d₀ its
  rw [hh] at hp
  obtain ⟨hold, hd, _⟩ := hp.at_event
  obtain ⟨harm, hz, hzero⟩ := enters_armed_step hd hb ha
  refine ⟨harm, (zeroSeen_iff_since hs hold).mp hz, ?_⟩
  intro i
  exact ⟨(hzero.at_wheel i).1, (hzero.at_wheel i).2.1⟩

def goodReadings : Readings := ⟨⟨some 2500, some 2000⟩, 0⟩

def armingIteration : Iteration :=
  ⟨1000000, [], [(.zero, goodReadings), (.arm, goodReadings)], fun _ => some 0⟩

theorem arming_gate_remote :
    ∃ newer x older, controlHistory .rational readyDiag [armingIteration] =
      newer ++ x :: older ∧ x.after.core.state = .armed ∧ ArmsWithBattery .rational x ∧
      Since (Confirms .rational) (Revokes .rational) older := by
  have hh : ∃ x older, controlHistory .rational readyDiag [armingIteration] =
      [_] ++ x :: older ∧ x.before.core.state ≠ .armed ∧ x.after.core.state = .armed :=
    ⟨_, _, rfl, by decide +kernel, by decide +kernel⟩
  obtain ⟨x, older, hh, hb, ha⟩ := hh
  obtain ⟨harm, hsince, _⟩ := arming_gate readyDiag_started [armingIteration] hh hb ha
  exact ⟨_, x, older, hh, ha, harm, hsince⟩

end RobotFirmware.Chassis
