import RobotFirmware.Library.Path
import RobotFirmware.Chassis.Core

/-! What one call into the core can do. Every property of runs is derived from the case
analysis of `outcome`, so nothing later unfolds the functions of the core. -/
namespace RobotFirmware.Chassis
open Fp Trace

structure Core.ControlZero (core : Core) : Prop where
  targetCounts : core.targetCounts = fun _ => 0
  output : core.output = fun _ => 0
  integral : core.integral = fun _ => .finite 0
  stallCount : core.stallCount = fun _ => 0

theorem Core.ControlZero.at_wheel {core : Core} (hz : core.ControlZero) (i : Wheel) :
    core.targetCounts i = 0 ∧ core.output i = 0 ∧ core.integral i = .finite 0 ∧
      core.stallCount i = 0 :=
  ⟨congrFun hz.targetCounts i, congrFun hz.output i, congrFun hz.integral i,
    congrFun hz.stallCount i⟩

theorem scanTargets_eq_none {m : Int32} {t : Wheels Int32} {l : List Wheel} {b : Bool} :
    scanTargets m t l b = none ↔ ∃ i ∈ l, m < (t i).abs := by
  induction l generalizing b with
  | nil => simp [scanTargets]
  | cons i l ih =>
    unfold scanTargets
    split_ifs with hi
    · simp [hi]
    · simp [ih, hi]

theorem scanTargets_eq_some {m : Int32} {t : Wheels Int32} {l : List Wheel} {b r : Bool}
    (hr : scanTargets m t l b = some r) : r = true ↔ b = true ∨ ∃ i ∈ l, t i ≠ 0 := by
  induction l generalizing b with
  | nil => simp_all [scanTargets]
  | cons i l ih =>
    unfold scanTargets at hr
    split_ifs at hr with hi
    rw [ih hr]
    simp [or_assoc]

def Core.Stalls (core : Core) (delta : Wheels Int32) (i : Wheel) : Prop :=
  core.targetCounts i ≠ 0 ∧
    core.config.stallSteps ≤ nextStallCount (core.stallCount i) (delta i)

def Core.nextStall (core : Core) (delta : Wheels Int32) (i : Wheel) : UInt16 :=
  if core.targetCounts i = 0 then 0 else nextStallCount (core.stallCount i) (delta i)

def Core.nextIntegral (E : Env) (core : Core) (delta : Wheels Int32) (i : Wheel) : Datum :=
  if core.targetCounts i = 0 then .finite 0
  else Chassis.nextIntegral E core.config (core.integral i)
    (controlError E (core.targetCounts i) (delta i))

def Core.nextOutput (E : Env) (core : Core) (delta : Wheels Int32) (i : Wheel) : Int32 :=
  if core.targetCounts i = 0 then 0
  else E.lroundf (nextCommand E core.config (core.nextIntegral E delta i)
    (controlError E (core.targetCounts i) (delta i)))

/-- The effect of a step that runs all four wheels. -/
def Core.drive (E : Env) (core : Core) (delta : Wheels Int32) : Core :=
  { core with
    integral := core.nextIntegral E delta
    output := core.nextOutput E delta
    stallCount := core.nextStall delta }

/-- The core after the loop has passed one wheel. -/
def Core.visit (E : Env) (core : Core) (delta : Wheels Int32) (i : Wheel) : Core :=
  { core with
    integral := Function.update core.integral i (core.nextIntegral E delta i)
    output := Function.update core.output i (core.nextOutput E delta i)
    stallCount := Function.update core.stallCount i (core.nextStall delta i) }

theorem stepWheels_cons_of_stall (E : Env) (delta : Wheels Int32) (i : Wheel) (l : List Wheel)
    (core : Core) (hs : core.Stalls delta i) :
    stepWheels E delta (i :: l) core = robotChassisCoreStop core .encoderStall := by
  unfold stepWheels
  rw [if_neg hs.1]
  dsimp only
  rw [if_pos hs.2]
  rfl

theorem stepWheels_cons (E : Env) (delta : Wheels Int32) (i : Wheel) (l : List Wheel)
    (core : Core) (hs : ¬ core.Stalls delta i) :
    stepWheels E delta (i :: l) core = stepWheels E delta l (core.visit E delta i) := by
  rw [stepWheels]
  unfold Core.visit Core.nextOutput Core.nextIntegral Core.nextStall
  by_cases ht : core.targetCounts i = 0
  · simp only [if_pos ht]
  · have hc : ¬ core.config.stallSteps ≤ nextStallCount (core.stallCount i) (delta i) :=
      fun h => hs ⟨ht, h⟩
    simp only [if_neg ht, if_neg hc]

/-- A visited wheel changes nothing that the other wheels depend on. -/
private theorem visit_of_ne (E : Env) (core : Core) (delta : Wheels Int32) {i j : Wheel}
    (hji : j ≠ i) :
    ((core.visit E delta i).Stalls delta j ↔ core.Stalls delta j) ∧
      (core.visit E delta i).nextIntegral E delta j = core.nextIntegral E delta j ∧
      (core.visit E delta i).nextOutput E delta j = core.nextOutput E delta j ∧
      (core.visit E delta i).nextStall delta j = core.nextStall delta j := by
  simp [Core.visit, Core.Stalls, Core.nextOutput, Core.nextIntegral, Core.nextStall,
    Function.update_of_ne hji]

/-- A stall of any wheel ends the loop in the fault, whichever wheel comes first: the stop
overwrites whatever the abandoned loop had already stored. -/
theorem stepWheels_of_stall (E : Env) (delta : Wheels Int32) (l : List Wheel) (core : Core)
    (hl : l.Nodup) (hs : ∃ i ∈ l, core.Stalls delta i) :
    stepWheels E delta l core = robotChassisCoreStop core .encoderStall := by
  induction l generalizing core with
  | nil => simp at hs
  | cons i l ih =>
    obtain ⟨hil, hl⟩ := List.nodup_cons.mp hl
    by_cases hi : core.Stalls delta i
    · exact stepWheels_cons_of_stall E delta i l core hi
    · obtain ⟨j, hj, hjs⟩ := hs
      have hjl : j ∈ l := (List.mem_cons.mp hj).resolve_left fun h => hi (h ▸ hjs)
      have hji : j ≠ i := fun h => hil (h ▸ hjl)
      rw [stepWheels_cons E delta i l core hi,
        ih _ hl ⟨j, hjl, (visit_of_ne E core delta hji).1.mpr hjs⟩]
      rfl

/-- Storing at one wheel and then at the wheels of a list is storing at all of them. -/
private theorem store_cons {α : Type} {i : Wheel} {l : List Wheel} (hil : i ∉ l)
    {new visited : Wheels α} (old : Wheels α) (hv : ∀ j, j ≠ i → visited j = new j) (j : Wheel) :
    (if j ∈ l then visited j else Function.update old i (new i) j) =
      if j ∈ i :: l then new j else old j := by
  by_cases hji : j = i
  · subst hji
    simp [hil]
  · rw [hv j hji]
    simp [hji]

/-- Without a stall the loop updates each wheel it visits from its own old values. -/
theorem stepWheels_of_not_stall (E : Env) (delta : Wheels Int32) (l : List Wheel) (core : Core)
    (hl : l.Nodup) (hs : ∀ i ∈ l, ¬ core.Stalls delta i) :
    stepWheels E delta l core = { core with
      integral := fun i => if i ∈ l then core.nextIntegral E delta i else core.integral i
      output := fun i => if i ∈ l then core.nextOutput E delta i else core.output i
      stallCount := fun i => if i ∈ l then core.nextStall delta i else core.stallCount i } := by
  induction l generalizing core with
  | nil => simp [stepWheels]
  | cons i l ih =>
    obtain ⟨hil, hl⟩ := List.nodup_cons.mp hl
    have hne : ∀ j ∈ l, j ≠ i := fun j hj hji => hil (hji ▸ hj)
    have hother := fun j (hji : j ≠ i) => visit_of_ne E core delta hji
    have hrest : ∀ j ∈ l, ¬ (core.visit E delta i).Stalls delta j := fun j hj h =>
      hs j (List.mem_cons_of_mem _ hj) ((hother j (hne j hj)).1.mp h)
    rw [stepWheels_cons E delta i l core (hs i List.mem_cons_self), ih _ hl hrest]
    have hintegral := store_cons hil core.integral fun j hji => (hother j hji).2.1
    have houtput := store_cons hil core.output fun j hji => (hother j hji).2.2.1
    have hstall := store_cons hil core.stallCount fun j hji => (hother j hji).2.2.2
    rw [← funext hintegral, ← funext houtput, ← funext hstall]
    rfl

/-- The last command is older than the timeout, in the 32-bit arithmetic of the core. -/
def Core.TimedOut (core : Core) (nowMs : UInt32) : Prop :=
  core.config.commandTimeoutMs < nowMs - core.lastCommandMs

def Core.Refuses (core : Core) (targets : Wheels Int32) : Prop :=
  ∃ i, core.config.maxTargetCounts < (targets i).abs

def GainsValid (kp kiPerStep : Datum) : Prop :=
  kp.isFinite ∧ Datum.lt kp (.finite 0) = false ∧
    kiPerStep.isFinite ∧ Datum.lt kiPerStep (.finite 0) = false

/-- The returned value and the core after a call, one constructor for each way a call can go. -/
inductive Outcome (E : Env) (core : Core) : CoreCall → Option Bool → Core → Prop
  | gains {kp ki : Datum} {t : ℕ} : core.state = .disarmed → GainsValid kp ki →
      Outcome E core ⟨.updateGains kp ki, t⟩ (some true) { zeroControl core with
        config := { core.config with kp := kp, kiPerStep := ki }
        zeroSeen := false
        stopReason := .explicit }
  | gainsRefused {kp ki : Datum} {t : ℕ} : ¬ (core.state = .disarmed ∧ GainsValid kp ki) →
      Outcome E core ⟨.updateGains kp ki, t⟩ (some false) core
  | zeroLatched {t : ℕ} : core.state = .faultLatched →
      Outcome E core ⟨.acceptZero, t⟩ none
        { zeroControl core with lastCommandMs := .ofNat t, zeroSeen := true }
  | zero {t : ℕ} : core.state ≠ .faultLatched →
      Outcome E core ⟨.acceptZero, t⟩ none { zeroControl core with
        lastCommandMs := .ofNat t
        zeroSeen := true
        state := .disarmed
        stopReason := .explicit }
  | arm {t : ℕ} : core.state = .disarmed → core.zeroSeen = true →
      Outcome E core ⟨.arm, t⟩ (some true) { zeroControl core with
        state := .armed, stopReason := .none, lastCommandMs := .ofNat t }
  | armRefused {t : ℕ} : ¬ (core.state = .disarmed ∧ core.zeroSeen = true) →
      Outcome E core ⟨.arm, t⟩ (some false) core
  | submit {targets : Wheels Int32} {t : ℕ} : core.state = .armed → ¬ core.Refuses targets →
      (∃ i, targets i ≠ 0) →
      Outcome E core ⟨.submit (some targets), t⟩ (some true) { core with
        targetCounts := targets, lastCommandMs := .ofNat t, stopReason := .none }
  | submitZero {targets : Wheels Int32} {t : ℕ} : core.state = .armed →
      ¬ core.Refuses targets → targets = (fun _ => 0) →
      Outcome E core ⟨.submit (some targets), t⟩ (some true) { zeroControl core with
        lastCommandMs := .ofNat t, stopReason := .explicit }
  | submitInvalid {targets : Wheels Int32} {t : ℕ} : core.state = .armed →
      core.Refuses targets →
      Outcome E core ⟨.submit (some targets), t⟩ (some false)
        (robotChassisCoreStop core .invalidTarget)
  | submitRefused {targets : Option (Wheels Int32)} {t : ℕ} :
      core.state ≠ .armed ∨ targets = none →
      Outcome E core ⟨.submit targets, t⟩ (some false) core
  | stop {cause : StopCause} {t : ℕ} :
      Outcome E core ⟨.stop cause, t⟩ none (robotChassisCoreStop core cause.reason)
  | clear {t : ℕ} : core.state = .faultLatched → core.zeroSeen = true →
      Outcome E core ⟨.clearFault, t⟩ (some true)
        { zeroControl core with state := .disarmed, stopReason := .explicit }
  | clearRefused {t : ℕ} : ¬ (core.state = .faultLatched ∧ core.zeroSeen = true) →
      Outcome E core ⟨.clearFault, t⟩ (some false) core
  | stepNull {t : ℕ} : Outcome E core ⟨.step none, t⟩ none core
  | stepIdle {delta : Wheels Int32} {t : ℕ} : core.state ≠ .armed →
      Outcome E core ⟨.step (some delta), t⟩ none { core with output := fun _ => 0 }
  | stepTimeout {delta : Wheels Int32} {t : ℕ} : core.state = .armed →
      core.TimedOut (.ofNat t) →
      Outcome E core ⟨.step (some delta), t⟩ none (robotChassisCoreStop core .timeout)
  | stepStall {delta : Wheels Int32} {t : ℕ} : core.state = .armed →
      ¬ core.TimedOut (.ofNat t) → (∃ i, core.Stalls delta i) →
      Outcome E core ⟨.step (some delta), t⟩ none (robotChassisCoreStop core .encoderStall)
  | stepDrive {delta : Wheels Int32} {t : ℕ} : core.state = .armed →
      ¬ core.TimedOut (.ofNat t) → (∀ i, ¬ core.Stalls delta i) →
      Outcome E core ⟨.step (some delta), t⟩ none (core.drive E delta)

private theorem submit_outcome (E : Env) (core : Core) (targets : Wheels Int32) (t : ℕ) :
    Outcome E core ⟨.submit (some targets), t⟩
      (some (robotChassisCoreSubmit core (some targets) (.ofNat t)).1)
      (robotChassisCoreSubmit core (some targets) (.ofNat t)).2 := by
  unfold robotChassisCoreSubmit
  dsimp only
  by_cases ha : core.state = .armed
  · have hnot : ¬ core.state ≠ .armed := not_not.mpr ha
    rw [if_neg hnot]
    cases hr : scanTargets core.config.maxTargetCounts targets (List.finRange 4) false with
    | none =>
      obtain ⟨i, _, hi⟩ := scanTargets_eq_none.mp hr
      exact .submitInvalid ha ⟨i, hi⟩
    | some any =>
      have hok : ¬ core.Refuses targets := by
        intro hex
        obtain ⟨i, hi⟩ := hex
        rw [scanTargets_eq_none.mpr ⟨i, List.mem_finRange i, hi⟩] at hr
        cases hr
      have hany := scanTargets_eq_some hr
      cases any with
      | true =>
        obtain ⟨i, _, hi⟩ := (hany.mp rfl).resolve_left (by simp)
        exact .submit ha hok ⟨i, hi⟩
      | false =>
        have hz : targets = fun _ => 0 := by
          funext i
          by_contra hi
          exact absurd (hany.mpr (.inr ⟨i, List.mem_finRange i, hi⟩)) (by simp)
        subst hz
        exact .submitZero ha hok rfl
  · rw [if_pos ha]
    exact .submitRefused (.inl ha)

/-- A submit call is ignored, faults on what the check fails on, or takes over the targets. -/
theorem submit_cases (core : Core) (targets : Wheels Int32) (nowMs : UInt32) :
    (core.state ≠ .armed ∧ robotChassisCoreSubmit core (some targets) nowMs = (false, core)) ∨
    (core.state = .armed ∧ core.Refuses targets ∧
      robotChassisCoreSubmit core (some targets) nowMs =
        (false, robotChassisCoreStop core .invalidTarget)) ∨
    (core.state = .armed ∧ ¬ core.Refuses targets ∧
      (robotChassisCoreSubmit core (some targets) nowMs).1 = true ∧
      (robotChassisCoreSubmit core (some targets) nowMs).2.targetCounts = targets) := by
  have ho := submit_outcome .rational core targets nowMs.toNat
  rw [UInt32.ofNat_toNat] at ho
  generalize robotChassisCoreSubmit core (some targets) nowMs = r at ho ⊢
  obtain ⟨ok, core'⟩ := r
  cases ho with
  | submit ha hr _ => exact .inr (.inr ⟨ha, hr, rfl, rfl⟩)
  | submitZero ha hr hz => exact .inr (.inr ⟨ha, hr, rfl, hz.symm⟩)
  | submitInvalid ha hr => exact .inr (.inl ⟨ha, hr, rfl⟩)
  | submitRefused hn =>
    rcases hn with hn | hn
    · exact .inl ⟨hn, rfl⟩
    · cases hn

private theorem step_outcome (E : Env) (core : Core) (delta : Wheels Int32) (t : ℕ) :
    Outcome E core ⟨.step (some delta), t⟩ none
      (robotChassisCoreStep E core (some delta) (.ofNat t)) := by
  unfold robotChassisCoreStep
  dsimp only
  by_cases ha : core.state = .armed
  · have hnot : ¬ core.state ≠ .armed := not_not.mpr ha
    rw [if_neg hnot]
    by_cases ht : core.config.commandTimeoutMs < UInt32.ofNat t - core.lastCommandMs
    · rw [if_pos ht]
      exact .stepTimeout ha ht
    · rw [if_neg ht]
      by_cases hs : ∃ i, core.Stalls delta i
      · obtain ⟨i, hi⟩ := hs
        have hstall : ∃ j ∈ List.finRange 4, core.Stalls delta j := ⟨i, List.mem_finRange i, hi⟩
        rw [stepWheels_of_stall E delta _ core (List.nodup_finRange 4) hstall]
        exact .stepStall ha ht ⟨i, hi⟩
      · have hnone : ∀ i, ¬ core.Stalls delta i := fun i hi => hs ⟨i, hi⟩
        rw [stepWheels_of_not_stall E delta _ core (List.nodup_finRange 4) fun i _ => hnone i]
        simp only [List.mem_finRange, if_true]
        exact .stepDrive ha ht hnone
  · rw [if_pos ha]
    exact .stepIdle ha

theorem outcome (E : Env) (core : Core) (c : CoreCall) :
    Outcome E core c (c.ret E core) (coreStep E core c) := by
  obtain ⟨call, t⟩ := c
  cases call with
  | updateGains kp ki =>
    change Outcome E core _ (some (robotChassisCoreUpdateGains core kp ki).1)
      (robotChassisCoreUpdateGains core kp ki).2
    unfold robotChassisCoreUpdateGains
    split_ifs with h
    · refine .gainsRefused ?_
      intro hok
      obtain ⟨hd, hk, hk', hi, hi'⟩ := hok
      simp_all
    · simp only [not_or, not_not, Bool.not_eq_false, Bool.not_eq_true] at h
      exact .gains h.1 ⟨h.2.1, h.2.2.1, h.2.2.2.1, h.2.2.2.2⟩
  | acceptZero =>
    change Outcome E core _ none (robotChassisCoreAcceptZero core (.ofNat t))
    unfold robotChassisCoreAcceptZero
    dsimp only
    split_ifs with h
    · exact .zero h
    · exact .zeroLatched (not_not.mp h)
  | arm =>
    change Outcome E core _ (some (robotChassisCoreArm core (.ofNat t)).1)
      (robotChassisCoreArm core (.ofNat t)).2
    unfold robotChassisCoreArm
    split_ifs with h
    · refine .armRefused ?_
      intro hok
      obtain ⟨hd, hz⟩ := hok
      simp_all
    · simp only [not_or, not_not, Bool.not_eq_false] at h
      exact .arm h.1 h.2
  | submit targets =>
    cases targets with
    | none => exact .submitRefused (.inr rfl)
    | some targets => exact submit_outcome E core targets t
  | stop cause => exact .stop
  | clearFault =>
    change Outcome E core _ (some (robotChassisCoreClearFault core).1)
      (robotChassisCoreClearFault core).2
    unfold robotChassisCoreClearFault
    split_ifs with h
    · refine .clearRefused ?_
      intro hok
      obtain ⟨hd, hz⟩ := hok
      simp_all
    · simp only [not_or, not_not, Bool.not_eq_false] at h
      exact .clear h.1 h.2
  | step delta =>
    cases delta with
    | none => exact .stepNull
    | some delta => exact step_outcome E core delta t

/-- The outcome of a step of a run, in the form that case analysis needs. -/
theorem outcome_of_det {E : Env} {core core' : Core} {c : CoreCall}
    (hs : Det (coreStep E) core c core') : Outcome E core c (c.ret E core) core' :=
  hs ▸ outcome E core c

theorem stop_controlZero (core : Core) (r : StopReason) :
    (robotChassisCoreStop core r).ControlZero := by
  unfold robotChassisCoreStop
  dsimp only
  split_ifs <;> exact ⟨rfl, rfl, rfl, rfl⟩

@[simp] theorem stop_stopReason (core : Core) (r : StopReason) :
    (robotChassisCoreStop core r).stopReason = r := by
  unfold robotChassisCoreStop
  dsimp only
  split_ifs <;> rfl

@[simp] theorem stop_config (core : Core) (r : StopReason) :
    (robotChassisCoreStop core r).config = core.config := by
  unfold robotChassisCoreStop
  dsimp only
  split_ifs <;> rfl

/-- A stop latches exactly on the two fault reasons and disarms on every other. -/
theorem stop_state (core : Core) (r : StopReason) :
    (robotChassisCoreStop core r).state =
      if r = .invalidTarget ∨ r = .encoderStall then .faultLatched else .disarmed := by
  unfold robotChassisCoreStop
  dsimp only
  split_ifs <;> rfl

/-- Only an explicit stop keeps the confirmation of the operator. -/
theorem stop_zeroSeen (core : Core) (r : StopReason) :
    (robotChassisCoreStop core r).zeroSeen =
      if r = .invalidTarget ∨ r = .encoderStall ∨ r = .timeout then false
      else core.zeroSeen := by
  unfold robotChassisCoreStop zeroControl
  dsimp only
  split_ifs <;> simp_all

theorem stop_ne_armed (core : Core) (r : StopReason) :
    (robotChassisCoreStop core r).state ≠ .armed := by
  rw [stop_state]
  split_ifs <;> simp

theorem acceptZero_ne_armed (core : Core) (nowMs : UInt32) :
    (robotChassisCoreAcceptZero core nowMs).state ≠ .armed := by
  unfold robotChassisCoreAcceptZero
  dsimp only
  split_ifs with h
  · simp
  · rw [not_not.mp h]
    simp

inductive Core.Change (E : Env) (core core' : Core) : Prop
  | zero : core'.ControlZero → Change E core core'
  | keep : core' = core → Change E core core'
  | submit (targets : Wheels Int32) (nowMs : UInt32) : core.state = .armed →
      ¬ core.Refuses targets → core' = { core with
        targetCounts := targets, lastCommandMs := nowMs, stopReason := .none } →
      Change E core core'
  | idle : core.state ≠ .armed → core' = { core with output := fun _ => 0 } →
      Change E core core'
  | drive (delta : Wheels Int32) : core.state = .armed → (∀ i, ¬ core.Stalls delta i) →
      core' = core.drive E delta → Change E core core'

theorem Outcome.change {E : Env} {core core' : Core} {c : CoreCall} {r : Option Bool}
    (ho : Outcome E core c r core') : core.Change E core' := by
  cases ho with
  | submit ha hr _ => exact .submit _ _ ha hr rfl
  | stepIdle ha => exact .idle ha rfl
  | stepDrive ha _ hn => exact .drive _ ha hn rfl
  | submitInvalid => exact .zero (stop_controlZero _ _)
  | stop => exact .zero (stop_controlZero _ _)
  | stepTimeout => exact .zero (stop_controlZero _ _)
  | stepStall => exact .zero (stop_controlZero _ _)
  | gainsRefused => exact .keep rfl
  | armRefused => exact .keep rfl
  | submitRefused => exact .keep rfl
  | clearRefused => exact .keep rfl
  | stepNull => exact .keep rfl
  | _ => exact .zero ⟨rfl, rfl, rfl, rfl⟩

/-- Targets are kept, cleared, or taken over from an accepted submit. -/
theorem Outcome.targetCounts {E : Env} {core core' : Core} {c : CoreCall} {r : Option Bool}
    (ho : Outcome E core c r core') : core'.targetCounts = core.targetCounts ∨
      core'.targetCounts = (fun _ => 0) ∨
      ∃ targets, c.call = .submit (some targets) ∧ r = some true ∧ core.state = .armed ∧
        ¬ core.Refuses targets ∧ core'.targetCounts = targets := by
  cases ho with
  | @submit targets t ha hr _ => exact .inr (.inr ⟨targets, rfl, rfl, ha, hr, rfl⟩)
  | stepIdle => exact .inl rfl
  | stepDrive => exact .inl rfl
  | submitInvalid => exact .inr (.inl (stop_controlZero _ _).targetCounts)
  | stop => exact .inr (.inl (stop_controlZero _ _).targetCounts)
  | stepTimeout => exact .inr (.inl (stop_controlZero _ _).targetCounts)
  | stepStall => exact .inr (.inl (stop_controlZero _ _).targetCounts)
  | gainsRefused => exact .inl rfl
  | armRefused => exact .inl rfl
  | submitRefused => exact .inl rfl
  | clearRefused => exact .inl rfl
  | stepNull => exact .inl rfl
  | _ => exact .inr (.inl rfl)

theorem Outcome.config {E : Env} {core core' : Core} {c : CoreCall} {r : Option Bool}
    (ho : Outcome E core c r core') : core'.config = core.config ∨
      ∃ kp ki, c.call = .updateGains kp ki ∧ r = some true ∧ core.state = .disarmed ∧
        core'.state = .disarmed ∧ GainsValid kp ki ∧
        core'.config = { core.config with kp := kp, kiPerStep := ki } := by
  cases ho with
  | @gains kp ki _ hd hg => exact .inr ⟨kp, ki, rfl, rfl, hd, hd, hg, rfl⟩
  | submitInvalid => exact .inl (stop_config core _)
  | stop => exact .inl (stop_config core _)
  | stepTimeout => exact .inl (stop_config core _)
  | stepStall => exact .inl (stop_config core _)
  | _ => exact .inl rfl

end RobotFirmware.Chassis
