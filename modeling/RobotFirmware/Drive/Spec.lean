import RobotFirmware.Drive.Task

/-! What the drive dry run is for: every snapshot shows the latest event, judged by its age. The
latching variables of the task only repeat that judgement. -/
namespace RobotFirmware.Drive
open Fp

/-- What an event calls for. -/
inductive Verdict
  | running (output : CoreOutput)
  | stopped (reason : StopReason)

def computed (E : Env) (o : Options) (event : DriveEvent) : CoreStatus × CoreOutput :=
  robotDriveCoreComputeTargets E (some (o.config E)) (some event.input)

def faultReason (status : CoreStatus) : StopReason :=
  if status = .invalidCommand then .invalidCommand else .coreError

/-- The event a task consumed at one time, judged at a later one. -/
def verdict (E : Env) (o : Options) (event : Option DriveEvent) (consumedUs nowUs : ℤ) :
    Verdict :=
  match event with
  | none => .stopped .startup
  | some event =>
    match event.type with
    | .stop => .stopped event.stopReason
    | .command =>
      let computed := computed E o event
      if ¬ (event.input.linearXMps.isFinite = true ∧ event.input.angularZRadps.isFinite = true) then
        .stopped .invalidCommand
      else if computed.1 = .ok ∧ nowUs - event.receivedAtUs ≤ o.timeoutUs then
        .running computed.2
      else if computed.1 ≠ .ok ∧ consumedUs - event.receivedAtUs ≤ o.timeoutUs then
        .stopped (faultReason computed.1)
      else .stopped .commandTimeout

/-- The snapshot that shows a verdict; before the first event it has time and sequence zero. -/
def Verdict.snapshot (event : Option DriveEvent) (nowUs : ℤ) : Verdict → Snapshot
  | .running output => runningSnapshot (event.getD .zero) output nowUs
  | .stopped reason => makeStoppedSnapshot reason nowUs (event.getD .zero).receivedAtUs
      (event.getD .zero).sequence

def specSnapshot (E : Env) (o : Options) (event : Option DriveEvent) (consumedUs nowUs : ℤ) :
    Snapshot :=
  (verdict E o event consumedUs nowUs).snapshot event nowUs

theorem specSnapshot_stopped {E : Env} {o : Options} {event : Option DriveEvent}
    {consumedUs nowUs : ℤ} (hs : (specSnapshot E o event consumedUs nowUs).stopped = true) :
    (∀ wheel, (specSnapshot E o event consumedUs nowUs).targetMps wheel = .finite 0) ∧
      ((specSnapshot E o event consumedUs nowUs).inputFault = true ↔
        (specSnapshot E o event consumedUs nowUs).stopReason = .invalidCommand ∨
          (specSnapshot E o event consumedUs nowUs).stopReason = .coreError) := by
  unfold specSnapshot at hs ⊢
  cases hv : verdict E o event consumedUs nowUs with
  | running output =>
    rw [hv] at hs
    cases hs
  | stopped reason =>
    refine ⟨fun wheel => rfl, ?_⟩
    simp [Verdict.snapshot, makeStoppedSnapshot, isInputFault]

/-- The event was built by a producer call, not later than the time. -/
structure DriveEvent.Genuine (event : DriveEvent) (clockUs : ℤ) : Prop where
  valid : event.type = .command → (event.valid = true ↔
    event.input.linearXMps.isFinite = true ∧ event.input.angularZRadps.isFinite = true)
  received : event.receivedAtUs ≤ clockUs

theorem DriveEvent.Genuine.mono {event : DriveEvent} {t u : ℤ} (hg : event.Genuine t)
    (htu : t ≤ u) : event.Genuine u :=
  ⟨hg.valid, hg.received.trans htu⟩

theorem ProducerCall.event_genuine (call : ProducerCall) (clockUs : ℤ) (sequence : UInt32) :
    (call.event clockUs sequence).Genuine clockUs := by
  cases call with
  | submitCmdVel linearXMps angularZRadps =>
    exact ⟨fun _ => by simp [ProducerCall.event], le_rfl⟩
  | requestStop reason =>
    refine ⟨?_, le_rfl⟩
    intro h
    cases h

def Sound (event : DriveEvent) : Prop :=
  event.type = .command ∧
    event.input.linearXMps.isFinite = true ∧ event.input.angularZRadps.isFinite = true

section
variable {E : Env} {o : Options} {event : DriveEvent} {consumedUs nowUs : ℤ}

theorem verdict_unsound (hs : ¬ Sound event) : verdict E o (some event) consumedUs nowUs =
    .stopped (if event.type = .stop then event.stopReason else .invalidCommand) := by
  unfold verdict
  dsimp only
  cases ht : event.type with
  | stop => rfl
  | command =>
    have hf := fun h => hs ⟨ht, h⟩
    dsimp only
    rw [if_pos hf]
    rfl

theorem verdict_ok (hs : Sound event) (hok : (computed E o event).1 = .ok) :
    verdict E o (some event) consumedUs nowUs =
      if nowUs - event.receivedAtUs ≤ o.timeoutUs then .running (computed E o event).2
      else .stopped .commandTimeout := by
  obtain ⟨ht, hf⟩ := hs
  unfold verdict
  simp only [ht, hf, hok, and_self, not_true_eq_false, if_false, true_and, ne_eq, false_and]

theorem verdict_failed (hs : Sound event) (hok : (computed E o event).1 ≠ .ok) :
    verdict E o (some event) consumedUs nowUs = .stopped
      (if consumedUs - event.receivedAtUs ≤ o.timeoutUs then faultReason (computed E o event).1
        else .commandTimeout) := by
  obtain ⟨ht, hf⟩ := hs
  unfold verdict
  simp only [ht, hf, hok, and_self, not_true_eq_false, if_false, true_and, ne_eq, false_and,
    not_false_eq_true]
  split_ifs <;> rfl

end

/-- Time alone does not end a stop. -/
theorem verdict_stopped_mono {E : Env} {o : Options} {event : Option DriveEvent}
    {consumedUs t u : ℤ} {reason : StopReason} (htu : t ≤ u)
    (hv : verdict E o event consumedUs t = .stopped reason) :
    verdict E o event consumedUs u = .stopped reason := by
  cases event with
  | none => exact hv
  | some event =>
    by_cases hc : Sound event
    · by_cases hok : (computed E o event).1 = .ok
      · rw [verdict_ok hc hok] at hv ⊢
        by_cases ht : t - event.receivedAtUs ≤ o.timeoutUs
        · rw [if_pos ht] at hv
          cases hv
        · have hu : ¬ u - event.receivedAtUs ≤ o.timeoutUs := by omega
          rw [if_neg ht] at hv
          rw [if_neg hu]
          exact hv
      · rw [verdict_failed hc hok] at hv ⊢
        exact hv
    · rw [verdict_unsound hc] at hv ⊢
      exact hv

theorem evaluate_halted {E : Env} {o : Options} {t : TaskState} {nowUs : ℤ}
    (hh : t.hasActiveCommand = false) : t.evaluate E o nowUs =
      (t, makeStoppedSnapshot t.stopReason nowUs t.active.receivedAtUs t.active.sequence) := by
  unfold TaskState.evaluate
  rw [hh]
  rfl

/-- Judging an active command that is not from the future. -/
theorem evaluate_active {E : Env} {o : Options} {t : TaskState} {nowUs : ℤ}
    (hh : t.hasActiveCommand = true) (hr : t.active.receivedAtUs ≤ nowUs) :
    t.evaluate E o nowUs =
      if nowUs - t.active.receivedAtUs ≤ o.timeoutUs then
        if (computed E o t.active).1 = .ok then
          (t, runningSnapshot t.active (computed E o t.active).2 nowUs)
        else t.halt (faultReason (computed E o t.active).1) nowUs
      else t.halt .commandTimeout nowUs := by
  have hneg : ¬ nowUs - t.active.receivedAtUs < 0 := by omega
  unfold TaskState.evaluate
  simp only [hh, hneg, Bool.not_true, Bool.false_eq_true, if_false, false_or]
  by_cases hto : nowUs - t.active.receivedAtUs ≤ o.timeoutUs
  · have hfresh : ¬ o.timeoutUs < nowUs - t.active.receivedAtUs := not_lt.mpr hto
    rw [if_pos hto, if_neg hfresh]
    by_cases hok : (computed E o t.active).1 = .ok
    · rw [if_pos hok]
      exact if_neg (not_not.mpr hok)
    · rw [if_neg hok]
      exact if_pos hok
  · have hstale : o.timeoutUs < nowUs - t.active.receivedAtUs := not_le.mp hto
    rw [if_neg hto, if_pos hstale]

/-- Only a sound command on which the core succeeds may run. -/
theorem running_sound {E : Env} {o : Options} {event : Option DriveEvent}
    {consumedUs nowUs : ℤ} {output : CoreOutput}
    (hv : verdict E o event consumedUs nowUs = .running output) :
    ∃ e, event = some e ∧ Sound e ∧ (computed E o e).1 = .ok := by
  cases event with
  | none => cases hv
  | some e =>
    by_cases hs : Sound e
    · by_cases hok : (computed E o e).1 = .ok
      · exact ⟨e, rfl, hs, hok⟩
      · rw [verdict_failed hs hok] at hv
        cases hv
    · rw [verdict_unsound hs] at hv
      cases hv

/-- The latching variables that repeat a verdict. -/
def Verdict.latch : Verdict → Bool × StopReason
  | .running _ => (true, .none)
  | .stopped reason => (false, reason)

/-- The task state carries a verdict on the event. -/
structure Carries (t : TaskState) (event : Option DriveEvent) (v : Verdict) : Prop where
  active : t.active = event.getD .zero
  latch : (t.hasActiveCommand, t.stopReason) = v.latch

theorem halt_carries {t : TaskState} {event : Option DriveEvent}
    (ha : t.active = event.getD .zero) (reason : StopReason) (nowUs : ℤ) :
    (t.halt reason nowUs).2 = (Verdict.stopped reason).snapshot event nowUs ∧
      Carries (t.halt reason nowUs).1 event (.stopped reason) := by
  unfold TaskState.halt
  rw [ha]
  exact ⟨rfl, rfl, rfl⟩

/-- An active command is judged as the specification says, at the time of its consumption or
after an earlier verdict that let it run. -/
theorem evaluate_sound {E : Env} {o : Options} {t : TaskState} {e : DriveEvent}
    {consumedUs nowUs : ℤ} (hs : Sound e) (hr : e.receivedAtUs ≤ nowUs) (ha : t.active = e)
    (hh : t.hasActiveCommand = true) (hl : t.stopReason = .none)
    (hc : consumedUs = nowUs ∨ (computed E o e).1 = .ok) :
    (t.evaluate E o nowUs).2 = specSnapshot E o (some e) consumedUs nowUs ∧
      Carries (t.evaluate E o nowUs).1 (some e) (verdict E o (some e) consumedUs nowUs) := by
  have hae : t.active = (some e).getD .zero := ha
  rw [← ha] at hr
  rw [evaluate_active hh hr, ha]
  unfold specSnapshot
  by_cases hok : (computed E o e).1 = .ok
  · rw [verdict_ok hs hok]
    by_cases hto : nowUs - e.receivedAtUs ≤ o.timeoutUs
    · rw [if_pos hto, if_pos hto, if_pos hok]
      refine ⟨rfl, hae, ?_⟩
      rw [hh, hl]
      rfl
    · rw [if_neg hto, if_neg hto]
      exact halt_carries hae .commandTimeout nowUs
  · have hnow : consumedUs = nowUs := hc.resolve_right hok
    rw [verdict_failed hs hok, hnow]
    by_cases hto : nowUs - e.receivedAtUs ≤ o.timeoutUs
    · rw [if_pos hto, if_pos hto, if_neg hok]
      exact halt_carries hae _ nowUs
    · rw [if_neg hto, if_neg hto]
      exact halt_carries hae .commandTimeout nowUs

theorem evaluate_stopped {E : Env} {o : Options} {t : TaskState} {event : Option DriveEvent}
    {reason : StopReason} {nowUs : ℤ} (hc : Carries t event (.stopped reason)) :
    (t.evaluate E o nowUs).2 = (Verdict.stopped reason).snapshot event nowUs ∧
      Carries (t.evaluate E o nowUs).1 event (.stopped reason) := by
  obtain ⟨hh, hl⟩ := Prod.mk.inj hc.latch
  rw [evaluate_halted hh]
  refine ⟨?_, hc⟩
  rw [hl, hc.active]
  rfl

theorem evaluate_fresh {E : Env} {o : Options} {event : Option DriveEvent} {nowUs : ℤ}
    (hg : ∀ e ∈ event, e.Genuine nowUs) :
    ((event.elim TaskState.initial TaskState.receive).evaluate E o nowUs).2 =
        specSnapshot E o event nowUs nowUs ∧
      Carries ((event.elim TaskState.initial TaskState.receive).evaluate E o nowUs).1 event
        (verdict E o event nowUs nowUs) := by
  cases event with
  | none => exact ⟨rfl, rfl, rfl⟩
  | some e =>
    have hge : e.Genuine nowUs := hg e rfl
    change ((TaskState.receive e).evaluate E o nowUs).2 = _ ∧ _
    by_cases hs : Sound e
    · have hv : e.type = .command ∧ e.valid = true := ⟨hs.1, (hge.valid hs.1).mpr hs.2⟩
      have ht : TaskState.receive e = ⟨e, true, .none⟩ := if_pos hv
      exact evaluate_sound hs hge.received (by rw [ht]) (by rw [ht]) (by rw [ht]) (.inl rfl)
    · have hv : ¬ (e.type = .command ∧ e.valid = true) :=
        fun h => hs ⟨h.1, (hge.valid h.1).mp h.2⟩
      have ht : TaskState.receive e =
        ⟨e, false, if e.type = .stop then e.stopReason else .invalidCommand⟩ := if_neg hv
      have hc : Carries (.receive e) (some e)
          (.stopped (if e.type = .stop then e.stopReason else .invalidCommand)) := by
        rw [ht]
        exact ⟨rfl, rfl⟩
      unfold specSnapshot
      rw [verdict_unsound hs]
      exact evaluate_stopped hc

theorem evaluate_again {E : Env} {o : Options} {event : Option DriveEvent} {t : TaskState}
    {consumedUs lastUs nowUs : ℤ} (hg : ∀ e ∈ event, e.Genuine nowUs) (hle : lastUs ≤ nowUs)
    (hc : Carries t event (verdict E o event consumedUs lastUs)) :
    (t.evaluate E o nowUs).2 = specSnapshot E o event consumedUs nowUs ∧
      Carries (t.evaluate E o nowUs).1 event (verdict E o event consumedUs nowUs) := by
  unfold specSnapshot
  cases hv : verdict E o event consumedUs lastUs with
  | stopped reason =>
    rw [hv] at hc
    rw [verdict_stopped_mono hle hv]
    exact evaluate_stopped hc
  | running output =>
    rw [hv] at hc
    obtain ⟨e, rfl, hs, hok⟩ := running_sound hv
    obtain ⟨hh, hl⟩ := Prod.mk.inj hc.latch
    exact evaluate_sound hs (hg e rfl).received hc.active hh hl (.inr hok)

end RobotFirmware.Drive
