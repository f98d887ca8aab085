import RobotFirmware.Chassis.Invariant

/-! The stall counters as functions of the history, and the exact step at which they latch. -/
namespace RobotFirmware.Chassis
open Fp Trace

def Call.sample : Call → Option (Wheels Int32)
  | .step delta => delta
  | _ => none

def Running (e : Event Core CoreCall) : Prop :=
  e.before.state = .armed ∧ ¬ e.before.TimedOut e.label.nowMs

def Blocked (i : Wheel) (e : Event Core CoreCall) : Prop :=
  (∃ delta ∈ e.label.call.sample, delta i = 0) ∧ Running e ∧ e.before.targetCounts i ≠ 0

def Released (i : Wheel) (e : Event Core CoreCall) : Prop :=
  (∃ delta ∈ e.label.call.sample, e.before.targetCounts i = 0 ∨ delta i ≠ 0) ∧ Running e

def Clears (E : Env) (e : Event Core CoreCall) : Prop :=
  match e.label.call with
  | .acceptZero | .stop _ => True
  | .arm | .clearFault | .updateGains _ _ => e.label.ret E e.before = some true
  | .submit targets => e.label.ret E e.before = some true ∧ targets = some fun _ => 0
  | .step _ => False

/-- A call that finds the core armed and does not leave it so, which covers the stops issued
inside `submit` and `step`. -/
def Stopped (e : Event Core CoreCall) : Prop :=
  e.before.state = .armed ∧ e.after.state ≠ .armed

def ResetsStall (E : Env) (i : Wheel) (e : Event Core CoreCall) : Prop :=
  Clears E e ∨ Stopped e ∨ Released i e

def Refreshes (E : Env) (e : Event Core CoreCall) : Prop :=
  ∃ targets, e.label.call = .submit (some targets) ∧ targets ≠ (fun _ => 0) ∧
    e.label.ret E e.before = some true

instance (core : Core) (nowMs : UInt32) : Decidable (core.TimedOut nowMs) :=
  inferInstanceAs (Decidable (_ < _))

instance : DecidablePred Running := fun _ => inferInstanceAs (Decidable (_ ∧ _))

instance (i : Wheel) : DecidablePred (Blocked i) :=
  fun _ => inferInstanceAs (Decidable (_ ∧ _ ∧ _))

instance (i : Wheel) : DecidablePred (Released i) :=
  fun _ => inferInstanceAs (Decidable (_ ∧ _))

instance (E : Env) : DecidablePred (Clears E)
  | ⟨_, ⟨.acceptZero, _⟩, _⟩ => isTrue trivial
  | ⟨_, ⟨.stop _, _⟩, _⟩ => isTrue trivial
  | ⟨_, ⟨.arm, _⟩, _⟩ => inferInstanceAs (Decidable (_ = _))
  | ⟨_, ⟨.clearFault, _⟩, _⟩ => inferInstanceAs (Decidable (_ = _))
  | ⟨_, ⟨.updateGains _ _, _⟩, _⟩ => inferInstanceAs (Decidable (_ = _))
  | ⟨_, ⟨.submit _, _⟩, _⟩ => inferInstanceAs (Decidable (_ ∧ _))
  | ⟨_, ⟨.step _, _⟩, _⟩ => isFalse id

instance : DecidablePred Stopped := fun _ => inferInstanceAs (Decidable (_ ∧ _))

instance (E : Env) (i : Wheel) : DecidablePred (ResetsStall E i) :=
  fun _ => inferInstanceAs (Decidable (_ ∨ _ ∨ _))

/-- The number of consecutive blocked steps of a wheel at the end of a history. -/
def blockedSteps (E : Env) (i : Wheel) (h : List (Event Core CoreCall)) : ℕ :=
  countSince (Blocked i) (ResetsStall E i) h

def Core.BelowStall (core : Core) : Prop := ∀ i, core.stallCount i < core.config.stallSteps

theorem Core.ControlZero.belowStall {core : Core} (hz : core.ControlZero)
    (hs : 0 < core.config.stallSteps) : core.BelowStall := by
  intro i
  rw [(hz.at_wheel i).2.2.2]
  exact hs

/-- Below the threshold the saturation guard is never what keeps a counter where it is. -/
theorem nextStallCount_toNat {core : Core} (hb : core.BelowStall) (i : Wheel) (delta : Int32) :
    (nextStallCount (core.stallCount i) delta).toNat =
      if delta = 0 then (core.stallCount i).toNat + 1 else 0 := by
  have hlt := UInt16.lt_iff_toNat_lt.mp (hb i)
  have hmax := core.config.stallSteps.toNat_lt
  have hguard : core.stallCount i < 65535 := by
    rw [UInt16.lt_iff_toNat_lt]
    change (core.stallCount i).toNat < 65535
    omega
  unfold nextStallCount
  split_ifs with hd
  · rw [UInt16.toNat_add, UInt16.toNat_one]
    omega
  · rfl

/-- A sample makes a wheel reach the threshold by its one more blocked step. -/
theorem stalls_iff {core : Core} (hb : core.BelowStall) (hs : 0 < core.config.stallSteps)
    (delta : Wheels Int32) (i : Wheel) : core.Stalls delta i ↔ core.targetCounts i ≠ 0 ∧
      delta i = 0 ∧ (core.stallCount i).toNat + 1 = core.config.stallSteps.toNat := by
  have hlt := UInt16.lt_iff_toNat_lt.mp (hb i)
  have hpos := UInt16.lt_iff_toNat_lt.mp hs
  unfold Core.Stalls
  rw [UInt16.le_iff_toNat_le, nextStallCount_toNat hb]
  rw [UInt16.toNat_zero] at hpos
  by_cases hd : delta i = 0
  · simp only [hd, if_true, true_and]
    constructor
    · intro hboth
      obtain ⟨ht, hle⟩ := hboth
      exact ⟨ht, by omega⟩
    · intro hboth
      obtain ⟨ht, heq⟩ := hboth
      exact ⟨ht, by omega⟩
  · simp only [hd, if_false, false_and, and_false, iff_false, not_and]
    intro _
    omega

theorem Outcome.stallSteps {E : Env} {core core' : Core} {c : CoreCall} {r : Option Bool}
    (ho : Outcome E core c r core') : core'.config.stallSteps = core.config.stallSteps := by
  rcases ho.config with hc | ⟨kp, ki, _, _, _, _, _, hc⟩ <;> rw [hc]

theorem drive_stallCount {E : Env} {core : Core} {delta : Wheels Int32} {t : ℕ}
    (ha : core.state = .armed) (hto : ¬ core.TimedOut (.ofNat t)) (hb : core.BelowStall)
    (i : Wheel) : ((core.drive E delta).stallCount i).toNat =
      if ResetsStall E i ⟨core, ⟨.step (some delta), t⟩, core.drive E delta⟩ then 0
      else if Blocked i ⟨core, ⟨.step (some delta), t⟩, core.drive E delta⟩ then
        (core.stallCount i).toNat + 1
      else (core.stallCount i).toNat := by
  have hrun : Running ⟨core, ⟨.step (some delta), t⟩, core.drive E delta⟩ := ⟨ha, hto⟩
  have hreset : ResetsStall E i ⟨core, ⟨.step (some delta), t⟩, core.drive E delta⟩ ↔
      core.targetCounts i = 0 ∨ delta i ≠ 0 := by
    constructor
    · intro hreset
      rcases hreset with hc | ⟨_, hn⟩ | ⟨⟨_, hd, hr⟩, _⟩
      · exact hc.elim
      · exact absurd ha hn
      · cases hd
        exact hr
    · intro hr
      exact .inr (.inr ⟨⟨delta, rfl, hr⟩, hrun⟩)
  change (core.nextStall delta i).toNat = _
  unfold Core.nextStall
  by_cases ht : core.targetCounts i = 0
  · rw [if_pos ht, if_pos (hreset.mpr (.inl ht))]
    rfl
  · rw [if_neg ht, nextStallCount_toNat hb]
    by_cases hd : delta i = 0
    · have hnot : ¬ ResetsStall E i ⟨core, ⟨.step (some delta), t⟩, core.drive E delta⟩ :=
        fun h => (hreset.mp h).elim ht fun h' => h' hd
      have hblocked : Blocked i ⟨core, ⟨.step (some delta), t⟩, core.drive E delta⟩ :=
        ⟨⟨delta, rfl, hd⟩, hrun, ht⟩
      rw [if_pos hd, if_neg hnot, if_pos hblocked]
    · rw [if_neg hd, if_pos (hreset.mpr (.inr hd))]

theorem Outcome.stallCount {E : Env} {core core' : Core} {c : CoreCall}
    (ho : Outcome E core c (c.ret E core) core') (hb : core.BelowStall)
    (i : Wheel) : (core'.stallCount i).toNat =
      if ResetsStall E i ⟨core, c, core'⟩ then 0
      else if Blocked i ⟨core, c, core'⟩ then (core.stallCount i).toNat + 1
      else (core.stallCount i).toNat := by
  -- two shapes cover all calls but the step that drives the wheels
  have hclear : ResetsStall E i ⟨core, c, core'⟩ → core'.ControlZero →
      (core'.stallCount i).toNat =
        if ResetsStall E i ⟨core, c, core'⟩ then 0
        else if Blocked i ⟨core, c, core'⟩ then (core.stallCount i).toNat + 1
        else (core.stallCount i).toNat := by
    intro hr hz
    rw [if_pos hr, (hz.at_wheel i).2.2.2]
    rfl
  have hkeep : ¬ ResetsStall E i ⟨core, c, core'⟩ → ¬ Blocked i ⟨core, c, core'⟩ →
      core'.stallCount i = core.stallCount i →
      (core'.stallCount i).toNat =
        if ResetsStall E i ⟨core, c, core'⟩ then 0
        else if Blocked i ⟨core, c, core'⟩ then (core.stallCount i).toNat + 1
        else (core.stallCount i).toNat := by
    intro hr hbl heq
    rw [if_neg hr, if_neg hbl, heq]
  generalize hret : c.ret E core = r at ho
  cases ho with
  | gains _ _ => exact hclear (.inl hret) ⟨rfl, rfl, rfl, rfl⟩
  | zeroLatched _ => exact hclear (.inl trivial) ⟨rfl, rfl, rfl, rfl⟩
  | zero _ => exact hclear (.inl trivial) ⟨rfl, rfl, rfl, rfl⟩
  | arm _ _ => exact hclear (.inl hret) ⟨rfl, rfl, rfl, rfl⟩
  | clear _ _ => exact hclear (.inl hret) ⟨rfl, rfl, rfl, rfl⟩
  | stop => exact hclear (.inl trivial) (stop_controlZero _ _)
  | submitZero _ _ ht =>
    exact hclear (.inl ⟨hret, by rw [ht]⟩) ⟨rfl, rfl, rfl, rfl⟩
  | submitInvalid ha _ =>
    exact hclear (.inr (.inl ⟨ha, stop_ne_armed _ _⟩)) (stop_controlZero _ _)
  | stepTimeout ha _ =>
    exact hclear (.inr (.inl ⟨ha, stop_ne_armed _ _⟩)) (stop_controlZero _ _)
  | stepStall ha _ _ =>
    exact hclear (.inr (.inl ⟨ha, stop_ne_armed _ _⟩)) (stop_controlZero _ _)
  | submit ha _ hne =>
    refine hkeep ?_ (by simp [Blocked, Call.sample]) rfl
    obtain ⟨j, hj⟩ := hne
    intro hreset
    rcases hreset with ⟨_, hz⟩ | ⟨_, hn⟩ | ⟨⟨_, hs, _⟩, _⟩
    · exact hj (congrFun (Option.some.inj hz) j)
    · exact hn ha
    · simp [Call.sample] at hs
  | gainsRefused _ =>
    refine hkeep ?_ (by simp [Blocked, Call.sample]) rfl
    simp [ResetsStall, Clears, Stopped, Released, Call.sample, hret]
  | armRefused _ =>
    refine hkeep ?_ (by simp [Blocked, Call.sample]) rfl
    simp [ResetsStall, Clears, Stopped, Released, Call.sample, hret]
  | submitRefused _ =>
    refine hkeep ?_ (by simp [Blocked, Call.sample]) rfl
    simp [ResetsStall, Clears, Stopped, Released, Call.sample, hret]
  | clearRefused _ =>
    refine hkeep ?_ (by simp [Blocked, Call.sample]) rfl
    simp [ResetsStall, Clears, Stopped, Released, Call.sample, hret]
  | stepNull =>
    refine hkeep ?_ (by simp [Blocked, Call.sample]) rfl
    simp [ResetsStall, Clears, Stopped, Released, Call.sample]
  | stepIdle ha =>
    refine hkeep ?_ (by simp [Blocked, Running, ha]) rfl
    simp [ResetsStall, Clears, Stopped, Released, Running, ha]
  | stepDrive ha hto _ => exact drive_stallCount ha hto hb i

theorem Outcome.belowStall {E : Env} {core core' : Core} {c : CoreCall} {r : Option Bool}
    (ho : Outcome E core c r core') (hs : 0 < core.config.stallSteps) (hb : core.BelowStall) :
    core'.BelowStall := by
  cases ho.change with
  | zero hz => exact hz.belowStall (by rw [ho.stallSteps]; exact hs)
  | keep he => exact he ▸ hb
  | submit _ _ _ _ he => exact he ▸ hb
  | idle _ he => exact he ▸ hb
  | drive delta _ hn he =>
    subst he
    intro i
    change core.nextStall delta i < core.config.stallSteps
    unfold Core.nextStall
    split_ifs with ht
    · exact hs
    · exact UInt16.not_le.mp fun hle => hn i ⟨ht, hle⟩

/-- What the induction over the history needs of the state before each call. -/
private def StallInv (core : Core) : Prop := 0 < core.config.stallSteps ∧ core.BelowStall

private theorem stallInv_step {E : Env} (s : Core) (c : CoreCall) (s' : Core)
    (hi : StallInv s) (hd : Det (coreStep E) s c s') : StallInv s' := by
  have ho := outcome_of_det hd
  refine ⟨?_, ho.belowStall hi.1 hi.2⟩
  rw [ho.stallSteps]
  exact hi.1

private theorem stallInv_initial {config : CoreConfig}
    (hv : configValid (some config) = true) : StallInv (initialCore config) :=
  ⟨(configValid_iff.mp hv).2.2.2.2.2.2, fun _ => (configValid_iff.mp hv).2.2.2.2.2.2⟩

private theorem CoreRun.stallInv {E : Env} {config : Option CoreConfig}
    {h : List (Event Core CoreCall)} {core : Core} (hr : CoreRun E config h core) :
    StallInv core :=
  hr.invariant (fun _ hv => stallInv_initial hv) stallInv_step

theorem CoreRun.stallCount_eq {E : Env} {config : Option CoreConfig}
    {h : List (Event Core CoreCall)} {core : Core} (hr : CoreRun E config h core) (i : Wheel) :
    (core.stallCount i).toNat = blockedSteps E i h := by
  obtain ⟨core₀, hi, hp⟩ := hr
  obtain ⟨c, _, hv, rfl⟩ := init_eq_some hi
  refine hp.counter_eq_countSince (fun s => (s.stallCount i).toNat) (Blocked i)
    (ResetsStall E i) stallInv_step (stallInv_initial hv) rfl ?_
  intro e he hd
  exact (outcome_of_det hd).stallCount he.2 i

/-- Neither refreshes nor blocked steps that stay armed clear the counter. -/
theorem not_resets_of_refreshes {E : Env} {i : Wheel} {e : Event Core CoreCall}
    (hd : Det (coreStep E) e.before e.label e.after) (hr : Refreshes E e) :
    ¬ ResetsStall E i e ∧ ¬ Blocked i e := by
  obtain ⟨before, ⟨call, t⟩, after⟩ := e
  obtain ⟨targets, hc, hne, hret⟩ := hr
  have ho := outcome_of_det hd
  dsimp only at hc hret ho
  subst hc
  rw [hret] at ho
  constructor
  · intro hreset
    rcases hreset with ⟨_, hz⟩ | ⟨ha, hn⟩ | ⟨⟨_, hs, _⟩, _⟩
    · exact hne (Option.some.inj hz)
    · cases ho with
      | submit _ _ _ => exact hn ha
      | submitZero _ _ hz => exact hne hz
    · simp [Call.sample] at hs
  · simp [Blocked, Call.sample]

theorem not_resets_of_blocked {E : Env} {i : Wheel} {e : Event Core CoreCall}
    (hb : Blocked i e) (ha : e.after.state = .armed) : ¬ ResetsStall E i e := by
  obtain ⟨before, ⟨call, t⟩, after⟩ := e
  obtain ⟨⟨delta, hs, hd⟩, hrun, ht⟩ := hb
  intro hreset
  rcases hreset with hc | ⟨_, hn⟩ | ⟨⟨delta', hs', hr⟩, _⟩
  · cases call <;> simp_all [Call.sample, Clears]
  · exact hn ha
  · dsimp only at hs hs'
    rw [hs] at hs'
    cases hs'
    exact hr.elim ht fun h => h hd

/-- A step latches the stall exactly when some wheel has been blocked often enough. -/
theorem CoreRun.latches_iff {E : Env} {config : Option CoreConfig}
    {h : List (Event Core CoreCall)} {core : Core} (hr : CoreRun E config h core)
    (delta : Wheels Int32) (t : ℕ) (ha : core.state = .armed)
    (ht : ¬ core.TimedOut (.ofNat t)) :
    ((coreStep E core ⟨.step (some delta), t⟩).state = .faultLatched ∧
      (coreStep E core ⟨.step (some delta), t⟩).stopReason = .encoderStall) ↔
    ∃ i, core.targetCounts i ≠ 0 ∧ delta i = 0 ∧
      blockedSteps E i h + 1 = core.config.stallSteps.toNat := by
  have hstalls : ∀ i, core.Stalls delta i ↔ core.targetCounts i ≠ 0 ∧ delta i = 0 ∧
      blockedSteps E i h + 1 = core.config.stallSteps.toNat := by
    intro i
    rw [stalls_iff hr.stallInv.2 hr.stallInv.1, hr.stallCount_eq]
  simp only [← hstalls]
  have ho := outcome E core ⟨.step (some delta), t⟩
  generalize coreStep E core ⟨.step (some delta), t⟩ = core' at ho ⊢
  cases ho with
  | stepIdle hn => exact absurd ha hn
  | stepTimeout _ hto => exact absurd hto ht
  | stepStall _ _ hs =>
    constructor
    · exact fun _ => hs
    · exact fun _ => ⟨stop_state _ _, stop_stopReason _ _⟩
  | stepDrive _ _ hs =>
    constructor
    · intro hboth
      obtain ⟨hf, _⟩ := hboth
      exact absurd (hf.symm.trans ha) (by decide)
    · intro hex
      obtain ⟨i, hi⟩ := hex
      exact absurd hi (hs i)

/-- Every counter is the number of consecutive blocked steps of its wheel and stays below the
threshold, the fault comes exactly when that number reaches it, and accepted commands between
the steps do not move the fault. -/
theorem reachable_stall_exact {E : Env} {config : Option CoreConfig}
    {h : List (Event Core CoreCall)} {core : Core} (hr : CoreRun E config h core) :
    (∀ i, (core.stallCount i).toNat = blockedSteps E i h) ∧
    (∀ i, core.stallCount i < core.config.stallSteps) ∧
    (∀ (delta : Wheels Int32) (t : ℕ), core.state = .armed → ¬ core.TimedOut (.ofNat t) →
      (((coreStep E core ⟨.step (some delta), t⟩).state = .faultLatched ∧
        (coreStep E core ⟨.step (some delta), t⟩).stopReason = .encoderStall) ↔
      ∃ i, core.targetCounts i ≠ 0 ∧ delta i = 0 ∧
        blockedSteps E i h + 1 = core.config.stallSteps.toNat)) ∧
    ∀ (i : Wheel) (new old : List (Event Core CoreCall)), h = new ++ old →
      (∀ e ∈ new, Refreshes E e ∨ (Blocked i e ∧ e.after.state = .armed)) →
      blockedSteps E i h = blockedSteps E i old + new.countP fun e => Blocked i e := by
  refine ⟨hr.stallCount_eq, hr.stallInv.2, ?_, ?_⟩
  · intro delta t ha ht
    exact hr.latches_iff delta t ha ht
  · intro i new old hh hnew
    subst hh
    apply countSince_append
    intro e he
    have hmem : e ∈ new ++ old := List.mem_append_left _ he
    obtain ⟨_, _, _, hd⟩ := hr.of_mem hmem
    rcases hnew e he with hf | ⟨hb, ha⟩
    · exact (not_resets_of_refreshes hd hf).1
    · exact not_resets_of_blocked hb ha

def refreshedCalls : List CoreCall :=
  [⟨.acceptZero, 10⟩, ⟨.arm, 20⟩, ⟨.submit (some fun i => if i.val = 0 then 2 else 0), 30⟩,
    ⟨.step (some fun _ => 0), 40⟩, ⟨.submit (some fun i => if i.val = 0 then 3 else 0), 45⟩,
    ⟨.step (some fun _ => 0), 50⟩]

def refreshedCore : Core :=
  refreshedCalls.foldl (coreStep .rational) (initialCore (testConfig 3))

def refreshedHistory : List (Event Core CoreCall) :=
  history (coreStep .rational) (initialCore (testConfig 3)) refreshedCalls

/-- The third blocked sample latches, refreshed or not. -/
theorem reachable_stall_exact_refreshed :
    (refreshedCore.stallCount 0).toNat = blockedSteps .rational 0 refreshedHistory ∧
    refreshedCore.stallCount 0 = 2 ∧
    (coreStep .rational refreshedCore ⟨.step (some fun _ => 0), 60⟩).state = .faultLatched ∧
    (coreStep .rational refreshedCore ⟨.step (some fun _ => 0), 60⟩).stopReason =
      .encoderStall := by
  have hr : CoreRun .rational (some (testConfig 3)) refreshedHistory refreshedCore :=
    .of_calls (testConfig_init 3 (by decide)) refreshedCalls
  obtain ⟨hcount, _, hlatch, _⟩ := reachable_stall_exact hr
  have hc : refreshedCore.stallCount 0 = 2 := by decide +kernel
  refine ⟨hcount 0, hc, (hlatch (fun _ => 0) 60 (by decide +kernel) (by decide +kernel)).mpr ?_⟩
  refine ⟨0, by decide +kernel, rfl, ?_⟩
  rw [← hcount 0, hc]
  decide +kernel

end RobotFirmware.Chassis
