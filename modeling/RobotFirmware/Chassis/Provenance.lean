import RobotFirmware.Library.Word
import RobotFirmware.Chassis.Envelope

/-! Where the motion of a core comes from: the latest accepted command, how old it is in true
time, and the wrapping clock that the age is computed with. -/
namespace RobotFirmware.Chassis
open Fp Trace

/-- The true time of the latest call, or of the initialisation. -/
def lastTime (t₀ : ℕ) : List (Event Core CoreCall) → ℕ
  | [] => t₀
  | e :: _ => e.label.time

/-- A step that is given its deltas; without them the call returns at once. -/
def Call.isStep : Call → Bool
  | .step delta => delta.isSome
  | _ => false

def lastStepTime (t₀ : ℕ) : List (Event Core CoreCall) → ℕ
  | [] => t₀
  | e :: h => if e.label.call.isStep then e.label.time else lastStepTime t₀ h

/-- True time never runs backwards, and less than a clock period minus the timeout passes
between initialisation and the first step and from one step to the next. -/
def Paced (timeout t₀ : ℕ) : List (Event Core CoreCall) → Prop
  | [] => True
  | e :: h => Paced timeout t₀ h ∧ lastTime t₀ h ≤ e.label.time ∧
      (e.label.call.isStep → e.label.time - lastStepTime t₀ h < 2 ^ 32 - timeout)

instance decidablePaced (timeout t₀ : ℕ) :
    (h : List (Event Core CoreCall)) → Decidable (Paced timeout t₀ h)
  | [] => isTrue trivial
  | _ :: h =>
    have := decidablePaced timeout t₀ h
    inferInstanceAs (Decidable (_ ∧ _ ∧ (_ → _)))

theorem lastStepTime_le_lastTime {timeout t₀ : ℕ} {h : List (Event Core CoreCall)}
    (hp : Paced timeout t₀ h) : lastStepTime t₀ h ≤ lastTime t₀ h := by
  induction h with
  | nil => exact le_rfl
  | cons e h ih =>
    obtain ⟨hp, hle, _⟩ := hp
    unfold lastStepTime lastTime
    split_ifs
    · exact le_rfl
    · exact (ih hp).trans hle

def Arms (E : Env) (e : Event Core CoreCall) : Prop :=
  e.label.call = .arm ∧ e.label.ret E e.before = some true

def Submits (E : Env) (targets : Wheels Int32) (e : Event Core CoreCall) : Prop :=
  e.label.call = .submit (some targets) ∧ e.label.ret E e.before = some true

def Commands (E : Env) (e : Event Core CoreCall) : Prop :=
  Arms E e ∨ ∃ targets, Submits E targets e

def commandTargets (e : Event Core CoreCall) : Wheels Int32 :=
  match e.label.call with
  | .submit (some targets) => targets
  | _ => fun _ => 0

/-- No command, no zero request, no stop, no fault, no timeout and no new gains. -/
structure Keeps (E : Env) (e : Event Core CoreCall) : Prop where
  noCommand : ¬ Commands E e
  noZero : e.label.call ≠ .acceptZero
  noStop : ∀ cause, e.label.call ≠ .stop cause
  noFault : e.after.state ≠ .faultLatched
  noTimeout : e.after.state ≠ .disarmed
  noGains : ∀ kp ki, e.label.call = .updateGains kp ki → e.label.ret E e.before ≠ some true

/-- How a call can leave the core armed: it commands, or it keeps what there is. -/
theorem armed_cases {E : Env} {core core' : Core} {c : CoreCall}
    (hd : Det (coreStep E) core c core') (ha : core'.state = .armed) :
    (Commands E ⟨core, c, core'⟩ ∧ core'.targetCounts = commandTargets ⟨core, c, core'⟩ ∧
      core'.lastCommandMs = c.nowMs ∧ c.call.isStep = false) ∨
    (core.state = .armed ∧ Keeps E ⟨core, c, core'⟩ ∧
      core'.targetCounts = core.targetCounts ∧ core'.lastCommandMs = core.lastCommandMs ∧
      (c.call.isStep → ¬ core.TimedOut c.nowMs)) := by
  have ho := outcome_of_det hd
  -- a refused call other than a step keeps everything
  have hrefused : core'.targetCounts = core.targetCounts →
      core'.lastCommandMs = core.lastCommandMs → core.state = .armed →
      c.ret E core ≠ some true → c.call ≠ .acceptZero → (∀ cause, c.call ≠ .stop cause) →
      (c.call.isStep → ¬ core.TimedOut c.nowMs) →
      (core.state = .armed ∧ Keeps E ⟨core, c, core'⟩ ∧
        core'.targetCounts = core.targetCounts ∧ core'.lastCommandMs = core.lastCommandMs ∧
        (c.call.isStep → ¬ core.TimedOut c.nowMs)) := by
    intro ht hl hb hr hz hs hto
    refine ⟨hb, ⟨?_, hz, hs, by simp [ha], by simp [ha], fun _ _ _ => hr⟩, ht, hl, hto⟩
    rintro (⟨_, hr'⟩ | ⟨_, _, hr'⟩) <;> exact hr hr'
  generalize hret : c.ret E core = r at ho hrefused
  cases ho with
  | arm _ _ => exact .inl ⟨.inl ⟨rfl, hret⟩, rfl, rfl, rfl⟩
  | @submit targets t _ _ _ => exact .inl ⟨.inr ⟨targets, rfl, hret⟩, rfl, rfl, rfl⟩
  | @submitZero targets t _ _ hz =>
    exact .inl ⟨.inr ⟨targets, rfl, hret⟩, hz.symm, rfl, rfl⟩
  | gainsRefused _ =>
    exact .inr (hrefused rfl rfl ha (by simp) (by simp) (by simp) (by simp [Call.isStep]))
  | armRefused _ =>
    exact .inr (hrefused rfl rfl ha (by simp) (by simp) (by simp) (by simp [Call.isStep]))
  | submitRefused _ =>
    exact .inr (hrefused rfl rfl ha (by simp) (by simp) (by simp) (by simp [Call.isStep]))
  | clearRefused _ =>
    exact .inr (hrefused rfl rfl ha (by simp) (by simp) (by simp) (by simp [Call.isStep]))
  | stepNull =>
    exact .inr (hrefused rfl rfl ha (by simp) (by simp) (by simp) (by simp [Call.isStep]))
  | stepDrive hb hto _ =>
    exact .inr (hrefused rfl rfl hb (by simp) (by simp) (by simp) fun _ => hto)
  | gains hdis _ => exact absurd (hdis.symm.trans ha) (by simp)
  | zeroLatched hf => exact absurd (hf.symm.trans ha) (by simp)
  | zero _ => exact absurd ha (by simp)
  | clear _ _ => exact absurd ha (by simp)
  | submitInvalid _ _ => exact absurd ha (stop_ne_armed _ _)
  | stop => exact absurd ha (stop_ne_armed _ _)
  | stepIdle hn => exact absurd ha hn
  | stepTimeout _ _ => exact absurd ha (stop_ne_armed _ _)
  | stepStall _ _ _ => exact absurd ha (stop_ne_armed _ _)

/-- The latest command of the history is what the core holds, and at the latest step it was
not older than the timeout. -/
structure CommandedBy (E : Env) (timeout t₀ : ℕ) (h new : List (Event Core CoreCall))
    (e : Event Core CoreCall) (old : List (Event Core CoreCall)) (core : Core) : Prop where
  split : h = new ++ e :: old
  command : Commands E e
  keeps : ∀ x ∈ new, Keeps E x
  targets : core.targetCounts = commandTargets e
  stamp : core.lastCommandMs = e.label.nowMs
  past : e.label.time ≤ lastTime t₀ h
  fresh : lastStepTime t₀ h - e.label.time ≤ timeout

/-- Between paced steps the 32-bit age of a command is its true age. -/
theorem age_toNat {timeout t₀ : ℕ} {h new old : List (Event Core CoreCall)}
    {e : Event Core CoreCall} {E : Env} {core : Core} {c : CoreCall} {core' : Core}
    (hc : CommandedBy E timeout t₀ h new e old core) (hto : timeout < 2 ^ 32)
    (hp : Paced timeout t₀ (⟨core, c, core'⟩ :: h)) (hs : c.call.isStep) :
    (c.nowMs - core.lastCommandMs).toNat = c.time - e.label.time := by
  obtain ⟨hph, hle, hgap⟩ := hp
  have hgap := hgap hs
  have hpast := hc.past
  have hfresh := hc.fresh
  dsimp only at hle hgap
  rw [hc.stamp]
  apply Word.elapsed_toNat <;> omega

/-- Between paced steps the core times out exactly when the true age exceeds the timeout. -/
theorem timedOut_iff {timeout : UInt32} {t₀ : ℕ} {h new old : List (Event Core CoreCall)}
    {e : Event Core CoreCall} {E : Env} {core : Core} {c : CoreCall} {core' : Core}
    (hc : CommandedBy E timeout.toNat t₀ h new e old core)
    (hconfig : core.config.commandTimeoutMs = timeout)
    (hp : Paced timeout.toNat t₀ (⟨core, c, core'⟩ :: h)) (hs : c.call.isStep) :
    core.TimedOut c.nowMs ↔ timeout.toNat < c.time - e.label.time := by
  have hlt : timeout.toNat < 2 ^ 32 := timeout.toNat_lt
  have hage := age_toNat hc hlt hp hs
  unfold Core.TimedOut
  rw [hconfig, UInt32.lt_iff_toNat_lt, hage]

/-- An armed core at the end of a paced run holds its latest command. -/
theorem exists_commandedBy {E : Env} {timeout : UInt32} {t₀ : ℕ} {core₀ core : Core}
    {h : List (Event Core CoreCall)} (hinit : core₀.state ≠ .armed)
    (hr : Path (Det (coreStep E)) core₀ h core)
    (hconfig : ∀ e ∈ h, e.before.config.commandTimeoutMs = timeout)
    (hp : Paced timeout.toNat t₀ h) (ha : core.state = .armed) :
    ∃ new e old, CommandedBy E timeout.toNat t₀ h new e old core := by
  induction hr with
  | refl => exact absurd ha hinit
  | @snoc h s s' c hr hd ih =>
    have hph := hp.1
    have hle := hp.2.1
    rcases armed_cases hd ha with ⟨hcmd, ht, hstamp, hns⟩ | ⟨hb, hk, ht, hstamp, hto⟩
    · refine ⟨[], _, h, rfl, hcmd, by simp, ht, hstamp, le_rfl, ?_⟩
      have hlast := lastStepTime_le_lastTime hph
      have hnot : ¬ c.call.isStep = true := by simp [hns]
      unfold lastStepTime
      rw [if_neg hnot]
      dsimp only at hle ⊢
      omega
    · obtain ⟨new, e, old, hc⟩ :=
        ih (fun x hx => hconfig x (List.mem_cons_of_mem _ hx)) hph hb
      refine ⟨⟨s, c, s'⟩ :: new, e, old, ?_, hc.command, ?_, ht.trans hc.targets,
        hstamp.trans hc.stamp, hc.past.trans hle, ?_⟩
      · rw [hc.split]
        rfl
      · intro x hx
        rcases List.mem_cons.mp hx with rfl | hx
        · exact hk
        · exact hc.keeps x hx
      · unfold lastStepTime
        split_ifs with hs
        · have hnot := hto hs
          rw [timedOut_iff hc (hconfig _ List.mem_cons_self) hp hs] at hnot
          exact not_lt.mp hnot
        · exact hc.fresh

theorem armed_of_submits {E : Env} {targets : Wheels Int32} {e : Event Core CoreCall}
    (hd : Det (coreStep E) e.before e.label e.after) (hs : Submits E targets e) :
    e.before.state = .armed := by
  obtain ⟨before, ⟨call, t⟩, after⟩ := e
  obtain ⟨hc, hret⟩ := hs
  have ho := outcome_of_det hd
  dsimp only at hc hret ho ⊢
  subst hc
  rw [hret] at ho
  cases ho with
  | submit ha _ _ => exact ha
  | submitZero ha _ _ => exact ha

theorem exists_arms {E : Env} {core₀ core : Core} {h : List (Event Core CoreCall)}
    (hinit : core₀.state ≠ .armed) (hr : Path (Det (coreStep E)) core₀ h core)
    (ha : core.state = .armed) : ∃ e ∈ h, Arms E e := by
  obtain ⟨new, e, old, rfl, hb, hf⟩ :=
    hr.exists_entry (P := fun s => s.state = .armed) hinit ha
  obtain ⟨_, hd, _⟩ := hr.at_event
  refine ⟨e, by simp, ?_⟩
  rcases armed_cases hd hf with ⟨hcmd, _⟩ | ⟨hb', _⟩
  · rcases hcmd with harm | ⟨targets, hsub⟩
    · exact harm
    · exact absurd (armed_of_submits hd hsub) hb
  · exact absurd hb' hb

/-- A step after which a wheel is driven ran all wheels of an armed core. -/
theorem step_output_ne_zero {E : Env} {core core' : Core} {delta : Wheels Int32} {t : ℕ}
    {i : Wheel} (hd : Det (coreStep E) core ⟨.step (some delta), t⟩ core')
    (ho : core'.output i ≠ 0) : core.state = .armed ∧ core'.state = .armed ∧
      ¬ core.TimedOut (.ofNat t) ∧ core'.targetCounts = core.targetCounts ∧
      core'.targetCounts i ≠ 0 := by
  have hout := outcome_of_det hd
  generalize CoreCall.ret E core ⟨.step (some delta), t⟩ = r at hout
  cases hout with
  | stepIdle _ => exact absurd rfl ho
  | stepTimeout _ _ => exact absurd ((stop_controlZero core .timeout).at_wheel i).2.1 ho
  | stepStall _ _ _ =>
    exact absurd ((stop_controlZero core .encoderStall).at_wheel i).2.1 ho
  | stepDrive ha hto _ =>
    refine ⟨ha, ha, hto, rfl, ?_⟩
    intro hz
    apply ho
    change core.nextOutput E delta i = 0
    unfold Core.nextOutput
    exact if_pos hz

theorem step_timedOut {E : Env} {core core' : Core} {delta : Wheels Int32} {t : ℕ}
    (hd : Det (coreStep E) core ⟨.step (some delta), t⟩ core') (ha : core.state = .armed)
    (hto : core.TimedOut (.ofNat t)) : core' = robotChassisCoreStop core .timeout := by
  have hout := outcome_of_det hd
  generalize CoreCall.ret E core ⟨.step (some delta), t⟩ = r at hout
  cases hout with
  | stepIdle hn => exact absurd ha hn
  | stepTimeout _ _ => rfl
  | stepStall _ hn _ => exact absurd hto hn
  | stepDrive _ hn _ => exact absurd hto hn

theorem latest_unique {α : Type} {P : α → Prop} {new new' old old' : List α} {e e' : α}
    (heq : new ++ e :: old = new' ++ e' :: old') (he : P e) (he' : P e')
    (hn : ∀ x ∈ new, ¬ P x) (hn' : ∀ x ∈ new', ¬ P x) : e = e' := by
  induction new generalizing new' with
  | nil =>
    cases new' with
    | nil => exact (List.cons.inj heq).1
    | cons y new' =>
      obtain ⟨rfl, _⟩ := List.cons.inj heq
      exact absurd he (hn' e List.mem_cons_self)
  | cons x new ih =>
    cases new' with
    | nil =>
      obtain ⟨rfl, _⟩ := List.cons.inj heq
      exact absurd he' (hn x List.mem_cons_self)
    | cons y new' =>
      exact ih (List.cons.inj heq).2 (fun z hz => hn z (List.mem_cons_of_mem _ hz))
        fun z hz => hn' z (List.mem_cons_of_mem _ hz)

/-- Over a paced run, a wheel that a step drives has the target of the latest accepted submit,
which is recent and which nothing has since revoked; and a step that finds the latest command
too old disarms the core. Both speak of true time. -/
theorem motion_provenance {E : Env} {config : CoreConfig} {t₀ T : ℕ}
    {h : List (Event Core CoreCall)} {core core' : Core} {delta : Wheels Int32}
    (hr : CoreRun E (some config) (⟨core, ⟨.step (some delta), T⟩, core'⟩ :: h) core')
    (hp : Paced config.commandTimeoutMs.toNat t₀
      (⟨core, ⟨.step (some delta), T⟩, core'⟩ :: h)) :
    (∀ i, core'.output i ≠ 0 →
      core'.state = .armed ∧ core'.targetCounts i ≠ 0 ∧
      ∃ new S old targets, h = new ++ S :: old ∧ Submits E targets S ∧
        core'.targetCounts i = targets i ∧ (∀ x ∈ new, Keeps E x) ∧ (∃ a ∈ old, Arms E a) ∧
        S.label.time ≤ T ∧ T - S.label.time ≤ config.commandTimeoutMs.toNat) ∧
    (core.state = .armed → ∀ new e old, h = new ++ e :: old → Commands E e →
      (∀ x ∈ new, ¬ Commands E x) → config.commandTimeoutMs.toNat < T - e.label.time →
      core'.state = .disarmed ∧ core'.stopReason = .timeout ∧ core'.zeroSeen = false ∧
        ∀ i, core'.targetCounts i = 0 ∧ core'.output i = 0 ∧
          core'.integral i = .finite 0 ∧ core'.stallCount i = 0) := by
  have hbefore : ∀ e ∈ (⟨core, ⟨.step (some delta), T⟩, core'⟩ : Event Core CoreCall) :: h,
      e.before.config.commandTimeoutMs = config.commandTimeoutMs := by
    intro e he
    obtain ⟨_, hre, _⟩ := hr.of_mem he
    rw [hre.sameButGains]
  have hconfig : core.config.commandTimeoutMs = config.commandTimeoutMs :=
    hbefore _ List.mem_cons_self
  obtain ⟨core₀, hi, hpath⟩ := hr
  obtain ⟨c, _, _, rfl⟩ := init_eq_some hi
  obtain ⟨hpre, hd, _⟩ := hpath.head
  have hinit : (initialCore c).state ≠ .armed := by simp [initialCore]
  have hcommanded : core.state = .armed → ∃ new e old,
      CommandedBy E config.commandTimeoutMs.toNat t₀ h new e old core :=
    exists_commandedBy hinit hpre (fun e he => hbefore e (List.mem_cons_of_mem _ he)) hp.1
  constructor
  · intro i ho
    obtain ⟨ha, ha', hnot, hkept, hne⟩ := step_output_ne_zero hd ho
    obtain ⟨new, e, old, hc⟩ := hcommanded ha
    have hle : e.label.time ≤ T := hc.past.trans hp.2.1
    have hfresh : T - e.label.time ≤ config.commandTimeoutMs.toNat := by
      have hiff := timedOut_iff hc hconfig hp rfl
      exact not_lt.mp fun h => hnot (hiff.mpr h)
    have htarget : core'.targetCounts i = commandTargets e i := by
      rw [hkept, hc.targets]
    -- an arm leaves no target, so the command is a submit
    rcases hc.command with harm | ⟨targets, hsub⟩
    · rw [htarget, commandTargets, harm.1] at hne
      exact absurd rfl hne
    · have hsplit := hc.split
      subst hsplit
      obtain ⟨hold, hdS, _⟩ := hpre.at_event
      have harms := exists_arms hinit hold (armed_of_submits hdS hsub)
      rw [commandTargets, hsub.1] at htarget
      exact ⟨ha', hne, new, e, old, targets, rfl, hsub, htarget, hc.keeps, harms, hle, hfresh⟩
  · intro ha new e old hsplit hcmd hlatest hold
    obtain ⟨new', e', old', hc⟩ := hcommanded ha
    have hsame : e = e' := latest_unique (hsplit.symm.trans hc.split) hcmd hc.command hlatest
      fun x hx => (hc.keeps x hx).noCommand
    have hto : core.TimedOut (.ofNat T) := by
      rw [hsame] at hold
      exact (timedOut_iff hc hconfig hp rfl).mpr hold
    have hstop : core' = robotChassisCoreStop core .timeout := step_timedOut hd ha hto
    rw [hstop]
    exact ⟨stop_state _ _, stop_stopReason _ _, stop_zeroSeen _ _,
      (stop_controlZero core .timeout).at_wheel⟩

def wrapCalls : List CoreCall :=
  [⟨.acceptZero, 4294967000⟩, ⟨.arm, 4294967010⟩,
    ⟨.submit (some fun i => if i.val = 0 then 2 else 0), 4294967020⟩,
    ⟨.step (some fun _ => 1), 4294967290⟩]

def wrapCore : Core := wrapCalls.foldl (coreStep .rational) (initialCore (testConfig 3))

/-- The step after the wrap still drives the wheel, 380 ms after the command. -/
theorem motion_provenance_wrap :
    (coreStep .rational wrapCore ⟨.step (some fun _ => 1), 4294967400⟩).output 0 ≠ 0 ∧
    ∃ S ∈ history (coreStep .rational) (initialCore (testConfig 3)) wrapCalls,
      (∃ targets, Submits .rational targets S) ∧ 4294967400 - S.label.time ≤ 500 := by
  have hr : CoreRun .rational (some (testConfig 3))
      (history (coreStep .rational) (initialCore (testConfig 3)) wrapCalls) wrapCore :=
    .of_calls (testConfig_init 3 (by decide)) wrapCalls
  have hout : (coreStep .rational wrapCore
      ⟨.step (some fun _ => 1), 4294967400⟩).output 0 ≠ 0 := by decide +kernel
  have hp := motion_provenance (hr.snoc ⟨.step (some fun _ => 1), 4294967400⟩)
    (show Paced _ 4294966000 _ by decide +kernel)
  obtain ⟨_, _, new, S, old, targets, hsplit, hsub, _, _, _, _, hage⟩ := hp.1 0 hout
  refine ⟨hout, S, ?_, ⟨targets, hsub⟩, hage⟩
  rw [hsplit]
  simp

end RobotFirmware.Chassis
