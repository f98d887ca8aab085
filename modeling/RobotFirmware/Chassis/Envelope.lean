import RobotFirmware.Library.Word
import RobotFirmware.Chassis.Invariant

/-! Bounds on the integrals and the outputs of the control step, and what calls can do to the
configuration. -/
namespace RobotFirmware.Chassis
open Fp Trace

/-- No wheel update under this configuration yields NaN, and both output limits convert to
`float` exactly. -/
structure CoreConfig.Tame (E : Env) (config : CoreConfig) (limit : ℚ) : Prop where
  integralLimit : config.integralLimit = .finite limit
  nonneg : 0 ≤ limit
  positive : 0 < config.maxOutput.toInt
  upper : E.ofInt config.maxOutput = .finite config.maxOutput.toInt
  lower : E.ofInt (-config.maxOutput) = .finite (-config.maxOutput.toInt)
  sum (q : ℚ) (n : Int32) : |q| ≤ limit → Datum.add E.single (.finite q) (E.ofInt n) ≠ .nan
  command (q : ℚ) (n : Int32) : |q| ≤ limit →
    Datum.add E.single (Datum.mul E.single config.kp (E.ofInt n))
      (Datum.mul E.single config.kiPerStep (.finite q)) ≠ .nan

structure Core.Within (limit : ℚ) (core : Core) : Prop where
  integral : ∀ i, ∃ q, core.integral i = .finite q ∧ |q| ≤ limit
  output : ∀ i, |(core.output i).toInt| ≤ core.config.maxOutput.toInt

theorem Core.ControlZero.within {limit : ℚ} {core : Core} (hz : core.ControlZero)
    (hl : 0 ≤ limit) (hm : 0 ≤ core.config.maxOutput.toInt) : core.Within limit := by
  constructor
  · intro i
    exact ⟨0, (hz.at_wheel i).2.2.1, by simpa using hl⟩
  · intro i
    rw [(hz.at_wheel i).2.1]
    simpa using hm

theorem nextIntegral_within {E : Env} {config : CoreConfig} {limit q : ℚ}
    (ht : config.Tame E limit) (hq : |q| ≤ limit) (target delta : Int32) :
    ∃ r, nextIntegral E config (.finite q) (controlError E target delta) = .finite r ∧
      |r| ≤ limit := by
  unfold nextIntegral controlError
  rw [ht.integralLimit, Datum.neg_finite]
  have hnan := ht.sum q (target - delta) hq
  have hle : -limit ≤ limit := by linarith [ht.nonneg]
  obtain ⟨r, hr, hl, hh⟩ := Datum.clamp_finite hle hnan
  exact ⟨r, hr, abs_le.mpr ⟨hl, hh⟩⟩

/-- Rounding happens after the limiter, and an integral limit survives it. -/
theorem nextCommand_within {E : Env} {config : CoreConfig} {limit q : ℚ}
    (ht : config.Tame E limit) (hq : |q| ≤ limit) (target delta : Int32) :
    |(E.lroundf (nextCommand E config (.finite q) (controlError E target delta))).toInt| ≤
      config.maxOutput.toInt := by
  unfold nextCommand controlError
  rw [ht.upper, ht.lower]
  have hnan := ht.command q (target - delta) hq
  have hpos : (0 : ℚ) < config.maxOutput.toInt := by exact_mod_cast ht.positive
  have hle : -(config.maxOutput.toInt : ℚ) ≤ config.maxOutput.toInt := by linarith
  obtain ⟨r, hr, hl, hh⟩ := Datum.clamp_finite hle hnan
  have hlt : config.maxOutput.toInt < 2 ^ 31 := Int32.toInt_lt _
  rw [hr, E.lroundf_finite hlt hl hh]
  exact abs_roundAway_le hl hh

theorem drive_within {E : Env} {core : Core} {limit : ℚ} (ht : core.config.Tame E limit)
    (hw : core.Within limit) (delta : Wheels Int32) : (core.drive E delta).Within limit := by
  have hint : ∀ i, ∃ q, core.nextIntegral E delta i = .finite q ∧ |q| ≤ limit := by
    intro i
    unfold Core.nextIntegral
    split_ifs with hi
    · exact ⟨0, rfl, by simpa using ht.nonneg⟩
    · obtain ⟨q, hq, hql⟩ := hw.integral i
      rw [hq]
      exact nextIntegral_within ht hql _ _
  constructor
  · exact hint
  · intro i
    change |(core.nextOutput E delta i).toInt| ≤ core.config.maxOutput.toInt
    unfold Core.nextOutput
    split_ifs with hi
    · simpa using ht.positive.le
    · obtain ⟨q, hq, hql⟩ := hint i
      rw [hq]
      exact nextCommand_within ht hql _ _

theorem Outcome.maxOutput {E : Env} {core core' : Core} {c : CoreCall} {r : Option Bool}
    (ho : Outcome E core c r core') : core'.config.maxOutput = core.config.maxOutput := by
  rcases ho.config with hc | ⟨kp, ki, _, _, _, _, _, hc⟩ <;> rw [hc]

theorem Outcome.within {E : Env} {core core' : Core} {c : CoreCall} {r : Option Bool}
    {limit : ℚ} (ho : Outcome E core c r core') (ht : core.config.Tame E limit)
    (hw : core.Within limit) : core'.Within limit := by
  have hmax := ho.maxOutput
  cases ho.change with
  | zero hz => exact hz.within ht.nonneg (by rw [hmax]; exact ht.positive.le)
  | keep he => exact he ▸ hw
  | submit _ _ _ _ he => exact he ▸ ⟨hw.integral, hw.output⟩
  | idle _ he => exact he ▸ ⟨hw.integral, fun _ => by simpa using ht.positive.le⟩
  | drive delta _ _ he => exact he ▸ drive_within ht hw delta

theorem gainsValid_iff {kp ki : Datum} : GainsValid kp ki ↔
    (∃ q, kp = .finite q ∧ 0 ≤ q) ∧ ∃ q, ki = .finite q ∧ 0 ≤ q := by
  have hle : ∀ x, (x.isFinite = true ∧ Datum.lt x (.finite 0) = false) ↔
      ∃ q, x = .finite q ∧ 0 ≤ q := by
    intro x
    cases x <;> simp [Datum.isFinite]
  unfold GainsValid
  rw [← hle, ← hle, and_assoc]

/-- Gain updates accept what initialisation accepts, so the configuration stays valid. -/
theorem Outcome.configValid {E : Env} {core core' : Core} {c : CoreCall} {r : Option Bool}
    (ho : Outcome E core c r core') (hv : configValid (some core.config) = true) :
    Chassis.configValid (some core'.config) = true := by
  rcases ho.config with hc | ⟨kp, ki, _, _, _, _, hg, hc⟩
  · rw [hc]
    exact hv
  · rw [hc, configValid_iff]
    obtain ⟨_, _, hrest⟩ := configValid_iff.mp hv
    obtain ⟨hkp, hki⟩ := gainsValid_iff.mp hg
    exact ⟨hkp, hki, hrest⟩

def CoreConfig.SameButGains (a b : CoreConfig) : Prop :=
  a = { b with kp := a.kp, kiPerStep := a.kiPerStep }

theorem Outcome.sameButGains {E : Env} {core core' : Core} {c : CoreCall} {r : Option Bool}
    {config : CoreConfig} (ho : Outcome E core c r core')
    (hs : core.config.SameButGains config) : core'.config.SameButGains config := by
  rcases ho.config with hc | ⟨kp, ki, _, _, _, _, _, hc⟩
  · rw [hc]
    exact hs
  · rw [hc, hs]
    rfl

/-- In exact arithmetic every valid configuration is tame: nothing overflows. -/
theorem tame_of_exact {E : Env} {config : CoreConfig} {limit : ℚ} (hE : E.Exact)
    (hv : configValid (some config) = true) (hl : config.integralLimit = .finite limit) :
    config.Tame E limit := by
  obtain ⟨⟨kp, hkp, _⟩, ⟨ki, hki, _⟩, ⟨q, hq, hpos⟩, hmax, _, _, _⟩ := configValid_iff.mp hv
  have hlq : limit = q := by
    rw [hl] at hq
    exact Datum.finite.inj hq
  have hmaxInt : 0 < config.maxOutput.toInt := Int32.lt_iff_toInt_lt.mp hmax
  refine ⟨hl, by rw [hlq]; exact hpos.le, hmaxInt, hE.ofInt _, ?_, ?_, ?_⟩
  · rw [hE.ofInt, Word.neg_toInt_of_pos hmaxInt]
    push_cast
    rfl
  · intro q n _
    rw [hE.ofInt, hE.1, Datum.add_finite]
    simp [Format.exact]
  · intro q n _
    rw [hE.ofInt, hE.1, hkp, hki]
    simp [Format.exact]

/-- New gains, then one sample so far off target that both limiters act. -/
def saturatingCalls : List CoreCall :=
  [⟨.updateGains (.finite 9) (.finite 1), 5⟩, ⟨.acceptZero, 10⟩, ⟨.arm, 20⟩,
    ⟨.submit (some fun i => if i.val = 0 then 3 else 0), 30⟩,
    ⟨.step (some fun i => if i.val = 0 then -15000 else 0), 40⟩]

theorem CoreRun.configValid {E : Env} {config : Option CoreConfig}
    {h : List (Event Core CoreCall)} {core : Core} (hr : CoreRun E config h core) :
    configValid (some core.config) = true :=
  hr.invariant (fun _ hv => hv) fun _ _ _ hv hs => (outcome_of_det hs).configValid hv

theorem CoreRun.sameButGains {E : Env} {config : CoreConfig} {h : List (Event Core CoreCall)}
    {core : Core} (hr : CoreRun E (some config) h core) :
    core.config.SameButGains config := by
  obtain ⟨core₀, hi, hp⟩ := hr
  obtain ⟨c, hc, _, rfl⟩ := init_eq_some hi
  cases hc
  exact hp.invariant (P := fun s => s.config.SameButGains config)
    (fun _ _ _ hs hd => (outcome_of_det hd).sameButGains hs) rfl

theorem CoreRun.within {E : Env} {config : CoreConfig} {limit : ℚ}
    {h : List (Event Core CoreCall)} {core : Core} (hE : E.Exact)
    (hl : config.integralLimit = .finite limit) (hr : CoreRun E (some config) h core) :
    core.Within limit := by
  obtain ⟨core₀, hi, hp⟩ := hr
  obtain ⟨c, hc, hv, rfl⟩ := init_eq_some hi
  cases hc
  have ht := tame_of_exact hE hv hl
  have hinit : (initialCore config).Within limit :=
    Core.ControlZero.within ⟨rfl, rfl, rfl, rfl⟩ ht.nonneg ht.positive.le
  induction hp with
  | refl => exact hinit
  | @snoc old s s' c hp hs ih =>
    have hrun : CoreRun E (some config) old s := ⟨_, hi, hp⟩
    have hlimit : s.config.integralLimit = .finite limit := by
      rw [← hl, hrun.sameButGains]
    exact (outcome_of_det hs).within (tame_of_exact hE hrun.configValid hlimit) ih

/-- Over any run in exact arithmetic the integrals and outputs stay within the limits of a
configuration that stays valid and of which only a disarmed core changes the gains. -/
theorem reachable_envelope {E : Env} {config : CoreConfig} {h : List (Event Core CoreCall)}
    {core : Core} (hE : E.Exact) (hr : CoreRun E (some config) h core) :
    (∃ limit, config.integralLimit = .finite limit ∧
      ∀ i, ∃ q, core.integral i = .finite q ∧ |q| ≤ limit) ∧
    (∀ i, |(core.output i).toInt| ≤ config.maxOutput.toInt) ∧
    Chassis.configValid (some core.config) = true ∧
    core.config = { config with kp := core.config.kp, kiPerStep := core.config.kiPerStep } ∧
    ∀ e ∈ h, e.after.config.kp ≠ e.before.config.kp ∨
      e.after.config.kiPerStep ≠ e.before.config.kiPerStep →
      e.before.state = .disarmed ∧ e.after.state = .disarmed := by
  have hsame := hr.sameButGains
  have hvalid := hr.configValid
  obtain ⟨_, _, ⟨limit, hlimit, _⟩, _⟩ := configValid_iff.mp hvalid
  have hl : config.integralLimit = .finite limit := by
    rw [hsame] at hlimit
    exact hlimit
  have hw := hr.within hE hl
  refine ⟨⟨limit, hl, hw.integral⟩, ?_, hvalid, hsame, ?_⟩
  · intro i
    have ho := hw.output i
    rw [hsame] at ho
    exact ho
  · intro e he hne
    obtain ⟨_, _, _, hs⟩ := hr.of_mem he
    rcases (outcome_of_det hs).config with hc | ⟨_, _, _, _, hd, hd', _, _⟩
    · rw [hc] at hne
      simp at hne
    · exact ⟨hd, hd'⟩

/-- Two gain updates around a run whose integral and output reach their limits. -/
theorem reachable_envelope_saturated :
    (∀ i, |((saturatingCalls.foldl (coreStep .rational)
      (initialCore (testConfig 3))).output i).toInt| ≤ 20) ∧
    (saturatingCalls.foldl (coreStep .rational) (initialCore (testConfig 3))).output 0 = 20 ∧
    (saturatingCalls.foldl (coreStep .rational) (initialCore (testConfig 3))).integral 0 =
      .finite 40 := by
  have hr := CoreRun.of_calls (E := .rational) (testConfig_init 3 (by decide)) saturatingCalls
  exact ⟨(reachable_envelope Env.rational_exact hr).2.1, by decide +kernel, by decide +kernel⟩

end RobotFirmware.Chassis
