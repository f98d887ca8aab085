import Mathlib.Data.Fin.Rev
import Mathlib.Logic.Equiv.Basic
import RobotFirmware.Chassis.Envelope

/-! The symmetry of the core under renaming its wheels and turning some of them round: a run
replayed with such inputs ends in the same state with its arrays renamed and turned round. -/
namespace RobotFirmware.Chassis
open Fp Trace

/-- A renaming of the wheels and the wheels whose sign is negative. -/
structure Symmetry where
  perm : Equiv.Perm Wheel
  negative : Wheels Bool

def signedCount (negative : Bool) (n : Int32) : Int32 := if negative then -n else n

def signedDatum (negative : Bool) (x : Datum) : Datum := if negative then x.neg else x

namespace Symmetry

variable (S : Symmetry)

def counts (a : Wheels Int32) : Wheels Int32 := fun i => signedCount (S.negative i) (a (S.perm i))

def data (a : Wheels Datum) : Wheels Datum := fun i => signedDatum (S.negative i) (a (S.perm i))

def core (core : Core) : Core :=
  { core with
    targetCounts := S.counts core.targetCounts
    output := S.counts core.output
    integral := S.data core.integral
    stallCount := fun i => core.stallCount (S.perm i) }

def call : Call → Call
  | .submit targets => .submit (targets.map S.counts)
  | .step delta => .step (delta.map S.counts)
  | call => call

def replay (c : CoreCall) : CoreCall := ⟨S.call c.call, c.time⟩

end Symmetry

/-- The arithmetic of the call stays in `int`: no target is the least one, and the step can
subtract each count from its target. -/
def Call.Fits (core : Core) : Call → Prop
  | .submit (some targets) => ∀ i, targets i ≠ Int32.minValue
  | .step (some delta) => ∀ i, core.targetCounts i ≠ 0 →
      -2 ^ 31 ≤ (core.targetCounts i).toInt - (delta i).toInt ∧
        (core.targetCounts i).toInt - (delta i).toInt < 2 ^ 31
  | _ => True

instance (core : Core) : (call : Call) → Decidable (call.Fits core)
  | .submit (some _) | .step (some _) => inferInstanceAs (Decidable (∀ _, _))
  | .submit none | .step none | .updateGains _ _ | .acceptZero | .arm | .stop _ | .clearFault =>
    inferInstanceAs (Decidable True)

@[simp] theorem signedCount_zero (b : Bool) : signedCount b 0 = 0 := by
  cases b <;> rfl

@[simp] theorem signedDatum_zero (b : Bool) : signedDatum b (.finite 0) = .finite 0 := by
  cases b <;> simp [signedDatum]

@[simp] theorem signedCount_eq_zero {b : Bool} {n : Int32} : signedCount b n = 0 ↔ n = 0 := by
  cases b with
  | false => exact Iff.rfl
  | true =>
    constructor
    · intro h
      rw [← Int32.neg_neg (a := n)]
      exact (congrArg (-·) h).trans rfl
    · intro h
      rw [h]
      rfl

@[simp] theorem signedCount_abs (b : Bool) (n : Int32) : (signedCount b n).abs = n.abs := by
  cases b with
  | false => rfl
  | true => exact Word.neg_abs n

theorem signedCount_sub (b : Bool) (t d : Int32) :
    signedCount b t - signedCount b d = signedCount b (t - d) := by
  cases b with
  | false => rfl
  | true =>
    change -t - -d = -(t - d)
    grind

theorem sub_ne_minValue {t d : Int32} (ht : t ≠ Int32.minValue)
    (hl : -2 ^ 31 ≤ t.toInt - d.toInt) (hh : t.toInt - d.toInt < 2 ^ 31)
    (hneg : (-t).toInt - (-d).toInt < 2 ^ 31) : t - d ≠ Int32.minValue := by
  intro hmin
  have hdiff := Word.sub_toInt hl hh
  have hlo := Int32.le_toInt t
  rw [hmin, Int32.toInt_minValue] at hdiff
  by_cases hd : d = Int32.minValue
  · rw [hd, Int32.toInt_minValue] at hdiff
    omega
  · rw [Word.neg_toInt ht, Word.neg_toInt hd] at hneg
    omega

theorem nextStallCount_signed (count : UInt16) (b : Bool) (d : Int32) :
    nextStallCount count (signedCount b d) = nextStallCount count d :=
  if_congr signedCount_eq_zero rfl rfl

section Wheel

variable {E : Env} {config : CoreConfig} (hE : E.Exact)
include hE

theorem controlError_signed {b : Bool} {t d : Int32} (hmin : b = true → t - d ≠ Int32.minValue) :
    controlError E (signedCount b t) (signedCount b d) = signedDatum b (controlError E t d) := by
  unfold controlError
  rw [signedCount_sub, hE.ofInt, hE.ofInt]
  cases b with
  | false => rfl
  | true =>
    change Datum.finite (-(t - d)).toInt = Datum.finite (-((t - d).toInt : ℚ))
    rw [Word.neg_toInt (hmin rfl)]
    push_cast
    rfl

/-- The integral is limited the same way in both directions. -/
theorem nextIntegral_signed {limit : ℚ} (hl : config.integralLimit = .finite limit)
    (hpos : 0 ≤ limit) (b : Bool) (integral error : ℚ) :
    nextIntegral E config (signedDatum b (.finite integral)) (signedDatum b (.finite error)) =
      signedDatum b (nextIntegral E config (.finite integral) (.finite error)) := by
  cases b with
  | false => rfl
  | true =>
    have hsum : -integral + -error = -(integral + error) := by ring
    unfold nextIntegral
    rw [hl, hE.1]
    change Datum.clamp (.finite (-limit)) (.finite limit) (.finite (-integral + -error)) = _
    rw [hsum]
    exact Datum.clamp_neg hpos _

/-- The command is odd, and rounding it is too. -/
theorem output_signed {kp ki : ℚ} (hkp : config.kp = .finite kp)
    (hki : config.kiPerStep = .finite ki) (hmax : 0 < config.maxOutput.toInt) (b : Bool)
    (integral error : ℚ) :
    E.lroundf (nextCommand E config (signedDatum b (.finite integral))
        (signedDatum b (.finite error))) =
      signedCount b (E.lroundf (nextCommand E config (.finite integral) (.finite error))) := by
  cases b with
  | false => rfl
  | true =>
    have hsum : kp * -error + ki * -integral = -(kp * error + ki * integral) := by ring
    have hnonneg : (0 : ℚ) ≤ config.maxOutput.toInt := by exact_mod_cast hmax.le
    have hle : -(config.maxOutput.toInt : ℚ) ≤ config.maxOutput.toInt := by linarith
    have hlow : E.ofInt (-config.maxOutput) = .finite (-(config.maxOutput.toInt : ℚ)) := by
      rw [hE.ofInt, Word.neg_toInt_of_pos hmax]
      push_cast
      rfl
    have hcommand : ∀ g x : ℚ, nextCommand E config (.finite g) (.finite x) =
        Datum.clamp (.finite (-(config.maxOutput.toInt : ℚ))) (.finite config.maxOutput.toInt)
          (.finite (kp * x + ki * g)) := by
      intro g x
      unfold nextCommand
      rw [hlow, hE.ofInt, hkp, hki, hE.1]
      rfl
    change E.lroundf (nextCommand E config (.finite (-integral)) (.finite (-error))) = _
    rw [hcommand, hcommand, hsum, Datum.clamp_neg hnonneg]
    obtain ⟨q, hq, hlq, hhq⟩ := Datum.clamp_finite (x := .finite (kp * error + ki * integral))
      hle (by simp)
    rw [hq]
    exact E.lroundf_neg (Int32.toInt_lt _) hlq hhq

end Wheel

namespace Symmetry

variable (S : Symmetry)

@[simp] theorem counts_zero : S.counts (fun _ => 0) = fun _ => 0 := by
  funext i
  exact signedCount_zero _

@[simp] theorem data_zero : S.data (fun _ => .finite 0) = fun _ => .finite 0 := by
  funext i
  exact signedDatum_zero _

theorem core_of_controlZero {c : Core} (hz : c.ControlZero) : S.core c = c := by
  obtain ⟨config, state, stopReason, targetCounts, output, integral, stallCount, _, _⟩ := c
  obtain ⟨ht, ho, hg, hn⟩ := hz
  dsimp only at ht ho hg hn
  subst ht ho hg hn
  simp [Symmetry.core]

theorem stop_core (c : Core) (r : StopReason) :
    robotChassisCoreStop (S.core c) r = S.core (robotChassisCoreStop c r) :=
  (S.core_of_controlZero (stop_controlZero c r)).symm

theorem exists_counts {P : Int32 → Prop} (hP : ∀ b n, P (signedCount b n) ↔ P n)
    (a : Wheels Int32) : (∃ i, P (S.counts a i)) ↔ ∃ i, P (a i) := by
  constructor
  · intro h
    obtain ⟨i, hi⟩ := h
    exact ⟨S.perm i, (hP _ _).mp hi⟩
  · intro h
    obtain ⟨i, hi⟩ := h
    refine ⟨S.perm.symm i, (hP _ _).mpr ?_⟩
    rw [Equiv.apply_symm_apply]
    exact hi

/-- The scan of submitted targets sees neither their order nor their signs. -/
theorem scanTargets_counts (m : Int32) (targets : Wheels Int32) :
    scanTargets m (S.counts targets) (List.finRange 4) false =
      scanTargets m targets (List.finRange 4) false := by
  have hover := S.exists_counts (P := fun n => m < n.abs)
    (fun b n => by rw [signedCount_abs]) targets
  have hnonzero := S.exists_counts (P := fun n => n ≠ 0)
    (fun b n => not_congr signedCount_eq_zero) targets
  cases hr : scanTargets m targets (List.finRange 4) false with
  | none =>
    obtain ⟨i, _, hi⟩ := scanTargets_eq_none.mp hr
    obtain ⟨j, hj⟩ := hover.mpr ⟨i, hi⟩
    exact scanTargets_eq_none.mpr ⟨j, List.mem_finRange j, hj⟩
  | some any =>
    cases hr' : scanTargets m (S.counts targets) (List.finRange 4) false with
    | none =>
      obtain ⟨i, _, hi⟩ := scanTargets_eq_none.mp hr'
      obtain ⟨j, hj⟩ := hover.mp ⟨i, hi⟩
      rw [scanTargets_eq_none.mpr ⟨j, List.mem_finRange j, hj⟩] at hr
      cases hr
    | some any' =>
      have hany := scanTargets_eq_some hr
      have hany' := scanTargets_eq_some hr'
      simp only [List.mem_finRange, true_and] at hany hany'
      rw [hnonzero, ← hany] at hany'
      rw [Bool.eq_iff_iff.mpr hany']

/-- A call that clears the arrays unless it is refused. -/
theorem unless_refused {P : Prop} [Decidable P] (c : Core) {cleared : Core}
    (hz : cleared.ControlZero) :
    (if P then (false, S.core c) else (true, cleared)) =
      Prod.map id S.core (if P then (false, c) else (true, cleared)) := by
  split_ifs
  · rfl
  · exact Prod.ext rfl (S.core_of_controlZero hz).symm

theorem updateGains_core (c : Core) (kp ki : Datum) :
    robotChassisCoreUpdateGains (S.core c) kp ki =
      Prod.map id S.core (robotChassisCoreUpdateGains c kp ki) :=
  S.unless_refused c ⟨rfl, rfl, rfl, rfl⟩

theorem arm_core (c : Core) (nowMs : UInt32) :
    robotChassisCoreArm (S.core c) nowMs = Prod.map id S.core (robotChassisCoreArm c nowMs) :=
  S.unless_refused c ⟨rfl, rfl, rfl, rfl⟩

theorem clearFault_core (c : Core) :
    robotChassisCoreClearFault (S.core c) = Prod.map id S.core (robotChassisCoreClearFault c) :=
  S.unless_refused c ⟨rfl, rfl, rfl, rfl⟩

theorem acceptZero_core (c : Core) (nowMs : UInt32) :
    robotChassisCoreAcceptZero (S.core c) nowMs =
      S.core (robotChassisCoreAcceptZero c nowMs) := by
  have hz : (robotChassisCoreAcceptZero c nowMs).ControlZero := by
    unfold robotChassisCoreAcceptZero
    dsimp only
    split_ifs
    · exact ⟨rfl, rfl, rfl, rfl⟩
    · exact ⟨rfl, rfl, rfl, rfl⟩
  exact (S.core_of_controlZero hz).symm

theorem submit_core (c : Core) (targets : Option (Wheels Int32)) (nowMs : UInt32) :
    robotChassisCoreSubmit (S.core c) (targets.map S.counts) nowMs =
      Prod.map id S.core (robotChassisCoreSubmit c targets nowMs) := by
  cases targets with
  | none => rfl
  | some targets =>
    by_cases ha : c.state ≠ .armed
    · have hr : robotChassisCoreSubmit c (some targets) nowMs = (false, c) := if_pos ha
      rw [hr]
      exact if_pos ha
    · unfold robotChassisCoreSubmit
      dsimp only [Option.map_some]
      have ha' : ¬ (S.core c).state ≠ .armed := ha
      have hscan := S.scanTargets_counts c.config.maxTargetCounts targets
      change scanTargets (S.core c).config.maxTargetCounts _ _ _ = _ at hscan
      rw [if_neg ha, if_neg ha', hscan]
      cases scanTargets c.config.maxTargetCounts targets (List.finRange 4) false with
      | none => exact Prod.ext rfl (S.stop_core c .invalidTarget)
      | some any =>
        cases any with
        | true => rfl
        | false =>
          refine Prod.ext rfl ?_
          simp [Symmetry.core]

theorem targetCounts_eq_zero_iff (c : Core) (i : Wheel) :
    (S.core c).targetCounts i = 0 ↔ c.targetCounts (S.perm i) = 0 := signedCount_eq_zero

theorem stalls_core (c : Core) (delta : Wheels Int32) (i : Wheel) :
    (S.core c).Stalls (S.counts delta) i ↔ c.Stalls delta (S.perm i) := by
  have htarget : (S.core c).targetCounts i ≠ 0 ↔ c.targetCounts (S.perm i) ≠ 0 :=
    not_congr (S.targetCounts_eq_zero_iff c i)
  have hcount : nextStallCount ((S.core c).stallCount i) (S.counts delta i) =
      nextStallCount (c.stallCount (S.perm i)) (delta (S.perm i)) :=
    nextStallCount_signed _ _ _
  unfold Core.Stalls
  rw [htarget, hcount]
  exact Iff.rfl

variable {S} {E : Env} {c : Core} {delta : Wheels Int32} {limit : ℚ}

theorem nextIntegral_finite (hE : E.Exact) (hv : configValid (some c.config) = true)
    (hl : c.config.integralLimit = .finite limit) (hw : c.Within limit) (i : Wheel) :
    ∃ q, c.nextIntegral E delta i = .finite q := by
  unfold Core.nextIntegral
  split_ifs with hi
  · exact ⟨0, rfl⟩
  · obtain ⟨q, hq, hql⟩ := hw.integral i
    obtain ⟨r, hr, _⟩ :=
      nextIntegral_within (tame_of_exact hE hv hl) hql (c.targetCounts i) (delta i)
    rw [hq]
    exact ⟨r, hr⟩

theorem nextIntegral_core (hE : E.Exact) (hv : configValid (some c.config) = true)
    (hl : c.config.integralLimit = .finite limit) (hw : c.Within limit) {i : Wheel}
    (hmin : c.targetCounts (S.perm i) ≠ 0 → S.negative i = true →
      c.targetCounts (S.perm i) - delta (S.perm i) ≠ Int32.minValue) :
    (S.core c).nextIntegral E (S.counts delta) i =
      signedDatum (S.negative i) (c.nextIntegral E delta (S.perm i)) := by
  have htame := tame_of_exact hE hv hl
  unfold Core.nextIntegral
  by_cases hi : c.targetCounts (S.perm i) = 0
  · rw [if_pos ((S.targetCounts_eq_zero_iff c i).mpr hi), if_pos hi, signedDatum_zero]
  · obtain ⟨q, hq, _⟩ := hw.integral (S.perm i)
    have hold : (S.core c).integral i = signedDatum (S.negative i) (.finite q) :=
      congrArg (signedDatum (S.negative i)) hq
    have herror : controlError E ((S.core c).targetCounts i) (S.counts delta i) =
        signedDatum (S.negative i) (controlError E (c.targetCounts (S.perm i))
          (delta (S.perm i))) := controlError_signed hE (hmin hi)
    rw [if_neg fun h => hi ((S.targetCounts_eq_zero_iff c i).mp h), if_neg hi, herror, hold, hq,
      controlError, hE.ofInt]
    exact nextIntegral_signed hE hl htame.nonneg _ _ _

theorem nextOutput_core (hE : E.Exact) (hv : configValid (some c.config) = true)
    (hl : c.config.integralLimit = .finite limit) (hw : c.Within limit) {i : Wheel}
    (hmin : c.targetCounts (S.perm i) ≠ 0 → S.negative i = true →
      c.targetCounts (S.perm i) - delta (S.perm i) ≠ Int32.minValue) :
    (S.core c).nextOutput E (S.counts delta) i =
      signedCount (S.negative i) (c.nextOutput E delta (S.perm i)) := by
  have htame := tame_of_exact hE hv hl
  obtain ⟨⟨kp, hkp, _⟩, ⟨ki, hki, _⟩, _⟩ := configValid_iff.mp hv
  have hintegral := nextIntegral_core hE hv hl hw hmin
  unfold Core.nextOutput
  by_cases hi : c.targetCounts (S.perm i) = 0
  · rw [if_pos ((S.targetCounts_eq_zero_iff c i).mpr hi), if_pos hi, signedCount_zero]
  · have hfinite : ∃ q, c.nextIntegral E delta (S.perm i) = .finite q :=
      nextIntegral_finite hE hv hl hw (S.perm i)
    obtain ⟨q, hq⟩ := hfinite
    have herror : controlError E ((S.core c).targetCounts i) (S.counts delta i) =
        signedDatum (S.negative i) (controlError E (c.targetCounts (S.perm i))
          (delta (S.perm i))) := controlError_signed hE (hmin hi)
    rw [if_neg fun h => hi ((S.targetCounts_eq_zero_iff c i).mp h), if_neg hi, herror, hintegral, hq,
      controlError, hE.ofInt]
    exact output_signed hE hkp hki htame.positive _ _ _

theorem nextStall_core (i : Wheel) :
    (S.core c).nextStall (S.counts delta) i = c.nextStall delta (S.perm i) := by
  unfold Core.nextStall
  exact if_congr (S.targetCounts_eq_zero_iff c i) rfl (nextStallCount_signed _ _ _)

/-- A sample without a stall drives each wheel of the renamed core as it drives the wheel's
original, up to the sign. -/
theorem drive_core (hE : E.Exact) (hv : configValid (some c.config) = true)
    (hl : c.config.integralLimit = .finite limit) (hw : c.Within limit)
    (hmin : ∀ i, c.targetCounts (S.perm i) ≠ 0 → S.negative i = true →
      c.targetCounts (S.perm i) - delta (S.perm i) ≠ Int32.minValue) :
    (S.core c).drive E (S.counts delta) = S.core (c.drive E delta) := by
  have hintegral : ∀ i, (S.core c).nextIntegral E (S.counts delta) i =
      signedDatum (S.negative i) (c.nextIntegral E delta (S.perm i)) := fun i =>
    nextIntegral_core hE hv hl hw (hmin i)
  have houtput : ∀ i, (S.core c).nextOutput E (S.counts delta) i =
      signedCount (S.negative i) (c.nextOutput E delta (S.perm i)) := fun i =>
    nextOutput_core hE hv hl hw (hmin i)
  have hstall : ∀ i, (S.core c).nextStall (S.counts delta) i = c.nextStall delta (S.perm i) :=
    nextStall_core
  unfold Core.drive
  rw [funext hintegral, funext houtput, funext hstall]
  rfl

theorem step_core (hE : E.Exact) (hv : configValid (some c.config) = true)
    (hl : c.config.integralLimit = .finite limit) (hw : c.Within limit)
    (hmin : ∀ i, c.targetCounts (S.perm i) ≠ 0 → S.negative i = true →
      c.targetCounts (S.perm i) - delta (S.perm i) ≠ Int32.minValue) (nowMs : UInt32) :
    robotChassisCoreStep E (S.core c) (some (S.counts delta)) nowMs =
      S.core (robotChassisCoreStep E c (some delta) nowMs) := by
  unfold robotChassisCoreStep
  dsimp only
  by_cases ha : c.state ≠ .armed
  · rw [if_pos ha]
    refine (if_pos ha).trans ?_
    simp [Symmetry.core]
  · have ha' : ¬ (S.core c).state ≠ .armed := ha
    rw [if_neg ha, if_neg ha']
    by_cases ht : c.config.commandTimeoutMs < nowMs - c.lastCommandMs
    · rw [if_pos ht]
      exact (if_pos ht).trans (S.stop_core c .timeout)
    · rw [if_neg ht]
      refine (if_neg ht).trans ?_
      -- the loop order decides which wheel stalls first, not whether one does
      by_cases hs : ∃ i, c.Stalls delta i
      · obtain ⟨i, hi⟩ := hs
        have hi' : (S.core c).Stalls (S.counts delta) (S.perm.symm i) := by
          rw [S.stalls_core, Equiv.apply_symm_apply]
          exact hi
        rw [stepWheels_of_stall E delta _ c (List.nodup_finRange 4) ⟨i, List.mem_finRange i, hi⟩,
          stepWheels_of_stall E _ _ _ (List.nodup_finRange 4) ⟨_, List.mem_finRange _, hi'⟩]
        exact S.stop_core c .encoderStall
      · have hnone : ∀ i, ¬ c.Stalls delta i := fun i hi => hs ⟨i, hi⟩
        have hnone' : ∀ i, ¬ (S.core c).Stalls (S.counts delta) i :=
          fun i hi => hnone _ ((S.stalls_core c delta i).mp hi)
        rw [stepWheels_of_not_stall E delta _ c (List.nodup_finRange 4) fun i _ => hnone i,
          stepWheels_of_not_stall E _ _ _ (List.nodup_finRange 4) fun i _ => hnone' i]
        simp only [List.mem_finRange, if_true]
        exact drive_core hE hv hl hw hmin

theorem run_core (hE : E.Exact) (hv : configValid (some c.config) = true)
    (hl : c.config.integralLimit = .finite limit) (hw : c.Within limit)
    (htargets : ∀ i, c.targetCounts i ≠ Int32.minValue) {call : Call} (hf : call.Fits c)
    (hf' : (S.call call).Fits (S.core c)) (nowMs : UInt32) :
    (S.call call).run E (S.core c) nowMs = Prod.map id S.core (call.run E c nowMs) := by
  cases call with
  | updateGains kp ki => exact congrArg (Prod.map some id) (S.updateGains_core c kp ki)
  | acceptZero => exact Prod.ext rfl (S.acceptZero_core c nowMs)
  | arm => exact congrArg (Prod.map some id) (S.arm_core c nowMs)
  | submit targets => exact congrArg (Prod.map some id) (S.submit_core c targets nowMs)
  | stop cause => exact Prod.ext rfl (S.stop_core c cause.reason)
  | clearFault => exact congrArg (Prod.map some id) (S.clearFault_core c)
  | step delta =>
    cases delta with
    | none => rfl
    | some delta =>
      refine Prod.ext rfl (step_core hE hv hl hw ?_ nowMs)
      intro i hi hnegative
      obtain ⟨hlo, hhi⟩ := hf (S.perm i) hi
      have hreplayed := (hf' i fun h => hi (signedCount_eq_zero.mp h)).2
      change (signedCount (S.negative i) (c.targetCounts (S.perm i))).toInt -
        (signedCount (S.negative i) (delta (S.perm i))).toInt < 2 ^ 31 at hreplayed
      rw [hnegative] at hreplayed
      exact sub_ne_minValue (htargets _) hlo hhi hreplayed

end Symmetry

variable {E : Env} {config : Option CoreConfig} {h h' : List (Event Core CoreCall)}
  {core core' : Core}

theorem CoreRun.targetCounts_ne_minValue (hr : CoreRun E config h core)
    (hfits : ∀ e ∈ h, e.label.call.Fits e.before) (i : Wheel) :
    core.targetCounts i ≠ Int32.minValue := by
  obtain ⟨core₀, hi, hp⟩ := hr
  obtain ⟨c, _, _, rfl⟩ := init_eq_some hi
  induction hp with
  | refl =>
    change (0 : Int32) ≠ Int32.minValue
    decide
  | @snoc old s s' c _ hs ih =>
    obtain ⟨hfit, hold⟩ := List.forall_mem_cons.mp hfits
    rcases (outcome_of_det hs).targetCounts with hkept | hzero | ⟨targets, hcall, _, _, _, htaken⟩
    · rw [hkept]
      exact ih hold
    · rw [hzero]
      change (0 : Int32) ≠ Int32.minValue
      decide
    · rw [hcall] at hfit
      rw [htaken]
      exact hfit i

/-- The order in which the wheel loop visits the wheels does not matter, faults included. -/
theorem stepWheels_order (E : Env) (delta : Wheels Int32) (core : Core) {order : List Wheel}
    (ho : order.Perm (List.finRange 4)) :
    stepWheels E delta order core = stepWheels E delta (List.finRange 4) core := by
  have hnodup : order.Nodup := ho.nodup_iff.mpr (List.nodup_finRange 4)
  have hmem : ∀ i, i ∈ order := fun i => ho.mem_iff.mpr (List.mem_finRange i)
  by_cases hs : ∃ i, core.Stalls delta i
  · obtain ⟨i, hi⟩ := hs
    rw [stepWheels_of_stall E delta _ core hnodup ⟨i, hmem i, hi⟩,
      stepWheels_of_stall E delta _ core (List.nodup_finRange 4) ⟨i, List.mem_finRange i, hi⟩]
  · have hnone : ∀ i, ¬ core.Stalls delta i := fun i hi => hs ⟨i, hi⟩
    rw [stepWheels_of_not_stall E delta _ core hnodup fun i _ => hnone i,
      stepWheels_of_not_stall E delta _ core (List.nodup_finRange 4) fun i _ => hnone i]
    simp only [hmem, List.mem_finRange]

/-- The event of a replay returns the same and leaves the renamed core. -/
def Symmetry.Matches (E : Env) (S : Symmetry) (e e' : Event Core CoreCall) : Prop :=
  e'.label.ret E e'.before = e.label.ret E e.before ∧ e'.after = S.core e.after

theorem CoreRun.step_core (hE : E.Exact) {S : Symmetry} {c : CoreCall}
    (hr : CoreRun E config h core) (hfits : ∀ e ∈ h, e.label.call.Fits e.before)
    (hf : c.call.Fits core) (hf' : (S.call c.call).Fits (S.core core)) :
    (S.replay c).ret E (S.core core) = c.ret E core ∧
      coreStep E (S.core core) (S.replay c) = S.core (coreStep E core c) := by
  obtain ⟨_, _, ⟨limit, hl, _⟩, _⟩ := configValid_iff.mp hr.configValid
  obtain ⟨config, rfl⟩ : ∃ c, config = some c := by
    obtain ⟨core₀, hi, _⟩ := hr
    obtain ⟨c, hc, _⟩ := init_eq_some hi
    exact ⟨c, hc⟩
  have hlimit : config.integralLimit = .finite limit := by
    rw [hr.sameButGains] at hl
    exact hl
  have hrun := Symmetry.run_core hE hr.configValid hl (hr.within hE hlimit)
    (hr.targetCounts_ne_minValue hfits) hf hf' c.nowMs
  have hret := congrArg Prod.fst hrun
  have hcore := congrArg Prod.snd hrun
  exact ⟨hret, hcore⟩

theorem CoreRun.replayed (hE : E.Exact) (S : Symmetry) (hr : CoreRun E config h core)
    (hr' : CoreRun E config h' core')
    (hreplay : h'.map Event.label = h.map fun e => S.replay e.label)
    (hfits : ∀ e ∈ h, e.label.call.Fits e.before)
    (hfits' : ∀ e ∈ h', e.label.call.Fits e.before) :
    core' = S.core core ∧ List.Forall₂ (S.Matches E) h h' := by
  obtain ⟨core₀, hi, hp⟩ := hr
  obtain ⟨core₁, hi', hp'⟩ := hr'
  rw [hi] at hi'
  cases hi'
  induction hp generalizing h' core' with
  | refl =>
    have hnil : h' = [] := List.map_eq_nil_iff.mp hreplay
    subst hnil
    cases hp'
    obtain ⟨c, _, _, rfl⟩ := init_eq_some hi
    exact ⟨(S.core_of_controlZero ⟨rfl, rfl, rfl, rfl⟩).symm, .nil⟩
  | @snoc old s s' c hp hs ih =>
    cases hp' with
    | refl => cases hreplay
    | @snoc old' t _ c' hp' hs' =>
      obtain ⟨hlabel, hlabels⟩ := List.cons.inj hreplay
      obtain ⟨hfit, hold⟩ := List.forall_mem_cons.mp hfits
      obtain ⟨hfit', hold'⟩ := List.forall_mem_cons.mp hfits'
      obtain ⟨hbefore, hmatches⟩ := ih hlabels hold hold' hp'
      dsimp only at hlabel hfit hfit'
      subst hlabel hbefore
      have hcalled := CoreRun.step_core hE ⟨core₀, hi, hp⟩ hold hfit hfit'
      rw [show coreStep E s c = s' from hs] at hcalled
      have hafter : core' = S.core s' := hs'.symm.trans hcalled.2
      exact ⟨hafter, .cons ⟨hcalled.1, hafter⟩ hmatches⟩

/-- A run replayed with all submitted targets and all encoder deltas renamed and turned round
returns the same values and passes through the renamed cores, as long as no run overflows
`int`. The order of the wheel loop has no influence. -/
theorem wheel_symmetry (hE : E.Exact) (S : Symmetry) (hr : CoreRun E config h core)
    (hr' : CoreRun E config h' core')
    (hreplay : h'.map Event.label = h.map fun e => S.replay e.label)
    (hfits : ∀ e ∈ h, e.label.call.Fits e.before)
    (hfits' : ∀ e ∈ h', e.label.call.Fits e.before) :
    core' = S.core core ∧
    List.Forall₂ (S.Matches E) h h' ∧
    ∀ (delta : Wheels Int32) (order : List Wheel), order.Perm (List.finRange 4) →
      stepWheels E delta order core = stepWheels E delta (List.finRange 4) core := by
  obtain ⟨hcore, hevents⟩ := hr.replayed hE S hr' hreplay hfits hfits'
  exact ⟨hcore, hevents, fun delta order ho => stepWheels_order E delta core ho⟩

def mirror : Symmetry := ⟨Fin.revPerm, fun i => i.val = 3⟩

/-- A run into both limiters, mirrored: the last wheel is driven backwards at the limit. -/
theorem wheel_symmetry_mirrored :
    ((saturatingCalls.map mirror.replay).foldl (coreStep .rational)
      (initialCore (testConfig 3))).output 3 = -20 ∧
    ((saturatingCalls.map mirror.replay).foldl (coreStep .rational)
      (initialCore (testConfig 3))).integral 3 = .finite (-40) := by
  have hr := CoreRun.of_calls (E := .rational) (testConfig_init 3 (by decide)) saturatingCalls
  have hr' := CoreRun.of_calls (E := .rational) (testConfig_init 3 (by decide))
    (saturatingCalls.map mirror.replay)
  have hreplay : (history (coreStep .rational) (initialCore (testConfig 3))
      (saturatingCalls.map mirror.replay)).map Event.label =
      (history (coreStep .rational) (initialCore (testConfig 3)) saturatingCalls).map
        fun e => mirror.replay e.label := by
    have hlabels := congrArg (List.map mirror.replay)
      (history_label (coreStep .rational) (initialCore (testConfig 3)) saturatingCalls)
    rw [List.map_map] at hlabels
    rw [history_label, ← List.map_reverse, ← hlabels]
    rfl
  have hfits : ∀ e ∈ history (coreStep .rational) (initialCore (testConfig 3)) saturatingCalls,
      e.label.call.Fits e.before := by decide +kernel
  have hfits' : ∀ e ∈ history (coreStep .rational) (initialCore (testConfig 3))
      (saturatingCalls.map mirror.replay), e.label.call.Fits e.before := by decide +kernel
  have hcore := (wheel_symmetry Env.rational_exact mirror hr hr' hreplay hfits hfits').1
  rw [hcore]
  exact ⟨by decide +kernel, by decide +kernel⟩

end RobotFirmware.Chassis
