import RobotFirmware.Library.Word
import RobotFirmware.Chassis.Envelope
import RobotFirmware.Chassis.Control

/-! The range check of submitted targets over all 32-bit values. The check goes through `abs`,
which leaves the least value negative and thereby lets it pass. -/
namespace RobotFirmware.Chassis
open Fp Trace

/-- The limit, read over the integers. -/
def InRange (limit target : Int32) : Prop :=
  -limit.toInt ≤ target.toInt ∧ target.toInt ≤ limit.toInt

instance (limit target : Int32) : Decidable (InRange limit target) :=
  inferInstanceAs (Decidable (_ ∧ _))

/-- What a submit call owes its caller. -/
structure SubmitContract (core : Core) (targets : Wheels Int32) (r : Bool × Core) : Prop where
  accepts : core.state = .armed →
    (r.1 = true ↔ ∀ i, InRange core.config.maxTargetCounts (targets i))
  faults : core.state = .armed → ¬ (∀ i, InRange core.config.maxTargetCounts (targets i)) →
    r.2.state = .faultLatched ∧ r.2.stopReason = .invalidTarget ∧ r.2.ControlZero ∧
      r.2.zeroSeen = false
  refuses : core.state ≠ .armed → r = (false, core)

/-- The least value is absent, or another target is what the check fails on. -/
def AbsSafe (limit : Int32) (targets : Wheels Int32) : Prop :=
  (∃ i, targets i = Int32.minValue) →
    ∃ j, targets j ≠ Int32.minValue ∧ ¬ InRange limit (targets j)

theorem refuses_iff {core : Core} {targets : Wheels Int32}
    (hm : 0 < core.config.maxTargetCounts.toInt) : core.Refuses targets ↔
      ∃ i, targets i ≠ Int32.minValue ∧
        ¬ InRange core.config.maxTargetCounts (targets i) := by
  unfold Core.Refuses InRange
  simp only [Word.lt_abs_iff hm]

theorem not_inRange_minValue {limit : Int32} (hm : 0 < limit.toInt) :
    ¬ InRange limit Int32.minValue := by
  have hlt := Int32.toInt_lt limit
  unfold InRange
  rw [Int32.toInt_minValue]
  omega

/-- The check agrees with the integers exactly on safe targets. -/
theorem refuses_iff_of_absSafe {core : Core} {targets : Wheels Int32}
    (hm : 0 < core.config.maxTargetCounts.toInt) :
    (core.Refuses targets ↔ ¬ ∀ i, InRange core.config.maxTargetCounts (targets i)) ↔
      AbsSafe core.config.maxTargetCounts targets := by
  rw [refuses_iff hm, not_forall]
  constructor
  · rintro hr ⟨i, hi⟩
    apply hr.mpr
    refine ⟨i, ?_⟩
    rw [hi]
    exact not_inRange_minValue hm
  · intro hs
    constructor
    · intro hex
      obtain ⟨i, _, hi⟩ := hex
      exact ⟨i, hi⟩
    · intro hex
      obtain ⟨i, hi⟩ := hex
      by_cases hmin : targets i = Int32.minValue
      · exact hs ⟨i, hmin⟩
      · exact ⟨i, hmin, hi⟩

theorem submit_contract_iff {core : Core} (targets : Wheels Int32) (t : ℕ)
    (hm : 0 < core.config.maxTargetCounts.toInt) :
    SubmitContract core targets (robotChassisCoreSubmit core (some targets) (.ofNat t)) ↔
      (core.state = .armed → AbsSafe core.config.maxTargetCounts targets) := by
  rw [← refuses_iff_of_absSafe hm]
  rcases submit_cases core targets (.ofNat t) with ⟨ha, hr⟩ | ⟨ha, href, hr⟩ | ⟨ha, href, hok, _⟩
  · rw [hr]
    constructor
    · exact fun _ h => absurd h ha
    · exact fun _ => ⟨fun h => absurd h ha, fun h => absurd h ha, fun _ => rfl⟩
  · rw [hr]
    constructor
    · intro hc _
      have hacc := hc.accepts ha
      constructor
      · exact fun _ h => absurd (hacc.mpr h) (by simp)
      · exact fun _ => href
    · intro h
      refine ⟨fun _ => ?_, fun _ _ => ?_, fun hn => absurd ha hn⟩
      · have hout := (h ha).mp href
        simp [hout]
      · exact ⟨stop_state _ _, stop_stopReason _ _, stop_controlZero core .invalidTarget,
          stop_zeroSeen _ _⟩
  · constructor
    · intro hc _
      have hin := (hc.accepts ha).mp hok
      constructor
      · exact fun h => absurd h href
      · exact fun h => absurd hin h
    · intro h
      have hin : ∀ i, InRange core.config.maxTargetCounts (targets i) := by
        by_contra hout
        exact href ((h ha).mpr hout)
      exact ⟨fun _ => ⟨fun _ => hin, fun _ => hok⟩, fun _ hout => absurd hin hout,
        fun hn => absurd ha hn⟩

def PcntCount (n : Int32) : Prop := -30000 ≤ n.toInt ∧ n.toInt ≤ 30000

theorem safeCountDelta_bounds {current previous : Int32} (hc : PcntCount current)
    (hp : PcntCount previous) :
    -90000 ≤ (robotChassisSafeCountDelta current previous encoderCountLimit).toInt ∧
      (robotChassisSafeCountDelta current previous encoderCountLimit).toInt ≤ 90000 := by
  obtain ⟨hcl, hch⟩ := hc
  obtain ⟨hpl, hph⟩ := hp
  have hlimit : encoderCountLimit.toInt = 30000 := by decide
  have hraw : (current - previous).toInt = current.toInt - previous.toInt :=
    Word.sub_toInt (by omega) (by omega)
  have hpos : (current - previous + encoderCountLimit).toInt =
      current.toInt - previous.toInt + 30000 := by
    rw [Word.add_toInt] <;> rw [hraw, hlimit] <;> omega
  have hneg : (current - previous - encoderCountLimit).toInt =
      current.toInt - previous.toInt - 30000 := by
    rw [Word.sub_toInt] <;> rw [hraw, hlimit] <;> omega
  unfold robotChassisSafeCountDelta
  dsimp only
  split_ifs <;> omega

/-- What the limit promises about the targets of a core. -/
structure LimitHolds (core : Core) : Prop where
  bounded : ∀ i, InRange core.config.maxTargetCounts (core.targetCounts i)
  noOverflow : core.config.maxTargetCounts = 20 → ∀ i current previous, PcntCount current →
    PcntCount previous →
    (core.targetCounts i -
      robotChassisSafeCountDelta current previous encoderCountLimit).toInt =
    (core.targetCounts i).toInt -
      (robotChassisSafeCountDelta current previous encoderCountLimit).toInt

theorem LimitHolds.of_bounded {core : Core}
    (hb : ∀ i, InRange core.config.maxTargetCounts (core.targetCounts i)) :
    LimitHolds core := by
  refine ⟨hb, ?_⟩
  intro hm i current previous hc hp
  obtain ⟨hl, hh⟩ := safeCountDelta_bounds hc hp
  obtain ⟨htl, hth⟩ := hb i
  have h20 : (20 : Int32).toInt = 20 := by decide
  rw [hm, h20] at htl hth
  exact Word.sub_toInt (by omega) (by omega)

/-- No submit to an armed core carries targets that the check misjudges. -/
def SubmitSafe (e : Event Core CoreCall) : Prop :=
  ∀ targets, e.label.call = .submit (some targets) → e.before.state = .armed →
    AbsSafe e.before.config.maxTargetCounts targets

theorem CoreRun.maxTargetCounts_pos {E : Env} {config : Option CoreConfig}
    {h : List (Event Core CoreCall)} {core : Core} (hr : CoreRun E config h core) :
    0 < core.config.maxTargetCounts.toInt := by
  have hpos := (configValid_iff.mp hr.configValid).2.2.2.2.1
  exact Int32.lt_iff_toInt_lt.mp hpos

theorem Outcome.maxTargetCounts {E : Env} {core core' : Core} {c : CoreCall}
    {r : Option Bool} (ho : Outcome E core c r core') :
    core'.config.maxTargetCounts = core.config.maxTargetCounts := by
  rcases ho.config with hc | ⟨kp, ki, _, _, _, _, _, hc⟩ <;> rw [hc]

theorem inRange_zero {limit : Int32} (hm : 0 < limit.toInt) : InRange limit 0 := by
  unfold InRange
  rw [Int32.toInt_zero]
  omega

def Core.TargetsBounded (core : Core) : Prop :=
  0 < core.config.maxTargetCounts.toInt ∧
    ∀ i, InRange core.config.maxTargetCounts (core.targetCounts i)

/-- Only a submit writes targets, and a safe one writes targets within the limit. -/
theorem Core.TargetsBounded.step {E : Env} {s s' : Core} {c : CoreCall}
    (hb : s.TargetsBounded) (hs : SubmitSafe ⟨s, c, s'⟩) (hd : Det (coreStep E) s c s') :
    s'.TargetsBounded := by
  have ho := outcome_of_det hd
  obtain ⟨hm, hin⟩ := hb
  unfold Core.TargetsBounded
  rw [ho.maxTargetCounts]
  refine ⟨hm, ?_⟩
  rcases ho.targetCounts with hk | hz | ⟨targets, hc, _, ha, href, ht⟩
  · rw [hk]
    exact hin
  · rw [hz]
    exact fun _ => inRange_zero hm
  · rw [ht]
    have hsafe := (refuses_iff_of_absSafe hm).mpr (hs targets hc ha)
    by_contra hout
    exact href (hsafe.mpr hout)

theorem CoreRun.limit_iff {E : Env} {config : Option CoreConfig}
    {h : List (Event Core CoreCall)} {core : Core} (hr : CoreRun E config h core) :
    (∀ e ∈ h, LimitHolds e.after) ↔ ∀ e ∈ h, SubmitSafe e := by
  constructor
  · intro hl e he targets hc ha
    obtain ⟨old, hbefore, _, hd⟩ := hr.of_mem he
    have hm := hbefore.maxTargetCounts_pos
    -- an accepted least value would be among the targets afterwards
    intro hex
    obtain ⟨i, hi⟩ := hex
    by_contra hnone
    have hrefuses : ¬ e.before.Refuses targets := by
      rw [refuses_iff hm]
      exact hnone
    have htargets : e.after.targetCounts = targets := by
      rcases submit_cases e.before targets e.label.nowMs with ⟨hn, _⟩ | ⟨_, href, _⟩ |
        ⟨_, _, _, ht⟩
      · exact absurd ha hn
      · exact absurd href hrefuses
      · rw [← ht, ← hd, coreStep, hc]
        rfl
    have hin := (hl e he).bounded i
    rw [htargets, hi, (outcome_of_det hd).maxTargetCounts] at hin
    exact not_inRange_minValue hm hin
  · intro hs e he
    obtain ⟨new, old, rfl⟩ := List.append_of_mem he
    obtain ⟨core₀, hi, hp⟩ := hr
    obtain ⟨c, _, hv, rfl⟩ := init_eq_some hi
    obtain ⟨hold, hd, _⟩ := hp.at_event
    have hm := Int32.lt_iff_toInt_lt.mp (configValid_iff.mp hv).2.2.2.2.1
    have hinit : (initialCore c).TargetsBounded := ⟨hm, fun _ => inRange_zero hm⟩
    have hend : e.after.TargetsBounded :=
      (hold.snoc hd).invariant_of_guard (fun _ _ _ hb hs hd => hb.step hs hd) hinit
        fun x hx => hs x (List.mem_append_right new hx)
    exact .of_bounded hend.2

/-- Submit keeps its contract, and the targets of every reachable core their limit, exactly
where no accepted target is the least 32-bit value. A RUN line reaches submit unchecked. -/
theorem submit_limit_iff {E : Env} {config : Option CoreConfig}
    {h : List (Event Core CoreCall)} {core : Core} (hr : CoreRun E config h core) :
    (∀ targets t, SubmitContract core targets
        (robotChassisCoreSubmit core (some targets) (.ofNat t)) ↔
      (core.state = .armed → AbsSafe core.config.maxTargetCounts targets)) ∧
    ((∀ e ∈ h, LimitHolds e.after) ↔ ∀ e ∈ h, SubmitSafe e) ∧
    ∀ (d : Diag) (r : Readings) (chars : List Char) (nowMs : UInt32) (wheel target : Int32),
      parseCommand E.single chars = .run wheel target →
      (processCommand E d r chars nowMs).core =
        (robotChassisCoreSubmit d.core (some (runTargets wheel target)) nowMs).2 := by
  refine ⟨?_, hr.limit_iff, ?_⟩
  · intro targets t
    exact submit_contract_iff targets t hr.maxTargetCounts_pos
  · intro d r chars nowMs wheel target hp
    rw [processCommand, hp]
    exact submitTargets_core d _ nowMs

def minTargetCalls : List CoreCall :=
  [⟨.acceptZero, 10⟩, ⟨.arm, 20⟩, ⟨.submit (some (runTargets 1 Int32.minValue)), 30⟩]

theorem submit_limit_iff_firmware :
    CoreRun .rational (some (firmwareConfig .rational))
      (history (coreStep .rational) (initialCore (firmwareConfig .rational)) minTargetCalls)
      (minTargetCalls.foldl (coreStep .rational) (initialCore (firmwareConfig .rational))) ∧
    ((∀ e ∈ history (coreStep .rational) (initialCore (firmwareConfig .rational))
        minTargetCalls, LimitHolds e.after) ↔
      ∀ e ∈ history (coreStep .rational) (initialCore (firmwareConfig .rational))
        minTargetCalls, SubmitSafe e) := by
  have hr := CoreRun.of_calls (E := .rational) (firmwareConfig_init Env.rational_exact)
    minTargetCalls
  exact ⟨hr, (submit_limit_iff hr).2.1⟩

def minTargetCore : Core :=
  (minTargetCalls.take 2).foldl (coreStep .rational) (initialCore (firmwareConfig .rational))

/-- An armed core with a limit of 20 takes the least value for a target, which breaks the
contract, the bound and the next subtraction. -/
theorem submit_accepts_minValue :
    CoreRun .rational (some (firmwareConfig .rational))
      (history (coreStep .rational) (initialCore (firmwareConfig .rational))
        (minTargetCalls.take 2)) minTargetCore ∧
    minTargetCore.state = .armed ∧ minTargetCore.config.maxTargetCounts = 20 ∧
    parseCommand .exact ['R', 'U', 'N', ' ', '1', ' ', '-', '2', '1', '4', '7', '4', '8', '3',
      '6', '4', '8'] = .run 1 Int32.minValue ∧
    ¬ SubmitContract minTargetCore (runTargets 1 Int32.minValue)
      (robotChassisCoreSubmit minTargetCore (some (runTargets 1 Int32.minValue)) 30) ∧
    ¬ LimitHolds
      (robotChassisCoreSubmit minTargetCore (some (runTargets 1 Int32.minValue)) 30).2 ∧
    (Int32.minValue - robotChassisSafeCountDelta 1 0 encoderCountLimit).toInt ≠
      Int32.minValue.toInt - (robotChassisSafeCountDelta 1 0 encoderCountLimit).toInt := by
  have hr := CoreRun.of_calls (E := .rational) (firmwareConfig_init Env.rational_exact)
    (minTargetCalls.take 2)
  have hout : ¬ InRange 20 Int32.minValue := by decide
  have hok : (robotChassisCoreSubmit minTargetCore
      (some (runTargets 1 Int32.minValue)) 30).1 = true := by decide +kernel
  refine ⟨hr, by decide +kernel, by decide +kernel, by decide +kernel, ?_, ?_, by decide⟩
  · intro hc
    exact hout (((hc.accepts (by decide +kernel)).mp hok) 0)
  · intro hl
    exact hout (hl.bounded 0)

end RobotFirmware.Chassis
