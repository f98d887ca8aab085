import RobotFirmware.Drive.Targets
import RobotFirmware.Chassis.VelocityTargets
import RobotFirmware.Chassis.TargetLimit

/-! The two kinematic paths against each other: the dry run limits speeds and the chassis limits
counts, and both arrive at the same targets. A velocity command is therefore never refused for
its targets. -/
namespace RobotFirmware.Chassis
open Fp Trace Queue

theorem requestedCounts_exact {E : Env} (hE : E.Exact) (v w g k : ℚ) :
    requestedCounts E (.finite v) (.finite w) (.finite g) (.finite k) =
      ⟨.finite ((v - w * g) * k), .finite ((v + w * g) * k)⟩ := by
  unfold requestedCounts
  rw [hE.1]
  simp

theorem exactInRange_of_exact {E : Env} (hE : E.Exact) : E.single.ExactInRange := by
  rw [hE.1]
  exact Format.exact_exactInRange

/-- Limiting before the conversion to counts or after it makes no difference. -/
theorem twistToTargets_of_accepts {E : Env} (hE : E.Exact) {config : Option Drive.CoreConfig}
    {input : Option Drive.CoreInput} {v w g m k : ℚ} {maxTargetCounts : Int32}
    (ha : Drive.Accepts config input v w g m) (hk : 0 < k)
    (hmax : (maxTargetCounts.toInt : ℚ) = k * m) :
    ∃ targets, robotChassisCoreTwistToTargets E (.finite v) (.finite w) (.finite g) (.finite k)
        maxTargetCounts = some (targets, decide (m < Drive.peakSpeed v w g)) ∧
      ∀ i : Wheel, (targets i).toInt = roundAway
        (k * (Limit.factor m (Drive.peakSpeed v w g) * Drive.wheelSpeed v w g i)) := by
  have hpos : 0 < maxTargetCounts.toInt := by
    have hkm : (0 : ℚ) < maxTargetCounts.toInt := hmax ▸ mul_pos hk ha.limit
    exact_mod_cast hkm
  have hside : ∀ x : ℚ, |x * k| = k * |x| := fun x => by rw [abs_mul, abs_of_pos hk, mul_comm]
  have hpeak : max |(v - w * g) * k| |(v + w * g) * k| = k * Drive.peakSpeed v w g := by
    rw [hside, hside, ← mul_max_of_nonneg _ _ hk.le]
    rfl
  obtain ⟨targets, htwist, htargets⟩ := targets_of_finite (exactInRange_of_exact hE) ha.turn hk
    hpos (requestedCounts_exact hE v w g k)
  rw [hpeak, hmax] at htwist htargets
  refine ⟨targets, ?_, ?_⟩
  · rw [htwist]
    congr 2
    exact decide_eq_decide.mpr (mul_lt_mul_iff_right₀ hk)
  · intro i
    rw [(htargets i).1, Limit.factor_mul hk]
    unfold Drive.wheelSpeed
    congr 1
    split_ifs <;> ring

/-- Equal targets on each side and no target beyond the limit of the firmware. -/
structure Modest (targets : Wheels Int32) : Prop where
  left : targets 0 = targets 1
  right : targets 2 = targets 3
  bounded : ∀ i, |(targets i).toInt| ≤ 20

theorem turnGeometryM_exact {E : Env} (hE : E.Exact) : turnGeometryM E = .finite (115 / 1000) := by
  unfold turnGeometryM literalF
  rw [hE.1]
  rfl

theorem countsPerMetrePerStep_exact {E : Env} (hE : E.Exact) :
    countsPerMetrePerStep E = .finite (26000 / 377) := by
  unfold countsPerMetrePerStep literalF Env.ofInt
  rw [hE.1]
  decide +kernel

/-- A velocity command queues modest targets or nothing. -/
theorem submitCmdVel_cases {E : Env} (hE : E.Exact) (q : RemoteQueue)
    (linearXMps angularZRadps : Datum) :
    robotChassisDiagSubmitCmdVel E q linearXMps angularZRadps = (false, q) ∨
      ∃ targets limited, Modest targets ∧
        robotChassisDiagSubmitCmdVel E q linearXMps angularZRadps =
          queueRemoteEvent q (.targets targets limited) := by
  unfold robotChassisDiagSubmitCmdVel
  rw [turnGeometryM_exact hE, countsPerMetrePerStep_exact hE]
  by_cases hf : linearXMps.isFinite = true ∧ angularZRadps.isFinite = true
  · obtain ⟨v, rfl⟩ := Drive.finite_of_test hf.1
    obtain ⟨w, rfl⟩ := Drive.finite_of_test hf.2
    obtain ⟨targets, htwist, htargets⟩ := targets_of_finite (exactInRange_of_exact hE)
      (by norm_num) (by norm_num) (by decide) (requestedCounts_exact hE v w (115 / 1000)
        (26000 / 377)) (m := 20)
    rw [htwist]
    have hsame : ∀ i j : Wheel, (i.val < 2 ↔ j.val < 2) → targets i = targets j := by
      intro i j hij
      apply Int32.toInt_inj.mp
      rw [(htargets i).1, (htargets j).1]
      simp only [hij]
    refine .inr ⟨targets, _, ⟨hsame 0 1 (by decide), hsame 2 3 (by decide), ?_⟩, rfl⟩
    exact fun i => (htargets i).2
  · left
    unfold robotChassisCoreTwistToTargets
    rw [if_neg]
    simp only [Bool.and_eq_true, not_and]
    exact fun h => absurd h.1.1 hf

/-- Targets within the limit are accepted and the core stays armed. -/
theorem submit_of_modest {core : Core} {targets : Wheels Int32} (hm : Modest targets)
    (hmax : core.config.maxTargetCounts = 20) (ha : core.state = .armed) (nowMs : UInt32) :
    (robotChassisCoreSubmit core (some targets) nowMs).1 = true ∧
      (robotChassisCoreSubmit core (some targets) nowMs).2.state = .armed := by
  have hscan : ∀ i, ¬ core.config.maxTargetCounts < (targets i).abs := by
    intro i
    have hpos : 0 < core.config.maxTargetCounts.toInt := by
      rw [hmax]
      decide
    rw [Word.lt_abs_iff hpos, hmax]
    intro h
    exact h.2 (abs_le.mp (hm.bounded i))
  have hnot : ¬ core.state ≠ .armed := not_not.mpr ha
  unfold robotChassisCoreSubmit
  dsimp only
  rw [if_neg hnot]
  cases hr : scanTargets core.config.maxTargetCounts targets (List.finRange 4) false with
  | none =>
    obtain ⟨i, _, hi⟩ := scanTargets_eq_none.mp hr
    exact absurd hi (hscan i)
  | some anyNonzero => cases anyNonzero <;> exact ⟨rfl, ha⟩

def RemoteEvent.Modest (event : RemoteEvent) : Prop :=
  ∀ targets limited, event = .targets targets limited → Chassis.Modest targets

theorem queueRemoteEvent_modest {q : RemoteQueue} {event : RemoteEvent}
    (hq : ∀ e ∈ q.items, e.Modest) (he : event.Modest) :
    ∀ e ∈ (queueRemoteEvent q event).2.items, e.Modest := by
  intro e hmem
  unfold queueRemoteEvent at hmem
  rcases q.send_items event with h | h
  · rw [h] at hmem
    rcases List.mem_append.mp hmem with hold | hnew
    · exact hq e hold
    · rw [List.mem_singleton.mp hnew]
      exact he
  · rw [h] at hmem
    exact hq e hmem

theorem submitCmdVel_modest {E : Env} (hE : E.Exact) {q : RemoteQueue}
    (hq : ∀ e ∈ q.items, e.Modest) (linearXMps angularZRadps : Datum) :
    ∀ e ∈ (robotChassisDiagSubmitCmdVel E q linearXMps angularZRadps).2.items, e.Modest := by
  rcases submitCmdVel_cases hE q linearXMps angularZRadps with h | ⟨targets, limited, hm, h⟩
  · rw [h]
    exact hq
  · rw [h]
    apply queueRemoteEvent_modest hq
    intro targets' limited' heq
    cases heq
    exact hm

theorem remoteCall_modest {E : Env} (hE : E.Exact) {refused refused' : Bool}
    {q q' : RemoteQueue} {call : RemoteCall} (hq : ∀ e ∈ q.items, e.Modest)
    (hc : remoteCall E refused q call = some (refused', q')) : ∀ e ∈ q'.items, e.Modest := by
  have hother : ∀ event : RemoteEvent, (∀ t l, event ≠ .targets t l) → event.Modest :=
    fun event hne t l heq => absurd heq (hne t l)
  unfold remoteCall at hc
  cases call with
  | submitCmdVel linearXMps angularZRadps =>
    split_ifs at hc
    cases hc
    exact submitCmdVel_modest hE hq _ _
  | cmdVel msg =>
    dsimp only at hc
    split_ifs at hc
    · obtain ⟨command, rfl, hr⟩ := Option.map_eq_some_iff.mp hc
      cases hr
      exact submitCmdVel_modest hE hq _ _
    · cases hc
      exact queueRemoteEvent_modest hq (hother _ (by simp))
  | command data =>
    dsimp only at hc
    split_ifs at hc
    all_goals
      cases hc
      exact queueRemoteEvent_modest hq (hother _ (by simp))
  | _ =>
    dsimp only at hc
    split_ifs at hc
    cases hc
    exact queueRemoteEvent_modest hq (hother _ (by simp))

theorem pending_subset {E : Env} {s s' : System} {a : SystemAction}
    (hn : ∀ call, a ≠ .remote call) (hs : systemStep E s a = some s') :
    s'.pending ⊆ s.pending := by
  intro e he
  cases systemStep_change hs with
  | sent _ _ _ => exact absurd rfl (hn _)
  | own _ _ hp => exact hp ▸ he
  | handled hp _ =>
    rw [hp]
    exact List.mem_cons_of_mem _ he
  | moved _ _ hp => exact hp ▸ he

theorem pending_modest_step {E : Env} (hE : E.Exact) {s s' : System} {a : SystemAction}
    (hm : ∀ e ∈ s.pending, e.Modest) (hs : systemStep E s a = some s') :
    ∀ e ∈ s'.pending, e.Modest := by
  cases a with
  | remote call =>
    unfold systemStep at hs
    obtain ⟨⟨refused, q⟩, hc, rfl⟩ := Option.map_eq_some_iff.mp hs
    intro e he
    rcases List.mem_append.mp he with hhand | hitem
    · exact hm e (List.mem_append_left _ hhand)
    · exact remoteCall_modest hE (fun x hx => hm x (List.mem_append_right _ hx)) hc e hitem
  | _ => exact fun e he => hm e (pending_subset (by simp) hs he)

/-- What becomes of the targets of a velocity command when the control task handles them. -/
structure Followed (targets : Wheels Int32) (before after : Core) (accepted : Bool) : Prop where
  modest : Modest targets
  armed : before.state = .armed → accepted = true ∧ after.state = .armed
  otherwise : before.state ≠ .armed → after = before

/-- In any run of both tasks every handled target array is followed. -/
theorem targets_followed {E : Env} (hE : E.Exact) {s₀ s : System}
    {h : List (Event System SystemAction)} (hs : Started E s₀.diag) (hq : s₀.pending = [])
    (hp : Path (Enabled (systemStep E)) s₀ h s) {x : Event System SystemAction} (hx : x ∈ h)
    {r : Readings} {targets : Wheels Int32} {limited : Bool} (hl : x.label = .handle r)
    (hpc : x.before.pc = .handling (.targets targets limited)) :
    Followed targets x.before.diag.core x.after.diag.core
      (robotChassisCoreSubmit x.before.diag.core (some targets) x.before.diag.nowMs).1 := by
  obtain ⟨new, old, rfl⟩ := List.append_of_mem hx
  obtain ⟨hold, hstep, _⟩ := hp.at_event
  have hmodest : ∀ e ∈ x.before.pending, e.Modest :=
    hold.invariant (P := fun t => ∀ e ∈ t.pending, e.Modest)
      (fun _ _ _ hm ht => pending_modest_step hE hm ht) (by simp [hq])
  have hm : Modest targets := by
    refine hmodest (.targets targets limited) ?_ targets limited rfl
    unfold System.pending
    rw [hpc]
    exact List.mem_cons_self
  obtain ⟨hc, hpc'⟩ := control_path hold
  obtain ⟨_, hrun⟩ := coreRun_of_path hs hpc'
  have hmax : x.before.diag.core.config.maxTargetCounts = 20 := by
    rw [hrun.sameButGains]
    rfl
  have hafter : x.after.diag.core =
      (robotChassisCoreSubmit x.before.diag.core (some targets) x.before.diag.nowMs).2 := by
    obtain ⟨before, label, after⟩ := x
    cases hl
    unfold Enabled systemStep at hstep
    dsimp only at hpc hstep
    rw [hpc] at hstep
    cases hstep
    exact submitTargets_core _ _ _
  rw [hafter]
  refine ⟨hm, fun ha => submit_of_modest hm hmax ha _, fun ha => ?_⟩
  rcases submit_cases x.before.diag.core targets x.before.diag.nowMs with
    ⟨_, hsubmit⟩ | ⟨harmed, _⟩ | ⟨harmed, _⟩
  · rw [hsubmit]
  · exact absurd harmed ha
  · exact absurd harmed ha

/-- Where the dry run finds targets the chassis finds their rounded counts, with the same
limited flag; what a velocity command queues is accepted in `ARMED` and faults nowhere. -/
theorem kinematics_agree {E : Env} (hE : E.Exact) :
    (∀ (config : Option Drive.CoreConfig) (input : Option Drive.CoreInput) (v w g m k : ℚ)
      (maxTargetCounts : Int32), config = some ⟨.finite g, .finite m⟩ →
      input = some ⟨.finite v, .finite w⟩ → 0 < k → (maxTargetCounts.toInt : ℚ) = k * m →
      (Drive.robotDriveCoreComputeTargets E config input).1 = .ok →
      ∃ targets, robotChassisCoreTwistToTargets E (.finite v) (.finite w) (.finite g) (.finite k)
          maxTargetCounts =
            some (targets, (Drive.robotDriveCoreComputeTargets E config input).2.limited) ∧
        ∀ i : Wheel, ∃ targetMps,
          (Drive.robotDriveCoreComputeTargets E config input).2.targetMps i = .finite targetMps ∧
          (targets i).toInt = roundAway (k * targetMps)) ∧
    (∀ (q : RemoteQueue) (linearXMps angularZRadps : Datum),
      robotChassisDiagSubmitCmdVel E q linearXMps angularZRadps = (false, q) ∨
        ∃ targets limited, Modest targets ∧
          robotChassisDiagSubmitCmdVel E q linearXMps angularZRadps =
            queueRemoteEvent q (.targets targets limited) ∧
          ∀ (core : Core) (nowMs : UInt32), core.config.maxTargetCounts = 20 →
            core.state = .armed →
            (robotChassisCoreSubmit core (some targets) nowMs).1 = true ∧
              (robotChassisCoreSubmit core (some targets) nowMs).2.state = .armed) ∧
    ∀ (s₀ s : System) (h : List (Event System SystemAction)), Started E s₀.diag →
      s₀.pending = [] → Path (Enabled (systemStep E)) s₀ h s → ∀ x ∈ h, ∀ r targets limited,
      x.label = .handle r → x.before.pc = .handling (.targets targets limited) →
      Followed targets x.before.diag.core x.after.diag.core
        (robotChassisCoreSubmit x.before.diag.core (some targets) x.before.diag.nowMs).1 := by
  refine ⟨?_, ?_, ?_⟩
  · intro config input v w g m k maxTargetCounts hconfig hinput hk hmax hok
    obtain ⟨v', w', g', m', ha⟩ := Drive.accepts_of_ok hE hok
    have hc := hconfig.symm.trans ha.config
    have hi := hinput.symm.trans ha.input
    simp only [Option.some.injEq, Drive.CoreConfig.mk.injEq, Drive.CoreInput.mk.injEq,
      Datum.finite.injEq] at hc hi
    obtain ⟨rfl, rfl⟩ := hc
    obtain ⟨rfl, rfl⟩ := hi
    obtain ⟨targets, htwist, htargets⟩ := twistToTargets_of_accepts hE ha hk hmax
    rw [Drive.computeTargets_of_accepts hE ha]
    exact ⟨targets, htwist, fun i => ⟨_, rfl, htargets i⟩⟩
  · intro q linearXMps angularZRadps
    rcases submitCmdVel_cases hE q linearXMps angularZRadps with h | ⟨targets, limited, hm, h⟩
    · exact .inl h
    · refine .inr ⟨targets, limited, hm, h, fun core nowMs hmax ha => ?_⟩
      exact submit_of_modest hm hmax ha nowMs
  · intro s₀ s h hs hq hp x hx r targets limited hl hpc
    exact targets_followed hE hs hq hp hx hl hpc

/-- A turn whose right side is limited on both paths. -/
theorem kinematics_agree_turn : ∃ targets,
    robotChassisCoreTwistToTargets .rational (.finite 1) (.finite 10) (.finite (1 / 10))
      (.finite 20) 20 = some (targets, true) ∧ (targets 0).toInt = 0 ∧ (targets 3).toInt = 20 := by
  have hok : (Drive.robotDriveCoreComputeTargets .rational (some ⟨.finite (1 / 10), .finite 1⟩)
      (some ⟨.finite 1, .finite 10⟩)).1 = .ok := by decide +kernel
  obtain ⟨hagree, _⟩ := kinematics_agree Env.rational_exact
  have hmax : ((20 : Int32).toInt : ℚ) = 20 * 1 := by
    rw [show (20 : Int32).toInt = 20 from rfl]
    norm_num
  obtain ⟨targets, htwist, htargets⟩ := hagree (some ⟨.finite (1 / 10), .finite 1⟩)
    (some ⟨.finite 1, .finite 10⟩) 1 10 (1 / 10) 1 20 20 rfl rfl (by norm_num) hmax hok
  have hlimited : (Drive.robotDriveCoreComputeTargets .rational
      (some ⟨.finite (1 / 10), .finite 1⟩) (some ⟨.finite 1, .finite 10⟩)).2.limited = true := by
    decide +kernel
  rw [hlimited] at htwist
  have hround : ∀ q : ℚ, ∀ n : ℤ, 20 * q = n → roundAway (20 * q) = n := by
    intro q n hq
    rw [hq, roundAway_intCast]
  obtain ⟨left, hleft, hleftCounts⟩ := htargets 0
  obtain ⟨right, hright, hrightCounts⟩ := htargets 3
  have hl : left = 0 := Datum.finite.inj (hleft.symm.trans (by decide +kernel))
  have hr : right = 1 := Datum.finite.inj (hright.symm.trans (by decide +kernel))
  refine ⟨targets, htwist, ?_, ?_⟩
  · rw [hleftCounts]
    exact hround left 0 (by rw [hl]; norm_num)
  · rw [hrightCounts]
    exact hround right 20 (by rw [hr]; norm_num)

end RobotFirmware.Chassis
