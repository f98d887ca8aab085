import RobotFirmware.Chassis.Control

/-! The fault latch over runs of the core and over drains of the remote queue. A stop for
another reason than a fault disarms a latched core, and nothing else opens the latch. -/
namespace RobotFirmware.Chassis
open Fp Trace

def ClearsFault (e : Event Core CoreCall) : Prop :=
  e.label.call = .clearFault ∧ e.before.zeroSeen = true

/-- Once latched, the core stays so up to the next cleared fault. -/
def LatchHeld (h : List (Event Core CoreCall)) : Prop :=
  ∀ newer new e old, h = newer ++ (new ++ e :: old) → e.after.state = .faultLatched →
    (∀ x ∈ new, ¬ ClearsFault x) → ∀ x ∈ new, x.after.state = .faultLatched

def Faults (e : Event Core CoreCall) : Prop :=
  e.before.state ≠ .faultLatched ∧ e.after.state = .faultLatched

/-- Zero was accepted and the fault successfully cleared later, in a history newest first. -/
def ZeroThenClear (E : Env) (h : List (Event Core CoreCall)) : Prop :=
  ∃ c z newer between older, h = newer ++ c :: (between ++ z :: older) ∧
    (c.label.call = .clearFault ∧ c.label.ret E c.before = some true) ∧
    z.label.call = .acceptZero

/-- Between a fault and a later armed state lie a zero request and a cleared fault. -/
def RearmNeedsClear (E : Env) (h : List (Event Core CoreCall)) : Prop :=
  ∀ newer mid f old, h = newer ++ (mid ++ f :: old) → Faults f →
    (∃ a ∈ mid.head?, a.after.state = .armed) → ZeroThenClear E mid

def Unlatches (e : Event Core CoreCall) : Prop :=
  e.before.state = .faultLatched ∧
    (e.label.call = .stop .explicit ∨ e.label.call = .stop .timeout)

/-- What a latched core does: it stays latched, on a zero request seeing zero, it is cleared,
or a stop opens the latch. -/
theorem latched_cases {E : Env} {core core' : Core} {c : CoreCall} {r : Option Bool}
    (ho : Outcome E core c r core') (hf : core.state = .faultLatched) :
    (core'.state = .faultLatched ∧
      (core'.zeroSeen = true → core.zeroSeen = true ∨ c.call = .acceptZero)) ∨
    (c.call = .clearFault ∧ r = some true ∧ core.zeroSeen = true ∧
      core'.state = .disarmed) ∨
    ((c.call = .stop .explicit ∨ c.call = .stop .timeout) ∧ core'.state = .disarmed) := by
  have hna : ¬ core.state = .armed := by rw [hf]; simp
  have hnd : ¬ core.state = .disarmed := by rw [hf]; simp
  cases ho with
  | gains hd _ => exact absurd hd hnd
  | gainsRefused _ => exact .inl ⟨hf, .inl⟩
  | zeroLatched _ => exact .inl ⟨hf, fun _ => .inr rfl⟩
  | zero hn => exact absurd hf hn
  | arm hd _ => exact absurd hd hnd
  | armRefused _ => exact .inl ⟨hf, .inl⟩
  | submit ha _ _ => exact absurd ha hna
  | submitZero ha _ _ => exact absurd ha hna
  | submitInvalid ha _ => exact absurd ha hna
  | submitRefused _ => exact .inl ⟨hf, .inl⟩
  | @stop cause t =>
    cases cause with
    | explicit => exact .inr (.inr ⟨.inl rfl, rfl⟩)
    | timeout => exact .inr (.inr ⟨.inr rfl, rfl⟩)
    | invalidTarget =>
      exact .inl ⟨rfl, fun h => absurd h (by simp [stop_zeroSeen, StopCause.reason])⟩
    | encoderStall =>
      exact .inl ⟨rfl, fun h => absurd h (by simp [stop_zeroSeen, StopCause.reason])⟩
  | clear _ hz => exact .inr (.inl ⟨rfl, rfl, hz, rfl⟩)
  | clearRefused _ => exact .inl ⟨hf, .inl⟩
  | stepNull => exact .inl ⟨hf, .inl⟩
  | stepIdle _ => exact .inl ⟨hf, .inl⟩
  | stepTimeout ha _ => exact absurd ha hna
  | stepStall ha _ _ => exact absurd ha hna
  | stepDrive ha _ _ => exact absurd ha hna

theorem zeroSeen_of_faults {E : Env} {core core' : Core} {c : CoreCall} {r : Option Bool}
    (ho : Outcome E core c r core') (hn : core.state ≠ .faultLatched)
    (hf : core'.state = .faultLatched) : core'.zeroSeen = false := by
  cases ho with
  | submitInvalid => exact stop_zeroSeen _ _
  | stepStall => exact stop_zeroSeen _ _
  | @stop cause t =>
    cases cause with
    | explicit => exact absurd hf (by simp [stop_state, StopCause.reason])
    | timeout => exact absurd hf (by simp [stop_state, StopCause.reason])
    | invalidTarget => exact stop_zeroSeen _ _
    | encoderStall => exact stop_zeroSeen _ _
  | stepTimeout => exact absurd hf (by simp [stop_state])
  | gains hd _ => exact absurd (hd.symm.trans hf) (by simp)
  | gainsRefused _ => exact absurd hf hn
  | zeroLatched h => exact absurd h hn
  | zero _ => exact absurd hf (by simp)
  | arm _ _ => exact absurd hf (by simp)
  | armRefused _ => exact absurd hf hn
  | submit ha _ _ => exact absurd hf hn
  | submitZero ha _ _ => exact absurd hf hn
  | submitRefused _ => exact absurd hf hn
  | clear h _ => exact absurd h hn
  | clearRefused _ => exact absurd hf hn
  | stepNull => exact absurd hf hn
  | stepIdle _ => exact absurd hf hn
  | stepDrive _ _ _ => exact absurd hf hn

theorem latchHeld_of_safe {E : Env} {core₀ core : Core} {h : List (Event Core CoreCall)}
    (hr : Path (Det (coreStep E)) core₀ h core) (hs : ∀ e ∈ h, ¬ Unlatches e) :
    LatchHeld h := by
  intro newer new e old heq hf hclear
  subst heq
  obtain ⟨s, hleft, -⟩ := hr.split
  have hsnew : ∀ x ∈ new, ¬ Unlatches x := fun x hx =>
    hs x (List.mem_append_right _ (List.mem_append_left _ hx))
  obtain ⟨_, _, hnew⟩ := hleft.at_event
  clear hleft hs hr
  induction hnew with
  | refl => simp
  | @snoc new s s' c hp hd ih =>
    have hmem : ∀ x ∈ new, x ∈ (⟨s, c, s'⟩ : Event Core CoreCall) :: new :=
      fun x hx => List.mem_cons_of_mem _ hx
    have hlatched := ih (fun x hx => hclear x (hmem x hx)) (fun x hx => hsnew x (hmem x hx))
    have hbefore : s.state = .faultLatched := by
      cases hp with
      | refl => exact hf
      | snoc _ _ => exact hlatched _ List.mem_cons_self
    intro x hx
    rcases List.mem_cons.mp hx with rfl | hx
    · rcases latched_cases (outcome_of_det hd) hbefore with ⟨h, _⟩ | ⟨h, _, hz, _⟩ | ⟨h, _⟩
      · exact h
      · exact absurd ⟨h, hz⟩ (hclear _ List.mem_cons_self)
      · exact absurd ⟨hbefore, h⟩ (hsnew _ List.mem_cons_self)
    · exact hlatched x hx

/-- From the fault on, the core is latched with zero seen only after a zero request, or zero
was accepted and the fault cleared. -/
theorem zeroThenClear_of_safe {E : Env} {core₀ core : Core} {mid : List (Event Core CoreCall)}
    (hf : core₀.state = .faultLatched) (hz : core₀.zeroSeen = false)
    (hr : Path (Det (coreStep E)) core₀ mid core) (hs : ∀ e ∈ mid, ¬ Unlatches e) :
    (core.state = .faultLatched ∧
      (core.zeroSeen = true → ∃ z ∈ mid, z.label.call = .acceptZero)) ∨
    ZeroThenClear E mid := by
  induction hr with
  | refl => exact .inl ⟨hf, fun h => absurd (hz.symm.trans h) (by simp)⟩
  | @snoc mid s s' c hp hd ih =>
    rcases ih (fun x hx => hs x (List.mem_cons_of_mem _ hx)) with ⟨hl, hseen⟩ | hdone
    · rcases latched_cases (outcome_of_det hd) hl with ⟨h, hzs⟩ | ⟨h, hret, hzs, _⟩ | ⟨h, _⟩
      · refine .inl ⟨h, fun hz' => ?_⟩
        rcases hzs hz' with hz' | hz'
        · obtain ⟨z, hmem, hzc⟩ := hseen hz'
          exact ⟨z, List.mem_cons_of_mem _ hmem, hzc⟩
        · exact ⟨_, List.mem_cons_self, hz'⟩
      · obtain ⟨z, hmem, hzc⟩ := hseen hzs
        obtain ⟨between, older, rfl⟩ := List.append_of_mem hmem
        exact .inr ⟨⟨s, c, s'⟩, z, [], between, older, rfl, ⟨h, hret⟩, hzc⟩
      · exact absurd ⟨hl, h⟩ (hs _ List.mem_cons_self)
    · obtain ⟨cl, z, newer, between, older, rfl, hcl, hzc⟩ := hdone
      exact .inr ⟨cl, z, ⟨s, c, s'⟩ :: newer, between, older, rfl, hcl, hzc⟩

theorem rearmNeedsClear_of_safe {E : Env} {core₀ core : Core} {h : List (Event Core CoreCall)}
    (hr : Path (Det (coreStep E)) core₀ h core) (hs : ∀ e ∈ h, ¬ Unlatches e) :
    RearmNeedsClear E h := by
  rintro newer mid f old rfl ⟨hn, hf⟩ ⟨a, ha, harmed⟩
  obtain ⟨s, hleft, _⟩ := hr.split
  obtain ⟨_, hd, hmid⟩ := hleft.at_event
  have hz := zeroSeen_of_faults (outcome_of_det hd) hn hf
  have hsmid : ∀ x ∈ mid, ¬ Unlatches x := fun x hx =>
    hs x (List.mem_append_right _ (List.mem_append_left _ hx))
  have hend : s.state = .armed := by
    cases hmid with
    | refl => simp at ha
    | snoc _ _ =>
      cases ha
      exact harmed
  rcases zeroThenClear_of_safe hf hz hmid hsmid with ⟨hl, _⟩ | hdone
  · exact absurd (hl.symm.trans hend) (by simp)
  · exact hdone

theorem safe_of_latchHeld {E : Env} {core₀ core : Core} {h : List (Event Core CoreCall)}
    (hinit : core₀.state ≠ .faultLatched) (hr : Path (Det (coreStep E)) core₀ h core)
    (hl : LatchHeld h) : ∀ e ∈ h, ¬ Unlatches e := by
  rintro e he ⟨hf, hstop⟩
  obtain ⟨newer, old, rfl⟩ := List.append_of_mem he
  obtain ⟨hold, hd, _⟩ := hr.at_event
  have hstate : e.after.state = .disarmed := by
    rw [← hd, coreStep]
    rcases hstop with hstop | hstop <;> rw [hstop] <;> exact stop_state _ _
  -- the call that left the core latched comes right before the stop
  cases old with
  | nil =>
    cases hold with
    | refl => exact hinit hf
  | cons e₀ old =>
    obtain ⟨_, _, hafter⟩ := hold.head
    have hheld := hl newer [e] e₀ old rfl (hafter ▸ hf) (by
      intro x hx
      rw [List.mem_singleton.mp hx]
      intro hclear
      obtain ⟨hc, _⟩ := hclear
      rcases hstop with hstop | hstop <;> rw [hstop] at hc <;> cases hc)
    have := hheld e List.mem_cons_self
    rw [hstate] at this
    cases this

/-- A remote event other than a stop leaves a latched core latched. -/
theorem handleRemoteEvent_latched {E : Env} {d : Diag} {event : RemoteEvent} {r : Readings}
    {nowMs : UInt32} (hf : d.core.state = .faultLatched) :
    (handleRemoteEvent E d event r nowMs).core.state = .faultLatched ↔ event ≠ .stop := by
  rw [handleRemoteEvent_core]
  cases hc : eventCall E d r event with
  | none =>
    constructor
    · rintro _ rfl
      cases hc
    · exact fun _ => hf
  | some call =>
    have ho := outcome E d.core ⟨call, nowMs.toNat⟩
    change (coreStep E d.core ⟨call, nowMs.toNat⟩).state = .faultLatched ↔ _
    constructor
    · rintro hs rfl
      cases hc
      rw [coreStep] at hs
      exact absurd hs (by simp [Call.run, stop_state, StopCause.reason])
    · intro hn
      rcases latched_cases ho hf with ⟨h, _⟩ | ⟨h, _⟩ | ⟨h, _⟩
      · exact h
      · dsimp only at h
        subst h
        cases event <;> simp [eventCall] at hc
      · rcases h with h | h <;> dsimp only at h <;> subst h <;> cases event <;>
          simp [eventCall] at hc hn

theorem drain_latched_iff {E : Env} {d : Diag} (events : List (RemoteEvent × Readings))
    (nowMs : UInt32) (hf : d.core.state = .faultLatched) :
    (∀ pre, pre <+: events →
      (processRemoteEvents E d pre nowMs).core.state = .faultLatched) ↔
    ∀ x ∈ events, x.1 ≠ .stop := by
  constructor
  · intro hall x hx hstop
    obtain ⟨pre, post, rfl⟩ := List.append_of_mem hx
    have hpre := hall pre (List.prefix_append _ _)
    have hnext := hall (pre ++ [x]) ⟨post, by simp⟩
    rw [processRemoteEvents, List.foldl_append] at hnext
    exact (handleRemoteEvent_latched hpre).mp hnext hstop
  · rintro hs pre ⟨post, rfl⟩
    have hpre : ∀ x ∈ pre, x.1 ≠ .stop := fun x hx => hs x (List.mem_append_left _ hx)
    clear hs
    induction pre generalizing d with
    | nil => exact hf
    | cons x pre ih =>
      have hx : (handleRemoteEvent E d x.1 x.2 nowMs).core.state = .faultLatched :=
        (handleRemoteEvent_latched hf).mpr (hpre x List.mem_cons_self)
      exact ih hx fun y hy => hpre y (List.mem_cons_of_mem _ hy)

/-- The latch holds and rearming needs a cleared fault in exactly those runs that issue no
explicit or timeout stop to a latched core, and a drain keeps a latched core latched exactly
when it contains no stop. -/
theorem latch_iff {E : Env} {config : Option CoreConfig} {h : List (Event Core CoreCall)}
    {core : Core} (hr : CoreRun E config h core) :
    (LatchHeld h ∧ RearmNeedsClear E h ↔ ∀ e ∈ h, ¬ Unlatches e) ∧
    ∀ (d : Diag) (events : List (RemoteEvent × Readings)) (nowMs : UInt32),
      d.core.state = .faultLatched →
      ((∀ pre, pre <+: events →
        (processRemoteEvents E d pre nowMs).core.state = .faultLatched) ↔
      ∀ x ∈ events, x.1 ≠ .stop) := by
  obtain ⟨core₀, hi, hp⟩ := hr
  obtain ⟨c, _, _, rfl⟩ := init_eq_some hi
  refine ⟨⟨?_, ?_⟩, fun d events nowMs hf => drain_latched_iff events nowMs hf⟩
  · intro hboth
    obtain ⟨hl, _⟩ := hboth
    exact safe_of_latchHeld (by simp [initialCore]) hp hl
  · intro hs
    exact ⟨latchHeld_of_safe hp hs, rearmNeedsClear_of_safe hp hs⟩

def faultCalls : List CoreCall :=
  [⟨.acceptZero, 10⟩, ⟨.arm, 20⟩, ⟨.submit (some fun _ => 4), 30⟩]

def reopenCalls : List CoreCall :=
  faultCalls ++ [⟨.acceptZero, 40⟩, ⟨.stop .explicit, 50⟩, ⟨.arm, 60⟩]

def faultedCore : Core := faultCalls.foldl (coreStep .rational) (initialCore (testConfig 3))

def reopenHistory : List (Event Core CoreCall) :=
  history (coreStep .rational) (initialCore (testConfig 3)) reopenCalls

def faultedDiag : Diag := { readyDiag with core := faultedCore }

def noReadings : Readings := ⟨⟨none, none⟩, 0⟩

theorem latch_iff_faulted :
    (LatchHeld reopenHistory ∧ RearmNeedsClear .rational reopenHistory ↔
      ∀ e ∈ reopenHistory, ¬ Unlatches e) ∧
    ∀ pre, pre <+: [(.zero, noReadings), (.arm, noReadings)] →
      (processRemoteEvents .rational faultedDiag pre 70).core.state = .faultLatched := by
  have hr := CoreRun.of_calls (E := .rational) (testConfig_init 3 (by decide)) reopenCalls
  refine ⟨(latch_iff hr).1, ?_⟩
  apply ((latch_iff hr).2 faultedDiag _ 70 (by decide +kernel)).mpr
  simp

/-- A zero request, a stop and an arm take a latched core back to ARMED without any cleared
fault, and a drained stop opens the latch. -/
theorem stop_opens_latch :
    (∃ core, CoreRun .rational (some (testConfig 3)) reopenHistory core ∧
      core.state = .armed) ∧
    ¬ LatchHeld reopenHistory ∧ ¬ RearmNeedsClear .rational reopenHistory ∧
    faultedDiag.core.state = .faultLatched ∧
    (processRemoteEvents .rational faultedDiag [(.stop, noReadings)] 40).core.state =
      .disarmed := by
  have hr := CoreRun.of_calls (E := .rational) (testConfig_init 3 (by decide)) reopenCalls
  refine ⟨⟨_, hr, by decide +kernel⟩, ?_, ?_, by decide +kernel, by decide +kernel⟩
  · intro hl
    -- the fault, then the zero request and the stop
    have hheld := hl [_] [_, _] _ _ rfl (by decide +kernel) (by simp [ClearsFault])
    have hstop := hheld _ List.mem_cons_self
    exact absurd hstop (by decide +kernel)
  · intro hn
    obtain ⟨c, z, newer, between, older, heq, ⟨hc, _⟩, _⟩ :=
      hn [] [_, _, _] _ _ rfl ⟨by decide +kernel, by decide +kernel⟩
        ⟨_, rfl, by decide +kernel⟩
    -- none of the three later calls clears the fault
    have hmem : c ∈ newer ++ c :: (between ++ z :: older) :=
      List.mem_append_right newer List.mem_cons_self
    rw [← heq] at hmem
    simp only [List.mem_cons, List.not_mem_nil, or_false] at hmem
    rcases hmem with rfl | rfl | rfl <;> cases hc

end RobotFirmware.Chassis
