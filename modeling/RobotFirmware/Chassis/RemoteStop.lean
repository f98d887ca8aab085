import RobotFirmware.Chassis.RemoteQueue

/-! A remote stop takes effect when it finds room in the queue of remote events. The invariant is
that the stop is still pending with no arm behind it, or that nothing is left that could arm. -/
namespace RobotFirmware.Chassis
open Fp Trace Queue

def StopCall (E : Env) (x : Event System SystemAction) : Prop :=
  ∃ call, x.label = .remote call ∧ call.RequestsStop E

def ArmRequest (E : Env) (x : Event System SystemAction) : Prop :=
  match x.label with
  | .remote call => call.RequestsArm
  | .char ch _ => completedCommand E x.before.diag ch = some .arm
  | .wake _ | .beginDrain | .receive | .handle _ | .finishDrain | .sample _ => False

/-- The first complete drain among the newer events, if no arm is requested before its end,
ends with a core that is not armed. -/
def TakesEffect (E : Env) (newer : List (Event System SystemAction)) : Prop :=
  ∀ rest finish drain begin between,
    newer = rest ++ finish :: (drain ++ begin :: between) →
    begin.label = .beginDrain → (∀ y ∈ between, y.label ≠ .beginDrain) →
    finish.label = .finishDrain → (∀ y ∈ drain, y.label ≠ .finishDrain) →
    (∀ y ∈ drain ++ begin :: between, ¬ ArmRequest E y) →
    finish.after.diag.core.state ≠ .armed

def NeverLost (E : Env) (h : List (Event System SystemAction)) : Prop :=
  ∀ newer x older, h = newer ++ x :: older → StopCall E x → TakesEffect E newer

/-- Nothing pending can leave the core armed. -/
def System.Halting (s : System) : Prop :=
  (s.diag.core.state ≠ .armed ∧ .arm ∉ s.pending) ∨
    ∃ before behind, s.pending = before ++ .stop :: behind ∧ .arm ∉ behind

/-- A stop that finds room is the newest of the pending events. -/
theorem halting_of_room {E : Env} {s s' : System} {call : RemoteCall}
    (hs : systemStep E s (.remote call) = some s') (hc : call.RequestsStop E)
    (hr : s.queue.items.length < remoteQueueLength) : s'.Halting := by
  obtain ⟨⟨refused, q⟩, hcall, rfl⟩ := Option.map_eq_some_iff.mp hs
  rcases remoteCall_cases hcall with ⟨_, hn⟩ | ⟨event, rfl, _, hstop⟩
  · exact absurd hc hn
  · have he := hstop hc
    subst he
    have hsent : (queueRemoteEvent s.queue .stop).2.items = s.queue.items ++ [.stop] :=
      (Fifo.send_of_room hr).2
    refine .inr ⟨s.pending, [], ?_, List.not_mem_nil⟩
    unfold System.pending
    rw [hsent, List.append_assoc]

theorem not_armed_act {E : Env} {d : Diag} {a : Action} (hd : d.core.state ≠ .armed)
    (ha : ¬ ArmsWithBattery E ⟨d, a, act E d a⟩) : (act E d a).core.state ≠ .armed := by
  intro harmed
  have hstep : Det (act E) d a (act E d a) := rfl
  exact ha (enters_armed_step (x := ⟨d, a, act E d a⟩) hstep hd harmed).1

theorem handle_stop_not_armed (E : Env) (d : Diag) (r : Readings) :
    (act E d (.event .stop r)).core.state ≠ .armed := by
  rw [act_core, coreCallOf, eventCall, applyCall_some]
  exact stop_ne_armed _ _

/-- An action of the control task that is not from the queue arms only on an ARM line. -/
theorem SystemAction.armRequest_of_own {E : Env} {s s' : System} {a : SystemAction}
    {action : Action} (ho : a.own = some action)
    (ha : ArmsWithBattery E ⟨s.diag, action, act E s.diag action⟩) :
    ArmRequest E ⟨s, a, s'⟩ := by
  cases a <;> cases ho
  · exact ha.elim
  · exact ha.1
  · exact ha.elim

theorem System.Halting.step {E : Env} {s s' : System} {a : SystemAction} (hi : s.Halting)
    (hn : ¬ ArmRequest E ⟨s, a, s'⟩) (hs : systemStep E s a = some s') : s'.Halting := by
  cases systemStep_change hs with
  | sent hd hp harm =>
    rename_i call event
    have he : .arm ≠ event := fun he => hn (harm he.symm)
    rcases hi with ⟨hc, hm⟩ | ⟨before, behind, hb, hm⟩
    · refine .inl ⟨hd ▸ hc, ?_⟩
      simp [hp, hm, he]
    · refine .inr ⟨before, behind ++ [event], ?_, ?_⟩
      · rw [hp, hb, List.append_assoc, List.cons_append]
      · simp [hm, he]
  | own ho hd hp =>
    rcases hi with ⟨hc, hm⟩ | ⟨before, behind, hb, hm⟩
    · refine .inl ⟨?_, hp ▸ hm⟩
      rw [hd]
      exact not_armed_act hc fun ha => hn (SystemAction.armRequest_of_own ho ha)
    · exact .inr ⟨before, behind, hp.trans hb, hm⟩
  | handled hp hd =>
    rename_i event r
    rcases hi with ⟨hc, hm⟩ | ⟨before, behind, hb, hm⟩
    · rw [hp, List.mem_cons, not_or] at hm
      refine .inl ⟨?_, hm.2⟩
      rw [hd]
      exact not_armed_act hc fun ha => hm.1 ha.1.symm
    · rw [hp] at hb
      cases before with
      | nil =>
        -- the stop itself is handled
        obtain ⟨rfl, hrest⟩ := List.cons.inj hb
        exact .inl ⟨hd ▸ handle_stop_not_armed E s.diag r, hrest ▸ hm⟩
      | cons first before =>
        obtain ⟨_, hrest⟩ := List.cons.inj hb
        exact .inr ⟨before, behind, hrest, hm⟩
  | moved _ hd hp =>
    unfold System.Halting
    rw [hd, hp]
    exact hi

/-- A drain ends only when nothing is pending. -/
theorem finishDrain_eq {E : Env} {s s' : System} (hs : systemStep E s .finishDrain = some s') :
    s.pending = [] ∧ s'.diag = s.diag := by
  unfold systemStep at hs
  dsimp only at hs
  split at hs
  · next hpc hr =>
    cases hs
    have hempty := Fifo.receive_eq_none.mp hr
    refine ⟨?_, rfl⟩
    unfold System.pending
    rw [hpc, hempty]
    rfl
  · cases hs

theorem System.Halting.at_finish {E : Env} {s s' : System} (hi : s.Halting)
    (hs : systemStep E s .finishDrain = some s') : s'.diag.core.state ≠ .armed := by
  obtain ⟨hp, hd⟩ := finishDrain_eq hs
  rw [hd]
  rcases hi with ⟨hc, _⟩ | ⟨before, behind, hb, _⟩
  · exact hc
  · rw [hp] at hb
    exact absurd hb (by simp)

/-- A stop that finds room takes effect, whatever the two tasks did before it. -/
theorem takesEffect_of_room {E : Env} {s₀ s : System}
    {newer older : List (Event System SystemAction)} {x : Event System SystemAction}
    (hp : Path (Enabled (systemStep E)) s₀ (newer ++ x :: older) s) (hx : StopCall E x)
    (hr : x.before.queue.items.length < remoteQueueLength) : TakesEffect E newer := by
  intro rest finish drain begin between hn hbegin hfirst hfinish hcomplete hnone
  obtain ⟨_, hstep, hnew⟩ := hp.at_event
  obtain ⟨call, hl, hc⟩ := hx
  rw [hl] at hstep
  have hhalt : x.after.Halting := halting_of_room hstep hc hr
  rw [hn] at hnew
  obtain ⟨hold, hend, _⟩ := hnew.at_event
  have hbefore : finish.before.Halting :=
    hold.invariant_of_guard (G := fun y => ¬ ArmRequest E y)
      (fun _ _ _ hi hg hs => hi.step hg hs) hhalt hnone
  rw [hfinish] at hend
  exact hbefore.at_finish hend

def readySystem : System := ⟨readyDiag, .waiting, .empty, false⟩

def armingActions : List SystemAction :=
  [.remote .zero, .remote .arm, .wake 1000000, .beginDrain, .receive, .handle goodReadings,
    .receive, .handle goodReadings, .finishDrain, .sample fun _ => some 0]

def armThenCommands (count : ℕ) : List SystemAction :=
  armingActions ++ List.replicate count (.remote (.submitCmdVel (.finite (1 / 10)) (.finite 0)))

def drainActions (count : ℕ) : List SystemAction :=
  (List.replicate count [.receive, .handle goodReadings]).flatten

theorem drainActions_spec {count : ℕ} {a : SystemAction} (ha : a ∈ drainActions count) :
    a = .receive ∨ ∃ r, a = .handle r := by
  unfold drainActions at ha
  simp only [List.mem_flatten, List.mem_replicate] at ha
  obtain ⟨l, ⟨_, rfl⟩, hmem⟩ := ha
  simp only [List.mem_cons, List.not_mem_nil, or_false] at hmem
  rcases hmem with rfl | rfl
  · exact .inl rfl
  · exact .inr ⟨_, rfl⟩

/-- How many events wait when the stop is sent, and the core after the next drain. -/
def stopResult (commands drained : ℕ) : Option (ℕ × State) :=
  (runAll (systemStep .rational) readySystem (armThenCommands commands)).bind fun s =>
    (runAll (systemStep .rational) s (.remote .stop :: .wake 1010000 :: .beginDrain ::
      (drainActions drained ++ [.finishDrain]))).map fun s' =>
        (s.queue.items.length, s'.diag.core.state)

theorem stop_run {commands drained waiting : ℕ} {state : State}
    (hr : stopResult commands drained = some (waiting, state)) :
    ∃ finish drain begin wake x older, Path (Enabled (systemStep .rational)) readySystem
        (finish :: (drain ++ [begin, wake]) ++ x :: older) finish.after ∧
      older.map Event.label = (armThenCommands commands).reverse ∧
      x.label = .remote .stop ∧ x.before.queue.items.length = waiting ∧
      wake.label = .wake 1010000 ∧ begin.label = .beginDrain ∧
      drain.map Event.label = (drainActions drained).reverse ∧
      finish.label = .finishDrain ∧ finish.after.diag.core.state = state := by
  obtain ⟨s, hs, hrest⟩ := Option.bind_eq_some_iff.mp hr
  obtain ⟨s', hs', heq⟩ := Option.map_eq_some_iff.mp hrest
  cases heq
  unfold runAll at hs'
  obtain ⟨t, ht, htail⟩ := Option.bind_eq_some_iff.mp hs'
  obtain ⟨older, hold, hlold⟩ := path_of_runAll hs
  obtain ⟨newer, hnew, hlnew⟩ := path_of_runAll htail
  simp only [List.reverse_cons, List.reverse_append, List.reverse_nil, List.nil_append,
    List.cons_append, List.append_assoc, List.map_eq_cons_iff,
    List.map_eq_append_iff, List.map_eq_nil_iff] at hlnew
  obtain ⟨finish, _, rfl, hfinish, drain, _, rfl, hdrain, begin, _, rfl, hbegin, wake, _, rfl,
    hwake, rfl⟩ := hlnew
  have hp := Path.append (hold.snoc ht) hnew
  obtain ⟨_, _, rfl⟩ := hnew.head
  exact ⟨finish, drain, begin, wake, _, older, hp, hlold, rfl, rfl, hwake, hbegin, hdrain,
    hfinish, rfl⟩

theorem drain_label {drained : ℕ} {drain : List (Event System SystemAction)}
    (hl : drain.map Event.label = (drainActions drained).reverse)
    {y : Event System SystemAction} (hy : y ∈ drain) :
    y.label = .receive ∨ ∃ r, y.label = .handle r := by
  have hm : y.label ∈ drain.map Event.label := List.mem_map_of_mem hy
  rw [hl, List.mem_reverse] at hm
  exact drainActions_spec hm

/-- With eight velocity commands waiting the stop is lost, and the drain that starts after it
ends with the core still armed. -/
theorem remote_stop_lost : ∃ h s, Path (Enabled (systemStep .rational)) readySystem h s ∧
    ¬ NeverLost .rational h := by
  have hr : stopResult 8 8 = some (8, .armed) := by decide +kernel
  obtain ⟨finish, drain, begin, wake, x, older, hp, _, hx, _, hwake, hbegin, hdrain, hfinish,
    harmed⟩ := stop_run hr
  refine ⟨_, _, hp, ?_⟩
  intro hnever
  have heffect := hnever _ x older rfl ⟨.stop, hx, trivial⟩
  refine heffect [] finish drain begin [wake] rfl hbegin ?_ hfinish ?_ ?_ harmed
  · intro y hy
    rw [List.mem_singleton.mp hy, hwake]
    simp
  · intro y hy
    rcases drain_label hdrain hy with h | ⟨r, h⟩ <;> simp [h]
  · intro y hy
    rw [List.mem_append] at hy
    rcases hy with hy | hy
    · rcases drain_label hdrain hy with h | ⟨r, h⟩ <;> simp [ArmRequest, h]
    · simp only [List.mem_cons, List.not_mem_nil, or_false] at hy
      rcases hy with rfl | rfl
      · simp [ArmRequest, hbegin]
      · simp [ArmRequest, hwake]

/-- In a run whose remote stops all find fewer than eight waiting events, none is lost. -/
theorem remote_stop_never_lost {E : Env} {s₀ s : System}
    {h : List (Event System SystemAction)} (hp : Path (Enabled (systemStep E)) s₀ h s)
    (hr : ∀ x ∈ h, StopCall E x → x.before.queue.items.length < remoteQueueLength) :
    NeverLost E h := by
  intro newer x older hh hx
  rw [hh] at hp
  have hmem : x ∈ h := by
    rw [hh]
    exact List.mem_append_right newer List.mem_cons_self
  exact takesEffect_of_room hp hx (hr x hmem hx)

/-- With seven velocity commands waiting the stop is not lost. -/
theorem remote_stop_never_lost_seven : ∃ h s x,
    Path (Enabled (systemStep .rational)) readySystem h s ∧ x ∈ h ∧ StopCall .rational x ∧
      NeverLost .rational h := by
  have hr : stopResult 7 8 = some (7, .disarmed) := by decide +kernel
  obtain ⟨finish, drain, begin, wake, x, older, hp, hold, hx, hwait, hwake, hbegin, hdrain,
    hfinish, _⟩ := stop_run hr
  have hxh : x ∈ finish :: (drain ++ [begin, wake]) ++ x :: older := by simp
  refine ⟨_, _, x, hp, hxh, ⟨.stop, hx, trivial⟩, remote_stop_never_lost hp ?_⟩
  intro y hy ⟨call, hl, hc⟩
  simp only [List.cons_append, List.append_assoc, List.mem_cons, List.mem_append,
    List.not_mem_nil, false_or] at hy
  rcases hy with rfl | hy | rfl | rfl | rfl | hy
  · rw [hfinish] at hl
    cases hl
  · rcases drain_label hdrain hy with h | ⟨r, h⟩ <;> rw [h] at hl <;> cases hl
  · rw [hbegin] at hl
    cases hl
  · rw [hwake] at hl
    cases hl
  · rw [hwait]
    decide
  · have hm : y.label ∈ older.map Event.label := List.mem_map_of_mem hy
    rw [hold, List.mem_reverse, hl] at hm
    have hcalls : call = .zero ∨ call = .arm ∨
        call = .submitCmdVel (.finite (1 / 10)) (.finite 0) := by
      simpa [armThenCommands, armingActions, or_assoc] using hm
    rcases hcalls with rfl | rfl | rfl <;> exact hc.elim

end RobotFirmware.Chassis
