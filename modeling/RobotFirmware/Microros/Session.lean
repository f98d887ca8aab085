import RobotFirmware.Microros.Lifecycle

/-! The borders of a session: when it ends, what is cleared before the next one, and that no
message carries a time from before its synchronisation. -/
namespace RobotFirmware.Microros
open Trace Queue

/-- The pings of the session under way that have failed since its last success. -/
def failuresInARow : List Call → ℕ
  | [] => 0
  | x :: older =>
    match x with
    | .pingAgent ok => if ok then 0 else failuresInARow older + 1
    | .runRosSession | .sessionReturned => 0
    | _ => failuresInARow older

/-- The attempts of the session under way to synchronise the time, newest first. -/
def sessionSyncs : List Call → List Bool
  | [] => []
  | x :: older =>
    match x with
    | .syncSession synced => synced :: sessionSyncs older
    | .runRosSession | .sessionReturned => []
    | _ => sessionSyncs older

def ThirdFailure (log : List Call) : Prop :=
  (∃ older, log = .pingAgent false :: older) ∧ failuresInARow log = 3

/-- A motion stop has been requested since the latest session returned. -/
def stopRequested : List Call → Bool
  | [] => true
  | x :: older =>
    match x with
    | .sessionReturned => false
    | .motion request => decide (request = .stop .externalRequest) || stopRequested older
    | _ => stopRequested older

/-- What a call asks of the calls before it. -/
structure Hygienic (older : List Call) (x : Call) : Prop where
  returned : x = .sessionReturned ↔ ThirdFailure older
  stopped : x = .createRosEntities → stopRequested older = true
  synced : x.stamped = true → (sessionSyncs older).head? = some true

variable {x : Call} {log older : List Call}

theorem stopRequested_since {gap rest : List Call} (h : stopRequested older = true)
    (heq : older = gap ++ .sessionReturned :: rest) :
    .motion (.stop .externalRequest) ∈ gap := by
  subst heq
  induction gap with
  | nil => cases h
  | cons x gap ih =>
    cases x with
    | motion request =>
      rcases Bool.or_eq_true_iff.mp h with hstop | hrest
      · rw [of_decide_eq_true hstop]
        exact List.mem_cons_self
      · exact List.mem_cons_of_mem _ (ih hrest)
    | sessionReturned => cases h
    | _ => exact List.mem_cons_of_mem _ (ih h)

theorem not_thirdFailure (h : failuresInARow log < 3) : ¬ ThirdFailure log := by
  rintro ⟨_, hthree⟩
  omega

/-- A log between two sessions. -/
structure Between (log : List Call) : Prop where
  judged : Log.Judged Hygienic log
  quiet : failuresInARow log = 0
  stopped : stopRequested log = true

theorem Between.keep (h : Between log) (hreturned : x ≠ .sessionReturned)
    (hstamped : x.stamped = false) (hfailures : failuresInARow (x :: log) = failuresInARow log)
    (hstop : stopRequested log = true → stopRequested (x :: log) = true) : Between (x :: log) := by
  have hfailure : ¬ ThirdFailure log := not_thirdFailure (by rw [h.quiet]; omega)
  constructor
  · refine ⟨?_, h.judged⟩
    constructor
    · exact ⟨fun heq => absurd heq hreturned, fun hthird => absurd hthird hfailure⟩
    · exact fun _ => h.stopped
    · intro hx
      rw [hstamped] at hx
      cases hx
  · exact hfailures.trans h.quiet
  · exact hstop h.stopped

theorem Between.entity (x : Call) (log : List Call) (hx : x.aboutEntities = true)
    (h : Between log) : Between (x :: log) := by
  cases x with
  | createRosEntities => exact h.keep nofun rfl rfl id
  | init e acquired => exact h.keep nofun rfl rfl id
  | executorInit handles ok => exact h.keep nofun rfl rfl id
  | executorAdd e ok => exact h.keep nofun rfl rfl id
  | fini e => exact h.keep nofun rfl rfl id
  | _ => cases hx

theorem Between.wait (h : Between log) : Between (.waitForAgent :: log) :=
  h.keep nofun rfl rfl id

theorem Between.stop (h : Between log) (request : MotionRequest) :
    Between (.motion request :: log) := by
  have hstop : stopRequested log = true → stopRequested (.motion request :: log) = true :=
    fun hstop => Bool.or_eq_true_iff.mpr (.inr hstop)
  exact h.keep nofun rfl rfl hstop

structure Within (failures : ℕ) (timeSynced : Bool) (log : List Call) : Prop where
  judged : Log.Judged Hygienic log
  count : failuresInARow log = failures
  fewer : failures < 3
  synced : timeSynced = true → (sessionSyncs log).head? = some true

variable {failures : ℕ} {timeSynced : Bool}

theorem Within.hygienic (h : Within failures timeSynced log) (hreturned : x ≠ .sessionReturned)
    (hcreate : x ≠ .createRosEntities) (hstamped : x.stamped = true → timeSynced = true) :
    Hygienic log x := by
  have hfailure : ¬ ThirdFailure log := not_thirdFailure (by rw [h.count]; exact h.fewer)
  constructor
  · exact ⟨fun heq => absurd heq hreturned, fun hthird => absurd hthird hfailure⟩
  · exact fun heq => absurd heq hcreate
  · exact fun hx => h.synced (hstamped hx)

theorem Within.callback (h : Within failures timeSynced log) (hx : x.fromCallback = true)
    (hstamped : x.stamped = true → timeSynced = true) : Within failures timeSynced (x :: log) := by
  have hreturned : x ≠ .sessionReturned := by
    rintro rfl
    cases hx
  have hcreate : x ≠ .createRosEntities := by
    rintro rfl
    cases hx
  have hfailures : failuresInARow (x :: log) = failuresInARow log := by
    cases x <;> first | rfl | cases hx
  have hsyncs : sessionSyncs (x :: log) = sessionSyncs log := by
    cases x <;> first | rfl | cases hx
  constructor
  · exact ⟨h.hygienic hreturned hcreate hstamped, h.judged⟩
  · exact hfailures.trans h.count
  · exact h.fewer
  · rw [hsyncs]
    exact h.synced

theorem Within.callbacks {cs : List Call} (h : Within failures timeSynced log)
    (hcs : ∀ x ∈ cs, x.fromCallback = true)
    (hstamped : ∀ x ∈ cs, x.stamped = true → timeSynced = true) :
    Within failures timeSynced (cs.reverse ++ log) := by
  induction cs generalizing log with
  | nil => exact h
  | cons x cs ih =>
    have hhead := h.callback (hcs x List.mem_cons_self) (hstamped x List.mem_cons_self)
    rw [List.reverse_cons, List.append_assoc, List.singleton_append]
    apply ih hhead
    · exact fun y hy => hcs y (List.mem_cons_of_mem x hy)
    · exact fun y hy => hstamped y (List.mem_cons_of_mem x hy)

theorem Within.sync (h : Within failures timeSynced log) (synced : Bool) :
    Within failures synced (.syncSession synced :: log) := by
  constructor
  · exact ⟨h.hygienic nofun nofun nofun, h.judged⟩
  · exact h.count
  · exact h.fewer
  · rintro rfl
    rfl

theorem Within.ping (h : Within failures timeSynced log) (ok : Bool) :
    Log.Judged Hygienic (.pingAgent ok :: log) ∧
      failuresInARow (.pingAgent ok :: log) = (if ok then 0 else failures + 1) ∧
      (timeSynced = true → (sessionSyncs (.pingAgent ok :: log)).head? = some true) := by
  refine ⟨⟨h.hygienic nofun nofun nofun, h.judged⟩, ?_, h.synced⟩
  rw [failuresInARow]
  rw [h.count]

/-- The return from a session at its third failure in a row, and the motion stop. -/
theorem Between.of_thirdFailure (hjudged : Log.Judged Hygienic log) (h : ThirdFailure log) :
    Between (.motion (.stop .externalRequest) :: .sessionReturned :: log) := by
  have hfailure : ¬ ThirdFailure (.sessionReturned :: log) := not_thirdFailure (show 0 < 3 by omega)
  constructor
  · refine ⟨?_, ?_, hjudged⟩
    · constructor
      · exact ⟨nofun, fun hthird => absurd hthird hfailure⟩
      · nofun
      · nofun
    · constructor
      · exact ⟨fun _ => h, fun _ => rfl⟩
      · nofun
      · nofun
  · rfl
  · rfl

theorem Between.run (h : Between log) : Within 0 false (.runRosSession :: log) := by
  have hfailure : ¬ ThirdFailure log := not_thirdFailure (by rw [h.quiet]; omega)
  constructor
  · refine ⟨?_, h.judged⟩
    constructor
    · exact ⟨nofun, fun hthird => absurd hthird hfailure⟩
    · nofun
    · nofun
  · rfl
  · omega
  · nofun

def CacheEmpty (s : RosStatics) : Prop := ∀ q, s.commandQueue = some q → q = .empty

theorem resetCommandQueue_empty (s : RosStatics) : CacheEmpty (resetCommandQueue s) := by
  intro q hq
  obtain ⟨_, _, hempty⟩ := Option.map_eq_some_iff.mp hq
  exact hempty.symm

def SessionStage (t : Task) : Prop :=
  match t.pc with
  | .running failures _ => Within failures t.ros.timeSynced t.log
  | _ => Between t.log ∧ CacheEmpty t.ros

theorem fatal_sessionStage {t : Task} (h : Between t.log) : SessionStage (fatal t) := by
  refine ⟨?_, nofun⟩
  exact destroyRosEntities_keeps Between.entity (h.stop (.stop .externalRequest))

theorem setup_sessionStage {t : Task} (h : Between t.log) (a : SetupAnswers) :
    SessionStage (setup a t) := by
  have hempty : CacheEmpty { t.ros with commandQueue := some .empty, heartbeat := 0 } := by
    intro q hq
    exact (Option.some.inj hq).symm
  unfold setup
  dsimp only
  split_ifs
  · exact fatal_sessionStage (t := { t with entities := resetEntityHandles t.entities }) h
  · exact fatal_sessionStage (t := ⟨t.pc, resetEntityHandles t.entities, _⟩) h
  · exact ⟨h.wait, hempty⟩

theorem refreshTimeSync_within (c : Deployment) {t : Task} {failures : ℕ}
    (h : Within failures t.ros.timeSynced t.log) (nowUs : ℤ) (answer : SyncAnswer) :
    Within failures (refreshTimeSync c t nowUs answer).ros.timeSynced
      (refreshTimeSync c t nowUs answer).log := by
  unfold refreshTimeSync refreshTimeSyncIfDue
  split_ifs
  · exact h
  · exact h.sync (answer.ok && answer.epochSynchronized)

theorem spin_within (c : Deployment) {t : Task} {failures : ℕ}
    (h : Within failures t.ros.timeSynced t.log) (i : Iteration) :
    Within failures (spin c t i).ros.timeSynced (spin c t i).log := by
  obtain ⟨cs, ros, hspin, heffect⟩ := spin_spec c t i
  have hcallbacks := h.callbacks heffect.fromCallback heffect.stamped
  rw [← heffect.synced] at hcallbacks
  rw [hspin]
  exact refreshTimeSync_within c (t := { t.calls cs with ros := ros }) hcallbacks i.syncUs
    i.syncAnswer

theorem closeSession_sessionStage {t : Task} (hjudged : Log.Judged Hygienic t.log)
    (h : ThirdFailure t.log) : SessionStage (closeSession t) := by
  have hstopped := Between.of_thirdFailure hjudged h
  have hdestroyed := destroyRosEntities_keeps Between.entity
    (t := ((t.calls [.sessionReturned]).requestMotionStop).entities) hstopped
  exact ⟨hdestroyed.wait, resetCommandQueue_empty t.ros⟩

theorem pingAgent_sessionStage {t : Task} {failures : ℕ} {nextAgentPingAtUs : ℤ}
    (hpc : t.pc = .running failures nextAgentPingAtUs)
    (h : Within failures t.ros.timeSynced t.log) (nowUs : ℤ) (ok : Bool) :
    SessionStage (pingAgent t failures nextAgentPingAtUs nowUs ok) := by
  obtain ⟨hjudged, hcount, hsynced⟩ := h.ping ok
  unfold pingAgent
  dsimp only
  split_ifs with hdue hok hthird
  · unfold SessionStage
    rw [hpc]
    exact h
  · rw [if_pos hok] at hcount
    exact ⟨hjudged, hcount, by omega, hsynced⟩
  · rw [if_neg hok] at hcount
    have hfewer := h.fewer
    have hthree : failuresInARow (.pingAgent ok :: t.log) = 3 := by omega
    have hfailed : ok = false := by simpa using hok
    subst hfailed
    exact closeSession_sessionStage (t := t.calls [.pingAgent false]) hjudged
      ⟨⟨t.log, rfl⟩, hthree⟩
  · rw [if_neg hok] at hcount
    exact ⟨hjudged, hcount, by omega, hsynced⟩

theorem SessionStage.step {c : Deployment} {t t' : Task} {a : Action} (h : SessionStage t)
    (hs : Enabled (taskStep c) t a t') : SessionStage t' := by
  unfold SessionStage at h
  cases taskStep_of_enabled hs with
  | setup a hpc =>
    rw [hpc] at h
    exact setup_sessionStage h.1 a
  | waiting hpc =>
    unfold SessionStage
    rw [hpc] at h ⊢
    exact h
  | discovered hpc =>
    rw [hpc] at h
    exact h
  | created a hpc hcreated =>
    rw [hpc] at h
    exact ⟨createRosEntities_keeps Between.entity h.1 c.mode a, h.2⟩
  | failed a hpc hfailed =>
    rw [hpc] at h
    exact ⟨(createRosEntities_keeps Between.entity h.1 c.mode a).wait, h.2⟩
  | opened r hpc =>
    rw [hpc] at h
    have hrun : Within 0 false (.runRosSession :: t.log) := h.1.run
    exact refreshTimeSync_within c
      (t := { t with ros := prepareNewRosSession t.ros }.calls [.runRosSession]) hrun r.syncUs
      r.syncAnswer
  | iterated i failures nextAgentPingAtUs hpc =>
    rw [hpc] at h
    exact pingAgent_sessionStage ((spin_pc c t i).trans hpc) (spin_within c h i) i.nowUs i.pingOk

theorem sessionStage {c : Deployment} {h : List (Event Task Action)} {s : Task}
    (hp : Path (Enabled (taskStep c)) Task.start h s) : SessionStage s := by
  have hstart : SessionStage Task.start := ⟨⟨trivial, rfl, rfl⟩, nofun⟩
  exact hp.invariant (fun _ _ _ hstage hs => hstage.step hs) hstart

theorem SessionStage.judged {t : Task} (h : SessionStage t) :
    Log.Judged Hygienic t.log ∧ ¬ ThirdFailure t.log := by
  unfold SessionStage at h
  split at h
  · exact ⟨h.judged, not_thirdFailure (by rw [h.count]; exact h.fewer)⟩
  · exact ⟨h.1.judged, not_thirdFailure (by rw [h.1.quiet]; omega)⟩

/-- The borders of the sessions in every run. The cache is empty at every creation. -/
theorem session_hygiene {c : Deployment} {h : List (Event Task Action)} {s : Task}
    (hp : Path (Enabled (taskStep c)) Task.start h s) :
    (∀ newer x older, s.log = newer ++ x :: older →
      (x = .sessionReturned ↔ ThirdFailure older) ∧
      (x = .createRosEntities → ∀ gap rest, older = gap ++ .sessionReturned :: rest →
        .motion (.stop .externalRequest) ∈ gap) ∧
      (x.stamped = true → (sessionSyncs older).head? = some true)) ∧
    ¬ ThirdFailure s.log ∧
    ∀ e ∈ h, ∀ a, e.label = .create a → CacheEmpty e.before.ros := by
  obtain ⟨hjudged, hfailure⟩ := (sessionStage hp).judged
  refine ⟨?_, hfailure, ?_⟩
  · intro newer x older heq
    have hhygienic := Log.judged_iff.mp hjudged newer x older heq
    refine ⟨hhygienic.returned, ?_, hhygienic.synced⟩
    intro hcreate gap rest hgap
    exact stopRequested_since (hhygienic.stopped hcreate) hgap
  · intro e he a hlabel
    obtain ⟨newer, older, rfl⟩ := List.append_of_mem he
    obtain ⟨hbefore, hs, _⟩ := hp.at_event
    have hstage := sessionStage hbefore
    rw [hlabel] at hs
    unfold SessionStage at hstage
    rw [pc_of_create hs] at hstage
    exact hstage.2

def timerPass (nowUs : ℤ) (pingOk : Bool) : Iteration :=
  { silentPass nowUs pingOk with
    callbacks := [.imuTimer true ⟨none, ⟨nowUs, true, 1000000000, true⟩,
      some ⟨fun _ => .finite 0, fun _ => .finite 0, nowUs, 1⟩,
      ⟨nowUs, true, 1000000000, true⟩⟩] }

/-- A session that publishes, and a session without a synchronisation that does not. -/
def resyncRun : List Action :=
  [.setup ⟨true, true, true, true, true, true⟩, .discover true, .create allSucceed,
    .openSession ⟨0, 0, ⟨true, true⟩⟩, .iterate (timerPass 1000000 false),
    .iterate (silentPass 2000000 true), .iterate (silentPass 3000000 false),
    .iterate (silentPass 4000000 false), .iterate (silentPass 5000000 false), .discover true,
    .create allSucceed, .openSession ⟨6000000, 6000000, ⟨false, true⟩⟩,
    .iterate (timerPass 7000000 true)]

theorem session_hygiene_resync : ∃ h s,
    Path (Enabled (taskStep physicalDeployment)) Task.start h s ∧
      (s.log.filter Call.stamped).length = 1 ∧ sessionSyncs s.log = [false] ∧
      ¬ ThirdFailure s.log := by
  have hrun : (runAll (taskStep physicalDeployment) Task.start resyncRun).map
      (fun s => ((s.log.filter Call.stamped).length, sessionSyncs s.log)) =
      some (1, [false]) := by decide +kernel
  obtain ⟨s, hs, hcounts⟩ := Option.map_eq_some_iff.mp hrun
  obtain ⟨hstamped, hsyncs⟩ := Prod.mk.inj hcounts
  obtain ⟨h, hp, _⟩ := path_of_runAll hs
  exact ⟨h, s, hp, hstamped, hsyncs, (session_hygiene hp).2.1⟩

end RobotFirmware.Microros
