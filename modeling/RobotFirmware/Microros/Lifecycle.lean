import RobotFirmware.Library.Resource
import RobotFirmware.Microros.Task

/-! The life of the entities over any number of sessions: what the log of the calls says about
them, and that the flags mirror it. -/
namespace RobotFirmware.Microros
open Trace Resource EarlyReturn

def entityEffect : Call → Effect Entity
  | .init e acquired => if acquired then .take e else .nothing
  | .executorInit _ ok => if ok then .take .executor else .nothing
  | .fini e => .giveBack e
  | _ => .nothing

/-- The entities that are to be finalised before this one. -/
def finalisedBefore : Entity → List Entity
  | .imuTimer | .heartbeatTimer | .commandSubscription | .cmdVelSubscription => [.executor]
  | .node => [.heartbeatPublisher, .imuPublisher, .odomPublisher, .commandSubscription,
      .cmdVelSubscription]
  | .support => [.node, .heartbeatTimer, .imuTimer, .executor]
  | _ => []

/-- The number of handles that the executor was created for, and the handles that it holds. -/
def executorState : List Call → Option (ℕ × List Entity)
  | [] => none
  | x :: older =>
    match x with
    | .executorInit handles ok => if ok then some (handles, []) else executorState older
    | .executorAdd e ok =>
      if ok then (executorState older).map fun p => (p.1, e :: p.2) else executorState older
    | .fini e => if e = .executor then none else executorState older
    | _ => executorState older

def inSession : List Call → Bool
  | [] => false
  | x :: older =>
    match x with
    | .runRosSession => true
    | .sessionReturned => false
    | _ => inSession older

/-- The calls since the latest `create_ros_entities`. -/
def cycle : List Call → List Call
  | [] => []
  | x :: older =>
    match x with
    | .createRosEntities => []
    | _ => x :: cycle older

def entitySet : AppMode → List Entity
  | .chassis => [.executor, .imuTimer, .cmdVelSubscription, .commandSubscription, .imuPublisher,
      .odomPublisher, .node, .support]
  | .dryRun => [.executor, .imuTimer, .heartbeatTimer, .cmdVelSubscription, .commandSubscription,
      .imuPublisher, .heartbeatPublisher, .node, .support]

/-- Exactly the entities of the mode exist, and the executor is full. -/
structure Complete (mode : AppMode) (log : List Call) : Prop where
  live : ∀ e, live entityEffect log e = decide (e ∈ entitySet mode)
  handles : ∃ held, executorState log = some (held.length, held)

/-- What a call that marks the progress of the task asks of the calls before it. -/
structure Marked (mode : AppMode) (older : List Call) (x : Call) : Prop where
  waiting : x = .waitForAgent → ∀ e, live entityEffect older e = false
  creating : x = .createRosEntities → ∀ e, live entityEffect older e = false ∧
    takes entityEffect e (cycle older) ≤ 1
  session : inSession (x :: older) = true → Complete mode (x :: older)

/-- The call marks no progress. -/
def Call.plain : Call → Bool
  | .waitForAgent | .createRosEntities | .runRosSession | .sessionReturned => false
  | _ => true

def Call.inert : Call → Bool
  | .syncSession _ | .pingAgent _ => true
  | x => x.fromCallback

variable {x : Call} {older new : List Call} {mode : AppMode}

theorem inSession_plain (h : x.plain = true) : inSession (x :: older) = inSession older := by
  cases x <;> simp_all [Call.plain, inSession]

theorem cycle_cons (h : x ≠ .createRosEntities) : cycle (x :: older) = x :: cycle older := by
  cases x <;> first | exact absurd rfl h | rfl

theorem cycle_plain (h : x.plain = true) : cycle (x :: older) = x :: cycle older := by
  apply cycle_cons
  rintro rfl
  cases h

theorem inSession_append (h : ∀ x ∈ new, x.plain = true) :
    inSession (new ++ older) = inSession older := by
  induction new with
  | nil => rfl
  | cons x new ih =>
    rw [List.cons_append, inSession_plain (h x List.mem_cons_self)]
    exact ih fun y hy => h y (List.mem_cons_of_mem x hy)

theorem cycle_append (h : ∀ x ∈ new, x.plain = true) :
    cycle (new ++ older) = new ++ cycle older := by
  induction new with
  | nil => rfl
  | cons x new ih =>
    rw [List.cons_append, cycle_plain (h x List.mem_cons_self),
      ih fun y hy => h y (List.mem_cons_of_mem x hy), List.cons_append]

theorem Marked.of_plain (h : x.plain = true) (hout : inSession older = false) :
    Marked mode older x := by
  constructor
  · rintro rfl
    cases h
  · rintro rfl
    cases h
  · intro hin
    rw [inSession_plain h, hout] at hin
    cases hin

theorem Call.plain_of_inert (h : x.inert = true) : x.plain = true := by
  cases x <;> simp_all [Call.plain, Call.inert, Call.fromCallback]

theorem effect_inert (h : x.inert = true) : entityEffect x = .nothing := by
  cases x <;> simp_all [entityEffect, Call.inert, Call.fromCallback]

theorem executorState_inert (h : x.inert = true) :
    executorState (x :: older) = executorState older := by
  cases x <;> simp_all [executorState, Call.inert, Call.fromCallback]

theorem Complete.inert (hc : Complete mode older) (h : x.inert = true) :
    Complete mode (x :: older) := by
  obtain ⟨held, hheld⟩ := hc.handles
  constructor
  · intro e
    rw [live_nothing (effect_inert h)]
    exact hc.live e
  · exact ⟨held, (executorState_inert h).trans hheld⟩

/-- The flags mirror the entities that exist. -/
structure Mirrors (mode : AppMode) (t : Entities) : Prop where
  disciplined : Disciplined entityEffect finalisedBefore t.log
  marked : Log.Judged (Marked mode) t.log
  flags : ∀ e, t.initialized e = live entityEffect t.log e
  once : ∀ e, takes entityEffect e (cycle t.log) ≤ 1

structure Outside (mode : AppMode) (t : Entities) : Prop extends Mirrors mode t where
  outside : inSession t.log = false

structure Idle (mode : AppMode) (t : Entities) : Prop extends Outside mode t where
  free : ∀ e, live entityEffect t.log e = false

/-- Amid a creation: these entities exist, each initialised once, and so does the executor. -/
structure Holding (mode : AppMode) (l : List Entity) (executor : Option (ℕ × List Entity))
    (t : Entities) : Prop extends Outside mode t where
  held : ∀ e, live entityEffect t.log e = decide (e ∈ l)
  taken : ∀ e, takes entityEffect e (cycle t.log) = if e ∈ l then 1 else 0
  executor : executorState t.log = executor

structure Serving (mode : AppMode) (t : Entities) : Prop extends Mirrors mode t where
  inside : inSession t.log = true

variable {t : Entities} {e : Entity} {l : List Entity} {ex ex' : Option (ℕ × List Entity)}

theorem takes_cycle_le (h : entityEffect x = .nothing) (e : Entity) :
    takes entityEffect e (cycle (x :: older)) ≤ takes entityEffect e (cycle older) := by
  by_cases hx : x = .createRosEntities
  · subst hx
    exact Nat.zero_le _
  · rw [cycle_cons hx, takes_nothing h]

theorem Mirrors.call (h : Mirrors mode t) (heffect : entityEffect x = .nothing)
    (hmarked : Marked mode t.log x) : Mirrors mode (t.call x) := by
  constructor
  · exact h.disciplined.nothing heffect
  · exact ⟨hmarked, h.marked⟩
  · intro e
    change t.initialized e = live entityEffect (x :: t.log) e
    rw [live_nothing heffect]
    exact h.flags e
  · intro e
    exact (takes_cycle_le heffect e).trans (h.once e)

theorem Outside.keep (h : Outside mode t) (hx : x.plain = true)
    (heffect : entityEffect x = .nothing) : Outside mode (t.call x) := by
  have hmirrors := h.toMirrors.call heffect (.of_plain hx h.outside)
  exact ⟨hmirrors, (inSession_plain hx).trans h.outside⟩

theorem Outside.take (h : Outside mode t) (hx : x.plain = true)
    (heffect : entityEffect x = .take e)
    (hfree : live entityEffect t.log e = false)
    (hfirst : takes entityEffect e (cycle t.log) = 0) : Outside mode ((t.call x).set e true) := by
  constructor
  · constructor
    · exact h.disciplined.take heffect hfree
    · exact ⟨.of_plain hx h.outside, h.marked⟩
    · intro e'
      change Function.update t.initialized e true e' = live entityEffect (x :: t.log) e'
      rw [live_take heffect]
      by_cases he : e' = e
      · subst he
        simp
      · rw [Function.update_of_ne he, h.flags e']
        simp [he]
    · intro e'
      change takes entityEffect e' (cycle (x :: t.log)) ≤ 1
      rw [cycle_plain hx, takes_take heffect]
      by_cases he : e' = e
      · subst he
        simp [hfirst]
      · have honce := h.once e'
        simpa [he] using honce
  · exact (inSession_plain hx).trans h.outside

theorem Holding.keep (h : Holding mode l ex t) (hx : x.plain = true)
    (heffect : entityEffect x = .nothing) (hexecutor : executorState (x :: t.log) = ex') :
    Holding mode l ex' (t.call x) := by
  constructor
  · exact h.toOutside.keep hx heffect
  · intro e
    change live entityEffect (x :: t.log) e = _
    rw [live_nothing heffect]
    exact h.held e
  · intro e
    change takes entityEffect e (cycle (x :: t.log)) = _
    rw [cycle_plain hx, takes_nothing heffect]
    exact h.taken e
  · exact hexecutor

theorem Holding.take (h : Holding mode l ex t) (hx : x.plain = true)
    (heffect : entityEffect x = .take e) (he : e ∉ l)
    (hexecutor : executorState (x :: t.log) = ex') :
    Holding mode (e :: l) ex' ((t.call x).set e true) := by
  have hfree : live entityEffect t.log e = false := by
    rw [h.held e]
    exact decide_eq_false he
  have hfirst : takes entityEffect e (cycle t.log) = 0 := by
    rw [h.taken e, if_neg he]
  constructor
  · exact h.toOutside.take hx heffect hfree hfirst
  · intro e'
    change live entityEffect (x :: t.log) e' = _
    rw [live_take heffect, h.held e']
    simp
  · intro e'
    change takes entityEffect e' (cycle (x :: t.log)) = _
    rw [cycle_plain hx, takes_take heffect, h.taken e']
    by_cases heq : e' = e
    · subst heq
      simp [he]
    · simp [heq]
  · exact hexecutor

theorem destroyOrder_respects : Respects finalisedBefore destroyOrder := by
  unfold Respects
  decide

theorem destroyRosEntities_log (t : Entities) :
    (destroyRosEntities t).log = giveBackAll .fini t.initialized destroyOrder t.log := by
  unfold giveBackAll
  symm
  apply List.foldl_hom Entities.log
  intro u e
  split_ifs <;> rfl

theorem Outside.destroy (h : Outside mode t) : Idle mode (destroyRosEntities t) := by
  have hgive : ∀ e, entityEffect (.fini e) = .giveBack e := fun _ => rfl
  have hall : ∀ e, live entityEffect t.log e = true → e ∈ destroyOrder := by
    intro e _
    cases e <;> decide
  have hremaining : Remaining entityEffect finalisedBefore t.initialized destroyOrder t.log :=
    ⟨fun e _ => h.flags e, hall, h.disciplined⟩
  obtain ⟨hdisciplined, hfree⟩ := giveBackAll_spec hgive destroyOrder_respects hremaining
  obtain ⟨new, hlog, hnew⟩ := giveBackAll_append Call.fini t.initialized destroyOrder t.log
  rw [← destroyRosEntities_log] at hdisciplined hfree hlog
  have hplain : ∀ x ∈ new, x.plain = true := by
    intro x hx
    obtain ⟨e, rfl⟩ := hnew x hx
    rfl
  have htakes : ∀ e, takes entityEffect e new = 0 := by
    intro e
    apply takes_eq_zero
    intro x hx
    obtain ⟨e', rfl⟩ := hnew x hx
    exact ⟨e', rfl⟩
  constructor
  · constructor
    · constructor
      · exact hdisciplined
      · rw [hlog]
        apply h.marked.append
        intro newer x older heq
        have hsuffix : ∀ y ∈ x :: older, y.plain = true := by
          intro y hy
          exact hplain y (by rw [heq]; exact List.mem_append_right newer hy)
        apply Marked.of_plain (hsuffix x List.mem_cons_self)
        rw [inSession_append fun y hy => hsuffix y (List.mem_cons_of_mem x hy)]
        exact h.outside
      · intro e
        rw [hfree e]
        rfl
      · intro e
        rw [hlog, cycle_append hplain, takes_append, htakes e, Nat.zero_add]
        exact h.once e
    · rw [hlog, inSession_append hplain]
      exact h.outside
  · exact hfree

theorem Idle.reset (h : Idle mode t) : Idle mode (resetEntityHandles t) := by
  have hmirrors : Mirrors mode (resetEntityHandles t) :=
    ⟨h.disciplined, h.marked, fun e => (h.free e).symm, h.once⟩
  exact ⟨⟨hmirrors, h.outside⟩, h.free⟩

theorem Idle.create (h : Idle mode t) : Idle mode (t.call .createRosEntities) := by
  have hmarked : Marked mode t.log .createRosEntities := by
    constructor
    · nofun
    · exact fun _ e => ⟨h.free e, h.once e⟩
    · intro hin
      exact absurd (h.outside.symm.trans hin) Bool.false_ne_true
  exact ⟨⟨h.toMirrors.call rfl hmarked, h.outside⟩, h.free⟩

theorem Idle.begin (h : Idle mode t) :
    Holding mode [] (executorState t.log) (resetEntityHandles (t.call .createRosEntities)) := by
  have hidle := h.create.reset
  constructor
  · exact hidle.toOutside
  · intro e
    rw [decide_eq_false List.not_mem_nil]
    exact hidle.free e
  · intro e
    rfl
  · rfl

theorem initSupport_ends (h : Holding mode [] ex t) (ok contextValid : Bool) :
    ExceptEnds (initSupport ok contextValid t) (Holding mode [.support] ex) (Outside mode) := by
  unfold initSupport
  cases hacquired : ok || contextValid with
  | true =>
    have htake := h.take (x := .init .support true) rfl rfl List.not_mem_nil h.executor
    cases ok with
    | true => exact htake
    | false =>
      rw [Bool.false_or] at hacquired
      rw [hacquired]
      exact htake.toOutside
  | false =>
    obtain ⟨rfl, rfl⟩ := Bool.or_eq_false_iff.mp hacquired
    have hkeep := h.toOutside.keep (x := .init .support false) rfl rfl
    have hflag : t.initialized .support = false := by
      rw [h.flags, h.held]
      exact decide_eq_false List.not_mem_nil
    have hsame : (t.call (.init .support false)).set .support false =
        t.call (.init .support false) := by
      unfold Entities.set
      congr
      exact Function.update_eq_self_iff.mpr hflag.symm
    change Outside mode ((t.call (.init .support false)).set .support false)
    rw [hsame]
    exact hkeep

theorem initEntity_ends (h : Holding mode l ex t) (ok : Bool) (he : e ∉ l) :
    ExceptEnds (initEntity e ok t) (Holding mode (e :: l) ex) (Outside mode) := by
  cases ok with
  | true => exact h.take (x := .init e true) rfl rfl he h.executor
  | false => exact h.toOutside.keep (x := .init e false) rfl rfl

theorem configurePublisherTimeout_ends (h : Holding mode l ex t) (rmwHandle ok : Bool) :
    ExceptEnds (configurePublisherTimeout rmwHandle ok t) (Holding mode l ex) (Outside mode) := by
  unfold configurePublisherTimeout
  split_ifs
  · exact h
  · exact h.toOutside

theorem initExecutor_ends (h : Holding mode l ex t) (handles : ℕ) (ok : Bool)
    (he : .executor ∉ l) : ExceptEnds (initExecutor handles ok t)
      (Holding mode (.executor :: l) (some (handles, []))) (Outside mode) := by
  cases ok with
  | true => exact h.take (x := .executorInit handles true) rfl rfl he rfl
  | false => exact h.toOutside.keep (x := .executorInit handles false) rfl rfl

theorem addHandle_ends {handles : ℕ} {held : List Entity}
    (h : Holding mode l (some (handles, held)) t) (e : Entity) (ok : Bool) :
    ExceptEnds (addHandle e ok t) (Holding mode l (some (handles, e :: held))) (Outside mode) := by
  cases ok with
  | true =>
    have hexecutor : executorState (.executorAdd e true :: t.log) = some (handles, e :: held) := by
      rw [executorState, h.executor]
      rfl
    exact h.keep (x := .executorAdd e true) rfl rfl hexecutor
  | false => exact h.toOutside.keep (x := .executorAdd e false) rfl rfl

/-- The handles in the order of their registration, newest first. -/
def registered : AppMode → List Entity
  | .chassis => [.cmdVelSubscription, .commandSubscription, .imuTimer]
  | .dryRun => [.cmdVelSubscription, .commandSubscription, .imuTimer, .heartbeatTimer]

theorem createUntilFail_ends (h : Holding mode [] ex t) (a : CreateAnswers) :
    ExceptEnds (createUntilFail mode a t)
      (Holding mode (entitySet mode) (some (executorHandles mode, registered mode)))
      (Outside mode) := by
  unfold createUntilFail
  refine (initSupport_ends h a.support a.contextValid).bind fun t h => ?_
  refine (initEntity_ends h a.node (by decide)).bind fun t h => ?_
  refine (initEntity_ends h a.publisher (by cases mode <;> decide)).bind fun t h => ?_
  refine (configurePublisherTimeout_ends h a.rmwHandle a.publisherTimeout).bind fun t h => ?_
  refine (initEntity_ends h a.imuPublisher (by cases mode <;> decide)).bind fun t h => ?_
  refine (initEntity_ends h a.commandSubscription (by cases mode <;> decide)).bind fun t h => ?_
  refine (initEntity_ends h a.cmdVelSubscription (by cases mode <;> decide)).bind fun t h => ?_
  cases mode with
  | chassis =>
    refine (initEntity_ends h a.imuTimer (by decide)).bind fun t h => ?_
    refine (initExecutor_ends h 3 a.executor (by decide)).bind fun t h => ?_
    refine (addHandle_ends h .imuTimer a.addImuTimer).bind fun t h => ?_
    refine (addHandle_ends h .commandSubscription a.addCommandSubscription).bind fun t h => ?_
    exact addHandle_ends h .cmdVelSubscription a.addCmdVelSubscription
  | dryRun =>
    refine (initEntity_ends h a.heartbeatTimer (by decide)).bind fun t h => ?_
    refine (initEntity_ends h a.imuTimer (by decide)).bind fun t h => ?_
    refine (initExecutor_ends h 4 a.executor (by decide)).bind fun t h => ?_
    refine (addHandle_ends h .heartbeatTimer a.addHeartbeatTimer).bind fun t h => ?_
    refine (addHandle_ends h .imuTimer a.addImuTimer).bind fun t h => ?_
    refine (addHandle_ends h .commandSubscription a.addCommandSubscription).bind fun t h => ?_
    exact addHandle_ends h .cmdVelSubscription a.addCmdVelSubscription

/-- A creation ends with all entities of the mode or with none. -/
theorem createRosEntities_spec (h : Idle mode t) (a : CreateAnswers) :
    if (createRosEntities mode a t).1 then
      Holding mode (entitySet mode) (some (executorHandles mode, registered mode))
        (createRosEntities mode a t).2
    else Idle mode (createRosEntities mode a t).2 := by
  have hends := createUntilFail_ends h.begin a
  unfold createRosEntities
  cases hresult : createUntilFail mode a (resetEntityHandles (t.call .createRosEntities)) with
  | ok u =>
    rw [hresult] at hends
    exact hends
  | error u =>
    rw [hresult] at hends
    exact hends.destroy

theorem Idle.stop (h : Idle mode t) (request : MotionRequest) :
    Idle mode (t.call (.motion request)) := by
  constructor
  · exact h.toOutside.keep rfl rfl
  · exact h.free

theorem Idle.wait (h : Idle mode t) : Idle mode (t.call .waitForAgent) := by
  have hmarked : Marked mode t.log .waitForAgent := by
    constructor
    · exact fun _ => h.free
    · nofun
    · intro hin
      exact absurd (h.outside.symm.trans hin) Bool.false_ne_true
  exact ⟨⟨h.toMirrors.call rfl hmarked, h.outside⟩, h.free⟩

theorem Holding.complete
    (h : Holding mode (entitySet mode) (some (executorHandles mode, registered mode)) t) :
    Complete mode t.log := by
  have hlength : executorHandles mode = (registered mode).length := by cases mode <;> rfl
  constructor
  · exact h.held
  · refine ⟨registered mode, ?_⟩
    rw [h.executor, hlength]

theorem Holding.run
    (h : Holding mode (entitySet mode) (some (executorHandles mode, registered mode)) t) :
    Serving mode (t.call .runRosSession) := by
  have hcomplete := h.complete
  have hmarked : Marked mode t.log .runRosSession := by
    constructor
    · nofun
    · nofun
    · exact fun _ => ⟨hcomplete.live, hcomplete.handles⟩
  exact ⟨h.toMirrors.call rfl hmarked, rfl⟩

theorem Serving.complete (h : Serving mode t) : Complete mode t.log := by
  have hmarked := h.marked
  have hinside := h.inside
  cases hlog : t.log with
  | nil =>
    rw [hlog] at hinside
    cases hinside
  | cons x older =>
    rw [hlog] at hmarked hinside
    exact hmarked.1.session hinside

theorem Serving.call (h : Serving mode t) (hx : x.inert = true) : Serving mode (t.call x) := by
  have hmarked : Marked mode t.log x := by
    constructor
    · rintro rfl
      cases hx
    · rintro rfl
      cases hx
    · exact fun _ => h.complete.inert hx
  have hinside := @inSession_plain x t.log (Call.plain_of_inert hx)
  exact ⟨h.toMirrors.call (effect_inert hx) hmarked, hinside.trans h.inside⟩

theorem Serving.calls {cs : List Call} (h : Serving mode t) (hcs : ∀ x ∈ cs, x.inert = true) :
    Serving mode { t with log := cs.reverse ++ t.log } := by
  induction cs generalizing t with
  | nil => exact h
  | cons x cs ih =>
    have hhead := h.call (hcs x List.mem_cons_self)
    have hrest := ih hhead fun y hy => hcs y (List.mem_cons_of_mem x hy)
    rw [List.reverse_cons, List.append_assoc, List.singleton_append]
    exact hrest

theorem Serving.returned (h : Serving mode t) : Outside mode (t.call .sessionReturned) := by
  have hmarked : Marked mode t.log .sessionReturned := by constructor <;> nofun
  exact ⟨h.toMirrors.call rfl hmarked, rfl⟩

/-- What holds of the entities where the task stands. -/
def Stage (mode : AppMode) (t : Task) : Prop :=
  match t.pc with
  | .setup | .discovering | .creating | .stopped => Idle mode t.entities
  | .opening => Holding mode (entitySet mode) (some (executorHandles mode, registered mode))
      t.entities
  | .running _ _ => Serving mode t.entities

theorem Stage.start (mode : AppMode) : Stage mode Task.start := by
  constructor
  · constructor
    · constructor
      · trivial
      · trivial
      · intro e
        rfl
      · intro e
        exact Nat.zero_le 1
    · rfl
  · intro e
    rfl

theorem fatal_idle {t : Task} (h : Idle mode t.entities) : Idle mode (fatal t).entities :=
  (h.stop (.stop .externalRequest)).toOutside.destroy

theorem setup_stage {t : Task} (h : Idle mode t.entities) (a : SetupAnswers) :
    Stage mode (setup a t) := by
  unfold setup
  dsimp only
  split_ifs
  · exact fatal_idle (t := { t with entities := resetEntityHandles t.entities }) h.reset
  · exact fatal_idle (t := ⟨t.pc, resetEntityHandles t.entities, _⟩) h.reset
  · exact h.reset.wait

theorem refreshTimeSync_serving (c : Deployment) {t : Task} (h : Serving mode t.entities)
    (nowUs : ℤ) (answer : SyncAnswer) :
    Serving mode (refreshTimeSync c t nowUs answer).entities := by
  apply h.calls
  intro x hx
  obtain ⟨synced, _, rfl⟩ := Option.map_eq_some_iff.mp (Option.mem_toList.mp hx)
  rfl

theorem spin_serving (c : Deployment) {t : Task} (h : Serving mode t.entities) (i : Iteration) :
    Serving mode (spin c t i).entities := by
  obtain ⟨cs, ros, hspin, heffect⟩ := spin_spec c t i
  have hinert : ∀ x ∈ cs, x.inert = true := by
    intro x hx
    have hfrom := heffect.fromCallback x hx
    cases x <;> first | exact hfrom | rfl
  rw [hspin]
  apply refreshTimeSync_serving
  exact h.calls hinert

theorem closeSession_idle {t : Task} (h : Serving mode t.entities) :
    Idle mode (closeSession t).entities :=
  (h.returned.keep (x := .motion (.stop .externalRequest)) rfl rfl).destroy.wait

theorem pingAgent_stage {t : Task} (h : Serving mode t.entities) {failures : ℕ}
    {nextAgentPingAtUs : ℤ} (hpc : t.pc = .running failures nextAgentPingAtUs) (nowUs : ℤ)
    (ok : Bool) : Stage mode (pingAgent t failures nextAgentPingAtUs nowUs ok) := by
  have hping : Serving mode (t.calls [.pingAgent ok]).entities := h.call (x := .pingAgent ok) rfl
  unfold pingAgent
  dsimp only
  split_ifs
  · unfold Stage
    rw [hpc]
    exact h
  · exact hping
  · exact closeSession_idle hping
  · exact hping

theorem Stage.step {c : Deployment} {t t' : Task} {a : Action} (h : Stage c.mode t)
    (hs : Enabled (taskStep c) t a t') : Stage c.mode t' := by
  unfold Stage at h
  cases taskStep_of_enabled hs with
  | setup a hpc =>
    rw [hpc] at h
    exact setup_stage h a
  | waiting hpc =>
    unfold Stage
    rw [hpc] at h ⊢
    exact h
  | discovered hpc =>
    rw [hpc] at h
    exact h
  | created a hpc hcreated =>
    rw [hpc] at h
    have hspec := createRosEntities_spec h a
    rw [if_pos hcreated] at hspec
    exact hspec
  | failed a hpc hfailed =>
    rw [hpc] at h
    have hspec := createRosEntities_spec h a
    rw [hfailed, if_neg Bool.false_ne_true] at hspec
    exact hspec.wait
  | opened r hpc =>
    rw [hpc] at h
    have hrun : Serving c.mode ({ t with ros := prepareNewRosSession t.ros }.calls
        [.runRosSession]).entities := h.run
    exact refreshTimeSync_serving c hrun r.syncUs r.syncAnswer
  | iterated i failures nextAgentPingAtUs hpc =>
    rw [hpc] at h
    have hspin := spin_serving c h i
    exact pingAgent_stage hspin ((spin_pc c t i).trans hpc) i.nowUs i.pingOk

theorem stage {c : Deployment} {h : List (Event Task Action)} {s : Task}
    (hp : Path (Enabled (taskStep c)) Task.start h s) : Stage c.mode s :=
  hp.invariant (fun _ _ _ hstage hs => hstage.step hs) (.start c.mode)

theorem Stage.mirrors {t : Task} (h : Stage mode t) : Mirrors mode t.entities := by
  unfold Stage at h
  cases hpc : t.pc with
  | setup | discovering | creating | stopped =>
    rw [hpc] at h
    exact h.toMirrors
  | opening =>
    rw [hpc] at h
    exact h.toMirrors
  | running failures nextAgentPingAtUs =>
    rw [hpc] at h
    exact h.toMirrors

/-- No entity existed when the latest creation began. -/
theorem cycle_split {log : List Call} (h : Log.Judged (Marked mode) log) :
    ∃ rest, log = cycle log ++ rest ∧ ∀ e, live entityEffect rest e = false := by
  induction log with
  | nil => exact ⟨[], rfl, fun _ => rfl⟩
  | cons x older ih =>
    by_cases hx : x = .createRosEntities
    · subst hx
      refine ⟨.createRosEntities :: older, rfl, fun e => ?_⟩
      rw [live_nothing (by rfl)]
      exact (h.1.creating rfl e).1
    · obtain ⟨rest, heq, hfree⟩ := ih h.2
      refine ⟨rest, ?_, hfree⟩
      rw [cycle_cons hx, List.cons_append, ← heq]

/-- The life of the entities at every moment of every run. -/
theorem entities_lifecycle {c : Deployment} {h : List (Event Task Action)} {s : Task}
    (hp : Path (Enabled (taskStep c)) Task.start h s) {past : List Call} (hpast : past <:+ s.log) :
    (inSession past = true → Complete c.mode past) ∧
    (∀ older, past = .waitForAgent :: older → ∀ e, live entityEffect older e = false) ∧
    (∀ older, past = .createRosEntities :: older → ∀ e,
      takes entityEffect e (cycle older) = giveBacks entityEffect e (cycle older) ∧
        takes entityEffect e (cycle older) ≤ 1) ∧
    ∀ e older, past = .fini e :: older → live entityEffect older e = true ∧
      ∀ u ∈ finalisedBefore e, live entityEffect older u = false := by
  obtain ⟨newer, hlog⟩ := hpast
  have hmirrors := (stage hp).mirrors
  have hdisciplined := hmirrors.disciplined
  have hmarked := hmirrors.marked
  change newer ++ past = s.entities.log at hlog
  rw [← hlog] at hdisciplined hmarked
  have hdisciplined : Disciplined entityEffect finalisedBefore past := .of_append hdisciplined
  have hmarked := hmarked.of_append
  refine ⟨?_, ?_, ?_, ?_⟩
  · intro hin
    cases past with
    | nil => cases hin
    | cons x older => exact hmarked.1.session hin
  · rintro older rfl
    exact hmarked.1.waiting rfl
  · rintro older rfl e
    obtain ⟨hfree, honce⟩ := hmarked.1.creating rfl e
    obtain ⟨rest, heq, hrest⟩ := cycle_split hmarked.2
    have hold : Disciplined entityEffect finalisedBefore (cycle older ++ rest) := by
      rw [← heq]
      exact hdisciplined.2
    have htakes := hold.takes_eq_since (hrest e)
    rw [← heq, hfree] at htakes
    exact ⟨htakes, honce⟩
  · rintro e older rfl
    exact hdisciplined.1

def allSucceed : CreateAnswers :=
  ⟨true, true, true, true, true, true, true, true, true, true, true, true, true, true, true, true⟩

def silentPass (nowUs : ℤ) (pingOk : Bool) : Iteration :=
  ⟨[], nowUs, nowUs, ⟨true, true⟩, nowUs, pingOk⟩

/-- A creation that fails at the executor, a session that loses the agent, and a new session. -/
def reconnectRun : List Action :=
  [.setup ⟨true, true, true, true, true, true⟩, .discover false, .discover true,
    .create { allSucceed with executor := false }, .discover true, .create allSucceed,
    .openSession ⟨0, 0, ⟨true, true⟩⟩, .iterate (silentPass 1000000 false),
    .iterate (silentPass 2000000 false), .iterate (silentPass 3000000 false), .discover true,
    .create allSucceed, .openSession ⟨4000000, 4000000, ⟨true, true⟩⟩]

theorem entities_lifecycle_reconnect : ∃ h s,
    Path (Enabled (taskStep physicalDeployment)) Task.start h s ∧
      takes entityEffect .node s.log = 3 ∧ giveBacks entityEffect .node s.log = 2 ∧
      Complete physicalDeployment.mode s.log := by
  have hrun : (runAll (taskStep physicalDeployment) Task.start reconnectRun).map
      (fun s => (takes entityEffect .node s.log, giveBacks entityEffect .node s.log,
        inSession s.log)) = some (3, 2, true) := by decide +kernel
  obtain ⟨s, hs, hcounts⟩ := Option.map_eq_some_iff.mp hrun
  obtain ⟨htakes, hrest⟩ := Prod.mk.inj hcounts
  obtain ⟨hgiveBacks, hin⟩ := Prod.mk.inj hrest
  obtain ⟨h, hp, _⟩ := path_of_runAll hs
  exact ⟨h, s, hp, htakes, hgiveBacks, (entities_lifecycle hp (List.suffix_refl _)).1 hin⟩

end RobotFirmware.Microros
