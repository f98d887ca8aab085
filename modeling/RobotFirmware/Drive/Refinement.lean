import RobotFirmware.Library.Mailbox
import RobotFirmware.Drive.Spec

/-! The drive dry run publishes the snapshots of its specification, whatever the interleaving of
a producer with the task. -/
namespace RobotFirmware.Drive
open Fp Trace Queue

/-- Evaluations use what the receives of the task took. -/
def mailbox : Mailbox System Action DriveEvent where
  sent x := if x.label = .send then x.before.hand else none
  Receives x := x.label = .receive
  Uses x := x.label = .evaluate
  decReceives x := inferInstanceAs (Decidable (x.label = .receive))
  decUses x := inferInstanceAs (Decidable (x.label = .evaluate))
  sent_of_receives x hx := by rw [hx, if_neg (by simp)]
  not_receives_of_uses x hx := by rw [hx]; simp

/-- The clock of the iteration that consumed the received event. -/
def consumedAt (h : List (Event System Action)) : Option ℤ :=
  (mailbox.firstUse h).map fun x => x.before.clockUs

/-- The call read the clock, took its number and filled the event, and has not sent it since. -/
def MadeBy (h : List (Event System Action)) (e : DriveEvent) (call : ProducerCall) : Prop :=
  ∃ later prepare older, h = later ++ prepare :: older ∧ prepare.label = .prepare call ∧
    call.refused prepare.before.statics = false ∧
    e = call.event prepare.before.clockUs (nextSequence prepare.before.statics.sNextSequence) ∧
    ∀ y ∈ later, y.label ≠ .send

/-- The call sent the event, and nothing has been sent since. -/
def SentBy (h : List (Event System Action)) (e : DriveEvent) (call : ProducerCall) : Prop :=
  ∃ later send older, h = later ++ send :: older ∧ send.label = .send ∧ MadeBy older e call ∧
    ∀ y ∈ later, y.label ≠ .send

def TaskStep (x : Event System Action) : Prop :=
  x.label = .receive ∨ x.label = .evaluate ∨ x.label = .publish

/-- The task state holds the event, not yet judged or with the last verdict on it. -/
def Latched (E : Env) (o : Options) (event : Option DriveEvent) (clockUs : ℤ) (t : TaskState) :
    Option ℤ → Prop
  | none => t = event.elim .initial .receive
  | some consumedUs =>
    ∃ lastUs ≤ clockUs, Carries t event (verdict E o event consumedUs lastUs)

section

variable {E : Env} {o : Options} {h : List (Event System Action)} {s s' : System}

theorem Latched.mono {event : Option DriveEvent} {u w : ℤ} {t : TaskState}
    {consumed : Option ℤ} (hl : Latched E o event u t consumed) (huw : u ≤ w) :
    Latched E o event w t consumed := by
  cases consumed with
  | none => exact hl
  | some consumedUs =>
    obtain ⟨lastUs, hle, hc⟩ := hl
    exact ⟨lastUs, hle.trans huw, hc⟩

/-- The queue holds the latest event as long as it is unread. -/
def Holds (h : List (Event System Action)) (q : Fifo DriveEvent 1) : Prop :=
  (¬ mailbox.Unread h ∧ q.items = []) ∨
    (mailbox.Unread h ∧ ∃ e, mailbox.latest h = some e ∧ q.items = [e])

/-- The state of both tasks is what the history says. -/
structure Tracks (E : Env) (o : Options) (h : List (Event System Action)) (s : System) : Prop where
  unread : ∃ q, s.statics.eventQueue = some q ∧ Holds h q
  snapshots : ∃ q, s.statics.snapshotQueue = some q
  hand : ∀ e ∈ s.hand, e.Genuine s.clockUs
  latest : ∀ e ∈ mailbox.latest h, e.Genuine s.clockUs
  current : ∀ e ∈ mailbox.received h, e.Genuine s.clockUs
  latched : Latched E o (mailbox.received h) s.clockUs s.task (consumedAt h)

/-- A successful start leaves an empty event queue and the snapshot of the start. -/
theorem robotDriveStart_ok {before after : Statics} {inp : StartInputs}
    (hs : robotDriveStart before inp = (none, after)) :
    after.eventQueue = some .empty ∧
      robotDriveGetSnapshot after = some (makeStoppedSnapshot .startup inp.clockUs 0 0) := by
  unfold robotDriveStart at hs
  dsimp only at hs
  split_ifs at hs
  · cases hs
  · cases hs
  · cases hs
    exact ⟨rfl, rfl⟩
  · cases hs

theorem started_tracks (hs : Started s) : Tracks E o [] s := by
  obtain ⟨⟨before, inp, hstart⟩, hhand, htask, _⟩ := hs
  obtain ⟨hevents, hsnapshot⟩ := robotDriveStart_ok hstart
  obtain ⟨q, hq, _⟩ := Option.bind_eq_some_iff.mp hsnapshot
  refine ⟨⟨.empty, hevents, .inl ⟨id, rfl⟩⟩, ⟨q, hq⟩, ?_, ?_, ?_, htask⟩
  · intro e he
    rw [hhand] at he
    cases he
  · intro e he
    cases he
  · intro e he
    cases he

theorem sent_of_ne {x : Event System Action} (hl : x.label ≠ .send) : mailbox.sent x = none :=
  if_neg hl

theorem holds_cons {x : Event System Action} {q : Fifo DriveEvent 1} (hs : x.label ≠ .send)
    (hr : x.label ≠ .receive) (hh : Holds h q) : Holds (x :: h) q := by
  obtain ⟨hlatest, _, hunread⟩ := Mailbox.cons_of_quiet (h := h) (sent_of_ne hs) hr
  unfold Holds
  rw [hunread, hlatest]
  exact hh

/-- A quiet step keeps the record if it lets no time run back and keeps both queues. -/
theorem Tracks.quiet {a : Action} (ht : Tracks E o h s) (hs : a ≠ .send) (hr : a ≠ .receive)
    (he : a ≠ .evaluate) (hclock : s.clockUs ≤ s'.clockUs)
    (hevents : s'.statics.eventQueue = s.statics.eventQueue)
    (hsnapshots : ∃ q, s'.statics.snapshotQueue = some q) (htask : s'.task = s.task)
    (hhand : ∀ e ∈ s'.hand, e.Genuine s'.clockUs) : Tracks E o (⟨s, a, s'⟩ :: h) s' := by
  obtain ⟨hlatest, hreceived, _⟩ :=
    Mailbox.cons_of_quiet (m := mailbox) (x := ⟨s, a, s'⟩) (h := h) (sent_of_ne hs) hr
  have hconsumed : consumedAt (⟨s, a, s'⟩ :: h) = consumedAt h := by
    have huses : ¬ mailbox.Uses ⟨s, a, s'⟩ := he
    have hnot : ¬ (mailbox.Receives ⟨s, a, s'⟩ ∧ mailbox.Unread h) := fun h => hr h.1
    unfold consumedAt
    rw [Mailbox.firstUse, if_neg huses, if_neg hnot]
  obtain ⟨q, hq, hu⟩ := ht.unread
  refine ⟨⟨q, hevents.trans hq, holds_cons hs hr hu⟩, hsnapshots, hhand, ?_, ?_, ?_⟩
  · rw [hlatest]
    exact fun e he => (ht.latest e he).mono hclock
  · rw [hreceived]
    exact fun e he => (ht.current e he).mono hclock
  · rw [hreceived, hconsumed, htask]
    exact ht.latched.mono hclock

theorem ProducerCall.prepare_spec (call : ProducerCall) (s : Statics) (clockUs : ℤ) :
    (call.prepare s clockUs).2.eventQueue = s.eventQueue ∧
      (call.prepare s clockUs).2.snapshotQueue = s.snapshotQueue ∧
      ∀ e ∈ (call.prepare s clockUs).1, e.Genuine clockUs := by
  unfold ProducerCall.prepare
  split_ifs
  · exact ⟨rfl, rfl, fun e he => by cases he⟩
  · refine ⟨rfl, rfl, ?_⟩
    intro e he
    cases he
    exact call.event_genuine clockUs _

theorem Tracks.send (ht : Tracks E o h s) (hs : step E o s .send = some s') :
    Tracks E o (⟨s, .send, s'⟩ :: h) s' := by
  obtain ⟨q, hq, _⟩ := ht.unread
  have hsent : mailbox.sent ⟨s, .send, s'⟩ = s.hand := by simp [mailbox]
  have hreceived : mailbox.received (⟨s, .send, s'⟩ :: h) = mailbox.received h :=
    if_neg (by simp [mailbox])
  have hconsumed : consumedAt (⟨s, .send, s'⟩ :: h) = consumedAt h := by
    simp [consumedAt, Mailbox.firstUse, mailbox]
  unfold step at hs
  dsimp only at hs
  split at hs
  · next event hhand =>
    rw [hhand] at hsent
    have hlatest := Mailbox.latest_of_sent (h := h) hsent
    have hunread := Mailbox.unread_of_sent (h := h) hsent
    cases hs
    have hqueue := sendEvent_spec hq event
    refine ⟨⟨_, hqueue, .inr ⟨hunread, event, hlatest, rfl⟩⟩, ht.snapshots, ?_, ?_, ?_, ?_⟩
    · intro e he
      cases he
    · intro e he
      rw [hlatest] at he
      cases he
      exact ht.hand event hhand
    · rw [hreceived]
      exact ht.current
    · rw [hreceived, hconsumed]
      exact ht.latched
  · cases hs

theorem Tracks.receive (ht : Tracks E o h s) (hs : step E o s .receive = some s') :
    Tracks E o (⟨s, .receive, s'⟩ :: h) s' := by
  obtain ⟨q, hq, hu⟩ := ht.unread
  obtain ⟨hlatest, hreceived, hread⟩ :=
    Mailbox.cons_of_receives (m := mailbox) (x := ⟨s, .receive, s'⟩) (h := h) rfl
  have hconsumed : consumedAt (⟨s, .receive, s'⟩ :: h) =
      if mailbox.Unread h then none else consumedAt h := by
    have hne : ¬ mailbox.Uses ⟨s, .receive, s'⟩ := by simp [mailbox]
    have hreceives : mailbox.Receives ⟨s, .receive, s'⟩ := rfl
    unfold consumedAt
    rw [Mailbox.firstUse, if_neg hne]
    by_cases hnew : mailbox.Unread h <;> simp [hreceives, hnew]
  unfold step at hs
  dsimp only at hs
  rw [hq, Option.bind_some] at hs
  split at hs
  · split at hs
    · next incoming q' hreceive =>
      cases hs
      have hitems := Fifo.items_of_receive hreceive
      rcases hu with ⟨_, hempty⟩ | ⟨hnew, e, he, hone⟩
      · rw [hempty] at hitems
        cases hitems
      · rw [hone] at hitems
        obtain ⟨rfl, hrest⟩ := List.cons.inj hitems
        refine ⟨⟨q', rfl, .inl ⟨hread, hrest.symm⟩⟩, ht.snapshots, ht.hand, ?_, ?_, ?_⟩
        · rw [hlatest]
          exact ht.latest
        · rw [hreceived]
          exact ht.latest
        · rw [hconsumed, hreceived, if_pos hnew, he]
          rfl
    · next hreceive =>
      cases hs
      have hempty := Fifo.receive_eq_none.mp hreceive
      rcases hu with ⟨hold, _⟩ | ⟨_, e, _, hone⟩
      · refine ⟨⟨q, hq, .inl ⟨hread, hempty⟩⟩, ht.snapshots, ht.hand, ?_, ?_, ?_⟩
        · rw [hlatest]
          exact ht.latest
        · rw [hreceived]
          exact ht.latest
        · rw [hconsumed, hreceived, if_neg hold, ← Mailbox.received_of_read hold]
          exact ht.latched
      · rw [hempty] at hone
        cases hone
  · cases hs

/-- An evaluation shows what the specification says, and its verdict is what the task carries. -/
theorem Tracks.evaluate (ht : Tracks E o h s) (hs : step E o s .evaluate = some s') :
    Tracks E o (⟨s, .evaluate, s'⟩ :: h) s' ∧
      ∃ consumedUs, consumedAt (⟨s, .evaluate, s'⟩ :: h) = some consumedUs ∧
        s'.pc = .publishing (specSnapshot E o (mailbox.received h) consumedUs s.clockUs) := by
  obtain ⟨q, hq, hu⟩ := ht.unread
  obtain ⟨hlatest, hreceived, _⟩ := Mailbox.cons_of_quiet (m := mailbox)
    (x := ⟨s, .evaluate, s'⟩) (h := h) (sent_of_ne (by simp)) (by simp [mailbox])
  have hholds : Holds (⟨s, .evaluate, s'⟩ :: h) q := holds_cons (by simp) (by simp) hu
  have hconsumed : consumedAt (⟨s, .evaluate, s'⟩ :: h) =
      some ((consumedAt h).getD s.clockUs) := by
    have huses : mailbox.Uses ⟨s, .evaluate, s'⟩ := rfl
    unfold consumedAt
    rw [Mailbox.firstUse, if_pos huses]
    cases mailbox.firstUse h <;> rfl
  unfold step at hs
  dsimp only at hs
  split at hs
  · cases hs
    have hjudged : ∃ consumedUs, (consumedAt h).getD s.clockUs = consumedUs ∧
        (s.task.evaluate E o s.clockUs).2 =
          specSnapshot E o (mailbox.received h) consumedUs s.clockUs ∧
        Carries (s.task.evaluate E o s.clockUs).1 (mailbox.received h)
          (verdict E o (mailbox.received h) consumedUs s.clockUs) := by
      have hl := ht.latched
      cases hc : consumedAt h with
      | none =>
        rw [hc] at hl
        have htask : s.task = (mailbox.received h).elim .initial .receive := hl
        rw [htask]
        exact ⟨s.clockUs, rfl, evaluate_fresh ht.current⟩
      | some consumedUs =>
        rw [hc] at hl
        obtain ⟨lastUs, hle, hcarries⟩ := hl
        exact ⟨consumedUs, rfl, evaluate_again ht.current hle hcarries⟩
    obtain ⟨consumedUs, hc, hsnapshot, hcarries⟩ := hjudged
    rw [hc] at hconsumed
    refine ⟨⟨⟨q, hq, hholds⟩, ht.snapshots, ht.hand, ?_, ?_, ?_⟩, consumedUs, hconsumed, ?_⟩
    · rw [hlatest]
      exact ht.latest
    · rw [hreceived]
      exact ht.current
    · rw [hconsumed, hreceived]
      exact ⟨s.clockUs, le_rfl, hcarries⟩
    · rw [hsnapshot]
  · cases hs

theorem Tracks.step {a : Action} (ht : Tracks E o h s) (hs : step E o s a = some s') :
    Tracks E o (⟨s, a, s'⟩ :: h) s' := by
  cases a with
  | send => exact ht.send hs
  | receive => exact ht.receive hs
  | evaluate => exact (ht.evaluate hs).1
  | tick us =>
    cases hs
    have hclock : s.clockUs ≤ s.clockUs + us := by omega
    exact ht.quiet (by simp) (by simp) (by simp) hclock rfl ht.snapshots rfl
      fun e he => (ht.hand e he).mono hclock
  | prepare call =>
    unfold Drive.step at hs
    dsimp only at hs
    split at hs
    · cases hs
      obtain ⟨hevents, hsnapshots, hgenuine⟩ := call.prepare_spec s.statics s.clockUs
      exact ht.quiet (by simp) (by simp) (by simp) le_rfl hevents (hsnapshots ▸ ht.snapshots) rfl
        hgenuine
    · cases hs
  | publish =>
    unfold Drive.step at hs
    dsimp only at hs
    split at hs
    · next snapshot _ =>
      cases hs
      obtain ⟨q, hq⟩ := ht.snapshots
      have hqueue := (publishSnapshot_spec hq snapshot).1
      exact ht.quiet (by simp) (by simp) (by simp) le_rfl rfl ⟨_, hqueue⟩ rfl ht.hand
    · cases hs

/-- In every run the state of both tasks is what the history says. -/
theorem tracks {s₀ : System} (hs : Started s₀) (hp : Path (Enabled (step E o)) s₀ h s) :
    Tracks E o h s := by
  induction hp with
  | refl => exact started_tracks hs
  | snoc _ hstep ih => exact ih.step hstep

theorem pc_of_not_taskStep {a : Action} (ht : ¬ TaskStep ⟨s, a, s'⟩)
    (hs : step E o s a = some s') : s'.pc = s.pc := by
  unfold step at hs
  cases a with
  | tick us =>
    cases hs
    rfl
  | prepare call =>
    dsimp only at hs
    split at hs <;> cases hs
    rfl
  | send =>
    dsimp only at hs
    split at hs <;> cases hs
    rfl
  | receive => exact absurd (.inl rfl) ht
  | evaluate => exact absurd (.inr (.inl rfl)) ht
  | publish => exact absurd (.inr (.inr rfl)) ht

/-- Where a step of the task starts and where it ends. -/
theorem taskStep_pc {a : Action} (ht : TaskStep ⟨s, a, s'⟩) (hs : step E o s a = some s') :
    (a = .receive ∧ s.pc = .receiving ∧ s'.pc = .evaluating) ∨
      (a = .evaluate ∧ s.pc = .evaluating ∧ ∃ snapshot, s'.pc = .publishing snapshot) ∨
      (a = .publish ∧ ∃ snapshot, s.pc = .publishing snapshot ∧ s'.pc = .receiving ∧
        s'.statics = publishSnapshot s.statics snapshot) := by
  unfold step at hs
  rcases ht with rfl | rfl | rfl
  · dsimp only at hs
    split at hs
    · next hpc =>
      split at hs <;> cases hs
      · exact .inl ⟨rfl, hpc, rfl⟩
      · exact .inl ⟨rfl, hpc, rfl⟩
    · cases hs
  · dsimp only at hs
    split at hs
    · next hpc =>
      cases hs
      exact .inr (.inl ⟨rfl, hpc, _, rfl⟩)
    · cases hs
  · dsimp only at hs
    split at hs
    · next snapshot hpc =>
      cases hs
      exact .inr (.inr ⟨rfl, snapshot, hpc, rfl, rfl⟩)
    · cases hs

/-- The task is where its latest step has put it. -/
theorem exists_last_taskStep {s₀ : System} (hp : Path (Enabled (step E o)) s₀ h s) :
    ((∀ y ∈ h, ¬ TaskStep y) ∧ s.pc = s₀.pc) ∨
      ∃ late x older, h = late ++ x :: older ∧ TaskStep x ∧ x.after.pc = s.pc ∧
        ∀ y ∈ late, ¬ TaskStep y := by
  induction hp with
  | refl => exact .inl ⟨by simp, rfl⟩
  | @snoc h s s' a _ hs ih =>
    by_cases ht : TaskStep ⟨s, a, s'⟩
    · exact .inr ⟨[], _, h, rfl, ht, rfl, by simp⟩
    · have hpc : s'.pc = s.pc := pc_of_not_taskStep ht hs
      rcases ih with ⟨hnone, hstart⟩ | ⟨late, x, older, rfl, hx, hafter, hlate⟩
      · refine .inl ⟨?_, hpc.trans hstart⟩
        intro y hy
        rcases List.mem_cons.mp hy with rfl | hy
        · exact ht
        · exact hnone y hy
      · refine .inr ⟨_ :: late, x, older, rfl, hx, hafter.trans hpc.symm, ?_⟩
        intro y hy
        rcases List.mem_cons.mp hy with rfl | hy
        · exact ht
        · exact hlate y hy

theorem TaskStep.of_publish {x : Event System Action} (hl : x.label = .publish) : TaskStep x :=
  .inr (.inr hl)

/-- Every publication ends an iteration: a receive, an evaluation and the publication of its
snapshot, with no step of the task between them. -/
theorem exists_iteration {s₀ : System} {older : List (Event System Action)}
    {snapshot : Snapshot} (hs : Started s₀) (hp : Path (Enabled (step E o)) s₀ older s)
    (hpc : s.pc = .publishing snapshot) :
    ∃ late evaluate early receive before,
      older = late ++ evaluate :: (early ++ receive :: before) ∧
      receive.label = .receive ∧ evaluate.label = .evaluate ∧
      (∀ y ∈ late ++ early, ¬ TaskStep y) ∧ evaluate.after.pc = .publishing snapshot := by
  rcases exists_last_taskStep hp with ⟨_, hstart⟩ | ⟨late, v, rest, rfl, hv, hafter, hlate⟩
  · rw [hpc, hs.pc] at hstart
    cases hstart
  rw [hpc] at hafter
  obtain ⟨hrest, hvstep, _⟩ := hp.at_event
  rcases taskStep_pc hv hvstep with ⟨_, _, h⟩ | ⟨hvl, hvpc, _⟩ | ⟨_, _, _, h, _⟩
  · rw [hafter] at h
    cases h
  · rcases exists_last_taskStep hrest with ⟨_, hstart⟩ | ⟨early, r, before, rfl, hr, hra, hearly⟩
    · rw [hvpc, hs.pc] at hstart
      cases hstart
    rw [hvpc] at hra
    obtain ⟨_, hrstep, _⟩ := hrest.at_event
    rcases taskStep_pc hr hrstep with ⟨hrl, _, _⟩ | ⟨_, _, _, h⟩ | ⟨_, _, _, h, _⟩
    · refine ⟨late, v, early, r, before, rfl, hrl, hvl, ?_, hafter⟩
      intro y hy
      rcases List.mem_append.mp hy with hy | hy
      · exact hlate y hy
      · exact hearly y hy
    · rw [hra] at h
      cases h
    · rw [hra] at h
      cases h
  · rw [hafter] at h
    cases h

end

section

variable {E : Env} {o : Options} {s₀ s : System} {h : List (Event System Action)} {e : DriveEvent}

theorem MadeBy.cons {x : Event System Action} {call : ProducerCall} (hm : MadeBy h e call)
    (hx : x.label ≠ .send) : MadeBy (x :: h) e call := by
  obtain ⟨later, prepare, older, rfl, hl, hr, he, hquiet⟩ := hm
  exact ⟨x :: later, prepare, older, rfl, hl, hr, he, List.forall_mem_cons.mpr ⟨hx, hquiet⟩⟩

theorem SentBy.cons {x : Event System Action} {call : ProducerCall} (hm : SentBy h e call)
    (hx : x.label ≠ .send) : SentBy (x :: h) e call := by
  obtain ⟨later, send, older, rfl, hl, hmade, hquiet⟩ := hm
  exact ⟨x :: later, send, older, rfl, hl, hmade, List.forall_mem_cons.mpr ⟨hx, hquiet⟩⟩

/-- Only a call puts an event into the hand. -/
theorem hand_step {a : Action} {s' : System} (hs : step E o s a = some s')
    (he : s'.hand = some e) : (s.hand = some e ∧ a ≠ .send) ∨
      ∃ call, a = .prepare call ∧ call.refused s.statics = false ∧
        e = call.event s.clockUs (nextSequence s.statics.sNextSequence) := by
  unfold step at hs
  cases a with
  | tick us =>
    cases hs
    exact .inl ⟨he, nofun⟩
  | prepare call =>
    right
    dsimp only at hs
    split at hs
    · cases hs
      unfold ProducerCall.prepare at he
      dsimp only at he
      split_ifs at he with hr
      exact ⟨call, rfl, Bool.eq_false_iff.mpr hr, (Option.some.inj he).symm⟩
    · cases hs
  | send =>
    dsimp only at hs
    split at hs
    · cases hs
      cases he
    · cases hs
  | receive =>
    left
    dsimp only at hs
    split at hs
    · split at hs
      · cases hs
        exact ⟨he, nofun⟩
      · cases hs
        exact ⟨he, nofun⟩
    · cases hs
  | evaluate =>
    left
    dsimp only at hs
    split at hs
    · cases hs
      exact ⟨he, nofun⟩
    · cases hs
  | publish =>
    left
    dsimp only at hs
    split at hs
    · cases hs
      exact ⟨he, nofun⟩
    · cases hs

theorem hand_madeBy (hs : Started s₀) (hp : Path (Enabled (step E o)) s₀ h s)
    (he : s.hand = some e) : ∃ call, MadeBy h e call := by
  induction hp with
  | refl =>
    rw [hs.hand] at he
    cases he
  | @snoc old s s' a _ hstep ih =>
    rcases hand_step hstep he with ⟨hheld, ha⟩ | ⟨call, rfl, hr, hevent⟩
    · obtain ⟨call, hmade⟩ := ih hheld
      exact ⟨call, hmade.cons ha⟩
    · exact ⟨call, [], ⟨s, .prepare call, s'⟩, old, rfl, rfl, hr, hevent,
        fun y hy => absurd hy List.not_mem_nil⟩

/-- The latest event is the one that the call which sent it has made. -/
theorem latest_sentBy (hs : Started s₀) (hp : Path (Enabled (step E o)) s₀ h s)
    (he : mailbox.latest h = some e) : ∃ call, SentBy h e call := by
  induction hp with
  | refl => cases he
  | @snoc old s s' a hold hstep ih =>
    by_cases ha : a = .send
    · subst ha
      have hsent : mailbox.sent ⟨s, .send, s'⟩ = s.hand := by simp [mailbox]
      cases hhand : s.hand with
      | none =>
        have hnone : step E o s .send = none := by simp [step, hhand]
        have hsome : step E o s .send = some s' := hstep
        rw [hnone] at hsome
        cases hsome
      | some event =>
        rw [hhand] at hsent
        have hlatest := Mailbox.latest_of_sent (h := old) hsent
        rw [he] at hlatest
        cases hlatest
        obtain ⟨call, hmade⟩ := hand_madeBy hs hold hhand
        exact ⟨call, [], ⟨s, .send, s'⟩, old, rfl, rfl, hmade,
          fun y hy => absurd hy List.not_mem_nil⟩
    · have hlatest : mailbox.latest (⟨s, a, s'⟩ :: old) = mailbox.latest old := by
        rw [Mailbox.latest, sent_of_ne ha, Option.none_or]
      rw [hlatest] at he
      obtain ⟨call, hsentBy⟩ := ih he
      exact ⟨call, hsentBy.cons ha⟩

end

/-- Every published snapshot is the specification's, for the latest event sent before the receive
of the iteration, which is the one that its call has made, the clock of the iteration that consumed
it and the clock of this one. -/
theorem drive_refines {E : Env} {o : Options} {s₀ s : System}
    {newer older : List (Event System Action)} {publish : Event System Action}
    (hs : Started s₀) (hp : Path (Enabled (step E o)) s₀ (newer ++ publish :: older) s)
    (hl : publish.label = .publish) :
    ∃ late evaluate early receive before consumedUs snapshot,
      older = late ++ evaluate :: (early ++ receive :: before) ∧
      receive.label = .receive ∧ evaluate.label = .evaluate ∧
      (∀ y ∈ late ++ early, ¬ TaskStep y) ∧
      (∀ e, mailbox.latest before = some e → ∃ call, SentBy before e call) ∧
      (∀ e, mailbox.latest before = some e → ∃ take first,
        mailbox.ConsumedBy (evaluate :: early ++ receive :: before) e take first ∧
          first.before.clockUs = consumedUs) ∧
      robotDriveGetSnapshot publish.after.statics = some snapshot ∧
      snapshot =
        specSnapshot E o (mailbox.latest before) consumedUs evaluate.before.clockUs ∧
      (snapshot.stopped = true → (∀ wheel, snapshot.targetMps wheel = .finite 0) ∧
        (snapshot.inputFault = true ↔
          snapshot.stopReason = .invalidCommand ∨ snapshot.stopReason = .coreError)) := by
  obtain ⟨hold, hstep, _⟩ := hp.at_event
  rcases taskStep_pc (.of_publish hl) hstep with ⟨h, _, _⟩ | ⟨h, _, _⟩ |
    ⟨_, snapshot, hpc, _, hstatics⟩
  · rw [hl] at h
    cases h
  · rw [hl] at h
    cases h
  obtain ⟨late, v, early, r, before, rfl, hr, hv, hquiet, hafter⟩ := exists_iteration hs hold hpc
  obtain ⟨hrest, hvstep, _⟩ := hold.at_event
  have hearly : ∀ y ∈ early, ¬ mailbox.Receives y :=
    fun y hy h => hquiet y (List.mem_append_right late hy) (.inl h)
  obtain ⟨atStart, label, atEnd⟩ := v
  cases hv
  have hnew : ∀ y ∈ ⟨atStart, .evaluate, atEnd⟩ :: early, ¬ mailbox.Receives y := by
    intro y hy
    rcases List.mem_cons.mp hy with rfl | hy
    · simp [mailbox]
    · exact hearly y hy
  obtain ⟨_, consumedUs, hconsumed, hshown⟩ := (tracks hs hrest).evaluate hvstep
  have hreceived : mailbox.received (early ++ r :: before) = mailbox.latest before :=
    (Mailbox.received_append hearly).trans (if_pos hr)
  rw [hreceived] at hshown
  have hsnapshot :
      snapshot = specSnapshot E o (mailbox.latest before) consumedUs atStart.clockUs := by
    rw [hafter] at hshown
    cases hshown
    rfl
  obtain ⟨q, hq⟩ := (tracks hs hold).snapshots
  obtain ⟨_, hbefore, _⟩ := hrest.split
  refine ⟨late, _, early, r, before, consumedUs, snapshot, rfl, hr, rfl, hquiet, ?_, ?_, ?_,
    hsnapshot, ?_⟩
  · exact fun e he => latest_sentBy hs hbefore.head.1 he
  · intro e he
    obtain ⟨first, hfirst, hclock⟩ := Option.map_eq_some_iff.mp hconsumed
    obtain ⟨take, hconsumedBy⟩ := Mailbox.exists_consumedBy hr hnew he hfirst
    exact ⟨take, first, hconsumedBy, hclock⟩
  · rw [hstatics]
    exact (publishSnapshot_spec hq snapshot).2
  · rw [hsnapshot]
    exact specSnapshot_stopped

def defaultOptions : Options := ⟨115, 1000, 500⟩

def readySystem : System :=
  ⟨1000, (robotDriveStart ⟨none, none, false, 0⟩ ⟨true, true, true, 1000⟩).2, none, .initial,
    .receiving⟩

theorem readySystem_started : Started readySystem :=
  ⟨⟨⟨none, none, false, 0⟩, ⟨true, true, true, 1000⟩, rfl⟩, rfl, rfl, rfl⟩

theorem drive_refines_running : ∃ s publish older before consumedUs nowUs snapshot,
    Path (Enabled (step .rational defaultOptions)) readySystem (publish :: older) s ∧
      publish.label = .publish ∧
      robotDriveGetSnapshot publish.after.statics = some snapshot ∧
      snapshot =
        specSnapshot .rational defaultOptions (mailbox.latest before) consumedUs nowUs ∧
      snapshot.stopped = false := by
  have hr : ((runAll (step .rational defaultOptions) readySystem
      [.prepare (.submitCmdVel (.finite (1 / 10)) (.finite 0)), .send, .receive, .tick 200,
        .evaluate, .publish]).bind fun s => robotDriveGetSnapshot s.statics).map
          Snapshot.stopped = some false := by decide +kernel
  obtain ⟨shown, hshown, hrunning⟩ := Option.map_eq_some_iff.mp hr
  obtain ⟨s, hs, hget⟩ := Option.bind_eq_some_iff.mp hshown
  obtain ⟨h, hp, hlabels⟩ := path_of_runAll hs
  obtain ⟨publish, older, rfl, hl, _⟩ := List.map_eq_cons_iff.mp hlabels
  obtain ⟨_, _, hend⟩ := hp.head
  have hp' : Path (Enabled (step .rational defaultOptions)) readySystem
    ([] ++ publish :: older) s := hp
  obtain ⟨_, evaluate, _, _, before, consumedUs, snapshot, _, _, _, _, _, _, hsnapshot, hspec, _⟩ :=
    drive_refines readySystem_started hp' hl
  refine ⟨s, publish, older, before, consumedUs, _, snapshot, hp, hl, hsnapshot, hspec, ?_⟩
  rw [hend, hget] at hsnapshot
  cases hsnapshot
  exact hrunning

end RobotFirmware.Drive
