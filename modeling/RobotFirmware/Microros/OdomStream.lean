import RobotFirmware.Chassis.OdomStamps
import RobotFirmware.Microros.Publisher

/-! The stream of odometry messages: the control task writes poses with their times, and the
publisher takes a snapshot, publishes it or discards it, at any moment in between. -/
namespace RobotFirmware.Microros
open Fp Trace Chassis

/-- The pose of the control task with its time, as one critical section copies it. -/
def odomSnapshot (d : Diag) : OdomSnapshot :=
  ⟨d.odomSampledAtUs, d.odom.xM, d.odom.yM, d.odom.yawRad, d.odom.linearXMps,
    d.odom.angularZRadps⟩

def robotChassisDiagGetOdomSnapshot (d : Diag) : Option OdomSnapshot :=
  if 0 < d.odomSampledAtUs then some (odomSnapshot d) else none

theorem getOdomSnapshot_of_pos {d : Diag} (hd : 0 < d.odomSampledAtUs) :
    robotChassisDiagGetOdomSnapshot d = some (odomSnapshot d) := if_pos hd

/-- Both tasks, and the snapshot of a `publish_odom_snapshot` that is under way. -/
structure OdomSystem where
  diag : Diag
  taken : Option OdomSnapshot
  ros : RosStatics

/-- The publisher can be interrupted between its snapshot and the rest of its work. -/
inductive OdomAction
  | control (a : Chassis.Action)
  | take
  | publish (r : PublishReadings)
  /-- Whatever else the task does with the statics; only the publisher has a use for the memory
  of the odometry. -/
  | other (ros : RosStatics)

def odomStep (E : Env) (m : Libm) (s : OdomSystem) : OdomAction → OdomSystem
  | .control a => { s with diag := act E s.diag a }
  | .take => { s with taken := robotChassisDiagGetOdomSnapshot s.diag }
  | .publish r => { s with taken := none, ros := (publishOdomSnapshot E m s.ros s.taken r).2 }
  | .other ros =>
    { s with ros := { ros with
        hasPublishedOdomSample := s.ros.hasPublishedOdomSample
        lastPublishedOdomSampledAtUs := s.ros.lastPublishedOdomSampledAtUs
        lastPublishedOdomStampNs := s.ros.lastPublishedOdomStampNs } }

def OdomSystem.start (d : Diag) : OdomSystem := ⟨d, none, .zero⟩

/-- Without an interruption the two parts are the function of the source. -/
theorem publish_after_take (E : Env) (m : Libm) (s : OdomSystem) (r : PublishReadings) :
    (odomStep E m (odomStep E m s .take) (.publish r)).ros =
      (publishOdomSnapshot E m s.ros (robotChassisDiagGetOdomSnapshot s.diag) r).2 := rfl

def OdomAction.own : OdomAction → Option Chassis.Action
  | .control a => some a
  | .take | .publish _ | .other _ => none

def controlActions (h : List (Event OdomSystem OdomAction)) : List Chassis.Action :=
  (h.filterMap fun e => e.label.own).reverse

def WritesStamp (E : Env) (e : Event OdomSystem OdomAction) (sampledAtUs : ℤ) : Prop :=
  ∃ a, e.label = .control a ∧ writtenStamp E e.before.diag a = some sampledAtUs

def PublishesOdom (E : Env) (m : Libm) (e : Event OdomSystem OdomAction)
    (snapshot : OdomSnapshot) : Prop :=
  ∃ r, e.label = .publish r ∧ e.before.taken = some snapshot ∧ r.published = true ∧
    (publishOdomSnapshot E m e.before.ros (some snapshot) r).1.isSome = true

/-- The snapshot fails the `sampled_at` check against the one published last. -/
def DiscardsOdom (e : Event OdomSystem OdomAction) (snapshot : OdomSnapshot) : Prop :=
  (∃ r, e.label = .publish r) ∧ e.before.taken = some snapshot ∧
    e.before.ros.hasPublishedOdomSample = true ∧
    snapshot.sampledAtUs ≤ e.before.ros.lastPublishedOdomSampledAtUs

/-- What the publisher relies on. -/
structure StreamInOrder (E : Env) (m : Libm) (h : List (Event OdomSystem OdomAction)) : Prop where
  /-- A pose written after a publication is not older than what was published. -/
  written : ∀ new e old p snapshot sampledAtUs, h = new ++ e :: old → p ∈ old →
    PublishesOdom E m p snapshot → WritesStamp E e sampledAtUs → snapshot.sampledAtUs ≤ sampledAtUs
  /-- A snapshot that is discarded has been published itself. -/
  discarded : ∀ new e old snapshot, h = new ++ e :: old → DiscardsOdom e snapshot →
    ∃ p ∈ old, PublishesOdom E m p snapshot

variable {E : Env} {m : Libm} {s₀ s : OdomSystem} {h : List (Event OdomSystem OdomAction)}

theorem controlActions_cons (e : Event OdomSystem OdomAction) :
    controlActions (e :: h) = controlActions h ++ e.label.own.toList := by
  unfold controlActions
  cases hown : e.label.own with
  | none => simp [hown]
  | some a => simp [hown]

theorem controlActions_append (new old : List (Event OdomSystem OdomAction)) :
    controlActions (new ++ old) = controlActions old ++ controlActions new := by
  unfold controlActions
  rw [List.filterMap_append, List.reverse_append]

theorem controlActions_history (E : Env) (m : Libm) (s : OdomSystem)
    (labels : List OdomAction) :
    controlActions (history (odomStep E m) s labels) = labels.filterMap OdomAction.own := by
  have hlabels : controlActions (history (odomStep E m) s labels) =
      (((history (odomStep E m) s labels).map Event.label).filterMap OdomAction.own).reverse := by
    rw [List.filterMap_map]
    rfl
  rw [hlabels, history_label, List.filterMap_reverse, List.reverse_reverse]

/-- In any interleaving the control task makes a run of its own actions. -/
theorem path_diag (hp : Path (Det (odomStep E m)) s₀ h s) :
    s.diag = (controlActions h).foldl (act E) s₀.diag := by
  induction hp with
  | refl => rfl
  | @snoc old s s' i _ hs ih =>
    have hstep : s'.diag = i.own.toList.foldl (act E) s.diag := by
      rw [← show odomStep E m s i = s' from hs]
      cases i <;> rfl
    rw [controlActions_cons, List.foldl_append, ← ih, hstep]

def odomReader (E : Env) (m : Libm) : Reader (Det (odomStep E m)) OdomSnapshot where
  value s := odomSnapshot s.diag
  taken := OdomSystem.taken
  Publishes := PublishesOdom E m
  takes := by
    intro e hs snapshot hmem
    rw [← show odomStep E m e.before e.label = e.after from hs] at hmem ⊢
    cases hl : e.label with
    | control a =>
      rw [hl] at hmem
      exact .inl hmem
    | take =>
      rw [hl] at hmem
      have hget : snapshot ∈ robotChassisDiagGetOdomSnapshot e.before.diag := hmem
      unfold robotChassisDiagGetOdomSnapshot at hget
      split_ifs at hget
      · exact .inr (Option.some.inj hget).symm
      · cases hget
    | publish r =>
      rw [hl] at hmem
      cases hmem
    | other ros =>
      rw [hl] at hmem
      exact .inl hmem
  publishes := fun _ _ _ ⟨_, _, htaken, _⟩ => htaken

theorem WritesStamp.after {e : Event OdomSystem OdomAction} {sampledAtUs : ℤ}
    (hw : WritesStamp E e sampledAtUs) (hs : Det (odomStep E m) e.before e.label e.after) :
    e.after.diag.odomSampledAtUs = sampledAtUs := by
  obtain ⟨a, hl, hstamp⟩ := hw
  obtain ⟨w, hwrite, rfl⟩ := Option.map_eq_some_iff.mp hstamp
  have hact := congrArg Prod.snd (act_odom E e.before.diag a)
  rw [hwrite] at hact
  have hafter : odomStep E m e.before e.label = e.after := hs
  rw [← hafter, hl]
  exact hact

theorem WritesStamp.later {new old : List (Event OdomSystem OdomAction)}
    {e : Event OdomSystem OdomAction} {sampledAtUs : ℤ} (hw : WritesStamp E e sampledAtUs)
    (hp : Path (Det (odomStep E m)) s₀ (new ++ e :: old) s)
    (hs : (s₀.diag.odomSampledAtUs ::
      writtenStamps E s₀.diag (controlActions (new ++ e :: old))).Pairwise (· < ·)) :
    e.before.diag.odomSampledAtUs < sampledAtUs := by
  obtain ⟨a, hl, hstamp⟩ := hw
  obtain ⟨w, hwrite, rfl⟩ := Option.map_eq_some_iff.mp hstamp
  have hsplit : controlActions (new ++ e :: old) =
      controlActions old ++ a :: controlActions new := by
    rw [controlActions_append, controlActions_cons, hl]
    simp [OdomAction.own]
  rw [hsplit] at hs
  have hdiag := path_diag hp.at_event.1
  rw [hdiag] at hwrite ⊢
  exact written_later hs hwrite

theorem odomSnapshot_kept {e : Event OdomSystem OdomAction}
    (hs : Det (odomStep E m) e.before e.label e.after)
    (hw : ∀ sampledAtUs, ¬ WritesStamp E e sampledAtUs) :
    odomSnapshot e.after.diag = odomSnapshot e.before.diag := by
  have hafter : odomStep E m e.before e.label = e.after := hs
  rw [← hafter]
  cases hl : e.label with
  | take => rfl
  | publish r => rfl
  | other ros => rfl
  | control a =>
    have hact := act_odom E e.before.diag a
    have hnone : odomWrite E e.before.diag a = none := by
      rw [Option.eq_none_iff_forall_ne_some]
      intro w hwrite
      exact hw w.2 ⟨a, hl, by rw [writtenStamp, hwrite, Option.map_some]⟩
    rw [hnone, Option.getD_none, Prod.mk.injEq] at hact
    change odomSnapshot (act E e.before.diag a) = odomSnapshot e.before.diag
    unfold odomSnapshot
    rw [hact.1, hact.2]

/-- Where the stamps of the control task increase, each step keeps the pose with its time or
writes one with a later time. -/
theorem snapshot_raises (hp : Path (Det (odomStep E m)) s₀ h s)
    (hs : (s₀.diag.odomSampledAtUs :: writtenStamps E s₀.diag (controlActions h)).Pairwise
      (· < ·)) :
    ∀ e ∈ h, (odomReader E m).Raises OdomSnapshot.sampledAtUs e := by
  intro e he
  obtain ⟨new, old, rfl⟩ := List.append_of_mem he
  obtain ⟨_, hstep, _⟩ := hp.at_event
  by_cases hwrites : ∃ sampledAtUs, WritesStamp E e sampledAtUs
  · obtain ⟨sampledAtUs, hw⟩ := hwrites
    have hlater : e.before.diag.odomSampledAtUs < e.after.diag.odomSampledAtUs := by
      rw [hw.after hstep]
      exact hw.later hp hs
    exact .inr hlater
  · exact .inl (odomSnapshot_kept hstep (not_exists.mp hwrites))

/-- The publisher leaves the statics alone, or remembers the snapshot it has published. -/
theorem publishOdomSnapshot_memory (E : Env) (m : Libm) (s : RosStatics)
    (taken : Option OdomSnapshot) (r : PublishReadings) :
    (publishOdomSnapshot E m s taken r).2 = s ∨
      ∃ snapshot, taken = some snapshot ∧ r.published = true ∧
        (publishOdomSnapshot E m s taken r).1.isSome = true ∧
        (publishOdomSnapshot E m s taken r).2.lastPublishedOdomSampledAtUs =
          snapshot.sampledAtUs := by
  cases taken with
  | none => exact .inl rfl
  | some snapshot =>
    by_cases hpublished : r.published = true
    · unfold publishOdomSnapshot
      dsimp only
      rw [if_pos hpublished]
      split_ifs
      · exact .inl rfl
      · exact .inl rfl
      · exact .inl rfl
      · exact .inl rfl
      · exact .inr ⟨snapshot, rfl, hpublished, rfl, rfl⟩
    · refine .inl ?_
      unfold publishOdomSnapshot
      dsimp only
      rw [if_neg hpublished]
      split_ifs <;> rfl

/-- What the publisher remembers is the time of a snapshot that it published. -/
theorem remembered_published (hp : Path (Det (odomStep E m)) s₀ h s)
    (h₀ : s₀.ros.hasPublishedOdomSample = false) (hhas : s.ros.hasPublishedOdomSample = true) :
    ∃ p ∈ h, ∃ snapshot, PublishesOdom E m p snapshot ∧
      snapshot.sampledAtUs = s.ros.lastPublishedOdomSampledAtUs := by
  induction hp with
  | refl =>
    rw [h₀] at hhas
    cases hhas
  | @snoc old s s' i _ hs ih =>
    have hafter : odomStep E m s i = s' := hs
    have hold : s'.ros.hasPublishedOdomSample = s.ros.hasPublishedOdomSample →
        s'.ros.lastPublishedOdomSampledAtUs = s.ros.lastPublishedOdomSampledAtUs →
        ∃ p ∈ ⟨s, i, s'⟩ :: old, ∃ snapshot, PublishesOdom E m p snapshot ∧
          snapshot.sampledAtUs = s'.ros.lastPublishedOdomSampledAtUs := by
      intro hhas' hlast
      obtain ⟨p, hp, snapshot, hpub, heq⟩ := ih (hhas'.symm.trans hhas)
      exact ⟨p, List.mem_cons_of_mem _ hp, snapshot, hpub, heq.trans hlast.symm⟩
    cases i with
    | control a =>
      subst hafter
      exact hold rfl rfl
    | take =>
      subst hafter
      exact hold rfl rfl
    | other ros =>
      subst hafter
      exact hold rfl rfl
    | publish r =>
      subst hafter
      rcases publishOdomSnapshot_memory E m s.ros s.taken r with hsame | hremembered
      · exact hold (congrArg RosStatics.hasPublishedOdomSample hsame)
          (congrArg RosStatics.lastPublishedOdomSampledAtUs hsame)
      · obtain ⟨snapshot, htaken, hpublished, hmessage, hlast⟩ := hremembered
        rw [htaken] at hmessage
        exact ⟨_, List.mem_cons_self, snapshot, ⟨r, rfl, htaken, hpublished, hmessage⟩, hlast.symm⟩

/-- With increasing stamps the publisher sees the poses in the order in which they were written. -/
theorem streamInOrder_of_increasing (hp : Path (Det (odomStep E m)) s₀ h s)
    (htaken : s₀.taken = none) (hfresh : s₀.ros.hasPublishedOdomSample = false)
    (hs : (s₀.diag.odomSampledAtUs :: writtenStamps E s₀.diag (controlActions h)).Pairwise
      (· < ·)) : StreamInOrder E m h := by
  have hraises := snapshot_raises hp hs
  constructor
  · intro new e old p snapshot sampledAtUs heq hold hpub hw
    subst heq
    obtain ⟨_, hstep, _⟩ := hp.at_event
    have hlater : e.before.diag.odomSampledAtUs < e.after.diag.odomSampledAtUs := by
      rw [hw.after hstep]
      exact hw.later hp hs
    have hlt : snapshot.sampledAtUs < e.after.diag.odomSampledAtUs :=
      Reader.published_lt_written (R := odomReader E m) hp htaken hraises hold hpub hlater
    rw [hw.after hstep] at hlt
    exact hlt.le
  · intro new e old snapshot heq hdiscards
    subst heq
    obtain ⟨hbefore, _, _⟩ := hp.at_event
    obtain ⟨_, hheld, hhas, hle⟩ := hdiscards
    have hraisesOld : ∀ x ∈ old, (odomReader E m).Raises OdomSnapshot.sampledAtUs x := fun x hx =>
      hraises x (List.mem_append_right _ (List.mem_cons_of_mem _ hx))
    obtain ⟨p, hold, published, hpub, hlast⟩ := remembered_published hbefore hfresh hhas
    have hsame : snapshot = published :=
      Reader.eq_published_of_le (R := odomReader E m) hbefore htaken hraisesOld hold hpub hheld
        (hle.trans hlast.ge)
    rw [hsame]
    exact ⟨p, hold, hpub⟩

/-- A publication just before a write with an older time breaks the order. -/
theorem not_streamInOrder {older : List OdomAction} {a : Chassis.Action} {r : PublishReadings}
    {snapshot : OdomSnapshot} {sampledAtUs : ℤ}
    (hget : robotChassisDiagGetOdomSnapshot (older.foldl (odomStep E m) s₀).diag = some snapshot)
    (hpublished : r.published = true)
    (hmessage : (publishOdomSnapshot E m (older.foldl (odomStep E m) s₀).ros (some snapshot)
      r).1.isSome = true)
    (hwrite : writtenStamp E (older.foldl (odomStep E m) s₀).diag a = some sampledAtUs)
    (hlt : sampledAtUs < snapshot.sampledAtUs) :
    ¬ StreamInOrder E m
      (history (odomStep E m) s₀ (older ++ [.take, .publish r, .control a])) := by
  intro hin
  rw [history_append] at hin
  have hle := hin.written [] _ _ _ snapshot sampledAtUs rfl List.mem_cons_self
    ⟨r, rfl, hget, hpublished, hmessage⟩ ⟨a, rfl, hwrite⟩
  omega

theorem start_odomSampledAtUs {inp : StartInputs} {d : Diag}
    (hs : robotChassisDiagStart E inp = .ok d) : d.odomSampledAtUs = inp.clockUs := by
  obtain ⟨core, _, rfl⟩ := start_eq hs
  rfl

/-- An action leaves the time that it writes, and without one the time stays. -/
theorem act_writtenStamp (E : Env) (d : Diag) (a : Chassis.Action) :
    (act E d a).odomSampledAtUs = (writtenStamp E d a).getD d.odomSampledAtUs := by
  have hact := congrArg Prod.snd (act_odom E d a)
  unfold writtenStamp
  cases hwrite : odomWrite E d a with
  | none =>
    rw [hwrite] at hact
    exact hact
  | some w =>
    rw [hwrite] at hact
    exact hact

/-- With a running clock the times written after a start, those that the control task then holds,
never go back, and the publisher never meets an older pose nor discards a new one, exactly when no
iteration takes a sample after an ODOMZERO. -/
theorem odom_stream_iff {inp : StartInputs} {d : Diag} {its : List Chassis.Iteration}
    (hs : robotChassisDiagStart E inp = .ok d) (hclock : ClockRuns E inp d its) :
    (∀ older a newer, its.flatMap Chassis.Iteration.actions = older ++ a :: newer →
      (act E (older.foldl (act E) d) a).odomSampledAtUs =
        (writtenStamp E (older.foldl (act E) d) a).getD
          (older.foldl (act E) d).odomSampledAtUs) ∧
    (((inp.clockUs :: writtenStamps E d (its.flatMap Chassis.Iteration.actions)).Pairwise (· ≤ ·) ∧
      ∀ (m : Libm) (h : List (Event OdomSystem OdomAction)) (s : OdomSystem),
        Path (Det (odomStep E m)) (.start d) h s →
        controlActions h <+: its.flatMap Chassis.Iteration.actions → StreamInOrder E m h) ↔
    SamplesApart E d its) := by
  obtain ⟨hordered, hincreasing⟩ := stamps_iff_apart hclock
  refine ⟨fun older a _ _ => act_writtenStamp E _ a, ?_⟩
  constructor
  · intro hboth
    exact hordered.mp hboth.1
  · intro hapart
    refine ⟨hordered.mpr hapart, ?_⟩
    intro m h s hp hactions
    obtain ⟨later, hsplit⟩ := hactions
    have hstamps := hincreasing hapart
    rw [← start_odomSampledAtUs hs, ← hsplit, writtenStamps, collect_append] at hstamps
    have hsofar : (d.odomSampledAtUs :: writtenStamps E d (controlActions h)).Pairwise (· < ·) :=
      hstamps.sublist ((List.sublist_append_left _ _).cons_cons _)
    exact streamInOrder_of_increasing hp rfl rfl hsofar

def zeroingIteration (nowUs zeroedAtUs : ℤ) (counts : Wheels (Option Int32)) :
    Chassis.Iteration :=
  ⟨nowUs, ['O', 'D', 'O', 'M', 'Z', 'E', 'R', 'O', '\n'].map fun ch =>
    (ch, ⟨⟨none, none⟩, zeroedAtUs⟩), [], counts⟩

/-- A run of the driver in which a failed read keeps the sample of the first iteration away. -/
theorem odom_stream_iff_failed_read :
    (readyInputs.clockUs :: writtenStamps .rational readyDiag
      ([zeroingIteration 2000 2005 fun _ => none, ⟨12000, [], [], fun _ => some 3⟩].flatMap
        Chassis.Iteration.actions)).Pairwise (· ≤ ·) := by
  have hclock : ClockRuns .rational readyInputs readyDiag
      [zeroingIteration 2000 2005 fun _ => none, ⟨12000, [], [], fun _ => some 3⟩] := by
    decide +kernel
  have hapart : SamplesApart .rational readyDiag
      [zeroingIteration 2000 2005 fun _ => none, ⟨12000, [], [], fun _ => some 3⟩] := by
    decide +kernel
  exact ((odom_stream_iff readyDiag_start hclock).2.mpr hapart).1

/-- The iteration of a synchronised system up to the end of its ODOMZERO line. -/
def zeroingActions : List OdomAction :=
  .other { RosStatics.zero with timeSynced := true } ::
    (.wake 2000 :: (zeroingIteration 2000 2005 fun _ => some 0).inputs).map .control

/-- The sample takes its time from the top of the loop, before the ODOMZERO read the clock. The
publisher has seen the zeroed pose by then, and would discard the later one. -/
theorem odom_stream_backwards :
    ClockRuns .rational readyInputs readyDiag [zeroingIteration 2000 2005 fun _ => some 0] ∧
    ¬ (readyInputs.clockUs :: writtenStamps .rational readyDiag
      ([zeroingIteration 2000 2005 fun _ => some 0].flatMap
        Chassis.Iteration.actions)).Pairwise (· ≤ ·) ∧
    ∃ (m : Libm) (h : List (Event OdomSystem OdomAction)) (s : OdomSystem),
      Path (Det (odomStep .rational m)) (.start readyDiag) h s ∧
      controlActions h <+:
        [zeroingIteration 2000 2005 fun _ => some 0].flatMap Chassis.Iteration.actions ∧
      ¬ StreamInOrder .rational m h ∧ s.ros.hasPublishedOdomSample = true ∧
      s.diag.odomSampledAtUs < s.ros.lastPublishedOdomSampledAtUs := by
  refine ⟨by decide +kernel, by decide +kernel, ⟨id, id⟩, _, _,
    path_history (odomStep .rational ⟨id, id⟩) (.start readyDiag) (zeroingActions ++
      [.take, .publish ⟨2010, true, 1000000000, true⟩, .control (.sample fun _ => some 0)]),
    ?_, ?_, ?_, ?_⟩
  · rw [controlActions_history]
    exact List.prefix_rfl
  · have hpositive : 0 < (zeroingActions.foldl (odomStep .rational ⟨id, id⟩)
        (.start readyDiag)).diag.odomSampledAtUs := by decide +kernel
    apply not_streamInOrder (getOdomSnapshot_of_pos hpositive)
    · rfl
    · decide +kernel
    · show writtenStamp _ _ _ = some 2000
      decide +kernel
    · decide +kernel
  · decide +kernel
  · decide +kernel

end RobotFirmware.Microros
