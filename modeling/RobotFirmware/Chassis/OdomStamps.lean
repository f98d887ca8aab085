import RobotFirmware.Library.Stamped
import RobotFirmware.Chassis.OdomZero

/-! The time stamps that a run of the control task writes beside the odometry, against the clock
readings of the run. -/
namespace RobotFirmware.Chassis
open Fp Trace

def clockReading (E : Env) (d : Diag) : Action → Option ℤ
  | .wake nowUs => some nowUs
  | .char ch r => if ResetsOdom E d (.char ch r) then some r.clockUs else none
  | .event _ _ | .sample _ => none

/-- The value that an action writes to `s_odom_sampled_at_us`. -/
def writtenStamp (E : Env) (d : Diag) (a : Action) : Option ℤ := (odomWrite E d a).map Prod.snd

/-- What the actions of a run yield, in order. -/
def collect (E : Env) (f : Diag → Action → Option ℤ) : Diag → List Action → List ℤ
  | _, [] => []
  | d, a :: actions => (f d a).toList ++ collect E f (act E d a) actions

def clockReadings (E : Env) : Diag → List Action → List ℤ := collect E (clockReading E)

def writtenStamps (E : Env) : Diag → List Action → List ℤ := collect E (writtenStamp E)

/-- The clock runs: each reading from the start of the driver on is later than the one before. -/
def ClockRuns (E : Env) (inp : StartInputs) (d : Diag) (its : List Iteration) : Prop :=
  (inp.clockUs :: clockReadings E d (its.flatMap Iteration.actions)).Pairwise (· < ·)

instance (E : Env) (inp : StartInputs) (d : Diag) (its : List Iteration) :
    Decidable (ClockRuns E inp d its) := inferInstanceAs (Decidable (List.Pairwise _ _))

theorem collect_append (E : Env) (f : Diag → Action → Option ℤ) (d : Diag)
    (older newer : List Action) : collect E f d (older ++ newer) =
      collect E f d older ++ collect E f (older.foldl (act E) d) newer := by
  induction older generalizing d with
  | nil => rfl
  | cons a older ih =>
    rw [List.cons_append, collect, ih, collect, List.foldl_cons, List.append_assoc]

def Iteration.inputs (it : Iteration) : List Action :=
  it.data.map (fun x => .char x.1 x.2) ++ it.events.map fun x => .event x.1 x.2

theorem Iteration.actions_eq (it : Iteration) :
    it.actions = .wake it.nowUs :: (it.inputs ++ [.sample it.counts]) := rfl

theorem beforeSample_eq (E : Env) (d : Diag) (it : Iteration) :
    beforeSample E d it = it.inputs.foldl (act E) (wake d it.nowUs) := by
  have hpolled := (pollUart_eq E (wake d it.nowUs) it.data).1
  have hhandled := (processRemoteEvents_eq E
    ((it.data.map fun x => Action.char x.1 x.2).foldl (act E) (wake d it.nowUs)) it.events).1
  rw [beforeSample, hpolled, hhandled, Iteration.inputs, List.foldl_append]

def SampleAccepted (E : Env) (d : Diag) (counts : Wheels (Option Int32)) : Prop :=
  (encoderRead d counts).1 = true ∧
    odomArgumentsValid d.odom (periodS E d) (metresPerCount E) (turnGeometryM E) = true

instance (E : Env) (d : Diag) (counts : Wheels (Option Int32)) :
    Decidable (SampleAccepted E d counts) := inferInstanceAs (Decidable (_ ∧ _))

/-- An iteration whose sample the odometry takes accepts no ODOMZERO before it. -/
def SampleApart (E : Env) (d : Diag) (it : Iteration) : Prop :=
  SampleAccepted E (beforeSample E d it) it.counts → ResetFree E (wake d it.nowUs) it.inputs

def SamplesApart (E : Env) : Diag → List Iteration → Prop
  | _, [] => True
  | d, it :: its => SampleApart E d it ∧ SamplesApart E (controlTaskIteration E d it) its

instance ResetFree.decidable (E : Env) :
    (d : Diag) → (actions : List Action) → Decidable (ResetFree E d actions)
  | _, [] => inferInstanceAs (Decidable True)
  | d, a :: actions =>
    have := ResetFree.decidable E (act E d a) actions
    inferInstanceAs (Decidable (¬ ResetsOdom E d a ∧ ResetFree E (act E d a) actions))

instance (E : Env) (d : Diag) (it : Iteration) : Decidable (SampleApart E d it) :=
  inferInstanceAs (Decidable (_ → _))

instance SamplesApart.decidable (E : Env) :
    (d : Diag) → (its : List Iteration) → Decidable (SamplesApart E d its)
  | _, [] => inferInstanceAs (Decidable True)
  | d, it :: its =>
    have := SamplesApart.decidable E (controlTaskIteration E d it) its
    inferInstanceAs (Decidable (SampleApart E d it ∧ _))

/-- The stamps of an iteration: each accepted ODOMZERO reads the clock again, and the sample
carries the reading from the top of the loop. -/
def iterationRound (E : Env) (d : Diag) (it : Iteration) : Round ℤ where
  top := it.nowUs
  fresh := clockReadings E (wake d it.nowUs) it.inputs
  late := decide (SampleAccepted E (beforeSample E d it) it.counts)

def iterationRounds (E : Env) : Diag → List Iteration → List (Round ℤ)
  | _, [] => []
  | d, it :: its => iterationRound E d it :: iterationRounds E (controlTaskIteration E d it) its

theorem processCommand_nowUs (E : Env) (d : Diag) (r : Readings) (chars : List Char)
    (nowMs : UInt32) : (processCommand E d r chars nowMs).nowUs = d.nowUs := by
  unfold processCommand armIfBatteryOk submitTargets
  cases parseCommand E.single chars <;> dsimp only <;> (try split_ifs) <;> rfl

theorem handleRemoteEvent_nowUs (E : Env) (d : Diag) (event : RemoteEvent) (r : Readings)
    (nowMs : UInt32) : (handleRemoteEvent E d event r nowMs).nowUs = d.nowUs := by
  unfold handleRemoteEvent armIfBatteryOk submitTargets
  cases event <;> dsimp only <;> (try split_ifs) <;> rfl

theorem pollUartChar_nowUs (E : Env) (d : Diag) (ch : Char) (r : Readings) (nowMs : UInt32) :
    (pollUartChar E d ch r nowMs).nowUs = d.nowUs := by
  rcases pollUartChar_cases E d ch r nowMs with ⟨line, _, hd⟩ | ⟨_, _, hd⟩ | ⟨_, _, line, hd⟩
  · rw [hd]
    exact processCommand_nowUs E d r line nowMs
  · rw [hd]
    rfl
  · rw [hd]

theorem Iteration.mem_inputs {it : Iteration} {a : Action} (ha : a ∈ it.inputs) :
    (∃ ch r, a = .char ch r) ∨ ∃ event r, a = .event event r := by
  rcases List.mem_append.mp ha with hchar | hevent
  · obtain ⟨x, _, rfl⟩ := List.mem_map.mp hchar
    exact .inl ⟨x.1, x.2, rfl⟩
  · obtain ⟨x, _, rfl⟩ := List.mem_map.mp hevent
    exact .inr ⟨x.1, x.2, rfl⟩

theorem input_nowUs (E : Env) (d : Diag) {it : Iteration} {a : Action} (ha : a ∈ it.inputs) :
    (act E d a).nowUs = d.nowUs := by
  rcases Iteration.mem_inputs ha with ⟨ch, r, rfl⟩ | ⟨event, r, rfl⟩
  · exact pollUartChar_nowUs E d ch r _
  · exact handleRemoteEvent_nowUs E d event r _

theorem inputs_nowUs (E : Env) (d : Diag) {it : Iteration} {inputs : List Action}
    (hsub : inputs ⊆ it.inputs) : (inputs.foldl (act E) d).nowUs = d.nowUs := by
  induction inputs generalizing d with
  | nil => rfl
  | cons a inputs ih =>
    obtain ⟨ha, hrest⟩ := List.cons_subset.mp hsub
    rw [List.foldl_cons, ih _ hrest, input_nowUs E d ha]

/-- The reading from the top of the loop is still there when the sample is taken. -/
theorem beforeSample_nowUs (E : Env) (d : Diag) (it : Iteration) :
    (beforeSample E d it).nowUs = it.nowUs := by
  have hkept := inputs_nowUs E (wake d it.nowUs) (List.Subset.refl it.inputs)
  rw [beforeSample_eq]
  exact hkept

/-- A command or an event stamps with the reading it makes, which only an ODOMZERO does. -/
theorem input_stamp (E : Env) (d : Diag) {it : Iteration} {a : Action} (ha : a ∈ it.inputs) :
    writtenStamp E d a = clockReading E d a ∧
      (clockReading E d a = none ↔ ¬ ResetsOdom E d a) := by
  rcases Iteration.mem_inputs ha with ⟨ch, r, rfl⟩ | ⟨event, r, rfl⟩
  · unfold writtenStamp odomWrite clockReading
    by_cases hreset : ResetsOdom E d (.char ch r)
    · simp [hreset]
    · simp [hreset]
  · exact ⟨rfl, by simp [clockReading, ResetsOdom]⟩

theorem inputs_stamps (E : Env) (d : Diag) {it : Iteration} {inputs : List Action}
    (hsub : inputs ⊆ it.inputs) : writtenStamps E d inputs = clockReadings E d inputs ∧
      (clockReadings E d inputs = [] ↔ ResetFree E d inputs) := by
  induction inputs generalizing d with
  | nil => exact ⟨rfl, by simp [clockReadings, collect, ResetFree]⟩
  | cons a inputs ih =>
    obtain ⟨ha, hrest⟩ := List.cons_subset.mp hsub
    obtain ⟨hstamps, hfree⟩ := ih (act E d a) hrest
    obtain ⟨hstamp, hnone⟩ := input_stamp E d ha
    unfold writtenStamps clockReadings at hstamps
    unfold clockReadings at hfree
    constructor
    · rw [writtenStamps, clockReadings, collect, collect, hstamp, hstamps]
    · rw [clockReadings, collect, ResetFree, List.append_eq_nil_iff, hfree, ← hnone,
        Option.toList_eq_nil_iff]

theorem updateWith_accepted (E : Env) (d : Diag) (s : OdomSample Datum) :
    (updateWith E d.odom s).1 =
      odomArgumentsValid d.odom s.dtS (metresPerCount E) (turnGeometryM E) := by
  unfold updateWith robotChassisOdomUpdate
  dsimp only
  split_ifs with hvalid
  · exact hvalid.symm
  · exact (Bool.eq_false_iff.mpr hvalid).symm

theorem sample_stamp (E : Env) (d : Diag) (counts : Wheels (Option Int32)) :
    writtenStamp E d (.sample counts) =
      if SampleAccepted E d counts then some d.nowUs else none := by
  unfold writtenStamp odomWrite passedSample
  dsimp only
  by_cases hread : (encoderRead d counts).1 = true
  · rw [if_pos hread, Option.bind_some, updateWith_accepted]
    dsimp only
    by_cases hvalid : odomArgumentsValid d.odom (periodS E d) (metresPerCount E)
        (turnGeometryM E) = true
    · have haccepted : SampleAccepted E d counts := ⟨hread, hvalid⟩
      rw [if_pos hvalid, if_pos haccepted, Option.map_some]
    · have hrefused : ¬ SampleAccepted E d counts := fun h => hvalid h.2
      rw [if_neg hvalid, if_neg hrefused, Option.map_none]
  · have hrefused : ¬ SampleAccepted E d counts := fun h => hread h.1
    rw [if_neg hread, if_neg hrefused, Option.bind_none, Option.map_none]

/-- The stamps and the clock readings of an iteration are those of its round. -/
theorem iteration_round (E : Env) (d : Diag) (it : Iteration) :
    writtenStamps E d it.actions = (iterationRound E d it).stamps ∧
      clockReadings E d it.actions = (iterationRound E d it).readings := by
  have hinputs := (inputs_stamps E (wake d it.nowUs) (List.Subset.refl it.inputs)).1
  have hsample := sample_stamp E (beforeSample E d it) it.counts
  rw [beforeSample_nowUs] at hsample
  constructor
  · have hlate : collect E (writtenStamp E) (beforeSample E d it) [.sample it.counts] =
        if (iterationRound E d it).late then [it.nowUs] else [] := by
      rw [collect, collect, hsample, List.append_nil]
      unfold iterationRound
      by_cases haccepted : SampleAccepted E (beforeSample E d it) it.counts
      · simp [haccepted]
      · simp [haccepted]
    rw [Round.stamps, Iteration.actions_eq, writtenStamps, collect, collect_append]
    change [] ++ (writtenStamps E (wake d it.nowUs) it.inputs ++ collect E (writtenStamp E)
      (it.inputs.foldl (act E) (wake d it.nowUs)) [.sample it.counts]) = _
    rw [← beforeSample_eq, hinputs, hlate]
    rfl
  · rw [Round.readings, Iteration.actions_eq, clockReadings, collect, collect_append]
    change [it.nowUs] ++ (clockReadings E (wake d it.nowUs) it.inputs ++ []) = _
    rw [List.append_nil]
    rfl

theorem iterations_rounds (E : Env) (d : Diag) (its : List Iteration) :
    writtenStamps E d (its.flatMap Iteration.actions) =
        (iterationRounds E d its).flatMap Round.stamps ∧
      clockReadings E d (its.flatMap Iteration.actions) =
        (iterationRounds E d its).flatMap Round.readings := by
  induction its generalizing d with
  | nil => exact ⟨rfl, rfl⟩
  | cons it its ih =>
    obtain ⟨hstamps, hreadings⟩ := iteration_round E d it
    obtain ⟨hrestStamps, hrestReadings⟩ := ih (controlTaskIteration E d it)
    rw [controlTaskIteration_eq] at hrestStamps hrestReadings
    unfold writtenStamps clockReadings at *
    rw [List.flatMap_cons, collect_append, collect_append, iterationRounds, List.flatMap_cons,
      List.flatMap_cons, controlTaskIteration_eq, hstamps, hreadings, hrestStamps, hrestReadings]
    exact ⟨rfl, rfl⟩

theorem rounds_ordered_iff (E : Env) (d : Diag) (its : List Iteration) :
    (∀ r ∈ iterationRounds E d its, r.Ordered) ↔ SamplesApart E d its := by
  induction its generalizing d with
  | nil => simp [iterationRounds, SamplesApart]
  | cons it its ih =>
    have hfree := (inputs_stamps E (wake d it.nowUs) (List.Subset.refl it.inputs)).2
    have hone : (iterationRound E d it).Ordered ↔ SampleApart E d it := by
      unfold Round.Ordered SampleApart iterationRound
      rw [decide_eq_true_iff, hfree]
    rw [iterationRounds, List.forall_mem_cons, hone, ih, SamplesApart]

variable {E : Env} {inp : StartInputs} {d : Diag} {its : List Iteration}

/-- With a running clock the stamps stay in order exactly when no iteration takes a sample after
an ODOMZERO, and then no two are the same. -/
theorem stamps_iff_apart (hclock : ClockRuns E inp d its) :
    ((inp.clockUs :: writtenStamps E d (its.flatMap Iteration.actions)).Pairwise (· ≤ ·) ↔
      SamplesApart E d its) ∧
    (SamplesApart E d its →
      (inp.clockUs :: writtenStamps E d (its.flatMap Iteration.actions)).Pairwise (· < ·)) := by
  obtain ⟨hstamps, hreadings⟩ := iterations_rounds E d its
  unfold ClockRuns at hclock
  rw [hreadings] at hclock
  rw [hstamps, ← rounds_ordered_iff]
  exact ⟨Round.stamps_nondecreasing_iff hclock, Round.stamps_increasing hclock⟩

/-- Where the stamps of a run increase, each write raises the one that is there. -/
theorem written_later {older newer : List Action} {a : Action} {w : Odom × ℤ}
    (hs : (d.odomSampledAtUs :: writtenStamps E d (older ++ a :: newer)).Pairwise (· < ·))
    (hw : odomWrite E (older.foldl (act E) d) a = some w) :
    (older.foldl (act E) d).odomSampledAtUs < w.2 := by
  induction older generalizing d with
  | nil =>
    have hmem : w.2 ∈ writtenStamps E d (a :: newer) := by
      unfold writtenStamps collect writtenStamp
      have hhere : odomWrite E d a = some w := hw
      rw [hhere]
      simp
    exact (List.pairwise_cons.mp hs).1 _ hmem
  | cons b older ih =>
    have hact := congrArg Prod.snd (act_odom E d b)
    have hhead : writtenStamps E d (b :: older ++ a :: newer) =
        (writtenStamp E d b).toList ++ writtenStamps E (act E d b) (older ++ a :: newer) := rfl
    rw [hhead, writtenStamp] at hs
    dsimp only at hact
    refine ih ?_ hw
    cases hb : odomWrite E d b with
    | none =>
      rw [hb] at hact hs
      rw [hact]
      exact hs
    | some x =>
      rw [hb] at hact hs
      rw [hact]
      exact (List.pairwise_cons.mp hs).2

end RobotFirmware.Chassis
