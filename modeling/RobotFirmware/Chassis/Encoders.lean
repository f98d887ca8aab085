import Mathlib.Data.Fintype.Pi
import Mathlib.Data.List.DropRight
import RobotFirmware.Chassis.Actuation
import RobotFirmware.Chassis.CountDelta

/-! The encoder samples of the control loop over runs with failing reads, and how much of the
movement of the wheels reaches the odometry. -/
namespace RobotFirmware.Chassis
open Fp WrapCounter

/-- The wheels before the first failed read have new counts and deltas, the others keep theirs. -/
theorem readEncoders_spec (counts : Wheels (Option Int32)) {l : List Wheel} (hl : l.Nodup)
    (last delta : Wheels Int32) (i : Wheel) :
    (i ∈ l.takeWhile (fun j => (counts j).isSome) → ∃ n, counts i = some n ∧
      (readEncoders counts l last delta).2.1 i = n ∧
      (readEncoders counts l last delta).2.2 i =
        robotChassisSafeCountDelta n (last i) encoderCountLimit) ∧
    (i ∉ l.takeWhile (fun j => (counts j).isSome) →
      (readEncoders counts l last delta).2.1 i = last i ∧
      (readEncoders counts l last delta).2.2 i = delta i) := by
  induction l generalizing last delta with
  | nil => simp [readEncoders]
  | cons j l ih =>
    obtain ⟨hj, hnodup⟩ := List.nodup_cons.mp hl
    unfold readEncoders
    cases hc : counts j with
    | none => simp [hc]
    | some n =>
      obtain ⟨hread, hkept⟩ := ih hnodup (Function.update last j n)
        (Function.update delta j (robotChassisSafeCountDelta n (last j) encoderCountLimit))
      have htake : (j :: l).takeWhile (fun j => (counts j).isSome) =
          j :: l.takeWhile fun j => (counts j).isSome := by simp [hc]
      rw [htake, List.mem_cons]
      dsimp only
      by_cases hi : i = j
      · subst hi
        have hout : i ∉ l.takeWhile fun j => (counts j).isSome :=
          fun h => hj ((List.takeWhile_sublist _).subset h)
        obtain ⟨hlast, hdelta⟩ := hkept hout
        rw [Function.update_self] at hlast hdelta
        exact ⟨fun _ => ⟨n, hc, hlast, hdelta⟩, fun h => absurd (.inl rfl) h⟩
      · rw [Function.update_of_ne hi] at hread hkept
        rw [Function.update_of_ne hi] at hkept
        exact ⟨fun h => hread (h.resolve_left hi), fun h => hkept fun hin => h (.inr hin)⟩

/-- The inputs of one pass of the loop and what the encoders do meanwhile. -/
structure Pass where
  nowUs : ℤ
  data : List (Char × Readings)
  events : List (RemoteEvent × Readings)
  /-- The edges of each wheel since the moment of its read in the pass before. -/
  edges : Wheels (List Edge)
  /-- Whether the read of a wheel succeeds if the loop gets to it. -/
  answers : Wheels Bool

def Pass.Reads (p : Pass) (i : Wheel) : Prop := ∀ j ≤ i, p.answers j = true

instance (p : Pass) (i : Wheel) : Decidable (p.Reads i) := inferInstanceAs (Decidable (∀ _, _))

def Pass.complete (p : Pass) : Bool := decide (∀ i, p.answers i = true)

theorem Pass.reads_of_complete {p : Pass} (hp : p.complete = true) (i : Wheel) : p.Reads i :=
  fun j _ => of_decide_eq_true hp j

theorem Pass.reads_iff (p : Pass) (i : Wheel) :
    p.Reads i ↔ i ∈ (List.finRange 4).takeWhile p.answers := by
  unfold Pass.Reads
  generalize p.answers = answers
  revert i answers
  decide

structure Plant where
  diag : Diag
  counters : Wheels ℤ

def Plant.countersAfter (w : Plant) (p : Pass) : Wheels ℤ :=
  fun i => run encoderCountLimit.toInt (w.counters i) (p.edges i)

def Pass.iteration (p : Pass) (counters : Wheels ℤ) : Iteration where
  nowUs := p.nowUs
  data := p.data
  events := p.events
  counts := fun i => if p.answers i then some (reading (counters i)) else none

def Plant.pass (E : Env) (w : Plant) (p : Pass) : Plant where
  diag := controlTaskIteration E w.diag (p.iteration (w.countersAfter p))
  counters := w.countersAfter p

/-- The deltas an iteration passes to the odometry, if it does. -/
def passedDelta (E : Env) (d : Diag) (it : Iteration) : Option (Wheels Int32) :=
  let read := encoderRead (beforeSample E d it) it.counts
  if read.1 then some read.2.2 else none

theorem odomUpdate_refused {E : Env} {odom : Odom} {delta : Option (Wheels Int32)}
    {dtS metresPerCount turnGeometryM : Datum}
    (hr : ¬ (robotChassisOdomUpdate E odom delta dtS metresPerCount turnGeometryM).1 = true) :
    (robotChassisOdomUpdate E odom delta dtS metresPerCount turnGeometryM).2 = odom := by
  unfold robotChassisOdomUpdate at hr ⊢
  cases delta with
  | none => rfl
  | some delta =>
    dsimp only at hr ⊢
    split_ifs at hr ⊢
    · exact absurd rfl hr
    · rfl

theorem stepSample_odom (E : Env) (d : Diag) (delta : Wheels Int32) :
    (stepSample E d delta).odom = (robotChassisOdomUpdate E d.odom (some delta)
      (Datum.div E.single (E.ofInt d.periodUs) (literalF E 1000000)) (metresPerCount E)
      (turnGeometryM E)).2 := by
  unfold stepSample
  dsimp only
  by_cases hupdated : (robotChassisOdomUpdate E d.odom (some delta)
      (Datum.div E.single (E.ofInt d.periodUs) (literalF E 1000000)) (metresPerCount E)
      (turnGeometryM E)).1 = true
  · rw [if_pos hupdated]
  · rw [if_neg hupdated, odomUpdate_refused hupdated]

/-- The odometry of an iteration is updated once, with the deltas that it passes on, or not at all.
What comes before the sample can only set it to zero. -/
structure UpdatesOdometry (E : Env) (d : Diag) (it : Iteration) : Prop where
  before : (beforeSample E d it).odom = d.odom ∨ (beforeSample E d it).odom = .zero
  update : (controlTaskIteration E d it).odom =
    match passedDelta E d it with
    | none => (beforeSample E d it).odom
    | some delta =>
      (robotChassisOdomUpdate E (beforeSample E d it).odom (some delta)
        (Datum.div E.single (E.ofInt (beforeSample E d it).periodUs) (literalF E 1000000))
        (metresPerCount E) (turnGeometryM E)).2

theorem processCommand_odom (E : Env) (d : Diag) (r : Readings) (chars : List Char)
    (nowMs : UInt32) :
    ((processCommand E d r chars nowMs).odom, (processCommand E d r chars nowMs).odomSampledAtUs) =
      if parseCommand E.single chars = .odomZero ∧ d.core.state = .disarmed then
        (.zero, r.clockUs)
      else (d.odom, d.odomSampledAtUs) := by
  unfold processCommand armIfBatteryOk submitTargets acceptZero rejectInput
  cases parseCommand E.single chars <;> dsimp only <;> split_ifs <;> simp_all

theorem handleRemoteEvent_odom (E : Env) (d : Diag) (event : RemoteEvent) (r : Readings)
    (nowMs : UInt32) :
    ((handleRemoteEvent E d event r nowMs).odom,
      (handleRemoteEvent E d event r nowMs).odomSampledAtUs) = (d.odom, d.odomSampledAtUs) := by
  unfold handleRemoteEvent armIfBatteryOk submitTargets
  cases event <;> dsimp only <;> (try split_ifs) <;> rfl

theorem pollUart_odom (E : Env) (d : Diag) (data : List (Char × Readings)) (nowMs : UInt32) :
    (pollUart E d data nowMs).odom = d.odom ∨ (pollUart E d data nowMs).odom = .zero := by
  have hchar : ∀ (d : Diag) ch r, (pollUartChar E d ch r nowMs).odom = d.odom ∨
      (pollUartChar E d ch r nowMs).odom = .zero := by
    intro d ch r
    have hline := congrArg Prod.fst (processCommand_odom E d r d.uartLine.chars nowMs)
    unfold pollUartChar
    split_ifs
    · split_ifs at hline
      · exact .inr hline
      · exact .inl hline
    · exact .inl rfl
    · exact .inl rfl
    · exact .inl rfl
  unfold pollUart
  induction data generalizing d with
  | nil => exact .inl rfl
  | cons x data ih =>
    rw [List.foldl_cons]
    rcases ih (pollUartChar E d x.1 x.2 nowMs) with hkept | hzero
    · rw [hkept]
      exact hchar d x.1 x.2
    · exact .inr hzero

theorem processRemoteEvents_odom (E : Env) (d : Diag) (events : List (RemoteEvent × Readings))
    (nowMs : UInt32) : (processRemoteEvents E d events nowMs).odom = d.odom := by
  unfold processRemoteEvents
  induction events generalizing d with
  | nil => rfl
  | cons x events ih =>
    rw [List.foldl_cons, ih]
    exact congrArg Prod.fst (handleRemoteEvent_odom E d x.1 x.2 nowMs)

theorem updatesOdometry (E : Env) (d : Diag) (it : Iteration) : UpdatesOdometry E d it := by
  constructor
  · unfold beforeSample
    rw [processRemoteEvents_odom]
    exact pollUart_odom E (wake d it.nowUs) it.data (wake d it.nowUs).nowMs
  · rw [controlTaskIteration_sample]
    unfold passedDelta
    generalize beforeSample E d it = s
    unfold sampleEncoders encoderRead
    dsimp only
    by_cases hr : (readEncoders it.counts (List.finRange 4) s.lastCounts fun _ => 0).1 = true
    · rw [if_pos hr, if_pos hr]
      exact stepSample_odom E _ _
    · rw [if_neg hr, if_neg hr]

theorem pollUartChar_lastCounts (E : Env) (d : Diag) (ch : Char) (r : Readings)
    (nowMs : UInt32) : (pollUartChar E d ch r nowMs).lastCounts = d.lastCounts := by
  unfold pollUartChar
  split_ifs
  · exact (processCommand_kept E d r _ nowMs).lastCounts
  · rfl
  · rfl
  · rfl

theorem beforeSample_lastCounts (E : Env) (d : Diag) (it : Iteration) :
    (beforeSample E d it).lastCounts = d.lastCounts := by
  have hpolled : ∀ (s : Diag) data nowMs, (pollUart E s data nowMs).lastCounts =
      s.lastCounts := by
    intro s data nowMs
    unfold pollUart
    induction data generalizing s with
    | nil => rfl
    | cons x data ih => rw [List.foldl_cons, ih, pollUartChar_lastCounts]
  have hhandled : ∀ (s : Diag) events nowMs,
      (processRemoteEvents E s events nowMs).lastCounts = s.lastCounts := by
    intro s events nowMs
    unfold processRemoteEvents
    induction events generalizing s with
    | nil => rfl
    | cons x events ih => rw [List.foldl_cons, ih, (handleRemoteEvent_kept E s _ _ _).lastCounts]
  rw [beforeSample, hhandled, hpolled]
  rfl

theorem sampleEncoders_lastCounts (E : Env) (d : Diag) (counts : Wheels (Option Int32)) :
    (sampleEncoders E d counts).lastCounts = (encoderRead d counts).2.1 := by
  unfold sampleEncoders stepSample encoderRead
  dsimp only
  split_ifs <;> rfl

/-- Each counter has seen the pending edges since the sample whose count the task remembers. -/
structure Tracks (w : Plant) (sampled : Wheels ℤ) (pending : Wheels (List Edge)) : Prop where
  inRange : ∀ i, |sampled i| < encoderCountLimit.toInt
  counter : ∀ i, w.counters i = run encoderCountLimit.toInt (sampled i) (pending i)
  remembered : ∀ i, w.diag.lastCounts i = reading (sampled i)

variable {E : Env} {w : Plant} {sampled : Wheels ℤ} {pending : Wheels (List Edge)} {p : Pass}

def Pass.arrived (p : Pass) (pending : Wheels (List Edge)) : Wheels (List Edge) :=
  fun i => pending i ++ p.edges i

theorem Tracks.countersAfter (ht : Tracks w sampled pending) (i : Wheel) :
    w.countersAfter p i = run encoderCountLimit.toInt (sampled i) (p.arrived pending i) := by
  rw [Plant.countersAfter, ht.counter, Pass.arrived, run_append]

theorem encoderRead_pass (d : Diag) (p : Pass) (counters : Wheels ℤ) (i : Wheel) :
    (p.Reads i → (encoderRead d (p.iteration counters).counts).2.1 i = reading (counters i) ∧
      (encoderRead d (p.iteration counters).counts).2.2 i =
        robotChassisSafeCountDelta (reading (counters i)) (d.lastCounts i) encoderCountLimit) ∧
    (¬ p.Reads i →
      (encoderRead d (p.iteration counters).counts).2.1 i = d.lastCounts i) := by
  have hanswers : (fun j => ((p.iteration counters).counts j).isSome) = p.answers := by
    funext j
    unfold Pass.iteration
    cases hj : p.answers j <;> simp [hj]
  have hspec := readEncoders_spec (p.iteration counters).counts (List.nodup_finRange 4)
    d.lastCounts (fun _ => 0) i
  rw [hanswers, ← Pass.reads_iff] at hspec
  obtain ⟨hread, hkept⟩ := hspec
  refine ⟨fun hr => ?_, fun hr => (hkept hr).1⟩
  obtain ⟨n, hn, hlast, hdelta⟩ := hread hr
  have hcount : (p.iteration counters).counts i = some (reading (counters i)) :=
    if_pos (hr i le_rfl)
  rw [hcount] at hn
  cases hn
  exact ⟨hlast, hdelta⟩

theorem encoderRead_complete (d : Diag) (p : Pass) (counters : Wheels ℤ) :
    (encoderRead d (p.iteration counters).counts).1 = p.complete := by
  have hfailed := encoderRead_fst d (p.iteration counters).counts
  have hnone : (∃ i, (p.iteration counters).counts i = none) ↔ p.complete = false := by
    simp [Pass.iteration, Pass.complete]
  rw [hnone] at hfailed
  cases hc : p.complete with
  | false => exact hfailed.mpr hc
  | true =>
    rw [← Bool.not_eq_false, hfailed, hc]
    simp

theorem Tracks.pass (ht : Tracks w sampled pending) :
    Tracks (w.pass E p) (fun i => if p.Reads i then w.countersAfter p i else sampled i)
      (fun i => if p.Reads i then [] else p.arrived pending i) := by
  have hcounters : ∀ i, (w.pass E p).counters i = w.countersAfter p i := fun _ => rfl
  have hlast : ∀ i, (w.pass E p).diag.lastCounts i = (encoderRead
      (beforeSample E w.diag (p.iteration (w.countersAfter p)))
      (p.iteration (w.countersAfter p)).counts).2.1 i := by
    intro i
    have hsample := sampleEncoders_lastCounts E
      (beforeSample E w.diag (p.iteration (w.countersAfter p)))
      (p.iteration (w.countersAfter p)).counts
    exact congrFun hsample i
  constructor
  · intro i
    split_ifs
    · rw [ht.countersAfter]
      exact run_inRange (ht.inRange i) _
    · exact ht.inRange i
  · intro i
    rw [hcounters]
    split_ifs
    · rfl
    · exact ht.countersAfter i
  · intro i
    obtain ⟨hread, hkept⟩ := encoderRead_pass
      (beforeSample E w.diag (p.iteration (w.countersAfter p))) p (w.countersAfter p) i
    rw [hlast]
    split_ifs with hr
    · exact (hread hr).1
    · rw [hkept hr, beforeSample_lastCounts]
      exact ht.remembered i

/-- A complete pass delivers the movement of each wheel since its sample before. -/
theorem Tracks.passedDelta (ht : Tracks w sampled pending) (hc : p.complete = true) :
    ∃ delta, passedDelta E w.diag (p.iteration (w.countersAfter p)) = some delta ∧
      ∀ i, (p.arrived pending i).length < 15000 →
        (delta i).toInt = net (p.arrived pending i) := by
  have hcomplete := encoderRead_complete
    (beforeSample E w.diag (p.iteration (w.countersAfter p))) p (w.countersAfter p)
  rw [hc] at hcomplete
  refine ⟨_, if_pos hcomplete, ?_⟩
  intro i hshort
  obtain ⟨hread, _⟩ := encoderRead_pass
    (beforeSample E w.diag (p.iteration (w.countersAfter p))) p (w.countersAfter p) i
  obtain ⟨_, hdelta⟩ := hread (Pass.reads_of_complete hc i)
  rw [hdelta, beforeSample_lastCounts, ht.remembered, ht.countersAfter]
  have hlimit : encoderCountLimit.toInt = 30000 := by decide
  apply safeCountDelta_run (by decide) (ht.inRange i)
  rw [hlimit]
  omega

theorem passedDelta_of_incomplete (hc : p.complete = false) (counters : Wheels ℤ) (d : Diag) :
    Chassis.passedDelta E d (p.iteration counters) = none := by
  have hfailed := encoderRead_complete (beforeSample E d (p.iteration counters)) p counters
  rw [hc] at hfailed
  unfold Chassis.passedDelta
  dsimp only
  rw [hfailed]
  rfl

/-- A successful read of a wheel: the edges since the one before, and whether the other wheels
of the pass were read as well. -/
structure Sample where
  edges : List Edge
  complete : Bool

/-- The successful reads of a wheel in a run. -/
def samples (i : Wheel) : List Edge → List Pass → List Sample
  | _, [] => []
  | pending, p :: passes =>
    if p.Reads i then ⟨pending ++ p.edges i, p.complete⟩ :: samples i [] passes
    else samples i (pending ++ p.edges i) passes

def unread (i : Wheel) : List Edge → List Pass → List Edge
  | pending, [] => pending
  | pending, p :: passes =>
    if p.Reads i then unread i [] passes else unread i (pending ++ p.edges i) passes

theorem samples_append (i : Wheel) (pending : List Edge) (passes next : List Pass) :
    samples i pending (passes ++ next) =
      samples i pending passes ++ samples i (unread i pending passes) next := by
  induction passes generalizing pending with
  | nil => rfl
  | cons p passes ih =>
    rw [List.cons_append, samples, samples, unread]
    split_ifs
    · rw [ih, List.cons_append]
    · exact ih _

theorem unread_append (i : Wheel) (pending : List Edge) (passes next : List Pass) :
    unread i pending (passes ++ next) = unread i (unread i pending passes) next := by
  induction passes generalizing pending with
  | nil => rfl
  | cons p passes ih =>
    rw [List.cons_append, unread, unread]
    split_ifs
    · exact ih _
    · exact ih _

def sampledNet (s : List Sample) : ℤ := (s.map fun x => net x.edges).sum

@[simp] theorem sampledNet_nil : sampledNet [] = 0 := rfl

@[simp] theorem sampledNet_cons (x : Sample) (s : List Sample) :
    sampledNet (x :: s) = net x.edges + sampledNet s := List.sum_cons

def movement (i : Wheel) (passes : List Pass) : ℤ := net (passes.flatMap fun p => p.edges i)

/-- Every edge is in a sample or still unread. -/
theorem net_samples (i : Wheel) (pending : List Edge) (passes : List Pass) :
    net pending + movement i passes =
      sampledNet (samples i pending passes) + net (unread i pending passes) := by
  induction passes generalizing pending with
  | nil => simp [movement, samples, unread]
  | cons p passes ih =>
    have hmovement : movement i (p :: passes) = net (p.edges i) + movement i passes := by
      unfold movement
      rw [List.flatMap_cons, net_append]
    have hread := ih []
    have hunread := ih (pending ++ p.edges i)
    rw [net_nil] at hread
    rw [net_append] at hunread
    rw [hmovement, samples, unread]
    split_ifs
    · rw [sampledNet_cons, net_append]
      omega
    · omega

def passedDeltas (E : Env) : Plant → List Pass → List (Wheels Int32)
  | _, [] => []
  | w, p :: passes =>
    (Chassis.passedDelta E w.diag (p.iteration (w.countersAfter p))).toList ++
      passedDeltas E (w.pass E p) passes

def odometryCounts (E : Env) (w : Plant) (passes : List Pass) (i : Wheel) : ℤ :=
  ((passedDeltas E w passes).map fun delta => (delta i).toInt).sum

theorem odometryCounts_eq (ht : Tracks w sampled pending) {passes : List Pass} {i : Wheel}
    (hshort : ∀ s ∈ samples i (pending i) passes, s.edges.length < 15000) :
    odometryCounts E w passes i =
      sampledNet ((samples i (pending i) passes).filter Sample.complete) := by
  induction passes generalizing w sampled pending with
  | nil => rfl
  | cons p passes ih =>
    have hnext := ih (ht.pass (E := E) (p := p))
    unfold odometryCounts at hnext ⊢
    rw [passedDeltas, List.map_append, List.sum_append]
    rw [samples] at hshort ⊢
    by_cases hr : p.Reads i
    · rw [if_pos hr] at hshort hnext ⊢
      obtain ⟨hfirst, hrest⟩ := List.forall_mem_cons.mp hshort
      rw [hnext hrest]
      cases hc : p.complete with
      | false =>
        rw [passedDelta_of_incomplete hc, List.filter_cons_of_neg (by simp)]
        simp
      | true =>
        obtain ⟨delta, hdelta, hnet⟩ := ht.passedDelta (E := E) hc
        rw [hdelta, List.filter_cons_of_pos rfl, sampledNet_cons]
        have hmoved := hnet i hfirst
        simp only [Option.toList_some, List.map_cons, List.map_nil, List.sum_cons, List.sum_nil,
          add_zero]
        rw [hmoved]
        rfl
    · have hc : p.complete = false := by
        by_contra hne
        exact hr (Pass.reads_of_complete (by simpa using hne) i)
      rw [if_neg hr] at hshort hnext ⊢
      rw [hnext hshort, passedDelta_of_incomplete hc]
      simp [Pass.arrived]

/-- The passes up to the latest one with a complete sample. -/
def upToComplete (passes : List Pass) : List Pass := passes.rdropWhile fun p => !p.complete

/-- The movement of a wheel that was read in passes in which a later wheel was not. -/
def lostMovement (i : Wheel) (passes : List Pass) : ℤ :=
  sampledNet ((samples i [] (upToComplete passes)).filter fun s => !s.complete)

theorem upToComplete_concat_of_complete {passes : List Pass} (hc : p.complete = true) :
    upToComplete (passes ++ [p]) = passes ++ [p] :=
  List.rdropWhile_concat_neg _ _ _ (by simp [hc])

theorem upToComplete_concat_of_incomplete {passes : List Pass} (hc : p.complete = false) :
    upToComplete (passes ++ [p]) = upToComplete passes :=
  List.rdropWhile_concat_pos _ _ _ (by simp [hc])

/-- After the latest complete sample nothing reaches the odometry. -/
theorem complete_samples_upTo (i : Wheel) (passes : List Pass) :
    (samples i [] (upToComplete passes)).filter Sample.complete =
      (samples i [] passes).filter Sample.complete := by
  induction passes using List.reverseRecOn with
  | nil => rfl
  | append_singleton passes p ih =>
    cases hc : p.complete with
    | true => rw [upToComplete_concat_of_complete hc]
    | false =>
      rw [upToComplete_concat_of_incomplete hc, ih, samples_append, List.filter_append, samples,
        samples, samples]
      split_ifs
      · simp [hc]
      · simp

/-- At a complete sample every edge has been read. -/
theorem movement_upTo (i : Wheel) (passes : List Pass) :
    movement i (upToComplete passes) = sampledNet (samples i [] (upToComplete passes)) := by
  induction passes using List.reverseRecOn with
  | nil => rfl
  | append_singleton passes p ih =>
    cases hc : p.complete with
    | false => rw [upToComplete_concat_of_incomplete hc, ih]
    | true =>
      have hall := net_samples i [] (passes ++ [p])
      have hnone : unread i [] (passes ++ [p]) = [] := by
        rw [unread_append, unread, if_pos (Pass.reads_of_complete hc i)]
        rfl
      rw [hnone, net_nil, zero_add, add_zero] at hall
      rw [upToComplete_concat_of_complete hc, hall]

theorem sampledNet_partition (s : List Sample) :
    sampledNet s = sampledNet (s.filter Sample.complete) +
      sampledNet (s.filter fun x => !x.complete) := by
  induction s with
  | nil => rfl
  | cons x s ih =>
    cases hx : x.complete with
    | false =>
      rw [List.filter_cons_of_neg (by simp [hx]), List.filter_cons_of_pos (by simp [hx]),
        sampledNet_cons, sampledNet_cons]
      omega
    | true =>
      rw [List.filter_cons_of_pos (by simp [hx]), List.filter_cons_of_neg (by simp [hx]),
        sampledNet_cons, sampledNet_cons]
      omega

def Plant.start (d : Diag) : Plant := ⟨d, fun _ => 0⟩

theorem tracks_start {inp : StartInputs} {d : Diag} (hs : robotChassisDiagStart E inp = .ok d) :
    Tracks (Plant.start d) (fun _ => 0) fun _ => [] := by
  constructor
  · intro i
    decide
  · intro i
    rfl
  · intro i
    obtain ⟨core, _, hd⟩ := start_eq hs
    change d.lastCounts i = reading 0
    rw [hd]
    rfl

/-- Each pass updates the odometry with the deltas that it passes on and with nothing else, and
every count reaches the odometry exactly when the movement read in passes that a later wheel failed
cancels out. -/
theorem counts_conserved_iff {inp : StartInputs} {d : Diag}
    (hs : robotChassisDiagStart E inp = .ok d) (passes : List Pass)
    (hshort : ∀ i, ∀ s ∈ samples i [] passes, s.edges.length < 15000) :
    (∀ older p newer, passes = older ++ p :: newer →
      UpdatesOdometry E (older.foldl (Plant.pass E) (.start d)).diag
        (p.iteration ((older.foldl (Plant.pass E) (.start d)).countersAfter p))) ∧
    ((∀ i, odometryCounts E (.start d) passes i = movement i (upToComplete passes)) ↔
      ∀ i, lostMovement i passes = 0) := by
  refine ⟨fun older p _ _ => updatesOdometry E _ _, forall_congr' fun i => ?_⟩
  have hodometry := odometryCounts_eq (E := E) (tracks_start hs) (hshort i)
  have hparts := sampledNet_partition (samples i [] (upToComplete passes))
  rw [hodometry, movement_upTo, ← complete_samples_upTo, hparts, lostMovement]
  constructor
  · intro h
    omega
  · intro h
    omega

/-- A pass in which the wheels make some forward edges and some reads answer. -/
def forwardPass (edges : ℕ) (answers : Wheels Bool) : Pass :=
  ⟨10000, [], [], fun _ => List.replicate edges .up, answers⟩

/-- A pass without any answer delays the movement and loses none. -/
theorem counts_conserved_iff_silent :
    movement 0 (upToComplete [forwardPass 5 fun _ => false, forwardPass 2 fun _ => true]) = 7 ∧
    (∀ i, odometryCounts .rational (.start readyDiag)
        [forwardPass 5 fun _ => false, forwardPass 2 fun _ => true] i =
      movement i (upToComplete [forwardPass 5 fun _ => false, forwardPass 2 fun _ => true])) ∧
    UpdatesOdometry .rational readyDiag
      ((forwardPass 5 fun _ => false).iteration
        ((Plant.start readyDiag).countersAfter (forwardPass 5 fun _ => false))) := by
  have hshort : ∀ i, ∀ s ∈ samples i []
      [forwardPass 5 fun _ => false, forwardPass 2 fun _ => true], s.edges.length < 15000 := by
    decide
  obtain ⟨hupdates, hiff⟩ := counts_conserved_iff readyDiag_start _ hshort
  exact ⟨by decide, hiff.mpr (by decide), hupdates [] _ _ rfl⟩

def restingPass : Pass := { forwardPass 0 (fun _ => true) with nowUs := 20000 }

/-- The read of the second wheel fails once: what the first one moved by then never arrives, and
the odometry turns although the wheels have moved alike. -/
theorem counts_lost :
    (∀ i, ∀ s ∈ samples i [] [forwardPass 5 (· ≠ 1), restingPass], s.edges.length < 15000) ∧
    odometryCounts .rational (.start readyDiag) [forwardPass 5 (· ≠ 1), restingPass] 0 = 0 ∧
    (∀ i, movement i (upToComplete [forwardPass 5 (· ≠ 1), restingPass]) = 5) ∧
    ([forwardPass 5 (· ≠ 1), restingPass].foldl (Plant.pass .rational)
      (.start readyDiag)).diag.odom.yawRad = .finite (29 / 18400) := by
  have hshort : ∀ i, ∀ s ∈ samples i [] [forwardPass 5 (· ≠ 1), restingPass],
      s.edges.length < 15000 := by decide
  exact ⟨hshort, by decide +kernel, by decide, by decide +kernel⟩

end RobotFirmware.Chassis
