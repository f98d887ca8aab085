import RobotFirmware.Library.Path
import RobotFirmware.Microros.Publisher

/-! The stream of IMU messages: a producer that submits samples at any time, and the task that
publishes them through failures, synchronisations and new sessions. -/
namespace RobotFirmware.Microros
open Fp Trace Imu

structure Publication where
  /-- The place of the sample among the accepted ones, from one. -/
  number : ℕ
  sample : ImuSample
  message : ImuMessage
  sampledAtNs : ℤ
  nowUs : ℤ
  epochNowNs : ℤ
  /-- The branch for coalesced samples was taken. -/
  coalesced : Bool

/-- The sample that a callback under way has read, if there was one, and its number. -/
structure Taken where
  latest : Option ImuSample
  number : ℕ

structure ImuSystem where
  imu : Imu.Statics
  ros : RosStatics
  clockUs : ℤ
  taken : Option Taken
  /-- The accepted samples, oldest first. -/
  accepted : List ImuSample
  /-- The published messages, newest first. -/
  published : List Publication

inductive ImuAction
  | tick (us : ℕ)
  | submit (linearAccelerationMps2 angularVelocityRadS : Option Axes) (sampledAtUs : ℤ)
  | beginTimer (snapshot : Option OdomSnapshot) (odom : PublishReadings)
  | endTimer (epochSynchronized : Bool) (epochNowNs : ℤ) (published : Bool)
  | sync (answer : SyncAnswer)
  | newSession
  | endSession

def publicationOf (s : RosStatics) (t : Taken) (r : PublishReadings)
    (message : Option ImuMessage) : List Publication :=
  match message, t.latest with
  | some message, some sample =>
    if r.published then
      [⟨t.number, sample, message, imuSampledAtNs sample r, r.nowUs, r.epochNowNs,
        decide (Coalesced s sample)⟩]
    else []
  | _, _ => []

/-- The callback up to its reading of the latest sample. -/
def beginImuTimer (c : Deployment) (s : ImuSystem) (snapshot : Option OdomSnapshot)
    (odom : PublishReadings) : ImuSystem :=
  { s with
    ros :=
      match c.mode with
      | .chassis => (publishOdomSnapshot c.env c.libm s.ros snapshot odom).2
      | .dryRun => s.ros
    taken :=
      if robotImuIsEnabled c.imu then some ⟨robotImuGetLatest s.imu, s.accepted.length⟩
      else none }

def endImuTimer (c : Deployment) (s : ImuSystem) (t : Taken) (r : PublishReadings) : ImuSystem :=
  let result := publishImuSample c.imu s.ros t.latest r
  { s with
    ros := result.2
    taken := none
    published := publicationOf s.ros t r result.1 ++ s.published }

/-- The task does one thing at a time; only the producer comes in between. -/
def whenIdle (s next : ImuSystem) : Option ImuSystem :=
  match s.taken with
  | some _ => none
  | none => some next

def imuStep (c : Deployment) (s : ImuSystem) : ImuAction → Option ImuSystem
  | .tick us => some { s with clockUs := s.clockUs + us }
  | .submit acceleration velocity sampledAtUs =>
    let r := robotImuSubmitSiSample s.imu acceleration velocity sampledAtUs
    match r.1 with
    | .ok () => some { s with
        imu := r.2, accepted := s.accepted ++ (robotImuGetLatest r.2).toList }
    | .error _ => some { s with imu := r.2 }
  | .beginTimer snapshot odom => whenIdle s (beginImuTimer c s snapshot odom)
  | .endTimer epochSynchronized epochNowNs published =>
    s.taken.map fun t =>
      endImuTimer c s t ⟨s.clockUs, epochSynchronized, epochNowNs, published⟩
  | .sync answer =>
    whenIdle s { s with
      ros := (refreshTimeSyncIfDue c.timeSyncPeriodMs s.ros s.clockUs answer).2 }
  | .newSession => whenIdle s { s with ros := prepareNewRosSession s.ros }
  | .endSession => whenIdle s { s with ros := { resetCommandQueue s.ros with timeSynced := false } }

/-- The system when the task starts, whatever the start of the IMU returned. -/
def imuStart (c : Deployment) (queueCreated : Bool) (producer : Except EspErr Unit) :
    ImuSystem where
  imu := (robotImuStart c.imu .zero queueCreated producer).2
  ros := { RosStatics.zero with commandQueue := some .empty }
  clockUs := 0
  taken := none
  accepted := []
  published := []

/-- Without the producer in between, the two parts are the callback. -/
theorem imuTimer_parts (c : Deployment) (s : ImuSystem) (r : TimerReadings)
    (hlatest : r.latest = robotImuGetLatest s.imu) (he : robotImuIsEnabled c.imu = true) :
    ∃ t, (beginImuTimer c s r.snapshot r.odom).taken = some t ∧ t.latest = r.latest ∧
      (endImuTimer c (beginImuTimer c s r.snapshot r.odom) t r.imu).ros =
        (imuTimerCallback c.env c.libm c.mode c.imu s.ros true r).2.2 := by
  refine ⟨⟨robotImuGetLatest s.imu, s.accepted.length⟩, ?_, hlatest.symm, ?_⟩
  · unfold beginImuTimer
    rw [if_pos he]
  · unfold endImuTimer beginImuTimer imuTimerCallback
    rw [← hlatest, he]
    cases c.mode <;> rfl

/-- The newest publication is what the task remembers. -/
def Remembers (ros : RosStatics) : List Publication → Prop
  | [] => ros.hasPublishedImuSample = false
  | p :: _ => ros.hasPublishedImuSample = true ∧
      ros.lastPublishedImuSequence = Word.numbered p.number ∧
      ros.lastPublishedImuStampNs = p.sampledAtNs

structure Shows (c : Deployment) (accepted : List ImuSample) (p : Publication) : Prop where
  positive : 0 < p.number
  acquired : accepted[p.number - 1]? = some p.sample
  message : p.message = imuMessage p.sample p.sampledAtNs
  fresh : robotImuClassifySample true (some p.sample) p.nowUs (robotImuStaleTimeoutUs c.imu) =
    .fresh
  stamp : p.sampledAtNs = p.epochNowNs - (p.nowUs - p.sample.sampledAtUs) * 1000
  stampPositive : 0 < p.sampledAtNs

structure Follows (newer older : Publication) : Prop where
  later : older.number < newer.number
  stamps : older.sampledAtNs < newer.sampledAtNs
  coalesced : newer.number - older.number ≤ 2 ^ 32 - 1 →
    (newer.coalesced = true ↔ older.number + 1 < newer.number)

/-- A publication that is not the first follows the one before. -/
def Stream : List Publication → Prop
  | [] => True
  | [first] => first.coalesced = false
  | newer :: older :: rest => Follows newer older ∧ Stream (older :: rest)

def UpTo (published : List Publication) (n : ℕ) : Prop := ∀ p ∈ published.head?, p.number ≤ n

structure StreamInv (c : Deployment) (s : ImuSystem) : Prop where
  sequence : s.imu.sampleSequence = Word.numbered s.accepted.length
  latest : robotImuGetLatest s.imu = s.accepted.getLast?
  numbers : ∀ n sample, s.accepted[n]? = some sample →
    sample.sampleSequence = Word.numbered (n + 1)
  taken : ∀ t, s.taken = some t → t.number ≤ s.accepted.length ∧ UpTo s.published t.number ∧
    ∀ sample, t.latest = some sample → 0 < t.number ∧ s.accepted[t.number - 1]? = some sample
  upTo : UpTo s.published s.accepted.length
  remembers : Remembers s.ros s.published
  shows : ∀ p ∈ s.published, Shows c s.accepted p
  stream : Stream s.published

theorem UpTo.mono {published : List Publication} {m n : ℕ} (h : UpTo published m)
    (hmn : m ≤ n) : UpTo published n := fun p hp => (h p hp).trans hmn

theorem imuStart_inv (c : Deployment) (queueCreated : Bool) (producer : Except EspErr Unit) :
    StreamInv c (imuStart c queueCreated producer) := by
  have hsequence : (robotImuStart c.imu .zero queueCreated producer).2.sampleSequence = 0 := by
    unfold robotImuStart
    split_ifs
    · rfl
    · rfl
    · rfl
    · cases producer <;> rfl
  have hlatest : robotImuGetLatest (robotImuStart c.imu .zero queueCreated producer).2 = none := by
    unfold robotImuStart
    split_ifs
    · rfl
    · rfl
    · rfl
    · cases producer <;> rfl
  constructor
  · exact hsequence
  · exact hlatest
  · intro n sample h
    simp [imuStart] at h
  · intro t ht
    cases ht
  · intro p hp
    cases hp
  · rfl
  · intro p hp
    cases hp
  · trivial

structure SameMemory (ros ros' : RosStatics) : Prop where
  has : ros'.hasPublishedImuSample = ros.hasPublishedImuSample
  sequence : ros'.lastPublishedImuSequence = ros.lastPublishedImuSequence
  stamp : ros'.lastPublishedImuStampNs = ros.lastPublishedImuStampNs

theorem Remembers.of_same {ros ros' : RosStatics} {published : List Publication}
    (h : Remembers ros published) (hsame : SameMemory ros ros') : Remembers ros' published := by
  cases published with
  | nil => exact hsame.has.trans h
  | cons p rest =>
    obtain ⟨hhas, hsequence, hstamp⟩ := h
    exact ⟨hsame.has.trans hhas, hsame.sequence.trans hsequence, hsame.stamp.trans hstamp⟩

theorem StreamInv.of_same {c : Deployment} {s : ImuSystem} (h : StreamInv c s) {ros : RosStatics}
    (hsame : SameMemory s.ros ros) : StreamInv c { s with ros := ros } :=
  ⟨h.sequence, h.latest, h.numbers, h.taken, h.upTo, h.remembers.of_same hsame, h.shows, h.stream⟩

theorem publishOdomSnapshot_same (E : Env) (m : Libm) (s : RosStatics)
    (snapshot : Option OdomSnapshot) (r : PublishReadings) :
    SameMemory s (publishOdomSnapshot E m s snapshot r).2 := by
  rcases publishOdomSnapshot_cases E m s snapshot r with hr | ⟨_, _, _, _, _, _, hr⟩
  · rw [hr]
    exact ⟨rfl, rfl, rfl⟩
  · rw [hr]
    exact ⟨rfl, rfl, rfl⟩

theorem refreshTimeSyncIfDue_same (periodMs : ℕ) (s : RosStatics) (nowUs : ℤ)
    (answer : SyncAnswer) : SameMemory s (refreshTimeSyncIfDue periodMs s nowUs answer).2 := by
  unfold refreshTimeSyncIfDue
  split_ifs <;> exact ⟨rfl, rfl, rfl⟩

theorem getElem?_mem_append {α : Type} {l : List α} {n : ℕ} {x : α} (h : l[n]? = some x)
    (l' : List α) : (l ++ l')[n]? = some x := by
  obtain ⟨hn, _⟩ := List.getElem?_eq_some_iff.mp h
  rw [List.getElem?_append_left hn]
  exact h

/-- An accepted sample gets the next number and leaves the stream alone. -/
theorem StreamInv.accept {c : Deployment} {s : ImuSystem} (h : StreamInv c s) {imu : Imu.Statics}
    {sample : ImuSample} (hlatest : robotImuGetLatest imu = some sample)
    (hnumber : sample.sampleSequence = Word.succNonzero s.imu.sampleSequence)
    (hsequence : imu.sampleSequence = Word.succNonzero s.imu.sampleSequence) :
    StreamInv c { s with imu := imu, accepted := s.accepted ++ [sample] } := by
  rw [h.sequence, Word.succNonzero_numbered] at hnumber hsequence
  have hlength : (s.accepted ++ [sample]).length = s.accepted.length + 1 := by simp
  constructor
  · change imu.sampleSequence = Word.numbered (s.accepted ++ [sample]).length
    rw [hlength]
    exact hsequence
  · change robotImuGetLatest imu = (s.accepted ++ [sample]).getLast?
    rw [List.getLast?_concat]
    exact hlatest
  · intro n x hx
    change (s.accepted ++ [sample])[n]? = some x at hx
    rcases lt_or_ge n s.accepted.length with hn | hn
    · rw [List.getElem?_append_left hn] at hx
      exact h.numbers n x hx
    · rw [List.getElem?_append_right hn] at hx
      have hzero : n - s.accepted.length = 0 := by
        by_contra hne
        rw [List.getElem?_eq_none (by rw [List.length_singleton]; omega)] at hx
        cases hx
      rw [hzero] at hx
      cases hx
      have hn' : n = s.accepted.length := by omega
      rw [hn']
      exact hnumber
  · intro t ht
    obtain ⟨hle, hupTo, htaken⟩ := h.taken t ht
    refine ⟨?_, hupTo, ?_⟩
    · change t.number ≤ (s.accepted ++ [sample]).length
      omega
    · intro x hx
      obtain ⟨hpos, hacquired⟩ := htaken x hx
      exact ⟨hpos, getElem?_mem_append hacquired _⟩
  · apply h.upTo.mono
    change s.accepted.length ≤ (s.accepted ++ [sample]).length
    omega
  · exact h.remembers
  · intro p hp
    have hshows := h.shows p hp
    exact { hshows with acquired := getElem?_mem_append hshows.acquired _ }
  · exact h.stream

/-- A sample with the next number follows the last publication without a gap, and any other
published sample leaves one out. -/
theorem coalesced_iff {ros : RosStatics} {older : Publication} {rest : List Publication}
    (hremembers : Remembers ros (older :: rest)) {sample : ImuSample} {n : ℕ}
    (hnumber : sample.sampleSequence = Word.numbered n) (hle : older.number ≤ n)
    (hnew : ¬ (ros.hasPublishedImuSample = true ∧
      sample.sampleSequence = ros.lastPublishedImuSequence)) :
    older.number < n ∧ (n - older.number ≤ 2 ^ 32 - 1 →
      (Coalesced ros sample ↔ older.number + 1 < n)) := by
  obtain ⟨hhas, hsequence, _⟩ := hremembers
  have hne : Word.numbered n ≠ Word.numbered older.number := by
    intro heq
    exact hnew ⟨hhas, by rw [hnumber, heq, hsequence]⟩
  have hlt : older.number < n := by
    rcases Nat.lt_or_eq_of_le hle with hlt | heq
    · exact hlt
    · exact absurd (congrArg Word.numbered heq).symm hne
  refine ⟨hlt, fun hgap => ?_⟩
  have hexpected : expectedSequence ros = Word.numbered (older.number + 1) := by
    rw [expectedSequence, hsequence, Word.succNonzero_numbered]
  unfold Coalesced
  rw [hexpected, hnumber]
  constructor
  · intro hcoalesced
    by_contra hnot
    have heq : n = older.number + 1 := by omega
    exact hcoalesced.2 (by rw [heq])
  · intro hgap'
    refine ⟨hhas, fun heq => ?_⟩
    have hsame := Word.numbered_inj (by omega) hgap'.le (by omega) heq.symm
    omega

theorem StreamInv.publish {c : Deployment} {s : ImuSystem} (h : StreamInv c s) {t : Taken}
    (ht : s.taken = some t) {sample : ImuSample} (hlatest : t.latest = some sample)
    {r : PublishReadings} (hp : Publishable c.imu s.ros sample r) :
    StreamInv c { s with
      ros := recordImu s.ros sample r
      taken := none
      published := ⟨t.number, sample, imuMessage sample (imuSampledAtNs sample r),
        imuSampledAtNs sample r, r.nowUs, r.epochNowNs,
        decide (Coalesced s.ros sample)⟩ :: s.published } := by
  obtain ⟨hle, hupTo, htaken⟩ := h.taken t ht
  obtain ⟨hpos, hacquired⟩ := htaken sample hlatest
  have hnumber := h.numbers _ sample hacquired
  rw [Nat.sub_add_cancel hpos] at hnumber
  constructor
  · exact h.sequence
  · exact h.latest
  · exact h.numbers
  · intro t' ht'
    cases ht'
  · intro p hp'
    cases hp'
    exact hle
  · exact ⟨rfl, hnumber, rfl⟩
  · intro p hp'
    rcases List.mem_cons.mp hp' with rfl | hold
    · exact ⟨hpos, hacquired, rfl, hp.fresh, rfl, hp.stampPositive⟩
    · exact h.shows p hold
  · have hremembers := h.remembers
    have hstream := h.stream
    cases hpublished : s.published with
    | nil =>
      rw [hpublished] at hremembers
      apply decide_eq_false
      exact fun hcoalesced => Bool.false_ne_true (hremembers.symm.trans hcoalesced.1)
    | cons older rest =>
      rw [hpublished] at hremembers hstream hupTo
      obtain ⟨hlt, hcoalesced⟩ := coalesced_iff hremembers hnumber (hupTo older rfl) hp.unpublished
      obtain ⟨hhas, _, hstamp⟩ := hremembers
      refine ⟨⟨hlt, ?_, ?_⟩, hstream⟩
      · have hlater := hp.later hhas
        rw [hstamp] at hlater
        exact hlater
      · intro hgap
        rw [decide_eq_true_iff]
        exact hcoalesced hgap

/-- A callback ends with a publication or with the task as it was. -/
theorem endImuTimer_cases (c : Deployment) (s : ImuSystem) (t : Taken) (r : PublishReadings) :
    endImuTimer c s t r = { s with taken := none } ∨
      (r.published = true ∧ ∃ sample, t.latest = some sample ∧
        Publishable c.imu s.ros sample r ∧ endImuTimer c s t r = { s with
          ros := recordImu s.ros sample r
          taken := none
          published := ⟨t.number, sample, imuMessage sample (imuSampledAtNs sample r),
            imuSampledAtNs sample r, r.nowUs, r.epochNowNs,
            decide (Coalesced s.ros sample)⟩ :: s.published }) := by
  unfold endImuTimer
  rcases publishImuSample_cases c.imu s.ros t.latest r with hnone | ⟨sample, hlatest, hp⟩
  · left
    rw [hnone]
    rfl
  · rw [hlatest, publishImuSample_of_publishable hp]
    cases hr : r.published with
    | false =>
      left
      simp [publicationOf, hr, hlatest]
    | true =>
      right
      refine ⟨rfl, sample, rfl, hp, ?_⟩
      simp [publicationOf, hr, hlatest]

theorem whenIdle_some {s next s' : ImuSystem} (h : whenIdle s next = some s') :
    s.taken = none ∧ next = s' := by
  unfold whenIdle at h
  cases ht : s.taken with
  | none =>
    rw [ht] at h
    exact ⟨rfl, Option.some.inj h⟩
  | some t =>
    rw [ht] at h
    cases h

theorem StreamInv.begin {c : Deployment} {s : ImuSystem} (h : StreamInv c s)
    (snapshot : Option OdomSnapshot) (odom : PublishReadings) :
    StreamInv c (beginImuTimer c s snapshot odom) := by
  have hsame : SameMemory s.ros (beginImuTimer c s snapshot odom).ros := by
    unfold beginImuTimer
    cases c.mode with
    | chassis => exact publishOdomSnapshot_same c.env c.libm s.ros snapshot odom
    | dryRun => exact ⟨rfl, rfl, rfl⟩
  refine ⟨h.sequence, h.latest, h.numbers, ?_, h.upTo, h.remembers.of_same hsame, h.shows,
    h.stream⟩
  intro t ht
  unfold beginImuTimer at ht
  dsimp only at ht
  split_ifs at ht
  cases ht
  refine ⟨le_rfl, h.upTo, ?_⟩
  intro sample hsample
  change robotImuGetLatest s.imu = some sample at hsample
  rw [h.latest] at hsample
  have hne : s.accepted ≠ [] := by
    intro hnil
    rw [hnil] at hsample
    cases hsample
  refine ⟨List.length_pos_iff.mpr hne, ?_⟩
  change s.accepted[s.accepted.length - 1]? = some sample
  rw [← List.getLast?_eq_getElem?]
  exact hsample

theorem StreamInv.step {c : Deployment} {s s' : ImuSystem} {a : ImuAction} (h : StreamInv c s)
    (hs : Enabled (imuStep c) s a s') : StreamInv c s' := by
  unfold Enabled imuStep at hs
  cases a with
  | tick us =>
    cases hs
    exact ⟨h.sequence, h.latest, h.numbers, h.taken, h.upTo, h.remembers, h.shows, h.stream⟩
  | submit acceleration velocity sampledAtUs =>
    dsimp only at hs
    cases hr : (robotImuSubmitSiSample s.imu acceleration velocity sampledAtUs).1 with
    | ok _ =>
      obtain ⟨sample, hlatest, hnumber, hsequence⟩ := submit_accepted hr
      rw [hr, hlatest] at hs
      cases hs
      exact h.accept hlatest hnumber hsequence
    | error e =>
      have hrejected : (robotImuSubmitSiSample s.imu acceleration velocity sampledAtUs).1 ≠
          .ok () := by
        rw [hr]
        exact nofun
      have hsame := submit_rejected hrejected
      rw [hr, hsame] at hs
      cases hs
      exact h
  | beginTimer snapshot odom =>
    obtain ⟨_, rfl⟩ := whenIdle_some hs
    exact h.begin snapshot odom
  | endTimer epochSynchronized epochNowNs published =>
    obtain ⟨t, ht, rfl⟩ := Option.map_eq_some_iff.mp hs
    rcases endImuTimer_cases c s t ⟨s.clockUs, epochSynchronized, epochNowNs, published⟩ with
      hend | ⟨_, sample, hlatest, hp, hend⟩
    · rw [hend]
      exact ⟨h.sequence, h.latest, h.numbers, nofun, h.upTo, h.remembers, h.shows, h.stream⟩
    · rw [hend]
      exact h.publish ht hlatest hp
  | sync answer =>
    obtain ⟨_, rfl⟩ := whenIdle_some hs
    exact h.of_same (refreshTimeSyncIfDue_same c.timeSyncPeriodMs s.ros s.clockUs answer)
  | newSession =>
    obtain ⟨_, rfl⟩ := whenIdle_some hs
    exact h.of_same ⟨rfl, rfl, rfl⟩
  | endSession =>
    obtain ⟨_, rfl⟩ := whenIdle_some hs
    exact h.of_same ⟨rfl, rfl, rfl⟩

theorem streamInv {c : Deployment} {queueCreated : Bool} {producer : Except EspErr Unit}
    {h : List (Event ImuSystem ImuAction)} {s : ImuSystem}
    (hp : Path (Enabled (imuStep c)) (imuStart c queueCreated producer) h s) : StreamInv c s :=
  hp.invariant (fun _ _ _ hinv hs => hinv.step hs) (imuStart_inv c queueCreated producer)

def Earlier (newer older : Publication) : Prop :=
  older.number < newer.number ∧ older.sampledAtNs < newer.sampledAtNs

instance : Trans Earlier Earlier Earlier :=
  ⟨fun hab hbd => ⟨hbd.1.trans hab.1, hbd.2.trans hab.2⟩⟩

/-- Over the whole stream numbers and stamps grow. -/
theorem Stream.pairwise {published : List Publication} (h : Stream published) :
    published.Pairwise Earlier := by
  apply List.IsChain.pairwise
  induction published with
  | nil => exact .nil
  | cons newer rest ih =>
    cases rest with
    | nil => exact .singleton newer
    | cons older rest =>
      obtain ⟨hfollows, hrest⟩ := h
      exact .cons_cons ⟨hfollows.later, hfollows.stamps⟩ (ih hrest)

theorem Stream.follows {newest rest : List Publication} {newer older : Publication}
    (h : Stream (newest ++ newer :: older :: rest)) : Follows newer older := by
  induction newest with
  | nil => exact h.1
  | cons p newest ih =>
    cases newest with
    | nil => exact ih h.2
    | cons q newest => exact ih h.2

/-- The two fields of a stamp below `2 ^ 31` seconds. -/
theorem stampOfNs_spec {sampledAtNs : ℤ} (hpos : 0 < sampledAtNs)
    (hlt : sampledAtNs < 2 ^ 31 * 1000000000) :
    (stampOfNs sampledAtNs).sec.toInt * 1000000000 + (stampOfNs sampledAtNs).nanosec.toNat =
        sampledAtNs ∧ (stampOfNs sampledAtNs).nanosec.toNat < 1000000000 := by
  have hsec : (stampOfNs sampledAtNs).sec.toInt = sampledAtNs / 1000000000 := by
    rw [stampOfNs, Int.tdiv_eq_ediv_of_nonneg hpos.le]
    apply Int32.toInt_ofInt_of_le <;> omega
  have hnanosec : ((stampOfNs sampledAtNs).nanosec.toNat : ℤ) = sampledAtNs % 1000000000 := by
    rw [stampOfNs, Int.tmod_eq_emod_of_nonneg hpos.le]
    change ((UInt32.ofNat (sampledAtNs % 1000000000 % 2 ^ 32).toNat).toNat : ℤ) = _
    rw [UInt32.toNat_ofNat']
    omega
  constructor
  · rw [hsec, hnanosec]
    omega
  · omega

/-- What a published message says about its sample. -/
structure Genuine (c : Deployment) (accepted : List ImuSample) (p : Publication) : Prop where
  acquired : 0 < p.number ∧ accepted[p.number - 1]? = some p.sample
  values : p.message = imuMessage p.sample p.sampledAtNs
  finite : robotImuSampleValuesAreFinite (some p.sample) = true
  age : 0 ≤ p.nowUs - p.sample.sampledAtUs ∧
    p.nowUs - p.sample.sampledAtUs ≤ robotImuStaleTimeoutUs c.imu
  stamp : p.sampledAtNs = p.epochNowNs - (p.nowUs - p.sample.sampledAtUs) * 1000
  fields : p.epochNowNs < 2 ^ 31 * 1000000000 →
    p.message.stamp.sec.toInt * 1000000000 + p.message.stamp.nanosec.toNat = p.sampledAtNs ∧
      p.message.stamp.nanosec.toNat < 1000000000

theorem Shows.genuine {c : Deployment} {accepted : List ImuSample} {p : Publication}
    (h : Shows c accepted p) : Genuine c accepted p := by
  obtain ⟨_, x, hx, hfinite, hsampled, hage, hstale⟩ := classify_fresh_iff.mp h.fresh
  cases hx
  refine ⟨⟨h.positive, h.acquired⟩, h.message, hfinite, ⟨hage, hstale⟩, h.stamp, ?_⟩
  intro hepoch
  have hstamp := h.stamp
  have hmessage : p.message.stamp = stampOfNs p.sampledAtNs := by
    rw [h.message]
    rfl
  rw [hmessage]
  exact stampOfNs_spec h.stampPositive (by omega)

theorem step_submit_rejected {c : Deployment} {s s' : ImuSystem}
    {acceleration velocity : Option Axes} {sampledAtUs : ℤ}
    (hs : Enabled (imuStep c) s (.submit acceleration velocity sampledAtUs) s')
    (hr : (robotImuSubmitSiSample s.imu acceleration velocity sampledAtUs).1 ≠ .ok ()) :
    s' = s := by
  unfold Enabled imuStep at hs
  have hsame := submit_rejected hr
  dsimp only at hs
  cases hr' : (robotImuSubmitSiSample s.imu acceleration velocity sampledAtUs).1 with
  | ok _ => exact absurd hr' hr
  | error e =>
    rw [hr', hsame] at hs
    cases hs
    rfl

/-- A publication that fails leaves the sample as unpublished as it was. -/
theorem step_publish_failed {c : Deployment} {s s' : ImuSystem} {epochSynchronized : Bool}
    {epochNowNs : ℤ}
    (hs : Enabled (imuStep c) s (.endTimer epochSynchronized epochNowNs false) s') :
    s' = { s with taken := none } := by
  obtain ⟨t, _, rfl⟩ := Option.map_eq_some_iff.mp hs
  rcases endImuTimer_cases c s t ⟨s.clockUs, epochSynchronized, epochNowNs, false⟩ with
    hend | ⟨hpublished, _⟩
  · exact hend
  · cases hpublished

/-- The integrity of the stream over every interleaving. -/
theorem imu_stream_integrity {c : Deployment} {queueCreated : Bool}
    {producer : Except EspErr Unit} {h : List (Event ImuSystem ImuAction)} {s : ImuSystem}
    (hp : Path (Enabled (imuStep c)) (imuStart c queueCreated producer) h s) :
    s.published.Pairwise Earlier ∧
    (∀ p ∈ s.published, Genuine c s.accepted p) ∧
    (∀ newest newer older rest, s.published = newest ++ newer :: older :: rest →
      newer.number - older.number ≤ 2 ^ 32 - 1 →
      (newer.coalesced = true ↔ older.number + 1 < newer.number)) ∧
    ∀ e ∈ h,
      (∀ acceleration velocity sampledAtUs, e.label = .submit acceleration velocity sampledAtUs →
        (robotImuSubmitSiSample e.before.imu acceleration velocity sampledAtUs).1 ≠ .ok () →
        e.after = e.before) ∧
      (∀ epochSynchronized epochNowNs, e.label = .endTimer epochSynchronized epochNowNs false →
        e.after = { e.before with taken := none }) := by
  have hinv := streamInv hp
  refine ⟨hinv.stream.pairwise, fun p hp => (hinv.shows p hp).genuine, ?_, ?_⟩
  · intro newest newer older rest hpublished
    have hstream := hinv.stream
    rw [hpublished] at hstream
    exact hstream.follows.coalesced
  · intro e he
    obtain ⟨newer, older, rfl⟩ := List.append_of_mem he
    obtain ⟨_, hs, _⟩ := hp.at_event
    constructor
    · intro acceleration velocity sampledAtUs hlabel hr
      rw [hlabel] at hs
      exact step_submit_rejected hs hr
    · intro epochSynchronized epochNowNs hlabel
      rw [hlabel] at hs
      exact step_publish_failed hs

/-- Three samples of which the second is never published. -/
def coalescedRun : List ImuAction :=
  [.newSession, .sync ⟨true, true⟩,
    .submit (some fun _ => .finite 0) (some fun _ => .finite 0) 0,
    .beginTimer none ⟨0, true, 1000000000, true⟩, .endTimer true 1000000000 true,
    .tick 1000,
    .submit (some fun _ => .finite 1) (some fun _ => .finite 0) 1000,
    .submit (some fun _ => .finite 2) (some fun _ => .finite 0) 1000,
    .beginTimer none ⟨0, true, 1000000000, true⟩, .endTimer true 1001000000 true]

theorem imu_stream_integrity_coalesced : ∃ h s,
    Path (Enabled (imuStep physicalDeployment)) (imuStart physicalDeployment true (.ok ())) h s ∧
      s.published.map (fun p => (p.number, p.coalesced)) = [(3, true), (1, false)] ∧
      s.published.Pairwise Earlier := by
  have hrun : (runAll (imuStep physicalDeployment) (imuStart physicalDeployment true (.ok ()))
      coalescedRun).map (fun s => s.published.map fun p => (p.number, p.coalesced)) =
      some [(3, true), (1, false)] := by decide +kernel
  obtain ⟨s, hs, hpublished⟩ := Option.map_eq_some_iff.mp hrun
  obtain ⟨h, hp, _⟩ := path_of_runAll hs
  exact ⟨h, s, hp, hpublished, (imu_stream_integrity hp).1⟩

end RobotFirmware.Microros
