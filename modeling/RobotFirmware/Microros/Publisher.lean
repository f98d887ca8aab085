import Mathlib.Data.Fin.VecNotation
import RobotFirmware.Imu.Sample
import RobotFirmware.Chassis.RemoteQueue
import RobotFirmware.Drive.Task

/-! The callbacks of the micro-ROS task with the statics they share: the publishers of odometry
and of IMU samples, the time synchronisation and the cache of the latest command. Clock
readings, epoch readings and return codes are inputs; log output is left out. -/
namespace RobotFirmware.Microros
open Fp Queue Imu

/-- `CONFIG_ROBOT_APP_MODE_MICROROS_CHASSIS` defined or not. -/
inductive AppMode
  | chassis
  | dryRun
  deriving DecidableEq

structure Stamp where
  sec : Int32
  nanosec : UInt32
  deriving DecidableEq

/-- The two fields of a stamp, as they are cast. -/
def stampOfNs (sampledAtNs : ℤ) : Stamp :=
  ⟨.ofInt (sampledAtNs.tdiv 1000000000), .ofInt (sampledAtNs.tmod 1000000000)⟩

structure ImuMessage where
  stamp : Stamp
  angularVelocity : Axes
  linearAcceleration : Axes

structure OdomMessage where
  stamp : Stamp
  position : Axes
  orientation : Fin 4 → Datum
  linearTwist : Axes
  angularTwist : Axes

/-- What `robot_chassis_diag_get_odom_snapshot` fills in when it returns true. -/
structure OdomSnapshot where
  sampledAtUs : ℤ
  xM : Datum
  yM : Datum
  yawRad : Datum
  linearXMps : Datum
  angularZRadps : Datum

structure CommandCache where
  value : Int32
  receivedAtMs : ℤ

/-- The static variables of the file without its entities and log limits. -/
structure RosStatics where
  timeSynced : Bool
  nextTimeSyncAtUs : ℤ
  hasPublishedOdomSample : Bool
  lastPublishedOdomSampledAtUs : ℤ
  lastPublishedOdomStampNs : ℤ
  hasPublishedImuSample : Bool
  lastPublishedImuSequence : UInt32
  lastPublishedImuStampNs : ℤ
  imuCoalescedEventsSinceLog : UInt32
  nextImuCoalescedLogAtUs : ℤ
  heartbeat : Int32
  commandQueue : Option (Fifo CommandCache 1)

def RosStatics.zero : RosStatics := ⟨false, 0, false, 0, 0, false, 0, 0, 0, 0, 0, none⟩

/-- What the outside answers while a sample is being published. -/
structure PublishReadings where
  nowUs : ℤ
  epochSynchronized : Bool
  epochNowNs : ℤ
  published : Bool

structure Libm where
  sin : Datum → Datum
  cos : Datum → Datum

structure Deployment where
  env : Env
  libm : Libm
  mode : AppMode
  imu : Imu.Options
  timeSyncPeriodMs : ℕ

/-- A deployment with the physical sensor and the defaults of the menus. -/
def physicalDeployment : Deployment :=
  ⟨.rational, ⟨fun x => x, fun _ => .finite 1⟩, .chassis, ⟨.icm42670p, 100⟩, 60000⟩

def odomMessage (E : Env) (m : Libm) (snapshot : OdomSnapshot) (sampledAtNs : ℤ) : OdomMessage :=
  let halfYaw := Datum.mul E.double (.finite (1 / 2)) snapshot.yawRad
  { stamp := stampOfNs sampledAtNs
    position := ![snapshot.xM, snapshot.yM, .finite 0]
    orientation := ![.finite 0, .finite 0, m.sin halfYaw, m.cos halfYaw]
    linearTwist := ![snapshot.linearXMps, .finite 0, .finite 0]
    angularTwist := ![.finite 0, .finite 0, snapshot.angularZRadps] }

/-- The time of the sample on the clock of the agent; an age is never negative. -/
def odomSampledAtNs (snapshot : OdomSnapshot) (r : PublishReadings) : ℤ :=
  r.epochNowNs - max (r.nowUs - snapshot.sampledAtUs) 0 * 1000

/-- The message handed to `rcl_publish`, if there is one, and the statics. -/
def publishOdomSnapshot (E : Env) (m : Libm) (s : RosStatics) (snapshot : Option OdomSnapshot)
    (r : PublishReadings) : Option OdomMessage × RosStatics :=
  match snapshot with
  | none => (none, s)
  | some snapshot =>
    if !s.timeSynced || !r.epochSynchronized then (none, s)
    else if s.hasPublishedOdomSample ∧ snapshot.sampledAtUs ≤ s.lastPublishedOdomSampledAtUs then
      (none, s)
    else
      let sampledAtNs := odomSampledAtNs snapshot r
      if r.epochNowNs ≤ 0 ∨ sampledAtNs ≤ 0 then (none, s)
      else if s.hasPublishedOdomSample ∧ sampledAtNs ≤ s.lastPublishedOdomStampNs then (none, s)
      else
        (some (odomMessage E m snapshot sampledAtNs),
          if r.published then { s with
            lastPublishedOdomSampledAtUs := snapshot.sampledAtUs
            lastPublishedOdomStampNs := sampledAtNs
            hasPublishedOdomSample := true }
          else s)

def imuMessage (sample : ImuSample) (sampledAtNs : ℤ) : ImuMessage :=
  ⟨stampOfNs sampledAtNs, sample.angularVelocityRadS, sample.linearAccelerationMps2⟩

def imuSampledAtNs (sample : ImuSample) (r : PublishReadings) : ℤ :=
  r.epochNowNs - (r.nowUs - sample.sampledAtUs) * 1000

def expectedSequence (s : RosStatics) : UInt32 := Word.succNonzero s.lastPublishedImuSequence

def Coalesced (s : RosStatics) (sample : ImuSample) : Prop :=
  s.hasPublishedImuSample ∧ sample.sampleSequence ≠ expectedSequence s

instance (s : RosStatics) (sample : ImuSample) : Decidable (Coalesced s sample) :=
  inferInstanceAs (Decidable (_ ∧ _))

/-- The branch for coalesced samples, with its limit on log lines. -/
def countCoalesced (s : RosStatics) (nowUs : ℤ) : RosStatics :=
  let events := s.imuCoalescedEventsSinceLog + 1
  if s.nextImuCoalescedLogAtUs ≤ nowUs then
    { s with imuCoalescedEventsSinceLog := 0, nextImuCoalescedLogAtUs := nowUs + 1000000 }
  else { s with imuCoalescedEventsSinceLog := events }

def recordImu (s : RosStatics) (sample : ImuSample) (r : PublishReadings) : RosStatics :=
  let counted := if Coalesced s sample then countCoalesced s r.nowUs else s
  { counted with
    lastPublishedImuSequence := sample.sampleSequence
    lastPublishedImuStampNs := imuSampledAtNs sample r
    hasPublishedImuSample := true }

/-- `imu_timer_callback` from its reading of the latest sample on. -/
def publishImuSample (o : Imu.Options) (s : RosStatics) (latest : Option ImuSample)
    (r : PublishReadings) : Option ImuMessage × RosStatics :=
  if robotImuClassifySample latest.isSome latest r.nowUs (robotImuStaleTimeoutUs o) ≠ .fresh then
    (none, s)
  else
    match latest with
    | none => (none, s)
    | some sample =>
      if s.hasPublishedImuSample ∧ sample.sampleSequence = s.lastPublishedImuSequence then
        (none, s)
      else if !s.timeSynced || !r.epochSynchronized then (none, s)
      else
        let sampledAtNs := imuSampledAtNs sample r
        if r.epochNowNs ≤ 0 ∨ sampledAtNs ≤ 0 then (none, s)
        else if s.hasPublishedImuSample ∧ sampledAtNs ≤ s.lastPublishedImuStampNs then (none, s)
        else (some (imuMessage sample sampledAtNs), if r.published then recordImu s sample r else s)

structure TimerReadings where
  snapshot : Option OdomSnapshot
  odom : PublishReadings
  latest : Option ImuSample
  imu : PublishReadings

/-- The messages handed to `rcl_publish` and the statics. -/
def imuTimerCallback (E : Env) (m : Libm) (mode : AppMode) (o : Imu.Options) (s : RosStatics)
    (timer : Bool) (r : TimerReadings) : Option OdomMessage × Option ImuMessage × RosStatics :=
  if !timer then (none, none, s)
  else
    let odom :=
      match mode with
      | .chassis => publishOdomSnapshot E m s r.snapshot r.odom
      | .dryRun => (none, s)
    if !robotImuIsEnabled o then (odom.1, none, odom.2)
    else
      let imu := publishImuSample o odom.2 r.latest r.imu
      (odom.1, imu.1, imu.2)

/-- `rmw_uros_sync_session` returned OK, and `rmw_uros_epoch_synchronized`. -/
structure SyncAnswer where
  ok : Bool
  epochSynchronized : Bool

/-- Whether the attempt, if one was due, succeeded. -/
def refreshTimeSyncIfDue (periodMs : ℕ) (s : RosStatics) (nowUs : ℤ) (answer : SyncAnswer) :
    Option Bool × RosStatics :=
  if nowUs < s.nextTimeSyncAtUs then (none, s)
  else
    let synced := answer.ok && answer.epochSynchronized
    (some synced, { s with
      timeSynced := synced
      nextTimeSyncAtUs := if synced then nowUs + periodMs * 1000 else nowUs + 5000000 })

/-- `xQueueReset` on the command cache. -/
def resetCommandQueue (s : RosStatics) : RosStatics :=
  { s with commandQueue := s.commandQueue.map fun _ => .empty }

inductive MotionRequest
  | stop (reason : Drive.StopReason)
  | submit (linearXMps angularZRadps : Datum)
  | zero
  | arm
  deriving DecidableEq

def overwriteCommand (s : RosStatics) (value : Int32) (nowUs : ℤ) : RosStatics :=
  { s with commandQueue := s.commandQueue.map fun q => q.overwrite ⟨value, nowUs.tdiv 1000⟩ }

/-- The motion requests of the callback and the statics; `remoteOk` answers ZERO and ARM. -/
def commandSubscriptionCallback (mode : AppMode) (s : RosStatics) (msg : Option Int32)
    (remoteOk : Bool) (nowUs : ℤ) : List MotionRequest × RosStatics :=
  match msg with
  | none => ([], s)
  | some data =>
    match mode with
    | .dryRun => ([], overwriteCommand s data nowUs)
    | .chassis =>
      if data ≠ 0 ∧ data ≠ 1 then ([.stop .externalRequest], s)
      else
        let request := if data = 0 then MotionRequest.zero else .arm
        if remoteOk then ([request], overwriteCommand s data nowUs)
        else ([request, .stop .externalRequest], s)

/-- The motion requests of `cmd_vel_subscription_callback`; `submitted` answers the first. -/
def cmdVelMotionRequests (E : Env) (msg : Option Chassis.Twist) (submitted : Bool) :
    List MotionRequest :=
  match msg with
  | none => [.stop .invalidCommand]
  | some command =>
    if !Chassis.supportedTwistIsValid E (some command) then [.stop .invalidCommand]
    else
      let request := MotionRequest.submit (E.toSingle command.linearX)
        (E.toSingle command.angularZ)
      if submitted then [request] else [request, .stop .externalRequest]

/-- `ROBOT_COMMAND_TIMEOUT_MS` is 500. -/
def checkCommandTimeout (s : RosStatics) (nowUs : ℤ) : RosStatics :=
  match s.commandQueue.bind fun q => q.items.head? with
  | none => s
  | some latest =>
    if 500 < nowUs.tdiv 1000 - latest.receivedAtMs then resetCommandQueue s else s

/-- The counter wraps like the `int32_t` it is. -/
def heartbeatTimerCallback (s : RosStatics) (timer published : Bool) : Option Int32 × RosStatics :=
  if !timer then (none, s)
  else (some s.heartbeat, if published then { s with heartbeat := s.heartbeat + 1 } else s)

def prepareNewRosSession (s : RosStatics) : RosStatics :=
  resetCommandQueue { s with
    timeSynced := false
    nextTimeSyncAtUs := 0
    imuCoalescedEventsSinceLog := 0
    nextImuCoalescedLogAtUs := 0 }

structure Publishable (o : Imu.Options) (s : RosStatics) (sample : ImuSample)
    (r : PublishReadings) : Prop where
  fresh : robotImuClassifySample true (some sample) r.nowUs (robotImuStaleTimeoutUs o) = .fresh
  unpublished : ¬ (s.hasPublishedImuSample = true ∧
    sample.sampleSequence = s.lastPublishedImuSequence)
  synced : s.timeSynced = true
  epochSynchronized : r.epochSynchronized = true
  epochPositive : 0 < r.epochNowNs
  stampPositive : 0 < imuSampledAtNs sample r
  later : s.hasPublishedImuSample = true → s.lastPublishedImuStampNs < imuSampledAtNs sample r

theorem publishImuSample_of_publishable {o : Imu.Options} {s : RosStatics} {sample : ImuSample}
    {r : PublishReadings} (h : Publishable o s sample r) :
    publishImuSample o s (some sample) r =
      (some (imuMessage sample (imuSampledAtNs sample r)),
        if r.published then recordImu s sample r else s) := by
  have hsynced : ¬ ((!s.timeSynced || !r.epochSynchronized) = true) := by
    simp [h.synced, h.epochSynchronized]
  have hpositive : ¬ (r.epochNowNs ≤ 0 ∨ imuSampledAtNs sample r ≤ 0) := by
    have hepoch := h.epochPositive
    have hstamp := h.stampPositive
    omega
  have hlater : ¬ (s.hasPublishedImuSample = true ∧
      imuSampledAtNs sample r ≤ s.lastPublishedImuStampNs) :=
    fun hboth => absurd hboth.2 (not_le.mpr (h.later hboth.1))
  have hfresh : ¬ robotImuClassifySample (some sample).isSome (some sample) r.nowUs
      (robotImuStaleTimeoutUs o) ≠ .fresh := fun hne => hne h.fresh
  unfold publishImuSample
  rw [if_neg hfresh]
  dsimp only
  rw [if_neg h.unpublished, if_neg hsynced, if_neg hpositive, if_neg hlater]

/-- A sample that is not handed on leaves the statics alone. -/
theorem publishImuSample_cases (o : Imu.Options) (s : RosStatics) (latest : Option ImuSample)
    (r : PublishReadings) :
    publishImuSample o s latest r = (none, s) ∨
      ∃ sample, latest = some sample ∧ Publishable o s sample r := by
  unfold publishImuSample
  by_cases hfresh : robotImuClassifySample latest.isSome latest r.nowUs
      (robotImuStaleTimeoutUs o) = .fresh
  · rw [if_neg fun hne => hne hfresh]
    cases latest with
    | none => exact .inl rfl
    | some sample =>
      dsimp only
      by_cases hseen : s.hasPublishedImuSample = true ∧
          sample.sampleSequence = s.lastPublishedImuSequence
      · exact .inl (if_pos hseen)
      · rw [if_neg hseen]
        by_cases hsynced : (!s.timeSynced || !r.epochSynchronized) = true
        · exact .inl (if_pos hsynced)
        · rw [if_neg hsynced]
          by_cases hpositive : r.epochNowNs ≤ 0 ∨ imuSampledAtNs sample r ≤ 0
          · exact .inl (if_pos hpositive)
          · rw [if_neg hpositive]
            by_cases hlater : s.hasPublishedImuSample = true ∧
                imuSampledAtNs sample r ≤ s.lastPublishedImuStampNs
            · exact .inl (if_pos hlater)
            · have hboth : s.timeSynced = true ∧ r.epochSynchronized = true := by
                simpa using hsynced
              refine .inr ⟨sample, rfl, hfresh, hseen, hboth.1, hboth.2, by omega, by omega, ?_⟩
              intro hhas
              exact not_le.mp fun hle => hlater ⟨hhas, hle⟩
  · exact .inl (if_pos hfresh)

/-- Odometry is published only while the time is synchronised, and touches its own memory. -/
theorem publishOdomSnapshot_cases (E : Env) (m : Libm) (s : RosStatics)
    (snapshot : Option OdomSnapshot) (r : PublishReadings) :
    publishOdomSnapshot E m s snapshot r = (none, s) ∨
      (s.timeSynced = true ∧ ∃ message, publishOdomSnapshot E m s snapshot r =
        (some message, (publishOdomSnapshot E m s snapshot r).2) ∧
        ∃ has sampledAtUs stampNs, (publishOdomSnapshot E m s snapshot r).2 = { s with
          hasPublishedOdomSample := has
          lastPublishedOdomSampledAtUs := sampledAtUs
          lastPublishedOdomStampNs := stampNs }) := by
  unfold publishOdomSnapshot
  cases snapshot with
  | none => exact .inl rfl
  | some snapshot =>
    dsimp only
    split_ifs with hsynced hseen hpositive hlater hpublished
    · exact .inl rfl
    · exact .inl rfl
    · exact .inl rfl
    · exact .inl rfl
    · have hboth : s.timeSynced = true ∧ r.epochSynchronized = true := by simpa using hsynced
      exact .inr ⟨hboth.1, _, rfl, _, _, _, rfl⟩
    · have hboth : s.timeSynced = true ∧ r.epochSynchronized = true := by simpa using hsynced
      exact .inr ⟨hboth.1, _, rfl, s.hasPublishedOdomSample, s.lastPublishedOdomSampledAtUs,
        s.lastPublishedOdomStampNs, rfl⟩

theorem recordImu_timeSynced (s : RosStatics) (sample : ImuSample) (r : PublishReadings) :
    (recordImu s sample r).timeSynced = s.timeSynced := by
  unfold recordImu countCoalesced
  split_ifs <;> rfl

/-- A publisher keeps the flag, and hands on a message only while it is set. -/
theorem publishImuSample_timeSynced (o : Imu.Options) (s : RosStatics) (latest : Option ImuSample)
    (r : PublishReadings) :
    (publishImuSample o s latest r).2.timeSynced = s.timeSynced ∧
      ∀ message ∈ (publishImuSample o s latest r).1, s.timeSynced = true := by
  rcases publishImuSample_cases o s latest r with hnone | ⟨sample, rfl, hp⟩
  · rw [hnone]
    exact ⟨rfl, nofun⟩
  · rw [publishImuSample_of_publishable hp]
    refine ⟨?_, fun _ _ => hp.synced⟩
    dsimp only
    split_ifs
    · exact recordImu_timeSynced s sample r
    · rfl

theorem publishOdomSnapshot_timeSynced (E : Env) (m : Libm) (s : RosStatics)
    (snapshot : Option OdomSnapshot) (r : PublishReadings) :
    (publishOdomSnapshot E m s snapshot r).2.timeSynced = s.timeSynced ∧
      ∀ message ∈ (publishOdomSnapshot E m s snapshot r).1, s.timeSynced = true := by
  rcases publishOdomSnapshot_cases E m s snapshot r with hnone | ⟨hsynced, _, _, _, _, _, hstatics⟩
  · rw [hnone]
    exact ⟨rfl, nofun⟩
  · rw [hstatics]
    exact ⟨rfl, fun _ _ => hsynced⟩

theorem imuTimerCallback_timeSynced (E : Env) (m : Libm) (mode : AppMode) (o : Imu.Options)
    (s : RosStatics) (timer : Bool) (r : TimerReadings) :
    (imuTimerCallback E m mode o s timer r).2.2.timeSynced = s.timeSynced ∧
      (∀ message ∈ (imuTimerCallback E m mode o s timer r).1, s.timeSynced = true) ∧
      ∀ message ∈ (imuTimerCallback E m mode o s timer r).2.1, s.timeSynced = true := by
  unfold imuTimerCallback
  cases timer with
  | false => exact ⟨rfl, nofun, nofun⟩
  | true =>
    have htimer : ¬ (!true) = true := by decide
    rw [if_neg htimer]
    cases mode with
    | chassis =>
      have hodom := publishOdomSnapshot_timeSynced E m s r.snapshot r.odom
      have himu := publishImuSample_timeSynced o (publishOdomSnapshot E m s r.snapshot r.odom).2
        r.latest r.imu
      rw [hodom.1] at himu
      dsimp only
      split_ifs
      · exact ⟨hodom.1, hodom.2, nofun⟩
      · exact ⟨himu.1, hodom.2, himu.2⟩
    | dryRun =>
      have himu := publishImuSample_timeSynced o s r.latest r.imu
      dsimp only
      split_ifs
      · exact ⟨rfl, nofun, nofun⟩
      · exact ⟨himu.1, nofun, himu.2⟩

end RobotFirmware.Microros
