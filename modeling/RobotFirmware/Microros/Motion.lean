import RobotFirmware.Microros.CmdVel
import RobotFirmware.Microros.Publisher

/-! The motion requests of the callbacks, carried out by the backend of each mode: they are the
calls that the drive dry run and the remote queue of the chassis receive. -/
namespace RobotFirmware.Microros
open Fp Queue
open Chassis (Twist RemoteQueue RemoteCall remoteCall supportedTwistIsValid)

/-- A request to the drive dry run. It has no ZERO and no ARM. -/
def MotionRequest.dryRun (s : Drive.Statics) (submitUs stopUs : ℤ) :
    MotionRequest → Option (Bool × Drive.Statics)
  | .stop reason => some (requestMotionStop s reason stopUs)
  | .submit linearXMps angularZRadps =>
    some (submitMotionCommand s linearXMps angularZRadps submitUs)
  | .zero | .arm => none

/-- A request to the chassis, where a stop has no reason. -/
def MotionRequest.chassis (E : Env) (q : RemoteQueue) : MotionRequest → Bool × RemoteQueue
  | .stop _ => Chassis.robotChassisDiagRemoteStop q
  | .submit linearXMps angularZRadps =>
    Chassis.robotChassisDiagSubmitCmdVel E q linearXMps angularZRadps
  | .zero => Chassis.robotChassisDiagRemoteZero q
  | .arm => Chassis.robotChassisDiagRemoteArm q

/-- In the dry run the requests are the callback. -/
theorem cmdVelMotionRequests_dryRun (E : Env) (s : Drive.Statics) (msg : Option Twist)
    (submitUs stopUs : ℤ) {submitted : Bool}
    (hsubmitted : ∀ command ∈ msg, (submitMotionCommand s (E.toSingle command.linearX)
      (E.toSingle command.angularZ) submitUs).1 = submitted) :
    (cmdVelMotionRequests E msg submitted).foldlM
      (fun s request => (request.dryRun s submitUs stopUs).map Prod.snd) s =
        some (cmdVelSubscriptionCallback E s msg submitUs stopUs) := by
  unfold cmdVelMotionRequests cmdVelSubscriptionCallback
  cases msg with
  | none => rfl
  | some command =>
    have hanswer := hsubmitted command rfl
    unfold driveInput
    dsimp only
    by_cases hv : (!supportedTwistIsValid E (some command)) = true
    · rw [if_pos hv, if_pos hv]
      rfl
    · rw [if_neg hv, if_neg hv, hanswer]
      cases submitted <;> rfl

/-- On the chassis the requests are the first turn of the remote queue and, where it was refused,
the stop that follows. -/
theorem cmdVelMotionRequests_chassis (E : Env) (q : RemoteQueue) (msg : Option Twist)
    {submitted : Bool} (hsubmitted : ∀ command ∈ msg, (Chassis.robotChassisDiagSubmitCmdVel E q
      (E.toSingle command.linearX) (E.toSingle command.angularZ)).1 = submitted) :
    ∃ refused q', remoteCall E false q (.cmdVel msg) = some (refused, q') ∧
      (cmdVelMotionRequests E msg submitted).foldl (fun q request => (request.chassis E q).2) q =
        if refused then (Chassis.robotChassisDiagRemoteStop q').2 else q' := by
  unfold cmdVelMotionRequests remoteCall
  cases msg with
  | none => exact ⟨false, _, rfl, rfl⟩
  | some command =>
    have hanswer := hsubmitted command rfl
    unfold Twist.linearX Twist.angularZ at hanswer ⊢
    dsimp only
    rw [if_neg Bool.false_ne_true]
    by_cases hv : supportedTwistIsValid E (some command) = true
    · have hvalid : ¬ (!supportedTwistIsValid E (some command)) = true := by simp [hv]
      rw [if_pos hv, if_neg hvalid]
      refine ⟨_, _, rfl, ?_⟩
      rw [hanswer]
      cases submitted <;> rfl
    · have hinvalid : (!supportedTwistIsValid E (some command)) = true := by simp [hv]
      rw [if_neg hv, if_pos hinvalid]
      exact ⟨false, _, rfl, rfl⟩

/-- The same for a command that arrives on the chassis. -/
theorem commandMotionRequests_chassis (E : Env) (q : RemoteQueue) (s : RosStatics) (data : Int32)
    {remoteOk : Bool} (nowUs : ℤ)
    (hzero : data = 0 → (Chassis.robotChassisDiagRemoteZero q).1 = remoteOk)
    (harm : data = 1 → (Chassis.robotChassisDiagRemoteArm q).1 = remoteOk) :
    ∃ refused q', remoteCall E false q (.command data) = some (refused, q') ∧
      (commandSubscriptionCallback .chassis s (some data) remoteOk nowUs).1.foldl
        (fun q request => (request.chassis E q).2) q =
          if refused then (Chassis.robotChassisDiagRemoteStop q').2 else q' := by
  unfold commandSubscriptionCallback remoteCall
  dsimp only
  rw [if_neg Bool.false_ne_true]
  by_cases h0 : data = 0
  · have hknown : ¬ (data ≠ 0 ∧ data ≠ 1) := fun h => h.1 h0
    rw [if_neg hknown, if_pos h0, if_pos h0, hzero h0]
    refine ⟨_, _, rfl, ?_⟩
    cases remoteOk <;> rfl
  · by_cases h1 : data = 1
    · have hknown : ¬ (data ≠ 0 ∧ data ≠ 1) := fun h => h.2 h1
      rw [if_neg hknown, if_neg h0, if_neg h0, if_pos h1, harm h1]
      refine ⟨_, _, rfl, ?_⟩
      cases remoteOk <;> rfl
    · have hunknown : data ≠ 0 ∧ data ≠ 1 := ⟨h0, h1⟩
      rw [if_pos hunknown, if_neg h0, if_neg h1]
      exact ⟨false, _, rfl, rfl⟩

end RobotFirmware.Microros
