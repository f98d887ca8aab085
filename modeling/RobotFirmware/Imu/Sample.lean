import RobotFirmware.Library.Fifo
import RobotFirmware.Library.Float
import RobotFirmware.Library.Word

/-! The IMU component: the producer's entry point, the queue that holds the latest sample and
the classification of a sample by its reader. -/
namespace RobotFirmware.Imu
open Fp Queue

abbrev Axes := Fin 3 → Datum

structure ImuSample where
  linearAccelerationMps2 : Axes
  angularVelocityRadS : Axes
  sampledAtUs : ℤ
  sampleSequence : UInt32

inductive SampleState
  | fresh
  | noSample
  | stale
  | nonfinite
  | clockInvalid
  | argumentInvalid
  deriving DecidableEq

def robotImuSampleValuesAreFinite : Option ImuSample → Bool
  | none => false
  | some sample => decide (∀ axis, (sample.linearAccelerationMps2 axis).isFinite = true ∧
      (sample.angularVelocityRadS axis).isFinite = true)

def robotImuClassifySample (hasSample : Bool) (sample : Option ImuSample)
    (nowUs staleTimeoutUs : ℤ) : SampleState :=
  if !hasSample then .noSample
  else
    match sample with
    | none => .argumentInvalid
    | some sample =>
      if staleTimeoutUs < 0 then .argumentInvalid
      else if !robotImuSampleValuesAreFinite (some sample) then .nonfinite
      else if sample.sampledAtUs < 0 ∨ nowUs < sample.sampledAtUs then .clockInvalid
      else if staleTimeoutUs < nowUs - sample.sampledAtUs then .stale
      else .fresh

/-- A sample is fresh when it is finite and its age is between zero and the timeout. -/
theorem classify_fresh_iff {hasSample : Bool} {sample : Option ImuSample}
    {nowUs staleTimeoutUs : ℤ} :
    robotImuClassifySample hasSample sample nowUs staleTimeoutUs = .fresh ↔
      hasSample = true ∧ ∃ x, sample = some x ∧ robotImuSampleValuesAreFinite (some x) = true ∧
        0 ≤ x.sampledAtUs ∧ 0 ≤ nowUs - x.sampledAtUs ∧
        nowUs - x.sampledAtUs ≤ staleTimeoutUs := by
  unfold robotImuClassifySample
  cases hasSample with
  | false => simp
  | true =>
    cases sample with
    | none => simp
    | some x =>
      simp only [Bool.not_true, Bool.false_eq_true, if_false, true_and, Option.some.injEq,
        exists_eq_left']
      constructor
      · intro h
        split_ifs at h with htimeout hfinite hclock hstale
        exact ⟨by simpa using hfinite, by omega, by omega, by omega⟩
      · intro h
        obtain ⟨hfinite, hsampled, hage, hstale⟩ := h
        rw [if_neg (by omega), if_neg (by simp [hfinite]), if_neg (by omega), if_neg (by omega)]

inductive EspErr
  | noMem
  | invalidArg
  | invalidState
  | driver (code : Int32)
  deriving DecidableEq

inductive Backend
  | disabled
  | synthetic
  | icm42670p
  deriving DecidableEq

structure Options where
  backend : Backend
  staleTimeoutMs : ℕ

def robotImuIsEnabled (o : Options) : Bool := o.backend ≠ .disabled

def robotImuStaleTimeoutUs (o : Options) : ℤ := o.staleTimeoutMs * 1000

/-- The static variables of the file. -/
structure Statics where
  latestSampleQueue : Option (Fifo ImuSample 1)
  sampleSequence : UInt32
  started : Bool

def Statics.zero : Statics := ⟨none, 0, false⟩

/-- The queue is created before the producer and deleted if the producer does not start. -/
def robotImuStart (o : Options) (s : Statics) (queueCreated : Bool)
    (producer : Except EspErr Unit) : Except EspErr Unit × Statics :=
  if s.started then (.error .invalidState, s)
  else if !robotImuIsEnabled o then (.ok (), { s with started := true })
  else if !queueCreated then (.error .noMem, { s with latestSampleQueue := none })
  else
    match producer with
    | .error e => (.error e, { s with latestSampleQueue := none })
    | .ok () => (.ok (), { s with latestSampleQueue := some .empty, started := true })

def candidateSequence (s : Statics) : UInt32 := Word.succNonzero s.sampleSequence

/-- Sequence number and timestamp become visible with the sample, and only if it is accepted. -/
def robotImuSubmitSiSample (s : Statics) (linearAccelerationMps2 angularVelocityRadS : Option Axes)
    (sampledAtUs : ℤ) : Except EspErr Unit × Statics :=
  match linearAccelerationMps2, angularVelocityRadS with
  | some acceleration, some velocity =>
    if sampledAtUs < 0 then (.error .invalidArg, s)
    else
      match s.latestSampleQueue with
      | none => (.error .invalidState, s)
      | some q =>
        let candidate : ImuSample := ⟨acceleration, velocity, sampledAtUs, candidateSequence s⟩
        if !robotImuSampleValuesAreFinite (some candidate) then (.error .invalidArg, s)
        else
          (.ok (), { s with
            latestSampleQueue := some (q.overwrite candidate)
            sampleSequence := candidate.sampleSequence })
  | _, _ => (.error .invalidArg, s)

def robotImuGetLatest (s : Statics) : Option ImuSample :=
  s.latestSampleQueue.bind fun q => q.items.head?

theorem submit_accepted {s : Statics} {acceleration velocity : Option Axes} {sampledAtUs : ℤ}
    (hr : (robotImuSubmitSiSample s acceleration velocity sampledAtUs).1 = .ok ()) :
    ∃ sample, robotImuGetLatest (robotImuSubmitSiSample s acceleration velocity sampledAtUs).2 =
        some sample ∧
      sample.sampleSequence = Word.succNonzero s.sampleSequence ∧
      (robotImuSubmitSiSample s acceleration velocity sampledAtUs).2.sampleSequence =
        Word.succNonzero s.sampleSequence := by
  unfold robotImuSubmitSiSample at hr ⊢
  split at hr
  · split_ifs at hr ⊢ with hsampled
    cases hq : s.latestSampleQueue with
    | none => simp [hq] at hr
    | some q =>
      simp only [hq] at hr ⊢
      split_ifs at hr ⊢
      exact ⟨_, rfl, rfl, rfl⟩
  · cases hr

theorem submit_rejected {s : Statics} {acceleration velocity : Option Axes} {sampledAtUs : ℤ}
    (hr : (robotImuSubmitSiSample s acceleration velocity sampledAtUs).1 ≠ .ok ()) :
    (robotImuSubmitSiSample s acceleration velocity sampledAtUs).2 = s := by
  unfold robotImuSubmitSiSample at hr ⊢
  split
  · split_ifs with hsampled
    · rfl
    · cases hq : s.latestSampleQueue with
      | none => rfl
      | some q =>
        dsimp only
        split_ifs with hfinite
        · rfl
        · simp [hsampled, hq, hfinite] at hr
  · rfl

end RobotFirmware.Imu
