import RobotFirmware.Imu.Icm42670p
import RobotFirmware.Imu.Registers
import RobotFirmware.Library.Mailbox

/-! The acquisition task of the ICM42670P backend, call by call, while other tasks request test
pauses and time passes. The answers of the bus are labels of the steps; the summary that the task
logs is left out. -/
namespace RobotFirmware.Imu
open Fp Trace Queue

/-- The answer to the request and the queue; a queue of length one always takes the element. -/
def robotImuIcm42670pBackendRequestPause (started : Bool) (testPauseQueue : Option (Fifo UInt32 1))
    (durationMs : UInt32) : Except EspErr Unit × Option (Fifo UInt32 1) :=
  match testPauseQueue with
  | none => (.error .invalidState, none)
  | some q =>
    if !started then (.error .invalidState, some q)
    else if durationMs < 101 ∨ 2000 < durationMs then (.error .invalidArg, some q)
    else (.ok (), some (q.overwrite durationMs))

/-- What a build fixes, and how far the tick counter is ahead of the microsecond clock. -/
structure Board where
  env : Env
  options : Options
  tickPhaseUs : ℕ

/-- The tick counter at 1000 ticks per second. -/
def Board.ticks (b : Board) (clockUs : ℕ) : ℕ := (clockUs + b.tickPhaseUs) / 1000

def pdMsToTicks (ms : UInt32) : UInt32 := ms * 1000 / 1000

/-- Where the task is; a delay ends at a tick. -/
inductive Phase
  | top
  | pausing (pauseMs : UInt32) (untilTick : ℕ)
  | waiting
  | polling (startedAtUs : ℕ)
  | resting (startedAtUs untilTick : ℕ)
  | ready
  | reading (sampledAtUs : ℕ)

structure Acquisition where
  clockUs : ℕ
  imu : Imu.Statics
  started : Bool
  testPauseQueue : Fifo UInt32 1
  counters : Counters
  phase : Phase

/-- The steps of the task, of the task that requests pauses, of the start that has created the
task and of the clock. -/
inductive Action
  | tick (us : ℕ)
  | started
  | requestPause (durationMs : UInt32)
  | receive
  | resume
  | beginWait
  | poll (reply : Except EspErr UInt8)
  | wake
  | stamp
  | burst (reply : Except EspErr (Vector UInt8 12))

/-- `ICM42670P_DATA_READY_TIMEOUT_MS` in microseconds. -/
def dataReadyTimeoutUs : ℕ := 100 * 1000

def RawSample.zero : RawSample := ⟨fun _ => 0, fun _ => 0⟩

def SiSample.zero : SiSample := ⟨fun _ => .finite 0, fun _ => .finite 0⟩

def submitSample (s : Acquisition) (si : SiSample) (sampledAtUs : ℕ) : Acquisition :=
  let submitted := robotImuSubmitSiSample s.imu (some si.linearAccelerationMps2)
    (some si.angularVelocityRadS) sampledAtUs
  let counters :=
    match submitted.1 with
    | .ok () => { s.counters with samplesOk := s.counters.samplesOk + 1 }
    | .error _ => { s.counters with submitErrors := s.counters.submitErrors + 1 }
  { s with imu := submitted.2, counters := counters }

/-- The rest of the pass after a burst that the bus has delivered. -/
def handleBurst (b : Board) (s : Acquisition) (registerBytes : List UInt8) (sampledAtUs : ℕ) :
    Acquisition :=
  let raw := robotImuIcm42670pParseRaw (some registerBytes) (some .zero)
  let si := robotImuIcm42670pConvertToSi b.env raw.2 (some .zero)
  match raw.1 && si.1, si.2 with
  | true, some sample => submitSample s sample sampledAtUs
  | _, _ => { s with counters := { s.counters with parseErrors := s.counters.parseErrors + 1 } }

def countI2cError (s : Acquisition) : Acquisition :=
  { s with counters := { s.counters with i2cErrors := s.counters.i2cErrors + 1 } }

def acquisitionStep (b : Board) (s : Acquisition) (a : Action) : Option Acquisition :=
  match a, s.phase with
  | .tick us, _ => some { s with clockUs := s.clockUs + us }
  | .started, _ => some { s with started := true }
  | .requestPause durationMs, _ =>
    (robotImuIcm42670pBackendRequestPause s.started (some s.testPauseQueue) durationMs).2.map
      fun q => { s with testPauseQueue := q }
  | .receive, .top =>
    match s.testPauseQueue.receive with
    | none => some { s with phase := .waiting }
    | some (pauseMs, q) => some { s with
        testPauseQueue := q
        phase := .pausing pauseMs (b.ticks s.clockUs + (pdMsToTicks pauseMs).toNat) }
  | .resume, .pausing _ untilTick =>
    if b.ticks s.clockUs < untilTick then none
    else some { s with
      counters := { s.counters with testPauses := s.counters.testPauses + 1 }
      phase := .waiting }
  | .beginWait, .waiting => some { s with phase := .polling s.clockUs }
  | .poll (.ok status), .polling startedAtUs =>
    some { s with
      phase := if status &&& 0x01 ≠ 0 then .ready
        else .resting startedAtUs (b.ticks s.clockUs + 1) }
  | .poll (.error _), .polling startedAtUs =>
    some { countI2cError s with phase := .resting startedAtUs (b.ticks s.clockUs + 1) }
  | .wake, .resting startedAtUs untilTick =>
    if b.ticks s.clockUs < untilTick then none
    else if s.clockUs - startedAtUs < dataReadyTimeoutUs then
      some { s with phase := .polling startedAtUs }
    else some { s with
      counters := { s.counters with dataReadyTimeouts := s.counters.dataReadyTimeouts + 1 }
      phase := .top }
  | .stamp, .ready => some { s with phase := .reading s.clockUs }
  | .burst (.ok registerBytes), .reading sampledAtUs =>
    some { handleBurst b s registerBytes.toList sampledAtUs with phase := .top }
  | .burst (.error _), .reading _ => some { countI2cError s with phase := .top }
  | _, _ => none

/-- The statics when the task is created: the start has zeroed the counters and made the queues. -/
def acquisitionStart (clockUs : ℕ) : Acquisition where
  clockUs := clockUs
  imu := { Imu.Statics.zero with latestSampleQueue := some .empty }
  started := false
  testPauseQueue := .empty
  counters := .zero
  phase := .top

def alignedBoard : Board := ⟨.ranged, ⟨.icm42670p, 100⟩, 0⟩

/-- One sample, then two requests of which the task serves the later one. -/
def pausedRun : List Action :=
  [.started, .receive, .beginWait, .poll (.ok 0), .tick 1000, .wake, .poll (.ok 1), .stamp,
    .burst (.ok (Vector.replicate 12 1)), .requestPause 2000, .requestPause 101, .receive,
    .tick 101000, .resume]

theorem pausedRun_path : ∃ h s,
    Path (Enabled (acquisitionStep alignedBoard)) (acquisitionStart 0) h s ∧
      h.map Event.label = pausedRun.reverse ∧ s.counters = ⟨1, 0, 0, 0, 0, 0, 1⟩ := by
  have hrun : (runAll (acquisitionStep alignedBoard) (acquisitionStart 0) pausedRun).map
      Acquisition.counters = some ⟨1, 0, 0, 0, 0, 0, 1⟩ := by decide +kernel
  obtain ⟨s, hs, hcounters⟩ := Option.map_eq_some_iff.mp hrun
  obtain ⟨h, hp, hlabels⟩ := path_of_runAll hs
  exact ⟨h, s, hp, hlabels, hcounters⟩

def Acquisition.AcceptsPause (s : Acquisition) (durationMs : UInt32) : Prop :=
  s.started = true ∧ 101 ≤ durationMs.toNat ∧ durationMs.toNat ≤ 2000

instance (s : Acquisition) (durationMs : UInt32) : Decidable (s.AcceptsPause durationMs) :=
  inferInstanceAs (Decidable (_ ∧ _))

inductive Steps (b : Board) (s : Acquisition) : Action → Acquisition → Prop
  | tick (us : ℕ) : Steps b s (.tick us) { s with clockUs := s.clockUs + us }
  | started : Steps b s .started { s with started := true }
  | requestAccepted (d : UInt32) (h : s.AcceptsPause d) :
      Steps b s (.requestPause d) { s with testPauseQueue := s.testPauseQueue.overwrite d }
  | requestRefused (d : UInt32) (h : ¬ s.AcceptsPause d) : Steps b s (.requestPause d) s
  | receiveNothing (hphase : s.phase = .top) (hq : s.testPauseQueue.items = []) :
      Steps b s .receive { s with phase := .waiting }
  | receivePause (hphase : s.phase = .top) (d : UInt32) (q : Fifo UInt32 1)
      (hq : s.testPauseQueue.receive = some (d, q)) :
      Steps b s .receive { s with
        testPauseQueue := q
        phase := .pausing d (b.ticks s.clockUs + (pdMsToTicks d).toNat) }
  | resume (d : UInt32) (untilTick : ℕ) (hphase : s.phase = .pausing d untilTick)
      (hdue : untilTick ≤ b.ticks s.clockUs) :
      Steps b s .resume { s with
        counters := { s.counters with testPauses := s.counters.testPauses + 1 }
        phase := .waiting }
  | beginWait (hphase : s.phase = .waiting) :
      Steps b s .beginWait { s with phase := .polling s.clockUs }
  | pollReady (status : UInt8) (t : ℕ) (hphase : s.phase = .polling t)
      (hready : status &&& 0x01 ≠ 0) : Steps b s (.poll (.ok status)) { s with phase := .ready }
  | pollEarly (status : UInt8) (t : ℕ) (hphase : s.phase = .polling t)
      (hearly : status &&& 0x01 = 0) :
      Steps b s (.poll (.ok status)) { s with phase := .resting t (b.ticks s.clockUs + 1) }
  | pollError (e : EspErr) (t : ℕ) (hphase : s.phase = .polling t) :
      Steps b s (.poll (.error e))
        { countI2cError s with phase := .resting t (b.ticks s.clockUs + 1) }
  | wakeAgain (t untilTick : ℕ) (hphase : s.phase = .resting t untilTick)
      (hdue : untilTick ≤ b.ticks s.clockUs) (htime : s.clockUs - t < dataReadyTimeoutUs) :
      Steps b s .wake { s with phase := .polling t }
  | wakeTimeout (t untilTick : ℕ) (hphase : s.phase = .resting t untilTick)
      (hdue : untilTick ≤ b.ticks s.clockUs) (htime : ¬ s.clockUs - t < dataReadyTimeoutUs) :
      Steps b s .wake { s with
        counters := { s.counters with dataReadyTimeouts := s.counters.dataReadyTimeouts + 1 }
        phase := .top }
  | stamp (hphase : s.phase = .ready) : Steps b s .stamp { s with phase := .reading s.clockUs }
  | burstOk (bytes : Vector UInt8 12) (t : ℕ) (hphase : s.phase = .reading t) :
      Steps b s (.burst (.ok bytes)) { handleBurst b s bytes.toList t with phase := .top }
  | burstError (e : EspErr) (t : ℕ) (hphase : s.phase = .reading t) :
      Steps b s (.burst (.error e)) { countI2cError s with phase := .top }

theorem requestPause_queue (s : Acquisition) (d : UInt32) :
    (robotImuIcm42670pBackendRequestPause s.started (some s.testPauseQueue) d).2 =
      some (if s.AcceptsPause d then s.testPauseQueue.overwrite d else s.testPauseQueue) := by
  have hlow : d < 101 ↔ d.toNat < 101 := UInt32.lt_iff_toNat_lt
  have hhigh : 2000 < d ↔ 2000 < d.toNat := UInt32.lt_iff_toNat_lt
  unfold robotImuIcm42670pBackendRequestPause
  dsimp only
  by_cases h : s.AcceptsPause d
  · obtain ⟨hstarted, hlo, hhi⟩ := h
    have hrange : ¬ (d < 101 ∨ 2000 < d) := by
      rw [hlow, hhigh]
      omega
    rw [if_neg (by simp [hstarted]), if_neg hrange, if_pos ⟨hstarted, hlo, hhi⟩]
  · rw [if_neg h]
    split_ifs with hstarted hrange
    · rfl
    · rfl
    · have haccepts : s.AcceptsPause d := by
        refine ⟨by simpa using hstarted, ?_⟩
        rw [hlow, hhigh] at hrange
        omega
      exact absurd haccepts h

theorem steps_of_step {b : Board} {s s' : Acquisition} {a : Action}
    (hs : Enabled (acquisitionStep b) s a s') : Steps b s a s' := by
  unfold Enabled acquisitionStep at hs
  split at hs
  · cases hs
    exact .tick _
  · cases hs
    exact .started
  · rename_i d
    rw [requestPause_queue, Option.map_some, Option.some.injEq] at hs
    by_cases hd : s.AcceptsPause d
    · rw [if_pos hd] at hs
      cases hs
      exact .requestAccepted d hd
    · rw [if_neg hd] at hs
      cases hs
      exact .requestRefused d hd
  · rename_i hphase
    cases hq : s.testPauseQueue.receive with
    | none =>
      rw [hq] at hs
      cases hs
      exact .receiveNothing hphase (Fifo.receive_eq_none.mp hq)
    | some taken =>
      rw [hq] at hs
      cases hs
      exact .receivePause hphase _ _ hq
  · rename_i pauseMs untilTick hphase
    split_ifs at hs with hdue
    cases hs
    exact .resume _ _ hphase (not_lt.mp hdue)
  · rename_i hphase
    cases hs
    exact .beginWait hphase
  · rename_i status t hphase
    cases hs
    by_cases hready : status &&& 0x01 ≠ 0
    · rw [if_pos hready]
      exact .pollReady status t hphase hready
    · rw [if_neg hready]
      exact .pollEarly status t hphase (not_not.mp hready)
  · rename_i e t hphase
    cases hs
    exact .pollError e t hphase
  · rename_i t untilTick hphase
    split_ifs at hs with hdue htime
    · cases hs
      exact .wakeAgain t untilTick hphase (not_lt.mp hdue) htime
    · cases hs
      exact .wakeTimeout t untilTick hphase (not_lt.mp hdue) htime
  · rename_i hphase
    cases hs
    exact .stamp hphase
  · rename_i bytes t hphase
    cases hs
    exact .burstOk bytes t hphase
  · rename_i e t hphase
    cases hs
    exact .burstError e t hphase
  · cases hs

def acquired (b : Board) (s : Acquisition) (registerBytes : List UInt8) (sampledAtUs : ℕ) :
    ImuSample :=
  let si := converted b.env (parsed registerBytes)
  ⟨si.linearAccelerationMps2, si.angularVelocityRadS, sampledAtUs, candidateSequence s.imu⟩

def accepting (s : Acquisition) (q : Fifo ImuSample 1) (sample : ImuSample) : Acquisition :=
  { s with
    imu := { s.imu with
      latestSampleQueue := some (q.overwrite sample)
      sampleSequence := sample.sampleSequence }
    counters := { s.counters with samplesOk := s.counters.samplesOk + 1 } }

section
variable {b : Board} {u : ℚ} (hE : b.env.single.Precise u) (hu : u ≤ 1 / 2 ^ 24)
include hE hu

/-- Twelve bytes always parse, always convert to finite values and are always submitted. -/
theorem handleBurst_eq {s : Acquisition} {q : Fifo ImuSample 1}
    (hq : s.imu.latestSampleQueue = some q) {registerBytes : List UInt8}
    (hlength : registerBytes.length = 12) (sampledAtUs : ℕ) :
    handleBurst b s registerBytes sampledAtUs =
      accepting s q (acquired b s registerBytes sampledAtUs) := by
  have hparse := parseRaw_of_length hlength .zero
  have hfinite := converted_finite hE hu (parsed registerBytes) sampledAtUs
    (candidateSequence s.imu)
  have hclock : ¬ (sampledAtUs : ℤ) < 0 := by omega
  unfold handleBurst
  rw [hparse]
  show submitSample s (converted b.env (parsed registerBytes)) sampledAtUs = _
  unfold submitSample robotImuSubmitSiSample
  simp only [hclock, hq, hfinite, Bool.not_true, Bool.false_eq_true, if_false]
  rfl

end

theorem handleBurst_frame (b : Board) (s : Acquisition) (registerBytes : List UInt8)
    (sampledAtUs : ℕ) : (handleBurst b s registerBytes sampledAtUs).clockUs = s.clockUs ∧
      (handleBurst b s registerBytes sampledAtUs).testPauseQueue = s.testPauseQueue := by
  unfold handleBurst
  dsimp only
  split
  · exact ⟨rfl, rfl⟩
  · exact ⟨rfl, rfl⟩

theorem pdMsToTicks_toNat {ms : UInt32} (h : ms.toNat ≤ 2000) :
    (pdMsToTicks ms).toNat = ms.toNat := by
  have hproduct : (ms * 1000).toNat = ms.toNat * 1000 := by
    rw [UInt32.toNat_mul]
    exact Nat.mod_eq_of_lt (by show ms.toNat * 1000 < 2 ^ 32; omega)
  rw [pdMsToTicks, UInt32.toNat_div, hproduct]
  exact Nat.mul_div_cancel _ (by decide)

/-- The latest sample is finite and was taken at or before `atUs`. -/
def LatestBy (s : Acquisition) (atUs : ℕ) : Prop :=
  ∀ sample, robotImuGetLatest s.imu = some sample →
    robotImuSampleValuesAreFinite (some sample) = true ∧
      ∃ sampledAtUs : ℕ, sample.sampledAtUs = sampledAtUs ∧ sampledAtUs ≤ atUs

/-- What the phase promises: times are past, and a pause began after the latest sample. -/
def PhaseInv (b : Board) (s : Acquisition) : Prop :=
  match s.phase with
  | .pausing d untilTick => 101 ≤ d.toNat ∧ d.toNat ≤ 2000 ∧
      ∃ begunAtUs, LatestBy s begunAtUs ∧ b.ticks begunAtUs + d.toNat ≤ untilTick
  | .polling t | .resting t _ => t ≤ s.clockUs
  | .reading t => t ≤ s.clockUs ∧ LatestBy s t
  | _ => True

theorem PhaseInv.since_poll {b : Board} {s : Acquisition} {t : ℕ} (h : PhaseInv b s)
    (hphase : s.phase = .polling t) : t ≤ s.clockUs := by
  unfold PhaseInv at h
  rwa [hphase] at h

theorem PhaseInv.since_rest {b : Board} {s : Acquisition} {t untilTick : ℕ} (h : PhaseInv b s)
    (hphase : s.phase = .resting t untilTick) : t ≤ s.clockUs := by
  unfold PhaseInv at h
  rwa [hphase] at h

structure AcquisitionInv (b : Board) (s : Acquisition) : Prop where
  queue : ∃ q, s.imu.latestSampleQueue = some q
  latest : LatestBy s s.clockUs
  pauses : ∀ d ∈ s.testPauseQueue.items, 101 ≤ d.toNat ∧ d.toNat ≤ 2000
  phase : PhaseInv b s
  clean : s.counters.protocolErrors = 0 ∧ s.counters.parseErrors = 0 ∧ s.counters.submitErrors = 0

theorem LatestBy.mono {s : Acquisition} {t t' : ℕ} (h : LatestBy s t) (hle : t ≤ t') :
    LatestBy s t' := by
  intro sample hsample
  obtain ⟨hfinite, sampledAtUs, hstamp, hby⟩ := h sample hsample
  exact ⟨hfinite, sampledAtUs, hstamp, hby.trans hle⟩

theorem acquisitionStart_inv (b : Board) (clockUs : ℕ) :
    AcquisitionInv b (acquisitionStart clockUs) :=
  ⟨⟨_, rfl⟩, nofun, nofun, trivial, rfl, rfl, rfl⟩

section
variable {b : Board} {u : ℚ} (hE : b.env.single.Precise u) (hu : u ≤ 1 / 2 ^ 24)
  {s s' : Acquisition} {a : Action}
include hE hu

theorem acquired_latestBy (registerBytes : List UInt8) (t : ℕ) (q : Fifo ImuSample 1) :
    LatestBy (accepting s q (acquired b s registerBytes t)) t := by
  intro sample hsample
  cases hsample
  exact ⟨converted_finite hE hu _ _ _, t, rfl, le_rfl⟩

theorem AcquisitionInv.step (h : AcquisitionInv b s) (hs : Steps b s a s') :
    AcquisitionInv b s' := by
  obtain ⟨⟨q, hq⟩, hlatest, hpauses, hphaseInv, hclean⟩ := h
  cases hs with
  | tick us =>
    have hle : s.clockUs ≤ s.clockUs + us := Nat.le_add_right _ _
    refine ⟨⟨q, hq⟩, hlatest.mono hle, hpauses, ?_, hclean⟩
    unfold PhaseInv at hphaseInv ⊢
    dsimp only
    split at hphaseInv
    · exact hphaseInv
    · exact hphaseInv.trans hle
    · exact hphaseInv.trans hle
    · exact ⟨hphaseInv.1.trans hle, hphaseInv.2⟩
    · trivial
  | started => exact ⟨⟨q, hq⟩, hlatest, hpauses, hphaseInv, hclean⟩
  | requestAccepted d hd =>
    refine ⟨⟨q, hq⟩, hlatest, ?_, hphaseInv, hclean⟩
    intro x hx
    rw [List.mem_singleton.mp hx]
    exact hd.2
  | requestRefused d hd => exact ⟨⟨q, hq⟩, hlatest, hpauses, hphaseInv, hclean⟩
  | receiveNothing hphase hempty => exact ⟨⟨q, hq⟩, hlatest, hpauses, trivial, hclean⟩
  | receivePause hphase d q' hq' =>
    have hitems := Fifo.items_of_receive hq'
    obtain ⟨hlow, hhigh⟩ := hpauses d (by rw [hitems]; exact List.mem_cons_self)
    refine ⟨⟨q, hq⟩, hlatest, ?_, ⟨hlow, hhigh, s.clockUs, hlatest, ?_⟩, hclean⟩
    · intro x hx
      exact hpauses x (by rw [hitems]; exact List.mem_cons_of_mem d hx)
    · rw [pdMsToTicks_toNat hhigh]
  | resume d untilTick hphase hdue => exact ⟨⟨q, hq⟩, hlatest, hpauses, trivial, hclean⟩
  | beginWait hphase =>
    exact ⟨⟨q, hq⟩, hlatest, hpauses, Nat.le_refl s.clockUs, hclean⟩
  | pollReady status t hphase hready => exact ⟨⟨q, hq⟩, hlatest, hpauses, trivial, hclean⟩
  | pollEarly status t hphase hearly =>
    exact ⟨⟨q, hq⟩, hlatest, hpauses, hphaseInv.since_poll hphase, hclean⟩
  | pollError e t hphase =>
    exact ⟨⟨q, hq⟩, hlatest, hpauses, hphaseInv.since_poll hphase, hclean⟩
  | wakeAgain t untilTick hphase hdue htime =>
    exact ⟨⟨q, hq⟩, hlatest, hpauses, hphaseInv.since_rest hphase, hclean⟩
  | wakeTimeout t untilTick hphase hdue htime =>
    exact ⟨⟨q, hq⟩, hlatest, hpauses, trivial, hclean⟩
  | stamp hphase =>
    exact ⟨⟨q, hq⟩, hlatest, hpauses, ⟨Nat.le_refl s.clockUs, hlatest⟩, hclean⟩
  | burstOk bytes t hphase =>
    unfold PhaseInv at hphaseInv
    rw [hphase] at hphaseInv
    rw [handleBurst_eq hE hu hq (Vector.length_toList) t]
    refine ⟨⟨_, rfl⟩, ?_, hpauses, trivial, hclean⟩
    exact (acquired_latestBy hE hu _ t q).mono hphaseInv.1
  | burstError e t hphase => exact ⟨⟨q, hq⟩, hlatest, hpauses, trivial, hclean⟩

theorem acquisition_inv {clockUs : ℕ} {h : List (Event Acquisition Action)}
    (hp : Path (Enabled (acquisitionStep b)) (acquisitionStart clockUs) h s) :
    AcquisitionInv b s :=
  hp.invariant (fun _ _ _ hinv hs => hinv.step hE hu (steps_of_step hs))
    (acquisitionStart_inv b clockUs)

end

def Action.delivers : Action → Bool
  | .burst (.ok _) => true
  | _ => false

def Action.failsTransfer : Action → Bool
  | .poll (.error _) | .burst (.error _) => true
  | _ => false

def Action.resumes : Action → Bool
  | .resume => true
  | _ => false

def gaveUp (e : Event Acquisition Action) : Bool :=
  match e.label, e.after.phase with
  | .wake, .top => true
  | _, _ => false

def tallyOf (p : Event Acquisition Action → Bool) (h : List (Event Acquisition Action)) : UInt32 :=
  .ofNat (h.countP p)

section
variable {b : Board} {u : ℚ} (hE : b.env.single.Precise u) (hu : u ≤ 1 / 2 ^ 24)
  {clockUs : ℕ} {s s' : Acquisition} {a : Action} {h : List (Event Acquisition Action)}
include hE hu

theorem counters_step (hinv : AcquisitionInv b s) (hs : Steps b s a s') :
    (s'.counters.samplesOk = if a.delivers then s.counters.samplesOk + 1
        else s.counters.samplesOk) ∧
      (s'.imu.sampleSequence = if a.delivers then Word.succNonzero s.imu.sampleSequence
        else s.imu.sampleSequence) ∧
      (s'.counters.i2cErrors = if a.failsTransfer then s.counters.i2cErrors + 1
        else s.counters.i2cErrors) ∧
      (s'.counters.dataReadyTimeouts =
        if gaveUp ⟨s, a, s'⟩ then s.counters.dataReadyTimeouts + 1
        else s.counters.dataReadyTimeouts) ∧
      (s'.counters.testPauses = if a.resumes then s.counters.testPauses + 1
        else s.counters.testPauses) := by
  obtain ⟨q, hq⟩ := hinv.queue
  cases hs with
  | burstOk bytes t hphase =>
    rw [handleBurst_eq hE hu hq Vector.length_toList t]
    exact ⟨rfl, rfl, rfl, rfl, rfl⟩
  | _ => exact ⟨rfl, rfl, rfl, rfl, rfl⟩

/-- Any counter of the task from its step equation. -/
theorem count_events (hp : Path (Enabled (acquisitionStep b)) (acquisitionStart clockUs) h s)
    {M : Type} (count : Acquisition → M) (bump : M → M) (p : Event Acquisition Action → Bool)
    (hstep : ∀ s a s', AcquisitionInv b s → Steps b s a s' →
      count s' = if p ⟨s, a, s'⟩ then bump (count s) else count s) :
    count s = bump^[h.countP p] (count (acquisitionStart clockUs)) := by
  have htally : count s = bump^[h.countP fun e => decide (p e = true)]
      (count (acquisitionStart clockUs)) := by
    apply hp.tally count bump (fun e => p e = true) (P := AcquisitionInv b)
    · exact fun _ _ _ hinv hs => hinv.step hE hu (steps_of_step hs)
    · exact acquisitionStart_inv b clockUs
    · exact fun e hinv hs => hstep e.before e.label e.after hinv (steps_of_step hs)
  simpa using htally

/-- Over any run the counters tell exactly what happened on the bus, modulo their width: what was
delivered became a numbered sample, and nothing was ever lost to parsing or to submission. -/
theorem acquisition_accounts
    (hp : Path (Enabled (acquisitionStep b)) (acquisitionStart clockUs) h s) :
    s.counters =
      { samplesOk := tallyOf (fun e => e.label.delivers) h
        i2cErrors := tallyOf (fun e => e.label.failsTransfer) h
        protocolErrors := 0
        dataReadyTimeouts := tallyOf gaveUp h
        parseErrors := 0
        submitErrors := 0
        testPauses := tallyOf (fun e => e.label.resumes) h } ∧
    s.imu.sampleSequence = Word.numbered (h.countP fun e => e.label.delivers) := by
  have hstep := fun (s : Acquisition) (a : Action) (s' : Acquisition)
    (hinv : AcquisitionInv b s) (hs : Steps b s a s') => counters_step hE hu hinv hs
  have hsamples := count_events hE hu hp (fun s => s.counters.samplesOk) (· + 1)
    (fun e => e.label.delivers) fun s a s' hinv hs => (hstep s a s' hinv hs).1
  have hsequence := count_events hE hu hp (fun s => s.imu.sampleSequence) Word.succNonzero
    (fun e => e.label.delivers) fun s a s' hinv hs => (hstep s a s' hinv hs).2.1
  have hi2c := count_events hE hu hp (fun s => s.counters.i2cErrors) (· + 1)
    (fun e => e.label.failsTransfer) fun s a s' hinv hs => (hstep s a s' hinv hs).2.2.1
  have htimeouts := count_events hE hu hp (fun s => s.counters.dataReadyTimeouts) (· + 1)
    gaveUp fun s a s' hinv hs => (hstep s a s' hinv hs).2.2.2.1
  have hpauses := count_events hE hu hp (fun s => s.counters.testPauses) (· + 1)
    (fun e => e.label.resumes) fun s a s' hinv hs => (hstep s a s' hinv hs).2.2.2.2
  obtain ⟨hprotocol, hparse, hsubmit⟩ := (acquisition_inv hE hu hp).clean
  constructor
  · cases hcounters : s.counters
    simp only [hcounters] at hsamples hi2c htimeouts hpauses hprotocol hparse hsubmit
    subst hsamples hi2c htimeouts hpauses hprotocol hparse hsubmit
    unfold tallyOf
    rw [← Word.count_iterate, ← Word.count_iterate, ← Word.count_iterate, ← Word.count_iterate]
    rfl
  · rw [hsequence]
    exact Word.succNonzero_iterate _

end

theorem acquisition_accounts_paused : ∃ h s,
    Path (Enabled (acquisitionStep alignedBoard)) (acquisitionStart 0) h s ∧
      s.counters = ⟨1, 0, 0, 0, 0, 0, 1⟩ ∧
      s.imu.sampleSequence = Word.numbered (h.countP fun e => e.label.delivers) := by
  obtain ⟨h, s, hp, _, hcounters⟩ := pausedRun_path
  exact ⟨h, s, hp, hcounters, (acquisition_accounts Env.ranged_precise le_rfl hp).2⟩

def Action.receives : Action → Bool
  | .receive => true
  | _ => false

def pauseSent (e : Event Acquisition Action) : Option UInt32 :=
  match e.label with
  | .requestPause d => if e.before.AcceptsPause d then some d else none
  | _ => none

/-- The pause queue as a mailbox: accepted requests are sent, the top of the loop receives and
the end of the pause has used what was received. -/
def pauseBox : Mailbox Acquisition Action UInt32 where
  sent := pauseSent
  Receives e := e.label.receives = true
  Uses e := e.label.resumes = true
  decReceives _ := inferInstance
  decUses _ := inferInstance
  sent_of_receives e h := by
    unfold pauseSent
    cases hlabel : e.label with
    | requestPause d =>
      rw [hlabel] at h
      cases h
    | _ => rfl
  not_receives_of_uses e h := by
    cases hlabel : e.label with
    | receive =>
      rw [hlabel] at h
      cases h
    | _ => exact Bool.false_ne_true

theorem latest_in_range {h : List (Event Acquisition Action)} {d : UInt32}
    (hd : pauseBox.latest h = some d) : 101 ≤ d.toNat ∧ d.toNat ≤ 2000 := by
  induction h with
  | nil => cases hd
  | cons e h ih =>
    rw [Mailbox.latest] at hd
    cases hsent : pauseBox.sent e with
    | none =>
      rw [hsent, Option.none_or] at hd
      exact ih hd
    | some x =>
      rw [hsent, Option.some_or] at hd
      cases hd
      change pauseSent e = some d at hsent
      unfold pauseSent at hsent
      cases hlabel : e.label with
      | requestPause x =>
        rw [hlabel] at hsent
        dsimp only at hsent
        split_ifs at hsent with haccepts
        cases hsent
        exact haccepts.2
      | _ =>
        rw [hlabel] at hsent
        cases hsent

/-- The queue holds the latest request while it is unread. -/
structure PauseHeld (q : Fifo UInt32 1) (h : List (Event Acquisition Action)) : Prop where
  unread : pauseBox.Unread h → ∃ d, pauseBox.latest h = some d ∧ q.items = [d]
  read : ¬ pauseBox.Unread h → q.items = []

theorem PauseHeld.quiet {q : Fifo UInt32 1} {h : List (Event Acquisition Action)}
    (hheld : PauseHeld q h) {e : Event Acquisition Action} (hsent : pauseBox.sent e = none)
    (hreceives : ¬ pauseBox.Receives e) : PauseHeld q (e :: h) := by
  obtain ⟨hlatest, _, hunread⟩ := Mailbox.cons_of_quiet (h := h) hsent hreceives
  constructor
  · rw [hunread, hlatest]
    exact hheld.unread
  · rw [hunread]
    exact hheld.read

theorem PauseHeld.received {q : Fifo UInt32 1} {h : List (Event Acquisition Action)}
    {e : Event Acquisition Action} (hreceives : pauseBox.Receives e) (hitems : q.items = []) :
    PauseHeld q (e :: h) := by
  obtain ⟨_, _, hread⟩ := Mailbox.cons_of_receives (h := h) hreceives
  exact ⟨fun hunread => absurd hunread hread, fun _ => hitems⟩

theorem PauseHeld.step {b : Board} {s s' : Acquisition} {a : Action}
    {h : List (Event Acquisition Action)} (hheld : PauseHeld s.testPauseQueue h)
    (hs : Steps b s a s') : PauseHeld s'.testPauseQueue (⟨s, a, s'⟩ :: h) := by
  cases hs with
  | requestAccepted d hd =>
    have hsent : pauseBox.sent ⟨s, .requestPause d,
        { s with testPauseQueue := s.testPauseQueue.overwrite d }⟩ = some d := if_pos hd
    exact ⟨fun _ => ⟨d, Mailbox.latest_of_sent hsent, rfl⟩,
      fun hread => absurd (Mailbox.unread_of_sent hsent) hread⟩
  | requestRefused d hd =>
    have hsent : pauseBox.sent ⟨s, .requestPause d, s⟩ = none := if_neg hd
    exact hheld.quiet hsent Bool.false_ne_true
  | receiveNothing hphase hempty => exact PauseHeld.received rfl hempty
  | receivePause hphase d q hq =>
    have hitems := Fifo.items_of_receive hq
    have hfits := s.testPauseQueue.fits
    rw [hitems, List.length_cons] at hfits
    have hempty : q.items = [] := List.length_eq_zero_iff.mp (by omega)
    exact PauseHeld.received rfl hempty
  | burstOk bytes t hphase =>
    have hsame := (handleBurst_frame b s bytes.toList t).2
    show PauseHeld (handleBurst b s bytes.toList t).testPauseQueue _
    rw [hsame]
    exact hheld.quiet rfl Bool.false_ne_true
  | _ => exact hheld.quiet rfl Bool.false_ne_true

section
variable {b : Board} {clockUs : ℕ} {s : Acquisition} {h : List (Event Acquisition Action)}
  (hp : Path (Enabled (acquisitionStep b)) (acquisitionStart clockUs) h s)
include hp

theorem pauseHeld : PauseHeld s.testPauseQueue h := by
  induction hp with
  | refl => exact ⟨fun h => h.elim, fun _ => rfl⟩
  | snoc _ hs ih => exact ih.step (steps_of_step hs)

/-- Whatever tasks request and when, the top of the loop pauses exactly when a request has been
accepted since it last looked, for the duration of the latest one and within the limits. -/
theorem latest_pause_wins : ∀ new e old, h = new ++ e :: old → e.label = .receive →
    (¬ pauseBox.Unread old ∧ e.after.phase = .waiting) ∨
    (pauseBox.Unread old ∧ ∃ d, pauseBox.latest old = some d ∧ 101 ≤ d.toNat ∧
      d.toNat ≤ 2000 ∧ e.after.phase = .pausing d (b.ticks e.before.clockUs + d.toNat)) := by
  intro new e old hsplit hlabel
  rw [hsplit] at hp
  obtain ⟨hbefore, hs, _⟩ := hp.at_event
  have hheld := pauseHeld hbefore
  have hsteps := steps_of_step hs
  rw [hlabel] at hsteps
  generalize e.after = after at hsteps ⊢
  cases hsteps with
  | receiveNothing hphase hempty =>
    left
    refine ⟨fun hunread => ?_, rfl⟩
    obtain ⟨d, _, hitems⟩ := hheld.unread hunread
    rw [hempty] at hitems
    cases hitems
  | receivePause hphase d q hq =>
    right
    have hitems := Fifo.items_of_receive hq
    by_cases hunread : pauseBox.Unread old
    · obtain ⟨x, hlatest, hx⟩ := hheld.unread hunread
      rw [hx] at hitems
      obtain ⟨rfl, _⟩ := List.cons.inj hitems
      obtain ⟨hlow, hhigh⟩ := latest_in_range hlatest
      refine ⟨hunread, x, hlatest, hlow, hhigh, ?_⟩
      rw [pdMsToTicks_toNat hhigh]
    · rw [hheld.read hunread] at hitems
      cases hitems

end

theorem latest_pause_wins_later : ∃ new e old,
    (∃ s, Path (Enabled (acquisitionStep alignedBoard)) (acquisitionStart 0)
      (new ++ e :: old) s) ∧ e.label = .receive ∧
    ((¬ pauseBox.Unread old ∧ e.after.phase = .waiting) ∨
    (pauseBox.Unread old ∧ ∃ d, pauseBox.latest old = some d ∧ 101 ≤ d.toNat ∧
      d.toNat ≤ 2000 ∧
      e.after.phase = .pausing d (alignedBoard.ticks e.before.clockUs + d.toNat))) := by
  obtain ⟨h, s, hp, hlabels, _⟩ := pausedRun_path
  have hmem : Action.receive ∈ h.map Event.label := by
    rw [hlabels]
    simp [pausedRun]
  obtain ⟨e, he, hlabel⟩ := List.mem_map.mp hmem
  obtain ⟨new, old, rfl⟩ := List.append_of_mem he
  exact ⟨new, e, old, ⟨s, hp⟩, hlabel, latest_pause_wins hp new e old rfl hlabel⟩

theorem Board.ticks_mono (b : Board) {t t' : ℕ} (h : t ≤ t') : b.ticks t ≤ b.ticks t' := by
  unfold Board.ticks
  omega

/-- So many ticks are more than one millisecond less. -/
theorem Board.elapsed (b : Board) {t t' n : ℕ} (h : b.ticks t + n ≤ b.ticks t') :
    t + 1000 * n < t' + 1000 := by
  unfold Board.ticks at h
  omega

/-- A sample that has aged for longer than the timeout is stale, and there may be none. -/
theorem classify_aged {b : Board} {s : Acquisition} {begunAtUs : ℕ} (hlatest : LatestBy s begunAtUs)
    (hage : begunAtUs + b.options.staleTimeoutMs * 1000 < s.clockUs) :
    robotImuClassifySample (robotImuGetLatest s.imu).isSome (robotImuGetLatest s.imu) s.clockUs
        (robotImuStaleTimeoutUs b.options) =
      if (robotImuGetLatest s.imu).isSome then .stale else .noSample := by
  cases hsample : robotImuGetLatest s.imu with
  | none => rfl
  | some sample =>
    obtain ⟨hfinite, sampledAtUs, hstamp, hby⟩ := hlatest sample hsample
    have htimeout : robotImuStaleTimeoutUs b.options = b.options.staleTimeoutMs * 1000 := rfl
    unfold robotImuClassifySample
    rw [if_neg (by simp), if_pos (by simp)]
    dsimp only
    rw [hfinite, hstamp, htimeout, if_neg (by omega), if_neg (by simp), if_neg (by omega),
      if_pos (by omega)]

section
variable {b : Board} {u : ℚ} (hE : b.env.single.Precise u) (hu : u ≤ 1 / 2 ^ 24)
  {clockUs : ℕ} {s : Acquisition} {h : List (Event Acquisition Action)}
  (hp : Path (Enabled (acquisitionStep b)) (acquisitionStart clockUs) h s)
include hE hu hp

/-- When a pause ends, the latest sample is stale under every timeout below the duration of the
pause, and so under the default of 100 ms whatever duration was accepted. -/
theorem pause_leaves_stale : ∀ e ∈ h, e.label = .resume →
    ∃ d untilTick, e.before.phase = .pausing d untilTick ∧ 101 ≤ d.toNat ∧
      (b.options.staleTimeoutMs < d.toNat →
        robotImuClassifySample (robotImuGetLatest e.before.imu).isSome
            (robotImuGetLatest e.before.imu) e.before.clockUs (robotImuStaleTimeoutUs b.options) =
          if (robotImuGetLatest e.before.imu).isSome then .stale else .noSample) := by
  intro e he hlabel
  obtain ⟨new, old, rfl⟩ := List.append_of_mem he
  obtain ⟨hbefore, hs, _⟩ := hp.at_event
  have hphaseInv := (acquisition_inv hE hu hbefore).phase
  have hsteps := steps_of_step hs
  rw [hlabel] at hsteps
  generalize e.after = after at hsteps
  cases hsteps with
  | resume d untilTick hphase hdue =>
    unfold PhaseInv at hphaseInv
    rw [hphase] at hphaseInv
    obtain ⟨hlow, _, begunAtUs, hlatest, hticks⟩ := hphaseInv
    refine ⟨d, untilTick, hphase, hlow, fun htimeout => classify_aged hlatest ?_⟩
    have := b.elapsed (hticks.trans hdue)
    omega

end

theorem pause_leaves_stale_default : ∃ h s,
    Path (Enabled (acquisitionStep alignedBoard)) (acquisitionStart 0) h s ∧
      ∃ e ∈ h, robotImuClassifySample (robotImuGetLatest e.before.imu).isSome
          (robotImuGetLatest e.before.imu) e.before.clockUs
          (robotImuStaleTimeoutUs alignedBoard.options) =
        if (robotImuGetLatest e.before.imu).isSome then .stale else .noSample := by
  obtain ⟨h, s, hp, hlabels, _⟩ := pausedRun_path
  have hmem : Action.resume ∈ h.map Event.label := by
    rw [hlabels]
    simp [pausedRun]
  obtain ⟨e, he, hlabel⟩ := List.mem_map.mp hmem
  obtain ⟨d, _, _, hlow, hstale⟩ :=
    pause_leaves_stale Env.ranged_precise le_rfl hp e he hlabel
  have hdefault : alignedBoard.options.staleTimeoutMs < d.toNat := by
    show 100 < d.toNat
    omega
  exact ⟨h, s, hp, e, he, hstale hdefault⟩

section
variable {b : Board} {clockUs : ℕ} {s : Acquisition} {h : List (Event Acquisition Action)}
  (hp : Path (Enabled (acquisitionStep b)) (acquisitionStart clockUs) h s)

def Action.polls : Action → Bool
  | .poll _ => true
  | _ => false

def Action.begins : Action → Bool
  | .beginWait => true
  | _ => false

def pollsOf (h : List (Event Acquisition Action)) : ℕ :=
  countSince (fun e => e.label.polls = true) (fun e => e.label.begins = true) h

/-- Every poll has cost a tick, and a poll needs the time not to be over. -/
def PollsInv (b : Board) (s : Acquisition) (n : ℕ) : Prop :=
  n ≤ 101 ∧
    match s.phase with
    | .polling t => n ≤ 100 ∧ t ≤ s.clockUs ∧ b.ticks t + n ≤ b.ticks s.clockUs
    | .resting t untilTick => t ≤ s.clockUs ∧ b.ticks t + n ≤ untilTick
    | _ => True

theorem pollsOf_cons (e : Event Acquisition Action) (h : List (Event Acquisition Action)) :
    pollsOf (e :: h) = if e.label.begins then 0
      else if e.label.polls then pollsOf h + 1 else pollsOf h := by
  unfold pollsOf
  rw [countSince]

theorem PollsInv.step {a : Action} {s' : Acquisition} {n : ℕ} (hinv : PollsInv b s n)
    (hs : Steps b s a s') :
    PollsInv b s' (if a.begins then 0 else if a.polls then n + 1 else n) := by
  obtain ⟨htop, hphaseInv⟩ := hinv
  cases hs with
  | tick us =>
    have hle : s.clockUs ≤ s.clockUs + us := Nat.le_add_right _ _
    have hticks := b.ticks_mono hle
    refine ⟨htop, ?_⟩
    dsimp only
    split at hphaseInv
    · obtain ⟨hn, ht, hspent⟩ := hphaseInv
      exact ⟨hn, ht.trans hle, hspent.trans hticks⟩
    · exact ⟨hphaseInv.1.trans hle, hphaseInv.2⟩
    · trivial
  | started => exact ⟨htop, hphaseInv⟩
  | requestAccepted d hd => exact ⟨htop, hphaseInv⟩
  | requestRefused d hd => exact ⟨htop, hphaseInv⟩
  | beginWait hphase => exact ⟨Nat.zero_le _, Nat.zero_le _, le_rfl, le_rfl⟩
  | pollReady status t hphase hready =>
    rw [hphase] at hphaseInv
    exact ⟨Nat.succ_le_succ hphaseInv.1, trivial⟩
  | pollEarly status t hphase hearly =>
    rw [hphase] at hphaseInv
    obtain ⟨hn, ht, hspent⟩ := hphaseInv
    exact ⟨Nat.succ_le_succ hn, ht, Nat.succ_le_succ hspent⟩
  | pollError e t hphase =>
    rw [hphase] at hphaseInv
    obtain ⟨hn, ht, hspent⟩ := hphaseInv
    exact ⟨Nat.succ_le_succ hn, ht, Nat.succ_le_succ hspent⟩
  | wakeAgain t untilTick hphase hdue htime =>
    rw [hphase] at hphaseInv
    obtain ⟨ht, hspent⟩ := hphaseInv
    have hspent' := hspent.trans hdue
    have hearlier := b.elapsed hspent'
    have hin : s.clockUs < t + 100000 := by
      unfold dataReadyTimeoutUs at htime
      omega
    have hn : n ≤ 100 := by omega
    exact ⟨htop, hn, ht, hspent'⟩
  | receiveNothing hphase hempty => exact ⟨htop, trivial⟩
  | receivePause hphase d q hq => exact ⟨htop, trivial⟩
  | resume d untilTick hphase hdue => exact ⟨htop, trivial⟩
  | wakeTimeout t untilTick hphase hdue htime => exact ⟨htop, trivial⟩
  | stamp hphase => exact ⟨htop, trivial⟩
  | burstOk bytes t hphase => exact ⟨htop, trivial⟩
  | burstError e t hphase => exact ⟨htop, trivial⟩

include hp in
/-- Every wait for data gives up after at most 101 polls of the status register, whatever the bus
answers and however the ticks fall. -/
theorem polls_bounded : pollsOf h ≤ 101 := by
  have hinv : PollsInv b s (pollsOf h) := by
    induction hp with
    | refl => exact ⟨Nat.zero_le _, trivial⟩
    | snoc _ hs ih =>
      rw [pollsOf_cons]
      exact ih.step (steps_of_step hs)
  exact hinv.1

end

theorem polls_bounded_paused : ∃ h s,
    Path (Enabled (acquisitionStep alignedBoard)) (acquisitionStart 0) h s ∧
      h.map Event.label = pausedRun.reverse ∧ pollsOf h ≤ 101 := by
  obtain ⟨h, s, hp, hlabels, _⟩ := pausedRun_path
  exact ⟨h, s, hp, hlabels, polls_bounded hp⟩

end RobotFirmware.Imu
