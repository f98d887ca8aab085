import RobotFirmware.Chassis.ArmingGate
import RobotFirmware.Imu.Acquisition
import RobotFirmware.Library.Relay

/-! The control task beside the acquisition task of the sensor. Test pauses are requested by the
IMUPAUSE line only, and only while the chassis cannot move. -/
namespace RobotFirmware.Chassis
open Fp Trace Queue

structure Bench where
  diag : Diag
  imu : Imu.Acquisition

inductive BenchAction
  | control (a : Action)
  | imu (a : Imu.Action)

def newPauses (d d' : Diag) : List UInt32 :=
  (d'.imuPauses.take (d'.imuPauses.length - d.imuPauses.length)).reverse

/-- The control task makes its requests at once; nothing else requests a pause. -/
def benchStep (E : Env) (b : Imu.Board) (s : Bench) : BenchAction → Option Bench
  | .control a =>
    let diag := act E s.diag a
    ((newPauses s.diag diag).foldlM
      (fun imu d => Imu.acquisitionStep b imu (.requestPause d)) s.imu).map fun imu => ⟨diag, imu⟩
  | .imu a =>
    match a with
    | .requestPause _ => none
    | a => (Imu.acquisitionStep b s.imu a).map fun imu => { s with imu := imu }

/-- The action completes an IMUPAUSE line while the chassis cannot move. -/
structure RequestsPause (E : Env) (d : Diag) (a : Action) (durationMs : UInt32) : Prop where
  line : ∃ ch r, a = .char ch r ∧ completedCommand E d ch = some (.imuPause durationMs)
  disarmed : d.core.state = .disarmed
  setpoints : ∀ i, d.core.targetCounts i = 0 ∧ d.core.output i = 0
  coasting : ∀ i, ((act E d a).motors i).mode = .coast
  noted : (act E d a).imuPauses = durationMs :: d.imuPauses

theorem submitTargets_imuPauses (d : Diag) (targets : Wheels Int32) (nowMs : UInt32) :
    (submitTargets d targets nowMs).imuPauses = d.imuPauses := by
  unfold submitTargets
  dsimp only
  split_ifs <;> rfl

theorem armIfBatteryOk_imuPauses (E : Env) (d : Diag) (r : Readings) (nowMs : UInt32) :
    (armIfBatteryOk E d r nowMs).imuPauses = d.imuPauses := by
  unfold armIfBatteryOk
  split_ifs <;> rfl

theorem processCommand_imuPauses (E : Env) (d : Diag) (r : Readings) (chars : List Char)
    (nowMs : UInt32) :
    (processCommand E d r chars nowMs).imuPauses = d.imuPauses ∨
    ∃ durationMs, parseCommand E.single chars = .imuPause durationMs ∧
      d.core.state = .disarmed ∧ (∀ i, d.core.targetCounts i = 0 ∧ d.core.output i = 0) ∧
      (∀ i, ((processCommand E d r chars nowMs).motors i).mode = .coast) ∧
      (processCommand E d r chars nowMs).imuPauses = durationMs :: d.imuPauses := by
  unfold processCommand
  cases parseCommand E.single chars with
  | imuPause durationMs =>
    dsimp only
    by_cases hsafe : d.core.state = .disarmed ∧ controlSetpointsAreZero d.core = true
    · rw [if_pos hsafe]
      have hzero : ∀ i, d.core.targetCounts i = 0 ∧ d.core.output i = 0 := of_decide_eq_true hsafe.2
      exact .inr ⟨durationMs, rfl, hsafe.1, hzero, fun _ => rfl, rfl⟩
    · rw [if_neg hsafe]
      exact .inl rfl
  | arm => exact .inl (armIfBatteryOk_imuPauses E d r nowMs)
  | run wheel target => exact .inl (submitTargets_imuPauses d _ nowMs)
  | odomZero =>
    left
    dsimp only
    split_ifs <;> rfl
  | gain kp ki =>
    left
    dsimp only
    split_ifs <;> rfl
  | _ => exact .inl rfl

theorem handleRemoteEvent_imuPauses (E : Env) (d : Diag) (event : RemoteEvent) (r : Readings)
    (nowMs : UInt32) : (handleRemoteEvent E d event r nowMs).imuPauses = d.imuPauses := by
  cases event with
  | arm => exact armIfBatteryOk_imuPauses E d r nowMs
  | targets targets limited => exact submitTargets_imuPauses d targets nowMs
  | _ => rfl

theorem sampleEncoders_imuPauses (E : Env) (d : Diag) (counts : Wheels (Option Int32)) :
    (sampleEncoders E d counts).imuPauses = d.imuPauses := by
  unfold sampleEncoders stepSample
  dsimp only
  split_ifs <;> rfl

theorem act_imuPauses (E : Env) (d : Diag) (a : Action) :
    (act E d a).imuPauses = d.imuPauses ∨ ∃ durationMs, RequestsPause E d a durationMs := by
  cases a with
  | wake nowUs => exact .inl rfl
  | event event r => exact .inl (handleRemoteEvent_imuPauses E d event r d.nowMs)
  | sample counts => exact .inl (sampleEncoders_imuPauses E d counts)
  | char ch r =>
    have hact : act E d (.char ch r) = pollUartChar E d ch r d.nowMs := rfl
    unfold pollUartChar at hact
    by_cases ht : ch = '\r' ∨ ch = '\n'
    · rw [if_pos ht] at hact
      by_cases hu : 0 < d.uartLine.chars.length
      · rw [if_pos hu] at hact
        rcases processCommand_imuPauses E d r d.uartLine.chars d.nowMs with hsame |
          ⟨durationMs, hparse, hdisarmed, hzero, hcoast, hnoted⟩
        · left
          rw [hact]
          exact hsame
        · refine .inr ⟨durationMs, ⟨ch, r, rfl, ?_⟩, hdisarmed, hzero, ?_, ?_⟩
          · unfold completedCommand
            rw [if_pos ⟨ht, hu⟩, hparse]
          · rw [hact]
            exact hcoast
          · rw [hact]
            exact hnoted
      · left
        rw [hact, if_neg hu]
    · left
      rw [hact, if_neg ht]
      split_ifs <;> rfl

theorem newPauses_same {d d' : Diag} (h : d'.imuPauses = d.imuPauses) : newPauses d d' = [] := by
  unfold newPauses
  rw [h, Nat.sub_self, List.take_zero, List.reverse_nil]

theorem newPauses_cons {d d' : Diag} {durationMs : UInt32}
    (h : d'.imuPauses = durationMs :: d.imuPauses) : newPauses d d' = [durationMs] := by
  unfold newPauses
  rw [h, List.length_cons, Nat.add_sub_cancel_left]
  rfl

inductive BenchSteps (E : Env) (b : Imu.Board) (s : Bench) : BenchAction → Bench → Prop
  | quiet (a : Action) (hsame : (act E s.diag a).imuPauses = s.diag.imuPauses) :
      BenchSteps E b s (.control a) { s with diag := act E s.diag a }
  | requests (a : Action) (durationMs : UInt32) (imu : Imu.Acquisition)
      (hrequest : RequestsPause E s.diag a durationMs)
      (himu : Imu.Steps b s.imu (.requestPause durationMs) imu) :
      BenchSteps E b s (.control a) ⟨act E s.diag a, imu⟩
  | imu (a : Imu.Action) (imu : Imu.Acquisition) (hlocal : ∀ d, a ≠ .requestPause d)
      (himu : Imu.Steps b s.imu a imu) : BenchSteps E b s (.imu a) { s with imu := imu }

theorem benchSteps_of_enabled {E : Env} {b : Imu.Board} {s s' : Bench} {a : BenchAction}
    (hs : Enabled (benchStep E b) s a s') : BenchSteps E b s a s' := by
  unfold Enabled benchStep at hs
  cases a with
  | control a =>
    dsimp only at hs
    rcases act_imuPauses E s.diag a with hsame | ⟨durationMs, hrequest⟩
    · rw [newPauses_same hsame] at hs
      cases hs
      exact .quiet a hsame
    · rw [newPauses_cons hrequest.noted] at hs
      obtain ⟨imu, himu, rfl⟩ := Option.map_eq_some_iff.mp hs
      have hone : Imu.acquisitionStep b s.imu (.requestPause durationMs) = some imu := by
        simpa using himu
      exact .requests a durationMs imu hrequest (Imu.steps_of_step hone)
  | imu a =>
    dsimp only at hs
    split at hs
    · cases hs
    · next hlocal =>
      obtain ⟨imu, himu, rfl⟩ := Option.map_eq_some_iff.mp hs
      exact .imu a imu hlocal (Imu.steps_of_step himu)

theorem receive_one {q q' : Fifo UInt32 1} {d : UInt32} (hq : q.receive = some (d, q')) :
    q.items = [d] ∧ q'.items = [] := by
  have hitems := Fifo.items_of_receive hq
  have hfits := q.fits
  rw [hitems, List.length_cons] at hfits
  have hrest : q'.items = [] := by
    apply List.length_eq_zero_iff.mp
    omega
  rw [hrest] at hitems
  exact ⟨hitems, hrest⟩

/-- A step of the acquisition task leaves the request waiting or takes it. -/
theorem acquisition_queue {b : Imu.Board} {s s' : Imu.Acquisition} {a : Imu.Action}
    (hlocal : ∀ d, a ≠ .requestPause d) (hs : Imu.Steps b s a s') :
    (a ≠ .receive ∧ s'.testPauseQueue = s.testPauseQueue) ∨
      (a = .receive ∧ s'.testPauseQueue.items = []) := by
  cases hs with
  | requestAccepted d h => exact absurd rfl (hlocal d)
  | requestRefused d h => exact absurd rfl (hlocal d)
  | receiveNothing hphase hq => exact .inr ⟨rfl, hq⟩
  | receivePause hphase d q hq => exact .inr ⟨rfl, (receive_one hq).2⟩
  | burstOk bytes t hphase =>
    exact .inl ⟨nofun, (Imu.handleBurst_frame b s bytes.toList t).2⟩
  | _ => exact .inl ⟨nofun, rfl⟩

section
variable {E : Env} {b : Imu.Board} {s₀ s : Bench} {h : List (Event Bench BenchAction)}
  {x : Event Bench BenchAction} {durationMs : UInt32}

def AsksForPause (E : Env) (x : Event Bench BenchAction) (durationMs : UInt32) : Prop :=
  ∃ a, x.label = .control a ∧ RequestsPause E x.before.diag a durationMs ∧
    x.before.imu.AcceptsPause durationMs

/-- A request waits only because a line has asked for it. -/
theorem request_entry (hs : Enabled (benchStep E b) x.before x.label x.after)
    (hb : x.before.imu.testPauseQueue.items ≠ [durationMs])
    (ha : x.after.imu.testPauseQueue.items = [durationMs]) : AsksForPause E x durationMs := by
  obtain ⟨s, a, s'⟩ := x
  have hsteps := benchSteps_of_enabled hs
  dsimp only at hb ha hsteps
  cases hsteps with
  | quiet a hsame => exact absurd ha hb
  | requests a d imu hrequest himu =>
    cases himu with
    | requestAccepted _ haccepts =>
      obtain ⟨rfl, _⟩ := List.cons.inj ha
      exact ⟨a, rfl, hrequest, haccepts⟩
    | requestRefused _ _ => exact absurd ha hb
  | imu a imu hlocal himu =>
    rcases acquisition_queue hlocal himu with ⟨_, hsame⟩ | ⟨_, hempty⟩
    · rw [hsame] at ha
      exact absurd ha hb
    · rw [hempty] at ha
      cases ha

/-- While the same request waits, the acquisition task does not look and no line asks for another
pause. -/
theorem request_waits (hs : Enabled (benchStep E b) x.before x.label x.after)
    (ha : x.after.imu.testPauseQueue.items = [durationMs]) :
    x.label ≠ .imu .receive ∧ ∀ d, AsksForPause E x d → d = durationMs := by
  obtain ⟨s, a, s'⟩ := x
  have hsteps := benchSteps_of_enabled hs
  dsimp only at ha hsteps
  cases hsteps with
  | quiet a hsame =>
    refine ⟨nofun, ?_⟩
    rintro d ⟨_, hlabel, hrequest, _⟩
    cases hlabel
    have hnoted := congrArg List.length hrequest.noted
    dsimp only at hnoted
    rw [hsame, List.length_cons] at hnoted
    omega
  | requests a d imu hrequest himu =>
    refine ⟨nofun, ?_⟩
    rintro d' ⟨_, hlabel, hrequest', haccepts⟩
    cases hlabel
    have hsame : d :: s.diag.imuPauses = d' :: s.diag.imuPauses :=
      hrequest.noted.symm.trans hrequest'.noted
    obtain ⟨rfl, _⟩ := List.cons.inj hsame
    cases himu with
    | requestAccepted _ _ => exact (List.cons.inj ha).1
    | requestRefused _ hrefused => exact absurd haccepts hrefused
  | imu a imu hlocal himu =>
    refine ⟨?_, by rintro d ⟨_, hlabel, _⟩; cases hlabel⟩
    rintro hlabel
    rcases acquisition_queue hlocal himu with ⟨hother, _⟩ | ⟨_, hempty⟩
    · cases hlabel
      exact hother rfl
    · rw [hempty] at ha
      cases ha

/-- Every pause that the acquisition task begins was asked for by an IMUPAUSE line that found the
chassis disarmed with all setpoints zero and left its motors coasting; it lasts as long as the
line says, within the limits, and begins at the first look of the task after the latest such line. -/
theorem pauses_requested (hempty : s₀.imu.testPauseQueue.items = [])
    (hp : Path (Enabled (benchStep E b)) s₀ h s) :
    ∀ new e old untilTick, h = new ++ e :: old → e.label = .imu .receive →
      e.after.imu.phase = .pausing durationMs untilTick →
      ∃ between x older, old = between ++ x :: older ∧ AsksForPause E x durationMs ∧
        untilTick = b.ticks e.before.imu.clockUs + durationMs.toNat ∧
        ∀ y ∈ between, y.label ≠ .imu .receive ∧ ∀ d, AsksForPause E y d → d = durationMs := by
  rintro new e old untilTick rfl hlabel hphase
  obtain ⟨hold, hs, _⟩ := hp.at_event
  have hsteps := benchSteps_of_enabled hs
  rw [hlabel] at hsteps
  generalize hafter : e.after = after at hsteps hphase
  cases hsteps with
  | imu _ imu _ himu =>
    cases himu with
    | receiveNothing _ _ => cases hphase
    | receivePause _ d q hq =>
      have hitems := (receive_one hq).1
      cases hphase
      have hstart : ¬ s₀.imu.testPauseQueue.items = [durationMs] := by
        rw [hempty]
        simp
      obtain ⟨between, x, older, rfl, hother, hset, hwaits⟩ := hold.exists_latest_entry
        (P := fun s => s.imu.testPauseQueue.items = [durationMs]) hstart hitems
      obtain ⟨_, hx, hrest⟩ := hold.at_event
      have hasks := request_entry hx hother hset
      obtain ⟨_, _, _, haccepts⟩ := hasks
      refine ⟨between, x, older, rfl, request_entry hx hother hset, ?_, ?_⟩
      · rw [Imu.pdMsToTicks_toNat haccepts.2.2]
      · intro y hy
        obtain ⟨newer, older', rfl⟩ := List.append_of_mem hy
        obtain ⟨_, hstep, _⟩ := hrest.at_event
        exact request_waits hstep (hwaits y hy).2

end

def typedPause : List BenchAction :=
  .imu .started :: (['I', 'M', 'U', 'P', 'A', 'U', 'S', 'E', ' ', '1', '0', '1', '\r'].map
    fun ch => .control (.char ch goodReadings)) ++ [.imu .receive]

def pausedFor : Imu.Phase → Option UInt32
  | .pausing durationMs _ => some durationMs
  | _ => none

theorem pauses_requested_typed : ∃ h x,
    (∃ s, Path (Enabled (benchStep .rational Imu.alignedBoard))
      ⟨readyDiag, Imu.acquisitionStart 0⟩ h s) ∧ x ∈ h ∧ AsksForPause .rational x 101 := by
  have hrun : (runAll (benchStep .rational Imu.alignedBoard) ⟨readyDiag, Imu.acquisitionStart 0⟩
      typedPause).bind (fun s => pausedFor s.imu.phase) = some 101 := by decide +kernel
  obtain ⟨s, hs, hpaused⟩ := Option.bind_eq_some_iff.mp hrun
  obtain ⟨h, hp, hlabels⟩ := path_of_runAll hs
  obtain ⟨untilTick, hphase⟩ : ∃ untilTick, s.imu.phase = .pausing 101 untilTick := by
    unfold pausedFor at hpaused
    split at hpaused
    · next durationMs untilTick hphase =>
      cases hpaused
      exact ⟨untilTick, hphase⟩
    · cases hpaused
  cases hp with
  | refl => simp [typedPause] at hlabels
  | @snoc old s' s a hold hs =>
    have hlast : a = .imu .receive := by
      rw [List.map_cons] at hlabels
      exact (List.cons.inj (hlabels.trans (List.reverse_concat ..))).1
    obtain ⟨between, x, older, hsplit, hasks, _⟩ := pauses_requested rfl (hold.snoc hs) []
      ⟨s', a, s⟩ old untilTick rfl hlast hphase
    refine ⟨_, x, ⟨s, hold.snoc hs⟩, ?_, hasks⟩
    rw [hsplit]
    exact List.mem_cons_of_mem _ (List.mem_append_right _ List.mem_cons_self)

end RobotFirmware.Chassis
