import RobotFirmware.Imu.Acquisition
import RobotFirmware.Microros.ImuStream

/-! From the registers of the sensor to the messages on the wire: the acquisition task and the
micro-ROS task side by side, and the stream of samples that the two refine. -/
namespace RobotFirmware.Microros
open Fp Trace Imu

/-- Both tasks, with the accepted samples, oldest first, and the publications, newest first. -/
structure Pipeline where
  task : Acquisition
  ros : RosStatics
  taken : Option Taken
  accepted : List ImuSample
  published : List Publication

/-- The pipeline as the system of the stream; the start of the component has succeeded. -/
def Pipeline.system (p : Pipeline) : ImuSystem :=
  ⟨{ p.task.imu with started := true }, p.ros, p.task.clockUs, p.taken, p.accepted, p.published⟩

inductive PipelineAction
  | acquire (a : Imu.Action)
  | publish (a : ImuAction)

def ImuAction.ofRos : ImuAction → Bool
  | .tick _ | .submit _ _ _ => false
  | _ => true

def Deployment.board (c : Deployment) (tickPhaseUs : ℕ) : Board := ⟨c.env, c.imu, tickPhaseUs⟩

def pipelineStep (c : Deployment) (tickPhaseUs : ℕ) (p : Pipeline) :
    PipelineAction → Option Pipeline
  | .acquire a =>
    (acquisitionStep (c.board tickPhaseUs) p.task a).map fun task => { p with
      task := task
      accepted := p.accepted ++ if a.delivers then (robotImuGetLatest task.imu).toList else [] }
  | .publish a =>
    if a.ofRos then
      (imuStep c p.system a).map fun s => { p with
        ros := s.ros, taken := s.taken, published := s.published }
    else none

def pipelineStart (clockUs : ℕ) : Pipeline :=
  ⟨acquisitionStart clockUs, { RosStatics.zero with commandQueue := some .empty }, none, [], []⟩

/-- What a pipeline and a system of the stream have in common. -/
structure Refines (c : Deployment) (tickPhaseUs : ℕ) (p : Pipeline) (s : ImuSystem) : Prop where
  system : p.system = s
  acquisition : AcquisitionInv (c.board tickPhaseUs) p.task

section
variable {c : Deployment} {tickPhaseUs : ℕ} {u : ℚ} (hE : c.env.single.Precise u)
  (hu : u ≤ 1 / 2 ^ 24)

include hE hu in
theorem burst_submits {p : Pipeline} (hinv : AcquisitionInv (c.board tickPhaseUs) p.task)
    {bytes : List UInt8} (hlength : bytes.length = 12) (t : ℕ) :
    let task := { handleBurst (c.board tickPhaseUs) p.task bytes t with phase := Phase.top }
    let si := converted c.env (parsed bytes)
    imuStep c p.system (.submit (some si.linearAccelerationMps2) (some si.angularVelocityRadS) t) =
      some { p.system with
        imu := { task.imu with started := true }
        accepted := p.accepted ++ (robotImuGetLatest task.imu).toList } := by
  obtain ⟨q, hq⟩ := hinv.queue
  have hE' : (c.board tickPhaseUs).env.single.Precise u := hE
  have hburst := handleBurst_eq hE' hu hq hlength t
  have hfinite := converted_finite hE hu (parsed bytes) t (candidateSequence p.task.imu)
  have hclock : ¬ (t : ℤ) < 0 := by omega
  dsimp only
  rw [hburst]
  have hqueue : p.system.imu.latestSampleQueue = some q := hq
  have hsequence : candidateSequence p.system.imu = candidateSequence p.task.imu := rfl
  unfold imuStep robotImuSubmitSiSample
  simp only [hclock, hqueue, hsequence, hfinite, Bool.not_true, Bool.false_eq_true, if_false]
  rfl

theorem imuStep_of_ros {s s' : ImuSystem} {a : ImuAction} (hros : a.ofRos = true)
    (hs : imuStep c s a = some s') :
    s'.imu = s.imu ∧ s'.clockUs = s.clockUs ∧ s'.accepted = s.accepted := by
  cases a with
  | tick us => cases hros
  | submit acceleration velocity sampledAtUs => cases hros
  | beginTimer snapshot odom =>
    obtain ⟨_, rfl⟩ := whenIdle_some hs
    exact ⟨rfl, rfl, rfl⟩
  | endTimer epochSynchronized epochNowNs published =>
    obtain ⟨t, _, rfl⟩ := Option.map_eq_some_iff.mp hs
    exact ⟨rfl, rfl, rfl⟩
  | sync answer =>
    obtain ⟨_, rfl⟩ := whenIdle_some hs
    exact ⟨rfl, rfl, rfl⟩
  | newSession =>
    obtain ⟨_, rfl⟩ := whenIdle_some hs
    exact ⟨rfl, rfl, rfl⟩
  | endSession =>
    obtain ⟨_, rfl⟩ := whenIdle_some hs
    exact ⟨rfl, rfl, rfl⟩

include hE hu in
theorem Refines.step {p p' : Pipeline} {a : PipelineAction} {s : ImuSystem}
    (h : Refines c tickPhaseUs p s) (hs : Enabled (pipelineStep c tickPhaseUs) p a p') :
    ∃ s' h', Path (Enabled (imuStep c)) s h' s' ∧ Refines c tickPhaseUs p' s' := by
  obtain ⟨rfl, hinv⟩ := h
  have hE' : (c.board tickPhaseUs).env.single.Precise u := hE
  unfold Enabled pipelineStep at hs
  cases a with
  | acquire a =>
    obtain ⟨task, htask, rfl⟩ := Option.map_eq_some_iff.mp hs
    have hsteps := steps_of_step htask
    have hinv' := hinv.step hE' hu hsteps
    cases hsteps with
    | tick us =>
      have htick : imuStep c p.system (.tick us) =
          some { p.system with clockUs := p.task.clockUs + us } := rfl
      refine ⟨_, _, .snoc .refl htick, ?_, hinv'⟩
      simp [Pipeline.system, Action.delivers]
    | burstOk bytes t hphase =>
      have hlength : bytes.toList.length = 12 := Vector.length_toList
      have hsubmits := burst_submits hE hu hinv hlength t
      refine ⟨_, _, .snoc .refl hsubmits, ?_, hinv'⟩
      have hclock := (handleBurst_frame (c.board tickPhaseUs) p.task bytes.toList t).1
      unfold Pipeline.system
      dsimp only
      rw [hclock, if_pos (show Action.delivers (.burst (.ok bytes)) = true from rfl)]
    | _ =>
      refine ⟨p.system, [], .refl, ?_, hinv'⟩
      simp [Pipeline.system, Action.delivers, countI2cError]
  | publish a =>
    dsimp only at hs
    split_ifs at hs with hros
    obtain ⟨s', hs', rfl⟩ := Option.map_eq_some_iff.mp hs
    obtain ⟨himu, hclock, haccepted⟩ := imuStep_of_ros hros hs'
    refine ⟨s', _, .snoc .refl hs', ?_, hinv⟩
    cases s'
    simp only at himu hclock haccepted
    subst himu hclock haccepted
    rfl

include hE hu in
/-- The pipeline refines the system of the stream with the physical backend. -/
theorem pipeline_refines (hbackend : c.imu.backend = .icm42670p) {clockUs : ℕ}
    {h : List (Event Pipeline PipelineAction)} {p : Pipeline}
    (hp : Path (Enabled (pipelineStep c tickPhaseUs)) (pipelineStart clockUs) h p) :
    ∃ h', Path (Enabled (imuStep c)) (imuStart c true (.ok ())) h' p.system := by
  have henabled : robotImuIsEnabled c.imu = true := by
    unfold robotImuIsEnabled
    rw [hbackend]
    rfl
  have hstart : imuStep c (imuStart c true (.ok ())) (.tick clockUs) =
      some (pipelineStart clockUs).system := by
    unfold imuStart robotImuStart
    simp only [henabled]
    simp [imuStep, Pipeline.system, pipelineStart, acquisitionStart, Imu.Statics.zero]
  have hrefines : Refines c tickPhaseUs (pipelineStart clockUs) (pipelineStart clockUs).system :=
    ⟨rfl, acquisitionStart_inv _ clockUs⟩
  obtain ⟨s, h', hpath, hsystem, _⟩ := hp.simulation (R := Refines c tickPhaseUs)
    (fun _ _ _ _ hr hs => hr.step hE hu hs) hrefines
  subst hsystem
  exact ⟨_, Path.append (.snoc .refl hstart) hpath⟩

end

/-- The bursts that the bus delivered with the times of their samples, newest first. -/
def bursts : List (Event Pipeline PipelineAction) → List (List UInt8 × ℕ)
  | [] => []
  | e :: h =>
    match e.label, e.before.task.phase with
    | .acquire (.burst (.ok bytes)), .reading sampledAtUs => (bytes.toList, sampledAtUs) :: bursts h
    | _, _ => bursts h

def contents (sample : ImuSample) : Axes × Axes × ℤ :=
  (sample.linearAccelerationMps2, sample.angularVelocityRadS, sample.sampledAtUs)

def decoded (c : Deployment) (burst : List UInt8 × ℕ) : Axes × Axes × ℤ :=
  ((converted c.env (parsed burst.1)).linearAccelerationMps2,
    (converted c.env (parsed burst.1)).angularVelocityRadS, burst.2)

/-- The accepted samples are the delivered bursts, decoded and in their order. -/
structure Acquired (c : Deployment) (tickPhaseUs : ℕ) (h : List (Event Pipeline PipelineAction))
    (p : Pipeline) : Prop where
  contents : p.accepted.map contents = (bursts h).reverse.map (decoded c)
  lengths : ∀ burst ∈ bursts h, burst.1.length = 12
  acquisition : AcquisitionInv (c.board tickPhaseUs) p.task

section
variable {c : Deployment} {tickPhaseUs : ℕ} {u : ℚ} (hE : c.env.single.Precise u)
  (hu : u ≤ 1 / 2 ^ 24) {clockUs : ℕ} {h : List (Event Pipeline PipelineAction)} {p p' : Pipeline}
include hE hu

theorem Acquired.step {a : PipelineAction} (hacquired : Acquired c tickPhaseUs h p)
    (hs : Enabled (pipelineStep c tickPhaseUs) p a p') :
    Acquired c tickPhaseUs (⟨p, a, p'⟩ :: h) p' := by
  obtain ⟨hcontents, hlengths, hinv⟩ := hacquired
  have hE' : (c.board tickPhaseUs).env.single.Precise u := hE
  unfold Enabled pipelineStep at hs
  cases a with
  | acquire a =>
    obtain ⟨task, htask, rfl⟩ := Option.map_eq_some_iff.mp hs
    have hsteps := steps_of_step htask
    have hinv' := hinv.step hE' hu hsteps
    cases hsteps with
    | burstOk bytes t hphase =>
      have hlength : bytes.toList.length = 12 := Vector.length_toList
      obtain ⟨q, hq⟩ := hinv.queue
      have hburst := handleBurst_eq hE' hu hq hlength t
      have hnew : ∀ p', bursts (⟨p, .acquire (.burst (.ok bytes)), p'⟩ :: h) =
          (bytes.toList, t) :: bursts h := by
        intro p'
        rw [bursts, hphase]
      refine ⟨?_, ?_, hinv'⟩
      · rw [hnew, List.reverse_cons, List.map_append, List.map_append, hcontents, hburst,
          if_pos (show Action.delivers (.burst (.ok bytes)) = true from rfl)]
        rfl
      · rw [hnew]
        intro burst hmem
        rcases List.mem_cons.mp hmem with rfl | hmem
        · exact hlength
        · exact hlengths burst hmem
    | _ =>
      refine ⟨?_, hlengths, hinv'⟩
      simpa [Action.delivers, bursts] using hcontents
  | publish a =>
    dsimp only at hs
    split_ifs at hs
    obtain ⟨s', _, rfl⟩ := Option.map_eq_some_iff.mp hs
    exact ⟨hcontents, hlengths, hinv⟩

theorem acquired_of_path
    (hp : Path (Enabled (pipelineStep c tickPhaseUs)) (pipelineStart clockUs) h p) :
    Acquired c tickPhaseUs h p := by
  induction hp with
  | refl => exact ⟨rfl, nofun, acquisitionStart_inv _ clockUs⟩
  | snoc _ hs ih => exact ih.step hE hu hs

/-- Whatever the bus, the clock, the agent and the requests for pauses do, every message on the
wire shows one burst that the bus delivered: its registers decoded and converted, stamped with the
time at which they were sampled, and no burst is shown twice or after a later one. -/
theorem registers_to_messages (hbackend : c.imu.backend = .icm42670p)
    (hp : Path (Enabled (pipelineStep c tickPhaseUs)) (pipelineStart clockUs) h p) :
    p.published.Pairwise Earlier ∧
    ∀ pub ∈ p.published, 0 < pub.number ∧ ∃ bytes sampledAtUs,
      (bursts h).reverse[pub.number - 1]? = some (bytes, sampledAtUs) ∧ bytes.length = 12 ∧
      pub.message.linearAcceleration = (converted c.env (parsed bytes)).linearAccelerationMps2 ∧
      pub.message.angularVelocity = (converted c.env (parsed bytes)).angularVelocityRadS ∧
      pub.message.stamp = stampOfNs (pub.epochNowNs - (pub.nowUs - sampledAtUs) * 1000) ∧
      (pub.epochNowNs < 2 ^ 31 * 1000000000 →
        pub.message.stamp.sec.toInt * 1000000000 + pub.message.stamp.nanosec.toNat =
          pub.epochNowNs - (pub.nowUs - sampledAtUs) * 1000) ∧
      pub.sampledAtNs = pub.epochNowNs - (pub.nowUs - sampledAtUs) * 1000 ∧
      0 ≤ pub.nowUs - sampledAtUs ∧ pub.nowUs - sampledAtUs ≤ robotImuStaleTimeoutUs c.imu := by
  obtain ⟨h', hpath⟩ := pipeline_refines hE hu hbackend hp
  have hinv := streamInv hpath
  have hacquired := acquired_of_path hE hu hp
  refine ⟨hinv.stream.pairwise, fun pub hpub => ?_⟩
  have hgenuine := (hinv.shows pub hpub).genuine
  obtain ⟨hpositive, hsample⟩ := hgenuine.acquired
  have hcontents := congrArg (fun l => l[pub.number - 1]?) hacquired.contents
  change p.accepted[pub.number - 1]? = some pub.sample at hsample
  simp only [List.getElem?_map, hsample, Option.map_some] at hcontents
  obtain ⟨⟨bytes, sampledAtUs⟩, hburst, hdecoded⟩ :=
    Option.map_eq_some_iff.mp hcontents.symm
  obtain ⟨hacceleration, hvelocity, hstamp⟩ :
      (converted c.env (parsed bytes)).linearAccelerationMps2 = pub.sample.linearAccelerationMps2 ∧
      (converted c.env (parsed bytes)).angularVelocityRadS = pub.sample.angularVelocityRadS ∧
      (sampledAtUs : ℤ) = pub.sample.sampledAtUs := by
    simpa [decoded, contents] using hdecoded
  have hmem := List.mem_reverse.mp (List.mem_of_getElem? hburst)
  have hsampled : pub.sampledAtNs = pub.epochNowNs - (pub.nowUs - sampledAtUs) * 1000 := by
    rw [hgenuine.stamp, hstamp]
  refine ⟨hpositive, bytes, sampledAtUs, hburst, hacquired.lengths _ hmem, ?_, ?_, ?_, ?_,
    hsampled, ?_⟩
  · rw [hgenuine.values, hacceleration]
    rfl
  · rw [hgenuine.values, hvelocity]
    rfl
  · rw [hgenuine.values, ← hsampled]
    rfl
  · intro hepoch
    rw [(hgenuine.fields hepoch).1, hsampled]
  · rw [hstamp]
    exact hgenuine.age

end

def publishedRun : List PipelineAction :=
  [.publish .newSession, .publish (.sync ⟨true, true⟩), .acquire .receive, .acquire .beginWait,
    .acquire (.poll (.ok 1)), .acquire .stamp, .acquire (.burst (.ok (Vector.replicate 12 1))),
    .acquire (.tick 1000), .publish (.beginTimer none ⟨0, true, 1000000000, true⟩),
    .publish (.endTimer true 1000000000 true)]

theorem registers_to_messages_one : ∃ h p,
    Path (Enabled (pipelineStep { physicalDeployment with env := .ranged } 0))
      (pipelineStart 0) h p ∧
    p.published.length = 1 ∧ p.published.Pairwise Earlier ∧
    ∀ pub ∈ p.published, 0 < pub.number ∧ ∃ bytes sampledAtUs,
      (bursts h).reverse[pub.number - 1]? = some (bytes, sampledAtUs) ∧
      pub.message.stamp = stampOfNs (pub.epochNowNs - (pub.nowUs - sampledAtUs) * 1000) := by
  have hrun : (runAll (pipelineStep { physicalDeployment with env := .ranged } 0)
      (pipelineStart 0) publishedRun).map (fun p => p.published.length) = some 1 := by
    decide +kernel
  obtain ⟨p, hrun, hlength⟩ := Option.map_eq_some_iff.mp hrun
  obtain ⟨h, hp, _⟩ := path_of_runAll hrun
  obtain ⟨hearlier, hshown⟩ := registers_to_messages Env.ranged_precise le_rfl rfl hp
  refine ⟨h, p, hp, hlength, hearlier, fun pub hpub => ?_⟩
  obtain ⟨hpositive, bytes, sampledAtUs, hburst, _, _, _, hstamp, _⟩ := hshown pub hpub
  exact ⟨hpositive, bytes, sampledAtUs, hburst, hstamp⟩

end RobotFirmware.Microros
