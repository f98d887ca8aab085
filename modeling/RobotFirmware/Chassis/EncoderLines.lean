import RobotFirmware.Chassis.PulseUnits

/-! The control task over the lines of the encoders: its samples are those of four counters that
step with the phases of the wheels. -/
namespace RobotFirmware.Chassis
open Fp WrapCounter Quadrature

/-- The inputs of one pass of the loop, and what changes before each wheel's turn to be read. -/
structure LinePass where
  nowUs : ℤ
  data : List (Char × Readings)
  events : List (RemoteEvent × Readings)
  toggles : Wheels (List ℕ)
  answers : Wheels Bool

/-- The changes before the turn of a wheel. -/
def LinePass.upTo (p : LinePass) (i : Wheel) : List ℕ :=
  ((List.finRange 4).take (i + 1)).flatMap p.toggles

def LinePass.beyond (p : LinePass) (i : Wheel) : List ℕ :=
  ((List.finRange 4).drop (i + 1)).flatMap p.toggles

def LinePass.all (p : LinePass) : List ℕ := (List.finRange 4).flatMap p.toggles

theorem LinePass.upTo_append_beyond (p : LinePass) (i : Wheel) :
    p.upTo i ++ p.beyond i = p.all := by
  unfold LinePass.upTo LinePass.beyond LinePass.all
  rw [← List.flatMap_append, List.take_append_drop]

structure Rig where
  diag : Diag
  electrics : Electrics

def LinePass.iteration (p : LinePass) (s : Electrics) : Iteration where
  nowUs := p.nowUs
  data := p.data
  events := p.events
  counts := fun i =>
    if p.answers i then some (reading ((s.run (p.upTo i)).units i).count) else none

def Rig.pass (E : Env) (r : Rig) (p : LinePass) : Rig where
  diag := controlTaskIteration E r.diag (p.iteration r.electrics)
  electrics := r.electrics.run p.all

/-- The deltas passed to the odometry in a run. -/
def lineDeltas (E : Env) : Rig → List LinePass → List (Wheels Int32)
  | _, [] => []
  | r, p :: passes =>
    (passedDelta E r.diag (p.iteration r.electrics)).toList ++ lineDeltas E (r.pass E p) passes

/-- The steps of each phase after the turn of its wheel. -/
def LinePass.late (p : LinePass) (s : Electrics) : Wheels (List Edge) :=
  fun i => (encoderPins i).steps (s.run (p.upTo i)).levels (p.beyond i)

/-- The pass as the counters see it, after the late steps of the pass before. -/
def LinePass.counted (p : LinePass) (s : Electrics) (late : Wheels (List Edge)) : Pass where
  nowUs := p.nowUs
  data := p.data
  events := p.events
  edges := fun i => late i ++ (encoderPins i).steps s.levels (p.upTo i)
  answers := p.answers

def countedRun (s : Electrics) (late : Wheels (List Edge)) : List LinePass → List Pass
  | [] => []
  | p :: passes => p.counted s late :: countedRun (s.run p.all) (p.late s) passes

/-- The counters have seen all steps but the late ones. -/
structure Counted (r : Rig) (w : Plant) (late : Wheels (List Edge)) : Prop where
  diag : r.diag = w.diag
  units : ∀ i, r.electrics.units i =
    decoderAt i (WrapCounter.run encoderCountLimit.toInt (w.counters i) (late i))

section
variable {E : Env} {r : Rig} {w : Plant} {late : Wheels (List Edge)}

theorem Counted.countersAfter (hr : Counted r w late) (p : LinePass) (i : Wheel) :
    (r.electrics.run (p.upTo i)).units i =
      decoderAt i (w.countersAfter (p.counted r.electrics late) i) := by
  rw [run_decoders _ _ hr.units]
  unfold Plant.countersAfter LinePass.counted
  rw [WrapCounter.run_append]

theorem Counted.iteration (hr : Counted r w late) (p : LinePass) :
    p.iteration r.electrics = (p.counted r.electrics late).iteration
      (w.countersAfter (p.counted r.electrics late)) := by
  unfold LinePass.iteration Pass.iteration
  have hcounts : ∀ i, ((r.electrics.run (p.upTo i)).units i).count =
      w.countersAfter (p.counted r.electrics late) i := by
    intro i
    rw [hr.countersAfter]
    rfl
  simp only [hcounts]
  rfl

theorem Counted.pass (hr : Counted r w late) (p : LinePass) :
    Counted (r.pass E p) (w.pass E (p.counted r.electrics late)) (p.late r.electrics) := by
  constructor
  · unfold Rig.pass Plant.pass
    rw [hr.iteration, hr.diag]
  · intro i
    have hturn : ∀ j, (r.electrics.run (p.upTo i)).units j = decoderAt j _ :=
      run_decoders _ _ hr.units (p.upTo i)
    have hown := hr.countersAfter p i
    show (r.electrics.run p.all).units i = _
    rw [← p.upTo_append_beyond i, Electrics.run_append, run_decoders _ _ hturn]
    have hcount := congrArg PcntUnit.count ((hturn i).symm.trans hown)
    change WrapCounter.run _ _ _ = w.countersAfter (p.counted r.electrics late) i at hcount
    rw [hcount]
    rfl

theorem Counted.lineDeltas (hr : Counted r w late) (passes : List LinePass) :
    lineDeltas E r passes = passedDeltas E w (countedRun r.electrics late passes) := by
  induction passes generalizing r w late with
  | nil => rfl
  | cons p passes ih =>
    have hnext := ih (hr.pass (E := E) p)
    rw [Chassis.lineDeltas, countedRun, passedDeltas, hnext, hr.iteration, hr.diag]
    rfl

end

theorem movement_cons (i : Wheel) (p : Pass) (passes : List Pass) :
    movement i (p :: passes) = net (p.edges i) + movement i passes := by
  unfold movement
  rw [List.flatMap_cons, net_append]

/-- By the turn of a wheel in the last pass its counter has moved with its phase. -/
theorem movement_counted (s : Electrics) (late : Wheels (List Edge)) (passes : List LinePass)
    (p : LinePass) (i : Wheel) :
    movement i (countedRun s late (passes ++ [p])) =
      net (late i) +
        net ((encoderPins i).steps s.levels (passes.flatMap LinePass.all ++ p.upTo i)) := by
  induction passes generalizing s late with
  | nil =>
    have hnone : movement i [] = 0 := rfl
    rw [List.nil_append, countedRun, countedRun, movement_cons, hnone, add_zero]
    exact net_append _ _
  | cons q passes ih =>
    have hfirst := steps_append s (q.upTo i) (q.beyond i) i
    rw [q.upTo_append_beyond i] at hfirst
    have hsplit := steps_append s q.all (passes.flatMap LinePass.all ++ p.upTo i) i
    have hedges : net ((q.counted s late).edges i) =
        net (late i) + net ((encoderPins i).steps s.levels (q.upTo i)) := net_append _ _
    rw [List.cons_append, countedRun, movement_cons, ih, List.flatMap_cons, List.append_assoc,
      hsplit, hfirst, hedges]
    simp only [net_append]
    unfold LinePass.late
    ring

theorem countedRun_concat (s : Electrics) (late : Wheels (List Edge)) (passes : List LinePass)
    (p : LinePass) : ∃ before last, countedRun s late (passes ++ [p]) = before ++ [last] ∧
      last.answers = p.answers := by
  induction passes generalizing s late with
  | nil => exact ⟨[], p.counted s late, rfl, rfl⟩
  | cons q passes ih =>
    obtain ⟨before, last, hrun, hanswers⟩ := ih (s.run q.all) (q.late s)
    exact ⟨q.counted s late :: before, last, by rw [List.cons_append, countedRun, hrun]; rfl,
      hanswers⟩

/-- The passes that read the wheel read the others as well. -/
def ReadsWhole (i : Wheel) (passes : List LinePass) : Prop :=
  ∀ p ∈ passes, (∀ j ≤ i, p.answers j = true) → ∀ j, p.answers j = true

instance (i : Wheel) (passes : List LinePass) : Decidable (ReadsWhole i passes) :=
  inferInstanceAs (Decidable (∀ p ∈ passes, _))

theorem samples_complete {i : Wheel} {passes : List LinePass} (hread : ReadsWhole i passes)
    (s : Electrics) (late : Wheels (List Edge)) (pending : List Edge) :
    ∀ x ∈ samples i pending (countedRun s late passes), x.complete = true := by
  induction passes generalizing s late pending with
  | nil => exact nofun
  | cons p passes ih =>
    obtain ⟨hp, hpasses⟩ := List.forall_mem_cons.mp hread
    rw [countedRun, samples]
    split_ifs with hr
    · have hcomplete : (p.counted s late).complete = true := decide_eq_true (hp hr)
      exact List.forall_mem_cons.mpr ⟨hcomplete, ih hpasses _ _ _⟩
    · exact ih hpasses _ _ _

section
variable {E : Env} {inp : StartInputs} {d : Diag} {ω : Type} {o : PcntDriver ω} {s t : Units ω}
  {passes : List LinePass} {p : LinePass} {i : Wheel}

theorem counted_start (ht : initEncoders o s = .ok () t) (d : Diag) (levels : ℕ → Bool) :
    Counted ⟨d, ⟨levels, t.unit⟩⟩ (Plant.start d) fun _ => [] := by
  refine ⟨rfl, fun i => ?_⟩
  show t.unit i = decoderUnit i
  rw [initEncoders_units ht]

/-- Up to a complete pass the deltas add up to the steps of the phase. -/
theorem lineDeltas_sum (hs : robotChassisDiagStart E inp = .ok d)
    (ht : initEncoders o s = .ok () t) (levels : ℕ → Bool) (hp : ∀ j, p.answers j = true)
    (hread : ReadsWhole i passes)
    (hshort : ∀ x ∈ samples i []
      (countedRun ⟨levels, t.unit⟩ (fun _ => []) (passes ++ [p])), x.edges.length < 15000) :
    ((lineDeltas E ⟨d, ⟨levels, t.unit⟩⟩ (passes ++ [p])).map fun delta => (delta i).toInt).sum =
      net ((encoderPins i).steps levels (passes.flatMap LinePass.all ++ p.upTo i)) := by
  have hwhole : ReadsWhole i (passes ++ [p]) := by
    intro q hq hr
    rcases List.mem_append.mp hq with hq | hq
    · exact hread q hq hr
    · rw [List.mem_singleton.mp hq]
      exact hp
  have hodometry := odometryCounts_eq (E := E) (tracks_start hs) hshort
  have hall := samples_complete hwhole ⟨levels, t.unit⟩ (fun _ => []) []
  rw [List.filter_eq_self.mpr hall] at hodometry
  -- the run ends with a complete sample, so every step of the counter has been read
  obtain ⟨before, last, hrun, hanswers⟩ :=
    countedRun_concat ⟨levels, t.unit⟩ (fun _ => []) passes p
  have hlast : last.complete = true := decide_eq_true (by rw [hanswers]; exact hp)
  have hmovement := movement_upTo i (before ++ [last])
  rw [upToComplete_concat_of_complete hlast, ← hrun, movement_counted] at hmovement
  rw [(counted_start ht d levels).lineDeltas]
  exact hodometry.trans (hmovement.symm.trans (zero_add _))

end

/-- What the phase of a wheel has moved by its turn in a pass, in the vendor's sense. -/
def displacementAt (levels : ℕ → Bool) (passes : List LinePass) (p : LinePass) (i : Wheel) : ℤ :=
  vendorSign i * net ((vendorPins i).steps levels (passes.flatMap LinePass.all ++ p.upTo i))

def LinePass.complete (p : LinePass) : Bool := decide (∀ i, p.answers i = true)

/-- What it has moved by its turn in the latest complete pass. -/
def displacement (levels : ℕ → Bool) (passes : List LinePass) (i : Wheel) : ℤ :=
  match (passes.rdropWhile fun p => !p.complete).reverse with
  | [] => 0
  | p :: older => displacementAt levels older.reverse p i

theorem displacement_of_complete (levels : ℕ → Bool) (passes : List LinePass) {p : LinePass}
    (hp : p.complete = true) (i : Wheel) :
    displacement levels (passes ++ [p]) i = displacementAt levels passes p i := by
  unfold displacement
  rw [List.rdropWhile_concat_neg _ _ _ (by simp [hp]), List.reverse_append]
  show displacementAt levels passes.reverse.reverse p i = _
  rw [List.reverse_reverse]

theorem displacement_of_incomplete (levels : ℕ → Bool) (passes : List LinePass) {p : LinePass}
    (hp : p.complete = false) (i : Wheel) :
    displacement levels (passes ++ [p]) i = displacement levels passes i := by
  unfold displacement
  rw [List.rdropWhile_concat_pos _ _ _ (by simp [hp])]

theorem displacement_of_latest (levels : ℕ → Bool) (older newer : List LinePass) {p : LinePass}
    (hp : p.complete = true) (hnewer : ∀ q ∈ newer, q.complete = false) (i : Wheel) :
    displacement levels (older ++ p :: newer) i = displacementAt levels older p i := by
  induction newer using List.reverseRecOn with
  | nil => exact displacement_of_complete levels older hp i
  | append_singleton newer q ih =>
    have hq : q.complete = false := hnewer q (List.mem_append_right _ List.mem_cons_self)
    have hrest := ih fun x hx => hnewer x (List.mem_append_left _ hx)
    rw [← List.cons_append, ← List.append_assoc, displacement_of_incomplete levels _ hq, hrest]

section
variable {E : Env} {inp : StartInputs} {d : Diag} {ω : Type} {o : PcntDriver ω} {s t : Units ω}
  {levels : ℕ → Bool} {passes : List LinePass} {i : Wheel}

/-- Fewer than 15000 changes of a wheel lie between two of its reads, and the passes that read it
read them all. -/
structure WellRead (unit : Wheels PcntUnit) (levels : ℕ → Bool) (passes : List LinePass)
    (i : Wheel) : Prop where
  whole : ReadsWhole i passes
  short : ∀ x ∈ samples i [] (countedRun ⟨levels, unit⟩ (fun _ => []) passes),
    x.edges.length < 15000

theorem countedRun_append (s : Electrics) (late : Wheels (List Edge))
    (passes next : List LinePass) :
    ∃ rest, countedRun s late (passes ++ next) = countedRun s late passes ++ rest := by
  induction passes generalizing s late with
  | nil => exact ⟨_, rfl⟩
  | cons p passes ih =>
    obtain ⟨rest, hrest⟩ := ih (s.run p.all) (p.late s)
    exact ⟨rest, by rw [List.cons_append, countedRun, hrest]; rfl⟩

theorem WellRead.start {unit : Wheels PcntUnit} {next : List LinePass}
    (h : WellRead unit levels (passes ++ next) i) : WellRead unit levels passes i := by
  obtain ⟨rest, hrest⟩ := countedRun_append ⟨levels, unit⟩ (fun _ => []) passes next
  refine ⟨fun p hp => h.whole p (List.mem_append_left _ hp), fun x hx => h.short x ?_⟩
  rw [hrest, samples_append]
  exact List.mem_append_left _ hx

theorem lineDeltas_append (E : Env) (r : Rig) (passes next : List LinePass) :
    lineDeltas E r (passes ++ next) =
      lineDeltas E r passes ++ lineDeltas E (passes.foldl (Rig.pass E) r) next := by
  induction passes generalizing r with
  | nil => rfl
  | cons p passes ih =>
    rw [List.cons_append, lineDeltas, ih, lineDeltas, List.foldl_cons, List.append_assoc]

theorem lineDeltas_of_incomplete (E : Env) (r : Rig) {p : LinePass} (hp : p.complete = false) :
    lineDeltas E r [p] = [] := by
  have hnone : ∃ i, (p.iteration r.electrics).counts i = none := by
    obtain ⟨i, hi⟩ := not_forall.mp (of_decide_eq_false hp)
    exact ⟨i, if_neg hi⟩
  have hfailed := (encoderRead_fst (beforeSample E r.diag (p.iteration r.electrics))
    (p.iteration r.electrics).counts).mpr hnone
  have hdelta : passedDelta E r.diag (p.iteration r.electrics) = none := by
    unfold passedDelta
    dsimp only
    rw [hfailed]
    rfl
  rw [lineDeltas, lineDeltas, hdelta]
  rfl

theorem lineDeltas_displacement (hs : robotChassisDiagStart E inp = .ok d)
    (ht : initEncoders o s = .ok () t) (hread : WellRead t.unit levels passes i) :
    ((lineDeltas E ⟨d, ⟨levels, t.unit⟩⟩ passes).map fun delta => (delta i).toInt).sum =
      displacement levels passes i := by
  induction passes using List.reverseRecOn with
  | nil => rfl
  | append_singleton passes p ih =>
    cases hp : p.complete with
    | true =>
      have hall : ∀ j, p.answers j = true := of_decide_eq_true hp
      rw [displacement_of_complete levels passes hp]
      exact (lineDeltas_sum hs ht levels hall hread.start.whole hread.short).trans
        (net_vendor_steps levels _ i)
    | false =>
      rw [displacement_of_incomplete levels passes hp, lineDeltas_append,
        lineDeltas_of_incomplete E _ hp, List.append_nil]
      exact ih hread.start

end

/-- Each pass updates the odometry with the deltas that it passes on and with nothing else. From the
start on these add up to the displacement of each phase at its turn in the latest complete pass,
however the changes of the pins fall between the reads, and moving by so much leads from the levels
at the start to those at that turn; as long as the passes that read the wheel read every wheel and
fewer than 15000 of its changes lie between two of them. -/
theorem lines_to_odometry {E : Env} {inp : StartInputs} {d : Diag}
    (hs : robotChassisDiagStart E inp = .ok d) {ω : Type} {o : PcntDriver ω} {s t : Units ω}
    (ht : initEncoders o s = .ok () t) {levels : ℕ → Bool} {passes : List LinePass} {i : Wheel}
    (hread : WellRead t.unit levels passes i) :
    (∀ older p newer, passes = older ++ p :: newer →
      UpdatesOdometry E (older.foldl (Rig.pass E) ⟨d, ⟨levels, t.unit⟩⟩).diag
        (p.iteration (older.foldl (Rig.pass E) ⟨d, ⟨levels, t.unit⟩⟩).electrics)) ∧
    ((lineDeltas E ⟨d, ⟨levels, t.unit⟩⟩ passes).map fun delta => (delta i).toInt).sum =
      displacement levels passes i ∧
    ∀ older p newer, passes = older ++ p :: newer → p.complete = true →
      (∀ q ∈ newer, q.complete = false) → ∀ phase, lines phase = (encoderPins i).lines levels →
        lines (phase + displacement levels passes i) = (encoderPins i).lines
          (Electrics.run ⟨levels, t.unit⟩ (older.flatMap LinePass.all ++ p.upTo i)).levels := by
  refine ⟨fun older p _ _ => updatesOdometry E _ _, lineDeltas_displacement hs ht hread, ?_⟩
  intro older p newer hsplit hp hnewer phase hphase
  have hnet := lines_decode phase ((encoderPins i).toggles
    (older.flatMap LinePass.all ++ p.upTo i))
  rw [hphase] at hnet
  rw [hsplit, displacement_of_latest levels older newer hp hnewer]
  unfold displacementAt
  rw [← net_vendor_steps]
  exact hnet.trans (lines_run ⟨levels, t.unit⟩ _ i).symm

def turningPass (gpios : List ℕ) (answers : Wheels Bool) : LinePass :=
  ⟨10000, [], [], fun i => if i.val = 0 then gpios else [], answers⟩

/-- Three steps forwards, the third before a pass in which no read answers, then one to and fro and
one that nothing reads. -/
def turningPasses : List LinePass :=
  [turningPass [6, 7] fun _ => true, turningPass [6] fun _ => false,
    turningPass [7, 7] fun _ => true, turningPass [6] fun _ => false]

theorem lines_to_odometry_turning : ∃ t, initEncoders acceptingDriver (.none ()) = .ok () t ∧
    ((lineDeltas .rational ⟨readyDiag, ⟨fun _ => false, t.unit⟩⟩ turningPasses).map
      fun delta => (delta 0).toInt).sum = 3 ∧
    UpdatesOdometry .rational readyDiag ((turningPass [6, 7] fun _ => true).iteration
      ⟨fun _ => false, t.unit⟩) := by
  obtain ⟨t, ht⟩ := initEncoders_accepted acceptingDriver_accepts (.none ())
  have hread : WellRead t.unit (fun _ => false) turningPasses 0 := by
    rw [initEncoders_units ht]
    exact ⟨by decide, by decide +kernel⟩
  obtain ⟨hupdates, hcounts, _⟩ := lines_to_odometry (E := .rational) readyDiag_start ht hread
  have hmoved : displacement (fun _ => false) turningPasses 0 = 3 := by decide +kernel
  exact ⟨t, ht, hcounts.trans hmoved, hupdates [] _ _ rfl⟩

end RobotFirmware.Chassis
