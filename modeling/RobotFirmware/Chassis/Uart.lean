import RobotFirmware.Library.Framing
import RobotFirmware.Chassis.Control

/-! The command lines that the control loop cuts out of the bytes it receives. -/
namespace RobotFirmware.Chassis
open Fp Framing

def isTerminator (ch : Char) : Bool := ch = '\r' || ch = '\n'

/-- `char line[64]` -/
def uartFramer : Framer Char := ⟨isTerminator, 64, by decide⟩

/-- The line that an action hands to `process_command`. -/
def processedLine (d : Diag) : Action → Option (List Char)
  | .char ch _ => uartFramer.emit d.uartLine.chars ch
  | _ => none

theorem isTerminator_iff {ch : Char} : isTerminator ch = true ↔ ch = '\r' ∨ ch = '\n' := by
  simp [isTerminator]

/-- A byte completes a line, overflows the buffer, or is stored. -/
theorem pollUartChar_cases (E : Env) (d : Diag) (ch : Char) (r : Readings) (nowMs : UInt32) :
    (∃ line, processedLine d (.char ch r) = some line ∧ pollUartChar E d ch r nowMs =
      { processCommand E d r line nowMs with uartLine := .empty }) ∨
    (processedLine d (.char ch r) = none ∧ Overflows d ch ∧
      pollUartChar E d ch r nowMs = { rejectInput d with uartLine := .empty }) ∨
    (processedLine d (.char ch r) = none ∧ ¬ Overflows d ch ∧
      ∃ line, pollUartChar E d ch r nowMs = { d with uartLine := line }) := by
  unfold pollUartChar
  by_cases hend : ch = '\r' ∨ ch = '\n'
  · have hterminator := isTerminator_iff.mpr hend
    have hroom : ¬ Overflows d ch := fun h => h.1 hend
    rw [if_pos hend]
    by_cases hused : 0 < d.uartLine.chars.length
    · have hline : processedLine d (.char ch r) = some d.uartLine.chars :=
        if_pos ⟨hterminator, hused⟩
      rw [if_pos hused]
      exact .inl ⟨_, hline, rfl⟩
    · have hnone : processedLine d (.char ch r) = none := if_neg fun h => hused h.2
      rw [if_neg hused]
      exact .inr (.inr ⟨hnone, hroom, d.uartLine, rfl⟩)
  · have hnone : processedLine d (.char ch r) = none :=
      if_neg fun h => hend (isTerminator_iff.mp h.1)
    rw [if_neg hend]
    by_cases hroom : d.uartLine.chars.length + 1 < 64
    · rw [dif_pos hroom]
      exact .inr (.inr ⟨hnone, fun h => h.2 hroom, _, rfl⟩)
    · rw [dif_neg hroom]
      exact .inr (.inl ⟨hnone, ⟨hend, hroom⟩, rfl⟩)

theorem pollUartChar_uartLine (E : Env) (d : Diag) (ch : Char) (r : Readings) (nowMs : UInt32) :
    (pollUartChar E d ch r nowMs).uartLine.chars = uartFramer.push d.uartLine.chars ch := by
  unfold pollUartChar
  by_cases hend : ch = '\r' ∨ ch = '\n'
  · rw [if_pos hend, Framer.push_end _ _ (isTerminator_iff.mpr hend)]
    by_cases hused : 0 < d.uartLine.chars.length
    · rw [if_pos hused]
      rfl
    · rw [if_neg hused]
      exact List.length_eq_zero_iff.mp (by omega)
  · have hpush : uartFramer.push d.uartLine.chars ch =
        if d.uartLine.chars.length + 1 < 64 then d.uartLine.chars ++ [ch] else [] :=
      if_neg fun h => hend (isTerminator_iff.mp h)
    rw [if_neg hend, hpush]
    by_cases hroom : d.uartLine.chars.length + 1 < 64
    · rw [dif_pos hroom, if_pos hroom]
    · rw [dif_neg hroom, if_neg hroom]
      rfl

def Action.byte : Action → Option Char
  | .char ch _ => some ch
  | _ => none

def received (actions : List Action) : List Char := actions.filterMap Action.byte

def processedLines (E : Env) : Diag → List Action → List (List Char)
  | _, [] => []
  | d, a :: actions => (processedLine d a).toList ++ processedLines E (act E d a) actions

theorem act_uartLine (E : Env) (d : Diag) (a : Action) :
    (act E d a).uartLine.chars = a.byte.toList.foldl uartFramer.push d.uartLine.chars := by
  cases a with
  | wake nowUs => rfl
  | char ch r => exact pollUartChar_uartLine E d ch r d.nowMs
  | event event r =>
    change (handleRemoteEvent E d event r d.nowMs).uartLine.chars = d.uartLine.chars
    rw [(handleRemoteEvent_kept E d event r d.nowMs).uartLine]
  | sample counts =>
    change (sampleEncoders E d counts).uartLine.chars = d.uartLine.chars
    unfold sampleEncoders stepSample
    dsimp only
    split_ifs <;> rfl

theorem received_cons (a : Action) (actions : List Action) :
    received (a :: actions) = a.byte.toList ++ received actions := by
  unfold received
  cases ha : a.byte <;> simp [ha]

theorem run_uartLine (E : Env) (d : Diag) (actions : List Action) :
    (actions.foldl (act E) d).uartLine.chars =
      (received actions).foldl uartFramer.push d.uartLine.chars := by
  induction actions generalizing d with
  | nil => rfl
  | cons a actions ih =>
    rw [List.foldl_cons, ih, act_uartLine, received_cons, List.foldl_append]

theorem processedLines_eq (E : Env) (d : Diag) (actions : List Action) :
    processedLines E d actions = uartFramer.lines d.uartLine.chars (received actions) := by
  induction actions generalizing d with
  | nil => rfl
  | cons a actions ih =>
    rw [processedLines, ih, act_uartLine, received_cons]
    cases a with
    | char ch r => rfl
    | wake nowUs => rfl
    | event event r => rfl
    | sample counts => rfl

/-- The bytes of a run of the loop, however its reads divide them. -/
def byteStream (its : List Iteration) : List Char := its.flatMap fun it => it.data.map Prod.fst

theorem received_iterations (its : List Iteration) :
    received (its.flatMap Iteration.actions) = byteStream its := by
  have hone : ∀ it : Iteration, received it.actions = it.data.map Prod.fst := by
    intro it
    have hdata : (it.data.map fun x => Action.char x.1 x.2).filterMap Action.byte =
        it.data.map Prod.fst := by
      rw [List.filterMap_map]
      exact congrFun List.filterMap_eq_map' it.data
    have hevents : (it.events.map fun x => Action.event x.1 x.2).filterMap Action.byte = [] := by
      rw [List.filterMap_map, List.filterMap_eq_nil_iff]
      exact fun _ _ => rfl
    unfold received Iteration.actions
    rw [List.filterMap_append, List.filterMap_append, List.filterMap_cons, hdata, hevents]
    simp [Action.byte]
  induction its with
  | nil => rfl
  | cons it its ih =>
    unfold byteStream at ih ⊢
    rw [List.flatMap_cons, List.flatMap_cons, ← ih, ← hone]
    exact List.filterMap_append

/-- What one byte does: it hands the line it completes to `process_command`, or overflows the
buffer, or changes nothing but the buffer. -/
structure HandlesByte (E : Env) (d : Diag) (ch : Char) (r : Readings) : Prop where
  completes : ∀ line, processedLine d (.char ch r) = some line →
    act E d (.char ch r) = { processCommand E d r line d.nowMs with uartLine := .empty }
  overflows : processedLine d (.char ch r) = none → Overflows d ch →
    act E d (.char ch r) = { rejectInput d with uartLine := .empty }
  stores : processedLine d (.char ch r) = none → ¬ Overflows d ch →
    ∃ line, act E d (.char ch r) = { d with uartLine := line }

theorem handlesByte (E : Env) (d : Diag) (ch : Char) (r : Readings) : HandlesByte E d ch r := by
  rcases pollUartChar_cases E d ch r d.nowMs with ⟨line, hline, hd⟩ | ⟨hnone, hover, hd⟩ |
    ⟨hnone, hroom, line, hd⟩
  · refine ⟨fun line' hline' => ?_, fun hnone => ?_, fun hnone => ?_⟩
    · rw [hline] at hline'
      cases hline'
      exact hd
    · rw [hline] at hnone
      cases hnone
    · rw [hline] at hnone
      cases hnone
  · refine ⟨fun line hline => ?_, fun _ _ => hd, fun _ hroom => absurd hover hroom⟩
    rw [hnone] at hline
    cases hline
  · refine ⟨fun line hline => ?_, fun _ hover => absurd hover hroom, fun _ _ => ⟨line, hd⟩⟩
    rw [hnone] at hline
    cases hline

/-- What the line reader owes the bytes it receives. -/
structure Framed (E : Env) (d : Diag) (its : List Iteration) : Prop where
  /-- The lines are those that the task processes, and no other byte makes it process one. -/
  handled : ∀ older ch r newer, its.flatMap Iteration.actions = older ++ .char ch r :: newer →
    HandlesByte E (older.foldl (act E) d) ch r
  /-- Each terminated segment of 1 to 63 bytes is processed once, in order, and nothing else. -/
  lines : processedLines E d (its.flatMap Iteration.actions) =
    uartFramer.fitting (uartFramer.terminated (byteStream its))
  /-- The 64th byte of a segment latches the fault. -/
  latched : ∀ older ch r newer,
    its.flatMap Iteration.actions = older ++ .char ch r :: newer → isTerminator ch = false →
    (uartFramer.openSegment (received older)).length = 63 →
    (act E (older.foldl (act E) d) (.char ch r)).core.state = .faultLatched ∧
      (act E (older.foldl (act E) d) (.char ch r)).core.stopReason = .invalidTarget
  /-- The index stays within `line[64]`. -/
  inBounds : ∀ older newer, its.flatMap Iteration.actions = older ++ newer →
    (older.foldl (act E) d).uartLine.chars.length ≤ 63

theorem start_uartLine {E : Env} {inp : StartInputs} {d : Diag}
    (hs : robotChassisDiagStart E inp = .ok d) : d.uartLine.chars = [] := by
  obtain ⟨core, _, rfl⟩ := start_eq hs
  rfl

theorem act_overflow {E : Env} {d : Diag} {ch : Char} {r : Readings} (ho : Overflows d ch) :
    (act E d (.char ch r)).core.state = .faultLatched ∧
      (act E d (.char ch r)).core.stopReason = .invalidTarget := by
  have hcore : (act E d (.char ch r)).core = robotChassisCoreStop d.core .invalidTarget := by
    rcases pollUartChar_cases E d ch r d.nowMs with ⟨line, hline, _⟩ | ⟨_, _, hd⟩ | ⟨_, hroom, _⟩
    · have hnone : processedLine d (.char ch r) = none :=
        if_neg fun h => ho.1 (isTerminator_iff.mp h.1)
      rw [hline] at hnone
      cases hnone
    · rw [act, hd]
      rfl
    · exact absurd ho hroom
  rw [hcore]
  exact ⟨rfl, rfl⟩

/-- Framing is right exactly when no segment that overflows leaves a tail. -/
theorem framed_iff {E : Env} {inp : StartInputs} {d : Diag}
    (hs : robotChassisDiagStart E inp = .ok d) (its : List Iteration) :
    Framed E d its ↔
      ∀ segment ∈ uartFramer.terminated (byteStream its),
        64 ≤ segment.length → 64 ∣ segment.length := by
  have hempty := start_uartLine hs
  have hlines : processedLines E d (its.flatMap Iteration.actions) =
      uartFramer.lines [] (byteStream its) := by
    rw [processedLines_eq, hempty, received_iterations]
  have hiff := uartFramer.lines_eq_fitting_iff (byteStream its)
  constructor
  · intro hframed
    exact hiff.mp (hlines.symm.trans hframed.lines)
  · intro hsegments
    constructor
    · exact fun older ch r _ _ => handlesByte E _ ch r
    · exact hlines.trans (hiff.mpr hsegments)
    · intro older ch r newer _ hend hlength
      have hbuffer := run_uartLine E d older
      rw [hempty, Framer.buffer_eq, uartFramer.residue_of_lt (by rw [hlength]; decide)] at hbuffer
      apply act_overflow
      constructor
      · intro h
        rw [isTerminator_iff.mpr h] at hend
        cases hend
      · rw [hbuffer, hlength]
        omega
    · intro older newer _
      exact (older.foldl (act E) d).uartLine.fits

def uartIteration (chars : List Char) : Iteration :=
  ⟨10000, chars.map fun ch => (ch, ⟨⟨none, none⟩, 0⟩), [], fun _ => some 0⟩

/-- A line that arrives in two reads, and one ended twice. -/
theorem framed_iff_zero :
    Framed .rational readyDiag
      [uartIteration ['Z', 'E'], uartIteration ['R', 'O', '\r', '\n', 'A', 'R', 'M', '\n']] :=
  (framed_iff readyDiag_start _).mpr (by decide)

/-- 64 bytes too many and then a command: its text is the tail of a segment of 68 bytes. -/
def overlongReads : List Iteration :=
  [uartIteration (List.replicate 32 'X'), uartIteration (List.replicate 32 'X'),
    uartIteration ['Z', 'E', 'R', 'O', '\n']]

/-- The tail is processed as if it were a line of its own: the core confirms a zero. -/
theorem tail_processed :
    processedLines .rational readyDiag (overlongReads.flatMap Iteration.actions) =
      [['Z', 'E', 'R', 'O']] ∧
    ((overlongReads.flatMap Iteration.actions).foldl (act .rational) readyDiag).core.zeroSeen =
      true ∧
    ¬ Framed .rational readyDiag overlongReads := by
  have htail : processedLines .rational readyDiag (overlongReads.flatMap Iteration.actions) =
      [['Z', 'E', 'R', 'O']] := by
    rw [processedLines_eq, received_iterations]
    decide +kernel
  have hnone : uartFramer.fitting (uartFramer.terminated (byteStream overlongReads)) = [] := by
    decide +kernel
  refine ⟨htail, by decide +kernel, fun hframed => ?_⟩
  have hlines := hframed.lines
  rw [htail, hnone] at hlines
  cases hlines

end RobotFirmware.Chassis
