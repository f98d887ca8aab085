import RobotFirmware.Chassis.Diag
import RobotFirmware.Library.Numeral

/-! The command lines with numbers: the spellings that `process_command` accepts. -/
namespace RobotFirmware.Chassis
open Fp Scanf

/-- What `process_command` skips before a command. -/
def Blanks (s : List Char) : Prop := ∀ c ∈ s, c = ' ' ∨ c = '\t'

/-- A spelling of `RUN wheel target`: spaces only have to separate the second number from the
digits of the first, so that its sign will do. -/
structure RunLine where
  blanks : List Char
  before : List Char
  wheel : Numeral
  between : List Char
  target : Numeral
  after : List Char
  isBlank : Blanks blanks
  isSpace : Spaces before ∧ Spaces between ∧ Spaces after
  separated : between ≠ [] ∨ target.sign ≠ none

def RunLine.text (l : RunLine) : List Char :=
  l.blanks ++ (['R', 'U', 'N'] ++ (l.before ++ (l.wheel.text ++ (l.between ++
    (l.target.text ++ l.after)))))

structure PauseLine where
  blanks : List Char
  before : List Char
  duration : Numeral
  after : List Char
  isBlank : Blanks blanks
  isSpace : Spaces before ∧ Spaces after

def PauseLine.text (l : PauseLine) : List Char :=
  l.blanks ++ (['I', 'M', 'U', 'P', 'A', 'U', 'S', 'E'] ++ (l.before ++
    (l.duration.text ++ l.after)))

/-- The line that `process_command` compares, without its leading blanks. -/
def commandText (chars : List Char) : List Char :=
  (chars.takeWhile (· ≠ '\x00')).dropWhile fun c => c = ' ' || c = '\t'

theorem commandText_eq_iff {chars : List Char} {c : Char} {rest : List Char}
    (hc : ¬ (c = ' ' ∨ c = '\t')) : commandText chars = c :: rest ↔
      ∃ blanks, chars.takeWhile (· ≠ '\x00') = blanks ++ c :: rest ∧ Blanks blanks := by
  unfold commandText
  rw [dropWhile_eq_iff]
  constructor
  · rintro ⟨front, hline, hfront, _⟩
    exact ⟨front, hline, fun x hx => by simpa using hfront x hx⟩
  · rintro ⟨blanks, hline, hblanks⟩
    refine ⟨blanks, hline, fun x hx => by simpa using hblanks x hx, ?_⟩
    intro x hx
    cases hx
    simpa using hc

theorem sscanf_literal_ne {F : Format} {ds : List Directive} {c c' : Char} {rest : List Char}
    (h : c ≠ c') : sscanf F (.literal c :: ds) (c' :: rest) = [] := by
  rw [sscanf]
  exact if_neg h

theorem parseCommand_run {F : Format} {chars : List Char} {wheel target : Int32} :
    parseCommand F chars = .run wheel target ↔
      sscanf F runFormat (commandText chars) = [.int wheel, .int target] ∧
        0 ≤ wheel ∧ wheel ≤ 4 := by
  unfold parseCommand commandText
  dsimp only
  generalize (chars.takeWhile (· ≠ '\x00')).dropWhile (fun c => c = ' ' || c = '\t') = line
  constructor
  · intro h
    split_ifs at h
    split at h
    · cases h
    · split at h
      · cases h
      · split at h
        · rename_i hrun
          split_ifs at h with hrange
          cases h
          exact ⟨hrun, hrange⟩
        · cases h
  · rintro ⟨hrun, hrange⟩
    obtain ⟨rest, rfl, _⟩ := (sscanf_literals (by simp)).mp hrun
    have hpause : sscanf F imuPauseFormat (['R', 'U', 'N'] ++ rest) = [] :=
      sscanf_literal_ne (by decide)
    have hgain : sscanf F gainFormat (['R', 'U', 'N'] ++ rest) = [] :=
      sscanf_literal_ne (by decide)
    rw [hpause, hgain, hrun]
    simp [hrange]

theorem parseCommand_imuPause {F : Format} {chars : List Char} {durationMs : UInt32} :
    parseCommand F chars = .imuPause durationMs ↔
      sscanf F imuPauseFormat (commandText chars) = [.uint durationMs] := by
  unfold parseCommand commandText
  dsimp only
  generalize (chars.takeWhile (· ≠ '\x00')).dropWhile (fun c => c = ' ' || c = '\t') = line
  constructor
  · intro h
    split_ifs at h
    split at h
    · rename_i hpause
      cases h
      exact hpause
    · split at h
      · cases h
      · split at h
        · split_ifs at h
        · cases h
  · intro hpause
    obtain ⟨rest, rfl, _⟩ := (sscanf_literals (by simp)).mp hpause
    rw [hpause]
    simp

/-- A line is taken for a RUN command, or for a pause, exactly if it is a spelling of one, with
the numbers that it spells out: clamped to `int` for RUN, whose wheel then has to exist; modulo
`2 ^ 32` for the pause unless the digits alone are too large. -/
theorem command_spellings (F : Format) (chars : List Char) :
    (∀ wheel target, parseCommand F chars = .run wheel target ↔
      ∃ l : RunLine, chars.takeWhile (· ≠ '\x00') = l.text ∧ wheel = l.wheel.int32 ∧
        target = l.target.int32 ∧ 0 ≤ wheel ∧ wheel ≤ 4) ∧
    ∀ durationMs, parseCommand F chars = .imuPause durationMs ↔
      ∃ l : PauseLine, chars.takeWhile (· ≠ '\x00') = l.text ∧
        durationMs = l.duration.uint32 := by
  constructor
  · intro wheel target
    rw [parseCommand_run]
    unfold runFormat
    rw [sscanf_literals (by simp)]
    constructor
    · rintro ⟨⟨rest, htext, hscan⟩, hrange⟩
      obtain ⟨before, w, rest', rfl, hbefore, hstop, hw, hscan'⟩ := sscanf_int.mp hscan
      obtain ⟨between, t, after, rfl, hbetween, _, ht, hend⟩ := sscanf_int.mp hscan'
      obtain ⟨blanks, hline, hblanks⟩ := (commandText_eq_iff (by decide)).mp htext
      have hseparated := (stopsDigits_numeral hbetween t).mp hstop
      exact ⟨⟨blanks, before, w, between, t, after, hblanks,
        ⟨hbefore, hbetween, sscanf_end.mp hend⟩, hseparated⟩, hline, hw, ht, hrange⟩
    · rintro ⟨l, hline, hw, ht, hrange⟩
      obtain ⟨hbefore, hbetween, hafter⟩ := l.isSpace
      have htext := (commandText_eq_iff (by decide)).mpr ⟨l.blanks, hline, l.isBlank⟩
      have hstop : StopsDigits (l.between ++ (l.target.text ++ l.after)) :=
        (stopsDigits_numeral hbetween l.target).mpr l.separated
      have htarget : sscanf F [.space, .int, .space, .char]
          (l.between ++ (l.target.text ++ l.after)) = [.int target] :=
        sscanf_int.mpr ⟨l.between, l.target, l.after, rfl, hbetween, hafter.stopsDigits, ht,
          sscanf_end.mpr hafter⟩
      have hwheel := sscanf_int.mpr ⟨l.before, l.wheel, _, rfl, hbefore, hstop, hw, htarget⟩
      exact ⟨⟨_, htext, hwheel⟩, hrange⟩
  · intro durationMs
    rw [parseCommand_imuPause]
    unfold imuPauseFormat
    rw [sscanf_literals (by simp)]
    constructor
    · rintro ⟨rest, htext, hscan⟩
      obtain ⟨before, w, after, rfl, hbefore, _, hw, hend⟩ := sscanf_uint.mp hscan
      obtain ⟨blanks, hline, hblanks⟩ := (commandText_eq_iff (by decide)).mp htext
      exact ⟨⟨blanks, before, w, after, hblanks, hbefore, sscanf_end.mp hend⟩, hline, hw⟩
    · rintro ⟨l, hline, hd⟩
      have htext := (commandText_eq_iff (by decide)).mpr ⟨l.blanks, hline, l.isBlank⟩
      exact ⟨_, htext, sscanf_uint.mpr ⟨l.before, l.duration, l.after, rfl, l.isSpace.1,
        l.isSpace.2.stopsDigits, hd, sscanf_end.mpr l.isSpace.2⟩⟩

end RobotFirmware.Chassis
