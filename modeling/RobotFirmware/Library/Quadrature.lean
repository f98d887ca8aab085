import RobotFirmware.Library.WrapCounter

/-! Two lines in quadrature: the Gray code of a phase, and the phase that follows from the
toggles of single lines. -/
namespace Quadrature
open WrapCounter

structure Lines where
  a : Bool
  b : Bool
  deriving DecidableEq

inductive Line
  | a
  | b
  deriving DecidableEq

def Lines.toggle (l : Lines) : Line → Lines
  | .a => { l with a := !l.a }
  | .b => { l with b := !l.b }

/-- The lines at a phase, the first one ahead by a quarter of the period. -/
def lines (phase : ℤ) : Lines :=
  ⟨decide (phase % 4 = 1 ∨ phase % 4 = 2), decide (phase % 4 = 2 ∨ phase % 4 = 3)⟩

/-- The direction in which a toggle moves the phase. -/
def Lines.turn (l : Lines) : Line → Edge
  | .a => if l.a = l.b then .up else .down
  | .b => if l.a = l.b then .down else .up

theorem mod_four_cases (n : ℤ) : n % 4 = 0 ∨ n % 4 = 1 ∨ n % 4 = 2 ∨ n % 4 = 3 := by
  omega

/-- Every toggle of a single line is a step of the phase. -/
theorem lines_turn (n : ℤ) (x : Line) :
    lines (n + ((lines n).turn x).sign) = (lines n).toggle x := by
  have hup : (n + 1) % 4 = (n % 4 + 1) % 4 := by omega
  have hdown : (n + -1) % 4 = (n % 4 + 3) % 4 := by omega
  rcases mod_four_cases n with h | h | h | h <;> cases x <;>
    simp [lines, Lines.turn, Lines.toggle, Edge.sign, hup, hdown, h]

/-- Lines agree at phases that differ by whole periods, and only there. -/
theorem lines_eq_iff (m n : ℤ) : lines m = lines n ↔ m % 4 = n % 4 := by
  rcases mod_four_cases m with hm | hm | hm | hm <;>
    rcases mod_four_cases n with hn | hn | hn | hn <;>
    simp [lines, hm, hn]

/-- The steps of the phase over a run of toggles. -/
def decode (l : Lines) : List Line → List Edge
  | [] => []
  | x :: toggles => l.turn x :: decode (l.toggle x) toggles

def after (l : Lines) (toggles : List Line) : Lines := toggles.foldl Lines.toggle l

@[simp] theorem decode_nil (l : Lines) : decode l [] = [] := rfl

theorem decode_append (l : Lines) (toggles next : List Line) :
    decode l (toggles ++ next) = decode l toggles ++ decode (after l toggles) next := by
  induction toggles generalizing l with
  | nil => rfl
  | cons x toggles ih =>
    rw [List.cons_append, decode, decode, List.cons_append, ih]
    rfl

theorem after_append (l : Lines) (toggles next : List Line) :
    after l (toggles ++ next) = after (after l toggles) next := by
  unfold after
  rw [List.foldl_append]

/-- The lines show the phase that the toggles have led to. -/
theorem lines_decode (n : ℤ) (toggles : List Line) :
    lines (n + net (decode (lines n) toggles)) = after (lines n) toggles := by
  induction toggles generalizing n with
  | nil => simp [after]
  | cons x toggles ih =>
    have hnet : net (decode (lines n) (x :: toggles)) =
        ((lines n).turn x).sign + net (decode ((lines n).toggle x) toggles) := by
      rw [decode, net, List.map_cons, List.sum_cons]
      rfl
    have hrest := ih (n + ((lines n).turn x).sign)
    rw [lines_turn] at hrest
    rw [hnet, ← add_assoc, hrest]
    rfl

def Lines.swap (l : Lines) : Lines := ⟨l.b, l.a⟩

def Line.swap : Line → Line
  | .a => .b
  | .b => .a

theorem toggle_swap (l : Lines) (x : Line) : l.swap.toggle x.swap = (l.toggle x).swap := by
  cases x with
  | a => rfl
  | b => rfl

theorem turn_swap (l : Lines) (x : Line) :
    (l.swap.turn x.swap).sign = -(l.turn x).sign := by
  have hcomm : (l.b = l.a) = (l.a = l.b) := propext eq_comm
  cases x with
  | a =>
    simp only [Lines.turn, Lines.swap, Line.swap, hcomm]
    split_ifs
    · rfl
    · rfl
  | b =>
    simp only [Lines.turn, Lines.swap, Line.swap, hcomm]
    split_ifs
    · rfl
    · rfl

/-- The phase behind exchanged lines runs backwards. -/
theorem net_decode_swap (l : Lines) (toggles : List Line) :
    net (decode l.swap (toggles.map Line.swap)) = -net (decode l toggles) := by
  induction toggles generalizing l with
  | nil => rfl
  | cons x toggles ih =>
    have hstep := turn_swap l x
    have hrest := ih (l.toggle x)
    rw [← toggle_swap] at hrest
    simp only [net, List.map_cons, decode, List.sum_cons] at hrest ⊢
    rw [hstep, hrest]
    ring

end Quadrature
