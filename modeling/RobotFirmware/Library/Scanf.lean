import RobotFirmware.Library.Float
import Mathlib.Algebra.Field.Rat

/-! `sscanf` over directives. A conversion takes the longest prefix of the input that begins
a matching sequence and fails when that prefix is not itself one. -/
namespace Scanf
open Fp

inductive Directive
  | space
  | literal (c : Char)
  | int
  | uint
  | float
  | char
  deriving DecidableEq

inductive Value
  | int (n : Int32)
  | uint (n : UInt32)
  | float (x : Datum)
  | char (c : Char)
  deriving DecidableEq

/-- `isspace` in the C locale. -/
def isSpace (c : Char) : Bool :=
  c = ' ' || c = '\t' || c = '\n' || c = '\r' || c.toNat = 11 || c.toNat = 12

def isDigit (c : Char) : Bool := '0' ≤ c && c ≤ '9'

def digitValue? (base : ℕ) (c : Char) : Option ℕ :=
  let v :=
    if isDigit c then c.toNat - '0'.toNat
    else if 'a' ≤ c && c ≤ 'f' then c.toNat - 'a'.toNat + 10
    else if 'A' ≤ c && c ≤ 'F' then c.toNat - 'A'.toNat + 10
    else base
  if v < base then some v else none

/-- Longest run of digits: their value, their number and the rest of the input. -/
def scanDigits (base : ℕ) : List Char → ℕ → ℕ → ℕ × ℕ × List Char
  | [], acc, len => (acc, len, [])
  | c :: s, acc, len =>
    match digitValue? base c with
    | some v => scanDigits base s (base * acc + v) (len + 1)
    | none => (acc, len, c :: s)

def scanSign : List Char → Bool × List Char
  | '-' :: s => (true, s)
  | '+' :: s => (false, s)
  | s => (false, s)

def scanDecimal (s : List Char) : Option (Bool × ℕ × List Char) :=
  let (negative, s) := scanSign s
  let (n, len, rest) := scanDigits 10 s 0 0
  if len = 0 then none else some (negative, n, rest)

/-- `%d`, converting as `strtol` with a 32-bit `long`: out-of-range values saturate. -/
def scanInt (s : List Char) : Option (Int32 × List Char) :=
  (scanDecimal s).map fun (negative, n, rest) =>
    let v : ℤ := if negative then -n else n
    (.ofInt (max (-2 ^ 31) (min (2 ^ 31 - 1) v)), rest)

/-- `%u`, converting as `strtoul`: a sign negates modulo `2 ^ 32`, larger values saturate. -/
def scanUInt (s : List Char) : Option (UInt32 × List Char) :=
  (scanDecimal s).map fun (negative, n, rest) =>
    (if 2 ^ 32 ≤ n then .ofNat (2 ^ 32 - 1)
      else if negative then 0 - .ofNat n else .ofNat n, rest)

/-- A word matched without regard to case. -/
def scanWord : List Char → List Char → Option (List Char)
  | [], s => some s
  | w :: ws, c :: s => if c.toLower = w then scanWord ws s else none
  | _ :: _, [] => none

/-- The exponent part after its letter; a missing number is a matching failure. -/
def scanExponent (letter : Char) (s : List Char) : Option (ℤ × List Char) :=
  match s with
  | c :: s' =>
    if c.toLower = letter then
      (scanDecimal s').map fun (negative, n, rest) => (if negative then -(n : ℤ) else n, rest)
    else some (0, s)
  | [] => some (0, s)

/-- Digits with an optional point: mantissa, number of fraction digits and the rest. -/
def scanMantissa (base : ℕ) (s : List Char) : Option (ℕ × ℕ × List Char) :=
  let (whole, len, rest) := scanDigits base s 0 0
  match rest with
  | '.' :: rest' =>
    let (m, frac, rest'') := scanDigits base rest' whole 0
    if len + frac = 0 then none else some (m, frac, rest'')
  | _ => if len = 0 then none else some (whole, 0, rest)

/-- `%f`: decimal and hexadecimal numbers, infinities and NaN, as `strtof` reads them. -/
def scanFloat (F : Format) (s : List Char) : Option (Datum × List Char) :=
  let (negative, s) := scanSign s
  let signed (q : ℚ) : Datum := F.round (if negative then -q else q)
  match scanWord ['i', 'n', 'f'] s with
  | some rest =>
    match rest with
    | c :: _ =>
      if c.toLower = 'i' then
        (scanWord ['i', 'n', 'i', 't', 'y'] rest).map fun rest => (.inf negative, rest)
      else some (.inf negative, rest)
    | [] => some (.inf negative, [])
  | none =>
    match scanWord ['n', 'a', 'n'] s with
    | some ('(' :: rest) =>
      match rest.dropWhile fun c => c.isAlphanum || c = '_' with
      | ')' :: rest => some (.nan, rest)
      | _ => none
    | some rest => some (.nan, rest)
    | none =>
      match scanWord ['0', 'x'] s with
      | some hex => do
        let (m, frac, rest) ← scanMantissa 16 hex
        let (e, rest) ← scanExponent 'p' rest
        some (signed (m * (2 : ℚ) ^ (e - 4 * frac)), rest)
      | none => do
        let (m, frac, rest) ← scanMantissa 10 s
        let (e, rest) ← scanExponent 'e' rest
        some (signed (m * (10 : ℚ) ^ (e - frac)), rest)

/-- The conversions assigned before the first failure. Their number is the value `sscanf`
returns, except that it returns `EOF` for some empty lists. -/
def sscanf (F : Format) : List Directive → List Char → List Value
  | [], _ => []
  | .space :: ds, s => sscanf F ds (s.dropWhile isSpace)
  | .literal c :: ds, s =>
    match s with
    | c' :: s' => if c = c' then sscanf F ds s' else []
    | [] => []
  | .int :: ds, s =>
    match scanInt (s.dropWhile isSpace) with
    | some (n, rest) => .int n :: sscanf F ds rest
    | none => []
  | .uint :: ds, s =>
    match scanUInt (s.dropWhile isSpace) with
    | some (n, rest) => .uint n :: sscanf F ds rest
    | none => []
  | .float :: ds, s =>
    match scanFloat F (s.dropWhile isSpace) with
    | some (x, rest) => .float x :: sscanf F ds rest
    | none => []
  | .char :: ds, s =>
    match s with
    | c :: rest => .char c :: sscanf F ds rest
    | [] => []

/-- The literal directives of a format's fixed text. -/
def literals (text : List Char) : List Directive := text.map .literal

example : sscanf .exact (literals ['R', 'U', 'N'] ++ [.space, .int, .space, .int, .space, .char])
    ['R', 'U', 'N', ' ', '1', ' ', '-', '2', '1', '4', '7', '4', '8', '3', '6', '4', '8'] =
      [.int 1, .int (-2147483648)] := by decide

example : scanFloat .exact ['-', '2', '.', '5', 'e', '1', ' ', '7'] =
    some (.finite (-25), [' ', '7']) := by decide +kernel

end Scanf
