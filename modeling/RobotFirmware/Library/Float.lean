import Mathlib.Data.Rat.Floor
import Mathlib.Tactic.Linarith
import Mathlib.Tactic.NormNum
import Mathlib.Tactic.Positivity

/-! Floating-point data as rationals, infinities and NaN, with arithmetic that rounds every
exact finite result through a format. The sign of zero is not represented. -/
namespace Fp

inductive Datum
  | finite (q : ℚ)
  | inf (negative : Bool)
  | nan
  deriving DecidableEq

/-- A rounding of exact results. The laws are those of IEEE binary32 and wider formats that
bounded computations need: small integers are exact and powers of two bound their own
rounding. Exact rational arithmetic satisfies them too. -/
structure Format where
  round : ℚ → Datum
  round_int (n : ℤ) : |n| ≤ 2 ^ 24 → round n = .finite n
  round_le (q : ℚ) (k : ℕ) : k ≤ 127 → |q| ≤ 2 ^ k → ∃ r, round q = .finite r ∧ |r| ≤ 2 ^ k

def Format.exact : Format where
  round := .finite
  round_int _ _ := rfl
  round_le q _ _ hq := ⟨q, rfl, hq⟩

@[simp] theorem Format.exact_round (q : ℚ) : Format.exact.round q = .finite q := rfl

def singleMax : ℚ := 2 ^ 128 - 2 ^ 104

theorem two_pow_le_singleMax {k : ℕ} (hk : k ≤ 127) : (2 : ℚ) ^ k ≤ singleMax := by
  have hpow : (2 : ℚ) ^ k ≤ 2 ^ 127 := pow_le_pow_right₀ (by norm_num) hk
  have htop : (2 : ℚ) ^ 127 ≤ singleMax := by norm_num [singleMax]
  exact hpow.trans htop

/-- Arithmetic without rounding inside the range of binary32, infinite beyond it. -/
def Format.exactSingle : Format where
  round q := if |q| ≤ singleMax then .finite q else .inf (decide (q < 0))
  round_int n hn := by
    have hq : |(n : ℚ)| ≤ 2 ^ 24 := by exact_mod_cast hn
    exact if_pos (hq.trans (two_pow_le_singleMax (by norm_num)))
  round_le q k hk hq := ⟨q, if_pos (hq.trans (two_pow_le_singleMax hk)), hq⟩

theorem Format.exactSingle_of_le {q : ℚ} (hq : |q| ≤ singleMax) :
    Format.exactSingle.round q = .finite q := if_pos hq

theorem Format.exactSingle_of_lt {q : ℚ} (hq : singleMax < |q|) :
    Format.exactSingle.round q = .inf (decide (q < 0)) := if_neg (not_le.mpr hq)

/-- Laws of rounding to binary32: what is in range stays in range, and what is not below a power
of two down to the least positive value does not fall below it. -/
structure Format.SingleLaws (F : Format) : Prop where
  inRange (q : ℚ) : |q| ≤ singleMax → ∃ r, F.round q = .finite r ∧ |r| ≤ singleMax
  keeps (q r : ℚ) (k : ℕ) : k ≤ 149 → 1 / 2 ^ k ≤ q → F.round q = .finite r → 1 / 2 ^ k ≤ r

/-- Results within the range of binary32 are exact. -/
def Format.ExactInRange (F : Format) : Prop := ∀ q : ℚ, |q| ≤ singleMax → F.round q = .finite q

theorem Format.exact_exactInRange : Format.exact.ExactInRange := fun _ _ => rfl

theorem Format.exactSingle_singleLaws : Format.exactSingle.SingleLaws where
  inRange q hq := ⟨q, Format.exactSingle_of_le hq, hq⟩
  keeps q r k _ hk hr := by
    by_cases hq : |q| ≤ singleMax
    · rw [Format.exactSingle_of_le hq] at hr
      cases hr
      exact hk
    · rw [Format.exactSingle_of_lt (not_le.mp hq)] at hr
      cases hr

theorem Format.exactSingle_exactInRange : Format.exactSingle.ExactInRange :=
  fun _ hq => Format.exactSingle_of_le hq

namespace Datum

def isFinite : Datum → Bool
  | finite _ => true
  | _ => false

def lt : Datum → Datum → Bool
  | finite a, finite b => a < b
  | finite _, inf t => !t
  | inf s, finite _ => s
  | inf s, inf t => s && !t
  | _, _ => false

def le : Datum → Datum → Bool
  | finite a, finite b => a ≤ b
  | finite _, inf t => !t
  | inf s, finite _ => s
  | inf s, inf t => s || !t
  | _, _ => false

def neg : Datum → Datum
  | finite q => finite (-q)
  | inf s => inf !s
  | nan => nan

/-- `fabsf` and `fabs`. -/
def abs : Datum → Datum
  | finite q => finite |q|
  | inf _ => inf false
  | nan => nan

/-- `fmaxf`: a NaN operand yields the other one. -/
def fmax : Datum → Datum → Datum
  | nan, y => y
  | x, nan => x
  | x, y => if lt x y then y else x

def add (F : Format) : Datum → Datum → Datum
  | finite a, finite b => F.round (a + b)
  | finite _, inf t => inf t
  | inf s, finite _ => inf s
  | inf s, inf t => if s = t then inf s else nan
  | _, _ => nan

def sub (F : Format) (x y : Datum) : Datum := add F x (neg y)

def mul (F : Format) : Datum → Datum → Datum
  | finite a, finite b => F.round (a * b)
  | finite a, inf t => if a = 0 then nan else inf (t ^^ decide (a < 0))
  | inf s, finite b => if b = 0 then nan else inf (s ^^ decide (b < 0))
  | inf s, inf t => inf (s ^^ t)
  | _, _ => nan

/-- Division; a zero divisor counts as positive. -/
def div (F : Format) : Datum → Datum → Datum
  | finite a, finite b =>
    if b = 0 then (if a = 0 then nan else inf (decide (a < 0))) else F.round (a / b)
  | finite _, inf _ => finite 0
  | inf s, finite b => inf (s ^^ decide (b < 0))
  | _, _ => nan

/-- The two-sided limiter `if (x > hi) x = hi; else if (x < lo) x = lo;`. -/
def clamp (lo hi x : Datum) : Datum := if lt hi x then hi else if lt x lo then lo else x

@[simp] theorem isFinite_finite (q : ℚ) : (finite q).isFinite = true := rfl

@[simp] theorem lt_finite (a b : ℚ) : lt (finite a) (finite b) = decide (a < b) := rfl

@[simp] theorem le_finite (a b : ℚ) : le (finite a) (finite b) = decide (a ≤ b) := rfl

@[simp] theorem neg_finite (q : ℚ) : neg (finite q) = finite (-q) := rfl

@[simp] theorem add_finite (F : Format) (a b : ℚ) :
    add F (finite a) (finite b) = F.round (a + b) := rfl

@[simp] theorem mul_finite (F : Format) (a b : ℚ) :
    mul F (finite a) (finite b) = F.round (a * b) := rfl

@[simp] theorem sub_finite (F : Format) (a b : ℚ) :
    sub F (finite a) (finite b) = F.round (a - b) := by
  rw [sub_eq_add_neg]
  rfl

theorem div_finite (F : Format) (a : ℚ) {b : ℚ} (hb : b ≠ 0) :
    div F (finite a) (finite b) = F.round (a / b) := if_neg hb

@[simp] theorem abs_finite (q : ℚ) : abs (finite q) = finite |q| := rfl

@[simp] theorem fmax_finite (a b : ℚ) : fmax (finite a) (finite b) = finite (max a b) := by
  by_cases hab : a < b
  · rw [max_eq_right hab.le]
    simp [fmax, hab]
  · rw [max_eq_left (not_lt.mp hab)]
    simp [fmax, hab]

/-- The limiter confines every comparable value, infinities included. -/
theorem clamp_finite {lo hi : ℚ} {x : Datum} (hlh : lo ≤ hi) (hx : x ≠ nan) :
    ∃ q, clamp (finite lo) (finite hi) x = finite q ∧ lo ≤ q ∧ q ≤ hi := by
  cases x with
  | nan => exact absurd rfl hx
  | inf s =>
    cases s with
    | true => exact ⟨lo, by simp [clamp, lt], le_rfl, hlh⟩
    | false => exact ⟨hi, by simp [clamp, lt], hlh, le_rfl⟩
  | finite q =>
    simp only [clamp, lt_finite, decide_eq_true_eq]
    split_ifs with h₁ h₂
    · exact ⟨hi, rfl, hlh, le_rfl⟩
    · exact ⟨lo, rfl, le_rfl, hlh⟩
    · exact ⟨q, rfl, not_lt.mp h₂, not_lt.mp h₁⟩

theorem clamp_neg {l : ℚ} (hl : 0 ≤ l) (q : ℚ) :
    clamp (finite (-l)) (finite l) (finite (-q)) =
      (clamp (finite (-l)) (finite l) (finite q)).neg := by
  simp only [clamp, lt_finite, decide_eq_true_eq]
  rcases lt_trichotomy q (-l) with hlow | hedge | hhigh
  · have hover : l < -q := by linarith
    have hnot : ¬ l < q := by linarith
    rw [if_pos hover, if_neg hnot, if_pos hlow, neg_finite, neg_neg]
  · subst hedge
    have hnot : ¬ l < -l := by linarith
    simp [hnot]
  · have hnot : ¬ l < -q := by linarith
    have hnot' : ¬ q < -l := by linarith
    rw [if_neg hnot, if_neg hnot']
    by_cases hover : l < q
    · have hlow : -q < -l := by linarith
      rw [if_pos hover, if_pos hlow, neg_finite]
    · have hlow : ¬ -q < -l := by linarith
      rw [if_neg hover, if_neg hlow, neg_finite]

/-- What lies between two finite values is finite. -/
theorem finite_of_le {x : Datum} {a b : ℚ} (ha : le (finite a) x = true)
    (hb : le x (finite b) = true) : ∃ q, x = finite q ∧ a ≤ q ∧ q ≤ b := by
  cases x with
  | finite q =>
    rw [le_finite, decide_eq_true_eq] at ha hb
    exact ⟨q, rfl, ha, hb⟩
  | inf s => cases s <;> simp [le] at ha hb
  | nan => simp [le] at ha

/-- A rounded sum of finite values is not NaN when its operands are bounded. -/
theorem add_bounded (F : Format) {a b : ℚ} {k : ℕ} (hk : k + 1 ≤ 127)
    (ha : |a| ≤ 2 ^ k) (hb : |b| ≤ 2 ^ k) :
    ∃ r, add F (finite a) (finite b) = finite r ∧ |r| ≤ 2 ^ (k + 1) := by
  have hab : |a + b| ≤ 2 ^ (k + 1) := by
    have := abs_add_le a b
    rw [pow_succ]
    linarith
  exact F.round_le (a + b) (k + 1) hk hab

theorem mul_bounded (F : Format) {a b : ℚ} {j k : ℕ} (hk : j + k ≤ 127)
    (ha : |a| ≤ 2 ^ j) (hb : |b| ≤ 2 ^ k) :
    ∃ r, mul F (finite a) (finite b) = finite r ∧ |r| ≤ 2 ^ (j + k) := by
  have hab : |a * b| ≤ 2 ^ (j + k) := by
    rw [abs_mul, pow_add]
    exact mul_le_mul ha hb (abs_nonneg b) (by positivity)
  exact F.round_le (a * b) (j + k) hk hab

end Datum

/-- The value of `lroundf` and `lround` on a finite argument. -/
def roundAway (q : ℚ) : ℤ := if 0 ≤ q then ⌊q + 1 / 2⌋ else ⌈q - 1 / 2⌉

@[simp] theorem roundAway_intCast (n : ℤ) : roundAway n = n := by
  unfold roundAway
  split_ifs
  · rw [Int.floor_eq_iff]; constructor <;> linarith
  · rw [Int.ceil_eq_iff]; constructor <;> linarith

@[simp] theorem roundAway_zero : roundAway 0 = 0 := by simpa using roundAway_intCast 0

theorem roundAway_neg (q : ℚ) : roundAway (-q) = -roundAway q := by
  rcases lt_trichotomy q 0 with hq | rfl | hq
  · have hn : 0 ≤ -q := by linarith
    rw [roundAway, roundAway, if_pos hn, if_neg (not_le.mpr hq), ← Int.floor_neg]
    congr 1
    ring
  · simp
  · have hn : ¬ 0 ≤ -q := by linarith
    rw [roundAway, roundAway, if_neg hn, if_pos hq.le, ← Int.ceil_neg]
    congr 1
    ring

theorem roundAway_le {q : ℚ} {n : ℤ} (hq : q ≤ n) : roundAway q ≤ n := by
  unfold roundAway
  split_ifs
  · have : ⌊q + 1 / 2⌋ < n + 1 := by
      rw [Int.floor_lt]
      push_cast
      linarith
    omega
  · rw [Int.ceil_le]
    linarith

theorem abs_roundAway_le {q : ℚ} {n : ℤ} (hl : -(n : ℚ) ≤ q) (hh : q ≤ n) :
    |roundAway q| ≤ n := by
  have hneg : roundAway (-q) ≤ n := roundAway_le (by linarith)
  rw [roundAway_neg] at hneg
  exact abs_le.mpr ⟨by omega, roundAway_le hh⟩

/-- The floating-point environment of a compiled C program: the two formats, the value
`lroundf` leaves unspecified outside the range of `long`, and the trigonometric functions. -/
structure Env where
  single : Format
  double : Format
  lroundUnspecified : Datum → Int32
  cosf : Datum → Datum
  sinf : Datum → Datum

def Env.Exact (E : Env) : Prop := E.single = .exact ∧ E.double = .exact

/-- An exact environment whose angles are all zero. -/
def Env.rational : Env where
  single := .exact
  double := .exact
  lroundUnspecified := fun _ => 0
  cosf := fun _ => .finite 1
  sinf := fun x => x

/-- An exact environment with the range of binary32 for `float`. -/
def Env.ranged : Env := { Env.rational with single := .exactSingle }

theorem Env.rational_exact : Env.rational.Exact := ⟨rfl, rfl⟩

/-- `lroundf` with a 32-bit `long`. -/
def Env.lroundf (E : Env) : Datum → Int32
  | .finite q =>
    if -2 ^ 31 ≤ roundAway q ∧ roundAway q < 2 ^ 31 then .ofInt (roundAway q)
    else E.lroundUnspecified (.finite q)
  | x => E.lroundUnspecified x

def Env.ofInt (E : Env) (n : Int32) : Datum := E.single.round n.toInt

theorem Env.Exact.ofInt {E : Env} (hE : E.Exact) (n : Int32) : E.ofInt n = .finite n.toInt := by
  rw [Env.ofInt, hE.1]
  rfl

def Env.toSingle (E : Env) : Datum → Datum
  | .finite q => E.single.round q
  | x => x

/-- `lroundf` is odd on what it can represent with either sign. -/
theorem Env.lroundf_neg (E : Env) {q : ℚ} {n : ℤ} (hn : n < 2 ^ 31)
    (hl : -(n : ℚ) ≤ q) (hh : q ≤ n) :
    E.lroundf (.finite (-q)) = -E.lroundf (.finite q) := by
  obtain ⟨hlo, hhi⟩ := abs_le.mp (abs_roundAway_le hl hh)
  have hpos : -2 ^ 31 ≤ roundAway q ∧ roundAway q < 2 ^ 31 := by omega
  have hneg : -2 ^ 31 ≤ roundAway (-q) ∧ roundAway (-q) < 2 ^ 31 := by
    rw [roundAway_neg]
    omega
  rw [Env.lroundf, Env.lroundf, if_pos hneg, if_pos hpos, roundAway_neg, Int32.ofInt_neg]

theorem Env.lroundf_finite (E : Env) {q : ℚ} {n : ℤ} (hn : n < 2 ^ 31)
    (hl : -(n : ℚ) ≤ q) (hh : q ≤ n) : (E.lroundf (.finite q)).toInt = roundAway q := by
  obtain ⟨hlo, hhi⟩ := abs_le.mp (abs_roundAway_le hl hh)
  have hlo' : -2 ^ 31 ≤ roundAway q := by omega
  have hhi' : roundAway q < 2 ^ 31 := by omega
  rw [Env.lroundf, if_pos ⟨hlo', hhi'⟩, Int32.toInt_ofInt_of_le hlo' hhi']

end Fp
