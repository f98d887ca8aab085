import Mathlib.Data.Int.Log
import RobotFirmware.Library.MonotoneRounding
import RobotFirmware.Library.Rounding

/-! Binary formats that round to nearest with ties to even, for any precision and range. Such a
format obeys every law that the other modules ask of `float`. -/
namespace Fp

/-- The nearest integer, the even one half-way between two. -/
def roundEven (q : ℚ) : ℤ :=
  if Int.fract q < 1 / 2 ∨ Int.fract q = 1 / 2 ∧ ⌊q⌋ % 2 = 0 then ⌊q⌋ else ⌊q⌋ + 1

theorem roundEven_mem (q : ℚ) : ⌊q⌋ ≤ roundEven q ∧ roundEven q ≤ ⌊q⌋ + 1 := by
  unfold roundEven
  split_ifs
  · omega
  · omega

@[simp] theorem roundEven_intCast (n : ℤ) : roundEven n = n := by
  unfold roundEven
  rw [Int.fract_intCast, Int.floor_intCast]
  exact if_pos (.inl (by norm_num))

theorem abs_roundEven_sub_le (q : ℚ) : |(roundEven q : ℚ) - q| ≤ 1 / 2 := by
  have hsplit := Int.floor_add_fract q
  have hlow := Int.fract_nonneg q
  unfold roundEven
  split_ifs with hdown
  · have hhalf : Int.fract q ≤ 1 / 2 := hdown.elim le_of_lt fun h => h.1.le
    rw [abs_le]
    constructor <;> linarith
  · have hhalf : 1 / 2 ≤ Int.fract q := not_lt.mp fun h => hdown (.inl h)
    have hone := Int.fract_lt_one q
    push_cast
    rw [abs_le]
    constructor <;> linarith

theorem roundEven_mono {q r : ℚ} (h : q ≤ r) : roundEven q ≤ roundEven r := by
  have hfloor : ⌊q⌋ ≤ ⌊r⌋ := Int.floor_le_floor h
  by_cases hsame : ⌊q⌋ = ⌊r⌋
  · have hfract : Int.fract q ≤ Int.fract r := by
      unfold Int.fract
      rw [hsame]
      linarith
    -- what is rounded down in `r` is rounded down in `q`
    unfold roundEven
    rw [hsame]
    split_ifs with hq hr hr
    · exact le_rfl
    · omega
    · exfalso
      apply hq
      rcases hr with hr | ⟨hr, heven⟩
      · exact .inl (hfract.trans_lt hr)
      · rcases (hfract.trans_eq hr).lt_or_eq with hlt | heq
        · exact .inl hlt
        · exact .inr ⟨heq, heven⟩
    · exact le_rfl
  · have hq := (roundEven_mem q).2
    have hr := (roundEven_mem r).1
    omega

theorem roundEven_le {q : ℚ} {n : ℤ} (h : q ≤ n) : roundEven q ≤ n := by
  have hmono := roundEven_mono h
  rwa [roundEven_intCast] at hmono

theorem le_roundEven {q : ℚ} {n : ℤ} (h : n ≤ q) : n ≤ roundEven q := by
  have hmono := roundEven_mono h
  rwa [roundEven_intCast] at hmono

section
variable (precision : ℕ) (least : ℤ)

/-- The exponent of the last place of a result: its leading digit has `precision` places, but none
below `least`. -/
def lastPlace (q : ℚ) : ℤ := max (Int.log 2 |q| + 1 - precision) least

/-- The distance of the values around a result. -/
def quantum (q : ℚ) : ℚ := 2 ^ lastPlace precision least q

/-- The nearest value, with no bound on the exponent. -/
def nearest (q : ℚ) : ℚ := roundEven (q / quantum precision least q) * quantum precision least q

variable {precision least} {q r g : ℚ}

theorem quantum_pos : 0 < quantum precision least q := by
  exact zpow_pos two_pos _

/-- A value that the grid of `q` contains. -/
def OnGrid (precision : ℕ) (least : ℤ) (q g : ℚ) : Prop :=
  ∃ k : ℤ, g = k * quantum precision least q

theorem onGrid_of_le {e : ℤ} (he : lastPlace precision least q ≤ e) (m : ℤ) :
    OnGrid precision least q (m * 2 ^ e) := by
  obtain ⟨n, hn⟩ := Int.eq_ofNat_of_zero_le (sub_nonneg.mpr he)
  have hsplit : (2 : ℚ) ^ e = 2 ^ n * quantum precision least q := by
    unfold quantum
    rw [← zpow_natCast, ← zpow_add₀ (by norm_num)]
    congr 1
    omega
  refine ⟨m * 2 ^ n, ?_⟩
  rw [hsplit]
  push_cast
  ring

theorem nearest_le (hg : OnGrid precision least q g) (h : q ≤ g) :
    nearest precision least q ≤ g := by
  obtain ⟨k, rfl⟩ := hg
  have hk : q / quantum precision least q ≤ k := (div_le_iff₀ quantum_pos).mpr h
  have hround : ((roundEven (q / quantum precision least q) : ℤ) : ℚ) ≤ k := by
    exact_mod_cast roundEven_le hk
  exact mul_le_mul_of_nonneg_right hround quantum_pos.le

theorem le_nearest (hg : OnGrid precision least q g) (h : g ≤ q) :
    g ≤ nearest precision least q := by
  obtain ⟨k, rfl⟩ := hg
  have hk : (k : ℚ) ≤ q / quantum precision least q := (le_div_iff₀ quantum_pos).mpr h
  have hround : (k : ℚ) ≤ (roundEven (q / quantum precision least q) : ℤ) := by
    exact_mod_cast le_roundEven hk
  exact mul_le_mul_of_nonneg_right hround quantum_pos.le

theorem nearest_of_onGrid (hq : OnGrid precision least q q) : nearest precision least q = q :=
  le_antisymm (nearest_le hq le_rfl) (le_nearest hq le_rfl)

theorem OnGrid.neg (hg : OnGrid precision least q g) : OnGrid precision least q (-g) := by
  obtain ⟨k, rfl⟩ := hg
  exact ⟨-k, by push_cast; ring⟩

theorem onGrid_of_abs (hg : OnGrid precision least q |g|) : OnGrid precision least q g := by
  rcases abs_choice g with h | h
  · rwa [h] at hg
  · rw [h] at hg
    have hneg := hg.neg
    rwa [neg_neg] at hneg

theorem abs_nearest_sub_le (q : ℚ) :
    |nearest precision least q - q| ≤ quantum precision least q / 2 := by
  have hpos : 0 < quantum precision least q := quantum_pos
  have hround := abs_roundEven_sub_le (q / quantum precision least q)
  have hscale : nearest precision least q - q =
      (roundEven (q / quantum precision least q) - q / quantum precision least q) *
        quantum precision least q := by
    unfold nearest
    rw [sub_mul, div_mul_cancel₀ _ hpos.ne']
  rw [hscale, abs_mul, abs_of_pos hpos]
  have hscaled := mul_le_mul_of_nonneg_right hround hpos.le
  linarith

theorem two_zpow_log_le (hq : q ≠ 0) : (2 : ℚ) ^ Int.log 2 |q| ≤ |q| :=
  Int.zpow_log_le_self one_lt_two (abs_pos.mpr hq)

theorem lt_two_zpow_log (q : ℚ) : |q| < (2 : ℚ) ^ (Int.log 2 |q| + 1) :=
  Int.lt_zpow_succ_log_self one_lt_two |q|

theorem log_lt_of_abs_lt {e : ℤ} (hq : q ≠ 0) (h : |q| < 2 ^ e) : Int.log 2 |q| < e := by
  have hlow := (two_zpow_log_le hq).trans_lt h
  exact (zpow_lt_zpow_iff_right₀ (by norm_num : (1 : ℚ) < 2)).mp hlow

theorem lastPlace_le {e : ℤ} (hq : q ≠ 0) (h : |q| < 2 ^ (e + precision)) (he : least ≤ e) :
    lastPlace precision least q ≤ e := by
  have hlog := log_lt_of_abs_lt hq h
  apply max_le
  · omega
  · exact he

/-- What has at most `precision` digits is a value of the format. -/
theorem nearest_of_digits (hp : 0 < precision) {m e : ℤ} (hm : |m| ≤ 2 ^ precision)
    (he : least ≤ e) : nearest precision least (m * 2 ^ e) = m * 2 ^ e := by
  apply nearest_of_onGrid
  by_cases hzero : (m : ℚ) * 2 ^ e = 0
  · rw [hzero]
    exact ⟨0, by push_cast; ring⟩
  have hpow : (0 : ℚ) < 2 ^ e := zpow_pos two_pos _
  have habs : |(m : ℚ) * 2 ^ e| = |(m : ℚ)| * 2 ^ e := by rw [abs_mul, abs_of_pos hpow]
  have htop : (2 : ℚ) ^ (e + precision) = 2 ^ precision * 2 ^ e := by
    rw [zpow_add₀ (by norm_num), zpow_natCast, mul_comm]
  rcases hm.lt_or_eq with hlt | heq
  · have hlt' : |(m : ℚ)| < 2 ^ precision := by exact_mod_cast hlt
    apply onGrid_of_le
    apply lastPlace_le hzero _ he
    rw [habs, htop]
    exact mul_lt_mul_of_pos_right hlt' hpow
  · -- the next power of two has one digit, a place higher
    have heq' : |(m : ℚ)| = 2 ^ precision := by exact_mod_cast heq
    have hpower : |(m : ℚ) * 2 ^ e| = 2 ^ (e + precision) := by rw [habs, heq', htop]
    apply onGrid_of_abs
    rw [hpower]
    have hplace : lastPlace precision least (m * 2 ^ e) ≤ e + precision := by
      apply lastPlace_le hzero
      · rw [hpower, zpow_lt_zpow_iff_right₀ (by norm_num)]
        omega
      · omega
    have hone := onGrid_of_le hplace 1
    rwa [Int.cast_one, one_mul] at hone

variable (precision least) in
theorem exists_digits (q : ℚ) : ∃ m e : ℤ, nearest precision least q = m * 2 ^ e ∧
    |m| ≤ 2 ^ precision ∧ least ≤ e := by
  refine ⟨_, lastPlace precision least q, rfl, ?_, le_max_right _ _⟩
  have hpos : 0 < quantum precision least q := quantum_pos
  have hplace : Int.log 2 |q| + 1 ≤ precision + lastPlace precision least q := by
    have := le_max_left (Int.log 2 |q| + 1 - precision) least
    unfold lastPlace
    omega
  have hscale : (2 : ℚ) ^ (precision + lastPlace precision least q) =
      2 ^ precision * quantum precision least q := by
    rw [zpow_add₀ (by norm_num), zpow_natCast]
    rfl
  have hsize : |q| ≤ 2 ^ precision * quantum precision least q := by
    rw [← hscale]
    exact (lt_two_zpow_log q).le.trans (zpow_le_zpow_right₀ (by norm_num) hplace)
  have hquotient : |q / quantum precision least q| ≤ ((2 ^ precision : ℤ) : ℚ) := by
    rw [abs_div, abs_of_pos hpos, div_le_iff₀ hpos]
    exact_mod_cast hsize
  obtain ⟨hlow, hhigh⟩ := abs_le.mp hquotient
  exact abs_le.mpr ⟨le_roundEven (by push_cast at hlow ⊢; exact hlow), roundEven_le hhigh⟩

theorem nearest_nearest (hp : 0 < precision) (q : ℚ) :
    nearest precision least (nearest precision least q) = nearest precision least q := by
  obtain ⟨m, e, hq, hm, he⟩ := exists_digits precision least q
  rw [hq]
  exact nearest_of_digits hp hm he

/-- A power of two separates results with different grids, and both grids contain it. -/
theorem exists_power_between (hp : 0 < precision) (hr : r ≠ 0)
    (h : lastPlace precision least q < lastPlace precision least r) :
    ∃ g, |q| < g ∧ g ≤ |r| ∧ OnGrid precision least q g ∧ OnGrid precision least r g := by
  have hplace : lastPlace precision least r = Int.log 2 |r| + 1 - precision := by
    rcases max_choice (Int.log 2 |r| + 1 - precision) least with hlog | hleast
    · exact hlog
    · have hq : least ≤ lastPlace precision least q := le_max_right _ _
      unfold lastPlace at h hq
      omega
  have hqlog : Int.log 2 |q| + 1 - precision ≤ lastPlace precision least q := le_max_left _ _
  have hqpower : lastPlace precision least q ≤ Int.log 2 |r| := by omega
  have hrpower : lastPlace precision least r ≤ Int.log 2 |r| := by omega
  refine ⟨2 ^ Int.log 2 |r|, ?_, two_zpow_log_le hr, ?_, ?_⟩
  · apply (lt_two_zpow_log q).trans_le
    apply zpow_le_zpow_right₀ (by norm_num)
    omega
  · have hone := onGrid_of_le hqpower 1
    rwa [Int.cast_one, one_mul] at hone
  · have hone := onGrid_of_le hrpower 1
    rwa [Int.cast_one, one_mul] at hone

theorem onGrid_zero : OnGrid precision least q 0 := ⟨0, by push_cast; ring⟩

theorem nearest_mono_of_place_eq (h : q ≤ r)
    (heq : lastPlace precision least q = lastPlace precision least r) :
    nearest precision least q ≤ nearest precision least r := by
  have hsame : quantum precision least q = quantum precision least r := by
    unfold quantum
    rw [heq]
  have hdiv : q / quantum precision least r ≤ r / quantum precision least r :=
    div_le_div_of_nonneg_right h quantum_pos.le
  have hround : ((roundEven (q / quantum precision least r) : ℤ) : ℚ) ≤
      (roundEven (r / quantum precision least r) : ℤ) := by
    exact_mod_cast roundEven_mono hdiv
  unfold nearest
  rw [hsame]
  exact mul_le_mul_of_nonneg_right hround quantum_pos.le

theorem nearest_mono (hp : 0 < precision) (h : q ≤ r) :
    nearest precision least q ≤ nearest precision least r := by
  by_cases hzero : q ≤ 0 ∧ 0 ≤ r
  · exact (nearest_le onGrid_zero hzero.1).trans (le_nearest onGrid_zero hzero.2)
  have hq : q ≠ 0 := fun hq => hzero ⟨hq.le, hq.symm.trans_le h⟩
  have hr : r ≠ 0 := fun hr => hzero ⟨h.trans_eq hr, hr.ge⟩
  rcases lt_trichotomy (lastPlace precision least q) (lastPlace precision least r) with
    hlt | heq | hgt
  · obtain ⟨g, hqg, hgr, hgridq, hgridr⟩ := exists_power_between hp hr hlt
    have hpos : 0 < r := by
      by_contra hneg
      have habs : |r| ≤ |q| := abs_le_abs_of_nonpos (not_lt.mp hneg) h
      linarith
    rw [abs_of_pos hpos] at hgr
    exact (nearest_le hgridq ((le_abs_self q).trans hqg.le)).trans (le_nearest hgridr hgr)
  · exact nearest_mono_of_place_eq h heq
  · obtain ⟨g, hrg, hgq, hgridr, hgridq⟩ := exists_power_between hp hq hgt
    have hneg : q < 0 := by
      by_contra hpos
      have habs : |q| ≤ |r| := abs_le_abs_of_nonneg (not_lt.mp hpos) h
      linarith
    rw [abs_of_neg hneg] at hgq
    have hlow : -g ≤ r := (neg_le_neg hrg.le).trans (neg_abs_le r)
    exact (nearest_le hgridq.neg (by linarith)).trans (le_nearest hgridr.neg hlow)

/-- Rounding does not pass a value of the format. -/
theorem nearest_le_digits (hp : 0 < precision) {m e : ℤ} (hm : |m| ≤ 2 ^ precision)
    (he : least ≤ e) (h : q ≤ m * 2 ^ e) : nearest precision least q ≤ m * 2 ^ e :=
  (nearest_mono hp h).trans_eq (nearest_of_digits hp hm he)

theorem digits_le_nearest (hp : 0 < precision) {m e : ℤ} (hm : |m| ≤ 2 ^ precision)
    (he : least ≤ e) (h : m * 2 ^ e ≤ q) : m * 2 ^ e ≤ nearest precision least q :=
  (nearest_of_digits hp hm he).symm.trans_le (nearest_mono hp h)

theorem abs_nearest_le_digits (hp : 0 < precision) {m e : ℤ} (hm : |m| ≤ 2 ^ precision)
    (he : least ≤ e) (h : |q| ≤ m * 2 ^ e) : |nearest precision least q| ≤ m * 2 ^ e := by
  obtain ⟨hlow, hhigh⟩ := abs_le.mp h
  have hneg : ((-m : ℤ) : ℚ) * 2 ^ e = -(m * 2 ^ e) := by
    push_cast
    ring
  rw [← hneg] at hlow
  have hbelow := digits_le_nearest hp (by rwa [abs_neg]) he hlow
  rw [hneg] at hbelow
  exact abs_le.mpr ⟨hbelow, nearest_le_digits hp hm he hhigh⟩

/-- The error is relative to the result, or less than half of the least place. -/
theorem nearest_error (hq : q ≠ 0) : |nearest precision least q - q| ≤ 1 / 2 ^ precision * |q| ∨
    |nearest precision least q - q| ≤ 2 ^ (least - 1) := by
  have herror : |nearest precision least q - q| ≤ quantum precision least q / 2 :=
    abs_nearest_sub_le q
  unfold quantum lastPlace at herror
  rcases max_choice (Int.log 2 |q| + 1 - precision) least with hlog | hleast
  · left
    have hpower : (2 : ℚ) ^ (Int.log 2 |q| + 1 - precision) / 2 =
        1 / 2 ^ precision * 2 ^ Int.log 2 |q| := by
      rw [zpow_sub₀ (by norm_num), zpow_add₀ (by norm_num), zpow_natCast]
      ring
    rw [hlog, hpower] at herror
    exact herror.trans (mul_le_mul_of_nonneg_left (two_zpow_log_le hq) (by positivity))
  · right
    have hpower : (2 : ℚ) ^ least / 2 = 2 ^ (least - 1) := by
      rw [zpow_sub₀ (by norm_num), zpow_one]
    rwa [hleast, hpower] at herror

end

/-- A binary format at least as precise and as wide as binary32: its precision, its least place,
and the exponent at which it ends. -/
structure Places where
  precision : ℕ
  least : ℤ
  top : ℤ
  precise : 24 ≤ precision
  fine : least ≤ -149
  wide : 128 ≤ top

def Places.single : Places := ⟨24, -149, 128, by decide, by decide, by decide⟩

def Places.double : Places := ⟨53, -1074, 1024, by decide, by decide, by decide⟩

section
variable (P : Places)

theorem Places.precision_pos : 0 < P.precision := by
  have := P.precise
  omega

def Places.nearest (q : ℚ) : ℚ := Fp.nearest P.precision P.least q

/-- A result whose nearest value has too large an exponent is infinite. -/
def Places.round (q : ℚ) : Datum :=
  if |P.nearest q| < 2 ^ P.top then .finite (P.nearest q) else .inf (decide (q < 0))

variable {P} {q r : ℚ}

theorem Places.round_of_lt (h : |P.nearest q| < 2 ^ P.top) :
    P.round q = .finite (P.nearest q) := if_pos h

theorem Places.round_of_not_lt (h : ¬ |P.nearest q| < 2 ^ P.top) :
    P.round q = .inf (decide (q < 0)) := if_neg h

theorem Places.of_round_eq (h : P.round q = .finite r) :
    r = P.nearest q ∧ |P.nearest q| < 2 ^ P.top := by
  unfold Places.round at h
  split_ifs at h with hlt
  · cases h
    exact ⟨rfl, hlt⟩

theorem Places.lt_top {x : ℚ} {k : ℕ} (hk : k ≤ 127) (hx : |x| ≤ 2 ^ k) : |x| < 2 ^ P.top := by
  have hwide := P.wide
  apply hx.trans_lt
  rw [← zpow_natCast]
  apply zpow_lt_zpow_right₀ (by norm_num)
  omega

/-- Few digits at an exponent that binary32 has. -/
theorem Places.abs_nearest_le {m e : ℤ} (hm : |m| ≤ 2 ^ 24) (he : -149 ≤ e)
    (h : |q| ≤ m * 2 ^ e) : |P.nearest q| ≤ m * 2 ^ e := by
  have hdigits : (2 : ℤ) ^ 24 ≤ 2 ^ P.precision := pow_le_pow_right₀ (by norm_num) P.precise
  have hfine := P.fine
  exact abs_nearest_le_digits P.precision_pos (hm.trans hdigits) (by omega) h

theorem Places.abs_nearest_le_pow {k : ℕ} (h : |q| ≤ 2 ^ k) : |P.nearest q| ≤ 2 ^ k := by
  have hone := P.abs_nearest_le (q := q) (m := 1) (e := k) (by norm_num) (by omega)
    (by rwa [Int.cast_one, one_mul, zpow_natCast])
  rwa [Int.cast_one, one_mul, zpow_natCast] at hone

end

def Format.binary (P : Places) : Format where
  round := P.round
  round_int n hn := by
    have hdigits : (2 : ℤ) ^ 24 ≤ 2 ^ P.precision := pow_le_pow_right₀ (by norm_num) P.precise
    have hfine := P.fine
    have hexact : Fp.nearest P.precision P.least (n * 2 ^ (0 : ℤ)) = n * 2 ^ (0 : ℤ) :=
      nearest_of_digits P.precision_pos (hn.trans hdigits) (by omega)
    rw [zpow_zero, mul_one] at hexact
    have hn' : |(n : ℚ)| ≤ 2 ^ 24 := by exact_mod_cast hn
    have hround : P.nearest n = n := hexact
    rw [Places.round_of_lt, hround]
    rw [hround]
    exact Places.lt_top (by norm_num) hn'
  round_le q k hk hq := by
    have hle := P.abs_nearest_le_pow hq
    exact ⟨_, Places.round_of_lt (Places.lt_top hk hle), hle⟩

def Format.binary32 : Format := .binary .single

def Format.binary64 : Format := .binary .double

example : Format.binary32.round (1 / 10) = .finite (13421773 / 134217728) := by decide +kernel

section
variable (P : Places)

theorem Places.abs_nearest_le_singleMax {q : ℚ} (h : |q| ≤ singleMax) :
    |P.nearest q| ≤ singleMax := by
  have hdigits : singleMax = ((2 ^ 24 - 1 : ℤ) : ℚ) * 2 ^ (104 : ℤ) := by norm_num [singleMax]
  rw [hdigits] at h ⊢
  exact P.abs_nearest_le (by norm_num) (by norm_num) h

theorem Places.singleMax_lt_top : singleMax < 2 ^ P.top := by
  have hmax : singleMax < 2 ^ (128 : ℤ) := by norm_num [singleMax]
  exact hmax.trans_le (zpow_le_zpow_right₀ (by norm_num) P.wide)

theorem Format.binary_singleLaws : (Format.binary P).SingleLaws where
  inRange q hq := by
    have hle := P.abs_nearest_le_singleMax hq
    exact ⟨_, Places.round_of_lt (hle.trans_lt P.singleMax_lt_top), hle⟩
  keeps q r k hk hq hr := by
    obtain ⟨rfl, _⟩ := Places.of_round_eq hr
    have hfine := P.fine
    have hpower : (1 : ℚ) / 2 ^ k = ((1 : ℤ) : ℚ) * 2 ^ (-k : ℤ) := by
      rw [zpow_neg, zpow_natCast, one_div, Int.cast_one, one_mul]
    rw [hpower] at hq ⊢
    have hone : |(1 : ℤ)| ≤ 2 ^ P.precision := by
      rw [abs_one]
      exact one_le_pow₀ (by norm_num)
    exact digits_le_nearest P.precision_pos hone (by omega) hq

theorem Format.binary_monotone : (Format.binary P).Monotone := by
  intro q r hqr
  have hmono : P.nearest q ≤ P.nearest r := nearest_mono P.precision_pos hqr
  have hsign : ∀ x, x < 0 → P.nearest x ≤ 0 := fun x hx => nearest_le onGrid_zero hx.le
  have hsign' : ∀ x, ¬ x < 0 → 0 ≤ P.nearest x :=
    fun x hx => le_nearest onGrid_zero (not_lt.mp hx)
  have hround : ∀ x, (Format.binary P).round x = P.round x := fun _ => rfl
  rw [hround, hround]
  by_cases hq : |P.nearest q| < 2 ^ P.top
  · rw [Places.round_of_lt hq]
    by_cases hr : |P.nearest r| < 2 ^ P.top
    · rw [Places.round_of_lt hr]
      exact decide_eq_true hmono
    · have hpos : ¬ r < 0 := by
        intro hneg
        rw [abs_of_nonpos (hsign r hneg)] at hr
        have hlow := (abs_lt.mp hq).1
        linarith
      rw [Places.round_of_not_lt hr, decide_eq_false hpos]
      rfl
  · rw [Places.round_of_not_lt hq]
    by_cases hneg : q < 0
    · rw [decide_eq_true hneg]
      by_cases hr : |P.nearest r| < 2 ^ P.top
      · rw [Places.round_of_lt hr]
        rfl
      · rw [Places.round_of_not_lt hr]
        rfl
    · have hr : ¬ |P.nearest r| < 2 ^ P.top := by
        have hnonneg := hsign' q hneg
        rw [abs_of_nonneg hnonneg] at hq
        rw [abs_of_nonneg (hnonneg.trans hmono)]
        linarith
      have hpos : ¬ r < 0 := fun h => hneg (hqr.trans_lt h)
      rw [Places.round_of_not_lt hr, decide_eq_false hneg, decide_eq_false hpos]
      rfl

theorem Places.nearest_error (q : ℚ) : |P.nearest q - q| ≤ 1 / 2 ^ 24 * |q| ∨
    |P.nearest q - q| ≤ 1 / 2 ^ 150 := by
  by_cases hq : q = 0
  · left
    have hzero : P.nearest 0 = 0 := nearest_of_onGrid onGrid_zero
    rw [hq, hzero]
    simp
  · have herror : |P.nearest q - q| ≤ 1 / 2 ^ P.precision * |q| ∨
        |P.nearest q - q| ≤ 2 ^ (P.least - 1) := Fp.nearest_error hq
    rcases herror with hrelative | habsolute
    · left
      apply hrelative.trans
      apply mul_le_mul_of_nonneg_right _ (abs_nonneg q)
      exact one_div_pow_le_one_div_pow_of_le (by norm_num) P.precise
    · right
      have hfine := P.fine
      have hpower : (1 : ℚ) / 2 ^ 150 = 2 ^ (-150 : ℤ) := by norm_num
      rw [hpower]
      apply habsolute.trans
      apply zpow_le_zpow_right₀ (by norm_num)
      omega

theorem Places.near {q : ℚ} (hq : 1 / 2 ^ 126 ≤ |q|) : Near (1 / 2 ^ 24) q (P.nearest q) := by
  rcases P.nearest_error q with hrelative | habsolute
  · exact hrelative
  · unfold Near
    have hscaled : (1 : ℚ) / 2 ^ 150 = 1 / 2 ^ 24 * (1 / 2 ^ 126) := by norm_num
    rw [hscaled] at habsolute
    exact habsolute.trans (mul_le_mul_of_nonneg_left hq (by norm_num))

theorem Format.binary_precise : (Format.binary P).Precise (1 / 2 ^ 24) where
  nonneg := by norm_num
  near q hq hmax := by
    have hle := P.abs_nearest_le_singleMax hmax
    exact ⟨_, Places.round_of_lt (hle.trans_lt P.singleMax_lt_top), P.near hq⟩

/-- A result is rounded once. -/
theorem Format.binary_round_round {q r : ℚ} (h : (Format.binary P).round q = .finite r) :
    (Format.binary P).round r = .finite r := by
  obtain ⟨rfl, hlt⟩ := Places.of_round_eq h
  have hsame : P.nearest (P.nearest q) = P.nearest q := nearest_nearest P.precision_pos q
  have hround := Places.round_of_lt (P := P) (q := P.nearest q) (by rwa [hsame])
  rwa [hsame] at hround

end

/-- The two formats of IEEE arithmetic, with any trigonometric functions. -/
def Env.binary (lroundUnspecified : Datum → Int32) (cosf sinf : Datum → Datum) : Env where
  single := .binary32
  double := .binary64
  lroundUnspecified := lroundUnspecified
  cosf := cosf
  sinf := sinf

end Fp
