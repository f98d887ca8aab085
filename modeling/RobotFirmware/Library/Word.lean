import Mathlib.Data.Int.Order.Basic
import Mathlib.Algebra.Order.Group.Unbundled.Abs
import Mathlib.Tactic.Linarith

/-! Fixed-width integers against the mathematical ones: two's complement `abs`, differences
that do not overflow, and elapsed time on a wrapping 32-bit clock. -/
namespace Word

/-- Two's complement has one value without a positive counterpart. -/
theorem abs_toInt {n : Int32} (hn : n ≠ Int32.minValue) : n.abs.toInt = |n.toInt| := by
  have hb : n.toBitVec ≠ BitVec.intMin 32 := by
    intro h
    apply hn
    apply Int32.toBitVec_inj.mp
    rw [h]
    rfl
  change n.toBitVec.abs.toInt = |n.toBitVec.toInt|
  rw [BitVec.toInt_abs_eq_natAbs_of_ne_intMin hb, Int.abs_eq_natAbs]

theorem abs_minValue : Int32.minValue.abs = Int32.minValue := by decide

/-- An upper bound on `abs` misses the least value and nothing else. -/
theorem lt_abs_iff {n m : Int32} (hm : 0 < m.toInt) :
    m < n.abs ↔ n ≠ Int32.minValue ∧ ¬ (-m.toInt ≤ n.toInt ∧ n.toInt ≤ m.toInt) := by
  rw [Int32.lt_iff_toInt_lt]
  by_cases hn : n = Int32.minValue
  · rw [hn, abs_minValue, Int32.toInt_minValue]
    constructor
    · intro h
      omega
    · intro hboth
      obtain ⟨h, _⟩ := hboth
      exact absurd rfl h
  · rw [abs_toInt hn, ← not_le, abs_le]
    constructor
    · exact fun h => ⟨hn, h⟩
    · exact fun h => h.2

theorem neg_toInt_of_pos {n : Int32} (hn : 0 < n.toInt) : (-n).toInt = -n.toInt := by
  have hlt := Int32.toInt_lt n
  rw [Int32.toInt_neg]
  apply Int.bmod_eq_of_le <;> omega

/-- Negation is exact except at the least value. -/
theorem neg_toInt {n : Int32} (hn : n ≠ Int32.minValue) : (-n).toInt = -n.toInt := by
  have hle := Int32.le_toInt n
  have hlt := Int32.toInt_lt n
  have hne : n.toInt ≠ -2 ^ 31 := fun h => hn (Int32.toInt_inj.mp (by rw [h]; rfl))
  rw [Int32.toInt_neg]
  apply Int.bmod_eq_of_le <;> omega

theorem neg_abs (n : Int32) : (-n).abs = n.abs := by
  by_cases hn : n = Int32.minValue
  · rw [hn]
    decide
  · have hneg : -n ≠ Int32.minValue := by
      intro h
      apply hn
      rw [← Int32.neg_neg (a := n), h]
      decide
    apply Int32.toInt_inj.mp
    rw [abs_toInt hn, abs_toInt hneg, neg_toInt hn, abs_neg]

/-- A difference of bounded values does not overflow. -/
theorem sub_toInt {a b : Int32} (hl : -2 ^ 31 ≤ a.toInt - b.toInt)
    (hh : a.toInt - b.toInt < 2 ^ 31) : (a - b).toInt = a.toInt - b.toInt := by
  rw [Int32.toInt_sub]
  apply Int.bmod_eq_of_le <;> omega

theorem add_toInt {a b : Int32} (hl : -2 ^ 31 ≤ a.toInt + b.toInt)
    (hh : a.toInt + b.toInt < 2 ^ 31) : (a + b).toInt = a.toInt + b.toInt := by
  rw [Int32.toInt_add]
  apply Int.bmod_eq_of_le <;> omega

/-- The unsigned difference of two clock readings is the elapsed time, across any number of
wraps, as long as less than one period has passed. -/
theorem elapsed_toNat {t s : ℕ} (hs : s ≤ t) (hlt : t - s < 2 ^ 32) :
    (UInt32.ofNat t - UInt32.ofNat s).toNat = t - s := by
  rw [UInt32.toNat_sub, UInt32.toNat_ofNat', UInt32.toNat_ofNat']
  omega

/-- The next number, which is never zero. -/
def succNonzero (n : UInt32) : UInt32 := if n + 1 = 0 then 1 else n + 1

def numbered : ℕ → UInt32
  | 0 => 0
  | n + 1 => .ofNat (n % (2 ^ 32 - 1) + 1)

theorem numbered_toNat (n : ℕ) : (numbered (n + 1)).toNat = n % (2 ^ 32 - 1) + 1 := by
  have hlt := Nat.mod_lt n (show 0 < 2 ^ 32 - 1 by norm_num)
  rw [numbered, UInt32.toNat_ofNat']
  omega

theorem succNonzero_toNat (n : UInt32) :
    (succNonzero n).toNat = if n.toNat + 1 = 2 ^ 32 then 1 else n.toNat + 1 := by
  have hlt := n.toNat_lt
  have hnext : (n + 1).toNat = (n.toNat + 1) % 2 ^ 32 := UInt32.toNat_add n 1
  have hzero : n + 1 = 0 ↔ n.toNat + 1 = 2 ^ 32 := by
    rw [← UInt32.toNat_inj, hnext, UInt32.toNat_zero]
    omega
  unfold succNonzero
  by_cases h : n + 1 = 0
  · rw [if_pos h, if_pos (hzero.mp h)]
    rfl
  · have hne : ¬ n.toNat + 1 = 2 ^ 32 := fun heq => h (hzero.mpr heq)
    rw [if_neg h, if_neg hne, hnext]
    omega

theorem succNonzero_numbered (n : ℕ) : succNonzero (numbered n) = numbered (n + 1) := by
  rw [← UInt32.toNat_inj, succNonzero_toNat, numbered_toNat]
  cases n with
  | zero => rfl
  | succ n =>
    rw [numbered_toNat]
    split_ifs <;> omega

/-- Numbers repeat only after a whole period. -/
theorem numbered_inj {m n : ℕ} (hm : 0 < m) (hmn : m ≤ n) (hlt : n - m < 2 ^ 32 - 1)
    (heq : numbered m = numbered n) : m = n := by
  obtain ⟨i, rfl⟩ := Nat.exists_eq_succ_of_ne_zero hm.ne'
  obtain ⟨j, rfl⟩ := Nat.exists_eq_succ_of_ne_zero (hm.trans_le hmn).ne'
  have hvalues := congrArg UInt32.toNat heq
  rw [numbered_toNat, numbered_toNat] at hvalues
  omega

theorem succNonzero_iterate (n : ℕ) : succNonzero^[n] 0 = numbered n := by
  induction n with
  | zero => rfl
  | succ n ih => rw [Function.iterate_succ_apply', ih, succNonzero_numbered]

/-- A 32-bit counter from zero. -/
theorem count_iterate (n : ℕ) : (fun c : UInt32 => c + 1)^[n] 0 = .ofNat n := by
  induction n with
  | zero => rfl
  | succ n ih =>
    rw [Function.iterate_succ_apply', ih, UInt32.ofNat_add]
    rfl

end Word
