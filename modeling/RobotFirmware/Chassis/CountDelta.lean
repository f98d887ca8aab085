import RobotFirmware.Library.WrapCounter
import RobotFirmware.Library.Word
import RobotFirmware.Chassis.Odometry

/-! The encoder delta between two samples of a counter, and for which counter limits it is the
movement between them. -/
namespace RobotFirmware.Chassis
open WrapCounter

def reading (value : ℤ) : Int32 := .ofInt value

theorem reading_toInt {limit : Int32} {value : ℤ} (h : |value| < limit.toInt) :
    (reading value).toInt = value := by
  have hlimit := Int32.toInt_lt limit
  obtain ⟨hlo, hhi⟩ := abs_lt.mp h
  exact Int32.toInt_ofInt_of_le (by omega) (by omega)

theorem shorter_toInt {a b : Int32} (ha : |a.toInt| < 2 ^ 31) (hb : |b.toInt| < 2 ^ 31) :
    (if a.abs < b.abs then a else b).toInt =
      if |a.toInt| < |b.toInt| then a.toInt else b.toInt := by
  have hne : ∀ n : Int32, |n.toInt| < 2 ^ 31 → n ≠ Int32.minValue := by
    intro n hn hmin
    rw [hmin, Int32.toInt_minValue] at hn
    exact absurd hn (by decide)
  have hiff : a.abs < b.abs ↔ |a.toInt| < |b.toInt| := by
    rw [Int32.lt_iff_toInt_lt, Word.abs_toInt (hne a ha), Word.abs_toInt (hne b hb)]
  by_cases h : a.abs < b.abs
  · rw [if_pos h, if_pos (hiff.mp h)]
  · rw [if_neg h, if_neg (hiff.not.mp h)]

/-- Where no candidate overflows the delta is the shortest one. -/
theorem safeCountDelta_toInt {current previous limit : Int32} (hl : 0 < limit.toInt)
    (h : |current.toInt - previous.toInt| + limit.toInt < 2 ^ 31) :
    (robotChassisSafeCountDelta current previous limit).toInt =
      shortest limit.toInt (current.toInt - previous.toInt) := by
  obtain ⟨hlo, hhi⟩ := abs_lt.mp (lt_sub_iff_add_lt.mpr h)
  have hraw : (current - previous).toInt = current.toInt - previous.toInt :=
    Word.sub_toInt (by omega) (by omega)
  rw [← hraw] at hlo hhi ⊢
  unfold robotChassisSafeCountDelta
  have hlimit : ¬ limit ≤ 0 := by
    rw [Int32.le_iff_toInt_le, not_le]
    exact hl
  generalize current - previous = raw at hlo hhi ⊢
  have hpositive : (raw + limit).toInt = raw.toInt + limit.toInt :=
    Word.add_toInt (by omega) (by omega)
  have hnegative : (raw - limit).toInt = raw.toInt - limit.toInt :=
    Word.sub_toInt (by omega) (by omega)
  have hpositiveRange : |(raw + limit).toInt| < 2 ^ 31 := by
    rw [hpositive, abs_lt]
    constructor <;> omega
  have hnegativeRange : |(raw - limit).toInt| < 2 ^ 31 := by
    rw [hnegative, abs_lt]
    constructor <;> omega
  have hrawRange : |raw.toInt| < 2 ^ 31 := abs_lt.mpr ⟨by omega, by omega⟩
  have hbest := shorter_toInt hpositiveRange hrawRange
  rw [hpositive] at hbest
  have hbestRange : |(if (raw + limit).abs < raw.abs then raw + limit else raw).toInt| <
      2 ^ 31 := by
    split_ifs
    · exact hpositiveRange
    · exact hrawRange
  rw [if_neg hlimit]
  dsimp only
  rw [shorter_toInt hnegativeRange hbestRange, hnegative, hbest]
  rfl

/-- The limits up to 858993460, that is, those at which no run short enough to be recovered has
a candidate that leaves `int`. -/
def LimitFits (limit : Int32) : Prop := 5 * limit.toInt ≤ 2 ^ 32 + 4

instance (limit : Int32) : Decidable (LimitFits limit) := inferInstanceAs (Decidable (_ ≤ _))

theorem safeCountDelta_run {limit : Int32} (hfits : LimitFits limit) {value : ℤ}
    (hv : |value| < limit.toInt) {edges : List Edge}
    (hshort : 2 * (edges.length : ℤ) < limit.toInt) :
    (robotChassisSafeCountDelta (reading (run limit.toInt value edges)) (reading value)
      limit).toInt = net edges := by
  have hafter := reading_toInt (run_inRange hv edges)
  have hbefore := reading_toInt hv
  have hraw := abs_run_sub_le hv hshort
  unfold LimitFits at hfits
  rw [safeCountDelta_toInt (by omega), hafter, hbefore, shortest_run hv hshort]
  rw [hafter, hbefore]
  omega

def sampleDeltas (limit : Int32) : ℤ → List (List Edge) → List ℤ
  | _, [] => []
  | value, edges :: samples =>
    (robotChassisSafeCountDelta (reading (run limit.toInt value edges)) (reading value)
      limit).toInt :: sampleDeltas limit (run limit.toInt value edges) samples

theorem sampleDeltas_eq {limit : Int32} (hfits : LimitFits limit) {value : ℤ}
    (hv : |value| < limit.toInt) {samples : List (List Edge)}
    (hshort : ∀ edges ∈ samples, 2 * (edges.length : ℤ) < limit.toInt) :
    sampleDeltas limit value samples = samples.map net := by
  induction samples generalizing value with
  | nil => rfl
  | cons edges samples ih =>
    obtain ⟨hfirst, hrest⟩ := List.forall_mem_cons.mp hshort
    rw [sampleDeltas, safeCountDelta_run hfits hv hfirst, ih (run_inRange hv edges) hrest]
    rfl

/-- A candidate at the least `int` has no absolute value and is taken for the shortest. -/
theorem safeCountDelta_minValue {current previous limit : Int32} (hl : 0 < limit.toInt)
    (h : current.toInt - previous.toInt - limit.toInt = -2 ^ 31) :
    (robotChassisSafeCountDelta current previous limit).toInt = -2 ^ 31 := by
  have hlt := Int32.toInt_lt limit
  have hraw : (current - previous).toInt = current.toInt - previous.toInt :=
    Word.sub_toInt (by omega) (by omega)
  rw [← hraw] at h
  unfold robotChassisSafeCountDelta
  have hlimit : ¬ limit ≤ 0 := by
    rw [Int32.le_iff_toInt_le, not_le]
    exact hl
  generalize current - previous = raw at h
  have hnegative : (raw - limit).toInt = -2 ^ 31 := by
    rw [Word.sub_toInt (by omega) (by omega), h]
  have hmin : raw - limit = Int32.minValue := Int32.toInt_inj.mp hnegative
  have hpositive : (raw + limit).toInt = raw.toInt + limit.toInt :=
    Word.add_toInt (by omega) (by omega)
  have hsmallest : ∀ n : Int32, n.toInt ≠ -2 ^ 31 → Int32.minValue.abs < n.abs := by
    intro n hn
    have hne : n ≠ Int32.minValue := by
      intro heq
      exact hn (by rw [heq]; rfl)
    rw [Word.abs_minValue, Int32.lt_iff_toInt_lt, Word.abs_toInt hne, Int32.toInt_minValue]
    have := abs_nonneg n.toInt
    omega
  rw [if_neg hlimit]
  dsimp only
  rw [hmin]
  split_ifs with hbest hlast hlast
  · rfl
  · exact absurd (hsmallest _ (by omega)) hlast
  · rfl
  · exact absurd (hsmallest _ (by omega)) hlast

/-- Every larger limit has a short run with such a candidate: up and over the limit and back, or
down from zero. -/
theorem exists_run_minValue {limit : ℤ} (hlt : limit < 2 ^ 31) (hlarge : 2 ^ 32 + 4 < 5 * limit) :
    ∃ value edges, |value| < limit ∧ 2 * ((edges : List Edge).length : ℤ) < limit ∧
      run limit value edges - value - limit = -2 ^ 31 := by
  rcases le_or_gt limit (2 ^ 30) with hmiddle | hmiddle
  · obtain ⟨n, hn⟩ := Int.eq_ofNat_of_zero_le (a := 2 ^ 31 + 1 - 2 * limit) (by omega)
    refine ⟨limit - 1, [.up] ++ List.replicate n .down, ?_, ?_, ?_⟩
    · rw [abs_lt]
      constructor <;> omega
    · rw [List.length_append, List.length_singleton, List.length_replicate]
      push_cast
      omega
    · rw [run_append, run_restart, run_down_from_zero (by omega)]
      omega
  · rcases lt_or_ge (3 * limit) (2 ^ 32) with hthird | hthird
    · obtain ⟨n, hn⟩ := Int.eq_ofNat_of_zero_le (a := 2 * limit - 2 ^ 31 - 1) (by omega)
      refine ⟨limit - (n + 1), List.replicate n .up ++ [.up], ?_, ?_, ?_⟩
      · rw [abs_lt]
        constructor <;> omega
      · rw [List.length_append, List.length_singleton, List.length_replicate]
        push_cast
        omega
      · rw [run_append, run_up_to_limit (by omega), run_restart]
        omega
    · obtain ⟨n, hn⟩ := Int.eq_ofNat_of_zero_le (a := 2 ^ 31 - limit) (by omega)
      refine ⟨0, List.replicate n .down, ?_, ?_, ?_⟩
      · rw [abs_zero]
        omega
      · rw [List.length_replicate]
        omega
      · rw [run_down_from_zero (by omega)]
        omega

/-- The delta recovers every short run of edges, and the deltas of a run of samples add up to
the movement. -/
def Recovers (limit : Int32) : Prop :=
  (∀ value (edges : List Edge), |value| < limit.toInt → 2 * (edges.length : ℤ) < limit.toInt →
    (robotChassisSafeCountDelta (reading (run limit.toInt value edges)) (reading value)
      limit).toInt = net edges) ∧
  ∀ value (samples : List (List Edge)), |value| < limit.toInt →
    (∀ edges ∈ samples, 2 * (edges.length : ℤ) < limit.toInt) →
    (sampleDeltas limit value samples).sum = net samples.flatten

theorem recovers_iff {limit : Int32} (hl : 0 < limit.toInt) :
    Recovers limit ↔ LimitFits limit := by
  constructor
  · intro h
    by_contra hlarge
    have hlarge' : 2 ^ 32 + 4 < 5 * limit.toInt := by
      unfold LimitFits at hlarge
      omega
    obtain ⟨value, edges, hv, hshort, hmin⟩ := exists_run_minValue (Int32.toInt_lt limit) hlarge'
    have hdelta := h.1 value edges hv hshort
    rw [safeCountDelta_minValue hl] at hdelta
    · obtain ⟨hlo, hhi⟩ := abs_le.mp (abs_net_le edges)
      have hlt := Int32.toInt_lt limit
      omega
    · rw [reading_toInt (run_inRange hv edges), reading_toInt hv]
      exact hmin
  · intro hfits
    constructor
    · intro value edges hv hshort
      exact safeCountDelta_run hfits hv hshort
    · intro value samples hv hshort
      rw [sampleDeltas_eq hfits hv hshort, net_flatten]

/-- The limit that the firmware configures. -/
theorem recovers_iff_firmware : Recovers 30000 :=
  (recovers_iff (by decide)).mpr (by decide)

/-- Forward over the boundary of `2 ^ 30` and back. -/
theorem recovers_limit : ¬ Recovers 1073741824 := by
  intro h
  have hdelta := h.1 1073741823 [.up, .down] (by decide) (by decide)
  revert hdelta
  decide

end RobotFirmware.Chassis
