import Mathlib.Data.Int.Order.Basic
import Mathlib.Algebra.Order.Group.Unbundled.Abs
import Mathlib.Algebra.BigOperators.Group.List.Basic
import Mathlib.Data.List.Induction
import Mathlib.Tactic.Linarith
import Mathlib.Tactic.Ring

/-! A counter that restarts at zero on reaching a limit in either direction, and the movement
between two of its readings. -/
namespace WrapCounter

inductive Edge
  | up
  | down
  deriving DecidableEq, Repr

def Edge.sign : Edge → ℤ
  | .up => 1
  | .down => -1

/-- The position without restarts moves by this much. -/
def net (edges : List Edge) : ℤ := (edges.map Edge.sign).sum

@[simp] theorem net_nil : net [] = 0 := rfl

@[simp] theorem net_append (edges next : List Edge) :
    net (edges ++ next) = net edges + net next := by
  simp [net]

@[simp] theorem net_singleton (e : Edge) : net [e] = e.sign := by
  simp [net]

theorem net_flatten (samples : List (List Edge)) : net samples.flatten = (samples.map net).sum := by
  induction samples with
  | nil => rfl
  | cons edges samples ih => rw [List.flatten_cons, net_append, ih, List.map_cons, List.sum_cons]

theorem Edge.sign_cases (e : Edge) : e.sign = 1 ∨ e.sign = -1 := by
  cases e with
  | up => exact .inl rfl
  | down => exact .inr rfl

theorem abs_net_le (edges : List Edge) : |net edges| ≤ edges.length := by
  induction edges using List.reverseRecOn with
  | nil => simp
  | append_singleton edges e ih =>
    have hlast := e.sign_cases
    rw [net_append, net_singleton, List.length_append, List.length_singleton, abs_le]
    obtain ⟨hlo, hhi⟩ := abs_le.mp ih
    constructor <;> push_cast <;> omega

def step (limit value : ℤ) (e : Edge) : ℤ :=
  let next := value + e.sign
  if next = limit ∨ next = -limit then 0 else next

def run (limit value : ℤ) (edges : List Edge) : ℤ := edges.foldl (step limit) value

@[simp] theorem run_nil (limit value : ℤ) : run limit value [] = value := rfl

@[simp] theorem run_append (limit value : ℤ) (edges next : List Edge) :
    run limit value (edges ++ next) = run limit (run limit value edges) next := by
  simp [run]

@[simp] theorem run_singleton (limit value : ℤ) (e : Edge) :
    run limit value [e] = step limit value e := rfl

theorem step_inRange {limit value : ℤ} (h : |value| < limit) (e : Edge) :
    |step limit value e| < limit := by
  obtain ⟨hlo, hhi⟩ := abs_lt.mp h
  have he := e.sign_cases
  unfold step
  dsimp only
  split_ifs with hrestart
  · rw [abs_zero]
    omega
  · rw [abs_lt]
    constructor <;> omega

theorem run_inRange {limit value : ℤ} (h : |value| < limit) (edges : List Edge) :
    |run limit value edges| < limit := by
  induction edges using List.reverseRecOn with
  | nil => exact h
  | append_singleton edges e ih =>
    rw [run_append, run_singleton]
    exact step_inRange ih e

/-- A restart moves the counter by the whole limit. -/
theorem dvd_run_sub (limit value : ℤ) (edges : List Edge) :
    limit ∣ run limit value edges - (value + net edges) := by
  induction edges using List.reverseRecOn with
  | nil => simp
  | append_singleton edges e ih =>
    obtain ⟨restarts, hrestarts⟩ := ih
    rw [run_append, run_singleton, net_append, net_singleton]
    unfold step
    dsimp only
    split_ifs with hrestart
    · rcases hrestart with hrestart | hrestart
      · refine ⟨restarts - 1, ?_⟩
        rw [mul_sub, ← hrestarts]
        omega
      · refine ⟨restarts + 1, ?_⟩
        rw [mul_add, ← hrestarts]
        omega
    · refine ⟨restarts, ?_⟩
      rw [← hrestarts]
      omega

/-- After fewer edges than the limit a counter has restarted at most once, and from zero it has
moved by fewer edges than there were. -/
inductive Offset (limit start moved : ℤ) (edges : ℕ) (value : ℤ) : Prop
  | direct (h : value = start + moved)
  | above (h : value = start + moved - limit) (near : |value| < edges)
  | below (h : value = start + moved + limit) (near : |value| < edges)

theorem run_offset {limit value : ℤ} (h : |value| < limit) (edges : List Edge)
    (hshort : (edges.length : ℤ) ≤ limit) :
    Offset limit value (net edges) edges.length (run limit value edges) := by
  induction edges using List.reverseRecOn with
  | nil => exact .direct (by simp)
  | append_singleton edges e ih =>
    have hlength : ((edges ++ [e]).length : ℤ) = edges.length + 1 := by simp
    have he := e.sign_cases
    rw [run_append, run_singleton, net_append, net_singleton]
    have hbefore := ih (by omega)
    have hrange := run_inRange h edges
    generalize run limit value edges = before at hbefore hrange ⊢
    obtain ⟨hlo, hhi⟩ := abs_lt.mp hrange
    unfold step
    dsimp only
    cases hbefore with
    | direct hmoved =>
      split_ifs with hrestart
      · rcases hrestart with hrestart | hrestart
        · exact .above (by omega) (by rw [abs_zero]; omega)
        · exact .below (by omega) (by rw [abs_zero]; omega)
      · exact .direct (by omega)
    | above hmoved hnear =>
      -- within so few edges of zero there is no second restart
      obtain ⟨hnearLo, hnearHi⟩ := abs_lt.mp hnear
      rw [if_neg (by omega)]
      exact .above (by omega) (abs_lt.mpr ⟨by omega, by omega⟩)
    | below hmoved hnear =>
      obtain ⟨hnearLo, hnearHi⟩ := abs_lt.mp hnear
      rw [if_neg (by omega)]
      exact .below (by omega) (abs_lt.mpr ⟨by omega, by omega⟩)

theorem run_replicate {limit value : ℤ} {n : ℕ} {e : Edge} (h : |value| < limit)
    (hend : |value + n * e.sign| < limit) :
    run limit value (List.replicate n e) = value + n * e.sign := by
  induction n with
  | zero => simp
  | succ n ih =>
    have he := e.sign_cases
    obtain ⟨hlo, hhi⟩ := abs_lt.mp h
    obtain ⟨hlo', hhi'⟩ := abs_lt.mp hend
    have hbefore : |value + n * e.sign| < limit := by
      rw [abs_lt]
      push_cast at hlo' hhi'
      rcases he with he | he <;> rw [he] at hlo' hhi' ⊢ <;> constructor <;> omega
    rw [List.replicate_succ', run_append, ih hbefore, run_singleton, step]
    push_cast at hlo' hhi' ⊢
    rw [if_neg]
    · ring
    · rcases he with he | he <;> rw [he] at hlo' hhi' ⊢ <;> omega

theorem run_restart (limit : ℤ) : run limit (limit - 1) [.up] = 0 := by
  rw [run_singleton, step]
  exact if_pos (.inl (by rw [Edge.sign]; omega))

theorem run_down_from_zero {limit : ℤ} {n : ℕ} (h : (n : ℤ) < limit) :
    run limit 0 (List.replicate n .down) = -n := by
  have hstart : |(0 : ℤ)| < limit := by
    rw [abs_zero]
    omega
  have hend : |0 + (n : ℤ) * Edge.down.sign| < limit := by
    rw [Edge.sign, abs_lt]
    constructor <;> omega
  rw [run_replicate hstart hend, Edge.sign]
  omega

theorem run_up_to_limit {limit : ℤ} {n : ℕ} (h : (n : ℤ) + 1 < limit) :
    run limit (limit - (n + 1)) (List.replicate n .up) = limit - 1 := by
  have hstart : |limit - ((n : ℤ) + 1)| < limit := by
    rw [abs_lt]
    constructor <;> omega
  have hend : |limit - ((n : ℤ) + 1) + n * Edge.up.sign| < limit := by
    rw [Edge.sign, abs_lt]
    constructor <;> omega
  rw [run_replicate hstart hend, Edge.sign]
  omega

/-- The candidate nearest to zero; the direct difference wins a tie. -/
def shortest (limit raw : ℤ) : ℤ :=
  let best := if |raw + limit| < |raw| then raw + limit else raw
  if |raw - limit| < |best| then raw - limit else best

/-- The movement over fewer than half the limit of edges is the shortest candidate. -/
theorem shortest_run {limit value : ℤ} (h : |value| < limit) {edges : List Edge}
    (hshort : 2 * (edges.length : ℤ) < limit) :
    shortest limit (run limit value edges - value) = net edges := by
  obtain ⟨hlo, hhi⟩ := abs_le.mp (abs_net_le edges)
  have hoffset := run_offset h edges (by omega)
  generalize run limit value edges = after at hoffset ⊢
  generalize net edges = moved at hlo hhi hoffset ⊢
  have hcandidate : after - value = moved ∨ after - value = moved - limit ∨
      after - value = moved + limit := by
    cases hoffset with
    | direct hmoved => exact .inl (by omega)
    | above hmoved _ => exact .inr (.inl (by omega))
    | below hmoved _ => exact .inr (.inr (by omega))
  generalize after - value = raw at hcandidate
  unfold shortest
  simp only [Int.abs_eq_natAbs]
  rcases hcandidate with rfl | rfl | rfl <;> split_ifs <;> omega

/-- The raw difference of two readings stays clear of twice the limit. -/
theorem abs_run_sub_le {limit value : ℤ} (h : |value| < limit) {edges : List Edge}
    (hshort : 2 * (edges.length : ℤ) < limit) :
    2 * |run limit value edges - value| + 5 ≤ 3 * limit ∨
      |run limit value edges - value| ≤ edges.length := by
  obtain ⟨hlo, hhi⟩ := abs_le.mp (abs_net_le edges)
  obtain ⟨hlo', hhi'⟩ := abs_lt.mp h
  rw [Int.abs_eq_natAbs]
  cases run_offset h edges (by omega) with
  | direct hmoved => exact .inr (by omega)
  | above hmoved hnear =>
    obtain ⟨hnearLo, hnearHi⟩ := abs_lt.mp hnear
    exact .inl (by omega)
  | below hmoved hnear =>
    obtain ⟨hnearLo, hnearHi⟩ := abs_lt.mp hnear
    exact .inl (by omega)

end WrapCounter
