import Mathlib.Data.List.Basic
import Mathlib.Algebra.Order.Group.Nat

/-! Cutting a stream into lines with a buffer of bounded size that starts over when it is full,
against the segments of the stream between its terminators. -/
namespace Framing

variable {α : Type*}

structure Framer (α : Type*) where
  isEnd : α → Bool
  capacity : ℕ
  positive : 0 < capacity

namespace Framer

variable (f : Framer α)

/-- The buffer always keeps room for one more; the element that would take it is dropped with
everything before it. -/
def push (buffer : List α) (x : α) : List α :=
  if f.isEnd x then [] else if buffer.length + 1 < f.capacity then buffer ++ [x] else []

def emit (buffer : List α) (x : α) : Option (List α) :=
  if f.isEnd x ∧ 0 < buffer.length then some buffer else none

/-- The lines of a stream that is fed to the buffer. -/
def lines : List α → List α → List (List α)
  | _, [] => []
  | buffer, x :: xs => (f.emit buffer x).toList ++ lines (f.push buffer x) xs

/-- The segments that a terminator closes. -/
def terminated (xs : List α) : List (List α) := (xs.splitOnP f.isEnd).dropLast

def openSegment (xs : List α) : List α :=
  (xs.splitOnP f.isEnd).getLast (List.splitOnP_ne_nil f.isEnd xs)

/-- What is left of a segment after the buffer has started over as often as it had to. -/
def residue (segment : List α) : List α :=
  segment.drop (f.capacity * (segment.length / f.capacity))

@[simp] theorem residue_nil : f.residue [] = [] := by
  simp [residue]

theorem length_residue (segment : List α) :
    (f.residue segment).length = segment.length % f.capacity := by
  have hdiv := Nat.div_add_mod segment.length f.capacity
  rw [residue, List.length_drop]
  omega

theorem residue_of_lt {segment : List α} (h : segment.length < f.capacity) :
    f.residue segment = segment := by
  rw [residue, Nat.div_eq_of_lt h, Nat.mul_zero, List.drop_zero]

theorem residue_eq_nil_iff {segment : List α} :
    f.residue segment = [] ↔ f.capacity ∣ segment.length := by
  rw [← List.length_eq_zero_iff, length_residue, Nat.dvd_iff_mod_eq_zero]

/-- The buffer holds the residue of the segment as the segment grows. -/
theorem push_residue (segment : List α) {x : α} (hx : f.isEnd x = false) :
    f.push (f.residue segment) x = f.residue (segment ++ [x]) := by
  have hmod := Nat.mod_lt segment.length f.positive
  have hdiv := Nat.div_add_mod segment.length f.capacity
  have hlength : (segment ++ [x]).length = segment.length + 1 := List.length_append
  rw [push, hx, length_residue, if_neg Bool.false_ne_true]
  by_cases hfull : f.capacity ∣ segment.length + 1
  · have hlast : ¬ segment.length % f.capacity + 1 < f.capacity := by
      intro hroom
      have hzero := Nat.mod_eq_zero_of_dvd hfull
      rw [Nat.add_mod, Nat.mod_eq_of_lt (a := 1) (by omega), Nat.mod_eq_of_lt hroom] at hzero
      omega
    rw [if_neg hlast, eq_comm, residue_eq_nil_iff, hlength]
    exact hfull
  · have hroom : segment.length % f.capacity + 1 < f.capacity := by
      by_contra hlast
      have hnext : segment.length + 1 = f.capacity * (segment.length / f.capacity + 1) := by
        rw [Nat.mul_add]
        omega
      exact hfull ⟨_, hnext⟩
    have hle : f.capacity * (segment.length / f.capacity) ≤ segment.length := by omega
    rw [if_pos hroom, residue, residue, hlength, Nat.succ_div_of_not_dvd hfull,
      List.drop_append_of_le_length hle]

theorem push_end (buffer : List α) {x : α} (hx : f.isEnd x = true) : f.push buffer x = [] :=
  if_pos hx

theorem emit_of_not_end (buffer : List α) {x : α} (hx : f.isEnd x = false) :
    f.emit buffer x = none := by
  simp [emit, hx]

theorem buffer_eq (xs : List α) : xs.foldl f.push [] = f.residue (f.openSegment xs) := by
  have hgeneral : ∀ segment : List α, xs.foldl f.push (f.residue segment) =
      f.residue ((List.splitOnPPrepend f.isEnd xs segment.reverse).getLast
        (List.splitOnPPrepend_ne_nil f.isEnd xs _)) := by
    induction xs with
    | nil => simp
    | cons x xs ih =>
      intro segment
      rw [List.foldl_cons]
      cases hx : f.isEnd x with
      | true =>
        have hnext := ih []
        rw [residue_nil] at hnext
        simp only [List.splitOnPPrepend_cons_pos hx]
        rw [push_end f _ hx, hnext, List.getLast_cons]
        rfl
      | false =>
        have hnext := ih (segment ++ [x])
        simp only [List.splitOnPPrepend_cons_neg hx]
        rw [push_residue f segment hx, hnext]
        simp
  have hall := hgeneral []
  rw [residue_nil] at hall
  exact hall

/-- What segments leave in the buffer, without the empty ones. -/
def residues (segments : List (List α)) : List (List α) :=
  (segments.map f.residue).filter (0 < ·.length)

/-- The lines of a stream are what is left of its terminated segments. -/
theorem lines_eq (xs : List α) : f.lines [] xs = f.residues (f.terminated xs) := by
  have hgeneral : ∀ segment : List α, f.lines (f.residue segment) xs =
      f.residues (List.splitOnPPrepend f.isEnd xs segment.reverse).dropLast := by
    induction xs with
    | nil => simp [lines, residues]
    | cons x xs ih =>
      intro segment
      rw [lines]
      cases hx : f.isEnd x with
      | true =>
        have hnext := ih []
        rw [residue_nil] at hnext
        rw [push_end f _ hx, hnext, List.splitOnPPrepend_cons_pos hx, List.reverse_reverse,
          List.dropLast_cons_of_ne_nil (List.splitOnP_ne_nil f.isEnd xs), residues, residues,
          List.map_cons, List.filter_cons]
        by_cases hlen : 0 < (f.residue segment).length
        · rw [emit, if_pos ⟨hx, hlen⟩, if_pos (decide_eq_true hlen)]
          rfl
        · have hnone : ¬ (f.isEnd x = true ∧ 0 < (f.residue segment).length) := fun h => hlen h.2
          rw [emit, if_neg hnone, if_neg (by simpa using hlen)]
          rfl
      | false =>
        have hnext := ih (segment ++ [x])
        rw [emit_of_not_end f _ hx, push_residue f segment hx, hnext,
          List.splitOnPPrepend_cons_neg hx, List.reverse_append]
        rfl
  have hall := hgeneral []
  rw [residue_nil] at hall
  exact hall

/-- The segments that are not empty and fit in the buffer. -/
def fitting (segments : List (List α)) : List (List α) :=
  segments.filter fun segment => 0 < segment.length ∧ segment.length < f.capacity

variable {f} in
theorem fitting_cons_of_long {segment : List α} (h : f.capacity ≤ segment.length)
    (segments : List (List α)) : f.fitting (segment :: segments) = f.fitting segments := by
  have hnot : ¬ (0 < segment.length ∧ segment.length < f.capacity) := fun hboth => by omega
  exact List.filter_cons_of_neg (by simpa using hnot)

/-- A segment shorter than the capacity passes through the buffer unchanged. -/
theorem residues_cons_of_short {segment : List α} (h : segment.length < f.capacity)
    (segments : List (List α)) :
    f.residues (segment :: segments) = f.fitting [segment] ++ f.residues segments ∧
      f.fitting (segment :: segments) = f.fitting [segment] ++ f.fitting segments := by
  constructor
  · rw [residues, List.map_cons, residue_of_lt f h]
    by_cases hlen : 0 < segment.length
    · rw [List.filter_cons_of_pos (by simpa using hlen), fitting,
        List.filter_cons_of_pos (by simpa using ⟨hlen, h⟩)]
      rfl
    · rw [List.filter_cons_of_neg (by simpa using hlen), fitting,
        List.filter_cons_of_neg (by simpa using fun hpos => absurd hpos hlen)]
      rfl
  · exact List.filter_append [segment] segments

/-- A longer segment leaves nothing exactly when it fills the buffer a whole number of times. -/
theorem residues_cons_of_long (segment : List α) (segments : List (List α)) :
    (f.capacity ∣ segment.length → f.residues (segment :: segments) = f.residues segments) ∧
      (¬ f.capacity ∣ segment.length →
        (f.residues (segment :: segments)).length = (f.residues segments).length + 1) := by
  constructor
  · intro hdvd
    rw [residues, List.map_cons, (residue_eq_nil_iff f).mpr hdvd]
    exact List.filter_cons_of_neg (by simp)
  · intro hdvd
    have hleft : 0 < (f.residue segment).length := by
      rw [List.length_pos_iff]
      exact fun h => hdvd ((residue_eq_nil_iff f).mp h)
    rw [residues, List.map_cons, List.filter_cons_of_pos (by simpa using hleft), List.length_cons]
    rfl

theorem length_fitting_le (segments : List (List α)) :
    (f.fitting segments).length ≤ (f.residues segments).length := by
  induction segments with
  | nil => rfl
  | cons segment segments ih =>
    rcases lt_or_ge segment.length f.capacity with hshort | hlong
    · obtain ⟨hresidues, hfitting⟩ := f.residues_cons_of_short hshort segments
      rw [hresidues, hfitting, List.length_append, List.length_append]
      omega
    · obtain ⟨hnothing, hsomething⟩ := f.residues_cons_of_long segment segments
      rw [fitting_cons_of_long hlong]
      by_cases hdvd : f.capacity ∣ segment.length
      · rw [hnothing hdvd]
        exact ih
      · rw [hsomething hdvd]
        omega

theorem residues_eq_fitting_iff (segments : List (List α)) :
    f.residues segments = f.fitting segments ↔
      ∀ segment ∈ segments, f.capacity ≤ segment.length → f.capacity ∣ segment.length := by
  induction segments with
  | nil => simp [residues, fitting]
  | cons segment segments ih =>
    rw [List.forall_mem_cons, ← ih]
    rcases lt_or_ge segment.length f.capacity with hshort | hlong
    · obtain ⟨hresidues, hfitting⟩ := f.residues_cons_of_short hshort segments
      rw [hresidues, hfitting, List.append_cancel_left_eq]
      constructor
      · exact fun h => ⟨fun hlong => absurd hshort (not_lt.mpr hlong), h⟩
      · exact fun h => h.2
    · obtain ⟨hnothing, hsomething⟩ := f.residues_cons_of_long segment segments
      rw [fitting_cons_of_long hlong]
      by_cases hdvd : f.capacity ∣ segment.length
      · rw [hnothing hdvd]
        constructor
        · exact fun h => ⟨fun _ => hdvd, h⟩
        · exact fun h => h.2
      · constructor
        · intro h
          have hcount := hsomething hdvd
          have hle := f.length_fitting_le segments
          rw [h] at hcount
          omega
        · exact fun h => absurd (h.1 hlong) hdvd

/-- The lines are the segments that fit, unless a longer segment leaves something. -/
theorem lines_eq_fitting_iff (xs : List α) :
    f.lines [] xs = f.fitting (f.terminated xs) ↔
      ∀ segment ∈ f.terminated xs, f.capacity ≤ segment.length → f.capacity ∣ segment.length := by
  rw [lines_eq]
  exact f.residues_eq_fitting_iff (f.terminated xs)

end Framer

end Framing
