import Mathlib.Data.List.Basic

/-! Bounded first-in first-out queues: sending without waiting, receiving without waiting, and
overwriting the one element of a queue of length one. -/
namespace Queue

/-- The waiting elements, oldest first, within the capacity. -/
structure Fifo (α : Type) (capacity : ℕ) where
  items : List α
  fits : items.length ≤ capacity

namespace Fifo

variable {α : Type} {capacity : ℕ} {q q' : Fifo α capacity} {x : α}

def empty : Fifo α capacity := ⟨[], Nat.zero_le _⟩

/-- Whether the element was taken, and the queue; a full queue takes nothing. -/
def send (q : Fifo α capacity) (x : α) : Bool × Fifo α capacity :=
  if h : q.items.length < capacity then
    (true, ⟨q.items ++ [x], by rw [List.length_append, List.length_singleton]; omega⟩)
  else (false, q)

/-- The oldest element and the rest, if there is one. -/
def receive (q : Fifo α capacity) : Option (α × Fifo α capacity) :=
  match h : q.items with
  | [] => none
  | x :: rest => some (x, ⟨rest, by have := q.fits; rw [h, List.length_cons] at this; omega⟩)

theorem send_of_room (hr : q.items.length < capacity) :
    (q.send x).1 = true ∧ (q.send x).2.items = q.items ++ [x] := by
  unfold send
  rw [dif_pos hr]
  exact ⟨rfl, rfl⟩

theorem send_items (q : Fifo α capacity) (x : α) :
    (q.send x).2.items = q.items ++ [x] ∨ (q.send x).2.items = q.items := by
  unfold send
  split_ifs
  · exact .inl rfl
  · exact .inr rfl

theorem receive_eq_none : q.receive = none ↔ q.items = [] := by
  unfold receive
  split
  · next h => simp [h]
  · next h => simp [h]

theorem items_of_receive (hr : q.receive = some (x, q')) : q.items = x :: q'.items := by
  unfold receive at hr
  split at hr
  · cases hr
  · next h =>
    cases hr
    exact h

/-- The queue of length one after its element is replaced. -/
def overwrite (_ : Fifo α 1) (x : α) : Fifo α 1 := ⟨[x], Nat.le_refl 1⟩

end Fifo

end Queue
