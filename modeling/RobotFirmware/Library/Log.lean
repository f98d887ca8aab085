import Mathlib.Data.List.Basic

/-! Logs, newest event first, in which every event is judged by the older ones. -/
namespace Log

variable {ε : Type*} {allowed : List ε → ε → Prop} {log older : List ε} {x : ε}

def Judged (allowed : List ε → ε → Prop) : List ε → Prop
  | [] => True
  | x :: older => allowed older x ∧ Judged allowed older

theorem judged_iff : Judged allowed log ↔
    ∀ newer x older, log = newer ++ x :: older → allowed older x := by
  induction log with
  | nil => simp [Judged]
  | cons y log ih =>
    rw [Judged, ih]
    constructor
    · intro h newer x older heq
      cases newer with
      | nil =>
        obtain ⟨rfl, rfl⟩ := List.cons.inj heq
        exact h.1
      | cons z newer => exact h.2 newer x older (List.cons.inj heq).2
    · intro h
      refine ⟨h [] y log rfl, fun newer x older heq => ?_⟩
      exact h (y :: newer) x older (by rw [heq, List.cons_append])

theorem Judged.of_append {new : List ε} (h : Judged allowed (new ++ log)) :
    Judged allowed log := by
  induction new with
  | nil => exact h
  | cons x new ih => exact ih h.2

/-- New events that the log allows whatever comes between. -/
theorem Judged.append {new : List ε} (h : Judged allowed log)
    (hnew : ∀ newer x older, new = newer ++ x :: older → allowed (older ++ log) x) :
    Judged allowed (new ++ log) := by
  induction new with
  | nil => exact h
  | cons y new ih =>
    refine ⟨hnew [] y new rfl, ih fun newer x older heq => ?_⟩
    exact hnew (y :: newer) x older (by rw [heq, List.cons_append])

end Log
