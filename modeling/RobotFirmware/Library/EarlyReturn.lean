import Mathlib.Data.List.Basic

/-! Programs over a state that may return early with an error: what holds at either end. -/
namespace EarlyReturn

variable {ε ε' σ α β : Type} {x : EStateM ε σ α} {f : α → EStateM ε σ β} {s : σ}
  {P P' : α → σ → Prop} {R : β → σ → Prop} {Q Q' : ε → σ → Prop}

/-- From `s` the program ends with `P` or returns early with `Q`. -/
def Ends (x : EStateM ε σ α) (s : σ) (P : α → σ → Prop) (Q : ε → σ → Prop) : Prop :=
  match x s with
  | .ok a t => P a t
  | .error e t => Q e t

theorem Ends.ok {a : α} {t : σ} (h : Ends x s P Q) (hx : x s = .ok a t) : P a t := by
  unfold Ends at h
  rwa [hx] at h

theorem Ends.error {e : ε} {t : σ} (h : Ends x s P Q) (hx : x s = .error e t) : Q e t := by
  unfold Ends at h
  rwa [hx] at h

theorem Ends.bind (hx : Ends x s P Q) (hf : ∀ a t, P a t → Ends (f a) t R Q) :
    Ends (x >>= f) s R Q := by
  unfold Ends at hx ⊢
  show match EStateM.bind x f s with
    | .ok a t => R a t
    | .error e t => Q e t
  unfold EStateM.bind
  cases hrun : x s with
  | ok a t =>
    rw [hrun] at hx
    exact hf a t hx
  | error e t =>
    rw [hrun] at hx
    exact hx

theorem Ends.mono (hx : Ends x s P Q) (hP : ∀ a t, P a t → P' a t)
    (hQ : ∀ e t, Q e t → Q' e t) : Ends x s P' Q' := by
  unfold Ends at hx ⊢
  cases hrun : x s with
  | ok a t =>
    rw [hrun] at hx
    exact hP a t hx
  | error e t =>
    rw [hrun] at hx
    exact hQ e t hx

/-- Renaming the error. -/
theorem Ends.adapt {g : ε → ε'} {Q' : ε' → σ → Prop} (hx : Ends x s P fun e => Q' (g e)) :
    Ends (x.adaptExcept g) s P Q' := by
  unfold Ends EStateM.adaptExcept at *
  cases hrun : x s with
  | ok a t =>
    rw [hrun] at hx
    exact hx
  | error e t =>
    rw [hrun] at hx
    exact hx

/-- The program, followed by `cleanup` where it returns early. -/
def orCleanUp (cleanup : σ → σ) (x : EStateM ε σ α) : EStateM ε σ α := fun s =>
  match x s with
  | .ok a t => .ok a t
  | .error e t => .error e (cleanup t)

theorem Ends.orCleanUp {cleanup : σ → σ} (hx : Ends x s P fun e t => Q e (cleanup t)) :
    Ends (orCleanUp cleanup x) s P Q := by
  unfold Ends EarlyReturn.orCleanUp at *
  cases hrun : x s with
  | ok a t =>
    rw [hrun] at hx
    exact hx
  | error e t =>
    rw [hrun] at hx
    exact hx

/-- A computation without a state that ends with `P` or returns early with `Q`. -/
def ExceptEnds (x : Except ε α) (P : α → Prop) (Q : ε → Prop) : Prop :=
  match x with
  | .ok a => P a
  | .error e => Q e

theorem ExceptEnds.bind {x : Except ε α} {f : α → Except ε β} {P : α → Prop} {R : β → Prop}
    {Q : ε → Prop} (hx : ExceptEnds x P Q) (hf : ∀ a, P a → ExceptEnds (f a) R Q) :
    ExceptEnds (x >>= f) R Q := by
  cases x with
  | ok a => exact hf a hx
  | error e => exact hx

end EarlyReturn
