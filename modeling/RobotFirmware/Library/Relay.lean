import RobotFirmware.Library.Path

/-! Elements that pass through a store in the order in which they come: what the events of a
history bring, what has left the store and what it still holds. Also the latest event that made
a property of the state true. -/
namespace Trace

variable {σ ι α β : Type*} {step : σ → ι → σ → Prop} {a c : σ} {h : List (Event σ ι)}

/-- All that the events of a history bring, oldest first. -/
def brought (f : Event σ ι → List α) (h : List (Event σ ι)) : List α := h.reverse.flatMap f

@[simp] theorem brought_nil (f : Event σ ι → List α) : brought f [] = [] := rfl

@[simp] theorem brought_cons (f : Event σ ι → List α) (x : Event σ ι) (h : List (Event σ ι)) :
    brought f (x :: h) = brought f h ++ f x := by
  unfold brought
  rw [List.reverse_cons, List.flatMap_append, List.flatMap_singleton]

theorem mem_brought {f : Event σ ι → List α} {y : α} :
    y ∈ brought f h ↔ ∃ x ∈ h, y ∈ f x := by
  unfold brought
  simp only [List.mem_flatMap, List.mem_reverse]

theorem brought_filterMap (f : Event σ ι → List α) (g : α → Option β) (h : List (Event σ ι)) :
    brought (fun x => (f x).filterMap g) h = (brought f h).filterMap g := by
  induction h with
  | nil => rfl
  | cons x h ih => rw [brought_cons, brought_cons, List.filterMap_append, ih]

theorem brought_congr {f g : Event σ ι → List α} (hfg : ∀ x ∈ h, f x = g x) :
    brought f h = brought g h := by
  induction h with
  | nil => rfl
  | cons x h ih =>
    have hrest := ih fun y hy => hfg y (List.mem_cons_of_mem _ hy)
    rw [brought_cons, brought_cons, hrest, hfg x List.mem_cons_self]

/-- Events that bring less bring a part of the whole, in the same order. -/
theorem brought_sublist {f g : Event σ ι → List α} (hfg : ∀ x ∈ h, (f x).Sublist (g x)) :
    (brought f h).Sublist (brought g h) := by
  induction h with
  | nil => exact List.Sublist.refl _
  | cons x h ih =>
    have hrest := ih fun y hy => hfg y (List.mem_cons_of_mem _ hy)
    have hfirst := hfg x List.mem_cons_self
    rw [brought_cons, brought_cons]
    exact hrest.append hfirst

/-- What leaves a store, followed by what it holds, is what it has been brought, if every step
takes from the front and adds at the back. -/
theorem Path.relay {held : σ → List α} {f g : Event σ ι → List α} (hempty : held a = [])
    (hstep : ∀ x, step x.before x.label x.after → g x ++ held x.after = held x.before ++ f x)
    (hp : Path step a h c) : brought g h ++ held c = brought f h := by
  induction hp with
  | refl =>
    rw [hempty]
    rfl
  | @snoc h s s' i _ hs ih =>
    have hlast := hstep ⟨s, i, s'⟩ hs
    calc brought g (⟨s, i, s'⟩ :: h) ++ held s'
        = brought g h ++ (g ⟨s, i, s'⟩ ++ held s') := by
          rw [brought_cons, List.append_assoc]
      _ = brought g h ++ held s ++ f ⟨s, i, s'⟩ := by
          rw [hlast, List.append_assoc]
      _ = brought f (⟨s, i, s'⟩ :: h) := by
          rw [ih, brought_cons]

/-- A property that fails at the start and holds at the end has become true at some event and
has held ever since. -/
theorem Path.exists_latest_entry {P : σ → Prop} (hp : Path step a h c) (ha : ¬ P a) (hc : P c) :
    ∃ new e old, h = new ++ e :: old ∧ ¬ P e.before ∧ P e.after ∧
      ∀ x ∈ new, P x.before ∧ P x.after := by
  induction hp with
  | refl => exact absurd hc ha
  | @snoc old s s' i _ _ ih =>
    by_cases hs : P s
    · obtain ⟨new, e, old', rfl, hb, hf, hn⟩ := ih hs
      refine ⟨⟨s, i, s'⟩ :: new, e, old', rfl, hb, hf, ?_⟩
      intro x hx
      rcases List.mem_cons.mp hx with rfl | hx
      · exact ⟨hs, hc⟩
      · exact hn x hx
    · exact ⟨[], ⟨s, i, s'⟩, old, rfl, hs, hc, nofun⟩

end Trace
