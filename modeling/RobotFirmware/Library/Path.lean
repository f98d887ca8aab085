import Mathlib.Data.List.Basic
import Mathlib.Logic.Function.Iterate

/-! Labelled steps, the finite histories they leave behind, and induction over them.
A history lists its events newest first, so that an induction meets the last step first
and every older suffix is the history of an earlier moment of the same run. -/
namespace Trace

variable {σ ι : Type*}

/-- One observed step: the state it starts from, its label and the state it ends in. -/
structure Event (σ ι : Type*) where
  before : σ
  label : ι
  after : σ

/-- The events of the history lead from `s₀` to the final state. -/
inductive Path (step : σ → ι → σ → Prop) (s₀ : σ) : List (Event σ ι) → σ → Prop
  | refl : Path step s₀ [] s₀
  | snoc {h : List (Event σ ι)} {s s' : σ} {i : ι} :
      Path step s₀ h s → step s i s' → Path step s₀ (⟨s, i, s'⟩ :: h) s'

namespace Path

variable {step : σ → ι → σ → Prop} {a b c : σ} {h new old : List (Event σ ι)} {e : Event σ ι}

theorem append (hab : Path step a old b) (hbc : Path step b new c) :
    Path step a (new ++ old) c := by
  induction hbc with
  | refl => exact hab
  | snoc _ hs ih => exact ih.snoc hs

/-- The newest event of a history is a step out of the state the older events lead to. -/
theorem head (hp : Path step a (e :: old) c) :
    Path step a old e.before ∧ step e.before e.label e.after ∧ e.after = c := by
  cases hp with
  | snoc hp hs => exact ⟨hp, hs, rfl⟩

theorem split (hp : Path step a (new ++ old) c) :
    ∃ b, Path step a old b ∧ Path step b new c := by
  induction new generalizing c with
  | nil => exact ⟨c, hp, .refl⟩
  | cons e new ih =>
    obtain ⟨hp', hs, rfl⟩ := head hp
    obtain ⟨b, hab, hbc⟩ := ih hp'
    exact ⟨b, hab, hbc.snoc hs⟩

/-- Every event of a history divides it into the part before and the part after. -/
theorem at_event (hp : Path step a (new ++ e :: old) c) :
    Path step a old e.before ∧ step e.before e.label e.after ∧ Path step e.after new c := by
  obtain ⟨b, hab, hbc⟩ := hp.split
  obtain ⟨ho, hs, rfl⟩ := hab.head
  exact ⟨ho, hs, hbc⟩

/-- An inductive invariant holds at the end of every run. -/
theorem invariant {P : σ → Prop} (hstep : ∀ s i s', P s → step s i s' → P s')
    (ha : P a) (hp : Path step a h c) : P c := by
  induction hp with
  | refl => exact ha
  | snoc _ hs ih => exact hstep _ _ _ ih hs

/-- An invariant that only guarded events preserve holds where all events are guarded. -/
theorem invariant_of_guard {P : σ → Prop} {G : Event σ ι → Prop}
    (hstep : ∀ s i s', P s → G ⟨s, i, s'⟩ → step s i s' → P s')
    (ha : P a) (hp : Path step a h c) (hg : ∀ e ∈ h, G e) : P c := by
  induction hp with
  | refl => exact ha
  | snoc _ hs ih =>
    exact hstep _ _ _ (ih fun e he => hg e (List.mem_cons_of_mem _ he))
      (hg _ List.mem_cons_self) hs

/-- A state predicate that fails first and holds later becomes true at some event. -/
theorem exists_entry {P : σ → Prop} (hp : Path step a h c) (ha : ¬ P a) (hc : P c) :
    ∃ new e old, h = new ++ e :: old ∧ ¬ P e.before ∧ P e.after := by
  induction hp with
  | refl => exact absurd hc ha
  | @snoc old s s' i _ _ ih =>
    by_cases hs : P s
    · obtain ⟨new, e, old', rfl, hb, hf⟩ := ih hs
      exact ⟨⟨s, i, s'⟩ :: new, e, old', rfl, hb, hf⟩
    · exact ⟨[], ⟨s, i, s'⟩, old, rfl, hs, hc⟩

/-- A relation that every step keeps, with any number of steps on the other side. -/
theorem simulation {τ κ : Type*} {step' : τ → κ → τ → Prop} {R : σ → τ → Prop} {b : τ}
    (hstep : ∀ s i s' t, R s t → step s i s' → ∃ t' h', Path step' t h' t' ∧ R s' t')
    (hab : R a b) (hp : Path step a h c) : ∃ d h', Path step' b h' d ∧ R c d := by
  induction hp with
  | refl => exact ⟨b, [], .refl, hab⟩
  | snoc _ hs ih =>
    obtain ⟨d, h', hp', hcd⟩ := ih
    obtain ⟨d', new, hnew, hc⟩ := hstep _ _ _ d hcd hs
    exact ⟨d', new ++ h', hp'.append hnew, hc⟩

end Path

def Det (f : σ → ι → σ) (s : σ) (i : ι) (s' : σ) : Prop := f s i = s'

/-- The events of running a function over a list of labels, newest first. -/
def history (f : σ → ι → σ) (s : σ) : List ι → List (Event σ ι)
  | [] => []
  | i :: is => history f (f s i) is ++ [⟨s, i, f s i⟩]

theorem path_history (f : σ → ι → σ) (s : σ) (is : List ι) :
    Path (Det f) s (history f s is) (is.foldl f s) := by
  induction is generalizing s with
  | nil => exact .refl
  | cons i is ih => exact Path.append (.snoc .refl rfl) (ih (f s i))

theorem history_label (f : σ → ι → σ) (s : σ) (is : List ι) :
    (history f s is).map Event.label = is.reverse := by
  induction is generalizing s with
  | nil => rfl
  | cons i is ih =>
    rw [history, List.map_append, ih, List.reverse_cons]
    rfl

theorem history_append (f : σ → ι → σ) (s : σ) (is js : List ι) :
    history f s (is ++ js) = history f (is.foldl f s) js ++ history f s is := by
  induction is generalizing s with
  | nil => exact (List.append_nil _).symm
  | cons i is ih =>
    rw [List.cons_append, history, ih, history, List.foldl_cons, List.append_assoc]

/-- The step relation of a function that refuses what is not enabled. -/
def Enabled (f : σ → ι → Option σ) (s : σ) (i : ι) (s' : σ) : Prop := f s i = some s'

def runAll (f : σ → ι → Option σ) (s : σ) : List ι → Option σ
  | [] => some s
  | i :: is => (f s i).bind fun s' => runAll f s' is

theorem path_of_runAll {f : σ → ι → Option σ} {s s' : σ} {is : List ι}
    (hr : runAll f s is = some s') :
    ∃ h, Path (Enabled f) s h s' ∧ h.map Event.label = is.reverse := by
  induction is generalizing s with
  | nil =>
    cases hr
    exact ⟨[], .refl, rfl⟩
  | cons i is ih =>
    unfold runAll at hr
    obtain ⟨t, ht, hrest⟩ := Option.bind_eq_some_iff.mp hr
    obtain ⟨h, hp, hl⟩ := ih hrest
    refine ⟨h ++ [⟨s, i, t⟩], Path.append (.snoc .refl ht) hp, ?_⟩
    rw [List.map_append, hl, List.reverse_cons]
    rfl

/-- Some past event satisfied `P`, and no later one satisfied `Q`. -/
def Since (P Q : Event σ ι → Prop) : List (Event σ ι) → Prop
  | [] => False
  | e :: h => P e ∨ (¬ Q e ∧ Since P Q h)

instance Since.decidable (P Q : Event σ ι → Prop) [DecidablePred P] [DecidablePred Q] :
    (h : List (Event σ ι)) → Decidable (Since P Q h)
  | [] => inferInstanceAs (Decidable False)
  | e :: h =>
    have := Since.decidable P Q h
    inferInstanceAs (Decidable (P e ∨ (¬ Q e ∧ Since P Q h)))

/-- A flag that `P` sets, that `Q` otherwise clears and that nothing else touches records
exactly whether `P` has happened since the last `Q`. -/
theorem Path.flag_iff_since {step : σ → ι → σ → Prop} {a c : σ} {h : List (Event σ ι)}
    (flag : σ → Prop) {P Q : Event σ ι → Prop} (ha : ¬ flag a)
    (hstep : ∀ e : Event σ ι, step e.before e.label e.after →
      (flag e.after ↔ P e ∨ (¬ Q e ∧ flag e.before)))
    (hp : Path step a h c) : flag c ↔ Since P Q h := by
  induction hp with
  | refl => simpa [Since] using ha
  | snoc _ hs ih => rw [hstep ⟨_, _, _⟩ hs, ih, Since]

/-- Counting events of one kind backwards until the first event of another. -/
def countSince (inc reset : Event σ ι → Prop) [DecidablePred inc] [DecidablePred reset] :
    List (Event σ ι) → ℕ
  | [] => 0
  | e :: h => if reset e then 0 else if inc e then countSince inc reset h + 1
    else countSince inc reset h

/-- Where nothing is cleared, the new events add their own increments. -/
theorem countSince_append {inc reset : Event σ ι → Prop} [DecidablePred inc]
    [DecidablePred reset] {new : List (Event σ ι)} (old : List (Event σ ι))
    (hn : ∀ e ∈ new, ¬ reset e) : countSince inc reset (new ++ old) =
      countSince inc reset old + new.countP fun e => inc e := by
  induction new with
  | nil => rfl
  | cons e new ih =>
    have he : ¬ reset e := hn e List.mem_cons_self
    have hrest := ih fun x hx => hn x (List.mem_cons_of_mem _ hx)
    rw [List.cons_append, countSince, if_neg he, List.countP_cons, hrest]
    by_cases hi : inc e
    · simp only [hi, if_true, decide_true]
      omega
    · simp [hi]

/-- A counter that one kind of event clears, another increments and the rest leave alone
is the number of increments since the last clearing event. -/
theorem Path.counter_eq_countSince {step : σ → ι → σ → Prop} {a c : σ} {h : List (Event σ ι)}
    (count : σ → ℕ) (inc reset : Event σ ι → Prop) [DecidablePred inc] [DecidablePred reset]
    {P : σ → Prop} (hP : ∀ s i s', P s → step s i s' → P s') (haP : P a) (ha : count a = 0)
    (hstep : ∀ e : Event σ ι, P e.before → step e.before e.label e.after →
      count e.after = if reset e then 0 else if inc e then count e.before + 1 else count e.before)
    (hp : Path step a h c) : count c = countSince inc reset h := by
  induction hp with
  | refl => exact ha
  | snoc hp hs ih => rw [hstep ⟨_, _, _⟩ (hp.invariant hP haP) hs, ih, countSince]

/-- A quantity that one kind of event bumps and the rest leave alone. -/
theorem Path.tally {M : Type*} {step : σ → ι → σ → Prop} {a c : σ} {h : List (Event σ ι)}
    (count : σ → M) (bump : M → M) (inc : Event σ ι → Prop) [DecidablePred inc]
    {P : σ → Prop} (hP : ∀ s i s', P s → step s i s' → P s') (haP : P a)
    (hstep : ∀ e : Event σ ι, P e.before → step e.before e.label e.after →
      count e.after = if inc e then bump (count e.before) else count e.before)
    (hp : Path step a h c) : count c = bump^[h.countP fun e => inc e] (count a) := by
  induction hp with
  | refl => rfl
  | @snoc old s s' i hp hs ih =>
    have hlast := hstep ⟨s, i, s'⟩ (hp.invariant hP haP) hs
    dsimp only at hlast
    rw [hlast, ih, List.countP_cons]
    by_cases hi : inc ⟨s, i, s'⟩
    · simp only [hi, if_true, decide_true]
      exact (Function.iterate_succ_apply' bump _ _).symm
    · simp [hi]

end Trace
