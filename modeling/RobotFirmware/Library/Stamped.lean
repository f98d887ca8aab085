import Mathlib.Data.List.Flatten
import Mathlib.Order.Lattice
import RobotFirmware.Library.Path

/-! Values with time stamps: the stamps that a periodic task writes, and a reader that tells
new values of a register from old ones by their stamps. -/
namespace Trace

/-- The clock readings of one round of a periodic task. The round stamps some values with fresh
readings and may end with a value that carries the reading of its top. -/
structure Round (α : Type*) where
  top : α
  fresh : List α
  late : Bool

namespace Round

variable {α : Type*}

def readings (r : Round α) : List α := r.top :: r.fresh

def stamps (r : Round α) : List α := r.fresh ++ if r.late then [r.top] else []

/-- The round does not end with the older reading after it has used a fresh one. -/
def Ordered (r : Round α) : Prop := r.late = true → r.fresh = []

theorem Ordered.stamps_sublist {r : Round α} (hr : r.Ordered) : r.stamps.Sublist r.readings := by
  unfold stamps readings
  cases hlate : r.late with
  | false => simp
  | true =>
    rw [hr hlate]
    exact List.Sublist.refl _

variable [LinearOrder α] {start : α} {rounds : List (Round α)}

theorem ordered_of_pairwise {r : Round α} (hclock : r.readings.Pairwise (· < ·))
    (hstamps : r.stamps.Pairwise (· ≤ ·)) : r.Ordered := by
  intro hlate
  by_contra hne
  obtain ⟨x, hx⟩ := List.exists_mem_of_ne_nil _ hne
  have hlater : r.top < x := (List.pairwise_cons.mp hclock).1 x hx
  have hlast : r.stamps = r.fresh ++ [r.top] := by rw [stamps, hlate, if_pos rfl]
  rw [hlast] at hstamps
  have hle : x ≤ r.top := (List.pairwise_append.mp hstamps).2.2 x hx _ (List.mem_singleton_self _)
  exact absurd hle (not_le.mpr hlater)

/-- Under a running clock ordered rounds never repeat a stamp. -/
theorem stamps_increasing (hclock : (start :: rounds.flatMap readings).Pairwise (· < ·))
    (ho : ∀ r ∈ rounds, r.Ordered) : (start :: rounds.flatMap stamps).Pairwise (· < ·) := by
  have hsub : (rounds.flatMap stamps).Sublist (rounds.flatMap readings) :=
    List.Sublist.flatMap_right rounds fun r hr => (ho r hr).stamps_sublist
  exact hclock.sublist (hsub.cons_cons start)

/-- Under a running clock the stamps stay in order exactly when every round is ordered. -/
theorem stamps_nondecreasing_iff
    (hclock : (start :: rounds.flatMap readings).Pairwise (· < ·)) :
    (start :: rounds.flatMap stamps).Pairwise (· ≤ ·) ↔ ∀ r ∈ rounds, r.Ordered := by
  constructor
  · intro hstamps r hr
    have hreadings := (List.pairwise_flatMap.mp (List.pairwise_cons.mp hclock).2).1 r hr
    have hwritten := (List.pairwise_flatMap.mp (List.pairwise_cons.mp hstamps).2).1 r hr
    exact ordered_of_pairwise hreadings hwritten
  · intro ho
    exact (stamps_increasing hclock ho).imp le_of_lt

end Round

/-- A register, and a reader that takes a copy of its value and may publish what it took. -/
structure Reader {σ ι : Type*} (step : σ → ι → σ → Prop) (V : Type*) where
  value : σ → V
  taken : σ → Option V
  Publishes : Event σ ι → V → Prop
  /-- A copy that was not there before is a copy of the value. -/
  takes : ∀ e : Event σ ι, step e.before e.label e.after →
    ∀ v ∈ taken e.after, v ∈ taken e.before ∨ v = value e.after
  publishes : ∀ (e : Event σ ι) (v : V), step e.before e.label e.after →
    Publishes e v → v ∈ taken e.before

namespace Reader

variable {σ ι V α : Type*} [LinearOrder α] {step : σ → ι → σ → Prop} (R : Reader step V)
  (stamp : V → α) {s₀ s : σ} {h new old : List (Event σ ι)} {e p : Event σ ι} {v w : V}

/-- The event keeps the value or writes one with a later stamp. -/
def Raises (e : Event σ ι) : Prop :=
  R.value e.after = R.value e.before ∨ stamp (R.value e.before) < stamp (R.value e.after)

/-- The value of the register, now or before some event. -/
def Past (h : List (Event σ ι)) (s : σ) (v : V) : Prop :=
  v = R.value s ∨ ∃ e ∈ h, v = R.value e.before

variable {R stamp}

theorem Past.snoc {s' : σ} {i : ι} (hv : R.Past h s v) : R.Past (⟨s, i, s'⟩ :: h) s' v := by
  rcases hv with rfl | ⟨e, he, rfl⟩
  · exact .inr ⟨_, List.mem_cons_self, rfl⟩
  · exact .inr ⟨e, List.mem_cons_of_mem _ he, rfl⟩

theorem Past.of_snoc {s' : σ} {i : ι} (hv : R.Past (⟨s, i, s'⟩ :: h) s' v) :
    R.Past h s v ∨ v = R.value s' := by
  rcases hv with rfl | ⟨e, he, rfl⟩
  · exact .inr rfl
  · rcases List.mem_cons.mp he with rfl | he
    · exact .inl (.inl rfl)
    · exact .inl (.inr ⟨e, he, rfl⟩)

theorem past_le (hp : Path step s₀ h s) (hr : ∀ e ∈ h, R.Raises stamp e)
    (hv : R.Past h s v) : v = R.value s ∨ stamp v < stamp (R.value s) := by
  induction hp with
  | refl =>
    rcases hv with rfl | ⟨e, he, _⟩
    · exact .inl rfl
    · cases he
  | @snoc old s s' i _ _ ih =>
    rcases hv.of_snoc with hold | rfl
    · have hbefore := ih (fun e he => hr e (List.mem_cons_of_mem _ he)) hold
      have hraise : R.value s' = R.value s ∨ stamp (R.value s) < stamp (R.value s') :=
        hr _ List.mem_cons_self
      rcases hraise with hkept | hlater
      · rw [hkept]
        exact hbefore
      · rcases hbefore with rfl | hlt
        · exact .inr hlater
        · exact .inr (hlt.trans hlater)
    · exact .inl rfl

/-- Two past values with one stamp are the same value. -/
theorem past_inj (hp : Path step s₀ h s) (hr : ∀ e ∈ h, R.Raises stamp e)
    (hv : R.Past h s v) (hw : R.Past h s w) (heq : stamp v = stamp w) : v = w := by
  induction hp with
  | refl =>
    rcases hv with rfl | ⟨e, he, _⟩
    · rcases hw with rfl | ⟨e, he, _⟩
      · rfl
      · cases he
    · cases he
  | @snoc old s s' i hp hs ih =>
    have hp' : Path step s₀ (⟨s, i, s'⟩ :: old) s' := hp.snoc hs
    rcases hv.of_snoc with hvold | rfl
    · rcases hw.of_snoc with hwold | rfl
      · exact ih (fun e he => hr e (List.mem_cons_of_mem _ he)) hvold hwold
      · exact (past_le hp' hr hv).resolve_right heq.not_lt
    · exact ((past_le hp' hr hw).resolve_right heq.symm.not_lt).symm

/-- What the reader holds was the value at some moment. -/
theorem taken_past (hp : Path step s₀ h s) (h₀ : R.taken s₀ = none) (hv : v ∈ R.taken s) :
    R.Past h s v := by
  induction hp with
  | refl =>
    rw [h₀] at hv
    cases hv
  | @snoc old s s' i _ hs ih =>
    rcases R.takes ⟨s, i, s'⟩ hs v hv with hbefore | rfl
    · exact (ih hbefore).snoc
    · exact .inl rfl

theorem published_past (hp : Path step s₀ h s) (h₀ : R.taken s₀ = none) (he : p ∈ h)
    (hpub : R.Publishes p v) : R.Past h s v := by
  induction hp with
  | refl => cases he
  | @snoc old s s' i hp hs ih =>
    rcases List.mem_cons.mp he with rfl | he
    · exact (taken_past hp h₀ (R.publishes _ v hs hpub)).snoc
    · exact (ih he).snoc

/-- Nothing the reader holds is older than what it has published. -/
theorem published_le_taken (hp : Path step s₀ h s) (h₀ : R.taken s₀ = none)
    (hr : ∀ e ∈ h, R.Raises stamp e) (he : p ∈ h) (hpub : R.Publishes p v)
    (hw : w ∈ R.taken s) : stamp v ≤ stamp w := by
  induction hp with
  | refl => cases he
  | @snoc old s s' i hp hs ih =>
    have hpast := published_past (hp.snoc hs) h₀ he hpub
    rcases R.takes ⟨s, i, s'⟩ hs w hw with hheld | rfl
    · rcases List.mem_cons.mp he with rfl | he
      · have hsame : w = v := Option.mem_unique hheld (R.publishes _ v hs hpub)
        exact (congrArg stamp hsame).ge
      · exact ih (fun e he => hr e (List.mem_cons_of_mem _ he)) he hheld
    · rcases past_le (hp.snoc hs) hr hpast with rfl | hlt
      · exact le_rfl
      · exact hlt.le

/-- A copy that is no newer than something published has been published itself. -/
theorem eq_published_of_le (hp : Path step s₀ h s) (h₀ : R.taken s₀ = none)
    (hr : ∀ e ∈ h, R.Raises stamp e) (he : p ∈ h) (hpub : R.Publishes p v)
    (hw : w ∈ R.taken s) (hle : stamp w ≤ stamp v) : w = v := by
  have hge := published_le_taken hp h₀ hr he hpub hw
  exact past_inj hp hr (taken_past hp h₀ hw) (published_past hp h₀ he hpub) (le_antisymm hle hge)

/-- Whatever is written after a publication is newer than what was published. -/
theorem published_lt_written (hp : Path step s₀ (new ++ e :: old) s) (h₀ : R.taken s₀ = none)
    (hr : ∀ x ∈ new ++ e :: old, R.Raises stamp x) (he : p ∈ old) (hpub : R.Publishes p v)
    (hw : stamp (R.value e.before) < stamp (R.value e.after)) :
    stamp v < stamp (R.value e.after) := by
  obtain ⟨hbefore, _, _⟩ := hp.at_event
  have hold : ∀ x ∈ old, R.Raises stamp x := fun x hx =>
    hr x (List.mem_append_right _ (List.mem_cons_of_mem _ hx))
  rcases past_le hbefore hold (published_past hbefore h₀ he hpub) with rfl | hlt
  · exact hw
  · exact hlt.trans hw

end Reader

end Trace
