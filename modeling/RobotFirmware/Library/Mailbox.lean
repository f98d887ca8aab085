import RobotFirmware.Library.Path

/-! What a history says about a mailbox that keeps the latest value only: which value was sent
last, which one a reader received last, which receive took it and who used it first. -/
namespace Trace

/-- How the events of a history send to a mailbox, receive from it and use what was received. -/
structure Mailbox (σ ι α : Type*) where
  sent : Event σ ι → Option α
  Receives : Event σ ι → Prop
  Uses : Event σ ι → Prop
  decReceives : DecidablePred Receives
  decUses : DecidablePred Uses
  sent_of_receives (x : Event σ ι) : Receives x → sent x = none
  not_receives_of_uses (x : Event σ ι) : Uses x → ¬ Receives x

namespace Mailbox

variable {σ ι α : Type*} {m : Mailbox σ ι α} {h : List (Event σ ι)} {x : Event σ ι} {v : α}

instance (m : Mailbox σ ι α) : DecidablePred m.Receives := m.decReceives

instance (m : Mailbox σ ι α) : DecidablePred m.Uses := m.decUses

def Sends (m : Mailbox σ ι α) (x : Event σ ι) : Prop := (m.sent x).isSome = true

instance (m : Mailbox σ ι α) : DecidablePred m.Sends :=
  fun x => inferInstanceAs (Decidable ((m.sent x).isSome = true))

def latest (m : Mailbox σ ι α) : List (Event σ ι) → Option α
  | [] => none
  | x :: h => (m.sent x).or (m.latest h)

def received (m : Mailbox σ ι α) : List (Event σ ι) → Option α
  | [] => none
  | x :: h => if m.Receives x then m.latest h else m.received h

/-- A value has been sent since the last receive. -/
def Unread (m : Mailbox σ ι α) (h : List (Event σ ι)) : Prop := Since m.Sends m.Receives h

instance (m : Mailbox σ ι α) (h : List (Event σ ι)) : Decidable (m.Unread h) :=
  inferInstanceAs (Decidable (Since m.Sends m.Receives h))

def firstUse (m : Mailbox σ ι α) : List (Event σ ι) → Option (Event σ ι)
  | [] => none
  | x :: h =>
    if m.Uses x then some ((m.firstUse h).getD x)
    else if m.Receives x ∧ m.Unread h then none
    else m.firstUse h

theorem latest_of_sent (hs : m.sent x = some v) : m.latest (x :: h) = some v := by
  rw [latest, hs, Option.some_or]

theorem unread_of_sent (hs : m.sent x = some v) : m.Unread (x :: h) := by
  left
  show (m.sent x).isSome = true
  rw [hs, Option.isSome_some]

theorem cons_of_quiet (hs : m.sent x = none) (hr : ¬ m.Receives x) :
    m.latest (x :: h) = m.latest h ∧ m.received (x :: h) = m.received h ∧
      (m.Unread (x :: h) ↔ m.Unread h) := by
  have hn : ¬ m.Sends x := by
    unfold Sends
    rw [hs]
    simp
  refine ⟨?_, if_neg hr, ?_⟩
  · rw [latest, hs, Option.none_or]
  · unfold Unread
    rw [Since]
    simp [hn, hr]

theorem cons_of_receives (hr : m.Receives x) :
    m.latest (x :: h) = m.latest h ∧ m.received (x :: h) = m.latest h ∧
      ¬ m.Unread (x :: h) := by
  have hs := m.sent_of_receives x hr
  refine ⟨?_, if_pos hr, ?_⟩
  · rw [latest, hs, Option.none_or]
  · unfold Unread
    rw [Since]
    simp [Sends, hs, hr]

theorem received_of_read (hn : ¬ m.Unread h) : m.received h = m.latest h := by
  induction h with
  | nil => rfl
  | cons x h ih =>
    by_cases hr : m.Receives x
    · obtain ⟨hlatest, hreceived, _⟩ := cons_of_receives (h := h) hr
      rw [hlatest, hreceived]
    · cases hs : m.sent x with
      | some v => exact absurd (unread_of_sent hs) hn
      | none =>
        obtain ⟨hlatest, hreceived, hunread⟩ := cons_of_quiet (h := h) hs hr
        rw [hlatest, hreceived]
        exact ih fun h => hn (hunread.mpr h)

theorem received_append {new old : List (Event σ ι)} (hn : ∀ y ∈ new, ¬ m.Receives y) :
    m.received (new ++ old) = m.received old := by
  induction new with
  | nil => rfl
  | cons y new ih =>
    have hy : ¬ m.Receives y := hn y List.mem_cons_self
    rw [List.cons_append, received, if_neg hy]
    exact ih fun z hz => hn z (List.mem_cons_of_mem y hz)

/-- In `later ++ take :: unread` the receive `take` is the last that took a new value. -/
structure LatestTake (m : Mailbox σ ι α) (later : List (Event σ ι)) (take : Event σ ι)
    (unread : List (Event σ ι)) : Prop where
  receives : m.Receives take
  took : m.Unread unread
  latest : ∀ newer y older, later = newer ++ y :: older → m.Receives y →
    ¬ m.Unread (older ++ take :: unread)

variable {later unread : List (Event σ ι)} {take : Event σ ι}

theorem LatestTake.cons (ht : m.LatestTake later take unread)
    (hx : m.Receives x → ¬ m.Unread (later ++ take :: unread)) :
    m.LatestTake (x :: later) take unread := by
  refine ⟨ht.receives, ht.took, ?_⟩
  intro newer y older hl hy
  cases newer with
  | nil =>
    obtain ⟨rfl, rfl⟩ := List.cons.inj hl
    exact hx hy
  | cons z newer =>
    obtain ⟨_, hl⟩ := List.cons.inj hl
    exact ht.latest newer y older hl hy

theorem LatestTake.tail (ht : m.LatestTake (x :: later) take unread) :
    m.LatestTake later take unread ∧
      ¬ (m.Receives x ∧ m.Unread (later ++ take :: unread)) := by
  refine ⟨⟨ht.receives, ht.took, ?_⟩, fun h => ht.latest [] x later rfl h.1 h.2⟩
  intro newer y older hl hy
  exact ht.latest (x :: newer) y older (by rw [hl]; rfl) hy

theorem LatestTake.append {new : List (Event σ ι)} (ht : m.LatestTake later take unread)
    (hn : ∀ y ∈ new, ¬ m.Receives y) : m.LatestTake (new ++ later) take unread := by
  induction new with
  | nil => exact ht
  | cons x new ih =>
    have hx : ¬ m.Receives x := hn x List.mem_cons_self
    have hrest := ih fun y hy => hn y (List.mem_cons_of_mem x hy)
    exact hrest.cons fun h => absurd h hx

/-- A value once sent is unread or was taken. -/
theorem exists_latestTake (hl : m.latest h = some v) : m.Unread h ∨
    ∃ later take unread, h = later ++ take :: unread ∧ m.LatestTake later take unread := by
  induction h with
  | nil => cases hl
  | cons x h ih =>
    by_cases hr : m.Receives x
    · right
      obtain ⟨hlatest, _, _⟩ := cons_of_receives (h := h) hr
      rw [hlatest] at hl
      by_cases hnew : m.Unread h
      · exact ⟨[], x, h, rfl, hr, hnew, by simp⟩
      · obtain ⟨later, take, unread, rfl, ht⟩ := (ih hl).resolve_left hnew
        exact ⟨x :: later, take, unread, rfl, ht.cons fun _ => hnew⟩
    · cases hs : m.sent x with
      | some w => exact .inl (unread_of_sent hs)
      | none =>
        obtain ⟨hlatest, _, hunread⟩ := cons_of_quiet (h := h) hs hr
        rw [hlatest] at hl
        rcases ih hl with hnew | ⟨later, take, unread, rfl, ht⟩
        · exact .inl (hunread.mpr hnew)
        · exact .inr ⟨x :: later, take, unread, rfl, ht.cons fun h => absurd h hr⟩

theorem LatestTake.received_eq (ht : m.LatestTake later take unread) :
    m.received (later ++ take :: unread) = m.latest unread := by
  induction later with
  | nil => exact if_pos ht.receives
  | cons x later ih =>
    obtain ⟨htail, hx⟩ := ht.tail
    rw [← ih htail, List.cons_append]
    by_cases hr : m.Receives x
    · have hread : ¬ m.Unread (later ++ take :: unread) := fun h => hx ⟨hr, h⟩
      rw [received_of_read hread]
      exact if_pos hr
    · exact if_neg hr

theorem LatestTake.not_used (ht : m.LatestTake later take unread)
    (hu : m.firstUse (later ++ take :: unread) = none) : ∀ y ∈ later, ¬ m.Uses y := by
  induction later with
  | nil => simp
  | cons x later ih =>
    obtain ⟨htail, hx⟩ := ht.tail
    rw [List.cons_append, firstUse] at hu
    by_cases he : m.Uses x
    · rw [if_pos he] at hu
      cases hu
    · rw [if_neg he, if_neg hx] at hu
      intro y hy
      rcases List.mem_cons.mp hy with rfl | hy
      · exact he
      · exact ih htail hu y hy

/-- The first use is the first event after the take that uses what was received. -/
theorem LatestTake.exists_first {first : Event σ ι} (ht : m.LatestTake later take unread)
    (hu : m.firstUse (later ++ take :: unread) = some first) :
    ∃ newer mid, later = newer ++ first :: mid ∧ m.Uses first ∧ ∀ y ∈ mid, ¬ m.Uses y := by
  induction later with
  | nil =>
    have hne : ¬ m.Uses take := fun h => m.not_receives_of_uses take h ht.receives
    rw [List.nil_append, firstUse, if_neg hne, if_pos ⟨ht.receives, ht.took⟩] at hu
    cases hu
  | cons x later ih =>
    obtain ⟨htail, hx⟩ := ht.tail
    rw [List.cons_append, firstUse, if_neg hx] at hu
    cases hrest : m.firstUse (later ++ take :: unread) with
    | none =>
      rw [hrest] at hu
      by_cases he : m.Uses x
      · rw [if_pos he] at hu
        cases hu
        exact ⟨[], later, rfl, he, htail.not_used hrest⟩
      · rw [if_neg he] at hu
        cases hu
    | some f =>
      rw [hrest, Option.getD_some, ite_self] at hu
      cases hu
      obtain ⟨newer, mid, rfl, hfirst⟩ := ih htail hrest
      exact ⟨x :: newer, mid, rfl, hfirst⟩

/-- The receive `take` took the value, which `first` was the first to use, and no later receive
of the history took another. -/
def ConsumedBy (m : Mailbox σ ι α) (h : List (Event σ ι)) (v : α) (take first : Event σ ι) :
    Prop :=
  ∃ later mid unread, h = later ++ first :: (mid ++ take :: unread) ∧
    m.LatestTake (later ++ first :: mid) take unread ∧ m.latest unread = some v ∧
    m.Uses first ∧ ∀ y ∈ mid, ¬ m.Uses y

/-- What was sent before a receive has been consumed by its first use. -/
theorem exists_consumedBy {new before : List (Event σ ι)} {receive first : Event σ ι}
    (hr : m.Receives receive) (hn : ∀ y ∈ new, ¬ m.Receives y)
    (hl : m.latest before = some v)
    (hu : m.firstUse (new ++ receive :: before) = some first) :
    ∃ take, m.ConsumedBy (new ++ receive :: before) v take first := by
  obtain ⟨hlatest, hreceived, hread⟩ := cons_of_receives (h := before) hr
  have hv : m.received (new ++ receive :: before) = some v := by
    rw [received_append hn, hreceived, hl]
  obtain ⟨later, take, unread, heq, ht⟩ :=
    (exists_latestTake (hlatest.trans hl)).resolve_left hread
  rw [heq, ← List.append_assoc] at hu hv
  have htake : m.LatestTake (new ++ later) take unread := ht.append hn
  rw [htake.received_eq] at hv
  obtain ⟨newer, mid, hsplit, hfirst, hmid⟩ := htake.exists_first hu
  rw [hsplit] at htake
  refine ⟨take, newer, mid, unread, ?_, htake, hv, hfirst, hmid⟩
  rw [heq, ← List.append_assoc, hsplit, List.append_assoc, List.cons_append]

end Mailbox

end Trace
