import RobotFirmware.Library.Log

/-! Logs of taking and giving back resources, newest event first: which resources are held, the
discipline of taking only what is free and giving back only what is held and unused, and giving
back everything in an order that respects the users. -/
namespace Resource

variable {ε R : Type*}

/-- What an event does to a resource. -/
inductive Effect (R : Type*)
  | take (r : R)
  | giveBack (r : R)
  | nothing

variable [DecidableEq R] (effect : ε → Effect R) (users : R → List R)

def live : List ε → R → Bool
  | [], _ => false
  | x :: older, r =>
    match effect x with
    | .take r' => decide (r = r') || live older r
    | .giveBack r' => !decide (r = r') && live older r
    | .nothing => live older r

def Allowed (older : List ε) (x : ε) : Prop :=
  match effect x with
  | .take r => live effect older r = false
  | .giveBack r => live effect older r = true ∧ ∀ u ∈ users r, live effect older u = false
  | .nothing => True

def Disciplined (log : List ε) : Prop := Log.Judged (Allowed effect users) log

def takes (r : R) : List ε → ℕ
  | [] => 0
  | x :: older =>
    match effect x with
    | .take r' => takes r older + if r = r' then 1 else 0
    | _ => takes r older

def giveBacks (r : R) : List ε → ℕ
  | [] => 0
  | x :: older =>
    match effect x with
    | .giveBack r' => giveBacks r older + if r = r' then 1 else 0
    | _ => giveBacks r older

variable {effect users} {log older : List ε} {x : ε} {r r' : R}

theorem live_take (h : effect x = .take r') :
    live effect (x :: older) r = (decide (r = r') || live effect older r) := by
  rw [live, h]

theorem live_giveBack (h : effect x = .giveBack r') :
    live effect (x :: older) r = (!decide (r = r') && live effect older r) := by
  rw [live, h]

theorem live_nothing (h : effect x = .nothing) :
    live effect (x :: older) r = live effect older r := by
  rw [live, h]

theorem takes_take (h : effect x = .take r') :
    takes effect r (x :: older) = takes effect r older + if r = r' then 1 else 0 := by
  rw [takes, h]

theorem takes_nothing (h : effect x = .nothing) :
    takes effect r (x :: older) = takes effect r older := by
  rw [takes, h]

theorem takes_giveBack (h : effect x = .giveBack r') :
    takes effect r (x :: older) = takes effect r older := by
  rw [takes, h]

theorem takes_eq_zero (h : ∀ x ∈ log, ∃ r', effect x = .giveBack r') : takes effect r log = 0 := by
  induction log with
  | nil => rfl
  | cons x log ih =>
    obtain ⟨r', hx⟩ := h x List.mem_cons_self
    rw [takes_giveBack hx]
    exact ih fun y hy => h y (List.mem_cons_of_mem x hy)

theorem Disciplined.take (hd : Disciplined effect users older) (h : effect x = .take r)
    (hfree : live effect older r = false) : Disciplined effect users (x :: older) := by
  refine ⟨?_, hd⟩
  rw [Allowed, h]
  exact hfree

theorem Disciplined.giveBack (hd : Disciplined effect users older) (h : effect x = .giveBack r)
    (hheld : live effect older r = true) (husers : ∀ u ∈ users r, live effect older u = false) :
    Disciplined effect users (x :: older) := by
  refine ⟨?_, hd⟩
  rw [Allowed, h]
  exact ⟨hheld, husers⟩

theorem Disciplined.nothing (hd : Disciplined effect users older) (h : effect x = .nothing) :
    Disciplined effect users (x :: older) := by
  refine ⟨?_, hd⟩
  rw [Allowed, h]
  trivial

/-- What was taken was given back, but for what is held. -/
theorem Disciplined.takes_eq (hd : Disciplined effect users log) (r : R) :
    takes effect r log = giveBacks effect r log + if live effect log r then 1 else 0 := by
  induction log with
  | nil => rfl
  | cons x older ih =>
    obtain ⟨hallowed, hold⟩ := hd
    have hbefore := ih hold
    unfold Allowed at hallowed
    rw [takes, giveBacks, live]
    cases hx : effect x with
    | nothing => exact hbefore
    | take r' =>
      rw [hx] at hallowed
      dsimp only at hallowed ⊢
      by_cases hr : r = r'
      · subst hr
        rw [hallowed] at hbefore
        simp [hbefore]
      · simp [hr, hbefore]
    | giveBack r' =>
      rw [hx] at hallowed
      dsimp only at hallowed ⊢
      by_cases hr : r = r'
      · subst hr
        rw [hallowed.1] at hbefore
        simp [hbefore]
      · simp [hr, hbefore]

theorem takes_append (r : R) (new : List ε) :
    takes effect r (new ++ log) = takes effect r new + takes effect r log := by
  induction new with
  | nil => simp [takes]
  | cons x new ih =>
    rw [List.cons_append, takes, takes]
    cases effect x <;> simp only [ih]
    omega

theorem giveBacks_append (r : R) (new : List ε) :
    giveBacks effect r (new ++ log) = giveBacks effect r new + giveBacks effect r log := by
  induction new with
  | nil => simp [giveBacks]
  | cons x new ih =>
    rw [List.cons_append, giveBacks, giveBacks]
    cases effect x <;> simp only [ih]
    omega

/-- The same since a moment at which the resource was free. -/
theorem Disciplined.takes_eq_since {new : List ε} (hd : Disciplined effect users (new ++ log))
    (hfree : live effect log r = false) :
    takes effect r new = giveBacks effect r new + if live effect (new ++ log) r then 1 else 0 := by
  have hall := hd.takes_eq r
  have hbefore : Disciplined effect users log := Log.Judged.of_append hd
  have hold := hbefore.takes_eq r
  rw [takes_append, giveBacks_append] at hall
  rw [hfree] at hold
  simp only [Bool.false_eq_true, if_false] at hold
  omega

/-- The log after giving back, in this order, what the flags say is held. -/
def giveBackAll (give : R → ε) (held : R → Bool) (order : List R) (log : List ε) : List ε :=
  order.foldl (fun log r => if held r then give r :: log else log) log

/-- No resource of the order comes before one that uses it. -/
def Respects (users : R → List R) (order : List R) : Prop :=
  order.Nodup ∧ order.Pairwise (fun r later => later ∉ users r) ∧ ∀ r ∈ order, r ∉ users r

omit [DecidableEq R] in
theorem giveBackAll_append (give : R → ε) (held : R → Bool) (order : List R) (log : List ε) :
    ∃ new, giveBackAll give held order log = new ++ log ∧ ∀ x ∈ new, ∃ r, x = give r := by
  unfold giveBackAll
  induction order generalizing log with
  | nil => exact ⟨[], rfl, by simp⟩
  | cons r order ih =>
    rw [List.foldl_cons]
    split_ifs
    · obtain ⟨new, hnew, hall⟩ := ih (give r :: log)
      refine ⟨new ++ [give r], ?_, ?_⟩
      · rw [hnew, List.append_assoc, List.singleton_append]
      · intro x hx
        rcases List.mem_append.mp hx with hx | hx
        · exact hall x hx
        · exact ⟨r, List.mem_singleton.mp hx⟩
    · exact ih log

/-- What is held is still to come in the order, and the flags of the order say so. -/
structure Remaining (effect : ε → Effect R) (users : R → List R) (held : R → Bool)
    (order : List R) (log : List ε) : Prop where
  flags : ∀ r ∈ order, held r = live effect log r
  held : ∀ r, live effect log r = true → r ∈ order
  disciplined : Disciplined effect users log

section
variable {give : R → ε} (hgive : ∀ r, effect (give r) = .giveBack r) {held : R → Bool}
  {order : List R}

theorem Remaining.skip (h : Remaining effect users held (r :: order) log)
    (hflag : held r = false) : Remaining effect users held order log := by
  constructor
  · exact fun s hs => h.flags s (List.mem_cons_of_mem r hs)
  · intro s hs
    rcases List.mem_cons.mp (h.held s hs) with rfl | hmem
    · have hfree := (h.flags s List.mem_cons_self).symm.trans hflag
      rw [hs] at hfree
      cases hfree
    · exact hmem
  · exact h.disciplined

include hgive in
theorem Remaining.next (h : Remaining effect users held (r :: order) log)
    (horder : Respects users (r :: order)) (hflag : held r = true) :
    Remaining effect users held order (give r :: log) := by
  obtain ⟨hnodup, hpairwise, hself⟩ := horder
  obtain ⟨hr, _⟩ := List.nodup_cons.mp hnodup
  obtain ⟨hlater, _⟩ := List.pairwise_cons.mp hpairwise
  have husers : ∀ u ∈ users r, live effect log u = false := by
    intro u hu
    by_contra hlive
    rcases List.mem_cons.mp (h.held u (by simpa using hlive)) with rfl | hmem
    · exact hself u List.mem_cons_self hu
    · exact hlater u hmem hu
  constructor
  · intro s hs
    have hne : s ≠ r := fun heq => hr (heq ▸ hs)
    rw [live_giveBack (hgive r), h.flags s (List.mem_cons_of_mem r hs)]
    simp [hne]
  · intro s hs
    rw [live_giveBack (hgive r)] at hs
    obtain ⟨hne, hs⟩ := Bool.and_eq_true_iff.mp hs
    rcases List.mem_cons.mp (h.held s hs) with rfl | hmem
    · simp at hne
    · exact hmem
  · have hheld := (h.flags r List.mem_cons_self).symm.trans hflag
    exact h.disciplined.giveBack (hgive r) hheld husers

include hgive in
theorem giveBackAll_spec (horder : Respects users order)
    (h : Remaining effect users held order log) :
    Disciplined effect users (giveBackAll give held order log) ∧
      ∀ r, live effect (giveBackAll give held order log) r = false := by
  induction order generalizing log with
  | nil =>
    refine ⟨h.disciplined, fun r => ?_⟩
    change live effect log r = false
    by_contra hlive
    exact List.not_mem_nil (h.held r (by simpa using hlive))
  | cons r order ih =>
    have hrest : Respects users order := by
      obtain ⟨hnodup, hpairwise, hself⟩ := horder
      exact ⟨hnodup.of_cons, hpairwise.of_cons, fun s hs => hself s (List.mem_cons_of_mem r hs)⟩
    unfold giveBackAll at ih ⊢
    rw [List.foldl_cons]
    cases hflag : held r with
    | false => exact ih hrest (h.skip hflag)
    | true => exact ih hrest (h.next hgive horder hflag)

end

end Resource
