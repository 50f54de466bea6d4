import SimStorage.Table.Walk

namespace SimStorage.Slots

/-!
# Places with slots

A place has values and further places under names.  Where a path is vacant, no
value stands on the way and nothing at its end.  A change in one place under
one name keeps all paths vacant that do not pass there.
-/

open Walk

variable {ι ν α : Type}

/-- What a place has under a name. -/
inductive Slot (ι α : Type) where
  | leaf (value : α)
  | dir (place : ι)
  deriving DecidableEq

/-- The place under a name. -/
def next (content : ι → ν → Option (Slot ι α)) (place : ι) (name : ν) :
    Option ι :=
  match content place name with
  | some (.dir child) => some child
  | _ => none

/-- No value is on the path, and nothing at its end. -/
def Vacant (content : ι → ν → Option (Slot ι α)) (start : ι)
    (path : List ν) : Prop :=
  ∀ front name more place, path = front ++ name :: more →
    walk (next content) start front = some place →
      (∀ value, content place name ≠ some (.leaf value)) ∧
        (more = [] → content place name = none)

/-- The path leads to a slot that is empty. -/
def Missing (content : ι → ν → Option (Slot ι α)) (start : ι)
    (path : List ν) : Prop :=
  ∃ front name more place, path = front ++ name :: more ∧
    walk (next content) start front = some place ∧ content place name = none

/-- Slots are as before or empty. -/
def Shrinks (before after : ι → ν → Option (Slot ι α)) : Prop :=
  ∀ place name, after place name = before place name ∨ after place name = none

/-- Slots are as before or empty but for one, and a new place is empty. -/
structure Changes (before after : ι → ν → Option (Slot ι α)) (place : ι)
    (name : ν) : Prop where
  elsewhere : ∀ other query, (other = place → query ≠ name) →
    after other query = before other query ∨ after other query = none
  fresh : ∀ child, after place name = some (.dir child) →
    before place name = some (.dir child) ∨ ∀ query, after child query = none

variable {content before after : ι → ν → Option (Slot ι α)}
variable {start place child : ι} {name : ν} {path front more : List ν}

theorem next_eq_some :
    next content place name = some child ↔
      content place name = some (.dir child) := by
  unfold next
  split
  · next found => simp [found]
  · next other =>
      constructor
      · intro impossible
        cases impossible
      · exact fun found => absurd found (other child)

theorem Shrinks.refl :
    Shrinks content content :=
  fun _ _ => .inl rfl

theorem Shrinks.trans
    {middle : ι → ν → Option (Slot ι α)}
    (first : Shrinks before middle)
    (second : Shrinks middle after) :
    Shrinks before after := by
  intro place name
  rcases second place name with same | gone
  · rw [same]
    exact first place name
  · exact .inr gone

theorem Shrinks.changes
    (shrinks : Shrinks before after) (place : ι) (name : ν) :
    Changes before after place name where
  elsewhere other query _ := shrinks other query
  fresh child made := by
    rcases shrinks place name with same | gone
    · exact .inl (same.symm.trans made)
    · rw [gone] at made
      cases made

theorem Changes.refl
    (place : ι) (name : ν) :
    Changes content content place name :=
  Shrinks.refl.changes place name

/-- A walk after the change is one before it, or ends in a new place. -/
theorem Changes.walk
    (changes : Changes before after place name)
    {path : List ν} {reached : ι}
    (walked : walk (next after) start path = some reached) :
    walk (next before) start path = some reached ∨
      ∀ query, after reached query = none := by
  induction path using List.reverseRecOn generalizing reached with
  | nil => exact .inl walked
  | append_singleton front last inductionHypothesis =>
      rw [walk_concat, Option.bind_eq_some_iff] at walked
      obtain ⟨middle, walked, led⟩ := walked
      have slot := next_eq_some.mp led
      rcases inductionHypothesis walked with earlier | empty
      · by_cases here : middle = place ∧ last = name
        · obtain ⟨rfl, rfl⟩ := here
          rcases changes.fresh reached slot with old | fresh
          · left
            rw [walk_concat, earlier]
            exact next_eq_some.mpr old
          · exact .inr fresh
        · have apart : middle = place → last ≠ name := fun same names =>
            here ⟨same, names⟩
          rcases changes.elsewhere middle last apart with same | gone
          · left
            rw [walk_concat, earlier]
            exact next_eq_some.mpr (same.symm.trans slot)
          · rw [gone] at slot
            cases slot
      · rw [empty] at slot
        cases slot

/-- Paths that do not pass the changed slot stay vacant. -/
theorem Vacant.changes
    (vacant : Vacant before start path)
    (changes : Changes before after place name)
    (apart : ∀ front more, path = front ++ name :: more →
      walk (next before) start front ≠ some place) :
    Vacant after start path := by
  intro front other more reached split walked
  rcases changes.walk walked with earlier | empty
  · obtain ⟨noLeaf, ends⟩ := vacant front other more reached split earlier
    have elsewhere : reached = place → other ≠ name := by
      rintro rfl rfl
      exact apart front more split earlier
    rcases changes.elsewhere reached other elsewhere with same | gone
    · rw [same]
      exact ⟨noLeaf, ends⟩
    · rw [gone]
      exact ⟨by simp, fun _ => rfl⟩
  · rw [empty other]
    exact ⟨by simp, fun _ => rfl⟩

/-- When slots only become empty, vacant paths stay vacant. -/
theorem Vacant.shrinks
    (vacant : Vacant before start path)
    (shrinks : Shrinks before after) :
    Vacant after start path := by
  intro front other more reached split walked
  rcases (shrinks.changes reached other).walk walked with earlier | empty
  · obtain ⟨noLeaf, ends⟩ := vacant front other more reached split earlier
    rcases shrinks reached other with same | gone
    · rw [same]
      exact ⟨noLeaf, ends⟩
    · rw [gone]
      exact ⟨by simp, fun _ => rfl⟩
  · rw [empty other]
    exact ⟨by simp, fun _ => rfl⟩

/-- Nothing is reached through a vacant path. -/
theorem Vacant.walk_eq_none
    (vacant : Vacant content start path)
    (isPath : path ≠ [])
    (more : List ν) :
    walk (next content) start (path ++ more) = none := by
  obtain ⟨front, last, rfl⟩ : ∃ front last, path = front ++ [last] :=
    ⟨_, _, (List.dropLast_concat_getLast isPath).symm⟩
  have stops : walk (next content) start (front ++ [last]) = none := by
    rw [walk_concat]
    cases reached : walk (next content) start front with
    | none => rfl
    | some place =>
        have nothing := (vacant front last [] place rfl reached).2 rfl
        simp [next, nothing]
  rw [walk_append, stops]
  rfl

/-- Below a vacant path everything is vacant. -/
theorem Vacant.below
    (vacant : Vacant content start path)
    (isPath : path ≠ [])
    (more : List ν) :
    Vacant content start (path ++ more) := by
  intro front name rest place split walked
  rcases List.append_eq_append_iff.mp split with
    ⟨beyond, rfl, _⟩ | ⟨within, rfl, tail⟩
  · rw [vacant.walk_eq_none isPath beyond] at walked
    cases walked
  · cases within with
    | nil =>
        have stops := vacant.walk_eq_none isPath []
        rw [List.append_nil, List.append_nil] at stops
        rw [stops] at walked
        cases walked
    | cons first within =>
        obtain ⟨rfl, rfl⟩ := List.cons.inj tail
        obtain ⟨noLeaf, ends⟩ := vacant front name within place rfl walked
        exact ⟨noLeaf, fun last => ends (List.append_eq_nil_iff.mp last).1⟩

/-- A path is vacant by its first slot and by the path from there. -/
theorem vacant_cons :
    Vacant content start (name :: path) ↔
      (∀ value, content start name ≠ some (.leaf value)) ∧
        (path = [] → content start name = none) ∧
          ∀ child, next content start name = some child →
            Vacant content child path := by
  constructor
  · intro vacant
    obtain ⟨noLeaf, ends⟩ := vacant [] name path start rfl rfl
    refine ⟨noLeaf, ends, fun child led front other more place split walked =>
      ?_⟩
    refine vacant (name :: front) other more place (by rw [split]; rfl) ?_
    rw [walk_cons, led]
    exact walked
  · rintro ⟨noLeaf, ends, later⟩ front other more place split walked
    cases front with
    | nil =>
        obtain ⟨rfl, rfl⟩ := List.cons.inj split
        cases walked
        exact ⟨noLeaf, ends⟩
    | cons first front =>
        obtain ⟨rfl, rest⟩ := List.cons.inj split
        rw [walk_cons] at walked
        obtain ⟨child, led, walked⟩ := Option.bind_eq_some_iff.mp walked
        exact later child led front other more place rest walked

/-- A path is vacant from where a walk finds nothing. -/
theorem vacant_of_walk
    (walked : walk (next content) start front = some place)
    (nothing : content place name = none)
    (more : List ν) :
    Vacant content start (front ++ name :: more) := by
  induction front generalizing start with
  | nil =>
      cases walked
      refine vacant_cons.mpr ⟨by simp [nothing], fun _ => nothing, ?_⟩
      intro child led
      rw [next_eq_some, nothing] at led
      cases led
  | cons first front inductionHypothesis =>
      rw [walk_cons] at walked
      obtain ⟨child, led, walked⟩ := Option.bind_eq_some_iff.mp walked
      have slot := next_eq_some.mp led
      refine vacant_cons.mpr ⟨by simp [slot], by simp, fun other led => ?_⟩
      rw [next_eq_some, slot] at led
      cases led
      exact inductionHypothesis walked

theorem missing_cons :
    Missing content start (name :: path) ↔
      content start name = none ∨
        ∃ child, content start name = some (.dir child) ∧
          Missing content child path := by
  constructor
  · rintro ⟨front, other, more, place, split, walked, nothing⟩
    cases front with
    | nil =>
        cases walked
        obtain ⟨rfl, _⟩ := List.cons.inj split
        exact .inl nothing
    | cons first front =>
        obtain ⟨rfl, rest⟩ := List.cons.inj split
        rw [walk_cons] at walked
        obtain ⟨child, led, walked⟩ := Option.bind_eq_some_iff.mp walked
        exact .inr ⟨child, next_eq_some.mp led, front, other, more, place, rest,
          walked, nothing⟩
  · rintro (nothing | ⟨child, led, front, other, more, place, rfl, walked,
      nothing⟩)
    · exact ⟨[], name, path, start, rfl, rfl, nothing⟩
    · refine ⟨name :: front, other, more, place, rfl, ?_, nothing⟩
      rw [walk_cons, next_eq_some.mpr led]
      exact walked

theorem Missing.below
    (missing : Missing content start path)
    (more : List ν) :
    Missing content start (path ++ more) := by
  obtain ⟨front, name, rest, place, rfl, walked, nothing⟩ := missing
  exact ⟨front, name, rest ++ more, place, by simp, walked, nothing⟩

theorem Missing.vacant
    (missing : Missing content start path) :
    Vacant content start path := by
  obtain ⟨front, name, more, place, rfl, walked, nothing⟩ := missing
  exact vacant_of_walk walked nothing more

end SimStorage.Slots
