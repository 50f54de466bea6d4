import SimStorage.Diff.Common

namespace SimStorage.Diff

/-!
# Edit scripts

A change replaces a range of a list, and changes in order are spliced into the
list.  Two scripts on one list whose changes are apart merge segment by segment.
-/

/-- Replace the elements from `start` up to `stop`. -/
structure Change (α : Type) where
  start : Nat
  stop : Nat
  replacement : List α
  deriving Repr, DecidableEq

variable {α : Type}

section Slices

/-- The elements from one position up to another. -/
def slice (base : List α) (start stop : Nat) : List α :=
  (base.take stop).drop start

variable {base : List α} {first middle last : Nat}

@[simp] theorem slice_self
    (base : List α) (position : Nat) :
    slice base position position = [] := by
  simp [slice]

theorem slice_append
    (start : first ≤ middle)
    (stop : middle ≤ last) :
    slice base first middle ++ slice base middle last =
      slice base first last := by
  unfold slice
  have shape : base.take last =
      base.take middle ++ (base.take last).drop middle := by
    conv_lhs => rw [← List.take_append_drop middle (base.take last)]
    rw [List.take_take, min_eq_left stop]
  by_cases inside : middle ≤ base.length
  · conv_rhs => rw [shape]
    rw [List.drop_append_of_le_length]
    rw [List.length_take, min_eq_left inside]
    exact start
  · have outside : base.length ≤ middle := Nat.le_of_not_le inside
    rw [List.take_of_length_le outside,
      List.take_of_length_le (outside.trans stop),
      List.drop_eq_nil_of_le outside, List.append_nil]

theorem slice_append_drop
    (start : first ≤ middle) :
    slice base first middle ++ base.drop middle = base.drop first := by
  by_cases inside : middle ≤ base.length
  · have whole : slice base middle base.length = base.drop middle := by
      rw [slice, List.take_length]
    rw [← whole, slice_append start inside, slice, List.take_length]
  · have outside : base.length ≤ middle := Nat.le_of_not_le inside
    rw [slice, List.take_of_length_le outside, List.drop_eq_nil_of_le outside,
      List.append_nil]

theorem length_slice
    (stop : last ≤ base.length) :
    (slice base first last).length = last - first := by
  rw [slice, List.length_drop, List.length_take, min_eq_left stop]

end Slices

/-- Put changes into a list, from a cursor on. -/
def splice (base : List α) (cursor : Nat) : List (Change α) → List α
  | [] => base.drop cursor
  | change :: rest =>
      slice base cursor change.start ++ change.replacement ++
        splice base change.stop rest

namespace Change

/-- The change removes or adds something. -/
def Real (change : Change α) : Prop :=
  change.start ≠ change.stop ∨ change.replacement ≠ []

/-- The change only adds. -/
def Inserts (change : Change α) : Prop :=
  change.start = change.stop

instance (change : Change α) : Decidable change.Inserts :=
  inferInstanceAs (Decidable (_ = _))

/-- The change is within a list of a length. -/
def Within (bound : Nat) (change : Change α) : Prop :=
  change.start ≤ change.stop ∧ change.stop ≤ bound

/--
The first ends before the second begins; next to each other only when both
remove something.
-/
def Before (first second : Change α) : Prop :=
  first.stop ≤ second.start ∧
    (first.Inserts ∨ second.Inserts → first.stop < second.start)

/-- One is before the other. -/
def Apart (first second : Change α) : Prop :=
  first.Before second ∨ second.Before first

theorem Apart.symm
    {first second : Change α}
    (apart : first.Apart second) :
    second.Apart first :=
  Or.symm apart

theorem Before.asymm
    {bound : Nat} {first second : Change α}
    (before : first.Before second)
    (firstWithin : first.Within bound)
    (secondWithin : second.Within bound) :
    ¬ second.Before first := by
  intro after
  have round : first.start = first.stop := by
    apply Nat.le_antisymm firstWithin.1
    exact before.1.trans (secondWithin.1.trans after.1)
  have less := before.2 (.inl round)
  exact absurd (less.trans_le (secondWithin.1.trans after.1))
    (round ▸ Nat.lt_irrefl _)

end Change

section Order

/-- Changes in order from a cursor on, within a bound. -/
structure InOrder (bound cursor : Nat) (changes : List (Change α)) : Prop where
  above : ∀ change ∈ changes, cursor ≤ change.start
  within : ∀ change ∈ changes, change.Within bound
  pairwise : changes.Pairwise fun first second => first.stop ≤ second.start

variable {bound cursor : Nat} {change : Change α} {changes : List (Change α)}
variable {base : List α}

theorem InOrder.tail
    (ordered : InOrder bound cursor (change :: changes)) :
    InOrder bound change.stop changes where
  above := (List.pairwise_cons.mp ordered.pairwise).1
  within later member := ordered.within later (List.mem_cons_of_mem _ member)
  pairwise := (List.pairwise_cons.mp ordered.pairwise).2

theorem InOrder.head
    (ordered : InOrder bound cursor (change :: changes)) :
    cursor ≤ change.start ∧ change.Within bound :=
  ⟨ordered.above change List.mem_cons_self,
    ordered.within change List.mem_cons_self⟩

theorem InOrder.filter
    (ordered : InOrder bound cursor changes)
    (keep : Change α → Bool) :
    InOrder bound cursor (changes.filter keep) where
  above later member := ordered.above later (List.mem_filter.mp member).1
  within later member := ordered.within later (List.mem_filter.mp member).1
  pairwise := ordered.pairwise.filter keep

/-- What is before all changes is kept. -/
theorem splice_advance
    {middle : Nat}
    (later : cursor ≤ middle)
    (above : ∀ change ∈ changes, middle ≤ change.start) :
    splice base cursor changes =
      slice base cursor middle ++ splice base middle changes := by
  cases changes with
  | nil => exact (slice_append_drop later).symm
  | cons change rest =>
      rw [splice, splice, ← slice_append later (above _ List.mem_cons_self)]
      simp only [List.append_assoc]

/-- The changes that are left out keep what they would replace. -/
theorem splice_filter_cons
    (ordered : InOrder bound cursor (change :: changes))
    (keep : Change α → Bool) :
    splice base cursor ((change :: changes).filter keep) =
      slice base cursor change.start ++
        (if keep change then change.replacement
          else slice base change.start change.stop) ++
        splice base change.stop (changes.filter keep) := by
  obtain ⟨start, stop, _⟩ := ordered.head
  cases kept : keep change with
  | true => simp [kept, splice]
  | false =>
      rw [List.filter_cons_of_neg (by simp [kept]), if_neg (by simp),
        slice_append start stop]
      exact splice_advance (start.trans stop) (ordered.tail.filter keep).above

end Order

section Segments

/-- A part of a list and of two lists that come from it. -/
structure Segment (α : Type) where
  base : List α
  first : List α
  second : List α

/-- At most one side changes the segment, or both change it alike. -/
def Segment.Agrees (segment : Segment α) : Prop :=
  segment.first = segment.base ∨ segment.second = segment.base ∨
    segment.first = segment.second

/-- The changed version of the segment, if there is one. -/
def Segment.merged [DecidableEq α] (segment : Segment α) : List α :=
  if segment.first = segment.base then segment.second else segment.first

/--
The merged list takes from every segment the version that changed it, and no
segment is changed in two ways.
-/
def ThreeWay [DecidableEq α] (base first second merged : List α) : Prop :=
  ∃ segments : List (Segment α),
    base = segments.flatMap Segment.base ∧
    first = segments.flatMap Segment.first ∧
    second = segments.flatMap Segment.second ∧
    (∀ segment ∈ segments, segment.Agrees) ∧
    merged = segments.flatMap Segment.merged

/-- What is merged comes from a side. -/
theorem ThreeWay.mem
    [DecidableEq α]
    {base first second merged : List α}
    (threeWay : ThreeWay base first second merged)
    {item : α}
    (member : item ∈ merged) :
    item ∈ first ∨ item ∈ second := by
  obtain ⟨segments, _, rfl, rfl, _, rfl⟩ := threeWay
  obtain ⟨segment, isSegment, inMerged⟩ := List.mem_flatMap.mp member
  unfold Segment.merged at inMerged
  split at inMerged
  · exact .inr (List.mem_flatMap.mpr ⟨segment, isSegment, inMerged⟩)
  · exact .inl (List.mem_flatMap.mpr ⟨segment, isSegment, inMerged⟩)

/-- The segments at the changes of two sides, and between them. -/
def segments (base : List α) (left right : Change α → Bool) (cursor : Nat) :
    List (Change α) → List (Segment α)
  | [] => [⟨base.drop cursor, base.drop cursor, base.drop cursor⟩]
  | change :: rest =>
      let kept := slice base cursor change.start
      let old := slice base change.start change.stop
      ⟨kept, kept, kept⟩ ::
        ⟨old, if left change then change.replacement else old,
          if right change then change.replacement else old⟩ ::
        segments base left right change.stop rest

variable {base : List α} {bound cursor : Nat}
variable {left right : Change α → Bool} {changes : List (Change α)}

theorem segments_base
    (ordered : InOrder bound cursor changes) :
    (segments base left right cursor changes).flatMap Segment.base =
      base.drop cursor := by
  induction changes generalizing cursor with
  | nil => simp [segments]
  | cons change rest inductionHypothesis =>
      obtain ⟨start, stop, _⟩ := ordered.head
      simp only [segments, List.flatMap_cons, inductionHypothesis ordered.tail]
      rw [slice_append_drop stop, slice_append_drop start]

theorem segments_first
    (ordered : InOrder bound cursor changes) :
    (segments base left right cursor changes).flatMap Segment.first =
      splice base cursor (changes.filter left) := by
  induction changes generalizing cursor with
  | nil => simp [segments, splice]
  | cons change rest inductionHypothesis =>
      rw [splice_filter_cons ordered]
      simp only [segments, List.flatMap_cons, inductionHypothesis ordered.tail,
        List.append_assoc]

theorem segments_second
    (ordered : InOrder bound cursor changes) :
    (segments base left right cursor changes).flatMap Segment.second =
      splice base cursor (changes.filter right) := by
  induction changes generalizing cursor with
  | nil => simp [segments, splice]
  | cons change rest inductionHypothesis =>
      rw [splice_filter_cons ordered]
      simp only [segments, List.flatMap_cons, inductionHypothesis ordered.tail,
        List.append_assoc]

theorem segments_agree
    (segment : Segment α)
    (member : segment ∈ segments base left right cursor changes) :
    segment.Agrees := by
  induction changes generalizing cursor with
  | nil =>
      rw [List.mem_singleton.mp member]
      exact .inl rfl
  | cons change rest inductionHypothesis =>
      rcases List.mem_cons.mp member with rfl | member
      · exact .inl rfl
      rcases List.mem_cons.mp member with rfl | member
      · unfold Segment.Agrees
        cases left change <;> cases right change <;> simp
      · exact inductionHypothesis member

theorem segments_merged
    [DecidableEq α]
    (sided : ∀ change ∈ changes, left change ∨ right change) :
    (segments base left right cursor changes).flatMap Segment.merged =
      splice base cursor changes := by
  induction changes generalizing cursor with
  | nil => simp [segments, splice, Segment.merged]
  | cons change rest inductionHypothesis =>
      have chosen : Segment.merged
          ⟨slice base change.start change.stop,
            if left change then change.replacement
              else slice base change.start change.stop,
            if right change then change.replacement
              else slice base change.start change.stop⟩ =
          change.replacement := by
        have oneSide := sided change List.mem_cons_self
        unfold Segment.merged
        cases isLeft : left change <;> cases isRight : right change <;>
          simp_all
      have later := @inductionHypothesis change.stop
        fun other member => sided other (List.mem_cons_of_mem _ member)
      simp only [segments, splice, List.flatMap_cons, chosen, later,
        List.append_assoc]
      simp [Segment.merged]

/-- Changes of two sides in one order merge segment by segment. -/
theorem threeWay_of_inOrder
    [DecidableEq α]
    (ordered : InOrder bound 0 changes)
    (sided : ∀ change ∈ changes, left change ∨ right change) :
    ThreeWay base (splice base 0 (changes.filter left))
      (splice base 0 (changes.filter right)) (splice base 0 changes) :=
  ⟨segments base left right 0 changes, (segments_base ordered).symm,
    (segments_first ordered).symm, (segments_second ordered).symm,
    fun segment member => segments_agree segment member,
    (segments_merged sided).symm⟩

end Segments

end SimStorage.Diff
