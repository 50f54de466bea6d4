import SimStorage.Diff.Script
import Mathlib.Data.List.Pairwise

namespace SimStorage.Diff

/-!
# Combining two scripts

Two scripts on one list combine when each pair of their changes is equal or
apart.  There is one list of all changes in order, and it leads to the merge of
what the two scripts lead to.
-/

variable {α : Type} {bound : Nat}

/-- Real changes within a bound that keep an element between any two. -/
structure Spaced (bound : Nat) (changes : List (Change α)) : Prop where
  within : ∀ change ∈ changes, change.Within bound
  real : ∀ change ∈ changes, change.Real
  spaced : changes.Pairwise fun first second => first.stop < second.start

/-- Any two changes are the same or apart. -/
def Compatible (left right : List (Change α)) : Prop :=
  ∀ first ∈ left, ∀ second ∈ right, first = second ∨ first.Apart second

/-- The changes of both scripts in one order, a shared one only once. -/
structure Combined (left right combined : List (Change α)) : Prop where
  ordered : combined.Pairwise Change.Before
  members : ∀ change, change ∈ combined ↔ change ∈ left ∨ change ∈ right

instance : Std.Symm (@Change.Apart α) :=
  ⟨fun _ _ => Change.Apart.symm⟩

section Orders

variable {changes : List (Change α)} {first second : Change α}

theorem Spaced.ordered
    (script : Spaced bound changes) :
    changes.Pairwise Change.Before :=
  script.spaced.imp fun less => ⟨less.le, fun _ => less⟩

/-- Changes in order are not repeated. -/
theorem nodup_of_ordered
    (within : ∀ change ∈ changes, change.Within bound)
    (ordered : changes.Pairwise Change.Before) :
    changes.Nodup := by
  apply ordered.imp_of_mem
  intro change later member _ before same
  subst same
  exact before.asymm (within _ member) (within _ member) before

/-- The order of changes is determined by which they are. -/
theorem ordered_unique
    {others : List (Change α)}
    (within : ∀ change ∈ changes, change.Within bound)
    (ordered : changes.Pairwise Change.Before)
    (othersOrdered : others.Pairwise Change.Before)
    (same : ∀ change, change ∈ changes ↔ change ∈ others) :
    changes = others := by
  have othersWithin : ∀ change ∈ others, change.Within bound :=
    fun change member => within change ((same change).mpr member)
  have permuted : changes.Perm others :=
    (List.perm_ext_iff_of_nodup (nodup_of_ordered within ordered)
      (nodup_of_ordered othersWithin othersOrdered)).mpr same
  apply permuted.eq_of_pairwise _ ordered othersOrdered
  intro change other member otherMember before after
  exact absurd after
    (before.asymm (within change member) (othersWithin other otherMember))

/-- Two changes in one order are the same or apart. -/
theorem compatible_of_ordered
    (ordered : changes.Pairwise Change.Before) :
    Compatible changes changes := by
  intro first isFirst second isSecond
  by_cases same : first = second
  · exact .inl same
  · have apart : changes.Pairwise Change.Apart :=
      ordered.imp fun before => .inl before
    exact .inr (apart.forall isFirst isSecond same)

theorem Compatible.symm
    {left right : List (Change α)}
    (compatible : Compatible left right) :
    Compatible right left := fun second isSecond first isFirst =>
  (compatible first isFirst second isSecond).imp Eq.symm Change.Apart.symm

end Orders

section Combination

variable {left right combined : List (Change α)}

theorem Combined.symm
    (both : Combined left right combined) :
    Combined right left combined where
  ordered := both.ordered
  members change := (both.members change).trans or_comm

/-- What combines is compatible. -/
theorem Combined.compatible
    (both : Combined left right combined) :
    Compatible left right := fun first isLeft second isRight =>
  compatible_of_ordered both.ordered first ((both.members first).mpr (.inl isLeft))
    second ((both.members second).mpr (.inr isRight))

theorem Combined.within
    (both : Combined left right combined)
    (leftScript : Spaced bound left)
    (rightScript : Spaced bound right)
    (change : Change α)
    (member : change ∈ combined) :
    change.Within bound := by
  rcases (both.members change).mp member with isLeft | isRight
  · exact leftScript.within change isLeft
  · exact rightScript.within change isRight

/-- All changes of both scripts are in order. -/
theorem Combined.inOrder
    (both : Combined left right combined)
    (leftScript : Spaced bound left)
    (rightScript : Spaced bound right) :
    InOrder bound 0 combined where
  above _ _ := Nat.zero_le _
  within := both.within leftScript rightScript
  pairwise := both.ordered.imp And.left

/-- Two scripts combine in one way. -/
theorem Combined.unique
    {others : List (Change α)}
    (both : Combined left right combined)
    (again : Combined left right others)
    (leftScript : Spaced bound left)
    (rightScript : Spaced bound right) :
    combined = others :=
  ordered_unique (both.within leftScript rightScript) both.ordered again.ordered
    fun change => (both.members change).trans (again.members change).symm

/-- The changes of the left script are the left script. -/
theorem Combined.filter_left
    [DecidableEq α]
    (both : Combined left right combined)
    (leftScript : Spaced bound left)
    (rightScript : Spaced bound right) :
    combined.filter (· ∈ left) = left := by
  have within := both.within leftScript rightScript
  apply ordered_unique (fun change member =>
      within change (List.mem_filter.mp member).1)
    (both.ordered.filter _) leftScript.ordered
  intro change
  rw [List.mem_filter, decide_eq_true_iff, both.members]
  exact ⟨And.right, fun isLeft => ⟨.inl isLeft, isLeft⟩⟩

theorem Combined.filter_right
    [DecidableEq α]
    (both : Combined left right combined)
    (leftScript : Spaced bound left)
    (rightScript : Spaced bound right) :
    combined.filter (· ∈ right) = right :=
  both.symm.filter_left rightScript leftScript

/-- Combined scripts lead to a merge. -/
theorem Combined.threeWay
    [DecidableEq α]
    (both : Combined left right combined)
    (leftScript : Spaced bound left)
    (rightScript : Spaced bound right)
    (base : List α) :
    ThreeWay base (splice base 0 left) (splice base 0 right)
      (splice base 0 combined) := by
  have merged := @threeWay_of_inOrder α base bound (· ∈ left) (· ∈ right)
    combined _ (both.inOrder leftScript rightScript) fun change member => by
      simpa using (both.members change).mp member
  rwa [both.filter_left leftScript rightScript,
    both.filter_right leftScript rightScript] at merged

end Combination

section Closing

variable {base : List α} {cursor : Nat} {changes : List (Change α)}
variable {left right : Change α → Bool} {change : Change α}

/-- Where one side ends behind its change, the other side ends there too. -/
theorem nothing_follows
    (before : ∀ later ∈ changes, change.Before later)
    (ordered : InOrder base.length change.stop changes)
    (spaced : ∀ later ∈ changes.filter left, change.stop < later.start)
    (ended : splice base change.stop (changes.filter left) = []) :
    changes = [] := by
  cases kept : changes.filter left with
  | nil =>
      rw [kept, splice, List.drop_eq_nil_iff] at ended
      apply List.eq_nil_iff_forall_not_mem.mpr
      intro later member
      obtain ⟨order, within⟩ := ordered.within later member
      have start := ordered.above later member
      have inserts : later.start = later.stop :=
        Nat.le_antisymm order (within.trans (ended.trans start))
      have less := (before later member).2 (.inr inserts)
      exact absurd (ended.trans_lt less) (Nat.not_lt.mpr (order.trans within))
  | cons later rest =>
      have member : later ∈ changes.filter left := by
        rw [kept]
        exact List.mem_cons_self
      obtain ⟨order, within⟩ := ordered.within later (List.mem_filter.mp member).1
      rw [kept, splice, List.append_eq_nil_iff, List.append_eq_nil_iff] at ended
      have size := @length_slice _ base change.stop _ (order.trans within)
      rw [ended.1.1, List.length_nil] at size
      exact absurd (spaced later member)
        (Nat.not_lt.mpr (Nat.sub_eq_zero_iff_le.mp size.symm))

variable {P : α → Prop}

/-- A change that one side makes joins to what follows as it does there. -/
theorem splice_pairwise_cons
    (isLeft : left change = true)
    (before : ∀ later ∈ changes, change.Before later)
    (ordered : InOrder base.length cursor (change :: changes))
    (spaced : ∀ later ∈ changes.filter left, change.stop < later.start)
    (closed : (splice base cursor ((change :: changes).filter left)).Pairwise
      fun item _ => P item)
    (later : (splice base change.stop changes).Pairwise fun item _ => P item) :
    (splice base cursor (change :: changes)).Pairwise fun item _ => P item := by
  rw [List.filter_cons_of_pos isLeft, splice, List.pairwise_append] at closed
  obtain ⟨front, _, joined⟩ := closed
  rw [splice, List.pairwise_append]
  refine ⟨front, later, fun item inFront next follows => ?_⟩
  cases ended : splice base change.stop (changes.filter left) with
  | nil =>
      have nothing := nothing_follows before ordered.tail spaced ended
      rw [nothing, List.filter_nil] at ended
      rw [nothing, ended] at follows
      cases follows
  | cons other rest =>
      rw [ended] at joined
      exact joined item inFront other List.mem_cons_self

/--
Where only the last element of each side can lack a property, the same holds
of the merge.
-/
theorem splice_pairwise
    (before : changes.Pairwise Change.Before)
    (ordered : InOrder base.length cursor changes)
    (sided : ∀ change ∈ changes, left change ∨ right change)
    (leftSpaced : (changes.filter left).Pairwise
      fun first second => first.stop < second.start)
    (rightSpaced : (changes.filter right).Pairwise
      fun first second => first.stop < second.start)
    (leftClosed : (splice base cursor (changes.filter left)).Pairwise
      fun item _ => P item)
    (rightClosed : (splice base cursor (changes.filter right)).Pairwise
      fun item _ => P item) :
    (splice base cursor changes).Pairwise fun item _ => P item := by
  induction changes generalizing cursor with
  | nil => exact leftClosed
  | cons change rest inductionHypothesis =>
      obtain ⟨head, tail⟩ := List.pairwise_cons.mp before
      have spacedTail {side : Change α → Bool}
          (spaced : ((change :: rest).filter side).Pairwise
            fun first second => first.stop < second.start) :
          (rest.filter side).Pairwise
            fun first second => first.stop < second.start :=
        spaced.sublist ((List.sublist_cons_self change rest).filter side)
      have closedTail {side : Change α → Bool}
          (closed : (splice base cursor ((change :: rest).filter side)).Pairwise
            fun item _ => P item) :
          (splice base change.stop (rest.filter side)).Pairwise
            fun item _ => P item := by
        rw [splice_filter_cons ordered, List.pairwise_append] at closed
        exact closed.2.1
      have later := inductionHypothesis tail ordered.tail
        (fun other member => sided other (List.mem_cons_of_mem _ member))
        (spacedTail leftSpaced) (spacedTail rightSpaced)
        (closedTail leftClosed) (closedTail rightClosed)
      rcases sided change List.mem_cons_self with isLeft | isRight
      · rw [List.filter_cons_of_pos isLeft, List.pairwise_cons] at leftSpaced
        exact splice_pairwise_cons isLeft head ordered leftSpaced.1 leftClosed
          later
      · rw [List.filter_cons_of_pos isRight, List.pairwise_cons] at rightSpaced
        exact splice_pairwise_cons isRight head ordered rightSpaced.1
          rightClosed later

/-- Combined scripts keep it, too, that only a last element lacks a property. -/
theorem Combined.closed
    [DecidableEq α]
    {left right combined : List (Change α)}
    (both : Combined left right combined)
    (leftScript : Spaced base.length left)
    (rightScript : Spaced base.length right)
    (leftClosed : (splice base 0 left).Pairwise fun item _ => P item)
    (rightClosed : (splice base 0 right).Pairwise fun item _ => P item) :
    (splice base 0 combined).Pairwise fun item _ => P item := by
  have isLeft := both.filter_left leftScript rightScript
  have isRight := both.filter_right leftScript rightScript
  apply @splice_pairwise _ base 0 combined (· ∈ left) (· ∈ right) P both.ordered
    (both.inOrder leftScript rightScript)
  · intro change member
    simpa using (both.members change).mp member
  · rw [isLeft]
    exact leftScript.spaced
  · rw [isRight]
    exact rightScript.spaced
  · rw [isLeft]
    exact leftClosed
  · rw [isRight]
    exact rightClosed

end Closing

end SimStorage.Diff
