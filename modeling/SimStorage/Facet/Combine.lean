import SimStorage.Diff.Combined
import SimStorage.Facet.Changes

namespace SimStorage.Facet

/-!
# Combining the changes of both sides

The overlap test decides whether changes are apart, so the combination exists
exactly for compatible scripts, and applying it is splicing.
-/

open Diff

section Overlap

variable {left right : Change String}

/-- What does not overlap is apart. -/
theorem overlaps_eq_false
    (leftOrder : left.start ≤ left.stop)
    (rightOrder : right.start ≤ right.stop) :
    overlaps left right = false ↔ left.Apart right := by
  have orders := And.intro leftOrder rightOrder
  unfold overlaps Change.Apart Change.Before Change.Inserts
  by_cases leftInserts : left.start = left.stop <;>
    by_cases rightInserts : right.start = right.stop <;>
      simp [leftInserts, rightInserts] <;> omega

theorem sortsBefore_total
    (left right : Change String) :
    sortsBefore left right || sortsBefore right left := by
  simp [sortsBefore]
  omega

theorem sortsBefore_trans
    (first middle last : Change String)
    (before : sortsBefore first middle)
    (after : sortsBefore middle last) :
    sortsBefore first last := by
  simp [sortsBefore] at *
  omega

/-- Sorting puts changes that are apart in their order. -/
theorem before_of_sortsBefore
    (leftOrder : left.start ≤ left.stop)
    (rightOrder : right.start ≤ right.stop)
    (apart : left.Apart right)
    (sorts : sortsBefore left right) :
    left.Before right := by
  rcases apart with before | after
  · exact before
  · simp only [sortsBefore, decide_eq_true_eq] at sorts
    obtain ⟨order, strict⟩ := after
    have orders := And.intro leftOrder rightOrder
    have together : left.start = right.start ∧ right.start = right.stop := by
      omega
    have less := strict (.inl together.2)
    omega

end Overlap

section Combination

variable {bound : Nat} {left right combined : List (Change String)}

/-- What the loop of `combine_changes` collects, where nothing overlaps. -/
theorem combineChanges_eq
    (distinct : right.Pairwise fun first second =>
      first ≠ second ∧ overlaps first second = false)
    (clear : ∀ candidate ∈ right, candidate ∉ left →
      ∀ change ∈ left, overlaps change candidate = false) :
    combineChanges left right =
      some ((left ++ right.filter (· ∉ left)).mergeSort sortsBefore) := by
  induction right generalizing left with
  | nil => simp [combineChanges]
  | cons candidate rest inductionHypothesis =>
      obtain ⟨head, tail⟩ := List.pairwise_cons.mp distinct
      have later : ∀ other ∈ rest, other ∉ left →
          ∀ change ∈ left, overlaps change other = false :=
        fun other member => clear other (List.mem_cons_of_mem _ member)
      rw [combineChanges]
      by_cases known : candidate ∈ left
      · rw [if_pos known, inductionHypothesis tail later]
        simp [known]
      · have none : ¬ left.any fun change => overlaps change candidate := by
          simpa using clear candidate List.mem_cons_self known
        rw [if_neg known, if_neg none, inductionHypothesis tail]
        · have same : rest.filter (· ∉ left ++ [candidate]) =
              rest.filter (· ∉ left) := by
            apply List.filter_congr
            intro other member
            simp [Ne.symm (head other member).1]
          rw [same]
          simp [known]
        · intro other member fresh change isChange
          rcases List.mem_append.mp isChange with isLeft | isNew
          · exact later other member
              (fun old => fresh (List.mem_append_left _ old)) change isLeft
          · rw [List.mem_singleton.mp isNew]
            exact (head other member).2

/-- An overlap refuses the combination. -/
theorem combineChanges_eq_none
    {candidate change : Change String}
    (distinct : right.Pairwise fun first second => first ≠ second)
    (isRight : candidate ∈ right)
    (fresh : candidate ∉ left)
    (isLeft : change ∈ left)
    (overlap : overlaps change candidate = true) :
    combineChanges left right = none := by
  induction right generalizing left with
  | nil => cases isRight
  | cons head rest inductionHypothesis =>
      obtain ⟨differs, tail⟩ := List.pairwise_cons.mp distinct
      rw [combineChanges]
      by_cases known : head ∈ left
      · rw [if_pos known]
        rcases List.mem_cons.mp isRight with rfl | member
        · exact absurd known fresh
        · exact inductionHypothesis tail member fresh isLeft
      by_cases some : left.any fun other => overlaps other head
      · rw [if_neg known, if_pos some]
      · rw [if_neg known, if_neg some]
        rcases List.mem_cons.mp isRight with rfl | member
        · exact absurd (List.any_eq_true.mpr ⟨change, isLeft, overlap⟩) some
        · apply inductionHypothesis tail member
          · simp [fresh, Ne.symm (differs candidate member)]
          · exact List.mem_append_left _ isLeft

/-- The changes of one script differ and do not overlap. -/
theorem distinct_of_spaced
    (rightScript : Spaced bound right) :
    right.Pairwise fun first second =>
      first ≠ second ∧ overlaps first second = false := by
  apply rightScript.spaced.imp_of_mem
  intro first second isFirst isSecond less
  have apart : first.Apart second := .inl ⟨less.le, fun _ => less⟩
  refine ⟨fun same => ?_, (overlaps_eq_false (rightScript.within first isFirst).1
    (rightScript.within second isSecond).1).mpr apart⟩
  subst same
  exact absurd less (Nat.not_lt.mpr (rightScript.within first isFirst).1)

variable (leftScript : Spaced bound left) (rightScript : Spaced bound right)

include leftScript rightScript

/-- The candidates that are new overlap nothing exactly where all is apart. -/
theorem clear_iff :
    (∀ candidate ∈ right, candidate ∉ left →
        ∀ change ∈ left, overlaps change candidate = false) ↔
      Compatible left right := by
  constructor
  · intro clear first isLeft second isRight
    by_cases known : second ∈ left
    · exact compatible_of_ordered leftScript.ordered first isLeft second known
    · exact .inr ((overlaps_eq_false (leftScript.within first isLeft).1
        (rightScript.within second isRight).1).mp
        (clear second isRight known first isLeft))
  · intro compatible candidate isRight fresh change isLeft
    apply (overlaps_eq_false (leftScript.within change isLeft).1
      (rightScript.within candidate isRight).1).mpr
    rcases compatible change isLeft candidate isRight with rfl | apart
    · exact absurd isLeft fresh
    · exact apart

/-- Compatible scripts are combined. -/
theorem combineChanges_of_compatible
    (compatible : Compatible left right) :
    ∃ combined, combineChanges left right = some combined ∧
      Combined left right combined := by
  have distinct := distinct_of_spaced rightScript
  have clear := (clear_iff leftScript rightScript).mpr compatible
  refine ⟨_, combineChanges_eq distinct clear, ?_, ?_⟩
  · have members (change : Change String) :
        change ∈ left ++ right.filter (· ∉ left) ↔
          change ∈ left ∨ change ∈ right := by
      by_cases isLeft : change ∈ left <;> simp [isLeft]
    have within (change : Change String)
        (member : change ∈ left ++ right.filter (· ∉ left)) :
        change.Within bound :=
      ((members change).mp member).elim (leftScript.within change)
        (rightScript.within change)
    have apart : (left ++ right.filter (· ∉ left)).Pairwise Change.Apart := by
      rw [List.pairwise_append]
      refine ⟨leftScript.ordered.imp .inl,
        (rightScript.ordered.imp .inl).filter _, ?_⟩
      intro first isFirst second isSecond
      obtain ⟨isRight, fresh⟩ := List.mem_filter.mp isSecond
      rcases compatible first isFirst second isRight with rfl | apart
      · exact absurd isFirst (of_decide_eq_true fresh)
      · exact apart
    have permuted := List.mergeSort_perm (left ++ right.filter (· ∉ left))
      sortsBefore
    have sorted := List.pairwise_mergeSort sortsBefore_trans sortsBefore_total
      (left ++ right.filter (· ∉ left))
    have sortedApart := (permuted.pairwise_iff Change.Apart.symm).mpr apart
    apply (sorted.and sortedApart).imp_of_mem
    rintro first second isFirst isSecond ⟨sorts, between⟩
    exact before_of_sortsBefore (within first (permuted.mem_iff.mp isFirst)).1
      (within second (permuted.mem_iff.mp isSecond)).1 between sorts
  · intro change
    rw [List.mem_mergeSort]
    by_cases isLeft : change ∈ left <;> simp [isLeft]

/-- Scripts that are not compatible are refused. -/
theorem combineChanges_of_not_compatible
    (incompatible : ¬ Compatible left right) :
    combineChanges left right = none := by
  have notClear := mt (clear_iff leftScript rightScript).mp incompatible
  simp only [not_forall] at notClear
  obtain ⟨candidate, isRight, fresh, change, isLeft, overlap⟩ := notClear
  have distinct := distinct_of_spaced rightScript
  exact combineChanges_eq_none (distinct.imp And.left) isRight fresh isLeft
    (by simpa using overlap)

/-- What is combined combines the scripts. -/
theorem combined_of_combineChanges
    (combines : combineChanges left right = some combined) :
    Compatible left right ∧ Combined left right combined := by
  by_cases compatible : Compatible left right
  · obtain ⟨others, found, both⟩ :=
      combineChanges_of_compatible leftScript rightScript compatible
    cases combines.symm.trans found
    exact ⟨compatible, both⟩
  · rw [combineChanges_of_not_compatible leftScript rightScript compatible]
      at combines
    cases combines

end Combination

/-- Applying changes in order is splicing. -/
theorem applyChanges_eq
    {base : List String} {cursor : Nat} {changes : List (Change String)}
    (within : cursor ≤ base.length)
    (ordered : InOrder base.length cursor changes) :
    applyChanges base cursor changes = .ok (splice base cursor changes) := by
  induction changes generalizing cursor with
  | nil =>
      rw [applyChanges, sliced_eq within (Nat.le_refl _), slice,
        List.take_length]
      rfl
  | cons change rest inductionHypothesis =>
      obtain ⟨start, order, stop⟩ := ordered.head
      rw [applyChanges, sliced_eq start (order.trans stop),
        inductionHypothesis stop ordered.tail]
      rfl

end SimStorage.Facet
