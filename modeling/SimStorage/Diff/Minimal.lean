import SimStorage.Diff.Alignment

namespace SimStorage.Diff

/-!
# Scripts are minimal

What changes leave of a list is common to the list and to the changed list.  A
script leaves as much as any common subsequence has, so that none of its
changes could be left out.
-/

variable {α : Type}

/-- What changes leave of a list, from a cursor on. -/
def retained (base : List α) (cursor : Nat) : List (Change α) → List α
  | [] => base.drop cursor
  | change :: rest =>
      slice base cursor change.start ++ retained base change.stop rest

/-- A subsequence of both lists, and no shorter than any other. -/
structure LongestCommon (xs ys zs : List α) : Prop where
  left : zs.Sublist xs
  right : zs.Sublist ys
  longest :
    ∀ others : List α, others.Sublist xs → others.Sublist ys →
      others.length ≤ zs.length

/-- Changes that lead from one list to another and leave as much as can be. -/
structure Minimal (base side : List α) (changes : List (Change α)) : Prop where
  within : ∀ change ∈ changes, change.Within base.length
  separated : changes.Pairwise fun first second => first.stop < second.start
  changing :
    ∀ change ∈ changes,
      change.replacement ≠ slice base change.start change.stop
  leads : splice base 0 changes = side
  longest : LongestCommon base side (retained base 0 changes)

variable {base side : List α} {bound cursor : Nat}
variable {change : Change α} {changes : List (Change α)}

section Retained

/-- What is before all changes is left. -/
theorem retained_advance
    {middle : Nat}
    (later : cursor ≤ middle)
    (above : ∀ change ∈ changes, middle ≤ change.start) :
    retained base cursor changes =
      slice base cursor middle ++ retained base middle changes := by
  cases changes with
  | nil => exact (slice_append_drop later).symm
  | cons change rest =>
      rw [retained, retained, ← List.append_assoc,
        slice_append later (above _ List.mem_cons_self)]

/-- What is left is in the changed list. -/
theorem retained_sublist_splice :
    (retained base cursor changes).Sublist (splice base cursor changes) := by
  induction changes generalizing cursor with
  | nil => exact List.Sublist.refl _
  | cons change rest inductionHypothesis =>
      rw [retained, splice, List.append_assoc]
      exact (inductionHypothesis.trans (List.sublist_append_right _ _)).append_left _

/-- What is left is in the list. -/
theorem retained_sublist
    (ordered : InOrder bound cursor changes) :
    (retained base cursor changes).Sublist (base.drop cursor) := by
  induction changes generalizing cursor with
  | nil => exact List.Sublist.refl _
  | cons change rest inductionHypothesis =>
      obtain ⟨start, stop, _⟩ := ordered.head
      rw [retained, ← slice_append_drop start, ← slice_append_drop stop]
      exact ((inductionHypothesis ordered.tail).trans
        (List.sublist_append_right _ _)).append_left _

/-- The changes that are left out leave what they would replace. -/
theorem retained_filter_cons
    (ordered : InOrder bound cursor (change :: changes))
    (keep : Change α → Bool) :
    retained base cursor ((change :: changes).filter keep) =
      slice base cursor change.start ++
        (if keep change then [] else slice base change.start change.stop) ++
        retained base change.stop (changes.filter keep) := by
  obtain ⟨start, stop, _⟩ := ordered.head
  cases kept : keep change with
  | true => simp [kept, retained]
  | false =>
      rw [List.filter_cons_of_neg (by simp [kept]), if_neg (by simp),
        slice_append start stop]
      exact retained_advance (start.trans stop) (ordered.tail.filter keep).above

/-- Leaving out changes leaves no less. -/
theorem length_retained_filter
    (ordered : InOrder bound cursor changes)
    (keep : Change α → Bool) :
    (retained base cursor changes).length ≤
      (retained base cursor (changes.filter keep)).length := by
  induction changes generalizing cursor with
  | nil => exact Nat.le_refl _
  | cons change rest inductionHypothesis =>
      have later := inductionHypothesis ordered.tail
      rw [retained_filter_cons ordered, retained]
      simp only [List.length_append]
      omega

/-- Leaving out a change that removes something leaves more. -/
theorem length_retained_filter_lt
    (ordered : InOrder base.length cursor changes)
    (keep : Change α → Bool)
    (member : change ∈ changes)
    (dropped : keep change = false)
    (removes : change.start < change.stop) :
    (retained base cursor changes).length <
      (retained base cursor (changes.filter keep)).length := by
  induction changes generalizing cursor with
  | nil => cases member
  | cons head rest inductionHypothesis =>
      rw [retained_filter_cons ordered, retained]
      simp only [List.length_append]
      rcases List.mem_cons.mp member with rfl | inRest
      · have later := @length_retained_filter _ base _ _ _ ordered.tail keep
        have size := @length_slice _ base change.start change.stop
          ordered.head.2.2
        rw [dropped, if_neg (by simp), size]
        omega
      · have later := inductionHypothesis ordered.tail inRest
        omega

/-- Changes that replace with what was there may be left out. -/
theorem splice_filter_quiet
    (ordered : InOrder bound cursor changes)
    (keep : Change α → Bool)
    (quiet : ∀ change ∈ changes, keep change = false →
      change.replacement = slice base change.start change.stop) :
    splice base cursor (changes.filter keep) = splice base cursor changes := by
  induction changes generalizing cursor with
  | nil => rfl
  | cons change rest inductionHypothesis =>
      have later := inductionHypothesis ordered.tail
        fun other member => quiet other (List.mem_cons_of_mem _ member)
      rw [splice_filter_cons ordered, splice, later]
      cases kept : keep change with
      | true => rw [if_pos rfl]
      | false => rw [if_neg (by simp), quiet change List.mem_cons_self kept]

end Retained

section Scripts

/-- Between matches everything is removed, and the matched elements are left. -/
theorem length_retained_gaps
    {row column : Nat} {positions : List (Nat × Nat)}
    (matching : Matching base side row column positions) :
    (retained base row
        (gaps side row column (positions ++ ends base side))).length =
      positions.length := by
  induction positions generalizing row column with
  | nil =>
      simp only [List.nil_append, gaps]
      split
      · simp [retained]
      · next same =>
          obtain ⟨rfl, _⟩ : row = base.length ∧ column = side.length := by
            simpa [not_or] using same
          simp [retained]
  | cons position rest inductionHypothesis =>
      obtain ⟨baseMatch, sideMatch⟩ := position
      obtain ⟨above, _, _, later⟩ := matching
      have inside : baseMatch + 1 ≤ base.length := later.bounds.1
      have kept : (retained base baseMatch
          (gaps side (baseMatch + 1) (sideMatch + 1)
            (rest ++ ends base side))).length = rest.length + 1 := by
        rw [retained_advance (Nat.le_succ baseMatch) (gaps_above later),
          List.length_append, inductionHypothesis later, length_slice inside]
        omega
      simp only [List.cons_append, gaps]
      split
      · rw [retained, slice_self, List.nil_append, kept, List.length_cons]
      · next same =>
          obtain ⟨rfl, rfl⟩ : row = baseMatch ∧ column = sideMatch := by
            simpa [not_or] using same
          rw [kept, List.length_cons]

variable [DecidableEq α]

/-- A script leaves a longest common subsequence. -/
theorem length_retained_script
    (base side : List α) :
    (retained base 0 (script base side)).length = common base side := by
  rw [script, length_retained_gaps (matching_script base side), length_matched]

theorem longestCommon_of_length
    {changes : List (Change α)}
    (ordered : InOrder base.length 0 changes)
    (leads : splice base 0 changes = side)
    (long : (retained base 0 changes).length = common base side) :
    LongestCommon base side (retained base 0 changes) where
  left := by
    have inBase := @retained_sublist _ base _ _ _ ordered
    rwa [List.drop_zero] at inBase
  right := leads ▸ retained_sublist_splice
  longest others left right := by
    rw [long]
    exact length_le_common left right

/-- No change of a script replaces with what was there. -/
theorem script_changing
    (change : Change α)
    (member : change ∈ script base side) :
    change.replacement ≠ slice base change.start change.stop := by
  intro quiet
  have ordered := gaps_inOrder (matching_script base side)
  change InOrder base.length 0 (script base side) at ordered
  obtain ⟨⟨start, stop⟩, real⟩ := script_proper change member
  have removes : change.start < change.stop := by
    rcases Nat.lt_or_eq_of_le start with less | same
    · exact less
    · rcases real with moves | adds
      · exact absurd same moves
      · rw [quiet, same, slice_self] at adds
        exact absurd rfl adds
  let keep : Change α → Bool := fun other => decide (other ≠ change)
  have dropped : keep change = false := by simp [keep]
  have others : splice base 0 ((script base side).filter keep) = side := by
    rw [splice_filter_quiet ordered keep, splice_script]
    intro other _ left
    have same : other = change := by simpa [keep] using left
    rw [same, quiet]
  have more := length_retained_filter_lt ordered keep member dropped removes
  have inBase := @retained_sublist _ base _ _ _ (ordered.filter keep)
  rw [List.drop_zero] at inBase
  have least := length_le_common inBase (others ▸ retained_sublist_splice)
  rw [length_retained_script] at more
  exact Nat.lt_irrefl _ (more.trans_le least)

/-- A script is minimal. -/
theorem minimal_script
    (base side : List α) :
    Minimal base side (script base side) where
  within change member := (script_proper change member).1
  separated := script_spaced base side
  changing := script_changing
  leads := splice_script base side
  longest := longestCommon_of_length
    (gaps_inOrder (matching_script base side)) (splice_script base side)
    (length_retained_script base side)

end Scripts

end SimStorage.Diff
