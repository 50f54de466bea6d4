import SimStorage.Diff.Combined

namespace SimStorage.Diff

/-!
# Alignments

Two lists are walked from their heads.  Equal elements are matched; otherwise
the element is skipped whose loss costs no common subsequence, one of the base
if neither does.  What lies between the matches is the script.
-/

variable {α : Type}

/-- The matched positions. -/
def matched [DecidableEq α] (row column : Nat) :
    List α → List α → List (Nat × Nat)
  | [], _ => []
  | _, [] => []
  | first :: xs, second :: ys =>
      if first = second then
        (row, column) :: matched (row + 1) (column + 1) xs ys
      else if common (first :: xs) ys ≤ common xs (second :: ys) then
        matched (row + 1) column xs (second :: ys)
      else
        matched row (column + 1) (first :: xs) ys
termination_by xs ys => xs.length + ys.length

/-- Nothing is matched with an empty side. -/
theorem matched_nil_right [DecidableEq α]
    (row column : Nat) (base : List α) :
    matched row column base [] = [] := by
  cases base <;> simp [matched]

/-- The changes between matches. -/
def gaps (side : List α) (row column : Nat) :
    List (Nat × Nat) → List (Change α)
  | [] => []
  | (baseMatch, sideMatch) :: rest =>
      let later := gaps side (baseMatch + 1) (sideMatch + 1) rest
      if row ≠ baseMatch ∨ column ≠ sideMatch then
        ⟨row, baseMatch, slice side column sideMatch⟩ :: later
      else
        later

/-- The script from a base to a side. -/
def script [DecidableEq α] (base side : List α) : List (Change α) :=
  gaps side 0 0 (matched 0 0 base side ++ [(base.length, side.length)])

/-- Matches of equal elements, in order from a position on. -/
def Matching (base side : List α) (row column : Nat) :
    List (Nat × Nat) → Prop
  | [] => row ≤ base.length ∧ column ≤ side.length
  | (baseMatch, sideMatch) :: rest =>
      row ≤ baseMatch ∧ column ≤ sideMatch ∧
        (∃ item, base[baseMatch]? = some item ∧ side[sideMatch]? = some item) ∧
        Matching base side (baseMatch + 1) (sideMatch + 1) rest

section Gaps

variable {base side : List α} {row column : Nat} {positions : List (Nat × Nat)}

theorem Matching.mono
    {before left : Nat}
    (matching : Matching base side row column positions)
    (rows : before ≤ row)
    (columns : left ≤ column) :
    Matching base side before left positions := by
  cases positions with
  | nil => exact ⟨rows.trans matching.1, columns.trans matching.2⟩
  | cons position rest =>
      obtain ⟨above, right, found⟩ := matching
      exact ⟨rows.trans above, columns.trans right, found⟩

theorem Matching.bounds
    (matching : Matching base side row column positions) :
    row ≤ base.length ∧ column ≤ side.length := by
  induction positions generalizing row column with
  | nil => exact matching
  | cons position rest inductionHypothesis =>
      obtain ⟨above, right, _, later⟩ := matching
      obtain ⟨rows, columns⟩ := inductionHypothesis later
      exact ⟨above.trans (Nat.le_of_succ_le rows),
        right.trans (Nat.le_of_succ_le columns)⟩

/-- The ends of both lists, behind all matches. -/
abbrev ends (base side : List α) : List (Nat × Nat) :=
  [(base.length, side.length)]

theorem gaps_above
    (matching : Matching base side row column positions)
    (change : Change α)
    (member : change ∈ gaps side row column (positions ++ ends base side)) :
    row ≤ change.start := by
  induction positions generalizing row column with
  | nil =>
      simp only [List.nil_append, gaps] at member
      split at member
      · rw [List.mem_singleton.mp member]
      · cases member
  | cons position rest inductionHypothesis =>
      obtain ⟨above, _, _, later⟩ := matching
      simp only [List.cons_append, gaps] at member
      have inLater (present : change ∈ gaps side (position.1 + 1)
          (position.2 + 1) (rest ++ ends base side)) : row ≤ change.start :=
        above.trans (Nat.le_of_succ_le (inductionHypothesis later present))
      split at member
      · rcases List.mem_cons.mp member with rfl | present
        · exact Nat.le_refl _
        · exact inLater present
      · exact inLater member

/-- Splicing the gaps into the base gives the side. -/
theorem splice_gaps
    (matching : Matching base side row column positions) :
    splice base row (gaps side row column (positions ++ ends base side)) =
      side.drop column := by
  induction positions generalizing row column with
  | nil =>
      simp only [List.nil_append, gaps]
      split
      · simp [splice, slice]
      · next same =>
          obtain ⟨rfl, rfl⟩ : row = base.length ∧ column = side.length := by
            simpa [not_or] using same
          simp [splice]
  | cons position rest inductionHypothesis =>
      obtain ⟨baseMatch, sideMatch⟩ := position
      obtain ⟨above, right, ⟨item, inBase, inSide⟩, later⟩ := matching
      have kept : splice base baseMatch
          (gaps side (baseMatch + 1) (sideMatch + 1) (rest ++ ends base side)) =
          side.drop sideMatch := by
        rw [splice_advance (Nat.le_succ baseMatch) (gaps_above later),
          inductionHypothesis later]
        obtain ⟨inside, here⟩ := List.getElem?_eq_some_iff.mp inBase
        obtain ⟨within, there⟩ := List.getElem?_eq_some_iff.mp inSide
        have one : slice base baseMatch (baseMatch + 1) = [item] := by
          rw [slice, List.take_add_one, inBase]
          simp [Nat.min_eq_left inside.le]
        rw [one, List.drop_eq_getElem_cons within, there]
        rfl
      simp only [List.cons_append, gaps]
      split
      · simp only [splice, slice_self, List.nil_append]
        rw [kept, slice_append_drop right]
      · next same =>
          obtain ⟨rfl, rfl⟩ : row = baseMatch ∧ column = sideMatch := by
            simpa [not_or] using same
          exact kept

theorem gap_real
    {baseMatch sideMatch : Nat}
    (right : column ≤ sideMatch)
    (within : sideMatch ≤ side.length)
    (differs : row ≠ baseMatch ∨ column ≠ sideMatch) :
    Change.Real ⟨row, baseMatch, slice side column sideMatch⟩ := by
  rcases differs with rows | columns
  · exact .inl rows
  · refine .inr fun empty => columns (Nat.le_antisymm right ?_)
    have none : slice side column sideMatch = [] := empty
    have size := @length_slice _ side column sideMatch within
    rw [none, List.length_nil] at size
    exact Nat.sub_eq_zero_iff_le.mp size.symm

/-- The changes between matches are real and keep elements between them. -/
theorem gaps_spaced
    (matching : Matching base side row column positions) :
    (∀ change ∈ gaps side row column (positions ++ ends base side),
        change.Within base.length ∧ change.Real) ∧
      (gaps side row column (positions ++ ends base side)).Pairwise
        fun first second => first.stop < second.start := by
  induction positions generalizing row column with
  | nil =>
      simp only [List.nil_append, gaps]
      split
      · next differs =>
          refine ⟨fun change member => ?_, List.pairwise_singleton _ _⟩
          rw [List.mem_singleton.mp member]
          exact ⟨⟨matching.1, Nat.le_refl _⟩,
            gap_real matching.2 (Nat.le_refl _) differs⟩
      · exact ⟨nofun, .nil⟩
  | cons position rest inductionHypothesis =>
      obtain ⟨baseMatch, sideMatch⟩ := position
      obtain ⟨above, right, _, later⟩ := matching
      obtain ⟨proper, spaced⟩ := inductionHypothesis later
      obtain ⟨inside, within⟩ := later.bounds
      simp only [List.cons_append, gaps]
      split
      · next differs =>
          refine ⟨fun change member => ?_, List.pairwise_cons.mpr ⟨?_, spaced⟩⟩
          · rcases List.mem_cons.mp member with rfl | inLater
            · exact ⟨⟨above, Nat.le_of_succ_le inside⟩,
                gap_real right (Nat.le_of_succ_le within) differs⟩
            · exact proper change inLater
          · exact gaps_above later
      · exact ⟨proper, spaced⟩

/-- The changes between matches are in order. -/
theorem gaps_inOrder
    (matching : Matching base side row column positions) :
    InOrder base.length row
      (gaps side row column (positions ++ ends base side)) where
  above := gaps_above matching
  within change member := ((gaps_spaced matching).1 change member).1
  pairwise := (gaps_spaced matching).2.imp Nat.le_of_lt

end Gaps

/-- The rest of a list begins with the element at its position. -/
theorem of_drop_eq_cons
    {items rest : List α} {position : Nat} {head : α}
    (found : items.drop position = head :: rest) :
    position < items.length ∧ items[position]? = some head ∧
      items.drop (position + 1) = rest := by
  have inside : position < items.length := by
    by_contra outside
    rw [List.drop_eq_nil_of_le (Nat.le_of_not_lt outside)] at found
    cases found
  rw [List.drop_eq_getElem_cons inside] at found
  obtain ⟨here, later⟩ := List.cons.inj found
  exact ⟨inside, List.getElem?_eq_some_iff.mpr ⟨inside, here⟩, later⟩

section Walk

variable [DecidableEq α] {base side : List α} {row column : Nat}

/-- The matched positions are matches. -/
theorem matching_matched
    {xs ys : List α}
    (rows : base.drop row = xs)
    (columns : side.drop column = ys)
    (above : row ≤ base.length)
    (right : column ≤ side.length) :
    Matching base side row column (matched row column xs ys) := by
  induction row, column, xs, ys using matched.induct with
  | case1 row column ys =>
      rw [matched]
      exact ⟨above, right⟩
  | case2 row column xs notEmpty =>
      cases xs with
      | nil => exact absurd rfl notEmpty
      | cons first xs =>
          rw [matched]
          · exact ⟨above, right⟩
          · nofun
  | case3 row column xs item ys inductionHypothesis =>
      obtain ⟨inBase, here, rows⟩ := of_drop_eq_cons rows
      obtain ⟨inSide, there, columns⟩ := of_drop_eq_cons columns
      rw [matched, if_pos rfl]
      exact ⟨Nat.le_refl _, Nat.le_refl _, ⟨item, here, there⟩,
        inductionHypothesis rows columns inBase inSide⟩
  | case4 row column first xs second ys differ less inductionHypothesis =>
      obtain ⟨inBase, _, rows⟩ := of_drop_eq_cons rows
      rw [matched, if_neg differ, if_pos less]
      exact (inductionHypothesis rows columns inBase right).mono
        (Nat.le_succ row) (Nat.le_refl _)
  | case5 row column first xs second ys differ more inductionHypothesis =>
      obtain ⟨inSide, _, columns⟩ := of_drop_eq_cons columns
      rw [matched, if_neg differ, if_neg more]
      exact (inductionHypothesis rows columns above inSide).mono
        (Nat.le_refl _) (Nat.le_succ column)

theorem matching_script
    (base side : List α) :
    Matching base side 0 0 (matched 0 0 base side) :=
  matching_matched rfl rfl (Nat.zero_le _) (Nat.zero_le _)

/-- A script leads from the base to the side. -/
theorem splice_script
    (base side : List α) :
    splice base 0 (script base side) = side :=
  splice_gaps (matching_script base side)

/-- The changes of a script are within the base and real. -/
theorem script_proper
    (change : Change α)
    (member : change ∈ script base side) :
    change.Within base.length ∧ change.Real :=
  (gaps_spaced (matching_script base side)).1 change member

/-- Between two changes of a script an element is kept. -/
theorem script_spaced
    (base side : List α) :
    (script base side).Pairwise fun first second =>
      first.stop < second.start :=
  (gaps_spaced (matching_script base side)).2

/-- A script is spaced. -/
theorem spaced_script
    (base side : List α) :
    Spaced base.length (script base side) where
  within change member := (script_proper change member).1
  real change member := (script_proper change member).2
  spaced := script_spaced base side

/-- As many elements are matched as can be. -/
theorem length_matched
    (row column : Nat) (xs ys : List α) :
    (matched row column xs ys).length = common xs ys := by
  induction row, column, xs, ys using matched.induct with
  | case1 row column ys => simp [matched]
  | case2 row column xs notEmpty =>
      cases xs with
      | nil => exact absurd rfl notEmpty
      | cons first xs => simp [matched]
  | case3 row column xs item ys inductionHypothesis =>
      rw [matched, if_pos rfl, common_cons_same, List.length_cons,
        inductionHypothesis]
  | case4 row column first xs second ys differ less inductionHypothesis =>
      rw [matched, if_neg differ, if_pos less, common_cons_differ differ,
        inductionHypothesis, max_eq_left less]
  | case5 row column first xs second ys differ more inductionHypothesis =>
      rw [matched, if_neg differ, if_neg more, common_cons_differ differ,
        inductionHypothesis, max_eq_right (Nat.le_of_not_le more)]

end Walk

end SimStorage.Diff
