import SimStorage.Diff.Alignment

namespace SimStorage.Diff

/-!
# Changes before a common end

Two lists with one ending are aligned by the same walk as what is before it,
until one of these is used up.  The changes stay before the ending exactly
where what is left of the other does not have the ending's first element.
-/

variable {α : Type} [DecidableEq α]

/-- What is left of one list when the walk has used up the other. -/
def leftover : List α → List α → List α
  | [], ys => ys
  | xs, [] => xs
  | first :: xs, second :: ys =>
      if first = second then
        leftover xs ys
      else if common (first :: xs) ys ≤ common xs (second :: ys) then
        leftover xs (second :: ys)
      else
        leftover (first :: xs) ys
termination_by xs ys => xs.length + ys.length

section Suffixes

variable {base side ending : List α} {border : Nat}
variable {row column before left : Nat}

theorem common_ending_left
    (ys ending : List α) :
    common ending (ys ++ ending) = ending.length :=
  Nat.le_antisymm (common_le_left _ _)
    (length_le_common (List.Sublist.refl _) (List.sublist_append_right _ _))

theorem common_ending_right
    (xs ending : List α) :
    common (xs ++ ending) ending = ending.length :=
  Nat.le_antisymm (common_le_right _ _)
    (length_le_common (List.sublist_append_right _ _) (List.Sublist.refl _))

omit [DecidableEq α] in
/-- What is behind all changes is the end of the result. -/
theorem drop_suffix_splice
    {cursor : Nat} {changes : List (Change α)}
    (start : cursor ≤ border)
    (stops : ∀ change ∈ changes, change.stop ≤ border) :
    base.drop border <:+ splice base cursor changes := by
  induction changes generalizing cursor with
  | nil =>
      rw [splice, ← Nat.add_sub_cancel' start, ← List.drop_drop]
      exact List.drop_suffix _ _
  | cons change rest inductionHypothesis =>
      have later := @inductionHypothesis change.stop
        (stops change List.mem_cons_self)
        fun other member => stops other (List.mem_cons_of_mem _ member)
      exact later.trans (List.suffix_append _ _)

omit [DecidableEq α] in
/-- A match inside the border leaves the question to the later changes. -/
theorem stops_cons_iff
    {rest : List (Nat × Nat)}
    (inside : row ≤ border) :
    (∀ change ∈ gaps side before left ((row, column) :: rest),
        change.stop ≤ border) ↔
      ∀ change ∈ gaps side (row + 1) (column + 1) rest,
        change.stop ≤ border := by
  simp only [gaps]
  split
  · simp [inside]
  · exact Iff.rfl

/-- Equal rests are matched throughout. -/
theorem gaps_same
    (rows : base.drop row = ending)
    (columns : side.drop column = ending)
    (above : row ≤ base.length)
    (right : column ≤ side.length) :
    gaps side row column (matched row column ending ending ++ ends base side) =
      [] := by
  induction ending generalizing row column with
  | nil =>
      rw [List.drop_eq_nil_iff] at rows columns
      rw [Nat.le_antisymm above rows, Nat.le_antisymm right columns]
      simp [matched, gaps]
  | cons head rest inductionHypothesis =>
      obtain ⟨inBase, _, later⟩ := of_drop_eq_cons rows
      obtain ⟨inSide, _, after⟩ := of_drop_eq_cons columns
      rw [matched, if_pos rfl, List.cons_append, gaps, if_neg (by simp)]
      exact inductionHypothesis later after inBase inSide

/-- Behind the last element of the base, the side's rest is inserted. -/
theorem border_of_nil_left
    {ys : List α}
    (rows : base.drop border = ending)
    (columns : side.drop column = ys ++ ending)
    (above : border ≤ base.length)
    (right : column ≤ side.length) :
    (∀ change ∈ gaps side before left
        (matched border column ending (ys ++ ending) ++ ends base side),
        change.stop ≤ border) ↔
      ∀ next ∈ ending.head?, next ∉ ys := by
  cases ending with
  | nil =>
      have ended : border = base.length :=
        Nat.le_antisymm above (List.drop_eq_nil_iff.mp rows)
      simp only [matched, List.nil_append, ends, ← ended,
        stops_cons_iff (Nat.le_refl border)]
      simp [gaps]
  | cons next rest =>
  induction ys generalizing column with
  | nil =>
      obtain ⟨inBase, _, later⟩ := of_drop_eq_cons rows
      obtain ⟨inSide, _, after⟩ := of_drop_eq_cons columns
      rw [List.nil_append, matched, if_pos rfl, List.cons_append,
        stops_cons_iff (Nat.le_refl border),
        gaps_same later after inBase inSide]
      simp
  | cons head ys inductionHypothesis =>
      rw [List.cons_append] at columns
      obtain ⟨inBase, _, later⟩ := of_drop_eq_cons rows
      obtain ⟨inSide, _, after⟩ := of_drop_eq_cons columns
      by_cases same : next = head
      · subst same
        rw [List.cons_append, matched, if_pos rfl, List.cons_append,
          stops_cons_iff (Nat.le_refl border)]
        have matching := matching_matched later after inBase inSide
        have ordered := gaps_inOrder matching
        constructor
        · intro stops
          -- No change can begin behind the border and end before it.
          have none := List.eq_nil_iff_forall_not_mem.mpr fun change member =>
            absurd (((ordered.above change member).trans
              (ordered.within change member).1).trans (stops change member))
              (Nat.not_succ_le_self border)
          have spliced := splice_gaps matching
          rw [none, splice, later, after] at spliced
          have sizes := congrArg List.length spliced
          rw [List.length_append, List.length_cons] at sizes
          have longer : rest.length + 1 ≤ ys.length + (rest.length + 1) :=
            Nat.le_add_left _ _
          rw [← sizes] at longer
          exact absurd longer (Nat.not_succ_le_self _)
        · intro clear
          exact absurd List.mem_cons_self (clear next rfl)
      · have more : ¬ common (next :: rest) (ys ++ next :: rest) ≤
            common rest (head :: (ys ++ next :: rest)) := by
          rw [common_ending_left]
          exact Nat.not_le.mpr ((common_le_left _ _).trans_lt (Nat.lt_succ_self _))
        rw [List.cons_append, matched, if_neg same, if_neg more,
          inductionHypothesis inSide after]
        simp [same]

/-- Where the side has only the ending left, the base's rest is removed. -/
theorem border_of_nil_right
    {xs : List α}
    (rows : base.drop row = xs ++ ending)
    (columns : side.drop column = ending)
    (above : row ≤ base.length)
    (right : column ≤ side.length)
    (place : border = row + xs.length) :
    (∀ change ∈ gaps side before left
        (matched row column (xs ++ ending) ending ++ ends base side),
        change.stop ≤ border) ↔
      ∀ next ∈ ending.head?, next ∉ xs := by
  cases ending with
  | nil =>
      have ended : border = base.length := by
        have sizes := congrArg List.length rows
        rw [List.length_drop, List.append_nil] at sizes
        rw [place, ← sizes, Nat.add_sub_cancel' above]
      have nothing : matched row column xs ([] : List α) = [] :=
        matched_nil_right row column xs
      simp only [List.append_nil, nothing, List.nil_append, ends, ← ended,
        stops_cons_iff (Nat.le_refl border)]
      simp [gaps]
  | cons next rest =>
  induction xs generalizing row with
  | nil =>
      rw [place, List.length_nil, Nat.add_zero]
      exact @border_of_nil_left α _ base side (next :: rest) row column before
        left [] rows columns above right
  | cons head xs inductionHypothesis =>
      rw [List.cons_append] at rows
      obtain ⟨inBase, _, later⟩ := of_drop_eq_cons rows
      obtain ⟨inSide, _, after⟩ := of_drop_eq_cons columns
      have further : border = row + 1 + xs.length := by
        rw [place, List.length_cons, Nat.add_right_comm, Nat.add_assoc]
      by_cases same : head = next
      · subst same
        rw [List.cons_append, matched, if_pos rfl, List.cons_append,
          stops_cons_iff (place ▸ Nat.le_add_right _ _)]
        have matching := matching_matched later after inBase inSide
        constructor
        · intro stops
          -- The whole ending would have to be at the end of less than it.
          have start : row + 1 ≤ border := by
            rw [further]
            exact Nat.le_add_right _ _
          have kept := @drop_suffix_splice α base border _ _ start stops
          rw [splice_gaps matching, after, further, ← List.drop_drop, later,
            List.drop_left] at kept
          exact absurd kept.length_le (by simp)
        · intro clear
          exact absurd List.mem_cons_self (clear head rfl)
      · have less : common (head :: (xs ++ next :: rest)) rest ≤
            common (xs ++ next :: rest) (next :: rest) := by
          rw [common_ending_right]
          exact (common_le_right _ _).trans (Nat.le_succ _)
        rw [List.cons_append, matched, if_neg same, if_pos less,
          inductionHypothesis inBase further later]
        simp [Ne.symm same]

/-- The changes stop before the border as far as the leftover allows. -/
theorem border_iff
    {xs ys : List α}
    (rows : base.drop row = xs ++ ending)
    (columns : side.drop column = ys ++ ending)
    (above : row ≤ base.length)
    (right : column ≤ side.length)
    (place : border = row + xs.length) :
    (∀ change ∈ gaps side before left
        (matched row column (xs ++ ending) (ys ++ ending) ++ ends base side),
        change.stop ≤ border) ↔
      ∀ next ∈ ending.head?, next ∉ leftover xs ys := by
  induction xs, ys using leftover.induct generalizing row column before left with
  | case1 ys =>
      rw [leftover, place, List.length_nil, Nat.add_zero]
      exact border_of_nil_left rows columns above right
  | case2 xs notEmpty =>
      cases xs with
      | nil => exact absurd rfl notEmpty
      | cons head xs =>
          rw [leftover]
          · exact border_of_nil_right rows columns above right place
          · nofun
  | case3 xs item ys inductionHypothesis =>
      rw [List.cons_append] at rows columns
      obtain ⟨inBase, _, later⟩ := of_drop_eq_cons rows
      obtain ⟨inSide, _, after⟩ := of_drop_eq_cons columns
      have further : border = row + 1 + xs.length := by
        rw [place, List.length_cons, Nat.add_right_comm, Nat.add_assoc]
      rw [List.cons_append, List.cons_append, matched, if_pos rfl,
        List.cons_append, stops_cons_iff (place ▸ Nat.le_add_right _ _),
        inductionHypothesis later after inBase inSide further, leftover,
        if_pos rfl]
  | case4 first xs second ys differ less inductionHypothesis =>
      rw [List.cons_append] at rows
      obtain ⟨inBase, _, later⟩ := of_drop_eq_cons rows
      have further : border = row + 1 + xs.length := by
        rw [place, List.length_cons, Nat.add_right_comm, Nat.add_assoc]
      have lessToo : common (first :: (xs ++ ending)) (ys ++ ending) ≤
          common (xs ++ ending) (second :: (ys ++ ending)) := by
        rw [← List.cons_append, ← List.cons_append, common_append_right,
          common_append_right]
        exact Nat.add_le_add_right less _
      have walked := @inductionHypothesis (row + 1) column before left later
        columns inBase right further
      rw [List.cons_append] at walked
      rw [List.cons_append, List.cons_append, matched, if_neg differ,
        if_pos lessToo, walked, leftover, if_neg differ, if_pos less]
  | case5 first xs second ys differ more inductionHypothesis =>
      rw [List.cons_append] at columns
      obtain ⟨inSide, _, after⟩ := of_drop_eq_cons columns
      have moreToo : ¬ common (first :: (xs ++ ending)) (ys ++ ending) ≤
          common (xs ++ ending) (second :: (ys ++ ending)) := by
        rw [← List.cons_append, ← List.cons_append, common_append_right,
          common_append_right]
        exact fun less => more (Nat.le_of_add_le_add_right less)
      have walked := @inductionHypothesis row (column + 1) before left rows
        after above inSide place
      rw [List.cons_append] at walked
      rw [List.cons_append, List.cons_append, matched, if_neg differ,
        if_neg moreToo, walked, leftover, if_neg differ, if_neg more]

/-- A common front is kept. -/
theorem gaps_front
    {front xs ys : List α}
    (rows : base.drop row = front ++ xs)
    (columns : side.drop column = front ++ ys) :
    gaps side row column
        (matched row column (front ++ xs) (front ++ ys) ++ ends base side) =
      gaps side (row + front.length) (column + front.length)
        (matched (row + front.length) (column + front.length) xs ys ++
          ends base side) := by
  induction front generalizing row column with
  | nil => rfl
  | cons head front inductionHypothesis =>
      rw [List.cons_append] at rows columns
      obtain ⟨_, _, later⟩ := of_drop_eq_cons rows
      obtain ⟨_, _, after⟩ := of_drop_eq_cons columns
      have same (position : Nat) : position + (head :: front).length =
          position + 1 + front.length := by
        rw [List.length_cons, Nat.add_right_comm, Nat.add_assoc]
      rw [List.cons_append, List.cons_append, matched, if_pos rfl,
        List.cons_append, gaps, if_neg (by simp), inductionHypothesis later after,
        same, same]

end Suffixes

/-- The change lies in a range; an insertion can be at either end. -/
def Change.Inside (start stop : Nat) (change : Change α) : Prop :=
  start ≤ change.start ∧ change.stop ≤ stop

/--
Where two lists differ in one range, the script from one to the other stays in
the range exactly where the leftover of the range does not have the element
behind it.
-/
theorem script_inside_iff
    (front xs ys ending : List α) :
    (∀ change ∈ script (front ++ (xs ++ ending)) (front ++ (ys ++ ending)),
        change.Inside front.length (front.length + xs.length)) ↔
      ∀ next ∈ ending.head?, next ∉ leftover xs ys := by
  have whole := @gaps_front α _ (front ++ (xs ++ ending))
    (front ++ (ys ++ ending)) 0 0 front (xs ++ ending) (ys ++ ending) rfl rfl
  rw [Nat.zero_add] at whole
  have rows : (front ++ (xs ++ ending)).drop front.length = xs ++ ending :=
    List.drop_left
  have columns : (front ++ (ys ++ ending)).drop front.length = ys ++ ending :=
    List.drop_left
  have above : front.length ≤ (front ++ (xs ++ ending)).length := by simp
  have right : front.length ≤ (front ++ (ys ++ ending)).length := by simp
  have starts := gaps_above (matching_matched rows columns above right)
  have bordered := @border_iff α _ (front ++ (xs ++ ending))
    (front ++ (ys ++ ending)) ending (front.length + xs.length) front.length
    front.length front.length front.length xs ys rows columns above right rfl
  rw [← bordered, script, whole]
  exact ⟨fun inside change member => (inside change member).2,
    fun stops change member => ⟨starts change member, stops change member⟩⟩

end SimStorage.Diff
