import SimStorage.Diff.Minimal
import SimStorage.Facet.Merge

namespace SimStorage.Facet

/-!
# The changes are the script

The table holds the lengths of longest common subsequences of the suffixes, so
the walk through it is the alignment, and the changes are its script.  No index
and no range leaves its list.
-/

open Diff

section Access

variable {α : Type} {items : List α} {start stop index : Nat}

theorem sliced_eq
    (order : start ≤ stop)
    (within : stop ≤ items.length) :
    sliced items start stop = .ok (slice items start stop) :=
  if_pos ⟨order, within⟩

theorem load_eq
    {item : α}
    (found : items[index]? = some item) :
    load items index = .ok item := by
  rw [load, found]

theorem store_eq
    {value : α}
    (within : index < items.length) :
    store items index value = .ok (items.set index value) :=
  if_pos within

end Access

section Table

variable {base side : List String} {lengths : List Nat}
variable {row column otherRow otherColumn : Nat}

theorem cell_lt
    (rows : row ≤ base.length)
    (columns : column ≤ side.length) :
    cell side row column < (base.length + 1) * (side.length + 1) :=
  calc cell side row column
      < row * (side.length + 1) + (side.length + 1) :=
        Nat.add_lt_add_left (Nat.lt_succ_of_le columns) _
    _ = (row + 1) * (side.length + 1) := (Nat.succ_mul _ _).symm
    _ ≤ (base.length + 1) * (side.length + 1) :=
        Nat.mul_le_mul_right _ (Nat.succ_le_succ rows)

theorem cell_injective
    (columns : column ≤ side.length)
    (others : otherColumn ≤ side.length)
    (same : cell side row column = cell side otherRow otherColumn) :
    row = otherRow ∧ column = otherColumn := by
  unfold cell at same
  have remainders := congrArg (· % (side.length + 1)) same
  simp only [Nat.mul_add_mod_self_right] at remainders
  rw [Nat.mod_eq_of_lt (Nat.lt_succ_of_le columns),
    Nat.mod_eq_of_lt (Nat.lt_succ_of_le others)] at remainders
  subst remainders
  exact ⟨Nat.eq_of_mul_eq_mul_right (Nat.succ_pos _) (Nat.add_right_cancel same),
    rfl⟩

/-- The entry of two suffixes. -/
abbrev suffixes (base side : List String) (row column : Nat) : Nat :=
  common (base.drop row) (side.drop column)

/-- The table is right from a row and a column on, and at the last column. -/
structure Filled (base side : List String) (lengths : List Nat)
    (row column : Nat) : Prop where
  size : lengths.length = (base.length + 1) * (side.length + 1)
  right : ∀ otherRow otherColumn, otherRow ≤ base.length →
    otherColumn ≤ side.length →
    (row < otherRow ∨ row = otherRow ∧ column ≤ otherColumn ∨
      otherColumn = side.length) →
    lengths[cell side otherRow otherColumn]? =
      some (suffixes base side otherRow otherColumn)

/-- The empty table is right at its border. -/
theorem Filled.start
    (base side : List String) :
    Filled base side
      (List.replicate ((base.length + 1) * (side.length + 1)) 0)
      base.length 0 where
  size := List.length_replicate
  right otherRow otherColumn rows columns border := by
    rw [List.getElem?_replicate, if_pos (cell_lt rows columns)]
    rcases border with beyond | ⟨rfl, _⟩ | rfl
    · exact absurd rows (Nat.not_le.mpr beyond)
    · simp [suffixes]
    · simp [suffixes]

/-- The next row up starts right at its last column. -/
theorem Filled.above
    (filled : Filled base side lengths (row + 1) 0) :
    Filled base side lengths row side.length where
  size := filled.size
  right otherRow otherColumn rows columns known := by
    apply filled.right otherRow otherColumn rows columns
    rcases known with below | ⟨rfl, last⟩ | last
    · rcases Nat.lt_or_eq_of_le below with deeper | same
      · exact .inl deeper
      · exact .inr (.inl ⟨same, Nat.zero_le _⟩)
    · exact .inr (.inr (Nat.le_antisymm columns last))
    · exact .inr (.inr last)

/-- The entry is that of its two suffixes. -/
theorem entry_eq
    (filled : Filled base side lengths row (column + 1))
    (small : base.length < 2 ^ 32)
    (rows : row < base.length)
    (columns : column < side.length) :
    entry base side lengths row column =
      .ok (suffixes base side row column) := by
  have bound : suffixes base side row column ≤ base.length :=
    (common_le_left _ _).trans (by rw [List.length_drop]; exact Nat.sub_le _ _)
  have diagonal := load_eq (filled.right (row + 1) (column + 1) rows columns
    (.inl (Nat.lt_succ_self row)))
  have below := load_eq (filled.right (row + 1) column rows columns.le
    (.inl (Nat.lt_succ_self row)))
  have right := load_eq (filled.right row (column + 1) rows.le columns
    (.inr (.inl ⟨rfl, Nat.le_refl _⟩)))
  unfold suffixes at bound diagonal below right ⊢
  rw [List.drop_eq_getElem_cons rows] at bound right ⊢
  rw [List.drop_eq_getElem_cons columns] at bound below ⊢
  unfold entry
  rw [load_eq (List.getElem?_eq_getElem rows),
    load_eq (List.getElem?_eq_getElem columns)]
  by_cases same : base[row] = side[column]
  · rw [same, common_cons_same] at bound ⊢
    simp only [bind, Except.bind, if_true, diagonal]
    rw [if_pos (bound.trans_lt small)]
  · rw [common_cons_differ same]
    simp only [bind, Except.bind, same, if_false, below, right]

theorem Filled.store
    (filled : Filled base side lengths row (column + 1))
    (rows : row < base.length)
    (columns : column < side.length) :
    Filled base side
      (lengths.set (cell side row column) (suffixes base side row column))
      row column where
  size := by rw [List.length_set, filled.size]
  right otherRow otherColumn otherRows otherColumns known := by
    have inside : cell side row column < lengths.length := by
      rw [filled.size]
      exact cell_lt rows.le columns.le
    by_cases here : cell side row column = cell side otherRow otherColumn
    · obtain ⟨rfl, rfl⟩ := cell_injective columns.le otherColumns here
      exact List.getElem?_set_self inside
    · rw [List.getElem?_set_ne here]
      apply filled.right otherRow otherColumn otherRows otherColumns
      rcases known with below | ⟨rfl, further⟩ | last
      · exact .inl below
      · rcases Nat.lt_or_eq_of_le further with right | rfl
        · exact .inr (.inl ⟨rfl, right⟩)
        · exact absurd rfl here
      · exact .inr (.inr last)

theorem fillRow_ok
    (small : base.length < 2 ^ 32)
    (rows : row < base.length)
    (columns : column ≤ side.length)
    (filled : Filled base side lengths row column) :
    ∃ done, fillRow base side row column lengths = .ok done ∧
      Filled base side done row 0 := by
  induction column generalizing lengths with
  | zero => exact ⟨lengths, rfl, filled⟩
  | succ column inductionHypothesis =>
      have inside : cell side row column < lengths.length := by
        rw [filled.size]
        exact cell_lt rows.le (Nat.le_of_succ_le columns)
      obtain ⟨done, fills, right⟩ := inductionHypothesis
        (Nat.le_of_succ_le columns) (filled.store rows columns)
      refine ⟨done, ?_, right⟩
      rw [fillRow, entry_eq filled small rows columns]
      simp only [bind, Except.bind]
      rw [store_eq inside]
      exact fills

theorem fillTable_ok
    (small : base.length < 2 ^ 32)
    (rows : row ≤ base.length)
    (filled : Filled base side lengths row 0) :
    ∃ done, fillTable base side row lengths = .ok done ∧
      Filled base side done 0 0 := by
  induction row generalizing lengths with
  | zero => exact ⟨lengths, rfl, filled⟩
  | succ row inductionHypothesis =>
      obtain ⟨middle, fillsRow, rightRow⟩ := fillRow_ok small rows
        (Nat.le_refl _) filled.above
      obtain ⟨done, fills, right⟩ := inductionHypothesis
        (Nat.le_of_succ_le rows) rightRow
      refine ⟨done, ?_, right⟩
      rw [fillTable, fillsRow]
      exact fills

/-- The walk through the table is the alignment. -/
theorem walk_eq
    (filled : Filled base side lengths 0 0)
    (row column : Nat) :
    walk base side lengths row column =
      .ok (matched row column (base.drop row) (side.drop column) ++
        ends base side) := by
  induction row, column using walk.induct base side with
  | case1 row column inside together down along =>
      obtain ⟨rows, columns⟩ := inside
      have below := load_eq (filled.right (row + 1) column rows columns.le
        (.inl (Nat.succ_pos row)))
      have right := load_eq (filled.right row (column + 1) rows.le columns
        (by by_cases first : row = 0
            · exact .inr (.inl ⟨first.symm, Nat.zero_le _⟩)
            · exact .inl (Nat.pos_of_ne_zero first)))
      unfold suffixes at below right
      rw [walk, dif_pos ⟨rows, columns⟩]
      rw [load_eq (List.getElem?_eq_getElem rows),
        load_eq (List.getElem?_eq_getElem columns)]
      rw [List.drop_eq_getElem_cons rows] at along right ⊢
      rw [List.drop_eq_getElem_cons columns] at down below ⊢
      simp only [bind, Except.bind]
      by_cases same : base[row] = side[column]
      · rw [same, if_pos rfl, matched, if_pos rfl, together]
        rfl
      · rw [if_neg same, below, right, matched, if_neg same]
        simp only []
        by_cases less : common (base[row] :: base.drop (row + 1))
            (side.drop (column + 1)) ≤
            common (base.drop (row + 1)) (side[column] :: side.drop (column + 1))
        · rw [if_pos less, if_pos less, down]
        · rw [if_neg less, if_neg less, along]
  | case2 row column outside =>
      rw [walk, dif_neg outside]
      have ended : base.drop row = [] ∨ side.drop column = [] := by
        rcases Nat.lt_or_ge row base.length with rows | rows
        · have columns : side.length ≤ column :=
            Nat.not_lt.mp fun columns => outside ⟨rows, columns⟩
          exact .inr (List.drop_eq_nil_of_le columns)
        · exact .inl (List.drop_eq_nil_of_le rows)
      have nothing : matched row column (base.drop row) (side.drop column) =
          [] := by
        rcases ended with empty | empty
        · rw [empty, matched]
        · rw [empty, matched_nil_right]
      rw [nothing]
      rfl

/-- No row and no column is left out between matches. -/
theorem hunks_eq
    {positions : List (Nat × Nat)}
    (matching : Matching base side row column positions) :
    hunks base side row column (positions ++ ends base side) =
      .ok (gaps side row column (positions ++ ends base side)) := by
  induction positions generalizing row column with
  | nil =>
      simp only [List.nil_append, hunks, gaps]
      split
      · rw [sliced_eq matching.2 (Nat.le_refl _)]
        rfl
      · rfl
  | cons position rest inductionHypothesis =>
      obtain ⟨baseMatch, sideMatch⟩ := position
      obtain ⟨_, columns, _, later⟩ := matching
      obtain ⟨inside, within⟩ := later.bounds
      simp only [List.cons_append, hunks, gaps]
      rw [Nat.min_eq_left inside, Nat.min_eq_left within,
        inductionHypothesis later]
      split
      · rw [sliced_eq columns (Nat.le_of_succ_le within)]
        rfl
      · rfl

end Table

section Work

variable {base side : List String} {target : Target} {maxCells : UInt64}
variable {size : Nat}

theorem tableSize_eq_some :
    tableSize base side target maxCells = some size ↔
      size = (base.length + 1) * (side.length + 1) ∧
        base.length + 1 ≤ target.usizeMax ∧
        side.length + 1 ≤ target.usizeMax ∧
        size < 2 ^ 64 ∧ size ≤ maxCells.toNat ∧ size ≤ target.usizeMax := by
  simp only [tableSize, checked, Option.bind_eq_bind,
    Option.bind_eq_some_iff, Option.ite_none_right_eq_some,
    Option.ite_none_left_eq_some, Option.some.injEq]
  constructor
  · rintro ⟨_, ⟨rows, rfl⟩, _, ⟨columns, rfl⟩, _, ⟨wide, rfl⟩, bounded, fits, rfl⟩
    exact ⟨rfl, rows, columns, Nat.lt_of_le_of_lt wide (by decide),
      Nat.not_lt.mp bounded, fits⟩
  · rintro ⟨rfl, rows, columns, wide, bounded, fits⟩
    exact ⟨_, ⟨rows, rfl⟩, _, ⟨columns, rfl⟩, _, ⟨Nat.le_pred_of_lt wide, rfl⟩,
      Nat.not_lt.mpr bounded, fits, rfl⟩

/-- The changes, where the table is admitted and can be allocated. -/
theorem changes_eq
    (small : base.length < 2 ^ 32)
    (admitted : tableSize base side target maxCells = some size)
    (fits : 4 * size ≤ target.isizeMax) :
    changes base side target maxCells = .ok (some (script base side)) := by
  obtain ⟨rfl, _⟩ := tableSize_eq_some.mp admitted
  obtain ⟨lengths, fills, filled⟩ := fillTable_ok small (Nat.le_refl _)
    (.start base side)
  unfold changes
  rw [admitted]
  simp only [Nat.not_lt.mpr fits, if_false, fills, bind, Except.bind,
    walk_eq filled, List.drop_zero, hunks_eq (matching_script base side)]
  rfl

theorem changes_bounded
    (refused : tableSize base side target maxCells = none) :
    changes base side target maxCells = .ok none := by
  rw [changes, refused]

theorem changes_panics
    (admitted : tableSize base side target maxCells = some size)
    (large : target.isizeMax < 4 * size) :
    changes base side target maxCells = .error (.panic .capacity) := by
  rw [changes, admitted]
  exact if_pos large

end Work

section Exactness

variable {base side : List String} {target : Target} {maxCells : UInt64}

/-- The number of cells of the table. -/
abbrev cells (base side : List String) : Nat :=
  (base.length + 1) * (side.length + 1)

/-- Either the table is too large for the bound, or the changes are minimal. -/
structure ChangesExact
    (target : Target)
    (base side : List String)
    (maxCells : UInt64) : Prop where
  bounded :
    changes base side target maxCells = .ok none ↔
      maxCells.toNat < cells base side
  returned :
    cells base side ≤ maxCells.toNat →
      ∃ found, changes base side target maxCells = .ok (some found) ∧
        Minimal base side found

theorem isizeMax_le_usizeMax
    (target : Target) :
    target.isizeMax ≤ target.usizeMax := by
  cases target <;> decide

/-- The table of short lists is admitted where it is within both bounds. -/
theorem tableSize_of_short
    (short : base.length < 2 ^ 31)
    (alsoShort : side.length < 2 ^ 31)
    (bounded : cells base side ≤ maxCells.toNat)
    (addressed : cells base side ≤ target.usizeMax) :
    tableSize base side target maxCells = some (cells base side) := by
  have word : 2 ^ 31 ≤ target.usizeMax := by
    cases target <;> decide
  have product : cells base side ≤ 2 ^ 31 * 2 ^ 31 :=
    Nat.mul_le_mul short alsoShort
  exact tableSize_eq_some.mpr ⟨rfl, (Nat.succ_le_of_lt short).trans word,
    (Nat.succ_le_of_lt alsoShort).trans word,
    product.trans_lt (by decide), bounded, addressed⟩

/-- A table that no address reaches is refused like one above the bound. -/
theorem tableSize_of_unaddressed
    (wide : target.usizeMax < cells base side) :
    tableSize base side target maxCells = none := by
  cases admitted : tableSize base side target maxCells with
  | none => rfl
  | some size =>
      obtain ⟨rfl, _, _, _, _, addressed⟩ := tableSize_eq_some.mp admitted
      exact absurd addressed (Nat.not_le.mpr wide)

/-- A table above the bound is refused. -/
theorem tableSize_of_large
    (large : maxCells.toNat < cells base side) :
    tableSize base side target maxCells = none := by
  cases admitted : tableSize base side target maxCells with
  | none => rfl
  | some size =>
      obtain ⟨rfl, _, _, _, bounded, _⟩ := tableSize_eq_some.mp admitted
      exact absurd bounded (Nat.not_le.mpr large)

/--
For lists of fewer than 2^31 lines, the changes are absent exactly above the
bound and minimal otherwise, unless the bound admits a table that is larger
than an allocation.
-/
theorem changesExact_iff
    (target : Target)
    (base side : List String)
    (maxCells : UInt64)
    (short : base.length < 2 ^ 31)
    (alsoShort : side.length < 2 ^ 31) :
    ChangesExact target base side maxCells ↔
      maxCells.toNat < cells base side ∨
        4 * cells base side ≤ target.isizeMax := by
  by_cases large : maxCells.toNat < cells base side
  · have none := @changes_bounded base side target maxCells
      (tableSize_of_large large)
    exact iff_of_true
      ⟨iff_of_true none large, fun small => absurd large (Nat.not_lt.mpr small)⟩
      (.inl large)
  have bounded := Nat.le_of_not_lt large
  by_cases fits : 4 * cells base side ≤ target.isizeMax
  · have addressed : cells base side ≤ target.usizeMax :=
      (Nat.le_mul_of_pos_left _ (by decide)).trans
        (fits.trans (isizeMax_le_usizeMax target))
    have admitted := tableSize_of_short short alsoShort bounded addressed
    have found := changes_eq (short.trans (by decide)) admitted fits
    refine iff_of_true ⟨iff_of_false ?_ large, fun _ =>
      ⟨_, found, minimal_script base side⟩⟩ (.inr fits)
    intro none
    cases found.symm.trans none
  · refine iff_of_false (fun agrees => ?_) (not_or.mpr ⟨large, fits⟩)
    obtain ⟨found, returned, _⟩ := agrees.returned bounded
    by_cases addressed : cells base side ≤ target.usizeMax
    · have panics := changes_panics
        (tableSize_of_short short alsoShort bounded addressed)
        (Nat.lt_of_not_le fits)
      cases panics.symm.trans returned
    · have none := @changes_bounded base side target maxCells
        (tableSize_of_unaddressed (Nat.lt_of_not_le addressed))
      cases none.symm.trans returned

/-- A line and the same line with another one. -/
theorem one_line_changesExact :
    ChangesExact .bits64 ["a\n"] ["a\n", "b\n"] 6 :=
  (changesExact_iff .bits64 ["a\n"] ["a\n", "b\n"] 6
    (by decide) (by decide)).mpr (.inr (by decide))

/-- Some thousand lines have a table that 32 bits cannot allocate. -/
theorem many_lines_not_changesExact :
    (List.replicate 23170 "\n").length < 2 ^ 31 ∧
      changes (List.replicate 23170 "\n") (List.replicate 23170 "\n") .bits32
          18446744073709551615 = .error (.panic .capacity) ∧
      ¬ ChangesExact .bits32 (List.replicate 23170 "\n")
          (List.replicate 23170 "\n") 18446744073709551615 := by
  have size : (List.replicate 23170 "\n").length = 23170 :=
    List.length_replicate
  generalize List.replicate 23170 "\n" = items at size ⊢
  have short : items.length < 2 ^ 31 := by rw [size]; decide
  have count : cells items items = 536895241 := by rw [cells, size]
  have limit : (18446744073709551615 : UInt64).toNat =
      18446744073709551615 := by decide
  have panics : changes items items .bits32 18446744073709551615 =
      .error (.panic .capacity) := by
    apply changes_panics (tableSize_of_short short short _ _)
    · rw [count]
      decide
    · rw [count, limit]
      decide
    · rw [count]
      decide
  refine ⟨short, panics, fun agrees => ?_⟩
  obtain ⟨found, returned, _⟩ := agrees.returned (by rw [count, limit]; decide)
  cases panics.symm.trans returned

end Exactness

end SimStorage.Facet
