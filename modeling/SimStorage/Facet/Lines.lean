import SimStorage.Codec.Text

namespace SimStorage.Facet

/-!
# Lines

A text is cut behind its newlines, and only its last line can lack one.  Lists
of this shape are the ones that come back when they are joined and split.
-/

/-- `split_inclusive('\n')`: cut behind every newline. -/
def splitInclusive : List Char → List (List Char)
  | [] => []
  | head :: rest =>
      if head = '\n' then
        [head] :: splitInclusive rest
      else
        match splitInclusive rest with
        | [] => [[head]]
        | line :: later => (head :: line) :: later

/-- `lines`. -/
def lines (text : String) : List String :=
  if text = "" then
    []
  else
    (splitInclusive text.toList).map String.ofList

/-- The line ends with its only newline. -/
def Terminated (line : String) : Prop :=
  ∃ front, '\n' ∉ front ∧ line.toList = front ++ ['\n']

/-- The line has no newline. -/
def Unterminated (line : String) : Prop :=
  line.toList ≠ [] ∧ '\n' ∉ line.toList

/-- Lines of which only the last can lack its newline. -/
structure IsLines (items : List String) : Prop where
  each : ∀ line ∈ items, Terminated line ∨ Unterminated line
  closed : items.Pairwise fun line _ => Terminated line

section Split

/-- The empty text needs no case of its own. -/
theorem lines_eq
    (text : String) :
    lines text = (splitInclusive text.toList).map String.ofList := by
  unfold lines
  split
  · next empty =>
      subst empty
      rfl
  · rfl

theorem splitInclusive_terminated
    {front : List Char}
    (absent : '\n' ∉ front)
    (rest : List Char) :
    splitInclusive (front ++ '\n' :: rest) =
      (front ++ ['\n']) :: splitInclusive rest := by
  induction front with
  | nil => simp [splitInclusive]
  | cons head front inductionHypothesis =>
      simp only [List.mem_cons, not_or] at absent
      simp only [List.cons_append, splitInclusive, Ne.symm absent.1, if_false,
        inductionHypothesis absent.2]

theorem splitInclusive_unterminated
    {line : List Char}
    (present : line ≠ [])
    (absent : '\n' ∉ line) :
    splitInclusive line = [line] := by
  induction line with
  | nil => exact absurd rfl present
  | cons head rest inductionHypothesis =>
      simp only [List.mem_cons, not_or] at absent
      by_cases empty : rest = []
      · simp [splitInclusive, empty, Ne.symm absent.1]
      · simp only [splitInclusive, Ne.symm absent.1, if_false,
          inductionHypothesis empty absent.2]

/-- No character is lost. -/
theorem flatten_splitInclusive
    (text : List Char) :
    (splitInclusive text).flatten = text := by
  induction text with
  | nil => rfl
  | cons head rest inductionHypothesis =>
      unfold splitInclusive
      split
      · rw [List.flatten_cons, inductionHypothesis, List.singleton_append]
      · cases later : splitInclusive rest with
        | nil => rw [← inductionHypothesis, later]; rfl
        | cons line others => rw [← inductionHypothesis, later]; rfl

theorem isLines_splitInclusive
    (text : List Char) :
    IsLines ((splitInclusive text).map String.ofList) := by
  induction text with
  | nil => exact ⟨nofun, .nil⟩
  | cons head rest inductionHypothesis =>
      unfold splitInclusive
      split
      · next newline =>
          have ends : Terminated (String.ofList [head]) :=
            ⟨[], by simp, by simp [newline]⟩
          rw [List.map_cons]
          refine ⟨fun line member => ?_,
            List.pairwise_cons.mpr ⟨fun _ _ => ends, inductionHypothesis.closed⟩⟩
          rcases List.mem_cons.mp member with rfl | later
          · exact .inl ends
          · exact inductionHypothesis.each line later
      · next differs =>
          cases cut : splitInclusive rest with
          | nil =>
              refine ⟨fun line member => ?_, List.pairwise_singleton _ _⟩
              rw [List.map_singleton] at member
              rw [List.mem_singleton.mp member]
              exact .inr ⟨by simp, by simpa using Ne.symm differs⟩
          | cons first others =>
              rw [cut, List.map_cons] at inductionHypothesis
              obtain ⟨each, closed⟩ := inductionHypothesis
              have longer (ends : Terminated (String.ofList first)) :
                  Terminated (String.ofList (head :: first)) := by
                obtain ⟨front, absent, shape⟩ := ends
                rw [String.toList_ofList] at shape
                exact ⟨head :: front, by simp [absent, Ne.symm differs],
                  by simp [shape]⟩
              obtain ⟨above, closed⟩ := List.pairwise_cons.mp closed
              simp only [List.map_cons]
              refine ⟨fun line member => ?_, List.pairwise_cons.mpr
                ⟨fun later present => longer (above later present), closed⟩⟩
              rcases List.mem_cons.mp member with rfl | present
              · rcases each _ List.mem_cons_self with ends | ⟨_, absent⟩
                · exact .inl (longer ends)
                · rw [String.toList_ofList] at absent
                  exact .inr ⟨by simp, by simp [absent, Ne.symm differs]⟩
              · exact each line (List.mem_cons_of_mem _ present)

end Split

/-- Splitting gives lines. -/
theorem isLines_lines
    (text : String) :
    IsLines (lines text) := by
  rw [lines_eq]
  exact isLines_splitInclusive text.toList

/-- Joining the lines of a text gives the text. -/
theorem join_lines
    (text : String) :
    String.join (lines text) = text := by
  apply String.toList_injective
  rw [String.toList_join, lines_eq, List.flatMap_map]
  simpa [List.flatMap] using flatten_splitInclusive text.toList

/-- Lines come back when they are joined and split. -/
theorem lines_join
    {items : List String}
    (shape : IsLines items) :
    lines (String.join items) = items := by
  rw [lines_eq, String.toList_join]
  induction items with
  | nil => rfl
  | cons line rest inductionHypothesis =>
      obtain ⟨each, closed⟩ := shape
      obtain ⟨above, closed⟩ := List.pairwise_cons.mp closed
      have later := inductionHypothesis
        ⟨fun other member => each other (List.mem_cons_of_mem _ member), closed⟩
      rcases each line List.mem_cons_self with ⟨front, absent, ends⟩ | open'
      · rw [List.flatMap_cons, ends, List.append_assoc, List.singleton_append,
          splitInclusive_terminated absent, List.map_cons, later, ← ends,
          String.ofList_toList]
      · have last : rest = [] := by
          cases rest with
          | nil => rfl
          | cons next others =>
              obtain ⟨front, _, ends⟩ := above next List.mem_cons_self
              exact absurd (by simp [ends]) open'.2
        rw [last, List.flatMap_singleton, splitInclusive_unterminated open'.1 open'.2,
          List.map_singleton, String.ofList_toList]

/-- A text is determined by its lines. -/
theorem lines_injective
    {first second : String}
    (same : lines first = lines second) :
    first = second := by
  rw [← join_lines first, same, join_lines]

end SimStorage.Facet
