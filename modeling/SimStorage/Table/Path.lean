import SimStorage.Codec.Text
import Mathlib.Data.List.Infix

namespace SimStorage.Path

/-!
# Paths as texts

A path is written as its segments with slashes between them, and the root as
the empty text.  When no segment is empty or has a slash, the text tells the
segments, and a text begins with another and a slash exactly when its segments
properly extend the other's.
-/

open Codec

/-- The path of a child: under the root, its name alone. -/
def under (path segment : String) : String :=
  if path.isEmpty then
    segment
  else
    path ++ "/" ++ segment

/-- The text of a path. -/
def text (segments : List String) : String :=
  segments.foldl under ""

/-- The segments that a text spells. -/
def segments (path : String) : List String :=
  if path.isEmpty then
    []
  else
    (path.toList.splitOn '/').map String.ofList

/-- `starts_with`. -/
def startsWith (path start : String) : Bool :=
  start.toList.isPrefixOf path.toList

/-- `strip_prefix`. -/
def stripPrefix (path start : String) : Option String :=
  (path.toList.dropPrefix? start.toList).map String.ofList

/-- A segment that a path can be told by. -/
def Plain (segment : String) : Prop :=
  segment ≠ "" ∧ '/' ∉ segment.toList

/-- A path that its text tells. -/
def Clear (front : List String) : Prop :=
  ∀ segment ∈ front, Plain segment

variable {path segment : String} {front back : List String}

@[simp] theorem text_nil :
    text [] = "" :=
  rfl

@[simp] theorem text_concat
    (front : List String) (segment : String) :
    text (front ++ [segment]) = under (text front) segment := by
  simp [text]

@[simp] theorem segments_empty :
    segments "" = [] :=
  rfl

theorem under_of_ne
    (isPath : path ≠ "")
    (segment : String) :
    under path segment = path ++ "/" ++ segment := by
  simp [under, isPath]

theorem under_ne_empty
    (plain : Plain segment) :
    under path segment ≠ "" := by
  by_cases isRoot : path = ""
  · simpa [isRoot, under] using plain.1
  · simp [under_of_ne isRoot]

/-- A child's path spells one segment more. -/
theorem segments_under
    (plain : Plain segment) :
    segments (under path segment) = segments path ++ [segment] := by
  have alone : segment.toList.splitOn '/' = [segment.toList] :=
    List.splitOn_eq_singleton plain.2
  by_cases isRoot : path = ""
  · simp [isRoot, under, segments, alone, plain.1]
  · have shape : (under path segment).toList =
        path.toList ++ '/' :: segment.toList := by
      simp [under_of_ne isRoot]
    simp [segments, isRoot, under_ne_empty plain, shape,
      List.splitOn_append_cons_self, alone]

/-- The text of a path spells its segments. -/
theorem segments_text
    (clear : Clear front) :
    segments (text front) = front := by
  induction front using List.reverseRecOn with
  | nil => rfl
  | append_singleton front segment inductionHypothesis =>
      have others : Clear front := fun found member =>
        clear found (List.mem_append_left _ member)
      rw [text_concat, segments_under (clear segment (by simp)),
        inductionHypothesis others]

theorem text_eq_empty
    (clear : Clear front) :
    text front = "" ↔ front = [] := by
  constructor
  · intro isRoot
    have spelled := segments_text clear
    rw [isRoot] at spelled
    exact spelled.symm
  · rintro rfl
    rfl

theorem text_injective
    (front_clear : Clear front)
    (back_clear : Clear back)
    (same : text front = text back) :
    front = back := by
  rw [← segments_text front_clear, same, segments_text back_clear]

/-- Below a path, the text goes on after a slash. -/
theorem text_append
    (clear : Clear (front ++ back))
    (isPath : front ≠ [])
    (below : back ≠ []) :
    text (front ++ back) = text front ++ "/" ++ text back := by
  have front_clear : Clear front := fun segment member =>
    clear segment (List.mem_append_left _ member)
  have started : text front ≠ "" := fun isRoot =>
    isPath ((text_eq_empty front_clear).mp isRoot)
  induction back using List.reverseRecOn with
  | nil => exact absurd rfl below
  | append_singleton back segment inductionHypothesis =>
      by_cases first : back = []
      · subst first
        have alone : text [segment] = segment := rfl
        simp [under_of_ne started, alone]
      · have shorter : Clear (front ++ back) := fun found member =>
          clear found (by
            rw [← List.append_assoc]
            exact List.mem_append_left _ member)
        have back_clear : Clear back := fun found member =>
          shorter found (List.mem_append_right _ member)
        have whole := inductionHypothesis shorter first
        have going : text back ≠ "" := fun isRoot =>
          first ((text_eq_empty back_clear).mp isRoot)
        have long : text (front ++ back) ≠ "" := by
          simp [whole]
        rw [← List.append_assoc, text_concat, text_concat, under_of_ne long,
          under_of_ne going, whole]
        simp only [String.append_assoc]

/-- What goes on after a slash is below. -/
theorem append_of_text
    (front_clear : Clear front)
    (back_clear : Clear back)
    (isPath : front ≠ [])
    {tail : String}
    (shape : text back = text front ++ "/" ++ tail) :
    ∃ rest, rest ≠ [] ∧ back = front ++ rest := by
  have started : text front ≠ "" := fun isRoot =>
    isPath ((text_eq_empty front_clear).mp isRoot)
  have characters : (text back).toList =
      (text front).toList ++ '/' :: tail.toList := by
    simp [shape]
  have nonempty : text back ≠ "" := by
    simp [shape]
  have spelled : segments (text back) = segments (text front) ++
      (tail.toList.splitOn '/').map String.ofList := by
    simp [segments, started, nonempty, characters,
      List.splitOn_append_cons_self]
  rw [segments_text back_clear, segments_text front_clear] at spelled
  exact ⟨_, by simp, spelled⟩

theorem startsWith_iff
    {start : String} :
    startsWith path start = true ↔ ∃ tail, path = start ++ tail := by
  have characters : startsWith path start = true ↔
      start.toList <+: path.toList := by
    simp [startsWith]
  rw [characters]
  constructor
  · rintro ⟨tail, shape⟩
    exact ⟨String.ofList tail, String.toList_injective (by simp [shape])⟩
  · rintro ⟨tail, rfl⟩
    exact ⟨tail.toList, by simp⟩

theorem stripPrefix_iff
    {start tail : String} :
    stripPrefix path start = some tail ↔ path = start ++ tail := by
  rw [stripPrefix, Option.map_eq_some_iff]
  constructor
  · rintro ⟨rest, found, rfl⟩
    obtain ⟨front, shape, same⟩ := List.dropPrefix?_eq_some_iff.mp found
    rw [eq_of_beq same] at shape
    exact String.toList_injective (by simp [shape])
  · rintro rfl
    exact ⟨tail.toList,
      List.dropPrefix?_eq_some_iff.mpr ⟨start.toList, by simp, by simp⟩,
      by simp⟩

/-- What is left of a path below another is the text of the segments left. -/
theorem stripPrefix_text
    (front_clear : Clear front)
    (back_clear : Clear back)
    (isPath : front ≠ [])
    {tail : String} :
    stripPrefix (text back) (text front ++ "/") = some tail ↔
      ∃ rest, rest ≠ [] ∧ back = front ++ rest ∧ tail = text rest := by
  rw [stripPrefix_iff]
  constructor
  · intro shape
    obtain ⟨rest, below, rfl⟩ :=
      append_of_text front_clear back_clear isPath shape
    rw [text_append back_clear isPath below] at shape
    have characters := congrArg String.toList shape
    simp only [String.toList_append] at characters
    exact ⟨rest, below, rfl,
      (String.toList_injective (List.append_cancel_left characters)).symm⟩
  · rintro ⟨rest, below, rfl, rfl⟩
    exact text_append back_clear isPath below

/-- A path's own text, or one that goes on after a slash, is at or below it. -/
theorem within_iff
    (front_clear : Clear front)
    (back_clear : Clear back)
    (isPath : front ≠ []) :
    text back = text front ∨ startsWith (text back) (text front ++ "/") ↔
      front <+: back := by
  rw [startsWith_iff]
  constructor
  · rintro (same | ⟨tail, shape⟩)
    · rw [text_injective back_clear front_clear same]
    · obtain ⟨rest, _, rfl⟩ :=
        append_of_text front_clear back_clear isPath shape
      exact List.prefix_append front rest
  · rintro ⟨rest, rfl⟩
    by_cases here : rest = []
    · exact .inl (by simp [here])
    · exact .inr ⟨text rest, text_append back_clear isPath here⟩

/-- The first segment of a text. -/
theorem splitOnce_text
    (clear : Clear (segment :: back)) :
    splitOnce '/' (text (segment :: back)) =
      if back = [] then none else some (segment, text back) := by
  have plain : Plain segment := clear segment List.mem_cons_self
  by_cases last : back = []
  · have alone : text [segment] = segment := rfl
    subst last
    rw [if_pos rfl, alone]
    cases found : splitOnce '/' segment with
    | none => rfl
    | some parts =>
        obtain ⟨shape, _⟩ := splitOnce_sound found
        exact absurd (by simp [shape]) plain.2
  · have shape : text (segment :: back) = segment ++ "/" ++ text back :=
      @text_append [segment] back clear (by simp) last
    rw [if_neg last]
    exact splitOnce_of_toList (by simp [shape]) plain.2

end SimStorage.Path
