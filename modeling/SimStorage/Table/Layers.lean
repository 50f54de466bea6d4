import Mathlib.Data.List.Nodup
import Mathlib.Logic.Function.Basic

namespace SimStorage.Layers

/-!
# Layered maps

A stack of maps shows under each key what the first of them has there.  A scan
of the rows of all maps, in their order, that takes a key once and leaves out
the hidden ones lists just what is shown and not hidden.
-/

variable {κ ν α : Type}

/-- What the first map has that has the key. -/
def overlay (maps : List (κ → Option ν)) (key : κ) : Option ν :=
  maps.findSome? fun map => map key

@[simp] theorem overlay_nil
    (key : κ) :
    overlay ([] : List (κ → Option ν)) key = none :=
  rfl

theorem overlay_cons
    (map : κ → Option ν) (maps : List (κ → Option ν)) (key : κ) :
    overlay (map :: maps) key = (map key).or (overlay maps key) := by
  cases found : map key <;> simp [overlay, found]

variable [DecidableEq κ]

/-- What is hidden shows nothing. -/
def mask (hidden : List κ) (map : κ → Option ν) (key : κ) : Option ν :=
  if key ∈ hidden then none else map key

/-- Take the items whose keys are neither hidden nor seen. -/
def scan (key : α → κ) (hidden : List κ) :
    List κ × List α → List α → List κ × List α
  | taken, [] => taken
  | (seen, out), item :: rest =>
      if key item ∈ hidden then
        scan key hidden (seen, out) rest
      else if key item ∈ seen then
        scan key hidden (seen, out) rest
      else
        scan key hidden (key item :: seen, out ++ [item]) rest

variable {key : α → κ} {hidden : List κ} {taken : List κ × List α}

theorem scan_append
    (first second : List α) :
    scan key hidden taken (first ++ second) =
      scan key hidden (scan key hidden taken first) second := by
  induction first generalizing taken with
  | nil => rfl
  | cons item rest inductionHypothesis =>
      rcases taken with ⟨seen, out⟩
      simp only [List.cons_append, scan]
      split_ifs <;> exact inductionHypothesis

/-- The items that were taken have different keys, which were seen. -/
def Taken (key : α → κ) (taken : List κ × List α) : Prop :=
  (taken.2.map key).Nodup ∧ ∀ item ∈ taken.2, key item ∈ taken.1

omit [DecidableEq κ] in
theorem Taken.nil :
    Taken key (([] : List κ), ([] : List α)) :=
  ⟨List.nodup_nil, fun _ member => absurd member List.not_mem_nil⟩

theorem Taken.scan
    {items : List α}
    (starts : Taken key taken) :
    Taken key (scan key hidden taken items) := by
  induction items generalizing taken with
  | nil => exact starts
  | cons item rest inductionHypothesis =>
      rcases taken with ⟨seen, out⟩
      simp only [Layers.scan]
      split_ifs with isHidden isSeen
      · exact inductionHypothesis starts
      · exact inductionHypothesis starts
      · refine inductionHypothesis ⟨?_, fun other member => ?_⟩
        · have fresh : key item ∉ out.map key := by
            intro member
            rcases List.mem_map.mp member with ⟨old, inOut, same⟩
            exact isSeen (same ▸ starts.2 old inOut)
          simp only [List.map_append, List.map_cons, List.map_nil]
          exact List.nodup_append.mpr ⟨starts.1, List.nodup_singleton _,
            fun first firstIn second secondIn same => fresh
              (List.mem_singleton.mp secondIn ▸ same ▸ firstIn)⟩
        · rcases List.mem_append.mp member with old | isNew
          · exact List.mem_cons_of_mem _ (starts.2 other old)
          · rw [List.mem_singleton.mp isNew]
            exact List.mem_cons_self

/-- A scan takes the first item of each key that is neither hidden nor seen. -/
theorem mem_scan
    {items : List α} {item : α} :
    item ∈ (scan key hidden taken items).2 ↔
      item ∈ taken.2 ∨
        key item ∉ hidden ∧ key item ∉ taken.1 ∧
          items.find? (fun other => key other = key item) = some item := by
  induction items generalizing taken with
  | nil => simp [scan]
  | cons first rest inductionHypothesis =>
      rcases taken with ⟨seen, out⟩
      simp only [scan]
      by_cases same : key first = key item
      · split_ifs with isHidden isSeen
        · rw [inductionHypothesis]
          simp [← same, isHidden]
        · rw [inductionHypothesis]
          simp [← same, isSeen]
        · rw [inductionHypothesis]
          simp [← same, isHidden, isSeen, eq_comm]
      · have skips : List.find? (fun other => decide (key other = key item))
            (first :: rest) =
            rest.find? fun other => decide (key other = key item) := by
          rw [List.find?_cons_of_neg]
          simpa using same
        have differs : item ≠ first := fun equal => same (equal ▸ rfl)
        rw [skips]
        split_ifs with isHidden isSeen
        · exact inductionHypothesis
        · exact inductionHypothesis
        · rw [inductionHypothesis]
          simp [differs, Ne.symm same]

/-- The rows are those of the map: under a key, the one that is made of it. -/
def Rows (key : α → κ) (make : κ → ν → α) (map : κ → Option ν)
    (rows : List α) : Prop :=
  ∀ name, rows.find? (fun row => key row = name) = (map name).map (make name)

/-- Rows that are made of what the map has are its rows. -/
theorem Rows.of_mem
    {make : κ → ν → α} {map : κ → Option ν} {rows : List α}
    (keyed : ∀ name value, key (make name value) = name)
    (lists : ∀ row, row ∈ rows ↔
      (map (key row)).map (make (key row)) = some row) :
    Rows key make map rows := by
  intro name
  cases found : rows.find? fun row => key row = name with
  | none =>
      have absent := List.find?_eq_none.mp found
      cases stored : map name with
      | none => rfl
      | some value =>
          have member : make name value ∈ rows := by
            rw [lists, keyed, stored]
            rfl
          exact absurd (keyed name value) (by simpa using absent _ member)
  | some row =>
      have same : key row = name := by simpa using List.find?_some found
      rw [← same]
      exact ((lists row).mp (List.mem_of_find?_eq_some found)).symm

/-- The rows of all layers show what the layers show. -/
theorem Rows.flatten
    {make : κ → ν → α} {maps : List (κ → Option ν)} {rows : List (List α)}
    (layered : List.Forall₂ (Rows key make) maps rows) :
    Rows key make (overlay maps) rows.flatten := by
  induction layered with
  | nil => exact fun _ => rfl
  | @cons map row maps rows head _ inductionHypothesis =>
      intro name
      rw [List.flatten_cons, List.find?_append, head name,
        inductionHypothesis name, overlay_cons]
      cases map name <;> simp

/-- A scan of the rows of all layers lists what they show and do not hide. -/
theorem mem_scan_rows
    {make : κ → ν → α} {map : κ → Option ν} {rows : List α}
    (lists : Rows key make map rows)
    (item : α) :
    item ∈ (scan key hidden ([], []) rows).2 ↔
      (mask hidden map (key item)).map (make (key item)) = some item := by
  rw [mem_scan, lists (key item)]
  by_cases isHidden : key item ∈ hidden <;> simp [mask, isHidden]

end SimStorage.Layers
