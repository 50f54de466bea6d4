import Mathlib.Data.List.Nodup
import Mathlib.Logic.Function.Basic

namespace SimStorage.Entries

/-!
# Finite maps as lists of entries

An insertion puts the new entry in front and drops the old one; a removal and
a restriction filter.  What is found afterwards follows.
-/

variable {κ α : Type}

section Definitions

variable [DecidableEq κ]

/-- What is found under a key. -/
def find (entries : List (κ × α)) (key : κ) : Option α :=
  entries.lookup key

/-- The entries with a value under the key. -/
def insert (entries : List (κ × α)) (key : κ) (value : α) : List (κ × α) :=
  (key, value) :: entries.filter fun entry => entry.1 ≠ key

/-- The entries without the key. -/
def remove (entries : List (κ × α)) (key : κ) : List (κ × α) :=
  entries.filter fun entry => entry.1 ≠ key

end Definitions

/-- No key occurs twice. -/
def Distinct (entries : List (κ × α)) : Prop :=
  (entries.map Prod.fst).Nodup

theorem Distinct.filter
    {entries : List (κ × α)}
    (distinct : Distinct entries)
    (keep : κ × α → Bool) :
    Distinct (entries.filter keep) :=
  distinct.sublist (List.filter_sublist.map Prod.fst)

variable [DecidableEq κ]
variable {entries : List (κ × α)} {key query : κ} {value : α}

@[simp] theorem find_nil
    (key : κ) :
    find ([] : List (κ × α)) key = none :=
  rfl

theorem find_cons
    (name : κ) (value : α) (entries : List (κ × α)) (key : κ) :
    find ((name, value) :: entries) key =
      if key = name then some value else find entries key := by
  by_cases same : key = name
  · simp [find, same]
  · have differs : (key == name) = false := beq_false_of_ne same
    simp [find, List.lookup_cons, differs, same]

theorem find_filter
    (keep : κ → Bool) (entries : List (κ × α)) (key : κ) :
    find (entries.filter fun entry => keep entry.1) key =
      if keep key then find entries key else none := by
  induction entries with
  | nil => simp
  | cons head rest inductionHypothesis =>
      obtain ⟨name, value⟩ := head
      by_cases same : key = name
      · subst same
        cases kept : keep key <;>
          simp_all [find_cons]
      · cases kept : keep name <;>
          simp [kept, find_cons, same, inductionHypothesis]

theorem find_insert
    (entries : List (κ × α)) (key : κ) (value : α) :
    find (insert entries key value) =
      Function.update (find entries) key (some value) := by
  funext query
  have kept := find_filter (fun found => decide (found ≠ key)) entries query
  by_cases same : query = key
  · subst same
    simp [insert, find_cons]
  · simpa [insert, find_cons, same] using kept

theorem find_remove
    (entries : List (κ × α)) (key : κ) :
    find (remove entries key) = Function.update (find entries) key none := by
  funext query
  have kept := find_filter (fun found => decide (found ≠ key)) entries query
  by_cases same : query = key
  · subst same
    simpa [remove] using kept
  · simpa [remove, same] using kept

section Values

variable {β : Type} (change : α → β)

/-- The entries with other values. -/
abbrev withValues (entries : List (κ × α)) : List (κ × β) :=
  entries.map fun entry => (entry.1, change entry.2)

theorem find_withValues
    (entries : List (κ × α)) (key : κ) :
    find (withValues change entries) key = (find entries key).map change := by
  induction entries with
  | nil => rfl
  | cons head rest inductionHypothesis =>
      obtain ⟨name, value⟩ := head
      rw [withValues, List.map_cons, find_cons, find_cons, inductionHypothesis]
      split <;> rfl

theorem remove_withValues
    (entries : List (κ × α)) (key : κ) :
    remove (withValues change entries) key =
      withValues change (remove entries key) := by
  simp [remove, withValues, List.filter_map, Function.comp_def]

theorem insert_withValues
    (entries : List (κ × α)) (key : κ) (value : α) :
    insert (withValues change entries) key (change value) =
      withValues change (insert entries key value) := by
  have removed := remove_withValues change entries key
  exact congrArg ((key, change value) :: ·) removed

/-- Entries from pairs, where later pairs replace earlier ones. -/
def collect (pairs : List (κ × α)) : List (κ × α) :=
  pairs.foldl (fun entries pair => insert entries pair.1 pair.2) []

theorem collect_withValues
    (pairs : List (κ × α)) :
    collect (withValues change pairs) = withValues change (collect pairs) := by
  have general : ∀ entries : List (κ × α),
      (withValues change pairs).foldl
          (fun entries pair => insert entries pair.1 pair.2)
          (withValues change entries) =
        withValues change (pairs.foldl
          (fun entries pair => insert entries pair.1 pair.2) entries) := by
    induction pairs with
    | nil => exact fun _ => rfl
    | cons head rest inductionHypothesis =>
        intro entries
        have inserted := insert_withValues change entries head.1 head.2
        simp only [List.map_cons, List.foldl_cons]
        rw [inserted]
        exact inductionHypothesis _
  exact general []

/-- What is inserted or was there before. -/
theorem mem_insert
    {entries : List (κ × α)} {key : κ} {value : α} {entry : κ × α}
    (member : entry ∈ insert entries key value) :
    entry = (key, value) ∨ entry ∈ entries :=
  (List.mem_cons.mp member).imp_right fun kept => (List.mem_filter.mp kept).1

/-- Collected entries come from the pairs. -/
theorem mem_collect
    {pairs : List (κ × α)} {entry : κ × α}
    (member : entry ∈ collect pairs) :
    entry ∈ pairs := by
  have general : ∀ entries : List (κ × α),
      entry ∈ pairs.foldl
        (fun entries pair => insert entries pair.1 pair.2) entries →
      entry ∈ entries ∨ entry ∈ pairs := by
    clear member
    induction pairs with
    | nil => exact fun _ found => .inl found
    | cons head rest inductionHypothesis =>
        intro entries found
        rcases inductionHypothesis _ found with inserted | later
        · rcases mem_insert inserted with rfl | before
          · exact .inr List.mem_cons_self
          · exact .inl before
        · exact .inr (List.mem_cons_of_mem _ later)
  exact (general [] member).resolve_left List.not_mem_nil

end Values

/-- A key is one of the entries' keys when something is found under it. -/
theorem mem_keys :
    key ∈ entries.map Prod.fst ↔ (find entries key).isSome := by
  induction entries with
  | nil => simp
  | cons head rest inductionHypothesis =>
      obtain ⟨name, value⟩ := head
      by_cases same : key = name
      · simp [find_cons, same]
      · simpa [find_cons, same] using inductionHypothesis

/-- What is found under a key is an entry. -/
theorem mem_of_find
    (found : find entries key = some value) :
    (key, value) ∈ entries := by
  induction entries with
  | nil => cases found
  | cons head rest inductionHypothesis =>
      obtain ⟨name, other⟩ := head
      rw [find_cons] at found
      split at found
      · next same =>
          cases found
          rw [same]
          exact List.mem_cons_self
      · exact List.mem_cons_of_mem _ (inductionHypothesis found)

theorem isSome_find :
    (find entries key).isSome ↔ ∃ entry ∈ entries, entry.1 = key := by
  rw [← mem_keys, List.mem_map]

theorem Distinct.insert
    (distinct : Distinct entries)
    (key : κ) (value : α) :
    Distinct (Entries.insert entries key value) := by
  have absent : key ∉ (entries.filter fun entry => entry.1 ≠ key).map
      Prod.fst := by
    simp
  exact List.nodup_cons.mpr ⟨absent, distinct.filter _⟩

theorem Distinct.remove
    (distinct : Distinct entries)
    (key : κ) :
    Distinct (Entries.remove entries key) :=
  distinct.filter _

/-- With distinct keys, an entry is what is found under its key. -/
theorem Distinct.mem_iff
    (distinct : Distinct entries) :
    (key, value) ∈ entries ↔ find entries key = some value := by
  induction entries with
  | nil => simp
  | cons head rest inductionHypothesis =>
      obtain ⟨name, other⟩ := head
      obtain ⟨fresh, others⟩ := List.nodup_cons.mp distinct
      by_cases same : key = name
      · subst same
        have elsewhere : (key, value) ∉ rest := fun member =>
          fresh (List.mem_map.mpr ⟨_, member, rfl⟩)
        simp [find_cons, elsewhere, eq_comm]
      · simp [find_cons, same, inductionHypothesis others]

end SimStorage.Entries
