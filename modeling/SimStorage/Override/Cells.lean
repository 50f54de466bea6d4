import Mathlib.Data.List.Dedup
import SimStorage.Interaction.Evaluation
import SimStorage.Override.Visible
import SimStorage.Table.Entries

namespace SimStorage.Override

/-!
# A concrete store of tables

Values are nil, texts and tables; the tables are lists of entries, found by
their numbers.  They behave as maps.
-/

open Interaction Table

/-- Nil, a text, or a table by its number. -/
inductive Cell where
  | nil
  | text (content : String)
  | table (id : Nat)
  deriving Repr, DecidableEq

/-- The expression of a cell; a table is expressed by its entries. -/
inductive Form where
  | cell (cell : Cell)
  | entries (rows : List (Symbol × Cell))
  deriving Repr, DecidableEq

/-- The entries of all tables. -/
abbrev Cells := List (List (Symbol × Cell))

namespace Cells

/-- The entries of a cell that is a table. -/
def rows (cells : Cells) : Cell → List (Symbol × Cell)
  | .table id => cells.getD id []
  | _ => []

/-- The map of a cell. -/
def content (cells : Cells) (cell : Cell) : Symbol → Option Cell :=
  Entries.find (cells.rows cell)

/-- The keys of a cell, once each. -/
def keys (cells : Cells) (cell : Cell) : List Symbol :=
  ((cells.rows cell).map Prod.fst).dedup

/-- The entries of a cell that are found. -/
def entries (cells : Cells) (cell : Cell) : List (Symbol × Cell) :=
  (cells.keys cell).filterMap fun key =>
    (cells.content cell key).map (Prod.mk key)

/-- A read of the cells. -/
def read {α : Type} (read : Cells → α) : EStateM Error Cells α := do
  let cells ← MonadState.get
  return read cells

/-- A change of the entries of a table that exists. -/
def write (cell : Cell)
    (change : List (Symbol × Cell) → List (Symbol × Cell)) :
    EStateM Error Cells Unit := do
  let cells ← MonadState.get
  match cell with
  | .table id =>
      if id < cells.length then
        MonadState.set (cells.set id (change (cells.rows cell)))
      else
        throw (.eval "no such table")
  | _ => throw (.eval "not a table")

/-- The cells as tables. -/
def objects : Objects Cell Form Cells where
  factory := {
    nil := .ok .nil
    string content := .ok (.text content)
    asExpr value := .ok (.cell value) }
  isTable
    | .table _ => true
    | _ => false
  isDir _ := false
  asExpr _ cell := read fun cells =>
    match cell with
    | .table _ => .entries (cells.entries cell)
    | _ => .cell cell
  get _ cell key := read fun cells => (cells.content cell key).getD .nil
  set _ cell key value := write cell fun rows => Entries.insert rows key value
  has _ cell key := read fun cells => (cells.content cell key).isSome
  del _ cell key := do
    let old ← read fun cells => (cells.content cell key).getD .nil
    write cell fun rows => Entries.remove rows key
    return old
  keys _ cell := read fun cells => cells.keys cell
  entries _ cell := read fun cells => cells.entries cell
  clear _ cell := write cell fun _ => []
  compareExchange _ _ _ _ _ := throw (.eval "unsupported")
  mkdir _ _ _ := throw (.eval "unsupported")
  opendir _ _ _ := throw (.eval "unsupported")
  rmdir _ _ _ := throw (.eval "unsupported")
  hasDir _ _ _ := throw (.eval "unsupported")

variable {cells : Cells} {cell : Cell} {key : Symbol} {value : Cell}

/-- The keys are those that have a value. -/
theorem mem_keys :
    key ∈ cells.keys cell ↔ (cells.content cell key).isSome = true := by
  rw [keys, List.mem_dedup]
  exact Entries.mem_keys

theorem mem_entries :
    (key, value) ∈ cells.entries cell ↔
      cells.content cell key = some value := by
  simp only [entries, List.mem_filterMap, mem_keys]
  constructor
  · rintro ⟨name, _, found⟩
    rcases Option.map_eq_some_iff.mp found with ⟨other, stored, same⟩
    cases same
    exact stored
  · intro stored
    exact ⟨key, by simp [stored], by simp [stored]⟩

theorem distinct_entries :
    ((cells.entries cell).map Prod.fst).Nodup := by
  have listed : (cells.entries cell).map Prod.fst = cells.keys cell := by
    have each : ∀ names : List Symbol, (∀ name ∈ names,
        (cells.content cell name).isSome = true) →
          (names.filterMap fun name =>
            (cells.content cell name).map (Prod.mk name)).map Prod.fst =
              names := by
      intro names present
      induction names with
      | nil => rfl
      | cons name rest inductionHypothesis =>
          rcases Option.isSome_iff_exists.mp (present name List.mem_cons_self)
            with ⟨value, stored⟩
          have others := inductionHypothesis fun other member =>
            present other (List.mem_cons_of_mem _ member)
          simp [stored, others]
    exact each _ fun name member => mem_keys.mp member
  rw [listed]
  exact List.nodup_dedup _

theorem read_yields
    {α : Type} (reads : Cells → α) :
    Yields (read reads) cells (.ok (reads cells)) cells :=
  rfl

/-- A change fails and leaves the cells, or sets the entries of the table. -/
theorem write_cases
    {change : List (Symbol × Cell) → List (Symbol × Cell)}
    {outcome : Except Error Unit} {later : Cells}
    (wrote : Yields (write cell change) cells outcome later) :
    ((∃ error, outcome = .error error) ∧ later = cells) ∨
      outcome = .ok () ∧ ∃ id, cell = .table id ∧ id < cells.length ∧
        later = cells.set id (change (cells.rows cell)) := by
  rw [Yields, write] at wrote
  cases cell with
  | table id =>
      by_cases exists' : id < cells.length
      · simp only [bind_apply, get_apply, exists', if_true, set_apply] at wrote
        cases outcome <;> cases wrote
        exact .inr ⟨rfl, id, rfl, exists', rfl⟩
      · simp only [bind_apply, get_apply, exists', if_false, throw_apply]
          at wrote
        cases outcome <;> cases wrote
        exact .inl ⟨⟨_, rfl⟩, rfl⟩
  | _ =>
      simp only [bind_apply, get_apply, throw_apply] at wrote
      cases outcome <;> cases wrote
      exact .inl ⟨⟨_, rfl⟩, rfl⟩

/-- A change of one table's entries is a write of its map. -/
theorem write_writes
    {change : List (Symbol × Cell) → List (Symbol × Cell)}
    {update : (Symbol → Option Cell) → Symbol → Option Cell}
    (changes : ∀ rows,
      Entries.find (change rows) = update (Entries.find rows))
    (layers : List Cell) :
    Writes content (write cell change) layers cell update where
  returned cells value later wrote := by
    rcases write_cases wrote with ⟨⟨_, impossible⟩, _⟩ | ⟨_, id, rfl, fits, rfl⟩
    · cases impossible
    · have stored : rows (cells.set id (change (cells.rows (.table id))))
          (.table id) = change (cells.rows (.table id)) := by
        simp [rows, fits]
      rw [content, stored, changes]
      rfl
  failed cells error later wrote := by
    rcases write_cases wrote with ⟨_, rfl⟩ | ⟨impossible, _⟩
    · rfl
    · cases impossible
  others cells outcome later wrote other _ apart := by
    rcases write_cases wrote with ⟨_, rfl⟩ | ⟨_, id, rfl, _, rfl⟩
    · rfl
    · cases other with
      | table query =>
          have differs : id ≠ query := fun same => apart (same ▸ rfl)
          simp [content, rows, List.getD_eq_getElem?_getD, differs]
      | _ => rfl

/-- A removal returns what was there when its change does. -/
theorem del_inv
    {cx : Cx} {outcome : Except Error Cell} {later : Cells}
    (deletes : Yields (objects.del cx cell key) cells outcome later) :
    ∃ found, Yields (write cell fun rows => Entries.remove rows key) cells
        found later ∧
      outcome = found.map fun _ => (cells.content cell key).getD .nil := by
  have rest := (read_yields fun cells : Cells =>
    (cells.content cell key).getD .nil).rest deletes
  rcases rest.bind_inv with ⟨_, middle, writes, ends⟩ | ⟨error, writes, fails⟩
  · rcases (Yields.pure _ middle).unique ends with ⟨rfl, rfl⟩
    exact ⟨_, writes, rfl⟩
  · exact ⟨_, writes, fails⟩

/-- The cells behave as maps. -/
theorem objects_maps
    (layers : List Cell) :
    Maps objects layers content where
  has _ _ _ _ _ := read_yields _
  get cx layer _ key cells value stored := by
    have reads : Yields (objects.get cx layer key) cells
        (.ok ((cells.content layer key).getD .nil)) cells := read_yields _
    rw [stored] at reads
    exact reads
  keys _ layer _ cells :=
    ⟨_, read_yields _, List.nodup_dedup _, fun _ => mem_keys⟩
  entries _ layer _ cells :=
    ⟨_, read_yields _, distinct_entries, fun _ _ => mem_entries⟩
  set _ layer _ key value :=
    @write_writes layer (fun rows => Entries.insert rows key value)
      (fun map => Function.update map key (some value))
      (fun rows => Entries.find_insert rows key value) layers
  del cx layer _ key := by
    have writes := @write_writes layer (fun rows => Entries.remove rows key)
      (fun map => Function.update map key none)
      (fun rows => Entries.find_remove rows key) layers
    refine ⟨?_, ?_, ?_⟩
    · intro cells value later deletes
      rcases del_inv deletes with ⟨found, wrote, ends⟩
      cases found with
      | ok _ => exact writes.returned _ _ _ wrote
      | error _ => cases ends
    · intro cells error later deletes
      rcases del_inv deletes with ⟨found, wrote, ends⟩
      cases found with
      | ok _ => cases ends
      | error _ => exact writes.failed _ _ _ wrote
    · intro cells outcome later deletes
      rcases del_inv deletes with ⟨found, wrote, _⟩
      exact writes.others _ _ _ wrote
  clear _ layer _ :=
    @write_writes layer (fun _ => []) (fun _ _ => none) (fun _ => rfl) layers

end Cells

end SimStorage.Override
