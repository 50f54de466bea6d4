import SimStorage.Mount.Contents
import SimStorage.Interaction.Evaluation

namespace SimStorage.Mount

/-!
# A cabinet of drawers

Directories in memory: drawers, found by their numbers, that hold values and
further drawers under names.  They are truthful backends.
-/

open Interaction Slots Table

/-- Nil, a text, or a drawer by its number. -/
inductive Item where
  | nil
  | text (content : String)
  | drawer (id : Nat)
  deriving Repr, DecidableEq

/-- The slots of all drawers. -/
abbrev Cabinet :=
  List (List (Symbol × Slot Nat Item))

namespace Cabinet

/-- The slots of an item that is a drawer. -/
def slots (cabinet : Cabinet) : Item → List (Symbol × Slot Nat Item)
  | .drawer id => cabinet.getD id []
  | _ => []

/-- What an item has under a key. -/
def slot (cabinet : Cabinet) (item : Item) (key : Symbol) :
    Option (Slot Nat Item) :=
  Entries.find (cabinet.slots item) key

/-- The slot of a drawer's number is that of the drawer. -/
def lift : Slot Nat Item → Slot Item Item
  | .leaf value => .leaf value
  | .dir id => .dir (.drawer id)

/-- What an item holds under a name. -/
def content : Content Item Cabinet := fun cabinet item name =>
  (cabinet.slot item (.new name)).map lift

/-- A read of the cabinet. -/
def read {α : Type} (reads : Cabinet → Except Error α) :
    EStateM Error Cabinet α := do
  let cabinet ← MonadState.get
  MonadExcept.ofExcept (reads cabinet)

/-- A change of the slots of a drawer that exists. -/
def write (item : Item)
    (change : List (Symbol × Slot Nat Item) →
      Except Error (List (Symbol × Slot Nat Item))) :
    EStateM Error Cabinet Unit := do
  let cabinet ← MonadState.get
  match item with
  | .drawer id =>
      if id < cabinet.length then
        let rows ← MonadExcept.ofExcept (change (cabinet.slots item))
        MonadState.set (cabinet.set id rows)
      else
        throw (.eval "no such drawer")
  | _ => throw (.eval "not a drawer")

/-- The rows that are values. -/
def leaves (rows : List (Symbol × Slot Nat Item)) : List (Symbol × Item) :=
  rows.filterMap fun row =>
    match row.2 with
    | .leaf value => some (row.1, value)
    | .dir _ => none

/-- A drawer cannot be replaced by a value. -/
def put (key : Symbol) (value : Item) (rows : List (Symbol × Slot Nat Item)) :
    Except Error (List (Symbol × Slot Nat Item)) :=
  match Entries.find rows key with
  | some (.dir _) => .error (.eval "is a drawer")
  | _ => .ok (Entries.insert rows key (.leaf value))

/-- The slot is a drawer. -/
def isDrawer : Option (Slot Nat Item) → Bool
  | some (.dir _) => true
  | _ => false

/-- Make a drawer under a name that has none. -/
def make (item : Item) (name : String) : EStateM Error Cabinet Item := do
  let cabinet ← MonadState.get
  match cabinet.slot item (.new name) with
  | some (.dir id) => return .drawer id
  | some (.leaf _) => throw (.eval "is a value")
  | none =>
      write item fun rows =>
        .ok (Entries.insert rows (.new name) (.dir cabinet.length))
      modify fun cabinet => cabinet ++ [[]]
      return .drawer cabinet.length

/-- The drawers as tables and directories. -/
def objects : Objects Item Item Cabinet where
  factory := {
    nil := .ok .nil
    string content := .ok (.text content)
    asExpr value := .ok value }
  isTable
    | .drawer _ => true
    | _ => false
  isDir
    | .drawer _ => true
    | _ => false
  asExpr _ item := return item
  get _ item key := read fun cabinet =>
    match cabinet.slot item key with
    | some (.leaf value) => .ok value
    | _ => .ok .nil
  set _ item key value := write item (put key value)
  has _ item key := read fun cabinet => .ok (cabinet.slot item key).isSome
  del _ item key := do
    let old ← read fun cabinet =>
      match cabinet.slot item key with
      | some (.leaf value) => .ok value
      | some (.dir _) => .error (.eval "is a drawer")
      | none => .ok .nil
    write item fun rows => .ok (Entries.remove rows key)
    return old
  keys _ item := read fun cabinet =>
    .ok ((cabinet.slots item).map Prod.fst).dedup
  entries _ item := read fun cabinet =>
    .ok ((leaves (cabinet.slots item)).filter fun row =>
      cabinet.slot item row.1 = some (.leaf row.2))
  clear _ item := write item fun rows => .ok (rows.filter fun row =>
    isDrawer (Entries.find rows row.1))
  compareExchange _ _ _ _ _ := throw (.eval "unsupported")
  mkdir _ item name := make item name.name
  opendir _ item name := read fun cabinet =>
    match cabinet.slot item (.new name.name) with
    | some (.dir id) => .ok (some (.drawer id))
    | some (.leaf _) => .error (.eval "is a value")
    | none => .ok none
  rmdir _ item name := do
    write item fun rows =>
      if isDrawer (Entries.find rows (.new name.name)) then
        .ok (Entries.remove rows (.new name.name))
      else
        .error (.eval "no drawer")
    return .nil
  hasDir _ item name := read fun cabinet =>
    .ok (isDrawer (cabinet.slot item (.new name.name)))

variable {cabinet later : Cabinet} {item : Item}

theorem read_reads
    {α : Type} {reads : Cabinet → Except Error α} {fact : α → Prop}
    (so : ∀ value, reads cabinet = .ok value → fact value) :
    Reads (read reads) cabinet fact :=
  .reading (.ofExcept so)

/-- Setting the slots of a drawer leaves the other drawers. -/
theorem slot_set
    {id : Nat} {rows : List (Symbol × Slot Nat Item)}
    (isDrawer : id < cabinet.length)
    (other : Item) (key : Symbol) :
    slot (cabinet.set id rows) other key =
      if other = .drawer id then
        Entries.find rows key
      else
        cabinet.slot other key := by
  cases other with
  | drawer query =>
      by_cases same : query = id
      · simp [slot, slots, same, isDrawer]
      · simp [slot, slots, same, Ne.symm same, List.getD_eq_getElem?_getD]
  | _ => simp [slot, slots]

/-- The slots of a drawer that exists have been set, and no others. -/
def SlotsSet (cabinet later : Cabinet) (item : Item)
    (rows : List (Symbol × Slot Nat Item)) : Prop :=
  item ≠ .drawer cabinet.length ∧ ∀ other key, later.slot other key =
    if other = item then
      Entries.find rows key
    else
      cabinet.slot other key

/-- A write leaves the cabinet, or sets the slots of the drawer. -/
theorem write_inv
    {change : List (Symbol × Slot Nat Item) →
      Except Error (List (Symbol × Slot Nat Item))}
    {outcome : Except Error Unit}
    (yields : Yields (write item change) cabinet outcome later) :
    (later = cabinet ∧ outcome ≠ .ok ()) ∨
      ∃ rows, change (cabinet.slots item) = .ok rows ∧
        SlotsSet cabinet later item rows := by
  have yields := (Yields.get cabinet).rest yields
  cases item with
  | drawer id =>
      simp only at yields
      split at yields
      · next isDrawer =>
          have present : Item.drawer id ≠ .drawer cabinet.length := by
            simpa using isDrawer.ne
          rcases yields.bind_inv with
            ⟨rows, _, changed, yields⟩ | ⟨_, failed, rfl⟩
          · obtain ⟨same, rfl⟩ := changed.ofExcept_inv
            obtain ⟨_, rfl⟩ := (Yields.set _ _).unique yields
            exact .inr ⟨rows, same.symm, present, fun other key =>
              slot_set isDrawer other key⟩
          · exact .inl ⟨failed.ofExcept_inv.2, by simp⟩
      · obtain ⟨rfl, rfl⟩ := (Yields.throw _ _).unique yields
        exact .inl ⟨rfl, by simp⟩
  | _ =>
      obtain ⟨rfl, rfl⟩ := (Yields.throw _ _).unique yields
      exact .inl ⟨rfl, by simp⟩

theorem isDrawer_iff
    {slot : Option (Slot Nat Item)} :
    isDrawer slot = true ↔ ∃ child, slot.map lift = some (.dir child) := by
  rcases slot with _ | value | id
  · simp [isDrawer]
  · simp [isDrawer, lift]
  · simp [isDrawer, lift]

/-- A write that keeps or empties slots shrinks the cabinet. -/
theorem write_shrinks
    {change : List (Symbol × Slot Nat Item) →
      Except Error (List (Symbol × Slot Nat Item))}
    (empties : ∀ rows changed, change rows = .ok changed → ∀ key,
      Entries.find changed key = Entries.find rows key ∨
        Entries.find changed key = none) :
    Within (fun before after => Shrinks (content before) (content after))
      (write item change) := by
  intro cabinet outcome later yields
  rcases write_inv yields with ⟨rfl, _⟩ | ⟨rows, changed, _, sets⟩
  · exact .refl
  intro other name
  simp only [content, sets]
  split
  · next same =>
      subst same
      rcases empties _ _ changed (.new name) with kept | gone
      · rw [kept]
        exact .inl rfl
      · rw [gone]
        exact .inr rfl
  · exact .inl rfl

theorem put_eq_ok
    {key : Symbol} {value : Item} {rows changed : List (Symbol × Slot Nat Item)}
    (puts : put key value rows = .ok changed) :
    changed = Entries.insert rows key (.leaf value) := by
  unfold put at puts
  split at puts
  · cases puts
  · exact (Except.ok.inj puts).symm

/-- A removal of a key empties its slot. -/
theorem remove_empties
    (rows : List (Symbol × Slot Nat Item)) (key query : Symbol) :
    Entries.find (Entries.remove rows key) query = Entries.find rows query ∨
      Entries.find (Entries.remove rows key) query = none := by
  rw [Entries.find_remove]
  by_cases same : query = key
  · subst same
    exact .inr (Function.update_self _ _ _)
  · exact .inl (Function.update_of_ne same _ _)

/-- A slot of a drawer that is set to a value or to an empty drawer. -/
theorem SlotsSet.changes
    {key : Symbol} {slot : Slot Nat Item}
    (sets : SlotsSet cabinet later item
      (Entries.insert (cabinet.slots item) key slot))
    (fresh : ∀ id, slot = .dir id → ∀ query,
      content later (.drawer id) query = none) :
    Changes (content cabinet) (content later) item key.name := by
  obtain ⟨_, sets⟩ := sets
  rw [Entries.find_insert] at sets
  constructor
  · intro other query apart
    left
    simp only [content, sets]
    split
    · next same =>
        have differs : Symbol.new query ≠ key := fun equal =>
          apart same (equal ▸ rfl)
        rw [Function.update_of_ne differs, same]
        rfl
    · rfl
  · intro child made
    obtain ⟨stored, found, lifted⟩ := Option.map_eq_some_iff.mp made
    have found := (sets item (.new key.name)).symm.trans found
    rw [if_pos rfl] at found
    by_cases here : Symbol.new key.name = key
    · rw [here, Function.update_self] at found
      cases found
      cases slot with
      | leaf _ => cases lifted
      | dir id =>
          cases lifted
          exact .inr (fresh id rfl)
    · rw [Function.update_of_ne here] at found
      exact .inl (Option.map_eq_some_iff.mpr ⟨stored, found, lifted⟩)

theorem set_changes
    (key : Symbol) (value : Item) :
    Within (fun before after =>
      Changes (content before) (content after) item key.name)
      (write item (put key value)) := by
  intro cabinet outcome later yields
  rcases write_inv yields with ⟨rfl, _⟩ | ⟨rows, puts, sets⟩
  · exact .refl _ _
  · rw [put_eq_ok puts] at sets
    exact sets.changes fun _ impossible => by cases impossible

/-- A new drawer at the end is empty, and so it was before it was made. -/
theorem slot_append
    (cabinet : Cabinet) (other : Item) (key : Symbol) :
    slot (cabinet ++ [[]]) other key = cabinet.slot other key := by
  cases other with
  | drawer id =>
      simp only [slot, slots, List.getD_eq_getElem?_getD]
      rcases Nat.lt_trichotomy id cabinet.length with inside | here | beyond
      · rw [List.getElem?_append_left inside]
      · simp [here]
      · rw [List.getElem?_eq_none beyond.le, List.getElem?_eq_none]
        simpa using Nat.succ_le_of_lt beyond
  | _ => rfl

theorem slot_beyond
    (cabinet : Cabinet) (key : Symbol) :
    cabinet.slot (.drawer cabinet.length) key = none := by
  simp [slot, slots]

theorem make_changes
    (name : String) :
    Within (fun before after =>
      Changes (content before) (content after) item name)
      (make item name) := by
  refine .reading fun cabinet outcome later yields => ?_
  split at yields
  · obtain ⟨_, rfl⟩ := (Yields.pure _ _).unique yields
    exact .refl _ _
  · obtain ⟨_, rfl⟩ := (Yields.throw _ _).unique yields
    exact .refl _ _
  · have changes : ∀ later : Cabinet,
        SlotsSet cabinet later item (Entries.insert (cabinet.slots item)
          (.new name) (.dir cabinet.length)) →
        Changes (content cabinet) (content later) item name := by
      intro later sets
      refine sets.changes fun id same query => ?_
      cases same
      have elsewhere := sets.2 (.drawer cabinet.length) (.new query)
      rw [if_neg sets.1.symm, slot_beyond] at elsewhere
      simp only [content, elsewhere, Option.map_none]
    rcases yields.bind_inv with ⟨_, middle, wrote, rest⟩ | ⟨_, failed, _⟩
    · have appended := (Yields.modify _ middle).rest rest
      obtain ⟨_, rfl⟩ := (Yields.pure _ _).unique appended
      have same : content (middle ++ [[]]) = content middle := by
        funext other query
        simp only [content, slot_append]
      simp only [same]
      rcases write_inv wrote with ⟨_, failed⟩ | ⟨rows, made, sets⟩
      · exact absurd rfl failed
      · cases made
        exact changes middle sets
    · rcases write_inv failed with ⟨rfl, _⟩ | ⟨rows, made, sets⟩
      · exact .refl _ _
      · cases made
        exact changes later sets

/-- The drawers are truthful. -/
theorem objects_truthful :
    Truthful objects content where
  opendir _ item name cabinet := by
    refine read_reads fun found answered => ?_
    simp only [content]
    split at answered <;> cases answered
    · next stored => exact congrArg (Option.map lift) stored
    · next absent => exact congrArg (Option.map lift) absent
  hasDir _ item name cabinet := by
    refine read_reads fun found answered => ?_
    cases answered
    rw [isDrawer_iff]
    rfl
  has _ item name cabinet := by
    refine read_reads fun found answered => ?_
    cases answered
    simp [content]
  entries _ item cabinet := by
    refine read_reads fun rows answered name stored member => ?_
    cases answered
    have found := of_decide_eq_true (List.mem_filter.mp member).2
    exact congrArg (Option.map lift) found
  set _ item key value := set_changes key value
  compareExchange _ _ _ _ _ := Within.throw (fun _ => .refl _ _) _
  mkdir _ item name := make_changes name.name
  del _ item key := by
    refine Within.bind (fun _ _ _ => .trans) ?_ fun old =>
      Within.bind (fun _ _ _ => .trans) ?_ fun _ => Within.pure (fun _ => .refl) _
    · exact Reads.within (fun _ => .refl) fun _ => read_reads fun _ _ => trivial
    · refine write_shrinks fun rows changed same query => ?_
      cases same
      exact remove_empties rows key query
  clear _ item := by
    refine @write_shrinks item (fun rows => .ok (rows.filter fun row =>
      isDrawer (Entries.find rows row.1))) fun rows changed same key => ?_
    cases same
    rw [Entries.find_filter fun name => isDrawer (Entries.find rows name)]
    split
    · exact .inl rfl
    · exact .inr rfl
  rmdir _ item name := by
    refine Within.bind (fun _ _ _ => .trans) (write_shrinks ?_) fun _ =>
      Within.pure (fun _ => .refl) _
    intro rows changed same query
    split at same <;> cases same
    exact remove_empties rows (.new name.name) query

end Cabinet

end SimStorage.Mount
