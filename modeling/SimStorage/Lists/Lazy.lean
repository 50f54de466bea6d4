import SimStorage.Interaction.Outcome
import SimStorage.Lists.Scripts

namespace SimStorage.Lists

/-!
# The lazy cons list

The head and the tail of a cell are computed by closures when they are first
asked for, and kept.  The cells live in a store that only grows; a closure is
the data that it has captured.
-/

open Interaction Table

variable {Value σ α : Type}

/-- A handle of a list: of a lazy cell, or of another kind. -/
abbrev LazyHandle (Value : Type) :=
  Nat ⊕ Value

/-- `HeadFn`: the closure of `chain_from`, or that of `new_cons`. -/
inductive HeadFn (Value : Type) where
  | itemAt (items : List Value) (index : Fin items.length)
  | given (head : Value)

/-- `TailFn`: the closure of `chain_from`, or that of `new_cons`. -/
inductive TailFn (Value : Type) where
  | chainBehind (items : List Value) (index : Nat)
  | given (tail : LazyHandle Value)

/-- `LazyConsList`: an empty cell, or one with its closures and its caches. -/
structure LazyConsList (Value : Type) where
  empty : Bool
  headFn : Option (HeadFn Value)
  tailFn : Option (TailFn Value)
  headCache : Option (Except Failure Value)
  tailCache : Option (Except Failure (Option (LazyHandle Value)))

/-- The store of the lazy cells, and the state of other lists. -/
structure Cells (Value σ : Type) where
  cells : List (LazyConsList Value)
  lists : σ

/-- A call on the lazy cells. -/
abbrev Forcing (Value σ α : Type) :=
  EStateM Failure (Cells Value σ) α

/-- A call on other lists. -/
def onOthers (call : EStateM Failure σ α) : Forcing Value σ α := fun store =>
  match call store.lists with
  | .ok value lists => .ok value { store with lists }
  | .error failure lists => .error failure { store with lists }

namespace LazyConsList

/-- `empty`. -/
def emptyCell : LazyConsList Value where
  empty := true
  headFn := none
  tailFn := none
  headCache := none
  tailCache := none

/-- `new`. -/
def new (headFn : HeadFn Value) (tailFn : TailFn Value) :
    LazyConsList Value where
  empty := false
  headFn := some headFn
  tailFn := some tailFn
  headCache := none
  tailCache := none

/-- A cell is stored at a new address. -/
def alloc (cell : LazyConsList Value) : Forcing Value σ Nat := do
  let store ← MonadState.get
  MonadState.set { store with cells := store.cells ++ [cell] }
  return store.cells.length

/-- The cell at an address. -/
def cellAt (address : Nat) : Forcing Value σ (LazyConsList Value) := do
  let store ← MonadState.get
  match store.cells[address]? with
  | some cell => return cell
  | none => throw .outOfRange

/-- A change of the cell at an address. -/
def change (address : Nat)
    (update : LazyConsList Value → LazyConsList Value) :
    Forcing Value σ Unit :=
  modify fun store => { store with cells := store.cells.modify address update }

/-- The cell that `chain_from` makes. -/
def chainCell (items : List Value) (index : Nat) : LazyConsList Value :=
  if within : index < items.length then
    new (.itemAt items ⟨index, within⟩) (.chainBehind items index)
  else
    emptyCell

/-- `chain_from`. -/
def chainFrom (items : List Value) (index : Nat) : Forcing Value σ Nat :=
  alloc (chainCell items index)

/-- A call of a head closure. -/
def callHead : HeadFn Value → Forcing Value σ Value
  | .itemAt items index => return items.get index
  | .given head => return head

/-- A call of a tail closure. -/
def callTail : TailFn Value → Forcing Value σ (Option (LazyHandle Value))
  | .chainBehind items index =>
      if items.length ≤ index + 1 then
        return none
      else do
        let next ← chainFrom items (index + 1)
        return some (.inl next)
  | .given tail => return some tail

/-- `cached_head`. -/
def cachedHead (address : Nat) : Forcing Value σ Value := do
  let cell ← cellAt address
  match cell.headFn with
  | none => throw (refused "lazy list head missing")
  | some headFn =>
      match cell.headCache with
      | some result => MonadExcept.ofExcept result
      | none => do
          let result ← observe (callHead headFn)
          change address fun cell => { cell with headCache := some result }
          MonadExcept.ofExcept result

/-- `cached_tail`. -/
def cachedTail (address : Nat) :
    Forcing Value σ (Option (LazyHandle Value)) := do
  let cell ← cellAt address
  match cell.tailFn with
  | none => throw (refused "lazy list tail missing")
  | some tailFn =>
      match cell.tailCache with
      | some result => MonadExcept.ofExcept result
      | none => do
          let result ← observe (callTail tailFn)
          change address fun cell => { cell with tailCache := some result }
          MonadExcept.ofExcept result

/-- `is_empty`. -/
def isEmpty (address : Nat) : Forcing Value σ Bool := do
  let cell ← cellAt address
  return cell.empty

/-- `truth`. -/
def truth (address : Nat) : Forcing Value σ Bool := do
  let cell ← cellAt address
  return !cell.empty

/-- `car`. -/
def car (address : Nat) : Forcing Value σ (Option Value) := do
  let cell ← cellAt address
  if cell.empty then
    return none
  else
    some <$> cachedHead address

/-- `cdr`. -/
def cdr (address : Nat) : Forcing Value σ (Option (LazyHandle Value)) := do
  let cell ← cellAt address
  if cell.empty then
    return none
  else
    cachedTail address

section Operations

variable (lists : ListValue Value Value σ) (isList : Value → Bool)

/-- `as_list`, of a tail. -/
def asList : LazyHandle Value → Option (LazyHandle Value)
  | .inl address => some (.inl address)
  | .inr tail => if isList tail then some (.inr tail) else none

/-- The spine that the walks go along. -/
def spine : Spine Value (LazyHandle Value) (Cells Value σ) where
  isEmpty := Sum.elim isEmpty fun tail => onOthers (lists.isEmpty tail)
  car := Sum.elim car fun tail => onOthers (lists.car tail)
  cdr := Sum.elim
    (fun address => (·.bind (asList isList)) <$> cdr address)
    fun tail => Option.map .inr <$> onOthers (lists.cdr tail)
  release := Sum.elim (fun _ => id) fun tail store =>
    { store with lists := lists.release tail store.lists }

variable (spineLenCmp : Spine Value (LazyHandle Value) (Cells Value σ) →
  LazyHandle Value → Nat → Forcing Value σ Ordering)

/-- `ListValue` of lazy cells, beside that of other lists. -/
def object : ListValue Value (LazyHandle Value) (Cells Value σ) where
  isEmpty := (spine lists isList).isEmpty
  truth := Sum.elim truth fun tail => onOthers (lists.truth tail)
  car := (spine lists isList).car
  cdr := Sum.elim cdr fun tail =>
    Option.map .inr <$> onOthers (lists.cdr tail)
  get := Sum.elim (fun address => (spine lists isList).get (.inl address))
    fun tail index => onOthers (lists.get tail index)
  lenCmp := Sum.elim
    (fun address => spineLenCmp (spine lists isList) (.inl address))
    fun tail n => onOthers (lists.lenCmp tail n)
  forEach := Sum.elim
    (fun address => (spine lists isList).forEach (.inl address))
    fun tail turns limit => onOthers (lists.forEach tail turns limit)
  release := (spine lists isList).release

end Operations

end LazyConsList

namespace LazyBackend

variable (isList : Value → Bool)

/-- `new_list`. -/
def newList (items : List Value) : Forcing Value σ (LazyHandle Value) :=
  .inl <$> LazyConsList.chainFrom items 0

/-- `new_cons`. -/
def newCons (car : Value) (tail : LazyHandle Value) :
    Forcing Value σ (LazyHandle Value) :=
  match LazyConsList.asList isList tail with
  | none => throw (.error (.typeMismatch "list" "non-list"))
  | some tail => .inl <$> LazyConsList.alloc (.new (.given car) (.given tail))

/-- Repeated `new_cons` onto the empty list, from the last item on. -/
def consAll : List Value → Forcing Value σ (LazyHandle Value)
  | [] => newList []
  | item :: items => do
      let tail ← consAll items
      newCons isList item tail

end LazyBackend

end SimStorage.Lists
