import SimStorage.Lists.Spine

namespace SimStorage.Lists

/-!
# The iterator list

All views of an iterator list share a driver and a buffer of what it has given.
A view is an offset; the census of the live views says which part of the buffer
is still needed.  Offsets and counts are unbounded: the source saturates them
only past any length that a buffer can have.
-/

open Interaction Table

variable {Value σ α : Type}

/-- `IterDriver`: an iterator with its position, or a cursor on another list. -/
inductive IterDriver (Value : Type) where
  | iter (items : Nat → Option (Except Error Value)) (position : Nat)
  | list (next : Option Value)

/--
`IterState`.  The census is the list of the starts of the live views, each as
often as it is counted.
-/
structure IterState (Value : Type) where
  driver : IterDriver Value
  buffer : List Value
  base : Nat
  live : List Nat
  done : Bool

/-- The state of an iterator list, and that of the lists that it is driven by. -/
structure World (Value σ : Type) where
  iter : IterState Value
  lists : σ

/-- A call on an iterator list. -/
abbrev Calling (Value σ α : Type) :=
  EStateM Failure (World Value σ) α

/-- A call on the lists that it is driven by. -/
def onLists (call : EStateM Failure σ α) : Calling Value σ α := fun world =>
  match call world.lists with
  | .ok value lists => .ok value { world with lists }
  | .error failure lists => .error failure { world with lists }

/-- A change of the iterator list's own state. -/
def onIter (change : IterState Value → IterState Value) :
    Calling Value σ Unit :=
  modify fun world => { world with iter := change world.iter }

namespace IterState

/-- `IterState::new`. -/
def new (items : Nat → Option (Except Error Value)) : IterState Value where
  driver := .iter items 0
  buffer := []
  base := 0
  live := []
  done := false

/-- `with_prefix`. -/
def withFirst (first tail : Value) : IterState Value where
  driver := .list (some tail)
  buffer := [first]
  base := 0
  live := []
  done := false

variable (state : IterState Value)

/-- `filled`. -/
def filled : Nat :=
  state.base + state.buffer.length

/-- `register`. -/
def register (start : Nat) : IterState Value :=
  { state with live := start :: state.live }

/-- `unregister`. -/
def unregister (start : Nat) : IterState Value :=
  let live := state.live.erase start
  let floor := live.min?.getD state.filled
  let dropN := min (floor - state.base) state.buffer.length
  { state with
    live
    buffer := state.buffer.drop dropN
    base := state.base + dropN }

end IterState

section Driving

variable (lists : ListObjects Value σ)

/-- `ListCursor::next_value` at a node, which goes out of scope. -/
def nextOf (node : Value) : Calling Value σ (Option Value) :=
  tidying
    (do
      if lists.isList node = false then
        throw (refused "list cdr did not yield a list")
      else if ← onLists (lists.isEmpty node) then
        return none
      else
        match ← onLists (lists.car node) with
        | none => throw (refused "list car missing for non-empty list")
        | some head =>
            let next ← onLists (lists.cdr node)
            onIter fun state => { state with driver := .list next }
            return some head)
    fun world => { world with lists := lists.release node world.lists }

/-- `next_value`. -/
def nextValue : Calling Value σ (Option Value) := do
  let world ← MonadState.get
  match world.iter.driver with
  | .iter items position =>
      onIter fun state => { state with driver := .iter items (position + 1) }
      match items position with
      | none => return none
      | some (.ok value) => return some value
      | some (.error error) => throw (.error error)
  | .list none => return none
  | .list (some node) =>
      onIter fun state => { state with driver := .list none }
      nextOf lists node

/-- The loop of `fill_to`, for so many elements more. -/
def fillMore : Nat → Calling Value σ Unit
  | 0 => return ()
  | missing + 1 => do
      let world ← MonadState.get
      if world.iter.done then
        return ()
      else
        match ← nextValue lists with
        | some item =>
            onIter fun state => { state with buffer := state.buffer ++ [item] }
            fillMore missing
        | none => onIter fun state => { state with done := true }

/-- `fill_to`. -/
def fillTo (need : Nat) : Calling Value σ Nat := do
  let world ← MonadState.get
  fillMore lists (need - world.iter.filled)
  let world ← MonadState.get
  return world.iter.filled

end Driving

/-- `LazyIterList`: a view of the shared state from its start. -/
structure LazyIterList where
  start : Nat
  deriving Repr, DecidableEq

namespace LazyIterList

variable (lists : ListObjects Value σ) (view : LazyIterList)

/-- `from_state`. -/
def fromState (start : Nat) : Calling Value σ LazyIterList := do
  onIter fun state => state.register start
  return { start }

/-- `clone`. -/
def clone : Calling Value σ LazyIterList :=
  fromState view.start

/-- `drop`. -/
def dropped (world : World Value σ) : World Value σ :=
  { world with iter := world.iter.unregister view.start }

/-- `is_empty`. -/
def isEmpty : Calling Value σ Bool := do
  let filled ← fillTo lists (view.start + 1)
  return filled ≤ view.start

/-- `car`; the difference and the index are checked. -/
def car : Calling Value σ (Option Value) := do
  let filled ← fillTo lists (view.start + 1)
  if filled ≤ view.start then
    return none
  else
    let world ← MonadState.get
    if world.iter.base ≤ view.start then
      match world.iter.buffer[view.start - world.iter.base]? with
      | some value => return some value
      | none => throw .outOfRange
    else
      throw .outOfRange

/-- `cdr`. -/
def cdr : Calling Value σ (Option LazyIterList) := do
  if ← view.isEmpty lists then
    return none
  else
    some <$> fromState (view.start + 1)

/-- `truth`. -/
def truth : Calling Value σ Bool := do
  let empty ← view.isEmpty lists
  return !empty

/-- `len_cmp`. -/
def lenCmp (n : Nat) : Calling Value σ Ordering := do
  let filled ← fillTo lists (view.start + n + 1)
  let remaining := filled - view.start
  if remaining > n then
    return .gt
  else
    return compare remaining n

/-- The spine that the walks go along. -/
def spine : Spine Value LazyIterList (World Value σ) where
  isEmpty view := view.isEmpty lists
  car view := view.car lists
  cdr view := view.cdr lists
  release := dropped

/-- `get`. -/
def get (index : Nat) : Calling Value σ (Option Value) :=
  (spine lists).get view index

/-- `for_each`. -/
def forEach (turns : Nat) (limit : Option Nat) :
    Calling Value σ (List Value × Visit) :=
  (spine lists).forEach view turns limit

end LazyIterList

end SimStorage.Lists
