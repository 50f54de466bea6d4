import SimStorage.Lists.Unrolled

namespace SimStorage.Lists.Thunks

/-!
# Lazy cells with any closures

The closures of a cell may compute anything, add cells and fail.  Each is called
once at most, as its outcome is kept.  Where the outcomes of the closures are
those of an unrolled list, the cells give it, whatever has been forced.
-/

open Interaction

variable {HeadFn TailFn Value Seed σ α : Type}

/-- A handle of a value: of a lazy cell, or of another kind. -/
abbrev Handle (Value : Type) :=
  Nat ⊕ Value

/-- `LazyConsList`: an empty cell, or one with its closures and its caches. -/
structure LazyConsList (HeadFn TailFn Value : Type) where
  empty : Bool
  headFn : Option HeadFn
  tailFn : Option TailFn
  headCache : Option (Except Failure Value)
  tailCache : Option (Except Failure (Option (Handle Value)))

/-- The lazy cells, and the state of whatever else the closures use. -/
structure Store (HeadFn TailFn Value σ : Type) where
  cells : List (LazyConsList HeadFn TailFn Value)
  others : σ

/-- A call on the lazy cells. -/
abbrev Forcing (HeadFn TailFn Value σ α : Type) :=
  EStateM Failure (Store HeadFn TailFn Value σ) α

/-- What a call of a closure does. -/
structure Closures (HeadFn TailFn Value σ : Type) where
  callHead : HeadFn → Forcing HeadFn TailFn Value σ Value
  callTail : TailFn → Forcing HeadFn TailFn Value σ (Option (Handle Value))

/-- A call that leaves the lazy cells. -/
def onOthers (call : EStateM Failure σ α) :
    Forcing HeadFn TailFn Value σ α := fun store =>
  match call store.others with
  | .ok value others => .ok value { store with others }
  | .error failure others => .error failure { store with others }

namespace LazyConsList

/-- `new`. -/
def new (headFn : HeadFn) (tailFn : TailFn) :
    LazyConsList HeadFn TailFn Value where
  empty := false
  headFn := some headFn
  tailFn := some tailFn
  headCache := none
  tailCache := none

/-- A cell is stored at a new address. -/
def alloc (cell : LazyConsList HeadFn TailFn Value) :
    Forcing HeadFn TailFn Value σ Nat := do
  let store ← MonadState.get
  MonadState.set { store with cells := store.cells ++ [cell] }
  return store.cells.length

/-- The cell at an address. -/
def cellAt (address : Nat) :
    Forcing HeadFn TailFn Value σ (LazyConsList HeadFn TailFn Value) := do
  let store ← MonadState.get
  match store.cells[address]? with
  | some cell => return cell
  | none => throw .outOfRange

/-- A change of the cell at an address. -/
def change (address : Nat)
    (update : LazyConsList HeadFn TailFn Value →
      LazyConsList HeadFn TailFn Value) :
    Forcing HeadFn TailFn Value σ Unit :=
  modify fun store => { store with cells := store.cells.modify address update }

section Operations

variable (closures : Closures HeadFn TailFn Value σ)

/-- `cached_head`. -/
def cachedHead (address : Nat) : Forcing HeadFn TailFn Value σ Value := do
  let cell ← cellAt address
  match cell.headFn with
  | none => throw (refused "lazy list head missing")
  | some headFn =>
      match cell.headCache with
      | some result => MonadExcept.ofExcept result
      | none => do
          let result ← observe (closures.callHead headFn)
          change address fun cell => { cell with headCache := some result }
          MonadExcept.ofExcept result

/-- `cached_tail`. -/
def cachedTail (address : Nat) :
    Forcing HeadFn TailFn Value σ (Option (Handle Value)) := do
  let cell ← cellAt address
  match cell.tailFn with
  | none => throw (refused "lazy list tail missing")
  | some tailFn =>
      match cell.tailCache with
      | some result => MonadExcept.ofExcept result
      | none => do
          let result ← observe (closures.callTail tailFn)
          change address fun cell => { cell with tailCache := some result }
          MonadExcept.ofExcept result

/-- `is_empty`. -/
def isEmpty (address : Nat) : Forcing HeadFn TailFn Value σ Bool := do
  let cell ← cellAt address
  return cell.empty

/-- `car`. -/
def car (address : Nat) : Forcing HeadFn TailFn Value σ (Option Value) := do
  let cell ← cellAt address
  if cell.empty then
    return none
  else
    some <$> cachedHead closures address

/-- `cdr`. -/
def cdr (address : Nat) :
    Forcing HeadFn TailFn Value σ (Option (Handle Value)) := do
  let cell ← cellAt address
  if cell.empty then
    return none
  else
    cachedTail closures address

variable (lists : ListObjects Value σ)

/-- `as_list`, of a tail. -/
def asList : Handle Value → Option (Handle Value)
  | .inl address => some (.inl address)
  | .inr tail => if lists.isList tail then some (.inr tail) else none

/-- The spine of lists of another kind. -/
def otherSpine : Spine Value Value σ where
  isEmpty := lists.isEmpty
  car := lists.car
  cdr list := Option.filter lists.isList <$> lists.cdr list
  release := lists.release

/-- The spine that `get` and `for_each` go along. -/
def spine : Spine Value (Handle Value) (Store HeadFn TailFn Value σ) where
  isEmpty := Sum.elim isEmpty fun tail => onOthers (lists.isEmpty tail)
  car := Sum.elim (car closures) fun tail => onOthers (lists.car tail)
  cdr := Sum.elim
    (fun address => (·.bind (asList lists)) <$> cdr closures address)
    fun tail => Option.map .inr <$> onOthers ((otherSpine lists).cdr tail)
  release := Sum.elim (fun _ => id) fun tail store =>
    { store with others := lists.release tail store.others }

/-- `get`. -/
def get (address index : Nat) :
    Forcing HeadFn TailFn Value σ (Option Value) :=
  (spine closures lists).get (.inl address) index

/-- `for_each`. -/
def forEach (address turns : Nat) (limit : Option Nat) :
    Forcing HeadFn TailFn Value σ (List Value × Visit) :=
  (spine closures lists).forEach (.inl address) turns limit

end Operations

section Unfold

variable (step : Seed → EStateM Failure σ (Value × Seed))

/-- The closures of `lazy_unfold`, which have captured a seed. -/
def unfoldClosures : Closures Seed Seed Value σ where
  callHead seed := do
    let (value, _) ← onOthers (step seed)
    return value
  callTail seed := do
    let (_, nextSeed) ← onOthers (step seed)
    let next ← alloc (.new nextSeed nextSeed)
    return some (.inl next)

/-- `unfold`. -/
def unfold (seed : Seed) : Forcing Seed Seed Value σ Nat :=
  alloc (.new seed seed)

end Unfold

end LazyConsList

section Meaning

/-- The outcomes of closures: of a tail, it is the list behind it. -/
structure Meaning (HeadFn TailFn Value : Type) where
  head : HeadFn → Except Failure Value
  tail : TailFn → Except Failure (Option (Unrolled Value))

variable (meaning : Meaning HeadFn TailFn Value)
variable (giving : σ → Value → Unrolled Value → Prop)

/-- The list of a cell with its closures. -/
def Meaning.unrolled (headFn : HeadFn) (tailFn : TailFn) : Unrolled Value
  | 0 => .cell (meaning.head headFn) (Option.isSome <$> meaning.tail tailFn)
  | index + 1 =>
      match meaning.tail tailFn with
      | .ok (some rest) => rest index
      | _ => .empty

/-- A cell is of the list. -/
def LazyConsList.Means (cell : LazyConsList HeadFn TailFn Value)
    (list : Unrolled Value) : Prop :=
  cell.empty = true ∧ list 0 = .empty ∨
    cell.empty = false ∧ ∃ headFn tailFn, cell.headFn = some headFn ∧
      cell.tailFn = some tailFn ∧ list = meaning.unrolled headFn tailFn

/-- A handle is of the list: as a cell, or as a list of another kind. -/
def Shows (store : Store HeadFn TailFn Value σ) :
    Handle Value → Unrolled Value → Prop
  | .inl address, list =>
      ∃ cell, store.cells[address]? = some cell ∧ cell.Means meaning list
  | .inr tail, list => giving store.others tail list

variable (lists : ListObjects Value σ)

/-- What a tail closure is to give, and what it gave. -/
inductive TailShows (store : Store HeadFn TailFn Value σ) :
    Except Failure (Option (Unrolled Value)) →
      Except Failure (Option (Handle Value)) → Prop where
  | failed (failure : Failure) :
      TailShows store (.error failure) (.error failure)
  | ended {tail : Option (Handle Value)}
      (noList : tail.bind (LazyConsList.asList lists) = none) :
      TailShows store (.ok none) (.ok tail)
  | next {list : Unrolled Value} {handle : Handle Value}
      (shown : Shows meaning giving store handle list) :
      TailShows store (.ok (some list)) (.ok (some handle))

/-- What has been kept is what the closures are to give. -/
structure Cached (store : Store HeadFn TailFn Value σ) : Prop where
  head : ∀ (address : Nat) cell, store.cells[address]? = some cell →
    ∀ headFn, cell.headFn = some headFn → ∀ result,
      cell.headCache = some result → result = meaning.head headFn
  tail : ∀ (address : Nat) cell, store.cells[address]? = some cell →
    ∀ tailFn, cell.tailFn = some tailFn → ∀ result,
      cell.tailCache = some result →
        TailShows meaning giving lists store (meaning.tail tailFn) result

/-- The closures of a cell stay as they are. -/
structure LazyConsList.Same (cell later : LazyConsList HeadFn TailFn Value) :
    Prop where
  empty : later.empty = cell.empty
  headFn : later.headFn = cell.headFn
  tailFn : later.tailFn = cell.tailFn

/-- The store later: the cells are there with their closures, and the others. -/
structure Later (store after : Store HeadFn TailFn Value σ) : Prop where
  cells : ∀ (address : Nat) cell, store.cells[address]? = some cell →
    ∃ later, after.cells[address]? = some later ∧ cell.Same later
  others : Spine.Lasts giving store.others after.others

variable (closures : Closures HeadFn TailFn Value σ)
variable (holds : Store HeadFn TailFn Value σ → Prop)

/--
The closures have their outcomes in every store where what they have captured
is there, and keep it there; what is kept in caches does not matter for that.
-/
structure Steady : Prop where
  head : ∀ headFn store, holds store → Cached meaning giving lists store →
    ∃ after, Yields (closures.callHead headFn) store (meaning.head headFn)
        after ∧
      Later giving store after ∧ holds after ∧
        Cached meaning giving lists after
  tail : ∀ tailFn store, holds store → Cached meaning giving lists store →
    ∃ found after, Yields (closures.callTail tailFn) store found after ∧
      Later giving store after ∧ holds after ∧
        Cached meaning giving lists after ∧
          TailShows meaning giving lists after (meaning.tail tailFn) found
  filled : ∀ (store : Store HeadFn TailFn Value σ) address update,
    (∀ cell : LazyConsList HeadFn TailFn Value, cell.Same (update cell)) →
      holds store →
        holds { store with cells := store.cells.modify address update }
  others : ∀ (store : Store HeadFn TailFn Value σ) others,
    Spine.Lasts giving store.others others → holds store →
      holds { store with others }

/-- What a handle gives, in a store that is sound. -/
def Gives (store : Store HeadFn TailFn Value σ) (handle : Handle Value)
    (list : Unrolled Value) : Prop :=
  holds store ∧ Cached meaning giving lists store ∧
    Shows meaning giving store handle list

end Meaning

end SimStorage.Lists.Thunks
