import Mathlib.Order.Lattice
import SimStorage.Interaction.Program
import SimStorage.Table.Entries

namespace SimStorage.LazyTables

/-!
# Lazy tables and their callers

A lazy table holds entries that run a loader when they are first forced.  Its
clones share the entries, and any number of callers use the tables at the same
time: a caller's step is one table operation under its guard, one look at a
cache, the start of a loader, one step of a loader or one try to set a cache.
Loaders are programs that may use the tables themselves.
-/

open Interaction

variable {K V ε L σ : Type}

/-- A loader that was given, or the one of an eager entry. -/
inductive Loader (V L : Type) where
  | given (loader : L)
  | constant (value : V)
  deriving DecidableEq

/-- `LazyEntry`. -/
structure LazyEntry (V ε L : Type) where
  loader : Loader V L
  cache : Option (Except ε V)

/-- `LazyEntry::eager`. -/
def LazyEntry.eager (value : V) : LazyEntry V ε L where
  loader := .constant value
  cache := some (.ok value)

/-- An entry whose loader did not run. -/
def LazyEntry.promised (loader : L) : LazyEntry V ε L where
  loader := .given loader
  cache := none

/-- `LazyTable`: the entries by reference, and who holds the lock. -/
structure LazyTable (K : Type) where
  entries : List (K × Nat)
  readers : Nat
  writing : Bool

/-- The entries of all tables, the tables, and what is outside of them. -/
structure Shared (K V ε L σ : Type) where
  heap : List (LazyEntry V ε L)
  tables : List (LazyTable K)
  outside : σ

/-- What a program asks for: an operation on a table, or a step outside. -/
inductive Request (K V L σ : Type) where
  | withLoaders (pairs : List (K × L))
  | withEntries (entries : List (K × V))
  | clone (table : Nat)
  | putLazy (table : Nat) (key : K) (loader : L)
  | get (table : Nat) (key : K)
  | set (table : Nat) (key : K) (value : V)
  | has (table : Nat) (key : K)
  | del (table : Nat) (key : K)
  | keys (table : Nat)
  | entries (table : Nat)
  | len (table : Nat)
  | clear (table : Nat)
  | outside (change : σ → σ)

/-- The replies: a new table's name, or a result. -/
abbrev Reply (ε : Type) : Request K V L σ → Type
  | .withLoaders _ => Nat
  | .withEntries _ => Nat
  | .clone _ => Nat
  | .putLazy _ _ _ => Unit
  | .get _ _ => Except ε V
  | .set _ _ _ => Except ε Unit
  | .has _ _ => Except ε Bool
  | .del _ _ => Except ε V
  | .keys _ => Except ε (List K)
  | .entries _ => Except ε (List (K × V))
  | .len _ => Except ε Nat
  | .clear _ => Except ε Unit
  | .outside _ => σ

/-- What a caller or a loader does. -/
abbrev Code (K V ε L σ : Type) :=
  Program (Request K V L σ) (Reply ε) ε V

/-- What waits for the result of a force. -/
inductive Wait (K V ε L σ : Type) where
  | get (table : Nat) (next : Except ε V → Code K V ε L σ)
  | del (table : Nat) (next : Except ε V → Code K V ε L σ)
  | entries (key : K) (rest : List (K × Nat)) (out : List (K × V))
      (next : Except ε (List (K × V)) → Code K V ε L σ)

/-- A loader that runs: the entry that it is for, and what waits for it. -/
structure Frame (K V ε L σ : Type) where
  entry : Nat
  wait : Wait K V ε L σ

/-- Where a caller is, and the loaders that it runs, innermost first. -/
inductive Thread (K V ε L σ : Type) where
  | run (code : Code K V ε L σ) (stack : List (Frame K V ε L σ))
  | force (entry : Nat) (wait : Wait K V ε L σ)
      (stack : List (Frame K V ε L σ))
  | load (entry : Nat) (wait : Wait K V ε L σ)
      (stack : List (Frame K V ε L σ))
  | store (entry : Nat) (result : Except ε V) (wait : Wait K V ε L σ)
      (stack : List (Frame K V ε L σ))

/-- What happened to an entry. -/
inductive Event (V ε : Type) where
  | missed (entry : Nat)
  | ran (entry : Nat)
  | returned (entry : Nat) (result : Except ε V)
  | forced (entry : Nat) (result : Except ε V)

/-- The shared state, the callers and, for reasoning only, the trace. -/
structure World (K V ε L σ : Type) where
  shared : Shared K V ε L σ
  threads : List (Thread K V ε L σ)
  trace : List (Event V ε)

namespace Shared

/-- `read`: the table, when nobody writes it. -/
def read (shared : Shared K V ε L σ) (name : Nat) : Option (LazyTable K) :=
  shared.tables[name]?.filter fun table => !table.writing

/-- `write`: the table, when nobody reads or writes it. -/
def write (shared : Shared K V ε L σ) (name : Nat) : Option (LazyTable K) :=
  shared.tables[name]?.filter fun table =>
    !table.writing && table.readers == 0

/-- The shared state with another table under the name. -/
def place (shared : Shared K V ε L σ) (name : Nat) (table : LazyTable K) :
    Shared K V ε L σ :=
  { shared with tables := shared.tables.set name table }

/-- A new table. -/
def create (shared : Shared K V ε L σ) (entries : List (K × Nat)) :
    Shared K V ε L σ :=
  { shared with tables := shared.tables ++ [⟨entries, 0, false⟩] }

/-- New entries. -/
def install (shared : Shared K V ε L σ) (entries : List (LazyEntry V ε L)) :
    Shared K V ε L σ :=
  { shared with heap := shared.heap ++ entries }

/-- The guard of a read ends. -/
def release (shared : Shared K V ε L σ) (name : Nat) : Shared K V ε L σ :=
  { shared with
    tables := shared.tables.modify name fun table =>
      { table with readers := table.readers - 1 } }

/-- The guard of a write ends. -/
def unlock (shared : Shared K V ε L σ) (name : Nat) : Shared K V ε L σ :=
  { shared with
    tables := shared.tables.modify name fun table =>
      { table with writing := false } }

end Shared

section Operations

variable [LinearOrder K]
variable (stack : List (Frame K V ε L σ)) (shared : Shared K V ε L σ)

/-- The entries in the order of their keys. -/
def sorted {α : Type} (entries : List (K × α)) : List (K × α) :=
  entries.mergeSort fun left right => left.1 ≤ right.1

/-- New entries in a row under the keys of pairs; later pairs replace earlier. -/
def collect (start : Nat) (keys : List K) : List (K × Nat) :=
  Entries.collect (keys.zipIdx start)

/-- The next state of the shared data and of the caller. -/
abbrev Next (K V ε L σ : Type) :=
  Shared K V ε L σ × Thread K V ε L σ

/-- `with_loaders`. -/
def withLoaders (pairs : List (K × L)) (next : Nat → Code K V ε L σ) :
    Next K V ε L σ :=
  ((shared.install (pairs.map fun pair => .promised pair.2)).create
      (collect shared.heap.length (pairs.map Prod.fst)),
    .run (next shared.tables.length) stack)

/-- `with_entries`. -/
def withEntries (entries : List (K × V)) (next : Nat → Code K V ε L σ) :
    Next K V ε L σ :=
  ((shared.install (entries.map fun entry => .eager entry.2)).create
      (collect shared.heap.length (entries.map Prod.fst)),
    .run (next shared.tables.length) stack)

/-- `clone`: a table of its own with the same entries. -/
def clone (name : Nat) (next : Nat → Code K V ε L σ) :
    Option (Next K V ε L σ) := do
  let table ← shared.read name
  return (shared.create table.entries, .run (next shared.tables.length) stack)

/-- A new entry under a key. -/
def putEntry (name : Nat) (key : K) (entry : LazyEntry V ε L)
    (code : Code K V ε L σ) : Option (Next K V ε L σ) := do
  let table ← shared.write name
  let entries := Entries.insert table.entries key shared.heap.length
  return ((shared.install [entry]).place name { table with entries := entries },
    .run code stack)

/-- `put_lazy`. -/
def putLazy (name : Nat) (key : K) (loader : L)
    (next : Unit → Code K V ε L σ) : Option (Next K V ε L σ) :=
  putEntry stack shared name key (.promised loader) (next ())

/-- `get`: the guard stays until the entry is forced. -/
def get (nil : Except ε V) (name : Nat) (key : K)
    (next : Except ε V → Code K V ε L σ) : Option (Next K V ε L σ) := do
  let table ← shared.read name
  match Entries.find table.entries key with
  | some entry =>
      return (shared.place name { table with readers := table.readers + 1 },
        .force entry (.get name next) stack)
  | none => return (shared, .run (next nil) stack)

/-- `set`. -/
def set (name : Nat) (key : K) (value : V)
    (next : Except ε Unit → Code K V ε L σ) : Option (Next K V ε L σ) :=
  putEntry stack shared name key (.eager value) (next (.ok ()))

/-- `has`. -/
def has (name : Nat) (key : K) (next : Except ε Bool → Code K V ε L σ) :
    Option (Next K V ε L σ) := do
  let table ← shared.read name
  let found := (Entries.find table.entries key).isSome
  return (shared, .run (next (.ok found)) stack)

/-- `del`: the key goes first, and the guard stays until the entry is forced. -/
def del (nil : Except ε V) (name : Nat) (key : K)
    (next : Except ε V → Code K V ε L σ) : Option (Next K V ε L σ) := do
  let table ← shared.write name
  match Entries.find table.entries key with
  | some entry =>
      let entries := Entries.remove table.entries key
      return (shared.place name
          { table with entries := entries, writing := true },
        .force entry (.del name next) stack)
  | none => return (shared, .run (next nil) stack)

/-- `keys`. -/
def keys (name : Nat) (next : Except ε (List K) → Code K V ε L σ) :
    Option (Next K V ε L σ) := do
  let table ← shared.read name
  let keys := (table.entries.map Prod.fst).mergeSort fun left right =>
    left ≤ right
  return (shared, .run (next (.ok keys)) stack)

/-- The next entry of a snapshot, or its end. -/
def listing (snapshot : List (K × Nat)) (out : List (K × V))
    (next : Except ε (List (K × V)) → Code K V ε L σ) : Thread K V ε L σ :=
  match snapshot with
  | [] => .run (next (.ok out)) stack
  | (key, entry) :: rest => .force entry (.entries key rest out next) stack

/-- `entries`: a sorted snapshot, forced without a guard. -/
def entries (name : Nat)
    (next : Except ε (List (K × V)) → Code K V ε L σ) :
    Option (Next K V ε L σ) := do
  let table ← shared.read name
  return (shared, listing stack (sorted table.entries) [] next)

/-- `len`. -/
def len (name : Nat) (next : Except ε Nat → Code K V ε L σ) :
    Option (Next K V ε L σ) := do
  let table ← shared.read name
  return (shared, .run (next (.ok table.entries.length)) stack)

/-- `clear`. -/
def clear (name : Nat) (next : Except ε Unit → Code K V ε L σ) :
    Option (Next K V ε L σ) := do
  let table ← shared.write name
  return (shared.place name { table with entries := [] },
    .run (next (.ok ())) stack)

/-- A step outside of the tables. -/
def outside (change : σ → σ) (next : σ → Code K V ε L σ) : Next K V ε L σ :=
  ({ shared with outside := change shared.outside },
    .run (next shared.outside) stack)

/-- A request; none while a lock is held. -/
def issue (nil : Except ε V) (request : Request K V L σ)
    (next : Reply ε request → Code K V ε L σ) : Option (Next K V ε L σ) :=
  match request with
  | .withLoaders pairs => some (withLoaders stack shared pairs next)
  | .withEntries entries => some (withEntries stack shared entries next)
  | .clone name => clone stack shared name next
  | .putLazy name key loader => putLazy stack shared name key loader next
  | .get name key => get stack shared nil name key next
  | .set name key value => set stack shared name key value next
  | .has name key => has stack shared name key next
  | .del name key => del stack shared nil name key next
  | .keys name => keys stack shared name next
  | .entries name => entries stack shared name next
  | .len name => len stack shared name next
  | .clear name => clear stack shared name next
  | .outside change => some (outside stack shared change next)

/-- The result of a force goes to what waits for it. -/
def receive (result : Except ε V) (wait : Wait K V ε L σ) : Next K V ε L σ :=
  match wait with
  | .get name next => (shared.release name, .run (next result) stack)
  | .del name next => (shared.unlock name, .run (next result) stack)
  | .entries key rest out next =>
      match result with
      | .ok value => (shared, listing stack rest (out ++ [(key, value)]) next)
      | .error error => (shared, .run (next (.error error)) stack)

end Operations

section Steps

variable [LinearOrder K]
variable (loaders : L → Nat → Code K V ε L σ) (nil : Except ε V)

/-- What a loader does in the context of a caller. -/
def Loader.code (caller : Nat) : Loader V L → Code K V ε L σ
  | .given loader => loaders loader caller
  | .constant value => .ret value

/-- `OnceLock::set`: the first result stays. -/
def LazyEntry.cached (entry : LazyEntry V ε L) (result : Except ε V) :
    LazyEntry V ε L :=
  { entry with cache := some (entry.cache.getD result) }

/-- The next step of a caller, and what it does to entries. -/
def advance (caller : Nat) (shared : Shared K V ε L σ) :
    Thread K V ε L σ → Option (Next K V ε L σ × List (Event V ε))
  | .run (.ret _) [] => none
  | .run (.fail _) [] => none
  | .run (.ret value) (frame :: stack) =>
      some ((shared, .store frame.entry (.ok value) frame.wait stack),
        [.returned frame.entry (.ok value)])
  | .run (.fail error) (frame :: stack) =>
      some ((shared, .store frame.entry (.error error) frame.wait stack),
        [.returned frame.entry (.error error)])
  | .run (.call request next) stack => do
      let after ← issue stack shared nil request next
      return (after, [])
  | .force name wait stack => do
      let entry ← shared.heap[name]?
      match entry.cache with
      | some result =>
          return (receive stack shared result wait, [.forced name result])
      | none => return ((shared, .load name wait stack), [.missed name])
  | .load name wait stack => do
      let entry ← shared.heap[name]?
      return ((shared,
          .run (entry.loader.code loaders caller) (⟨name, wait⟩ :: stack)),
        [.ran name])
  | .store name result wait stack =>
      let heap := shared.heap.modify name fun entry => entry.cached result
      some (receive stack { shared with heap := heap } result wait,
        [.forced name result])

/-- A step of one caller. -/
def step (caller : Nat) (world : World K V ε L σ) :
    Option (World K V ε L σ) := do
  let thread ← world.threads[caller]?
  let ((shared, thread), events) ←
    advance loaders nil caller world.shared thread
  return {
    shared := shared
    threads := world.threads.set caller thread
    trace := events ++ world.trace }

end Steps

end SimStorage.LazyTables
