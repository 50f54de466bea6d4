import SimStorage.Interaction.Outcome
import SimStorage.Table.Entries
import SimStorage.Table.Kernel
import SimStorage.Table.Path

namespace SimStorage.Db

/-!
# The directory store

A store keeps values under a directory path and a key, and the paths of the
directories apart from them.  A `DbDir` is a view of the store at a path; all
it holds is the path's text.  The order of the maps is not modelled.
-/

open Codec Table

variable {Value Expr : Type}

/-- `Store`: the values by path and key, and the paths of the directories. -/
structure Store (Value : Type) where
  values : List ((String × Symbol) × Value)
  dirs : List String

/-- `DbDir`: a view of the shared store at a path. -/
structure DbDir where
  path : String
  deriving Repr, DecidableEq

/-- `table_db_read_capability`. -/
def tableDbReadCapability : String :=
  "table.db.read"

/-- `table_db_write_capability`. -/
def tableDbWriteCapability : String :=
  "table.db.write"

/-- `table_db_mkdir_capability`. -/
def tableDbMkdirCapability : String :=
  "table.db.mkdir"

/-- `table_db_rmdir_capability`. -/
def tableDbRmdirCapability : String :=
  "table.db.rmdir"

namespace DbDir

/-- The store of `open`: the root directory alone. -/
def openStore : Store Value where
  values := []
  dirs := [""]

/-- `open`: the root. -/
def root : DbDir where
  path := ""

variable (isLegal : String → Bool)
variable (factory : Factory Value Expr)
variable (cx : Cx)
variable (dir : DbDir)

/-- `child_path`. -/
def childPath (name : Symbol) : Except Error String :=
  if isLegal name.name then
    .ok (Path.under dir.path name.name)
  else
    .error (.eval ("table/db: illegal name " ++ debugText name.name))

/-- The first name of what is below a directory. -/
def headName (rest : String) : Option String :=
  match splitOnce '/' rest with
  | some (head, tail) => if head ≠ "" ∧ tail ≠ "" then some head else none
  | none => if rest ≠ "" then some rest else none

/-- The name that `direct_subdirs` takes from the path of a directory. -/
def directName (path : String) : Option String :=
  if path.isEmpty || path = dir.path then
    none
  else if dir.path.isEmpty then
    headName path
  else
    (Path.stripPrefix path (dir.path ++ "/")).bind headName

/-- `direct_subdirs`. -/
def directSubdirs (store : Store Value) : List Symbol :=
  store.dirs.filterMap fun path => (dir.directName path).map Symbol.new

/-- The key is the name of a directory. -/
def isADirectory (key : Symbol) : Error :=
  .eval ("table/db: " ++ key.asQualifiedStr ++ " is a directory")

/-- The name is not that of a directory. -/
def isNotADirectory (name : Symbol) : Error :=
  .eval ("table/db: " ++ name.asQualifiedStr ++ " is not a directory")

/-- `get`. -/
def get (key : Symbol) : EStateM Error (Store Value) Value := do
  MonadExcept.ofExcept (cx.require tableDbReadCapability)
  let store ← MonadState.get
  MonadExcept.ofExcept
    (factory.orNil (Entries.find store.values (dir.path, key)))

/-- `set`: refused under the name of a directory. -/
def set (key : Symbol) (value : Value) :
    EStateM Error (Store Value) Unit := do
  MonadExcept.ofExcept (cx.require tableDbWriteCapability)
  let path ← MonadExcept.ofExcept (dir.childPath isLegal key)
  let store ← MonadState.get
  if path ∈ store.dirs then
    throw (isADirectory key)
  else
    MonadState.set { store with
      values := Entries.insert store.values (dir.path, key) value }

/-- `has`: a value or a directory. -/
def has (key : Symbol) : EStateM Error (Store Value) Bool := do
  MonadExcept.ofExcept (cx.require tableDbReadCapability)
  let path ← MonadExcept.ofExcept (dir.childPath isLegal key)
  let store ← MonadState.get
  return (Entries.find store.values (dir.path, key)).isSome ||
    path ∈ store.dirs

/-- `del`. -/
def del (key : Symbol) : EStateM Error (Store Value) Value := do
  MonadExcept.ofExcept (cx.require tableDbWriteCapability)
  let store ← MonadState.get
  MonadState.set { store with
    values := Entries.remove store.values (dir.path, key) }
  MonadExcept.ofExcept
    (factory.orNil (Entries.find store.values (dir.path, key)))

/-- The entries of the values at the path. -/
def here (store : Store Value) : List (Symbol × Value) :=
  (store.values.filter fun entry => entry.1.1 = dir.path).map fun entry =>
    (entry.1.2, entry.2)

/-- `keys`: of the values at the path, and of the directories below. -/
def keys : EStateM Error (Store Value) (List Symbol) := do
  MonadExcept.ofExcept (cx.require tableDbReadCapability)
  let store ← MonadState.get
  return ((dir.here store).map Prod.fst ++ dir.directSubdirs store).dedup

/-- `entries`: of the values at the path. -/
def entries : EStateM Error (Store Value) (List (Symbol × Value)) := do
  MonadExcept.ofExcept (cx.require tableDbReadCapability)
  let store ← MonadState.get
  return dir.here store

/-- `len`. -/
def len : EStateM Error (Store Value) Nat := do
  return (← dir.entries cx).length

/-- `clear`: of the values at the path. -/
def clear : EStateM Error (Store Value) Unit := do
  MonadExcept.ofExcept (cx.require tableDbWriteCapability)
  let store ← MonadState.get
  MonadState.set { store with
    values := store.values.filter fun entry => entry.1.1 ≠ dir.path }

/-- `compare_exchange`. -/
def compareExchange [DecidableEq Expr] (key : Symbol)
    (expected : TableExpected Expr) (replacement : TableReplacement Value) :
    EStateM Error (Store Value) (TableCompareExchange Expr) := do
  MonadExcept.ofExcept (cx.require tableDbWriteCapability)
  let replacement ← MonadExcept.ofExcept (factory.replacing replacement)
  let store ← MonadState.get
  let path ← MonadExcept.ofExcept (dir.childPath isLegal key)
  if path ∈ store.dirs then
    throw (isADirectory key)
  let observed ← MonadExcept.ofExcept
    (factory.observe (Entries.find store.values (dir.path, key)))
  let exchanged := expected.meets observed
  if exchanged then
    MonadState.set { store with
      values :=
        match replacement with
        | some value => Entries.insert store.values (dir.path, key) value
        | none => Entries.remove store.values (dir.path, key) }
  return { exchanged, observed }

/-- `mkdir`: refused under the key of a value. -/
def mkdir (name : Symbol) : EStateM Error (Store Value) DbDir := do
  MonadExcept.ofExcept (cx.require tableDbMkdirCapability)
  let path ← MonadExcept.ofExcept (dir.childPath isLegal name)
  let store ← MonadState.get
  if (Entries.find store.values (dir.path, name)).isSome then
    throw (.eval ("table/db: " ++ name.asQualifiedStr ++ " is a file"))
  else
    MonadState.set { store with dirs := store.dirs.insert path }
    return ⟨path⟩

/-- `opendir`. -/
def opendir (name : Symbol) :
    EStateM Error (Store Value) (Option DbDir) := do
  MonadExcept.ofExcept (cx.require tableDbReadCapability)
  let path ← MonadExcept.ofExcept (dir.childPath isLegal name)
  let store ← MonadState.get
  if path ∈ store.dirs then
    return some ⟨path⟩
  else if (Entries.find store.values (dir.path, name)).isSome then
    throw (isNotADirectory name)
  else
    return none

/-- The path of the removed directory, or below it. -/
def removed (path other : String) : Bool :=
  other = path || Path.startsWith other (path ++ "/")

/-- `rmdir`: with everything below. -/
def rmdir (name : Symbol) : EStateM Error (Store Value) Value := do
  MonadExcept.ofExcept (cx.require tableDbRmdirCapability)
  let path ← MonadExcept.ofExcept (dir.childPath isLegal name)
  let store ← MonadState.get
  if path ∉ store.dirs then
    throw (isNotADirectory name)
  else
    MonadState.set {
      values := store.values.filter fun entry => !removed path entry.1.1
      dirs := store.dirs.filter fun other => !removed path other }
    MonadExcept.ofExcept factory.nil

/-- `is_dir`. -/
def isDir (name : Symbol) : EStateM Error (Store Value) Bool := do
  MonadExcept.ofExcept (cx.require tableDbReadCapability)
  let path ← MonadExcept.ofExcept (dir.childPath isLegal name)
  let store ← MonadState.get
  return decide (path ∈ store.dirs)

end DbDir

section Runs

variable (isLegal : String → Bool)
variable (factory : Factory Value Expr)

/-- The calls that change the store or make a handle. -/
inductive Call (Value Expr : Type) where
  | set (key : Symbol) (value : Value)
  | del (key : Symbol)
  | clear
  | compareExchange (key : Symbol) (expected : TableExpected Expr)
      (replacement : TableReplacement Value)
  | mkdir (name : Symbol)
  | opendir (name : Symbol)
  | rmdir (name : Symbol)

/-- A call in a context through a handle. -/
structure Step (Value Expr : Type) where
  cx : Cx
  dir : DbDir
  call : Call Value Expr

/-- The shared store and the handles given out, to live directories or not. -/
structure World (Value : Type) where
  store : Store Value
  handles : List DbDir

/-- The world after a computation on the store, with the handles it gives. -/
def World.after {α : Type} (world : World Value)
    (computation : EStateM Error (Store Value) α) (given : α → List DbDir) :
    World Value :=
  match computation world.store with
  | .ok value store => ⟨store, given value ++ world.handles⟩
  | .error _ store => ⟨store, world.handles⟩

/-- The world after a step. -/
def Step.perform [DecidableEq Expr] (step : Step Value Expr)
    (world : World Value) : World Value :=
  match step.call with
  | .set key value =>
      world.after (step.dir.set isLegal step.cx key value) fun _ => []
  | .del key => world.after (step.dir.del factory step.cx key) fun _ => []
  | .clear => world.after (step.dir.clear step.cx) fun _ => []
  | .compareExchange key expected replacement =>
      world.after
        (step.dir.compareExchange isLegal factory step.cx key expected
          replacement) fun _ => []
  | .mkdir name =>
      world.after (step.dir.mkdir isLegal step.cx name) fun child => [child]
  | .opendir name =>
      world.after (step.dir.opendir isLegal step.cx name) Option.toList
  | .rmdir name =>
      world.after (step.dir.rmdir isLegal factory step.cx name) fun _ => []

/-- The world of a fresh store and its root. -/
def World.opened : World Value where
  store := DbDir.openStore
  handles := [.root]

/-- What a run reaches when all its steps are allowed. -/
inductive Reached [DecidableEq Expr]
    (allowed : World Value → Step Value Expr → Prop) : World Value → Prop where
  | opened : Reached allowed .opened
  | step {world : World Value} (step : Step Value Expr) :
      Reached allowed world → step.dir ∈ world.handles →
        allowed world step → Reached allowed (step.perform isLegal factory world)

end Runs

end SimStorage.Db
