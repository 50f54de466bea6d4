import SimStorage.Db.Store
import SimStorage.Mount.MountedDir
import SimStorage.Table.Reference

namespace SimStorage.Mount

/-!
# Directory stores as backends

Nil, texts, and the directories of numbered stores, as values that a namespace
can be assembled from.
-/

open Table

/-- Nil, a text, or a directory of a store. -/
inductive Node where
  | nil
  | text (content : String)
  | dir (store : Nat) (dir : Db.DbDir)
  deriving Repr, DecidableEq

/-- The stores by number. -/
abbrev Stores :=
  List (Db.Store Node)

namespace Stores

variable {α : Type}

/-- A call on the store of a directory. -/
def onDir (node : Node)
    (call : Db.DbDir → EStateM Error (Db.Store Node) α) :
    EStateM Error Stores α := fun stores =>
  match node with
  | .dir id dir =>
      match stores[id]? with
      | some store =>
          match call dir store with
          | .ok value later => .ok value (stores.set id later)
          | .error error later => .error error (stores.set id later)
      | none => .error (.eval "no such store") stores
  | _ => .error (.eval "not a directory") stores

/-- The values that a context makes; they are their own expressions. -/
def factory : Factory Node Node where
  nil := .ok .nil
  string content := .ok (.text content)
  asExpr value := .ok value

/-- The directory of the store that a directory is in. -/
def inStore (node : Node) (dir : Db.DbDir) : Node :=
  match node with
  | .dir id _ => .dir id dir
  | _ => node

/-- The directories of the stores as tables and directories. -/
def objects : Objects Node Node Stores where
  factory := factory
  isTable
    | .dir _ _ => true
    | _ => false
  isDir
    | .dir _ _ => true
    | _ => false
  asExpr _ node := return node
  get cx node key := onDir node fun dir => dir.get factory cx key
  set cx node key value := onDir node fun dir =>
    dir.set referenceLegal cx key value
  has cx node key := onDir node fun dir => dir.has referenceLegal cx key
  del cx node key := onDir node fun dir => dir.del factory cx key
  keys cx node := onDir node fun dir => dir.keys cx
  entries cx node := onDir node fun dir => dir.entries cx
  clear cx node := onDir node fun dir => dir.clear cx
  compareExchange cx node key expected replacement := onDir node fun dir =>
    dir.compareExchange referenceLegal factory cx key expected replacement
  mkdir cx node name := do
    return inStore node
      (← onDir node fun dir => dir.mkdir referenceLegal cx name)
  opendir cx node name := do
    return (← onDir node fun dir => dir.opendir referenceLegal cx name).map
      (inStore node)
  rmdir cx node name := onDir node fun dir =>
    dir.rmdir referenceLegal factory cx name
  hasDir cx node name := onDir node fun dir => dir.isDir referenceLegal cx name

end Stores

end SimStorage.Mount
