import SimStorage.Interaction.Outcome
import SimStorage.Table.Kernel

namespace SimStorage.Relation

/-!
# The relation-backed directory

All directories and values are nodes of one relation, told by an id and the id
of their parent.  A `RelationDir` is a view of the shared relation under a
path, which every call resolves anew.  A mutation works on a copy, publishes
the next generation in the head slot if there is one, and then replaces the
relation.
-/

open Codec Table

/-- What a call may fail with: an error, or a counter past its 64 bits. -/
inductive Failure where
  | error (error : Error)
  | overflow
  deriving Repr, DecidableEq

/-- `NodeKind`. -/
inductive NodeKind where
  | dir
  | value
  deriving Repr, DecidableEq

/-- `Node`. -/
structure Node (Value : Type) where
  id : Nat
  parent : Nat
  name : Symbol
  kind : NodeKind
  bytes : Bytes
  codec : Symbol
  value : Option Value

/-- `State`: the nodes in the order of their ids, and the counters. -/
structure State (Value : Type) where
  nodes : List (Node Value)
  nextId : Nat
  generation : Nat

/-- `RelationValueCodec`. -/
structure RelationValueCodec (Value : Type) where
  identity : Symbol
  encode : Value → Except Error Bytes
  decode : Bytes → Except Error Value

/-- `RelationDir`: a view under a path; the head is a table and its slot. -/
structure RelationDir (Value Head : Type) where
  path : List String
  codec : RelationValueCodec Value
  head : Option Head

/-- The relation, and the state of the tables that heads are in. -/
structure Shared (Value σ : Type) where
  state : State Value
  tables : σ

/-- What the views take from outside: values, names, and the head tables. -/
structure Outside (Value Expr Head σ : Type) where
  factory : Factory Value Expr
  text : String → Expr
  isLegal : String → Bool
  compareExchange : Head → TableExpected Expr → TableReplacement Value →
    EStateM Error σ (TableCompareExchange Expr)

variable {Value Expr Head σ α : Type}

/-- A call on the shared relation. -/
abbrev Calling (Value σ α : Type) :=
  EStateM Failure (Shared Value σ) α

/-- An evaluation error. -/
def refused (text : String) : Failure :=
  .error (.eval ("table/relation: " ++ text))

/-- An outcome of the kernel's. -/
def lift (outcome : Except Error α) : Except Failure α :=
  outcome.mapError .error

/-- The next number of a 64-bit counter. -/
def bump (counter : Nat) : Except Failure Nat :=
  if counter + 1 < 2 ^ 64 then
    .ok (counter + 1)
  else
    .error .overflow

namespace State

/-- The relation of `open`: the root alone. -/
def opened (codec : RelationValueCodec Value) : State Value where
  nodes := [{
    id := 0
    parent := 0
    name := .new ""
    kind := .dir
    bytes := []
    codec := codec.identity
    value := none }]
  nextId := 1
  generation := 0

variable (state : State Value)

/-- The nodes from an id down a path. -/
def resolveFrom (path : List String) : Nat → List String → Except Failure Nat
  | id, [] => .ok id
  | id, part :: rest =>
      match state.nodes.find? fun node =>
          node.parent = id ∧ node.name.name = part with
      | some node => resolveFrom path node.id rest
      | none =>
          .error (refused ("missing path /" ++ String.intercalate "/" path))

/-- `resolve_id`. -/
def resolveId (path : List String) : Except Failure Nat :=
  state.resolveFrom path 0 path

/-- `child`. -/
def child (parent : Nat) (name : Symbol) : Option (Node Value) :=
  state.nodes.find? fun node => node.parent = parent ∧ node.name = name

/-- `insert` of the map of nodes: in the place of the id. -/
def insertNode (node : Node Value) : State Value :=
  { state with
    nodes := state.nodes.takeWhile (·.id < node.id) ++
      node :: state.nodes.dropWhile (·.id ≤ node.id) }

/-- `remove` of the map of nodes. -/
def removeNode (id : Nat) : State Value :=
  { state with nodes := state.nodes.filter fun node => node.id ≠ id }

/-- `get_mut` of the map of nodes: the node changed in place. -/
def updateNode (id : Nat) (change : Node Value → Node Value) : State Value :=
  { state with
    nodes := state.nodes.map fun node =>
      if node.id = id then change node else node }

/-- A new node under the next id. -/
def addNode (parent : Nat) (name : Symbol) (kind : NodeKind) (bytes : Bytes)
    (codec : Symbol) (value : Option Value) : Except Failure (State Value) := do
  let nextId ← bump state.nextId
  return { state with nextId }.insertNode
    { id := state.nextId, parent, name, kind, bytes, codec, value }

end State

/-- `Plan`. -/
inductive Plan (Value : Type) where
  | set (path : List String) (name : Symbol) (value : Value) (bytes : Bytes)
  | delete (path : List String) (name : Symbol)
  | mkdir (path : List String) (name : Symbol)
  | rmdir (path : List String) (name : Symbol)
  | clear (path : List String)

/-- The path that a plan works under. -/
def Plan.path : Plan Value → List String
  | .set path .. => path
  | .delete path _ => path
  | .mkdir path _ => path
  | .rmdir path _ => path
  | .clear path => path

section Calls

variable (outside : Outside Value Expr Head σ)

/-- A plan's effect on a copy: none for an absent name, or a change. -/
def Plan.apply (codec : RelationValueCodec Value) (state : State Value)
    (plan : Plan Value) : Except Failure (Option (State Value × Option Value)) :=
  do
  let parent ← state.resolveId plan.path
  match plan with
  | .set _ name value bytes =>
      if outside.isLegal name.name = false then
        .error (refused "illegal name")
      else
        match state.child parent name with
        | some node =>
            if node.kind = .dir then
              .error (refused "name is a directory")
            else
              return some (state.updateNode node.id fun node =>
                { node with bytes, codec := codec.identity, value }, none)
        | none => do
            let state ←
              state.addNode parent name .value bytes codec.identity value
            return some (state, none)
  | .delete _ name =>
      match state.child parent name with
      | none => return none
      | some node =>
          if node.kind = .dir then
            .error (refused "delete cannot remove directory")
          else
            return some (state.removeNode node.id, node.value)
  | .mkdir _ name =>
      if outside.isLegal name.name = false then
        .error (refused "illegal name")
      else if (state.child parent name).isSome then
        .error (refused "duplicate sibling name")
      else do
        let state ← state.addNode parent name .dir [] codec.identity none
        return some (state, none)
  | .rmdir _ name =>
      match state.child parent name with
      | none => .error (refused "directory absent")
      | some node =>
          if node.id = 0 then
            .error (refused "root cannot be removed")
          else if node.kind ≠ .dir then
            .error (refused "not a directory")
          else if state.nodes.any fun other =>
              other.parent = node.id ∧ other.id ≠ node.id then
            .error (refused "directory not empty")
          else
            return some (state.removeNode node.id, none)
  | .clear _ =>
      return some ({ state with
        nodes := state.nodes.filter fun node =>
          ¬ (node.parent = parent ∧ node.kind = .value) }, none)

/-- `relation_namespace_capability`. -/
def relationNamespaceCapability : String :=
  "relation.namespace"

/-- `relation_table_read_capability`. -/
def relationTableReadCapability : String :=
  "table.relation.read"

/-- `relation_table_write_capability`. -/
def relationTableWriteCapability : String :=
  "table.relation.write"

/-- The capability checks of reads or of writes. -/
def authorize (cx : Cx) (capability : String) : Except Failure Unit := do
  lift (cx.require relationNamespaceCapability)
  lift (cx.require capability)

/-- A call on the head tables. -/
def onTables (call : EStateM Error σ α) : Calling Value σ α := fun shared =>
  match call shared.tables with
  | .ok value tables => .ok value { shared with tables }
  | .error error tables => .error (.error error) { shared with tables }

namespace RelationDir

variable (cx : Cx) (view : RelationDir Value Head)

/-- What the head is expected to hold before a generation is published. -/
def expectedHead (generation : Nat) : TableExpected Expr :=
  if generation = 0 then
    .absent
  else
    .value (outside.text (toString generation))

/-- The publication of the next generation, if there is a head. -/
def publish (original next : Nat) : Calling Value σ Unit :=
  match view.head with
  | none => return ()
  | some head => do
      let replacement ← MonadExcept.ofExcept
        (lift (outside.factory.string (toString next)))
      let exchanged ← onTables (outside.compareExchange head
        (expectedHead outside original) (.value replacement))
      if exchanged.exchanged = false then
        throw (refused "stale namespace head")

/-- `execute`. -/
def execute (plan : Plan Value) : Calling Value σ (Option Value) := do
  MonadExcept.ofExcept (authorize cx relationTableWriteCapability)
  let shared ← MonadState.get
  match ← MonadExcept.ofExcept
      (plan.apply outside view.codec shared.state) with
  | none => return none
  | some (state, result) =>
      let generation ← MonadExcept.ofExcept (bump state.generation)
      view.publish outside shared.state.generation generation
      modify fun shared => { shared with state := { state with generation } }
      return result

/-- The view of a child. -/
def below (name : Symbol) : RelationDir Value Head where
  path := view.path ++ [name.name]
  codec := view.codec
  head := view.head

/-- `with_head`; the head is a table. -/
def withHead (head : Head) : RelationDir Value Head where
  path := view.path
  codec := view.codec
  head := some head

/-- The relation as a read sees it, and the id of the view's path. -/
def reading : Calling Value σ (State Value × Nat) := do
  MonadExcept.ofExcept (authorize cx relationTableReadCapability)
  let shared ← MonadState.get
  let id ← MonadExcept.ofExcept (shared.state.resolveId view.path)
  return (shared.state, id)

/-- `get`. -/
def get (key : Symbol) : Calling Value σ Value := do
  let (state, parent) ← view.reading cx
  match state.child parent key with
  | none => MonadExcept.ofExcept (lift outside.factory.nil)
  | some node =>
      if node.kind = .dir then
        throw (refused "key is directory")
      else if node.codec ≠ view.codec.identity then
        throw (refused "codec identity mismatch")
      else
        MonadExcept.ofExcept (lift (view.codec.decode node.bytes))

/-- `set`. -/
def set (key : Symbol) (value : Value) : Calling Value σ Unit := do
  let bytes ← MonadExcept.ofExcept (lift (view.codec.encode value))
  discard (view.execute outside cx (.set view.path key value bytes))

/-- `has`. -/
def has (key : Symbol) : Calling Value σ Bool := do
  let (state, parent) ← view.reading cx
  return (state.child parent key).isSome

/-- `del`. -/
def del (key : Symbol) : Calling Value σ Value := do
  match ← view.execute outside cx (.delete view.path key) with
  | some value => return value
  | none => MonadExcept.ofExcept (lift outside.factory.nil)

/-- `keys`; their order is not modelled. -/
def keys : Calling Value σ (List Symbol) := do
  let (state, parent) ← view.reading cx
  return ((state.nodes.filter fun node =>
    node.parent = parent ∧ node.id ≠ parent).map Node.name).eraseDups

/-- `clear`. -/
def clear : Calling Value σ Unit :=
  discard (view.execute outside cx (.clear view.path))

/-- `mkdir`. -/
def mkdir (name : Symbol) : Calling Value σ (RelationDir Value Head) := do
  discard (view.execute outside cx (.mkdir view.path name))
  return view.below name

/-- `opendir`. -/
def opendir (name : Symbol) :
    Calling Value σ (Option (RelationDir Value Head)) := do
  let (state, parent) ← view.reading cx
  match state.child parent name with
  | none => return none
  | some node =>
      if node.kind ≠ .dir then
        throw (refused "not a directory")
      else
        return some (view.below name)

/-- `rmdir`. -/
def rmdir (name : Symbol) : Calling Value σ Value := do
  discard (view.execute outside cx (.rmdir view.path name))
  MonadExcept.ofExcept (lift outside.factory.nil)

/-- `is_dir`. -/
def isDir (name : Symbol) : Calling Value σ Bool := do
  let (state, parent) ← view.reading cx
  return (state.child parent name).any (·.kind = .dir)

/-- `resolve`: the segments of a table path, from the root. -/
def resolve (path : List String) :
    Calling Value σ (RelationDir Value Head) := do
  if path.all outside.isLegal = false then
    throw (refused "illegal path")
  let shared ← MonadState.get
  let id ← MonadExcept.ofExcept (shared.state.resolveId path)
  if shared.state.nodes.any fun node => node.id = id ∧ node.kind = .dir then
    return { view with path }
  else
    throw (refused "path is not a directory")

end RelationDir

end Calls

end SimStorage.Relation
