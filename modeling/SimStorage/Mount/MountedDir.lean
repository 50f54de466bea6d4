import SimStorage.Mount.Routing
import SimStorage.Table.Layers

namespace SimStorage.Mount

/-!
# Mounted directories

A mounted directory is a view of a namespace at a path: the root directory and
the mount table, which all views share.  What it lists is not in the order of
the keys.
-/

open Table

variable {Value Expr σ α : Type}

/-- `table_mount_capability`. -/
def tableMountCapability : String :=
  "table.mount"

/-- The mount table that the views share, and the state of the backends. -/
structure World (objects : Objects Value Expr σ) where
  mounts : Mounts objects
  backends : σ

/-- A call on a view. -/
abbrev Calling (objects : Objects Value Expr σ) (α : Type) :=
  EStateM Error (World objects) α

/-- A call on a backend. -/
def onBackends {objects : Objects Value Expr σ} (call : EStateM Error σ α) :
    Calling objects α := fun world =>
  match call world.backends with
  | .ok value backends => .ok value { world with backends }
  | .error error backends => .error error { world with backends }

/-- `MountedDir`: the root is a directory. -/
structure MountedDir (objects : Objects Value Expr σ) where
  root : Value
  path : MountPath
  isDir : objects.isDir root = true

section Registry

variable {objects : Objects Value Expr σ}

/-- What an existing mount says against a mount of the kind at the path. -/
def conflict (path : MountPath) (kind : MountKind)
    (existing : MountPath × MountTarget objects) : Option Error :=
  if isPrefix existing.1 path ∧ existing.2.kind = .table ∧
      existing.1.length < path.length then
    some (.eval ("table/mount: cannot mount below table leaf " ++
      formatPath existing.1))
  else if isPrefix path existing.1 ∧ kind = .table then
    some (.eval ("table/mount: table mount " ++ formatPath path ++
      " would parent existing mount " ++ formatPath existing.1))
  else
    none

/-- What the mount table says against a mount of the kind at the path. -/
def refusal (mounts : Mounts objects) (path : MountPath) (kind : MountKind) :
    Option Error :=
  if (Entries.find mounts path).isSome then
    some (.eval ("table/mount: duplicate mount point " ++ formatPath path))
  else
    mounts.findSome? (conflict path kind)

/-- The mount table with a target under a path that it does not have. -/
def Mounts.insert (mounts : Mounts objects) (path : MountPath)
    (target : MountTarget objects) : Mounts objects :=
  mounts.orderedInsert (fun first second => first.1 ≤ second.1) (path, target)

end Registry

namespace MountedDir

section Opening

variable (objects : Objects Value Expr σ)

/-- `MountedDir::new`. -/
def new (root : Value) : Except Error (MountedDir objects) :=
  if isDir : objects.isDir root = true then
    .ok { root, path := [], isDir }
  else
    .error (.eval "table/mount: root must be a Dir")

end Opening

variable {objects : Objects Value Expr σ}
variable {isLegal : String → Bool}
variable (view : MountedDir objects) (cx : Cx)

/-- `at_path`. -/
def atPath (path : MountPath) : MountedDir objects :=
  { view with path }

/-- `root_exact_kind`: what the root directory has at a path. -/
def rootExactKind (path : MountPath) : EStateM Error σ (Option MountKind) :=
  match path.getLast? with
  | none => return some .dir
  | some last => do
      match ← traverseDirPath objects cx view.root path.dropLast with
      | none => return none
      | some parent =>
          MonadExcept.ofExcept (requireDirValue objects parent
            "table/mount: root path parent is not a Dir")
          MonadExcept.ofExcept (requireTableValue objects parent
            "table/mount: root path parent is not a Table")
          if ← objects.hasDir cx parent (.new last) then
            return some .dir
          else if ← objects.has cx parent (.new last) then
            return some .table
          else
            return none

/-- `insert_mount`. -/
def insertMount (path : MountPath) (target : MountTarget objects) :
    Calling objects Unit :=
  if path.isEmpty then
    throw (.eval "table/mount: cannot mount root")
  else do
    let existing ← onBackends (view.rootExactKind cx path)
    if existing.isSome then
      throw (.eval ("table/mount: mount point " ++ formatPath path ++
        " shadows an existing root node"))
    else
      let world ← MonadState.get
      match refusal world.mounts path target.kind with
      | some error => throw error
      | none =>
          MonadState.set
            { world with mounts := world.mounts.insert path target }

/-- `mount_dir`. -/
def mountDir (path : TablePath isLegal) (target : Value) :
    Calling objects Unit := do
  MonadExcept.ofExcept (cx.require tableMountCapability)
  if fits : objects.isDir target = true then
    view.insertMount cx path.segments ⟨.dir, target, fits⟩
  else
    throw (.eval "table/mount: Dir mount target must be a Dir")

/-- `mount_table`. -/
def mountTable (path : TablePath isLegal) (target : Value) :
    Calling objects Unit := do
  MonadExcept.ofExcept (cx.require tableMountCapability)
  if fits : objects.isTable target = true then
    view.insertMount cx path.segments ⟨.table, target, fits⟩
  else
    throw (.eval "table/mount: table mount target must be a Table")

/-- `unmount`. -/
def unmount (path : TablePath isLegal) : Calling objects (Option Value) := do
  MonadExcept.ofExcept (cx.require tableMountCapability)
  if path.segments.isEmpty then
    throw (.eval "table/mount: cannot unmount root")
  else
    let world ← MonadState.get
    MonadState.set
      { world with mounts := Entries.remove world.mounts path.segments }
    return (Entries.find world.mounts path.segments).map MountTarget.value

/-- `resolve_current`. -/
def resolveCurrent : Calling objects (ResolvedNode Value) := do
  let world ← MonadState.get
  match longestMount world.mounts view.path with
  | some (length, target) =>
      onBackends (resolveMountedTarget cx target (view.path.drop length))
  | none =>
      match ← onBackends
          (traverseDirPath objects cx view.root view.path) with
      | some value => return .backed value
      | none =>
          if hasMountDescendant world.mounts view.path then
            return .virtual
          else
            throw (.eval ("table/mount: " ++ formatPath view.path ++
              " has no backing directory"))

/-- The name and kind of the child that a mount shows, when it is below. -/
def mountChild (entry : MountPath × MountTarget objects) :
    Option (Symbol × MountKind) :=
  if entry.1.length ≤ view.path.length ∨ ¬ isPrefix view.path entry.1 then
    none
  else
    entry.1[view.path.length]?.map fun name =>
      (.new name,
        if entry.1.length = view.path.length + 1 then
          entry.2.kind
        else
          .dir)

/-- `direct_mount_children`: the first kind of each name. -/
def directMountChildren (mounts : Mounts objects) :
    List (Symbol × MountKind) :=
  (Layers.scan Prod.fst [] ([], []) (mounts.filterMap view.mountChild)).2

/-- `child_has_mount`. -/
def childHasMount (mounts : Mounts objects) (name : Symbol) : Bool :=
  mounts.any fun entry => isPrefix (view.path ++ [name.name]) entry.1

/-- `direct_mount_value`. -/
def directMountValue (mounts : Mounts objects) (name : Symbol) :
    Option (MountTarget objects) :=
  Entries.find mounts (view.path ++ [name.name])

/-- `check_no_mount_child`. -/
def checkNoMountChild (name : Symbol) (action : String) :
    Calling objects Unit := do
  let world ← MonadState.get
  if view.childHasMount world.mounts name then
    throw (.eval ("table/mount: cannot " ++ action ++ " " ++
      joinChild view.path name ++ " while a mount exists there"))

/-- `backed_table`. -/
def backedTable (objects : Objects Value Expr σ) :
    ResolvedNode Value → Except Error (Option Value)
  | .backed value => do
      requireTableValue objects value
        "table/mount: backing node is not a Table"
      return some value
  | .virtual => return none

/-- The table at the path, when there is a backing one. -/
def backing : Calling objects (Option Value) := do
  let node ← view.resolveCurrent cx
  MonadExcept.ofExcept (backedTable objects node)

/-- The path has no table that can be written. -/
def noWritable : Error :=
  .eval ("table/mount: " ++ formatPath view.path ++
    " has no writable backing table")

/-- The path has no directory. -/
def noBackingDir : Error :=
  .eval ("table/mount: " ++ formatPath view.path ++
    " has no backing directory")

section Table

/-- `get`. -/
def get (key : Symbol) : Calling objects Value := do
  let world ← MonadState.get
  match view.directMountValue world.mounts key with
  | some target =>
      match target.kind with
      | .table => return target.value
      | .dir => MonadExcept.ofExcept objects.factory.nil
  | none =>
      match ← view.backing cx with
      | some value => onBackends (objects.get cx value key)
      | none => MonadExcept.ofExcept objects.factory.nil

/-- `set`. -/
def set (key : Symbol) (value : Value) : Calling objects Unit := do
  view.checkNoMountChild key "set"
  match ← view.backing cx with
  | some backing => onBackends (objects.set cx backing key value)
  | none => throw view.noWritable

/-- `has`. -/
def has (key : Symbol) : Calling objects Bool := do
  let world ← MonadState.get
  if view.childHasMount world.mounts key then
    return true
  else
    match ← view.backing cx with
    | some backing => onBackends (objects.has cx backing key)
    | none => return false

/-- `del`. -/
def del (key : Symbol) : Calling objects Value := do
  view.checkNoMountChild key "delete"
  match ← view.backing cx with
  | some backing => onBackends (objects.del cx backing key)
  | none => MonadExcept.ofExcept objects.factory.nil

/-- `compare_exchange`. -/
def compareExchange (key : Symbol) (expected : TableExpected Expr)
    (replacement : TableReplacement Value) :
    Calling objects (TableCompareExchange Expr) := do
  view.checkNoMountChild key "compare-exchange"
  match ← view.backing cx with
  | some backing =>
      onBackends (objects.compareExchange cx backing key expected replacement)
  | none => throw view.noWritable

/-- `keys`: those of the table and of the mounts, once each. -/
def keys : Calling objects (List Symbol) := do
  let found ←
    match ← view.backing cx with
    | some backing => onBackends (objects.keys cx backing)
    | none => pure []
  let world ← MonadState.get
  return (found ++ (view.directMountChildren world.mounts).map Prod.fst).dedup

/-- The first row under the name of a mount is an error. -/
def checkRows (children : List (Symbol × MountKind))
    (rows : List (Symbol × Value)) : Except Error Unit :=
  match rows.find? fun row => (Entries.find children row.1).isSome with
  | some row =>
      .error (.eval ("table/mount: backing entry " ++ row.1.asQualifiedStr ++
        " conflicts with a mount"))
  | none => .ok ()

/-- The rows of the mounted tables, under names that have none. -/
def mountRows (mounts : Mounts objects) (rows : List (Symbol × Value)) :
    List (Symbol × Value) :=
  (view.directMountChildren mounts).filterMap fun child =>
    if child.2 = .table ∧ child.1 ∉ rows.map Prod.fst then
      (view.directMountValue mounts child.1).map fun target =>
        (child.1, target.value)
    else
      none

/-- `entries`. -/
def entries : Calling objects (List (Symbol × Value)) := do
  let world ← MonadState.get
  match ← view.backing cx with
  | some backing =>
      let rows ← onBackends (objects.entries cx backing)
      MonadExcept.ofExcept
        (checkRows (view.directMountChildren world.mounts) rows)
      return rows ++ view.mountRows world.mounts rows
  | none => return view.mountRows world.mounts []

/-- `len`. -/
def len : Calling objects Nat := do
  return (← view.entries cx).length

/-- `clear`. -/
def clear : Calling objects Unit := do
  let world ← MonadState.get
  match view.directMountChildren world.mounts with
  | child :: _ =>
      throw (.eval ("table/mount: cannot clear " ++ formatPath view.path ++
        " while mount child " ++ child.1.asQualifiedStr ++ " exists"))
  | [] =>
      match ← view.backing cx with
      | some backing => onBackends (objects.clear cx backing)
      | none => return ()

end Table

section Dir

variable (isLegal)

/-- The directory at the path, when there is a backing one. -/
def backingDir : Calling objects (Option Value) := do
  match ← view.resolveCurrent cx with
  | .backed value =>
      MonadExcept.ofExcept (requireDirValue objects value
        "table/mount: backing node is not a Dir")
      return some value
  | .virtual => return none

/-- `mkdir`: the backing directory is what is returned. -/
def mkdir (name : Symbol) : Calling objects Value := do
  MonadExcept.ofExcept (checkSegment isLegal name)
  view.checkNoMountChild name "mkdir"
  match ← view.backingDir cx with
  | some dir => onBackends (objects.mkdir cx dir name)
  | none => throw view.noBackingDir

/-- `opendir`: a view of the child. -/
def opendir (name : Symbol) : Calling objects (Option (MountedDir objects)) := do
  MonadExcept.ofExcept (checkSegment isLegal name)
  let child := view.atPath (view.path ++ [name.name])
  let world ← MonadState.get
  match view.directMountValue world.mounts name with
  | some target =>
      match target.kind with
      | .dir => return some child
      | .table =>
          throw (.eval ("table/mount: " ++ joinChild view.path name ++
            " is a table mount, not a directory"))
  | none =>
      if view.childHasMount world.mounts name then
        return some child
      else
        match ← view.backingDir cx with
        | none => return none
        | some dir =>
            match ← onBackends (objects.opendir cx dir name) with
            | some _ => return some child
            | none => return none

/-- `rmdir`. -/
def rmdir (name : Symbol) : Calling objects Value := do
  MonadExcept.ofExcept (checkSegment isLegal name)
  view.checkNoMountChild name "remove directory"
  match ← view.backingDir cx with
  | some dir => onBackends (objects.rmdir cx dir name)
  | none => MonadExcept.ofExcept objects.factory.nil

/-- `is_dir`. -/
def hasDir (name : Symbol) : Calling objects Bool := do
  MonadExcept.ofExcept (checkSegment isLegal name)
  let world ← MonadState.get
  match view.directMountValue world.mounts name with
  | some target => return decide (target.kind = .dir)
  | none =>
      if view.childHasMount world.mounts name then
        return true
      else
        match ← view.backingDir cx with
        | some dir => onBackends (objects.hasDir cx dir name)
        | none => return false

end Dir

end MountedDir

end SimStorage.Mount
