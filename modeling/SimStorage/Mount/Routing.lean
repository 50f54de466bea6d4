import Mathlib.Data.List.Lex
import Mathlib.Data.List.Sort
import Mathlib.Data.String.Basic
import SimStorage.Interaction.Outcome
import SimStorage.Table.Objects
import SimStorage.Table.Prefixes

namespace SimStorage.Mount

/-!
# Routing in a mounted namespace

A mount table keeps targets under paths.  What a path leads to is found from
the longest mount path that is a prefix of it, or from the root, by opening
one directory after another.
-/

open Table

variable {Value Expr σ : Type}

/-- `TablePath`: an absolute path of legal segments. -/
structure TablePath (isLegal : String → Bool) where
  segments : List String
  legal : ∀ segment ∈ segments, isLegal segment = true

/-- `MountKind`. -/
inductive MountKind where
  | table
  | dir
  deriving Repr, DecidableEq

/-- `MountPath`. -/
abbrev MountPath :=
  List String

/-- The value has the operations that a mount of the kind is used for. -/
def MountKind.fits (objects : Objects Value Expr σ) (value : Value) :
    MountKind → Bool
  | .table => objects.isTable value
  | .dir => objects.isDir value

/-- `MountTarget`: a table as a leaf, or a directory. -/
structure MountTarget (objects : Objects Value Expr σ) where
  kind : MountKind
  value : Value
  fits : kind.fits objects value = true

/-- The mount table: the targets by path, in the order of the paths. -/
abbrev Mounts (objects : Objects Value Expr σ) :=
  List (MountPath × MountTarget objects)

/-- `ResolvedNode`. -/
inductive ResolvedNode (Value : Type) where
  | backed (value : Value)
  | virtual

/-- `is_prefix`. -/
def isPrefix (front path : MountPath) : Bool :=
  front.length ≤ path.length &&
    (path.zip front).all fun (left, right) => left = right

/-- `format_path`. -/
def formatPath (path : MountPath) : String :=
  if path.isEmpty then
    "/"
  else
    "/" ++ "/".intercalate path

/-- `join_child`. -/
def joinChild (path : MountPath) (name : Symbol) : String :=
  formatPath (path ++ [name.name])

/-- `check_segment`. -/
def checkSegment (isLegal : String → Bool) (name : Symbol) :
    Except Error Unit :=
  if isLegal name.name then
    .ok ()
  else
    .error (.eval ("table/mount: illegal path segment " ++ Codec.debugText name.name))

section Backends

variable (objects : Objects Value Expr σ)

/-- `require_table_value`. -/
def requireTableValue (value : Value) (message : String) :
    Except Error Unit :=
  if objects.isTable value then
    .ok ()
  else
    .error (.eval message)

/-- `require_dir_value`. -/
def requireDirValue (value : Value) (message : String) : Except Error Unit :=
  if objects.isDir value then
    .ok ()
  else
    .error (.eval message)

/-- `traverse_dir_path`. -/
def traverseDirPath (cx : Cx) :
    Value → MountPath → EStateM Error σ (Option Value)
  | current, [] => return some current
  | current, segment :: rest => do
      MonadExcept.ofExcept (requireDirValue objects current
        "table/mount: path component is not a Dir")
      match ← objects.opendir cx current (.new segment) with
      | none => return none
      | some next => traverseDirPath cx next rest

variable {objects}

/-- `resolve_mounted_target`. -/
def resolveMountedTarget (cx : Cx) (target : MountTarget objects)
    (suffix : MountPath) : EStateM Error σ (ResolvedNode Value) :=
  match target.kind with
  | .table =>
      if suffix.isEmpty then
        return .backed target.value
      else
        throw (.eval "table/mount: cannot traverse below a table mount")
  | .dir => do
      match ← traverseDirPath objects cx target.value suffix with
      | some value => return .backed value
      | none =>
          throw (.eval "table/mount: mounted directory path is missing")

/-- `longest_mount`: the length of the path and the target. -/
def longestMount (mounts : Mounts objects) (path : MountPath) :
    Option (Nat × MountTarget objects) :=
  (Prefixes.longest path mounts).map fun entry => (entry.1.length, entry.2)

/-- `has_mount_descendant`. -/
def hasMountDescendant (mounts : Mounts objects) (path : MountPath) : Bool :=
  mounts.any fun entry =>
    path.length < entry.1.length && isPrefix path entry.1

end Backends

theorem isPrefix_iff
    {front path : MountPath} :
    isPrefix front path = true ↔ front <+: path := by
  induction front generalizing path with
  | nil => simp [isPrefix]
  | cons first rest inductionHypothesis =>
      cases path with
      | nil => simp [isPrefix]
      | cons head tail =>
          have later := @inductionHypothesis tail
          simp only [isPrefix, Bool.and_eq_true, decide_eq_true_eq] at later
          rw [List.cons_prefix_cons, ← later]
          simp only [isPrefix, List.length_cons, List.zip_cons_cons,
            List.all_cons, Bool.and_eq_true, decide_eq_true_eq,
            Nat.add_le_add_iff_right]
          constructor
          · rintro ⟨short, same, all⟩
            exact ⟨same.symm, short, all⟩
          · rintro ⟨same, short, all⟩
            exact ⟨short, same.symm, all⟩

end SimStorage.Mount
