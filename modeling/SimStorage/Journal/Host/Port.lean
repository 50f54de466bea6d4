import SimStorage.Journal.NativeRoundTrip
import SimStorage.Interaction.System

namespace SimStorage.Journal.Host

/-!
# The host directory port

The port is a store of byte leaves and directories that any number of calls
share.  `Exec` says what one port call may do and reply: reads return current
bytes, an exchange compares and replaces one leaf atomically, and a guarded
exchange keeps every other exchange of its leaf out until it is released.  A
port that is faulty for a call may fail any of its requests, with or without the
effect; it does not report an existing entry as missing.

Besides the port itself, the requests carry the other things that a call
observes or does outside its own memory: failpoint hooks, the sources of
namespace tokens, and the caller's commit action.
-/

open Codec NativeCodec Interaction

/-- `HostDirErrorKind`. -/
inductive HostDirErrorKind where
  | notFound
  | alreadyExists
  | escape
  | specialFile
  | malformed
  | quotaExceeded
  | cancelled
  | notEmpty
  | native
  | unsupported
  deriving Repr, DecidableEq

/-- `HostDirError`. -/
structure HostDirError where
  kind : HostDirErrorKind
  message : String
  deriving Repr, DecidableEq

/-- `HostEntryKind`. -/
inductive HostEntryKind where
  | file
  | directory
  deriving Repr, DecidableEq

/-- `HostEntry`: one directory entry. -/
structure HostEntry where
  name : String
  kind : HostEntryKind
  len : Nat
  deriving Repr, DecidableEq

/-- `HostCompareExchange`: the outcome of an exchange. -/
structure HostCompareExchange where
  exchanged : Bool
  observed : Option Bytes
  deriving Repr, DecidableEq

/-- `PortResult`. -/
abbrev PortResult := Except HostDirError

/-- How a guarded exchange proceeds up to its continuation. -/
inductive GuardedStart where
  | returned (result : PortResult HostCompareExchange)
  | committed (invocations : Nat)

/-- What a namespace token is made from. -/
structure TokenSource where
  nonce : UInt64
  now : Option (BitVec 128)
  process : UInt32
  deriving Repr, DecidableEq

/--
The requests of a journal call.  A guarded exchange is two requests: it begins,
the call runs the continuation as often as the port invokes it, and it ends.
-/
inductive HostCall where
  | read (path : Path)
  | list (dir : Path)
  | createDir (path : Path)
  | compareExchange (path : Path) (expected replacement : Option Bytes)
  | supportsGuarded
  | beginGuarded (path : Path) (expected replacement : Option Bytes)
  | endGuarded (path : Path) (expected : Option Bytes)
  | afterCommit
  | failpoint (point : Failpoint)
  | admissionFailpoint (point : Failpoint)
  | tokenSource

/-- The replies to the requests. -/
abbrev HostReply : HostCall → Type
  | .read _ => PortResult Bytes
  | .list _ => PortResult (List HostEntry)
  | .createDir _ => PortResult Unit
  | .compareExchange _ _ _ => PortResult HostCompareExchange
  | .supportsGuarded => Bool
  | .beginGuarded _ _ _ => GuardedStart
  | .endGuarded _ _ => PortResult HostCompareExchange
  | .afterCommit => Unit
  | .failpoint _ => Bool
  | .admissionFailpoint _ => Bool
  | .tokenSource => TokenSource

/-- A program over the port. -/
abbrev HostProgram := Program HostCall HostReply Fault

/-- The calls of a deployment are numbered. -/
abbrev CallId := Nat

/-- What happened to the state leaf, and the commit actions that ran. -/
inductive Event where
  | exchanged (caller : Option CallId) (old new : Option Bytes)
  | acted (caller : CallId)
  deriving Repr, DecidableEq

/-- The call that an event is due to. -/
def Event.caller : Event → Option CallId
  | .exchanged caller _ _ => caller
  | .acted caller => some caller

attribute [local instance] lexOrd

/--
The store behind the port: leaves, directories and the guard that is held.  The
history (latest event first) and the bytes offered for leaves are recorded for
reasoning only; no reply depends on them.
-/
structure World where
  files : Std.ExtTreeMap Path Bytes
  dirs : Std.ExtTreeSet Path
  held : Option (Path × CallId)
  history : List Event
  offered : List Bytes

namespace World

/-- The bytes of a leaf. -/
def leaf (world : World) (path : Path) : Option Bytes :=
  world.files[path]?

/-- The state leaf. -/
def state (world : World) : Option Bytes :=
  world.leaf statePath

/-- No call holds the guard of a leaf. -/
def Free (world : World) (path : Path) : Prop :=
  ∀ caller, world.held ≠ some (path, caller)

/-- The name under which a path stands in a directory. -/
def childName (dir path : Path) : Option String :=
  match path.getLast? with
  | some name => if path = dir ++ [name] then some name else none
  | none => none

/-- The entries of a directory, in name order. -/
def listing (world : World) (dir : Path) : List HostEntry :=
  let files := world.files.toList.filterMap fun (path, bytes) =>
    (childName dir path).map fun name => ⟨name, .file, bytes.length⟩
  let dirs := world.dirs.toList.filterMap fun path =>
    (childName dir path).map fun name => ⟨name, .directory, 0⟩
  (files ++ dirs).insertionSort fun first second => first.name ≤ second.name

/-- Record bytes offered for a leaf. -/
def offer (world : World) (bytes : Option Bytes) : World :=
  { world with offered := bytes.toList ++ world.offered }

/-- Replace or remove one leaf. -/
def setLeaf (files : Std.ExtTreeMap Path Bytes) (path : Path) :
    Option Bytes → Std.ExtTreeMap Path Bytes
  | some bytes => files.insert path bytes
  | none => files.erase path

/-- Replace or remove a leaf, and record what happens to the state leaf. -/
def replace (world : World) (caller : Option CallId) (path : Path)
    (old new : Option Bytes) : World :=
  { world with
    files := setLeaf world.files path new
    history :=
      if path = statePath then
        .exchanged caller old new :: world.history
      else
        world.history }

/-- Add a directory. -/
def addDir (world : World) (path : Path) : World :=
  { world with dirs := world.dirs.insert path }

/-- Take or release the guard. -/
def withHeld (world : World) (held : Option (Path × CallId)) : World :=
  { world with held := held }

/-- Record that a commit action ran. -/
def act (world : World) (caller : CallId) : World :=
  { world with history := .acted caller :: world.history }

section Leaves

variable (world : World)

theorem leaf_replace
    (caller : Option CallId) (path : Path) (old new : Option Bytes)
    (query : Path) :
    (world.replace caller path old new).leaf query =
      if query = path then new else world.leaf query := by
  change (setLeaf world.files path new)[query]? = _
  by_cases same : query = path
  · subst same
    cases new <;> simp [setLeaf]
  · have differs : compare path query ≠ .eq := by
      intro equal
      exact same (Std.LawfulEqCmp.compare_eq_iff_eq.mp equal).symm
    cases new <;>
      simp [setLeaf, Std.ExtTreeMap.getElem?_insert,
        Std.ExtTreeMap.getElem?_erase, differs, same, leaf]

@[simp] theorem leaf_offer (bytes : Option Bytes) (query : Path) :
    (world.offer bytes).leaf query = world.leaf query :=
  rfl

@[simp] theorem leaf_addDir (path query : Path) :
    (world.addDir path).leaf query = world.leaf query :=
  rfl

@[simp] theorem leaf_withHeld
    (held : Option (Path × CallId)) (query : Path) :
    (world.withHeld held).leaf query = world.leaf query :=
  rfl

@[simp] theorem leaf_act (caller : CallId) (query : Path) :
    (world.act caller).leaf query = world.leaf query :=
  rfl

end Leaves

section Listings

/-- A child's path ends in its name. -/
theorem childName_eq_some
    {dir path : Path} {name : String} :
    childName dir path = some name ↔ path = dir ++ [name] := by
  unfold childName
  constructor
  · intro found
    split at found
    · split at found
      · next last _ here =>
          cases found
          exact here
      · cases found
    · cases found
  · intro here
    subst here
    simp

/-- A listing contains the leaves and directories directly below. -/
theorem mem_listing
    {world : World} {dir : Path} {entry : HostEntry} :
    entry ∈ world.listing dir ↔
      (∃ bytes, world.leaf (dir ++ [entry.name]) = some bytes ∧
        entry.kind = .file ∧ entry.len = bytes.length) ∨
      (dir ++ [entry.name] ∈ world.dirs ∧
        entry.kind = .directory ∧ entry.len = 0) := by
  unfold listing
  rw [List.mem_insertionSort, List.mem_append, List.mem_filterMap,
    List.mem_filterMap]
  apply or_congr
  · constructor
    · rintro ⟨⟨path, bytes⟩, member, made⟩
      obtain ⟨name, child, rfl⟩ := Option.map_eq_some_iff.mp made
      rw [childName_eq_some] at child
      subst child
      exact ⟨bytes,
        Std.ExtTreeMap.mem_toList_iff_getElem?_eq_some.mp member, rfl, rfl⟩
    · rintro ⟨bytes, present, kind, len⟩
      refine ⟨(dir ++ [entry.name], bytes),
        Std.ExtTreeMap.mem_toList_iff_getElem?_eq_some.mpr present, ?_⟩
      apply Option.map_eq_some_iff.mpr
      refine ⟨entry.name, childName_eq_some.mpr rfl, ?_⟩
      cases entry
      simp only at kind len
      rw [kind, len]
  · constructor
    · rintro ⟨path, member, made⟩
      obtain ⟨name, child, rfl⟩ := Option.map_eq_some_iff.mp made
      rw [childName_eq_some] at child
      subst child
      exact ⟨Std.ExtTreeSet.mem_toList.mp member, rfl, rfl⟩
    · rintro ⟨present, kind, len⟩
      refine ⟨dir ++ [entry.name], Std.ExtTreeSet.mem_toList.mpr present, ?_⟩
      apply Option.map_eq_some_iff.mpr
      refine ⟨entry.name, childName_eq_some.mpr rfl, ?_⟩
      cases entry
      simp only at kind len
      rw [kind, len]

end Listings

end World

/--
A port and its surroundings: whether it implements guarded exchanges, which
calls may meet a failure, and whether a v1 writer shares the store.
-/
structure Port where
  guarded : Bool
  faulty : CallId → Prop
  legacy : Prop

/-- What a request may reply, and how it changes the store. -/
inductive Exec (port : Port) (me : CallId) :
    (call : HostCall) → World → HostReply call → World → Prop where
  | read {world : World} {path : Path} {bytes : Bytes} :
      world.leaf path = some bytes →
      Exec port me (.read path) world (.ok bytes) world
  | readMissing {world : World} {path : Path} {error : HostDirError} :
      world.leaf path = none →
      error.kind = .notFound →
      Exec port me (.read path) world (.error error) world
  | readFailed {world : World} {path : Path} {error : HostDirError} :
      port.faulty me →
      error.kind ≠ .notFound →
      Exec port me (.read path) world (.error error) world
  | list {world : World} {dir : Path} :
      dir ∈ world.dirs →
      Exec port me (.list dir) world (.ok (world.listing dir)) world
  | listMissing {world : World} {dir : Path} {error : HostDirError} :
      dir ∉ world.dirs →
      error.kind = .notFound →
      Exec port me (.list dir) world (.error error) world
  | listFailed {world : World} {dir : Path} {error : HostDirError} :
      port.faulty me →
      error.kind ≠ .notFound →
      Exec port me (.list dir) world (.error error) world
  | createDir {world : World} {path : Path} :
      Exec port me (.createDir path) world (.ok ()) (world.addDir path)
  | createDirFailed {world : World} {path : Path} {error : HostDirError} :
      port.faulty me →
      Exec port me (.createDir path) world (.error error) world
  | createDirUnanswered {world : World} {path : Path} {error : HostDirError} :
      port.faulty me →
      Exec port me (.createDir path) world (.error error) (world.addDir path)
  | exchanged {world : World} {path : Path} {expected replacement} :
      world.Free path →
      world.leaf path = expected →
      Exec port me (.compareExchange path expected replacement) world
        (.ok ⟨true, expected⟩)
        ((world.offer replacement).replace (some me) path expected replacement)
  | missed {world : World} {path : Path} {expected replacement} :
      world.Free path →
      world.leaf path ≠ expected →
      Exec port me (.compareExchange path expected replacement) world
        (.ok ⟨false, world.leaf path⟩) (world.offer replacement)
  | exchangeFailed {world : World} {path : Path} {expected replacement}
      {error : HostDirError} :
      port.faulty me →
      Exec port me (.compareExchange path expected replacement) world
        (.error error) (world.offer replacement)
  | exchangeUnanswered {world : World} {path : Path} {expected replacement}
      {error : HostDirError} :
      port.faulty me →
      world.Free path →
      world.leaf path = expected →
      Exec port me (.compareExchange path expected replacement) world
        (.error error)
        ((world.offer replacement).replace (some me) path expected replacement)
  | supportsGuarded {world : World} :
      Exec port me .supportsGuarded world port.guarded world
  | committed {world : World} {path : Path} {expected replacement}
      {invocations : Nat} :
      port.guarded = true →
      world.held = none →
      world.leaf path = expected →
      (invocations = 0 → port.faulty me) →
      Exec port me (.beginGuarded path expected replacement) world
        (.committed invocations)
        (((world.offer replacement).replace (some me) path expected
          replacement).withHeld (some (path, me)))
  | guardedMissed {world : World} {path : Path} {expected replacement} :
      port.guarded = true →
      world.Free path →
      world.leaf path ≠ expected →
      Exec port me (.beginGuarded path expected replacement) world
        (.returned (.ok ⟨false, world.leaf path⟩)) (world.offer replacement)
  | guardedFailed {world : World} {path : Path} {expected replacement}
      {error : HostDirError} :
      port.faulty me →
      Exec port me (.beginGuarded path expected replacement) world
        (.returned (.error error)) (world.offer replacement)
  | guardedUnsupported {world : World} {path : Path} {expected replacement}
      {error : HostDirError} :
      port.guarded = false →
      error.kind = .unsupported →
      Exec port me (.beginGuarded path expected replacement) world
        (.returned (.error error)) world
  | released {world : World} {path : Path} {expected : Option Bytes} :
      world.held = some (path, me) →
      Exec port me (.endGuarded path expected) world
        (.ok ⟨true, expected⟩) (world.withHeld none)
  | releaseFailed {world : World} {path : Path} {expected : Option Bytes}
      {error : HostDirError} :
      port.faulty me →
      world.held = some (path, me) →
      Exec port me (.endGuarded path expected) world
        (.error error) (world.withHeld none)
  | afterCommit {world : World} :
      Exec port me .afterCommit world () (world.act me)
  | failpoint {world : World} {point : Failpoint} {trips : Bool} :
      (trips = true → port.faulty me) →
      Exec port me (.failpoint point) world trips world
  | admissionFailpoint {world : World} {point : Failpoint} {trips : Bool} :
      (trips = true → port.faulty me) →
      Exec port me (.admissionFailpoint point) world trips world
  | tokenSource {world : World} {source : TokenSource} :
      (source.now = none → port.faulty me) →
      Exec port me .tokenSource world source world

/-- A call that stops releases its guard. -/
inductive Crash (me : CallId) : World → World → Prop where
  | holding {world : World} {path : Path} :
      world.held = some (path, me) →
      Crash me world (world.withHeld none)
  | idle {world : World} :
      (∀ path, world.held ≠ some (path, me)) →
      Crash me world world

end SimStorage.Journal.Host
