import SimStorage.Journal.Operation
import SimStorage.Interaction.System
import SimStorage.Ledger.Delivery

namespace SimStorage.Journal.Memory

/-!
# The memory journal backend

`MemoryBackend` keeps a fence and a stored state behind an inner lock; its
admission lock is held over a commit and the action after it, and over a lease.
Clients issue one request for every locked section, so their calls interleave
wherever the code holds no lock.
-/

open Codec Interaction

/-- `Inner`: what the inner lock protects. -/
structure Inner where
  fence : UInt64
  state : StoredState

section Sections

/-- The object loop of `commit_admission`; what precedes a conflict stays. -/
def insertObjects :
    StoredState → List JournalObject → Result Unit × StoredState
  | state, [] => (.ok (), state)
  | state, object :: rest =>
      match state.objects[object.id]? with
      | some bytes =>
          if bytes ≠ object.bytes then
            (refuse .conflictingObject, state)
          else
            insertObjects state rest
      | none => insertObjects (state.withObject object) rest

/-- The entry loop of `commit_admission`; what precedes a conflict stays. -/
def insertEntries :
    StoredState → List JournalEntry → Result Unit × StoredState
  | state, [] => (.ok (), state)
  | state, entry :: rest =>
      match state.entries[entry.sequence]? with
      | some existing =>
          if existing = entry then
            insertEntries state rest
          else
            (refuse .conflictingDelivery, state)
      | none =>
          insertEntries
            { state with entries := state.entries.insert entry.sequence entry }
            rest

/-- Every entry of a batch is in a state. -/
def exact (state : StoredState) (entries : List JournalEntry) : Bool :=
  (entries.all fun entry => state.entries[entry.sequence]? = some entry) &&
    ! entries.isEmpty

/-- The answer to a batch whose expected head is not the current one. -/
def answerStale (state : StoredState) (entries : List JournalEntry) :
    Result GuardedAdmission :=
  if exact state entries then do
    let head ← okOr state.head .wrongHead
    return ⟨head, .alreadyCommittedActionNotInvoked⟩
  else if entries.any fun entry => state.entries.contains entry.sequence then
    refuse .conflictingDelivery
  else
    refuse .wrongHead

/-- `commit_admission` below the inner lock. -/
def commitAdmission (admission : Admission) (inner : Inner) :
    Result GuardedAdmission × Inner :=
  if admission.fence ≠ inner.fence then
    (refuse .staleLease, inner)
  else if admission.expected ≠ inner.state.head then
    (answerStale inner.state admission.entries, inner)
  else
    match insertObjects inner.state admission.objects with
    | (.error fault, state) => (.error fault, { inner with state := state })
    | (.ok (), state) =>
        match insertEntries state admission.entries with
        | (.error fault, state) => (.error fault, { inner with state := state })
        | (.ok (), state) =>
            match state.entries.list.getLast? with
            | none => (refuse .emptyBatch, { inner with state := state })
            | some entry =>
                (.ok ⟨entry.head, .committedActionInvoked⟩,
                  { inner with state := { state with head := some entry.head } })

/-- `acquire_lease` below its locks. -/
def bumpFence (inner : Inner) : Result Lease × Inner :=
  match checkedSucc inner.fence with
  | some fence => (.ok ⟨fence⟩, { inner with fence := fence })
  | none => (refuse (.backend "fence exhausted"), inner)

variable (kernel : Kernel)

/-- `put_datum` below the inner lock. -/
def insertDatum (object : JournalObject) (inner : Inner) :
    Result Unit × Inner :=
  match inner.state.datums[object.id]? with
  | some value =>
      match JournalObject.fromDatum kernel value with
      | .error fault => (.error fault, inner)
      | .ok existing =>
          if existing.id ≠ object.id ∨ existing.bytes ≠ object.bytes then
            (refuse .conflictingObject, inner)
          else
            (.ok (), inner)
  | none => (.ok (), { inner with state := inner.state.withObject object })

/-- `get_datum` below the inner lock. -/
def lookupDatum (meaning : ContentId) (inner : Inner) : Result Datum :=
  okOr inner.state.datums[meaning]? (.missingSemanticObject meaning)

/-- The references of `rebuild_datum_index`. -/
def datumReferences : List (ContentId × Datum) → Result (List StoredDatumRef)
  | [] => .ok []
  | (meaning, datum) :: rest => do
      let object ← JournalObject.fromDatum kernel datum
      let bytes ← object.storageBytes kernel
      let references ← datumReferences rest
      return ⟨meaning, storageId kernel bytes⟩ :: references

end Sections

/-- Clients are numbered. -/
abbrev CallId := Nat

/--
The backend: what the locks protect, who holds the admission lock, which locks
are poisoned, and what happened at the head (latest event first; recorded for
reasoning only).
-/
structure World where
  inner : Inner
  innerPoisoned : Bool
  holder : Option CallId
  admissionPoisoned : Bool
  history : List (Ledger.Event CallId)

/-- `MemoryBackend::new`. -/
def World.new : World :=
  ⟨⟨0, .empty⟩, false, none, false, []⟩

/-- The locked sections, and the caller's action. -/
inductive MemoryCall where
  | lockAdmission
  | unlockAdmission
  | commitAdmission (admission : Admission)
  | bumpFence
  | readState
  | afterCommit
  | insertDatum (object : JournalObject)
  | lookupDatum (meaning : ContentId)
  | rebuildDatumIndex

/-- The replies to the requests. -/
abbrev MemoryReply : MemoryCall → Type
  | .lockAdmission => Result Unit
  | .unlockAdmission => Unit
  | .commitAdmission _ => Result GuardedAdmission
  | .bumpFence => Result Lease
  | .readState => Result StoredState
  | .afterCommit => Unit
  | .insertDatum _ => Result Unit
  | .lookupDatum _ => Result Datum
  | .rebuildDatumIndex => Result (List StoredDatumRef)

/-- A program over the backend. -/
abbrev MemoryProgram := Program MemoryCall MemoryReply Fault

namespace World

/-- A section under the inner lock; a panic in it poisons the lock. -/
def locked {α : Type} (world : World)
    (section' : Inner → Result α × Inner) : Result α × World :=
  if world.innerPoisoned then
    (refuse (.backend "memory lock poisoned"), world)
  else
    match section' world.inner with
    | (.error (.panicked message), inner) =>
        (.error (.panicked message),
          { world with inner := inner, innerPoisoned := true })
    | (result, inner) => (result, { world with inner := inner })

/-- A section that changes nothing. -/
def reading {α : Type} (world : World) (result : Inner → Result α) :
    Result α × World :=
  world.locked fun inner => (result inner, inner)

/-- Record an event at the head. -/
def record (world : World) (event : Ledger.Event CallId) : World :=
  { world with history := event :: world.history }

/-- Record what a commit did. -/
def recordCommit (world : World) (me : CallId) :
    Result GuardedAdmission → World
  | .ok ⟨_, .committedActionInvoked⟩ => world.record (.committed me)
  | _ => world

/-- Record what a lease did. -/
def recordLease (world : World) : Result Lease → World
  | .ok _ => world.record .changed
  | .error _ => world

end World

/-- What a request replies, and how it changes the backend. -/
inductive Exec (kernel : Kernel) (me : CallId) :
    (call : MemoryCall) → World → MemoryReply call → World → Prop where
  | lockAdmission {world : World} :
      world.holder = none →
      world.admissionPoisoned = false →
      Exec kernel me .lockAdmission world (.ok ())
        { world with holder := some me }
  | lockPoisoned {world : World} :
      world.holder = none →
      world.admissionPoisoned = true →
      Exec kernel me .lockAdmission world
        (refuse (.backend "memory admission lock poisoned")) world
  | unlockAdmission {world : World} :
      Exec kernel me .unlockAdmission world () { world with holder := none }
  | commitAdmission {world : World} {admission : Admission} :
      Exec kernel me (.commitAdmission admission) world
        (world.locked (commitAdmission admission)).1
        ((world.locked (commitAdmission admission)).2.recordCommit me
          (world.locked (commitAdmission admission)).1)
  | bumpFence {world : World} :
      Exec kernel me .bumpFence world (world.locked bumpFence).1
        ((world.locked bumpFence).2.recordLease (world.locked bumpFence).1)
  | readState {world : World} :
      Exec kernel me .readState world
        (world.reading fun inner => .ok inner.state).1
        (world.reading fun inner => .ok inner.state).2
  | afterCommit {world : World} :
      Exec kernel me .afterCommit world () (world.record (.acted me))
  | insertDatum {world : World} {object : JournalObject} :
      Exec kernel me (.insertDatum object) world
        (world.locked (insertDatum kernel object)).1
        (world.locked (insertDatum kernel object)).2
  | lookupDatum {world : World} {meaning : ContentId} :
      Exec kernel me (.lookupDatum meaning) world
        (world.reading (lookupDatum meaning)).1
        (world.reading (lookupDatum meaning)).2
  | rebuildDatumIndex {world : World} :
      Exec kernel me .rebuildDatumIndex world
        (world.reading fun inner =>
          datumReferences kernel inner.state.datums.toList).1
        (world.reading fun inner =>
          datumReferences kernel inner.state.datums.toList).2

/-- A client that stops in an admission poisons the admission lock. -/
inductive Crash (me : CallId) : World → World → Prop where
  | holding {world : World} :
      world.holder = some me →
      Crash me world
        { world with holder := none, admissionPoisoned := true }
  | idle {world : World} :
      world.holder ≠ some me →
      Crash me world world

section Programs

variable (kernel : Kernel)

/-- `self.admission.lock()?`. -/
def lockAdmission : MemoryProgram Unit :=
  .call .lockAdmission Program.ofExcept

/-- The end of a section that held the admission lock. -/
def release {α : Type} : Result α → MemoryProgram α
  | .ok value => .call .unlockAdmission fun _ => .ret value
  | .error fault => .call .unlockAdmission fun _ => .fail fault

/-- `acquire_lease`. -/
def acquireLease : MemoryProgram Lease := do
  lockAdmission
  .call .bumpFence release

/-- `read_state`. -/
def readState : MemoryProgram StoredState :=
  .call .readState Program.ofExcept

/-- The action after a commit, when there is one. -/
def act (guarded : Bool) (result : GuardedAdmission) :
    MemoryProgram GuardedAdmission :=
  if guarded ∧ result.disposition = .committedActionInvoked then
    .call .afterCommit fun _ => release (.ok result)
  else
    release (.ok result)

/-- `admit_then`; `guarded` says whether a caller's action is supplied. -/
def admitThen (guarded : Bool) (admission : Admission) :
    MemoryProgram GuardedAdmission := do
  lockAdmission
  .call (.commitAdmission admission) fun
    | .error fault => release (.error fault)
    | .ok result => act guarded result

/-- `put_datum`. -/
def putDatum (object : JournalObject) : MemoryProgram StoredDatumRef := do
  Program.ofExcept (object.verify kernel)
  let bytes ← Program.ofExcept (object.storageBytes kernel)
  .call (.insertDatum object) Program.ofExcept
  return ⟨object.id, storageId kernel bytes⟩

/-- `get_datum`. -/
def getDatum (meaning : ContentId) : MemoryProgram Datum :=
  .call (.lookupDatum meaning) Program.ofExcept

/-- `rebuild_datum_index`. -/
def rebuildDatumIndex : MemoryProgram (List StoredDatumRef) :=
  .call .rebuildDatumIndex Program.ofExcept

/-- `Journal::publish`. -/
def publish (publication : Publication) : MemoryProgram JournalHead := do
  let admission ← verifiedAdmission kernel readState publication
  let result ← admitThen false admission
  return result.head

/-- `Journal::publish_then`. -/
def publishThen (publication : Publication) :
    MemoryProgram GuardedAdmission := do
  let admission ← verifiedAdmission kernel readState publication
  admitThen true admission

/-- The program of a call. -/
def callProgram : Operation → MemoryProgram Outcome
  | .acquireLease => do
      let lease ← acquireLease
      return .lease lease
  | .readState => do
      let state ← readState
      return .state state
  | .publish publication => do
      let head ← publish kernel publication
      return .head head
  | .publishThen publication => do
      let result ← publishThen kernel publication
      return .guarded result
  | .putDatum object => do
      let reference ← putDatum kernel object
      return .reference reference
  | .getDatum meaning => do
      let datum ← getDatum meaning
      return .datum datum
  | .rebuildDatumIndex => do
      let references ← rebuildDatumIndex
      return .references references
  | .verifiedSnapshot => do
      let snapshot ← verifiedSnapshot kernel readState
      return .snapshot snapshot

end Programs

end SimStorage.Journal.Memory
