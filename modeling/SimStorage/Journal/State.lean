import SimStorage.Journal.Entry
import Std.Data.ExtTreeMap
import Std.Data.ExtTreeSet

namespace SimStorage.Journal

/-!
# Journal state and its verification

The logical state that a backend reads, the checks on a whole state and on a
batch before its admission, and the snapshot made from a verified state.
-/

open Codec

/-- `BTreeMap` keyed by content identity. -/
abbrev IdMap (τ : Type) := Std.ExtTreeMap ContentId τ

/-- `BTreeMap<u64, JournalEntry>`. -/
abbrev EntryMap := Std.ExtTreeMap UInt64 JournalEntry

/-- `BTreeMap::values` of an entry map. -/
def EntryMap.list (entries : EntryMap) : List JournalEntry :=
  entries.toList.map Prod.snd

/-- `StoredState`: what a backend reads. -/
structure StoredState where
  objects : IdMap Bytes
  datums : IdMap Datum
  entries : EntryMap
  head : Option JournalHead

namespace StoredState

/-- `StoredState::default`. -/
def empty : StoredState :=
  ⟨∅, ∅, ∅, none⟩

/-- Insert an object under its identity. -/
def withObject (state : StoredState) (object : JournalObject) : StoredState :=
  { state with
    objects := state.objects.insert object.id object.bytes
    datums := state.datums.insert object.id object.datum }

end StoredState

/-- `Admission`: one verified admission request. -/
structure Admission where
  fence : UInt64
  expected : Option JournalHead
  objects : List JournalObject
  entries : List JournalEntry

/-- `AdmissionDisposition`. -/
inductive AdmissionDisposition where
  | committedActionInvoked
  | alreadyCommittedActionNotInvoked
  deriving Repr, DecidableEq

/-- `GuardedAdmission`: a committed head and its disposition. -/
structure GuardedAdmission where
  head : JournalHead
  disposition : AdmissionDisposition
  deriving Repr, DecidableEq

/-- `Verification`: what a verified state contains. -/
structure Verification where
  head : Option JournalHead
  entries : List JournalEntry
  objectIds : Std.ExtTreeSet ContentId

/-- `VerifiedSnapshot`. -/
structure VerifiedSnapshot where
  head : Option JournalHead
  entries : List JournalEntry
  datums : IdMap Datum

variable (kernel : Kernel)

/-- The object loop of `verify_batch`: what is available to the batch. -/
def availableObjects : IdMap Bytes → List JournalObject → Result (IdMap Bytes)
  | available, [] => .ok available
  | available, object :: rest => do
      object.verify kernel
      match available[object.id]? with
      | some bytes =>
          if bytes ≠ object.bytes then
            refuse .conflictingObject
          else
            availableObjects (available.insert object.id object.bytes) rest
      | none =>
          availableObjects (available.insert object.id object.bytes) rest

/-- The next value of a `u64` range; overflow panics. -/
def nextSequence (sequence : UInt64) : Result UInt64 :=
  match checkedSucc sequence with
  | some next => .ok next
  | none => panicWith "attempt to add with overflow"

/-- The sequence that the first entry of a batch must carry. -/
def firstSequence : Option JournalHead → Result UInt64
  | none => .ok 0
  | some head => nextSequence head.sequence

/-- Every payload of an entry is available. -/
def checkPayloads (available : IdMap Bytes) : List ContentId → Result Unit
  | [] => .ok ()
  | payload :: rest =>
      if available.contains payload then
        checkPayloads available rest
      else
        refuse (.missingPayload payload)

/-- One iteration of the entry loop of `verify_batch`. -/
def checkBatchEntry
    (state : StoredState)
    (available : IdMap Bytes)
    (sequence : UInt64)
    (previous : Option ContentId)
    (entry : JournalEntry) : Result Unit := do
  let id ← entry.canonicalId kernel
  if id ≠ entry.id then
    refuse .corruptEntry
  else if entry.sequence ≠ sequence then
    refuse .sequenceGap
  else if entry.previous ≠ previous then
    refuse .wrongPrevious
  else do
    checkPayloads available entry.payloads
    match state.entries[entry.sequence]? with
    | some existing =>
        if existing ≠ entry then refuse .conflictingDelivery else .ok ()
    | none => .ok ()

/--
The entry loop of `verify_batch`.  The range is advanced before each entry is
taken, and once more before the loop ends.
-/
def checkBatchEntries
    (state : StoredState)
    (available : IdMap Bytes) :
    UInt64 → Option ContentId → List JournalEntry → Result Unit
  | sequence, _, [] => do
      let _ ← nextSequence sequence
      .ok ()
  | sequence, previous, entry :: rest => do
      let next ← nextSequence sequence
      checkBatchEntry kernel state available sequence previous entry
      checkBatchEntries state available next (some entry.id) rest

/-- `verify_batch`. -/
def verifyBatch
    (state : StoredState)
    (expected : Option JournalHead)
    (objects : List JournalObject)
    (entries : List JournalEntry) : Result Unit := do
  let available ← availableObjects kernel state.objects objects
  let sequence ← firstSequence expected
  checkBatchEntries kernel state available sequence
    (expected.map JournalHead.entry) entries

/-- The payload loop of `verify_state`. -/
def verifyPayloads
    (state : StoredState) :
    Std.ExtTreeSet ContentId → List ContentId →
      Result (Std.ExtTreeSet ContentId)
  | objectIds, [] => .ok objectIds
  | objectIds, payload :: rest => do
      let bytes ← okOr state.objects[payload]? (.missingPayload payload)
      let datum ← okOr state.datums[payload]? (.missingSemanticObject payload)
      let object ← JournalObject.fromDatum kernel datum
      if object.id ≠ payload ∨ object.bytes ≠ bytes then
        refuse (.corruptObject payload)
      else
        verifyPayloads state (objectIds.insert payload) rest

/-- The entry loop of `verify_state`. -/
def verifyEntries
    (state : StoredState) :
    Nat → Option ContentId → Std.ExtTreeSet ContentId →
      List JournalEntry → Result (Std.ExtTreeSet ContentId)
  | _, _, objectIds, [] => .ok objectIds
  | expected, prior, objectIds, entry :: rest => do
      if entry.sequence ≠ UInt64.ofNat expected then
        refuse (.corruptState "sequence gap")
      else if entry.previous ≠ prior then
        refuse (.corruptState "previous id")
      else do
        let id ← entry.canonicalId kernel
        if id ≠ entry.id then
          refuse .corruptEntry
        else do
          let more ← verifyPayloads kernel state objectIds entry.payloads
          verifyEntries state (expected + 1) (some entry.id) more rest

/-- `verify_state`. -/
def verifyState (state : StoredState) : Result Verification := do
  let entries := state.entries.list
  let objectIds ← verifyEntries kernel state 0 none ∅ entries
  let computed := entries.getLast?.map JournalEntry.head
  if computed ≠ state.head then
    refuse (.corruptState "head")
  else
    return ⟨computed, entries, objectIds⟩

/-- The datums of the verified payload identities. -/
def snapshotDatums
    (state : StoredState) :
    IdMap Datum → List ContentId → Result (IdMap Datum)
  | datums, [] => .ok datums
  | datums, id :: rest => do
      let datum ← okOr state.datums[id]? (.missingSemanticObject id)
      snapshotDatums state (datums.insert id datum) rest

/-- `VerifiedSnapshot::from_state`. -/
def VerifiedSnapshot.fromState
    (state : StoredState) : Result VerifiedSnapshot := do
  let verified ← verifyState kernel state
  let datums ← snapshotDatums state ∅ verified.objectIds.toList
  return ⟨verified.head, verified.entries, datums⟩

end SimStorage.Journal
