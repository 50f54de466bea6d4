import SimStorage.Journal.Host.Port
import SimStorage.Journal.Operation

namespace SimStorage.Journal.Host

/-!
# The host journal backend

The operations of `HostDirJournalBackend` as programs over the port, and the
journal calls made of them.
-/

open Codec NativeCodec Interaction

/-- `HostDirJournalBackend`: one coordinator's handle. -/
structure HostDirJournalBackend where
  capabilities : BackendCapabilities
  workBound : Nat
  deriving Repr, DecidableEq

/-- `port_error`. -/
def portError (error : HostDirError) : Fault :=
  .refused (.backend error.message)

/-- `map_err(port_error)?`. -/
def orPortError {α : Type} : PortResult α → HostProgram α
  | .ok value => .ret value
  | .error error => .fail (portError error)

/-- Return a journal error. -/
def refused {α : Type} (error : JournalError) : HostProgram α :=
  .fail (.refused error)

/-- A computation that makes no request. -/
def pureResult {α : Type} (result : Result α) : HostProgram α :=
  Program.ofExcept result

section Failpoints

/-- `trip`, with the refusal as a value. -/
def tripped (point : Failpoint) : HostProgram (Option JournalError) :=
  .call (.failpoint point) fun trips =>
    .ret (if trips then some (.injectedCrash point.label) else none)

/-- `trip`. -/
def trip (point : Failpoint) : HostProgram Unit := do
  match ← tripped point with
  | some error => refused error
  | none => .ret ()

/-- `trip_admission`, with the refusal as a value. -/
def trippedAdmission (point : Failpoint) :
    HostProgram (Option JournalError) := do
  match ← tripped point with
  | some error => .ret (some error)
  | none =>
      .call (.admissionFailpoint point) fun trips =>
        .ret (if trips then some (.injectedCrash point.label) else none)

/-- `trip_admission`. -/
def tripAdmission (point : Failpoint) : HostProgram Unit := do
  match ← trippedAdmission point with
  | some error => refused error
  | none => .ret ()

end Failpoints

section Leaves

/-- `create_dir(..).map_err(port_error)?`. -/
def createDir (path : Path) : HostProgram Unit :=
  .call (.createDir path) orPortError

/-- `compare_exchange(..).map_err(port_error)?`. -/
def compareExchange (path : Path) (expected replacement : Option Bytes) :
    HostProgram HostCompareExchange :=
  .call (.compareExchange path expected replacement) orPortError

/-- `load`. -/
def load (path : Path) : HostProgram Bytes :=
  .call (.read path) orPortError

/-- `state_bytes`. -/
def stateBytes : HostProgram (Option Bytes) :=
  .call (.read statePath) fun
    | .ok bytes => .ret (some bytes)
    | .error error =>
        if error.kind = .notFound then .ret none else .fail (portError error)

/-- `put_immutable`. -/
def putImmutable (path : Path) (bytes : Bytes) : HostProgram Unit := do
  let outcome ← compareExchange path none (some bytes)
  if outcome.exchanged ∨ outcome.observed = some bytes then
    .ret ()
  else
    refused .conflictingObject

/-- `ensure_layout`. -/
def ensureLayout : HostProgram Unit := do
  createDir objectsRoot
  createDir ["namespaces-v2"]
  createDir ["compat-v1"]
  createDir ["temporary"]

/-- `ensure_entry_dirs`. -/
def ensureEntryDirs (location : EntryLocation) : HostProgram Unit := do
  createDir (sequenceDir location)
  createDir (entryDir location)

end Leaves

/-- `write_capable`. -/
def writeCapable (backend : HostDirJournalBackend) : HostProgram Unit :=
  if ¬ backend.capabilities.linearizableCas then
    refused (.writeRefused "linearizable table/cas unavailable")
  else if ¬ backend.capabilities.durablePublish then
    refused (.writeRefused "storage durability receipt unavailable")
  else
    .ret ()

variable (kernel : Kernel)

section Namespaces

/-- The bytes that a namespace token is the digest of. -/
def tokenBytes (seed : Bytes) (now : BitVec 128) (source : TokenSource) :
    Bytes :=
  utf8 "sim-journal-namespace-v2" ++ 0 ::
    (seed ++
      (be32 source.process ++
        (bigEndian 16 now.toNat ++ be64 source.nonce)))

/-- One attempt of `reserve_namespace`. -/
def reserveAttempt (seed : Bytes) : HostProgram (Option EntryNamespace) :=
  .call .tokenSource fun source =>
    match source.now with
    | none => refused (.backend "system time before epoch")
    | some now => do
        let name : EntryNamespace :=
          ⟨hex (kernel.sha256 (tokenBytes seed now source)).val⟩
        createDir (namespaceRoot name)
        let result ← compareExchange (markerPath name) none
          (some namespaceMagic)
        if result.exchanged then do
          createDir (entriesRoot name)
          return some name
        else
          return none

/-- `reserve_namespace`, with the attempts that are left. -/
def reserveNamespace (seed : Bytes) : Nat → HostProgram EntryNamespace
  | 0 => refused (.backend "could not reserve a fresh journal namespace")
  | attempts + 1 => do
      match ← reserveAttempt kernel seed with
      | some name => return name
      | none => reserveNamespace seed attempts

end Namespaces

section Objects

/-- `put_object`. -/
def putObject (object : JournalObject) : HostProgram StoredDatumRef := do
  pureResult (object.verify kernel)
  let bytes ← pureResult (object.storageBytes kernel)
  let storage := storageId kernel bytes
  createDir (objectDir object.id)
  putImmutable (objectPath ⟨object.id, storage⟩) bytes
  return ⟨object.id, storage⟩

/-- The checks on loaded object bytes. -/
def checkObject (reference : StoredDatumRef) (bytes : Bytes) :
    Result JournalObject :=
  if storageId kernel bytes ≠ reference.storage then
    refuse (.corruptState "object storage id")
  else do
    let object ← JournalObject.fromStorageBytes kernel bytes
    if object.id ≠ reference.meaning then
      refuse (.corruptObject reference.meaning)
    else
      return object

/-- `load_object_ref`. -/
def loadObjectRef (reference : StoredDatumRef) :
    HostProgram JournalObject := do
  let bytes ← load (objectPath reference)
  pureResult (checkObject kernel reference bytes)

/-- The choice of the only file of an object directory. -/
def onlyFile (meaning : ContentId) (entries : List HostEntry) :
    Result HostEntry :=
  match entries.filter fun entry => entry.kind = .file with
  | [] => refuse (.missingSemanticObject meaning)
  | [file] => .ok file
  | _ => refuse (.corruptState "ambiguous semantic object")

/-- `find_object`. -/
def findObject (meaning : ContentId) :
    HostProgram (StoredDatumRef × JournalObject) := do
  let entries ← .call (.list (objectDir meaning)) orPortError
  let file ← pureResult (onlyFile meaning entries)
  let storage ← pureResult (parseIdKey kernel file.name)
  let bytes ← load (objectDir meaning ++ [file.name])
  let object ← pureResult (checkObject kernel ⟨meaning, storage⟩ bytes)
  return (⟨meaning, storage⟩, object)

end Objects

section ReadV1

/-- The state that `read_v1` builds, and the identities it links. -/
structure V1Progress where
  state : StoredState
  physicalPrevious : Option ContentId
  canonicalPrevious : Option ContentId

/-- The start of the `read_v1` loop. -/
def V1Progress.start : V1Progress :=
  ⟨.empty, none, none⟩

/-- The payload loop of `read_v1`. -/
def readV1Payloads :
    StoredState → List ContentId →
      HostProgram (StoredState × List ContentId)
  | state, [] => .ret (state, [])
  | state, oldId :: rest => do
      let payload ← load (v1ObjectPath oldId)
      if v1ObjectId kernel payload ≠ oldId then
        refused (.corruptObject oldId)
      else do
        let object ← pureResult (JournalObject.fromBytes kernel payload)
        let (later, payloads) ←
          readV1Payloads (state.withObject object) rest
        return (later, object.id :: payloads)

/-- The checks on one v1 entry. -/
def checkV1Entry (progress : V1Progress) (sequence : UInt64) (old : V1Entry) :
    Result Unit :=
  if old.sequence ≠ sequence ∨ old.previous ≠ progress.physicalPrevious then
    refuse (.corruptState "v1 chain")
  else if old.id ≠ v1CanonicalId kernel old then
    refuse .corruptEntry
  else
    -- `Vec::with_capacity(old.payloads.len())`.
    idCapacity kernel old.payloads.length

/-- One iteration of the `read_v1` loop. -/
def readV1Entry (progress : V1Progress) (sequence : UInt64) :
    HostProgram V1Progress := do
  let bytes ← load (v1EntryPath sequence)
  let old ← pureResult (decodeV1Entry kernel bytes)
  pureResult (checkV1Entry kernel progress sequence old)
  let (state, payloads) ← readV1Payloads kernel progress.state old.payloads
  let entry ← pureResult
    (JournalEntry.new kernel sequence progress.canonicalPrevious old.kind
      payloads)
  return ⟨{ state with entries := state.entries.insert sequence entry },
    some old.id, some entry.id⟩

/-- The `read_v1` loop over the given number of sequences. -/
def readV1Entries :
    V1Progress → Nat → Nat → HostProgram V1Progress
  | progress, _, 0 => .ret progress
  | progress, next, remaining + 1 => do
      let later ← readV1Entry kernel progress (UInt64.ofNat next)
      readV1Entries later (next + 1) remaining

/-- What `read_v1` makes of the finished loop. -/
def finishV1 (physicalHead : JournalHead) (progress : V1Progress) :
    Result (StoredState × JournalHead) :=
  if progress.physicalPrevious ≠ some physicalHead.entry then
    refuse (.corruptState "v1 head")
  else do
    let last ← okOr progress.state.entries.list.getLast?
      (.corruptState "empty v1 prefix")
    let state := { progress.state with head := some last.head }
    let _ ← verifyState kernel state
    return (state, last.head)

/-- The entries that a v1 head needs, within the work bound. -/
def v1Needed (backend : HostDirJournalBackend) (physicalHead : JournalHead) :
    Result Nat :=
  let needed := physicalHead.sequence.toNat + 1
  if 2 ^ 64 ≤ needed then
    refuse .workBoundExceeded
  else if backend.workBound < needed then
    refuse .workBoundExceeded
  else
    .ok needed

/-- `read_v1` below its head and work-bound checks. -/
def readV1Body (physicalHead : JournalHead) (needed : Nat) :
    HostProgram (StoredState × JournalHead) := do
  let progress ← readV1Entries kernel .start 0 needed
  pureResult (finishV1 kernel physicalHead progress)

/-- `read_v1`. -/
def readV1 (backend : HostDirJournalBackend) (stateBytes : Bytes) :
    HostProgram (StoredState × JournalHead) := do
  let (_, head) ← pureResult (decodeV1State kernel stateBytes)
  match head with
  | none => refused (.corruptState "empty v1 prefix")
  | some physicalHead => do
      let needed ← pureResult (v1Needed backend physicalHead)
      readV1Body kernel physicalHead needed

end ReadV1

section ReadV2

/-- `saturating_add(1)`. -/
def saturatingSucc (value : UInt64) : UInt64 :=
  (checkedSucc value).getD value

/-- The checks on a loaded prefix descriptor. -/
def checkDescriptor (reference : VerifiedNativePrefixRef) (bytes : Bytes) :
    Result (Bytes × JournalHead) :=
  if storageId kernel bytes ≠ reference.descriptor then
    refuse (.corruptState "prefix descriptor id")
  else do
    let (oldState, described) ← decodeDescriptor kernel bytes
    let (_, physical) ← decodeV1State kernel oldState
    if physical ≠ some reference.physicalHead then
      refuse (.corruptState "prefix physical head")
    else
      return (oldState, described)

/-- The checks on the state that a descriptor's prefix reads as. -/
def checkPrefix (reference : VerifiedNativePrefixRef)
    (described canonical : JournalHead) (state : StoredState) :
    Result StoredState :=
  if described ≠ reference.canonicalHead ∨
      canonical ≠ reference.canonicalHead ∨
      reference.entries ≠ saturatingSucc canonical.sequence then
    refuse (.corruptState "prefix canonical head")
  else
    .ok state

/-- `read_prefix`. -/
def readPrefix (backend : HostDirJournalBackend)
    (reference : VerifiedNativePrefixRef) : HostProgram StoredState := do
  let bytes ← load (descriptorPath reference.descriptor)
  let (oldState, described) ← pureResult
    (checkDescriptor kernel reference bytes)
  let (state, canonical) ← readV1 kernel backend oldState
  pureResult (checkPrefix reference described canonical state)

/-- The checks on one loaded entry leaf. -/
def checkEntryLeaf (current : EntryLocation) (bytes : Bytes) :
    Result PhysicalEntry :=
  if storageId kernel bytes ≠ current.storage then
    refuse (.corruptState "entry storage id")
  else do
    let physical ← decodeV2Entry kernel bytes
    if physical.entry.id ≠ current.entry ∨
        physical.entry.sequence ≠ current.sequence then
      refuse .corruptEntry
    else do
      let id ← physical.entry.canonicalId kernel
      if id ≠ physical.entry.id then
        refuse .corruptEntry
      else
        return physical

/-- The payload loop of `read_v2`, over the zipped payloads. -/
def readV2Payloads :
    StoredState → List (ContentId × StoredDatumRef) → HostProgram StoredState
  | state, [] => .ret state
  | state, (meaning, reference) :: rest =>
      if meaning ≠ reference.meaning then
        refused (.corruptState "payload locator")
      else do
        let object ← loadObjectRef kernel reference
        readV2Payloads (state.withObject object) rest

/-- One iteration of the `read_v2` loop, below its checks on the locator. -/
def readV2Entry (state : StoredState) (current : EntryLocation) :
    HostProgram (StoredState × PhysicalEntry) := do
  let bytes ← load (entryPath current)
  let physical ← pureResult (checkEntryLeaf kernel current bytes)
  let later ← readV2Payloads kernel state
    (physical.entry.payloads.zip physical.payloads)
  if physical.entry.payloads.length ≠ physical.payloads.length then
    refused (.corruptState "payload locator count")
  else
    return (later, physical)

/--
The locator loop of `read_v2`.  `remaining` is the work bound less the entries
read so far; `suffix` holds the physical entries, the latest read first.
-/
def readV2Chain (name : EntryNamespace) :
    Nat → StoredState → Option EntryLocation → List EntryLocation →
      List PhysicalEntry → HostProgram (StoredState × List PhysicalEntry)
  | _, state, none, _, suffix => .ret (state, suffix)
  | remaining, state, some current, seen, suffix =>
      if current.entryNamespace ≠ name ∨ current ∈ seen then
        refused (.corruptState "entry locator chain")
      else
        match remaining with
        | 0 => refused .workBoundExceeded
        | remaining + 1 => do
            let (later, physical) ← readV2Entry kernel state current
            readV2Chain name remaining later physical.previousLocation
              (current :: seen) (physical :: suffix)

/-- The insertion of the suffix, oldest entry first. -/
def insertSuffix : EntryMap → List PhysicalEntry → Result EntryMap
  | entries, [] => .ok entries
  | entries, physical :: rest =>
      if entries.contains physical.entry.sequence then
        refuse (.corruptState "overlapping suffix")
      else
        insertSuffix
          (entries.insert physical.entry.sequence physical.entry) rest

/-- What `read_v2` makes of the finished loop. -/
def finishV2 (envelope : NativeStateEnvelope) (prefixLength : Nat)
    (state : StoredState) (suffix : List PhysicalEntry) :
    Result StoredState := do
  let entries ← insertSuffix state.entries suffix
  let complete := { state with entries := entries, head := envelope.head }
  let _ ← verifyState kernel complete
  if decide (prefixLength < entries.size) ≠ envelope.headLocation.isSome then
    refuse (.corruptState "head locator")
  else
    return complete

/-- The prefix that `read_v2` starts from. -/
def readBase (backend : HostDirJournalBackend)
    (reference : Option VerifiedNativePrefixRef) : HostProgram StoredState :=
  match reference with
  | some reference => readPrefix kernel backend reference
  | none => .ret .empty

/-- The check of a namespace marker. -/
def checkMarker (marker : Bytes) : Result Unit :=
  if marker ≠ namespaceMagic then
    refuse (.corruptState "namespace format")
  else
    .ok ()

/-- `read_v2`. -/
def readV2 (backend : HostDirJournalBackend)
    (envelope : NativeStateEnvelope) : HostProgram StoredState :=
  if envelope.format ≠ .v2 then
    refused (.corruptState "native format")
  else do
    let marker ← load (markerPath envelope.entryNamespace)
    pureResult (checkMarker marker)
    let base ← readBase kernel backend envelope.prefixRef
    let prefixLength := base.entries.size
    let (state, suffix) ← readV2Chain kernel envelope.entryNamespace
      (backend.workBound - prefixLength) base envelope.headLocation [] []
    pureResult (finishV2 kernel envelope prefixLength state suffix)

end ReadV2

/-- `bytes.starts_with(b"SIMJSTATE1")`. -/
def isV1State (bytes : Bytes) : Bool :=
  stateMagic1.isPrefixOf bytes

/-- `read_state` below the read of the state leaf. -/
def readStateFrom (backend : HostDirJournalBackend) :
    Option Bytes → HostProgram StoredState
  | none => .ret .empty
  | some bytes =>
      if isV1State bytes then do
        let (_, head) ← pureResult (decodeV1State kernel bytes)
        match head with
        | some _ => do
            let (state, _) ← readV1 kernel backend bytes
            return state
        | none => return .empty
      else do
        let envelope ← pureResult (decodeEnvelope kernel bytes)
        readV2 kernel backend envelope

/-- `read_state`. -/
def readState (backend : HostDirJournalBackend) : HostProgram StoredState := do
  let bytes ← stateBytes
  readStateFrom kernel backend bytes

section Leases

/-- What an install takes over from the observed state leaf. -/
structure Inherited where
  fence : UInt64
  reference : Option VerifiedNativePrefixRef
  head : Option JournalHead

/-- `canonical_head.sequence + 1`. -/
def countEntries (head : JournalHead) : Result UInt64 :=
  nextSequence head.sequence

/-- The first half of `install_v2`: the prefix and its descriptor. -/
def inherit (backend : HostDirJournalBackend) :
    Option Bytes → HostProgram Inherited
  | none => .ret ⟨0, none, none⟩
  | some bytes => do
      let (fence, physicalHead) ← pureResult (decodeV1State kernel bytes)
      match physicalHead with
      | none => return ⟨fence, none, none⟩
      | some physicalHead => do
          let (_, canonicalHead) ← readV1 kernel backend bytes
          trip .beforePrefixDescriptor
          let descriptorBytes := encodeDescriptor bytes canonicalHead
          let descriptor := storageId kernel descriptorBytes
          putImmutable (descriptorPath descriptor) descriptorBytes
          trip .afterPrefixDescriptor
          let entries ← pureResult (countEntries canonicalHead)
          return ⟨fence,
            some ⟨entries, physicalHead, canonicalHead, descriptor⟩,
            some canonicalHead⟩

/-- `checked_add(1)` on a fence. -/
def nextFence (fence : UInt64) : Result UInt64 :=
  okOr (checkedSucc fence) (.backend "fence exhausted")

/-- The envelope that an install selects. -/
def installEnvelope (fence : UInt64) (name : EntryNamespace)
    (inherited : Inherited) : NativeStateEnvelope :=
  ⟨.v2, fence, name, inherited.reference, inherited.head, none⟩

/-- `install_v2`. -/
def installV2 (backend : HostDirJournalBackend) (observed : Option Bytes) :
    HostProgram (Option Lease) := do
  let inherited ← inherit kernel backend observed
  let fence ← pureResult (nextFence inherited.fence)
  let name ← reserveNamespace kernel (observed.getD []) 128
  trip .afterNamespaceReservation
  let replacement := encodeEnvelope (installEnvelope fence name inherited)
  trip .beforeFormatCas
  let result ← compareExchange statePath observed (some replacement)
  if ¬ result.exchanged then
    return none
  else do
    trip .afterFormatCas
    return some ⟨fence⟩

/-- The v2 arm of the `acquire_lease` loop. -/
def bumpFence (backend : HostDirJournalBackend) (bytes : Bytes) :
    HostProgram (Option Lease) := do
  let envelope ← pureResult (decodeEnvelope kernel bytes)
  let _ ← readV2 kernel backend envelope
  let fence ← pureResult (nextFence envelope.fence)
  let replacement := encodeEnvelope { envelope with fence := fence }
  let result ← compareExchange statePath (some bytes) (some replacement)
  if result.exchanged then
    return some ⟨fence⟩
  else
    return none

/-- One iteration of the `acquire_lease` loop. -/
def acquireAttempt (backend : HostDirJournalBackend) :
    HostProgram (Option Lease) := do
  let observed ← stateBytes
  match observed with
  | none => installV2 kernel backend none
  | some bytes =>
      if isV1State bytes then
        installV2 kernel backend (some bytes)
      else
        bumpFence kernel backend bytes

end Leases

section Admissions

/-- Every entry of a batch is committed in a state. -/
def redelivered (state : StoredState) (entries : List JournalEntry) : Bool :=
  ! entries.isEmpty &&
    entries.all fun entry => state.entries[entry.sequence]? = some entry

/-- The redelivery arm of `admit_with_action`. -/
def confirmRedelivery (backend : HostDirJournalBackend)
    (admission : Admission) (observed : Bytes)
    (envelope : NativeStateEnvelope) : HostProgram GuardedAdmission := do
  let state ← readV2 kernel backend envelope
  if ¬ redelivered state admission.entries then
    refused .wrongHead
  else do
    let confirmation ← compareExchange statePath (some observed)
      (some observed)
    if ¬ confirmation.exchanged then
      refused .wrongHead
    else do
      let head ← pureResult (okOr envelope.head .wrongHead)
      return ⟨head, .alreadyCommittedActionNotInvoked⟩

/-- `BTreeMap<ContentId, StoredDatumRef>`. -/
abbrev References := IdMap StoredDatumRef

/-- The object loop of `admit_with_action`. -/
def publishObjects : References → List JournalObject → HostProgram References
  | references, [] => .ret references
  | references, object :: rest => do
      let reference ← putObject kernel object
      publishObjects (references.insert reference.meaning reference) rest

/-- The reference that a published entry keeps for one payload. -/
def resolvePayload (references : References) (meaning : ContentId) :
    HostProgram StoredDatumRef :=
  match references[meaning]? with
  | some reference => .ret reference
  | none => do
      let (reference, _) ← findObject kernel meaning
      return reference

/-- The payload loop of one published entry. -/
def resolvePayloads (references : References) :
    List ContentId → HostProgram (List StoredDatumRef)
  | [] => .ret []
  | meaning :: rest => do
      let reference ← resolvePayload kernel references meaning
      let later ← resolvePayloads references rest
      return reference :: later

/-- The publication of one entry leaf. -/
def publishEntry (references : References) (name : EntryNamespace)
    (previous : Option EntryLocation) (entry : JournalEntry) :
    HostProgram EntryLocation := do
  pureResult (referenceCapacity kernel entry.payloads.length)
  let payloads ← resolvePayloads kernel references entry.payloads
  let bytes ← pureResult (encodeV2Entry kernel ⟨entry, previous, payloads⟩)
  let location : EntryLocation :=
    ⟨name, entry.sequence, entry.id, storageId kernel bytes⟩
  ensureEntryDirs location
  putImmutable (entryPath location) bytes
  return location

/-- The entry loop of `admit_with_action`: the location of the last leaf. -/
def publishEntries (references : References) (name : EntryNamespace) :
    Option EntryLocation → List JournalEntry →
      HostProgram (Option EntryLocation)
  | previous, [] => .ret previous
  | previous, entry :: rest => do
      let location ← publishEntry kernel references name previous entry
      publishEntries references name (some location) rest

/-- What the continuation of a guarded exchange has done. -/
structure Continuation where
  called : Bool
  postCommitError : Option JournalError

/-- The continuation: only its first invocation has an effect. -/
def Continuation.invoke (state : Continuation) : HostProgram Continuation :=
  if state.called then
    .ret state
  else do
    let error ← trippedAdmission .afterCas
    match error with
    | some error => return ⟨true, some error⟩
    | none => .call .afterCommit fun _ => .ret ⟨true, none⟩

/-- The invocations that the port makes. -/
def Continuation.invokeTimes : Nat → Continuation → HostProgram Continuation
  | 0, state => .ret state
  | times + 1, state => do
      let later ← state.invoke
      invokeTimes times later

/-- The outcome of the head exchange, and the error after it. -/
structure HeadExchange where
  result : HostCompareExchange
  postCommitError : Option JournalError

/-- The guarded head exchange, with the action in its continuation. -/
def exchangeGuarded (observed replacement : Bytes) :
    HostProgram HeadExchange :=
  .call (.beginGuarded statePath (some observed) (some replacement)) fun
    | .returned result => do
        let outcome ← orPortError result
        if outcome.exchanged then
          refused
            (.writeRefused "guarded commit acknowledgement is incomplete")
        else
          return ⟨outcome, none⟩
    | .committed invocations => do
        let state ← Continuation.invokeTimes invocations ⟨false, none⟩
        let outcome ← .call (.endGuarded statePath (some observed)) orPortError
        if outcome.exchanged ∧ ¬ state.called then
          refused
            (.writeRefused "guarded commit acknowledgement is incomplete")
        else
          return ⟨outcome, state.postCommitError⟩

/-- The plain head exchange. -/
def exchangePlain (observed replacement : Bytes) :
    HostProgram HeadExchange := do
  let outcome ← compareExchange statePath (some observed) (some replacement)
  if outcome.exchanged then do
    tripAdmission .afterCas
    return ⟨outcome, none⟩
  else
    return ⟨outcome, none⟩

/-- The head exchange and the acknowledgement of `admit_with_action`. -/
def commitHead (guarded : Bool) (observed replacement : Bytes)
    (newHead : JournalHead) : HostProgram GuardedAdmission := do
  let exchange ←
    if guarded then exchangeGuarded observed replacement
    else exchangePlain observed replacement
  if ¬ exchange.result.exchanged then
    refused .wrongHead
  else
    match exchange.postCommitError with
    | some error => refused error
    | none => do
        tripAdmission .beforeAcknowledgement
        return ⟨newHead, .committedActionInvoked⟩

/-- The fresh-commit arm of `admit_with_action`. -/
def commitFresh (guarded : Bool) (admission : Admission) (observed : Bytes)
    (envelope : NativeStateEnvelope) : HostProgram GuardedAdmission := do
  tripAdmission .beforeObjectPublish
  let references ← publishObjects kernel ∅ admission.objects
  tripAdmission .afterObjectPublish
  let location ← publishEntries kernel references envelope.entryNamespace
    envelope.headLocation admission.entries
  tripAdmission .afterDurabilityReceipt
  let last ← pureResult (okOr admission.entries.getLast? .emptyBatch)
  tripAdmission .beforeCas
  let replacement := encodeEnvelope
    { envelope with head := some last.head, headLocation := location }
  commitHead guarded observed replacement last.head

/-- `admit_with_action` below its read of the state leaf. -/
def admitObserved (backend : HostDirJournalBackend) (guarded : Bool)
    (admission : Admission) (observed : Bytes) :
    HostProgram GuardedAdmission :=
  if isV1State observed then
    refused (.writeRefused "acquire a v2 lease before append")
  else do
    let envelope ← pureResult (decodeEnvelope kernel observed)
    if envelope.fence ≠ admission.fence then
      refused .staleLease
    else if envelope.head ≠ admission.expected then
      confirmRedelivery kernel backend admission observed envelope
    else
      commitFresh kernel guarded admission observed envelope

/-- The refusal of a port without guarded exchanges. -/
def requireGuarded (guarded : Bool) : HostProgram Unit :=
  if guarded then
    .call .supportsGuarded fun supported =>
      if supported then .ret ()
      else refused (.writeRefused "guarded host admission unsupported")
  else
    .ret ()

/-- `admit_with_action`; `guarded` says whether an action is supplied. -/
def admitWithAction (backend : HostDirJournalBackend) (guarded : Bool)
    (admission : Admission) : HostProgram GuardedAdmission := do
  requireGuarded guarded
  writeCapable backend
  ensureLayout
  let bytes ← stateBytes
  let observed ← pureResult
    (okOr bytes (.writeRefused "acquire a v2 lease before append"))
  admitObserved kernel backend guarded admission observed

end Admissions

section Index

/-- `put_datum`. -/
def putDatum (backend : HostDirJournalBackend) (object : JournalObject) :
    HostProgram StoredDatumRef := do
  writeCapable backend
  ensureLayout
  putObject kernel object

/-- `get_datum`. -/
def getDatum (meaning : ContentId) : HostProgram Datum := do
  let (_, object) ← findObject kernel meaning
  return object.datum

/-- The loop of `rebuild_datum_index`. -/
def rebuildEntries (backend : HostDirJournalBackend) :
    List StoredDatumRef → List HostEntry → HostProgram (List StoredDatumRef)
  | rebuilt, [] => .ret rebuilt
  | rebuilt, entry :: rest =>
      if entry.kind ≠ .directory then
        refused (.corruptState "object index entry")
      else if backend.workBound ≤ rebuilt.length then
        refused .workBoundExceeded
      else do
        let meaning ← pureResult (parseIdKey kernel entry.name)
        let (reference, _) ← findObject kernel meaning
        rebuildEntries backend (rebuilt ++ [reference]) rest

/-- `rebuild_datum_index`. -/
def rebuildDatumIndex (backend : HostDirJournalBackend) :
    HostProgram (List StoredDatumRef) :=
  .call (.list objectsRoot) fun
    | .error error =>
        if error.kind = .notFound then .ret []
        else .fail (portError error)
    | .ok entries => do
        let rebuilt ← rebuildEntries kernel backend [] entries
        return rebuilt.insertionSort fun first second =>
          (compare first.meaning second.meaning).isLE

end Index

section Calls

/-- `HostDirJournalBackend::open`. -/
def openBackend (backend : HostDirJournalBackend) : HostProgram Unit :=
  if backend.workBound = 0 then
    refused .workBoundExceeded
  else do
    let _ ← readState kernel backend
    return ()

/-- The end of a round of the lease loop. -/
def leaseOutcome : Option Lease → Outcome
  | some lease => .lease lease
  | none => .again

/-- A further round of the `acquire_lease` loop. -/
def acquireAgain (backend : HostDirJournalBackend) : HostProgram Outcome := do
  let lease ← acquireAttempt kernel backend
  return leaseOutcome lease

/-- `acquire_lease`, up to the end of the first round of its loop. -/
def acquireLease (backend : HostDirJournalBackend) : HostProgram Outcome := do
  writeCapable backend
  ensureLayout
  acquireAgain kernel backend

/-- `Journal::publish`. -/
def publish (backend : HostDirJournalBackend) (publication : Publication) :
    HostProgram JournalHead := do
  let admission ← verifiedAdmission kernel (readState kernel backend)
    publication
  let result ← admitWithAction kernel backend false admission
  return result.head

/-- `Journal::publish_then`. -/
def publishThen (backend : HostDirJournalBackend) (publication : Publication) :
    HostProgram GuardedAdmission := do
  let admission ← verifiedAdmission kernel (readState kernel backend)
    publication
  admitWithAction kernel backend true admission

/-- The program of a call. -/
def callProgram (backend : HostDirJournalBackend) :
    Operation → HostProgram Outcome
  | .acquireLease => acquireLease kernel backend
  | .readState => do
      let state ← readState kernel backend
      return .state state
  | .publish publication => do
      let head ← publish kernel backend publication
      return .head head
  | .publishThen publication => do
      let result ← publishThen kernel backend publication
      return .guarded result
  | .putDatum object => do
      let reference ← putDatum kernel backend object
      return .reference reference
  | .getDatum meaning => do
      let datum ← getDatum kernel meaning
      return .datum datum
  | .rebuildDatumIndex => do
      let references ← rebuildDatumIndex kernel backend
      return .references references
  | .verifiedSnapshot => do
      let snapshot ← verifiedSnapshot kernel (readState kernel backend)
      return .snapshot snapshot

/-- How a call goes on after a round of the lease loop. -/
def resumeProgram (backend : HostDirJournalBackend) :
    Outcome → Option (HostProgram Outcome)
  | .again => some (acquireAgain kernel backend)
  | _ => none

end Calls

end SimStorage.Journal.Host
