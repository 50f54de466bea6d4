import SimStorage.Journal.Log

namespace SimStorage.Journal

/-!
# The native codec

The physical records of the host journal: the state envelope, the prefix
descriptor, entry leaves of both formats, and the paths at which leaves live.
-/

open Codec

/-- `BackendCapabilities`: the evidence for safe writes. -/
structure BackendCapabilities where
  linearizableCas : Bool
  durablePublish : Bool
  deriving Repr, DecidableEq

/-- `NativeFormatId`. -/
inductive NativeFormatId where
  | v1
  | v2
  deriving Repr, DecidableEq

/-- `EntryNamespace`: the routing token of one v2 entry namespace. -/
structure EntryNamespace where
  token : String
  deriving Repr, DecidableEq

/-- `EntryLocation`: the locator of a v2 entry leaf. -/
structure EntryLocation where
  entryNamespace : EntryNamespace
  sequence : UInt64
  entry : ContentId
  storage : ContentId
  deriving Repr, DecidableEq

/-- `VerifiedNativePrefixRef`: the reference to a v1 prefix. -/
structure VerifiedNativePrefixRef where
  entries : UInt64
  physicalHead : JournalHead
  canonicalHead : JournalHead
  descriptor : ContentId
  deriving Repr, DecidableEq

/-- `NativeStateEnvelope`: the physical state that the state leaf selects. -/
structure NativeStateEnvelope where
  format : NativeFormatId
  fence : UInt64
  entryNamespace : EntryNamespace
  prefixRef : Option VerifiedNativePrefixRef
  head : Option JournalHead
  headLocation : Option EntryLocation
  deriving Repr, DecidableEq

/-- `Failpoint`. -/
inductive Failpoint where
  | beforePrefixDescriptor
  | afterPrefixDescriptor
  | afterNamespaceReservation
  | beforeFormatCas
  | afterFormatCas
  | beforeObjectPublish
  | afterObjectPublish
  | afterDurabilityReceipt
  | beforeCas
  | afterCas
  | beforeAcknowledgement
  deriving Repr, DecidableEq

/-- `Failpoint::label`. -/
def Failpoint.label : Failpoint → String
  | .beforePrefixDescriptor => "before-prefix-descriptor"
  | .afterPrefixDescriptor => "after-prefix-descriptor"
  | .afterNamespaceReservation => "after-namespace-reservation"
  | .beforeFormatCas => "before-format-cas"
  | .afterFormatCas => "after-format-cas"
  | .beforeObjectPublish => "before-object-publish"
  | .afterObjectPublish => "after-object-publish"
  | .afterDurabilityReceipt => "after-durability-receipt"
  | .beforeCas => "before-cas"
  | .afterCas => "after-cas"
  | .beforeAcknowledgement => "before-acknowledgement"

/-- `PhysicalEntry`: what a v2 entry leaf holds. -/
structure PhysicalEntry where
  entry : JournalEntry
  previousLocation : Option EntryLocation
  payloads : List StoredDatumRef
  deriving Repr, DecidableEq

/-- `V1Entry`: what a v1 entry leaf holds. -/
structure V1Entry where
  id : ContentId
  sequence : UInt64
  previous : Option ContentId
  kind : Symbol
  payloads : List ContentId
  deriving Repr, DecidableEq

namespace NativeCodec

section Put

/-- `put_text`. -/
def putText (text : String) : Bytes :=
  be32 (UInt32.ofNat (utf8 text).length) ++ utf8 text

/-- `put_id`. -/
def putId (id : ContentId) : Bytes :=
  putText id.algorithm.asQualifiedStr ++ id.digest.val

/-- `put_head`. -/
def putHead (head : JournalHead) : Bytes :=
  be64 head.sequence ++ putId head.entry

/-- `put_optional_head`. -/
def putOptionalHead : Option JournalHead → Bytes
  | some head => 1 :: putHead head
  | none => [0]

/-- `put_optional_location`. -/
def putOptionalLocation : Option EntryLocation → Bytes
  | some location =>
      1 :: (putText location.entryNamespace.token ++
        (be64 location.sequence ++
          (putId location.entry ++ putId location.storage)))
  | none => [0]

/-- The prefix of an envelope. -/
def putPrefix : Option VerifiedNativePrefixRef → Bytes
  | some reference =>
      1 :: (be64 reference.entries ++
        (putHead reference.physicalHead ++
          (putHead reference.canonicalHead ++ putId reference.descriptor)))
  | none => [0]

/-- `put_v1_symbol_hash`. -/
def putV1SymbolHash (symbol : Symbol) : Bytes :=
  let text := utf8 symbol.asQualifiedStr
  be64 (UInt64.ofNat text.length) ++ text

/-- `put_v1_id_hash`. -/
def putV1IdHash (id : ContentId) : Bytes :=
  putV1SymbolHash id.algorithm ++ id.digest.val

/-- `put_v1_optional_id_hash`. -/
def putV1OptionalIdHash : Option ContentId → Bytes
  | some id => 1 :: putV1IdHash id
  | none => [0]

end Put

/-- The leading bytes of a v1 state leaf. -/
def stateMagic1 : Bytes := utf8 "SIMJSTATE1"

/-- The leading bytes of a v2 state leaf. -/
def stateMagic2 : Bytes := utf8 "SIMJSTATE2"

/-- The leading bytes of a prefix descriptor. -/
def prefixMagic : Bytes := utf8 "SIMJPREFIX1"

/-- The leading bytes of a v1 entry leaf. -/
def entryMagic1 : Bytes := utf8 "SIMJENTRY1"

/-- The leading bytes of a v2 entry leaf. -/
def entryMagic2 : Bytes := utf8 "SIMJENTRY2"

/-- The bytes of a namespace marker. -/
def namespaceMagic : Bytes := utf8 "SIMJNAMESPACE2"

/-- `encode_envelope`. -/
def encodeEnvelope (value : NativeStateEnvelope) : Bytes :=
  stateMagic2 ++
    (be64 value.fence ++
      (putText value.entryNamespace.token ++
        (putPrefix value.prefixRef ++
          (putOptionalHead value.head ++
            putOptionalLocation value.headLocation))))

/-- `encode_descriptor`. -/
def encodeDescriptor (oldState : Bytes) (canonicalHead : JournalHead) : Bytes :=
  prefixMagic ++
    (be64 (UInt64.ofNat oldState.length) ++
      (oldState ++ putHead canonicalHead))

variable (kernel : Kernel)

/-- `V1Entry::canonical_id`. -/
def v1CanonicalId (entry : V1Entry) : ContentId where
  algorithm := .qualified "journal" "sha256-entry-v1"
  digest := kernel.sha256
    (utf8 "sim-journal-entry-v1" ++ 0 ::
      (be64 entry.sequence ++
        (putV1OptionalIdHash entry.previous ++
          (putV1SymbolHash entry.kind ++
            (be64 (UInt64.ofNat entry.payloads.length) ++
              entry.payloads.flatMap putV1IdHash)))))

/-- `v1_object_id`. -/
def v1ObjectId (bytes : Bytes) : ContentId where
  algorithm := .qualified "journal" "sha256-bytes-v1"
  digest := kernel.sha256 bytes

/-- `put_id` of both identities of a reference. -/
def putReference (reference : StoredDatumRef) : Bytes :=
  putId reference.meaning ++ putId reference.storage

/-- `datum_codec::encode(..).expect("canonical entry datum encodes")`. -/
def encodeEntryDatum (entry : JournalEntry) : Result Bytes :=
  match DatumCodec.encode kernel entry.canonicalDatum with
  | .ok bytes => .ok bytes
  | .error _ => panicWith "canonical entry datum encodes"

/-- `encode_v2_entry`. -/
def encodeV2Entry (value : PhysicalEntry) : Result Bytes := do
  let datum ← encodeEntryDatum kernel value.entry
  finishBytes
    (entryMagic2 ++
      (be64 (UInt64.ofNat datum.length) ++
        (datum ++
          (putOptionalLocation value.previousLocation ++
            (be64 (UInt64.ofNat value.payloads.length) ++
              (value.payloads.map putReference).flatten)))))

/-- The in-memory size of a content identity. -/
def contentIdSize : Nat :=
  kernel.symbolSize + 32

/-- `Vec::with_capacity` for stored references. -/
def referenceCapacity (count : Nat) : Result Unit :=
  withCapacity (2 * contentIdSize kernel) count

/-- `Vec::with_capacity` for content identities. -/
def idCapacity (count : Nat) : Result Unit :=
  withCapacity (contentIdSize kernel) count

/-- `parse_symbol`. -/
def parseSymbol (text : String) : Result Symbol :=
  match splitOnce '/' text with
  | some (space, name) =>
      if space ≠ "" ∧ name ≠ "" then
        .ok (.qualified space name)
      else
        refuse (.corruptState "symbol")
  | none => okOr (kernel.checked text) (.corruptState "symbol")

/-- `<[u8; 32]>::try_from`. -/
def digestOf (error : JournalError) (bytes : Bytes) : Result Digest :=
  if size : bytes.length = 32 then .ok ⟨bytes, size⟩ else refuse error

/-- A reader of the native format. -/
abbrev Reader := Decoder Fault

/-- Report corrupt state. -/
def corrupt (message : String) : Fault :=
  .refused (.corruptState message)

/-- `Cursor::take`. -/
def take (length : Nat) : Reader Bytes :=
  Decoder.take (corrupt "length") (corrupt "truncated") length

/-- `Cursor::byte`. -/
def byte : Reader UInt8 := do
  let bytes ← take 1
  return bytes.headD 0

/-- `Cursor::u32`. -/
def u32 : Reader UInt32 := do
  let bytes ← take 4
  return fromBe32 bytes

/-- `Cursor::u64`. -/
def u64 : Reader UInt64 := do
  let bytes ← take 8
  return fromBe64 bytes

/-- `Cursor::text`. -/
def text : Reader String := do
  let length ← u32
  let bytes ← take length.toNat
  Decoder.lift (okOr (fromUtf8 bytes) (.corruptState "utf8"))

/-- `Cursor::id`. -/
def id : Reader ContentId := do
  let name ← text
  let algorithm ← Decoder.lift (parseSymbol kernel name)
  let bytes ← take 32
  let digest ← Decoder.lift (digestOf (.corruptState "id") bytes)
  return ⟨algorithm, digest⟩

/-- `Cursor::head`. -/
def head : Reader JournalHead := do
  let sequence ← u64
  let entry ← id kernel
  return ⟨sequence, entry⟩

/-- A tagged optional value. -/
def optional {τ : Type} (message : String) (item : Reader τ) :
    Reader (Option τ) := do
  let tag ← byte
  if tag = 0 then
    return none
  else if tag = 1 then do
    let value ← item
    return some value
  else
    Decoder.fail (corrupt message)

/-- `Cursor::optional_head`. -/
def optionalHead : Reader (Option JournalHead) :=
  optional "head tag" (head kernel)

/-- The fields of a location. -/
def location : Reader EntryLocation := do
  let name ← text
  let sequence ← u64
  let entry ← id kernel
  let storage ← id kernel
  return ⟨⟨name⟩, sequence, entry, storage⟩

/-- `Cursor::optional_location`. -/
def optionalLocation : Reader (Option EntryLocation) :=
  optional "location tag" (location kernel)

/-- The fields of a prefix reference. -/
def prefixReference : Reader VerifiedNativePrefixRef := do
  let entries ← u64
  let physicalHead ← head kernel
  let canonicalHead ← head kernel
  let descriptor ← id kernel
  return ⟨entries, physicalHead, canonicalHead, descriptor⟩

/-- `Cursor::end`. -/
def finish : Reader Unit :=
  Decoder.finish (corrupt "trailing bytes")

/-- The check of a record's leading bytes. -/
def checkMagic (magic found : Bytes) (message : String) : Result Unit :=
  if found = magic then .ok () else .error (corrupt message)

/-- A head without a prefix needs a locator. -/
def checkLocator (envelope : NativeStateEnvelope) :
    Result NativeStateEnvelope :=
  if envelope.prefixRef.isNone ∧ envelope.head.isSome ∧
      envelope.headLocation.isNone then
    refuse (.corruptState "head without locator")
  else
    .ok envelope

/-- The fields of an envelope. -/
def envelope : Reader NativeStateEnvelope := do
  let magic ← take 10
  Decoder.lift (checkMagic stateMagic2 magic "state format")
  let fence ← u64
  let name ← text
  let reference ← optional "prefix tag" (prefixReference kernel)
  let head ← optionalHead kernel
  let headLocation ← optionalLocation kernel
  return ⟨.v2, fence, ⟨name⟩, reference, head, headLocation⟩

/-- `decode_envelope`. -/
def decodeEnvelope (bytes : Bytes) : Result NativeStateEnvelope :=
  Decoder.run (show Reader NativeStateEnvelope from do
    let found ← envelope kernel
    finish
    Decoder.lift (checkLocator found)) bytes

/-- The fields of a prefix descriptor. -/
def descriptor : Reader (Bytes × JournalHead) := do
  let magic ← take 11
  Decoder.lift (checkMagic prefixMagic magic "prefix descriptor")
  let length ← u64
  let state ← take length.toNat
  let canonicalHead ← head kernel
  return (state, canonicalHead)

/-- `decode_descriptor`. -/
def decodeDescriptor (bytes : Bytes) : Result (Bytes × JournalHead) :=
  Decoder.run (show Reader (Bytes × JournalHead) from do
    let found ← descriptor kernel
    finish
    return found) bytes

/-- The fields of a v1 state leaf. -/
def v1State : Reader (UInt64 × Option JournalHead) := do
  let magic ← take 10
  Decoder.lift (checkMagic stateMagic1 magic "state format")
  let fence ← u64
  let head ← optionalHead kernel
  return (fence, head)

/-- `decode_v1_state`. -/
def decodeV1State (bytes : Bytes) : Result (UInt64 × Option JournalHead) :=
  Decoder.run (show Reader (UInt64 × Option JournalHead) from do
    let found ← v1State kernel
    finish
    return found) bytes

/-- The fields of a v1 entry leaf. -/
def v1Entry : Reader V1Entry := do
  let magic ← take 10
  Decoder.lift (checkMagic entryMagic1 magic "entry format")
  let entryId ← id kernel
  let sequence ← u64
  let previous ← optional "entry tag" (id kernel)
  let name ← text
  let kind ← Decoder.lift (parseSymbol kernel name)
  let count ← u32
  Decoder.lift (idCapacity kernel count.toNat)
  let payloads ← Decoder.many (id kernel) count.toNat
  return ⟨entryId, sequence, previous, kind, payloads⟩

/-- `decode_v1_entry`. -/
def decodeV1Entry (bytes : Bytes) : Result V1Entry :=
  Decoder.run (show Reader V1Entry from do
    let found ← v1Entry kernel
    finish
    return found) bytes

/-- The digits after an optional plus sign. -/
def unsignedDigits : List Char → List Char
  | '+' :: rest => rest
  | digits => digits

/-- `str::parse::<u64>`: an optional plus sign and decimal digits. -/
def parseU64 (text : String) : Option UInt64 :=
  let digits := unsignedDigits text.toList
  if digits = [] ∨ ¬ digits.all Char.isDigit then
    none
  else
    let value := Nat.ofDigitChars 10 digits 0
    if value < 2 ^ 64 then some (UInt64.ofNat value) else none

/-- The value of the first field with a name. -/
def fieldOf (fields : List (Symbol × Datum)) (name : String) : Option Datum :=
  (fields.find? fun field => field.1 = .new name).map Prod.snd

/-- `id_from_datum`. -/
def idFromDatum : Datum → Result ContentId
  | .node tag fields =>
      if tag ≠ .qualified "journal" "content-id-v1" ∨ fields.length ≠ 2 then
        refuse .corruptEntry
      else
        match fieldOf fields "algorithm", fieldOf fields "digest" with
        | some (.symbol algorithm), some (.bytes bytes) => do
            let digest ← digestOf .corruptEntry bytes
            return ⟨algorithm, digest⟩
        | _, _ => refuse .corruptEntry
  | _ => refuse .corruptEntry

/-- `id_from_datum` of every value of a list. -/
def idsFromDatums : List Datum → Result (List ContentId)
  | [] => .ok []
  | value :: rest => do
      let head ← idFromDatum value
      let tail ← idsFromDatums rest
      return head :: tail

/-- The `sequence` field of an entry datum. -/
def sequenceFromDatum : Datum → Result UInt64
  | .number number =>
      if number.domain = .qualified "numbers" "u64" then
        match parseU64 number.canonical with
        | some value =>
            if decimal value = number.canonical then
              .ok value
            else
              refuse .corruptEntry
        | none => refuse .corruptEntry
      else
        refuse .corruptEntry
  | _ => refuse .corruptEntry

/-- The `previous` field of an entry datum. -/
def previousFromDatum : Datum → Result (Option ContentId)
  | .nil => .ok none
  | value => do
      let id ← idFromDatum value
      return some id

/-- The `kind` field of an entry datum. -/
def kindFromDatum : Datum → Result Symbol
  | .symbol kind => .ok kind
  | _ => refuse .corruptEntry

/-- The `payloads` field of an entry datum. -/
def payloadsFromDatum : Datum → Result (List ContentId)
  | .vector values => idsFromDatums values
  | _ => refuse .corruptEntry

/-- The closing check of `entry_from_datum`. -/
def checkEntryId (entry : JournalEntry) : Result JournalEntry := do
  let id ← entry.canonicalId kernel
  if id ≠ entry.id then refuse .corruptEntry else return entry

/-- `entry_from_datum`. -/
def entryFromDatum (datum : Datum) : Result JournalEntry := do
  let id ← okOr (kernel.contentId datum) .corruptEntry
  match datum with
  | .node tag fields =>
      if tag ≠ .qualified "journal" "entry-v2" ∨ fields.length ≠ 4 then
        refuse .corruptEntry
      else do
        let sequenceField ← okOr (fieldOf fields "sequence") .corruptEntry
        let sequence ← sequenceFromDatum sequenceField
        let previousField ← okOr (fieldOf fields "previous") .corruptEntry
        let previous ← previousFromDatum previousField
        let kindField ← okOr (fieldOf fields "kind") .corruptEntry
        let kind ← kindFromDatum kindField
        let payloadsField ← okOr (fieldOf fields "payloads") .corruptEntry
        let payloads ← payloadsFromDatum payloadsField
        checkEntryId kernel ⟨id, sequence, previous, kind, payloads⟩
  | _ => refuse .corruptEntry

/-- One payload reference of an entry leaf. -/
def reference : Reader StoredDatumRef := do
  let meaning ← id kernel
  let storage ← id kernel
  return ⟨meaning, storage⟩

/-- The datum of an entry leaf. -/
def entryDatum : Reader JournalEntry := do
  let length ← u64
  let bytes ← take length.toNat
  let datum ← Decoder.lift (DatumCodec.decode kernel bytes)
  Decoder.lift (entryFromDatum kernel datum)

/-- The fields of a v2 entry leaf. -/
def v2Entry : Reader PhysicalEntry := do
  let magic ← take 10
  Decoder.lift (checkMagic entryMagic2 magic "entry format")
  let entry ← entryDatum kernel
  let previousLocation ← optionalLocation kernel
  let count ← u64
  Decoder.lift (referenceCapacity kernel count.toNat)
  let payloads ← Decoder.many (reference kernel) count.toNat
  return ⟨entry, previousLocation, payloads⟩

/-- `decode_v2_entry`. -/
def decodeV2Entry (bytes : Bytes) : Result PhysicalEntry :=
  Decoder.run (show Reader PhysicalEntry from do
    let found ← v2Entry kernel
    finish
    return found) bytes

section Paths

/-- A relative path of components. -/
abbrev Path := List String

/-- `id_key`. -/
def idKey (id : ContentId) : String :=
  hex (utf8 id.algorithm.asQualifiedStr) ++ "-" ++ hex id.digest.val

/-- `parse_id_key`. -/
def parseIdKey (text : String) : Result ContentId := do
  let (leading, trailing) ← okOr (splitOnce '-' text) (.corruptState "id path")
  let name ← okOr (unhex leading) (.corruptState "hex path")
  let spelled ← okOr (fromUtf8 name) (.corruptState "id path utf8")
  let bytes ← okOr (unhex trailing) (.corruptState "hex path")
  let digest ← digestOf (.corruptState "id path digest") bytes
  let algorithm ← parseSymbol kernel spelled
  return ⟨algorithm, digest⟩

/-- `format!("{:016x}")` of a sequence. -/
def hex16 (sequence : UInt64) : String :=
  hex (be64 sequence)

/-- The path of the state leaf. -/
def statePath : Path := ["state"]

/-- `namespace_root`. -/
def namespaceRoot (name : EntryNamespace) : Path :=
  ["namespaces-v2", name.token]

/-- The path of a namespace marker. -/
def markerPath (name : EntryNamespace) : Path :=
  namespaceRoot name ++ ["format"]

/-- The directory of a namespace's entries. -/
def entriesRoot (name : EntryNamespace) : Path :=
  namespaceRoot name ++ ["entries"]

/-- The directory of the entries with one sequence. -/
def sequenceDir (location : EntryLocation) : Path :=
  entriesRoot location.entryNamespace ++ [hex16 location.sequence]

/-- The directory of the leaves of one entry. -/
def entryDir (location : EntryLocation) : Path :=
  sequenceDir location ++ [idKey location.entry]

/-- `entry_path`. -/
def entryPath (location : EntryLocation) : Path :=
  entryDir location ++ [idKey location.storage]

/-- The directory of all objects. -/
def objectsRoot : Path := ["objects-v2"]

/-- The directory of the object with a meaning. -/
def objectDir (meaning : ContentId) : Path :=
  objectsRoot ++ [idKey meaning]

/-- `object_path`. -/
def objectPath (reference : StoredDatumRef) : Path :=
  objectDir reference.meaning ++ [idKey reference.storage]

/-- `descriptor_path`. -/
def descriptorPath (id : ContentId) : Path :=
  ["compat-v1", idKey id]

/-- `v1_entry_path`. -/
def v1EntryPath (sequence : UInt64) : Path :=
  ["entries", hex16 sequence]

/-- `v1_object_path`. -/
def v1ObjectPath (id : ContentId) : Path :=
  ["objects", hex id.digest.val]

end Paths

end NativeCodec

end SimStorage.Journal
