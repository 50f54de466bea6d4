import SimStorage.Journal.DatumOrder

namespace SimStorage.Journal

/-!
# Journal entries and objects

An entry is identified by the content identity of its canonical datum.  An
object pairs a datum with its content identity and a byte projection, and is
stored in an envelope whose storage identity is the digest of its exact bytes.
-/

open Codec

/-- `JournalHead`: the append position. -/
structure JournalHead where
  sequence : UInt64
  entry : ContentId
  deriving Repr, DecidableEq

/-- `Lease`: a writer generation. -/
structure Lease where
  fence : UInt64
  deriving Repr, DecidableEq

/-- `JournalEntry`: one immutable journal fact. -/
structure JournalEntry where
  id : ContentId
  sequence : UInt64
  previous : Option ContentId
  kind : Symbol
  payloads : List ContentId
  deriving Repr, DecidableEq

/-- `id_datum`. -/
def idDatum (id : ContentId) : Datum :=
  .node (.qualified "journal" "content-id-v1")
    [(.new "algorithm", .symbol id.algorithm),
      (.new "digest", .bytes id.digest.val)]

/-- The `previous` field of an entry's datum. -/
def previousDatum : Option ContentId → Datum
  | some id => idDatum id
  | none => .nil

/-- `u64::to_string`. -/
def decimal (value : UInt64) : String :=
  toString value.toNat

namespace JournalEntry

/-- `JournalEntry::canonical_datum`. -/
def canonicalDatum (entry : JournalEntry) : Datum :=
  .node (.qualified "journal" "entry-v2")
    [(.new "sequence",
        .number ⟨.qualified "numbers" "u64", decimal entry.sequence⟩),
      (.new "previous", previousDatum entry.previous),
      (.new "kind", .symbol entry.kind),
      (.new "payloads", .vector (entry.payloads.map idDatum))]

variable (kernel : Kernel)

/-- `JournalEntry::canonical_id`. -/
def canonicalId (entry : JournalEntry) : Result ContentId :=
  okOr (kernel.contentId entry.canonicalDatum) .corruptEntry

/-- The placeholder identity of an entry under construction. -/
def unset : ContentId where
  algorithm := .new "unset"
  digest := ⟨List.replicate 32 0, rfl⟩

/-- `JournalEntry::new`. -/
def new
    (sequence : UInt64)
    (previous : Option ContentId)
    (kind : Symbol)
    (payloads : List ContentId) : Result JournalEntry :=
  match kernel.contentId
      (canonicalDatum ⟨unset, sequence, previous, kind, payloads⟩) with
  | some id => .ok ⟨id, sequence, previous, kind, payloads⟩
  | none => panicWith "journal entry construction is canonical"

/-- The head that an entry makes. -/
def head (entry : JournalEntry) : JournalHead where
  sequence := entry.sequence
  entry := entry.id

/-- The identity field is the content identity of the other fields. -/
def Genuine (entry : JournalEntry) : Prop :=
  kernel.contentId entry.canonicalDatum = some entry.id

instance (entry : JournalEntry) : Decidable (entry.Genuine kernel) :=
  inferInstanceAs (Decidable (_ = _))

variable {kernel}

theorem canonicalId_eq_ok
    {entry : JournalEntry}
    {id : ContentId} :
    entry.canonicalId kernel = .ok id ↔
      kernel.contentId entry.canonicalDatum = some id := by
  simp [canonicalId]

/-- A constructed entry is genuine and has the given fields. -/
theorem new_eq_ok
    {sequence : UInt64} {previous : Option ContentId} {kind : Symbol}
    {payloads : List ContentId} {entry : JournalEntry}
    (made : new kernel sequence previous kind payloads = .ok entry) :
    entry.Genuine kernel ∧ entry.sequence = sequence ∧
      entry.previous = previous ∧ entry.kind = kind ∧
      entry.payloads = payloads := by
  unfold new at made
  split at made
  · next id found =>
      cases made
      exact ⟨found, rfl, rfl, rfl, rfl⟩
  · cases made

end JournalEntry

/-- `exact_bytes`: the bytes of a tagged exact-byte value. -/
def exactBytes : Datum → Option Bytes
  | .node tag fields =>
      if tag ≠ .qualified "journal" "exact-bytes-v1" ∨ fields.length ≠ 1 then
        none
      else
        match fields with
        | (name, .bytes bytes) :: _ =>
            if name = .new "bytes" then some bytes else none
        | _ => none
  | _ => none

/-- The tagged exact-byte value. -/
def exactDatum (bytes : Bytes) : Datum :=
  .node (.qualified "journal" "exact-bytes-v1") [(.new "bytes", .bytes bytes)]

@[simp] theorem exactBytes_exactDatum
    (bytes : Bytes) :
    exactBytes (exactDatum bytes) = some bytes := by
  simp [exactDatum, exactBytes]

/-- Rearranging a byte leaf changes nothing. -/
private theorem bytes_of_rearranged
    {first second : Datum}
    (same : Rearranged first second) :
    ∀ bytes, first = .bytes bytes ↔ second = .bytes bytes := by
  induction same with
  | refl value => exact fun _ => Iff.rfl
  | symm _ inductionHypothesis =>
      exact fun bytes => (inductionHypothesis bytes).symm
  | trans _ _ leading trailing =>
      exact fun bytes => (leading bytes).trans (trailing bytes)
  | _ => simp

private theorem exactBytes_field
    {tag name : Symbol} {first second : Datum}
    (alike : ∀ bytes, first = .bytes bytes ↔ second = .bytes bytes) :
    exactBytes (.node tag [(name, first)]) =
      exactBytes (.node tag [(name, second)]) := by
  by_cases leaf : ∃ bytes, first = .bytes bytes
  · obtain ⟨bytes, found⟩ := leaf
    rw [found, (alike bytes).mp found]
  · have other : ¬ ∃ bytes, second = .bytes bytes := by
      rintro ⟨bytes, found⟩
      exact leaf ⟨bytes, (alike bytes).mpr found⟩
    have none_of : ∀ value : Datum, (¬ ∃ bytes, value = .bytes bytes) →
        exactBytes (.node tag [(name, value)]) = none := by
      intro value notBytes
      cases value <;> simp_all [exactBytes]
    rw [none_of first leaf, none_of second other]

/-- The exact-byte projection does not depend on the order of parts. -/
theorem exactBytes_rearranged
    {first second : Datum}
    (same : Rearranged first second) :
    exactBytes first = exactBytes second := by
  induction same with
  | refl value => rfl
  | symm _ inductionHypothesis => exact inductionHypothesis.symm
  | trans _ _ leading trailing => exact leading.trans trailing
  | nodeField tag name before after inner _ =>
      by_cases single : before = [] ∧ after = []
      · obtain ⟨rfl, rfl⟩ := single
        exact exactBytes_field (bytes_of_rearranged inner)
      · have long : ∀ value : Datum,
            (before ++ (name, value) :: after).length ≠ 1 := by
          intro value short
          refine single ?_
          simp only [List.length_append, List.length_cons] at short
          exact ⟨List.eq_nil_of_length_eq_zero (by omega),
            List.eq_nil_of_length_eq_zero (by omega)⟩
        simp only [exactBytes, long, ne_eq, not_false_eq_true, or_true, if_true]
  | @nodeOrder first second tag permuted =>
      by_cases single : first.length = 1
      · obtain ⟨field, rfl⟩ := List.length_eq_one_iff.mp single
        rw [List.perm_singleton.mp permuted.symm]
      · have other : second.length ≠ 1 := permuted.length_eq ▸ single
        simp only [exactBytes, single, other, ne_eq, not_false_eq_true,
          or_true, if_true]
  | _ => rfl

/-- `JournalObject`: a datum, its identity and its byte projection. -/
structure JournalObject where
  id : ContentId
  bytes : Bytes
  datum : Datum

/-- `storage_id`: the identity of exact bytes. -/
def storageId (kernel : Kernel) (bytes : Bytes) : ContentId where
  algorithm := .qualified "journal" "sha256-storage-v1"
  digest := kernel.sha256 bytes

/-- `StoredDatumRef`: a meaning and the identity of its stored bytes. -/
structure StoredDatumRef where
  meaning : ContentId
  storage : ContentId
  deriving Repr, DecidableEq

namespace JournalObject

variable (kernel : Kernel)

/-- `JournalObject::from_bytes`. -/
def fromBytes (bytes : Bytes) : Result JournalObject :=
  match kernel.contentId (exactDatum bytes) with
  | some id => .ok ⟨id, bytes, exactDatum bytes⟩
  | none => panicWith "exact byte payload is a canonical datum"

/-- `JournalObject::from_datum`. -/
def fromDatum (datum : Datum) : Result JournalObject := do
  let id ← okOr (kernel.contentId datum) .nonCanonicalDatum
  -- The encoding is computed, and may fail, even when it is not used.
  let encoded ← DatumCodec.encode kernel datum
  return ⟨id, (exactBytes datum).getD encoded, datum⟩

/-- `JournalObject::verify`. -/
def verify (object : JournalObject) : Result Unit := do
  let id ← okOr (kernel.contentId object.datum) .nonCanonicalDatum
  if id ≠ object.id then
    refuse (.corruptObject object.id)
  else
    match exactBytes object.datum with
    | some exact =>
        if exact ≠ object.bytes then
          refuse (.corruptObject object.id)
        else
          .ok ()
    | none => do
        let encoded ← DatumCodec.encode kernel object.datum
        if encoded ≠ object.bytes then
          refuse (.corruptObject object.id)
        else
          .ok ()

/-- The leading bytes of a stored object. -/
def storageMagic : Bytes :=
  utf8 "SIMJOBJECT2"

/-- `JournalObject::storage_bytes`. -/
def storageBytes (object : JournalObject) : Result Bytes := do
  let encoded ← DatumCodec.encode kernel object.datum
  finishBytes
    (storageMagic ++ (be64 (UInt64.ofNat encoded.length) ++ encoded))

/-- `JournalObject::from_storage_bytes`. -/
def fromStorageBytes (bytes : Bytes) : Result JournalObject := do
  if bytes.length < 19 ∨ bytes.take 11 ≠ storageMagic then
    refuse (.corruptState "object format")
  else
    let length := (fromBe64 ((bytes.drop 11).take 8)).toNat
    let encoded := bytes.drop 19
    if encoded.length ≠ length then
      refuse (.corruptState "object length")
    else do
      let datum ← DatumCodec.decode kernel encoded
      let object ← fromDatum kernel datum
      let exact : JournalObject :=
        { object with bytes := (exactBytes object.datum).getD object.bytes }
      verify kernel exact
      return exact

/--
An object whose parts agree: its identity is its datum's, its datum has an
encoding, and its byte projection is the exact bytes or the encoding.
-/
structure Sound (object : JournalObject) : Prop where
  identity : kernel.contentId object.datum = some object.id
  projection : ∃ encoded,
    DatumCodec.encode kernel object.datum = .ok encoded ∧
      object.bytes = (exactBytes object.datum).getD encoded

variable {kernel} {object : JournalObject}

/-- Construction from a datum gives exactly the sound object. -/
theorem fromDatum_eq_ok
    {datum : Datum} :
    fromDatum kernel datum = .ok object ↔
      object.datum = datum ∧ Sound kernel object := by
  constructor
  · intro made
    obtain ⟨id, found, rest⟩ := bind_eq_ok.mp made
    obtain ⟨encoded, put, made⟩ := bind_eq_ok.mp rest
    cases made
    exact ⟨rfl, okOr_eq_ok.mp found, encoded, put, rfl⟩
  · rcases object with ⟨id, bytes, _⟩
    rintro ⟨rfl, identity, encoded, put, projection⟩
    change bytes = _ at projection
    refine bind_eq_ok.mpr ⟨id, okOr_eq_ok.mpr identity, ?_⟩
    refine bind_eq_ok.mpr ⟨encoded, put, ?_⟩
    rw [projection]
    rfl

/-- A sound object passes its own check. -/
theorem Sound.verify
    (sound : Sound kernel object) :
    object.verify kernel = .ok () := by
  obtain ⟨encoded, put, projection⟩ := sound.projection
  refine bind_eq_ok.mpr ⟨object.id, okOr_eq_ok.mpr sound.identity, ?_⟩
  cases exact : exactBytes object.datum with
  | none => simp [put, projection, exact, bind, Except.bind]
  | some bytes => simp [projection, exact]

/-- An object that passes its check and has an encoding is sound. -/
theorem sound_of_verify
    {encoded : Bytes}
    (verified : object.verify kernel = .ok ())
    (put : DatumCodec.encode kernel object.datum = .ok encoded) :
    Sound kernel object := by
  obtain ⟨id, found, rest⟩ := bind_eq_ok.mp verified
  by_cases same : id = object.id
  · subst same
    refine ⟨okOr_eq_ok.mp found, encoded, put, ?_⟩
    simp only [ne_eq, not_true_eq_false, if_false] at rest
    cases exact : exactBytes object.datum with
    | none =>
        simp only [exact, put, bind, Except.bind] at rest
        by_cases equal : encoded = object.bytes
        · simp [equal]
        · simp [equal, refuse] at rest
    | some bytes =>
        simp only [exact] at rest
        by_cases equal : bytes = object.bytes
        · simp [equal]
        · simp [equal, refuse] at rest
  · simp [same, refuse] at rest

/-- An object whose storage bytes exist and which passes its check is sound. -/
theorem sound_of_storageBytes
    {stored : Bytes}
    (verified : object.verify kernel = .ok ())
    (put : object.storageBytes kernel = .ok stored) :
    Sound kernel object := by
  obtain ⟨encoded, found, _⟩ := bind_eq_ok.mp put
  exact sound_of_verify verified found

/-- Sound objects of rearranged datums have the same bytes and identity. -/
theorem Sound.rearranged
    (lawful : kernel.Lawful)
    {other : JournalObject}
    (sound : Sound kernel object)
    (otherSound : Sound kernel other)
    (same : Rearranged object.datum other.datum) :
    object.id = other.id ∧ object.bytes = other.bytes := by
  obtain ⟨encoded, put, projection⟩ := sound.projection
  obtain ⟨otherEncoded, otherPut, otherProjection⟩ := otherSound.projection
  constructor
  · have identity := lawful.contentId_rearranged same
    rw [sound.identity, otherSound.identity] at identity
    exact Option.some.inj identity
  · have moved := DatumCodec.encode_rearranged lawful same put
    rw [otherPut] at moved
    cases moved
    rw [projection, otherProjection, exactBytes_rearranged same]

/-- Rearranged datums are stored alike. -/
theorem storageBytes_rearranged
    (lawful : kernel.Lawful)
    {other : JournalObject} {stored : Bytes}
    (same : Rearranged object.datum other.datum)
    (put : object.storageBytes kernel = .ok stored) :
    other.storageBytes kernel = .ok stored := by
  obtain ⟨encoded, found, finished⟩ := bind_eq_ok.mp put
  have moved := DatumCodec.encode_rearranged lawful same found
  exact bind_eq_ok.mpr ⟨encoded, moved, finished⟩

/-- The object read back from storage: the datum in the codec's order. -/
def stored (kernel : Kernel) (object : JournalObject) : JournalObject :=
  { object with datum := DatumCodec.arranged kernel object.datum }

/-- The object read back from storage is sound. -/
theorem Sound.stored
    (lawful : kernel.Lawful)
    (sound : Sound kernel object) :
    Sound kernel (object.stored kernel) := by
  have same := DatumCodec.rearranged_arranged kernel object.datum
  obtain ⟨encoded, put, projection⟩ := sound.projection
  refine ⟨?_, encoded, DatumCodec.encode_rearranged lawful same put, ?_⟩
  · exact (lawful.contentId_rearranged same).symm.trans sound.identity
  · change object.bytes =
      (exactBytes (DatumCodec.arranged kernel object.datum)).getD encoded
    rw [← exactBytes_rearranged same]
    exact projection

/-- What is read from storage bytes is sound. -/
theorem sound_of_fromStorageBytes
    {bytes : Bytes}
    (read : fromStorageBytes kernel bytes = .ok object) :
    Sound kernel object := by
  unfold fromStorageBytes at read
  split at read
  · cases read
  simp only at read
  split at read
  · cases read
  obtain ⟨datum, _, read⟩ := bind_eq_ok.mp read
  obtain ⟨made, parts, read⟩ := bind_eq_ok.mp read
  obtain ⟨_, _, read⟩ := bind_eq_ok.mp read
  cases read
  obtain ⟨_, identity, encoded, put, projection⟩ := fromDatum_eq_ok.mp parts
  refine ⟨identity, encoded, put, ?_⟩
  change (exactBytes made.datum).getD made.bytes = _
  rw [projection]
  cases exactBytes made.datum <;> rfl

/-- Reading the storage bytes of a sound object gives it back. -/
theorem fromStorageBytes_storageBytes
    (lawful : kernel.Lawful)
    {bytes : Bytes}
    (sound : Sound kernel object)
    (put : object.storageBytes kernel = .ok bytes) :
    fromStorageBytes kernel bytes = .ok (object.stored kernel) := by
  obtain ⟨encoded, found, finished⟩ := bind_eq_ok.mp put
  obtain ⟨rfl, small⟩ := finishBytes_eq_ok.mp finished
  have storedSound := sound.stored lawful
  have decoded := DatumCodec.decode_encode lawful found
  have made := fromDatum_eq_ok.mpr ⟨rfl, storedSound⟩
  have exactAgain :
      (exactBytes (object.stored kernel).datum).getD
        (object.stored kernel).bytes = (object.stored kernel).bytes := by
    obtain ⟨again, _, projection⟩ := storedSound.projection
    rw [projection]
    cases exactBytes (object.stored kernel).datum <;> rfl
  have inWord : encoded.length < 2 ^ 64 := by
    simp only [List.length_append, isizeMax] at small
    omega
  have length : (fromBe64 (be64 (UInt64.ofNat encoded.length))).toNat =
      encoded.length := by
    rw [fromBe64_be64]
    exact UInt64.toNat_ofNat_of_lt inWord
  have sizeLength : (be64 (UInt64.ofNat encoded.length)).length = 8 :=
    be64_length _
  generalize be64 (UInt64.ofNat encoded.length) = size at length sizeLength
  have magicLength : storageMagic.length = 11 := rfl
  have leading :
      (storageMagic ++ (size ++ encoded)).take 11 = storageMagic :=
    List.take_left' magicLength
  have middle :
      ((storageMagic ++ (size ++ encoded)).drop 11).take 8 = size := by
    rw [List.drop_left' magicLength]
    exact List.take_left' sizeLength
  have trailing :
      (storageMagic ++ (size ++ encoded)).drop 19 = encoded := by
    rw [← List.append_assoc]
    exact List.drop_left' (by simp [magicLength, sizeLength])
  have long : ¬ (storageMagic ++ (size ++ encoded)).length < 19 := by
    simp only [List.length_append, magicLength, sizeLength]
    omega
  unfold fromStorageBytes
  simp only [long, leading, middle, trailing, length, ne_eq,
    not_true_eq_false, or_self, if_false]
  refine bind_eq_ok.mpr ⟨_, decoded, ?_⟩
  refine bind_eq_ok.mpr ⟨object.stored kernel, made, ?_⟩
  rw [exactAgain]
  exact bind_eq_ok.mpr ⟨(), storedSound.verify, rfl⟩

end JournalObject

end SimStorage.Journal
