import SimStorage.Codec.Spelling
import SimStorage.Journal.HeadIdentity

namespace SimStorage.Journal.NativeCodec

/-!
# The native codecs are inverse to each other

Every byte of an envelope or of a descriptor that is read is determined by the
value, so what is decoded is encoded to the same bytes.  Together with the
round trips this makes the codecs inverse to each other.
-/

open Codec

variable {kernel : Kernel}

section Fields

theorem byte_spelling :
    Spelling byte fun value bytes => bytes = [value] := by
  refine .bind .take fun bytes _ ⟨same, sized⟩ => .pure ?_
  subst same
  obtain ⟨value, rfl⟩ := List.length_eq_one_iff.mp sized
  rfl

theorem u32_spelling :
    Spelling u32 fun value bytes => bytes = be32 value := by
  refine .bind .take fun bytes _ ⟨same, sized⟩ => .pure ?_
  subst same
  rw [List.append_nil, be32_fromBe32 sized]

theorem u64_spelling :
    Spelling u64 fun value bytes => bytes = be64 value := by
  refine .bind .take fun bytes _ ⟨same, sized⟩ => .pure ?_
  subst same
  rw [List.append_nil, be64_fromBe64 sized]

theorem text_spelling :
    Spelling text fun value bytes => bytes = putText value := by
  refine .bind u32_spelling fun length _ spelt => ?_
  subst spelt
  refine .bind .take fun bytes _ ⟨same, sized⟩ => .lift fun value accepted => ?_
  subst same
  have encoded := utf8_of_fromUtf8 (okOr_eq_ok.mp accepted)
  rw [putText, encoded, sized, List.append_nil]
  exact congrArg (be32 · ++ bytes) UInt32.ofNat_toNat.symm

theorem id_spelling :
    Spelling (id kernel) fun value bytes => bytes = putId value := by
  refine .bind text_spelling fun name _ spelt => ?_
  subst spelt
  refine .lift_bind fun algorithm parsed => ?_
  refine .bind .take fun bytes _ ⟨same, sized⟩ => ?_
  subst same
  refine .lift_bind fun digest checked => .pure ?_
  have value : digest.val = bytes := by
    unfold digestOf at checked
    rw [dif_pos sized] at checked
    rw [← Except.ok.inj checked]
  rw [putId, asQualifiedStr_of_parseSymbol parsed, value, List.append_nil]

theorem head_spelling :
    Spelling (head kernel) fun value bytes => bytes = putHead value := by
  refine .bind u64_spelling fun sequence _ spelt => ?_
  subst spelt
  refine .bind id_spelling fun entry _ spelt => .pure ?_
  subst spelt
  rw [putHead, List.append_nil]

/-- A tagged value is spelt by its tag and by what the value is spelt by. -/
theorem optional_spelling
    {τ : Type} {item : Reader τ} {message : String}
    {relation : τ → Bytes → Prop} {final : Option τ → Bytes → Prop}
    (absent : final none [0])
    (present : ∀ value bytes, relation value bytes →
      final (some value) (1 :: bytes))
    (spelling : Spelling item relation) :
    Spelling (optional message item) final := by
  refine .bind byte_spelling fun tag _ spelt => ?_
  subst spelt
  by_cases none : tag = 0
  · subst none
    exact .pure absent
  rw [if_neg none]
  by_cases one : tag = 1
  · subst one
    rw [if_pos rfl]
    refine .bind spelling fun value bytes related => .pure ?_
    rw [List.append_nil]
    exact present value bytes related
  · rw [if_neg one]
    exact .fail _

theorem optionalHead_spelling :
    Spelling (optionalHead kernel)
      fun value bytes => bytes = putOptionalHead value := by
  refine optional_spelling rfl ?_ head_spelling
  rintro value _ rfl
  rfl

theorem location_spelling :
    Spelling (location kernel) fun value bytes =>
      bytes = putText value.entryNamespace.token ++
        (be64 value.sequence ++ (putId value.entry ++ putId value.storage)) := by
  refine .bind text_spelling fun name _ spelt => ?_
  subst spelt
  refine .bind u64_spelling fun sequence _ spelt => ?_
  subst spelt
  refine .bind id_spelling fun entry _ spelt => ?_
  subst spelt
  refine .bind id_spelling fun storage _ spelt => .pure ?_
  subst spelt
  rw [List.append_nil]

theorem optionalLocation_spelling :
    Spelling (optionalLocation kernel)
      fun value bytes => bytes = putOptionalLocation value := by
  refine optional_spelling rfl ?_ location_spelling
  rintro value _ rfl
  rfl

theorem prefixReference_spelling :
    Spelling (prefixReference kernel) fun value bytes =>
      bytes = be64 value.entries ++
        (putHead value.physicalHead ++
          (putHead value.canonicalHead ++ putId value.descriptor)) := by
  refine .bind u64_spelling fun entries _ spelt => ?_
  subst spelt
  refine .bind head_spelling fun physicalHead _ spelt => ?_
  subst spelt
  refine .bind head_spelling fun canonicalHead _ spelt => ?_
  subst spelt
  refine .bind id_spelling fun descriptor _ spelt => .pure ?_
  subst spelt
  rw [List.append_nil]

theorem optionalPrefix_spelling :
    Spelling (optional "prefix tag" (prefixReference kernel))
      fun value bytes => bytes = putPrefix value := by
  refine optional_spelling rfl ?_ prefixReference_spelling
  rintro value _ rfl
  rfl

/-- A record's leading bytes are the ones that are expected. -/
theorem magic_spelling
    {β : Type} {magic : Bytes} {message : String} {size : Nat}
    {next : Reader β} {final : β → Bytes → Prop}
    (spelling : Spelling next fun result bytes => final result (magic ++ bytes)) :
    Spelling (do
      let found ← take size
      Decoder.lift (checkMagic magic found message)
      next) final := by
  refine .bind .take fun found _ ⟨same, _⟩ => .lift_bind fun _ checked => ?_
  subst same
  unfold checkMagic at checked
  by_cases expected : found = magic
  · rw [expected]
    exact spelling
  · rw [if_neg expected] at checked
    cases checked

end Fields

section Records

theorem envelope_spelling :
    Spelling (envelope kernel)
      fun value bytes => bytes = encodeEnvelope value := by
  refine magic_spelling ?_
  refine .bind u64_spelling fun fence _ spelt => ?_
  subst spelt
  refine .bind text_spelling fun name _ spelt => ?_
  subst spelt
  refine .bind optionalPrefix_spelling fun reference _ spelt => ?_
  subst spelt
  refine .bind optionalHead_spelling fun head _ spelt => ?_
  subst spelt
  refine .bind optionalLocation_spelling fun headLocation _ spelt => .pure ?_
  subst spelt
  rw [List.append_nil]
  rfl

/-- What is decoded as an envelope is encoded to the same bytes. -/
theorem encodeEnvelope_of_decodeEnvelope
    {bytes : Bytes} {value : NativeStateEnvelope}
    (decoded : decodeEnvelope kernel bytes = .ok value) :
    encodeEnvelope value = bytes := by
  refine Spelling.run_finish envelope_spelling ?_ decoded
  intro found cursor later kept
  cases checked : checkLocator found with
  | error fault =>
      rw [checked] at kept
      cases kept
  | ok again =>
      rw [checked] at kept
      cases kept
      exact (checkLocator_eq_ok checked).symm

theorem descriptor_spelling :
    Spelling (descriptor kernel)
      fun value bytes => bytes = encodeDescriptor value.1 value.2 := by
  refine magic_spelling ?_
  refine .bind u64_spelling fun length _ spelt => ?_
  subst spelt
  refine .bind .take fun state _ ⟨same, sized⟩ => ?_
  subst same
  refine .bind head_spelling fun canonicalHead _ spelt => .pure ?_
  subst spelt
  rw [List.append_nil, encodeDescriptor, sized, UInt64.ofNat_toNat]

/-- What is decoded as a descriptor is encoded to the same bytes. -/
theorem encodeDescriptor_of_decodeDescriptor
    {bytes oldState : Bytes} {canonicalHead : JournalHead}
    (decoded : decodeDescriptor kernel bytes = .ok (oldState, canonicalHead)) :
    encodeDescriptor oldState canonicalHead = bytes := by
  have spelling : Spelling (descriptor kernel) fun found spelt =>
      spelt = (fun pair : Bytes × JournalHead =>
        encodeDescriptor pair.1 pair.2) found :=
    descriptor_spelling
  have kept (found : Bytes × JournalHead) (cursor later : Cursor)
      (done : (Pure.pure found : Reader (Bytes × JournalHead)) cursor =
        .ok ((oldState, canonicalHead), later)) :
      found = (oldState, canonicalHead) := by
    cases done
    rfl
  have same := spelling.run_finish kept decoded
  exact same

end Records

section Entries

/--
An entry leaf that memory holds together with its value: the vector of
references, the datum and its parts, and the encoded bytes.
-/
structure Held (kernel : Kernel) (value : PhysicalEntry) : Prop where
  datum : DatumCodec.Fits kernel value.entry.canonicalDatum
  whole :
    entryMagic2.length +
      (8 + (DatumCodec.magic.length +
          DatumCodec.encodedLength value.entry.canonicalDatum +
        ((putOptionalLocation value.previousLocation).length +
          (8 + ((value.payloads.map putReference).flatten).length)))) ≤ isizeMax

/-- An entry leaf that memory holds is encoded. -/
theorem encodeV2Entry_isOk
    (lawful : kernel.Lawful)
    {value : PhysicalEntry}
    (genuine : value.entry.Genuine kernel)
    (held : Held kernel value) :
    ∃ bytes, encodeV2Entry kernel value = .ok bytes := by
  have canonical : kernel.Canonical value.entry.canonicalDatum :=
    (lawful.contentId_isSome _).mp (Option.isSome_of_eq_some genuine)
  obtain ⟨encoded, put, length⟩ := DatumCodec.encode_isOk canonical held.datum
  refine ⟨_, bind_eq_ok.mpr ⟨encoded, ?_, finishBytes_eq_ok.mpr ⟨rfl, ?_⟩⟩⟩
  · rw [encodeEntryDatum, put]
  · simp only [List.length_append, be64_length, length]
    exact held.whole

end Entries

/-- An envelope that names a head has a prefix or a locator. -/
def Located (value : NativeStateEnvelope) : Prop :=
  ¬ (value.prefixRef = none ∧ value.head ≠ none ∧ value.headLocation = none)

theorem checkLocator_of_located
    {value : NativeStateEnvelope}
    (located : Located value) :
    checkLocator value = .ok value := by
  refine if_neg fun missing => located ?_
  obtain ⟨bare, headed, unlocated⟩ := missing
  refine ⟨Option.isNone_iff_eq_none.mp bare, fun absent => ?_,
    Option.isNone_iff_eq_none.mp unlocated⟩
  rw [absent] at headed
  cases headed

/--
The native codecs are inverse to each other on spelled values: envelopes with
their locator, descriptors of a state that is a byte vector, and entry leaves
that memory holds.
-/
theorem native_codecs_inverse
    (kernel : Kernel)
    (lawful : kernel.Lawful) :
    (∀ value, EnvelopeSpelled kernel value → Located value →
        decodeEnvelope kernel (encodeEnvelope value) = .ok value) ∧
      (∀ bytes value, decodeEnvelope kernel bytes = .ok value →
        encodeEnvelope value = bytes) ∧
      (∀ oldState canonicalHead, oldState.length ≤ isizeMax →
        Spelled kernel canonicalHead.entry →
        decodeDescriptor kernel (encodeDescriptor oldState canonicalHead) =
          .ok (oldState, canonicalHead)) ∧
      (∀ bytes oldState canonicalHead,
        decodeDescriptor kernel bytes = .ok (oldState, canonicalHead) →
          encodeDescriptor oldState canonicalHead = bytes) ∧
      (∀ value, PhysicalSpelled kernel value →
        (∀ bytes, encodeV2Entry kernel value = .ok bytes →
          decodeV2Entry kernel bytes = .ok value) ∧
        (Held kernel value →
          ∃ bytes, encodeV2Entry kernel value = .ok bytes)) := by
  refine ⟨?_, ?_, ?_, ?_, ?_⟩
  · intro value spelled located
    exact decodeEnvelope_encodeEnvelope
      ⟨spelled, checkLocator_of_located located⟩
  · intro bytes value decoded
    exact encodeEnvelope_of_decodeEnvelope decoded
  · intro oldState canonicalHead bounded spelled
    exact decodeDescriptor_encodeDescriptor bounded spelled
  · intro bytes oldState canonicalHead decoded
    exact encodeDescriptor_of_decodeDescriptor decoded
  · intro value spelled
    refine ⟨fun bytes put => ?_, encodeV2Entry_isOk lawful spelled.genuine⟩
    exact decodeV2Entry_encodeV2Entry lawful spelled put

section Reference

/-- The locator of the first entry. -/
def referenceLocation : EntryLocation where
  entryNamespace := ⟨"first"⟩
  sequence := 0
  entry := referenceEntry.id
  storage := storageId Reference.kernel [5]

/-- The state that selects the first entry. -/
def referenceEnvelope : NativeStateEnvelope where
  format := .v2
  fence := 7
  entryNamespace := ⟨"first"⟩
  prefixRef := none
  head := some referenceEntry.head
  headLocation := some referenceLocation

/-- The leaf of the first entry. -/
def referenceLeaf : PhysicalEntry where
  entry := referenceEntry
  previousLocation := some referenceLocation
  payloads := [⟨(referenceObject [1, 2, 3]).id, storageId Reference.kernel [6]⟩]

theorem referenceEntry_spelled :
    Spelled Reference.kernel referenceEntry.id :=
  spelled_contentId Reference.kernel_lawful referenceEntry_genuine

theorem referenceLocation_spelled :
    LocationSpelled Reference.kernel referenceLocation :=
  ⟨by unfold Short; decide, referenceEntry_spelled, spelled_storageId _⟩

theorem referenceEnvelope_spelled :
    EnvelopeSpelled Reference.kernel referenceEnvelope where
  format := rfl
  short := by unfold Short; decide
  prefixRef := by
    intro reference member
    cases member
  head := by
    rintro head ⟨⟩
    exact referenceEntry_spelled
  headLocation := by
    rintro location ⟨⟩
    exact referenceLocation_spelled

theorem referenceLeaf_spelled :
    PhysicalSpelled Reference.kernel referenceLeaf where
  genuine := referenceEntry_genuine
  previousLocation := by
    rintro location ⟨⟩
    exact referenceLocation_spelled
  payloads := by
    intro reference member
    rw [List.mem_singleton.mp member]
    exact ⟨spelled_contentId Reference.kernel_lawful
      (referenceObject_sound (by decide)).identity, spelled_storageId _⟩
  capacity := rfl

theorem referenceLeaf_held :
    Held Reference.kernel referenceLeaf where
  datum := by
    have pair : (32 + 56) * 2 ≤ isizeMax := by decide
    have four : (32 + 56) * 4 ≤ isizeMax := by decide
    exact ⟨⟨four, trivial, trivial, trivial,
      ⟨⟨pair, trivial, trivial, trivial⟩, trivial⟩, trivial⟩, by decide +kernel⟩
  whole := by decide +kernel

/-- The records of the first entry. -/
theorem reference_codecs_inverse :
    decodeEnvelope Reference.kernel (encodeEnvelope referenceEnvelope) =
        .ok referenceEnvelope ∧
      decodeDescriptor Reference.kernel
          (encodeDescriptor [1, 2, 3] referenceEntry.head) =
        .ok ([1, 2, 3], referenceEntry.head) ∧
      ∃ bytes, encodeV2Entry Reference.kernel referenceLeaf = .ok bytes ∧
        decodeV2Entry Reference.kernel bytes = .ok referenceLeaf := by
  obtain ⟨envelope, _, descriptor, _, leaf⟩ :=
    native_codecs_inverse Reference.kernel Reference.kernel_lawful
  obtain ⟨decodes, encodes⟩ := leaf referenceLeaf referenceLeaf_spelled
  obtain ⟨bytes, put⟩ := encodes referenceLeaf_held
  refine ⟨envelope _ referenceEnvelope_spelled ?_,
    descriptor _ _ (by decide) referenceEntry_spelled, bytes, put,
    decodes bytes put⟩
  rintro ⟨_, _, unlocated⟩
  cases unlocated

end Reference

end SimStorage.Journal.NativeCodec
