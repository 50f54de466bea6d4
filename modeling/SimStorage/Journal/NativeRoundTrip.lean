import SimStorage.Journal.NativeCodec

namespace SimStorage.Journal.NativeCodec

/-!
# Round trips of the native codec

A record whose texts and identities are spellable is read back from its bytes,
and everything that a read returns is spellable.  Path components determine the
identities they are made from.
-/

open Codec

/-- A text short enough for its four-byte length. -/
def Short (text : String) : Prop :=
  (utf8 text).length < 2 ^ 32

/-- An identity whose algorithm is read back from its qualified spelling. -/
structure Spelled (kernel : Kernel) (id : ContentId) : Prop where
  parsed :
    parseSymbol kernel id.algorithm.asQualifiedStr = .ok id.algorithm
  short : Short id.algorithm.asQualifiedStr

variable {kernel : Kernel}

section Symbols

private theorem slash_text
    (space name : String) :
    (space ++ "/" ++ name).toList = space.toList ++ '/' :: name.toList := by
  simp

/-- A parsed symbol is spelled as the text it was read from. -/
theorem asQualifiedStr_of_parseSymbol
    {text : String} {symbol : Symbol}
    (parsed : parseSymbol kernel text = .ok symbol) :
    symbol.asQualifiedStr = text := by
  unfold parseSymbol at parsed
  split at parsed
  · next space name found =>
      split at parsed
      · cases parsed
        obtain ⟨shape, _⟩ := splitOnce_sound found
        refine String.toList_inj.mp ?_
        rw [shape]
        exact slash_text space name
      · cases parsed
  · have checked := okOr_eq_ok.mp parsed
    unfold Kernel.checked at checked
    split at checked
    · cases checked
      rfl
    · cases checked

/-- An identity is spelled when its algorithm was parsed from a short text. -/
theorem spelled_of_parseSymbol
    {text : String} {symbol : Symbol} {digest : Digest}
    (parsed : parseSymbol kernel text = .ok symbol)
    (short : Short text) :
    Spelled kernel ⟨symbol, digest⟩ := by
  have spelling := asQualifiedStr_of_parseSymbol parsed
  exact ⟨by simpa [spelling] using parsed, by simpa [spelling] using short⟩

/-- Storage identities are spelled. -/
theorem spelled_storageId
    (bytes : Bytes) :
    Spelled kernel (storageId kernel bytes) :=
  @spelled_of_parseSymbol kernel "journal/sha256-storage-v1" _ _ rfl
    (by unfold Short; decide)

/-- Content identities are spelled. -/
theorem spelled_contentId
    (lawful : kernel.Lawful)
    {value : Datum} {id : ContentId}
    (identity : kernel.contentId value = some id) :
    Spelled kernel id := by
  have algorithm := lawful.contentId_algorithm identity
  rcases id with ⟨_, digest⟩
  change _ = datumContentAlgorithm at algorithm
  subst algorithm
  exact @spelled_of_parseSymbol kernel "core/sha256-datum-v1" _ _ rfl
    (by unfold Short; decide)

end Symbols

section Fields

theorem byte_bind
    {τ : Type} {next : UInt8 → Reader τ}
    {tag : UInt8} {body : Bytes} {value : τ}
    (read : Decodes (next tag) body value) :
    Decodes (byte >>= next) (tag :: body) value := by
  have readTag : Decodes byte [tag] tag := .bind_done (.take rfl) (.pure tag)
  exact .bind readTag read

theorem u64_decodes
    (value : UInt64) :
    Decodes u64 (be64 value) value := by
  refine .bind_done (.take (be64_length value)) ?_
  rw [fromBe64_be64]
  exact .pure value

theorem text_decodes
    {value : String}
    (short : Short value) :
    Decodes text (putText value) value := by
  have readLength : Decodes u32 (be32 (UInt32.ofNat (utf8 value).length))
      (UInt32.ofNat (utf8 value).length) := by
    refine .bind_done (.take (be32_length _)) ?_
    rw [fromBe32_be32]
    exact .pure _
  refine .bind readLength (.bind_done (.take ?_) (.lift ?_))
  · exact (UInt32.toNat_ofNat_of_lt short).symm
  · simp

theorem id_decodes
    {value : ContentId}
    (spelled : Spelled kernel value) :
    Decodes (id kernel) (putId value) value := by
  refine .bind (text_decodes spelled.short) (.lift_bind spelled.parsed ?_)
  refine .bind_done (.take value.digest.property) (.lift_bind ?_ (.pure _))
  simp [digestOf, value.digest.property]

theorem head_decodes
    {value : JournalHead}
    (spelled : Spelled kernel value.entry) :
    Decodes (head kernel) (putHead value) value :=
  .bind (u64_decodes value.sequence) (.bind_done (id_decodes spelled) (.pure _))

theorem optionalHead_decodes
    {value : Option JournalHead}
    (spelled : ∀ head ∈ value, Spelled kernel head.entry) :
    Decodes (optionalHead kernel) (putOptionalHead value) value := by
  cases value with
  | none => exact byte_bind (.pure _)
  | some head =>
      exact byte_bind (.bind_done (head_decodes (spelled head rfl)) (.pure _))

/-- A location whose texts are spellable. -/
structure LocationSpelled (kernel : Kernel) (value : EntryLocation) :
    Prop where
  short : Short value.entryNamespace.token
  entry : Spelled kernel value.entry
  storage : Spelled kernel value.storage

theorem location_decodes
    {value : EntryLocation}
    (spelled : LocationSpelled kernel value) :
    Decodes (location kernel)
      (putText value.entryNamespace.token ++
        (be64 value.sequence ++ (putId value.entry ++ putId value.storage)))
      value := by
  refine .bind (text_decodes spelled.short) ?_
  refine .bind (u64_decodes value.sequence) ?_
  refine .bind (id_decodes spelled.entry) ?_
  exact .bind_done (id_decodes spelled.storage) (.pure _)

theorem optionalLocation_decodes
    {value : Option EntryLocation}
    (spelled : ∀ location ∈ value, LocationSpelled kernel location) :
    Decodes (optionalLocation kernel) (putOptionalLocation value) value := by
  cases value with
  | none => exact byte_bind (.pure _)
  | some location =>
      exact byte_bind
        (.bind_done (location_decodes (spelled location rfl)) (.pure _))

/-- A prefix reference whose identities are spellable. -/
structure PrefixSpelled (kernel : Kernel) (value : VerifiedNativePrefixRef) :
    Prop where
  physicalHead : Spelled kernel value.physicalHead.entry
  canonicalHead : Spelled kernel value.canonicalHead.entry
  descriptor : Spelled kernel value.descriptor

theorem prefix_decodes
    {value : Option VerifiedNativePrefixRef}
    (spelled : ∀ reference ∈ value, PrefixSpelled kernel reference) :
    Decodes (optional "prefix tag" (prefixReference kernel))
      (putPrefix value) value := by
  cases value with
  | none => exact byte_bind (.pure _)
  | some reference =>
      have found := spelled reference rfl
      refine byte_bind (.bind_done ?_ (.pure _))
      refine .bind (u64_decodes reference.entries) ?_
      refine .bind (head_decodes found.physicalHead) ?_
      refine .bind (head_decodes found.canonicalHead) ?_
      exact .bind_done (id_decodes found.descriptor) (.pure _)

end Fields

section Ensured

theorem text_ensures :
    Ensures text Short := by
  refine .bind (.trivial _) fun length _ => ?_
  refine .bind .take fun bytes size => .lift fun value accepted => ?_
  have same := utf8_of_fromUtf8 (okOr_eq_ok.mp accepted)
  unfold Short
  rw [same, size]
  exact length.toNat_lt

theorem id_ensures :
    Ensures (id kernel) (Spelled kernel) := by
  refine .bind text_ensures fun name short => ?_
  refine .bind (.lift fun _ parsed => parsed) fun algorithm parsed => ?_
  refine .bind (.trivial _) fun bytes _ => ?_
  refine .bind (.trivial _) fun digest _ => .pure ?_
  exact spelled_of_parseSymbol parsed short

theorem head_ensures :
    Ensures (head kernel) fun value => Spelled kernel value.entry := by
  refine .bind (.trivial _) fun sequence _ => ?_
  exact .bind id_ensures fun entry spelled => .pure spelled

theorem optional_ensures
    {τ : Type} {item : Reader τ} {property : τ → Prop} {message : String}
    (ensures : Ensures item property) :
    Ensures (optional message item)
      fun value => ∀ found ∈ value, property found := by
  refine .bind (.trivial _) fun tag _ => ?_
  by_cases absent : tag = 0
  · simp only [absent, if_true]
    exact .pure fun found member => by cases member
  · by_cases present : tag = 1
    · simp only [present, if_true]
      refine .bind ensures fun value holds => .pure ?_
      rintro found ⟨⟩
      exact holds
    · simp only [absent, present, if_false]
      exact .fail _

theorem location_ensures :
    Ensures (location kernel) (LocationSpelled kernel) := by
  refine .bind text_ensures fun name short => ?_
  refine .bind (.trivial _) fun sequence _ => ?_
  refine .bind id_ensures fun entry entrySpelled => ?_
  refine .bind id_ensures fun storage storageSpelled => .pure ?_
  exact ⟨short, entrySpelled, storageSpelled⟩

theorem prefixReference_ensures :
    Ensures (prefixReference kernel) (PrefixSpelled kernel) := by
  refine .bind (.trivial _) fun entries _ => ?_
  refine .bind head_ensures fun physicalHead physical => ?_
  refine .bind head_ensures fun canonicalHead canonical => ?_
  refine .bind id_ensures fun descriptor spelled => .pure ?_
  exact ⟨physical, canonical, spelled⟩

end Ensured

section Envelope

/-- An envelope of the v2 format with spellable texts. -/
structure EnvelopeSpelled (kernel : Kernel) (value : NativeStateEnvelope) :
    Prop where
  format : value.format = .v2
  short : Short value.entryNamespace.token
  prefixRef : ∀ reference ∈ value.prefixRef, PrefixSpelled kernel reference
  head : ∀ head ∈ value.head, Spelled kernel head.entry
  headLocation :
    ∀ location ∈ value.headLocation, LocationSpelled kernel location

/-- An envelope that the decoder returns: spellable and with its locator. -/
structure WellFormed (kernel : Kernel) (value : NativeStateEnvelope) : Prop
    extends EnvelopeSpelled kernel value where
  locator : checkLocator value = .ok value

theorem checkLocator_eq_ok
    {value found : NativeStateEnvelope}
    (checked : checkLocator value = .ok found) :
    found = value := by
  unfold checkLocator at checked
  split at checked
  · cases checked
  · exact (Except.ok.inj checked).symm

theorem envelope_decodes
    {value : NativeStateEnvelope}
    (wellFormed : WellFormed kernel value) :
    Decodes (envelope kernel) (encodeEnvelope value) value := by
  have checked : checkMagic stateMagic2 stateMagic2 "state format" = .ok () :=
    rfl
  refine .bind (.take rfl) (.lift_bind checked ?_)
  refine .bind (u64_decodes value.fence) ?_
  refine .bind (text_decodes wellFormed.short) ?_
  refine .bind (prefix_decodes wellFormed.prefixRef) ?_
  refine .bind (optionalHead_decodes wellFormed.head) ?_
  refine .bind_done (optionalLocation_decodes wellFormed.headLocation) ?_
  rcases value with ⟨format, _⟩
  have version := wellFormed.format
  change format = .v2 at version
  subst version
  exact .pure _

theorem envelope_ensures :
    Ensures (envelope kernel) (EnvelopeSpelled kernel) := by
  refine .bind (.trivial _) fun magic _ => ?_
  refine .bind (.trivial _) fun _ _ => ?_
  refine .bind (.trivial _) fun fence _ => ?_
  refine .bind text_ensures fun name short => ?_
  refine .bind (optional_ensures prefixReference_ensures)
    fun reference prefixSpelled => ?_
  refine .bind (optional_ensures head_ensures) fun head headSpelled => ?_
  refine .bind (optional_ensures location_ensures)
    fun headLocation locationSpelled => .pure ?_
  exact ⟨rfl, short, prefixSpelled, headSpelled, locationSpelled⟩

private theorem putText_length_le
    {value : String}
    (short : Short value) :
    (putText value).length ≤ 4 + 2 ^ 32 := by
  unfold Short at short
  simp only [putText, List.length_append, be32_length]
  omega

private theorem putId_length_le
    {value : ContentId}
    (spelled : Spelled kernel value) :
    (putId value).length ≤ 36 + 2 ^ 32 := by
  have text := putText_length_le spelled.short
  have digest := value.digest.property
  simp only [putId, List.length_append]
  omega

private theorem putHead_length_le
    {value : JournalHead}
    (spelled : Spelled kernel value.entry) :
    (putHead value).length ≤ 44 + 2 ^ 32 := by
  have entry := putId_length_le spelled
  simp only [putHead, List.length_append, be64_length]
  omega

private theorem putOptionalLocation_length_le
    {value : Option EntryLocation}
    (spelled : ∀ location ∈ value, LocationSpelled kernel location) :
    (putOptionalLocation value).length ≤ 2 ^ 35 := by
  cases value with
  | none => simp [putOptionalLocation]
  | some location =>
      have found := spelled location rfl
      have name := putText_length_le found.short
      have entry := putId_length_le found.entry
      have storage := putId_length_le found.storage
      simp only [putOptionalLocation, List.length_cons, List.length_append,
        be64_length]
      omega

private theorem putPrefix_length_le
    {value : Option VerifiedNativePrefixRef}
    (spelled : ∀ reference ∈ value, PrefixSpelled kernel reference) :
    (putPrefix value).length ≤ 2 ^ 35 := by
  cases value with
  | none => simp [putPrefix]
  | some reference =>
      have found := spelled reference rfl
      have physical := putHead_length_le found.physicalHead
      have canonical := putHead_length_le found.canonicalHead
      have descriptor := putId_length_le found.descriptor
      simp only [putPrefix, List.length_cons, List.length_append, be64_length]
      omega

private theorem putOptionalHead_length_le
    {value : Option JournalHead}
    (spelled : ∀ head ∈ value, Spelled kernel head.entry) :
    (putOptionalHead value).length ≤ 2 ^ 33 := by
  cases value with
  | none => simp [putOptionalHead]
  | some head =>
      have found := putHead_length_le (spelled head rfl)
      simp only [putOptionalHead, List.length_cons]
      omega

private theorem encodeEnvelope_length_lt
    {value : NativeStateEnvelope}
    (wellFormed : WellFormed kernel value) :
    (encodeEnvelope value).length < wordBound := by
  have name := putText_length_le wellFormed.short
  have reference := putPrefix_length_le wellFormed.prefixRef
  have head := putOptionalHead_length_le wellFormed.head
  have location := putOptionalLocation_length_le wellFormed.headLocation
  have magic : stateMagic2.length = 10 := rfl
  simp only [encodeEnvelope, List.length_append, be64_length, wordBound]
  omega

/-- Decoding an encoded well-formed envelope gives it back. -/
theorem decodeEnvelope_encodeEnvelope
    {value : NativeStateEnvelope}
    (wellFormed : WellFormed kernel value) :
    decodeEnvelope kernel (encodeEnvelope value) = .ok value := by
  refine Decodes.run_finish (corrupt "trailing bytes")
    (fun found => Decoder.lift (checkLocator found))
    (envelope_decodes wellFormed) (encodeEnvelope_length_lt wellFormed) ?_
  intro cursor
  simp only [wellFormed.locator, Decoder.lift]
  rfl

/-- Whatever is decoded as an envelope is well-formed. -/
theorem wellFormed_of_decodeEnvelope
    {bytes : Bytes} {value : NativeStateEnvelope}
    (decoded : decodeEnvelope kernel bytes = .ok value) :
    WellFormed kernel value := by
  refine Ensures.run (.bind envelope_ensures fun found spelled => ?_) decoded
  refine .bind (.trivial _) fun _ _ => .lift fun accepted checked => ?_
  have same := checkLocator_eq_ok checked
  subst same
  exact ⟨spelled, checked⟩

end Envelope

section Descriptor

theorem text_consumes :
    Consumes text (4 + 2 ^ 32) := by
  have readLength : Consumes u32 4 :=
    .mono (.bind (.take _ _ 4) fun bytes => .pure _) (by omega)
  refine .mono (.bind readLength fun length => ?_) (Nat.le_refl _)
  have small : length.toNat + 0 ≤ 2 ^ 32 := Nat.le_of_lt length.toNat_lt
  exact .mono (.bind (.take _ _ _) fun bytes => .lift _) small

theorem id_consumes :
    Consumes (id kernel) (2 ^ 33) := by
  have whole : Consumes (id kernel) (4 + 2 ^ 32 + (0 + (32 + (0 + 0)))) := by
    refine .bind text_consumes fun name => .bind (.lift _) fun algorithm => ?_
    refine .bind (.take _ _ 32) fun bytes => .bind (.lift _) fun digest => ?_
    exact .pure _
  exact whole.mono (by omega)

theorem optionalHead_consumes :
    Consumes (optionalHead kernel) (2 ^ 34) := by
  have readByte : Consumes byte 1 :=
    .mono (.bind (.take _ _ 1) fun bytes => .pure _) (by omega)
  have readWord : Consumes u64 8 :=
    .mono (.bind (.take _ _ 8) fun bytes => .pure _) (by omega)
  have readHead : Consumes (head kernel) (8 + (2 ^ 33 + 0)) :=
    .bind readWord fun sequence => .bind id_consumes fun entry => .pure _
  refine .mono (.bind readByte fun tag => ?_)
    (show 1 + (8 + (2 ^ 33 + 0) + 0) ≤ 2 ^ 34 by omega)
  by_cases absent : tag = 0
  · simp only [absent, if_true]
    exact .mono (.pure _) (by omega)
  · by_cases present : tag = 1
    · simp only [present, if_true]
      exact .bind readHead fun value => .pure _
    · simp only [absent, present, if_false]
      exact .fail _ _

/-- A v1 state leaf is short. -/
theorem length_of_decodeV1State
    {bytes : Bytes} {found : UInt64 × Option JournalHead}
    (decoded : decodeV1State kernel bytes = .ok found) :
    bytes.length ≤ 2 ^ 35 := by
  have readWord : Consumes u64 8 :=
    .mono (.bind (.take _ _ 8) fun bytes => .pure _) (by omega)
  have whole : Consumes (v1State kernel)
      (10 + (0 + (8 + (2 ^ 34 + 0)))) := by
    refine .bind (.take _ _ 10) fun magic => .bind (.lift _) fun _ => ?_
    refine .bind readWord fun fence => ?_
    exact .bind optionalHead_consumes fun head => .pure _
  have bounded := Consumes.run_finish whole decoded
  omega

theorem v1State_ensures :
    Ensures (v1State kernel)
      fun found => ∀ head ∈ found.2, Spelled kernel head.entry := by
  refine .bind (.trivial _) fun magic _ => ?_
  refine .bind (.trivial _) fun _ _ => ?_
  refine .bind (.trivial _) fun fence _ => ?_
  exact .bind (optional_ensures head_ensures) fun head spelled => .pure spelled

/-- The head of a v1 state leaf is spelled. -/
theorem spelled_of_decodeV1State
    {bytes : Bytes} {fence : UInt64} {found : JournalHead}
    (decoded : decodeV1State kernel bytes = .ok (fence, some found)) :
    Spelled kernel found.entry := by
  have ensured : Ensures
      (v1State kernel >>= fun found => finish >>= fun _ => Pure.pure found)
      fun found => ∀ head ∈ found.2, Spelled kernel head.entry :=
    .bind v1State_ensures fun _ spelled =>
      .bind (.trivial _) fun _ _ => .pure spelled
  exact ensured.run decoded found rfl

/-- Decoding an encoded descriptor gives its fields back. -/
theorem decodeDescriptor_encodeDescriptor
    {oldState : Bytes} {canonicalHead : JournalHead}
    (bounded : oldState.length ≤ isizeMax)
    (spelled : Spelled kernel canonicalHead.entry) :
    decodeDescriptor kernel (encodeDescriptor oldState canonicalHead) =
      .ok (oldState, canonicalHead) := by
  have size : (UInt64.ofNat oldState.length).toNat = oldState.length :=
    UInt64.toNat_ofNat_of_lt
      (Nat.lt_of_le_of_lt bounded isizeMax_lt_wordBound)
  have checked :
      checkMagic prefixMagic prefixMagic "prefix descriptor" = .ok () := rfl
  have read : Decodes (descriptor kernel)
      (encodeDescriptor oldState canonicalHead) (oldState, canonicalHead) := by
    refine .bind (.take rfl) (.lift_bind checked ?_)
    refine .bind (u64_decodes _) ?_
    refine .bind (.take size.symm) ?_
    exact .bind_done (head_decodes spelled) (.pure _)
  have small : (encodeDescriptor oldState canonicalHead).length <
      wordBound := by
    have head := putHead_length_le spelled
    have magic : prefixMagic.length = 11 := rfl
    simp only [encodeDescriptor, List.length_append, be64_length, wordBound]
    unfold isizeMax at bounded
    omega
  exact Decodes.run_finish (corrupt "trailing bytes")
    (fun found => Pure.pure found) read small fun cursor => rfl

end Descriptor

section EntryDatum

/-- Fields with distinct names are found wherever they stand. -/
theorem fieldOf_perm
    {first second : List (Symbol × Datum)}
    (same : first.Perm second)
    (distinct : (first.map Prod.fst).Nodup)
    (name : String) :
    fieldOf first name = fieldOf second name := by
  have unique {fields : List (Symbol × Datum)}
      (nodup : (fields.map Prod.fst).Nodup)
      {value : Datum}
      (member : (Symbol.new name, value) ∈ fields) :
      fieldOf fields name = some value := by
    induction fields with
    | nil => cases member
    | cons field rest inductionHypothesis =>
        obtain ⟨fresh, later⟩ := List.nodup_cons.mp nodup
        cases member with
        | head => simp [fieldOf]
        | tail _ inside =>
            have differs : field.1 ≠ Symbol.new name := by
              intro equal
              exact fresh (equal ▸ List.mem_map_of_mem inside)
            have found := inductionHypothesis later inside
            unfold fieldOf at found ⊢
            rw [List.find?_cons_of_neg (by simpa using differs)]
            exact found
  have otherNodup : (second.map Prod.fst).Nodup :=
    (same.map Prod.fst).nodup_iff.mp distinct
  by_cases present : ∃ value, (Symbol.new name, value) ∈ first
  · obtain ⟨value, member⟩ := present
    rw [unique distinct member, unique otherNodup (same.mem_iff.mp member)]
  · have absent {fields : List (Symbol × Datum)}
        (missing : ¬ ∃ value, (Symbol.new name, value) ∈ fields) :
        fieldOf fields name = none := by
      unfold fieldOf
      rw [Option.map_eq_none_iff, List.find?_eq_none]
      rintro ⟨label, value⟩ member equal
      refine missing ⟨value, ?_⟩
      simp only [decide_eq_true_eq] at equal
      exact equal ▸ member
    rw [absent present, absent]
    rintro ⟨value, member⟩
    exact present ⟨value, same.mem_iff.mpr member⟩

/-- The decimal text of a word is read back. -/
theorem parseU64_decimal
    (value : UInt64) :
    parseU64 (decimal value) = some value := by
  have digits : (decimal value).toList = Nat.toDigits 10 value.toNat := by
    unfold decimal
    exact Nat.toList_repr
  have decimalDigits : ∀ digit ∈ Nat.toDigits 10 value.toNat,
      digit.isDigit := fun digit member =>
    Nat.isDigit_of_mem_toDigits (by omega) (by omega) member
  have unsigned : unsignedDigits (Nat.toDigits 10 value.toNat) =
      Nat.toDigits 10 value.toNat := by
    unfold unsignedDigits
    split
    · next rest shape =>
        have plus := decimalDigits '+' (by rw [shape]; exact List.mem_cons_self)
        exact absurd plus (by decide)
    · rfl
  have small : value.toNat < 2 ^ 64 := value.toNat_lt
  have nonempty : Nat.toDigits 10 value.toNat ≠ [] := Nat.toDigits_ne_nil
  have all : (Nat.toDigits 10 value.toNat).all Char.isDigit :=
    List.all_eq_true.mpr decimalDigits
  unfold parseU64
  rw [digits]
  simp only [unsigned, nonempty, all, not_true_eq_false, or_self, if_false,
    Nat.ofDigitChars_ten_toDigits, small, if_true]
  exact congrArg some UInt64.ofNat_toNat

variable (kernel)

/-- The fields of an arranged node are the arranged fields, reordered. -/
private theorem arrangedNode
    (tag : Symbol)
    (fields : List (Symbol × Datum)) :
    ∃ sorted,
      DatumCodec.arranged kernel (.node tag fields) = .node tag sorted ∧
        ((DatumCodec.arrangedFields kernel fields).map Prod.snd).Perm sorted :=
  ⟨_, by rw [DatumCodec.arranged],
    ((DatumCodec.sortFields_perm _).map _).symm⟩

/-- An identity is read back from its rearranged datum. -/
theorem idFromDatum_arranged
    (value : ContentId) :
    idFromDatum (DatumCodec.arranged kernel (idDatum value)) = .ok value := by
  obtain ⟨sorted, shape, same⟩ := arrangedNode kernel
    (.qualified "journal" "content-id-v1")
    [(.new "algorithm", .symbol value.algorithm),
      (.new "digest", .bytes value.digest.val)]
  simp only [DatumCodec.arrangedFields, DatumCodec.arranged, List.map_cons,
    List.map_nil] at same
  have length := same.length_eq
  have lookup := fieldOf_perm same (by simp [Symbol.new])
  have algorithm := lookup "algorithm"
  have digest := lookup "digest"
  simp only [fieldOf, List.find?, Symbol.new, Symbol.mk.injEq, true_and,
    decide_true, String.reduceEq, decide_false, Option.map_some]
    at algorithm digest
  unfold idDatum
  rw [shape]
  simp only [List.length_cons, List.length_nil] at length
  simp only [idFromDatum, ← length, ne_eq, not_true_eq_false, or_self,
    if_false, fieldOf, Symbol.new, ← algorithm, ← digest]
  simp only [digestOf, value.digest.property, dite_true]
  rfl

/-- The identities of an entry's payloads are read back. -/
theorem idsFromDatums_arranged
    (values : List ContentId) :
    idsFromDatums
        ((DatumCodec.arrangedItems kernel (values.map idDatum)).map Prod.snd) =
      .ok values := by
  induction values with
  | nil => rfl
  | cons value rest inductionHypothesis =>
      refine bind_eq_ok.mpr ⟨value, idFromDatum_arranged kernel value, ?_⟩
      exact bind_eq_ok.mpr ⟨rest, inductionHypothesis, rfl⟩

/-- The previous identity of an entry is read back. -/
theorem previousFromDatum_arranged
    (value : Option ContentId) :
    previousFromDatum (DatumCodec.arranged kernel (previousDatum value)) =
      .ok value := by
  cases value with
  | none => rfl
  | some id =>
      obtain ⟨sorted, shape, _⟩ := arrangedNode kernel
        (.qualified "journal" "content-id-v1")
        [(.new "algorithm", .symbol id.algorithm),
          (.new "digest", .bytes id.digest.val)]
      have read := idFromDatum_arranged kernel id
      unfold previousDatum
      unfold idDatum at read ⊢
      rw [shape] at read ⊢
      exact bind_eq_ok.mpr ⟨id, read, rfl⟩

variable {kernel}

/-- A genuine entry is read back from its rearranged datum. -/
theorem entryFromDatum_arranged
    (lawful : kernel.Lawful)
    {entry : JournalEntry}
    (genuine : entry.Genuine kernel) :
    entryFromDatum kernel
        (DatumCodec.arranged kernel entry.canonicalDatum) = .ok entry := by
  have identity : kernel.contentId
      (DatumCodec.arranged kernel entry.canonicalDatum) = some entry.id := by
    rw [← lawful.contentId_rearranged
      (DatumCodec.rearranged_arranged kernel entry.canonicalDatum)]
    exact genuine
  unfold JournalEntry.canonicalDatum at identity ⊢
  obtain ⟨sorted, shape, same⟩ := arrangedNode kernel
    (.qualified "journal" "entry-v2")
    [(.new "sequence",
        .number ⟨.qualified "numbers" "u64", decimal entry.sequence⟩),
      (.new "previous", previousDatum entry.previous),
      (.new "kind", .symbol entry.kind),
      (.new "payloads", .vector (entry.payloads.map idDatum))]
  rw [shape] at identity ⊢
  simp only [DatumCodec.arrangedFields, DatumCodec.arranged, List.map_cons,
    List.map_nil] at same
  have length := same.length_eq
  have lookup := fieldOf_perm same (by simp [Symbol.new])
  have sequence := lookup "sequence"
  have previous := lookup "previous"
  have kind := lookup "kind"
  have payloads := lookup "payloads"
  simp only [fieldOf, List.find?, Symbol.new, Symbol.mk.injEq, true_and,
    decide_true, String.reduceEq, decide_false, Option.map_some]
    at sequence previous kind payloads
  simp only [List.length_cons, List.length_nil] at length
  refine bind_eq_ok.mpr ⟨entry.id, okOr_eq_ok.mpr identity, ?_⟩
  simp only [← length, ne_eq, not_true_eq_false, or_self, if_false, fieldOf,
    Symbol.new, ← sequence, ← previous, ← kind, ← payloads]
  refine bind_eq_ok.mpr ⟨_, rfl, ?_⟩
  refine bind_eq_ok.mpr ⟨entry.sequence, ?_, ?_⟩
  · simp [sequenceFromDatum, parseU64_decimal]
  refine bind_eq_ok.mpr ⟨_, rfl, ?_⟩
  refine bind_eq_ok.mpr
    ⟨entry.previous, previousFromDatum_arranged kernel entry.previous, ?_⟩
  refine bind_eq_ok.mpr ⟨_, rfl, ?_⟩
  refine bind_eq_ok.mpr ⟨entry.kind, rfl, ?_⟩
  refine bind_eq_ok.mpr ⟨_, rfl, ?_⟩
  refine bind_eq_ok.mpr
    ⟨entry.payloads, idsFromDatums_arranged kernel entry.payloads, ?_⟩
  refine bind_eq_ok.mpr
    ⟨entry.id, JournalEntry.canonicalId_eq_ok.mpr genuine, ?_⟩
  simp
  rfl

end EntryDatum

section EntryLeaf

/-- A stored reference with spelled identities. -/
structure ReferenceSpelled (kernel : Kernel) (value : StoredDatumRef) :
    Prop where
  meaning : Spelled kernel value.meaning
  storage : Spelled kernel value.storage

/-- A physical entry that the decoder gives back. -/
structure PhysicalSpelled (kernel : Kernel) (value : PhysicalEntry) :
    Prop where
  genuine : value.entry.Genuine kernel
  previousLocation :
    ∀ location ∈ value.previousLocation, LocationSpelled kernel location
  payloads : ∀ reference ∈ value.payloads, ReferenceSpelled kernel reference
  capacity : referenceCapacity kernel value.payloads.length = .ok ()

private theorem reference_decodes
    {value : StoredDatumRef}
    (spelled : ReferenceSpelled kernel value) :
    Decodes (reference kernel) (putReference value) value :=
  .bind (id_decodes spelled.meaning)
    (.bind_done (id_decodes spelled.storage) (.pure _))

private theorem references_decode
    {values : List StoredDatumRef}
    (spelled : ∀ value ∈ values, ReferenceSpelled kernel value) :
    Decodes (Decoder.many (reference kernel) values.length)
      (values.map putReference).flatten values := by
  refine .many ?_
  rw [List.forall₂_map_left_iff, List.forall₂_same]
  exact fun value member => reference_decodes (spelled value member)

private theorem entryDatum_decodes
    (lawful : kernel.Lawful)
    {entry : JournalEntry} {encoded : Bytes}
    (genuine : entry.Genuine kernel)
    (put : DatumCodec.encode kernel entry.canonicalDatum = .ok encoded)
    (small : encoded.length < 2 ^ 64) :
    Decodes (entryDatum kernel)
      (be64 (UInt64.ofNat encoded.length) ++ encoded) entry := by
  have decoded := DatumCodec.decode_encode lawful put
  have read := entryFromDatum_arranged lawful genuine
  refine .bind (u64_decodes _) ?_
  refine .bind_done (.take (UInt64.toNat_ofNat_of_lt small).symm) ?_
  exact .lift_bind decoded (.lift read)

/-- A capacity that is granted fits the machine word. -/
theorem count_of_referenceCapacity
    {count : Nat}
    (granted : referenceCapacity kernel count = .ok ()) :
    count < 2 ^ 64 := by
  unfold referenceCapacity withCapacity contentIdSize at granted
  split at granted
  · next small =>
      have wide : 1 * count ≤ 2 * (kernel.symbolSize + 32) * count :=
        Nat.mul_le_mul_right count (by omega)
      unfold isizeMax at small
      omega
  · cases granted

/-- Decoding an encoded entry leaf gives the physical entry back. -/
theorem decodeV2Entry_encodeV2Entry
    (lawful : kernel.Lawful)
    {value : PhysicalEntry} {bytes : Bytes}
    (spelled : PhysicalSpelled kernel value)
    (put : encodeV2Entry kernel value = .ok bytes) :
    decodeV2Entry kernel bytes = .ok value := by
  obtain ⟨encoded, putEntry, finished⟩ := bind_eq_ok.mp put
  obtain ⟨rfl, small⟩ := finishBytes_eq_ok.mp finished
  have putDatum : DatumCodec.encode kernel value.entry.canonicalDatum =
      .ok encoded := by
    unfold encodeEntryDatum at putEntry
    split at putEntry
    · next found =>
        cases putEntry
        exact found
    · cases putEntry
  have inWord := Nat.lt_of_le_of_lt small isizeMax_lt_wordBound
  have datumSmall : encoded.length < 2 ^ 64 := by
    simp only [List.length_append, wordBound] at inWord
    omega
  have checked : checkMagic entryMagic2 entryMagic2 "entry format" = .ok () :=
    rfl
  have count : (UInt64.ofNat value.payloads.length).toNat =
      value.payloads.length :=
    UInt64.toNat_ofNat_of_lt (count_of_referenceCapacity spelled.capacity)
  rw [← List.append_assoc (be64 (UInt64.ofNat encoded.length)) encoded]
    at inWord ⊢
  refine Decodes.run_finish (corrupt "trailing bytes")
    (fun found => Pure.pure found) ?_ inWord fun cursor => rfl
  refine .bind (.take rfl) (.lift_bind checked ?_)
  refine .bind (entryDatum_decodes lawful spelled.genuine putDatum
    datumSmall) ?_
  refine .bind (optionalLocation_decodes spelled.previousLocation) ?_
  refine .bind (u64_decodes (UInt64.ofNat value.payloads.length)) ?_
  refine .lift_bind (count ▸ spelled.capacity) ?_
  rw [count]
  exact .bind_done (references_decode spelled.payloads) (.pure _)

end EntryLeaf

section Keys

/-- A spelled identity is read back from its path component. -/
theorem parseIdKey_idKey
    {id : ContentId}
    (spelled : Spelled kernel id) :
    parseIdKey kernel (idKey id) = .ok id := by
  have shape : (idKey id).toList =
      (hex (utf8 id.algorithm.asQualifiedStr)).toList ++
        '-' :: (hex id.digest.val).toList := by
    simp [idKey]
  have split := splitOnce_of_toList shape (dash_not_mem_hex _)
  refine bind_eq_ok.mpr ⟨_, okOr_eq_ok.mpr split, ?_⟩
  refine bind_eq_ok.mpr ⟨_, okOr_eq_ok.mpr (unhex_hex _), ?_⟩
  refine bind_eq_ok.mpr ⟨_, okOr_eq_ok.mpr (fromUtf8_utf8 _), ?_⟩
  refine bind_eq_ok.mpr ⟨_, okOr_eq_ok.mpr (unhex_hex _), ?_⟩
  refine bind_eq_ok.mpr ⟨id.digest, ?_, ?_⟩
  · simp [digestOf, id.digest.property]
  · exact bind_eq_ok.mpr ⟨id.algorithm, spelled.parsed, rfl⟩

/-- Path components determine spelled identities. -/
theorem idKey_injective
    {first second : ContentId}
    (spelled : Spelled kernel first)
    (otherSpelled : Spelled kernel second)
    (same : idKey first = idKey second) :
    first = second := by
  have read := parseIdKey_idKey spelled
  rw [same, parseIdKey_idKey otherSpelled] at read
  exact (Except.ok.inj read).symm

end Keys

end SimStorage.Journal.NativeCodec
