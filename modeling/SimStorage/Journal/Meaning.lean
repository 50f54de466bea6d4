import SimStorage.Journal.NativeRoundTrip

namespace SimStorage.Journal.DatumCodec

/-!
# One meaning, one form

The codec's order is a normal form of the order of unordered parts.  A canonical
value that fits memory has an encoding, the encoding decodes to the normal
form, and values of one content identity have one encoding, one storage
identity and one object path.
-/

open Codec

section NormalForm

variable (kernel : Kernel)

theorem arrangedItems_eq_map
    (items : List Datum) :
    arrangedItems kernel items =
      items.map fun item => (itemKey kernel item, arranged kernel item) := by
  induction items with
  | nil => rfl
  | cons item rest inductionHypothesis =>
      simp [arrangedItems, inductionHypothesis]

theorem arrangedEntries_eq_map
    (entries : List (Datum × Datum)) :
    arrangedEntries kernel entries =
      entries.map fun entry =>
        (itemKey kernel entry.1,
          (arranged kernel entry.1, arranged kernel entry.2)) := by
  induction entries with
  | nil => rfl
  | cons entry rest inductionHypothesis =>
      simp [arrangedEntries, inductionHypothesis]

theorem arrangedFields_eq_map
    (fields : List (Symbol × Datum)) :
    arrangedFields kernel fields =
      fields.map fun field =>
        (symbolKey field.1, (field.1, arranged kernel field.2)) := by
  induction fields with
  | nil => rfl
  | cons field rest inductionHypothesis =>
      simp [arrangedFields, inductionHypothesis]

variable {kernel}

/-- Rearranged canonical values have one form in the codec's order. -/
theorem arranged_rearranged
    (lawful : kernel.Lawful)
    {first second : Datum}
    (same : Rearranged first second)
    (canonical : kernel.Canonical first) :
    arranged kernel first = arranged kernel second := by
  induction same with
  | refl value => rfl
  | symm reversed inductionHypothesis =>
      have other := lawful.canonical_rearranged reversed.symm canonical
      exact (inductionHypothesis other).symm
  | trans head _ leading trailing =>
      have middle := lawful.canonical_rearranged head canonical
      exact (leading canonical).trans (trailing middle)
  | @listItem _ _ before after inner inductionHypothesis =>
      have part := lawful.listItems canonical _
        (List.mem_append_right before List.mem_cons_self)
      simp [arranged, arrangedItems_eq_map, inductionHypothesis part]
  | @vectorItem _ _ before after inner inductionHypothesis =>
      have part := lawful.vectorItems canonical _
        (List.mem_append_right before List.mem_cons_self)
      simp [arranged, arrangedItems_eq_map, inductionHypothesis part]
  | @setItem _ _ before after inner inductionHypothesis =>
      have part := (lawful.setItems canonical).1 _
        (List.mem_append_right before List.mem_cons_self)
      simp [arranged, arrangedItems_eq_map, inductionHypothesis part,
        itemKey_rearranged lawful inner]
  | @mapKey _ _ value before after inner inductionHypothesis =>
      have part := (lawful.mapEntries canonical).1 _
        (List.mem_append_right before List.mem_cons_self)
      simp [arranged, arrangedEntries_eq_map, inductionHypothesis part.1,
        itemKey_rearranged lawful inner]
  | @mapValue _ _ key before after inner inductionHypothesis =>
      have part := (lawful.mapEntries canonical).1 _
        (List.mem_append_right before List.mem_cons_self)
      simp [arranged, arrangedEntries_eq_map, inductionHypothesis part.2]
  | @nodeField _ _ tag name before after inner inductionHypothesis =>
      have part := (lawful.nodeFields canonical).1 _
        (List.mem_append_right before List.mem_cons_self)
      simp [arranged, arrangedFields_eq_map, inductionHypothesis part]
  | @setOrder first second permuted =>
      obtain ⟨parts, distinct⟩ := lawful.setItems canonical
      have nodup : ((arrangedItems kernel first).map Prod.fst).Nodup := by
        simpa [arrangedItems_eq_map, Function.comp_def] using
          itemKeys_nodup parts distinct
      have moved : (arrangedItems kernel first).Perm
          (arrangedItems kernel second) := by
        simpa [arrangedItems_eq_map] using permuted.map _
      simp only [arranged, sortByKey_eq_of_perm moved nodup]
  | @mapOrder first second permuted =>
      obtain ⟨parts, distinct⟩ := lawful.mapEntries canonical
      have canonicalKeys : ∀ entry ∈ first, kernel.Canonical entry.1 :=
        fun entry member => (parts entry member).1
      have nodup : ((arrangedEntries kernel first).map Prod.fst).Nodup := by
        simpa [arrangedEntries_eq_map, Function.comp_def] using
          itemKeys_nodup canonicalKeys distinct
      have moved : (arrangedEntries kernel first).Perm
          (arrangedEntries kernel second) := by
        simpa [arrangedEntries_eq_map] using permuted.map _
      simp only [arranged, sortByKey_eq_of_perm moved nodup]
  | @nodeOrder first second tag permuted =>
      obtain ⟨parts, distinct⟩ := lawful.nodeFields canonical
      have nodup : ((arrangedFields kernel first).map Prod.fst).Nodup := by
        simpa [arrangedFields_eq_map, Function.comp_def] using
          symbolKeys_nodup distinct
      have moved : (arrangedFields kernel first).Perm
          (arrangedFields kernel second) := by
        simpa [arrangedFields_eq_map] using permuted.map _
      simp only [arranged, sortFields_eq_of_perm moved nodup]

end NormalForm

section Sizes

/-- The bytes of a symbol. -/
def symbolLength (symbol : Symbol) : Nat :=
  match symbol.space with
  | some space => 1 + (8 + (utf8 space).length) + (8 + (utf8 symbol.name).length)
  | none => 1 + (8 + (utf8 symbol.name).length)

mutual

/-- How many bytes a value takes. -/
def encodedLength : Datum → Nat
  | .nil => 1
  | .bool _ => 1
  | .number value =>
      1 + (symbolLength value.domain + (8 + (utf8 value.canonical).length))
  | .symbol value => 1 + symbolLength value
  | .string value => 1 + (8 + (utf8 value).length)
  | .bytes value => 1 + (8 + value.length)
  | .list items => 1 + (8 + itemsLength items)
  | .vector items => 1 + (8 + itemsLength items)
  | .map entries => 1 + (8 + entriesLength entries)
  | .set items => 1 + (8 + itemsLength items)
  | .node tag fields => 1 + (symbolLength tag + (8 + fieldsLength fields))

/-- How many bytes items take. -/
def itemsLength : List Datum → Nat
  | [] => 0
  | item :: rest => encodedLength item + itemsLength rest

/-- How many bytes map entries take. -/
def entriesLength : List (Datum × Datum) → Nat
  | [] => 0
  | (key, value) :: rest =>
      encodedLength key + encodedLength value + entriesLength rest

/-- How many bytes node fields take. -/
def fieldsLength : List (Symbol × Datum) → Nat
  | [] => 0
  | (name, value) :: rest =>
      symbolLength name + encodedLength value + fieldsLength rest

end

variable (kernel : Kernel)

mutual

/-- Every vector of a value's map entries and node fields can be allocated. -/
def Allocated : Datum → Prop
  | .list items => AllocatedItems items
  | .vector items => AllocatedItems items
  | .set items => AllocatedItems items
  | .map entries =>
      2 * kernel.datumSize * entries.length ≤ isizeMax ∧
        AllocatedEntries entries
  | .node _ fields =>
      (kernel.symbolSize + kernel.datumSize) * fields.length ≤ isizeMax ∧
        AllocatedFields fields
  | _ => True

/-- Every item is allocated. -/
def AllocatedItems : List Datum → Prop
  | [] => True
  | item :: rest => Allocated item ∧ AllocatedItems rest

/-- Every map entry is allocated. -/
def AllocatedEntries : List (Datum × Datum) → Prop
  | [] => True
  | (key, value) :: rest =>
      Allocated key ∧ Allocated value ∧ AllocatedEntries rest

/-- Every node field is allocated. -/
def AllocatedFields : List (Symbol × Datum) → Prop
  | [] => True
  | (_, value) :: rest => Allocated value ∧ AllocatedFields rest

end

/--
A value that is held in memory, together with its encoding: its vectors and
the encoded bytes are within the allocation limit.
-/
structure Fits (value : Datum) : Prop where
  allocated : Allocated kernel value
  small : magic.length + encodedLength value ≤ isizeMax

/-- A value whose stored form is within the allocation limit too. -/
structure FitsStored (value : Datum) : Prop extends Fits kernel value where
  storedSmall : 19 + (magic.length + encodedLength value) ≤ isizeMax

theorem putLen_isOk
    {length : Nat}
    (small : length ≤ isizeMax) :
    ∃ bytes, putLen length = .ok bytes ∧ bytes.length = 8 := by
  have inWord : length < 2 ^ 64 :=
    Nat.lt_of_le_of_lt small isizeMax_lt_wordBound
  exact ⟨_, if_pos inWord, be64_length _⟩

theorem putBytes_isOk
    {value : Bytes}
    (small : value.length ≤ isizeMax) :
    ∃ bytes, putBytes value = .ok bytes ∧
      bytes.length = 8 + value.length := by
  obtain ⟨length, put, eight⟩ := putLen_isOk small
  refine ⟨length ++ value, bind_eq_ok.mpr ⟨length, put, rfl⟩, ?_⟩
  rw [List.length_append, eight]

theorem putSymbolText_isOk
    {value : String}
    (small : (utf8 value).length ≤ isizeMax) :
    ∃ bytes, putSymbolText value = .ok bytes ∧
      bytes.length = 8 + (utf8 value).length := by
  obtain ⟨bytes, put, length⟩ := putBytes_isOk small
  exact ⟨bytes, by simp only [putSymbolText, put], length⟩

theorem putSymbol_isOk
    {value : Symbol}
    (small : symbolLength value ≤ isizeMax) :
    ∃ bytes, putSymbol value = .ok bytes ∧
      bytes.length = symbolLength value := by
  obtain ⟨space, name⟩ := value
  cases space with
  | none =>
      simp only [symbolLength] at small ⊢
      obtain ⟨bytes, put, length⟩ :=
        @putSymbolText_isOk name (by omega)
      refine ⟨0 :: bytes, bind_eq_ok.mpr ⟨bytes, put, rfl⟩, ?_⟩
      rw [List.length_cons, length, Nat.add_comm]
  | some space =>
      simp only [symbolLength] at small ⊢
      obtain ⟨leading, putSpace, leadingLength⟩ :=
        @putSymbolText_isOk space (by omega)
      obtain ⟨trailing, putName, trailingLength⟩ :=
        @putSymbolText_isOk name (by omega)
      refine ⟨1 :: (leading ++ trailing), bind_eq_ok.mpr ⟨leading, putSpace,
        bind_eq_ok.mpr ⟨trailing, putName, rfl⟩⟩, ?_⟩
      rw [List.length_cons, List.length_append, leadingLength, trailingLength]
      omega

/-- Sorting parts keeps the number of their bytes. -/
private theorem flatten_length_perm
    {κ : Type} {first second : List (κ × Bytes)}
    (same : first.Perm second) :
    (first.map Prod.snd).flatten.length =
      (second.map Prod.snd).flatten.length :=
  (same.map Prod.snd).flatten.length_eq

theorem encodedLength_pos
    (value : Datum) :
    0 < encodedLength value := by
  cases value <;> simp [encodedLength]

theorem length_le_itemsLength
    (items : List Datum) :
    items.length ≤ itemsLength items := by
  induction items with
  | nil => exact Nat.le_refl _
  | cons item rest inductionHypothesis =>
      have positive := encodedLength_pos item
      simp only [List.length_cons, itemsLength]
      omega

theorem length_le_entriesLength
    (entries : List (Datum × Datum)) :
    entries.length ≤ entriesLength entries := by
  induction entries with
  | nil => exact Nat.le_refl _
  | cons entry rest inductionHypothesis =>
      obtain ⟨key, value⟩ := entry
      have positive := encodedLength_pos key
      simp only [List.length_cons, entriesLength]
      omega

theorem length_le_fieldsLength
    (fields : List (Symbol × Datum)) :
    fields.length ≤ fieldsLength fields := by
  induction fields with
  | nil => exact Nat.le_refl _
  | cons field rest inductionHypothesis =>
      obtain ⟨name, value⟩ := field
      have positive := encodedLength_pos value
      simp only [List.length_cons, fieldsLength]
      omega

/-- A counted container behind its tag, given its parts. -/
private theorem counted_isOk
    {κ : Type} {count : Nat} {encoded sorted : List (κ × Bytes)} {size : Nat}
    {leading : Bytes}
    (tag : UInt8)
    (small : count ≤ isizeMax)
    (same : sorted.Perm encoded)
    (sized : (encoded.map Prod.snd).flatten.length = size) :
    ∃ length : Bytes, putLen count = .ok length ∧
      (tag :: (leading ++ (length ++ (sorted.map Prod.snd).flatten))).length =
        1 + (leading.length + (8 + size)) := by
  obtain ⟨length, put, eight⟩ := putLen_isOk small
  refine ⟨length, put, ?_⟩
  simp only [List.length_cons, List.length_append, eight,
    flatten_length_perm same, sized]
  omega

mutual

/-- An allocated value of limited length is written, in that length. -/
theorem putDatum_isOk :
    ∀ value : Datum, Allocated kernel value → encodedLength value ≤ isizeMax →
      ∃ bytes, putDatum kernel value = .ok bytes ∧
        bytes.length = encodedLength value
  | .nil, _, _ => ⟨_, rfl, rfl⟩
  | .bool false, _, _ => ⟨_, rfl, rfl⟩
  | .bool true, _, _ => ⟨_, rfl, rfl⟩
  | .number value, _, small => by
      simp only [encodedLength] at small ⊢
      obtain ⟨domain, putDomain, domainLength⟩ :=
        @putSymbol_isOk value.domain (by omega)
      obtain ⟨text, putText, textLength⟩ :=
        @putBytes_isOk (utf8 value.canonical) (by omega)
      refine ⟨3 :: (domain ++ text), bind_eq_ok.mpr ⟨domain, putDomain,
        bind_eq_ok.mpr ⟨text, putText, rfl⟩⟩, ?_⟩
      rw [List.length_cons, List.length_append, domainLength, textLength]
      omega
  | .symbol value, _, small => by
      simp only [encodedLength] at small ⊢
      obtain ⟨bytes, put, length⟩ := @putSymbol_isOk value (by omega)
      refine ⟨4 :: bytes, bind_eq_ok.mpr ⟨bytes, put, rfl⟩, ?_⟩
      rw [List.length_cons, length, Nat.add_comm]
  | .string value, _, small => by
      simp only [encodedLength] at small ⊢
      obtain ⟨bytes, put, length⟩ := @putBytes_isOk (utf8 value) (by omega)
      refine ⟨5 :: bytes, bind_eq_ok.mpr ⟨bytes, put, rfl⟩, ?_⟩
      rw [List.length_cons, length, Nat.add_comm]
  | .bytes value, _, small => by
      simp only [encodedLength] at small ⊢
      obtain ⟨bytes, put, length⟩ := @putBytes_isOk value (by omega)
      refine ⟨6 :: bytes, bind_eq_ok.mpr ⟨bytes, put, rfl⟩, ?_⟩
      rw [List.length_cons, length, Nat.add_comm]
  | .list items, allocated, small => by
      simp only [encodedLength] at small ⊢
      obtain ⟨encoded, putParts, size⟩ :=
        putItems_isOk items allocated (by omega)
      have bound := length_le_itemsLength items
      obtain ⟨count, putCount, length⟩ := @counted_isOk _ items.length
        encoded encoded _ [] 7 (by omega) (.refl _) size
      refine ⟨_, bind_eq_ok.mpr ⟨count, putCount,
        bind_eq_ok.mpr ⟨encoded, putParts, rfl⟩⟩, ?_⟩
      simpa using length
  | .vector items, allocated, small => by
      simp only [encodedLength] at small ⊢
      obtain ⟨encoded, putParts, size⟩ :=
        putItems_isOk items allocated (by omega)
      have bound := length_le_itemsLength items
      obtain ⟨count, putCount, length⟩ := @counted_isOk _ items.length
        encoded encoded _ [] 8 (by omega) (.refl _) size
      refine ⟨_, bind_eq_ok.mpr ⟨count, putCount,
        bind_eq_ok.mpr ⟨encoded, putParts, rfl⟩⟩, ?_⟩
      simpa using length
  | .set items, allocated, small => by
      simp only [encodedLength] at small ⊢
      obtain ⟨encoded, putParts, size⟩ :=
        putItems_isOk items allocated (by omega)
      have bound := length_le_itemsLength items
      obtain ⟨count, putCount, length⟩ := @counted_isOk _ items.length
        encoded _ _ [] 10 (by omega) (sortByKey_perm encoded) size
      refine ⟨_, bind_eq_ok.mpr ⟨count, putCount,
        bind_eq_ok.mpr ⟨encoded, putParts, rfl⟩⟩, ?_⟩
      simpa using length
  | .map entries, allocated, small => by
      simp only [encodedLength] at small ⊢
      obtain ⟨room, parts⟩ := allocated
      obtain ⟨encoded, putParts, size⟩ :=
        putEntries_isOk entries parts (by omega)
      have bound := length_le_entriesLength entries
      obtain ⟨count, putCount, length⟩ := @counted_isOk _ entries.length
        encoded _ _ [] 9 (by omega) (sortByKey_perm encoded) size
      refine ⟨_, bind_eq_ok.mpr ⟨(), if_pos room, bind_eq_ok.mpr
        ⟨count, putCount, bind_eq_ok.mpr ⟨encoded, putParts, rfl⟩⟩⟩, ?_⟩
      simpa using length
  | .node tag fields, allocated, small => by
      simp only [encodedLength] at small ⊢
      obtain ⟨room, parts⟩ := allocated
      obtain ⟨symbol, putTag, tagLength⟩ := @putSymbol_isOk tag (by omega)
      obtain ⟨encoded, putParts, size⟩ :=
        putFields_isOk fields parts (by omega)
      have bound := length_le_fieldsLength fields
      obtain ⟨count, putCount, length⟩ := @counted_isOk _ fields.length
        encoded _ _ symbol 11 (by omega) (sortFields_perm encoded) size
      refine ⟨_, bind_eq_ok.mpr ⟨symbol, putTag, bind_eq_ok.mpr
        ⟨(), if_pos room, bind_eq_ok.mpr
          ⟨count, putCount, bind_eq_ok.mpr ⟨encoded, putParts, rfl⟩⟩⟩⟩, ?_⟩
      rw [← tagLength]
      exact length

theorem putItems_isOk :
    ∀ items : List Datum, AllocatedItems kernel items →
      itemsLength items ≤ isizeMax →
      ∃ encoded, putItems kernel items = .ok encoded ∧
        (encoded.map Prod.snd).flatten.length = itemsLength items
  | [], _, _ => ⟨[], rfl, rfl⟩
  | item :: rest, allocated, small => by
      simp only [itemsLength] at small ⊢
      obtain ⟨bytes, put, length⟩ :=
        putDatum_isOk item allocated.1 (by omega)
      obtain ⟨tail, putRest, size⟩ :=
        putItems_isOk rest allocated.2 (by omega)
      refine ⟨(itemKey kernel item, bytes) :: tail, bind_eq_ok.mpr
        ⟨bytes, put, bind_eq_ok.mpr ⟨tail, putRest, rfl⟩⟩, ?_⟩
      rw [List.map_cons, List.flatten_cons, List.length_append, length, size]

theorem putEntries_isOk :
    ∀ entries : List (Datum × Datum), AllocatedEntries kernel entries →
      entriesLength entries ≤ isizeMax →
      ∃ encoded, putEntries kernel entries = .ok encoded ∧
        (encoded.map Prod.snd).flatten.length = entriesLength entries
  | [], _, _ => ⟨[], rfl, rfl⟩
  | (key, value) :: rest, allocated, small => by
      simp only [entriesLength] at small ⊢
      obtain ⟨keyBytes, putKey, keyLength⟩ :=
        putDatum_isOk key allocated.1 (by omega)
      obtain ⟨valueBytes, putValue, valueLength⟩ :=
        putDatum_isOk value allocated.2.1 (by omega)
      obtain ⟨tail, putRest, size⟩ :=
        putEntries_isOk rest allocated.2.2 (by omega)
      refine ⟨(itemKey kernel key, keyBytes ++ valueBytes) :: tail,
        bind_eq_ok.mpr ⟨keyBytes, putKey, bind_eq_ok.mpr
          ⟨valueBytes, putValue, bind_eq_ok.mpr ⟨tail, putRest, rfl⟩⟩⟩, ?_⟩
      rw [List.map_cons, List.flatten_cons, List.length_append,
        List.length_append, keyLength, valueLength, size]

theorem putFields_isOk :
    ∀ fields : List (Symbol × Datum), AllocatedFields kernel fields →
      fieldsLength fields ≤ isizeMax →
      ∃ encoded, putFields kernel fields = .ok encoded ∧
        (encoded.map Prod.snd).flatten.length = fieldsLength fields
  | [], _, _ => ⟨[], rfl, rfl⟩
  | (name, value) :: rest, allocated, small => by
      simp only [fieldsLength] at small ⊢
      obtain ⟨nameBytes, putName, nameLength⟩ :=
        @putSymbol_isOk name (by omega)
      obtain ⟨valueBytes, putValue, valueLength⟩ :=
        putDatum_isOk value allocated.1 (by omega)
      obtain ⟨tail, putRest, size⟩ :=
        putFields_isOk rest allocated.2 (by omega)
      refine ⟨(symbolKey name, nameBytes ++ valueBytes) :: tail,
        bind_eq_ok.mpr ⟨nameBytes, putName, bind_eq_ok.mpr
          ⟨valueBytes, putValue, bind_eq_ok.mpr ⟨tail, putRest, rfl⟩⟩⟩, ?_⟩
      rw [List.map_cons, List.flatten_cons, List.length_append,
        List.length_append, nameLength, valueLength, size]

end

variable {kernel}

/-- A canonical value that fits has an encoding, of its length. -/
theorem encode_isOk
    {value : Datum}
    (canonical : kernel.Canonical value)
    (fits : Fits kernel value) :
    ∃ bytes, encode kernel value = .ok bytes ∧
      bytes.length = magic.length + encodedLength value := by
  have small := fits.small
  obtain ⟨body, put, length⟩ :=
    putDatum_isOk kernel value fits.allocated (by omega)
  obtain ⟨form, formed⟩ := Option.isSome_iff_exists.mp canonical
  have whole : (magic ++ body).length = magic.length + encodedLength value := by
    rw [List.length_append, length]
  refine ⟨magic ++ body, ?_, whole⟩
  simp only [encode, formed]
  exact bind_eq_ok.mpr
    ⟨body, put, finishBytes_eq_ok.mpr ⟨rfl, by rw [whole]; exact small⟩⟩

end Sizes

end SimStorage.Journal.DatumCodec

namespace SimStorage.Journal.JournalObject

open Codec

variable {kernel : Kernel}

/-- A canonical object that fits has storage bytes. -/
theorem storageBytes_isOk
    {object : JournalObject}
    (canonical : kernel.Canonical object.datum)
    (fits : DatumCodec.FitsStored kernel object.datum) :
    ∃ bytes, object.storageBytes kernel = .ok bytes := by
  obtain ⟨encoded, put, length⟩ :=
    DatumCodec.encode_isOk canonical fits.toFits
  refine ⟨_, bind_eq_ok.mpr
    ⟨encoded, put, finishBytes_eq_ok.mpr ⟨rfl, ?_⟩⟩⟩
  have small := fits.storedSmall
  have magicLength : storageMagic.length = 11 := rfl
  rw [List.length_append, List.length_append, be64_length, length,
    magicLength]
  omega

end SimStorage.Journal.JournalObject
