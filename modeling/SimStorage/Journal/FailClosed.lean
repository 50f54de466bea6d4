import SimStorage.Codec.Failing
import SimStorage.Journal.Exact
import SimStorage.Journal.NativeInverse

namespace SimStorage.Journal

/-!
# Where the decoders of native bytes panic

Every length that a decoder reads is checked against the bytes that are left,
except the counts for which it allocates at once: those of maps and nodes in a
datum, and those of payloads in an entry leaf.  A decoder panics exactly where
it reaches such a count and no allocation is that large.
-/

open Codec

variable {kernel : Kernel}

section Faults

/-- The fault is a panic. -/
def IsPanic : Fault → Prop
  | .panicked _ => True
  | .refused _ => False

theorem refusal_calm
    {error : JournalError} :
    ¬ IsPanic (.refused error) :=
  fun isPanic => isPanic

theorem panics_iff
    {α : Type} {result : Result α} :
    Panics result ↔ ∃ fault, result = .error fault ∧ IsPanic fault := by
  constructor
  · rintro ⟨message, rfl⟩
    exact ⟨_, rfl, trivial⟩
  · rintro ⟨fault, rfl, isPanic⟩
    cases fault with
    | panicked message => exact ⟨message, rfl⟩
    | refused error => exact isPanic.elim

theorem okOr_refuses
    {α : Type} {value : Option α} {error : JournalError} {fault : Fault}
    (failed : okOr value error = .error fault) :
    ¬ IsPanic fault := by
  intro isPanic
  exact not_panics_okOr (panics_iff.mpr ⟨fault, failed, isPanic⟩)

/-- An allocation panics beyond its limit only. -/
theorem withCapacity_fails
    {size count : Nat} :
    (∃ fault, withCapacity size count = .error fault ∧ IsPanic fault) ↔
      isizeMax < size * count := by
  unfold withCapacity
  split
  next fits =>
    refine iff_of_false ?_ (Nat.not_lt_of_le fits)
    rintro ⟨_, ⟨⟩, _⟩
  next large =>
    exact iff_of_true ⟨_, rfl, trivial⟩ (Nat.lt_of_not_le large)

theorem withCapacity_ok
    {size count : Nat} {done : Unit} :
    withCapacity size count = .ok done ↔ size * count ≤ isizeMax := by
  unfold withCapacity
  split
  next fits => exact iff_of_true rfl fits
  next large => exact iff_of_false (by rintro ⟨⟩) large

/-- What stands behind a magic fails behind it. -/
theorem magic_fails
    {α : Type} {mismatch : Fault} {magic : Bytes} {length : Nat}
    {check : Bytes → Result Unit} {next : Decoder Fault α}
    {demand : Bytes → Prop}
    (overflow truncated : Fault)
    (overflows : ¬ IsPanic overflow)
    (truncates : ¬ IsPanic truncated)
    (mismatches : ¬ IsPanic mismatch)
    (sized : magic.length = length)
    (checks : ∀ found, check found =
      if found = magic then .ok () else .error mismatch)
    (later : FailsOn IsPanic next demand) :
    FailsOn IsPanic (Decoder.take overflow truncated length >>= fun found =>
        Decoder.lift (check found) >>= fun _ => next) fun rest =>
      ∃ body, rest = magic ++ body ∧ demand body := by
  refine (FailsOn.behind (.take overflows truncates) .take ?_ fun found =>
    FailsOn.checked fun _ _ => later).congr fun rest => ⟨?_, ?_⟩
  · rintro _ bytes ⟨rfl, size⟩
    exact .take size
  · rintro ⟨_, found, body, rfl, ⟨rfl, _⟩, ⟨fault, failed, isPanic⟩ |
      ⟨_, passed, late⟩⟩
    · rw [checks] at failed
      split at failed
      · cases failed
      · cases failed
        exact (mismatches isPanic).elim
    · rw [checks] at passed
      split at passed
      next same => exact ⟨body, by rw [same], late⟩
      next => cases passed
  · rintro ⟨body, rfl, late⟩
    refine ⟨magic, magic, body, rfl, ⟨rfl, sized⟩, .inr ⟨(), ?_, late⟩⟩
    rw [checks, if_pos rfl]

end Faults

namespace DatumCodec

section Readers

theorem take_closed
    {length : Nat} :
    NeverFails IsPanic (take length) :=
  .take refusal_calm refusal_calm

theorem byte_closed :
    NeverFails IsPanic byte :=
  .bind take_closed fun _ => .pure

theorem len_closed :
    NeverFails IsPanic len :=
  .bind take_closed fun _ => .pure

theorem bytes_closed :
    NeverFails IsPanic bytes :=
  .bind len_closed fun _ => take_closed

theorem text_closed :
    NeverFails IsPanic text :=
  .bind bytes_closed fun _ => .lift fun _ => okOr_refuses

theorem symbol_closed :
    NeverFails IsPanic symbol := by
  refine .bind byte_closed fun tag => ?_
  split
  · exact .bind text_closed fun _ => .pure
  · split
    · exact .bind text_closed fun _ => .bind text_closed fun _ => .pure
    · exact .fail refusal_calm

theorem byte_local :
    Local byte :=
  .bind .take fun _ => .pure

theorem len_local :
    Local len :=
  .bind .take fun _ => .pure

theorem bytes_local :
    Local bytes :=
  .bind len_local fun _ => .take

theorem text_local :
    Local text :=
  .bind bytes_local fun _ => .lift

theorem symbol_local :
    Local symbol := by
  refine .bind byte_local fun tag => ?_
  split
  · exact .bind text_local fun _ => .pure
  · split
    · exact .bind text_local fun _ => .bind text_local fun _ => .pure
    · exact .fail

theorem items_local
    {nested : Reader Datum}
    (each : Local nested) :
    Local (items nested) :=
  .bind len_local fun count => .many each count

theorem entry_local
    {nested : Reader Datum}
    (each : Local nested) :
    Local (entry nested) :=
  .bind each fun _ => .bind each fun _ => .pure

theorem field_local
    {nested : Reader Datum}
    (each : Local nested) :
    Local (field nested) :=
  .bind symbol_local fun _ => .bind each fun _ => .pure

/-- A datum is read from its own bytes. -/
theorem datum_local :
    ∀ depth, Local (datum kernel depth)
  | 0 => .fail
  | depth + 1 => by
      have each := datum_local depth
      refine .bind byte_local fun tag => ?_
      generalize tag.toNat = code
      rcases code with _ | _ | _ | _ | _ | _ | _ | _ | _ | _ | _ | _ | code
      · exact .pure
      · exact .pure
      · exact .pure
      · exact .bind symbol_local fun _ => .bind text_local fun _ => .pure
      · exact .bind symbol_local fun _ => .pure
      · exact .bind text_local fun _ => .pure
      · exact .bind bytes_local fun _ => .pure
      · exact .bind (items_local each) fun _ => .pure
      · exact .bind (items_local each) fun _ => .pure
      · exact .bind len_local fun count => .bind .lift fun _ =>
          .bind (.many (entry_local each) count) fun _ => .pure
      · exact .bind (items_local each) fun _ => .pure
      · exact .bind symbol_local fun _ => .bind len_local fun count =>
          .bind .lift fun _ =>
            .bind (.many (field_local each) count) fun _ => .pure
      · exact .fail

theorem byte_spelling :
    Spelling byte fun value bytes => bytes = [value] := by
  refine .bind .take fun bytes _ ⟨same, sized⟩ => .pure ?_
  subst same
  obtain ⟨value, rfl⟩ := List.length_eq_one_iff.mp sized
  rfl

/-- A length is spelled by the eight bytes of a word. -/
def SpelledLen (count : Nat) (bytes : Bytes) : Prop :=
  ∃ word : UInt64, count = word.toNat ∧ bytes = be64 word

theorem len_spelling :
    Spelling len SpelledLen := by
  refine .bind .take fun bytes _ ⟨same, sized⟩ => .pure ?_
  subst same
  exact ⟨_, rfl, by rw [List.append_nil, be64_fromBe64 sized]⟩

theorem len_decodes
    (count : Nat) (bytes : Bytes)
    (spelled : SpelledLen count bytes) :
    Decodes len bytes count := by
  obtain ⟨word, rfl, rfl⟩ := spelled
  have read : Decodes len (be64 word) (fromBe64 (be64 word)).toNat :=
    .bind_done (.take (be64_length word)) (.pure _)
  rwa [fromBe64_be64] at read

end Readers

section Demands

/-- An entry of a map fails in its key or, behind the key, in its value. -/
def EntryDemand (nested : Reader Datum) (demand : Bytes → Prop)
    (rest : Bytes) : Prop :=
  demand rest ∨
    Behind (fun value bytes => Decodes nested bytes value) (fun _ => demand)
      rest

/-- A field of a node fails in its value. -/
def FieldDemand (demand : Bytes → Prop) : Bytes → Prop :=
  Behind (fun value bytes => Decodes symbol bytes value) fun _ => demand

/-- A container whose count no allocation holds, or with such an item. -/
inductive Container (kernel : Kernel) (nested : Reader Datum)
    (demand : Bytes → Prop) : Bytes → Prop where
  | items {tag : UInt8} {count : UInt64} {rest : Bytes} :
      tag = 7 ∨ tag = 8 ∨ tag = 10 → Among nested demand count.toNat rest →
      Container kernel nested demand (tag :: (be64 count ++ rest))
  | entries {count : UInt64} {rest : Bytes} :
      isizeMax < 2 * kernel.datumSize * count.toNat →
      Container kernel nested demand (9 :: (be64 count ++ rest))
  | withinEntries {count : UInt64} {rest : Bytes} :
      2 * kernel.datumSize * count.toNat ≤ isizeMax →
      Among (entry nested) (EntryDemand nested demand) count.toNat rest →
      Container kernel nested demand (9 :: (be64 count ++ rest))
  | fields {name : Symbol} {leading : Bytes} {count : UInt64} {rest : Bytes} :
      Decodes symbol leading name →
      isizeMax < (kernel.symbolSize + kernel.datumSize) * count.toNat →
      Container kernel nested demand (11 :: (leading ++ (be64 count ++ rest)))
  | withinFields {name : Symbol} {leading : Bytes} {count : UInt64}
      {rest : Bytes} :
      Decodes symbol leading name →
      (kernel.symbolSize + kernel.datumSize) * count.toNat ≤ isizeMax →
      Among (field nested) (FieldDemand demand) count.toNat rest →
      Container kernel nested demand (11 :: (leading ++ (be64 count ++ rest)))

/-- Some container of a datum has a count that no allocation holds. -/
def Overcommits (kernel : Kernel) : Nat → Bytes → Prop
  | 0 => fun _ => False
  | depth + 1 =>
      Container kernel (datum kernel depth) (Overcommits kernel depth)

end Demands

section Failing

variable {nested : Reader Datum} {demand : Bytes → Prop} {α : Type}

/-- What follows a tag fails behind it. -/
theorem byte_fails
    {next : UInt8 → Reader α}
    (later : ∀ tag, FailsOn IsPanic (next tag) fun rest => demand (tag :: rest))
    (empty : ¬ demand []) :
    FailsOn IsPanic (byte >>= next) demand := by
  have decodes (tag : UInt8) (bytes : Bytes) (same : bytes = [tag]) :
      Decodes byte bytes tag := by
    rw [same]
    exact byte_decodes tag
  refine (FailsOn.behind byte_closed byte_spelling decodes later).congr
    fun rest => ⟨?_, ?_⟩
  · rintro ⟨tag, _, trailing, rfl, rfl, late⟩
    exact late
  · intro late
    cases rest with
    | nil => exact (empty late).elim
    | cons tag rest => exact ⟨tag, [tag], rest, rfl, rfl, late⟩

/-- What follows a length fails behind its eight bytes. -/
theorem len_fails
    {next : Nat → Reader α} {further : Nat → Bytes → Prop}
    (later : ∀ count, FailsOn IsPanic (next count) (further count)) :
    FailsOn IsPanic (len >>= next) fun rest =>
      ∃ (word : UInt64) (trailing : Bytes), rest = be64 word ++ trailing ∧
        further word.toNat trailing := by
  refine (FailsOn.behind len_closed len_spelling len_decodes later).congr
    fun rest => ⟨?_, ?_⟩
  · rintro ⟨_, _, trailing, rfl, ⟨word, rfl, rfl⟩, late⟩
    exact ⟨word, trailing, rfl, late⟩
  · rintro ⟨word, trailing, rfl, late⟩
    exact ⟨_, _, trailing, rfl, ⟨word, rfl, rfl⟩, late⟩

theorem items_fails
    (each : Local nested)
    (fails : FailsOn IsPanic nested demand) :
    FailsOn IsPanic (items nested) fun rest =>
      ∃ (word : UInt64) (trailing : Bytes), rest = be64 word ++ trailing ∧
        Among nested demand word.toNat trailing :=
  len_fails fun count => .many fails each count

/-- An allocation for a count, and then that many items. -/
theorem allocated_fails
    {β : Type} {item : Reader α} {size : Nat} {inside : Bytes → Prop}
    (each : Local item)
    (fails : FailsOn IsPanic item inside)
    (make : List α → β)
    (count : Nat) :
    FailsOn IsPanic (Decoder.lift (withCapacity size count) >>= fun _ =>
        Decoder.many item count >>= fun found =>
          (pure (make found) : Reader β)) fun rest =>
      isizeMax < size * count ∨
        size * count ≤ isizeMax ∧ Among item inside count rest := by
  refine (FailsOn.checked fun _ _ =>
    (FailsOn.many fails each count).ending fun _ => .pure).congr
      fun rest => or_congr withCapacity_fails ?_
  constructor
  · rintro ⟨_, fits, among⟩
    exact ⟨withCapacity_ok.mp fits, among⟩
  · rintro ⟨fits, among⟩
    exact ⟨(), withCapacity_ok.mpr fits, among⟩

theorem entry_fails
    (each : Local nested)
    (fails : FailsOn IsPanic nested demand) :
    FailsOn IsPanic (entry nested) (EntryDemand nested demand) :=
  .bind fails each (fun _ _ read => read) fun _ =>
    fails.ending fun _ => .pure

theorem field_fails
    (fails : FailsOn IsPanic nested demand) :
    FailsOn IsPanic (field nested) (FieldDemand demand) :=
  .behind symbol_closed symbol_local (fun _ _ read => read) fun _ =>
    fails.ending fun _ => .pure

variable {tag : UInt8} {rest : Bytes}

/-- The other tags are not those of containers. -/
theorem not_container
    (plain : tag ∉ [7, 8, 9, 10, 11]) :
    ¬ Container kernel nested demand (tag :: rest) := by
  intro container
  cases container with
  | items sequence _ =>
      rcases sequence with rfl | rfl | rfl <;> exact plain (by decide)
  | entries => exact plain (by decide)
  | withinEntries => exact plain (by decide)
  | fields => exact plain (by decide)
  | withinFields => exact plain (by decide)

theorem container_items
    (sequence : tag = 7 ∨ tag = 8 ∨ tag = 10) :
    Container kernel nested demand (tag :: rest) ↔
      ∃ (word : UInt64) (trailing : Bytes), rest = be64 word ++ trailing ∧
        Among nested demand word.toNat trailing := by
  constructor
  · intro container
    cases container with
    | items _ among => exact ⟨_, _, rfl, among⟩
    | entries => exact absurd sequence (by decide)
    | withinEntries => exact absurd sequence (by decide)
    | fields => exact absurd sequence (by decide)
    | withinFields => exact absurd sequence (by decide)
  · rintro ⟨word, trailing, rfl, among⟩
    exact .items sequence among

theorem container_entries :
    Container kernel nested demand (9 :: rest) ↔
      ∃ (word : UInt64) (trailing : Bytes), rest = be64 word ++ trailing ∧
        (isizeMax < 2 * kernel.datumSize * word.toNat ∨
          2 * kernel.datumSize * word.toNat ≤ isizeMax ∧
            Among (entry nested) (EntryDemand nested demand) word.toNat
              trailing) := by
  constructor
  · intro container
    cases container with
    | items sequence _ => exact absurd sequence (by decide)
    | entries large => exact ⟨_, _, rfl, .inl large⟩
    | withinEntries fits among => exact ⟨_, _, rfl, .inr ⟨fits, among⟩⟩
  · rintro ⟨word, trailing, rfl, large | ⟨fits, among⟩⟩
    · exact .entries large
    · exact .withinEntries fits among

theorem container_fields :
    Container kernel nested demand (11 :: rest) ↔
      Behind (fun value bytes => Decodes symbol bytes value)
        (fun _ rest => ∃ (word : UInt64) (trailing : Bytes),
          rest = be64 word ++ trailing ∧
            (isizeMax <
                (kernel.symbolSize + kernel.datumSize) * word.toNat ∨
              (kernel.symbolSize + kernel.datumSize) * word.toNat ≤
                  isizeMax ∧
                Among (field nested) (FieldDemand demand) word.toNat
                  trailing)) rest := by
  constructor
  · intro container
    cases container with
    | items sequence _ => exact absurd sequence (by decide)
    | fields read large =>
        exact ⟨_, _, _, rfl, read, _, _, rfl, .inl large⟩
    | withinFields read fits among =>
        exact ⟨_, _, _, rfl, read, _, _, rfl, .inr ⟨fits, among⟩⟩
  · rintro ⟨name, leading, _, rfl, read, word, trailing, rfl,
      large | ⟨fits, among⟩⟩
    · exact .fields read large
    · exact .withinFields read fits among

/-- The reader of a datum panics where a container overcommits. -/
theorem datum_fails :
    ∀ depth, FailsOn IsPanic (datum kernel depth) (Overcommits kernel depth)
  | 0 => .never (.fail refusal_calm)
  | depth + 1 => by
      have each : Local (datum kernel depth) := datum_local depth
      have fails := datum_fails depth
      have plain {reader : Reader Datum} {tag : UInt8}
          (safe : NeverFails IsPanic reader)
          (other : tag ∉ [7, 8, 9, 10, 11]) :
          FailsOn IsPanic reader fun rest =>
            Overcommits kernel (depth + 1) (tag :: rest) :=
        (FailsOn.never safe).congr fun _ => iff_of_false id
          (not_container other)
      have sequence {tag : UInt8} (make : List Datum → Datum)
          (listed : tag = 7 ∨ tag = 8 ∨ tag = 10) :
          FailsOn IsPanic (items (datum kernel depth) >>= fun found =>
              (pure (make found) : Reader Datum)) fun rest =>
            Overcommits kernel (depth + 1) (tag :: rest) :=
        ((items_fails each fails).ending fun _ => .pure).congr fun _ =>
          (container_items listed).symm
      refine byte_fails (fun tag => ?_) ?_
      swap
      · rintro ⟨⟩
      have same {code : UInt8} (spelled : tag.toNat = code.toNat) :
          tag = code :=
        UInt8.toNat_inj.mp spelled
      generalize spelled : tag.toNat = code at same
      rcases code with _ | _ | _ | _ | _ | _ | _ | _ | _ | _ | _ | _ | code
      · obtain rfl : tag = 0 := same rfl
        exact plain .pure (by decide)
      · obtain rfl : tag = 1 := same rfl
        exact plain .pure (by decide)
      · obtain rfl : tag = 2 := same rfl
        exact plain .pure (by decide)
      · obtain rfl : tag = 3 := same rfl
        exact plain (.bind symbol_closed fun _ => .bind text_closed fun _ =>
          .pure) (by decide)
      · obtain rfl : tag = 4 := same rfl
        exact plain (.bind symbol_closed fun _ => .pure) (by decide)
      · obtain rfl : tag = 5 := same rfl
        exact plain (.bind text_closed fun _ => .pure) (by decide)
      · obtain rfl : tag = 6 := same rfl
        exact plain (.bind bytes_closed fun _ => .pure) (by decide)
      · obtain rfl : tag = 7 := same rfl
        exact sequence .list (.inl rfl)
      · obtain rfl : tag = 8 := same rfl
        exact sequence .vector (.inr (.inl rfl))
      · obtain rfl : tag = 9 := same rfl
        exact (len_fails (allocated_fails (entry_local each)
          (entry_fails each fails) Datum.map)).congr fun _ =>
            container_entries.symm
      · obtain rfl : tag = 10 := same rfl
        exact sequence .set (.inr (.inr rfl))
      · obtain rfl : tag = 11 := same rfl
        exact (FailsOn.behind symbol_closed symbol_local (fun _ _ read => read)
          fun name => len_fails (allocated_fails (field_local each)
            (field_fails fails) (Datum.node name))).congr fun _ =>
              container_fields.symm
      · refine plain (.fail refusal_calm) fun member => ?_
        simp only [List.mem_cons, List.not_mem_nil, or_false] at member
        rcases member with rfl | rfl | rfl | rfl | rfl <;> cases spelled

theorem checkCanonical_cases
    (kernel : Kernel) (value : Datum) :
    (kernel.Canonical value ∧ checkCanonical kernel value = .ok value) ∨
      checkCanonical kernel value = refuse .nonCanonicalDatum := by
  unfold checkCanonical Kernel.Canonical
  cases kernel.canonicalBytes value with
  | none => exact .inr rfl
  | some written => exact .inl ⟨rfl, rfl⟩

/-- The decoder of a datum panics where one of its containers overcommits. -/
theorem decode_panics
    {bytes : Bytes}
    (inMemory : bytes.length ≤ isizeMax) :
    Panics (decode kernel bytes) ↔
      ∃ body, bytes = magic ++ body ∧ Overcommits kernel bytes.length body := by
  have checks (found : Bytes) :
      checkMagic found = if found = magic then .ok () else
        .error (corrupt "datum format") :=
    rfl
  have canonical (value : Datum) :
      NeverFails IsPanic (Decoder.lift (checkCanonical kernel value)) := by
    refine .lift fun fault failed => ?_
    rcases checkCanonical_cases kernel value with ⟨_, passed⟩ | refused
    · rw [passed] at failed
      cases failed
    · rw [refused] at failed
      cases failed
      exact refusal_calm
  have body : FailsOn IsPanic (datum kernel bytes.length >>= fun value =>
      Decoder.finish (corrupt "trailing datum bytes") >>= fun _ =>
        Decoder.lift (checkCanonical kernel value))
      (Overcommits kernel bytes.length) :=
    (datum_fails bytes.length).ending fun value =>
      .bind (.finish refusal_calm) fun _ => canonical value
  have inWord : 0 + bytes.length < wordBound := by
    rw [Nat.zero_add]
    exact Nat.lt_of_le_of_lt inMemory isizeMax_lt_wordBound
  have sized : magic.length = 10 := rfl
  have whole := magic_fails (corrupt "datum length") (corrupt "truncated datum")
    refusal_calm refusal_calm refusal_calm sized checks body 0 bytes inWord
  exact (panics_iff.trans run_fails).trans whole

end Failing

section Sizes

/-- A value as it is read: allocated, and as long as its bytes. -/
def Sized (kernel : Kernel) (value : Datum) (bytes : Bytes) : Prop :=
  Allocated kernel value ∧ encodedLength value = bytes.length

theorem bytes_sized :
    Spelling bytes fun value bytes => 8 + value.length = bytes.length := by
  refine .bind len_spelling fun count _ ⟨word, same, spelt⟩ => ?_
  subst same spelt
  intro cursor value later accepted
  obtain ⟨found, taken, rfl, sized⟩ := Spelling.take cursor value later accepted
  refine ⟨value, taken, ?_⟩
  dsimp only
  rw [List.length_append, be64_length]

theorem text_sized :
    Spelling text fun value bytes =>
      8 + (utf8 value).length = bytes.length := by
  refine .bind bytes_sized fun found _ size => .lift fun value accepted => ?_
  rw [utf8_of_fromUtf8 (okOr_eq_ok.mp accepted), List.append_nil]
  exact size

theorem symbol_sized :
    Spelling symbol fun value bytes => symbolLength value = bytes.length := by
  refine .bind byte_spelling fun tag _ spelt => ?_
  subst spelt
  split
  · refine .bind text_sized fun name leading size => .pure ?_
    simp only [List.length_append, List.length_cons, List.length_nil, ← size]
    rfl
  · split
    · refine .bind text_sized fun space leading size => ?_
      refine .bind text_sized fun name trailing later => .pure ?_
      simp only [List.length_append, List.length_cons, List.length_nil, ← size,
        ← later]
      exact Nat.add_assoc 1 _ _
    · exact .fail _

theorem items_sized
    {values : List Datum} {parts : List Bytes}
    (all : List.Forall₂ (Sized kernel) values parts) :
    AllocatedItems kernel values ∧
      itemsLength values = parts.flatten.length := by
  induction all with
  | nil => exact ⟨trivial, rfl⟩
  | cons head _ inductionHypothesis =>
      obtain ⟨allocated, size⟩ := inductionHypothesis
      refine ⟨⟨head.1, allocated⟩, ?_⟩
      rw [itemsLength, List.flatten_cons, List.length_append, head.2, size]

theorem entries_sized
    {entries : List (Datum × Datum)} {parts : List Bytes}
    (all : List.Forall₂ (fun entry bytes => Allocated kernel entry.1 ∧
      Allocated kernel entry.2 ∧
        encodedLength entry.1 + encodedLength entry.2 = bytes.length)
      entries parts) :
    AllocatedEntries kernel entries ∧
      entriesLength entries = parts.flatten.length := by
  induction all with
  | nil => exact ⟨trivial, rfl⟩
  | cons head _ inductionHypothesis =>
      obtain ⟨allocated, size⟩ := inductionHypothesis
      refine ⟨⟨head.1, head.2.1, allocated⟩, ?_⟩
      rw [entriesLength, List.flatten_cons, List.length_append, head.2.2, size]

theorem fields_sized
    {fields : List (Symbol × Datum)} {parts : List Bytes}
    (all : List.Forall₂ (fun field bytes => Allocated kernel field.2 ∧
      symbolLength field.1 + encodedLength field.2 = bytes.length)
      fields parts) :
    AllocatedFields kernel fields ∧
      fieldsLength fields = parts.flatten.length := by
  induction all with
  | nil => exact ⟨trivial, rfl⟩
  | cons head _ inductionHypothesis =>
      obtain ⟨allocated, size⟩ := inductionHypothesis
      refine ⟨⟨head.1, allocated⟩, ?_⟩
      rw [fieldsLength, List.flatten_cons, List.length_append, head.2, size]

/-- A sequence of values with its count. -/
theorem sequence_sized
    {nested : Reader Datum}
    (each : Spelling nested (Sized kernel)) :
    Spelling (items nested) fun values bytes =>
      AllocatedItems kernel values ∧ 8 + itemsLength values = bytes.length := by
  refine .bind len_spelling fun count _ ⟨word, same, spelt⟩ => ?_
  subst same spelt
  intro cursor values later accepted
  obtain ⟨bytes, taken, _, parts, rfl, all⟩ :=
    Spelling.many each _ cursor values later accepted
  obtain ⟨allocated, size⟩ := items_sized all
  refine ⟨_, taken, allocated, ?_⟩
  rw [size, List.length_append, be64_length]

/-- What is read as a datum is allocated, and as long as its bytes. -/
theorem datum_sized :
    ∀ depth, Spelling (datum kernel depth) (Sized kernel)
  | 0 => .fail _
  | depth + 1 => by
      have each : Spelling (datum kernel depth) (Sized kernel) :=
        datum_sized depth
      have plain {size : Nat} {bytes : Bytes} {tag : UInt8}
          (same : size = bytes.length) :
          1 + size = ([tag] ++ (bytes ++ [])).length := by
        rw [List.append_nil, List.length_append, List.length_singleton, same]
      refine .bind byte_spelling fun tag _ spelt => ?_
      subst spelt
      generalize tag.toNat = code
      rcases code with _ | _ | _ | _ | _ | _ | _ | _ | _ | _ | _ | _ | code
      · exact .pure ⟨trivial, rfl⟩
      · exact .pure ⟨trivial, rfl⟩
      · exact .pure ⟨trivial, rfl⟩
      · refine .bind symbol_sized fun domain leading first => ?_
        refine .bind text_sized fun canonical trailing second => .pure ?_
        refine ⟨trivial, ?_⟩
        rw [encodedLength, first, second]
        simp only [List.length_append, List.length_cons, List.length_nil]
        omega
      · exact .bind symbol_sized fun _ _ size => .pure ⟨trivial, plain size⟩
      · exact .bind text_sized fun _ _ size => .pure ⟨trivial, plain size⟩
      · exact .bind bytes_sized fun _ _ size => .pure ⟨trivial, plain size⟩
      · exact .bind (sequence_sized each) fun _ _ found =>
          .pure ⟨found.1, plain found.2⟩
      · exact .bind (sequence_sized each) fun _ _ found =>
          .pure ⟨found.1, plain found.2⟩
      · refine .bind len_spelling fun count _ ⟨word, same, spelt⟩ => ?_
        subst same spelt
        refine .lift_bind fun _ fits => ?_
        have entries : Spelling (entry (datum kernel depth))
            fun entry bytes => Allocated kernel entry.1 ∧
              Allocated kernel entry.2 ∧
                encodedLength entry.1 + encodedLength entry.2 =
                  bytes.length := by
          refine .bind each fun key leading first => ?_
          refine .bind each fun value trailing second => .pure ?_
          refine ⟨first.1, second.1, ?_⟩
          rw [first.2, second.2, List.append_nil, List.length_append]
        refine .bind (.many entries _) fun found bytes counted => .pure ?_
        obtain ⟨length, parts, rfl, all⟩ := counted
        obtain ⟨allocated, size⟩ := entries_sized all
        refine ⟨⟨by rw [length]; exact withCapacity_ok.mp fits, allocated⟩, ?_⟩
        rw [encodedLength, size]
        simp only [List.length_append, List.length_cons, List.length_nil,
          be64_length]
        omega
      · exact .bind (sequence_sized each) fun _ _ found =>
          .pure ⟨found.1, plain found.2⟩
      · refine .bind symbol_sized fun name leading named => ?_
        refine .bind len_spelling fun count _ ⟨word, same, spelt⟩ => ?_
        subst same spelt
        refine .lift_bind fun _ fits => ?_
        have fields : Spelling (field (datum kernel depth))
            fun field bytes => Allocated kernel field.2 ∧
              symbolLength field.1 + encodedLength field.2 =
                bytes.length := by
          refine .bind symbol_sized fun label leading first => ?_
          refine .bind each fun value trailing second => .pure ?_
          refine ⟨second.1, ?_⟩
          rw [first, second.2, List.append_nil, List.length_append]
        refine .bind (.many fields _) fun found bytes counted => .pure ?_
        obtain ⟨length, parts, rfl, all⟩ := counted
        obtain ⟨allocated, size⟩ := fields_sized all
        refine ⟨⟨by rw [length]; exact withCapacity_ok.mp fits, allocated⟩, ?_⟩
        rw [encodedLength, size, named]
        simp only [List.length_append, List.length_cons, List.length_nil,
          be64_length]
        omega
      · exact .fail _

/-- What is decoded is canonical, and can be encoded again. -/
theorem fits_of_decode
    {input : Bytes} {value : Datum}
    (inMemory : input.length ≤ isizeMax)
    (decoded : decode kernel input = .ok value) :
    kernel.Canonical value ∧ Fits kernel value := by
  have consumed : ∃ taken rest, input = taken ++ rest ∧
      kernel.Canonical value ∧ Allocated kernel value ∧
        magic.length + encodedLength value = taken.length := by
    refine Spelling.run (?_ : Spelling _ fun value bytes =>
      kernel.Canonical value ∧ Allocated kernel value ∧
        magic.length + encodedLength value = bytes.length) decoded
    refine .bind .take fun found _ ⟨same, sized⟩ => .lift_bind fun _ _ => ?_
    subst same
    refine .bind (datum_sized _) fun value bytes ⟨allocated, size⟩ => ?_
    refine .bind .finish fun _ _ none => .lift fun result passed => ?_
    subst none
    rcases checkCanonical_cases kernel value with ⟨canonical, same⟩ | refused
    · rw [same] at passed
      cases passed
      refine ⟨canonical, allocated, ?_⟩
      simp only [List.length_append, List.length_nil, sized, size]
      rfl
    · rw [refused] at passed
      cases passed
  obtain ⟨taken, rest, rfl, canonical, allocated, size⟩ := consumed
  refine ⟨canonical, allocated, ?_⟩
  rw [List.length_append, ← size] at inMemory
  exact Nat.le_trans (Nat.le_add_right _ _) inMemory

end Sizes

end DatumCodec

namespace JournalObject

section Stored

/-- The bytes whose header is that of a stored object, with its encoding. -/
def Stores (bytes encoded : Bytes) : Prop :=
  ∃ length, bytes = storageMagic ++ (be64 length ++ encoded) ∧
    encoded.length = length.toNat

theorem stores_iff
    {bytes encoded : Bytes} :
    Stores bytes encoded ↔
      ¬ (bytes.length < 19 ∨ bytes.take 11 ≠ storageMagic) ∧
        bytes.drop 19 = encoded ∧
          encoded.length =
            (fromBe64 ((bytes.drop 11).take 8)).toNat := by
  have magicLength : storageMagic.length = 11 := rfl
  constructor
  · rintro ⟨length, rfl, size⟩
    have word : (be64 length).length = 8 := be64_length _
    refine ⟨?_, ?_, ?_⟩
    · rw [List.take_left' magicLength]
      simp only [List.length_append, magicLength, word, ne_eq,
        not_true_eq_false, or_false]
      omega
    · rw [← List.append_assoc]
      exact List.drop_left' (by simp [magicLength, word])
    · rw [List.drop_left' magicLength, List.take_left' word, fromBe64_be64]
      exact size
  · rintro ⟨header, rfl, size⟩
    obtain ⟨long, leading⟩ := not_or.mp header
    have word : ((bytes.drop 11).take 8).length = 8 := by
      simp only [List.length_take, List.length_drop]
      omega
    refine ⟨_, ?_, size⟩
    rw [be64_fromBe64 word, ← not_not.mp leading,
      ← List.drop_drop (i := 8) (j := 11), List.take_append_drop,
      List.take_append_drop]

/-- What was decoded is encoded again, to the object of its datum. -/
theorem fromDatum_closed
    {encoded : Bytes} {value : Datum}
    (inMemory : encoded.length ≤ isizeMax)
    (decoded : DatumCodec.decode kernel encoded = .ok value) :
    ¬ Panics (DatumCodec.encode kernel value) ∧
      ¬ Panics (fromDatum kernel value) := by
  obtain ⟨canonical, fits⟩ := DatumCodec.fits_of_decode inMemory decoded
  obtain ⟨written, put, _⟩ := DatumCodec.encode_isOk canonical fits
  have calm : ¬ Panics (DatumCodec.encode kernel value) := by
    rw [put]
    exact not_panics_ok
  refine ⟨calm, fun panics => ?_⟩
  rcases bind_panics.mp panics with absent | ⟨_, _, panics⟩
  · exact not_panics_okOr absent
  rcases bind_panics.mp panics with encoding | ⟨_, _, panics⟩
  · exact calm encoding
  · exact not_panics_ok panics

/-- The reader of a stored object panics where the decoder of its datum does. -/
theorem fromStorageBytes_panics
    {bytes : Bytes}
    (inMemory : bytes.length ≤ isizeMax) :
    Panics (fromStorageBytes kernel bytes) ↔
      ∃ encoded, Stores bytes encoded ∧
        Panics (DatumCodec.decode kernel encoded) := by
  unfold fromStorageBytes
  split
  · next header =>
    refine iff_of_false not_panics_refuse ?_
    rintro ⟨_, stores, _⟩
    exact (stores_iff.mp stores).1 header
  next header =>
  simp only
  split
  · next size =>
    refine iff_of_false not_panics_refuse ?_
    rintro ⟨_, stores, _⟩
    obtain ⟨_, rfl, same⟩ := stores_iff.mp stores
    exact size same
  next size =>
  have small : (bytes.drop 19).length ≤ isizeMax := by
    rw [List.length_drop]
    exact Nat.le_trans (Nat.sub_le _ _) inMemory
  have stores : Stores bytes (bytes.drop 19) :=
    stores_iff.mpr ⟨header, rfl, not_not.mp size⟩
  rw [bind_panics]
  constructor
  · rintro (panics | ⟨datum, decoded, panics⟩)
    · exact ⟨_, stores, panics⟩
    · obtain ⟨encoding, making⟩ := fromDatum_closed small decoded
      rcases bind_panics.mp panics with making' | ⟨object, made, panics⟩
      · exact (making making').elim
      rcases bind_panics.mp panics with verifying | ⟨_, _, panics⟩
      · obtain ⟨rfl, _⟩ := fromDatum_eq_ok.mp made
        exact (encoding (verify_panics verifying).2.2).elim
      · exact (not_panics_ok panics).elim
  · rintro ⟨encoded, found, panics⟩
    obtain ⟨_, rfl, _⟩ := stores_iff.mp found
    exact .inl panics

end Stored

end JournalObject

namespace NativeCodec

section Closed

theorem take_closed
    {length : Nat} :
    NeverFails IsPanic (take length) :=
  .take refusal_calm refusal_calm

theorem byte_closed :
    NeverFails IsPanic byte :=
  .bind take_closed fun _ => .pure

theorem u32_closed :
    NeverFails IsPanic u32 :=
  .bind take_closed fun _ => .pure

theorem u64_closed :
    NeverFails IsPanic u64 :=
  .bind take_closed fun _ => .pure

theorem text_closed :
    NeverFails IsPanic text :=
  .bind u32_closed fun _ => .bind take_closed fun _ =>
    .lift fun _ => okOr_refuses

theorem finish_closed :
    NeverFails IsPanic finish :=
  .finish refusal_calm

theorem checkMagic_closed
    {magic found : Bytes} {message : String} :
    NeverFails IsPanic (Decoder.lift (checkMagic magic found message)) := by
  refine .lift fun fault failed => ?_
  unfold checkMagic at failed
  split at failed
  · cases failed
  · cases failed
    exact refusal_calm

theorem parseSymbol_closed
    {name : String} :
    NeverFails IsPanic (Decoder.lift (parseSymbol kernel name)) := by
  refine .lift fun fault failed => ?_
  unfold parseSymbol at failed
  cases parts : splitOnce '/' name with
  | none =>
      simp only [parts] at failed
      exact okOr_refuses failed
  | some pair =>
      obtain ⟨space, rest⟩ := pair
      simp only [parts] at failed
      split at failed
      · cases failed
      · cases failed
        exact refusal_calm

theorem digestOf_refuses
    {error : JournalError} {bytes : Bytes} {fault : Fault}
    (failed : digestOf error bytes = .error fault) :
    ¬ IsPanic fault := by
  unfold digestOf at failed
  split at failed
  · cases failed
  · cases failed
    exact refusal_calm

theorem id_closed :
    NeverFails IsPanic (NativeCodec.id kernel) :=
  .bind text_closed fun _ => .bind parseSymbol_closed fun _ =>
    .bind take_closed fun _ => .bind (.lift fun _ => digestOf_refuses)
      fun _ => .pure

theorem head_closed :
    NeverFails IsPanic (head kernel) :=
  .bind u64_closed fun _ => .bind id_closed fun _ => .pure

theorem optional_closed
    {τ : Type} {message : String} {item : Reader τ}
    (closed : NeverFails IsPanic item) :
    NeverFails IsPanic (optional message item) := by
  refine .bind byte_closed fun tag => ?_
  split
  · exact .pure
  · split
    · exact .bind closed fun _ => .pure
    · exact .fail refusal_calm

theorem location_closed :
    NeverFails IsPanic (location kernel) :=
  .bind text_closed fun _ => .bind u64_closed fun _ =>
    .bind id_closed fun _ => .bind id_closed fun _ => .pure

theorem prefixReference_closed :
    NeverFails IsPanic (prefixReference kernel) :=
  .bind u64_closed fun _ => .bind head_closed fun _ =>
    .bind head_closed fun _ => .bind id_closed fun _ => .pure

theorem checkLocator_closed
    {envelope : NativeStateEnvelope} :
    NeverFails IsPanic (Decoder.lift (checkLocator envelope)) := by
  refine .lift fun fault failed => ?_
  unfold checkLocator at failed
  split at failed
  · cases failed
    exact refusal_calm
  · cases failed

/-- A run of a reader that does not panic. -/
theorem run_closed
    {α : Type} {reader : Reader α} {bytes : Bytes}
    (closed : NeverFails IsPanic reader) :
    ¬ Panics (Decoder.run reader bytes) :=
  fun panics => closed _ (run_fails.mp (panics_iff.mp panics))

theorem decodeEnvelope_closed
    {bytes : Bytes} :
    ¬ Panics (decodeEnvelope kernel bytes) := by
  refine run_closed (.bind ?_ fun _ => .bind finish_closed fun _ =>
    checkLocator_closed)
  exact .bind take_closed fun _ => .bind checkMagic_closed fun _ =>
    .bind u64_closed fun _ => .bind text_closed fun _ =>
      .bind (optional_closed prefixReference_closed) fun _ =>
        .bind (optional_closed head_closed) fun _ =>
          .bind (optional_closed location_closed) fun _ => .pure

theorem decodeDescriptor_closed
    {bytes : Bytes} :
    ¬ Panics (decodeDescriptor kernel bytes) := by
  refine run_closed (.bind ?_ fun _ => .bind finish_closed fun _ => .pure)
  exact .bind take_closed fun _ => .bind checkMagic_closed fun _ =>
    .bind u64_closed fun _ => .bind take_closed fun _ =>
      .bind head_closed fun _ => .pure

theorem decodeV1State_closed
    {bytes : Bytes} :
    ¬ Panics (decodeV1State kernel bytes) := by
  refine run_closed (.bind ?_ fun _ => .bind finish_closed fun _ => .pure)
  exact .bind take_closed fun _ => .bind checkMagic_closed fun _ =>
    .bind u64_closed fun _ => .bind (optional_closed head_closed) fun _ => .pure

/-- The count of a v1 entry has 32 bits, for which there is always room. -/
theorem decodeV1Entry_closed
    {bytes : Bytes}
    (room : contentIdSize kernel * (2 ^ 32 - 1) ≤ isizeMax) :
    ¬ Panics (decodeV1Entry kernel bytes) := by
  have allocates (count : UInt32) :
      NeverFails IsPanic (Decoder.lift (idCapacity kernel count.toNat)) := by
    refine .lift fun fault failed isPanic => ?_
    have small : count.toNat ≤ 2 ^ 32 - 1 := Nat.le_pred_of_lt count.toNat_lt
    have large := withCapacity_fails.mp ⟨fault, failed, isPanic⟩
    have fits := Nat.le_trans (Nat.mul_le_mul_left _ small) room
    exact Nat.not_lt_of_le fits large
  refine run_closed (.bind ?_ fun _ => .bind finish_closed fun _ => .pure)
  exact .bind take_closed fun _ => .bind checkMagic_closed fun _ =>
    .bind id_closed fun _ => .bind u64_closed fun _ =>
      .bind (optional_closed id_closed) fun _ => .bind text_closed fun _ =>
        .bind parseSymbol_closed fun _ => .bind u32_closed fun count =>
          .bind (allocates count) fun _ => .bind (.many id_closed _) fun _ =>
            .pure

end Closed

section Entries

/-- A sequence without a panic in either part has none. -/
theorem bind_calm
    {α β : Type} {first : Result α} {next : α → Result β}
    (head : ¬ Panics first)
    (tail : ∀ value, ¬ Panics (next value)) :
    ¬ Panics (first >>= next) := by
  intro panics
  rcases bind_panics.mp panics with early | ⟨value, _, late⟩
  · exact head early
  · exact tail value late

theorem digestOf_calm
    {error : JournalError} {bytes : Bytes} :
    ¬ Panics (digestOf error bytes) := by
  intro panics
  obtain ⟨fault, failed, isPanic⟩ := panics_iff.mp panics
  exact digestOf_refuses failed isPanic

theorem idFromDatum_calm
    (datum : Datum) :
    ¬ Panics (idFromDatum datum) := by
  cases datum with
  | node tag fields =>
      rw [idFromDatum]
      split
      · exact not_panics_refuse
      · rcases fieldOf fields "algorithm" with _ | algorithm
        · exact not_panics_refuse
        · cases algorithm with
          | symbol name =>
              rcases fieldOf fields "digest" with _ | digest
              · exact not_panics_refuse
              · cases digest with
                | bytes bytes =>
                    exact bind_calm digestOf_calm fun _ => not_panics_ok
                | _ => exact not_panics_refuse
          | _ => exact not_panics_refuse
  | _ => exact not_panics_refuse

theorem idsFromDatums_calm
    (values : List Datum) :
    ¬ Panics (idsFromDatums values) := by
  induction values with
  | nil => exact not_panics_ok
  | cons value rest inductionHypothesis =>
      exact bind_calm (idFromDatum_calm value) fun _ =>
        bind_calm inductionHypothesis fun _ => not_panics_ok

theorem sequenceFromDatum_calm
    (datum : Datum) :
    ¬ Panics (sequenceFromDatum datum) := by
  cases datum with
  | number number =>
      rw [sequenceFromDatum]
      split
      · cases parseU64 number.canonical with
        | none => exact not_panics_refuse
        | some value =>
            dsimp only
            split
            · exact not_panics_ok
            · exact not_panics_refuse
      · exact not_panics_refuse
  | _ => exact not_panics_refuse

theorem previousFromDatum_calm
    (datum : Datum) :
    ¬ Panics (previousFromDatum datum) := by
  cases datum with
  | nil => exact not_panics_ok
  | _ => exact bind_calm (idFromDatum_calm _) fun _ => not_panics_ok

theorem kindFromDatum_calm
    (datum : Datum) :
    ¬ Panics (kindFromDatum datum) := by
  cases datum with
  | symbol kind => exact not_panics_ok
  | _ => exact not_panics_refuse

theorem payloadsFromDatum_calm
    (datum : Datum) :
    ¬ Panics (payloadsFromDatum datum) := by
  cases datum with
  | vector values => exact idsFromDatums_calm values
  | _ => exact not_panics_refuse

theorem checkEntryId_calm
    (entry : JournalEntry) :
    ¬ Panics (checkEntryId kernel entry) := by
  refine bind_calm not_panics_okOr fun id => ?_
  split
  · exact not_panics_refuse
  · exact not_panics_ok

/-- The fields of an entry are read without a panic. -/
theorem entryFromDatum_calm
    (datum : Datum) :
    ¬ Panics (entryFromDatum kernel datum) := by
  refine bind_calm not_panics_okOr fun id => ?_
  cases datum with
  | node tag fields =>
      dsimp only
      split
      · exact not_panics_refuse
      · exact bind_calm not_panics_okOr fun sequence =>
          bind_calm (sequenceFromDatum_calm sequence) fun _ =>
          bind_calm not_panics_okOr fun previous =>
          bind_calm (previousFromDatum_calm previous) fun _ =>
          bind_calm not_panics_okOr fun kind =>
          bind_calm (kindFromDatum_calm kind) fun _ =>
          bind_calm not_panics_okOr fun payloads =>
          bind_calm (payloadsFromDatum_calm payloads) fun _ =>
          checkEntryId_calm _
  | _ => exact not_panics_refuse

end Entries

section Leaves

/--
The datum of an entry leaf overcommits, or no allocation holds the count of the
payloads behind its datum and its location.
-/
inductive LeafOvercommits (kernel : Kernel) : Bytes → Prop where
  | datum {length : UInt64} {inner rest : Bytes} :
      inner.length = length.toNat → Panics (DatumCodec.decode kernel inner) →
      LeafOvercommits kernel (entryMagic2 ++ (be64 length ++ (inner ++ rest)))
  | payloads {entry : JournalEntry} {location : Option EntryLocation}
      {count : UInt64} {leading between rest : Bytes} :
      Decodes (entryDatum kernel) leading entry →
      Decodes (optionalLocation kernel) between location →
      isizeMax < 2 * contentIdSize kernel * count.toNat →
      LeafOvercommits kernel
        (entryMagic2 ++ (leading ++ (between ++ (be64 count ++ rest))))

theorem u64_reads
    (value : UInt64) (bytes : Bytes)
    (spelled : bytes = be64 value) :
    Decodes u64 bytes value := by
  rw [spelled]
  exact u64_decodes value

theorem text_local :
    Local text :=
  .bind (.bind .take fun _ => .pure) fun _ => .bind .take fun _ => .lift

theorem id_local :
    Local (NativeCodec.id kernel) :=
  .bind text_local fun _ => .bind .lift fun _ => .bind .take fun _ =>
    .bind .lift fun _ => .pure

theorem u64_local :
    Local u64 :=
  .bind .take fun _ => .pure

theorem location_local :
    Local (location kernel) :=
  .bind text_local fun _ => .bind u64_local fun _ => .bind id_local fun _ =>
    .bind id_local fun _ => .pure

theorem optionalLocation_local :
    Local (optionalLocation kernel) := by
  refine .bind (.bind .take fun _ => .pure) fun tag => ?_
  split
  · exact .pure
  · split
    · exact .bind location_local fun _ => .pure
    · exact .fail

theorem entryDatum_local :
    Local (entryDatum kernel) :=
  .bind u64_local fun _ => .bind .take fun _ => .bind .lift fun _ => .lift

/-- The datum of a leaf is read from bytes of the length before them. -/
theorem entryDatum_fails :
    FailsOn IsPanic (entryDatum kernel) fun rest =>
      ∃ (length : UInt64) (inner trailing : Bytes),
        rest = be64 length ++ (inner ++ trailing) ∧
          inner.length = length.toNat ∧
          Panics (DatumCodec.decode kernel inner) := by
  have entered (datum : Datum) :
      NeverFails IsPanic (Decoder.lift (entryFromDatum kernel datum)) :=
    .lift fun fault failed isPanic =>
      entryFromDatum_calm datum (panics_iff.mpr ⟨fault, failed, isPanic⟩)
  refine (FailsOn.behind u64_closed u64_spelling u64_reads fun length =>
    FailsOn.behind take_closed .take ?_ fun inner =>
      FailsOn.ending .lift entered).congr fun rest => ⟨?_, ?_⟩
  · rintro _ bytes ⟨rfl, size⟩
    exact .take size
  · rintro ⟨length, _, _, rfl, rfl, inner, _, trailing, rfl, ⟨rfl, size⟩,
      failed⟩
    exact ⟨length, inner, trailing, rfl, size, panics_iff.mpr failed⟩
  · rintro ⟨length, inner, trailing, rfl, size, panics⟩
    exact ⟨length, _, _, rfl, rfl, inner, inner, trailing, rfl, ⟨rfl, size⟩,
      panics_iff.mp panics⟩

/-- The decoder of an entry leaf panics where the leaf overcommits. -/
theorem decodeV2Entry_panics
    {bytes : Bytes}
    (inMemory : bytes.length ≤ isizeMax) :
    Panics (decodeV2Entry kernel bytes) ↔ LeafOvercommits kernel bytes := by
  have checks (found : Bytes) :
      checkMagic entryMagic2 found "entry format" =
        if found = entryMagic2 then .ok () else
          .error (corrupt "entry format") :=
    rfl
  have references (count : Nat) (make : List StoredDatumRef → PhysicalEntry) :
      FailsOn IsPanic (Decoder.lift (referenceCapacity kernel count) >>=
          fun _ => Decoder.many (reference kernel) count >>= fun found =>
            (pure (make found) : Reader PhysicalEntry)) fun _ =>
        isizeMax < 2 * contentIdSize kernel * count := by
    have closed : NeverFails IsPanic (reference kernel) :=
      .bind id_closed fun _ => .bind id_closed fun _ => .pure
    refine (FailsOn.checked fun _ _ => FailsOn.never
      (.bind (.many closed count) fun _ => .pure)).congr fun rest => ?_
    rw [withCapacity_fails.symm]
    refine ⟨?_, .inl⟩
    rintro (failed | ⟨_, _, impossible⟩)
    · exact failed
    · exact impossible.elim
  have location : NeverFails IsPanic (optionalLocation kernel) :=
    optional_closed location_closed
  have datum : FailsOn IsPanic (entryDatum kernel) _ := entryDatum_fails
  have body := FailsOn.bind datum entryDatum_local
    (fun _ _ read => read) fun entry =>
      FailsOn.behind location optionalLocation_local (fun _ _ read => read)
        fun previousLocation =>
          FailsOn.behind u64_closed u64_spelling u64_reads fun count =>
            references count.toNat fun payloads =>
              ⟨entry, previousLocation, payloads⟩
  have inWord : 0 + bytes.length < wordBound := by
    rw [Nat.zero_add]
    exact Nat.lt_of_le_of_lt inMemory isizeMax_lt_wordBound
  have sized : entryMagic2.length = 10 := rfl
  have leaf : FailsOn IsPanic (v2Entry kernel) _ :=
    magic_fails (corrupt "length") (corrupt "truncated") refusal_calm
      refusal_calm refusal_calm sized checks body
  have whole : FailsOn IsPanic (v2Entry kernel >>= fun found =>
      finish >>= fun _ => (pure found : Reader PhysicalEntry)) _ :=
    leaf.ending fun _ => .bind finish_closed fun _ => .pure
  refine (panics_iff.trans run_fails).trans
    ((whole 0 bytes inWord).trans ⟨?_, ?_⟩)
  · rintro ⟨_, rfl, ⟨length, inner, rest, rfl, size, panics⟩ |
      ⟨entry, leading, _, rfl, read, location, between, _, rfl, readToo, count,
        _, rest, rfl, rfl, large⟩⟩
    · exact .datum size panics
    · exact .payloads read readToo large
  · intro overcommits
    cases overcommits with
    | datum size panics =>
        exact ⟨_, rfl, .inl ⟨_, _, _, rfl, size, panics⟩⟩
    | payloads read readToo large =>
        exact ⟨_, rfl, .inr ⟨_, _, _, rfl, read, _, _, _, rfl, readToo, _, _, _,
          rfl, rfl, large⟩⟩

end Leaves

end NativeCodec

section Decoders

/--
The decoders of native bytes fail closed, but for counts: a datum panics exactly
where a container overcommits, a stored object where its datum does, an entry
leaf where its datum does or its count of payloads, and no other decoder panics
on any bytes.
-/
theorem native_decoders_fail_closed
    (kernel : Kernel)
    {bytes : Bytes}
    (inMemory : bytes.length ≤ isizeMax)
    (room : NativeCodec.contentIdSize kernel * (2 ^ 32 - 1) ≤ isizeMax) :
    (Panics (DatumCodec.decode kernel bytes) ↔
      ∃ body, bytes = DatumCodec.magic ++ body ∧
        DatumCodec.Overcommits kernel bytes.length body) ∧
    (Panics (JournalObject.fromStorageBytes kernel bytes) ↔
      ∃ encoded, JournalObject.Stores bytes encoded ∧
        Panics (DatumCodec.decode kernel encoded)) ∧
    (Panics (NativeCodec.decodeV2Entry kernel bytes) ↔
      NativeCodec.LeafOvercommits kernel bytes) ∧
    ¬ Panics (NativeCodec.decodeV1Entry kernel bytes) ∧
    ¬ Panics (NativeCodec.decodeV1State kernel bytes) ∧
    ¬ Panics (NativeCodec.decodeEnvelope kernel bytes) ∧
    ¬ Panics (NativeCodec.decodeDescriptor kernel bytes) :=
  ⟨DatumCodec.decode_panics inMemory,
    JournalObject.fromStorageBytes_panics inMemory,
    NativeCodec.decodeV2Entry_panics inMemory,
    NativeCodec.decodeV1Entry_closed room, NativeCodec.decodeV1State_closed,
    NativeCodec.decodeEnvelope_closed, NativeCodec.decodeDescriptor_closed⟩

/-- A map with more entries than memory. -/
def boundlessMap : Bytes :=
  DatumCodec.magic ++ 9 :: (be64 9223372036854775808 ++ [])

/-- The count of the map alone makes the decoder panic. -/
theorem boundlessMap_panics :
    Panics (DatumCodec.decode Reference.kernel boundlessMap) := by
  have inMemory : boundlessMap.length ≤ isizeMax := by decide
  have room : NativeCodec.contentIdSize Reference.kernel * (2 ^ 32 - 1) ≤
      isizeMax := by
    decide
  refine (native_decoders_fail_closed Reference.kernel inMemory room).1.mpr
    ⟨_, rfl, ?_⟩
  exact .entries (by decide)

end Decoders

end SimStorage.Journal
