import SimStorage.Journal.HeadIdentity

namespace SimStorage.Journal

/-!
# What the checks accept, exactly

The check of a batch accepts what its rules describe, and it panics where an
encoding is larger than an allocation or where the sequence after the last one
it takes is no `u64`.  The check of a state walks the values of the entry map
and never looks at their keys.
-/

open Codec

section Batches

/-- Objects that verify, and do not differ from those already available. -/
structure ObjectsExact
    (kernel : Kernel)
    (available : IdMap Bytes)
    (objects : List JournalObject) : Prop where
  verified : ∀ object ∈ objects, object.verify kernel = .ok ()
  agrees :
    ∀ object ∈ objects, ∀ bytes,
      available[object.id]? = some bytes → bytes = object.bytes
  earlier :
    objects.Pairwise fun first second =>
      first.id = second.id → first.bytes = second.bytes

/-- Entries that link to a head, are supplied, and agree with the state. -/
structure EntriesExact
    (kernel : Kernel)
    (state : StoredState)
    (objects : List JournalObject)
    (expected : Option JournalHead)
    (entries : List JournalEntry) : Prop where
  follows : Follows kernel expected entries
  supplied :
    ∀ entry ∈ entries, ∀ payload ∈ entry.payloads,
      payload ∈ state.objects ∨ ∃ object ∈ objects, object.id = payload
  agrees :
    ∀ entry ∈ entries, ∀ existing,
      state.entries[entry.sequence]? = some existing → existing = entry

/-- A batch whose objects and entries are as they should be. -/
structure BatchExact
    (kernel : Kernel)
    (state : StoredState)
    (expected : Option JournalHead)
    (objects : List JournalObject)
    (entries : List JournalEntry) : Prop where
  offered : ObjectsExact kernel state.objects objects
  appended : EntriesExact kernel state objects expected entries

/-- A result that is a panic. -/
def Panics {α : Type} (result : Result α) : Prop :=
  ∃ message, result = .error (.panicked message)

/-- The object loop reaches an object whose check panics. -/
def Oversized
    (kernel : Kernel)
    (available : IdMap Bytes)
    (objects : List JournalObject) : Prop :=
  ∃ before object after, objects = before ++ object :: after ∧
    ObjectsExact kernel available before ∧ Panics (object.verify kernel)

/-- The entry loop reaches a position from which no `u64` follows. -/
def Overruns
    (kernel : Kernel)
    (state : StoredState)
    (expected : Option JournalHead)
    (objects : List JournalObject)
    (entries : List JournalEntry) : Prop :=
  ∃ before after, entries = before ++ after ∧
    EntriesExact kernel state objects expected before ∧
    2 ^ 64 ≤ nextIndex expected + before.length + 1

variable {kernel : Kernel} {state : StoredState} {available : IdMap Bytes}
variable {expected : Option JournalHead}
variable {objects : List JournalObject} {entries : List JournalEntry}

/-- A sequence of two computations panics in the first or in the second. -/
theorem bind_panics
    {α β : Type}
    {first : Result α} {next : α → Result β} :
    Panics (first >>= next) ↔
      Panics first ∨ ∃ value, first = .ok value ∧ Panics (next value) := by
  cases first with
  | error fault => simp [Panics, bind, Except.bind]
  | ok value => simp [Panics, bind, Except.bind]

theorem not_panics_ok
    {α : Type} {value : α} :
    ¬ Panics (.ok value : Result α) := by
  rintro ⟨message, impossible⟩
  cases impossible

theorem not_panics_refuse
    {α : Type} {error : JournalError} :
    ¬ Panics (refuse error : Result α) := by
  rintro ⟨message, impossible⟩
  cases impossible

theorem not_panics_okOr
    {α : Type} {value : Option α} {error : JournalError} :
    ¬ Panics (okOr value error) := by
  cases value with
  | none => exact not_panics_refuse
  | some found => exact not_panics_ok

theorem checkPayloads_not_panics
    {payloads : List ContentId} :
    ¬ Panics (checkPayloads available payloads) := by
  induction payloads with
  | nil => exact not_panics_ok
  | cons payload rest inductionHypothesis =>
      rw [checkPayloads]
      split
      · exact inductionHypothesis
      · exact not_panics_refuse

/-- A range panics where no `u64` follows. -/
theorem nextSequence_panics
    {sequence : UInt64} :
    Panics (nextSequence sequence) ↔ 2 ^ 64 ≤ sequence.toNat + 1 := by
  unfold nextSequence checkedSucc
  split
  · next found =>
      split at found
      · next small =>
          exact iff_of_false not_panics_ok (Nat.not_le_of_lt small)
      · cases found
  · next absent =>
      split at absent
      · cases absent
      · next large => exact iff_of_true ⟨_, rfl⟩ (Nat.le_of_not_lt large)

section Objects

/-- An object list is exact where its first object is, and then the others. -/
theorem ObjectsExact.cons_iff
    {object : JournalObject} {rest : List JournalObject} :
    ObjectsExact kernel available (object :: rest) ↔
      object.verify kernel = .ok () ∧
        (∀ bytes, available[object.id]? = some bytes → bytes = object.bytes) ∧
        ObjectsExact kernel (available.insert object.id object.bytes) rest := by
  constructor
  · rintro ⟨verified, agrees, earlier⟩
    obtain ⟨differs, laterPairs⟩ := List.pairwise_cons.mp earlier
    refine ⟨verified object List.mem_cons_self,
      agrees object List.mem_cons_self,
      fun later inside => verified later (List.mem_cons_of_mem _ inside),
      ?_, laterPairs⟩
    intro later inside bytes found
    rw [Std.ExtTreeMap.getElem?_insert] at found
    split at found
    · next same =>
        cases found
        exact differs later inside (Std.LawfulEqCmp.compare_eq_iff_eq.mp same)
    · exact agrees later (List.mem_cons_of_mem _ inside) bytes found
  · rintro ⟨verified, agrees, verifiedLater, agreesLater, earlier⟩
    refine ⟨?_, ?_, List.pairwise_cons.mpr ⟨?_, earlier⟩⟩
    · rintro member (_ | ⟨_, inside⟩)
      · exact verified
      · exact verifiedLater member inside
    · rintro member (_ | ⟨_, inside⟩) bytes found
      · exact agrees bytes found
      · by_cases same : object.id = member.id
        · rw [agrees bytes (same ▸ found)]
          apply agreesLater member inside
          rw [← same, Std.ExtTreeMap.getElem?_insert_self]
        · apply agreesLater member inside
          rw [Std.ExtTreeMap.getElem?_insert, if_neg, found]
          exact fun equal => same (Std.LawfulEqCmp.compare_eq_iff_eq.mp equal)
    · intro later inside same
      apply agreesLater later inside
      rw [← same, Std.ExtTreeMap.getElem?_insert_self]

/-- The object loop goes on after an object that fits what is available. -/
theorem availableObjects_cons_of_agrees
    {object : JournalObject} {rest : List JournalObject}
    (verified : object.verify kernel = .ok ())
    (agrees : ∀ bytes, available[object.id]? = some bytes →
      bytes = object.bytes) :
    availableObjects kernel available (object :: rest) =
      availableObjects kernel (available.insert object.id object.bytes) rest := by
  rw [availableObjects, verified]
  cases present : available[object.id]? with
  | none => rfl
  | some bytes =>
      rw [agrees bytes present]
      exact if_neg fun differs => differs rfl

/-- The object loop ends at an object that differs from what is available. -/
theorem availableObjects_cons_of_conflict
    {object : JournalObject} {rest : List JournalObject}
    (verified : object.verify kernel = .ok ())
    (conflict : ¬ ∀ bytes, available[object.id]? = some bytes →
      bytes = object.bytes) :
    availableObjects kernel available (object :: rest) =
      refuse .conflictingObject := by
  rw [availableObjects, verified]
  cases present : available[object.id]? with
  | none =>
      refine (conflict fun bytes found => ?_).elim
      cases present.symm.trans found
  | some bytes =>
      refine if_pos fun same => conflict fun again found => ?_
      rw [← same, Option.some.inj (found.symm.trans present)]

/-- The object loop ends without an error for exactly the exact lists. -/
theorem availableObjects_isOk_iff :
    (∃ result, availableObjects kernel available objects = .ok result) ↔
      ObjectsExact kernel available objects := by
  induction objects generalizing available with
  | nil => exact iff_of_true ⟨available, rfl⟩ ⟨by simp, by simp, .nil⟩
  | cons object rest inductionHypothesis =>
      rw [ObjectsExact.cons_iff]
      constructor
      · rintro ⟨result, checked⟩
        obtain ⟨⟨⟩, verified, _⟩ := bind_eq_ok.mp checked
        by_cases agrees : ∀ bytes, available[object.id]? = some bytes →
            bytes = object.bytes
        · rw [availableObjects_cons_of_agrees verified agrees] at checked
          exact ⟨verified, agrees, inductionHypothesis.mp ⟨result, checked⟩⟩
        · rw [availableObjects_cons_of_conflict verified agrees] at checked
          cases checked
      · rintro ⟨verified, agrees, later⟩
        rw [availableObjects_cons_of_agrees verified agrees]
        exact inductionHypothesis.mpr later

/-- An object whose check panics is the first one, or is reached after it. -/
theorem Oversized.cons_iff
    {object : JournalObject} {rest : List JournalObject} :
    Oversized kernel available (object :: rest) ↔
      Panics (object.verify kernel) ∨
        object.verify kernel = .ok () ∧
          (∀ bytes, available[object.id]? = some bytes →
            bytes = object.bytes) ∧
          Oversized kernel (available.insert object.id object.bytes) rest := by
  constructor
  · rintro ⟨before, last, after, same, passed, panics⟩
    cases before with
    | nil =>
        cases same
        exact .inl panics
    | cons head tail =>
        cases same
        obtain ⟨verified, agrees, later⟩ := ObjectsExact.cons_iff.mp passed
        exact .inr ⟨verified, agrees, tail, last, after, rfl, later, panics⟩
  · rintro (panics | ⟨verified, agrees, before, last, after, rfl, later,
      panics⟩)
    · exact ⟨[], object, rest, rfl, ⟨by simp, by simp, .nil⟩, panics⟩
    · exact ⟨object :: before, last, after, rfl,
        ObjectsExact.cons_iff.mpr ⟨verified, agrees, later⟩, panics⟩

/-- The object loop panics where it reaches an object whose check does. -/
theorem availableObjects_panics :
    Panics (availableObjects kernel available objects) ↔
      Oversized kernel available objects := by
  induction objects generalizing available with
  | nil =>
      refine iff_of_false not_panics_ok ?_
      rintro ⟨before, object, after, same, _⟩
      simp at same
  | cons object rest inductionHypothesis =>
      rw [Oversized.cons_iff]
      cases verified : object.verify kernel with
      | error fault =>
          rw [availableObjects, verified]
          simp [Panics, bind, Except.bind]
      | ok value =>
          by_cases agrees : ∀ bytes, available[object.id]? = some bytes →
              bytes = object.bytes
          · rw [availableObjects_cons_of_agrees verified agrees,
              inductionHypothesis]
            constructor
            · exact fun later => .inr ⟨rfl, agrees, later⟩
            · rintro (panics | ⟨_, _, later⟩)
              · exact (not_panics_ok panics).elim
              · exact later
          · rw [availableObjects_cons_of_conflict verified agrees]
            refine iff_of_false not_panics_refuse ?_
            rintro (panics | ⟨_, agree, _⟩)
            · exact not_panics_ok panics
            · exact agrees agree

/-- An object whose check panics has an encoding larger than an allocation. -/
theorem verify_panics
    {object : JournalObject}
    (panics : Panics (object.verify kernel)) :
    kernel.contentId object.datum = some object.id ∧
      exactBytes object.datum = none ∧
      Panics (DatumCodec.encode kernel object.datum) := by
  rcases bind_panics.mp panics with absent | ⟨id, found, panics⟩
  · exact (not_panics_okOr absent).elim
  split at panics
  · exact (not_panics_refuse panics).elim
  next same =>
  split at panics
  · split at panics
    · exact (not_panics_refuse panics).elim
    · exact (not_panics_ok panics).elim
  next shape =>
  simp only [ne_eq, Decidable.not_not] at same
  refine ⟨same ▸ okOr_eq_ok.mp found, shape, ?_⟩
  rcases bind_panics.mp panics with encoding | ⟨encoded, _, panics⟩
  · exact encoding
  split at panics
  · exact (not_panics_refuse panics).elim
  · exact (not_panics_ok panics).elim

end Objects

section Entries

/-- No check of one entry panics. -/
theorem checkBatchEntry_not_panics
    {sequence : UInt64} {previous : Option ContentId} {entry : JournalEntry} :
    ¬ Panics (checkBatchEntry kernel state available sequence previous entry) := by
  intro panics
  rcases bind_panics.mp panics with absent | ⟨id, _, panics⟩
  · exact not_panics_okOr absent
  split at panics
  · exact not_panics_refuse panics
  split at panics
  · exact not_panics_refuse panics
  split at panics
  · exact not_panics_refuse panics
  rcases bind_panics.mp panics with payloads | ⟨_, _, panics⟩
  · exact checkPayloads_not_panics payloads
  split at panics
  · split at panics
    · exact not_panics_refuse panics
    · exact not_panics_ok panics
  · exact not_panics_ok panics

/-- Entries are exact where the first one is, and then the others. -/
theorem EntriesExact.cons_iff
    {entry : JournalEntry} {rest : List JournalEntry} :
    EntriesExact kernel state objects expected (entry :: rest) ↔
      EntriesExact kernel state objects expected [entry] ∧
        EntriesExact kernel state objects (some entry.head) rest := by
  constructor
  · rintro ⟨⟨succeeds, later⟩, supplied, agrees⟩
    refine ⟨⟨⟨succeeds, trivial⟩, ?_, ?_⟩, later,
      fun member inside => supplied member (List.mem_cons_of_mem _ inside),
      fun member inside => agrees member (List.mem_cons_of_mem _ inside)⟩
    · intro member inside
      rw [List.mem_singleton.mp inside]
      exact supplied entry List.mem_cons_self
    · intro member inside
      rw [List.mem_singleton.mp inside]
      exact agrees entry List.mem_cons_self
  · rintro ⟨⟨⟨succeeds, _⟩, supplied, agrees⟩, later, suppliedLater,
      agreesLater⟩
    refine ⟨⟨succeeds, later⟩, ?_, ?_⟩
    · rintro member (_ | ⟨_, inside⟩)
      · exact supplied entry List.mem_cons_self
      · exact suppliedLater member inside
    · rintro member (_ | ⟨_, inside⟩)
      · exact agrees entry List.mem_cons_self
      · exact agreesLater member inside

theorem EntriesExact.nil :
    EntriesExact kernel state objects expected [] :=
  ⟨trivial, by simp, by simp⟩

/-- The check of one entry, where the object loop made `available`. -/
theorem checkBatchEntry_eq_ok_iff
    (made : availableObjects kernel state.objects objects = .ok available)
    {sequence : UInt64} {entry : JournalEntry}
    (start : sequence.toNat = nextIndex expected) :
    checkBatchEntry kernel state available sequence
        (expected.map JournalHead.entry) entry = .ok () ↔
      EntriesExact kernel state objects expected [entry] := by
  rw [checkBatchEntry_eq_ok start]
  constructor
  · rintro ⟨succeeds, supplied, agrees⟩
    refine ⟨⟨succeeds, trivial⟩, ?_, ?_⟩
    · intro member inside payload listed
      rw [List.mem_singleton.mp inside] at listed
      exact (availableObjects_mem made payload).mp (supplied payload listed)
    · intro member inside
      rw [List.mem_singleton.mp inside]
      exact agrees
  · rintro ⟨⟨succeeds, _⟩, supplied, agrees⟩
    refine ⟨succeeds, ?_, agrees entry List.mem_cons_self⟩
    intro payload listed
    exact (availableObjects_mem made payload).mpr
      (supplied entry List.mem_cons_self payload listed)

/-- A position is overrun at once, or after its first entry. -/
theorem Overruns.cons_iff
    {entry : JournalEntry} {rest : List JournalEntry} :
    Overruns kernel state expected objects (entry :: rest) ↔
      2 ^ 64 ≤ nextIndex expected + 1 ∨
        EntriesExact kernel state objects expected [entry] ∧
          Overruns kernel state (some entry.head) objects rest := by
  constructor
  · rintro ⟨before, after, same, passed, large⟩
    cases before with
    | nil => exact .inl large
    | cons head tail =>
        cases same
        obtain ⟨first, later⟩ := EntriesExact.cons_iff.mp passed
        have rank := (linking kernel).rank_headOf first.follows.1
        change nextIndex (some entry.head) = nextIndex expected + 1 at rank
        refine .inr ⟨first, tail, after, rfl, later, ?_⟩
        rw [List.length_cons] at large
        omega
  · rintro (large | ⟨first, before, after, rfl, later, large⟩)
    · exact ⟨[], _, rfl, .nil, large⟩
    · have rank := (linking kernel).rank_headOf first.follows.1
      change nextIndex (some entry.head) = nextIndex expected + 1 at rank
      refine ⟨entry :: before, after, rfl,
        EntriesExact.cons_iff.mpr ⟨first, later⟩, ?_⟩
      rw [List.length_cons]
      omega

/-- The entry loop panics where it runs out of sequences. -/
theorem checkBatchEntries_panics
    (made : availableObjects kernel state.objects objects = .ok available)
    {sequence : UInt64}
    (start : sequence.toNat = nextIndex expected) :
    Panics (checkBatchEntries kernel state available sequence
        (expected.map JournalHead.entry) entries) ↔
      Overruns kernel state expected objects entries := by
  induction entries generalizing expected sequence with
  | nil =>
      rw [checkBatchEntries, bind_panics, nextSequence_panics, start]
      constructor
      · rintro (large | ⟨_, _, panics⟩)
        · exact ⟨[], [], rfl, .nil, large⟩
        · exact (not_panics_ok panics).elim
      · rintro ⟨before, after, same, _, large⟩
        rw [(List.append_eq_nil_iff.mp same.symm).1] at large
        exact .inl large
  | cons entry rest inductionHypothesis =>
      rw [checkBatchEntries, bind_panics, nextSequence_panics, start,
        Overruns.cons_iff]
      by_cases large : 2 ^ 64 ≤ nextIndex expected + 1
      · exact iff_of_true (.inl large) (.inl large)
      refine or_congr_right ?_
      obtain ⟨next, advanced⟩ := nextSequence_isOk.mpr
        (show sequence.toNat + 1 < 2 ^ 64 from start ▸ Nat.lt_of_not_le large)
      have following
          (first : EntriesExact kernel state objects expected [entry]) :
          next.toNat = nextIndex (some entry.head) := by
        rw [nextSequence_eq_ok.mp advanced, start,
          ← first.follows.1.sequence]
        rfl
      constructor
      · rintro ⟨again, found, panics⟩
        cases found.symm.trans advanced
        rcases bind_panics.mp panics with first | ⟨_, first, panics⟩
        · exact (checkBatchEntry_not_panics first).elim
        have passed := (checkBatchEntry_eq_ok_iff made start).mp first
        exact ⟨passed, (inductionHypothesis (following passed)).mp panics⟩
      · rintro ⟨first, later⟩
        refine ⟨next, advanced, bind_panics.mpr (.inr ⟨(), ?_, ?_⟩)⟩
        · exact (checkBatchEntry_eq_ok_iff made start).mpr first
        · exact (inductionHypothesis (following first)).mpr later

end Entries

/-- What the batch check accepts is exact, and leaves room after it. -/
theorem batchAccepted_iff :
    BatchAccepted kernel state expected objects entries ↔
      BatchExact kernel state expected objects entries ∧
        nextIndex expected + entries.length + 1 < 2 ^ 64 := by
  constructor
  · rintro ⟨supplied, follows, available, agrees, room⟩
    exact ⟨⟨availableObjects_isOk_iff.mp supplied, follows, available,
      agrees⟩, room⟩
  · rintro ⟨⟨offered, follows, available, agrees⟩, room⟩
    exact ⟨availableObjects_isOk_iff.mpr offered, follows, available, agrees,
      room⟩

/-- Where the batch check panics. -/
theorem verifyBatch_panics :
    Panics (verifyBatch kernel state expected objects entries) ↔
      Oversized kernel state.objects objects ∨
        ObjectsExact kernel state.objects objects ∧
          Overruns kernel state expected objects entries := by
  rw [verifyBatch, bind_panics, availableObjects_panics]
  refine or_congr_right ?_
  constructor
  · rintro ⟨available, made, panics⟩
    refine ⟨availableObjects_isOk_iff.mp ⟨available, made⟩, ?_⟩
    rcases bind_panics.mp panics with first | ⟨sequence, found, panics⟩
    · refine ⟨[], entries, rfl, .nil, ?_⟩
      cases expected with
      | none => exact (not_panics_ok first).elim
      | some head =>
          have large := nextSequence_panics.mp first
          rw [List.length_nil, nextIndex]
          omega
    · exact (checkBatchEntries_panics made (firstSequence_eq_ok.mp found)).mp
        panics
  · rintro ⟨offered, overruns⟩
    obtain ⟨available, made⟩ := availableObjects_isOk_iff.mpr offered
    refine ⟨available, made, bind_panics.mpr ?_⟩
    by_cases small : nextIndex expected < 2 ^ 64
    · have found := firstSequence_eq_ok.mpr (UInt64.toNat_ofNat_of_lt small)
      exact .inr ⟨_, found, (checkBatchEntries_panics made
        (firstSequence_eq_ok.mp found)).mpr overruns⟩
    · cases expected with
      | none => exact (small (by decide)).elim
      | some head =>
          exact .inl (nextSequence_panics.mpr (Nat.le_of_not_lt small))

/--
The batch check is exact, and does not panic, unless it reaches an object whose
encoding is larger than an allocation, or a position after which no `u64`
follows.
-/
theorem verifyBatch_exact_iff
    (kernel : Kernel)
    (state : StoredState)
    (expected : Option JournalHead)
    (objects : List JournalObject)
    (entries : List JournalEntry) :
    (¬ Panics (verifyBatch kernel state expected objects entries) ∧
        (verifyBatch kernel state expected objects entries = .ok () ↔
          BatchExact kernel state expected objects entries)) ↔
      ¬ Oversized kernel state.objects objects ∧
        ¬ (ObjectsExact kernel state.objects objects ∧
          Overruns kernel state expected objects entries) := by
  rw [verifyBatch_panics, not_or]
  refine and_iff_left_of_imp ?_
  rintro ⟨_, within⟩
  rw [verifyBatch_eq_ok, batchAccepted_iff]
  refine and_iff_left_of_imp fun exact' => ?_
  apply Nat.lt_of_not_le
  intro large
  exact within ⟨exact'.offered, entries, [], (List.append_nil entries).symm,
    exact'.appended, large⟩

/-- A head from which the last sequence follows. -/
def lastHead : JournalHead where
  sequence := 18446744073709551614
  entry := referenceEntry.id

/-- The entry with the last sequence. -/
def lastEntry : JournalEntry where
  id := (Reference.contentId (JournalEntry.canonicalDatum
    ⟨JournalEntry.unset, 18446744073709551615, some referenceEntry.id,
      .qualified "example" "closed", []⟩)).getD JournalEntry.unset
  sequence := 18446744073709551615
  previous := some referenceEntry.id
  kind := .qualified "example" "closed"
  payloads := []

theorem lastEntry_genuine :
    lastEntry.Genuine Reference.kernel := by
  decide +kernel

/-- A batch with the last sequence is as it should be, and its check panics. -/
theorem last_sequence_panics :
    BatchExact Reference.kernel .empty (some lastHead) [] [lastEntry] ∧
      verifyBatch Reference.kernel .empty (some lastHead) [] [lastEntry] =
        .error (.panicked "attempt to add with overflow") := by
  refine ⟨⟨⟨by simp, by simp, .nil⟩,
    ⟨⟨lastEntry_genuine, by decide, rfl⟩, trivial⟩, ?_, ?_⟩, rfl⟩
  · intro entry member payload listed
    rw [List.mem_singleton.mp member] at listed
    cases listed
  · intro entry member existing found
    cases found.symm.trans (Std.ExtTreeMap.getElem?_empty)

end Batches

section States

/-- The identity that the entry at a key must name as the one before it. -/
def identityBefore (entries : EntryMap) (key : UInt64) : Option ContentId :=
  if key = 0 then none else entries[key - 1]?.map JournalEntry.id

/-- A state whose parts all agree. -/
structure StateExact
    (kernel : Kernel)
    (state : StoredState) : Prop where
  keys : ∀ key : UInt64, key ∈ state.entries ↔ key.toNat < state.entries.size
  sequence :
    ∀ (key : UInt64) (entry : JournalEntry),
      state.entries[key]? = some entry → entry.sequence = key
  genuine :
    ∀ (key : UInt64) (entry : JournalEntry),
      state.entries[key]? = some entry → entry.Genuine kernel
  previous :
    ∀ (key : UInt64) (entry : JournalEntry),
      state.entries[key]? = some entry →
      entry.previous = identityBefore state.entries key
  payloads :
    ∀ (key : UInt64) (entry : JournalEntry),
      state.entries[key]? = some entry →
      ∀ payload ∈ entry.payloads, ∃ bytes datum object,
        state.objects[payload]? = some bytes ∧
          state.datums[payload]? = some datum ∧
          JournalObject.fromDatum kernel datum = .ok object ∧
          object.id = payload ∧ object.bytes = bytes
  head :
    state.head =
      state.entries[UInt64.ofNat (state.entries.size - 1)]?.map
        JournalEntry.head

/-- A verification that lists what the entry map holds. -/
structure Lists (state : StoredState) (verified : Verification) : Prop where
  length : verified.entries.length = state.entries.size
  entries :
    ∀ key : UInt64, verified.entries[key.toNat]? = state.entries[key]?
  objectIds :
    ∀ id, id ∈ verified.objectIds ↔
      ∃ (key : UInt64) (entry : JournalEntry),
        state.entries[key]? = some entry ∧ id ∈ entry.payloads

/-- Every entry stands under its own sequence. -/
def Keyed (entries : EntryMap) : Prop :=
  ∀ (key : UInt64) (entry : JournalEntry),
    entries[key]? = some entry → entry.sequence = key

/-- The values of the entry map, in the order of the keys, are a whole log. -/
structure ReadsAsLog
    (kernel : Kernel)
    (state : StoredState) : Prop where
  follows : Follows kernel none state.entries.list
  covers : CoversAll kernel state state.entries.list
  head : state.head = headAfter none state.entries.list

variable {kernel : Kernel} {state : StoredState} {entries : EntryMap}

/-- The state check accepts the states whose values read as a log. -/
theorem verifyState_isOk_iff :
    (∃ verified, verifyState kernel state = .ok verified) ↔
      ReadsAsLog kernel state := by
  constructor
  · rintro ⟨verified, accepted⟩
    obtain ⟨follows, covers, head, _, stored, _⟩ := verifyState_sound accepted
    exact ⟨follows, covers, stored.trans head⟩
  · rintro ⟨follows, covers, head⟩
    obtain ⟨objectIds, walked, _⟩ :=
      @verifyEntries_of_follows kernel none state ∅ _ follows covers
    refine ⟨⟨headAfter none state.entries.list, state.entries.list, objectIds⟩,
      bind_eq_ok.mpr ⟨objectIds, walked, ?_⟩⟩
    have computed : state.entries.list.getLast?.map JournalEntry.head =
        headAfter none state.entries.list := by
      simp [headAfter]
    rw [computed]
    exact if_neg fun differs => differs head.symm

theorem EntryMap.mem_list
    {entry : JournalEntry} :
    entry ∈ entries.list ↔ ∃ key : UInt64, entries[key]? = some entry := by
  rw [EntryMap.list, List.mem_map]
  constructor
  · rintro ⟨⟨key, found⟩, member, rfl⟩
    exact ⟨key, Std.ExtTreeMap.mem_toList_iff_getElem?_eq_some.mp member⟩
  · rintro ⟨key, found⟩
    exact ⟨(key, entry), Std.ExtTreeMap.mem_toList_iff_getElem?_eq_some.mpr found,
      rfl⟩

theorem EntryMap.list_length :
    entries.list.length = entries.size := by
  rw [EntryMap.list, List.length_map, Std.ExtTreeMap.length_toList]

/-- A keyed map whose values are linked has them at their keys. -/
theorem Keyed.getElem_list
    (keyed : Keyed entries)
    (follows : Follows kernel none entries.list)
    (key : UInt64) :
    entries.list[key.toNat]? = entries[key]? := by
  apply Option.ext
  intro entry
  constructor
  · intro found
    obtain ⟨place, stored⟩ :=
      EntryMap.mem_list.mp (List.mem_of_getElem? found)
    have position := follows.sequence_of_getElem found
    rw [nextIndex, Nat.zero_add, keyed place entry stored] at position
    rw [← UInt64.toNat_inj.mp position]
    exact stored
  · intro stored
    rw [← keyed key entry stored]
    exact follows.getElem_sequence (EntryMap.mem_list.mpr ⟨key, stored⟩)

/-- A linked entry names the one before it. -/
theorem Follows.previous_of_getElem
    {log : List JournalEntry} {index : Nat} {entry : JournalEntry}
    (follows : Follows kernel none log)
    (found : log[index]? = some entry) :
    entry.previous =
      if index = 0 then none else log[index - 1]?.map JournalEntry.id := by
  obtain ⟨inside, atIndex⟩ := List.getElem?_eq_some_iff.mp found
  have split : log = log.take index ++ entry :: log.drop (index + 1) := by
    rw [← atIndex, List.getElem_cons_drop, List.take_append_drop]
  have linked : Follows kernel none
      (log.take index ++ entry :: log.drop (index + 1)) := by
    rw [← split]
    exact follows
  have succeeds := (Follows.append_iff.mp linked).2.1
  rw [succeeds.previous, headAfter, List.getLast?_take]
  by_cases first : index = 0
  · simp [first]
  · have before : index - 1 < log.length := by omega
    simp [first, before, JournalEntry.head]

theorem toNat_newest
    (entries : EntryMap) :
    (UInt64.ofNat (entries.size - 1)).toNat = entries.size - 1 := by
  have small := entries.length_le
  rw [EntryMap.list_length] at small
  apply UInt64.toNat_ofNat_of_lt
  change entries.size - 1 < 2 ^ 64
  omega

theorem toNat_before
    {key : UInt64}
    (later : key ≠ 0) :
    (key - 1).toNat = key.toNat - 1 := by
  apply UInt64.toNat_sub_of_le
  rw [UInt64.le_iff_toNat_le]
  have positive : key.toNat ≠ 0 := fun zero => later (UInt64.toNat_inj.mp zero)
  change 1 ≤ key.toNat
  omega

/-- A keyed map that reads as a log makes an exact state. -/
theorem ReadsAsLog.exact
    (reads : ReadsAsLog kernel state)
    (keyed : Keyed state.entries) :
    StateExact kernel state := by
  have placed := keyed.getElem_list reads.follows
  have listed {key : UInt64} {entry : JournalEntry}
      (found : state.entries[key]? = some entry) :
      entry ∈ state.entries.list :=
    EntryMap.mem_list.mpr ⟨key, found⟩
  refine ⟨?_, keyed, ?_, ?_, ?_, ?_⟩
  · intro key
    rw [← Std.ExtTreeMap.isSome_getElem?_iff_mem, ← placed]
    simp [EntryMap.list_length]
  · intro key entry found
    exact reads.follows.genuine entry (listed found)
  · intro key entry found
    rw [reads.follows.previous_of_getElem ((placed key).trans found),
      identityBefore]
    have zero : key.toNat = 0 ↔ key = 0 := @UInt64.toNat_inj key 0
    by_cases first : key = 0
    · rw [if_pos first, if_pos (zero.mpr first)]
    · rw [if_neg first, if_neg (mt zero.mp first), ← placed,
        toNat_before first]
  · intro key entry found payload inside
    obtain ⟨object, sound, identity, bytes, datum⟩ :=
      reads.covers entry (listed found) payload inside
    exact ⟨object.bytes, object.datum, object, bytes, datum,
      JournalObject.fromDatum_eq_ok.mpr ⟨rfl, sound⟩, identity, rfl⟩
  · rw [reads.head, headAfter, List.getLast?_eq_getElem?, Option.or_none,
      EntryMap.list_length, ← placed, toNat_newest]

/-- An exact state has the log that its map holds, entry by entry. -/
theorem StateExact.logUpTo
    (agrees : StateExact kernel state)
    {count : Nat}
    (inside : count ≤ state.entries.size) :
    ∃ log, log.length = count ∧ Follows kernel none log ∧
      ∀ key : UInt64, key.toNat < count →
        state.entries[key]? = log[key.toNat]? := by
  induction count with
  | zero =>
      exact ⟨[], rfl, trivial, fun key small => absurd small (Nat.not_lt_zero _)⟩
  | succ count inductionHypothesis =>
      obtain ⟨log, length, follows, placed⟩ :=
        inductionHypothesis (Nat.le_of_succ_le inside)
      have bounded := state.entries.length_le
      rw [EntryMap.list_length] at bounded
      let key := UInt64.ofNat count
      have value : key.toNat = count :=
        UInt64.toNat_ofNat_of_lt (show count < 2 ^ 64 by omega)
      have member : key ∈ state.entries := (agrees.keys key).mpr (by omega)
      obtain ⟨entry, found⟩ := Option.isSome_iff_exists.mp
        (Std.ExtTreeMap.isSome_getElem?_iff_mem.mpr member)
      have rank := follows.nextIndex_headAfter
      refine ⟨log ++ [entry], by simp [length], Follows.append_iff.mpr
        ⟨follows, ⟨agrees.genuine key entry found, ?_, ?_⟩, trivial⟩, ?_⟩
      · rw [agrees.sequence key entry found, value, rank, length, nextIndex,
          Nat.zero_add]
      · rw [agrees.previous key entry found, identityBefore, headAfter,
          List.getLast?_eq_getElem?, length]
        have zero : key.toNat = 0 ↔ key = 0 := @UInt64.toNat_inj key 0
        by_cases first : key = 0
        · have empty : log = [] := by
            apply List.eq_nil_of_length_eq_zero
            rw [length, ← value, zero.mpr first]
          simp [first, empty]
        · have before := toNat_before first
          have positive := mt zero.mp first
          rw [if_neg first, placed (key - 1) (by omega), before, value]
          cases log[count - 1]? <;> rfl
      · intro other small
        by_cases earlier : other.toNat < count
        · rw [placed other earlier,
            List.getElem?_append_left (length ▸ earlier)]
        · have last : other.toNat = log.length := by omega
          have same : other = key :=
            UInt64.toNat_inj.mp (by rw [last, length, value])
          rw [last, same, found, List.getElem?_concat_length]

/-- An exact state reads as a log. -/
theorem StateExact.readsAsLog
    (agrees : StateExact kernel state) :
    ReadsAsLog kernel state := by
  obtain ⟨log, length, follows, placed⟩ := agrees.logUpTo (Nat.le_refl _)
  have same : indexed log = state.entries := by
    apply Std.ExtTreeMap.ext_getElem?
    intro key
    apply Option.ext
    intro entry
    rw [indexed_getElem follows]
    constructor
    · rintro ⟨member, rfl⟩
      have found := follows.getElem_sequence member
      have inside := (List.getElem?_eq_some_iff.mp found).1
      rw [placed _ (length ▸ inside), found]
    · intro found
      have inside := (agrees.keys key).mp (Std.ExtTreeMap.mem_iff_isSome_getElem?.mpr
        (Option.isSome_of_eq_some found))
      rw [placed key inside] at found
      have position := follows.sequence_of_getElem found
      rw [nextIndex, Nat.zero_add] at position
      exact ⟨List.mem_of_getElem? found, UInt64.toNat_inj.mp position⟩
  have listed : state.entries.list = log := by
    rw [← same, indexed_list follows]
  rw [← listed] at follows
  have keyed : Keyed state.entries := agrees.sequence
  refine ⟨follows, ?_, ?_⟩
  · intro entry member payload inside
    obtain ⟨key, found⟩ := EntryMap.mem_list.mp member
    obtain ⟨bytes, datum, object, hasBytes, hasDatum, made, identity, rfl⟩ :=
      agrees.payloads key entry found payload inside
    obtain ⟨rfl, sound⟩ := JournalObject.fromDatum_eq_ok.mp made
    exact ⟨object, sound, identity, hasBytes, hasDatum⟩
  · rw [agrees.head, headAfter, List.getLast?_eq_getElem?, Option.or_none,
      EntryMap.list_length, ← keyed.getElem_list follows, toNat_newest]

/-- A verification of a keyed map lists what it holds. -/
theorem lists_of_verifyState
    {verified : Verification}
    (keyed : Keyed state.entries)
    (accepted : verifyState kernel state = .ok verified) :
    Lists state verified := by
  obtain ⟨follows, _, _, entries, _, members⟩ := verifyState_sound accepted
  refine ⟨by rw [entries, EntryMap.list_length], ?_, ?_⟩
  · intro key
    rw [entries]
    exact keyed.getElem_list follows key
  · intro id
    rw [members]
    constructor
    · rintro ⟨entry, member, inside⟩
      obtain ⟨key, found⟩ := EntryMap.mem_list.mp member
      exact ⟨key, entry, found, inside⟩
    · rintro ⟨key, entry, found, inside⟩
      exact ⟨entry, EntryMap.mem_list.mpr ⟨key, found⟩, inside⟩

/--
The state check is exact, and lists what the map holds, where the map is keyed
by its entries' sequences or the values do not read as a log.
-/
theorem verifyState_exact_iff
    (kernel : Kernel)
    (state : StoredState) :
    (((∃ verified, verifyState kernel state = .ok verified) ↔
          StateExact kernel state) ∧
        ∀ verified, verifyState kernel state = .ok verified →
          Lists state verified) ↔
      Keyed state.entries ∨ ¬ ReadsAsLog kernel state := by
  rw [verifyState_isOk_iff]
  constructor
  · rintro ⟨accepts, _⟩
    by_cases reads : ReadsAsLog kernel state
    · exact .inl (accepts.mp reads).sequence
    · exact .inr reads
  · rintro (keyed | refused)
    · exact ⟨⟨fun reads => reads.exact keyed, StateExact.readsAsLog⟩,
        fun verified => lists_of_verifyState keyed⟩
    · refine ⟨⟨fun reads => absurd reads refused, fun agrees =>
        agrees.readsAsLog⟩, fun verified accepted => ?_⟩
      exact absurd (verifyState_isOk_iff.mp ⟨verified, accepted⟩) refused

/-- The first entry under a key that is not its sequence. -/
def misplacedState : StoredState where
  objects := referenceState.objects
  datums := referenceState.datums
  entries := Std.ExtTreeMap.empty.insert 5 referenceEntry
  head := referenceState.head

/-- A state with its only entry under the key five is accepted. -/
theorem misplaced_state_accepted :
    (∃ verified,
        verifyState Reference.kernel misplacedState = .ok verified) ∧
      ¬ StateExact Reference.kernel misplacedState := by
  have listed : misplacedState.entries.list = [referenceEntry] := rfl
  constructor
  · refine verifyState_isOk_iff.mpr ⟨?_, ?_, rfl⟩
    · rw [listed]
      exact referenceEntry_follows
    · rw [listed]
      exact referenceState_holds.covers
  · intro agrees
    have found : misplacedState.entries[(5 : UInt64)]? = some referenceEntry :=
      Std.ExtTreeMap.getElem?_insert_self
    exact absurd (agrees.sequence 5 referenceEntry found) (by decide)

end States

end SimStorage.Journal
