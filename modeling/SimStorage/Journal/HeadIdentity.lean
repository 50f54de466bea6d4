import SimStorage.Journal.Meaning
import SimStorage.Kernel.Reference

namespace SimStorage.Journal

/-!
# A head determines its history

Where content identities are collision-free, a genuine entry is determined by
its identity, so a journal head determines every entry before it, and with the
entries the payloads that a verified state retains.
-/

open Codec NativeCodec

variable {kernel : Kernel}

/-- An entry that is genuine and has an identity is the only such entry. -/
theorem JournalEntry.Genuine.unique
    (lawful : kernel.Lawful)
    {values : Set Datum}
    (free : kernel.CollisionFree values)
    {one two : JournalEntry}
    (genuine : one.Genuine kernel)
    (other : two.Genuine kernel)
    (known : one.canonicalDatum ∈ values)
    (otherKnown : two.canonicalDatum ∈ values)
    (same : one.id = two.id) :
    one = two := by
  have rearranged : Rearranged one.canonicalDatum two.canonicalDatum :=
    free _ known _ otherKnown one.id genuine (same ▸ other)
  have canonical : kernel.Canonical one.canonicalDatum :=
    (lawful.contentId_isSome _).mp (Option.isSome_of_eq_some genuine)
  have form := DatumCodec.arranged_rearranged lawful rearranged canonical
  have read := entryFromDatum_arranged lawful genuine
  rw [form, entryFromDatum_arranged lawful other] at read
  exact (Except.ok.inj read).symm

/-- An entry determines the head that it may follow. -/
theorem Succeeds.head_unique
    {before after : Option JournalHead} {entry : JournalEntry}
    (first : Succeeds kernel before entry)
    (second : Succeeds kernel after entry) :
    before = after := by
  have previous := first.previous.symm.trans second.previous
  have position := first.sequence.symm.trans second.sequence
  cases before with
  | none =>
      cases after with
      | none => rfl
      | some head => cases previous
  | some head =>
      cases after with
      | none => cases previous
      | some other =>
          have sequence : head.sequence = other.sequence := by
            apply UInt64.toNat_inj.mp
            simpa [nextIndex] using position
          have identity : head.entry = other.entry :=
            Option.some.inj previous
          obtain ⟨_, _⟩ := head
          simp only at sequence identity
          rw [sequence, identity]

section Snapshots

variable {state : StoredState}

/-- The snapshot of covered payloads takes their datums from the state. -/
theorem snapshotDatums_of_covered
    {ids : List ContentId} {datums : IdMap Datum}
    (covered : ∀ id ∈ ids, Covered kernel state id) :
    ∃ result, snapshotDatums state datums ids = .ok result ∧
      ∀ id, result[id]? =
        if id ∈ ids then state.datums[id]? else datums[id]? := by
  induction ids generalizing datums with
  | nil => exact ⟨datums, rfl, by simp⟩
  | cons id rest inductionHypothesis =>
      obtain ⟨object, _, _, _, found⟩ := covered id List.mem_cons_self
      obtain ⟨result, taken, reads⟩ :=
        @inductionHypothesis (datums.insert id object.datum)
          fun member inside => covered member (List.mem_cons_of_mem _ inside)
      refine ⟨result, bind_eq_ok.mpr
        ⟨object.datum, okOr_eq_ok.mpr found, taken⟩, ?_⟩
      intro query
      rw [reads]
      by_cases later : query ∈ rest
      · simp [later]
      · by_cases here : query = id
        · subst here
          simp [later, found]
        · have differs : id ≠ query := fun equal => here equal.symm
          simp [later, here, differs, Std.ExtTreeMap.getElem?_insert]

/-- A verified state has a snapshot, with datums of its payload identities. -/
theorem VerifiedSnapshot.fromState_of_verified
    {verified : Verification}
    (accepted : verifyState kernel state = .ok verified) :
    ∃ snapshot, VerifiedSnapshot.fromState kernel state = .ok snapshot ∧
      snapshot.head = verified.head ∧ snapshot.entries = verified.entries ∧
      (∀ id, id ∈ snapshot.datums ↔ id ∈ verified.objectIds) ∧
      ∀ id ∈ verified.objectIds, ∃ datum,
        snapshot.datums[id]? = some datum ∧
          kernel.contentId datum = some id := by
  obtain ⟨_, covers, _, _, _, members⟩ := verifyState_sound accepted
  have covered : ∀ id ∈ verified.objectIds, Covered kernel state id := by
    intro id member
    obtain ⟨entry, inside, payload⟩ := (members id).mp member
    exact covers entry inside id payload
  obtain ⟨datums, taken, reads⟩ :=
    @snapshotDatums_of_covered kernel state verified.objectIds.toList ∅
      fun id member => covered id (Std.ExtTreeSet.mem_toList.mp member)
  simp only [Std.ExtTreeSet.mem_toList] at reads
  have retained : ∀ id ∈ verified.objectIds, ∃ datum,
      datums[id]? = some datum ∧ kernel.contentId datum = some id := by
    intro id member
    obtain ⟨object, sound, rfl, _, found⟩ := covered id member
    refine ⟨object.datum, ?_, sound.identity⟩
    rw [reads, if_pos member, found]
  refine ⟨⟨verified.head, verified.entries, datums⟩,
    bind_eq_ok.mpr ⟨verified, accepted, bind_eq_ok.mpr ⟨datums, taken, rfl⟩⟩,
    rfl, rfl, ?_, retained⟩
  intro id
  change id ∈ datums ↔ _
  rw [← Std.ExtTreeMap.isSome_getElem?_iff_mem]
  by_cases member : id ∈ verified.objectIds
  · obtain ⟨datum, found, _⟩ := retained id member
    simp [found, member]
  · simp [reads, member]

end Snapshots

/--
Two states that verify with one head have the same entries and the same
payload identities, and their snapshots retain, under every such identity,
datums of that identity.
-/
theorem head_determines_history
    (lawful : kernel.Lawful)
    {values : Set Datum}
    (free : kernel.CollisionFree values)
    {first second : StoredState} {one two : Verification}
    (accepted : verifyState kernel first = .ok one)
    (other : verifyState kernel second = .ok two)
    (known : ∀ entry,
      entry ∈ first.entries.list ∨ entry ∈ second.entries.list →
      entry.canonicalDatum ∈ values)
    (heads : first.head = second.head) :
    one.entries = two.entries ∧ one.objectIds = two.objectIds ∧
      ∃ left right,
        VerifiedSnapshot.fromState kernel first = .ok left ∧
        VerifiedSnapshot.fromState kernel second = .ok right ∧
        left.head = right.head ∧ left.entries = right.entries ∧
        (∀ id, id ∈ left.datums ↔ id ∈ one.objectIds) ∧
        (∀ id, id ∈ right.datums ↔ id ∈ one.objectIds) ∧
        ∀ id ∈ one.objectIds, ∃ datum again,
          left.datums[id]? = some datum ∧ right.datums[id]? = some again ∧
          kernel.contentId datum = some id ∧
          kernel.contentId again = some id := by
  obtain ⟨follows, covers, head, entries, stored, members⟩ :=
    verifyState_sound accepted
  obtain ⟨otherFollows, otherCovers, otherHead, otherEntries, otherStored,
    otherMembers⟩ := verifyState_sound other
  have sameHead : one.head = two.head := by
    rw [← stored, heads, otherStored]
  have sameList : first.entries.list = second.entries.list := by
    apply Ledger.Linking.Linked.unique follows otherFollows
    · rw [linking_headAfter, linking_headAfter, ← head, sameHead, otherHead]
    · intro entry inside again insideAgain same
      exact JournalEntry.Genuine.unique lawful free
        (follows.genuine entry inside)
        (otherFollows.genuine again insideAgain)
        (known entry (.inl inside)) (known again (.inr insideAgain))
        (congrArg JournalHead.entry same)
    · exact Succeeds.head_unique
  have sameIds : one.objectIds = two.objectIds := by
    apply Std.ExtTreeSet.ext_mem
    intro id
    rw [members, otherMembers, sameList]
  obtain ⟨left, taken, leftHead, leftEntries, leftIds, leftDatums⟩ :=
    VerifiedSnapshot.fromState_of_verified accepted
  obtain ⟨right, takenAgain, rightHead, rightEntries, rightIds, rightDatums⟩ :=
    VerifiedSnapshot.fromState_of_verified other
  rw [← sameIds] at rightIds rightDatums
  refine ⟨by rw [entries, otherEntries, sameList], sameIds, left, right,
    taken, takenAgain, by rw [leftHead, rightHead, sameHead],
    by rw [leftEntries, rightEntries, entries, otherEntries, sameList],
    leftIds, rightIds, ?_⟩
  intro id member
  obtain ⟨datum, found, identity⟩ := leftDatums id member
  obtain ⟨again, foundAgain, identityAgain⟩ := rightDatums id member
  exact ⟨datum, again, found, foundAgain, identity, identityAgain⟩

section Reference

/-- An object that holds exact bytes. -/
def referenceObject (bytes : Bytes) : JournalObject where
  id := (Reference.contentId (exactDatum bytes)).getD JournalEntry.unset
  bytes := bytes
  datum := exactDatum bytes

/-- Exact bytes that fit memory have an encoding that does. -/
theorem referenceObject_fits
    {bytes : Bytes}
    (small : bytes.length ≤ 2 ^ 32) :
    DatumCodec.FitsStored Reference.kernel (referenceObject bytes).datum := by
  have room : (32 + 56) * 1 ≤ isizeMax := by decide
  have length : DatumCodec.magic.length +
      DatumCodec.encodedLength (exactDatum bytes) = 80 + bytes.length := by
    change 10 + (1 + (38 + (8 + (14 + (1 + (8 + bytes.length)) + 0)))) = _
    omega
  refine ⟨⟨⟨room, trivial, trivial⟩, ?_⟩, ?_⟩
  · rw [referenceObject, length, isizeMax]
    omega
  · rw [referenceObject, length, isizeMax]
    omega

/-- Exact bytes that fit memory make a sound object. -/
theorem referenceObject_sound
    {bytes : Bytes}
    (small : bytes.length ≤ 2 ^ 32) :
    (referenceObject bytes).Sound Reference.kernel where
  identity := rfl
  projection := by
    obtain ⟨encoded, put, _⟩ := @DatumCodec.encode_isOk Reference.kernel
      (exactDatum bytes) rfl (referenceObject_fits small).toFits
    refine ⟨encoded, put, ?_⟩
    change bytes = (exactBytes (exactDatum bytes)).getD encoded
    rw [exactBytes_exactDatum, Option.getD_some]

/-- The first entry of a journal, with one payload. -/
def referenceEntry : JournalEntry where
  id := (Reference.contentId (JournalEntry.canonicalDatum
    ⟨JournalEntry.unset, 0, none, .qualified "example" "opened",
      [(referenceObject [1, 2, 3]).id]⟩)).getD JournalEntry.unset
  sequence := 0
  previous := none
  kind := .qualified "example" "opened"
  payloads := [(referenceObject [1, 2, 3]).id]

theorem referenceEntry_genuine :
    referenceEntry.Genuine Reference.kernel := by
  decide +kernel

theorem referenceEntry_follows :
    Follows Reference.kernel none [referenceEntry] :=
  ⟨⟨referenceEntry_genuine, rfl, rfl⟩, trivial⟩

/-- The state of a journal with the first entry. -/
def referenceState : StoredState where
  objects := (StoredState.empty.withObject (referenceObject [1, 2, 3])).objects
  datums := (StoredState.empty.withObject (referenceObject [1, 2, 3])).datums
  entries := indexed [referenceEntry]
  head := some referenceEntry.head

theorem referenceState_holds :
    Holds Reference.kernel referenceState [referenceEntry] where
  follows := referenceEntry_follows
  entries := rfl
  head := rfl
  covers := by
    intro entry member payload inside
    rw [List.mem_singleton.mp member] at inside
    rw [List.mem_singleton.mp inside]
    exact @covered_withObject _ .empty _ (referenceObject_sound (by decide))

/-- The reference state and the same state with a stray object. -/
theorem reference_head_determines_history :
    ∃ one two,
      verifyState Reference.kernel referenceState = .ok one ∧
      verifyState Reference.kernel
        (referenceState.withObject (referenceObject [4])) = .ok two ∧
      one.entries = two.entries ∧ one.objectIds = two.objectIds := by
  have holds : Holds Reference.kernel
      (referenceState.withObject (referenceObject [4])) [referenceEntry] :=
    ⟨referenceEntry_follows, rfl, rfl, fun entry member payload inside =>
      (referenceState_holds.covers entry member payload inside).withObject
        (referenceObject_sound (by decide))⟩
  obtain ⟨one, accepted, _⟩ := referenceState_holds.verifyState
  obtain ⟨two, other, _⟩ := holds.verifyState
  have free : Reference.kernel.CollisionFree
      {referenceEntry.canonicalDatum} := by
    rintro first rfl second rfl _ _ _
    exact .refl _
  have known : ∀ entry, entry ∈ referenceState.entries.list ∨
      entry ∈ (referenceState.withObject
        (referenceObject [4])).entries.list →
      entry.canonicalDatum ∈ ({referenceEntry.canonicalDatum} : Set Datum) := by
    rw [referenceState_holds.listed, holds.listed]
    rintro entry (member | member) <;>
      rw [List.mem_singleton.mp member] <;> rfl
  obtain ⟨entries, ids, _⟩ := head_determines_history Reference.kernel_lawful
    free accepted other known rfl
  exact ⟨one, two, accepted, other, entries, ids⟩

end Reference

end SimStorage.Journal
