import SimStorage.Journal.Memory.Backend
import SimStorage.Journal.HeadIdentity

namespace SimStorage.Journal.Memory

/-!
# The locked sections of the memory backend

What a commit and an insertion do to a state that holds a log, for objects
whose content identities are collision-free: a commit appends its whole batch
or changes nothing, and no object conflicts with a stored one.
-/

open Codec Interaction

/-- The kernel, and the calls of the clients. -/
structure Clients where
  kernel : Kernel
  workload : CallId → Operation

namespace Clients

variable (clients : Clients)

/-- An object that some call supplies. -/
def Supplied (object : JournalObject) : Prop :=
  ∃ me, object ∈ (clients.workload me).objects

/-- The datums of the supplied objects. -/
def suppliedDatums : Set Datum :=
  { datum | ∃ object, clients.Supplied object ∧ object.datum = datum }

/-- The batch that a call publishes. -/
def batchOf (me : CallId) : Option (List JournalEntry) :=
  (clients.workload me).publication.map Publication.entries

/-- Every stored object is a supplied sound one, with its datum. -/
def Stocked (state : StoredState) : Prop :=
  ∀ id, (state.objects[id]? = none ∧ state.datums[id]? = none) ∨
    ∃ object, clients.Supplied object ∧ object.Sound clients.kernel ∧
      object.id = id ∧ state.objects[id]? = some object.bytes ∧
      state.datums[id]? = some object.datum

/-- What the verification of a publication has established. -/
structure Prepared (state : StoredState) (publication : Publication) :
    Prop where
  nonempty : publication.entries ≠ []
  follows :
    Follows clients.kernel publication.expected publication.entries
  objects : ∀ object ∈ publication.objects,
    clients.Supplied object ∧ object.Sound clients.kernel
  available : ∀ entry ∈ publication.entries, ∀ payload ∈ entry.payloads,
    payload ∈ state.objects ∨
      ∃ object ∈ publication.objects, object.id = payload

/-- The assumptions on the kernel and on the supplied objects. -/
structure Assumed : Prop where
  lawful : clients.kernel.Lawful
  free : clients.kernel.CollisionFree clients.suppliedDatums
  fits : ∀ object, clients.Supplied object →
    DatumCodec.FitsStored clients.kernel object.datum

end Clients

variable {clients : Clients} {state after : StoredState}

section Objects

/-- Supplied sound objects of one identity have the same bytes. -/
theorem Clients.Assumed.bytes_eq
    (assumed : clients.Assumed)
    {object other : JournalObject}
    (supplied : clients.Supplied object)
    (otherSupplied : clients.Supplied other)
    (sound : object.Sound clients.kernel)
    (otherSound : other.Sound clients.kernel)
    (same : object.id = other.id) :
    object.bytes = other.bytes := by
  have rearranged := assumed.free _ ⟨object, supplied, rfl⟩ _
    ⟨other, otherSupplied, rfl⟩ object.id sound.identity
    (same ▸ otherSound.identity)
  exact (sound.rearranged assumed.lawful otherSound rearranged).2

/-- A supplied object that passes its check is sound. -/
theorem Clients.Assumed.sound_of_verify
    (assumed : clients.Assumed)
    {object : JournalObject}
    (supplied : clients.Supplied object)
    (verified : object.verify clients.kernel = .ok ()) :
    object.Sound clients.kernel := by
  obtain ⟨id, found, _⟩ := bind_eq_ok.mp verified
  have canonical := (assumed.lawful.contentId_isSome object.datum).mp
    (Option.isSome_of_eq_some (okOr_eq_ok.mp found))
  obtain ⟨encoded, put, _⟩ :=
    DatumCodec.encode_isOk canonical (assumed.fits object supplied).toFits
  exact JournalObject.sound_of_verify verified put

/-- A stored object is found with its bytes and its datum. -/
theorem Clients.Stocked.found
    (stocked : clients.Stocked state)
    {id : ContentId}
    (member : id ∈ state.objects) :
    ∃ object, clients.Supplied object ∧ object.Sound clients.kernel ∧
      object.id = id ∧ state.objects[id]? = some object.bytes ∧
      state.datums[id]? = some object.datum := by
  rcases stocked id with ⟨absent, _⟩ | present
  · rw [← Std.ExtTreeMap.isSome_getElem?_iff_mem, absent] at member
    cases member
  · exact present

/-- A stored object covers its identity. -/
theorem Clients.Stocked.covered
    (stocked : clients.Stocked state)
    {id : ContentId}
    (member : id ∈ state.objects) :
    Covered clients.kernel state id := by
  obtain ⟨object, _, sound, same, bytes, datum⟩ := stocked.found member
  exact ⟨object, sound, same, bytes, datum⟩

/-- Inserting a supplied sound object keeps the state stocked. -/
theorem Clients.Stocked.withObject
    (stocked : clients.Stocked state)
    {object : JournalObject}
    (supplied : clients.Supplied object)
    (sound : object.Sound clients.kernel) :
    clients.Stocked (state.withObject object) := by
  intro id
  by_cases same : object.id = id
  · subst same
    exact .inr ⟨object, supplied, sound, rfl, by simp [StoredState.withObject],
      by simp [StoredState.withObject]⟩
  · rcases stocked id with ⟨noBytes, noDatum⟩ |
      ⟨found, given, foundSound, identity, bytes, datum⟩
    · refine .inl ⟨?_, ?_⟩
      · simpa [StoredState.withObject, Std.ExtTreeMap.getElem?_insert, same]
          using noBytes
      · simpa [StoredState.withObject, Std.ExtTreeMap.getElem?_insert, same]
          using noDatum
    · refine .inr ⟨found, given, foundSound, identity, ?_, ?_⟩
      · simpa [StoredState.withObject, Std.ExtTreeMap.getElem?_insert, same]
          using bytes
      · simpa [StoredState.withObject, Std.ExtTreeMap.getElem?_insert, same]
          using datum

theorem mem_withObject
    {object : JournalObject} {id : ContentId} :
    id ∈ (state.withObject object).objects ↔
      object.id = id ∨ id ∈ state.objects := by
  simp [StoredState.withObject, Std.ExtTreeMap.mem_insert]

/-- A later state that has at least the objects of an earlier one. -/
structure Grown (clients : Clients) (state after : StoredState) : Prop where
  stocked : clients.Stocked after
  keeps : ∀ id, id ∈ state.objects → id ∈ after.objects
  entries : after.entries = state.entries
  head : after.head = state.head

theorem Grown.trans
    {last : StoredState}
    (first : Grown clients state after)
    (second : Grown clients after last) :
    Grown clients state last where
  stocked := second.stocked
  keeps id member := second.keeps id (first.keeps id member)
  entries := second.entries.trans first.entries
  head := second.head.trans first.head

/-- A grown state holds the log of the earlier one. -/
theorem Grown.holds
    (grown : Grown clients state after)
    {log : List JournalEntry}
    (holds : Holds clients.kernel state log) :
    Holds clients.kernel after log where
  follows := holds.follows
  entries := grown.entries.trans holds.entries
  head := grown.head.trans holds.head
  covers := by
    intro entry member payload inside
    obtain ⟨_, _, _, found, _⟩ := holds.covers entry member payload inside
    apply grown.stocked.covered
    apply grown.keeps
    exact Std.ExtTreeMap.isSome_getElem?_iff_mem.mp
      (Option.isSome_of_eq_some found)

/-- The object loop inserts every object, without a conflict. -/
theorem insertObjects_spec
    (assumed : clients.Assumed)
    {objects : List JournalObject}
    (stocked : clients.Stocked state)
    (given : ∀ object ∈ objects,
      clients.Supplied object ∧ object.Sound clients.kernel) :
    ∃ after, insertObjects state objects = (.ok (), after) ∧
      Grown clients state after ∧
      ∀ object ∈ objects, object.id ∈ after.objects := by
  induction objects generalizing state with
  | nil =>
      exact ⟨state, rfl, ⟨stocked, fun _ => id, rfl, rfl⟩, nofun⟩
  | cons object rest inductionHypothesis =>
      obtain ⟨supplied, sound⟩ := given object List.mem_cons_self
      have others : ∀ member ∈ rest,
          clients.Supplied member ∧ member.Sound clients.kernel :=
        fun member inside => given member (List.mem_cons_of_mem _ inside)
      unfold insertObjects
      cases present : state.objects[object.id]? with
      | some bytes =>
          have member : object.id ∈ state.objects :=
            Std.ExtTreeMap.isSome_getElem?_iff_mem.mp
              (Option.isSome_of_eq_some present)
          obtain ⟨stored, storedSupplied, storedSound, same, found, _⟩ :=
            stocked.found member
          rw [present, Option.some.injEq] at found
          have equal : bytes = object.bytes := by
            rw [found]
            exact assumed.bytes_eq storedSupplied supplied storedSound sound
              same
          obtain ⟨after, inserted, grown, members⟩ :=
            inductionHypothesis stocked others
          refine ⟨after, ?_, grown, ?_⟩
          · simpa [equal] using inserted
          · intro query inside
            rcases List.mem_cons.mp inside with rfl | later
            · exact grown.keeps _ member
            · exact members query later
      | none =>
          obtain ⟨after, inserted, grown, members⟩ :=
            inductionHypothesis (stocked.withObject supplied sound) others
          have step : Grown clients state (state.withObject object) :=
            ⟨stocked.withObject supplied sound,
              fun _ inside => mem_withObject.mpr (.inr inside), rfl, rfl⟩
          refine ⟨after, inserted, step.trans grown, ?_⟩
          intro query inside
          rcases List.mem_cons.mp inside with rfl | later
          · exact grown.keeps _ (mem_withObject.mpr (.inl rfl))
          · exact members query later

end Objects

section Entries

/-- The entry loop appends a batch that links to the log. -/
theorem insertEntries_spec
    {log entries : List JournalEntry}
    (shape : state.entries = indexed log)
    (follows : Follows clients.kernel none (log ++ entries)) :
    insertEntries state entries =
      (.ok (), { state with entries := indexed (log ++ entries) }) := by
  induction entries generalizing state log with
  | nil => simp [insertEntries, ← shape]
  | cons entry rest inductionHypothesis =>
      have split : log ++ entry :: rest = (log ++ [entry]) ++ rest := by simp
      have linked := (Follows.append_iff.mp follows).1
      have absent : state.entries[entry.sequence]? = none := by
        rw [shape]
        by_contra present
        obtain ⟨found, here⟩ := Option.ne_none_iff_exists'.mp present
        obtain ⟨member, same⟩ := (indexed_getElem linked).mp here
        obtain ⟨index, inside, atIndex⟩ := List.getElem_of_mem member
        have position := linked.sequence_of_getElem
          (List.getElem?_eq_some_iff.mpr ⟨inside, atIndex⟩)
        have place := Follows.sequence_eq follows
        rw [same, place] at position
        omega
      have inserted : state.entries.insert entry.sequence entry =
          indexed (log ++ [entry]) := by
        rw [shape, indexed_append]
        rfl
      rw [split] at follows ⊢
      simp only [insertEntries, absent]
      rw [inductionHypothesis inserted follows]

end Entries

section Commits

variable {inner : Inner} {log : List JournalEntry}

/-- The answer to a stale batch reports a redelivery or refuses. -/
theorem answerStale_cases
    (state : StoredState) (entries : List JournalEntry) :
    (∃ head, answerStale state entries =
        .ok ⟨head, .alreadyCommittedActionNotInvoked⟩ ∧
        exact state entries = true ∧ state.head = some head) ∨
      ∃ error, answerStale state entries = refuse error := by
  unfold answerStale
  by_cases redelivered : exact state entries = true
  · rw [if_pos redelivered]
    cases current : state.head with
    | none => exact .inr ⟨.wrongHead, rfl⟩
    | some head => exact .inl ⟨head, rfl, redelivered, rfl⟩
  · rw [if_neg redelivered]
    split
    · exact .inr ⟨_, rfl⟩
    · exact .inr ⟨_, rfl⟩

/-- What a commit did: it appended its whole batch. -/
structure Appended (clients : Clients) (publication : Publication)
    (log : List JournalEntry) (inner after : Inner) : Prop where
  fence : after.fence = inner.fence
  current : inner.fence = publication.lease.fence
  expected : inner.state.head = publication.expected
  stocked : clients.Stocked after.state
  keeps : ∀ id, id ∈ inner.state.objects → id ∈ after.state.objects
  holds : Holds clients.kernel after.state (log ++ publication.entries)
  follows :
    Follows clients.kernel (headAfter none log) publication.entries

/-- A commit appends its whole batch, or changes nothing. -/
theorem commitAdmission_spec
    (assumed : clients.Assumed)
    {publication : Publication}
    (stocked : clients.Stocked inner.state)
    (holds : Holds clients.kernel inner.state log)
    (prepared : clients.Prepared inner.state publication) :
    (∃ head after,
      commitAdmission publication.admission inner =
        (.ok ⟨head, .committedActionInvoked⟩, after) ∧
      some head = headAfter none (log ++ publication.entries) ∧
      Appended clients publication log inner after) ∨
    (∃ head,
      commitAdmission publication.admission inner =
        (.ok ⟨head, .alreadyCommittedActionNotInvoked⟩, inner) ∧
      exact inner.state publication.entries = true ∧
      inner.fence = publication.lease.fence ∧
      inner.state.head = some head ∧ publication.expected ≠ some head) ∨
    ∃ error,
      commitAdmission publication.admission inner = (refuse error, inner) ∧
      (inner.fence = publication.lease.fence →
        inner.state.head ≠ publication.expected) := by
  by_cases fence : publication.lease.fence = inner.fence
  swap
  · have answer : commitAdmission publication.admission inner =
        (refuse .staleLease, inner) := by
      simp [commitAdmission, Publication.admission, fence]
    exact .inr (.inr ⟨_, answer, fun same => absurd same.symm fence⟩)
  by_cases current : publication.expected = inner.state.head
  swap
  · have answer : commitAdmission publication.admission inner =
        (answerStale inner.state publication.entries, inner) := by
      simp [commitAdmission, Publication.admission, fence, current]
    rcases answerStale_cases inner.state publication.entries with
      ⟨head, found, redelivered, here⟩ | ⟨error, found⟩
    · rw [found] at answer
      exact .inr (.inl ⟨head, answer, redelivered, fence.symm, here,
        here ▸ current⟩)
    · rw [found] at answer
      exact .inr (.inr ⟨error, answer, fun _ same => current same.symm⟩)
  obtain ⟨middle, objects, grown, supplied⟩ :=
    insertObjects_spec assumed stocked prepared.objects
  have follows : Follows clients.kernel (headAfter none log)
      publication.entries := by
    rw [← holds.head, ← current]
    exact prepared.follows
  have whole : Follows clients.kernel none (log ++ publication.entries) :=
    Follows.append_iff.mpr ⟨holds.follows, follows⟩
  have entries := insertEntries_spec
    (grown.entries.trans holds.entries) whole
  have last : (indexed (log ++ publication.entries)).list.getLast? =
      some (publication.entries.getLast prepared.nonempty) := by
    rw [indexed_list whole,
      List.getLast?_append_of_ne_nil _ prepared.nonempty,
      List.getLast?_eq_some_getLast prepared.nonempty]
  have ends : some (publication.entries.getLast prepared.nonempty).head =
      headAfter none (log ++ publication.entries) := by
    rw [headAfter_append, headAfter_nonempty prepared.nonempty]
  have answer : commitAdmission publication.admission inner =
      (.ok ⟨(publication.entries.getLast prepared.nonempty).head,
          .committedActionInvoked⟩,
        { inner with
          state :=
            { middle with
              entries := indexed (log ++ publication.entries)
              head := some
                (publication.entries.getLast prepared.nonempty).head } }) := by
    simp [commitAdmission, Publication.admission, fence, current, objects,
      entries, last]
  refine .inl ⟨_, _, answer, ends, ?_⟩
  refine ⟨rfl, fence.symm, current.symm, grown.stocked, grown.keeps, ?_,
    follows⟩
  refine ⟨whole, rfl, ends, ?_⟩
  intro entry member payload inside
  apply grown.stocked.covered
  rcases List.mem_append.mp member with old | new
  · obtain ⟨_, _, _, found, _⟩ := holds.covers entry old payload inside
    apply grown.keeps
    exact Std.ExtTreeMap.isSome_getElem?_iff_mem.mp
      (Option.isSome_of_eq_some found)
  · rcases prepared.available entry new payload inside with
      stored | ⟨object, here, rfl⟩
    · exact grown.keeps _ stored
    · exact supplied object here

/-- A lease raises the fence, or changes nothing. -/
theorem bumpFence_spec
    (inner : Inner) :
    (∃ fence, bumpFence inner = (.ok ⟨fence⟩, { inner with fence := fence }) ∧
      fence.toNat = inner.fence.toNat + 1) ∨
    ∃ error, bumpFence inner = (refuse error, inner) := by
  unfold bumpFence
  cases next : checkedSucc inner.fence with
  | some fence => exact .inl ⟨fence, rfl, checkedSucc_eq_some.mp next⟩
  | none => exact .inr ⟨_, rfl⟩

/-- An insertion of a supplied sound object never conflicts. -/
theorem insertDatum_spec
    (assumed : clients.Assumed)
    {object : JournalObject}
    (stocked : clients.Stocked inner.state)
    (supplied : clients.Supplied object)
    (sound : object.Sound clients.kernel) :
    ∃ after, insertDatum clients.kernel object inner =
        (.ok (), { inner with state := after }) ∧
      Grown clients inner.state after := by
  unfold insertDatum
  rcases stocked object.id with ⟨noBytes, noDatum⟩ |
    ⟨stored, storedSupplied, storedSound, same, bytes, datum⟩
  · rw [noDatum]
    exact ⟨_, rfl, stocked.withObject supplied sound,
      fun _ inside => mem_withObject.mpr (.inr inside), rfl, rfl⟩
  · have made := JournalObject.fromDatum_eq_ok.mpr ⟨rfl, storedSound⟩
    have equal := assumed.bytes_eq storedSupplied supplied storedSound sound
      same
    refine ⟨inner.state, ?_, ⟨stocked, fun _ => id, rfl, rfl⟩⟩
    simp [datum, made, same, equal]

end Commits

end SimStorage.Journal.Memory
