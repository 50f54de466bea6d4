import SimStorage.Journal.Host.PrefixLog

namespace SimStorage.Journal.Host

/-!
# Committed logs on the store

The log that a state leaf commits: the v1 prefix that its envelope names and the
chain of entry leaves behind its locator.  `read_state` returns the state of
this log, or exceeds its work bound; the log itself does not depend on the
coordinator that reads it.
-/

open Codec NativeCodec Interaction

/-- One link of a chain: where an entry leaf is, what it says, its objects. -/
structure Link where
  location : EntryLocation
  physical : PhysicalEntry
  objects : List JournalObject

/-- Object references and the objects that their leaves hold. -/
def ObjectsHold (kernel : Kernel) (known : Path → Bytes → Prop) :
    List StoredDatumRef → List JournalObject → Prop :=
  List.Forall₂ fun reference object =>
    ∃ bytes, known (objectPath reference) bytes ∧
      checkObject kernel reference bytes = .ok object

/-- A link whose entry leaf and object leaves say what it says. -/
structure Link.Present (kernel : Kernel) (known : Path → Bytes → Prop)
    (name : EntryNamespace) (link : Link) : Prop where
  inNamespace : link.location.entryNamespace = name
  leaf : ∃ bytes, known (entryPath link.location) bytes ∧
    checkEntryLeaf kernel link.location bytes = .ok link.physical
  payloads : link.physical.entry.payloads =
    link.physical.payloads.map StoredDatumRef.meaning
  objects : ObjectsHold kernel known link.physical.payloads link.objects

/--
A chain of entry leaves from a locator back to an origin, the latest entry
first.
-/
def Chain (kernel : Kernel) (known : Path → Bytes → Prop)
    (name : EntryNamespace) (origin : Option EntryLocation) :
    Option EntryLocation → List Link → Prop
  | location, [] => location = origin
  | location, link :: rest =>
      location = some link.location ∧ link.Present kernel known name ∧
        Chain kernel known name origin link.physical.previousLocation rest

/-- The entries of a chain in log order. -/
def chainEntries (links : List Link) : List JournalEntry :=
  links.reverse.map fun link => link.physical.entry

/-- The state after reading the objects of a chain. -/
def withLinks (state : StoredState) (links : List Link) : StoredState :=
  links.foldl (fun later link => link.objects.foldl .withObject later) state

section Objects

variable {kernel : Kernel}
variable {known : Path → Bytes → Prop}

/-- An object that passes the checks on its leaf. -/
theorem checkObject_eq_ok
    {reference : StoredDatumRef} {bytes : Bytes} {object : JournalObject} :
    checkObject kernel reference bytes = .ok object ↔
      storageId kernel bytes = reference.storage ∧
        JournalObject.fromStorageBytes kernel bytes = .ok object ∧
        object.id = reference.meaning := by
  unfold checkObject
  by_cases sameStorage : storageId kernel bytes = reference.storage
  · simp only [sameStorage, ne_eq, not_true_eq_false, if_false, true_and]
    constructor
    · intro checked
      obtain ⟨found, read, checked⟩ := bind_eq_ok.mp checked
      by_cases sameMeaning : found.id = reference.meaning
      · simp only [sameMeaning, not_true_eq_false, if_false] at checked
        cases checked
        exact ⟨read, sameMeaning⟩
      · simp [sameMeaning, refuse] at checked
    · rintro ⟨read, sameMeaning⟩
      apply bind_eq_ok.mpr
      exact ⟨object, read, by simp [sameMeaning]; rfl⟩
  · simp [sameStorage, refuse]

/-- Objects read from their leaves are sound. -/
theorem ObjectsHold.sound
    {references : List StoredDatumRef} {objects : List JournalObject}
    (holds : ObjectsHold kernel known references objects) :
    ∀ object ∈ objects, object.Sound kernel := by
  induction holds with
  | nil => simp
  | cons found _ inductionHypothesis =>
      obtain ⟨bytes, _, checked⟩ := found
      intro object member
      rcases List.mem_cons.mp member with same | inside
      · rw [same]
        exact JournalObject.sound_of_fromStorageBytes
          (checkObject_eq_ok.mp checked).2.1
      · exact inductionHypothesis object inside

/-- Objects read from their leaves carry the meanings of their references. -/
theorem ObjectsHold.meanings
    {references : List StoredDatumRef} {objects : List JournalObject}
    (holds : ObjectsHold kernel known references objects) :
    objects.map JournalObject.id =
      references.map StoredDatumRef.meaning := by
  induction holds with
  | nil => rfl
  | cons found _ inductionHypothesis =>
      obtain ⟨bytes, _, checked⟩ := found
      rw [List.map_cons, List.map_cons, inductionHypothesis,
        (checkObject_eq_ok.mp checked).2.2]

theorem ObjectsHold.mono
    {wider : Path → Bytes → Prop}
    {references : List StoredDatumRef} {objects : List JournalObject}
    (holds : ObjectsHold kernel known references objects)
    (includes : ∀ path bytes, known path bytes → wider path bytes) :
    ObjectsHold kernel wider references objects := by
  apply List.Forall₂.imp _ holds
  intro reference object found
  rcases found with ⟨bytes, present, checked⟩
  exact ⟨bytes, includes _ _ present, checked⟩

/-- Reading sound objects keeps what is covered and covers their identities. -/
theorem covered_withObjects
    {state : StoredState} {objects : List JournalObject}
    {payload : ContentId}
    (sound : ∀ object ∈ objects, object.Sound kernel)
    (covered : Covered kernel state payload ∨
      ∃ object ∈ objects, object.id = payload) :
    Covered kernel (objects.foldl .withObject state) payload := by
  induction objects generalizing state with
  | nil =>
      rcases covered with already | ⟨object, member, _⟩
      · exact already
      · cases member
  | cons object rest inductionHypothesis =>
      have headSound := sound object List.mem_cons_self
      apply inductionHypothesis
      · intro member inside
        exact sound member (List.mem_cons_of_mem _ inside)
      · rcases covered with already | ⟨found, member, same⟩
        · exact .inl (already.withObject headSound)
        · rcases List.mem_cons.mp member with here | inside
          · subst here
            exact .inl (same ▸ covered_withObject headSound)
          · exact .inr ⟨found, inside, same⟩

theorem withObjects_entries
    (state : StoredState)
    (objects : List JournalObject) :
    (objects.foldl .withObject state).entries = state.entries := by
  induction objects generalizing state with
  | nil => rfl
  | cons object rest inductionHypothesis =>
      exact inductionHypothesis (state.withObject object)

end Objects

section Chains

variable {kernel : Kernel}
variable {known : Path → Bytes → Prop}
variable {name : EntryNamespace}
variable {origin location : Option EntryLocation} {links : List Link}

theorem Link.Present.mono
    {wider : Path → Bytes → Prop} {link : Link}
    (present : link.Present kernel known name)
    (includes : ∀ path bytes, known path bytes → wider path bytes) :
    link.Present kernel wider name := by
  obtain ⟨bytes, found, checked⟩ := present.leaf
  exact ⟨present.inNamespace, ⟨bytes, includes _ _ found, checked⟩,
    present.payloads, present.objects.mono includes⟩

theorem Chain.mono
    {wider : Path → Bytes → Prop}
    (chain : Chain kernel known name origin location links)
    (includes : ∀ path bytes, known path bytes → wider path bytes) :
    Chain kernel wider name origin location links := by
  induction links generalizing location with
  | nil => exact chain
  | cons link rest inductionHypothesis =>
      obtain ⟨here, present, later⟩ := chain
      exact ⟨here, present.mono includes, inductionHypothesis later⟩

/-- A chain continues another chain at its origin. -/
theorem Chain.append
    {middle : Option EntryLocation} {newer : List Link}
    (recent : Chain kernel known name middle location newer)
    (older : Chain kernel known name origin middle links) :
    Chain kernel known name origin location (newer ++ links) := by
  induction newer generalizing location with
  | nil =>
      rw [show location = middle from recent]
      exact older
  | cons link rest inductionHypothesis =>
      obtain ⟨here, present, later⟩ := recent
      exact ⟨here, present, inductionHypothesis later⟩

theorem Chain.present
    (chain : Chain kernel known name origin location links) :
    ∀ link ∈ links, link.Present kernel known name := by
  induction links generalizing location with
  | nil => simp
  | cons link rest inductionHypothesis =>
      obtain ⟨_, present, later⟩ := chain
      intro member inside
      rcases List.mem_cons.mp inside with same | inRest
      · rw [same]
        exact present
      · exact inductionHypothesis later member inRest

theorem chainEntries_append
    (newer older : List Link) :
    chainEntries (newer ++ older) =
      chainEntries older ++ chainEntries newer := by
  simp [chainEntries]

theorem chainEntries_length
    (links : List Link) :
    (chainEntries links).length = links.length := by
  simp [chainEntries]

theorem withLinks_entries
    (state : StoredState)
    (links : List Link) :
    (withLinks state links).entries = state.entries := by
  induction links generalizing state with
  | nil => rfl
  | cons link rest inductionHypothesis =>
      exact (inductionHypothesis _).trans (withObjects_entries state _)

/-- Reading a chain keeps what is covered and covers its payloads. -/
theorem covered_withLinks
    {state : StoredState} {payload : ContentId}
    (present : ∀ link ∈ links, link.Present kernel known name)
    (covered : Covered kernel state payload ∨
      ∃ link ∈ links, payload ∈ link.physical.entry.payloads) :
    Covered kernel (withLinks state links) payload := by
  induction links generalizing state with
  | nil =>
      rcases covered with already | ⟨link, member, _⟩
      · exact already
      · cases member
  | cons link rest inductionHypothesis =>
      have here := present link List.mem_cons_self
      apply inductionHypothesis
      · intro member inside
        exact present member (List.mem_cons_of_mem _ inside)
      · rcases covered with already | ⟨found, member, inside⟩
        · exact .inl (covered_withObjects here.objects.sound (.inl already))
        · rcases List.mem_cons.mp member with same | inRest
          · subst same
            rw [here.payloads, ← here.objects.meanings, List.mem_map] at inside
            exact .inl (covered_withObjects here.objects.sound (.inr inside))
          · exact .inr ⟨found, inRest, inside⟩

/-- What the checks on an entry leaf establish. -/
theorem checkEntryLeaf_eq_ok
    {current : EntryLocation} {bytes : Bytes} {physical : PhysicalEntry} :
    checkEntryLeaf kernel current bytes = .ok physical ↔
      storageId kernel bytes = current.storage ∧
        decodeV2Entry kernel bytes = .ok physical ∧
        physical.entry.id = current.entry ∧
        physical.entry.sequence = current.sequence ∧
        physical.entry.Genuine kernel := by
  unfold checkEntryLeaf
  by_cases sameStorage : storageId kernel bytes = current.storage
  · simp only [sameStorage, ne_eq, not_true_eq_false, if_false, true_and]
    constructor
    · intro checked
      obtain ⟨found, decoded, checked⟩ := bind_eq_ok.mp checked
      split at checked
      · cases checked
      next same =>
      simp only [not_or, Decidable.not_not] at same
      obtain ⟨id, computed, checked⟩ := bind_eq_ok.mp checked
      by_cases genuine : id = found.entry.id
      · simp only [genuine, not_true_eq_false, if_false] at checked
        cases checked
        subst genuine
        exact ⟨decoded, same.1, same.2,
          JournalEntry.canonicalId_eq_ok.mp computed⟩
      · simp [genuine, refuse] at checked
    · rintro ⟨decoded, sameEntry, sameSequence, genuine⟩
      apply bind_eq_ok.mpr
      refine ⟨physical, decoded, ?_⟩
      rw [if_neg (by simp [sameEntry, sameSequence])]
      apply bind_eq_ok.mpr
      exact ⟨_, JournalEntry.canonicalId_eq_ok.mpr genuine,
        by rw [if_neg (by simp)]; rfl⟩
  · simp [sameStorage, refuse]

/-- The object loop reads the objects that are there. -/
theorem ObjectsHold.anchored
    {references : List StoredDatumRef} {objects : List JournalObject}
    (holds : ObjectsHold kernel known references objects)
    (state : StoredState) :
    Anchored known
      (readV2Payloads kernel state
        ((references.map StoredDatumRef.meaning).zip references))
      (.ok (objects.foldl .withObject state)) := by
  induction holds generalizing state with
  | nil => exact .ret _
  | @cons reference object references objects found _ inductionHypothesis =>
      obtain ⟨bytes, present, checked⟩ := found
      simp only [List.map_cons, List.zip_cons_cons, List.foldl_cons,
        readV2Payloads, ne_eq, not_true_eq_false, if_false]
      have loaded :
          Anchored known (loadObjectRef kernel reference) (.ok object) := by
        apply Anchored.bind (.load present)
        rw [checked]
        exact .ret object
      exact loaded.bind (inductionHypothesis _)

/-- One iteration of the locator loop reads the link that is there. -/
theorem Link.Present.anchored
    {link : Link}
    (present : link.Present kernel known name)
    (state : StoredState) :
    Anchored known (readV2Entry kernel state link.location)
      (.ok (link.objects.foldl .withObject state, link.physical)) := by
  obtain ⟨bytes, found, checked⟩ := present.leaf
  apply Anchored.bind (.load found)
  apply Anchored.check checked
  rw [present.payloads]
  apply Anchored.bind (present.objects.anchored state)
  rw [if_neg (by simp)]
  exact .ret _

/-- The locator loop reads the chain that is there, or exceeds its bound. -/
theorem Chain.anchored
    (chain : Chain kernel known name none location links)
    (distinct : (links.map Link.location).Nodup)
    {seen : List EntryLocation}
    (fresh : ∀ link ∈ links, link.location ∉ seen)
    (remaining : Nat) (state : StoredState) (suffix : List PhysicalEntry) :
    Anchored known
      (readV2Chain kernel name remaining state location seen suffix)
      (if links.length ≤ remaining then
        .ok (withLinks state links,
          (links.map Link.physical).reverse ++ suffix)
      else .error (.refused .workBoundExceeded)) := by
  induction links generalizing location seen remaining state suffix with
  | nil =>
      rw [show location = none from chain, List.length_nil,
        if_pos (Nat.zero_le _)]
      unfold readV2Chain
      exact .ret _
  | cons link rest inductionHypothesis =>
      obtain ⟨rfl, present, later⟩ := chain
      obtain ⟨notInRest, distinctRest⟩ := List.nodup_cons.mp distinct
      have linked : ¬ (link.location.entryNamespace ≠ name ∨
          link.location ∈ seen) := by
        have unseen := fresh link List.mem_cons_self
        simp [present.inNamespace, unseen]
      cases remaining with
      | zero =>
          simp only [readV2Chain, if_neg linked]
          rw [if_neg (by simp)]
          exact .fail _
      | succ remaining =>
          simp only [readV2Chain, if_neg linked]
          have freshRest : ∀ member ∈ rest,
              member.location ∉ link.location :: seen := by
            intro member inside
            have notHere : member.location ≠ link.location := by
              intro same
              exact notInRest (List.mem_map.mpr ⟨member, inside, same⟩)
            have unseen := fresh member (List.mem_cons_of_mem _ inside)
            simp [notHere, unseen]
          have inner := inductionHypothesis later distinctRest freshRest
            remaining (link.objects.foldl .withObject state)
            (link.physical :: suffix)
          apply Anchored.bind (present.anchored state)
          simpa [withLinks] using inner

end Chains

section Envelopes

/-- The state that a prefix reference reads as. -/
def PrefixHolds (kernel : Kernel) (known : Path → Bytes → Prop)
    (reference : VerifiedNativePrefixRef) (state : StoredState) : Prop :=
  ∃ bytes oldState described canonical,
    known (descriptorPath reference.descriptor) bytes ∧
      checkDescriptor kernel reference bytes = .ok (oldState, described) ∧
      V1Holds kernel known oldState state canonical ∧
      checkPrefix reference described canonical state = .ok state

/-- The state and log that the base of an envelope reads as. -/
def BaseHolds (kernel : Kernel) (known : Path → Bytes → Prop) :
    Option VerifiedNativePrefixRef → StoredState → List JournalEntry → Prop
  | none, state, log => state = .empty ∧ log = []
  | some reference, state, log =>
      PrefixHolds kernel known reference state ∧ Holds kernel state log

/-- The complete state of a base, a chain and a head. -/
def chainState (base : StoredState) (links : List Link)
    (log : List JournalEntry) (head : Option JournalHead) : StoredState :=
  { withLinks base links with entries := indexed log, head := head }

/-- The log and state that an envelope commits. -/
structure EnvelopeLog (kernel : Kernel) (known : Path → Bytes → Prop)
    (envelope : NativeStateEnvelope) (log : List JournalEntry)
    (state : StoredState) : Prop where
  format : envelope.format = .v2
  marker : known (markerPath envelope.entryNamespace) namespaceMagic
  chained : ∃ base baseLog links,
    BaseHolds kernel known envelope.prefixRef base baseLog ∧
      Chain kernel known envelope.entryNamespace none envelope.headLocation
        links ∧
      log = baseLog ++ chainEntries links ∧
      state = chainState base links log envelope.head
  follows : Follows kernel none log
  head : envelope.head = headAfter none log

/-- The log and state that the content of the state leaf commits. -/
inductive Committed (kernel : Kernel) (known : Path → Bytes → Prop) :
    Option Bytes → List JournalEntry → StoredState → Prop where
  | absent :
      Committed kernel known none [] .empty
  | emptyV1 {bytes : Bytes} {fence : UInt64} :
      isV1State bytes = true →
      decodeV1State kernel bytes = .ok (fence, none) →
      Committed kernel known (some bytes) [] .empty
  | v1 {bytes : Bytes} {log : List JournalEntry} {state : StoredState}
      {canonical : JournalHead} :
      isV1State bytes = true →
      V1Holds kernel known bytes state canonical →
      Holds kernel state log →
      Committed kernel known (some bytes) log state
  | v2 {bytes : Bytes} {envelope : NativeStateEnvelope}
      {log : List JournalEntry} {state : StoredState} :
      isV1State bytes = false →
      decodeEnvelope kernel bytes = .ok envelope →
      EnvelopeLog kernel known envelope log state →
      Committed kernel known (some bytes) log state

variable {kernel : Kernel}
variable {known : Path → Bytes → Prop}

theorem V1Holds.mono
    {wider : Path → Bytes → Prop}
    {stateBytes : Bytes} {state : StoredState} {canonical : JournalHead}
    (holds : V1Holds kernel known stateBytes state canonical)
    (includes : ∀ path bytes, known path bytes → wider path bytes) :
    V1Holds kernel wider stateBytes state canonical := by
  obtain ⟨fence, physicalHead, decoded, small, body⟩ := holds
  exact ⟨fence, physicalHead, decoded, small, body.mono includes⟩

theorem BaseHolds.mono
    {wider : Path → Bytes → Prop}
    {reference : Option VerifiedNativePrefixRef}
    {state : StoredState} {log : List JournalEntry}
    (holds : BaseHolds kernel known reference state log)
    (includes : ∀ path bytes, known path bytes → wider path bytes) :
    BaseHolds kernel wider reference state log := by
  cases reference with
  | none => exact holds
  | some reference =>
      obtain ⟨⟨bytes, oldState, described, canonical, found, checked, v1,
        agrees⟩, held⟩ := holds
      exact ⟨⟨bytes, oldState, described, canonical, includes _ _ found,
        checked, v1.mono includes, agrees⟩, held⟩

theorem EnvelopeLog.mono
    {wider : Path → Bytes → Prop}
    {envelope : NativeStateEnvelope} {log : List JournalEntry}
    {state : StoredState}
    (holds : EnvelopeLog kernel known envelope log state)
    (includes : ∀ path bytes, known path bytes → wider path bytes) :
    EnvelopeLog kernel wider envelope log state := by
  obtain ⟨base, baseLog, links, based, chain, logged, stated⟩ := holds.chained
  exact ⟨holds.format, includes _ _ holds.marker,
    ⟨base, baseLog, links, based.mono includes, chain.mono includes, logged,
      stated⟩, holds.follows, holds.head⟩

/-- What a leaf commits stays committed while the known leaves stay. -/
theorem Committed.mono
    {wider : Path → Bytes → Prop}
    {leaf : Option Bytes} {log : List JournalEntry} {state : StoredState}
    (committed : Committed kernel known leaf log state)
    (includes : ∀ path bytes, known path bytes → wider path bytes) :
    Committed kernel wider leaf log state := by
  cases committed with
  | absent => exact .absent
  | emptyV1 isV1 decoded => exact .emptyV1 isV1 decoded
  | v1 isV1 holds held => exact .v1 isV1 (holds.mono includes) held
  | v2 isV2 decoded holds => exact .v2 isV2 decoded (holds.mono includes)

theorem BaseHolds.holds
    {reference : Option VerifiedNativePrefixRef}
    {state : StoredState} {log : List JournalEntry}
    (holds : BaseHolds kernel known reference state log) :
    Holds kernel state log := by
  cases reference with
  | none =>
      rcases holds with ⟨rfl, rfl⟩
      exact holds_empty
  | some reference => exact holds.2

/-- The state of an envelope holds its log. -/
theorem EnvelopeLog.holds
    {envelope : NativeStateEnvelope} {log : List JournalEntry}
    {state : StoredState}
    (holds : EnvelopeLog kernel known envelope log state) :
    Holds kernel state log := by
  obtain ⟨base, baseLog, links, based, chain, logged, stated⟩ := holds.chained
  subst stated
  refine ⟨holds.follows, rfl, holds.head, ?_⟩
  intro entry member payload inside
  have covered : Covered kernel (withLinks base links) payload := by
    apply covered_withLinks chain.present
    rw [logged, List.mem_append] at member
    rcases member with old | recent
    · exact .inl (based.holds.covers entry old payload inside)
    · simp only [chainEntries, List.map_reverse, List.mem_reverse,
        List.mem_map] at recent
      obtain ⟨link, linked, rfl⟩ := recent
      exact .inr ⟨link, linked, inside⟩
  exact covered

/-- The state that a leaf commits holds its log. -/
theorem Committed.holds
    {leaf : Option Bytes} {log : List JournalEntry} {state : StoredState}
    (committed : Committed kernel known leaf log state) :
    Holds kernel state log := by
  cases committed with
  | absent => exact holds_empty
  | emptyV1 _ _ => exact holds_empty
  | v1 _ _ held => exact held
  | v2 _ _ holds => exact holds.holds

/-- The base is read as it holds, or exceeds the work bound. -/
theorem BaseHolds.anchored
    {reference : Option VerifiedNativePrefixRef}
    {state : StoredState} {log : List JournalEntry}
    (holds : BaseHolds kernel known reference state log)
    (backend : HostDirJournalBackend) :
    Anchored known (readBase kernel backend reference)
      (if log.length ≤ backend.workBound then .ok state
        else .error (.refused .workBoundExceeded)) := by
  cases reference with
  | none =>
      rcases holds with ⟨rfl, rfl⟩
      rw [List.length_nil, if_pos (Nat.zero_le _)]
      exact .ret _
  | some reference =>
      obtain ⟨⟨bytes, oldState, described, canonical, found, checked, v1,
        agrees⟩, held⟩ := holds
      have read := v1.anchored held backend
      apply Anchored.bind (.load found)
      apply Anchored.check checked
      by_cases bounded : log.length ≤ backend.workBound
      · rw [if_pos bounded] at read ⊢
        apply Anchored.bind read
        change Anchored known (pureResult _) _
        rw [agrees]
        exact .ret _
      · rw [if_neg bounded] at read ⊢
        exact read.bind_error _

/-- The insertion of a suffix that continues the log. -/
theorem insertSuffix_eq_ok
    {log : List JournalEntry} {suffix : List PhysicalEntry}
    (follows : Follows kernel none (log ++ suffix.map PhysicalEntry.entry)) :
    insertSuffix (indexed log) suffix =
      .ok (indexed (log ++ suffix.map PhysicalEntry.entry)) := by
  induction suffix generalizing log with
  | nil => simp [insertSuffix]
  | cons physical rest inductionHypothesis =>
      have absent : (indexed log).contains physical.entry.sequence = false := by
        rw [Bool.eq_false_iff]
        intro present
        have sequences := follows.sequences_increase
        rw [Std.ExtTreeMap.contains_iff_mem,
          Std.ExtTreeMap.mem_iff_isSome_getElem?,
          Option.isSome_iff_exists] at present
        obtain ⟨entry, found⟩ := present
        obtain ⟨member, same⟩ :=
          (indexed_getElem (Follows.append_iff.mp follows).1).mp found
        have less := (List.pairwise_append.mp sequences).2.2 entry member
          physical.entry (by simp)
        rw [same] at less
        exact Nat.lt_irrefl _ less
      have shifted : log ++ (physical :: rest).map PhysicalEntry.entry =
          (log ++ [physical.entry]) ++ rest.map PhysicalEntry.entry := by
        simp
      simp only [insertSuffix, absent, Bool.false_eq_true, if_false]
      rw [shifted] at follows ⊢
      rw [← inductionHypothesis follows, indexed_append]
      rfl

/-- The end of `read_v2` accepts a chain that commits its log. -/
theorem finishV2_eq_ok
    {envelope : NativeStateEnvelope} {base : StoredState}
    {baseLog : List JournalEntry} {links : List Link}
    (based : Holds kernel base baseLog)
    (holds : Holds kernel
      (chainState base links (baseLog ++ chainEntries links) envelope.head)
      (baseLog ++ chainEntries links))
    (located : envelope.headLocation.isSome = !links.isEmpty) :
    finishV2 kernel envelope base.entries.size (withLinks base links)
        (links.map Link.physical).reverse =
      .ok (chainState base links (baseLog ++ chainEntries links)
        envelope.head) := by
  have suffix : (links.map Link.physical).reverse.map PhysicalEntry.entry =
      chainEntries links := by
    simp [chainEntries]
  have inserted := @insertSuffix_eq_ok kernel baseLog
    (links.map Link.physical).reverse (suffix ▸ holds.follows)
  rw [suffix] at inserted
  obtain ⟨verified, accepted, _⟩ := holds.verifyState
  have counted : decide (base.entries.size <
      (indexed (baseLog ++ chainEntries links)).size) = !links.isEmpty := by
    rw [based.entries, indexed_size based.follows,
      indexed_size holds.follows, List.length_append, chainEntries_length]
    cases links <;> simp
  apply bind_eq_ok.mpr
  refine ⟨_, ?_, bind_eq_ok.mpr ⟨verified, accepted, ?_⟩⟩
  · rw [withLinks_entries, based.entries]
    exact inserted
  · rw [if_neg (by rw [counted, located]; simp)]
    rfl

/-- `read_v2` returns what the envelope commits, or exceeds its work bound. -/
theorem EnvelopeLog.anchored
    {envelope : NativeStateEnvelope} {log : List JournalEntry}
    {state : StoredState}
    (holds : EnvelopeLog kernel known envelope log state)
    (backend : HostDirJournalBackend) :
    Anchored known (readV2 kernel backend envelope)
      (if log.length ≤ backend.workBound then .ok state
        else .error (.refused .workBoundExceeded)) := by
  have held := holds.holds
  obtain ⟨base, baseLog, links, based, chain, rfl, rfl⟩ := holds.chained
  have distinct : (links.map Link.location).Nodup := by
    have sequences := held.follows.sequences_nodup
    rw [List.map_append, List.nodup_append] at sequences
    have located : (links.map Link.location).map EntryLocation.sequence =
        ((chainEntries links).map JournalEntry.sequence).reverse := by
      rw [chainEntries, List.map_map, List.map_map, ← List.map_reverse,
        List.reverse_reverse]
      apply List.map_congr_left
      intro link member
      obtain ⟨bytes, _, checked⟩ := (chain.present link member).leaf
      exact (checkEntryLeaf_eq_ok.mp checked).2.2.2.1.symm
    apply List.Nodup.of_map EntryLocation.sequence
    rw [located, List.nodup_reverse]
    exact sequences.2.1
  have located : envelope.headLocation.isSome = !links.isEmpty := by
    cases links with
    | nil =>
        rw [show envelope.headLocation = none from chain]
        rfl
    | cons link rest =>
        rw [chain.1]
        rfl
  have start := based.anchored backend
  have size : base.entries.size = baseLog.length := by
    rw [based.holds.entries, indexed_size based.holds.follows]
  have unseen : ∀ link ∈ links, link.location ∉ ([] : List EntryLocation) := by
    simp
  have walked := chain.anchored distinct unseen
    (backend.workBound - baseLog.length) base []
  have counted : (baseLog ++ chainEntries links).length =
      baseLog.length + links.length := by
    rw [List.length_append, chainEntries_length]
  unfold readV2
  rw [if_neg (by simp [holds.format])]
  apply Anchored.bind (.load holds.marker)
  apply Anchored.check (show checkMarker namespaceMagic = .ok () by
    simp [checkMarker])
  by_cases baseBounded : baseLog.length ≤ backend.workBound
  · rw [if_pos baseBounded] at start
    apply Anchored.bind start
    simp only [size]
    by_cases bounded : links.length ≤ backend.workBound - baseLog.length
    · rw [if_pos bounded] at walked
      rw [if_pos (by omega)]
      apply Anchored.bind walked
      rw [List.append_nil, ← size,
        finishV2_eq_ok based.holds held located]
      exact .ret _
    · rw [if_neg bounded] at walked
      rw [if_neg (by omega)]
      exact walked.bind_error _
  · rw [if_neg baseBounded] at start
    rw [if_neg (by omega)]
    exact start.bind_error _

/-- `read_state` returns what the leaf commits, or exceeds its work bound. -/
theorem Committed.anchored
    {leaf : Option Bytes} {log : List JournalEntry} {state : StoredState}
    (committed : Committed kernel known leaf log state)
    (backend : HostDirJournalBackend) :
    Anchored known (readStateFrom kernel backend leaf)
      (if log.length ≤ backend.workBound then .ok state
        else .error (.refused .workBoundExceeded)) := by
  cases committed with
  | absent => exact .ret _
  | emptyV1 isV1 decoded =>
      simp only [readStateFrom, isV1, if_true, List.length_nil, Nat.zero_le]
      exact .check decoded (.ret _)
  | v1 isV1 holds held =>
      have read := holds.anchored held backend
      obtain ⟨fence, physicalHead, decoded, _, _⟩ := holds
      simp only [readStateFrom, isV1, if_true]
      apply Anchored.check decoded
      by_cases bounded : log.length ≤ backend.workBound
      · rw [if_pos bounded] at read ⊢
        exact read.bind (.ret _)
      · rw [if_neg bounded] at read ⊢
        exact read.bind_error _
  | v2 isV2 decoded holds =>
      simp only [readStateFrom, isV2, Bool.false_eq_true, if_false]
      exact .check decoded (holds.anchored backend)

/-- A leaf commits one log and one state. -/
theorem Committed.unique
    {leaf : Option Bytes} {log other : List JournalEntry}
    {state otherState : StoredState}
    (functional : ∀ path bytes otherBytes,
      known path bytes → known path otherBytes → bytes = otherBytes)
    (committed : Committed kernel known leaf log state)
    (otherCommitted : Committed kernel known leaf other otherState) :
    log = other ∧ state = otherState := by
  let backend : HostDirJournalBackend :=
    ⟨⟨true, true⟩, max log.length other.length⟩
  have first := committed.anchored backend
  have second := otherCommitted.anchored backend
  rw [if_pos (Nat.le_max_left _ _)] at first
  rw [if_pos (Nat.le_max_right _ _)] at second
  have same : state = otherState := by
    have outcomes := first.unique functional second
    exact Except.ok.inj outcomes
  subst same
  exact ⟨committed.holds.unique otherCommitted.holds, rfl⟩

/-- A state that `read_state` returns for a leaf other than v2 is committed. -/
theorem committed_of_readV1
    {backend : HostDirJournalBackend} {bytes : Bytes} {state : StoredState}
    {canonical : JournalHead}
    (isV1 : isV1State bytes = true)
    (anchored : Anchored known (readV1 kernel backend bytes)
      (.ok (state, canonical))) :
    ∃ log, Committed kernel known (some bytes) log state ∧
      headAfter none log = some canonical := by
  have holds := v1Holds_of_readV1 anchored
  obtain ⟨log, held, head⟩ := holds.log
  exact ⟨log, .v1 isV1 holds held, head⟩

end Envelopes

end SimStorage.Journal.Host
