import SimStorage.Journal.State
import SimStorage.Ledger.Linked
import Mathlib.Data.Finset.Card
import Mathlib.Data.Finset.Range

namespace SimStorage.Journal

/-!
# The journal log

The abstract content of a journal is a linked list of genuine entries.  This
module relates it to the entry map of a stored state and to the two checks: a
state verifies when its entries are a linked log whose payloads are covered,
and a batch verifies when it links to its expected head and its payloads are
available.
-/

open Codec

/-- The sequence that the entry after a head carries. -/
def nextIndex : Option JournalHead → Nat
  | none => 0
  | some head => head.sequence.toNat + 1

/-- An entry that may stand directly after a head. -/
structure Succeeds
    (kernel : Kernel)
    (head : Option JournalHead)
    (entry : JournalEntry) : Prop where
  genuine : entry.Genuine kernel
  sequence : entry.sequence.toNat = nextIndex head
  previous : entry.previous = head.map JournalHead.entry

/-- How journal entries link. -/
def linking (kernel : Kernel) : Ledger.Linking JournalEntry JournalHead where
  headOf := JournalEntry.head
  admits := Succeeds kernel
  rank := nextIndex
  rank_none := rfl
  rank_headOf succeeds := by
    rw [← succeeds.sequence]
    rfl
  admits_unique first second := first.sequence.symm.trans second.sequence

/-- The head after appending entries. -/
def headAfter (head : Option JournalHead) (entries : List JournalEntry) :
    Option JournalHead :=
  (entries.getLast?.map JournalEntry.head).or head

/-- Entries that link to a head, one after the other. -/
def Follows (kernel : Kernel) :
    Option JournalHead → List JournalEntry → Prop :=
  (linking kernel).Linked

/-- The entry map of a list of entries. -/
def indexed (log : List JournalEntry) : EntryMap :=
  log.foldl (fun entries entry => entries.insert entry.sequence entry) ∅

variable {kernel : Kernel}
variable {head : Option JournalHead} {log batch : List JournalEntry}

theorem linking_headAfter :
    (linking kernel).headAfter head log = headAfter head log :=
  Ledger.Linking.headAfter_eq_getLast

@[simp] theorem headAfter_nil :
    headAfter head [] = head :=
  rfl

theorem headAfter_append
    (first second : List JournalEntry) :
    headAfter head (first ++ second) =
      headAfter (headAfter head first) second := by
  unfold headAfter
  rw [List.getLast?_append]
  cases second.getLast? <;> simp

@[simp] theorem headAfter_concat
    (entry : JournalEntry) :
    headAfter head (log ++ [entry]) = some entry.head := by
  simp [headAfter]

theorem headAfter_nonempty
    (nonempty : batch ≠ []) :
    headAfter head batch =
      some (batch.getLast nonempty).head := by
  simp [headAfter, List.getLast?_eq_some_getLast nonempty]

namespace Follows

theorem append_iff
    {first second : List JournalEntry} :
    Follows kernel head (first ++ second) ↔
      Follows kernel head first ∧
        Follows kernel (headAfter head first) second := by
  unfold Follows
  rw [Ledger.Linking.linked_append, linking_headAfter]

theorem cons_iff
    {entry : JournalEntry} {rest : List JournalEntry} :
    Follows kernel head (entry :: rest) ↔
      Succeeds kernel head entry ∧
        Follows kernel (some entry.head) rest :=
  Iff.rfl

/-- The rank of the head after linked entries. -/
theorem nextIndex_headAfter
    (follows : Follows kernel head log) :
    nextIndex (headAfter head log) = nextIndex head + log.length := by
  rw [← @linking_headAfter kernel head log]
  exact follows.rank_headAfter

/-- An entry of a linked list carries its position. -/
theorem sequence_eq
    {before after : List JournalEntry} {entry : JournalEntry}
    (follows : Follows kernel head (before ++ entry :: after)) :
    entry.sequence.toNat = nextIndex head + before.length := by
  have admitted := (append_iff.mp follows).2.1
  rw [admitted.sequence]
  exact (append_iff.mp follows).1.nextIndex_headAfter

/-- The entry at a position carries that position. -/
theorem sequence_of_getElem
    (follows : Follows kernel head log)
    {index : Nat} {entry : JournalEntry}
    (found : log[index]? = some entry) :
    entry.sequence.toNat = nextIndex head + index := by
  obtain ⟨inside, atIndex⟩ := List.getElem?_eq_some_iff.mp found
  have split : log = log.take index ++ entry :: log.drop (index + 1) := by
    rw [← atIndex, List.getElem_cons_drop, List.take_append_drop]
  have position := sequence_eq (split ▸ follows)
  rw [position, List.length_take]
  omega

/-- A log from the start holds an entry at the position it carries. -/
theorem getElem_sequence
    (follows : Follows kernel none log)
    {entry : JournalEntry}
    (member : entry ∈ log) :
    log[entry.sequence.toNat]? = some entry := by
  obtain ⟨index, inside, rfl⟩ := List.getElem_of_mem member
  have position := follows.sequence_of_getElem (List.getElem?_eq_getElem inside)
  have placed : log[index].sequence.toNat = index := by
    simpa [nextIndex] using position
  rw [placed]
  exact List.getElem?_eq_getElem inside

/-- Every entry of a linked list is genuine. -/
theorem genuine
    (follows : Follows kernel head log) :
    ∀ entry ∈ log, entry.Genuine kernel := by
  intro entry member
  obtain ⟨before, after, rfl⟩ := List.append_of_mem member
  exact (append_iff.mp follows).2.1.genuine

end Follows

section Indexed

/-- Reading the map of entries with distinct sequences. -/
private theorem getElem_foldl_insert
    (entries : List JournalEntry)
    (start : EntryMap)
    (distinct : (entries.map JournalEntry.sequence).Nodup)
    (sequence : UInt64)
    (entry : JournalEntry) :
    (entries.foldl (fun map entry => map.insert entry.sequence entry)
        start)[sequence]? = some entry ↔
      (entry ∈ entries ∧ entry.sequence = sequence) ∨
        (sequence ∉ entries.map JournalEntry.sequence ∧
          start[sequence]? = some entry) := by
  induction entries generalizing start with
  | nil => simp
  | cons next rest inductionHypothesis =>
      obtain ⟨fresh, later⟩ := List.nodup_cons.mp distinct
      rw [List.foldl_cons, inductionHypothesis _ later,
        Std.ExtTreeMap.getElem?_insert]
      by_cases same : next.sequence = sequence
      · subst same
        have absent : ∀ other ∈ rest, other.sequence ≠ next.sequence := by
          intro other member equal
          exact fresh (equal ▸ List.mem_map_of_mem member)
        simp only [Std.LawfulEqCmp.compare_eq_iff_eq, if_true,
          Option.some.injEq, List.mem_cons, List.map_cons]
        constructor
        · rintro (⟨member, equal⟩ | ⟨_, rfl⟩)
          · exact absurd equal (absent _ member)
          · exact .inl ⟨.inl rfl, rfl⟩
        · rintro (⟨rfl | member, equal⟩ | ⟨outside, _⟩)
          · exact .inr ⟨fresh, rfl⟩
          · exact absurd equal (absent _ member)
          · exact (outside (.inl trivial)).elim
      · have differs : sequence ≠ next.sequence := fun equal => same equal.symm
        simp only [Std.LawfulEqCmp.compare_eq_iff_eq, same, if_false,
          List.mem_cons, List.map_cons, not_or, differs]
        constructor
        · rintro (⟨member, equal⟩ | ⟨outside, found⟩)
          · exact .inl ⟨.inr member, equal⟩
          · exact .inr ⟨⟨not_false, outside⟩, found⟩
        · rintro (⟨rfl | member, equal⟩ | ⟨⟨_, outside⟩, found⟩)
          · exact absurd equal same
          · exact .inl ⟨member, equal⟩
          · exact .inr ⟨outside, found⟩

/-- Linked entries carry distinct sequences, in increasing order. -/
theorem Follows.sequences_increase
    (follows : Follows kernel head log) :
    log.Pairwise fun first second =>
      first.sequence.toNat < second.sequence.toNat := by
  rw [List.pairwise_iff_getElem]
  intro first second insideFirst insideSecond less
  have one := follows.sequence_of_getElem (List.getElem?_eq_getElem insideFirst)
  have two := follows.sequence_of_getElem (List.getElem?_eq_getElem insideSecond)
  omega

theorem Follows.sequences_nodup
    (follows : Follows kernel head log) :
    (log.map JournalEntry.sequence).Nodup := by
  rw [List.nodup_iff_pairwise_ne, List.pairwise_map]
  refine follows.sequences_increase.imp ?_
  intro first second less same
  rw [same] at less
  exact Nat.lt_irrefl _ less

/-- The map of a log finds exactly its entries, under their sequences. -/
theorem indexed_getElem
    (follows : Follows kernel head log)
    {sequence : UInt64} {entry : JournalEntry} :
    (indexed log)[sequence]? = some entry ↔
      entry ∈ log ∧ entry.sequence = sequence := by
  unfold indexed
  rw [getElem_foldl_insert log ∅ follows.sequences_nodup]
  simp

/-- The values of the map of a log are the log. -/
theorem indexed_list
    (follows : Follows kernel head log) :
    (indexed log).list = log := by
  have ordered := (indexed log).ordered_keys_toList
  have increasing :
      (log.map fun entry => (entry.sequence, entry)).Pairwise
        fun first second => compare first.1 second.1 = .lt := by
    rw [List.pairwise_map]
    refine follows.sequences_increase.imp fun {first second} less => ?_
    exact Std.compare_eq_lt.mpr (UInt64.lt_iff_toNat_lt.mpr less)
  have distinct {entries : List (UInt64 × JournalEntry)}
      (sorted : entries.Pairwise fun first second =>
        compare first.1 second.1 = .lt) :
      entries.Nodup := by
    refine sorted.imp fun {first second} less same => ?_
    rw [same, Std.ReflOrd.compare_self] at less
    cases less
  have members : (indexed log).toList.Perm
      (log.map fun entry => (entry.sequence, entry)) := by
    refine (List.perm_ext_iff_of_nodup (distinct ordered)
      (distinct increasing)).mpr ?_
    rintro ⟨sequence, entry⟩
    rw [Std.ExtTreeMap.mem_toList_iff_getElem?_eq_some,
      indexed_getElem follows]
    simp only [List.mem_map, Prod.mk.injEq]
    constructor
    · rintro ⟨member, same⟩
      exact ⟨entry, member, same, rfl⟩
    · rintro ⟨found, member, same, rfl⟩
      exact ⟨member, same⟩
  have keyed : (indexed log).toList =
      log.map fun entry => (entry.sequence, entry) := by
    refine List.Perm.eq_of_pairwise ?_ ordered increasing members
    intro first second _ _ below above
    exact (Std.OrientedCmp.not_lt_of_lt below above).elim
  unfold EntryMap.list
  rw [keyed, List.map_map]
  exact List.map_id log

/-- The map of a log has as many entries as the log. -/
theorem indexed_size
    (follows : Follows kernel head log) :
    (indexed log).size = log.length := by
  rw [← Std.ExtTreeMap.length_toList, ← List.length_map Prod.snd]
  exact congrArg List.length (indexed_list follows)

/-- Appending to a log inserts into its map. -/
theorem indexed_append
    (first second : List JournalEntry) :
    indexed (first ++ second) =
      second.foldl (fun entries entry => entries.insert entry.sequence entry)
        (indexed first) := by
  unfold indexed
  rw [List.foldl_append]

end Indexed

section Batches

/-- `RangeFrom::next` yields the following number. -/
theorem nextSequence_eq_ok
    {sequence next : UInt64} :
    nextSequence sequence = .ok next ↔
      next.toNat = sequence.toNat + 1 := by
  rw [← checkedSucc_eq_some]
  unfold nextSequence
  cases checkedSucc sequence <;> simp [panicWith]

/-- Advancing succeeds below the last number. -/
theorem nextSequence_isOk
    {sequence : UInt64} :
    (∃ next, nextSequence sequence = .ok next) ↔
      sequence.toNat + 1 < 2 ^ 64 := by
  simp only [nextSequence_eq_ok]
  constructor
  · rintro ⟨next, value⟩
    rw [← value]
    exact next.toNat_lt
  · intro small
    refine ⟨UInt64.ofNat (sequence.toNat + 1), ?_⟩
    exact UInt64.toNat_ofNat_of_lt small

/-- The first sequence of a batch is the index after its expected head. -/
theorem firstSequence_eq_ok
    {expected : Option JournalHead} {sequence : UInt64} :
    firstSequence expected = .ok sequence ↔
      sequence.toNat = nextIndex expected := by
  cases expected with
  | none =>
      simp only [firstSequence, nextIndex, Except.ok.injEq]
      exact ⟨fun same => same ▸ rfl,
        fun zero => UInt64.toNat_inj.mp zero.symm⟩
  | some head => exact nextSequence_eq_ok

theorem checkPayloads_eq_ok
    {available : IdMap Bytes} {payloads : List ContentId} :
    checkPayloads available payloads = .ok () ↔
      ∀ payload ∈ payloads, payload ∈ available := by
  induction payloads with
  | nil => simp [checkPayloads]
  | cons payload rest inductionHypothesis =>
      rw [checkPayloads]
      by_cases present : payload ∈ available
      · simp [present, inductionHypothesis]
      · simp [present, refuse]

/-- The batch entry check: the entry succeeds, is available, and agrees. -/
theorem checkBatchEntry_eq_ok
    {state : StoredState} {available : IdMap Bytes}
    {expected : Option JournalHead} {sequence : UInt64} {entry : JournalEntry}
    (start : sequence.toNat = nextIndex expected) :
    checkBatchEntry kernel state available sequence
        (expected.map JournalHead.entry) entry = .ok () ↔
      Succeeds kernel expected entry ∧
        (∀ payload ∈ entry.payloads, payload ∈ available) ∧
        ∀ existing, state.entries[entry.sequence]? = some existing →
          existing = entry := by
  constructor
  · intro checked
    obtain ⟨id, found, rest⟩ := bind_eq_ok.mp checked
    split at rest
    · cases rest
    next sameId =>
    split at rest
    · cases rest
    next sameSequence =>
    split at rest
    · cases rest
    next samePrevious =>
    simp only [ne_eq, Decidable.not_not] at sameId sameSequence samePrevious
    obtain ⟨⟨⟩, payloads, rest⟩ := bind_eq_ok.mp rest
    refine ⟨⟨?_, ?_, samePrevious⟩, checkPayloads_eq_ok.mp payloads, ?_⟩
    · rw [JournalEntry.Genuine, ← sameId]
      exact JournalEntry.canonicalId_eq_ok.mp found
    · rw [sameSequence, start]
    · intro existing present
      rw [present] at rest
      by_cases same : existing = entry
      · exact same
      · simp [same, refuse] at rest
  · rintro ⟨succeeds, payloads, agrees⟩
    have sameSequence : entry.sequence = sequence :=
      UInt64.toNat_inj.mp (succeeds.sequence.trans start.symm)
    refine bind_eq_ok.mpr
      ⟨entry.id, JournalEntry.canonicalId_eq_ok.mpr succeeds.genuine, ?_⟩
    simp only [ne_eq, not_true_eq_false, if_false, sameSequence,
      succeeds.previous]
    refine bind_eq_ok.mpr ⟨(), checkPayloads_eq_ok.mpr payloads, ?_⟩
    rw [sameSequence] at agrees
    cases present : state.entries[sequence]? with
    | none => rfl
    | some existing => simp [agrees existing present]

/-- The batch loop: the entries link, are available, agree, and leave room. -/
theorem checkBatchEntries_eq_ok
    {state : StoredState} {available : IdMap Bytes}
    {expected : Option JournalHead} {sequence : UInt64}
    {entries : List JournalEntry}
    (start : sequence.toNat = nextIndex expected) :
    checkBatchEntries kernel state available sequence
        (expected.map JournalHead.entry) entries = .ok () ↔
      Follows kernel expected entries ∧
        (∀ entry ∈ entries, ∀ payload ∈ entry.payloads, payload ∈ available) ∧
        (∀ entry ∈ entries, ∀ existing,
          state.entries[entry.sequence]? = some existing → existing = entry) ∧
        nextIndex expected + entries.length + 1 < 2 ^ 64 := by
  induction entries generalizing expected sequence with
  | nil =>
      have advance : checkBatchEntries kernel state available sequence
          (expected.map JournalHead.entry) [] = .ok () ↔
            ∃ next, nextSequence sequence = .ok next := by
        unfold checkBatchEntries
        rw [bind_eq_ok]
        simp
      rw [advance, nextSequence_isOk, start]
      simp [Follows, Ledger.Linking.Linked]
  | cons entry rest inductionHypothesis =>
      constructor
      · intro checked
        obtain ⟨next, advanced, remaining⟩ := bind_eq_ok.mp checked
        obtain ⟨⟨⟩, checkedEntry, remaining⟩ := bind_eq_ok.mp remaining
        obtain ⟨succeeds, payloads, agrees⟩ :=
          (checkBatchEntry_eq_ok start).mp checkedEntry
        have following : next.toNat = nextIndex (some entry.head) := by
          rw [nextSequence_eq_ok.mp advanced, start, ← succeeds.sequence]
          rfl
        obtain ⟨follows, laterPayloads, laterAgrees, room⟩ :=
          (inductionHypothesis following).mp remaining
        have rank := (linking kernel).rank_headOf succeeds
        change nextIndex (some entry.head) = nextIndex expected + 1 at rank
        refine ⟨⟨succeeds, follows⟩, ?_, ?_, ?_⟩
        · rintro member (_ | ⟨_, inside⟩)
          · exact payloads
          · exact laterPayloads member inside
        · rintro member (_ | ⟨_, inside⟩)
          · exact agrees
          · exact laterAgrees member inside
        · rw [rank] at room
          rw [List.length_cons]
          omega
      · rintro ⟨⟨succeeds, follows⟩, payloads, agrees, room⟩
        have rank := (linking kernel).rank_headOf succeeds
        change nextIndex (some entry.head) = nextIndex expected + 1 at rank
        rw [List.length_cons] at room
        obtain ⟨next, advanced⟩ :=
          nextSequence_isOk.mpr (show sequence.toNat + 1 < 2 ^ 64 by omega)
        have following : next.toNat = nextIndex (some entry.head) := by
          rw [nextSequence_eq_ok.mp advanced, start, rank]
        refine bind_eq_ok.mpr ⟨next, advanced, ?_⟩
        refine bind_eq_ok.mpr ⟨(), ?_, ?_⟩
        · exact (checkBatchEntry_eq_ok start).mpr
            ⟨succeeds, payloads entry List.mem_cons_self,
              agrees entry List.mem_cons_self⟩
        · refine (inductionHypothesis following).mpr ⟨follows, ?_, ?_, ?_⟩
          · exact fun member inside =>
              payloads member (List.mem_cons_of_mem _ inside)
          · exact fun member inside =>
              agrees member (List.mem_cons_of_mem _ inside)
          · rw [rank]
            omega

/-- The object loop checks one object and continues with it available. -/
private theorem availableObjects_cons
    {available result : IdMap Bytes}
    {object : JournalObject} {rest : List JournalObject}
    (checked : availableObjects kernel available (object :: rest) = .ok result) :
    object.verify kernel = .ok () ∧
      availableObjects kernel (available.insert object.id object.bytes) rest =
        .ok result := by
  obtain ⟨⟨⟩, verified, remaining⟩ := bind_eq_ok.mp checked
  refine ⟨verified, ?_⟩
  split at remaining
  · split at remaining
    · cases remaining
    · exact remaining
  · exact remaining

/-- What the object loop makes available. -/
theorem availableObjects_mem
    {available result : IdMap Bytes} {objects : List JournalObject}
    (checked : availableObjects kernel available objects = .ok result)
    (id : ContentId) :
    id ∈ result ↔ id ∈ available ∨ ∃ object ∈ objects, object.id = id := by
  induction objects generalizing available with
  | nil =>
      cases checked
      simp
  | cons object rest inductionHypothesis =>
      obtain ⟨_, continued⟩ := availableObjects_cons checked
      rw [inductionHypothesis continued, Std.ExtTreeMap.mem_insert]
      simp only [Std.LawfulEqCmp.compare_eq_iff_eq, List.mem_cons,
        exists_eq_or_imp]
      constructor
      · rintro ((same | inside) | later)
        · exact .inr (.inl same)
        · exact .inl inside
        · exact .inr (.inr later)
      · rintro (inside | same | later)
        · exact .inl (.inr inside)
        · exact .inl (.inl same)
        · exact .inr later

/-- Every object of an accepted batch passes its check. -/
theorem availableObjects_verified
    {available result : IdMap Bytes} {objects : List JournalObject}
    (checked : availableObjects kernel available objects = .ok result) :
    ∀ object ∈ objects, object.verify kernel = .ok () := by
  induction objects generalizing available with
  | nil => simp
  | cons object rest inductionHypothesis =>
      obtain ⟨verified, continued⟩ := availableObjects_cons checked
      rintro member (_ | ⟨_, inside⟩)
      · exact verified
      · exact inductionHypothesis continued member inside

/-- Objects that pass their checks and conflict with nothing are available. -/
theorem availableObjects_isOk
    {available : IdMap Bytes} {objects : List JournalObject}
    (verified : ∀ object ∈ objects, object.verify kernel = .ok ())
    (agrees : ∀ object ∈ objects, ∀ bytes,
      available[object.id]? = some bytes → bytes = object.bytes)
    (distinct : ∀ first ∈ objects, ∀ second ∈ objects,
      first.id = second.id → first.bytes = second.bytes) :
    ∃ result, availableObjects kernel available objects = .ok result := by
  induction objects generalizing available with
  | nil => exact ⟨available, rfl⟩
  | cons object rest inductionHypothesis =>
      obtain ⟨result, continued⟩ :=
        @inductionHypothesis (available.insert object.id object.bytes)
        (fun member inside => verified member (List.mem_cons_of_mem _ inside))
        (by
          intro member inside bytes found
          rw [Std.ExtTreeMap.getElem?_insert] at found
          split at found
          · next same =>
              cases found
              exact distinct object List.mem_cons_self member
                (List.mem_cons_of_mem _ inside)
                (Std.LawfulEqCmp.compare_eq_iff_eq.mp same)
          · exact agrees member (List.mem_cons_of_mem _ inside) bytes found)
        (fun first inFirst second inSecond =>
          distinct first (List.mem_cons_of_mem _ inFirst) second
            (List.mem_cons_of_mem _ inSecond))
      refine ⟨result, bind_eq_ok.mpr
        ⟨(), verified object List.mem_cons_self, ?_⟩⟩
      cases present : available[object.id]? with
      | none => exact continued
      | some bytes =>
          have same := agrees object List.mem_cons_self bytes present
          simp only [same, ne_eq, not_true_eq_false, if_false]
          exact continued

/-- What `verify_batch` accepts. -/
structure BatchAccepted
    (kernel : Kernel)
    (state : StoredState)
    (expected : Option JournalHead)
    (objects : List JournalObject)
    (entries : List JournalEntry) : Prop where
  supplied :
    ∃ result, availableObjects kernel state.objects objects = .ok result
  follows : Follows kernel expected entries
  available :
    ∀ entry ∈ entries, ∀ payload ∈ entry.payloads,
      payload ∈ state.objects ∨ ∃ object ∈ objects, object.id = payload
  agrees :
    ∀ entry ∈ entries, ∀ existing,
      state.entries[entry.sequence]? = some existing → existing = entry
  room : nextIndex expected + entries.length + 1 < 2 ^ 64

/-- `verify_batch` accepts exactly the accepted batches. -/
theorem verifyBatch_eq_ok
    {state : StoredState} {expected : Option JournalHead}
    {objects : List JournalObject} {entries : List JournalEntry} :
    verifyBatch kernel state expected objects entries = .ok () ↔
      BatchAccepted kernel state expected objects entries := by
  constructor
  · intro checked
    obtain ⟨available, supplied, rest⟩ := bind_eq_ok.mp checked
    obtain ⟨sequence, first, rest⟩ := bind_eq_ok.mp rest
    obtain ⟨follows, payloads, agrees, room⟩ :=
      (checkBatchEntries_eq_ok (firstSequence_eq_ok.mp first)).mp rest
    refine ⟨⟨available, supplied⟩, follows, ?_, agrees, room⟩
    intro entry member payload inside
    exact (availableObjects_mem supplied payload).mp
      (payloads entry member payload inside)
  · rintro ⟨⟨available, supplied⟩, follows, payloads, agrees, room⟩
    have small : nextIndex expected < 2 ^ 64 := by omega
    have first := firstSequence_eq_ok.mpr
      (UInt64.toNat_ofNat_of_lt small)
    refine bind_eq_ok.mpr ⟨available, supplied, ?_⟩
    refine bind_eq_ok.mpr ⟨_, first, ?_⟩
    refine (checkBatchEntries_eq_ok (firstSequence_eq_ok.mp first)).mpr
      ⟨follows, ?_, agrees, room⟩
    intro entry member payload inside
    exact (availableObjects_mem supplied payload).mpr
      (payloads entry member payload inside)

end Batches

section States

/-- A payload is present in a state, with the bytes its datum determines. -/
def Covered (kernel : Kernel) (state : StoredState) (payload : ContentId) :
    Prop :=
  ∃ object : JournalObject,
    object.Sound kernel ∧ object.id = payload ∧
      state.objects[payload]? = some object.bytes ∧
      state.datums[payload]? = some object.datum

/-- Every payload of every entry of a list is covered. -/
def CoversAll (kernel : Kernel) (state : StoredState)
    (entries : List JournalEntry) : Prop :=
  ∀ entry ∈ entries, ∀ payload ∈ entry.payloads, Covered kernel state payload

variable {state : StoredState}

/-- Inserting a sound object keeps every payload covered. -/
theorem Covered.withObject
    {payload : ContentId} {object : JournalObject}
    (covered : Covered kernel state payload)
    (sound : object.Sound kernel) :
    Covered kernel (state.withObject object) payload := by
  by_cases same : object.id = payload
  · subst same
    exact ⟨object, sound, rfl, by simp [StoredState.withObject],
      by simp [StoredState.withObject]⟩
  · obtain ⟨found, foundSound, identity, bytes, datum⟩ := covered
    refine ⟨found, foundSound, identity, ?_, ?_⟩
    · simp [StoredState.withObject, Std.ExtTreeMap.getElem?_insert, same, bytes]
    · simp [StoredState.withObject, Std.ExtTreeMap.getElem?_insert, same, datum]

/-- An inserted sound object covers its own identity. -/
theorem covered_withObject
    {object : JournalObject}
    (sound : object.Sound kernel) :
    Covered kernel (state.withObject object) object.id :=
  ⟨object, sound, rfl, by simp [StoredState.withObject],
    by simp [StoredState.withObject]⟩

/-- The payload loop accepts exactly the covered payloads. -/
theorem verifyPayloads_isOk
    {objectIds : Std.ExtTreeSet ContentId} {payloads : List ContentId} :
    (∃ result, verifyPayloads kernel state objectIds payloads = .ok result) ↔
      ∀ payload ∈ payloads, Covered kernel state payload := by
  induction payloads generalizing objectIds with
  | nil => simp [verifyPayloads]
  | cons payload rest inductionHypothesis =>
      constructor
      · rintro ⟨result, verified⟩
        obtain ⟨bytes, bytesFound, afterBytes⟩ := bind_eq_ok.mp verified
        obtain ⟨datum, datumFound, afterDatum⟩ := bind_eq_ok.mp afterBytes
        obtain ⟨object, made, continued⟩ := bind_eq_ok.mp afterDatum
        obtain ⟨sameDatum, sound⟩ := JournalObject.fromDatum_eq_ok.mp made
        split at continued
        · cases continued
        next same =>
        simp only [ne_eq, not_or, Decidable.not_not] at same
        rintro member (_ | ⟨_, inside⟩)
        · exact ⟨object, sound, same.1, same.2 ▸ okOr_eq_ok.mp bytesFound,
            sameDatum ▸ okOr_eq_ok.mp datumFound⟩
        · exact inductionHypothesis.mp ⟨result, continued⟩ member inside
      · intro covered
        obtain ⟨object, sound, identity, bytes, datum⟩ :=
          covered payload List.mem_cons_self
        obtain ⟨result, continued⟩ :=
          (@inductionHypothesis (objectIds.insert payload)).mpr
            fun member inside => covered member (List.mem_cons_of_mem _ inside)
        refine ⟨result, bind_eq_ok.mpr ⟨_, okOr_eq_ok.mpr bytes, ?_⟩⟩
        refine bind_eq_ok.mpr ⟨_, okOr_eq_ok.mpr datum, ?_⟩
        refine bind_eq_ok.mpr
          ⟨object, JournalObject.fromDatum_eq_ok.mpr ⟨rfl, sound⟩, ?_⟩
        simp only [identity, ne_eq, not_true_eq_false, or_self, if_false]
        exact continued

/-- The payload loop collects the payloads. -/
theorem verifyPayloads_mem
    {objectIds result : Std.ExtTreeSet ContentId} {payloads : List ContentId}
    (verified :
      verifyPayloads kernel state objectIds payloads = .ok result)
    (id : ContentId) :
    id ∈ result ↔ id ∈ objectIds ∨ id ∈ payloads := by
  induction payloads generalizing objectIds with
  | nil =>
      cases verified
      simp
  | cons payload rest inductionHypothesis =>
      obtain ⟨bytes, _, verified⟩ := bind_eq_ok.mp verified
      obtain ⟨datum, _, verified⟩ := bind_eq_ok.mp verified
      obtain ⟨object, _, verified⟩ := bind_eq_ok.mp verified
      split at verified
      · cases verified
      rw [inductionHypothesis verified, Std.ExtTreeSet.mem_insert,
        List.mem_cons, Std.LawfulEqCmp.compare_eq_iff_eq, or_assoc,
        or_left_comm, eq_comm]

/-- The entry loop accepts a linked list of covered entries. -/
theorem verifyEntries_of_follows
    {objectIds : Std.ExtTreeSet ContentId} {entries : List JournalEntry}
    (follows : Follows kernel head entries)
    (covers : CoversAll kernel state entries) :
    ∃ result,
      verifyEntries kernel state (nextIndex head)
          (head.map JournalHead.entry) objectIds entries = .ok result ∧
        ∀ id, id ∈ result ↔
          id ∈ objectIds ∨ ∃ entry ∈ entries, id ∈ entry.payloads := by
  induction entries generalizing head objectIds with
  | nil => exact ⟨objectIds, rfl, by simp⟩
  | cons entry rest inductionHypothesis =>
      obtain ⟨succeeds, later⟩ := Follows.cons_iff.mp follows
      obtain ⟨more, payloads⟩ :=
        (@verifyPayloads_isOk kernel state objectIds entry.payloads).mpr
          (covers entry List.mem_cons_self)
      obtain ⟨result, continued, members⟩ :=
        @inductionHypothesis (some entry.head) more later
          fun member inside => covers member (List.mem_cons_of_mem _ inside)
      have rank : nextIndex (some entry.head) = nextIndex head + 1 :=
        (linking kernel).rank_headOf succeeds
      have sequence : entry.sequence = UInt64.ofNat (nextIndex head) := by
        rw [← succeeds.sequence]
        exact UInt64.ofNat_toNat.symm
      rw [rank] at continued
      refine ⟨result, ?_, ?_⟩
      · unfold verifyEntries
        simp only [sequence, succeeds.previous, ne_eq, not_true_eq_false,
          if_false]
        refine bind_eq_ok.mpr
          ⟨entry.id, JournalEntry.canonicalId_eq_ok.mpr succeeds.genuine, ?_⟩
        simp only [not_true_eq_false, if_false]
        exact bind_eq_ok.mpr ⟨more, payloads, continued⟩
      · intro id
        rw [members, verifyPayloads_mem payloads]
        simp only [List.mem_cons, exists_eq_or_imp]
        exact or_assoc

/-- Entries that the entry loop accepts are covered. -/
theorem verifyEntries_covers
    {objectIds result : Std.ExtTreeSet ContentId} {entries : List JournalEntry}
    {expected : Nat} {prior : Option ContentId}
    (verified :
      verifyEntries kernel state expected prior objectIds entries =
        .ok result) :
    CoversAll kernel state entries := by
  induction entries generalizing expected prior objectIds with
  | nil => exact fun entry member => absurd member List.not_mem_nil
  | cons entry rest inductionHypothesis =>
      unfold verifyEntries at verified
      split at verified
      · cases verified
      split at verified
      · cases verified
      obtain ⟨id, _, verified⟩ := bind_eq_ok.mp verified
      split at verified
      · cases verified
      obtain ⟨more, payloads, verified⟩ := bind_eq_ok.mp verified
      rintro member (_ | ⟨_, inside⟩)
      · exact verifyPayloads_isOk.mp ⟨more, payloads⟩
      · exact inductionHypothesis verified member inside

/-- An entry map has no more entries than there are sequences. -/
theorem EntryMap.length_le
    (entries : EntryMap) :
    entries.list.length ≤ 2 ^ 64 := by
  have distinct : (entries.keys.map UInt64.toNat).Nodup :=
    Std.ExtTreeMap.nodup_keys.map fun _ _ => UInt64.toNat_inj.mp
  have inRange : (entries.keys.map UInt64.toNat).toFinset ⊆
      Finset.range (2 ^ 64) := by
    intro value member
    obtain ⟨key, _, rfl⟩ := List.mem_map.mp (List.mem_toFinset.mp member)
    exact Finset.mem_range.mpr key.toNat_lt
  have small := Finset.card_le_card inRange
  rw [List.toFinset_card_of_nodup distinct, Finset.card_range,
    List.length_map, Std.ExtTreeMap.length_keys] at small
  rw [EntryMap.list, List.length_map, Std.ExtTreeMap.length_toList]
  exact small

/-- Entries that the entry loop accepts are linked. -/
theorem verifyEntries_follows
    {objectIds result : Std.ExtTreeSet ContentId} {entries : List JournalEntry}
    (small : nextIndex head + entries.length ≤ 2 ^ 64)
    (verified :
      verifyEntries kernel state (nextIndex head)
        (head.map JournalHead.entry) objectIds entries = .ok result) :
    Follows kernel head entries := by
  induction entries generalizing head objectIds with
  | nil => trivial
  | cons entry rest inductionHypothesis =>
      rw [List.length_cons] at small
      unfold verifyEntries at verified
      split at verified
      · cases verified
      next sameSequence =>
      split at verified
      · cases verified
      next samePrevious =>
      obtain ⟨id, found, verified⟩ := bind_eq_ok.mp verified
      split at verified
      · cases verified
      next sameId =>
      obtain ⟨more, _, verified⟩ := bind_eq_ok.mp verified
      simp only [ne_eq, Decidable.not_not] at sameSequence samePrevious sameId
      have succeeds : Succeeds kernel head entry := by
        refine ⟨?_, ?_, samePrevious⟩
        · rw [JournalEntry.Genuine, ← sameId]
          exact JournalEntry.canonicalId_eq_ok.mp found
        · rw [sameSequence]
          have inWord : nextIndex head < 2 ^ 64 := by omega
          exact UInt64.toNat_ofNat_of_lt inWord
      have rank : nextIndex (some entry.head) = nextIndex head + 1 :=
        (linking kernel).rank_headOf succeeds
      have room : nextIndex (some entry.head) + rest.length ≤ 2 ^ 64 := by
        rw [rank]
        omega
      rw [← rank] at verified
      exact Follows.cons_iff.mpr ⟨succeeds, inductionHypothesis room verified⟩

/-- A verified state has a linked log that it covers, up to its head. -/
theorem verifyState_sound
    {verified : Verification}
    (accepted : verifyState kernel state = .ok verified) :
    Follows kernel none state.entries.list ∧
      CoversAll kernel state state.entries.list ∧
      verified.head = headAfter none state.entries.list ∧
      verified.entries = state.entries.list ∧
      state.head = verified.head ∧
      ∀ id, id ∈ verified.objectIds ↔
        ∃ entry ∈ state.entries.list, id ∈ entry.payloads := by
  obtain ⟨objectIds, entries, rest⟩ := bind_eq_ok.mp accepted
  have small : nextIndex none + state.entries.list.length ≤ 2 ^ 64 := by
    rw [nextIndex, Nat.zero_add]
    exact state.entries.length_le
  have follows := verifyEntries_follows small entries
  have covers := verifyEntries_covers entries
  obtain ⟨again, found, members⟩ :=
    @verifyEntries_of_follows kernel none state ∅ _ follows covers
  have same : objectIds = again := Except.ok.inj (entries.symm.trans found)
  simp only at rest
  split at rest
  · cases rest
  next head =>
  cases rest
  simp only [ne_eq, Decidable.not_not] at head
  refine ⟨follows, covers, by simp [headAfter], rfl, head.symm, ?_⟩
  intro id
  rw [same, members]
  simp

/-- A state over a linked log whose payloads it covers. -/
structure Holds
    (kernel : Kernel)
    (state : StoredState)
    (log : List JournalEntry) : Prop where
  follows : Follows kernel none log
  entries : state.entries = indexed log
  head : state.head = headAfter none log
  covers : CoversAll kernel state log

/-- A state over a covered log verifies, with the log as its entries. -/
theorem Holds.verifyState
    (holds : Holds kernel state log) :
    ∃ verified,
      Journal.verifyState kernel state = .ok verified ∧
        verified.head = headAfter none log ∧
        verified.entries = log ∧
        ∀ id, id ∈ verified.objectIds ↔
          ∃ entry ∈ log, id ∈ entry.payloads := by
  have listed : state.entries.list = log := by
    rw [holds.entries, indexed_list holds.follows]
  obtain ⟨objectIds, verified, members⟩ :=
    @verifyEntries_of_follows kernel none state ∅ log
      holds.follows holds.covers
  have last : log.getLast?.map JournalEntry.head = headAfter none log := by
    simp [headAfter]
  refine ⟨⟨headAfter none log, log, objectIds⟩, ?_, rfl, rfl, ?_⟩
  · unfold Journal.verifyState
    simp only [listed]
    refine bind_eq_ok.mpr ⟨objectIds, verified, ?_⟩
    simp [last, holds.head]
    rfl
  · intro id
    rw [members]
    simp

/-- A verified state covers its entries. -/
theorem verifyState_covers
    {verified : Verification}
    (accepted : Journal.verifyState kernel state = .ok verified) :
    CoversAll kernel state state.entries.list := by
  obtain ⟨objectIds, entries, _⟩ := bind_eq_ok.mp accepted
  exact verifyEntries_covers entries

/-- A state over a log has an entry at a sequence when the log does. -/
theorem Holds.getElem
    (holds : Holds kernel state log)
    {sequence : UInt64} {entry : JournalEntry} :
    state.entries[sequence]? = some entry ↔
      entry ∈ log ∧ entry.sequence = sequence := by
  rw [holds.entries, indexed_getElem holds.follows]

/-- The entry loop is passed by the logs whose state it belongs to. -/
theorem Holds.listed
    (holds : Holds kernel state log) :
    state.entries.list = log := by
  rw [holds.entries, indexed_list holds.follows]

/-- A state has one log. -/
theorem Holds.unique
    {other : List JournalEntry}
    (holds : Holds kernel state log)
    (otherHolds : Holds kernel state other) :
    log = other := by
  rw [← holds.listed, ← otherHolds.listed]

/-- The empty state holds the empty log. -/
theorem holds_empty :
    Holds kernel .empty [] where
  follows := trivial
  entries := rfl
  head := rfl
  covers := fun _ member => absurd member List.not_mem_nil

end States

end SimStorage.Journal
