import SimStorage.Journal.Host.Reading

namespace SimStorage.Journal.Host

/-!
# The log of a v1 prefix

What the leaves behind a v1 state leaf say, independently of the work bound of
the coordinator that reads them.  `read_v1` returns exactly this, or exceeds its
work bound.
-/

open Codec NativeCodec Interaction

variable {kernel : Kernel}
variable {known : Path → Bytes → Prop}

/-- The state and canonical head that the v1 chain of a state leaf reads as. -/
def V1Holds (kernel : Kernel) (known : Path → Bytes → Prop)
    (stateBytes : Bytes) (state : StoredState) (canonical : JournalHead) :
    Prop :=
  ∃ fence physicalHead,
    decodeV1State kernel stateBytes = .ok (fence, some physicalHead) ∧
      physicalHead.sequence.toNat + 1 < 2 ^ 64 ∧
      Anchored known
        (readV1Body kernel physicalHead (physicalHead.sequence.toNat + 1))
        (.ok (state, canonical))

theorem v1Needed_eq_ok
    {backend : HostDirJournalBackend} {physicalHead : JournalHead}
    {needed : Nat} :
    v1Needed backend physicalHead = .ok needed ↔
      needed = physicalHead.sequence.toNat + 1 ∧ needed < 2 ^ 64 ∧
        needed ≤ backend.workBound := by
  unfold v1Needed
  simp only
  split
  · simp only [refuse, reduceCtorEq, false_iff]
    omega
  · split
    · simp only [refuse, reduceCtorEq, false_iff]
      omega
    · rw [Except.ok.injEq]
      omega

/-- What `read_v1` returns is what the chain holds, within the work bound. -/
theorem v1Holds_of_readV1
    {backend : HostDirJournalBackend} {stateBytes : Bytes}
    {state : StoredState} {canonical : JournalHead}
    (anchored : Anchored known (readV1 kernel backend stateBytes)
      (.ok (state, canonical))) :
    V1Holds kernel known stateBytes state canonical := by
  obtain ⟨⟨fence, head⟩, decoded, rest⟩ := anchored.bind_ok
  cases head with
  | none => cases rest
  | some physicalHead =>
      obtain ⟨needed, counted, body⟩ := Anchored.bind_ok rest
      obtain ⟨same, small, _⟩ := v1Needed_eq_ok.mp counted.pureResult_ok
      subst same
      exact ⟨fence, physicalHead, decoded.pureResult_ok, small, body⟩

/-- The linked entries that a `read_v1` loop has collected. -/
structure V1Collected (kernel : Kernel) (progress : V1Progress)
    (log : List JournalEntry) : Prop where
  follows : Follows kernel none log
  entries : progress.state.entries = indexed log
  previous :
    progress.canonicalPrevious = (headAfter none log).map JournalHead.entry

/-- The payload loop of `read_v1` leaves the entries alone. -/
theorem readV1Payloads_entries
    {state later : StoredState} {ids payloads : List ContentId}
    (anchored : Anchored known (readV1Payloads kernel state ids)
      (.ok (later, payloads))) :
    later.entries = state.entries := by
  induction ids generalizing state payloads with
  | nil =>
      cases anchored
      rfl
  | cons oldId rest inductionHypothesis =>
      obtain ⟨payload, _, remaining⟩ := anchored.bind_ok
      split at remaining
      · cases remaining
      · obtain ⟨object, _, remaining⟩ := Anchored.bind_ok remaining
        obtain ⟨⟨found, tail⟩, inner, remaining⟩ := Anchored.bind_ok remaining
        cases remaining
        have unchanged := @inductionHypothesis (state.withObject object) tail inner
        exact unchanged

/-- One iteration of the `read_v1` loop collects one more entry. -/
theorem readV1Entry_collects
    {progress later : V1Progress} {log : List JournalEntry}
    (collected : V1Collected kernel progress log)
    (small : log.length < 2 ^ 64)
    (anchored : Anchored known
      (readV1Entry kernel progress (UInt64.ofNat log.length)) (.ok later)) :
    ∃ entry, V1Collected kernel later (log ++ [entry]) := by
  obtain ⟨bytes, _, anchored⟩ := anchored.bind_ok
  obtain ⟨old, _, anchored⟩ := Anchored.bind_ok anchored
  obtain ⟨⟨⟩, _, anchored⟩ := Anchored.bind_ok anchored
  obtain ⟨⟨state, payloads⟩, loop, anchored⟩ := Anchored.bind_ok anchored
  obtain ⟨entry, made, anchored⟩ := Anchored.bind_ok anchored
  cases anchored
  obtain ⟨genuine, sequence, previous, _, _⟩ :=
    JournalEntry.new_eq_ok made.pureResult_ok
  have position : (UInt64.ofNat log.length).toNat = log.length :=
    UInt64.toNat_ofNat_of_lt small
  have rank := collected.follows.nextIndex_headAfter
  have succeeds : Succeeds kernel (headAfter none log) entry := by
    refine ⟨genuine, ?_, ?_⟩
    · rw [sequence, position, rank]
      simp [nextIndex]
    · rw [previous, collected.previous]
  refine ⟨entry, ⟨?_, ?_, ?_⟩⟩
  · exact Follows.append_iff.mpr ⟨collected.follows, succeeds, trivial⟩
  · change state.entries.insert (UInt64.ofNat log.length) entry = _
    rw [indexed_append, readV1Payloads_entries loop, collected.entries,
      ← sequence]
    rfl
  · rw [headAfter_concat]
    rfl

/-- The `read_v1` loop collects as many entries as it is asked for. -/
theorem readV1Entries_collect
    {progress later : V1Progress} {log : List JournalEntry} {remaining : Nat}
    (collected : V1Collected kernel progress log)
    (small : log.length + remaining < 2 ^ 64)
    (anchored : Anchored known
      (readV1Entries kernel progress log.length remaining) (.ok later)) :
    ∃ more, V1Collected kernel later (log ++ more) ∧
      more.length = remaining := by
  induction remaining generalizing progress log with
  | zero =>
      cases anchored
      exact ⟨[], by simpa using collected, rfl⟩
  | succ remaining inductionHypothesis =>
      obtain ⟨middle, first, rest⟩ := Anchored.bind_ok anchored
      obtain ⟨entry, collectedMore⟩ :=
        readV1Entry_collects collected (by omega) first
      have counted : (log ++ [entry]).length = log.length + 1 := by simp
      rw [← counted] at rest
      obtain ⟨more, collectedAll, length⟩ :=
        inductionHypothesis collectedMore (by omega) rest
      refine ⟨entry :: more, ?_, by simp [length]⟩
      simpa using collectedAll

/-- The state of a v1 chain holds a log that ends in the canonical head. -/
theorem V1Holds.log
    {stateBytes : Bytes} {state : StoredState} {canonical : JournalHead}
    (holds : V1Holds kernel known stateBytes state canonical) :
    ∃ log, Holds kernel state log ∧ headAfter none log = some canonical := by
  obtain ⟨fence, physicalHead, _, small, body⟩ := holds
  obtain ⟨progress, loop, finished⟩ := Anchored.bind_ok body
  have start : V1Collected kernel .start [] := ⟨trivial, rfl, rfl⟩
  obtain ⟨log, collected, length⟩ :=
    readV1Entries_collect start (by simpa using small) loop
  rw [List.nil_append] at collected
  have accepted := finished.pureResult_ok
  unfold finishV1 at accepted
  split at accepted
  · cases accepted
  obtain ⟨last, found, accepted⟩ := bind_eq_ok.mp accepted
  obtain ⟨verified, verifies, accepted⟩ := bind_eq_ok.mp accepted
  cases accepted
  have listed : progress.state.entries.list = log := by
    rw [collected.entries, indexed_list collected.follows]
  have latest : log.getLast? = some last := by
    rw [← listed]
    exact okOr_eq_ok.mp found
  have head : headAfter none log = some last.head := by
    simp [headAfter, latest]
  have covers := verifyState_covers verifies
  refine ⟨log, ⟨collected.follows, collected.entries, head.symm, ?_⟩, head⟩
  change CoversAll kernel _ progress.state.entries.list at covers
  rwa [listed] at covers

/-- The number of entries of a v1 chain is fixed by its physical head. -/
theorem V1Holds.length
    {stateBytes : Bytes} {state : StoredState} {canonical : JournalHead}
    {fence : UInt64} {physicalHead : JournalHead} {log : List JournalEntry}
    (holds : V1Holds kernel known stateBytes state canonical)
    (decoded : decodeV1State kernel stateBytes =
      .ok (fence, some physicalHead))
    (held : Holds kernel state log) :
    log.length = physicalHead.sequence.toNat + 1 := by
  obtain ⟨_, found, decodedAgain, small, body⟩ := holds
  rw [decoded] at decodedAgain
  cases decodedAgain
  obtain ⟨progress, loop, finished⟩ := Anchored.bind_ok body
  have start : V1Collected kernel .start [] := ⟨trivial, rfl, rfl⟩
  obtain ⟨collectedLog, collected, length⟩ :=
    readV1Entries_collect start (by simpa using small) loop
  rw [List.nil_append] at collected
  have accepted := finished.pureResult_ok
  unfold finishV1 at accepted
  split at accepted
  · cases accepted
  obtain ⟨last, _, accepted⟩ := bind_eq_ok.mp accepted
  obtain ⟨_, _, accepted⟩ := bind_eq_ok.mp accepted
  cases accepted
  have listed := held.listed
  change progress.state.entries.list = log at listed
  rw [collected.entries, indexed_list collected.follows] at listed
  rw [← listed, length]

/-- `read_v1` returns what the chain holds, or exceeds its work bound. -/
theorem V1Holds.anchored
    {stateBytes : Bytes} {state : StoredState} {canonical : JournalHead}
    {log : List JournalEntry}
    (holds : V1Holds kernel known stateBytes state canonical)
    (held : Holds kernel state log)
    (backend : HostDirJournalBackend) :
    Anchored known (readV1 kernel backend stateBytes)
      (if log.length ≤ backend.workBound then .ok (state, canonical)
        else .error (.refused .workBoundExceeded)) := by
  obtain ⟨fence, physicalHead, decoded, small, body⟩ := id holds
  have length := holds.length decoded held
  refine .check decoded ?_
  change Anchored known
    (pureResult (v1Needed backend physicalHead) >>= _) _
  by_cases bounded : log.length ≤ backend.workBound
  · rw [if_pos bounded]
    exact .check (v1Needed_eq_ok.mpr ⟨rfl, small, length ▸ bounded⟩) body
  · rw [if_neg bounded]
    refine .bind_error _ ?_
    have exceeds : v1Needed backend physicalHead =
        .error (.refused .workBoundExceeded) := by
      unfold v1Needed
      simp only
      rw [if_neg (by omega), if_pos (by omega)]
      rfl
    rw [exceeds]
    exact .fail _

end SimStorage.Journal.Host
