import SimStorage.Journal.Memory.Safety
import SimStorage.Interaction.Completes

namespace SimStorage.Journal.Memory

/-!
# The memory backend used sequentially

A call that finds every lock free and unpoisoned ends, with the locks free
again.  What it returns and what it leaves is decided by the fence and the state
that the backend holds when the call starts.
-/

open Codec Interaction

variable {clients : Clients} {me : CallId} {world after : World}
variable {publication : Publication} {log : List JournalEntry}

section Definitions

/-- No lock is held or poisoned. -/
structure World.Idle (world : World) : Prop where
  holder : world.holder = none
  admission : world.admissionPoisoned = false
  usable : world.innerPoisoned = false

/-- Any world: the locked sections answer whatever the worlds on the way. -/
def Anything (_ : World) : Prop :=
  True

/-- What a publication decides on the state that it reads. -/
structure Clients.Admits (clients : Clients) (publication : Publication)
    (world : World) (result : GuardedAdmission) (final : World) : Prop where
  nonempty : publication.entries ≠ []
  accepted : BatchAccepted clients.kernel world.inner.state
    publication.expected publication.objects publication.entries
  decided : commitAdmission publication.admission world.inner =
    (.ok result, final.inner)
  idle : final.Idle

/-- Why a publication is refused; the backend holds what it held. -/
structure Clients.Refuses (clients : Clients) (publication : Publication)
    (world final : World) : Prop where
  reason : publication.entries = [] ∨
    ¬ BatchAccepted clients.kernel world.inner.state publication.expected
      publication.objects publication.entries ∨
    ∃ fault, commitAdmission publication.admission world.inner =
      (.error fault, world.inner)
  inner : final.inner = world.inner
  idle : final.Idle

end Definitions

section Requests

variable {α : Type} {done : α → World → Prop} {failed : Fault → World → Prop}

/-- A free admission lock is taken. -/
theorem lockAdmission_completes
    (idle : world.Idle) :
    Completes (Exec clients.kernel me) Anything
      (fun _ final => final = { world with holder := some me }) failed
      lockAdmission world := by
  refine ⟨⟨_, _, .lockAdmission idle.holder idle.admission⟩,
    fun reply after executed _ => ?_⟩
  cases executed with
  | lockAdmission _ _ => rfl
  | lockPoisoned _ poisoned =>
      rw [idle.admission] at poisoned
      cases poisoned

/-- The admission lock is released after a section. -/
theorem release_completes
    {result : Result α}
    (ends : Ends done failed result { world with holder := none }) :
    Completes (Exec clients.kernel me) Anything done failed (release result)
      world := by
  cases result with
  | ok value =>
      refine ⟨⟨_, _, .unlockAdmission⟩, fun reply after executed _ => ?_⟩
      cases executed with
      | unlockAdmission => exact ends
  | error fault =>
      refine ⟨⟨_, _, .unlockAdmission⟩, fun reply after executed _ => ?_⟩
      cases executed with
      | unlockAdmission => exact ends

theorem readState_completes
    (idle : world.Idle) :
    Completes (Exec clients.kernel me) Anything
      (fun state final => state = world.inner.state ∧ final = world) failed
      readState world := by
  have read : world.reading (fun inner => .ok inner.state) =
      (.ok world.inner.state, world) :=
    World.reading_eq idle.usable (by simp)
  refine ⟨⟨_, _, .readState⟩, fun reply after executed _ => ?_⟩
  cases executed with
  | readState =>
      rw [read]
      exact ⟨rfl, rfl⟩

/-- The action after a commit leaves what the backend holds. -/
theorem act_completes
    {guarded : Bool} {result : GuardedAdmission}
    (admission : world.admissionPoisoned = false)
    (usable : world.innerPoisoned = false) :
    Completes (Exec clients.kernel me) Anything
      (fun found final => found = result ∧ final.inner = world.inner ∧
        final.Idle) failed
      (act guarded result) world := by
  unfold act
  split
  · refine ⟨⟨_, _, .afterCommit⟩, fun reply after executed _ => ?_⟩
    cases executed with
    | afterCommit =>
        exact release_completes ⟨rfl, rfl, rfl, admission, usable⟩
  · exact release_completes ⟨rfl, rfl, rfl, admission, usable⟩

end Requests

section Publishing

/-- What is recorded about a commit changes nothing else. -/
theorem World.recordCommit_same
    (result : Result GuardedAdmission) :
    (world.recordCommit me result).inner = world.inner ∧
      (world.recordCommit me result).admissionPoisoned =
        world.admissionPoisoned ∧
      (world.recordCommit me result).innerPoisoned = world.innerPoisoned := by
  unfold World.recordCommit
  split <;> exact ⟨rfl, rfl, rfl⟩

/-- An admission does what its section decides on what the backend holds. -/
theorem admitThen_completes
    {guarded : Bool} {admission : Admission} {result : Result GuardedAdmission}
    {inner : Inner}
    (idle : world.Idle)
    (decided : commitAdmission admission world.inner = (result, inner))
    (calm : ∀ message, result ≠ .error (.panicked message)) :
    Completes (Exec clients.kernel me) Anything
      (fun found final => result = .ok found ∧ final.inner = inner ∧
        final.Idle)
      (fun fault final => result = .error fault ∧ final.inner = inner ∧
        final.Idle)
      (admitThen guarded admission) world := by
  apply (lockAdmission_completes idle).bind
  rintro _ locked rfl
  have whole : World.locked { world with holder := some me }
      (commitAdmission admission) =
        (result, { world with holder := some me, inner := inner }) :=
    World.locked_eq idle.usable decided calm
  refine ⟨⟨_, _, .commitAdmission⟩, fun reply after executed _ => ?_⟩
  cases executed with
  | commitAdmission =>
      rw [whole]
      obtain ⟨same, admission, usable⟩ := @World.recordCommit_same me
        { world with holder := some me, inner := inner } result
      cases result with
      | error fault =>
          exact release_completes ⟨rfl, same, rfl,
            admission.trans idle.admission, usable.trans idle.usable⟩
      | ok found =>
          apply Completes.weaken (act_completes
            (admission.trans idle.admission) (usable.trans idle.usable))
          · rintro _ final ⟨rfl, inner, free⟩
            exact ⟨rfl, inner.trans same, free⟩
          · exact fun _ _ => id

/-- A publication that is verified on a log is prepared for its commit. -/
theorem prepared_of_accepted
    (assumed : clients.Assumed)
    (supplied : ∀ object ∈ publication.objects, clients.Supplied object)
    (nonempty : publication.entries ≠ [])
    (accepted : BatchAccepted clients.kernel world.inner.state
      publication.expected publication.objects publication.entries) :
    clients.Prepared world.inner.state publication where
  nonempty := nonempty
  follows := accepted.follows
  objects object inside := by
    obtain ⟨_, checked⟩ := accepted.supplied
    exact ⟨supplied object inside, assumed.sound_of_verify
      (supplied object inside)
      (availableObjects_verified checked object inside)⟩
  available := accepted.available

/-- A batch of a stale lease is refused. -/
theorem commitAdmission_stale
    {inner : Inner}
    (stale : inner.fence ≠ publication.lease.fence) :
    commitAdmission publication.admission inner =
      (refuse .staleLease, inner) := by
  simp [commitAdmission, Publication.admission, Ne.symm stale]

/-- A batch that does not follow the head is a redelivery or refused. -/
theorem commitAdmission_moved
    {inner : Inner}
    (current : inner.fence = publication.lease.fence)
    (moved : inner.state.head ≠ publication.expected) :
    commitAdmission publication.admission inner =
      (answerStale inner.state publication.entries, inner) := by
  simp [commitAdmission, Publication.admission, current, Ne.symm moved]

/-- A commit that fails refuses its batch and changes nothing. -/
theorem commitAdmission_error
    {inner left : Inner} {fault : Fault}
    (assumed : clients.Assumed)
    (stocked : clients.Stocked inner.state)
    (holds : Holds clients.kernel inner.state log)
    (prepared : clients.Prepared inner.state publication)
    (failed :
      commitAdmission publication.admission inner = (.error fault, left)) :
    left = inner ∧ ∀ message, fault ≠ .panicked message := by
  rcases commitAdmission_spec assumed stocked holds prepared with
    ⟨head, after, answer, _⟩ | ⟨head, answer, _⟩ | ⟨error, answer, _⟩
  · rw [answer] at failed
    cases failed
  · rw [answer] at failed
    cases failed
  · rw [answer] at failed
    cases failed
    exact ⟨rfl, by simp⟩

/-- A publication ends as it is decided on what the backend holds. -/
theorem publication_completes
    {guarded : Bool}
    (assumed : clients.Assumed)
    (inv : Inv clients world)
    (idle : world.Idle)
    (supplied : ∀ object ∈ publication.objects, clients.Supplied object) :
    Completes (Exec clients.kernel me) Anything
      (clients.Admits publication world)
      (fun _ final => clients.Refuses publication world final)
      (do
        let admission ← verifiedAdmission clients.kernel readState publication
        admitThen guarded admission) world := by
  obtain ⟨log, holds, _⟩ := inv.log
  by_cases nonempty : publication.entries = []
  · unfold verifiedAdmission
    rw [if_pos (by simp [nonempty])]
    exact ⟨.inl nonempty, rfl, idle⟩
  unfold verifiedAdmission
  rw [if_neg (by simpa using nonempty), Program.bind_assoc]
  apply (readState_completes idle).bind
  rintro state final ⟨rfl, same⟩
  obtain ⟨verified, checked, _⟩ := holds.verifyState
  rw [same, checked]
  cases batch : verifyBatch clients.kernel world.inner.state
      publication.expected publication.objects publication.entries with
  | error fault =>
      refine ⟨.inr (.inl fun accepted => ?_), rfl, idle⟩
      rw [verifyBatch_eq_ok.mpr accepted] at batch
      cases batch
  | ok done =>
      cases done
      have accepted := verifyBatch_eq_ok.mp batch
      have prepared := prepared_of_accepted assumed supplied nonempty accepted
      cases decided : commitAdmission publication.admission world.inner with
      | mk result inner =>
          have calm (fault : Fault) (failed : result = .error fault) :=
            commitAdmission_error assumed inv.stocked holds prepared
              (failed ▸ decided)
          apply Completes.weaken (admitThen_completes idle decided ?_)
          · rintro found final ⟨rfl, rfl, free⟩
            exact ⟨nonempty, accepted, decided, free⟩
          · rintro fault final ⟨rfl, rfl, free⟩
            have same := (calm fault rfl).1
            rw [same] at decided
            exact ⟨.inr (.inr ⟨fault, decided⟩), same, free⟩
          · intro message failed
            exact (calm _ failed).2 message rfl

end Publishing

section Members

variable {state left : StoredState} {id : ContentId}

/-- The object loop makes exactly the objects of the batch available. -/
theorem mem_insertObjects
    {objects : List JournalObject}
    (inserted : insertObjects state objects = (.ok (), left)) :
    id ∈ left.objects ↔
      id ∈ state.objects ∨ ∃ object ∈ objects, object.id = id := by
  induction objects generalizing state with
  | nil =>
      cases inserted
      simp
  | cons object rest inductionHypothesis =>
      unfold insertObjects at inserted
      cases present : state.objects[object.id]? with
      | none =>
          rw [present] at inserted
          rw [inductionHypothesis inserted, mem_withObject]
          simp only [List.mem_cons, exists_eq_or_imp]
          tauto
      | some bytes =>
          rw [present] at inserted
          have member : object.id ∈ state.objects :=
            Std.ExtTreeMap.isSome_getElem?_iff_mem.mp
              (Option.isSome_of_eq_some present)
          dsimp only at inserted
          split at inserted
          · cases inserted
          · rw [inductionHypothesis inserted]
            simp only [List.mem_cons, exists_eq_or_imp]
            constructor
            · exact fun found => found.imp_right .inr
            · rintro (old | rfl | new)
              · exact .inl old
              · exact .inl member
              · exact .inr new

/-- The entry loop leaves the objects alone. -/
theorem insertEntries_objects
    (state : StoredState) (entries : List JournalEntry) :
    (insertEntries state entries).2.objects = state.objects := by
  induction entries generalizing state with
  | nil => rfl
  | cons entry rest inductionHypothesis =>
      unfold insertEntries
      cases state.entries[entry.sequence]? with
      | none => exact inductionHypothesis _
      | some existing =>
          dsimp only
          split
          · exact inductionHypothesis _
          · rfl

/-- A commit makes exactly the objects of its batch available. -/
theorem commitAdmission_objects
    {admission : Admission} {inner after : Inner} {head : JournalHead}
    (decided : commitAdmission admission inner =
      (.ok ⟨head, .committedActionInvoked⟩, after)) :
    id ∈ after.state.objects ↔ id ∈ inner.state.objects ∨
      ∃ object ∈ admission.objects, object.id = id := by
  unfold commitAdmission at decided
  split at decided
  · cases decided
  split at decided
  · rcases answerStale_cases inner.state admission.entries with
      ⟨_, answer, _⟩ | ⟨_, answer⟩ <;>
      · rw [answer] at decided
        cases decided
  cases objects : insertObjects inner.state admission.objects with
  | mk inserted middle =>
      rw [objects] at decided
      cases inserted with
      | error fault => cases decided
      | ok done =>
          dsimp only at decided
          have kept := insertEntries_objects middle admission.entries
          cases entries : insertEntries middle admission.entries with
          | mk appended final =>
              rw [entries] at decided kept
              cases appended with
              | error fault => cases decided
              | ok done =>
                  dsimp only at decided kept
                  cases last : final.entries.list.getLast? with
                  | none =>
                      rw [last] at decided
                      cases decided
                  | some entry =>
                      rw [last] at decided
                      cases decided
                      dsimp only
                      rw [kept]
                      exact mem_insertObjects objects

/-- An insertion makes exactly its object available. -/
theorem insertDatum_objects
    {kernel : Kernel} {object : JournalObject} {inner after : Inner}
    (stocked : clients.Stocked inner.state)
    (inserted : insertDatum kernel object inner = (.ok (), after)) :
    id ∈ after.state.objects ↔
      id ∈ inner.state.objects ∨ object.id = id := by
  unfold insertDatum at inserted
  cases present : inner.state.datums[object.id]? with
  | none =>
      rw [present] at inserted
      cases inserted
      rw [mem_withObject, or_comm]
  | some datum =>
      have member : object.id ∈ inner.state.objects := by
        rcases stocked object.id with ⟨_, absent⟩ | ⟨_, _, _, _, bytes, _⟩
        · rw [present] at absent
          cases absent
        · exact Std.ExtTreeMap.isSome_getElem?_iff_mem.mp
            (Option.isSome_of_eq_some bytes)
      have same : after = inner := by
        rw [present] at inserted
        dsimp only at inserted
        cases read : JournalObject.fromDatum kernel datum with
        | error fault =>
            rw [read] at inserted
            cases inserted
        | ok existing =>
            rw [read] at inserted
            dsimp only at inserted
            split at inserted <;> cases inserted
            rfl
      rw [same]
      constructor
      · exact .inl
      · rintro (old | rfl)
        · exact old
        · exact member

end Members

section Others

variable {object : JournalObject} {meaning : ContentId}

/-- A lease takes the next fence, if there is one. -/
theorem acquireLease_completes
    (idle : world.Idle) :
    Completes (Exec clients.kernel me) Anything
      (fun lease final => checkedSucc world.inner.fence = some lease.fence ∧
        final.inner = { world.inner with fence := lease.fence } ∧ final.Idle)
      (fun _ final => checkedSucc world.inner.fence = none ∧
        final.inner = world.inner ∧ final.Idle)
      acquireLease world := by
  apply (lockAdmission_completes idle).bind
  rintro _ locked rfl
  refine ⟨⟨_, _, .bumpFence⟩, fun reply after executed _ => ?_⟩
  cases executed with
  | bumpFence =>
      cases next : checkedSucc world.inner.fence with
      | none =>
          have answer : bumpFence world.inner =
              (refuse (.backend "fence exhausted"), world.inner) := by
            rw [bumpFence, next]
          have whole : World.locked { world with holder := some me }
              bumpFence = (refuse (.backend "fence exhausted"),
                { world with holder := some me }) :=
            World.locked_eq idle.usable answer (by simp [refuse])
          rw [whole]
          exact release_completes ⟨rfl, rfl, rfl, idle.admission, idle.usable⟩
      | some fence =>
          have answer : bumpFence world.inner =
              (.ok ⟨fence⟩, { world.inner with fence := fence }) := by
            rw [bumpFence, next]
          have whole : World.locked { world with holder := some me }
              bumpFence = (.ok ⟨fence⟩,
                { world with
                  holder := some me
                  inner := { world.inner with fence := fence } }) :=
            World.locked_eq idle.usable answer (by simp)
          rw [whole]
          exact release_completes ⟨rfl, rfl, rfl, idle.admission, idle.usable⟩

/-- A put of an object that can be stored makes it available. -/
theorem putDatum_completes
    (assumed : clients.Assumed)
    (inv : Inv clients world)
    (idle : world.Idle)
    (supplied : clients.Supplied object) :
    Completes (Exec clients.kernel me) Anything
      (fun reference final => ∃ bytes,
        object.verify clients.kernel = .ok () ∧
        object.storageBytes clients.kernel = .ok bytes ∧
        reference = ⟨object.id, storageId clients.kernel bytes⟩ ∧
        insertDatum clients.kernel object world.inner =
          (.ok (), final.inner) ∧ final.Idle)
      (fun _ final => final.inner = world.inner ∧ final.Idle ∧
        ((∃ fault, object.verify clients.kernel = .error fault) ∨
          ∃ fault, object.storageBytes clients.kernel = .error fault))
      (putDatum clients.kernel object) world := by
  unfold putDatum
  cases verified : object.verify clients.kernel with
  | error fault => exact ⟨rfl, idle, .inl ⟨fault, rfl⟩⟩
  | ok done =>
      cases done
      cases put : object.storageBytes clients.kernel with
      | error fault => exact ⟨rfl, idle, .inr ⟨fault, rfl⟩⟩
      | ok bytes =>
          have sound := assumed.sound_of_verify supplied verified
          obtain ⟨state, answer, _⟩ :=
            insertDatum_spec assumed inv.stocked supplied sound
          have whole : world.locked (insertDatum clients.kernel object) =
              (.ok (), { world with
                inner := { world.inner with state := state } }) :=
            World.locked_eq idle.usable answer (by simp)
          refine ⟨⟨_, _, .insertDatum⟩, fun reply after executed _ => ?_⟩
          cases executed with
          | insertDatum =>
              rw [whole]
              exact ⟨bytes, rfl, rfl, rfl, answer, idle.holder,
                idle.admission, idle.usable⟩

/-- A get returns the datum that is held under the meaning. -/
theorem getDatum_completes
    (idle : world.Idle) :
    Completes (Exec clients.kernel me) Anything
      (fun datum final => final = world ∧
        world.inner.state.datums[meaning]? = some datum)
      (fun _ final => final = world ∧
        world.inner.state.datums[meaning]? = none)
      (getDatum meaning) world := by
  have whole := World.reading_eq idle.usable
    (lookupDatum_calm meaning world.inner)
  refine ⟨⟨_, _, .lookupDatum⟩, fun reply after executed _ => ?_⟩
  cases executed with
  | lookupDatum =>
      rw [whole, lookupDatum]
      cases world.inner.state.datums[meaning]? with
      | none => exact ⟨rfl, rfl⟩
      | some datum => exact ⟨rfl, rfl⟩

/-- A snapshot is made of the state that the backend holds. -/
theorem verifiedSnapshot_completes
    (idle : world.Idle) :
    Completes (Exec clients.kernel me) Anything
      (fun snapshot final => final = world ∧
        VerifiedSnapshot.fromState clients.kernel world.inner.state =
          .ok snapshot)
      (fun fault final => final = world ∧
        VerifiedSnapshot.fromState clients.kernel world.inner.state =
          .error fault)
      (verifiedSnapshot clients.kernel readState) world := by
  apply (readState_completes idle).bind
  rintro state final ⟨rfl, same⟩
  rw [same]
  cases made : VerifiedSnapshot.fromState clients.kernel
      world.inner.state with
  | error fault => exact ⟨rfl, rfl⟩
  | ok snapshot => exact ⟨rfl, rfl⟩

end Others

end SimStorage.Journal.Memory
