import SimStorage.Journal.Host.Serial
import SimStorage.Journal.Memory.Serial
import SimStorage.Journal.Memory.Soundness

namespace SimStorage.Journal

/-!
# The memory backend and the host journal

The memory backend is the law reference of the host journal.  Run side by side
by one client at a time, the two answer alike and stand for the same log, as
long as no batch names a payload that is stored without being committed: the
memory backend would accept it, and the host journal does not.
-/

open Codec Interaction

variable {deployment : Host.Deployment} {me : Host.CallId}
variable {host final : Host.World} {memory last : Memory.World}
variable {standing next : Host.Standing} {publication : Publication}

section Definitions

/-- The clients of a memory backend that make the calls of a deployment. -/
def Host.Deployment.clients (deployment : Host.Deployment) : Memory.Clients :=
  ⟨deployment.kernel, deployment.workload⟩

/-- Two answers that a caller takes for the same. -/
inductive Alike (kernel : Kernel) :
    Result Outcome → Result Outcome → Prop where
  | refused (fault other : Fault) :
      Alike kernel (.error fault) (.error other)
  | lease (lease : Lease) :
      Alike kernel (.ok (.lease lease)) (.ok (.lease lease))
  | head (head : JournalHead) :
      Alike kernel (.ok (.head head)) (.ok (.head head))
  | guarded (result : GuardedAdmission) :
      Alike kernel (.ok (.guarded result)) (.ok (.guarded result))
  | reference (reference : StoredDatumRef) :
      Alike kernel (.ok (.reference reference)) (.ok (.reference reference))
  /-- Values of one meaning. -/
  | datum {datum other : Datum} {meaning : ContentId} :
      kernel.contentId datum = some meaning →
      kernel.contentId other = some meaning →
      Alike kernel (.ok (.datum datum)) (.ok (.datum other))
  /-- States of one log; the first has no object that the second lacks. -/
  | state {state other : StoredState} :
      state.head = other.head →
      state.entries = other.entries →
      (∀ (id : ContentId) (bytes : Bytes), state.objects[id]? = some bytes →
        other.objects[id]? = some bytes) →
      Alike kernel (.ok (.state state)) (.ok (.state other))
  /-- Snapshots of one log, with the same payload identities. -/
  | snapshot {snapshot other : VerifiedSnapshot} :
      snapshot.head = other.head →
      snapshot.entries = other.entries →
      (∀ id, id ∈ snapshot.datums ↔ id ∈ other.datums) →
      Alike kernel (.ok (.snapshot snapshot)) (.ok (.snapshot other))

/-- A host store and a memory backend that hold the same. -/
structure Host.Deployment.Mirrors (deployment : Host.Deployment)
    (standing : Host.Standing) (host : Host.World) (memory : Memory.World) :
    Prop where
  stands : deployment.Stands host standing
  free : host.held = none
  idle : memory.Idle
  fence : memory.inner.fence = standing.fence.getD 0
  entries : memory.inner.state.entries.list = standing.state.entries.list
  stocks : ∀ meaning, deployment.Stocks host meaning ↔
    meaning ∈ memory.inner.state.objects

/-- No payload of a batch is stored without being committed or supplied. -/
def Known (standing : Host.Standing) (memory : Memory.World)
    (publication : Publication) : Prop :=
  ∀ entry ∈ publication.entries, ∀ meaning ∈ entry.payloads,
    (∃ object ∈ publication.objects, object.id = meaning) ∨
      meaning ∈ standing.state.objects ∨
      meaning ∉ memory.inner.state.objects

/-- What the agreement assumes of a deployment. -/
structure Host.Deployment.Comparable (deployment : Host.Deployment) :
    Prop where
  assumed : deployment.clients.Assumed
  modern : ¬ deployment.port.legacy
  guarded : deployment.port.guarded = true
  capable : ∀ me, (deployment.backends me).capabilities = ⟨true, true⟩
  leased : ∀ me publication,
    (deployment.workload me).publication = some publication →
    publication.lease.fence ≠ 0

/-- A call that meets no limit of the host: its end on the host is given. -/
structure Host.Deployment.Regular (deployment : Host.Deployment)
    (me : Host.CallId) (standing : Host.Standing) (host : Host.World)
    (memory : Memory.World) (outcome : Result Outcome) (final : Host.World) :
    Prop where
  calm : ¬ deployment.port.faulty me
  operation : deployment.workload me ≠ .rebuildDatumIndex
  bounded : standing.state.entries.size ≤ (deployment.backends me).workBound
  known : ∀ publication,
    (deployment.workload me).publication = some publication →
    Known standing memory publication
  unexcused : ∀ fault, outcome = .error fault →
    ¬ deployment.Excused fault final ∧ ¬ host.Exhausts standing fault

end Definitions

section States

variable {log : List JournalEntry} {state other : StoredState}

/-- States of one log have the same entries and the same head. -/
theorem Holds.same
    {kernel : Kernel} {otherLog : List JournalEntry}
    (holds : Holds kernel state log)
    (otherHolds : Holds kernel other otherLog)
    (same : other.entries.list = state.entries.list) :
    state.head = other.head ∧ state.entries = other.entries := by
  rw [otherHolds.listed, holds.listed] at same
  subst same
  exact ⟨holds.head.trans otherHolds.head.symm,
    holds.entries.trans otherHolds.entries.symm⟩

/-- Mirrored states have the same entries and the same head. -/
theorem Host.Deployment.Mirrors.same
    (mirrors : deployment.Mirrors standing host memory)
    (inv : Memory.Inv deployment.clients memory) :
    standing.state.head = memory.inner.state.head ∧
      standing.state.entries = memory.inner.state.entries := by
  obtain ⟨log, commits⟩ := mirrors.stands.commits
  obtain ⟨_, holds, _⟩ := inv.log
  exact commits.holds.same holds mirrors.entries

/-- What a store stands for is determined by its leaves. -/
theorem Host.Deployment.Stands.unique
    (stands : deployment.Stands host standing)
    (otherStands : deployment.Stands host next) :
    standing = next := by
  obtain ⟨log, commits⟩ := stands.commits
  obtain ⟨_, otherCommits⟩ := otherStands.commits
  have sameState := (commits.unique otherCommits).2
  have sameFence : standing.fence = next.fence := by
    rcases stands.leased with ⟨absent, unfenced⟩ | ⟨envelope, selects, fenced⟩
    · rcases otherStands.leased with ⟨_, other⟩ | ⟨envelope, selects, _⟩
      · rw [unfenced, other]
      · obtain ⟨_, present, _⟩ := selects
        rw [absent] at present
        cases present
    · rw [fenced, otherStands.fence_of_selects selects]
  cases standing
  cases next
  simp only at sameState sameFence
  rw [sameState, sameFence]

end States

section Batches

/-- What the host has available, the memory backend holds with its bytes. -/
theorem Host.Deployment.Mirrors.available
    {meaning : ContentId} {bytes : Bytes}
    (mirrors : deployment.Mirrors standing host memory)
    (assumed : deployment.clients.Assumed)
    (inv : Memory.Inv deployment.clients memory)
    (tidy : deployment.Tidy host)
    (found : standing.state.objects[meaning]? = some bytes) :
    memory.inner.state.objects[meaning]? = some bytes := by
  obtain ⟨object, content, shelved, rfl, rfl⟩ :=
    mirrors.stands.available tidy assumed.lawful found
  have held := (mirrors.stocks object.id).mp ⟨object, content, shelved, rfl⟩
  obtain ⟨other, supplied, sound, same, present, _⟩ := inv.stocked.found held
  rw [present, assumed.bytes_eq supplied shelved.supplied sound shelved.sound
    same]

/-- The two backends verify the same batches. -/
theorem Host.Deployment.Mirrors.accepted
    (mirrors : deployment.Mirrors standing host memory)
    (assumed : deployment.clients.Assumed)
    (inv : Memory.Inv deployment.clients memory)
    (tidy : deployment.Tidy host)
    (supplied : ∀ object ∈ publication.objects, deployment.Supplied object)
    (known : Known standing memory publication) :
    BatchAccepted deployment.kernel standing.state publication.expected
        publication.objects publication.entries ↔
      BatchAccepted deployment.kernel memory.inner.state publication.expected
        publication.objects publication.entries := by
  obtain ⟨_, sameEntries⟩ := mirrors.same inv
  have sound {object : JournalObject} (inside : object ∈ publication.objects)
      (verified : ∀ object ∈ publication.objects,
        object.verify deployment.kernel = .ok ()) :
      object.Sound deployment.kernel :=
    assumed.sound_of_verify (supplied object inside) (verified object inside)
  have distinct (verified : ∀ object ∈ publication.objects,
      object.verify deployment.kernel = .ok ()) :
      ∀ first ∈ publication.objects, ∀ second ∈ publication.objects,
        first.id = second.id → first.bytes = second.bytes :=
    fun first inFirst second inSecond same =>
      assumed.bytes_eq (supplied first inFirst) (supplied second inSecond)
        (sound inFirst verified) (sound inSecond verified) same
  have conflicts (verified : ∀ object ∈ publication.objects,
      object.verify deployment.kernel = .ok ()) :
      ∀ object ∈ publication.objects, ∀ bytes,
        memory.inner.state.objects[object.id]? = some bytes →
          bytes = object.bytes := by
    intro object inside bytes present
    have member := Std.ExtTreeMap.isSome_getElem?_iff_mem.mp
      (Option.isSome_of_eq_some present)
    obtain ⟨other, given, otherSound, same, found, _⟩ :=
      inv.stocked.found member
    rw [present, Option.some.injEq] at found
    rw [found]
    exact assumed.bytes_eq given (supplied object inside) otherSound
      (sound inside verified) same
  constructor
  · rintro ⟨⟨_, checked⟩, follows, available, agrees, room⟩
    have verified := availableObjects_verified checked
    refine ⟨availableObjects_isOk verified (conflicts verified)
      (distinct verified), follows, ?_, sameEntries ▸ agrees, room⟩
    intro entry member meaning inside
    apply (available entry member meaning inside).imp_left
    intro old
    obtain ⟨bytes, found⟩ := Option.isSome_iff_exists.mp
      (Std.ExtTreeMap.isSome_getElem?_iff_mem.mpr old)
    exact Std.ExtTreeMap.isSome_getElem?_iff_mem.mp (Option.isSome_of_eq_some
      (mirrors.available assumed inv tidy found))
  · rintro ⟨⟨_, checked⟩, follows, available, agrees, room⟩
    have verified := availableObjects_verified checked
    refine ⟨availableObjects_isOk verified ?_ (distinct verified), follows, ?_,
      sameEntries ▸ agrees, room⟩
    · intro object inside bytes present
      exact conflicts verified object inside bytes
        (mirrors.available assumed inv tidy present)
    · intro entry member meaning inside
      rcases known entry member meaning inside with own | old | unknown
      · exact .inr own
      · exact .inl old
      · exact (available entry member meaning inside).imp_left
          fun held => absurd held unknown

end Batches

section Decisions

/-- Objects of bounded size are stored. -/
theorem storeAll_fits
    {objects : List JournalObject}
    (assumed : deployment.clients.Assumed)
    (supplied : ∀ object ∈ objects, deployment.Supplied object)
    (verified : ∀ object ∈ objects,
      object.verify deployment.kernel = .ok ()) :
    Host.storeAll deployment.kernel objects = .ok () := by
  induction objects with
  | nil => rfl
  | cons object rest inductionHypothesis =>
      have given := supplied object List.mem_cons_self
      have sound := assumed.sound_of_verify given
        (verified object List.mem_cons_self)
      have canonical := (assumed.lawful.contentId_isSome object.datum).mp
        (Option.isSome_of_eq_some sound.identity)
      obtain ⟨bytes, put⟩ := JournalObject.storageBytes_isOk canonical
        (assumed.fits object given)
      have later := inductionHypothesis
        (fun member inside => supplied member (List.mem_cons_of_mem _ inside))
        (fun member inside => verified member (List.mem_cons_of_mem _ inside))
      exact bind_eq_ok.mpr ⟨bytes, put, later⟩

/-- A batch that follows no head of the log is answered alike. -/
theorem redelivered_alike
    {entries : List JournalEntry} {state other : StoredState}
    (heads : state.head = other.head)
    (same : state.entries = other.entries) :
    (∃ head,
      Host.redeliver state entries =
        .ok ⟨head, .alreadyCommittedActionNotInvoked⟩ ∧
      Memory.answerStale other entries =
        .ok ⟨head, .alreadyCommittedActionNotInvoked⟩) ∨
    ∃ fault error, Host.redeliver state entries = .error fault ∧
      Memory.answerStale other entries = refuse error := by
  have tests : Host.redelivered state entries =
      Memory.exact other entries := by
    unfold Host.redelivered Memory.exact
    rw [same, Bool.and_comm]
  unfold Host.redeliver Memory.answerStale
  rw [tests, heads]
  by_cases again : Memory.exact other entries = true
  · rw [if_pos again, if_pos again]
    cases other.head with
    | none => exact .inr ⟨_, _, rfl, rfl⟩
    | some head => exact .inl ⟨head, rfl, rfl⟩
  · rw [if_neg again, if_neg again]
    right
    split
    · exact ⟨_, _, rfl, rfl⟩
    · exact ⟨_, _, rfl, rfl⟩

/-- A verified batch is decided alike by the two backends. -/
theorem Host.Deployment.Mirrors.decides
    {log : List JournalEntry}
    (mirrors : deployment.Mirrors standing host memory)
    (assumed : deployment.clients.Assumed)
    (inv : Memory.Inv deployment.clients memory)
    (holds : Holds deployment.kernel memory.inner.state log)
    (supplied : ∀ object ∈ publication.objects, deployment.Supplied object)
    (leased : publication.lease.fence ≠ 0)
    (nonempty : publication.entries ≠ [])
    (accepted : BatchAccepted deployment.kernel memory.inner.state
      publication.expected publication.objects publication.entries) :
    (∃ head after,
      Host.admitted deployment.kernel standing publication =
        .ok ⟨head, .committedActionInvoked⟩ ∧
      Memory.commitAdmission publication.admission memory.inner =
        (.ok ⟨head, .committedActionInvoked⟩, after) ∧
      Memory.Appended deployment.clients publication log memory.inner
        after) ∨
    (∃ head,
      Host.admitted deployment.kernel standing publication =
        .ok ⟨head, .alreadyCommittedActionNotInvoked⟩ ∧
      Memory.commitAdmission publication.admission memory.inner =
        (.ok ⟨head, .alreadyCommittedActionNotInvoked⟩, memory.inner)) ∨
    ∃ fault error,
      Host.admitted deployment.kernel standing publication = .error fault ∧
      Memory.commitAdmission publication.admission memory.inner =
        (refuse error, memory.inner) := by
  obtain ⟨heads, entries⟩ := mirrors.same inv
  by_cases stale : memory.inner.fence ≠ publication.lease.fence
  · have answer := Memory.commitAdmission_stale stale
    right; right
    rw [mirrors.fence] at stale
    unfold Host.admitted
    cases fenced : standing.fence with
    | none => exact ⟨_, _, rfl, answer⟩
    | some fence =>
        rw [fenced] at stale
        have other : fence ≠ publication.lease.fence := stale
        exact ⟨_, _, if_pos other, answer⟩
  have current := Decidable.not_not.mp stale
  have fenced : standing.fence = some publication.lease.fence := by
    rw [mirrors.fence] at current
    cases fence : standing.fence with
    | none =>
        rw [fence] at current
        exact absurd current.symm leased
    | some value =>
        rw [fence] at current
        exact congrArg some current
  have verdict : Host.admitted deployment.kernel standing publication =
      (if standing.state.head ≠ publication.expected then
        Host.redeliver standing.state publication.entries
      else
        Host.appended deployment.kernel publication) := by
    unfold Host.admitted
    rw [fenced]
    dsimp only
    rw [if_neg (fun differs => differs rfl)]
  rw [verdict]
  by_cases moved : standing.state.head ≠ publication.expected
  · rw [if_pos moved]
    rw [Memory.commitAdmission_moved current (heads ▸ moved)]
    rcases @redelivered_alike publication.entries _ _ heads entries with
      ⟨head, again, same⟩ | ⟨fault, error, refused, same⟩
    · rw [same]
      exact .inr (.inl ⟨head, again, rfl⟩)
    · rw [same]
      exact .inr (.inr ⟨fault, error, refused, rfl⟩)
  · rw [if_neg moved]
    have expected := Decidable.not_not.mp moved
    have prepared := Memory.prepared_of_accepted assumed supplied nonempty
      accepted
    obtain ⟨_, checked⟩ := accepted.supplied
    have decided : Host.appended deployment.kernel publication =
        .ok ⟨(publication.entries.getLast nonempty).head,
          .committedActionInvoked⟩ := by
      rw [Host.appended, storeAll_fits assumed supplied
        (availableObjects_verified checked),
        List.getLast?_eq_some_getLast nonempty]
      rfl
    rcases Memory.commitAdmission_spec assumed inv.stocked holds prepared with
      ⟨head, after, answer, ends, appended⟩ |
        ⟨head, _, _, _, here, other⟩ | ⟨error, _, differs⟩
    · have same : head = (publication.entries.getLast nonempty).head := by
        rw [headAfter_append, headAfter_nonempty nonempty] at ends
        exact Option.some.inj ends
      exact .inl ⟨head, after, same ▸ decided, answer, appended⟩
    · exact absurd ((expected.symm.trans heads).trans here) other
    · exact absurd (heads.symm.trans expected) (differs current)

end Decisions

section Publications

variable {outcome answer : Result Outcome} {guarded : Bool}

theorem Host.Deployment.Comparable.able
    (comparable : deployment.Comparable)
    (me : Host.CallId) (guarded : Bool) :
    Host.capable deployment.port (deployment.backends me) guarded =
      .ok () := by
  unfold Host.capable
  rw [comparable.guarded, comparable.capable me]
  simp

/-- A verified batch is left to the admission. -/
theorem Host.Deployment.Comparable.published
    (comparable : deployment.Comparable)
    (bounded : standing.state.entries.size ≤
      (deployment.backends me).workBound)
    (nonempty : publication.entries ≠ [])
    (accepted : BatchAccepted deployment.kernel standing.state
      publication.expected publication.objects publication.entries) :
    Host.published deployment.kernel deployment.port (deployment.backends me)
        guarded standing publication =
      Host.admitted deployment.kernel standing publication := by
  unfold Host.published
  rw [if_neg (by simpa using nonempty), if_neg (by omega),
    verifyBatch_eq_ok.mpr accepted, comparable.able me guarded]
  rfl

/-- Only a verified batch is published. -/
theorem published_accepted
    {port : Host.Port} {backend : Host.HostDirJournalBackend}
    {kernel : Kernel} {result : GuardedAdmission}
    (decided : Host.published kernel port backend guarded standing
      publication = .ok result) :
    publication.entries ≠ [] ∧
      BatchAccepted kernel standing.state publication.expected
        publication.objects publication.entries := by
  unfold Host.published at decided
  split at decided
  · cases decided
  next nonempty =>
    split at decided
    · cases decided
    · obtain ⟨_, checked, _⟩ := bind_eq_ok.mp decided
      exact ⟨fun none => nonempty (by simp [none]),
        verifyBatch_eq_ok.mp checked⟩

theorem Alike.admitted
    {kernel : Kernel}
    (guarded : Bool) (result : GuardedAdmission) :
    Alike kernel (.ok (Host.answer guarded result))
      (.ok (Host.answer guarded result)) := by
  cases guarded with
  | true => exact .guarded result
  | false => exact .head result.head

/-- How a publication ends on the memory backend. -/
def Publishes (deployment : Host.Deployment) (guarded : Bool)
    (publication : Publication) (memory : Memory.World) :
    Result Outcome → Memory.World → Prop :=
  Ends
    (fun answer last => ∃ result, answer = Host.answer guarded result ∧
      deployment.clients.Admits publication memory result last)
    (fun _ last => deployment.clients.Refuses publication memory last)

/-- A host store that stands for the same mirrors what holds the same. -/
theorem Host.Deployment.Mirrors.still
    (mirrors : deployment.Mirrors standing host memory)
    (stands : deployment.Stands final standing)
    (free : final.held = none)
    (stores : deployment.Stores [] host final)
    (inner : last.inner = memory.inner)
    (idle : last.Idle) :
    deployment.Mirrors standing final last where
  stands := stands
  free := free
  idle := idle
  fence := inner ▸ mirrors.fence
  entries := inner ▸ mirrors.entries
  stocks meaning := by
    rw [stores, inner, ← mirrors.stocks]
    simp

/-- A publication that ends on both backends ends alike. -/
theorem Host.Deployment.Mirrors.publishes
    (mirrors : deployment.Mirrors standing host memory)
    (comparable : deployment.Comparable)
    (inv : Memory.Inv deployment.clients memory)
    (tidy : deployment.Tidy host)
    (working :
      (deployment.workload me).publication = some publication)
    (regular :
      deployment.Regular me standing host memory outcome final)
    (free : final.held = none)
    (concludes : deployment.Concludes me guarded standing publication host
      outcome final)
    (ended : Publishes deployment guarded publication memory answer last) :
    Alike deployment.kernel outcome answer ∧
      ∃ next, deployment.Mirrors next final last := by
  have assumed := comparable.assumed
  obtain ⟨log, holds, _⟩ := inv.log
  have supplied : ∀ object ∈ publication.objects,
      deployment.Supplied object := by
    intro object inside
    refine ⟨me, ?_⟩
    cases operation : deployment.workload me <;> rw [operation] at working <;>
      cases working <;> exact inside
  have agree := mirrors.accepted assumed inv tidy supplied
    (regular.known publication working)
  have decides := mirrors.decides assumed inv holds supplied
    (comparable.leased me publication working)
  cases concludes with
  | excused excused _ =>
      exact absurd excused (regular.unexcused _ rfl).1
  | refused decided stands spared =>
      have stores : deployment.Stores [] host final := by
        rcases spared with stores | ⟨object, given, verified, failed⟩
        · exact stores
        · have sound := assumed.sound_of_verify given verified
          have canonical := (assumed.lawful.contentId_isSome object.datum).mp
            (Option.isSome_of_eq_some sound.identity)
          obtain ⟨bytes, put⟩ := JournalObject.storageBytes_isOk canonical
            (assumed.fits object given)
          have impossible := put.symm.trans failed
          cases impossible
      cases answer with
      | error fault =>
          exact ⟨.refused _ _, standing,
            mirrors.still stands free stores ended.inner ended.idle⟩
      | ok answer =>
          obtain ⟨result, _, admits⟩ := ended
          rw [comparable.published regular.bounded admits.nonempty
            (agree.mpr admits.accepted)] at decided
          rcases decides admits.nonempty admits.accepted with
            ⟨_, _, accepted, _⟩ | ⟨_, accepted, _⟩ | ⟨_, _, _, refused⟩
          · rw [accepted] at decided
            cases decided
          · rw [accepted] at decided
            cases decided
          · have impossible := refused.symm.trans admits.decided
            cases impossible
  | admitted decided after stands stores =>
      obtain ⟨nonempty, accepted⟩ := published_accepted decided
      rw [comparable.published regular.bounded nonempty accepted] at decided
      have held := agree.mp accepted
      have admits (found : GuardedAdmission) (left : Memory.Inner)
          (same : Memory.commitAdmission publication.admission memory.inner =
            (.ok found, left)) :
          answer = .ok (Host.answer guarded found) ∧ last.inner = left ∧
            last.Idle := by
        cases answer with
        | error fault =>
            exfalso
            rcases ended.reason with empty | unaccepted | ⟨fault, refused⟩
            · exact nonempty empty
            · exact unaccepted held
            · have impossible := refused.symm.trans same
              cases impossible
        | ok answer =>
            obtain ⟨result, rfl, admits⟩ := ended
            have equal := admits.decided.symm.trans same
            cases equal
            exact ⟨rfl, rfl, admits.idle⟩
      rcases decides nonempty held with
        ⟨head, left, admitted, commit, appended⟩ | ⟨head, admitted, commit⟩ |
          ⟨_, _, refused, _⟩
      · rw [admitted] at decided
        cases decided
        obtain ⟨rfl, inner, idle⟩ := admits _ _ commit
        obtain ⟨sameFence, listed⟩ := after
        refine ⟨.admitted guarded _, _, stands, free, idle, ?_, ?_, ?_⟩
        · rw [inner, appended.fence, mirrors.fence, sameFence]
        · rw [inner, appended.holds.listed, listed, ← mirrors.entries,
            holds.listed]
        · intro meaning
          rw [stores, inner, Memory.commitAdmission_objects commit,
            mirrors.stocks]
          rfl
      · rw [admitted] at decided
        cases decided
        obtain ⟨rfl, inner, idle⟩ := admits _ _ commit
        cases after
        exact ⟨.admitted guarded _, standing,
          mirrors.still stands free stores inner idle⟩
      · rw [refused] at decided
        cases decided

end Publications

section Operations

variable {outcome answer : Result Outcome} {system : Memory.MemorySystem}

/-- How a call runs alone on the memory backend. -/
def Host.Deployment.RunsInMemory (deployment : Host.Deployment)
    (me : Host.CallId) (memory : Memory.World) (answer : Result Outcome)
    (last : Memory.World) : Prop :=
  Runs (Memory.Exec deployment.kernel me)
    (Memory.callProgram deployment.kernel (deployment.workload me)) memory
    answer last

/-- A program of the memory backend that completes ends, and as it should. -/
theorem ends_in_memory
    {done : Outcome → Memory.World → Prop}
    {failed : Fault → Memory.World → Prop}
    (running : system.programs me = some
      (Memory.callProgram deployment.kernel (deployment.workload me)))
    (completes : Completes (Memory.Exec deployment.clients.kernel me)
      Memory.Anything done failed
      (Memory.callProgram deployment.kernel (deployment.workload me))
      system.world) :
    (∃ answer last, deployment.RunsInMemory me system.world answer last) ∧
      ∀ answer last, deployment.RunsInMemory me system.world answer last →
        Ends done failed answer last := by
  have kept : ∀ later, deployment.clients.Steps system later →
      Memory.Anything later.world := fun _ _ => trivial
  exact ⟨Completes.exists_run running kept completes,
    fun _ _ run => Completes.ends running kept completes run⟩

/-- What both backends know before a call of a sequential client. -/
structure Host.Deployment.Before (deployment : Host.Deployment)
    (me : Host.CallId) (standing : Host.Standing) (host : Host.World)
    (system : Memory.MemorySystem) : Prop where
  comparable : deployment.Comparable
  mirrors : deployment.Mirrors standing host system.world
  inv : Memory.Inv deployment.clients system.world
  tidy : deployment.Tidy host
  running : system.programs me = some
    (Memory.callProgram deployment.kernel (deployment.workload me))

/-- The two ends of a call are alike, and the backends hold the same again. -/
def Host.Deployment.Agree (deployment : Host.Deployment)
    (outcome answer : Result Outcome) (final : Host.World)
    (last : Memory.World) : Prop :=
  Alike deployment.kernel outcome answer ∧
    ∃ next, deployment.Mirrors next final last

/-- A call has an end in memory, and agrees with its end on the host. -/
def Host.Deployment.AgreesWith (deployment : Host.Deployment)
    (me : Host.CallId) (system : Memory.MemorySystem)
    (outcome : Result Outcome) (final : Host.World) : Prop :=
  (∃ answer last, deployment.RunsInMemory me system.world answer last) ∧
    ∀ answer last, deployment.RunsInMemory me system.world answer last →
      deployment.Agree outcome answer final last

/-- The next lease of a mirrored state is the next fence. -/
theorem Host.Deployment.Mirrors.leases
    {lease : Lease}
    (mirrors : deployment.Mirrors standing host memory)
    (decided : Host.leased deployment.port (deployment.backends me) standing =
      .ok lease) :
    checkedSucc memory.inner.fence = some lease.fence := by
  rw [checkedSucc_eq_some, mirrors.fence]
  exact Host.leased_eq_ok decided

/-- A lease is refused where no fence is left. -/
theorem Host.Deployment.Mirrors.exhausted
    {fault : Fault}
    (mirrors : deployment.Mirrors standing host memory)
    (comparable : deployment.Comparable)
    (bounded : standing.state.entries.size ≤
      (deployment.backends me).workBound)
    (decided : Host.leased deployment.port (deployment.backends me) standing =
      .error fault) :
    checkedSucc memory.inner.fence = none := by
  rw [Host.leased, comparable.able me false] at decided
  rw [mirrors.fence]
  cases fenced : standing.fence with
  | none =>
      rw [fenced] at decided
      cases decided
  | some fence =>
      rw [fenced] at decided
      change (if (deployment.backends me).workBound <
          standing.state.entries.size then refuse .workBoundExceeded
        else do
          let next ← Host.nextFence fence
          return (⟨next⟩ : Lease)) = .error fault at decided
      rw [if_neg (by omega)] at decided
      cases next : checkedSucc fence with
      | none => exact next
      | some later =>
          rw [Host.nextFence, next] at decided
          cases decided

theorem Host.Deployment.Before.leases
    (before : deployment.Before me standing host system)
    (regular : deployment.Regular me standing host system.world outcome final)
    (working : deployment.workload me = .acquireLease)
    (ended : deployment.Ended me standing host outcome final) :
    deployment.AgreesWith me system outcome final := by
  obtain ⟨comparable, mirrors, _, _, running⟩ := before
  have completes : Completes (Memory.Exec deployment.clients.kernel me)
      Memory.Anything
      (fun answer last => ∃ lease, answer = .lease lease ∧
        checkedSucc system.world.inner.fence = some lease.fence ∧
        last.inner = { system.world.inner with fence := lease.fence } ∧
        last.Idle)
      (fun _ last => checkedSucc system.world.inner.fence = none ∧
        last.inner = system.world.inner ∧ last.Idle)
      (Memory.callProgram deployment.kernel (deployment.workload me))
      system.world := by
    rw [working]
    apply (Memory.acquireLease_completes mirrors.idle).bind
    exact fun lease last done => ⟨lease, rfl, done⟩
  obtain ⟨runs, ends⟩ := ends_in_memory running completes
  refine ⟨runs, fun answer last run => ?_⟩
  have held := ends answer last run
  obtain ⟨free, answers⟩ := ended
  rw [working] at answers
  cases answers with
  | leased decided stands stores =>
      have next := mirrors.leases decided
      cases answer with
      | error fault =>
          have impossible := next.symm.trans held.1
          cases impossible
      | ok answer =>
          obtain ⟨lease, rfl, same, inner, idle⟩ := held
          have equal := Option.some.inj (next.symm.trans same)
          obtain ⟨value⟩ := lease
          subst equal
          refine ⟨.lease _, _, stands, free, idle, ?_, ?_, ?_⟩
          · rw [inner]
            rfl
          · rw [inner]
            exact mirrors.entries
          · intro meaning
            rw [stores, inner, mirrors.stocks]
            simp
  | unleased decided stands stores =>
      have exhausted := mirrors.exhausted comparable regular.bounded decided
      cases answer with
      | error fault =>
          exact ⟨.refused _ _, standing,
            mirrors.still stands free stores held.2.1 held.2.2⟩
      | ok answer =>
          obtain ⟨lease, _, next, _⟩ := held
          have impossible := next.symm.trans exhausted
          cases impossible
  | exhausted exhausts _ => exact absurd exhausts (regular.unexcused _ rfl).2
  | excused excused _ => exact absurd excused (regular.unexcused _ rfl).1

/-- What a put decides where the backends are capable. -/
theorem Host.Deployment.Comparable.stored
    (comparable : deployment.Comparable)
    (me : Host.CallId) (object : JournalObject) :
    Host.stored deployment.kernel deployment.port (deployment.backends me)
        object = (do
      object.verify deployment.kernel
      let bytes ← object.storageBytes deployment.kernel
      return ⟨object.id, storageId deployment.kernel bytes⟩) := by
  rw [Host.stored, comparable.able me false]
  rfl

theorem Host.Deployment.Before.puts
    {object : JournalObject}
    (before : deployment.Before me standing host system)
    (regular : deployment.Regular me standing host system.world outcome final)
    (working : deployment.workload me = .putDatum object)
    (ended : deployment.Ended me standing host outcome final) :
    deployment.AgreesWith me system outcome final := by
  obtain ⟨comparable, mirrors, inv, _, running⟩ := before
  have assumed := comparable.assumed
  have supplied : deployment.Supplied object := by
    refine ⟨me, ?_⟩
    rw [working]
    exact List.mem_singleton.mpr rfl
  have completes : Completes (Memory.Exec deployment.clients.kernel me)
      Memory.Anything
      (fun answer last => ∃ bytes,
        object.verify deployment.kernel = .ok () ∧
        object.storageBytes deployment.kernel = .ok bytes ∧
        answer = .reference
          ⟨object.id, storageId deployment.kernel bytes⟩ ∧
        Memory.insertDatum deployment.kernel object system.world.inner =
          (.ok (), last.inner) ∧ last.Idle)
      (fun _ last => last.inner = system.world.inner ∧ last.Idle ∧
        ((∃ fault, object.verify deployment.kernel = .error fault) ∨
          ∃ fault, object.storageBytes deployment.kernel = .error fault))
      (Memory.callProgram deployment.kernel (deployment.workload me))
      system.world := by
    rw [working]
    apply (Memory.putDatum_completes assumed inv mirrors.idle supplied).bind
    rintro reference last ⟨bytes, verified, put, rfl, done⟩
    exact ⟨bytes, verified, put, rfl, done⟩
  obtain ⟨runs, ends⟩ := ends_in_memory running completes
  refine ⟨runs, fun answer last run => ?_⟩
  have held := ends answer last run
  obtain ⟨free, answers⟩ := ended
  rw [working] at answers
  cases answers with
  | put decided stands stores =>
      rw [comparable.stored] at decided
      obtain ⟨_, verified, decided⟩ := bind_eq_ok.mp decided
      obtain ⟨bytes, put, made⟩ := bind_eq_ok.mp decided
      cases made
      cases answer with
      | error fault =>
          obtain ⟨_, _, ⟨_, failed⟩ | ⟨_, failed⟩⟩ := held
          · have impossible := verified.symm.trans failed
            cases impossible
          · have impossible := put.symm.trans failed
            cases impossible
      | ok answer =>
          obtain ⟨other, _, same, rfl, inserted, idle⟩ := held
          cases put.symm.trans same
          obtain ⟨state, again, grown⟩ := Memory.insertDatum_spec assumed
            inv.stocked supplied (assumed.sound_of_verify supplied verified)
          have inner : last.inner =
              { system.world.inner with state := state } :=
            (Prod.mk.inj (inserted.symm.trans again)).2
          refine ⟨.reference _, standing, stands, free, idle, ?_, ?_, ?_⟩
          · rw [inner]
            exact mirrors.fence
          · rw [inner]
            change state.entries.list = _
            rw [grown.entries]
            exact mirrors.entries
          · intro meaning
            rw [stores, mirrors.stocks,
              Memory.insertDatum_objects inv.stocked inserted]
            simp
  | unput decided stands stores =>
      rw [comparable.stored] at decided
      cases answer with
      | error fault =>
          exact ⟨.refused _ _, standing,
            mirrors.still stands free stores held.1 held.2.1⟩
      | ok answer =>
          obtain ⟨bytes, verified, put, _⟩ := held
          rw [verified, put] at decided
          cases decided
  | excused excused _ => exact absurd excused (regular.unexcused _ rfl).1

theorem Host.Deployment.Before.finds
    {meaning : ContentId}
    (before : deployment.Before me standing host system)
    (regular : deployment.Regular me standing host system.world outcome final)
    (working : deployment.workload me = .getDatum meaning)
    (ended : deployment.Ended me standing host outcome final) :
    deployment.AgreesWith me system outcome final := by
  obtain ⟨comparable, mirrors, inv, _, running⟩ := before
  have lawful := comparable.assumed.lawful
  have completes : Completes (Memory.Exec deployment.clients.kernel me)
      Memory.Anything
      (fun answer last => ∃ datum, answer = .datum datum ∧
        last = system.world ∧
        system.world.inner.state.datums[meaning]? = some datum)
      (fun _ last => last = system.world ∧
        system.world.inner.state.datums[meaning]? = none)
      (Memory.callProgram deployment.kernel (deployment.workload me))
      system.world := by
    rw [working]
    apply (Memory.getDatum_completes mirrors.idle).bind
    exact fun datum last done => ⟨datum, rfl, done⟩
  obtain ⟨runs, ends⟩ := ends_in_memory running completes
  refine ⟨runs, fun answer last run => ?_⟩
  have held := ends answer last run
  obtain ⟨free, answers⟩ := ended
  rw [working] at answers
  have stocked := inv.stocked meaning
  cases answers with
  | found finds =>
      obtain ⟨object, bytes, shelved, rfl, rfl⟩ := finds
      have member := (mirrors.stocks object.id).mp
        ⟨object, bytes, shelved, rfl⟩
      obtain ⟨other, _, sound, same, _, present⟩ := inv.stocked.found member
      cases answer with
      | error fault =>
          have impossible := present.symm.trans held.2
          cases impossible
      | ok answer =>
          obtain ⟨datum, rfl, rfl, here⟩ := held
          have equal := Option.some.inj (present.symm.trans here)
          subst equal
          exact ⟨.datum (shelved.sound.stored lawful).identity
            (same ▸ sound.identity), standing, mirrors⟩
  | missing unstocked =>
      rw [mirrors.stocks] at unstocked
      cases answer with
      | error fault =>
          obtain ⟨rfl, _⟩ := held
          exact ⟨.refused _ _, standing, mirrors⟩
      | ok answer =>
          obtain ⟨datum, _, _, here⟩ := held
          rcases stocked with ⟨_, absent⟩ | ⟨_, _, _, _, present, _⟩
          · have impossible := absent.symm.trans here
            cases impossible
          · exact absurd (Std.ExtTreeMap.isSome_getElem?_iff_mem.mp
              (Option.isSome_of_eq_some present)) unstocked
  | excused excused _ => exact absurd excused (regular.unexcused _ rfl).1

theorem Host.Deployment.Before.reads
    (before : deployment.Before me standing host system)
    (regular : deployment.Regular me standing host system.world outcome final)
    (working : deployment.workload me = .readState)
    (ended : deployment.Ended me standing host outcome final) :
    deployment.AgreesWith me system outcome final := by
  obtain ⟨comparable, mirrors, inv, tidy, running⟩ := before
  have completes : Completes (Memory.Exec deployment.clients.kernel me)
      Memory.Anything
      (fun answer last => answer = .state system.world.inner.state ∧
        last = system.world)
      (fun _ _ => False)
      (Memory.callProgram deployment.kernel (deployment.workload me))
      system.world := by
    rw [working]
    apply (Memory.readState_completes mirrors.idle).bind
    rintro state last ⟨rfl, same⟩
    exact ⟨rfl, same⟩
  obtain ⟨runs, ends⟩ := ends_in_memory running completes
  refine ⟨runs, fun answer last run => ?_⟩
  have held := ends answer last run
  obtain ⟨free, answers⟩ := ended
  rw [working] at answers
  obtain ⟨heads, entries⟩ := mirrors.same inv
  have seen : Host.visible (deployment.backends me) standing =
      .ok standing.state := by
    rw [Host.visible, if_neg (by have := regular.bounded; omega)]
  have same : outcome = .ok (.state standing.state) ∧ final = host := by
    generalize finished : outcome = found at answers
    cases answers with
    | read =>
        rw [seen]
        exact ⟨rfl, rfl⟩
    | excused excused _ =>
        exact absurd excused (regular.unexcused _ finished).1
  obtain ⟨rfl, rfl⟩ := same
  cases answer with
  | error fault => exact held.elim
  | ok answer =>
      obtain ⟨rfl, rfl⟩ := held
      exact ⟨.state heads entries fun id bytes found =>
        mirrors.available comparable.assumed inv tidy found, standing, mirrors⟩

theorem Host.Deployment.Before.snapshots
    (before : deployment.Before me standing host system)
    (regular : deployment.Regular me standing host system.world outcome final)
    (working : deployment.workload me = .verifiedSnapshot)
    (ended : deployment.Ended me standing host outcome final) :
    deployment.AgreesWith me system outcome final := by
  obtain ⟨comparable, mirrors, inv, tidy, running⟩ := before
  obtain ⟨log, commits⟩ := mirrors.stands.commits
  obtain ⟨_, holds, _⟩ := inv.log
  obtain ⟨one, accepted, _⟩ := commits.holds.verifyState
  obtain ⟨two, other, _⟩ := holds.verifyState
  obtain ⟨left, taken, leftHead, leftEntries, leftIds, _⟩ :=
    VerifiedSnapshot.fromState_of_verified accepted
  obtain ⟨right, takenAgain, rightHead, rightEntries, rightIds, _⟩ :=
    VerifiedSnapshot.fromState_of_verified other
  obtain ⟨_, _, _, listed, head, members⟩ := verifyState_sound accepted
  obtain ⟨_, _, _, otherListed, otherHead, otherMembers⟩ :=
    verifyState_sound other
  obtain ⟨heads, _⟩ := mirrors.same inv
  have alike : Alike deployment.kernel (.ok (.snapshot left))
      (.ok (.snapshot right)) := by
    refine .snapshot ?_ ?_ fun id => ?_
    · rw [leftHead, ← head, heads, otherHead, rightHead]
    · rw [leftEntries, listed, ← mirrors.entries, ← otherListed, rightEntries]
    · rw [leftIds, rightIds, members, otherMembers, mirrors.entries]
  have completes : Completes (Memory.Exec deployment.clients.kernel me)
      Memory.Anything
      (fun answer last => answer = .snapshot right ∧ last = system.world)
      (fun _ _ => False)
      (Memory.callProgram deployment.kernel (deployment.workload me))
      system.world := by
    rw [working]
    apply Completes.bind (Completes.weaken
      (Memory.verifiedSnapshot_completes mirrors.idle) (fun _ _ => id) ?_)
    · rintro snapshot last ⟨same, made⟩
      cases takenAgain.symm.trans made
      exact ⟨rfl, same⟩
    · rintro fault last ⟨_, failed⟩
      have impossible := takenAgain.symm.trans failed
      cases impossible
  obtain ⟨runs, ends⟩ := ends_in_memory running completes
  refine ⟨runs, fun answer last run => ?_⟩
  have held := ends answer last run
  obtain ⟨free, answers⟩ := ended
  rw [working] at answers
  have seen : Host.snapshotted deployment.kernel (deployment.backends me)
      standing = .ok left := by
    rw [Host.snapshotted, Host.visible,
      if_neg (by have := regular.bounded; omega)]
    exact taken
  have same : outcome = .ok (.snapshot left) ∧ final = host := by
    generalize finished : outcome = found at answers
    cases answers with
    | snapshot =>
        rw [seen]
        exact ⟨rfl, rfl⟩
    | excused excused _ =>
        exact absurd excused (regular.unexcused _ finished).1
  obtain ⟨rfl, rfl⟩ := same
  cases answer with
  | error fault => exact held.elim
  | ok answer =>
      obtain ⟨rfl, rfl⟩ := held
      exact ⟨alike, standing, mirrors⟩

theorem Host.Deployment.Before.publishes
    {guarded : Bool}
    (before : deployment.Before me standing host system)
    (regular : deployment.Regular me standing host system.world outcome final)
    (working : deployment.workload me =
      if guarded then .publishThen publication else .publish publication)
    (free : final.held = none)
    (concludes : deployment.Concludes me guarded standing publication host
      outcome final) :
    deployment.AgreesWith me system outcome final := by
  obtain ⟨comparable, mirrors, inv, tidy, running⟩ := before
  have publishing :
      (deployment.workload me).publication = some publication := by
    rw [working]
    cases guarded <;> rfl
  have supplied : ∀ object ∈ publication.objects,
      deployment.clients.Supplied object := by
    intro object inside
    refine ⟨me, ?_⟩
    change object ∈ (deployment.workload me).objects
    rw [working]
    cases guarded <;> exact inside
  have program :
      Memory.callProgram deployment.kernel (deployment.workload me) =
        (do
          let admission ← verifiedAdmission deployment.kernel
            Memory.readState publication
          Memory.admitThen guarded admission) >>=
        fun result => .ret (Host.answer guarded result) := by
    rw [working]
    cases guarded with
    | true => rfl
    | false =>
        change (verifiedAdmission deployment.kernel _ publication >>=
          fun admission => Memory.admitThen false admission >>=
            fun result => .ret result.head) >>= _ = _
        rw [Program.bind_assoc, Program.bind_assoc]
        simp only [Program.bind_assoc, Program.ret_bind]
        rfl
  have completes : Completes (Memory.Exec deployment.clients.kernel me)
      Memory.Anything
      (fun answer last => ∃ result, answer = Host.answer guarded result ∧
        deployment.clients.Admits publication system.world result last)
      (fun _ last => deployment.clients.Refuses publication system.world last)
      (Memory.callProgram deployment.kernel (deployment.workload me))
      system.world := by
    rw [program]
    apply (Memory.publication_completes comparable.assumed inv mirrors.idle
      supplied).bind
    exact fun result last admits => ⟨result, rfl, admits⟩
  obtain ⟨runs, ends⟩ := ends_in_memory running completes
  exact ⟨runs, fun answer last run => mirrors.publishes comparable inv tidy
    publishing regular free concludes (ends answer last run)⟩

end Operations

section Runs

variable {start : Host.World} {values : Set Datum}
variable {outcome answer : Result Outcome}
variable {store : Host.HostSystem} {system : Memory.MemorySystem}

/-- Any call agrees with its end on the host. -/
theorem Host.Deployment.Before.agrees
    (before : deployment.Before me standing store.world system)
    (ready : deployment.Ready start me store)
    (fresh : Host.Fresh deployment start values)
    (regular :
      deployment.Regular me standing store.world system.world outcome final)
    (run : deployment.RunsAlone me store outcome final) :
    deployment.AgreesWith me system outcome final := by
  have stands := before.mirrors.stands
  have ended (plain : Host.Plain (deployment.workload me)) :
      deployment.Ended me standing store.world outcome final :=
    (ready.answers fresh plain stands).2 outcome final run
  have published {guarded : Bool} {publication : Publication}
      (working : deployment.workload me =
        if guarded then .publishThen publication else .publish publication) :
      deployment.AgreesWith me system outcome final := by
    obtain ⟨free, concludes⟩ := ready.concludes fresh working stands run
    exact before.publishes regular working free concludes
  cases working : deployment.workload me with
  | acquireLease =>
      exact before.leases regular working (ended (by rw [working]; trivial))
  | readState =>
      exact before.reads regular working (ended (by rw [working]; trivial))
  | publish publication => exact @published false publication working
  | publishThen publication => exact @published true publication working
  | putDatum object =>
      exact before.puts regular working (ended (by rw [working]; trivial))
  | getDatum meaning =>
      exact before.finds regular working (ended (by rw [working]; trivial))
  | verifiedSnapshot =>
      exact before.snapshots regular working (ended (by rw [working]; trivial))
  | rebuildDatumIndex => exact absurd working regular.operation

/-- A call that waits for an undisturbed run has one. -/
theorem Host.Deployment.Ready.exists_run
    (ready : deployment.Ready start me store)
    (fresh : Host.Fresh deployment start values)
    (operation : deployment.workload me ≠ .rebuildDatumIndex)
    (stands : deployment.Stands store.world standing) :
    ∃ outcome final, deployment.RunsAlone me store outcome final := by
  have publishes {guarded : Bool} {publication : Publication}
      (working : deployment.workload me =
        if guarded then .publishThen publication else .publish publication) :
      ∃ outcome final, deployment.RunsAlone me store outcome final :=
    Completes.exists_run ready.waiting (ready.kept fresh)
      (ready.publishes fresh working stands)
  have answers (plain : Host.Plain (deployment.workload me)) :
      ∃ outcome final, deployment.RunsAlone me store outcome final :=
    (ready.answers fresh plain stands).1
  cases working : deployment.workload me with
  | publish publication => exact @publishes false publication working
  | publishThen publication => exact @publishes true publication working
  | rebuildDatumIndex => exact absurd working operation
  | _ => exact answers (by rw [working]; trivial)

/-- The backends after calls of one client at a time. -/
inductive Host.Deployment.Together (deployment : Host.Deployment)
    (start : Host.World) : Host.HostSystem → Memory.MemorySystem → Prop where
  | start :
      Together deployment start (deployment.initial start)
        deployment.clients.initial
  /-- A call runs from its start to its end, on the one and on the other. -/
  | call {me : Host.CallId} {store : Host.HostSystem}
      {system : Memory.MemorySystem} {standing : Host.Standing}
      {outcome answer : Result Outcome} {final : Host.World}
      {last : Memory.World} :
      Together deployment start store system →
      store.programs me = some (deployment.program me) →
      system.programs me = some
        (Memory.callProgram deployment.kernel (deployment.workload me)) →
      deployment.Stands store.world standing →
      deployment.RunsAlone me store outcome final →
      deployment.RunsInMemory me system.world answer last →
      deployment.Regular me standing store.world system.world outcome final →
      Together deployment start
        ⟨final, System.update store.programs me
          (some (System.ended outcome))⟩
        ⟨last, System.update system.programs me (some (System.ended answer))⟩

/-- What holds of the two backends after calls of one client at a time. -/
structure Host.Deployment.Linked (deployment : Host.Deployment)
    (start : Host.World) (store : Host.HostSystem)
    (system : Memory.MemorySystem) : Prop where
  reaches : deployment.Reaches start store
  reachesToo : deployment.clients.Reaches system
  mirrors : ∃ standing, deployment.Mirrors standing store.world system.world

/-- A call that waits on both backends is before its start. -/
theorem Host.Deployment.Linked.before
    (linked : deployment.Linked start store system)
    (comparable : deployment.Comparable)
    (fresh : Host.Fresh deployment start values)
    (running : system.programs me = some
      (Memory.callProgram deployment.kernel (deployment.workload me)))
    (stands : deployment.Stands store.world standing) :
    deployment.Before me standing store.world system := by
  obtain ⟨other, mirrors⟩ := linked.mirrors
  have same := mirrors.stands.unique stands
  subst same
  exact ⟨comparable, mirrors, comparable.assumed.inv linked.reachesToo,
    fresh.tidy linked.reaches, running⟩

/-- An empty store and a new backend hold the same: nothing. -/
theorem Host.Fresh.linked
    (fresh : Host.Fresh deployment start values) :
    deployment.Linked start (deployment.initial start)
      deployment.clients.initial := by
  have reaches : deployment.Reaches start (deployment.initial start) := .refl
  obtain ⟨standing, stands⟩ := fresh.stands reaches
  have absent : start.state = none := fresh.empty.noLeaf _
  have unfenced : standing.fence = none := by
    rcases stands.leased with ⟨_, unfenced⟩ | ⟨_, ⟨_, present, _⟩, _⟩
    · exact unfenced
    · have impossible := present.symm.trans absent
      cases impossible
  refine ⟨reaches, .refl, standing, stands, fresh.empty.free, ⟨rfl, rfl, rfl⟩,
    ?_, ?_, ?_⟩
  · rw [unfenced]
    rfl
  · obtain ⟨log, commits⟩ := stands.commits
    change Host.Committed _ _ start.state log standing.state at commits
    rw [absent] at commits
    generalize committed : standing.state = state at commits
    cases commits
    rfl
  · intro meaning
    constructor
    · rintro ⟨object, bytes, shelved, _⟩
      have impossible := shelved.here.symm.trans (fresh.empty.noLeaf _)
      cases impossible
    · intro member
      exact absurd member Std.ExtTreeMap.not_mem_empty

/-- Every regular call keeps the backends alike. -/
theorem Host.Deployment.Together.linked
    (together : deployment.Together start store system)
    (comparable : deployment.Comparable)
    (fresh : Host.Fresh deployment start values) :
    deployment.Linked start store system := by
  induction together with
  | start => exact fresh.linked
  | call _ waiting running stands run answers regular linked =>
      have before := linked.before comparable fresh running stands
      have ready : deployment.Ready start _ _ :=
        ⟨linked.reaches, regular.calm, waiting, before.mirrors.free⟩
      obtain ⟨_, agree⟩ := before.agrees ready fresh regular run
      obtain ⟨_, mirrors⟩ := agree _ _ answers
      exact ⟨linked.reaches.trans (System.Steps.of_runs waiting run),
        linked.reachesToo.trans (System.Steps.of_runs running answers), mirrors⟩

/-- The memory backend answers as the host journal does. -/
structure Host.Deployment.BackendsAgree (deployment : Host.Deployment)
    (start : Host.World) : Prop where
  /-- After regular calls the backends hold the same. -/
  mirrors : ∀ store system, deployment.Together start store system →
    ∃ standing, deployment.Mirrors standing store.world system.world
  /-- The next call has an end on the host. -/
  proceeds : ∀ store system me, deployment.Together start store system →
    store.programs me = some (deployment.program me) →
    ¬ deployment.port.faulty me →
    deployment.workload me ≠ .rebuildDatumIndex →
    ∃ outcome final, deployment.RunsAlone me store outcome final
  /-- A regular one has an end in memory, and every end there is alike. -/
  alike : ∀ store system me standing outcome final,
    deployment.Together start store system →
    store.programs me = some (deployment.program me) →
    system.programs me = some
      (Memory.callProgram deployment.kernel (deployment.workload me)) →
    deployment.Stands store.world standing →
    deployment.RunsAlone me store outcome final →
    deployment.Regular me standing store.world system.world outcome final →
    deployment.AgreesWith me system outcome final

/-- From an empty store and a new backend, regular calls are answered alike. -/
theorem backends_agree
    (comparable : deployment.Comparable)
    (empty : Host.Empty start) :
    deployment.BackendsAgree start := by
  have fresh : Host.Fresh deployment start
      deployment.clients.suppliedDatums :=
    ⟨⟨comparable.assumed.lawful, empty, comparable.assumed.free,
      fun object supplied => ⟨object, supplied, rfl⟩⟩, comparable.modern⟩
  refine ⟨fun store system together =>
    (together.linked comparable fresh).mirrors, ?_, ?_⟩
  · intro store system me together waiting calm operation
    have linked := together.linked comparable fresh
    obtain ⟨standing, mirrors⟩ := linked.mirrors
    have stands := mirrors.stands
    have ready : deployment.Ready start me store :=
      ⟨linked.reaches, calm, waiting, mirrors.free⟩
    exact ready.exists_run fresh operation stands
  · intro store system me standing outcome final together waiting running stands
      run regular
    have linked := together.linked comparable fresh
    have before := linked.before comparable fresh running stands
    exact before.agrees ⟨linked.reaches, regular.calm, waiting,
      before.mirrors.free⟩ fresh regular run

theorem Host.Deployment.serial_comparable :
    Host.Deployment.serial.Comparable where
  assumed := by
    refine ⟨Reference.kernel_lawful, ?_, fun object supplied => ?_⟩
    · rintro _ ⟨one, supplied, rfl⟩ _ ⟨other, otherSupplied, rfl⟩ _ _ _
      have first := Host.Deployment.serial_within one supplied
      have second := Host.Deployment.serial_within other otherSupplied
      rw [Set.mem_singleton_iff.mp first, Set.mem_singleton_iff.mp second]
      exact .refl _
    · have datum := Host.Deployment.serial_within object supplied
      rw [Set.mem_singleton_iff.mp datum]
      exact referenceObject_fits (by decide)
  modern := id
  guarded := rfl
  capable _ := rfl
  leased me publication working := by
    rcases me with _ | _ | _ | _ | _ | _ | me <;> cases working <;> decide

theorem serial_backends_agree :
    Host.Deployment.serial.BackendsAgree .vacant :=
  backends_agree Host.Deployment.serial_comparable Host.World.vacant_empty

end Runs

end SimStorage.Journal
