import SimStorage.Journal.Host.Undisturbed

namespace SimStorage.Journal.Host

/-!
# Publishing undisturbed

What a store stands for is the fence of its last lease and the state that it
commits.  An undisturbed publication returns exactly what these decide: nothing
that the verification accepts is refused later on.
-/

open Codec NativeCodec Interaction

variable {deployment : Deployment} {me : CallId} {values : Set Datum}
variable {start world middle after : World} {system later : HostSystem}
variable {backend : HostDirJournalBackend} {guarded : Bool}
variable {publication : Publication}

section Definitions

/-- The fence of the last lease, and the committed state. -/
structure Standing where
  fence : Option UInt64
  state : StoredState

/-- What a store that calls filled from nothing stands for. -/
structure Deployment.Stands (deployment : Deployment) (world : World)
    (standing : Standing) : Prop where
  leased : (world.state = none ∧ standing.fence = none) ∨
    ∃ envelope, Selects deployment.kernel world.state envelope ∧
      standing.fence = some envelope.fence
  commits : ∃ log,
    deployment.Commits world world.state log standing.state

/-- What a backend and its port allow, whatever the store holds. -/
def capable (port : Port) (backend : HostDirJournalBackend) (guarded : Bool) :
    Result Unit :=
  if guarded = true ∧ port.guarded = false then
    refuse (.writeRefused "guarded host admission unsupported")
  else if ¬ backend.capabilities.linearizableCas then
    refuse (.writeRefused "linearizable table/cas unavailable")
  else if ¬ backend.capabilities.durablePublish then
    refuse (.writeRefused "storage durability receipt unavailable")
  else
    .ok ()

/-- Every object of a publication has stored bytes. -/
def storeAll (kernel : Kernel) : List JournalObject → Result Unit
  | [] => .ok ()
  | object :: rest => do
      let _ ← object.storageBytes kernel
      storeAll kernel rest

/-- The answer to a batch whose expected head is not the current one. -/
def redeliver (state : StoredState) (entries : List JournalEntry) :
    Result GuardedAdmission :=
  if redelivered state entries then do
    let head ← okOr state.head .wrongHead
    return ⟨head, .alreadyCommittedActionNotInvoked⟩
  else
    refuse .wrongHead

/-- The answer to a batch that follows the current head. -/
def appended (kernel : Kernel) (publication : Publication) :
    Result GuardedAdmission := do
  storeAll kernel publication.objects
  let last ← okOr publication.entries.getLast? .emptyBatch
  return ⟨last.head, .committedActionInvoked⟩

/-- The answer to a batch that a capable coordinator admits. -/
def admitted (kernel : Kernel) (standing : Standing)
    (publication : Publication) : Result GuardedAdmission :=
  match standing.fence with
  | none => refuse (.writeRefused "acquire a v2 lease before append")
  | some fence =>
      if fence ≠ publication.lease.fence then
        refuse .staleLease
      else if standing.state.head ≠ publication.expected then
        redeliver standing.state publication.entries
      else
        appended kernel publication

/-- The answer to a publication in a store that stands for something. -/
def published (kernel : Kernel) (port : Port)
    (backend : HostDirJournalBackend) (guarded : Bool) (standing : Standing)
    (publication : Publication) : Result GuardedAdmission :=
  if publication.entries.isEmpty then
    refuse .emptyBatch
  else if backend.workBound < standing.state.entries.size then
    refuse .workBoundExceeded
  else do
    verifyBatch kernel standing.state publication.expected publication.objects
      publication.entries
    capable port backend guarded
    admitted kernel standing publication

/-- A supplied object passes its verification and has no stored bytes. -/
def Deployment.Unstorable (deployment : Deployment) (fault : Fault) : Prop :=
  ∃ object, deployment.Supplied object ∧
    object.verify deployment.kernel = .ok () ∧
    object.storageBytes deployment.kernel = .error fault

/-- The end of an undisturbed call that is refused. -/
def Deployment.Rests (deployment : Deployment) {α : Type} (verdict : Result α)
    (world : World) (fault : Fault) (final : World) : Prop :=
  world.Stays final ∧
    (verdict = .error fault ∧
        (world.Apart final ∨ deployment.Unstorable fault) ∨
      deployment.Excused fault final)

/-- The objects of a batch are stored, and no others. -/
def Deployment.Stores (deployment : Deployment) (objects : List JournalObject)
    (world final : World) : Prop :=
  ∀ meaning, deployment.Stocks final meaning ↔
    deployment.Stocks world meaning ∨
      ∃ object ∈ objects, object.id = meaning

/-- What an undisturbed admission leaves, by its disposition. -/
def Deployment.Admits (deployment : Deployment) (me : CallId) (guarded : Bool)
    (publication : Publication) (world : World) (result : GuardedAdmission)
    (final : World) : Prop :=
  match result.disposition with
  | .alreadyCommittedActionNotInvoked => world.Stays final ∧ world.Apart final
  | .committedActionInvoked => ∃ observed replacement middle,
      world.state = some observed ∧ world.Kept middle ∧
        middle.Landed me guarded (some observed) replacement final ∧
        deployment.Stores publication.objects world middle

end Definitions

section Reading

/-- An undisturbed reader of settled leaves ends as it is anchored. -/
theorem Resolves.of_anchored
    {α : Type} {program : HostProgram α} {outcome : Result α}
    (anchored : Anchored (deployment.Settled world) program outcome) :
    Resolves deployment world program outcome := by
  induction anchored with
  | ret value => exact .ret value
  | fail fault => exact .fail fault
  | read settled _ inductionHypothesis =>
      exact .read settled inductionHypothesis

theorem stateBytes_completes
    {failed : Fault → World → Prop}
    (calm : ¬ deployment.port.faulty me) :
    Completes (Exec deployment.port me) deployment.Tidy
      (fun observed final => final = world ∧ observed = world.state) failed
      stateBytes world := by
  constructor
  · cases here : world.state with
    | some bytes => exact ⟨_, _, .read here⟩
    | none => exact ⟨.error ⟨.notFound, "not found"⟩, _, .readMissing here rfl⟩
  · intro reply after executed _
    cases executed with
    | read here => exact ⟨rfl, here.symm⟩
    | readMissing missing kind =>
        simp only [kind, if_true]
        exact ⟨rfl, missing.symm⟩
    | readFailed faulty _ => exact absurd faulty calm

/-- An undisturbed read returns the committed state, within its work bound. -/
theorem readState_completes
    {log : List JournalEntry} {state : StoredState}
    (fresh : Fresh deployment start values)
    (calm : ¬ deployment.port.faulty me)
    (tidy : deployment.Tidy world)
    (commits : deployment.Commits world world.state log state) :
    Completes (Exec deployment.port me) deployment.Tidy
      (fun found final => final = world ∧ found = state ∧
        log.length ≤ backend.workBound)
      (fun fault final => final = world ∧
        fault = .refused .workBoundExceeded ∧
        backend.workBound < log.length)
      (readState deployment.kernel backend) world := by
  have rest : Completes (Exec deployment.port me) deployment.Tidy
      (fun found final => final = world ∧ found = state ∧
        log.length ≤ backend.workBound)
      (fun fault final => final = world ∧
        fault = .refused .workBoundExceeded ∧
        backend.workBound < log.length)
      (readStateFrom deployment.kernel backend world.state) world := by
    apply Completes.weaken ((Resolves.of_anchored
      (commits.anchored backend)).completes fresh.toShelving calm tidy)
    · rintro found final ⟨same, outcome⟩
      split at outcome
      · next bounded =>
          cases outcome
          exact ⟨same, rfl, bounded⟩
      · cases outcome
    · rintro fault final ⟨same, outcome⟩
      split at outcome
      · cases outcome
      · next exceeded =>
          cases outcome
          exact ⟨same, rfl, Nat.lt_of_not_le exceeded⟩
  apply (stateBytes_completes calm).bind
  rintro observed _ ⟨rfl, rfl⟩
  exact rest

/-- An undisturbed open is refused for its work bound only. -/
theorem openBackend_completes
    {log : List JournalEntry} {state : StoredState}
    (fresh : Fresh deployment start values)
    (calm : ¬ deployment.port.faulty me)
    (tidy : deployment.Tidy world)
    (commits : deployment.Commits world world.state log state) :
    Completes (Exec deployment.port me) deployment.Tidy
      (fun _ final => final = world ∧ backend.workBound ≠ 0 ∧
        log.length ≤ backend.workBound)
      (fun fault final => final = world ∧
        fault = .refused .workBoundExceeded ∧
        (backend.workBound = 0 ∨ backend.workBound < log.length))
      (openBackend deployment.kernel backend) world := by
  unfold openBackend
  by_cases zero : backend.workBound = 0
  · rw [if_pos zero]
    exact ⟨rfl, rfl, .inl zero⟩
  · rw [if_neg zero]
    apply Completes.bind (Completes.weaken
      (readState_completes fresh calm tidy commits) (fun _ _ => id) ?_)
    · rintro found final ⟨same, -, bounded⟩
      exact ⟨same, zero, bounded⟩
    · rintro fault final ⟨same, exceeds, beyond⟩
      exact ⟨same, exceeds, .inr beyond⟩

end Reading

section Admitting

/-- Objects are stored one after another, up to one that cannot be encoded. -/
theorem publishObjects_completes
    {references : References} {objects : List JournalObject}
    (fresh : Fresh deployment start values)
    (calm : ¬ deployment.port.faulty me)
    (tidy : deployment.Tidy world)
    (free : world.held = none)
    (supplied : ∀ object ∈ objects, deployment.Supplied object)
    (verified : ∀ object ∈ objects,
      object.verify deployment.kernel = .ok ()) :
    Completes (Exec deployment.port me) deployment.Tidy
      (fun _ final => storeAll deployment.kernel objects = .ok () ∧
        deployment.Tidy final ∧ world.Kept final ∧
        deployment.Stores objects world final)
      (fun fault final => world.Kept final ∧
        (storeAll deployment.kernel objects = .error fault ∧
            deployment.Unstorable fault ∨
          deployment.Excused fault final))
      (publishObjects deployment.kernel references objects) world := by
  induction objects generalizing references world with
  | nil =>
      refine ⟨rfl, tidy, .refl world, fun meaning => ?_⟩
      simp
  | cons object rest inductionHypothesis =>
      have here := verified object List.mem_cons_self
      have given := supplied object List.mem_cons_self
      cases put : object.storageBytes deployment.kernel with
      | error fault =>
          unfold publishObjects putObject
          rw [here, put]
          refine ⟨.refl world, .inl ⟨?_, object, given, here, put⟩⟩
          rw [storeAll, put]
          rfl
      | ok bytes =>
          have goesOn : storeAll deployment.kernel (object :: rest) =
              storeAll deployment.kernel rest := by
            rw [storeAll, put]
            rfl
          rw [goesOn]
          have first := putObject_undisturbed calm free given here put
          apply Completes.bind (Completes.weaken first (fun _ _ => id)
            fun _ _ failed => ⟨failed.1, .inr failed.2⟩)
          rintro reference middle ⟨tidy, kept, shelved, _, unchanged⟩
          have others := @inductionHypothesis middle
            (references.insert reference.meaning reference) tidy
            (kept.held.trans free)
            (fun member inside =>
              supplied member (List.mem_cons_of_mem _ inside))
            (fun member inside =>
              verified member (List.mem_cons_of_mem _ inside))
          apply Completes.weaken others
          · rintro _ final ⟨all, good, onward, stores⟩
            refine ⟨all, good, kept.trans onward, fun meaning => ?_⟩
            rw [stores, shelved.stocks fresh kept.toStays unchanged, or_assoc]
            simp only [List.mem_cons, exists_eq_or_imp]
          · rintro fault final ⟨onward, refused⟩
            exact ⟨kept.trans onward, refused⟩

/-- A fresh batch whose payloads are at hand is committed. -/
theorem commitFresh_completes
    {observed : Bytes} {envelope : NativeStateEnvelope}
    (fresh : Fresh deployment start values)
    (calm : ¬ deployment.port.faulty me)
    (tidy : deployment.Tidy world)
    (free : world.held = none)
    (current : world.state = some observed)
    (supported : guarded = true → deployment.port.guarded = true)
    (supplied : ∀ object ∈ publication.objects, deployment.Supplied object)
    (verified : ∀ object ∈ publication.objects,
      object.verify deployment.kernel = .ok ())
    (nonempty : publication.entries ≠ [])
    (available : ∀ entry ∈ publication.entries, ∀ meaning ∈ entry.payloads,
      deployment.Stocks world meaning ∨
        ∃ object ∈ publication.objects, object.id = meaning) :
    Completes (Exec deployment.port me) deployment.Tidy
      (fun result final =>
        appended deployment.kernel publication = .ok result ∧
          deployment.Admits me guarded publication world result final)
      (deployment.Rests (appended deployment.kernel publication) world)
      (commitFresh deployment.kernel guarded publication.admission observed
        envelope) world := by
  have rests {fault : Fault} {final : World} (kept : world.Kept final)
      (excused : deployment.Excused fault final) :
      deployment.Rests (appended deployment.kernel publication) world fault
        final :=
    ⟨kept.toStays, .inr excused⟩
  apply (tripAdmission_completes calm _).bind
  rintro _ started same
  rw [same]
  have objects := @publishObjects_completes _ me _ _ _ ∅ publication.objects
    fresh calm tidy free supplied verified
  apply Completes.bind (Completes.weaken objects (fun _ _ => id) ?_)
  · rintro references full ⟨all, tidy, kept, stores⟩
    have atHand : ∀ entry ∈ publication.entries, ∀ meaning ∈ entry.payloads,
        deployment.Stocks full meaning := by
      intro entry member meaning inside
      exact (stores meaning).mpr (available entry member meaning inside)
    apply (tripAdmission_completes calm _).bind
    rintro _ _ rfl
    have entries := @publishEntries_undisturbed _ me _ _ _ references
      envelope.entryNamespace envelope.headLocation publication.entries
      fresh calm tidy (kept.held.trans free) atHand
    apply Completes.bind (Completes.weaken entries (fun _ _ => id) ?_)
    · rintro location ready ⟨_, onward, apart⟩
      have since := kept.trans onward
      have storesReady : deployment.Stores publication.objects world ready :=
        fun meaning => apart.stocks.trans (stores meaning)
      apply (tripAdmission_completes calm _).bind
      rintro _ _ rfl
      have latest := List.getLast?_eq_some_getLast nonempty
      have result : appended deployment.kernel publication =
          .ok ⟨(publication.entries.getLast nonempty).head,
            .committedActionInvoked⟩ := by
        rw [appended, all, latest]
        rfl
      rw [Publication.admission, latest]
      apply (tripAdmission_completes calm _).bind
      rintro _ _ rfl
      apply Completes.weaken (commitHead_completes calm
        (since.held.trans free) (since.state.trans current) supported)
      · rintro _ final ⟨rfl, landed⟩
        exact ⟨result, observed, _, _, current, since, landed, storesReady⟩
      · exact fun _ _ => id
    · exact fun fault final failed => rests (kept.trans failed.1) failed.2
  · rintro fault final ⟨kept, refused⟩
    refine ⟨kept.toStays, refused.imp_left fun failed => ⟨?_, .inr failed.2⟩⟩
    rw [appended, failed.1]
    rfl

/-- A confirmed state leaf is what it was. -/
theorem World.stays_confirmed
    {observed : Bytes}
    (current : world.state = some observed) :
    world.Stays ((world.offer (some observed)).replace (some me) statePath
      (some observed) (some observed)) where
  leaves path bytes notState present := by
    rw [World.leaf_replace, if_neg notState]
    exact present
  state := by
    rw [World.state, World.leaf_replace, if_pos rfl]
    exact current.symm
  held := rfl

/-- A batch that is committed already is acknowledged, and no other. -/
theorem confirmRedelivery_completes
    {observed : Bytes} {envelope : NativeStateEnvelope}
    {log : List JournalEntry} {state : StoredState}
    (fresh : Fresh deployment start values)
    (calm : ¬ deployment.port.faulty me)
    (tidy : deployment.Tidy world)
    (free : world.held = none)
    (current : world.state = some observed)
    (holds : EnvelopeLog deployment.kernel (deployment.Settled world) envelope
      log state)
    (bounded : log.length ≤ backend.workBound) :
    Completes (Exec deployment.port me) deployment.Tidy
      (fun result final =>
        redeliver state publication.entries = .ok result ∧
          deployment.Admits me guarded publication world result final)
      (deployment.Rests (redeliver state publication.entries) world)
      (confirmRedelivery deployment.kernel backend publication.admission
        observed envelope) world := by
  have sameHead : state.head = envelope.head :=
    holds.holds.head.trans holds.head.symm
  have read := holds.anchored backend
  rw [if_pos bounded] at read
  apply Completes.bind (Completes.weaken ((Resolves.of_anchored read).completes
    fresh.toShelving calm tidy) (fun _ _ => id) ?_)
  · rintro found final ⟨unmoved, same⟩
    cases same
    rw [unmoved]
    by_cases again : redelivered state publication.entries = true
    · have answer : redeliver state publication.entries = (do
          let head ← okOr envelope.head .wrongHead
          return ⟨head, .alreadyCommittedActionNotInvoked⟩) := by
        rw [redeliver, if_pos again, sameHead]
      have freeState : world.Free statePath := by
        intro caller
        rw [free]
        simp
      rw [if_neg (by simp [Publication.admission, again]), answer]
      refine ⟨⟨_, _, .exchanged freeState current⟩,
        fun reply after executed _ => ?_⟩
      cases executed with
      | exchanged _ _ =>
          have stays := @World.stays_confirmed me world observed current
          have apart : world.Apart ((world.offer (some observed)).replace
              (some me) statePath (some observed) (some observed)) := by
            apply @World.Apart.of_others _ _ statePath (by decide)
            intro query other
            rw [World.leaf_replace, if_neg other]
            rfl
          cases head : envelope.head with
          | none => exact ⟨stays, .inl ⟨rfl, .inl apart⟩⟩
          | some found => exact ⟨rfl, stays, apart⟩
      | missed _ other => exact absurd current other
      | exchangeFailed faulty => exact absurd faulty calm
      | exchangeUnanswered faulty _ _ => exact absurd faulty calm
    · have answer : redeliver state publication.entries =
          .error (.refused .wrongHead) := by
        rw [redeliver, if_neg again]
        rfl
      rw [if_pos (by simpa [Publication.admission] using again)]
      exact ⟨(World.Kept.refl _).toStays, .inl ⟨answer, .inl (.refl _)⟩⟩
  · rintro fault final ⟨_, impossible⟩
    cases impossible

/-- What a store that stands for something has in its state leaf. -/
theorem Deployment.Stands.envelope
    {standing : Standing} {fence : UInt64}
    (stands : deployment.Stands world standing)
    (leased : standing.fence = some fence) :
    ∃ observed envelope log, world.state = some observed ∧
      Selects deployment.kernel (some observed) envelope ∧
      envelope.fence = fence ∧ envelope.head = standing.state.head ∧
      EnvelopeLog deployment.kernel (deployment.Settled world) envelope log
        standing.state := by
  obtain ⟨log, commits⟩ := stands.commits
  rcases stands.leased with ⟨_, missing⟩ | ⟨envelope, selects, same⟩
  · rw [leased] at missing
    cases missing
  · have holds := (committed_iff_envelopeLog selects).mp commits
    obtain ⟨observed, current, isV2, decoded⟩ := selects
    refine ⟨observed, envelope, log, current, ⟨observed, rfl, isV2, decoded⟩,
      ?_, holds.head.trans holds.holds.head.symm, holds⟩
    rw [leased] at same
    exact (Option.some.inj same).symm

theorem requireGuarded_completes :
    Completes (Exec deployment.port me) deployment.Tidy
      (fun _ final => final = world ∧
        (guarded = true → deployment.port.guarded = true))
      (fun fault final => final = world ∧
        capable deployment.port backend guarded = .error fault)
      (requireGuarded guarded) world := by
  unfold requireGuarded
  cases guarded with
  | false => exact ⟨rfl, fun impossible => absurd impossible (by decide)⟩
  | true =>
      refine ⟨⟨_, _, .supportsGuarded⟩, fun reply after executed _ => ?_⟩
      cases executed with
      | supportsGuarded =>
          cases supported : deployment.port.guarded with
          | true => exact ⟨rfl, fun _ => rfl⟩
          | false =>
              refine ⟨rfl, ?_⟩
              rw [capable, if_pos ⟨rfl, supported⟩]
              rfl

theorem writeCapable_completes
    (supported : guarded = true → deployment.port.guarded = true) :
    Completes (Exec deployment.port me) deployment.Tidy
      (fun _ final => final = world ∧
        capable deployment.port backend guarded = .ok ())
      (fun fault final => final = world ∧
        capable deployment.port backend guarded = .error fault)
      (writeCapable backend) world := by
  have guard : ¬ (guarded = true ∧ deployment.port.guarded = false) := by
    rintro ⟨isGuarded, missing⟩
    rw [supported isGuarded] at missing
    cases missing
  unfold writeCapable capable
  rw [if_neg guard]
  split
  · exact ⟨rfl, rfl⟩
  · split <;> exact ⟨rfl, rfl⟩

theorem World.Stays.stands
    {standing : Standing}
    (fresh : Fresh deployment start values)
    (stays : world.Stays after)
    (stands : deployment.Stands world standing) :
    deployment.Stands after standing := by
  obtain ⟨log, commits⟩ := stands.commits
  refine ⟨stays.state ▸ stands.leased, log, ?_⟩
  rw [stays.state]
  exact commits.mono fun _ _ settled => stays.settled fresh.modern settled

theorem World.Kept.admits
    {result : GuardedAdmission} {final : World}
    (kept : world.Kept middle)
    (apart : world.Apart middle)
    (admits :
      deployment.Admits me guarded publication middle result final) :
    deployment.Admits me guarded publication world result final := by
  unfold Deployment.Admits at admits ⊢
  cases disposition : result.disposition with
  | alreadyCommittedActionNotInvoked =>
      rw [disposition] at admits
      exact ⟨kept.toStays.trans admits.1, apart.trans admits.2⟩
  | committedActionInvoked =>
      rw [disposition] at admits
      obtain ⟨observed, replacement, ready, current, since, landed, stores⟩ :=
        admits
      refine ⟨observed, replacement, ready, kept.state.symm.trans current,
        kept.trans since, landed, fun meaning => ?_⟩
      rw [stores, apart.stocks]

theorem World.Kept.rests
    {α : Type} {verdict : Result α} {fault : Fault} {final : World}
    (kept : world.Kept middle)
    (apart : world.Apart middle)
    (rests : deployment.Rests verdict middle fault final) :
    deployment.Rests verdict world fault final :=
  ⟨kept.toStays.trans rests.1, rests.2.imp_left fun refused =>
    ⟨refused.1, refused.2.imp_left apart.trans⟩⟩

/-- A refusal that leaves the store as it is. -/
theorem Deployment.Rests.refused
    {α : Type} {verdict : Result α} {fault : Fault}
    (refused : verdict = .error fault) :
    deployment.Rests verdict world fault world :=
  ⟨(World.Kept.refl world).toStays, .inl ⟨refused, .inl (.refl world)⟩⟩

/-- An undisturbed admission below the checks on backend and port. -/
theorem admitLeased_completes
    {standing : Standing}
    (fresh : Fresh deployment start values)
    (calm : ¬ deployment.port.faulty me)
    (free : world.held = none)
    (stands : deployment.Stands world standing)
    (bounded : standing.state.entries.size ≤ backend.workBound)
    (supplied : ∀ object ∈ publication.objects, deployment.Supplied object)
    (nonempty : publication.entries ≠ [])
    (accepted : BatchAccepted deployment.kernel standing.state
      publication.expected publication.objects publication.entries)
    (supported : guarded = true → deployment.port.guarded = true) :
    Completes (Exec deployment.port me) deployment.Tidy
      (fun result final =>
        admitted deployment.kernel standing publication = .ok result ∧
          deployment.Admits me guarded publication world result final)
      (deployment.Rests (admitted deployment.kernel standing publication)
        world)
      (do
        ensureLayout
        let bytes ← stateBytes
        let observed ← pureResult
          (okOr bytes (.writeRefused "acquire a v2 lease before append"))
        admitObserved deployment.kernel backend guarded publication.admission
          observed) world := by
  apply Completes.bind (Completes.weaken (ensureLayout_undisturbed calm)
    (fun _ _ => id)
    fun fault final failed => ⟨failed.1.toStays, .inr failed.2⟩)
  rintro _ ready ⟨tidy, kept, unchanged⟩
  have apart : world.Apart ready := fun _ _ => unchanged _
  apply (stateBytes_completes calm).bind
  rintro bytes final ⟨same, rfl⟩
  rw [same]
  have standsReady := kept.toStays.stands fresh stands
  have freeReady := kept.held.trans free
  cases leased : standing.fence with
  | none =>
      have absent : ready.state = none := by
        rcases standsReady.leased with ⟨absent, _⟩ | ⟨envelope, _, here⟩
        · exact absent
        · rw [leased] at here
          cases here
      rw [absent]
      refine ⟨kept.toStays, .inl ⟨?_, .inl apart⟩⟩
      rw [admitted, leased]
      rfl
  | some fence =>
      obtain ⟨observed, envelope, log, current, selects, sameFence, head,
        holds⟩ := standsReady.envelope leased
      obtain ⟨_, sameBytes, isV2, decoded⟩ := selects
      cases sameBytes
      have verdict : admitted deployment.kernel standing publication =
          (if fence ≠ publication.lease.fence then
            refuse .staleLease
          else if standing.state.head ≠ publication.expected then
            redeliver standing.state publication.entries
          else
            appended deployment.kernel publication) := by
        rw [admitted, leased]
      rw [current, verdict]
      simp only [okOr, pureResult, Program.ofExcept_ok, Program.ret_bind,
        admitObserved, isV2, Bool.false_eq_true, if_false, decoded,
        Publication.admission, sameFence, head]
      by_cases stale : fence ≠ publication.lease.fence
      · rw [if_pos stale, if_pos stale]
        exact ⟨kept.toStays, .inl ⟨rfl, .inl apart⟩⟩
      rw [if_neg stale, if_neg stale]
      by_cases moved : standing.state.head ≠ publication.expected
      · rw [if_pos moved, if_pos moved]
        have listed : log.length ≤ backend.workBound := by
          rw [← indexed_size holds.follows, ← holds.holds.entries]
          exact bounded
        apply Completes.weaken (confirmRedelivery_completes fresh calm tidy
          freeReady current holds listed)
        · exact fun _ _ done => ⟨done.1, kept.admits apart done.2⟩
        · exact fun _ _ failed => kept.rests apart failed
      · rw [if_neg moved, if_neg moved]
        obtain ⟨_, checked⟩ := accepted.supplied
        have available : ∀ entry ∈ publication.entries,
            ∀ meaning ∈ entry.payloads, deployment.Stocks ready meaning ∨
              ∃ object ∈ publication.objects, object.id = meaning := by
          intro entry member meaning inside
          apply (accepted.available entry member meaning inside).imp_left
          intro old
          obtain ⟨bytes, found⟩ := Option.isSome_iff_exists.mp
            (Std.ExtTreeMap.isSome_getElem?_iff_mem.mpr old)
          obtain ⟨object, content, shelved, same, _⟩ :=
            tidy.stocks fresh.lawful holds found
          exact ⟨object, content, shelved, same⟩
        apply Completes.weaken (commitFresh_completes fresh calm tidy freeReady
          current supported supplied (availableObjects_verified checked)
          nonempty available)
        · exact fun _ _ done => ⟨done.1, kept.admits apart done.2⟩
        · exact fun _ _ failed => kept.rests apart failed

/-- An undisturbed admission ends as its verdict says. -/
theorem admitWithAction_completes
    {standing : Standing}
    (fresh : Fresh deployment start values)
    (calm : ¬ deployment.port.faulty me)
    (free : world.held = none)
    (stands : deployment.Stands world standing)
    (bounded : standing.state.entries.size ≤ backend.workBound)
    (supplied : ∀ object ∈ publication.objects, deployment.Supplied object)
    (nonempty : publication.entries ≠ [])
    (accepted : BatchAccepted deployment.kernel standing.state
      publication.expected publication.objects publication.entries) :
    Completes (Exec deployment.port me) deployment.Tidy
      (fun result final =>
        (do
          capable deployment.port backend guarded
          admitted deployment.kernel standing publication) = .ok result ∧
          deployment.Admits me guarded publication world result final)
      (deployment.Rests
        (do
          capable deployment.port backend guarded
          admitted deployment.kernel standing publication) world)
      (admitWithAction deployment.kernel backend guarded publication.admission)
      world := by
  apply Completes.bind (Completes.weaken
    (@requireGuarded_completes _ me _ backend guarded) (fun _ _ => id) ?_)
  · rintro _ final ⟨same, supported⟩
    rw [same]
    apply Completes.bind (Completes.weaken (writeCapable_completes supported)
      (fun _ _ => id) ?_)
    · rintro _ final ⟨same, able⟩
      rw [same, able]
      exact admitLeased_completes fresh calm free stands bounded supplied
        nonempty accepted supported
    · rintro fault final ⟨same, refused⟩
      rw [same, refused]
      exact .refused rfl
  · rintro fault final ⟨same, refused⟩
    rw [same, refused]
    exact .refused rfl

/-- The verification passes what is decided to be verified. -/
theorem verifiedAdmission_completes
    {standing : Standing}
    (fresh : Fresh deployment start values)
    (calm : ¬ deployment.port.faulty me)
    (tidy : deployment.Tidy world)
    (stands : deployment.Stands world standing) :
    Completes (Exec deployment.port me) deployment.Tidy
      (fun admission final => final = world ∧
        admission = publication.admission ∧ publication.entries ≠ [] ∧
        standing.state.entries.size ≤ backend.workBound ∧
        BatchAccepted deployment.kernel standing.state publication.expected
          publication.objects publication.entries ∧
        published deployment.kernel deployment.port backend guarded standing
          publication = (do
            capable deployment.port backend guarded
            admitted deployment.kernel standing publication))
      (fun fault final => final = world ∧
        published deployment.kernel deployment.port backend guarded standing
          publication = .error fault)
      (verifiedAdmission deployment.kernel
        (readState deployment.kernel backend) publication) world := by
  obtain ⟨log, commits⟩ := stands.commits
  have counted : log.length = standing.state.entries.size := by
    rw [commits.holds.entries, indexed_size commits.holds.follows]
  unfold verifiedAdmission published
  split
  · exact ⟨rfl, rfl⟩
  next nonempty =>
    apply Completes.bind (Completes.weaken
      (@readState_completes _ me _ _ _ backend _ _ fresh calm tidy commits)
      (fun _ _ => id) ?_)
    · rintro state final ⟨same, rfl, bounded⟩
      rw [same, if_neg (by omega)]
      obtain ⟨verified, accepted, _⟩ := commits.holds.verifyState
      rw [accepted]
      cases checked : verifyBatch deployment.kernel standing.state
          publication.expected publication.objects publication.entries with
      | error fault => exact ⟨rfl, rfl⟩
      | ok done =>
          cases done
          exact ⟨rfl, rfl, fun none => nonempty (List.isEmpty_iff.mpr none),
            by omega, verifyBatch_eq_ok.mp checked, rfl⟩
    · rintro fault final ⟨same, rfl, exceeded⟩
      rw [if_pos (by omega)]
      exact ⟨same, rfl⟩

/-- An undisturbed publication ends as it is decided. -/
theorem published_completes
    {standing : Standing}
    (fresh : Fresh deployment start values)
    (calm : ¬ deployment.port.faulty me)
    (tidy : deployment.Tidy world)
    (free : world.held = none)
    (stands : deployment.Stands world standing)
    (supplied : ∀ object ∈ publication.objects, deployment.Supplied object) :
    Completes (Exec deployment.port me) deployment.Tidy
      (fun result final =>
        published deployment.kernel deployment.port backend guarded standing
          publication = .ok result ∧
          deployment.Admits me guarded publication world result final)
      (deployment.Rests
        (published deployment.kernel deployment.port backend guarded standing
          publication) world)
      (do
        let admission ← verifiedAdmission deployment.kernel
          (readState deployment.kernel backend) publication
        admitWithAction deployment.kernel backend guarded admission) world := by
  apply Completes.bind (Completes.weaken
    (@verifiedAdmission_completes _ me _ _ _ backend guarded publication _
      fresh calm tidy stands) (fun _ _ => id) ?_)
  · rintro admission final ⟨same, rfl, nonempty, bounded, accepted, verdict⟩
    rw [same, verdict]
    exact admitWithAction_completes fresh calm free stands bounded supplied
      nonempty accepted
  · rintro fault final ⟨same, refused⟩
    rw [same, refused]
    exact .refused rfl

end Admitting

section Appending

/-- Without a v1 writer, the state leaf is absent or selects an envelope. -/
theorem Recorded.selects
    {grounded : Prop} {history : List Event} {leaf : Option Bytes}
    (recorded : Recorded deployment grounded world none history leaf)
    (modern : ¬ deployment.port.legacy) :
    leaf = none ∨ ∃ envelope, Selects deployment.kernel leaf envelope := by
  cases recorded with
  | start => exact .inl rfl
  | exchanged _ exchange =>
      cases exchange with
      | leased _ leases =>
          obtain ⟨_, envelope, _, selects, _⟩ := leases.fences
          exact .inr ⟨envelope, selects⟩
      | appended _ appends =>
          obtain ⟨_, envelope, _, selects, _⟩ := appends.envelopes
          exact .inr ⟨envelope, selects⟩
      | confirmed _ confirms =>
          obtain ⟨envelope, selects, _⟩ := confirms.envelopes
          exact .inr ⟨envelope, selects⟩
      | legacy legacy _ _ => exact absurd legacy modern
  | acted _ _ appends =>
      obtain ⟨_, envelope, _, selects, _⟩ := appends.envelopes
      exact .inr ⟨envelope, selects⟩

/-- Every store that calls reach from nothing stands for something. -/
theorem Fresh.stands
    (fresh : Fresh deployment start values)
    (reaches : deployment.Reaches start system) :
    ∃ standing, deployment.Stands system.world standing := by
  obtain ⟨log, state, commits⟩ := fresh.readable.commits reaches
  have recorded := (fresh.readable.sound.inv reaches).recorded
  have absent : start.state = none := fresh.empty.noLeaf statePath
  rw [absent] at recorded
  rcases recorded.selects fresh.modern with none | ⟨envelope, selects⟩
  · exact ⟨⟨.none, state⟩, .inl ⟨none, rfl⟩, log, commits⟩
  · exact ⟨⟨some envelope.fence, state⟩, .inr ⟨envelope, selects, rfl⟩, log,
      commits⟩

/-- What a store's state has available is stored, with its bytes. -/
theorem Deployment.Stands.available
    {standing : Standing} {meaning : ContentId} {bytes : Bytes}
    (stands : deployment.Stands world standing)
    (tidy : deployment.Tidy world)
    (lawful : deployment.kernel.Lawful)
    (available : standing.state.objects[meaning]? = some bytes) :
    ∃ object content, deployment.Shelved world object content ∧
      object.id = meaning ∧ object.bytes = bytes := by
  cases leased : standing.fence with
  | some fence =>
      obtain ⟨_, _, _, _, _, _, _, holds⟩ := stands.envelope leased
      exact tidy.stocks lawful holds available
  | none =>
      obtain ⟨log, commits⟩ := stands.commits
      have absent : world.state = none := by
        rcases stands.leased with ⟨absent, _⟩ | ⟨envelope, _, here⟩
        · exact absent
        · rw [leased] at here
          cases here
      rw [absent] at commits
      have nothing : StoredState.empty.objects[meaning]? = none :=
        Std.ExtTreeMap.getElem?_empty
      generalize standing.state = state at available commits
      cases commits with
      | absent =>
          rw [nothing] at available
          cases available

theorem Deployment.Stands.fence_of_selects
    {standing : Standing} {envelope : NativeStateEnvelope}
    (stands : deployment.Stands world standing)
    (selects : Selects deployment.kernel world.state envelope) :
    standing.fence = some envelope.fence := by
  rcases stands.leased with ⟨absent, _⟩ | ⟨other, otherSelects, same⟩
  · obtain ⟨_, present, _⟩ := selects
    rw [absent] at present
    cases present
  · rw [same, otherSelects.unique selects]

/-- A landed batch is appended to what the store stands for. -/
theorem Fresh.landed
    {standing : Standing} {observed replacement : Bytes} {other : World}
    (fresh : Fresh deployment start values)
    (reaches : deployment.Reaches start system)
    (steps : deployment.Steps system later)
    (working : (deployment.workload me).publication = some publication)
    (stands : deployment.Stands system.world standing)
    (expected : standing.state.head = publication.expected)
    (current : system.world.state = some observed)
    (landed :
      other.Landed me guarded (some observed) replacement later.world) :
    ∃ after, deployment.Stands later.world ⟨standing.fence, after⟩ ∧
      after.entries.list =
        standing.state.entries.list ++ publication.entries := by
  obtain ⟨log, commits⟩ := stands.commits
  have kept := fresh.readable.sound.moves reaches steps
  have still : deployment.Commits later.world (some observed) log
      standing.state := by
    rw [current] at commits
    exact commits.mono fun _ _ settled => settled_of_moves kept settled
  have member : Event.exchanged (some me) (some observed) (some replacement) ∈
      later.world.history := by
    rw [landed.history]
    exact List.mem_append_right _ List.mem_cons_self
  obtain ⟨_, _, exchange, _⟩ :=
    fresh.readable.exchange_of_own (reaches.trans steps) member
  generalize new : some replacement = leaf at exchange
  cases exchange with
  | leased leasing _ =>
      rw [leasing] at working
      cases working
  | appended here appends =>
      rw [working] at here
      cases here
      obtain ⟨found, state, last, before, after⟩ := appends.logs trivial
      obtain ⟨rfl, rfl⟩ := still.unique before
      obtain ⟨selected, envelope, selects, selectsNew, sameOld, sameNew, _⟩ :=
        appends.envelopes
      subst new
      refine ⟨last, ⟨.inr ⟨envelope, ?_, ?_⟩, log ++ publication.entries, ?_⟩, ?_⟩
      · rw [landed.state]
        exact selectsNew
      · rw [stands.fence_of_selects (current ▸ selects), sameOld, sameNew]
      · rw [landed.state]
        exact after
      · rw [after.holds.listed, commits.holds.listed]
  | confirmed here confirms =>
      rw [working] at here
      cases here
      obtain ⟨found, state, before, inside⟩ := confirms.logs trivial
      obtain ⟨rfl, rfl⟩ := still.unique before
      -- A batch after the head is no part of the log.
      have follows : Follows deployment.kernel none
          (log ++ publication.entries) := by
        refine Follows.append_iff.mpr ⟨commits.holds.follows, ?_⟩
        rw [← commits.holds.head, expected]
        exact confirms.follows
      have distinct := follows.sequences_nodup
      rw [List.map_append, List.nodup_append] at distinct
      obtain ⟨entry, listed⟩ :=
        List.exists_mem_of_ne_nil _ confirms.nonempty
      exact absurd rfl (distinct.2.2 _
        (List.mem_map_of_mem (inside entry listed)) _
        (List.mem_map_of_mem listed))

end Appending

section Publishing

/-- What a publication returns for an admission. -/
def answer (guarded : Bool) (result : GuardedAdmission) : Outcome :=
  if guarded then .guarded result else .head result.head

/-- What a store stands for after an admission. -/
def Standing.After (standing : Standing) (publication : Publication)
    (result : GuardedAdmission) (next : Standing) : Prop :=
  match result.disposition with
  | .alreadyCommittedActionNotInvoked => next = standing
  | .committedActionInvoked => next.fence = standing.fence ∧
      next.state.entries.list =
        standing.state.entries.list ++ publication.entries

/-- Only a batch that follows the current head is committed. -/
theorem published_follows
    {kernel : Kernel} {port : Port} {standing : Standing}
    {result : GuardedAdmission}
    (decided : published kernel port backend guarded standing publication =
      .ok result)
    (committed : result.disposition = .committedActionInvoked) :
    standing.state.head = publication.expected := by
  unfold published at decided
  split at decided
  · cases decided
  split at decided
  · cases decided
  obtain ⟨_, _, decided⟩ := bind_eq_ok.mp decided
  obtain ⟨_, _, decided⟩ := bind_eq_ok.mp decided
  unfold admitted at decided
  split at decided
  · cases decided
  split at decided
  · cases decided
  split at decided
  · unfold redeliver at decided
    split at decided
    · obtain ⟨_, _, decided⟩ := bind_eq_ok.mp decided
      cases decided
      cases committed
    · cases decided
  next same => exact Decidable.not_not.mp same

/-- The program of a publication verifies, admits and answers. -/
theorem program_of_publication
    (working : deployment.workload me =
      if guarded then .publishThen publication else .publish publication) :
    deployment.program me =
      (do
        let admission ← verifiedAdmission deployment.kernel
          (readState deployment.kernel (deployment.backends me)) publication
        admitWithAction deployment.kernel (deployment.backends me) guarded
          admission) >>= fun result => .ret (answer guarded result) := by
  unfold Deployment.program
  cases guarded with
  | true =>
      rw [working]
      rfl
  | false =>
      rw [working]
      change (verifiedAdmission deployment.kernel _ publication >>=
        fun admission => admitWithAction deployment.kernel _ false admission >>=
          fun result => .ret result.head) >>= _ = _
      rw [Program.bind_assoc, Program.bind_assoc]
      simp only [Program.bind_assoc, Program.ret_bind]
      rfl

/-- A call without port failures that has not begun, and no held guard. -/
structure Deployment.Ready (deployment : Deployment) (start : World)
    (me : CallId) (system : HostSystem) : Prop where
  reaches : deployment.Reaches start system
  calm : ¬ deployment.port.faulty me
  waiting : system.programs me = some (deployment.program me)
  free : system.world.held = none

/-- An undisturbed run of a call, from its start to its end. -/
def Deployment.RunsAlone (deployment : Deployment) (me : CallId)
    (system : HostSystem) (outcome : Result Outcome) (final : World) : Prop :=
  Runs (Exec deployment.port me) (deployment.program me) system.world outcome
    final

/-- The objects that an admission stores. -/
def storedBy (result : GuardedAdmission)
    (publication : Publication) : List JournalObject :=
  match result.disposition with
  | .alreadyCommittedActionNotInvoked => []
  | .committedActionInvoked => publication.objects

/-- How an undisturbed publication ends, by what its store stands for. -/
inductive Deployment.Concludes (deployment : Deployment) (me : CallId)
    (guarded : Bool) (standing : Standing) (publication : Publication)
    (world : World) : Result Outcome → World → Prop where
  /-- It is admitted: exactly a committed batch is appended and stored. -/
  | admitted {result : GuardedAdmission} {next : Standing} {final : World} :
      published deployment.kernel deployment.port (deployment.backends me)
        guarded standing publication = .ok result →
      standing.After publication result next →
      deployment.Stands final next →
      deployment.Stores (storedBy result publication) world final →
      Concludes deployment me guarded standing publication world
        (.ok (answer guarded result)) final
  /-- It is refused, and nothing is stored if everything can be stored. -/
  | refused {fault : Fault} {final : World} :
      published deployment.kernel deployment.port (deployment.backends me)
        guarded standing publication = .error fault →
      deployment.Stands final standing →
      deployment.Stores [] world final ∨ deployment.Unstorable fault →
      Concludes deployment me guarded standing publication world
        (.error fault) final
  /-- It is excused, and the state stays as it is. -/
  | excused {fault : Fault} {final : World} :
      deployment.Excused fault final →
      deployment.Stands final standing →
      Concludes deployment me guarded standing publication world
        (.error fault) final

/-- Undisturbed publications do what the state and the fence decide. -/
structure Deployment.PublishesAlone (deployment : Deployment) (start : World) :
    Prop where
  /-- What a store stands for is defined wherever calls lead. -/
  stands : ∀ system, deployment.Reaches start system →
    ∃ standing, deployment.Stands system.world standing
  /-- An undisturbed publication has an end. -/
  runs : ∀ system me publication (guarded : Bool),
    deployment.Ready start me system →
    deployment.workload me =
      (if guarded then .publishThen publication else .publish publication) →
    ∃ outcome final, deployment.RunsAlone me system outcome final
  /-- Every end is as it is decided, and the guard is released. -/
  ends : ∀ system me publication (guarded : Bool) standing outcome final,
    deployment.Ready start me system →
    deployment.workload me =
      (if guarded then .publishThen publication else .publish publication) →
    deployment.Stands system.world standing →
    deployment.RunsAlone me system outcome final →
    final.held = none ∧
      deployment.Concludes me guarded standing publication system.world
        outcome final

variable {standing : Standing}

theorem Deployment.Ready.kept
    (ready : deployment.Ready start me system)
    (fresh : Fresh deployment start values) :
    ∀ later, System.Steps deployment.service deployment.resume system later →
      deployment.Tidy later.world :=
  fun _ steps => fresh.tidy (ready.reaches.trans steps)

/-- The whole of an undisturbed publication. -/
theorem Deployment.Ready.publishes
    (ready : deployment.Ready start me system)
    (fresh : Fresh deployment start values)
    (working : deployment.workload me =
      if guarded then .publishThen publication else .publish publication)
    (stands : deployment.Stands system.world standing) :
    Completes (Exec deployment.port me) deployment.Tidy
      (fun outcome final => ∃ result,
        published deployment.kernel deployment.port (deployment.backends me)
          guarded standing publication = .ok result ∧
        deployment.Admits me guarded publication system.world result final ∧
        outcome = answer guarded result)
      (deployment.Rests
        (published deployment.kernel deployment.port (deployment.backends me)
          guarded standing publication) system.world)
      (deployment.program me) system.world := by
  have supplied : ∀ object ∈ publication.objects,
      deployment.Supplied object := by
    intro object inside
    refine ⟨me, ?_⟩
    rw [working]
    cases guarded <;> exact inside
  rw [program_of_publication working]
  apply (published_completes fresh ready.calm (fresh.tidy ready.reaches)
    ready.free stands supplied).bind
  rintro result final ⟨decided, admits⟩
  exact ⟨result, decided, admits, rfl⟩

/-- What is apart from the objects stores none. -/
theorem World.Apart.stores
    (apart : world.Apart after) :
    deployment.Stores [] world after := by
  intro meaning
  rw [apart.stocks]
  simp

/-- Only the state leaf changes when the exchange lands. -/
theorem World.Landed.apart
    {observed : Option Bytes} {replacement : Bytes}
    (landed : world.Landed me guarded observed replacement after) :
    world.Apart after :=
  .of_others (by decide) landed.leaves

/-- Every end of an undisturbed publication is as it is decided. -/
theorem Deployment.Ready.concludes
    {outcome : Result Outcome} {final : World}
    (ready : deployment.Ready start me system)
    (fresh : Fresh deployment start values)
    (working : deployment.workload me =
      if guarded then .publishThen publication else .publish publication)
    (stands : deployment.Stands system.world standing)
    (run : deployment.RunsAlone me system outcome final) :
    final.held = none ∧
      deployment.Concludes me guarded standing publication system.world
        outcome final := by
  have ended := Completes.ends ready.waiting (ready.kept fresh)
    (ready.publishes fresh working stands) run
  have steps : deployment.Steps system ⟨final, System.update system.programs
      me (some (System.ended outcome))⟩ :=
    System.Steps.of_runs ready.waiting run
  cases outcome with
  | error fault =>
      obtain ⟨stays, refused⟩ := ended
      refine ⟨stays.held.trans ready.free, ?_⟩
      have still := stays.stands fresh stands
      rcases refused with ⟨decided, spared⟩ | excused
      · exact .refused decided still (spared.imp_left World.Apart.stores)
      · exact .excused excused still
  | ok outcome =>
      obtain ⟨result, decided, admits, rfl⟩ := ended
      have publishing :
          (deployment.workload me).publication = some publication := by
        rw [working]
        cases guarded <;> rfl
      unfold Deployment.Admits at admits
      cases disposition : result.disposition with
      | alreadyCommittedActionNotInvoked =>
          rw [disposition] at admits
          refine ⟨admits.1.held.trans ready.free, .admitted decided ?_
            (admits.1.stands fresh stands) ?_⟩
          · rw [Standing.After, disposition]
          · rw [storedBy, disposition]
            exact admits.2.stores
      | committedActionInvoked =>
          rw [disposition] at admits
          obtain ⟨observed, replacement, middle, current, _, landed, stores⟩ :=
            admits
          obtain ⟨after, standsLater, listed⟩ := fresh.landed ready.reaches
            steps publishing stands (published_follows decided disposition)
            current landed
          refine ⟨landed.held, .admitted decided ?_ standsLater ?_⟩
          · rw [Standing.After, disposition]
            exact ⟨rfl, listed⟩
          · rw [storedBy, disposition]
            exact fun meaning => landed.apart.stocks.trans (stores meaning)

/-- From an empty store, undisturbed publications do what is decided. -/
theorem undisturbed_publications_exact
    (lawful : deployment.kernel.Lawful)
    (modern : ¬ deployment.port.legacy)
    (free : deployment.kernel.CollisionFree values)
    (within : ∀ object, deployment.Supplied object → object.datum ∈ values)
    (empty : Empty start) :
    deployment.PublishesAlone start := by
  have fresh : Fresh deployment start values :=
    ⟨⟨lawful, empty, free, within⟩, modern⟩
  refine ⟨fun system => fresh.stands, ?_, ?_⟩
  · intro system me publication guarded ready working
    obtain ⟨standing, stands⟩ := fresh.stands ready.reaches
    exact Completes.exists_run ready.waiting (ready.kept fresh)
      (ready.publishes fresh working stands)
  · intro system me publication guarded standing outcome final ready working
      stands run
    exact ready.concludes fresh working stands run

/-- Calls of every kind on a port that does not fail. -/
def Deployment.serial : Deployment where
  kernel := Reference.kernel
  port := ⟨true, fun _ => False, False⟩
  backends _ := ⟨⟨true, true⟩, 64⟩
  workload
    | 0 => .acquireLease
    | 1 => .publish referencePublication
    | 2 => .publishThen referencePublication
    | 3 => .putDatum (referenceObject [1, 2, 3])
    | 4 => .getDatum (referenceObject [1, 2, 3]).id
    | 5 => .verifiedSnapshot
    | _ => .readState

/-- The datums that the calls supply. -/
def serialValues : Set Datum :=
  {(referenceObject [1, 2, 3]).datum}

theorem serialValues_free :
    Reference.kernel.CollisionFree serialValues := by
  rintro _ rfl _ rfl _ _ _
  exact .refl _

theorem Deployment.serial_within
    (object : JournalObject)
    (supplied : Deployment.serial.Supplied object) :
    object.datum ∈ serialValues := by
  obtain ⟨me, inside⟩ := supplied
  match me with
  | 0 => cases inside
  | 1 => rw [List.mem_singleton.mp inside]; rfl
  | 2 => rw [List.mem_singleton.mp inside]; rfl
  | 3 => rw [List.mem_singleton.mp inside]; rfl
  | 4 => cases inside
  | 5 => cases inside
  | _ + 6 => cases inside

theorem serial_publishes_alone :
    Deployment.serial.PublishesAlone .vacant :=
  undisturbed_publications_exact Reference.kernel_lawful id serialValues_free
    Deployment.serial_within World.vacant_empty

end Publishing

end SimStorage.Journal.Host
