import SimStorage.Journal.Host.Publishing

namespace SimStorage.Journal.Host

/-!
# Admitting a batch

The two arms of an admission: the append of a fresh batch, with the commit
action in the continuation of a guarded exchange, and the confirmation of a
batch that is committed already.  A call whose admission returns has exactly the
events that its result names.
-/

open Codec NativeCodec Interaction

variable {deployment : Deployment} {grounded : Prop} {me : CallId}
variable {first : Option Bytes} {world after : World}

section Envelopes

/-- The read behind an observed v2 leaf returns what the leaf commits. -/
theorem readV2_does
    {backend : HostDirJournalBackend} {observed : Bytes}
    {envelope : NativeStateEnvelope}
    (inv : Inv deployment grounded first world)
    (ever : world.Ever observed)
    (selects : Selects deployment.kernel (some observed) envelope) :
    Does deployment grounded me (readV2 deployment.kernel backend envelope)
      world (fun state final => grounded → ∃ log,
        deployment.Commits final (some observed) log state) := by
  by_cases isGrounded : grounded
  · obtain ⟨_, same, isV2, _⟩ := id selects
    cases same
    obtain ⟨log, state, commits⟩ := inv.commits_of_ever isGrounded ever isV2
    have holds := (committed_iff_envelopeLog selects).mp commits
    apply (Does.anchored (readV2_readsOnly _ _)
      (holds.anchored backend)).weaken
    intro found final later outcome _
    split at outcome
    · cases outcome
      exact ⟨log, later.commits commits⟩
    · cases outcome
  · apply (Does.reader (readV2_readsOnly _ _)).weaken
    intro _ _ _ _ absurdly
    exact absurd absurdly isGrounded

end Envelopes

section Appending

/-- The envelope after an append of the batch that ends in a given entry. -/
def appendedEnvelope (envelope : NativeStateEnvelope) (last : JournalEntry)
    (location : Option EntryLocation) : NativeStateEnvelope :=
  { envelope with head := some last.head, headLocation := location }

/-- A chain for the batch makes the new envelope commit the longer log. -/
theorem EnvelopeLog.append
    {kernel : Kernel} {known : Path → Bytes → Prop}
    {envelope : NativeStateEnvelope} {log batch : List JournalEntry}
    {state : StoredState} {last : JournalEntry}
    {location : Option EntryLocation} {links : List Link}
    (holds : EnvelopeLog kernel known envelope log state)
    (follows : Follows kernel envelope.head batch)
    (latest : batch.getLast? = some last)
    (chain : Chain kernel known envelope.entryNamespace envelope.headLocation
      location links)
    (entries : chainEntries links = batch) :
    ∃ later, EnvelopeLog kernel known (appendedEnvelope envelope last location)
      (log ++ batch) later := by
  obtain ⟨base, baseLog, older, based, back, logged, _⟩ := holds.chained
  refine ⟨chainState base (links ++ older) (log ++ batch) (some last.head),
    holds.format, holds.marker,
    ⟨base, baseLog, links ++ older, based, chain.append back, ?_, rfl⟩, ?_, ?_⟩
  · rw [chainEntries_append, entries, logged, List.append_assoc]
  · apply Follows.append_iff.mpr
    refine ⟨holds.follows, ?_⟩
    rw [← holds.head]
    exact follows
  · change some last.head = _
    rw [headAfter_append]
    simp [headAfter, latest]

theorem wellFormed_appended
    {kernel : Kernel} {envelope : NativeStateEnvelope} {last : JournalEntry}
    {location : Option EntryLocation}
    (wellFormed : WellFormed kernel envelope)
    (genuine : Spelled kernel last.id)
    (spelled : ∀ found ∈ location, LocationSpelled kernel found)
    (located : location.isSome) :
    WellFormed kernel (appendedEnvelope envelope last location) := by
  refine ⟨⟨wellFormed.format, wellFormed.short, wellFormed.prefixRef, ?_,
    spelled⟩, ?_⟩
  · intro head here
    cases here
    exact genuine
  · unfold checkLocator
    rw [if_neg]
    rintro ⟨_, _, missing⟩
    change location.isNone at missing
    cases location with
    | none => cases located
    | some found => cases missing

end Appending

section Holding

/-- The call holds the guard directly after its append. -/
def Holding (deployment : Deployment) (grounded : Prop) (me : CallId)
    (world : World) : Prop :=
  world.held = some (statePath, me) ∧
    deployment.JustAppended grounded world me

theorem Later.appends
    {publication : Publication} {old new : Option Bytes}
    (later : Later deployment grounded me world after)
    (appends : deployment.Appends grounded world publication old new) :
    deployment.Appends grounded after publication old new :=
  later.preserves (fun effect held => effect.appends held) appends

/-- While a call holds the guard, the others leave no event. -/
theorem held_of_foreign
    (foreign : (deployment.protocol grounded).Foreign me world after)
    (held : world.held = some (statePath, me)) :
    after.held = some (statePath, me) ∧ after.history = world.history := by
  have notFree : ¬ world.Free statePath := fun free => free me held
  rcases foreign with
    ⟨different, permitted, executed⟩ | ⟨different, crashed⟩ | ⟨moved⟩
  · cases executed with
    | @exchanged _ path _ _ free _ =>
        have notState : path ≠ statePath := fun same => notFree (same ▸ free)
        exact ⟨held, by simp [World.replace, World.offer, notState]⟩
    | @exchangeUnanswered _ path _ _ _ _ free _ =>
        have notState : path ≠ statePath := fun same => notFree (same ▸ free)
        exact ⟨held, by simp [World.replace, World.offer, notState]⟩
    | committed _ unheld _ _ =>
        rw [unheld] at held
        cases held
    | released other =>
        rw [other] at held
        cases held
        exact absurd rfl different
    | releaseFailed _ other =>
        rw [other] at held
        cases held
        exact absurd rfl different
    | afterCommit =>
        have other := permitted.1
        rw [other] at held
        cases held
        exact absurd rfl different
    | _ => exact ⟨held, rfl⟩
  · cases crashed with
    | holding other =>
        rw [other] at held
        cases held
        exact absurd rfl different
    | idle _ => exact ⟨held, rfl⟩
  · cases moved with
    | leaf _ notState _ _ =>
        exact ⟨held, by simp [World.replace, notState]⟩
    | directory _ _ => exact ⟨held, rfl⟩
    | state _ free _ _ _ => exact absurd free notFree

theorem Holding.drifted
    (holding : Holding deployment grounded me world)
    (drift : (deployment.setting grounded me).drift world after) :
    Holding deployment grounded me after := by
  induction drift with
  | refl => exact holding
  | tail _ last inductionHypothesis =>
      obtain ⟨held, publication, old, new, rest, working, appends, latest⟩ :=
        inductionHypothesis
      obtain ⟨stillHeld, history⟩ := held_of_foreign last held
      obtain ⟨_, _, effect⟩ := effect_of_foreign last
      exact ⟨stillHeld, publication, old, new, rest, working,
        effect.appends appends, by rw [history, latest]⟩

/-- What the continuation has done when it was called. -/
def Acknowledged (me : CallId) (event : Event) (state : Continuation)
    (world : World) : Prop :=
  if state.called then
    match state.postCommitError with
    | some _ => world.own me = [event]
    | none => world.own me = [.acted me, event]
  else
    world.own me = [event]

theorem Acknowledged.moved
    {event : Event} {state : Continuation}
    (acknowledged : Acknowledged me event state world)
    (own : after.own me = world.own me) :
    Acknowledged me event state after := by
  unfold Acknowledged at *
  rw [own]
  exact acknowledged

/-- A continuation that was called does nothing more. -/
theorem invokeTimes_called
    (times : Nat)
    {state : Continuation}
    (called : state.called = true) :
    Continuation.invokeTimes times state = .ret state := by
  induction times with
  | zero => rfl
  | succ times inductionHypothesis =>
      unfold Continuation.invokeTimes Continuation.invoke
      rw [if_pos called]
      exact inductionHypothesis

/-- The first invocation checks its failpoint and runs the action. -/
theorem invoke_safe
    {event : Event}
    (holding : Holding deployment grounded me world)
    (own : world.own me = [event]) :
    Safe (deployment.setting grounded me)
      (fun state final => state.called = true ∧
        Acknowledged me event state final)
      (fun _ _ => True)
      (Continuation.invoke ⟨false, none⟩) world := by
  have errors {start : World} (error : JournalError)
      (mine : start.own me = [event]) :
      Safe (deployment.setting grounded me)
        (fun state final => state.called = true ∧
          Acknowledged me event state final)
        (fun _ _ => True)
        (.ret ⟨true, some error⟩ : HostProgram Continuation) start := by
    apply Safe.ret
    intro final drift
    refine ⟨rfl, ?_⟩
    change final.own me = [event]
    rw [(Later.of_drift drift).own, mine]
  apply Safe.call
  intro middle drift
  refine ⟨trivial, fun reply after executed => ?_⟩
  have here := holding.drifted drift
  have mine : middle.own me = [event] := by
    rw [(Later.of_drift drift).own, own]
  cases executed with
  | failpoint _ =>
      cases reply with
      | true => exact errors _ mine
      | false =>
          apply Safe.call
          intro further moved
          refine ⟨trivial, fun reply after executed => ?_⟩
          have still := here.drifted moved
          have stillMine : further.own me = [event] := by
            rw [(Later.of_drift moved).own, mine]
          cases executed with
          | admissionFailpoint _ =>
              cases reply with
              | true => exact errors _ stillMine
              | false =>
                  apply Safe.call
                  intro last onward
                  refine ⟨still.drifted onward, fun _ acted executed => ?_⟩
                  cases executed with
                  | afterCommit =>
                      apply Safe.ret
                      intro final ending
                      refine ⟨rfl, ?_⟩
                      change final.own me = [.acted me, event]
                      rw [(Later.of_drift ending).own, World.own, World.act,
                        List.filter_cons_of_pos (by simp [Event.caller]),
                        ← stillMine, ← (Later.of_drift onward).own]
                      rfl

/-- However often the port invokes it, the continuation acts at most once. -/
theorem invokeTimes_safe
    {event : Event}
    (times : Nat)
    (holding : Holding deployment grounded me world)
    (own : world.own me = [event]) :
    Safe (deployment.setting grounded me)
      (fun state final => Acknowledged me event state final)
      (fun _ _ => True)
      (Continuation.invokeTimes times ⟨false, none⟩) world := by
  cases times with
  | zero =>
      apply Safe.ret
      intro final drift
      change final.own me = [event]
      rw [(Later.of_drift drift).own, own]
  | succ times =>
      apply Safe.bind (invoke_safe holding own)
      rintro state middle ⟨called, acknowledged⟩
      rw [invokeTimes_called times called]
      apply Safe.ret
      intro final drift
      exact acknowledged.moved (Later.of_drift drift).own

end Holding

/-- The events of a call whose admission returned a result. -/
def Admitted (me : CallId) (guarded : Bool) (result : GuardedAdmission)
    (world : World) : Prop :=
  ∃ old new,
    match result.disposition with
    | .committedActionInvoked =>
        if guarded then
          world.own me = [.acted me, .exchanged (some me) old new]
        else
          world.own me = [.exchanged (some me) old new]
    | .alreadyCommittedActionNotInvoked =>
        old = new ∧ world.own me = [.exchanged (some me) old new]

section Arms

variable {publication : Publication}

/-- A quiet part before a result that names the events of the call. -/
theorem Does.then
    {α β : Type} {program : HostProgram α} {next : α → HostProgram β}
    {ok : α → World → Prop} {done : β → World → Prop}
    (part : Does deployment grounded me program world ok)
    (rest : ∀ value middle, Later deployment grounded me world middle →
      ok value middle →
      Safe (deployment.setting grounded me) done (fun _ _ => True)
        (next value) middle) :
    Safe (deployment.setting grounded me) done (fun _ _ => True)
      (program >>= next) world :=
  Safe.bind part fun value middle both => rest value middle both.1 both.2

/-- The own events after an exchange of the state leaf by the call. -/
theorem own_replace
    (old new : Option Bytes) :
    ((world.offer new).replace (some me) statePath old new).own me =
      .exchanged (some me) old new :: world.own me := by
  simp [World.own, World.replace, World.offer, Event.caller]

/-- The plain head exchange leaves one event when it succeeds. -/
theorem exchangePlain_safe
    {observed replacement : Bytes}
    (working : (deployment.workload me).publication = some publication)
    (appends : deployment.Appends grounded world publication (some observed)
      (some replacement))
    (own : world.own me = []) :
    Safe (deployment.setting grounded me)
      (fun exchange final => exchange.result.exchanged = true →
        exchange.postCommitError = none ∧
          final.own me =
            [.exchanged (some me) (some observed) (some replacement)])
      (fun _ _ => True)
      (exchangePlain observed replacement) world := by
  apply Safe.call
  intro middle drift
  have moved := Later.of_drift drift
  have promised := moved.appends appends
  constructor
  · exact allowed_exchange (.appended working promised)
  intro reply after executed
  have mine : middle.own me = [] := by rw [moved.own, own]
  cases executed with
  | exchanged _ _ =>
      apply (tripAdmission_does _).then
      intro _ later onward _
      apply Safe.ret
      intro final ending _
      refine ⟨rfl, ?_⟩
      rw [(Later.of_drift ending).own, onward.own, own_replace, mine]
  | missed _ _ =>
      apply Safe.ret
      intro final _ exchanged
      cases exchanged
  | exchangeFailed _ => exact Safe.fail fun _ _ => trivial
  | exchangeUnanswered _ _ _ => exact Safe.fail fun _ _ => trivial

/-- The guarded exchange leaves its event and that of its one action. -/
theorem exchangeGuarded_safe
    {observed replacement : Bytes}
    (working : (deployment.workload me).publication = some publication)
    (appends : deployment.Appends grounded world publication (some observed)
      (some replacement))
    (own : world.own me = []) :
    Safe (deployment.setting grounded me)
      (fun exchange final => exchange.result.exchanged = true →
        exchange.postCommitError = none →
          final.own me = [.acted me,
            .exchanged (some me) (some observed) (some replacement)])
      (fun _ _ => True)
      (exchangeGuarded observed replacement) world := by
  apply Safe.call
  intro middle drift
  have moved := Later.of_drift drift
  have promised := moved.appends appends
  refine ⟨⟨rfl, publication, working, promised⟩, fun reply after executed => ?_⟩
  have mine : middle.own me = [] := by rw [moved.own, own]
  have effect := @effect_of_exec deployment grounded middle after me _ reply
    ⟨rfl, publication, working, promised⟩ executed
  cases executed with
  | @committed _ _ _ _ invocations _ _ _ _ =>
      have holding : Holding deployment grounded me
          (((middle.offer (some replacement)).replace (some me) statePath
            (some observed) (some replacement)).withHeld
              (some (statePath, me))) := by
        refine ⟨rfl, publication, _, _, middle.history, working,
          effect.appends promised, ?_⟩
        simp [World.replace, World.offer, World.withHeld]
      apply Safe.bind (invokeTimes_safe invocations holding
        ((own_replace _ _).trans (by rw [mine])))
      intro state later acknowledged
      apply Safe.call
      intro last onward
      refine ⟨trivial, fun reply after executed => ?_⟩
      have same : after.own me = later.own me := by
        rw [← (Later.of_drift onward).own]
        cases executed <;> rfl
      have known := acknowledged.moved same
      cases executed with
      | released _ =>
          change Safe _ _ _
            (if true = true ∧ ¬ state.called = true then _ else _) _
          by_cases called : state.called = true
          · rw [if_neg (by simp [called])]
            apply Safe.ret
            intro final ending _ noError
            change state.postCommitError = none at noError
            rw [(Later.of_drift ending).own]
            simpa [Acknowledged, called, noError] using known
          · rw [if_pos ⟨rfl, called⟩]
            exact Safe.fail fun _ _ => trivial
      | releaseFailed _ _ => exact Safe.fail fun _ _ => trivial
  | guardedMissed _ _ _ =>
      apply Safe.ret
      intro final _ exchanged
      cases exchanged
  | guardedFailed _ => exact Safe.fail fun _ _ => trivial
  | guardedUnsupported _ _ => exact Safe.fail fun _ _ => trivial

/-- The head exchange and its acknowledgement. -/
theorem commitHead_safe
    {guarded : Bool} {observed replacement : Bytes} {newHead : JournalHead}
    (working : (deployment.workload me).publication = some publication)
    (appends : deployment.Appends grounded world publication (some observed)
      (some replacement))
    (own : world.own me = []) :
    Safe (deployment.setting grounded me) (Admitted me guarded)
      (fun _ _ => True)
      (commitHead guarded observed replacement newHead) world := by
  have finish {exchange : HeadExchange} {middle : World}
      (events : exchange.result.exchanged = true →
        exchange.postCommitError = none →
          Admitted me guarded ⟨newHead, .committedActionInvoked⟩ middle) :
      Safe (deployment.setting grounded me) (Admitted me guarded)
        (fun _ _ => True)
        (if ¬ exchange.result.exchanged then
          refused .wrongHead
        else
          match exchange.postCommitError with
          | some error => refused error
          | none => do
              tripAdmission .beforeAcknowledgement
              return ⟨newHead, .committedActionInvoked⟩) middle := by
    by_cases exchanged : exchange.result.exchanged = true
    · rw [if_neg (by simp [exchanged])]
      cases error : exchange.postCommitError with
      | some error => exact Safe.fail fun _ _ => trivial
      | none =>
          apply (tripAdmission_does _).then
          intro _ later onward _
          apply Safe.ret
          intro final ending
          have known := events exchanged error
          unfold Admitted at *
          rw [(Later.of_drift ending).own, onward.own]
          exact known
    · rw [if_pos exchanged]
      exact Safe.fail fun _ _ => trivial
  cases guarded with
  | true =>
      apply Safe.bind (exchangeGuarded_safe working appends own)
      intro exchange middle events
      apply finish
      intro exchanged noError
      exact ⟨_, _, events exchanged noError⟩
  | false =>
      apply Safe.bind (exchangePlain_safe working appends own)
      intro exchange middle events
      apply finish
      intro exchanged _
      exact ⟨_, _, (events exchanged).2⟩

/-- The fresh-commit arm. -/
theorem commitFresh_safe
    (lawful : deployment.kernel.Lawful)
    {guarded : Bool} {observed : Bytes} {envelope : NativeStateEnvelope}
    (inv : Inv deployment grounded first world)
    (working : (deployment.workload me).publication = some publication)
    (supplied : ∀ object ∈ publication.objects, deployment.Supplied object)
    (follows : Follows deployment.kernel publication.expected
      publication.entries)
    (nonempty : publication.entries ≠ [])
    (ever : world.Ever observed)
    (selects : Selects deployment.kernel (some observed) envelope)
    (fence : envelope.fence = publication.lease.fence)
    (head : envelope.head = publication.expected)
    (own : world.own me = []) :
    Safe (deployment.setting grounded me) (Admitted me guarded)
      (fun _ _ => True)
      (commitFresh deployment.kernel guarded publication.admission observed
        envelope) world := by
  obtain ⟨_, same, isV2, decoded⟩ := id selects
  cases same
  have wellFormed := wellFormed_of_decodeEnvelope decoded
  have start : Does deployment grounded me (tripAdmission .beforeObjectPublish)
      world (fun _ _ => True) := tripAdmission_does _
  apply start.then
  intro _ begun moved _
  have empty : deployment.Collected begun (∅ : References) := by
    intro meaning reference found
    simp at found
  apply (publishObjects_does lawful supplied empty).then
  intro references stored onward collected
  apply (tripAdmission_does _).then
  intro _ tripped further _
  have since := (moved.trans onward).trans further
  apply (publishEntries_does lawful (since.inv inv)
    (further.collected collected) follows.genuine wellFormed.short
    wellFormed.headLocation).then
  rintro location chained beyond ⟨spelled, located, linked⟩
  apply (tripAdmission_does _).then
  intro _ durable persisted _
  have latest := List.getLast?_eq_some_getLast nonempty
  generalize publication.entries.getLast nonempty = last at latest
  have found : okOr publication.admission.entries.getLast? .emptyBatch =
      .ok last := okOr_eq_ok.mpr latest
  rw [found]
  have trips : Does deployment grounded me (tripAdmission .beforeCas) durable
      (fun _ _ => True) := tripAdmission_does _
  change Safe _ _ _ (tripAdmission .beforeCas >>= fun _ => _) durable
  apply trips.then
  intro _ ready arrived _
  have final := ((since.trans beyond).trans persisted).trans arrived
  have genuine : Spelled deployment.kernel last.id :=
    spelled_contentId lawful
      (follows.genuine last (List.mem_of_getLast? latest))
  have appendedWell := wellFormed_appended wellFormed genuine spelled
    (located (.inl nonempty))
  have newSelects := selects_encodeEnvelope appendedWell
  apply commitHead_safe working _ (by rw [final.own, own])
  refine ⟨⟨envelope, _, selects, newSelects, fence, fence, head⟩, nonempty,
    fun isGrounded => ?_⟩
  obtain ⟨log, state, commits⟩ := inv.commits_of_ever isGrounded ever isV2
  have now := final.commits commits
  have holds := (committed_iff_envelopeLog selects).mp now
  obtain ⟨links, chain, entries⟩ := linked isGrounded
  have settledChain := chain.mono fun _ _ settled =>
    (persisted.trans arrived).settled settled
  obtain ⟨later, extended⟩ := holds.append (head ▸ follows) latest settledChain
    entries
  exact ⟨log, state, later, now,
    (committed_iff_envelopeLog newSelects).mpr extended⟩

/-- The redelivery arm. -/
theorem confirmRedelivery_safe
    {guarded : Bool} {backend : HostDirJournalBackend} {observed : Bytes}
    {envelope : NativeStateEnvelope}
    (inv : Inv deployment grounded first world)
    (working : (deployment.workload me).publication = some publication)
    (follows : Follows deployment.kernel publication.expected
      publication.entries)
    (nonempty : publication.entries ≠ [])
    (ever : world.Ever observed)
    (selects : Selects deployment.kernel (some observed) envelope)
    (fence : envelope.fence = publication.lease.fence)
    (own : world.own me = []) :
    Safe (deployment.setting grounded me) (Admitted me guarded)
      (fun _ _ => True)
      (confirmRedelivery deployment.kernel backend publication.admission
        observed envelope) world := by
  apply (readV2_does inv ever selects).then
  intro state middle moved commits
  by_cases again : redelivered state publication.admission.entries = true
  · rw [if_neg (by simp [again])]
    apply Safe.call
    intro start drift
    have begun := Later.of_drift drift
    have mine : start.own me = [] := by rw [begun.own, moved.own, own]
    constructor
    · apply allowed_exchange
      apply Deployment.Exchange.confirmed working
      refine ⟨⟨envelope, selects, fence⟩, nonempty, follows,
        fun isGrounded => ?_⟩
      obtain ⟨log, committed⟩ := commits isGrounded
      refine ⟨log, state, begun.commits committed, fun entry inside => ?_⟩
      have present : state.entries[entry.sequence]? = some entry := by
        simp only [redelivered, Bool.and_eq_true, List.all_eq_true] at again
        exact of_decide_eq_true (again.2 entry inside)
      exact (committed.holds.getElem.mp present).1
    intro reply after executed
    cases executed with
    | exchanged _ _ =>
        simp only [Bool.not_eq_true]
        cases head : envelope.head with
        | none => exact Safe.fail fun _ _ => trivial
        | some head =>
            apply Safe.ret
            intro final ending
            refine ⟨some observed, some observed, rfl, ?_⟩
            rw [(Later.of_drift ending).own, own_replace, mine]
    | missed _ _ => exact Safe.fail fun _ _ => trivial
    | exchangeFailed _ => exact Safe.fail fun _ _ => trivial
    | exchangeUnanswered _ _ _ => exact Safe.fail fun _ _ => trivial
  · rw [if_pos again]
    exact Safe.fail fun _ _ => trivial

/-- A publication that passed its verification is admitted safely. -/
theorem admitWithAction_safe
    (lawful : deployment.kernel.Lawful)
    {guarded : Bool} {backend : HostDirJournalBackend}
    (inv : Inv deployment grounded first world)
    (working : (deployment.workload me).publication = some publication)
    (supplied : ∀ object ∈ publication.objects, deployment.Supplied object)
    (follows : Follows deployment.kernel publication.expected
      publication.entries)
    (nonempty : publication.entries ≠ [])
    (own : world.own me = []) :
    Safe (deployment.setting grounded me) (Admitted me guarded)
      (fun _ _ => True)
      (admitWithAction deployment.kernel backend guarded
        publication.admission) world := by
  have required : Does deployment grounded me (requireGuarded guarded) world
      (fun _ _ => True) := by
    cases guarded with
    | false => exact .ret fun _ _ => trivial
    | true =>
        apply Does.call
        · intro _ _
          trivial
        intro middle reply after _ executed
        refine ⟨by cases executed; rfl, fun _ => ?_⟩
        cases reply with
        | true => exact .ret fun _ _ => trivial
        | false => exact .fail _
  apply required.then
  intro _ first' moved _
  apply (writeCapable_does backend).then
  intro _ capable onward _
  apply ensureLayout_does.then
  intro _ laid further _
  apply stateBytes_does.then
  intro bytes seen beyond evers
  have since := ((moved.trans onward).trans further).trans beyond
  cases bytes with
  | none => exact Safe.fail fun _ _ => trivial
  | some observed =>
      have ever := evers observed rfl
      change Safe _ _ _
        (admitObserved deployment.kernel backend guarded publication.admission
          observed) seen
      unfold admitObserved
      by_cases isV1 : isV1State observed = true
      · rw [if_pos isV1]
        exact Safe.fail fun _ _ => trivial
      rw [if_neg isV1]
      cases decoded : decodeEnvelope deployment.kernel observed with
      | error fault => exact Safe.fail fun _ _ => trivial
      | ok envelope =>
          have selects : Selects deployment.kernel (some observed) envelope :=
            ⟨observed, rfl, Bool.eq_false_iff.mpr isV1, decoded⟩
          have mine : seen.own me = [] := by rw [since.own, own]
          change Safe _ _ _ (if envelope.fence ≠ publication.lease.fence then _
            else if envelope.head ≠ publication.expected then _ else _) seen
          by_cases fence : envelope.fence = publication.lease.fence
          · rw [if_neg (by simp [fence])]
            by_cases head : envelope.head = publication.expected
            · rw [if_neg (by simp [head])]
              exact commitFresh_safe lawful (since.inv inv) working supplied
                follows nonempty ever selects fence head mine
            · rw [if_pos head]
              exact confirmRedelivery_safe (since.inv inv) working follows
                nonempty ever selects fence mine
          · rw [if_pos fence]
            exact Safe.fail fun _ _ => trivial

end Arms

end SimStorage.Journal.Host
