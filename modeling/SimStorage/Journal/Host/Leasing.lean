import SimStorage.Journal.Host.Admitting

namespace SimStorage.Journal.Host

/-!
# Leasing

The three ways to a lease: a fresh install, the upgrade of a v1 store, and the
bump of a v2 fence.  The first two verify what they inherit by reading it, so
the log that the new envelope commits is the one that the old leaf committed.
-/

open Codec NativeCodec Interaction

variable {deployment : Deployment} {grounded : Prop} {me : CallId}
variable {first : Option Bytes} {world after : World}

section Reading

variable {kernel : Kernel} {files : Path → Option Bytes}
variable {stateBytes : Bytes}

theorem readV1Payloads_readsFixed
    {fixed : Path → Prop} {state : StoredState} {payloads : List ContentId}
    (isFixed : ∀ id ∈ payloads, fixed (v1ObjectPath id)) :
    ReadsFixed fixed files (readV1Payloads kernel state payloads) := by
  induction payloads generalizing state with
  | nil => exact trivial
  | cons oldId rest inductionHypothesis =>
      apply (ReadsFixed.load (isFixed oldId List.mem_cons_self)).bind
      intro payload _
      by_cases differs : v1ObjectId kernel payload ≠ oldId
      · rw [if_pos differs]
        exact trivial
      · rw [if_neg differs]
        apply (ReadsFixed.pureResult _).bind
        intro object _
        have inner := @inductionHypothesis (state.withObject object)
          fun id inside => isFixed id (List.mem_cons_of_mem _ inside)
        apply inner.bind
        intro later _
        exact trivial

/-- The entry loop reads only what the head reaches. -/
theorem readV1Entries_readsFixed
    {fence : UInt64} {head : JournalHead} {progress : V1Progress}
    {next remaining : Nat}
    (decoded : decodeV1State kernel stateBytes = .ok (fence, some head))
    (below : next + remaining ≤ head.sequence.toNat + 1) :
    ReadsFixed (V1Leaf kernel files stateBytes) files
      (readV1Entries kernel progress next remaining) := by
  induction remaining generalizing progress next with
  | zero => exact trivial
  | succ remaining inductionHypothesis =>
      have here : next ≤ head.sequence.toNat := by omega
      have entry : ReadsFixed (V1Leaf kernel files stateBytes) files
          (readV1Entry kernel progress (UInt64.ofNat next)) := by
        apply (ReadsFixed.load (.entry decoded here)).bind
        intro bytes found
        apply (ReadsFixed.pureResult _).bind
        intro old read
        apply (ReadsFixed.pureResult _).bind
        intro _ _
        have payloads : ∀ id ∈ old.payloads,
            V1Leaf kernel files stateBytes (v1ObjectPath id) := by
          intro id inside
          exact .object decoded here found.load_ok read.pureResult_ok inside
        apply (readV1Payloads_readsFixed payloads).bind
        intro later _
        apply (ReadsFixed.pureResult _).bind
        intro made _
        exact trivial
      apply entry.bind
      intro later _
      apply inductionHypothesis
      omega

/-- `read_v1` reads only what the head reaches. -/
theorem readV1_readsFixed
    (backend : HostDirJournalBackend) :
    ReadsFixed (V1Leaf kernel files stateBytes) files
      (readV1 kernel backend stateBytes) := by
  apply (ReadsFixed.pureResult _).bind
  intro found decoded
  rcases found with ⟨fence, _ | physicalHead⟩
  · exact trivial
  · apply (ReadsFixed.pureResult _).bind
    intro needed counted
    obtain ⟨rfl, _, _⟩ := v1Needed_eq_ok.mp counted.pureResult_ok
    apply (readV1Entries_readsFixed decoded.pureResult_ok (by omega)).bind
    intro progress _
    exact .pureResult _

theorem V1Leaf.outside
    {path : Path}
    (leaf : V1Leaf kernel files stateBytes path) :
    path ≠ statePath ∧ ¬ V2Layout path := by
  cases leaf with
  | entry _ _ => exact v1EntryPath_outside _
  | object _ _ _ _ _ => exact v1ObjectPath_outside _

/-- The read of a committed v1 state returns what its settled leaves say. -/
theorem readV1_does
    {backend : HostDirJournalBackend}
    (ever : world.Ever stateBytes) :
    Does deployment grounded me (readV1 deployment.kernel backend stateBytes)
      world (fun found final => Anchored (deployment.Settled final)
        (readV1 deployment.kernel backend stateBytes) (.ok found)) := by
  apply Safe.weaken (@ReadsFixed.safe _
    (V1Leaf deployment.kernel world.leaf stateBytes) world.leaf
    (deployment.setting grounded me) deployment.port me world _
    (readV1_readsOnly backend stateBytes) (readV1_readsFixed backend) rfl
    (fun _ _ => trivial) fun later drift path leaf =>
      ((Later.of_drift drift).v1Constant ever leaf).1)
  · rintro found final ⟨anchored, drift⟩
    have later := Later.of_drift drift
    refine ⟨later, anchored.mono ?_⟩
    rintro path bytes ⟨leaf, present⟩
    obtain ⟨same, reached, been⟩ := later.v1Constant ever leaf
    exact ⟨⟨leaf.outside.1, .inr (.inr ⟨stateBytes, been, reached⟩)⟩,
      same.trans present⟩
  · intro fault final _
    trivial

end Reading

section Installing

/-- What an install inherits agrees with what the observed leaf commits. -/
structure Inherits (deployment : Deployment) (world : World)
    (observed : Option Bytes) (inherited : Inherited) : Prop where
  fence : storedFence deployment.kernel observed = some inherited.fence
  spelled : ∀ reference ∈ inherited.reference,
    PrefixSpelled deployment.kernel reference
  headSpelled : ∀ head ∈ inherited.head, Spelled deployment.kernel head.entry
  located : inherited.head.isSome → inherited.reference.isSome
  commits : ∃ log state,
    deployment.Commits world observed log state ∧
      BaseHolds deployment.kernel (deployment.Settled world)
        inherited.reference state log ∧
      inherited.head = headAfter none log

theorem saturatingSucc_of_countEntries
    {head : JournalHead} {entries : UInt64}
    (counted : countEntries head = .ok entries) :
    saturatingSucc head.sequence = entries := by
  unfold countEntries nextSequence at counted
  unfold saturatingSucc
  split at counted
  · next next found =>
      cases counted
      rw [found]
      rfl
  · cases counted

/-- The descriptor of a verified prefix passes its check. -/
theorem checkDescriptor_encodeDescriptor
    {kernel : Kernel} {bytes : Bytes} {fence entries : UInt64}
    {physicalHead canonicalHead : JournalHead}
    (decoded : decodeV1State kernel bytes = .ok (fence, some physicalHead))
    (spelled : Spelled kernel canonicalHead.entry) :
    checkDescriptor kernel
        ⟨entries, physicalHead, canonicalHead,
          storageId kernel (encodeDescriptor bytes canonicalHead)⟩
        (encodeDescriptor bytes canonicalHead) =
      .ok (bytes, canonicalHead) := by
  unfold checkDescriptor
  rw [if_neg (by simp)]
  apply bind_eq_ok.mpr
  refine ⟨(bytes, canonicalHead), decodeDescriptor_encodeDescriptor
    ((length_of_decodeV1State decoded).trans (by decide)) spelled, ?_⟩
  apply bind_eq_ok.mpr
  exact ⟨(fence, some physicalHead), decoded, by simp; rfl⟩

/-- The first half of an install settles the descriptor of what it read. -/
theorem inherit_does
    (lawful : deployment.kernel.Lawful)
    {backend : HostDirJournalBackend} {observed : Option Bytes}
    (evers : ∀ bytes, observed = some bytes → world.Ever bytes)
    (isV1 : ∀ bytes, observed = some bytes → isV1State bytes = true) :
    Does deployment grounded me (inherit deployment.kernel backend observed)
      world (fun inherited final =>
        Inherits deployment final observed inherited) := by
  cases observed with
  | none =>
      apply Does.ret
      intro final _
      exact ⟨rfl, by simp, by simp, by simp,
        ⟨[], .empty, .absent, ⟨rfl, rfl⟩, rfl⟩⟩
  | some bytes =>
      have v1 := isV1 bytes rfl
      apply Does.check
      rintro ⟨fence, physical⟩ decoded
      have stored : storedFence deployment.kernel (some bytes) =
          some fence := by
        simp [storedFence, v1, decoded, Except.toOption]
      cases physical with
      | none =>
          apply Does.ret
          intro final _
          exact ⟨stored, by simp, by simp, by simp,
            ⟨[], .empty, .emptyV1 v1 decoded, ⟨rfl, rfl⟩, rfl⟩⟩
      | some physicalHead =>
          apply (readV1_does (evers bytes rfl)).bind
          rintro ⟨state, canonicalHead⟩ read _ anchored
          obtain ⟨log, commits, head⟩ := committed_of_readV1 v1 anchored
          have headSpelled :
              Spelled deployment.kernel canonicalHead.entry := by
            have latest : log.getLast?.map JournalEntry.head =
                some canonicalHead := by simpa [headAfter] using head
            obtain ⟨last, found, rfl⟩ := Option.map_eq_some_iff.mp latest
            exact spelled_contentId lawful (commits.holds.follows.genuine last
              (List.mem_of_getLast? found))
          apply (trip_does _).bind
          intro _ tripped moved _
          apply (putImmutable_does (.descriptor _ _)).bind
          intro _ written onward settled
          apply (trip_does _).bind
          intro _ again further _
          apply Does.check
          intro entries counted
          apply Does.ret
          intro final later
          have since := (onward.trans further).trans later
          have now := (moved.trans since).commits commits
          refine ⟨stored, ?_, ?_, fun _ => rfl, log, state, now, ⟨?_, now.holds⟩,
            head.symm⟩
          · intro reference here
            cases here
            exact ⟨spelled_of_decodeV1State decoded, headSpelled,
              spelled_storageId _⟩
          · intro found here
            cases here
            exact headSpelled
          · refine ⟨_, bytes, canonicalHead, canonicalHead,
              (further.trans later).settled settled,
              checkDescriptor_encodeDescriptor decoded headSpelled, ?_, ?_⟩
            · exact (v1Holds_of_readV1 anchored).mono fun _ _ found =>
                (moved.trans since).settled found
            · unfold checkPrefix
              rw [if_neg]
              simp [saturatingSucc_of_countEntries counted]

theorem reserveNamespace_does
    {seed : Bytes} {attempts : Nat} :
    Does deployment grounded me
      (reserveNamespace deployment.kernel seed attempts) world
      (fun name final => Short name.token ∧
        deployment.Settled final (markerPath name) namespaceMagic) := by
  have inSpace (path : Path) :
      LayoutDir deployment.Supplied ("namespaces-v2" :: path) := .space rfl
  have attempt (world : World) : Does deployment grounded me
      (reserveAttempt deployment.kernel seed) world
      (fun found final => ∀ name, found = some name → Short name.token ∧
        deployment.Settled final (markerPath name) namespaceMagic) := by
    apply Does.call
    · intro _ _
      trivial
    intro middle source after _ executed
    refine ⟨by cases executed; rfl, fun _ => ?_⟩
    cases here : source.now with
    | none => exact .fail _
    | some now =>
        apply (createDir_does (inSpace _)).bind
        intro _ _ _ _
        apply (exchangeLeaf_does (.marker _)).bind
        intro result written _ settled
        by_cases exchanged : result.exchanged = true
        · rw [if_pos exchanged]
          apply (createDir_does (inSpace _)).bind
          intro _ _ moved _
          apply Does.ret
          rintro final later name ⟨⟩
          refine ⟨?_, (moved.trans later).settled (settled (.inl exchanged))⟩
          have short := utf8_hex_length_le
            (deployment.kernel.sha256
              (tokenBytes seed now source)).val
          rw [(deployment.kernel.sha256 _).property] at short
          change (utf8 (hex _)).length < 2 ^ 32
          omega
        · rw [if_neg exchanged]
          exact .ret fun _ _ => nofun
  induction attempts generalizing world with
  | zero => exact .fail _
  | succ attempts inductionHypothesis =>
      apply (attempt world).bind
      intro found middle _ reserved
      cases found with
      | some name =>
          apply Does.ret
          intro final later
          obtain ⟨short, settled⟩ := reserved name rfl
          exact ⟨short, later.settled settled⟩
      | none => exact inductionHypothesis

theorem nextFence_eq_ok
    {fence next : UInt64} :
    nextFence fence = .ok next ↔ next.toNat = fence.toNat + 1 := by
  unfold nextFence
  rw [okOr_eq_ok, checkedSucc_eq_some]

/-- The selected envelope commits what was inherited. -/
theorem Inherits.installed
    {observed : Option Bytes} {inherited : Inherited} {fence : UInt64}
    {name : EntryNamespace}
    (inherits : Inherits deployment world observed inherited)
    (marker :
      deployment.Settled world (markerPath name) namespaceMagic) :
    ∃ log state, deployment.Commits world observed log state ∧
      EnvelopeLog deployment.kernel (deployment.Settled world)
        (installEnvelope fence name inherited) log state := by
  obtain ⟨log, state, commits, based, head⟩ := inherits.commits
  have held := commits.holds
  refine ⟨log, state, commits, rfl, marker,
    ⟨state, log, [], based, rfl, by simp [chainEntries], ?_⟩, held.follows,
    head⟩
  rcases state with ⟨objects, datums, entries, stateHead⟩
  change _ = StoredState.mk objects datums (indexed log) inherited.head
  rw [head, ← held.head, ← held.entries]

theorem Inherits.wellFormed
    {observed : Option Bytes} {inherited : Inherited} {fence : UInt64}
    {name : EntryNamespace}
    (inherits : Inherits deployment world observed inherited)
    (short : Short name.token) :
    WellFormed deployment.kernel (installEnvelope fence name inherited) := by
  refine ⟨⟨rfl, short, inherits.spelled, inherits.headSpelled, nofun⟩, ?_⟩
  unfold checkLocator
  rw [if_neg]
  rintro ⟨missing, some, _⟩
  change inherited.reference.isNone = true at missing
  have located := inherits.located some
  rw [Option.isNone_iff_eq_none] at missing
  rw [missing] at located
  cases located

theorem Later.inherits
    {observed : Option Bytes} {inherited : Inherited}
    (later : Later deployment grounded me world after)
    (inherits : Inherits deployment world observed inherited) :
    Inherits deployment after observed inherited := by
  obtain ⟨log, state, commits, based, head⟩ := inherits.commits
  exact ⟨inherits.fence, inherits.spelled, inherits.headSpelled,
    inherits.located, log, state, later.commits commits,
    based.mono fun _ _ settled => later.settled settled, head⟩

end Installing

section Leases

/-- The events of a call at the end of a round of its lease loop. -/
def Leased (deployment : Deployment) (me : CallId) (lease : Option Lease)
    (world : World) : Prop :=
  match lease with
  | none => world.own me = []
  | some lease => ∃ old new,
      world.own me = [.exchanged (some me) old new] ∧
        storedFence deployment.kernel new = some lease.fence

/-- The exchange that selects an envelope with a new fence. -/
theorem leaseExchange_safe
    {observed : Option Bytes} {envelope : NativeStateEnvelope}
    {next : HostCompareExchange → HostProgram (Option Lease)}
    {rest : HostProgram Unit}
    (won : ∀ seen, next ⟨true, seen⟩ =
      (rest >>= fun _ => .ret (some ⟨envelope.fence⟩)))
    (lost : ∀ seen, next ⟨false, seen⟩ = .ret none)
    (leases : ∀ later, Later deployment grounded me world later →
      deployment.Exchange grounded later (some me) observed
        (some (encodeEnvelope envelope)))
    (wellFormed : WellFormed deployment.kernel envelope)
    (quiet : ∀ later, Does deployment grounded me rest later
      (fun _ _ => True))
    (own : world.own me = []) :
    Safe (deployment.setting grounded me) (Leased deployment me)
      (fun _ _ => True)
      (compareExchange statePath observed (some (encodeEnvelope envelope)) >>=
        next) world := by
  apply Safe.call
  intro middle drift
  have moved := Later.of_drift drift
  have mine : middle.own me = [] := by rw [moved.own, own]
  refine ⟨allowed_exchange (leases middle moved), fun reply after executed => ?_⟩
  cases executed with
  | exchanged _ _ =>
      change Safe _ _ _ (next ⟨true, observed⟩) _
      rw [won]
      apply (quiet _).then
      intro _ later onward _
      apply Safe.ret
      intro final ending
      refine ⟨observed, some (encodeEnvelope envelope), ?_, ?_⟩
      · rw [(Later.of_drift ending).own, onward.own, own_replace, mine]
      · exact storedFence_of_selects (selects_encodeEnvelope wellFormed)
  | missed _ _ =>
      change Safe _ _ _ (next ⟨false, middle.leaf statePath⟩) _
      rw [lost]
      apply Safe.ret
      intro final ending
      change final.own me = []
      rw [(Later.of_drift ending).own]
      exact mine
  | exchangeFailed _ => exact Safe.fail fun _ _ => trivial
  | exchangeUnanswered _ _ _ => exact Safe.fail fun _ _ => trivial

/-- A fresh install, or the upgrade of a v1 store. -/
theorem installV2_safe
    (lawful : deployment.kernel.Lawful)
    {backend : HostDirJournalBackend} {observed : Option Bytes}
    (working : deployment.workload me = .acquireLease)
    (evers : ∀ bytes, observed = some bytes → world.Ever bytes)
    (isV1 : ∀ bytes, observed = some bytes → isV1State bytes = true)
    (own : world.own me = []) :
    Safe (deployment.setting grounded me) (Leased deployment me)
      (fun _ _ => True)
      (installV2 deployment.kernel backend observed) world := by
  apply (inherit_does lawful evers isV1).then
  intro inherited read moved inherits
  cases counted : nextFence inherited.fence with
  | error fault => exact Safe.fail fun _ _ => trivial
  | ok fence =>
      have grows := nextFence_eq_ok.mp counted
      change Safe _ _ _
        (reserveNamespace deployment.kernel (observed.getD []) 128 >>=
          fun _ => _) read
      apply reserveNamespace_does.then
      rintro name reserved onward ⟨short, marker⟩
      apply (trip_does _).then
      intro _ tripped further _
      apply (trip_does _).then
      intro _ ready beyond _
      have since := (onward.trans further).trans beyond
      have wellFormed := @Inherits.wellFormed _ _ _ _ fence name inherits short
      apply leaseExchange_safe (fun _ => rfl) (fun _ => rfl) _ wellFormed
        (fun later => trip_does .afterFormatCas)
      · rw [since.own, moved.own, own]
      · intro later drift
        have selects := selects_encodeEnvelope wellFormed
        apply Deployment.Exchange.leased working
        refine ⟨⟨_, _, inherits.fence, selects, grows⟩, fun _ => ?_⟩
        obtain ⟨log, state, commits, holds⟩ :=
          @Inherits.installed _ _ _ _ fence name
            ((since.trans drift).inherits inherits)
            (((further.trans beyond).trans drift).settled marker)
        exact ⟨log, state, commits,
          (committed_iff_envelopeLog selects).mpr holds⟩

/-- The bump of a v2 fence. -/
theorem bumpFence_safe
    {backend : HostDirJournalBackend} {bytes : Bytes}
    (inv : Inv deployment grounded first world)
    (working : deployment.workload me = .acquireLease)
    (ever : world.Ever bytes)
    (isV2 : isV1State bytes = false)
    (own : world.own me = []) :
    Safe (deployment.setting grounded me) (Leased deployment me)
      (fun _ _ => True)
      (bumpFence deployment.kernel backend bytes) world := by
  cases decoded : decodeEnvelope deployment.kernel bytes with
  | error fault =>
      unfold bumpFence
      rw [decoded]
      exact Safe.fail fun _ _ => trivial
  | ok envelope =>
      have selects : Selects deployment.kernel (some bytes) envelope :=
        ⟨bytes, rfl, isV2, decoded⟩
      have wellFormed := wellFormed_of_decodeEnvelope decoded
      unfold bumpFence
      rw [decoded]
      change Safe _ _ _
        (readV2 deployment.kernel backend envelope >>= fun _ => _) world
      apply (readV2_does inv ever selects).then
      intro state read moved commits
      cases counted : nextFence envelope.fence with
      | error fault => exact Safe.fail fun _ _ => trivial
      | ok fence =>
          have grows := nextFence_eq_ok.mp counted
          have bumped : WellFormed deployment.kernel
              { envelope with fence := fence } :=
            ⟨⟨wellFormed.format, wellFormed.short, wellFormed.prefixRef,
              wellFormed.head, wellFormed.headLocation⟩, by
                have located := wellFormed.locator
                unfold checkLocator at located ⊢
                split at located
                · cases located
                · next fine => rw [if_neg fine]⟩
          have newSelects := selects_encodeEnvelope bumped
          have leases : ∀ later, Later deployment grounded me read later →
              deployment.Exchange grounded later (some me) (some bytes)
                (some (encodeEnvelope { envelope with fence := fence })) := by
            intro later drift
            apply Deployment.Exchange.leased working
            refine ⟨⟨envelope.fence, _, storedFence_of_selects selects,
              newSelects, grows⟩, fun isGrounded => ?_⟩
            obtain ⟨log, committed⟩ := commits isGrounded
            have now := drift.commits committed
            have holds := (committed_iff_envelopeLog selects).mp now
            refine ⟨log, state, now,
              (committed_iff_envelopeLog newSelects).mpr ?_⟩
            exact ⟨holds.format, holds.marker, holds.chained, holds.follows,
              holds.head⟩
          have mine : read.own me = [] := by rw [moved.own, own]
          have nothing : ∀ later, Does deployment grounded me
              (.ret () : HostProgram Unit) later (fun _ _ => True) :=
            fun later => .ret fun _ _ => trivial
          exact leaseExchange_safe (fun _ => rfl) (fun _ => rfl) leases bumped
            nothing mine

/-- One round of the lease loop. -/
theorem acquireAttempt_safe
    (lawful : deployment.kernel.Lawful)
    {backend : HostDirJournalBackend}
    (inv : Inv deployment grounded first world)
    (working : deployment.workload me = .acquireLease)
    (own : world.own me = []) :
    Safe (deployment.setting grounded me) (Leased deployment me)
      (fun _ _ => True)
      (acquireAttempt deployment.kernel backend) world := by
  apply stateBytes_does.then
  intro observed middle moved evers
  have mine : middle.own me = [] := by rw [moved.own, own]
  cases observed with
  | none => exact installV2_safe lawful working evers nofun mine
  | some bytes =>
      by_cases isV1 : isV1State bytes = true
      · simp only [isV1, if_true]
        apply installV2_safe lawful working evers _ mine
        rintro _ ⟨⟩
        exact isV1
      · simp only [isV1]
        exact bumpFence_safe (moved.inv inv) working (evers bytes rfl)
          (Bool.eq_false_iff.mpr isV1) mine

end Leases

end SimStorage.Journal.Host
