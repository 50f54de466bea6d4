import SimStorage.Journal.Host.Deployment

namespace SimStorage.Journal.Host

/-!
# The coordinators' protocol

What each call promises about its own requests: leaves of the v2 layout are
written once, and the state leaf changes by a lease, by the append of one batch
after the head it expects, or by a confirmation that changes nothing.  Every
move of a deployment has one of a few effects, and the effects keep the
recorded history and the committed logs in order.
-/

open Codec NativeCodec Interaction

/-- A leaf value that selects a v2 envelope. -/
def Selects (kernel : Kernel) (leaf : Option Bytes)
    (envelope : NativeStateEnvelope) : Prop :=
  ∃ bytes, leaf = some bytes ∧ isV1State bytes = false ∧
    decodeEnvelope kernel bytes = .ok envelope

/-- The fence that a state leaf stores; an absent leaf counts as fence zero. -/
def storedFence (kernel : Kernel) : Option Bytes → Option UInt64
  | none => some 0
  | some bytes =>
      if isV1State bytes then
        (decodeV1State kernel bytes).toOption.map Prod.fst
      else
        (decodeEnvelope kernel bytes).toOption.map NativeStateEnvelope.fence

/-- A leaf value where its path says it belongs. -/
inductive Placed (kernel : Kernel) (supplied : JournalObject → Prop) :
    Path → Bytes → Prop where
  | object {object : JournalObject} {bytes : Bytes} :
      supplied object →
      object.Sound kernel →
      object.storageBytes kernel = .ok bytes →
      Placed kernel supplied
        (objectPath ⟨object.id, storageId kernel bytes⟩) bytes
  | entry (location : EntryLocation) (bytes : Bytes) :
      Placed kernel supplied (entryPath location) bytes
  | marker (name : EntryNamespace) :
      Placed kernel supplied (markerPath name) namespaceMagic
  | descriptor (id : ContentId) (bytes : Bytes) :
      Placed kernel supplied (descriptorPath id) bytes

/-- A directory of the v2 layout. -/
inductive LayoutDir (supplied : JournalObject → Prop) : Path → Prop where
  | root {path : Path} :
      path ∈ [objectsRoot, ["namespaces-v2"], ["compat-v1"], ["temporary"]] →
      LayoutDir supplied path
  | object {object : JournalObject} :
      supplied object →
      LayoutDir supplied (objectDir object.id)
  | space {path : Path} :
      path.head? = some "namespaces-v2" →
      LayoutDir supplied path

namespace Deployment

variable (deployment : Deployment)

/-- An object that some call supplies. -/
def Supplied (object : JournalObject) : Prop :=
  ∃ me, object ∈ (deployment.workload me).objects

/-- A path whose leaf does not change once it is there. -/
def Frozen (world : World) (path : Path) : Prop :=
  path ≠ statePath ∧
    (¬ deployment.port.legacy ∨ V2Layout path ∨
      V1Reached deployment.kernel world path)

/-- A leaf that is there and does not change. -/
def Settled (world : World) (path : Path) (bytes : Bytes) : Prop :=
  deployment.Frozen world path ∧ world.leaf path = some bytes

/-- A leaf value commits a log and a state through settled leaves. -/
abbrev Commits (world : World) :
    Option Bytes → List JournalEntry → StoredState → Prop :=
  Committed deployment.kernel (deployment.Settled world)

/--
The promise that includes logs: a v2 leaf at the start commits a log, and the
objects of the v2 layout are where their names say.
-/
structure Grounded (world : World) : Prop where
  commits : ∀ bytes, world.state = some bytes → isV1State bytes = false →
    ∃ log state, deployment.Commits world (some bytes) log state
  placed : ∀ path bytes, world.leaf path = some bytes →
    path.head? = some "objects-v2" →
    Placed deployment.kernel (fun _ => True) path bytes

variable (grounded : Prop) (world : World)

/-- A lease: the fence grows by one and the committed log stays. -/
structure Leases (old new : Option Bytes) : Prop where
  fences : ∃ fence envelope,
    storedFence deployment.kernel old = some fence ∧
      Selects deployment.kernel new envelope ∧
      envelope.fence.toNat = fence.toNat + 1
  logs : grounded → ∃ log state,
    deployment.Commits world old log state ∧
      deployment.Commits world new log state

/-- An append: the whole batch of a publication after its expected head. -/
structure Appends (publication : Publication) (old new : Option Bytes) :
    Prop where
  envelopes : ∃ before after,
    Selects deployment.kernel old before ∧
      Selects deployment.kernel new after ∧
      before.fence = publication.lease.fence ∧
      after.fence = publication.lease.fence ∧
      before.head = publication.expected
  nonempty : publication.entries ≠ []
  logs : grounded → ∃ log state later,
    deployment.Commits world old log state ∧
      deployment.Commits world new (log ++ publication.entries) later

/-- A confirmation: the batch of a publication is committed already. -/
structure Confirms (publication : Publication) (leaf : Option Bytes) :
    Prop where
  envelopes : ∃ envelope,
    Selects deployment.kernel leaf envelope ∧
      envelope.fence = publication.lease.fence
  nonempty : publication.entries ≠ []
  follows :
    Follows deployment.kernel publication.expected publication.entries
  logs : grounded → ∃ log state,
    deployment.Commits world leaf log state ∧
      ∀ entry ∈ publication.entries, entry ∈ log

/-- The exchanges of the state leaf. -/
inductive Exchange : Option CallId → Option Bytes → Option Bytes → Prop where
  | leased {me : CallId} {old new : Option Bytes} :
      deployment.workload me = .acquireLease →
      deployment.Leases grounded world old new →
      Exchange (some me) old new
  | appended {me : CallId} {publication : Publication}
      {old new : Option Bytes} :
      (deployment.workload me).publication = some publication →
      deployment.Appends grounded world publication old new →
      Exchange (some me) old new
  | confirmed {me : CallId} {publication : Publication}
      {leaf : Option Bytes} :
      (deployment.workload me).publication = some publication →
      deployment.Confirms grounded world publication leaf →
      Exchange (some me) leaf leaf
  | legacy {old new : Bytes} :
      deployment.port.legacy →
      isV1State old = true →
      isV1State new = true →
      Exchange none (some old) (some new)

/-- The latest event is an append of the call's own batch. -/
def JustAppended (me : CallId) : Prop :=
  ∃ publication old new rest,
    (deployment.workload me).publication = some publication ∧
      deployment.Appends grounded world publication old new ∧
      world.history = .exchanged (some me) old new :: rest

/-- The requests that a call may issue. -/
def allowed (me : CallId) : HostCall → World → Prop
  | .createDir path, _ => LayoutDir deployment.Supplied path
  | .compareExchange path expected replacement, world =>
      if path = statePath then
        deployment.Exchange grounded world (some me) expected replacement
      else
        expected = none ∧ ∃ bytes, replacement = some bytes ∧
          Placed deployment.kernel deployment.Supplied path bytes
  | .beginGuarded path expected replacement, world =>
      path = statePath ∧ ∃ publication,
        (deployment.workload me).publication = some publication ∧
          deployment.Appends grounded world publication expected replacement
  | .afterCommit, world =>
      world.held = some (statePath, me) ∧
        deployment.JustAppended grounded world me
  | _, _ => True

/-- The coordinators' protocol. -/
def protocol : Protocol CallId HostCall HostReply World where
  toService := deployment.service
  allowed := deployment.allowed grounded

/-- The setting in which one call runs. -/
abbrev setting (me : CallId) : Setting HostCall HostReply World :=
  (deployment.protocol grounded).setting me

/-- What a move does to the leaves and the history. -/
inductive Effect (caller : Option CallId) (world after : World) : Prop where
  | quiet :
      (∀ path, after.leaf path = world.leaf path) →
      after.history = world.history →
      Effect caller world after
  | written {path : Path} {bytes : Bytes} :
      Placed deployment.kernel deployment.Supplied path bytes →
      world.leaf path = none →
      (∀ query, after.leaf query =
        if query = path then some bytes else world.leaf query) →
      after.history = world.history →
      Effect caller world after
  | exchanged {old new : Option Bytes} :
      world.state = old →
      deployment.Exchange grounded world caller old new →
      (∀ query, after.leaf query =
        if query = statePath then new else world.leaf query) →
      after.history = .exchanged caller old new :: world.history →
      Effect caller world after
  | acted {me : CallId} :
      caller = some me →
      deployment.JustAppended grounded world me →
      (∀ path, after.leaf path = world.leaf path) →
      after.history = .acted me :: world.history →
      Effect caller world after
  | legacy {path : Path} {new : Option Bytes} :
      caller = none →
      deployment.port.legacy →
      path ≠ statePath →
      ¬ V2Layout path →
      ¬ V1Reached deployment.kernel world path →
      (∀ query, after.leaf query =
        if query = path then new else world.leaf query) →
      after.history = world.history →
      Effect caller world after

end Deployment

section Envelopes

theorem isV1State_encodeEnvelope
    (envelope : NativeStateEnvelope) :
    isV1State (encodeEnvelope envelope) = false := by
  rfl

/-- An encoded well-formed envelope selects itself. -/
theorem selects_encodeEnvelope
    {kernel : Kernel} {envelope : NativeStateEnvelope}
    (wellFormed : WellFormed kernel envelope) :
    Selects kernel (some (encodeEnvelope envelope)) envelope :=
  ⟨encodeEnvelope envelope, rfl, isV1State_encodeEnvelope envelope,
    decodeEnvelope_encodeEnvelope wellFormed⟩

theorem Selects.unique
    {kernel : Kernel} {leaf : Option Bytes}
    {envelope other : NativeStateEnvelope}
    (selects : Selects kernel leaf envelope)
    (otherSelects : Selects kernel leaf other) :
    envelope = other := by
  obtain ⟨bytes, rfl, _, decoded⟩ := selects
  obtain ⟨_, same, _, otherDecoded⟩ := otherSelects
  cases same
  rw [decoded] at otherDecoded
  exact Except.ok.inj otherDecoded

/-- What a selected envelope commits, its leaf commits, and conversely. -/
theorem committed_iff_envelopeLog
    {kernel : Kernel} {known : Path → Bytes → Prop}
    {leaf : Option Bytes} {envelope : NativeStateEnvelope}
    {log : List JournalEntry} {state : StoredState}
    (selects : Selects kernel leaf envelope) :
    Committed kernel known leaf log state ↔
      EnvelopeLog kernel known envelope log state := by
  constructor
  · obtain ⟨bytes, rfl, isV2, decoded⟩ := selects
    intro committed
    cases committed with
    | emptyV1 isV1 _ =>
        rw [isV1] at isV2
        cases isV2
    | v1 isV1 _ _ =>
        rw [isV1] at isV2
        cases isV2
    | v2 _ found holds =>
        rw [decoded] at found
        cases found
        exact holds
  · obtain ⟨bytes, rfl, isV2, decoded⟩ := selects
    exact fun holds => .v2 isV2 decoded holds

theorem storedFence_of_selects
    {kernel : Kernel} {leaf : Option Bytes} {envelope : NativeStateEnvelope}
    (selects : Selects kernel leaf envelope) :
    storedFence kernel leaf = some envelope.fence := by
  obtain ⟨bytes, rfl, isV2, decoded⟩ := selects
  simp [storedFence, isV2, decoded, Except.toOption]

end Envelopes

section Effects

variable {deployment : Deployment} {grounded : Prop}
variable {world after : World}

/-- The state leaf is no leaf of the layout. -/
theorem Placed.path_ne
    {kernel : Kernel} {supplied : JournalObject → Prop}
    {path : Path} {bytes : Bytes}
    (placed : Placed kernel supplied path bytes) :
    path ≠ statePath := by
  cases placed <;>
    simp [objectPath, objectDir, objectsRoot, entryPath, entryDir, sequenceDir,
      entriesRoot, namespaceRoot, markerPath, descriptorPath, statePath]

theorem Placed.layout
    {kernel : Kernel} {supplied : JournalObject → Prop}
    {path : Path} {bytes : Bytes}
    (placed : Placed kernel supplied path bytes) :
    V2Layout path := by
  cases placed with
  | object => exact .inl rfl
  | entry => exact .inr (.inl rfl)
  | marker => exact .inr (.inl rfl)
  | descriptor => exact .inr (.inr rfl)

theorem state_not_layout :
    ¬ V2Layout statePath := by
  decide

/-- A promised exchange of the state leaf is permitted. -/
theorem allowed_exchange
    {me : CallId} {old new : Option Bytes}
    (exchange : deployment.Exchange grounded world (some me) old new) :
    deployment.allowed grounded me (.compareExchange statePath old new)
      world := by
  simp only [Deployment.allowed, if_true]
  exact exchange

/-- Every request of a call has one of the effects. -/
theorem effect_of_exec
    {me : CallId} {call : HostCall} {reply : HostReply call}
    (permitted : deployment.allowed grounded me call world)
    (executed : Exec deployment.port me call world reply after) :
    deployment.Effect grounded (some me) world after := by
  have exchanged {path : Path} {expected replacement : Option Bytes}
      {final : World}
      (allowed : deployment.allowed grounded me
        (.compareExchange path expected replacement) world)
      (matches_ : world.leaf path = expected)
      (leaves : ∀ query, final.leaf query =
        ((world.offer replacement).replace (some me) path expected
          replacement).leaf query)
      (history : final.history =
        ((world.offer replacement).replace (some me) path expected
          replacement).history) :
      deployment.Effect grounded (some me) world final := by
    by_cases isState : path = statePath
    · subst isState
      simp only [Deployment.allowed, if_true] at allowed
      apply Deployment.Effect.exchanged matches_ allowed
      · intro query
        rw [leaves, World.leaf_replace, World.leaf_offer]
      · rw [history]
        simp [World.replace, World.offer]
    · simp only [Deployment.allowed, if_neg isState] at allowed
      obtain ⟨rfl, bytes, rfl, placed⟩ := allowed
      apply Deployment.Effect.written placed matches_
      · intro query
        rw [leaves, World.leaf_replace, World.leaf_offer]
      · rw [history]
        simp [World.replace, World.offer, isState]
  cases executed with
  | exchanged _ same =>
      exact exchanged permitted same (fun _ => rfl) rfl
  | exchangeUnanswered _ _ same =>
      exact exchanged permitted same (fun _ => rfl) rfl
  | @committed _ _ expected replacement _ _ _ same _ =>
      obtain ⟨rfl, publication, published, appends⟩ := permitted
      have allowed : deployment.allowed grounded me
          (.compareExchange statePath expected replacement) world :=
        allowed_exchange (.appended published appends)
      exact exchanged allowed same (fun _ => rfl) rfl
  | afterCommit =>
      exact .acted rfl permitted.2 (fun _ => rfl) rfl
  | _ => exact .quiet (fun _ => rfl) rfl

/-- A stopping call leaves leaves and history alone. -/
theorem effect_of_crash
    {me : CallId}
    (crashed : Crash me world after) :
    deployment.Effect grounded (some me) world after := by
  cases crashed with
  | holding _ => exact .quiet (fun _ => rfl) rfl
  | idle _ => exact .quiet (fun _ => rfl) rfl

/-- A step of the v1 writer has an effect without a caller. -/
theorem effect_of_writer
    (moved : V1Writer deployment.kernel deployment.port world after) :
    deployment.Effect grounded none world after := by
  cases moved with
  | @leaf path new legacy notState outside unreached =>
      apply Deployment.Effect.legacy rfl legacy notState outside unreached
      · intro query
        exact World.leaf_replace world none path _ new query
      · simp [World.replace, notState]
  | directory _ _ => exact .quiet (fun _ => rfl) rfl
  | @state old new legacy _ current isV1 staysV1 =>
      apply Deployment.Effect.exchanged current (.legacy legacy isV1 staysV1)
      · intro query
        exact World.leaf_replace world none statePath _ _ query
      · simp [World.replace]

/-- Every permitted move has one of the effects, for some caller. -/
theorem effect_of_move
    (move : (deployment.protocol grounded).Move world after) :
    ∃ caller, deployment.Effect grounded caller world after := by
  rcases move with ⟨permitted, executed⟩ | ⟨crashed⟩ | ⟨moved⟩
  · exact ⟨_, effect_of_exec permitted executed⟩
  · exact ⟨_, effect_of_crash crashed⟩
  · exact ⟨none, effect_of_writer moved⟩

/-- Foreign moves have the effects of other callers. -/
theorem effect_of_foreign
    {me : CallId}
    (foreign : (deployment.protocol grounded).Foreign me world after) :
    ∃ caller, caller ≠ some me ∧
      deployment.Effect grounded caller world after := by
  rcases foreign with
    ⟨different, permitted, executed⟩ | ⟨different, crashed⟩ | ⟨moved⟩
  · exact ⟨_, fun same => different (Option.some.inj same),
      effect_of_exec permitted executed⟩
  · exact ⟨_, fun same => different (Option.some.inj same),
      effect_of_crash crashed⟩
  · exact ⟨none, nofun, effect_of_writer moved⟩

end Effects

section Settled

variable {deployment : Deployment} {grounded : Prop}
variable {caller : Option CallId} {world after : World}

/-- What the state leaf has been, it has been for ever. -/
theorem Deployment.Effect.ever
    (effect : deployment.Effect grounded caller world after)
    {bytes : Bytes}
    (ever : world.Ever bytes) :
    after.Ever bytes := by
  rcases ever with current | ⟨origin, old, new, recorded, here⟩
  · cases effect with
    | quiet leaves _ => exact .inl ((leaves statePath).trans current)
    | @written path _ placed _ leaves _ =>
        apply Or.inl
        rw [World.state, leaves, if_neg (Ne.symm placed.path_ne)]
        exact current
    | @exchanged old new same _ _ history =>
        apply Or.inr
        exact ⟨caller, old, new, by rw [history]; exact List.mem_cons_self,
          .inl (same.symm.trans current)⟩
    | acted _ _ leaves _ => exact .inl ((leaves statePath).trans current)
    | legacy _ _ notState _ _ leaves _ =>
        apply Or.inl
        rw [World.state, leaves, if_neg (Ne.symm notState)]
        exact current
  · apply Or.inr
    refine ⟨origin, old, new, ?_, here⟩
    cases effect with
    | quiet _ history => rwa [history]
    | written _ _ _ history => rwa [history]
    | exchanged _ _ _ history =>
        rw [history]
        exact List.mem_cons_of_mem _ recorded
    | acted _ _ _ history =>
        rw [history]
        exact List.mem_cons_of_mem _ recorded
    | legacy _ _ _ _ _ _ history => rwa [history]

/-- A leaf outside the v2 layout that nobody may write keeps its content. -/
theorem Deployment.Effect.constant
    (effect : deployment.Effect grounded caller world after)
    {path : Path}
    (notState : path ≠ statePath)
    (outside : ¬ V2Layout path)
    (guarded : ¬ deployment.port.legacy ∨
      V1Reached deployment.kernel world path) :
    after.leaf path = world.leaf path := by
  cases effect with
  | quiet leaves _ => exact leaves path
  | written placed _ leaves _ =>
      rw [leaves, if_neg]
      intro same
      exact outside (same ▸ placed.layout)
  | exchanged _ _ leaves _ => rw [leaves, if_neg notState]
  | acted _ _ leaves _ => exact leaves path
  | legacy _ legacy _ _ unreached leaves _ =>
      rw [leaves, if_neg]
      intro same
      rcases guarded with absent | reached
      · exact absent legacy
      · exact unreached (same ▸ reached)

theorem v1EntryPath_outside
    (sequence : UInt64) :
    v1EntryPath sequence ≠ statePath ∧ ¬ V2Layout (v1EntryPath sequence) := by
  simp [v1EntryPath, statePath, V2Layout]

theorem v1ObjectPath_outside
    (id : ContentId) :
    v1ObjectPath id ≠ statePath ∧ ¬ V2Layout (v1ObjectPath id) := by
  simp [v1ObjectPath, statePath, V2Layout]

/-- What a v1 head reaches, it reaches for ever. -/
theorem Deployment.Effect.v1Leaf
    (effect : deployment.Effect grounded caller world after)
    {bytes : Bytes} {path : Path}
    (ever : world.Ever bytes)
    (leaf : V1Leaf deployment.kernel world.leaf bytes path) :
    V1Leaf deployment.kernel after.leaf bytes path := by
  cases leaf with
  | entry decoded below => exact .entry decoded below
  | @object fence head sequence entryBytes old id decoded below found read
      inside =>
      refine .object decoded below ?_ read inside
      have outside := v1EntryPath_outside (UInt64.ofNat sequence)
      rw [effect.constant outside.1 outside.2
        (.inr ⟨bytes, ever, .entry decoded below⟩)]
      exact found

theorem Deployment.Effect.frozen
    (effect : deployment.Effect grounded caller world after)
    {path : Path}
    (frozen : deployment.Frozen world path) :
    deployment.Frozen after path := by
  rcases frozen with ⟨notState, absent | layout | ⟨bytes, ever, leaf⟩⟩
  · exact ⟨notState, .inl absent⟩
  · exact ⟨notState, .inr (.inl layout)⟩
  · exact ⟨notState, .inr (.inr
      ⟨bytes, effect.ever ever, effect.v1Leaf ever leaf⟩)⟩

/-- Settled leaves stay settled, with their content. -/
theorem Deployment.Effect.settled
    (effect : deployment.Effect grounded caller world after)
    {path : Path} {bytes : Bytes}
    (settled : deployment.Settled world path bytes) :
    deployment.Settled after path bytes := by
  refine ⟨effect.frozen settled.1, ?_⟩
  obtain ⟨⟨notState, frozen⟩, present⟩ := settled
  by_cases layout : V2Layout path
  · cases effect with
    | quiet leaves _ => rw [leaves, present]
    | written _ absent leaves _ =>
        rw [leaves, if_neg, present]
        intro same
        rw [← same, present] at absent
        cases absent
    | exchanged _ _ leaves _ => rw [leaves, if_neg notState, present]
    | acted _ _ leaves _ => rw [leaves, present]
    | legacy _ _ _ outside _ leaves _ =>
        rw [leaves, if_neg, present]
        intro same
        exact outside (same ▸ layout)
  · have guarded : ¬ deployment.port.legacy ∨
        V1Reached deployment.kernel world path := by
      rcases frozen with absent | layout' | reached
      · exact .inl absent
      · exact absurd layout' layout
      · exact .inr reached
    rw [effect.constant notState layout guarded, present]

theorem Deployment.Effect.commits
    (effect : deployment.Effect grounded caller world after)
    {leaf : Option Bytes} {log : List JournalEntry} {state : StoredState}
    (commits : deployment.Commits world leaf log state) :
    deployment.Commits after leaf log state :=
  commits.mono fun _ _ settled => effect.settled settled

/-- Settled leaves have one content. -/
theorem Deployment.Settled.functional
    {path : Path} {bytes other : Bytes}
    (settled : deployment.Settled world path bytes)
    (otherSettled : deployment.Settled world path other) :
    bytes = other :=
  Option.some.inj (settled.2.symm.trans otherSettled.2)

/-- What is committed through settled leaves is what the store decodes to. -/
theorem Deployment.Commits.unique
    {leaf : Option Bytes} {log other : List JournalEntry}
    {state otherState : StoredState}
    (commits : deployment.Commits world leaf log state)
    (otherCommits : deployment.Commits world leaf other otherState) :
    log = other ∧ state = otherState :=
  @Committed.unique deployment.kernel (deployment.Settled world) _ _ _ _ _
    (fun _ _ _ found otherFound => found.functional otherFound)
    commits otherCommits

end Settled

section Exchanges

variable {deployment : Deployment} {grounded : Prop}
variable {caller : Option CallId} {world after : World}

/-- What an append promised, it promises for ever. -/
theorem Deployment.Effect.appends
    (effect : deployment.Effect grounded caller world after)
    {publication : Publication} {old new : Option Bytes}
    (appends : deployment.Appends grounded world publication old new) :
    deployment.Appends grounded after publication old new := by
  refine ⟨appends.envelopes, appends.nonempty, fun started => ?_⟩
  obtain ⟨log, state, later, before, extended⟩ := appends.logs started
  exact ⟨log, state, later, effect.commits before, effect.commits extended⟩

/-- What an exchange promised, it promises for ever. -/
theorem Deployment.Effect.exchange
    (effect : deployment.Effect grounded caller world after)
    {origin : Option CallId} {old new : Option Bytes}
    (exchange : deployment.Exchange grounded world origin old new) :
    deployment.Exchange grounded after origin old new := by
  cases exchange with
  | leased working leases =>
      apply Deployment.Exchange.leased working
      refine ⟨leases.fences, fun started => ?_⟩
      obtain ⟨log, state, before, later⟩ := leases.logs started
      exact ⟨log, state, effect.commits before, effect.commits later⟩
  | appended working appends =>
      exact .appended working (effect.appends appends)
  | confirmed working confirms =>
      apply Deployment.Exchange.confirmed working
      refine ⟨confirms.envelopes, confirms.nonempty, confirms.follows,
        fun started => ?_⟩
      obtain ⟨log, state, committed, members⟩ := confirms.logs started
      exact ⟨log, state, effect.commits committed, members⟩
  | legacy legacy isV1 staysV1 => exact .legacy legacy isV1 staysV1

end Exchanges

end SimStorage.Journal.Host
