import SimStorage.Journal.Host.Solo

namespace SimStorage.Journal.Host

/-!
# The other calls undisturbed

Leases, puts, finds and reads that nobody disturbs.  Together with the
publications they make the host journal a sequential object: every call answers
from what the store stands for and from the objects that it stocks.
-/

open Codec NativeCodec Interaction

variable {deployment : Deployment} {me : CallId} {values : Set Datum}
variable {start world middle after : World} {system later : HostSystem}
variable {backend : HostDirJournalBackend} {standing : Standing}

section Definitions

/-- The fence of the next lease. -/
def leased (port : Port) (backend : HostDirJournalBackend)
    (standing : Standing) : Result Lease := do
  capable port backend false
  match standing.fence with
  | none => return ⟨1⟩
  | some fence =>
      if backend.workBound < standing.state.entries.size then
        refuse .workBoundExceeded
      else do
        let next ← nextFence fence
        return ⟨next⟩

/-- The reference to an object that is put. -/
def stored (kernel : Kernel) (port : Port) (backend : HostDirJournalBackend)
    (object : JournalObject) : Result StoredDatumRef := do
  capable port backend false
  object.verify kernel
  let bytes ← object.storageBytes kernel
  return ⟨object.id, storageId kernel bytes⟩

/-- The state that a read returns. -/
def visible (backend : HostDirJournalBackend) (standing : Standing) :
    Result StoredState :=
  if backend.workBound < standing.state.entries.size then
    refuse .workBoundExceeded
  else
    .ok standing.state

/-- The snapshot that is made of what the store stands for. -/
def snapshotted (kernel : Kernel) (backend : HostDirJournalBackend)
    (standing : Standing) : Result VerifiedSnapshot := do
  let state ← visible backend standing
  VerifiedSnapshot.fromState kernel state

/-- A namespace is left that a lease has reserved. -/
def World.Reserved (world : World) : Prop :=
  ∃ name, world.leaf (markerPath name) ≠ none

/-- The end of a lease that finds no name for its namespace. -/
def World.Exhausts (world : World) (standing : Standing) (fault : Fault) :
    Prop :=
  standing.fence = none ∧ world.Reserved ∧
    fault = .refused (.backend "could not reserve a fresh journal namespace")

end Definitions

section Leases

/-- An attempt fails only at a namespace that was left before. -/
theorem reserveAttempt_undisturbed
    {seed : Bytes}
    (calm : ¬ deployment.port.faulty me)
    (free : world.held = none) :
    Undisturbed deployment me (reserveAttempt deployment.kernel seed) world
      (fun found final => world.Apart final ∧
        (found = none → world.Reserved)) := by
  apply Undisturbed.call
  · exact ⟨⟨0, some 0, 0⟩, _, .tokenSource (by simp)⟩
  intro source after executed _
  cases executed with
  | tokenSource faulty =>
      refine ⟨.refl world, ?_⟩
      cases clock : source.now with
      | none => exact absurd (faulty clock) calm
      | some now =>
          generalize naming : (⟨hex (deployment.kernel.sha256
            (tokenBytes seed now source)).val⟩ : EntryNamespace) = name
          dsimp only
          rw [naming]
          have notState : markerPath name ≠ statePath := by
            simp [markerPath, namespaceRoot, statePath]
          have outside : (markerPath name).head? ≠ some "objects-v2" := by
            simp [markerPath, namespaceRoot]
          apply (createDir_undisturbed calm).bind
          intro _ made _ kept leaves
          apply (exchangeLeaf_undisturbed calm (kept.held.trans free)
            notState).bind
          rintro outcome marked tidy _ ⟨_, others, content, _, fits⟩
          have apart : world.Apart marked :=
            World.Apart.trans (fun _ _ => leaves _) (.of_others outside others)
          rcases fits with ⟨exchanged, _⟩ | ⟨missed, _, present⟩
          · rw [if_pos exchanged]
            apply (createDir_undisturbed calm).bind
            intro _ final tidy _ same
            exact .ret tidy ⟨apart.trans fun _ _ => same _,
              fun impossible => by cases impossible⟩
          · rw [if_neg (by simp [missed])]
            rw [leaves] at present
            exact .ret tidy ⟨apart, fun _ => ⟨name, present⟩⟩

/-- A reservation fails only where a namespace was left before. -/
theorem reserveNamespace_completes
    {seed : Bytes} {attempts : Nat}
    (calm : ¬ deployment.port.faulty me)
    (tidy : deployment.Tidy world)
    (free : world.held = none) :
    Completes (Exec deployment.port me) deployment.Tidy
      (fun _ final => world.Kept final ∧ world.Apart final)
      (fun fault final => world.Kept final ∧
        ((attempts = 0 ∨ world.Reserved) ∧ fault = .refused
            (.backend "could not reserve a fresh journal namespace") ∨
          deployment.Excused fault final))
      (reserveNamespace deployment.kernel seed attempts) world := by
  induction attempts generalizing world with
  | zero => exact ⟨.refl world, .inl ⟨.inl rfl, rfl⟩⟩
  | succ attempts inductionHypothesis =>
      apply Completes.bind (Completes.weaken
        (reserveAttempt_undisturbed calm free) (fun _ _ => id)
        fun _ _ failed => ⟨failed.1, .inr failed.2⟩)
      rintro found middle ⟨tidy, kept, apart, reserved⟩
      cases found with
      | some name => exact ⟨kept, apart⟩
      | none =>
          apply Completes.weaken
            (inductionHypothesis tidy (kept.held.trans free))
          · exact fun _ _ done => ⟨kept.trans done.1, apart.trans done.2⟩
          · rintro fault final ⟨onward, refused⟩
            refine ⟨kept.trans onward, refused.imp_left fun facts => ?_⟩
            exact ⟨.inr (reserved rfl), facts.2⟩

theorem trip_completes
    {failed : Fault → World → Prop}
    (calm : ¬ deployment.port.faulty me)
    (point : Failpoint) :
    Completes (Exec deployment.port me) deployment.Tidy
      (fun _ final => final = world) failed (trip point) world := by
  apply (tripped_completes calm point).bind
  rintro error middle ⟨rfl, same⟩
  exact same

/-- What a lease leaves: the next fence, in a new state leaf. -/
def World.Leases (me : CallId) (verdict : Result Lease) (world : World)
    (found : Option Lease) (final : World) : Prop :=
  ∃ lease replacement middle, found = some lease ∧ verdict = .ok lease ∧
    world.Kept middle ∧ world.Apart middle ∧
    middle.Landed me false world.state replacement final

/-- The first lease installs an envelope of the v2 format. -/
theorem installV2_completes
    (calm : ¬ deployment.port.faulty me)
    (tidy : deployment.Tidy world)
    (free : world.held = none)
    (absent : world.state = none) :
    Completes (Exec deployment.port me) deployment.Tidy
      (world.Leases me (.ok ⟨1⟩))
      (fun fault final => world.Kept final ∧
        (world.Reserved ∧ fault = .refused
            (.backend "could not reserve a fresh journal namespace") ∨
          deployment.Excused fault final))
      (installV2 deployment.kernel backend none) world := by
  have reserved := @reserveNamespace_completes _ me _ [] 128 calm tidy free
  apply Completes.bind (Completes.weaken reserved (fun _ _ => id) ?_)
  · rintro name middle ⟨kept, apart⟩
    apply (trip_completes calm _).bind
    rintro _ _ rfl
    apply (trip_completes calm _).bind
    rintro _ _ rfl
    apply (exchangeState_completes calm (kept.held.trans free)
      (kept.state.trans absent)).bind
    rintro outcome _ ⟨exchanged, landed⟩
    rw [if_neg (by simp [exchanged])]
    apply (trip_completes calm _).bind
    rintro _ _ rfl
    exact ⟨_, _, _, rfl, rfl, kept, apart, absent ▸ landed⟩
  · rintro fault final ⟨kept, refused⟩
    refine ⟨kept, refused.imp_left fun facts => ⟨?_, facts.2⟩⟩
    exact facts.1.resolve_left (by decide)

/-- A further lease puts the next fence into the envelope. -/
theorem bumpFence_completes
    {observed : Bytes} {envelope : NativeStateEnvelope}
    {log : List JournalEntry} {state : StoredState}
    (fresh : Fresh deployment start values)
    (calm : ¬ deployment.port.faulty me)
    (tidy : deployment.Tidy world)
    (free : world.held = none)
    (current : world.state = some observed)
    (decoded : decodeEnvelope deployment.kernel observed = .ok envelope)
    (holds : EnvelopeLog deployment.kernel (deployment.Settled world) envelope
      log state) :
    Completes (Exec deployment.port me) deployment.Tidy
      (fun found final => log.length ≤ backend.workBound ∧
        world.Leases me (do
          let next ← nextFence envelope.fence
          return ⟨next⟩) found final)
      (fun fault final => final = world ∧
        (backend.workBound < log.length ∧
            fault = .refused .workBoundExceeded ∨
          log.length ≤ backend.workBound ∧
            nextFence envelope.fence = .error fault))
      (bumpFence deployment.kernel backend observed) world := by
  have read := (Resolves.of_anchored (holds.anchored backend)).completes
    fresh.toShelving calm tidy
  unfold bumpFence
  rw [decoded]
  apply Completes.bind (Completes.weaken read (fun _ _ => id) ?_)
  · rintro found _ ⟨rfl, outcome⟩
    split at outcome
    · next bounded =>
        cases counted : nextFence envelope.fence with
        | error fault => exact ⟨rfl, .inr ⟨bounded, rfl⟩⟩
        | ok fence =>
            apply (exchangeState_completes calm free current).bind
            rintro outcome _ ⟨exchanged, landed⟩
            rw [if_pos exchanged]
            exact ⟨bounded, _, _, _, rfl, rfl, .refl _, .refl _, current ▸ landed⟩
    · cases outcome
  · rintro fault final ⟨same, outcome⟩
    split at outcome
    · cases outcome
    · next exceeded =>
        cases outcome
        exact ⟨same, .inl ⟨Nat.lt_of_not_le exceeded, rfl⟩⟩

/-- The end of a lease that is refused. -/
def Deployment.Unleased (deployment : Deployment) (verdict : Result Lease)
    (standing : Standing) (world : World) (fault : Fault) (final : World) :
    Prop :=
  world.Stays final ∧ (verdict = .error fault ∧ world.Apart final ∨
    world.Exhausts standing fault ∨ deployment.Excused fault final)

/-- A round of the lease loop ends with a lease. -/
theorem acquireAttempt_completes
    (fresh : Fresh deployment start values)
    (calm : ¬ deployment.port.faulty me)
    (tidy : deployment.Tidy world)
    (free : world.held = none)
    (stands : deployment.Stands world standing)
    (able : capable deployment.port backend false = .ok ()) :
    Completes (Exec deployment.port me) deployment.Tidy
      (world.Leases me (leased deployment.port backend standing))
      (deployment.Unleased (leased deployment.port backend standing) standing
        world)
      (acquireAttempt deployment.kernel backend) world := by
  have verdict : leased deployment.port backend standing =
      match standing.fence with
      | none => .ok ⟨1⟩
      | some fence =>
          if backend.workBound < standing.state.entries.size then
            refuse .workBoundExceeded
          else do
            let next ← nextFence fence
            return ⟨next⟩ := by
    rw [leased, able]
    rfl
  apply (stateBytes_completes calm).bind
  rintro bytes final ⟨same, rfl⟩
  rw [same, verdict]
  cases leased : standing.fence with
  | none =>
      have absent : world.state = none := by
        rcases stands.leased with ⟨absent, _⟩ | ⟨envelope, _, here⟩
        · exact absent
        · rw [leased] at here
          cases here
      rw [absent]
      apply Completes.weaken (installV2_completes calm tidy free absent)
      · exact fun _ _ => id
      · rintro fault final ⟨kept, refused⟩
        refine ⟨kept.toStays, .inr (refused.imp_left fun facts => ?_)⟩
        exact ⟨leased, facts⟩
  | some fence =>
      obtain ⟨observed, envelope, log, current, selects, rfl, _, holds⟩ :=
        stands.envelope leased
      obtain ⟨_, sameBytes, isV2, decoded⟩ := selects
      cases sameBytes
      have counted : log.length = standing.state.entries.size := by
        rw [holds.holds.entries, indexed_size holds.follows]
      rw [current]
      simp only [isV2, Bool.false_eq_true, if_false]
      apply Completes.weaken (bumpFence_completes fresh calm tidy free current
        decoded holds)
      · rintro found final ⟨bounded, leases⟩
        rw [if_neg (by omega)]
        exact leases
      · rintro fault final ⟨same, refused⟩
        rw [same]
        refine ⟨(World.Kept.refl world).toStays, .inl ⟨?_, .refl world⟩⟩
        rcases refused with ⟨exceeded, rfl⟩ | ⟨bounded, exhausted⟩
        · rw [if_pos (by omega)]
          rfl
        · rw [if_neg (by omega), exhausted]
          rfl

/-- An undisturbed lease ends as what the store stands for decides. -/
theorem acquireLease_completes
    (fresh : Fresh deployment start values)
    (calm : ¬ deployment.port.faulty me)
    (free : world.held = none)
    (stands : deployment.Stands world standing) :
    Completes (Exec deployment.port me) deployment.Tidy
      (fun outcome final => ∃ lease, outcome = .lease lease ∧
        world.Leases me (leased deployment.port backend standing)
          (some lease) final)
      (deployment.Unleased (leased deployment.port backend standing) standing
        world)
      (acquireLease deployment.kernel backend) world := by
  have unguarded : (false = true → deployment.port.guarded = true) := by simp
  apply Completes.bind (Completes.weaken (writeCapable_completes unguarded)
    (fun _ _ => id) ?_)
  · rintro _ final ⟨same, able⟩
    rw [same]
    apply Completes.bind (Completes.weaken (ensureLayout_undisturbed calm)
      (fun _ _ => id) fun fault final failed =>
        ⟨failed.1.toStays, .inr (.inr failed.2)⟩)
    rintro _ ready ⟨tidy, kept, unchanged⟩
    have apart : world.Apart ready := fun _ _ => unchanged _
    have round := acquireAttempt_completes fresh calm tidy
      (kept.held.trans free) (kept.toStays.stands fresh stands) able
    apply Completes.bind (Completes.weaken round (fun _ _ => id) ?_)
    · rintro found last ⟨lease, replacement, middle, rfl, verdict, since,
        further, landed⟩
      exact ⟨lease, rfl, lease, replacement, middle, rfl, verdict,
        kept.trans since, apart.trans further, kept.state ▸ landed⟩
    · rintro fault last ⟨stays, refused⟩
      refine ⟨kept.toStays.trans stays, ?_⟩
      rcases refused with ⟨decided, onward⟩ | exhausts | excused
      · exact .inl ⟨decided, apart.trans onward⟩
      · obtain ⟨unfenced, ⟨name, present⟩, failed⟩ := exhausts
        exact .inr (.inl ⟨unfenced, ⟨name, unchanged _ ▸ present⟩, failed⟩)
      · exact .inr (.inr excused)
  · rintro fault final ⟨same, refused⟩
    rw [same]
    refine ⟨(World.Kept.refl world).toStays, .inl ⟨?_, .refl world⟩⟩
    rw [leased, refused]
    rfl

end Leases

section Objects

variable {object : JournalObject} {meaning : ContentId}

/-- An undisturbed put ends as it is decided. -/
theorem putDatum_completes
    (fresh : Fresh deployment start values)
    (calm : ¬ deployment.port.faulty me)
    (free : world.held = none)
    (supplied : deployment.Supplied object) :
    Completes (Exec deployment.port me) deployment.Tidy
      (fun reference final =>
        stored deployment.kernel deployment.port backend object =
            .ok reference ∧
          world.Kept final ∧ deployment.Stores [object] world final)
      (fun fault final => world.Stays final ∧
        (stored deployment.kernel deployment.port backend object =
              .error fault ∧ world.Apart final ∨
          deployment.Excused fault final))
      (putDatum deployment.kernel backend object) world := by
  have unguarded : (false = true → deployment.port.guarded = true) := by simp
  apply Completes.bind (Completes.weaken (writeCapable_completes unguarded)
    (fun _ _ => id) ?_)
  · rintro _ final ⟨same, able⟩
    rw [same]
    apply Completes.bind (Completes.weaken (ensureLayout_undisturbed calm)
      (fun _ _ => id) fun _ _ failed => ⟨failed.1.toStays, .inr failed.2⟩)
    rintro _ ready ⟨_, kept, unchanged⟩
    have apart : world.Apart ready := fun _ _ => unchanged _
    cases verified : object.verify deployment.kernel with
    | error fault =>
        unfold putObject
        rw [verified]
        refine ⟨kept.toStays, .inl ⟨?_, apart⟩⟩
        rw [stored, able, verified]
        rfl
    | ok done =>
        cases done
        cases put : object.storageBytes deployment.kernel with
        | error fault =>
            unfold putObject
            rw [verified, put]
            refine ⟨kept.toStays, .inl ⟨?_, apart⟩⟩
            rw [stored, able, verified, put]
            rfl
        | ok bytes =>
            apply Completes.weaken (putObject_undisturbed calm
              (kept.held.trans free) supplied verified put)
            · rintro reference final ⟨_, onward, shelved, rfl, others⟩
              refine ⟨?_, kept.trans onward, fun meaning => ?_⟩
              · rw [stored, able, verified, put]
                rfl
              · rw [shelved.stocks fresh onward.toStays others, apart.stocks]
                simp
            · rintro fault final ⟨onward, excused⟩
              exact ⟨(kept.trans onward).toStays, .inr excused⟩
  · rintro fault final ⟨same, refused⟩
    rw [same]
    refine ⟨(World.Kept.refl world).toStays, .inl ⟨?_, .refl world⟩⟩
    rw [stored, refused]
    rfl

/-- The datum that a stored object of a meaning is read back as. -/
def Deployment.Finds (deployment : Deployment) (world : World)
    (meaning : ContentId) (datum : Datum) : Prop :=
  ∃ object bytes, deployment.Shelved world object bytes ∧
    object.id = meaning ∧ datum = (object.stored deployment.kernel).datum

/-- Whatever a directory lists, only a stored object is found in it. -/
theorem findObject_unstocked
    (lawful : deployment.kernel.Lawful)
    (calm : ¬ deployment.port.faulty me)
    (tidy : deployment.Tidy world)
    (unstocked : ¬ deployment.Stocks world meaning) :
    Completes (Exec deployment.port me) deployment.Tidy
      (fun _ _ => False) (fun _ final => final = world)
      (findObject deployment.kernel meaning) world := by
  have checked {α β : Type} {result : Result α} {next : α → HostProgram β}
      (passes : ∀ value, result = .ok value →
        Completes (Exec deployment.port me) deployment.Tidy
          (fun _ _ => False) (fun _ final => final = world) (next value)
          world) :
      Completes (Exec deployment.port me) deployment.Tidy
        (fun _ _ => False) (fun _ final => final = world)
        (pureResult result >>= next) world :=
    .check (fun _ _ => rfl) passes
  constructor
  · by_cases here : objectDir meaning ∈ world.dirs
    · exact ⟨_, _, .list here⟩
    · exact ⟨.error ⟨.notFound, "not found"⟩, _, .listMissing here rfl⟩
  intro reply after executed _
  cases executed with
  | listMissing _ _ => rfl
  | listFailed faulty _ => exact absurd faulty calm
  | list _ =>
      apply checked
      intro file chosen
      apply checked
      intro storage _
      constructor
      · cases here : world.leaf (objectDir meaning ++ [file.name]) with
        | some bytes => exact ⟨_, _, .read here⟩
        | none =>
            exact ⟨.error ⟨.notFound, "not found"⟩, _, .readMissing here rfl⟩
      intro reply after executed _
      cases executed with
      | readMissing _ _ => rfl
      | readFailed faulty _ => exact absurd faulty calm
      | @read _ _ bytes here =>
          apply checked
          intro object passed
          obtain ⟨stored, shelved, _⟩ := tidy.toShelves.shelved here rfl
          obtain ⟨_, read, same⟩ := checkObject_eq_ok.mp passed
          rw [JournalObject.fromStorageBytes_storageBytes lawful shelved.sound
            shelved.put] at read
          cases read
          exact unstocked ⟨stored, bytes, shelved, same⟩

/-- An undisturbed find returns exactly the datum of a stored object. -/
theorem getDatum_completes
    (fresh : Fresh deployment start values)
    (calm : ¬ deployment.port.faulty me)
    (tidy : deployment.Tidy world) :
    Completes (Exec deployment.port me) deployment.Tidy
      (fun datum final => final = world ∧
        deployment.Finds world meaning datum)
      (fun _ final => final = world ∧ ¬ deployment.Stocks world meaning)
      (getDatum deployment.kernel meaning) world := by
  by_cases stocks : deployment.Stocks world meaning
  · obtain ⟨object, bytes, shelved, rfl⟩ := stocks
    have found := (shelved.found fresh.toShelving).completes fresh.toShelving
      calm tidy
    apply Completes.bind (Completes.weaken found (fun _ _ => id) ?_)
    · rintro _ final ⟨rfl, same⟩
      cases same
      exact ⟨rfl, object, bytes, shelved, rfl, rfl⟩
    · rintro _ _ ⟨_, impossible⟩
      cases impossible
  · have nothing := findObject_unstocked fresh.lawful calm tidy stocks
    apply Completes.bind (Completes.weaken nothing (fun _ _ => id) ?_)
    · exact fun _ _ => False.elim
    · rintro _ final rfl
      exact ⟨rfl, stocks⟩

end Objects

section Leaving

theorem leased_eq_ok
    {port : Port} {lease : Lease}
    (decided : leased port backend standing = .ok lease) :
    lease.fence.toNat = (standing.fence.getD 0).toNat + 1 := by
  obtain ⟨_, _, decided⟩ := bind_eq_ok.mp decided
  cases fenced : standing.fence with
  | none =>
      rw [fenced] at decided
      cases decided
      rfl
  | some fence =>
      rw [fenced] at decided
      dsimp only at decided
      split at decided
      · cases decided
      · obtain ⟨next, counted, made⟩ := bind_eq_ok.mp decided
        cases made
        exact nextFence_eq_ok.mp counted

/-- The fence that the state leaf stores is the fence of the last lease. -/
theorem Deployment.Stands.storedFence
    (stands : deployment.Stands world standing) :
    storedFence deployment.kernel world.state =
      some (standing.fence.getD 0) := by
  rcases stands.leased with ⟨absent, unfenced⟩ | ⟨envelope, selects, same⟩
  · rw [absent, unfenced]
    rfl
  · rw [storedFence_of_selects selects, same]
    rfl

/-- After a lease the store stands for the same state, at the next fence. -/
theorem Fresh.releases
    {lease : Lease}
    (fresh : Fresh deployment start values)
    (reaches : deployment.Reaches start system)
    (steps : deployment.Steps system later)
    (working : deployment.workload me = .acquireLease)
    (stands : deployment.Stands system.world standing)
    (leases : system.world.Leases me
      (leased deployment.port backend standing) (some lease) later.world) :
    deployment.Stands later.world ⟨some lease.fence, standing.state⟩ := by
  obtain ⟨found, replacement, middle, same, decided, _, _, landed⟩ := leases
  cases same
  obtain ⟨log, commits⟩ := stands.commits
  have kept := fresh.readable.sound.moves reaches steps
  have still : deployment.Commits later.world system.world.state log
      standing.state :=
    commits.mono fun _ _ settled => settled_of_moves kept settled
  have member : Event.exchanged (some me) system.world.state
      (some replacement) ∈ later.world.history := by
    rw [landed.history]
    exact List.mem_append_right _ List.mem_cons_self
  obtain ⟨_, _, exchange, _⟩ :=
    fresh.readable.exchange_of_own (reaches.trans steps) member
  generalize new : some replacement = leaf at exchange
  generalize current : system.world.state = old at exchange still
  cases exchange with
  | leased _ leases =>
      obtain ⟨fence, envelope, stored, selects, grows⟩ := leases.fences
      obtain ⟨_, _, before, after⟩ := leases.logs trivial
      obtain ⟨rfl, rfl⟩ := still.unique before
      rw [← current, stands.storedFence] at stored
      cases stored
      subst new
      refine ⟨.inr ⟨envelope, ?_, ?_⟩, log, ?_⟩
      · rw [landed.state]
        exact selects
      · apply congrArg some
        apply UInt64.toNat_inj.mp
        rw [grows, leased_eq_ok decided]
      · rw [landed.state]
        exact after
  | appended here _ =>
      rw [working] at here
      cases here
  | confirmed here _ =>
      rw [working] at here
      cases here

end Leaving

section Calls

/-- How an undisturbed call ends that is no publication and no rebuild. -/
inductive Deployment.Answers (deployment : Deployment) (me : CallId)
    (standing : Standing) (world : World) :
    Operation → Result Outcome → World → Prop where
  /-- A lease takes the next fence, and the committed state stays. -/
  | leased {lease : Lease} {final : World} :
      leased deployment.port (deployment.backends me) standing = .ok lease →
      deployment.Stands final ⟨some lease.fence, standing.state⟩ →
      deployment.Stores [] world final →
      Answers deployment me standing world .acquireLease
        (.ok (.lease lease)) final
  | unleased {fault : Fault} {final : World} :
      leased deployment.port (deployment.backends me) standing =
        .error fault →
      deployment.Stands final standing →
      deployment.Stores [] world final →
      Answers deployment me standing world .acquireLease (.error fault) final
  | exhausted {fault : Fault} {final : World} :
      world.Exhausts standing fault →
      deployment.Stands final standing →
      Answers deployment me standing world .acquireLease (.error fault) final
  /-- A put stores its object, and the committed state stays. -/
  | put {object : JournalObject} {reference : StoredDatumRef}
      {final : World} :
      stored deployment.kernel deployment.port (deployment.backends me)
        object = .ok reference →
      deployment.Stands final standing →
      deployment.Stores [object] world final →
      Answers deployment me standing world (.putDatum object)
        (.ok (.reference reference)) final
  | unput {object : JournalObject} {fault : Fault} {final : World} :
      stored deployment.kernel deployment.port (deployment.backends me)
        object = .error fault →
      deployment.Stands final standing →
      deployment.Stores [] world final →
      Answers deployment me standing world (.putDatum object) (.error fault)
        final
  /-- A find returns what is stored under the meaning, if anything is. -/
  | found {meaning : ContentId} {datum : Datum} :
      deployment.Finds world meaning datum →
      Answers deployment me standing world (.getDatum meaning)
        (.ok (.datum datum)) world
  | missing {meaning : ContentId} {fault : Fault} :
      ¬ deployment.Stocks world meaning →
      Answers deployment me standing world (.getDatum meaning) (.error fault)
        world
  /-- A read returns the committed state within the work bound. -/
  | read :
      Answers deployment me standing world .readState
        (do
          let state ← visible (deployment.backends me) standing
          return .state state) world
  /-- A snapshot is made of the committed state within the work bound. -/
  | snapshot :
      Answers deployment me standing world .verifiedSnapshot
        (do
          let snapshot ← snapshotted deployment.kernel
            (deployment.backends me) standing
          return .snapshot snapshot) world
  /-- An excused call leaves the state as it is. -/
  | excused {operation : Operation} {fault : Fault} {final : World} :
      deployment.Excused fault final →
      deployment.Stands final standing →
      Answers deployment me standing world operation (.error fault) final

/-- An undisturbed call has an end, and every end is as said. -/
def Deployment.EndsAlone (deployment : Deployment) (me : CallId)
    (system : HostSystem) (ends : Result Outcome → World → Prop) : Prop :=
  (∃ outcome final, deployment.RunsAlone me system outcome final) ∧
    ∀ outcome final, deployment.RunsAlone me system outcome final →
      ends outcome final

/-- The end of a call with the guard released. -/
def Deployment.Ended (deployment : Deployment) (me : CallId)
    (standing : Standing) (world : World) (outcome : Result Outcome)
    (final : World) : Prop :=
  final.held = none ∧ deployment.Answers me standing world
    (deployment.workload me) outcome final

/-- A completing call ends alone, as the postconditions say. -/
theorem Deployment.Ready.endsAlone
    {done : Outcome → World → Prop} {failed : Fault → World → Prop}
    {ends : Result Outcome → World → Prop}
    (ready : deployment.Ready start me system)
    (fresh : Fresh deployment start values)
    (completes : Completes (Exec deployment.port me) deployment.Tidy done failed
      (deployment.program me) system.world)
    (implies : ∀ outcome final,
      deployment.Steps system ⟨final, System.update system.programs me
        (some (System.ended outcome))⟩ →
      Ends done failed outcome final → ends outcome final) :
    deployment.EndsAlone me system ends :=
  ⟨Completes.exists_run ready.waiting (ready.kept fresh) completes,
    fun outcome final run => implies outcome final
      (System.Steps.of_runs ready.waiting run)
      (Completes.ends ready.waiting (ready.kept fresh) completes run)⟩

theorem Deployment.Ready.leases
    (ready : deployment.Ready start me system)
    (fresh : Fresh deployment start values)
    (working : deployment.workload me = .acquireLease)
    (stands : deployment.Stands system.world standing) :
    deployment.EndsAlone me system
      (deployment.Ended me standing system.world) := by
  have completes := @acquireLease_completes _ me _ _ _ (deployment.backends me)
    _ fresh ready.calm ready.free stands
  have program : deployment.program me =
      acquireLease deployment.kernel (deployment.backends me) := by
    rw [Deployment.program, working]
    rfl
  rw [← program] at completes
  apply ready.endsAlone fresh completes
  intro outcome final steps ended
  rw [Deployment.Ended, working]
  cases outcome with
  | error fault =>
      obtain ⟨stays, refused⟩ := ended
      have still := stays.stands fresh stands
      refine ⟨stays.held.trans ready.free, ?_⟩
      rcases refused with ⟨decided, apart⟩ | exhausts | excused
      · exact .unleased decided still apart.stores
      · exact .exhausted exhausts still
      · exact .excused excused still
  | ok outcome =>
      obtain ⟨lease, rfl, leases⟩ := ended
      have onward := fresh.releases ready.reaches steps working stands leases
      obtain ⟨_, _, _, same, decided, _, apart, landed⟩ := leases
      cases same
      exact ⟨landed.held, .leased decided onward
        (apart.trans landed.apart).stores⟩

theorem Deployment.Ready.puts
    {object : JournalObject}
    (ready : deployment.Ready start me system)
    (fresh : Fresh deployment start values)
    (working : deployment.workload me = .putDatum object)
    (stands : deployment.Stands system.world standing) :
    deployment.EndsAlone me system
      (deployment.Ended me standing system.world) := by
  have supplied : deployment.Supplied object := by
    refine ⟨me, ?_⟩
    rw [working]
    exact List.mem_singleton.mpr rfl
  have completes : Completes (Exec deployment.port me) deployment.Tidy
      (fun outcome final => ∃ reference, outcome = .reference reference ∧
        stored deployment.kernel deployment.port (deployment.backends me)
          object = .ok reference ∧
        system.world.Kept final ∧
          deployment.Stores [object] system.world final)
      (fun fault final => system.world.Stays final ∧
        (stored deployment.kernel deployment.port (deployment.backends me)
              object = .error fault ∧ system.world.Apart final ∨
          deployment.Excused fault final))
      (deployment.program me) system.world := by
    rw [Deployment.program, working]
    apply (putDatum_completes fresh ready.calm ready.free supplied).bind
    exact fun reference final done => ⟨reference, rfl, done⟩
  apply ready.endsAlone fresh completes
  intro outcome final _ ended
  rw [Deployment.Ended, working]
  cases outcome with
  | error fault =>
      obtain ⟨stays, refused⟩ := ended
      have still := stays.stands fresh stands
      refine ⟨stays.held.trans ready.free, ?_⟩
      rcases refused with ⟨decided, apart⟩ | excused
      · exact .unput decided still apart.stores
      · exact .excused excused still
  | ok outcome =>
      obtain ⟨reference, rfl, decided, kept, stores⟩ := ended
      exact ⟨kept.held.trans ready.free,
        .put decided (kept.toStays.stands fresh stands) stores⟩

theorem Deployment.Ready.finds
    {meaning : ContentId}
    (ready : deployment.Ready start me system)
    (fresh : Fresh deployment start values)
    (working : deployment.workload me = .getDatum meaning) :
    deployment.EndsAlone me system
      (deployment.Ended me standing system.world) := by
  have completes : Completes (Exec deployment.port me) deployment.Tidy
      (fun outcome final => ∃ datum, outcome = .datum datum ∧
        final = system.world ∧ deployment.Finds system.world meaning datum)
      (fun _ final => final = system.world ∧
        ¬ deployment.Stocks system.world meaning)
      (deployment.program me) system.world := by
    rw [Deployment.program, working]
    apply (getDatum_completes fresh ready.calm (fresh.tidy ready.reaches)).bind
    exact fun datum final done => ⟨datum, rfl, done⟩
  apply ready.endsAlone fresh completes
  intro outcome final _ ended
  rw [Deployment.Ended, working]
  cases outcome with
  | error fault =>
      obtain ⟨rfl, unstocked⟩ := ended
      exact ⟨ready.free, .missing unstocked⟩
  | ok outcome =>
      obtain ⟨datum, rfl, rfl, found⟩ := ended
      exact ⟨ready.free, .found found⟩

/-- An undisturbed read decides on what the store stands for. -/
theorem Deployment.Ready.sees
    (ready : deployment.Ready start me system)
    (fresh : Fresh deployment start values)
    (stands : deployment.Stands system.world standing) :
    Completes (Exec deployment.port me) deployment.Tidy
      (fun state final => final = system.world ∧
        visible (deployment.backends me) standing = .ok state)
      (fun fault final => final = system.world ∧
        visible (deployment.backends me) standing = .error fault)
      (readState deployment.kernel (deployment.backends me)) system.world := by
  obtain ⟨log, commits⟩ := stands.commits
  have counted : log.length = standing.state.entries.size := by
    rw [commits.holds.entries, indexed_size commits.holds.follows]
  apply Completes.weaken (readState_completes fresh ready.calm
    (fresh.tidy ready.reaches) commits)
  · rintro state final ⟨same, rfl, bounded⟩
    rw [visible, if_neg (by omega)]
    exact ⟨same, rfl⟩
  · rintro fault final ⟨same, rfl, exceeded⟩
    rw [visible, if_pos (by omega)]
    exact ⟨same, rfl⟩

theorem Deployment.Ready.reads
    (ready : deployment.Ready start me system)
    (fresh : Fresh deployment start values)
    (working : deployment.workload me = .readState)
    (stands : deployment.Stands system.world standing) :
    deployment.EndsAlone me system
      (deployment.Ended me standing system.world) := by
  have completes : Completes (Exec deployment.port me) deployment.Tidy
      (fun outcome final => final = system.world ∧ ∃ state,
        visible (deployment.backends me) standing = .ok state ∧
          outcome = .state state)
      (fun fault final => final = system.world ∧
        visible (deployment.backends me) standing = .error fault)
      (deployment.program me) system.world := by
    rw [Deployment.program, working]
    apply (ready.sees fresh stands).bind
    exact fun state final done => ⟨done.1, state, done.2, rfl⟩
  apply ready.endsAlone fresh completes
  intro outcome final _ ended
  rw [Deployment.Ended, working]
  have answers := @Deployment.Answers.read deployment me standing system.world
  cases outcome with
  | error fault =>
      obtain ⟨rfl, refused⟩ := ended
      rw [refused] at answers
      exact ⟨ready.free, answers⟩
  | ok outcome =>
      obtain ⟨rfl, state, seen, rfl⟩ := ended
      rw [seen] at answers
      exact ⟨ready.free, answers⟩

theorem Deployment.Ready.snapshots
    (ready : deployment.Ready start me system)
    (fresh : Fresh deployment start values)
    (working : deployment.workload me = .verifiedSnapshot)
    (stands : deployment.Stands system.world standing) :
    deployment.EndsAlone me system
      (deployment.Ended me standing system.world) := by
  have completes : Completes (Exec deployment.port me) deployment.Tidy
      (fun outcome final => final = system.world ∧ ∃ snapshot,
        snapshotted deployment.kernel (deployment.backends me) standing =
          .ok snapshot ∧ outcome = .snapshot snapshot)
      (fun fault final => final = system.world ∧
        snapshotted deployment.kernel (deployment.backends me) standing =
          .error fault)
      (deployment.program me) system.world := by
    rw [Deployment.program, working]
    change Completes _ _ _ _ ((readState _ _ >>= _) >>= _) _
    rw [Program.bind_assoc]
    apply Completes.bind (Completes.weaken (ready.sees fresh stands)
      (fun _ _ => id) ?_)
    · rintro state final ⟨same, seen⟩
      rw [same]
      have verdict : snapshotted deployment.kernel (deployment.backends me)
          standing = VerifiedSnapshot.fromState deployment.kernel state := by
        rw [snapshotted, seen]
        rfl
      rw [verdict]
      apply Completes.check
      · exact fun fault refused => ⟨rfl, refused⟩
      · exact fun snapshot made => ⟨rfl, snapshot, made, rfl⟩
    · rintro fault final ⟨same, refused⟩
      refine ⟨same, ?_⟩
      rw [snapshotted, refused]
      rfl
  apply ready.endsAlone fresh completes
  intro outcome final _ ended
  rw [Deployment.Ended, working]
  have answers :=
    @Deployment.Answers.snapshot deployment me standing system.world
  cases outcome with
  | error fault =>
      obtain ⟨rfl, refused⟩ := ended
      rw [refused] at answers
      exact ⟨ready.free, answers⟩
  | ok outcome =>
      obtain ⟨rfl, snapshot, made, rfl⟩ := ended
      rw [made] at answers
      exact ⟨ready.free, answers⟩

/-- The operations besides publications and the rebuilding of the index. -/
def Plain : Operation → Prop
  | .publish _ => False
  | .publishThen _ => False
  | .rebuildDatumIndex => False
  | _ => True

/-- Undisturbed calls besides publications do what their stores decide. -/
def Deployment.AnswersAlone (deployment : Deployment) (start : World) : Prop :=
  ∀ system me standing,
    deployment.Ready start me system →
    Plain (deployment.workload me) →
    deployment.Stands system.world standing →
    deployment.EndsAlone me system
      (deployment.Ended me standing system.world)

theorem Deployment.Ready.answers
    (ready : deployment.Ready start me system)
    (fresh : Fresh deployment start values)
    (plain : Plain (deployment.workload me))
    (stands : deployment.Stands system.world standing) :
    deployment.EndsAlone me system
      (deployment.Ended me standing system.world) := by
  cases working : deployment.workload me with
  | acquireLease => exact ready.leases fresh working stands
  | readState => exact ready.reads fresh working stands
  | putDatum object => exact ready.puts fresh working stands
  | getDatum meaning => exact ready.finds fresh working
  | verifiedSnapshot => exact ready.snapshots fresh working stands
  | publish publication => exact (working ▸ plain).elim
  | publishThen publication => exact (working ▸ plain).elim
  | rebuildDatumIndex => exact (working ▸ plain).elim

/-- From an empty store, undisturbed calls do what is decided. -/
theorem undisturbed_calls_exact
    (lawful : deployment.kernel.Lawful)
    (modern : ¬ deployment.port.legacy)
    (free : deployment.kernel.CollisionFree values)
    (within : ∀ object, deployment.Supplied object → object.datum ∈ values)
    (empty : Empty start) :
    deployment.AnswersAlone start := by
  have fresh : Fresh deployment start values :=
    ⟨⟨lawful, empty, free, within⟩, modern⟩
  exact fun system me standing ready plain stands =>
    ready.answers fresh plain stands

theorem serial_answers_alone :
    Deployment.serial.AnswersAlone .vacant :=
  undisturbed_calls_exact Reference.kernel_lawful id serialValues_free
    Deployment.serial_within World.vacant_empty

end Calls

end SimStorage.Journal.Host
