import SimStorage.Journal.Host.AppendOnly

namespace SimStorage.Journal.Host

/-!
# Reading back the committed log

A read of the state returns what was committed when it read the state leaf,
whatever other calls do between its further reads.  The leaves that a committed
envelope reaches are there, and keep their bytes for ever.
-/

open Codec NativeCodec Interaction

variable {deployment : Deployment} {grounded : Prop} {me : CallId}
variable {start world after : World} {system later : HostSystem}

section Definitions

/-- The locations on the locator chain of an envelope. -/
inductive Located (kernel : Kernel) (files : Path → Option Bytes)
    (envelope : NativeStateEnvelope) : EntryLocation → Prop where
  | head {location : EntryLocation} :
      envelope.headLocation = some location →
      Located kernel files envelope location
  | previous {location earlier : EntryLocation} {bytes : Bytes}
      {physical : PhysicalEntry} :
      Located kernel files envelope location →
      files (entryPath location) = some bytes →
      decodeV2Entry kernel bytes = .ok physical →
      physical.previousLocation = some earlier →
      Located kernel files envelope earlier

/-- The leaves that an envelope reaches: its marker, entries and payloads. -/
inductive EnvelopeLeaf (kernel : Kernel) (files : Path → Option Bytes)
    (envelope : NativeStateEnvelope) : Path → Prop where
  | marker :
      EnvelopeLeaf kernel files envelope (markerPath envelope.entryNamespace)
  | entry {location : EntryLocation} :
      Located kernel files envelope location →
      EnvelopeLeaf kernel files envelope (entryPath location)
  | object {location : EntryLocation} {bytes : Bytes}
      {physical : PhysicalEntry} {reference : StoredDatumRef} :
      Located kernel files envelope location →
      files (entryPath location) = some bytes →
      decodeV2Entry kernel bytes = .ok physical →
      reference ∈ physical.payloads →
      EnvelopeLeaf kernel files envelope (objectPath reference)

/-- A call issues its next request. -/
def Deployment.Issues (deployment : Deployment) (me : CallId)
    (before after : HostSystem) : Prop :=
  ∃ (request : HostCall) (next : HostReply request → HostProgram Outcome)
      (reply : HostReply request) (world : World),
    before.programs me = some (.call request next) ∧
      Exec deployment.port me request before.world reply world ∧
      after = ⟨world, System.update before.programs me (some (next reply))⟩

/-- Wherever a call stands, it can only go on to return the outcome. -/
structure Deployment.BoundFor (deployment : Deployment) (me : CallId)
    (outcome : Outcome) (system : HostSystem) : Prop where
  returns : ∀ found, system.programs me = some (.ret found) → found = outcome
  never_fails : ∀ fault, system.programs me ≠ some (.fail fault)
  finishes : ∀ program, system.programs me = some program →
    ∃ final,
      Runs (Exec deployment.port me) program system.world (.ok outcome) final

end Definitions

section Leaves

/-- Every reference that holds an object has a known leaf. -/
theorem ObjectsHold.known_leaf
    {kernel : Kernel} {known : Path → Bytes → Prop}
    {references : List StoredDatumRef} {objects : List JournalObject}
    {reference : StoredDatumRef}
    (holds : ObjectsHold kernel known references objects)
    (member : reference ∈ references) :
    ∃ bytes, known (objectPath reference) bytes := by
  induction holds with
  | nil => cases member
  | cons found _ inductionHypothesis =>
      rcases List.mem_cons.mp member with rfl | later
      · obtain ⟨bytes, known, _⟩ := found
        exact ⟨bytes, known⟩
      · exact inductionHypothesis later

/-- A location of an envelope is that of a link of its chain. -/
theorem Located.link
    {kernel : Kernel} {known : Path → Bytes → Prop}
    {files : Path → Option Bytes} {envelope : NativeStateEnvelope}
    {location : EntryLocation} {links : List Link}
    (chain : Chain kernel known envelope.entryNamespace none
      envelope.headLocation links)
    (present : ∀ path bytes, known path bytes → files path = some bytes)
    (located : Located kernel files envelope location) :
    ∃ front link rest, links = front ++ link :: rest ∧
      link.location = location ∧
      link.Present kernel known envelope.entryNamespace ∧
      Chain kernel known envelope.entryNamespace none
        link.physical.previousLocation rest := by
  have first {place : EntryLocation} {links : List Link}
      (chain : Chain kernel known envelope.entryNamespace none (some place)
        links) :
      ∃ link rest, links = link :: rest ∧ link.location = place ∧
        link.Present kernel known envelope.entryNamespace ∧
        Chain kernel known envelope.entryNamespace none
          link.physical.previousLocation rest := by
    cases links with
    | nil => cases chain
    | cons link rest =>
        obtain ⟨here, found, later⟩ := chain
        exact ⟨link, rest, rfl, (Option.some.inj here).symm, found, later⟩
  induction located with
  | head here =>
      rw [here] at chain
      obtain ⟨link, rest, same, facts⟩ := first chain
      exact ⟨[], link, rest, same, facts⟩
  | @previous location earlier bytes physical _ found decoded before
      inductionHypothesis =>
      obtain ⟨front, link, rest, same, rfl, holds, later⟩ :=
        inductionHypothesis
      obtain ⟨other, known, checked⟩ := holds.leaf
      obtain rfl : bytes = other :=
        Option.some.inj (found.symm.trans (present _ _ known))
      have read := (checkEntryLeaf_eq_ok.mp checked).2.1
      obtain rfl : link.physical = physical :=
        Except.ok.inj (read.symm.trans decoded)
      rw [before] at later
      obtain ⟨next, rest, rfl, facts⟩ := first later
      exact ⟨front ++ [link], next, rest, by simp [same], facts⟩

/-- The leaves that a committed envelope reaches are settled. -/
theorem EnvelopeLog.settled
    {envelope : NativeStateEnvelope} {log : List JournalEntry}
    {state : StoredState} {path : Path}
    (holds : EnvelopeLog deployment.kernel (deployment.Settled world) envelope
      log state)
    (leaf : EnvelopeLeaf deployment.kernel world.leaf envelope path) :
    ∃ bytes, deployment.Settled world path bytes := by
  obtain ⟨_, _, links, _, chain, _, _⟩ := holds.chained
  have present : ∀ path bytes, deployment.Settled world path bytes →
      world.leaf path = some bytes := fun _ _ settled => settled.2
  cases leaf with
  | marker => exact ⟨_, holds.marker⟩
  | entry located =>
      obtain ⟨_, link, _, _, rfl, found, _⟩ := located.link chain present
      obtain ⟨bytes, settled, _⟩ := found.leaf
      exact ⟨bytes, settled⟩
  | @object location bytes physical reference located found decoded member =>
      obtain ⟨_, link, _, _, rfl, here, _⟩ := located.link chain present
      obtain ⟨other, settled, checked⟩ := here.leaf
      obtain rfl : bytes = other :=
        Option.some.inj (found.symm.trans (present _ _ settled))
      have read := (checkEntryLeaf_eq_ok.mp checked).2.1
      obtain rfl : link.physical = physical :=
        Except.ok.inj (read.symm.trans decoded)
      exact here.objects.known_leaf member

end Leaves

section Residuals

variable {program : HostProgram Outcome} {state : StoredState}

/-- A reader that is anchored in a store runs to its outcome there. -/
theorem Anchored.runs
    {α : Type} {program : HostProgram α} {outcome : Result α}
    (anchored : Anchored world.present program outcome) :
    Runs (Exec deployment.port me) program world outcome world := by
  induction anchored with
  | ret value => exact .ret value world
  | fail fault => exact .fail fault world
  | read found _ inductionHypothesis =>
      exact .call (.read found) inductionHypothesis

/-- A request of an anchored reader keeps it anchored, and the store as it is. -/
theorem Anchored.exec
    {α : Type} {request : HostCall}
    {next : HostReply request → HostProgram α} {reply : HostReply request}
    {known : Path → Bytes → Prop} {value : α}
    (calm : ¬ deployment.port.faulty me)
    (present : ∀ path bytes, known path bytes → world.leaf path = some bytes)
    (anchored : Anchored known (.call request next) (.ok value))
    (executed : Exec deployment.port me request world reply after) :
    after = world ∧ Anchored known (next reply) (.ok value) := by
  cases anchored with
  | read found rest =>
      have held := present _ _ found
      cases executed with
      | read there =>
          rw [held] at there
          cases there
          exact ⟨rfl, rest⟩
      | readMissing missing _ =>
          rw [held] at missing
          cases missing
      | readFailed faulty _ => exact absurd faulty calm

/-- Moves keep settled leaves settled. -/
theorem settled_of_moves
    {path : Path} {bytes : Bytes}
    (moves : Relation.ReflTransGen (deployment.protocol grounded).Move world
      after)
    (settled : deployment.Settled world path bytes) :
    deployment.Settled after path bytes := by
  induction moves with
  | refl => exact settled
  | tail _ last inductionHypothesis =>
      obtain ⟨_, effect⟩ := effect_of_move last
      exact effect.settled inductionHypothesis

/-- The call's residual program is anchored in settled leaves. -/
def Deployment.AnchoredAt (deployment : Deployment) (me : CallId)
    (state : StoredState) (system : HostSystem) : Prop :=
  ∀ program, system.programs me = some program →
    Anchored (deployment.Settled system.world) program (.ok (.state state))

/-- A step of any party keeps an anchored call anchored. -/
theorem Sound.anchored_step
    (sound : Sound deployment grounded start)
    (calm : ¬ deployment.port.faulty me)
    (reaches : deployment.Reaches start system)
    (step : deployment.Step system later)
    (anchored : deployment.AnchoredAt me state system) :
    deployment.AnchoredAt me state later := by
  have kept : ∀ path bytes, deployment.Settled system.world path bytes →
      deployment.Settled later.world path bytes := by
    intro path bytes settled
    obtain ⟨_, same | move⟩ :=
      step.sound (resumable sound.lawful) (sound.allSafe reaches)
    · rwa [same]
    · exact settled_of_moves (.single move) settled
  have stays (running : later.programs me = system.programs me) :
      deployment.AnchoredAt me state later := fun program here =>
    (anchored program (running ▸ here)).mono kept
  cases step with
  | @issue caller request next reply world here executed =>
      by_cases same : me = caller
      · subst same
        rintro program found
        obtain rfl : next reply = program := by
          simpa [System.update_same] using found
        have present : ∀ path bytes,
            deployment.Settled system.world path bytes →
              system.world.leaf path = some bytes := fun _ _ settled => settled.2
        obtain ⟨_, rest⟩ :=
          (anchored _ here).exec calm present executed
        exact rest.mono kept
      · exact stays (System.update_other _ same _)
  | @resume caller value program here again =>
      by_cases same : me = caller
      · subst same
        obtain rfl := (anchored _ here).ret_ok
        cases again
      · exact stays (System.update_other _ same _)
  | @stop caller program world here crashed =>
      by_cases same : me = caller
      · subst same
        intro program found
        cases (System.update_same system.programs me none).symm.trans found
      · exact stays (System.update_other _ same _)
  | environment _ => exact stays rfl

theorem Sound.anchored_steps
    (sound : Sound deployment grounded start)
    (calm : ¬ deployment.port.faulty me)
    (reaches : deployment.Reaches start system)
    (steps : deployment.Steps system later)
    (anchored : deployment.AnchoredAt me state system) :
    deployment.AnchoredAt me state later := by
  induction steps with
  | refl => exact anchored
  | tail earlier last inductionHypothesis =>
      exact sound.anchored_step calm (reaches.trans earlier) last
        inductionHypothesis

/-- An anchored call can only return the state. -/
theorem Deployment.AnchoredAt.boundFor
    (anchored : deployment.AnchoredAt me state system) :
    deployment.BoundFor me (.state state) system where
  returns found here := ((anchored _ here).ret_ok).symm
  never_fails fault here := by
    have impossible := anchored _ here
    cases impossible
  finishes program here :=
    ⟨system.world,
      ((anchored _ here).mono fun _ _ settled => settled.2).runs⟩

end Residuals

section Reads

/-- The program of a read, once it has read the state leaf. -/
theorem anchored_of_issues
    {log : List JournalEntry} {state : StoredState}
    (calm : ¬ deployment.port.faulty me)
    (reading : deployment.workload me = .readState)
    (running : system.programs me = some (deployment.program me))
    (commits :
      deployment.Commits system.world system.world.state log state)
    (bounded : log.length ≤ (deployment.backends me).workBound)
    (issues : deployment.Issues me system later) :
    deployment.AnchoredAt me state later := by
  have anchored := Committed.anchored commits (deployment.backends me)
  rw [if_pos bounded] at anchored
  have whole : Anchored (deployment.Settled system.world)
      (readStateFrom deployment.kernel (deployment.backends me)
        system.world.state >>= fun found => .ret (Outcome.state found))
      (.ok (Outcome.state state)) := anchored.bind (.ret _)
  obtain ⟨request, next, reply, world, here, executed, rfl⟩ := issues
  have spelled := Option.some.inj (running.symm.trans here)
  unfold Deployment.program at spelled
  rw [reading] at spelled
  cases spelled
  rintro program found
  have residual := (System.update_same _ _ _).symm.trans found
  cases executed with
  | read there =>
      cases residual
      have same : system.world.state = some _ := there
      rw [same] at whole
      exact whole
  | readMissing missing kind =>
      cases residual
      have same : system.world.state = none := missing
      rw [same] at whole
      simp only [kind, if_true]
      exact whole
  | readFailed faulty _ => exact absurd faulty calm

/-- Reads return the committed state, and committed leaves never change. -/
structure Deployment.ReadsBack (deployment : Deployment) (start : World) :
    Prop where
  /-- From its first read on, a read is bound for what was committed then. -/
  reads : ∀ system me, deployment.Reaches start system →
    deployment.workload me = .readState → ¬ deployment.port.faulty me →
    system.programs me = some (deployment.program me) →
    ∃ log state verified,
      deployment.Commits system.world system.world.state log state ∧
      state.entries.list = log ∧
      verifyState deployment.kernel state = .ok verified ∧
      (log.length ≤ (deployment.backends me).workBound →
        ∀ next later, deployment.Issues me system next →
          deployment.Steps next later →
          deployment.BoundFor me (.state state) later)
  /-- What an envelope in the state leaf has reached keeps its bytes. -/
  keeps : ∀ system later bytes envelope path,
    deployment.Reaches start system → deployment.Steps system later →
    system.world.Ever bytes →
    Selects deployment.kernel (some bytes) envelope →
    EnvelopeLeaf deployment.kernel system.world.leaf envelope path →
    ∃ content, system.world.leaf path = some content ∧
      later.world.leaf path = some content

/-- An issue of a call's next request is a step. -/
theorem Deployment.Issues.step
    (issues : deployment.Issues me system later) :
    deployment.Step system later := by
  obtain ⟨request, next, reply, world, here, executed, rfl⟩ := issues
  exact .issue here executed

/--
From an empty store, a read returns the log that was committed when it read the
state leaf, and what a committed envelope reaches is there for ever.
-/
theorem read_state_returns_committed
    (lawful : deployment.kernel.Lawful)
    (modern : ¬ deployment.port.legacy)
    (empty : Empty start) :
    deployment.ReadsBack start := by
  have sound := empty.modern lawful modern
  refine ⟨?_, ?_⟩
  · intro system me reaches reading calm running
    obtain ⟨log, state, commits⟩ := sound.commits reaches
    obtain ⟨verified, accepted, _⟩ := commits.holds.verifyState
    refine ⟨log, state, verified, commits, commits.holds.listed, accepted,
      fun bounded next later issues steps => ?_⟩
    have anchored := anchored_of_issues calm reading running commits
      bounded issues
    have reached := reaches.trans (.single issues.step)
    exact (sound.sound.anchored_steps calm reached steps anchored).boundFor
  · intro system later bytes envelope path reaches steps ever selects leaf
    have inv := sound.sound.inv reaches
    obtain ⟨_, same, isV2, _⟩ := id selects
    cases same
    obtain ⟨log, state, commits⟩ := inv.commits_of_ever trivial ever isV2
    have holds := (committed_iff_envelopeLog selects).mp commits
    obtain ⟨content, settled⟩ := holds.settled leaf
    have kept := settled_of_moves (sound.sound.moves reaches steps) settled
    exact ⟨content, settled.2, kept.2⟩

/-- One call acquires a lease, one publishes, and the others read. -/
def Deployment.readers : Deployment where
  kernel := Reference.kernel
  port := ⟨true, fun me => me < 2, False⟩
  backends _ := ⟨⟨true, true⟩, 64⟩
  workload
    | 0 => .acquireLease
    | 1 => .publish referencePublication
    | _ => .readState

theorem readers_read_back :
    Deployment.readers.ReadsBack .vacant :=
  read_state_returns_committed Reference.kernel_lawful id World.vacant_empty

end Reads

end SimStorage.Journal.Host
