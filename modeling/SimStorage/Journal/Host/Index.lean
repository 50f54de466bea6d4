import SimStorage.Journal.Host.Layout
import SimStorage.Journal.Host.Objects

namespace SimStorage.Journal.Host

/-!
# Stored objects

An object that a call has stored is found by its meaning for ever, whatever
other calls do meanwhile.  What a stored object is read back from does not
change, and its directory never gets a second file.
-/

open Codec NativeCodec Interaction

variable {deployment : Deployment} {me : CallId} {values : Set Datum}
variable {start world after : World} {system later : HostSystem}
variable {object other : JournalObject} {bytes content : Bytes}

section Definitions

/-- A supplied object, stored under its meaning and its storage identity. -/
structure Deployment.Shelved (deployment : Deployment) (world : World)
    (object : JournalObject) (bytes : Bytes) : Prop where
  supplied : deployment.Supplied object
  sound : object.Sound deployment.kernel
  put : object.storageBytes deployment.kernel = .ok bytes
  here : world.leaf
    (objectPath ⟨object.id, storageId deployment.kernel bytes⟩) = some bytes

/-- The reference to a stored object. -/
def Deployment.shelf (deployment : Deployment) (object : JournalObject)
    (bytes : Bytes) : StoredDatumRef :=
  ⟨object.id, storageId deployment.kernel bytes⟩

/-- What finding rests on: an empty store and values without collisions. -/
structure Shelving (deployment : Deployment) (start : World)
    (values : Set Datum) : Prop where
  lawful : deployment.kernel.Lawful
  empty : Empty start
  free : deployment.kernel.CollisionFree values
  within : ∀ object, deployment.Supplied object → object.datum ∈ values

/-- The leaves and directories of the objects are where they belong. -/
structure Deployment.Shelves (deployment : Deployment) (world : World) :
    Prop where
  laid : deployment.Laid world
  furnished : deployment.Furnished world

/--
A program whose reads are settled and whose listings find stored objects ends in
an outcome.
-/
inductive Resolves (deployment : Deployment) (world : World) {α : Type} :
    HostProgram α → Result α → Prop where
  | ret (value : α) :
      Resolves deployment world (.ret value) (.ok value)
  | fail (fault : Fault) :
      Resolves deployment world (.fail fault) (.error fault)
  | read {path : Path} {bytes : Bytes}
      {next : PortResult Bytes → HostProgram α} {outcome : Result α} :
      deployment.Settled world path bytes →
      Resolves deployment world (next (.ok bytes)) outcome →
      Resolves deployment world (.call (.read path) next) outcome
  | list {object : JournalObject} {bytes : Bytes}
      {next : PortResult (List HostEntry) → HostProgram α}
      {outcome : Result α} :
      deployment.Shelved world object bytes →
      (∀ entries, onlyFile object.id entries =
          .ok ⟨idKey (storageId deployment.kernel bytes), .file,
            bytes.length⟩ →
        Resolves deployment world (next (.ok entries)) outcome) →
      Resolves deployment world (.call (.list (objectDir object.id)) next)
        outcome

end Definitions

section Shelves

/-- A stored object has a directory with its leaf as the only file. -/
theorem Deployment.Shelved.listed
    (shelving : Shelving deployment start values)
    (shelves : deployment.Shelves world)
    (shelved : deployment.Shelved world object bytes) :
    objectDir object.id ∈ world.dirs ∧
      onlyFile object.id (world.listing (objectDir object.id)) =
        .ok ⟨idKey (storageId deployment.kernel bytes), .file,
          bytes.length⟩ := by
  constructor
  · have parented := shelves.laid.leaves _ _ shelved.here (.inl rfl)
    rw [World.Parented, objectPath, List.dropLast_concat] at parented
    rcases parented with impossible | here
    · cases impossible
    · exact here
  have unambiguous := shelves.furnished.unambiguous shelving.lawful
    shelving.free shelving.within object.id
  have member : (⟨idKey (storageId deployment.kernel bytes), .file,
      bytes.length⟩ : HostEntry) ∈
        (world.listing (objectDir object.id)).filter
          fun entry => entry.kind = .file := by
    rw [List.mem_filter]
    refine ⟨World.mem_listing.mpr (.inl ⟨bytes, ?_, rfl, rfl⟩), by simp⟩
    exact shelved.here
  unfold onlyFile at unambiguous ⊢
  generalize (world.listing (objectDir object.id)).filter
    (fun entry => entry.kind = .file) = files at unambiguous member ⊢
  cases files with
  | nil => cases member
  | cons file rest =>
      cases rest with
      | nil => rw [List.mem_singleton.mp member]
      | cons _ _ => exact absurd rfl unambiguous

/-- A leaf of the objects is a stored object. -/
theorem Deployment.Shelves.shelved
    (shelves : deployment.Shelves world)
    {path : Path}
    (present : world.leaf path = some bytes)
    (inObjects : path.head? = some "objects-v2") :
    ∃ object, deployment.Shelved world object bytes ∧
      path = objectPath (deployment.shelf object bytes) := by
  have placed := shelves.furnished path bytes present inObjects
  cases placed with
  | @object object _ supplied sound put =>
      exact ⟨object, ⟨supplied, sound, put, present⟩, rfl⟩
  | entry _ _ =>
      simp [entryPath, entryDir, sequenceDir, entriesRoot, namespaceRoot]
        at inObjects
  | marker _ => simp [markerPath, namespaceRoot] at inObjects
  | descriptor _ _ => simp [descriptorPath] at inObjects

theorem Deployment.Shelved.settled
    (shelved : deployment.Shelved world object bytes) :
    deployment.Settled world
      (objectPath (deployment.shelf object bytes)) bytes := by
  refine ⟨⟨?_, .inr (.inl (.inl rfl))⟩, shelved.here⟩
  simp [objectPath, objectDir, objectsRoot, statePath]

/-- A store that keeps settled leaves keeps stored objects. -/
theorem Deployment.Shelved.mono
    (shelved : deployment.Shelved world object bytes)
    (kept : ∀ path content, deployment.Settled world path content →
      deployment.Settled after path content) :
    deployment.Shelved after object bytes :=
  ⟨shelved.supplied, shelved.sound, shelved.put,
    (kept _ _ shelved.settled).2⟩

/-- Stored objects with one meaning are stored alike. -/
theorem Deployment.Shelved.alike
    (shelving : Shelving deployment start values)
    (shelved : deployment.Shelved world object bytes)
    (otherShelved : deployment.Shelved world other content)
    (same : object.id = other.id) :
    deployment.shelf object bytes = deployment.shelf other content := by
  have rearranged := shelving.free _ (shelving.within _ shelved.supplied) _
    (shelving.within _ otherShelved.supplied) object.id shelved.sound.identity
    (same ▸ otherShelved.sound.identity)
  have alike := JournalObject.storageBytes_rearranged shelving.lawful rearranged
    shelved.put
  rw [otherShelved.put] at alike
  cases alike
  exact congrArg (StoredDatumRef.mk · _) same

/-- Calls keep the objects where they belong. -/
theorem Shelving.shelves
    (shelving : Shelving deployment start values)
    (reaches : deployment.Reaches start system) :
    deployment.Shelves system.world :=
  ⟨(directories_before_leaves shelving.empty.laid).laid system reaches,
    furnished_of_reaches shelving.lawful shelving.empty reaches⟩

theorem Shelving.sound
    (shelving : Shelving deployment start values) :
    Sound deployment True start :=
  ⟨shelving.lawful, shelving.empty.toUntouched,
    fun _ => shelving.empty.isGrounded⟩

/-- A step keeps settled leaves. -/
theorem Sound.settled_step
    {grounded : Prop} {path : Path}
    (sound : Sound deployment grounded start)
    (reaches : deployment.Reaches start system)
    (step : deployment.Step system later)
    (settled : deployment.Settled system.world path bytes) :
    deployment.Settled later.world path bytes := by
  obtain ⟨_, same | move⟩ :=
    step.sound (resumable sound.lawful) (sound.allSafe reaches)
  · rwa [same]
  · exact settled_of_moves (.single move) settled

end Shelves

section Resolving

variable {α β : Type} {outcome : Result α}
variable {program : HostProgram α} {next : α → HostProgram β}

namespace Resolves

theorem bind
    {value : α} {last : Result β}
    (first : Resolves deployment world program (.ok value))
    (rest : Resolves deployment world (next value) last) :
    Resolves deployment world (program >>= next) last := by
  generalize ended : (Except.ok value : Result α) = outcome at first
  induction first with
  | ret found =>
      cases ended
      exact rest
  | fail fault => cases ended
  | read settled _ inductionHypothesis =>
      exact .read settled (inductionHypothesis ended)
  | list shelved _ inductionHypothesis =>
      exact .list shelved fun entries only =>
        inductionHypothesis entries only ended

theorem bind_error
    {fault : Fault}
    (first : Resolves deployment world program (.error fault)) :
    Resolves deployment world (program >>= next) (.error fault) := by
  generalize ended : (Except.error fault : Result α) = outcome at first
  induction first with
  | ret found => cases ended
  | fail found =>
      cases ended
      exact .fail _
  | read settled _ inductionHypothesis =>
      exact .read settled (inductionHypothesis ended)
  | list shelved _ inductionHypothesis =>
      exact .list shelved fun entries only =>
        inductionHypothesis entries only ended

/-- A check that makes no request. -/
theorem check
    {result : Result α} {value : α} {last : Result β}
    (passes : result = .ok value)
    (rest : Resolves deployment world (next value) last) :
    Resolves deployment world (pureResult result >>= next) last := by
  rw [passes]
  exact rest

/-- A program stays resolved while the store keeps settled leaves. -/
theorem mono
    (resolves : Resolves deployment world program outcome)
    (kept : ∀ path content, deployment.Settled world path content →
      deployment.Settled after path content) :
    Resolves deployment after program outcome := by
  induction resolves with
  | ret value => exact .ret value
  | fail fault => exact .fail fault
  | read settled _ inductionHypothesis =>
      exact .read (kept _ _ settled) inductionHypothesis
  | list shelved _ inductionHypothesis =>
      exact .list (shelved.mono kept) inductionHypothesis

/-- A request of a resolved program leaves the store and keeps it resolved. -/
theorem exec
    {request : HostCall} {next : HostReply request → HostProgram α}
    {reply : HostReply request} {value : α}
    (shelving : Shelving deployment start values)
    (shelves : deployment.Shelves world)
    (calm : ¬ deployment.port.faulty me)
    (resolves : Resolves deployment world (.call request next) (.ok value))
    (executed : Exec deployment.port me request world reply after) :
    after = world ∧ Resolves deployment world (next reply) (.ok value) := by
  cases resolves with
  | read settled rest =>
      have held := settled.2
      cases executed with
      | read there =>
          rw [held] at there
          cases there
          exact ⟨rfl, rest⟩
      | readMissing missing _ =>
          rw [held] at missing
          cases missing
      | readFailed faulty _ => exact absurd faulty calm
  | list shelved rest =>
      obtain ⟨here, only⟩ := shelved.listed shelving shelves
      cases executed with
      | list _ => exact ⟨rfl, rest _ only⟩
      | listMissing missing _ => exact absurd here missing
      | listFailed faulty _ => exact absurd faulty calm

/-- A resolved program runs to its outcome. -/
theorem runs
    (shelving : Shelving deployment start values)
    (shelves : deployment.Shelves world)
    (resolves : Resolves deployment world program outcome) :
    Runs (Exec deployment.port me) program world outcome world := by
  induction resolves with
  | ret value => exact .ret value world
  | fail fault => exact .fail fault world
  | read settled _ inductionHypothesis =>
      exact .call (.read settled.2) inductionHypothesis
  | list shelved _ inductionHypothesis =>
      obtain ⟨here, only⟩ := shelved.listed shelving shelves
      exact .call (.list here) (inductionHypothesis _ only)

theorem ret_ok
    {value found : α}
    (resolves :
      Resolves deployment world (.ret value : HostProgram α) (.ok found)) :
    found = value := by
  cases resolves
  rfl

end Resolves

/-- A stored object is found by its meaning. -/
theorem Deployment.Shelved.found
    (shelving : Shelving deployment start values)
    (shelved : deployment.Shelved world object bytes) :
    Resolves deployment world (findObject deployment.kernel object.id)
      (.ok (deployment.shelf object bytes,
        object.stored deployment.kernel)) := by
  refine .list shelved fun entries only => ?_
  apply Resolves.check only
  apply Resolves.check (parseIdKey_idKey (spelled_storageId bytes))
  apply Resolves.bind (.read shelved.settled (.ret bytes))
  have checked : checkObject deployment.kernel
      (deployment.shelf object bytes) bytes =
        .ok (object.stored deployment.kernel) :=
    checkObject_eq_ok.mpr ⟨rfl,
      JournalObject.fromStorageBytes_storageBytes shelving.lawful shelved.sound
        shelved.put, rfl⟩
  exact .check checked (.ret _)

end Resolving

section Calls

variable {outcome : Outcome}

/-- Wherever a call stands, its program resolves to the outcome. -/
def Deployment.ResolvesAt (deployment : Deployment) (me : CallId)
    (outcome : Outcome) (system : HostSystem) : Prop :=
  ∀ program, system.programs me = some program →
    Resolves deployment system.world program (.ok outcome)

/-- A step of any party keeps a resolved call resolved. -/
theorem Deployment.ResolvesAt.step
    (shelving : Shelving deployment start values)
    (calm : ¬ deployment.port.faulty me)
    (final : outcome ≠ .again)
    (reaches : deployment.Reaches start system)
    (step : deployment.Step system later)
    (resolves : deployment.ResolvesAt me outcome system) :
    deployment.ResolvesAt me outcome later := by
  have kept : ∀ path content,
      deployment.Settled system.world path content →
      deployment.Settled later.world path content :=
    fun _ _ settled => shelving.sound.settled_step reaches step settled
  have stays (running : later.programs me = system.programs me) :
      deployment.ResolvesAt me outcome later := fun program here =>
    (resolves program (running ▸ here)).mono kept
  cases step with
  | @issue caller request next reply world here executed =>
      by_cases same : me = caller
      · subst same
        rintro program found
        obtain rfl : next reply = program := by
          simpa [System.update_same] using found
        obtain ⟨_, rest⟩ := (resolves _ here).exec shelving
          (shelving.shelves reaches) calm executed
        exact rest.mono kept
      · exact stays (System.update_other _ same _)
  | @resume caller value program here again =>
      by_cases same : me = caller
      · subst same
        obtain rfl := (resolves _ here).ret_ok
        cases outcome <;> first | exact absurd rfl final | cases again
      · exact stays (System.update_other _ same _)
  | @stop caller program world here crashed =>
      by_cases same : me = caller
      · subst same
        intro program found
        cases (System.update_same system.programs me none).symm.trans found
      · exact stays (System.update_other _ same _)
  | environment _ => exact stays rfl

/-- A resolved call can only return its outcome. -/
theorem Deployment.ResolvesAt.boundFor
    (shelving : Shelving deployment start values)
    (calm : ¬ deployment.port.faulty me)
    (final : outcome ≠ .again)
    (reaches : deployment.Reaches start system)
    (steps : deployment.Steps system later)
    (resolves : deployment.ResolvesAt me outcome system) :
    deployment.BoundFor me outcome later := by
  have resolved : deployment.ResolvesAt me outcome later := by
    induction steps with
    | refl => exact resolves
    | tail earlier last inductionHypothesis =>
        exact inductionHypothesis.step shelving calm final
          (reaches.trans earlier) last
  refine ⟨?_, ?_, ?_⟩
  · intro found here
    exact ((resolved _ here).ret_ok).symm
  · intro fault here
    have impossible := resolved _ here
    cases impossible
  · intro program here
    exact ⟨later.world, (resolved _ here).runs shelving
      (shelving.shelves (reaches.trans steps))⟩

/-- A safe judgement of a call that is under way holds on, whoever steps. -/
theorem Sound.residual_safe
    {grounded : Prop}
    (sound : Sound deployment grounded start)
    {special : Outcome → World → Prop} {failed : Fault → World → Prop}
    (once : ∀ outcome world, special outcome world →
      deployment.resume me outcome = none)
    (reaches : deployment.Reaches start system)
    (steps : deployment.Steps system later)
    (safe : ∀ program, system.programs me = some program →
      Safe (deployment.setting grounded me) special failed program
        system.world) :
    ∀ program, later.programs me = some program →
      Safe (deployment.setting grounded me) special failed program
        later.world := by
  induction steps with
  | refl => exact safe
  | @tail middle last earlier step inductionHypothesis =>
      have allSafe := sound.allSafe (reaches.trans earlier)
      cases step with
      | @issue caller request next reply world here executed =>
          by_cases same : me = caller
          · subst same
            rintro program found
            obtain rfl : next reply = program := by
              simpa [System.update_same] using found
            exact (inductionHypothesis _ here _ .refl).2 reply world executed
          · intro program found
            have running : middle.programs me = some program :=
              (System.update_other _ same _).symm.trans found
            obtain ⟨permitted, _⟩ := allSafe caller _ here _ .refl
            exact (inductionHypothesis _ running).drifted
              (.single (.issue (Ne.symm same) permitted executed))
      | @resume caller value program here again =>
          by_cases same : me = caller
          · subst same
            have ended := inductionHypothesis _ here _ .refl
            rw [once value _ ended] at again
            cases again
          · intro residual found
            exact inductionHypothesis _
              ((System.update_other _ same _).symm.trans found)
      | @stop caller program world here crashed =>
          by_cases same : me = caller
          · subst same
            intro residual found
            cases (System.update_same middle.programs me none).symm.trans found
          · intro residual found
            have running : middle.programs me = some residual :=
              (System.update_other _ same _).symm.trans found
            exact (inductionHypothesis _ running).drifted
              (.single (.crash (Ne.symm same) crashed))
      | environment moved =>
          intro residual found
          exact (inductionHypothesis _ found).drifted
            (.single (.environment moved))

/-- What `put_object` refers to is stored. -/
theorem putObject_shelves
    (supplied : deployment.Supplied object) :
    Does deployment True me (putObject deployment.kernel object) world
      (fun reference final => ∃ bytes,
        deployment.Shelved final object bytes ∧
          reference = deployment.shelf object bytes) := by
  apply Does.check
  intro _ verified
  apply Does.check
  intro bytes put
  have sound := JournalObject.sound_of_storageBytes verified put
  apply (createDir_does (.object supplied)).bind
  intro _ _ _ _
  apply (putImmutable_does (.object supplied sound put)).bind
  intro _ middle _ settled
  apply Does.ret
  intro final later
  exact ⟨bytes, ⟨supplied, sound, put, (later.settled settled).2⟩, rfl⟩

/-- A call of `put_datum` returns a reference to what it has stored. -/
theorem putDatum_shelves
    (storing : deployment.workload me = .putDatum object) :
    Safe (deployment.setting True me)
      (fun outcome final => ∃ bytes, deployment.Shelved final object bytes ∧
        outcome = .reference (deployment.shelf object bytes))
      (fun _ _ => True) (deployment.program me) world := by
  have supplied : deployment.Supplied object :=
    ⟨me, by rw [storing]; exact List.mem_cons_self⟩
  have put : Does deployment True me
      (putDatum deployment.kernel (deployment.backends me) object) world
      (fun reference final => ∃ bytes,
        deployment.Shelved final object bytes ∧
          reference = deployment.shelf object bytes) := by
    apply (writeCapable_does _).bind
    intro _ _ _ _
    apply ensureLayout_does.bind
    intro _ _ _ _
    exact putObject_shelves supplied
  unfold Deployment.program
  rw [storing]
  apply put.then
  rintro _ middle _ ⟨bytes, shelved, rfl⟩
  apply Safe.ret
  intro final drift
  have kept := Later.of_drift drift
  exact ⟨bytes, shelved.mono fun _ _ settled => kept.settled settled, rfl⟩

end Calls

section Keeping

/-- Objects that were stored are found for ever. -/
structure Deployment.KeepsObjects (deployment : Deployment) (start : World) :
    Prop where
  /-- What `put_datum` returned refers to its object, which is stored. -/
  puts : ∀ system me object reference, deployment.Reaches start system →
    deployment.workload me = .putDatum object →
    system.programs me = some (.ret (.reference reference)) →
    ∃ bytes, deployment.Shelved system.world object bytes ∧
      reference = deployment.shelf object bytes
  /-- A stored object stays stored. -/
  keeps : ∀ system later object bytes, deployment.Reaches start system →
    deployment.Steps system later →
    deployment.Shelved system.world object bytes →
    deployment.Shelved later.world object bytes
  /-- A later `get_datum` of its meaning can only return its datum. -/
  gets : ∀ system later me object bytes, deployment.Reaches start system →
    deployment.Shelved system.world object bytes →
    deployment.workload me = .getDatum object.id →
    ¬ deployment.port.faulty me →
    system.programs me = some (deployment.program me) →
    deployment.Steps system later →
    deployment.BoundFor me
      (.datum (object.stored deployment.kernel).datum) later

/-- From an empty store, stored objects are found for ever. -/
theorem stored_objects_stay
    (lawful : deployment.kernel.Lawful)
    (free : deployment.kernel.CollisionFree values)
    (within : ∀ object, deployment.Supplied object → object.datum ∈ values)
    (empty : Empty start) :
    deployment.KeepsObjects start := by
  have shelving : Shelving deployment start values :=
    ⟨lawful, empty, free, within⟩
  refine ⟨?_, ?_, ?_⟩
  · intro system me object reference reaches storing done
    have once : ∀ outcome world,
        (∃ bytes, deployment.Shelved world object bytes ∧
          outcome = .reference (deployment.shelf object bytes)) →
        deployment.resume me outcome = none := by
      rintro _ world ⟨bytes, _, rfl⟩
      rfl
    have safe := shelving.sound.residual_safe once .refl reaches
      (fun program running => by
        have here : deployment.program me = program := Option.some.inj running
        rw [← here]
        exact putDatum_shelves storing) _ done
    obtain ⟨bytes, shelved, same⟩ := safe _ .refl
    exact ⟨bytes, shelved, Outcome.reference.inj same⟩
  · intro system later object bytes reaches steps shelved
    exact shelved.mono fun _ _ settled =>
      settled_of_moves (shelving.sound.moves reaches steps) settled
  · intro system later me object bytes reaches shelved getting calm running
      steps
    have resolves : deployment.ResolvesAt me
        (.datum (object.stored deployment.kernel).datum) system := by
      intro program here
      rw [running] at here
      cases here
      have got : Resolves deployment system.world
          (getDatum deployment.kernel object.id)
          (.ok (object.stored deployment.kernel).datum) :=
        (shelved.found shelving).bind (.ret _)
      unfold Deployment.program
      rw [getting]
      exact got.bind (.ret _)
    exact resolves.boundFor shelving calm (by simp) reaches steps

/-- One call stores an object, and the others get it. -/
def Deployment.getters : Deployment where
  kernel := Reference.kernel
  port := ⟨true, fun me => me < 1, True⟩
  backends _ := ⟨⟨true, true⟩, 64⟩
  workload
    | 0 => .putDatum (referenceObject [1, 2, 3])
    | 1 => .acquireLease
    | _ => .getDatum (referenceObject [1, 2, 3]).id

theorem getters_keep_objects :
    Deployment.getters.KeepsObjects .vacant := by
  have free : Reference.kernel.CollisionFree
      {(referenceObject [1, 2, 3]).datum} := by
    rintro _ rfl _ rfl _ _ _
    exact .refl _
  have within : ∀ object, Deployment.getters.Supplied object →
      object.datum ∈ ({(referenceObject [1, 2, 3]).datum} : Set Datum) := by
    rintro object ⟨me, inside⟩
    match me with
    | 0 => rw [List.mem_singleton.mp inside]; rfl
    | 1 => cases inside
    | _ + 2 => cases inside
  exact stored_objects_stay Reference.kernel_lawful free within
    World.vacant_empty

end Keeping

end SimStorage.Journal.Host
