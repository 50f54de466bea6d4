import SimStorage.Journal.Host.Index
import SimStorage.Interaction.Alone

namespace SimStorage.Journal.Host

/-!
# The rebuilt index

A rebuild scans the object directories and lists exactly the stored objects.
It succeeds where every object directory has its leaf and the work bound covers
the directories; an object that is put half-way makes it fail.
-/

open Codec NativeCodec Interaction

variable {deployment : Deployment} {me : CallId} {values : Set Datum}
variable {start world after : World} {system later : HostSystem}
variable {backend : HostDirJournalBackend}

section Definitions

/-- Every object directory has the leaf of its object. -/
def Deployment.Complete (deployment : Deployment) (world : World) : Prop :=
  ∀ name, objectsRoot ++ [name] ∈ world.dirs →
    ∃ object bytes, deployment.Shelved world object bytes ∧
      name = idKey object.id

/-- References in the order of their meanings, to exactly the stored objects. -/
structure Deployment.Indexes (deployment : Deployment) (world : World)
    (references : List StoredDatumRef) : Prop where
  ordered : references.Pairwise fun first second =>
    compare first.meaning second.meaning = .lt
  lists : ∀ reference, reference ∈ references ↔
    ∃ object bytes, deployment.Shelved world object bytes ∧
      reference = deployment.shelf object bytes

/-- An entry of the objects' root, and the reference that it leads to. -/
def Deployment.Leads (deployment : Deployment) (world : World)
    (entry : HostEntry) (reference : StoredDatumRef) : Prop :=
  ∃ object bytes, deployment.Shelved world object bytes ∧
    entry.name = idKey object.id ∧ reference = deployment.shelf object bytes

/-- The order in which a rebuild returns its references. -/
def byMeaning (references : List StoredDatumRef) : List StoredDatumRef :=
  references.insertionSort fun first second =>
    (compare first.meaning second.meaning).isLE

end Definitions

section Listings

/-- The objects' root has directories only. -/
theorem Deployment.Shelves.directory
    (shelves : deployment.Shelves world)
    {entry : HostEntry}
    (member : entry ∈ world.listing objectsRoot) :
    entry.kind = .directory ∧ objectsRoot ++ [entry.name] ∈ world.dirs := by
  rcases World.mem_listing.mp member with
    ⟨bytes, present, _, _⟩ | ⟨here, isDirectory, _⟩
  · obtain ⟨object, _, path⟩ := shelves.shelved present rfl
    have lengths := congrArg List.length path
    simp [objectPath, objectDir, objectsRoot] at lengths
  · exact ⟨isDirectory, here⟩

/-- Directories below one directory differ in their names. -/
theorem directories_distinct
    (shelves : deployment.Shelves world) :
    (world.listing objectsRoot).Pairwise
      fun first second => first.name ≠ second.name := by
  have only : (world.listing objectsRoot).filter
      (fun entry => entry.kind = .directory) = world.listing objectsRoot := by
    rw [List.filter_eq_self]
    intro entry member
    simp [(shelves.directory member).1]
  rw [← only]
  have sorted := List.Perm.filter
    (fun entry : HostEntry => entry.kind = .directory)
    (List.perm_insertionSort (fun first second : HostEntry =>
        first.name ≤ second.name)
      (world.files.toList.filterMap (fun file =>
          (World.childName objectsRoot file.1).map fun name =>
            ⟨name, .file, file.2.length⟩) ++
        world.dirs.toList.filterMap fun path =>
          (World.childName objectsRoot path).map fun name =>
            ⟨name, .directory, 0⟩))
  apply (sorted.pairwise_iff fun different => different.symm).mpr
  rw [List.filter_append]
  have files : (world.files.toList.filterMap fun file =>
      (World.childName objectsRoot file.1).map fun name =>
        (⟨name, .file, file.2.length⟩ : HostEntry)).filter
      (fun entry => entry.kind = .directory) = [] := by
    rw [List.filter_eq_nil_iff]
    intro entry member
    obtain ⟨file, _, made⟩ := List.mem_filterMap.mp member
    obtain ⟨name, _, rfl⟩ := Option.map_eq_some_iff.mp made
    simp
  rw [files, List.nil_append]
  apply List.Pairwise.filter
  rw [List.pairwise_filterMap]
  apply Std.ExtTreeSet.distinct_toList.imp
  intro first second different one madeFirst other madeSecond same
  obtain ⟨name, child, rfl⟩ := Option.map_eq_some_iff.mp madeFirst
  obtain ⟨otherName, otherChild, rfl⟩ := Option.map_eq_some_iff.mp madeSecond
  rw [World.childName_eq_some] at child otherChild
  apply different
  rw [child, otherChild, show name = otherName from same]
  exact Std.ReflCmp.compare_self

/-- An object directory of the store is that of a sound object. -/
theorem Deployment.Shelves.placed
    (shelves : deployment.Shelves world)
    {name : String}
    (here : objectsRoot ++ [name] ∈ world.dirs) :
    ∃ object, deployment.Supplied object ∧
      object.Sound deployment.kernel ∧ name = idKey object.id := by
  rcases shelves.laid.objects _ here rfl with root | ⟨object, supplied, sound,
    same⟩
  · have lengths := congrArg List.length root
    simp [objectsRoot] at lengths
  · refine ⟨object, supplied, sound, ?_⟩
    simpa [objectDir, objectsRoot] using same

/-- A stored object stands in the listing of the objects' root. -/
theorem Deployment.Shelved.entry
    (shelving : Shelving deployment start values)
    (shelves : deployment.Shelves world)
    {object : JournalObject} {bytes : Bytes}
    (shelved : deployment.Shelved world object bytes) :
    (⟨idKey object.id, .directory, 0⟩ : HostEntry) ∈
      world.listing objectsRoot :=
  World.mem_listing.mpr
    (.inr ⟨(shelved.listed shelving shelves).1, rfl, rfl⟩)

end Listings

section Rebuilding

/-- The loop collects the references that its entries lead to. -/
theorem rebuildEntries_resolves
    (shelving : Shelving deployment start values)
    {entries : List HostEntry} {references rebuilt : List StoredDatumRef}
    (directories : ∀ entry ∈ entries, entry.kind = .directory)
    (leads : List.Forall₂ (deployment.Leads world) entries references)
    (bounded : rebuilt.length + entries.length ≤ backend.workBound) :
    Resolves deployment world
      (rebuildEntries deployment.kernel backend rebuilt entries)
      (.ok (rebuilt ++ references)) := by
  induction leads generalizing rebuilt with
  | nil =>
      rw [List.append_nil]
      exact .ret rebuilt
  | @cons entry reference entries references here _ inductionHypothesis =>
      obtain ⟨object, bytes, shelved, name, rfl⟩ := here
      have isDirectory := directories entry List.mem_cons_self
      rw [List.length_cons] at bounded
      unfold rebuildEntries
      rw [if_neg (by simp [isDirectory]), if_neg (by omega), name]
      apply Resolves.check
        (parseIdKey_idKey (spelled_contentId shelving.lawful
          shelved.sound.identity))
      apply (shelved.found shelving).bind
      have rest := @inductionHypothesis
        (rebuilt ++ [deployment.shelf object bytes])
        (fun entry inside => directories entry (List.mem_cons_of_mem _ inside))
        (by simp only [List.length_append, List.length_singleton]; omega)
      rwa [List.append_assoc] at rest

/-- In a complete store every directory leads to its stored object. -/
theorem Deployment.Complete.leads
    (complete : deployment.Complete world)
    {entries : List HostEntry}
    (directories : ∀ entry ∈ entries,
      objectsRoot ++ [entry.name] ∈ world.dirs) :
    ∃ references,
      List.Forall₂ (deployment.Leads world) entries references := by
  induction entries with
  | nil => exact ⟨[], .nil⟩
  | cons entry rest inductionHypothesis =>
      obtain ⟨references, leads⟩ := inductionHypothesis fun entry inside =>
        directories entry (List.mem_cons_of_mem _ inside)
      obtain ⟨object, bytes, shelved, name⟩ :=
        complete entry.name (directories entry List.mem_cons_self)
      exact ⟨deployment.shelf object bytes :: references,
        .cons ⟨object, bytes, shelved, name, rfl⟩ leads⟩

theorem byMeaning_perm
    (references : List StoredDatumRef) :
    (byMeaning references).Perm references :=
  List.perm_insertionSort _ references

/-- References with distinct meanings are returned in their strict order. -/
theorem byMeaning_ordered
    {references : List StoredDatumRef}
    (distinct : references.Pairwise fun first second =>
      first.meaning ≠ second.meaning) :
    (byMeaning references).Pairwise fun first second =>
      compare first.meaning second.meaning = .lt := by
  have total : Std.Total (fun first second : StoredDatumRef =>
      (compare first.meaning second.meaning).isLE = true) :=
    ⟨fun first second => by
      rw [Std.OrientedOrd.eq_swap (a := second.meaning) (b := first.meaning)]
      cases compare first.meaning second.meaning <;> simp⟩
  have trans : IsTrans StoredDatumRef (fun first second =>
      (compare first.meaning second.meaning).isLE = true) :=
    ⟨fun _ _ _ => Std.TransCmp.isLE_trans⟩
  have sorted : (byMeaning references).Pairwise fun first second =>
      (compare first.meaning second.meaning).isLE = true :=
    List.pairwise_insertionSort _ references
  have apart : (byMeaning references).Pairwise fun first second =>
      first.meaning ≠ second.meaning :=
    ((byMeaning_perm references).pairwise_iff
      fun different => different.symm).mpr distinct
  apply (sorted.and apart).imp
  rintro first second ⟨below, different⟩
  cases order : compare first.meaning second.meaning with
  | lt => rfl
  | eq => exact absurd (Std.LawfulEqOrd.eq_of_compare order) different
  | gt => simp [order] at below

/-- Every reference is led to by some entry. -/
theorem leads_from
    {entries : List HostEntry} {references : List StoredDatumRef}
    {reference : StoredDatumRef}
    (leads : List.Forall₂ (deployment.Leads world) entries references)
    (member : reference ∈ references) :
    ∃ entry ∈ entries, deployment.Leads world entry reference := by
  induction leads with
  | nil => cases member
  | cons here _ inductionHypothesis =>
      rcases List.mem_cons.mp member with rfl | later
      · exact ⟨_, List.mem_cons_self, here⟩
      · obtain ⟨entry, inside, found⟩ := inductionHypothesis later
        exact ⟨entry, List.mem_cons_of_mem _ inside, found⟩

/-- Every entry leads to some reference. -/
theorem leads_to
    {entries : List HostEntry} {references : List StoredDatumRef}
    {entry : HostEntry}
    (leads : List.Forall₂ (deployment.Leads world) entries references)
    (member : entry ∈ entries) :
    ∃ reference ∈ references, deployment.Leads world entry reference := by
  induction leads with
  | nil => cases member
  | cons here _ inductionHypothesis =>
      rcases List.mem_cons.mp member with rfl | later
      · exact ⟨_, List.mem_cons_self, here⟩
      · obtain ⟨reference, inside, found⟩ := inductionHypothesis later
        exact ⟨reference, List.mem_cons_of_mem _ inside, found⟩

/-- The references that the whole listing leads to are an index. -/
theorem indexes_of_leads
    (shelving : Shelving deployment start values)
    (shelves : deployment.Shelves world)
    {references : List StoredDatumRef}
    (leads : List.Forall₂ (deployment.Leads world)
      (world.listing objectsRoot) references) :
    deployment.Indexes world (byMeaning references) := by
  have spelled {object : JournalObject} (sound : object.Sound
      deployment.kernel) : Spelled deployment.kernel object.id :=
    spelled_contentId shelving.lawful sound.identity
  constructor
  · apply byMeaning_ordered
    have names := directories_distinct shelves
    generalize world.listing objectsRoot = entries at leads names
    induction leads with
    | nil => exact .nil
    | @cons entry reference entries references here later
        inductionHypothesis =>
        obtain ⟨different, rest⟩ := List.pairwise_cons.mp names
        refine List.pairwise_cons.mpr ⟨?_, inductionHypothesis rest⟩
        intro other member same
        obtain ⟨otherEntry, inside, found⟩ := leads_from later member
        obtain ⟨object, bytes, shelved, name, rfl⟩ := here
        obtain ⟨another, content, _, otherName, rfl⟩ := found
        apply different otherEntry inside
        rw [name, otherName]
        exact congrArg idKey same
  · intro reference
    rw [(byMeaning_perm references).mem_iff]
    constructor
    · intro member
      obtain ⟨_, _, object, bytes, shelved, _, same⟩ :=
        leads_from leads member
      exact ⟨object, bytes, shelved, same⟩
    · rintro ⟨object, bytes, shelved, rfl⟩
      obtain ⟨reference, inside, other, content, otherShelved, name, rfl⟩ :=
        leads_to leads (shelved.entry shelving shelves)
      have identical : object.id = other.id :=
        idKey_injective (spelled shelved.sound) (spelled otherShelved.sound)
          name
      rwa [shelved.alike shelving otherShelved identical]

/-- A rebuild in a complete store resolves to the index. -/
theorem rebuild_resolves
    (shelving : Shelving deployment start values)
    (shelves : deployment.Shelves world)
    (complete : deployment.Complete world)
    (bounded : (world.listing objectsRoot).length ≤ backend.workBound) :
    ∃ references, deployment.Indexes world references ∧
      Resolves deployment world
        (do
          let rebuilt ← rebuildEntries deployment.kernel backend []
            (world.listing objectsRoot)
          return byMeaning rebuilt)
        (.ok references) := by
  obtain ⟨references, leads⟩ := complete.leads
    (fun entry member => (shelves.directory member).2)
  refine ⟨byMeaning references, indexes_of_leads shelving shelves leads, ?_⟩
  have collected := @rebuildEntries_resolves _ _ _ _ backend shelving _ _ []
    (fun entry member => (shelves.directory member).1) leads (by simpa)
  exact collected.bind (.ret _)

end Rebuilding

section Running

/-- A find that returns has found one file. -/
theorem findObject_alone
    (meaning : ContentId) :
    Alone (Exec deployment.port me)
      (fun _ final => final = world ∧ ∃ file,
        onlyFile meaning (world.listing (objectDir meaning)) = .ok file)
      (fun _ _ => True) (findObject deployment.kernel meaning) world := by
  have checked {α β : Type} {result : Result α} {next : α → HostProgram β}
      {done : β → World → Prop}
      (passes : ∀ value, result = .ok value →
        Alone (Exec deployment.port me) done (fun _ _ => True) (next value)
          world) :
      Alone (Exec deployment.port me) done (fun _ _ => True)
        (pureResult result >>= next) world := by
    cases result with
    | ok value => exact passes value rfl
    | error fault => exact trivial
  intro reply after executed
  cases executed with
  | listMissing _ _ => exact trivial
  | listFailed _ _ => exact trivial
  | list _ =>
      apply checked
      intro file chosen
      apply checked
      intro storage _ reply after executed
      cases executed with
      | readMissing _ _ => exact trivial
      | readFailed _ _ => exact trivial
      | read _ =>
          apply checked
          intro object _
          exact ⟨rfl, file, chosen⟩

/-- A loop that returns has found a file for each of its entries. -/
theorem rebuildEntries_alone
    {rebuilt : List StoredDatumRef} {entries : List HostEntry} :
    Alone (Exec deployment.port me)
      (fun _ final => final = world ∧
        (entries = [] ∨ rebuilt.length + entries.length ≤ backend.workBound) ∧
        ∀ entry ∈ entries, ∃ meaning file,
          parseIdKey deployment.kernel entry.name = .ok meaning ∧
            onlyFile meaning (world.listing (objectDir meaning)) = .ok file)
      (fun _ _ => True)
      (rebuildEntries deployment.kernel backend rebuilt entries) world := by
  induction entries generalizing rebuilt with
  | nil => exact ⟨rfl, .inl rfl, by simp⟩
  | cons entry rest inductionHypothesis =>
      unfold rebuildEntries
      split
      · exact trivial
      · split
        · exact trivial
        next room =>
        cases parsed : parseIdKey deployment.kernel entry.name with
        | error fault => exact trivial
        | ok meaning =>
            apply (findObject_alone meaning).bind
            rintro found _ ⟨rfl, file, chosen⟩
            apply inductionHypothesis.weaken
            · rintro references final ⟨same, counted, later⟩
              refine ⟨same, .inr ?_, fun other member => ?_⟩
              · rcases counted with rfl | counted
                · simp only [List.length_singleton]
                  omega
                · simp only [List.length_append, List.length_cons] at counted ⊢
                  omega
              · rcases List.mem_cons.mp member with rfl | inside
                · exact ⟨meaning, file, parsed, chosen⟩
                · exact later other inside
            · exact fun _ _ _ => trivial

/-- A rebuild that returns has scanned a complete store within its bound. -/
theorem rebuildDatumIndex_alone
    (shelving : Shelving deployment start values)
    (shelves : deployment.Shelves world) :
    Alone (Exec deployment.port me)
      (fun _ _ => deployment.Complete world ∧
        (world.listing objectsRoot).length ≤ backend.workBound)
      (fun _ _ => True)
      (rebuildDatumIndex deployment.kernel backend) world := by
  intro reply after executed
  cases executed with
  | listFailed _ kind =>
      simp only [kind, if_false]
      exact trivial
  | listMissing missing kind =>
      simp only [kind, if_true]
      have absent (name : String) : objectsRoot ++ [name] ∉ world.dirs := by
        intro here
        have parented := shelves.laid.dirs _ here (.inl rfl)
        rw [World.Parented, List.dropLast_concat] at parented
        rcases parented with impossible | root
        · cases impossible
        · exact missing root
      refine ⟨fun name here => absurd here (absent name), ?_⟩
      have empty : world.listing objectsRoot = [] := by
        rw [List.eq_nil_iff_forall_not_mem]
        exact fun entry member => absent _ (shelves.directory member).2
      rw [empty]
      exact Nat.zero_le _
  | list _ =>
      apply (@rebuildEntries_alone _ me world backend [] _).bind
      rintro references _ ⟨rfl, counted, found⟩
      refine ⟨fun name here => ?_, ?_⟩
      · have listed : (⟨name, .directory, 0⟩ : HostEntry) ∈
            World.listing _ objectsRoot :=
          World.mem_listing.mpr (.inr ⟨here, rfl, rfl⟩)
        obtain ⟨meaning, file, parsed, chosen⟩ := found _ listed
        obtain ⟨object, _, sound, named⟩ := shelves.placed here
        -- The directory's name is read back as the meaning that is looked up.
        rw [named, parseIdKey_idKey (spelled_contentId shelving.lawful
          sound.identity)] at parsed
        cases parsed
        obtain ⟨bytes, present⟩ := leaf_of_onlyFile chosen
        obtain ⟨stored, shelved, path⟩ := shelves.shelved present rfl
        refine ⟨stored, bytes, shelved, ?_⟩
        simp only [objectDir, objectPath, objectsRoot, Deployment.shelf,
          List.cons_append, List.nil_append, List.cons.injEq] at path
        rw [named, path.2.1]
      · rcases counted with empty | bounded
        · rw [empty]
          exact Nat.zero_le _
        · simpa using bounded

/-- The index that a rebuild in a complete store returns when it runs alone. -/
theorem rebuild_runs
    (shelving : Shelving deployment start values)
    (shelves : deployment.Shelves world)
    (complete : deployment.Complete world)
    (bounded : (world.listing objectsRoot).length ≤ backend.workBound) :
    ∃ references, Runs (Exec deployment.port me)
      (rebuildDatumIndex deployment.kernel backend) world (.ok references)
      world := by
  by_cases here : objectsRoot ∈ world.dirs
  · obtain ⟨references, _, resolves⟩ :=
      rebuild_resolves shelving shelves complete bounded
    exact ⟨references, .call (.list here) (resolves.runs shelving shelves)⟩
  · have missed : Exec deployment.port me (.list objectsRoot) world
        (.error ⟨.notFound, "not found"⟩) world := .listMissing here rfl
    exact ⟨[], .call missed (.ret _ _)⟩

end Running

section Index

/-- A rebuild returns the index of the store that it scans. -/
structure Deployment.RebuildsIndex (deployment : Deployment)
    (start : World) : Prop where
  /-- From its scan of a complete store on, a rebuild returns the index. -/
  bound : ∀ system next later me, deployment.Reaches start system →
    deployment.workload me = .rebuildDatumIndex →
    ¬ deployment.port.faulty me →
    system.programs me = some (deployment.program me) →
    deployment.Complete system.world →
    (system.world.listing objectsRoot).length ≤
      (deployment.backends me).workBound →
    deployment.Issues me system next → deployment.Steps next later →
    ∃ references, deployment.Indexes system.world references ∧
      deployment.BoundFor me (.references references) later
  /-- Undisturbed, it returns exactly in a complete store within its bound. -/
  alone : ∀ system me backend, deployment.Reaches start system →
    ((∃ references final, Runs (Exec deployment.port me)
        (rebuildDatumIndex deployment.kernel backend) system.world
        (.ok references) final) ↔
      deployment.Complete system.world ∧
        (system.world.listing objectsRoot).length ≤ backend.workBound)

/-- A rebuild that starts in a complete store is bound for its index. -/
theorem Shelving.rebuilds
    (shelving : Shelving deployment start values)
    (reaches : deployment.Reaches start system)
    (rebuilding : deployment.workload me = .rebuildDatumIndex)
    (calm : ¬ deployment.port.faulty me)
    (running : system.programs me = some (deployment.program me))
    (complete : deployment.Complete system.world)
    (bounded : (system.world.listing objectsRoot).length ≤
      (deployment.backends me).workBound)
    (issues : deployment.Issues me system later) :
    ∃ references, deployment.Indexes system.world references ∧
      deployment.ResolvesAt me (.references references) later := by
  have shelves := shelving.shelves reaches
  obtain ⟨request, next, reply, world, here, executed, rfl⟩ := issues
  have spelled := Option.some.inj (running.symm.trans here)
  unfold Deployment.program at spelled
  rw [rebuilding] at spelled
  cases spelled
  cases executed with
  | listFailed faulty _ => exact absurd faulty calm
  | listMissing missing kind =>
      -- Without a root nothing is stored.
      refine ⟨[], ⟨.nil, fun reference => ?_⟩, ?_⟩
      · simp only [List.not_mem_nil, false_iff]
        rintro ⟨object, bytes, shelved, _⟩
        have parented := shelves.laid.dirs _
          (shelved.listed shelving shelves).1 (.inl rfl)
        rw [World.Parented, objectDir, List.dropLast_concat] at parented
        rcases parented with impossible | root
        · cases impossible
        · exact missing root
      · intro program found
        cases (System.update_same _ _ _).symm.trans found
        simp only [kind, if_true]
        exact .ret _
  | list _ =>
      obtain ⟨references, indexes, resolves⟩ :=
        rebuild_resolves shelving shelves complete bounded
      refine ⟨references, indexes, fun program found => ?_⟩
      cases (System.update_same _ _ _).symm.trans found
      exact resolves.bind (.ret _)

/-- From an empty store, a rebuild returns the index of what is stored. -/
theorem rebuilt_index_exact
    (lawful : deployment.kernel.Lawful)
    (free : deployment.kernel.CollisionFree values)
    (within : ∀ object, deployment.Supplied object → object.datum ∈ values)
    (empty : Empty start) :
    deployment.RebuildsIndex start := by
  have shelving : Shelving deployment start values :=
    ⟨lawful, empty, free, within⟩
  refine ⟨?_, ?_⟩
  · intro system next later me reaches rebuilding calm running complete bounded
      issues steps
    obtain ⟨references, indexes, resolves⟩ := shelving.rebuilds reaches
      rebuilding calm running complete bounded issues
    exact ⟨references, indexes, resolves.boundFor shelving calm (by simp)
      (reaches.trans (.single issues.step)) steps⟩
  · intro system me backend reaches
    have shelves := shelving.shelves reaches
    constructor
    · rintro ⟨references, final, run⟩
      exact ((rebuildDatumIndex_alone shelving shelves).ends run).1 _ rfl
    · rintro ⟨complete, bounded⟩
      obtain ⟨references, run⟩ :=
        rebuild_runs shelving shelves complete bounded
      exact ⟨references, system.world, run⟩

/-- One call stores an object, which may fail half-way, and others rebuild. -/
def Deployment.rebuilders : Deployment where
  kernel := Reference.kernel
  port := ⟨true, fun me => me < 1, True⟩
  backends _ := ⟨⟨true, true⟩, 64⟩
  workload
    | 0 => .putDatum (referenceObject [1, 2, 3])
    | _ => .rebuildDatumIndex

theorem rebuilders_exact :
    Deployment.rebuilders.RebuildsIndex .vacant := by
  have free : Reference.kernel.CollisionFree
      {(referenceObject [1, 2, 3]).datum} := by
    rintro _ rfl _ rfl _ _ _
    exact .refl _
  have within : ∀ object, Deployment.rebuilders.Supplied object →
      object.datum ∈ ({(referenceObject [1, 2, 3]).datum} : Set Datum) := by
    rintro object ⟨me, inside⟩
    match me with
    | 0 => rw [List.mem_singleton.mp inside]; rfl
    | _ + 1 => cases inside
  exact rebuilt_index_exact Reference.kernel_lawful free within
    World.vacant_empty

end Index

end SimStorage.Journal.Host
