import SimStorage.Journal.Host.AppendOnly

namespace SimStorage.Journal.Host

/-!
# One object for one meaning

The codec gives all datums of one content identity one physical form, so a
journal that coordinators filled from an empty store holds at most one file in
every object directory.
-/

open Codec NativeCodec Interaction

variable {deployment : Deployment} {grounded : Prop}
variable {start world after : World} {system : HostSystem}

section Directories

/-- Every leaf of the object directories is a supplied object's. -/
def Deployment.Furnished (deployment : Deployment) (world : World) : Prop :=
  ∀ path bytes, world.leaf path = some bytes →
    path.head? = some "objects-v2" →
    Placed deployment.kernel deployment.Supplied path bytes

/-- No effect puts another leaf into the object directories. -/
theorem Deployment.Furnished.effect
    {caller : Option CallId}
    (furnished : deployment.Furnished world)
    (effect : deployment.Effect grounded caller world after) :
    deployment.Furnished after := by
  intro path bytes present inObjects
  cases effect with
  | quiet leaves _ =>
      rw [leaves] at present
      exact furnished path bytes present inObjects
  | @written wrote _ placed _ leaves _ =>
      rw [leaves] at present
      by_cases here : path = wrote
      · rw [if_pos here] at present
        cases present
        subst here
        exact placed
      · rw [if_neg here] at present
        exact furnished path bytes present inObjects
  | exchanged _ _ leaves _ =>
      rw [leaves] at present
      by_cases here : path = statePath
      · subst here
        exact absurd (.inl inObjects) state_not_layout
      · rw [if_neg here] at present
        exact furnished path bytes present inObjects
  | acted _ _ leaves _ =>
      rw [leaves] at present
      exact furnished path bytes present inObjects
  | @legacy wrote _ _ _ _ outside _ leaves _ =>
      rw [leaves] at present
      by_cases here : path = wrote
      · subst here
        exact absurd (.inl inObjects) outside
      · rw [if_neg here] at present
        exact furnished path bytes present inObjects

/-- Files of one directory differ in their names. -/
theorem files_distinct
    (world : World) (dir : Path) :
    ((world.listing dir).filter fun entry => entry.kind = .file).Pairwise
      fun first second => first.name ≠ second.name := by
  have sorted := List.Perm.filter (fun entry : HostEntry => entry.kind = .file)
    (List.perm_insertionSort (fun first second : HostEntry =>
        first.name ≤ second.name)
      (world.files.toList.filterMap (fun file =>
          (World.childName dir file.1).map fun name =>
            ⟨name, .file, file.2.length⟩) ++
        world.dirs.toList.filterMap fun path =>
          (World.childName dir path).map fun name => ⟨name, .directory, 0⟩))
  apply (sorted.pairwise_iff fun different => different.symm).mpr
  rw [List.filter_append]
  have directories : (world.dirs.toList.filterMap fun path =>
      (World.childName dir path).map fun name =>
        (⟨name, .directory, 0⟩ : HostEntry)).filter
      (fun entry => entry.kind = .file) = [] := by
    rw [List.filter_eq_nil_iff]
    intro entry member
    obtain ⟨path, _, made⟩ := List.mem_filterMap.mp member
    obtain ⟨name, _, rfl⟩ := Option.map_eq_some_iff.mp made
    simp
  rw [directories, List.append_nil]
  apply List.Pairwise.filter
  rw [List.pairwise_filterMap]
  apply Std.ExtTreeMap.distinct_keys_toList.imp
  intro first second different one madeFirst other madeSecond same
  obtain ⟨name, child, rfl⟩ := Option.map_eq_some_iff.mp madeFirst
  obtain ⟨otherName, otherChild, rfl⟩ := Option.map_eq_some_iff.mp madeSecond
  rw [World.childName_eq_some] at child otherChild
  apply different
  rw [child, otherChild, show name = otherName from same]
  exact Std.ReflCmp.compare_self

/-- Supplied objects of one meaning leave one file in its directory. -/
theorem Deployment.Furnished.unambiguous
    (lawful : deployment.kernel.Lawful)
    {values : Set Datum}
    (free : deployment.kernel.CollisionFree values)
    (within : ∀ object, deployment.Supplied object → object.datum ∈ values)
    (furnished : deployment.Furnished world)
    (meaning : ContentId) :
    onlyFile meaning (world.listing (objectDir meaning)) ≠
      refuse (.corruptState "ambiguous semantic object") := by
  have distinct := files_distinct world (objectDir meaning)
  have placed : ∀ entry ∈ (world.listing (objectDir meaning)).filter
      (fun entry => entry.kind = .file), ∃ object bytes,
        deployment.Supplied object ∧ object.Sound deployment.kernel ∧
          object.storageBytes deployment.kernel = .ok bytes ∧
          idKey meaning = idKey object.id ∧
          entry.name = idKey (storageId deployment.kernel bytes) := by
    intro entry member
    rw [List.mem_filter] at member
    obtain ⟨listed, isFile⟩ := member
    rcases World.mem_listing.mp listed with
      ⟨bytes, present, _, _⟩ | ⟨_, isDirectory, _⟩
    · obtain ⟨object, supplied, sound, put, same, name⟩ :=
        (furnished _ bytes present rfl).object_of_dir
      exact ⟨object, bytes, supplied, sound, put, same, name⟩
    · simp [isDirectory] at isFile
  unfold onlyFile
  generalize (world.listing (objectDir meaning)).filter
    (fun entry => entry.kind = .file) = files at distinct placed
  match files with
  | [] => nofun
  | [_] => nofun
  | one :: other :: rest =>
      -- Two files would be two objects of one meaning, stored alike.
      obtain ⟨object, bytes, supplied, sound, put, same, name⟩ :=
        placed one List.mem_cons_self
      obtain ⟨another, otherBytes, otherSupplied, otherSound, otherPut,
        otherSame, otherName⟩ :=
        placed other (List.mem_cons_of_mem _ List.mem_cons_self)
      have identical : object.id = another.id :=
        idKey_injective (spelled_contentId lawful sound.identity)
          (spelled_contentId lawful otherSound.identity)
          (same.symm.trans otherSame)
      have rearranged := free _ (within object supplied) _
        (within another otherSupplied) object.id sound.identity
        (identical ▸ otherSound.identity)
      have alike :=
        JournalObject.storageBytes_rearranged lawful rearranged put
      rw [otherPut] at alike
      cases alike
      have different := (List.pairwise_cons.mp distinct).1 other
        List.mem_cons_self
      exact absurd (name.trans otherName.symm) different

end Directories

section Reachable

/-- Calls fill the object directories with supplied objects only. -/
theorem furnished_of_reaches
    (lawful : deployment.kernel.Lawful)
    (empty : Empty start)
    (reaches : deployment.Reaches start system) :
    deployment.Furnished system.world := by
  have sound : Sound deployment False start :=
    ⟨lawful, empty.toUntouched, nofun⟩
  have keeps {world after : World}
      (move : (deployment.protocol False).Move world after)
      (furnished : deployment.Furnished world) :
      deployment.Furnished after := by
    obtain ⟨caller, effect⟩ := effect_of_move move
    exact furnished.effect effect
  have begun : deployment.Furnished start := by
    intro path bytes present
    rw [empty.noLeaf] at present
    cases present
  exact System.Steps.preserves (resumable lawful) keeps reaches sound.initial
    begun

/-- One meaning has one physical form. -/
structure Deployment.OneForm (deployment : Deployment) (start : World)
    (values : Set Datum) : Prop where
  /-- A canonical value that fits memory has an encoding. -/
  encodes : ∀ value, deployment.kernel.Canonical value →
    DatumCodec.Fits deployment.kernel value →
    ∃ bytes, DatumCodec.encode deployment.kernel value = .ok bytes
  /-- The encoding decodes to the value in the codec's order. -/
  decodes : ∀ value bytes,
    DatumCodec.encode deployment.kernel value = .ok bytes →
    DatumCodec.decode deployment.kernel bytes =
        .ok (DatumCodec.arranged deployment.kernel value) ∧
      deployment.kernel.contentId
          (DatumCodec.arranged deployment.kernel value) =
        deployment.kernel.contentId value ∧
      DatumCodec.encode deployment.kernel
          (DatumCodec.arranged deployment.kernel value) = .ok bytes
  /-- Values of one content identity have one encoding. -/
  unique : ∀ first ∈ values, ∀ second ∈ values, ∀ id bytes,
    deployment.kernel.contentId first = some id →
    deployment.kernel.contentId second = some id →
    DatumCodec.encode deployment.kernel first = .ok bytes →
    DatumCodec.encode deployment.kernel second = .ok bytes
  /-- Objects of one content identity have one storage identity. -/
  stored : ∀ first second : JournalObject, ∀ id bytes,
    first.datum ∈ values → second.datum ∈ values →
    deployment.kernel.contentId first.datum = some id →
    deployment.kernel.contentId second.datum = some id →
    first.storageBytes deployment.kernel = .ok bytes →
    second.storageBytes deployment.kernel = .ok bytes
  /-- No object directory that calls filled is ambiguous. -/
  unambiguous : ∀ system meaning, deployment.Reaches start system →
    onlyFile meaning (system.world.listing (objectDir meaning)) ≠
      refuse (.corruptState "ambiguous semantic object")

/-- Among collision-free values, one meaning has one physical form. -/
theorem one_meaning_one_form
    (lawful : deployment.kernel.Lawful)
    {values : Set Datum}
    (free : deployment.kernel.CollisionFree values)
    (within : ∀ object, deployment.Supplied object → object.datum ∈ values)
    (empty : Empty start) :
    deployment.OneForm start values where
  encodes value canonical fits := by
    obtain ⟨bytes, encoded, _⟩ := DatumCodec.encode_isOk canonical fits
    exact ⟨bytes, encoded⟩
  decodes value bytes encoded := by
    have same := DatumCodec.rearranged_arranged deployment.kernel value
    exact ⟨DatumCodec.decode_encode lawful encoded,
      (lawful.contentId_rearranged same).symm,
      DatumCodec.encode_rearranged lawful same encoded⟩
  unique first inFirst second inSecond id bytes identity otherIdentity :=
    DatumCodec.encode_rearranged lawful
      (free first inFirst second inSecond id identity otherIdentity)
  stored first second id bytes inFirst inSecond identity otherIdentity :=
    JournalObject.storageBytes_rearranged lawful
      (free _ inFirst _ inSecond id identity otherIdentity)
  unambiguous system meaning reaches :=
    (furnished_of_reaches lawful empty reaches).unambiguous lawful free within
      meaning

/-- The reference deployment gives its object one physical form. -/
theorem reference_one_form :
    Deployment.reference.OneForm .vacant
      {(referenceObject [1, 2, 3]).datum} := by
  apply one_meaning_one_form Reference.kernel_lawful _ _ World.vacant_empty
  · rintro _ rfl _ rfl _ _ _
    exact .refl _
  · rintro object ⟨me, inside⟩
    match me with
    | 0 => cases inside
    | _ + 1 => rw [List.mem_singleton.mp inside]; rfl

end Reachable

end SimStorage.Journal.Host
