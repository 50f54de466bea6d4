import SimStorage.Journal.Host.Quiet

namespace SimStorage.Journal.Host

/-!
# Publishing leaves

The parts of an admission before its exchange: the object leaves, the payload
references, and the entry leaves.  In a store that started with readable
content, they end with a settled chain of entry leaves for the batch.
-/

open Codec NativeCodec Interaction

/-- An object reference whose leaf is settled and passes its checks. -/
def Deployment.Stored (deployment : Deployment) (world : World)
    (reference : StoredDatumRef) : Prop :=
  ∃ object bytes, deployment.Settled world (objectPath reference) bytes ∧
    checkObject deployment.kernel reference bytes = .ok object

/-- References under their meanings, with settled leaves. -/
def Deployment.Collected (deployment : Deployment) (world : World)
    (references : References) : Prop :=
  ∀ meaning reference, references[meaning]? = some reference →
    reference.meaning = meaning ∧ deployment.Stored world reference

variable {deployment : Deployment} {grounded : Prop} {me : CallId}
variable {first : Option Bytes} {world after : World}

theorem Later.stored
    {reference : StoredDatumRef}
    (later : Later deployment grounded me world after)
    (stored : deployment.Stored world reference) :
    deployment.Stored after reference := by
  obtain ⟨object, bytes, settled, checked⟩ := stored
  exact ⟨object, bytes, later.settled settled, checked⟩

theorem Later.collected
    {references : References}
    (later : Later deployment grounded me world after)
    (collected : deployment.Collected world references) :
    deployment.Collected after references := by
  intro meaning reference found
  obtain ⟨same, stored⟩ := collected meaning reference found
  exact ⟨same, later.stored stored⟩

/-- A stored reference is read back from an entry leaf. -/
theorem Deployment.Stored.spelled
    (lawful : deployment.kernel.Lawful)
    {reference : StoredDatumRef}
    (stored : deployment.Stored world reference) :
    ReferenceSpelled deployment.kernel reference := by
  obtain ⟨object, bytes, _, checked⟩ := stored
  obtain ⟨sameStorage, read, sameMeaning⟩ := checkObject_eq_ok.mp checked
  have sound := JournalObject.sound_of_fromStorageBytes read
  constructor
  · rw [← sameMeaning]
    exact spelled_contentId lawful sound.identity
  · rw [← sameStorage]
    exact spelled_storageId bytes

theorem objectsHold_of_stored
    {references : List StoredDatumRef}
    (stored : ∀ reference ∈ references, deployment.Stored world reference) :
    ∃ objects, ObjectsHold deployment.kernel (deployment.Settled world)
      references objects := by
  induction references with
  | nil => exact ⟨[], .nil⟩
  | cons reference rest inductionHypothesis =>
      obtain ⟨object, bytes, settled, checked⟩ :=
        stored reference List.mem_cons_self
      obtain ⟨objects, holds⟩ := inductionHypothesis
        fun member inside => stored member (List.mem_cons_of_mem _ inside)
      exact ⟨object :: objects, .cons ⟨bytes, settled, checked⟩ holds⟩

section Objects

/-- A leaf of the v2 layout that was read is settled. -/
theorem load_does
    {path : Path}
    (layout : V2Layout path) :
    Does deployment grounded me (load path) world
      (fun bytes final => deployment.Settled final path bytes) := by
  have notState : path ≠ statePath := by
    intro same
    exact state_not_layout (same ▸ layout)
  apply Does.call
  · intro _ _
    trivial
  intro middle reply after _ executed
  refine ⟨by cases executed <;> rfl, fun _ => ?_⟩
  cases executed with
  | read present =>
      apply Does.ret
      intro final later
      exact later.settled ⟨⟨notState, .inr (.inl layout)⟩, present⟩
  | readMissing _ _ => exact .fail _
  | readFailed _ _ => exact .fail _

/-- `put_object` stores what it refers to. -/
theorem putObject_does
    (lawful : deployment.kernel.Lawful)
    {object : JournalObject}
    (supplied : deployment.Supplied object) :
    Does deployment grounded me (putObject deployment.kernel object) world
      (fun reference final => reference.meaning = object.id ∧
        deployment.Stored final reference) := by
  apply Does.check
  intro _ verified
  apply Does.check
  intro bytes put
  have sound := JournalObject.sound_of_storageBytes verified put
  have checked : checkObject deployment.kernel
      ⟨object.id, storageId deployment.kernel bytes⟩ bytes =
        .ok (object.stored deployment.kernel) :=
    checkObject_eq_ok.mpr ⟨rfl,
      JournalObject.fromStorageBytes_storageBytes lawful sound put, rfl⟩
  apply (createDir_does (.object supplied)).bind
  intro _ _ _ _
  apply (putImmutable_does (.object supplied sound put)).bind
  intro _ middle _ settled
  apply Does.ret
  intro final later
  exact ⟨rfl, object.stored deployment.kernel, bytes, later.settled settled,
    checked⟩

/-- The object loop collects stored references. -/
theorem publishObjects_does
    (lawful : deployment.kernel.Lawful)
    {references : References} {objects : List JournalObject}
    (supplied : ∀ object ∈ objects, deployment.Supplied object)
    (collected : deployment.Collected world references) :
    Does deployment grounded me
      (publishObjects deployment.kernel references objects) world
      (fun later final => deployment.Collected final later) := by
  induction objects generalizing references world with
  | nil =>
      apply Does.ret
      intro final later
      exact later.collected collected
  | cons object rest inductionHypothesis =>
      apply (putObject_does lawful
        (supplied object List.mem_cons_self)).bind
      intro reference middle moved stored
      apply inductionHypothesis
      · intro member inside
        exact supplied member (List.mem_cons_of_mem _ inside)
      · intro meaning found here
        rw [Std.ExtTreeMap.getElem?_insert] at here
        split at here
        · next same =>
            cases here
            exact ⟨Std.LawfulEqCmp.compare_eq_iff_eq.mp same, stored.2⟩
        · exact moved.collected collected meaning found here

/-- A placed leaf of an object directory is an object under its storage id. -/
theorem Placed.object_of_dir
    {kernel : Kernel} {supplied : JournalObject → Prop}
    {meaning : ContentId} {name : String} {bytes : Bytes}
    (placed : Placed kernel supplied (objectDir meaning ++ [name]) bytes) :
    ∃ object : JournalObject, supplied object ∧ object.Sound kernel ∧
      object.storageBytes kernel = .ok bytes ∧
      idKey meaning = idKey object.id ∧
      name = idKey (storageId kernel bytes) := by
  generalize here : objectDir meaning ++ [name] = path at placed
  cases placed with
  | object given sound put =>
      simp only [objectDir, objectPath, objectsRoot, List.cons_append,
        List.nil_append, List.cons.injEq, and_true, true_and] at here
      exact ⟨_, given, sound, put, here.1, here.2⟩
  | entry _ _ =>
      simp [objectDir, objectsRoot, entryPath, entryDir, sequenceDir,
        entriesRoot, namespaceRoot] at here
  | marker _ =>
      simp [objectDir, objectsRoot, markerPath, namespaceRoot] at here
  | descriptor _ _ =>
      simp [objectDir, objectsRoot, descriptorPath] at here

/-- The only file of a listing is a leaf of the directory. -/
theorem leaf_of_onlyFile
    {meaning : ContentId} {file : HostEntry}
    (chosen : onlyFile meaning (world.listing (objectDir meaning)) =
      .ok file) :
    ∃ bytes, world.leaf (objectDir meaning ++ [file.name]) = some bytes := by
  have member : file ∈ (world.listing (objectDir meaning)).filter
      fun entry => entry.kind = .file := by
    unfold onlyFile at chosen
    split at chosen
    · cases chosen
    · next single =>
        cases chosen
        rw [single]
        exact List.mem_cons_self
    · cases chosen
  rw [List.mem_filter] at member
  obtain ⟨listed, isFile⟩ := member
  rcases World.mem_listing.mp listed with
    ⟨bytes, present, _, _⟩ | ⟨_, isDirectory, _⟩
  · exact ⟨bytes, present⟩
  · simp [isDirectory] at isFile

/-- In an orderly store, the only file of an object directory is its leaf. -/
theorem objectPath_of_onlyFile
    {meaning storage : ContentId} {file : HostEntry}
    (placed : ∀ path bytes, world.leaf path = some bytes →
      path.head? = some "objects-v2" →
      Placed deployment.kernel (fun _ => True) path bytes)
    (chosen : onlyFile meaning (world.listing (objectDir meaning)) = .ok file)
    (parsed : parseIdKey deployment.kernel file.name = .ok storage) :
    objectDir meaning ++ [file.name] = objectPath ⟨meaning, storage⟩ := by
  obtain ⟨bytes, present⟩ := leaf_of_onlyFile chosen
  obtain ⟨_, _, _, _, _, name⟩ := (placed _ bytes present rfl).object_of_dir
  rw [name, parseIdKey_idKey (spelled_storageId bytes)] at parsed
  cases parsed
  rw [name]
  rfl

/-- `find_object` returns a reference to a stored object. -/
theorem findObject_does
    {meaning : ContentId}
    (inv : Inv deployment grounded first world) :
    Does deployment grounded me (findObject deployment.kernel meaning) world
      (fun found final => grounded → found.1.meaning = meaning ∧
        deployment.Stored final found.1) := by
  apply Does.call
  · intro _ _
    trivial
  intro middle reply after moved executed
  refine ⟨by cases executed <;> rfl, fun _ => ?_⟩
  cases executed with
  | listMissing _ _ => exact .fail _
  | listFailed _ _ => exact .fail _
  | list _ =>
      apply Does.check
      intro file chosen
      apply Does.check
      intro storage parsed
      apply (load_does (show V2Layout (objectDir meaning ++ [file.name]) from
        .inl rfl)).bind
      intro bytes now _ settled
      apply Does.check
      intro object checked
      apply Does.ret
      intro final later isGrounded
      have path := objectPath_of_onlyFile ((moved.inv inv).placed isGrounded)
        chosen parsed
      rw [path] at settled
      exact ⟨rfl, object, bytes, later.settled settled, checked⟩

/-- The payload loop resolves to stored references. -/
theorem resolvePayloads_does
    {references : References} {payloads : List ContentId}
    (inv : Inv deployment grounded first world)
    (collected : deployment.Collected world references) :
    Does deployment grounded me
      (resolvePayloads deployment.kernel references payloads) world
      (fun found final => grounded →
        found.map StoredDatumRef.meaning = payloads ∧
          ∀ reference ∈ found, deployment.Stored final reference) := by
  induction payloads generalizing world with
  | nil => exact .ret fun _ _ _ => ⟨rfl, by simp⟩
  | cons meaning rest inductionHypothesis =>
      have resolved : Does deployment grounded me
          (resolvePayload deployment.kernel references meaning) world
          (fun found final => grounded → found.meaning = meaning ∧
            deployment.Stored final found) := by
        unfold resolvePayload
        cases here : references[meaning]? with
        | some reference =>
            obtain ⟨same, stored⟩ := collected meaning reference here
            apply Does.ret
            intro final later _
            exact ⟨same, later.stored stored⟩
        | none =>
            apply (findObject_does inv).bind
            intro found middle _ stored
            apply Does.ret
            intro final later isGrounded
            obtain ⟨same, now⟩ := stored isGrounded
            exact ⟨same, later.stored now⟩
      apply resolved.bind
      intro reference middle moved stored
      apply (inductionHypothesis (moved.inv inv)
        (moved.collected collected)).bind
      intro found now onward others
      apply Does.ret
      intro final later isGrounded
      obtain ⟨same, here⟩ := stored isGrounded
      obtain ⟨meanings, present⟩ := others isGrounded
      refine ⟨by rw [List.map_cons, same, meanings], ?_⟩
      intro member inside
      rcases List.mem_cons.mp inside with rfl | inRest
      · exact (onward.trans later).stored here
      · exact later.stored (present member inRest)

end Objects

section Entries

/-- The publication of an entry leaf settles a link for the entry. -/
theorem publishEntry_does
    (lawful : deployment.kernel.Lawful)
    {references : References} {name : EntryNamespace}
    {previous : Option EntryLocation} {entry : JournalEntry}
    (inv : Inv deployment grounded first world)
    (collected : deployment.Collected world references)
    (genuine : entry.Genuine deployment.kernel)
    (short : Short name.token)
    (spelled : ∀ location ∈ previous,
      LocationSpelled deployment.kernel location) :
    Does deployment grounded me
      (publishEntry deployment.kernel references name previous entry) world
      (fun location final => LocationSpelled deployment.kernel location ∧
        (grounded → ∃ link : Link, link.physical.entry = entry ∧
          Chain deployment.kernel (deployment.Settled final) name previous
            (some location) [link])) := by
  apply Does.check
  intro _ capacity
  apply (resolvePayloads_does inv collected).bind
  intro payloads middle _ resolved
  apply Does.check
  intro bytes put
  let location : EntryLocation :=
    ⟨name, entry.sequence, entry.id, storageId deployment.kernel bytes⟩
  have inSpace (path : Path) :
      LayoutDir deployment.Supplied ("namespaces-v2" :: path) := .space rfl
  have directories (world : World) : Does deployment grounded me
      (ensureEntryDirs location) world (fun _ _ => True) := by
    apply (createDir_does (inSpace _)).bind
    intro _ _ _ _
    exact createDir_does (inSpace _)
  apply (directories middle).bind
  intro _ now moved _
  apply (putImmutable_does (.entry location bytes)).bind
  intro _ written onward settled
  apply Does.ret
  intro final later
  refine ⟨⟨short, spelled_contentId lawful genuine, spelled_storageId bytes⟩,
    fun isGrounded => ?_⟩
  obtain ⟨meanings, stored⟩ := resolved isGrounded
  have since := (moved.trans onward).trans later
  have present : ∀ reference ∈ payloads, deployment.Stored final reference := by
    intro reference inside
    exact since.stored (stored reference inside)
  obtain ⟨objects, holds⟩ := objectsHold_of_stored present
  have length : payloads.length = entry.payloads.length := by
    rw [← meanings, List.length_map]
  have physical : PhysicalSpelled deployment.kernel
      ⟨entry, previous, payloads⟩ :=
    ⟨genuine, spelled,
      fun reference inside => (stored reference inside).spelled lawful,
      by rw [length]; exact capacity⟩
  have decoded := decodeV2Entry_encodeV2Entry lawful physical put
  refine ⟨⟨location, ⟨entry, previous, payloads⟩, objects⟩, rfl, rfl, ?_, rfl⟩
  refine ⟨rfl, ⟨bytes, later.settled settled, ?_⟩, meanings.symm, holds⟩
  exact checkEntryLeaf_eq_ok.mpr ⟨rfl, decoded, rfl, rfl, genuine⟩

/-- The entry loop settles a chain for the batch. -/
theorem publishEntries_does
    (lawful : deployment.kernel.Lawful)
    {references : References} {name : EntryNamespace}
    {previous : Option EntryLocation} {entries : List JournalEntry}
    (inv : Inv deployment grounded first world)
    (collected : deployment.Collected world references)
    (genuine : ∀ entry ∈ entries, entry.Genuine deployment.kernel)
    (short : Short name.token)
    (spelled : ∀ location ∈ previous,
      LocationSpelled deployment.kernel location) :
    Does deployment grounded me
      (publishEntries deployment.kernel references name previous entries) world
      (fun location final =>
        (∀ last ∈ location, LocationSpelled deployment.kernel last) ∧
        (entries ≠ [] ∨ previous.isSome → location.isSome) ∧
        (grounded → ∃ links,
          Chain deployment.kernel (deployment.Settled final) name previous
            location links ∧
          chainEntries links = entries)) := by
  induction entries generalizing world previous with
  | nil =>
      apply Does.ret
      intro final later
      exact ⟨spelled, by simp, fun _ => ⟨[], rfl, rfl⟩⟩
  | cons entry rest inductionHypothesis =>
      apply (publishEntry_does lawful inv collected
        (genuine entry List.mem_cons_self) short spelled).bind
      intro location middle moved here
      obtain ⟨located, linked⟩ := here
      apply (inductionHypothesis (moved.inv inv) (moved.collected collected)
        (fun member inside => genuine member (List.mem_cons_of_mem _ inside))
        (by simpa using located)).weaken
      rintro last final later ⟨lastSpelled, lastSome, chained⟩
      refine ⟨lastSpelled, fun _ => lastSome (.inr rfl), fun isGrounded => ?_⟩
      · obtain ⟨link, same, chain⟩ := linked isGrounded
        obtain ⟨links, onward, entries⟩ := chained isGrounded
        refine ⟨links ++ [link], onward.append ?_, ?_⟩
        · exact chain.mono fun _ _ settled => later.settled settled
        · rw [chainEntries_append, entries]
          simp [chainEntries, same]

end Entries

end SimStorage.Journal.Host
