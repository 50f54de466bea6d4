import SimStorage.Journal.Host.Upgrade
import SimStorage.Journal.NativeInverse
import SimStorage.Interaction.Rely

namespace SimStorage.Journal.Host

/-!
# Directories before leaves

The calls make every directory of the v2 layout before they put anything into
it.  The order is kept across the calls: the entries of a namespace are put into
a directory that the call which selected the namespace has made.  What they put
there is named by its content.
-/

open Codec NativeCodec Interaction

variable {deployment : Deployment} {me : CallId} {port : Port}
variable {kernel : Kernel} {world middle after : World}
variable {path : Path} {leaf : Option Bytes}

section Definitions

/-- The directory that a path stands in is there. -/
def World.Parented (world : World) (path : Path) : Prop :=
  path.dropLast = [] ∨ path.dropLast ∈ world.dirs

/-- No directory is lost. -/
def World.Grown (world after : World) : Prop :=
  ∀ path ∈ world.dirs, path ∈ after.dirs

/-- The namespace that a state leaf selects has its entries directory. -/
def World.HoldsEntries (kernel : Kernel) (world : World)
    (leaf : Option Bytes) : Prop :=
  ∀ envelope, Selects kernel leaf envelope →
    entriesRoot envelope.entryNamespace ∈ world.dirs

/-- The directories that `ensure_layout` makes. -/
structure World.Rooted (world : World) : Prop where
  objects : objectsRoot ∈ world.dirs
  namespaces : ["namespaces-v2"] ∈ world.dirs
  compat : ["compat-v1"] ∈ world.dirs

/-- An object directory is that of a sound object which some call supplies. -/
def Deployment.ObjectPlace (deployment : Deployment) (path : Path) : Prop :=
  path.head? = some "objects-v2" → path = objectsRoot ∨
    ∃ object, deployment.Supplied object ∧ object.Sound deployment.kernel ∧
      path = objectDir object.id

/-- A leaf that is named by its content, or marks a namespace. -/
def Named (kernel : Kernel) (path : Path) (bytes : Bytes) : Prop :=
  path.getLast? = some (idKey (storageId kernel bytes)) ∨
    ∃ name, path = markerPath name ∧ bytes = namespaceMagic

/--
Every leaf and directory of the v2 layout stands in a directory, and the leaves
are named by their contents.
-/
structure Deployment.Laid (deployment : Deployment) (world : World) :
    Prop where
  leaves : ∀ path bytes, world.leaf path = some bytes → V2Layout path →
    world.Parented path
  named : ∀ path bytes, world.leaf path = some bytes → V2Layout path →
    Named deployment.kernel path bytes
  dirs : ∀ path ∈ world.dirs, V2Layout path → world.Parented path
  objects : ∀ path ∈ world.dirs, deployment.ObjectPlace path
  entries : world.HoldsEntries deployment.kernel world.state

/-- The requests that put something where its directory is. -/
def Deployment.orderly (deployment : Deployment) :
    HostCall → World → Prop
  | .createDir path, world =>
      world.Parented path ∧ deployment.ObjectPlace path
  | .compareExchange path _ replacement, world =>
      world.Parented path ∧
        (path = statePath →
          world.HoldsEntries deployment.kernel replacement) ∧
        (path ≠ statePath → ∀ bytes, replacement = some bytes →
          Named deployment.kernel path bytes)
  | .beginGuarded path _ replacement, world =>
      path = statePath ∧ world.HoldsEntries deployment.kernel replacement
  | _, _ => True

/-- The protocol of the layout. -/
def Deployment.layout (deployment : Deployment) :
    Protocol CallId HostCall HostReply World where
  toService := deployment.service
  allowed _ := deployment.orderly

end Definitions

section Names

/-- Where `put_object` puts bytes, they are named by their content. -/
theorem named_object
    (meaning : ContentId) (bytes : Bytes) :
    Named kernel (objectPath ⟨meaning, storageId kernel bytes⟩) bytes :=
  .inl List.getLast?_concat

theorem named_entry
    (name : EntryNamespace) (sequence : UInt64) (entry : ContentId)
    (bytes : Bytes) :
    Named kernel (entryPath ⟨name, sequence, entry, storageId kernel bytes⟩)
      bytes :=
  .inl List.getLast?_concat

theorem named_descriptor
    (bytes : Bytes) :
    Named kernel (descriptorPath (storageId kernel bytes)) bytes :=
  .inl (List.getLast?_concat (l := ["compat-v1"]))

end Names

section Growth

theorem World.Grown.trans
    (first : world.Grown middle)
    (last : middle.Grown after) :
    world.Grown after :=
  fun path here => last path (first path here)

theorem World.Parented.mono
    (parented : world.Parented path)
    (grown : world.Grown after) :
    after.Parented path :=
  parented.imp_right (grown _)

theorem World.HoldsEntries.mono
    (holds : world.HoldsEntries kernel leaf)
    (grown : world.Grown after) :
    after.HoldsEntries kernel leaf :=
  fun envelope selects => grown _ (holds envelope selects)

theorem World.Rooted.mono
    (rooted : world.Rooted)
    (grown : world.Grown after) :
    after.Rooted :=
  ⟨grown _ rooted.objects, grown _ rooted.namespaces, grown _ rooted.compat⟩

theorem World.mem_addDir
    {query : Path} :
    query ∈ (world.addDir path).dirs ↔ query = path ∨ query ∈ world.dirs := by
  unfold World.addDir
  rw [Std.ExtTreeSet.mem_insert]
  apply or_congr _ Iff.rfl
  rw [Std.LawfulEqCmp.compare_eq_iff_eq, eq_comm]

theorem World.grown_addDir :
    world.Grown (world.addDir path) :=
  fun _ here => World.mem_addDir.mpr (.inr here)

/-- No request loses a directory. -/
theorem grown_of_exec
    {call : HostCall} {reply : HostReply call}
    (executed : Exec port me call world reply after) :
    world.Grown after := by
  cases executed with
  | createDir => exact World.grown_addDir
  | createDirUnanswered _ => exact World.grown_addDir
  | _ => exact fun _ here => here

theorem grown_of_move
    (move : deployment.layout.Move world after) :
    world.Grown after := by
  rcases move with ⟨_, executed⟩ | ⟨crashed⟩ | ⟨moved⟩
  · exact grown_of_exec executed
  · cases crashed <;> exact fun _ here => here
  · cases moved with
    | directory _ _ => exact World.grown_addDir
    | _ => exact fun _ here => here

end Growth

section Invariant

/-- A store with the same leaves of the layout and the same directories. -/
theorem Deployment.Laid.same
    (laid : deployment.Laid world)
    (leaves : ∀ path, after.leaf path = world.leaf path)
    (dirs : after.dirs = world.dirs) :
    deployment.Laid after := by
  have grown : world.Grown after := fun _ here => dirs ▸ here
  refine ⟨?_, ?_, ?_, ?_, ?_⟩
  · intro path bytes present layout
    rw [leaves] at present
    exact (laid.leaves path bytes present layout).mono grown
  · intro path bytes present layout
    rw [leaves] at present
    exact laid.named path bytes present layout
  · intro path here layout
    rw [dirs] at here
    exact (laid.dirs path here layout).mono grown
  · intro path here
    rw [dirs] at here
    exact laid.objects path here
  · rw [World.state, leaves]
    exact laid.entries.mono grown

theorem Deployment.Laid.addDir
    (laid : deployment.Laid world)
    (parented : V2Layout path → world.Parented path)
    (place : deployment.ObjectPlace path) :
    deployment.Laid (world.addDir path) := by
  have grown := @World.grown_addDir world path
  refine ⟨?_, laid.named, ?_, ?_, laid.entries.mono grown⟩
  · intro query bytes present layout
    exact (laid.leaves query bytes present layout).mono grown
  · intro query here layout
    rcases World.mem_addDir.mp here with rfl | old
    · exact (parented layout).mono grown
    · exact (laid.dirs query old layout).mono grown
  · intro query here
    rcases World.mem_addDir.mp here with rfl | old
    · exact place
    · exact laid.objects query old

/-- A replaced leaf stands in a directory, and a state names its entries. -/
theorem Deployment.Laid.replace
    (laid : deployment.Laid world)
    {caller : Option CallId} {old new : Option Bytes}
    (parented : V2Layout path → world.Parented path)
    (entries : path = statePath →
      world.HoldsEntries deployment.kernel new)
    (named : V2Layout path → ∀ bytes, new = some bytes →
      Named deployment.kernel path bytes) :
    deployment.Laid (world.replace caller path old new) := by
  refine ⟨?_, ?_, laid.dirs, laid.objects, ?_⟩
  · intro query bytes present layout
    rw [World.leaf_replace] at present
    split at present
    next here =>
      subst here
      exact parented layout
    next =>
      exact laid.leaves query bytes present layout
  · intro query bytes present layout
    rw [World.leaf_replace] at present
    split at present
    next here =>
      subst here
      exact named layout bytes present
    next =>
      exact laid.named query bytes present layout
  · rw [World.state, World.leaf_replace]
    split
    next here => exact entries here.symm
    next => exact laid.entries

/-- Orderly requests keep the layout. -/
theorem Deployment.Laid.exec
    (laid : deployment.Laid world)
    {call : HostCall} {reply : HostReply call}
    (permitted : deployment.orderly call world)
    (executed : Exec port me call world reply after) :
    deployment.Laid after := by
  have offered (bytes : Option Bytes) :
      deployment.Laid (world.offer bytes) :=
    laid.same (fun _ => rfl) rfl
  have inLayout {path : Path} (layout : V2Layout path) : path ≠ statePath :=
    fun same => state_not_layout (same ▸ layout)
  cases executed with
  | createDir => exact laid.addDir (fun _ => permitted.1) permitted.2
  | createDirUnanswered _ =>
      exact laid.addDir (fun _ => permitted.1) permitted.2
  | exchanged _ _ =>
      exact (offered _).replace (fun _ => permitted.1) permitted.2.1
        fun layout => permitted.2.2 (inLayout layout)
  | exchangeUnanswered _ _ _ =>
      exact (offered _).replace (fun _ => permitted.1) permitted.2.1
        fun layout => permitted.2.2 (inLayout layout)
  | @committed _ _ expected replacement _ _ _ _ _ =>
      obtain ⟨rfl, holds⟩ := permitted
      have replaced : deployment.Laid ((world.offer replacement).replace
          (some me) statePath expected replacement) :=
        (offered replacement).replace
          (fun layout => absurd layout state_not_layout) (fun _ => holds)
          (fun layout => absurd layout state_not_layout)
      exact replaced.same (fun _ => rfl) rfl
  | _ => exact laid.same (fun _ => rfl) rfl

/-- Every permitted move keeps the layout. -/
theorem Deployment.Laid.move
    (laid : deployment.Laid world)
    (move : deployment.layout.Move world after) :
    deployment.Laid after := by
  rcases move with ⟨permitted, executed⟩ | ⟨crashed⟩ | ⟨moved⟩
  · exact laid.exec permitted executed
  · cases crashed <;> exact laid.same (fun _ => rfl) rfl
  · cases moved with
    | leaf _ notState outside _ =>
        exact laid.replace (fun layout => absurd layout outside)
          (fun here => absurd here notState)
          (fun layout => absurd layout outside)
    | directory _ outside =>
        refine laid.addDir (fun layout => absurd layout outside) fun here => ?_
        exact absurd (.inl here) outside
    | @state old new _ _ _ _ isV1 =>
        refine laid.replace
          (fun layout => absurd layout state_not_layout)
          (fun _ envelope => ?_)
          (fun layout => absurd layout state_not_layout)
        rintro ⟨bytes, same, isV2, _⟩
        cases same
        rw [isV1] at isV2
        cases isV2

/-- The layout is kept, and calls rely on the directories that they have seen. -/
def Deployment.layoutRely (deployment : Deployment) :
    Rely deployment.layout where
  invariant := deployment.Laid
  later _ := World.Grown
  refl _ _ := fun _ here => here
  trans := World.Grown.trans
  move laid move := laid.move move
  foreign _ foreign := grown_of_move foreign.move

end Invariant

section Building

variable {α β : Type}

/--
A part of a call that keeps the layout: a returned value satisfies its
postcondition, and no directory is lost.
-/
def Builds (deployment : Deployment) (me : CallId) (program : HostProgram α)
    (world : World) (done : α → World → Prop) : Prop :=
  deployment.layoutRely.Keeps me
    (fun value final => world.Grown final ∧ done value final)
    (fun _ _ => True) program world

/-- A program that puts nothing into the store. -/
def Harmless : HostProgram α → Prop
  | .ret _ => True
  | .fail _ => True
  | .call request next =>
      (∀ deployment world, Deployment.orderly deployment request world) ∧
        ∀ reply, Harmless (next reply)

namespace Builds

variable {done : α → World → Prop} {last : β → World → Prop}
variable {program : HostProgram α} {next : α → HostProgram β}

theorem weaken
    {weaker : α → World → Prop}
    (builds : Builds deployment me program world done)
    (implies : ∀ value final, world.Grown final → done value final →
      weaker value final) :
    Builds deployment me program world weaker :=
  Rely.Keeps.weaken builds fun value final kept =>
    ⟨kept.1, implies value final kept.1 kept.2⟩

theorem bind
    (first : Builds deployment me program world done)
    (rest : ∀ value middle, deployment.Laid middle → world.Grown middle →
      done value middle →
      Builds deployment me (next value) middle last) :
    Builds deployment me (program >>= next) world last := by
  apply Rely.Keeps.bind first
  intro value middle laid kept
  apply Rely.Keeps.weaken (rest value middle laid kept.1 kept.2)
  intro result final onward
  exact ⟨kept.1.trans onward.1, onward.2⟩

theorem ret
    {value : α}
    (laid : deployment.Laid world)
    (finishes : ∀ final, world.Grown final → done value final) :
    Builds deployment me (.ret value) world done :=
  Rely.Keeps.ret laid fun final grown => ⟨grown, finishes final grown⟩

theorem fail
    (laid : deployment.Laid world)
    (fault : Fault) :
    Builds deployment me (.fail fault) world done :=
  Rely.Keeps.fail laid fun _ _ => trivial

/-- One request, answered in a store in which no directory was lost. -/
theorem call
    (laid : deployment.Laid world)
    {request : HostCall} {next : HostReply request → HostProgram α}
    (permitted : ∀ middle, world.Grown middle →
      deployment.orderly request middle)
    (answered : ∀ reply middle after, deployment.Laid middle →
      world.Grown middle →
      Exec deployment.port me request middle reply after →
      deployment.Laid after →
      Builds deployment me (next reply) after done) :
    Builds deployment me (.call request next) world done := by
  apply Rely.Keeps.call laid
  intro middle held grown
  refine ⟨permitted middle grown, fun reply after executed since => ?_⟩
  apply Rely.Keeps.weaken (answered reply middle after held grown executed since)
  intro value final kept
  have onward : World.Grown world after := grown.trans (grown_of_exec executed)
  exact ⟨onward.trans kept.1, kept.2⟩

theorem harmless
    (laid : deployment.Laid world)
    (harmless : Harmless program) :
    Builds deployment me program world (fun _ _ => True) := by
  induction program generalizing world with
  | ret value => exact ret laid fun _ _ => trivial
  | fail fault => exact fail laid fault
  | call request next inductionHypothesis =>
      apply call laid (fun middle _ => harmless.1 deployment middle)
      intro reply middle after _ _ _ since
      exact inductionHypothesis reply since (harmless.2 reply)

/-- A check that makes no request. -/
theorem check
    {result : Result α}
    (laid : deployment.Laid world)
    (passes : ∀ value, result = .ok value →
      Builds deployment me (next value) world last) :
    Builds deployment me (pureResult result >>= next) world last := by
  cases result with
  | ok value => exact passes value rfl
  | error fault => exact fail laid fault

end Builds

namespace Harmless

variable {program : HostProgram α} {next : α → HostProgram β}

theorem bind
    (first : Harmless program)
    (rest : ∀ value, Harmless (next value)) :
    Harmless (program >>= next) := by
  induction program with
  | ret value => exact rest value
  | fail fault => exact trivial
  | call request continuation inductionHypothesis =>
      exact ⟨first.1, fun reply => inductionHypothesis reply (first.2 reply)⟩

theorem pureResult
    (result : Result α) :
    Harmless (pureResult result) := by
  cases result <;> exact trivial

/-- Readers put nothing into the store. -/
theorem of_readsOnly
    (reads : ReadsOnly program) :
    Harmless program := by
  induction program with
  | ret value => exact trivial
  | fail fault => exact trivial
  | call request continuation inductionHypothesis =>
      cases request with
      | read path =>
          refine ⟨fun _ _ => trivial, fun reply => ?_⟩
          cases reply with
          | ok bytes => exact inductionHypothesis _ (reads.1 bytes)
          | error error =>
              obtain ⟨fault, failed⟩ := reads.2 error
              rw [failed]
              exact trivial
      | _ => exact reads.elim

end Harmless

end Building

section Requests

theorem orPortError_harmless
    {α : Type} (result : PortResult α) :
    Harmless (orPortError result) := by
  cases result <;> exact trivial

theorem trip_harmless
    (point : Failpoint) :
    Harmless (trip point) := by
  refine ⟨fun _ _ => trivial, fun trips => ?_⟩
  cases trips <;> exact trivial

theorem tripAdmission_harmless
    (point : Failpoint) :
    Harmless (tripAdmission point) := by
  refine ⟨fun _ _ => trivial, fun trips => ?_⟩
  cases trips with
  | true => exact trivial
  | false =>
      refine ⟨fun _ _ => trivial, fun again => ?_⟩
      cases again <;> exact trivial

theorem writeCapable_harmless
    (backend : HostDirJournalBackend) :
    Harmless (writeCapable backend) := by
  unfold writeCapable
  split
  · exact trivial
  · split <;> exact trivial

/-- A directory that was made is there. -/
theorem createDir_builds
    (laid : deployment.Laid world)
    (parented : world.Parented path)
    (place : deployment.ObjectPlace path) :
    Builds deployment me (createDir path) world
      (fun _ final => path ∈ final.dirs) := by
  apply Builds.call laid
  · intro middle grown
    exact ⟨parented.mono grown, place⟩
  intro reply middle after _ _ executed since
  cases executed with
  | createDir =>
      apply Builds.ret since
      intro final grown
      exact grown _ (World.mem_addDir.mpr (.inl rfl))
  | createDirFailed _ => exact .fail since _
  | createDirUnanswered _ => exact .fail since _

theorem ensureLayout_builds
    (laid : deployment.Laid world) :
    Builds deployment me ensureLayout world
      (fun _ final => final.Rooted) := by
  have elsewhere {path : Path} (other : path.head? ≠ some "objects-v2") :
      deployment.ObjectPlace path := fun here => absurd here other
  have first : Builds deployment me (createDir objectsRoot) world
      (fun _ final => objectsRoot ∈ final.dirs) :=
    createDir_builds laid (.inl rfl) (fun _ => .inl rfl)
  apply first.bind
  intro _ one laidOne _ objects
  apply (createDir_builds laidOne (.inl rfl) (elsewhere (by decide))).bind
  intro _ two laidTwo grownTwo namespaces
  apply (createDir_builds laidTwo (.inl rfl) (elsewhere (by decide))).bind
  intro _ three laidThree grownThree compat
  apply (createDir_builds laidThree (.inl rfl) (elsewhere (by decide))).weaken
  intro _ final grown _
  have since := grownTwo.trans (grownThree.trans grown)
  exact ⟨since _ objects, grownThree.trans grown _ namespaces,
    grown _ compat⟩

/-- The state that a call observed names an entries directory. -/
theorem stateBytes_builds
    (laid : deployment.Laid world) :
    Builds deployment me stateBytes world
      (fun observed final =>
        final.HoldsEntries deployment.kernel observed) := by
  apply Builds.call laid
  · intro _ _
    trivial
  intro reply middle after held _ executed since
  cases executed with
  | read present =>
      apply Builds.ret since
      intro final grown
      have entries := held.entries
      rw [World.state, present] at entries
      exact entries.mono grown
  | readMissing _ kind =>
      simp only [kind, if_true]
      apply Builds.ret since
      rintro final _ envelope ⟨_, absent, _⟩
      cases absent
  | readFailed _ kind =>
      simp only [kind, if_false]
      exact .fail since _

/-- A leaf is written where its directory is. -/
theorem exchangeLeaf_builds
    {bytes : Bytes}
    (laid : deployment.Laid world)
    (notState : path ≠ statePath)
    (parented : world.Parented path)
    (named : Named deployment.kernel path bytes) :
    Builds deployment me (compareExchange path none (some bytes)) world
      (fun _ _ => True) := by
  apply Builds.call laid
  · intro middle grown
    refine ⟨parented.mono grown, fun here => absurd here notState, ?_⟩
    rintro _ content ⟨⟩
    exact named
  intro reply _ _ _ _ _ since
  exact .harmless since (orPortError_harmless reply)

theorem putImmutable_builds
    {bytes : Bytes}
    (laid : deployment.Laid world)
    (notState : path ≠ statePath)
    (parented : world.Parented path)
    (named : Named deployment.kernel path bytes) :
    Builds deployment me (putImmutable path bytes) world
      (fun _ _ => True) := by
  apply (exchangeLeaf_builds laid notState parented named).bind
  intro outcome middle since _ _
  split
  · exact .ret since fun _ _ => trivial
  · exact .fail since _

/-- The state leaf is exchanged for one whose entries directory is there. -/
theorem exchangeState_builds
    {expected replacement : Option Bytes}
    (laid : deployment.Laid world)
    (entries : world.HoldsEntries deployment.kernel replacement) :
    Builds deployment me (compareExchange statePath expected replacement) world
      (fun _ _ => True) := by
  apply Builds.call laid
  · intro middle grown
    exact ⟨.inl rfl, fun _ => entries.mono grown, fun other => absurd rfl other⟩
  intro reply _ _ _ _ _ since
  exact .harmless since (orPortError_harmless reply)

end Requests

section Leases

/-- Bytes that start with the same text have the same text there. -/
theorem putText_cancel
    {first second : String} {rest other : Bytes}
    (short : Short first)
    (otherShort : Short second)
    (same : putText first ++ rest = putText second ++ other) :
    first = second := by
  unfold putText at same
  rw [List.append_assoc, List.append_assoc] at same
  obtain ⟨lengths, tails⟩ := List.append_inj same (by simp)
  have counted := congrArg fromBe32 lengths
  rw [fromBe32_be32, fromBe32_be32] at counted
  have equal : (utf8 first).length = (utf8 second).length := by
    have values := congrArg UInt32.toNat counted
    rwa [UInt32.toNat_ofNat_of_lt' short,
      UInt32.toNat_ofNat_of_lt' otherShort] at values
  exact utf8_injective (List.append_inj tails equal).1

/-- An encoded envelope names the entries directory of its namespace. -/
theorem holdsEntries_encoded
    {envelope : NativeStateEnvelope}
    (short : Short envelope.entryNamespace.token)
    (here : entriesRoot envelope.entryNamespace ∈ world.dirs) :
    world.HoldsEntries kernel (some (encodeEnvelope envelope)) := by
  rintro found ⟨bytes, same, _, decoded⟩
  cases same
  have spelled := encodeEnvelope_of_decodeEnvelope decoded
  have foundShort := (wellFormed_of_decodeEnvelope decoded).short
  unfold encodeEnvelope at spelled
  have fields := (List.append_inj (List.append_cancel_left spelled) (by simp)).2
  have token := putText_cancel foundShort short fields
  have sameName : found.entryNamespace = envelope.entryNamespace := by
    cases name : found.entryNamespace
    cases other : envelope.entryNamespace
    rw [name, other] at token
    exact congrArg EntryNamespace.mk token
  rwa [sameName]

/-- The claim of a namespace, once its name is made. -/
theorem claimNamespace_builds
    {name : EntryNamespace}
    (laid : deployment.Laid world)
    (rooted : world.Rooted)
    (short : Short name.token) :
    Builds deployment me
      (do
        createDir (namespaceRoot name)
        let result ← compareExchange (markerPath name) none
          (some namespaceMagic)
        if result.exchanged then do
          createDir (entriesRoot name)
          return some name
        else
          return none) world
      (fun found final => ∀ name, found = some name →
        Short name.token ∧ entriesRoot name ∈ final.dirs) := by
  have elsewhere {rest : Path} :
      deployment.ObjectPlace ("namespaces-v2" :: rest) :=
    fun here => absurd (Option.some.inj here) (by decide)
  have parent : world.Parented (namespaceRoot name) := .inr rooted.namespaces
  apply (createDir_builds laid parent elsewhere).bind
  intro _ made laid _ root
  have marked : made.Parented (markerPath name) := .inr root
  have notState : markerPath name ≠ statePath := by
    simp [markerPath, namespaceRoot, statePath]
  apply (exchangeLeaf_builds laid notState marked
    (.inr ⟨name, rfl, rfl⟩)).bind
  intro result exchanged laid grown _
  split
  · have inside : exchanged.Parented (entriesRoot name) := .inr (grown _ root)
    apply (createDir_builds laid inside elsewhere).bind
    intro _ final laid _ entries
    apply Builds.ret laid
    rintro last later _ ⟨⟩
    exact ⟨short, later _ entries⟩
  · apply Builds.ret laid
    rintro _ _ _ ⟨⟩

/-- A reserved namespace has its entries directory. -/
theorem reserveNamespace_builds
    {seed : Bytes} {attempts : Nat}
    (laid : deployment.Laid world)
    (rooted : world.Rooted) :
    Builds deployment me
      (reserveNamespace deployment.kernel seed attempts) world
      (fun name final => Short name.token ∧
        entriesRoot name ∈ final.dirs) := by
  have attempt {world : World} (laid : deployment.Laid world)
      (rooted : world.Rooted) :
      Builds deployment me (reserveAttempt deployment.kernel seed) world
        (fun found final => ∀ name, found = some name →
          Short name.token ∧ entriesRoot name ∈ final.dirs) := by
    apply Builds.call laid
    · intro _ _
      trivial
    intro source middle start _ grown executed laid
    have rooted := rooted.mono (grown.trans (grown_of_exec executed))
    cases source.now with
    | none => exact .fail laid _
    | some now =>
        apply claimNamespace_builds laid rooted
        have short := utf8_hex_length_le
          (deployment.kernel.sha256 (tokenBytes seed now source)).val
        rw [(deployment.kernel.sha256 _).property] at short
        change (utf8 (hex _)).length < 2 ^ 32
        omega
  induction attempts generalizing world with
  | zero => exact .fail laid _
  | succ attempts inductionHypothesis =>
      apply (attempt laid rooted).bind
      intro found middle laid grown reserved
      cases found with
      | some name =>
          apply Builds.ret laid
          intro final later
          obtain ⟨short, here⟩ := reserved name rfl
          exact ⟨short, later _ here⟩
      | none => exact inductionHypothesis laid (rooted.mono grown)

theorem inherit_builds
    {backend : HostDirJournalBackend} {observed : Option Bytes}
    (laid : deployment.Laid world)
    (rooted : world.Rooted) :
    Builds deployment me (inherit deployment.kernel backend observed) world
      (fun _ _ => True) := by
  cases observed with
  | none => exact .ret laid fun _ _ => trivial
  | some bytes =>
      apply Builds.check laid
      rintro ⟨fence, physical⟩ _
      cases physical with
      | none => exact .ret laid fun _ _ => trivial
      | some head =>
          have reads : Harmless (readV1 deployment.kernel backend bytes) :=
            .of_readsOnly (readV1_readsOnly backend bytes)
          apply (Builds.harmless laid reads).bind
          rintro ⟨state, canonicalHead⟩ read laid grown _
          apply (Builds.harmless laid (trip_harmless _)).bind
          intro _ tripped laid onward _
          have rooted := (rooted.mono grown).mono onward
          have parent (id : ContentId) : tripped.Parented (descriptorPath id) :=
            .inr rooted.compat
          have notState (id : ContentId) : descriptorPath id ≠ statePath := by
            simp [descriptorPath, statePath]
          apply (putImmutable_builds laid (notState _) (parent _)
            (named_descriptor _)).bind
          intro _ written laid _ _
          apply (Builds.harmless laid (trip_harmless _)).bind
          intro _ again laid _ _
          apply Builds.check laid
          intro _ _
          exact .ret laid fun _ _ => trivial

theorem installV2_builds
    {backend : HostDirJournalBackend} {observed : Option Bytes}
    (laid : deployment.Laid world)
    (rooted : world.Rooted) :
    Builds deployment me (installV2 deployment.kernel backend observed) world
      (fun _ _ => True) := by
  apply (inherit_builds laid rooted).bind
  intro inherited read laid grown _
  apply Builds.check laid
  intro fence _
  apply (reserveNamespace_builds laid (rooted.mono grown)).bind
  rintro name reserved laid _ ⟨short, here⟩
  apply (Builds.harmless laid (trip_harmless _)).bind
  intro _ tripped laid onward _
  apply (Builds.harmless laid (trip_harmless _)).bind
  intro _ ready laid further _
  have entries := further _ (onward _ here)
  apply (exchangeState_builds laid (holdsEntries_encoded short entries)).bind
  intro result final laid _ _
  split
  · exact .ret laid fun _ _ => trivial
  · apply (Builds.harmless laid (trip_harmless _)).bind
    intro _ last laid _ _
    exact .ret laid fun _ _ => trivial

theorem bumpFence_builds
    {backend : HostDirJournalBackend} {bytes : Bytes}
    (laid : deployment.Laid world)
    (isV2 : isV1State bytes = false)
    (entries : world.HoldsEntries deployment.kernel (some bytes)) :
    Builds deployment me (bumpFence deployment.kernel backend bytes) world
      (fun _ _ => True) := by
  apply Builds.check laid
  intro envelope decoded
  have here := entries envelope ⟨bytes, rfl, isV2, decoded⟩
  have short := (wellFormed_of_decodeEnvelope decoded).short
  have reads : Harmless (readV2 deployment.kernel backend envelope) :=
    .of_readsOnly (readV2_readsOnly backend envelope)
  apply (Builds.harmless laid reads).bind
  intro _ read laid grown _
  apply Builds.check laid
  intro fence _
  have bumped : read.HoldsEntries deployment.kernel
      (some (encodeEnvelope { envelope with fence := fence })) :=
    holdsEntries_encoded short (grown _ here)
  apply (exchangeState_builds laid bumped).bind
  intro result final laid _ _
  split <;> exact .ret laid fun _ _ => trivial

theorem acquireAgain_builds
    {backend : HostDirJournalBackend}
    (laid : deployment.Laid world)
    (rooted : world.Rooted) :
    Builds deployment me (acquireAgain deployment.kernel backend) world
      (fun _ final => final.Rooted) := by
  have attempt : Builds deployment me
      (acquireAttempt deployment.kernel backend) world (fun _ _ => True) := by
    apply (stateBytes_builds laid).bind
    intro observed read laid grown entries
    have rooted := rooted.mono grown
    cases observed with
    | none => exact installV2_builds laid rooted
    | some bytes =>
        by_cases isV1 : isV1State bytes = true
        · simp only [isV1, if_true]
          exact installV2_builds laid rooted
        · simp only [isV1]
          exact bumpFence_builds laid (by simpa using isV1) entries
  apply attempt.bind
  intro lease middle laid grown _
  apply Builds.ret laid
  intro final onward
  exact (rooted.mono grown).mono onward

end Leases

section Admissions

theorem putObject_builds
    {object : JournalObject}
    (laid : deployment.Laid world)
    (rooted : world.Rooted)
    (supplied : deployment.Supplied object) :
    Builds deployment me (putObject deployment.kernel object) world
      (fun _ _ => True) := by
  apply Builds.check laid
  intro _ verified
  apply Builds.check laid
  intro bytes put
  have sound := JournalObject.sound_of_storageBytes verified put
  have parent : world.Parented (objectDir object.id) := .inr rooted.objects
  have place : deployment.ObjectPlace (objectDir object.id) :=
    fun _ => .inr ⟨object, supplied, sound, rfl⟩
  apply (createDir_builds laid parent place).bind
  intro _ made laid _ here
  have within (reference : StoredDatumRef)
      (same : reference.meaning = object.id) :
      made.Parented (objectPath reference) := by
    refine .inr ?_
    rw [objectPath, same, List.dropLast_concat]
    exact here
  have notState (reference : StoredDatumRef) :
      objectPath reference ≠ statePath := by
    simp [objectPath, objectDir, objectsRoot, statePath]
  apply (putImmutable_builds laid (notState _) (within _ rfl)
    (named_object object.id bytes)).bind
  intro _ written laid _ _
  exact .ret laid fun _ _ => trivial

theorem publishObjects_builds
    {references : References} {objects : List JournalObject}
    (laid : deployment.Laid world)
    (rooted : world.Rooted)
    (supplied : ∀ object ∈ objects, deployment.Supplied object) :
    Builds deployment me
      (publishObjects deployment.kernel references objects) world
      (fun _ _ => True) := by
  induction objects generalizing references world with
  | nil => exact .ret laid fun _ _ => trivial
  | cons object rest inductionHypothesis =>
      apply (putObject_builds laid rooted
        (supplied object List.mem_cons_self)).bind
      intro reference middle laid grown _
      exact inductionHypothesis laid (rooted.mono grown) fun member inside =>
        supplied member (List.mem_cons_of_mem _ inside)

theorem findObject_harmless
    (meaning : ContentId) :
    Harmless (findObject kernel meaning) := by
  have listed : Harmless (.call (.list (objectDir meaning)) orPortError :
      HostProgram (List HostEntry)) :=
    ⟨fun _ _ => trivial, orPortError_harmless⟩
  apply listed.bind
  intro entries
  apply (Harmless.pureResult _).bind
  intro file
  apply (Harmless.pureResult _).bind
  intro storage
  have loaded (path : Path) : Harmless (load path) :=
    ⟨fun _ _ => trivial, orPortError_harmless⟩
  apply (loaded _).bind
  intro bytes
  apply (Harmless.pureResult _).bind
  intro object
  exact trivial

theorem resolvePayloads_harmless
    {references : References} (payloads : List ContentId) :
    Harmless (resolvePayloads kernel references payloads) := by
  induction payloads with
  | nil => exact trivial
  | cons meaning rest inductionHypothesis =>
      have resolved : Harmless (resolvePayload kernel references meaning) := by
        unfold resolvePayload
        split
        · exact trivial
        · exact (findObject_harmless meaning).bind fun _ => trivial
      exact resolved.bind fun _ => inductionHypothesis.bind fun _ => trivial

/-- An entry leaf is written below the entries directory of its namespace. -/
theorem publishEntry_builds
    {references : References} {name : EntryNamespace}
    {previous : Option EntryLocation} {entry : JournalEntry}
    (laid : deployment.Laid world)
    (entries : entriesRoot name ∈ world.dirs) :
    Builds deployment me
      (publishEntry deployment.kernel references name previous entry) world
      (fun _ _ => True) := by
  have elsewhere {rest : Path} :
      deployment.ObjectPlace ("namespaces-v2" :: rest) :=
    fun here => absurd (Option.some.inj here) (by decide)
  apply Builds.check laid
  intro _ _
  have resolved : Harmless
      (resolvePayloads deployment.kernel references entry.payloads) :=
    resolvePayloads_harmless entry.payloads
  apply (Builds.harmless laid resolved).bind
  intro payloads read laid grown _
  apply Builds.check laid
  intro bytes _
  generalize here : (⟨name, entry.sequence, entry.id,
    storageId deployment.kernel bytes⟩ : EntryLocation) = location
  have root : entriesRoot location.entryNamespace ∈ read.dirs := by
    rw [← here]
    exact grown _ entries
  have sequenced : read.Parented (sequenceDir location) := by
    refine .inr ?_
    rwa [sequenceDir, List.dropLast_concat]
  have directories : Builds deployment me (ensureEntryDirs location) read
      (fun _ final => entryDir location ∈ final.dirs) := by
    apply (createDir_builds laid sequenced elsewhere).bind
    intro _ made laid _ inside
    have within : made.Parented (entryDir location) := by
      refine .inr ?_
      rwa [entryDir, List.dropLast_concat]
    exact createDir_builds laid within elsewhere
  apply directories.bind
  intro _ ready laid _ inside
  have parent : ready.Parented (entryPath location) := by
    refine .inr ?_
    rwa [entryPath, List.dropLast_concat]
  have notState : entryPath location ≠ statePath := by
    simp [entryPath, entryDir, sequenceDir, entriesRoot, namespaceRoot,
      statePath]
  have named : Named deployment.kernel (entryPath location) bytes := by
    rw [← here]
    exact named_entry _ _ _ _
  apply (putImmutable_builds laid notState parent named).bind
  intro _ written laid _ _
  exact .ret laid fun _ _ => trivial

theorem publishEntries_builds
    {references : References} {name : EntryNamespace}
    {previous : Option EntryLocation} {batch : List JournalEntry}
    (laid : deployment.Laid world)
    (entries : entriesRoot name ∈ world.dirs) :
    Builds deployment me
      (publishEntries deployment.kernel references name previous batch) world
      (fun _ _ => True) := by
  induction batch generalizing previous world with
  | nil => exact .ret laid fun _ _ => trivial
  | cons entry rest inductionHypothesis =>
      apply (publishEntry_builds laid entries).bind
      intro location middle laid grown _
      exact inductionHypothesis laid (grown _ entries)

theorem invokeTimes_harmless
    (times : Nat) (state : Continuation) :
    Harmless (Continuation.invokeTimes times state) := by
  induction times generalizing state with
  | zero => exact trivial
  | succ times inductionHypothesis =>
      have invoked : Harmless state.invoke := by
        unfold Continuation.invoke
        split
        · exact trivial
        · have tripped : Harmless (trippedAdmission .afterCas) := by
            refine ⟨fun _ _ => trivial, fun trips => ?_⟩
            cases trips with
            | true => exact trivial
            | false => exact ⟨fun _ _ => trivial, fun _ => trivial⟩
          apply tripped.bind
          intro error
          cases error with
          | some error => exact trivial
          | none => exact ⟨fun _ _ => trivial, fun _ => trivial⟩
      exact invoked.bind fun later => inductionHypothesis later

theorem exchangeGuarded_builds
    {observed replacement : Bytes}
    (laid : deployment.Laid world)
    (entries : world.HoldsEntries deployment.kernel (some replacement)) :
    Builds deployment me (exchangeGuarded observed replacement) world
      (fun _ _ => True) := by
  apply Builds.call laid
  · intro middle grown
    exact ⟨rfl, entries.mono grown⟩
  intro reply middle after _ _ _ since
  apply Builds.harmless since
  cases reply with
  | returned result =>
      apply (orPortError_harmless result).bind
      intro outcome
      split <;> exact trivial
  | committed invocations =>
      apply (invokeTimes_harmless _ _).bind
      intro state
      have released : Harmless
          (.call (.endGuarded statePath (some observed)) orPortError :
            HostProgram HostCompareExchange) :=
        ⟨fun _ _ => trivial, orPortError_harmless⟩
      apply released.bind
      intro outcome
      split <;> exact trivial

theorem exchangePlain_builds
    {observed replacement : Bytes}
    (laid : deployment.Laid world)
    (entries : world.HoldsEntries deployment.kernel (some replacement)) :
    Builds deployment me (exchangePlain observed replacement) world
      (fun _ _ => True) := by
  apply (exchangeState_builds laid entries).bind
  intro outcome final laid _ _
  apply Builds.harmless laid
  split
  · exact (tripAdmission_harmless _).bind fun _ => trivial
  · exact trivial

/-- The head exchange names the entries directory of its namespace. -/
theorem commitHead_builds
    {guarded : Bool} {observed replacement : Bytes} {newHead : JournalHead}
    (laid : deployment.Laid world)
    (entries : world.HoldsEntries deployment.kernel (some replacement)) :
    Builds deployment me (commitHead guarded observed replacement newHead)
      world (fun _ _ => True) := by
  cases guarded with
  | true =>
      apply (exchangeGuarded_builds laid entries).bind
      intro exchange final laid _ _
      apply Builds.harmless laid
      beta_reduce
      split
      · exact trivial
      · cases exchange.postCommitError with
        | some error => exact trivial
        | none => exact (tripAdmission_harmless _).bind fun _ => trivial
  | false =>
      apply (exchangePlain_builds laid entries).bind
      intro exchange final laid _ _
      apply Builds.harmless laid
      beta_reduce
      split
      · exact trivial
      · cases exchange.postCommitError with
        | some error => exact trivial
        | none => exact (tripAdmission_harmless _).bind fun _ => trivial

theorem commitFresh_builds
    {guarded : Bool} {admission : Admission} {observed : Bytes}
    {envelope : NativeStateEnvelope}
    (laid : deployment.Laid world)
    (rooted : world.Rooted)
    (supplied : ∀ object ∈ admission.objects, deployment.Supplied object)
    (short : Short envelope.entryNamespace.token)
    (entries : entriesRoot envelope.entryNamespace ∈ world.dirs) :
    Builds deployment me
      (commitFresh deployment.kernel guarded admission observed envelope) world
      (fun _ _ => True) := by
  apply (Builds.harmless laid (tripAdmission_harmless _)).bind
  intro _ begun laid grown _
  apply (publishObjects_builds laid (rooted.mono grown) supplied).bind
  intro references stored laid onward _
  apply (Builds.harmless laid (tripAdmission_harmless _)).bind
  intro _ tripped laid further _
  have here := further _ (onward _ (grown _ entries))
  apply (publishEntries_builds laid here).bind
  intro location chained laid beyond _
  apply (Builds.harmless laid (tripAdmission_harmless _)).bind
  intro _ durable laid persisted _
  apply Builds.check laid
  intro last _
  apply (Builds.harmless laid (tripAdmission_harmless _)).bind
  intro _ ready laid arrived _
  apply commitHead_builds laid
  exact holdsEntries_encoded short (arrived _ (persisted _ (beyond _ here)))

theorem confirmRedelivery_builds
    {backend : HostDirJournalBackend} {admission : Admission}
    {observed : Bytes} {envelope : NativeStateEnvelope}
    (laid : deployment.Laid world)
    (entries : world.HoldsEntries deployment.kernel (some observed)) :
    Builds deployment me
      (confirmRedelivery deployment.kernel backend admission observed envelope)
      world (fun _ _ => True) := by
  have reads : Harmless (readV2 deployment.kernel backend envelope) :=
    .of_readsOnly (readV2_readsOnly backend envelope)
  apply (Builds.harmless laid reads).bind
  intro state read laid grown _
  split
  · exact .fail laid _
  · apply (exchangeState_builds laid (entries.mono grown)).bind
    intro confirmation final laid _ _
    apply Builds.harmless laid
    split
    · exact trivial
    · exact (Harmless.pureResult _).bind fun _ => trivial

theorem admitWithAction_builds
    {backend : HostDirJournalBackend} {guarded : Bool}
    {admission : Admission}
    (laid : deployment.Laid world)
    (supplied : ∀ object ∈ admission.objects, deployment.Supplied object) :
    Builds deployment me
      (admitWithAction deployment.kernel backend guarded admission) world
      (fun _ _ => True) := by
  have required : Harmless (requireGuarded guarded) := by
    unfold requireGuarded
    split
    · refine ⟨fun _ _ => trivial, fun supported => ?_⟩
      cases supported <;> exact trivial
    · exact trivial
  apply (Builds.harmless laid required).bind
  intro _ begun laid _ _
  apply (Builds.harmless laid (writeCapable_harmless backend)).bind
  intro _ capable laid _ _
  apply (ensureLayout_builds laid).bind
  intro _ ready laid _ rooted
  apply (stateBytes_builds laid).bind
  intro bytes read laid grown entries
  cases bytes with
  | none => exact .fail laid _
  | some observed =>
      apply Builds.check laid
      rintro _ ⟨⟩
      unfold admitObserved
      by_cases isV1 : isV1State observed = true
      · rw [if_pos isV1]
        exact .fail laid _
      · rw [if_neg isV1]
        apply Builds.check laid
        intro envelope decoded
        have here := entries envelope
          ⟨observed, rfl, by simpa using isV1, decoded⟩
        have short := (wellFormed_of_decodeEnvelope decoded).short
        split
        · exact .fail laid _
        · split
          · exact confirmRedelivery_builds laid entries
          · exact commitFresh_builds laid (rooted.mono grown) supplied short
              here

end Admissions

section Calls

/-- What a call leaves when it ends in an outcome: a round leaves the roots. -/
def LeavesRoots (outcome : Outcome) (world : World) : Prop :=
  outcome = .again → world.Rooted

theorem readState_harmless
    (backend : HostDirJournalBackend) :
    Harmless (readState kernel backend) := by
  have observed : Harmless stateBytes := by
    refine ⟨fun _ _ => trivial, fun reply => ?_⟩
    cases reply with
    | ok bytes => exact trivial
    | error error =>
        dsimp only
        split <;> exact trivial
  exact observed.bind fun leaf =>
    .of_readsOnly (readStateFrom_readsOnly backend leaf)

theorem rebuildEntries_harmless
    (backend : HostDirJournalBackend) (rebuilt : List StoredDatumRef)
    (entries : List HostEntry) :
    Harmless (rebuildEntries kernel backend rebuilt entries) := by
  induction entries generalizing rebuilt with
  | nil => exact trivial
  | cons entry rest inductionHypothesis =>
      unfold rebuildEntries
      split
      · exact trivial
      · split
        · exact trivial
        · apply (Harmless.pureResult _).bind
          intro meaning
          exact (findObject_harmless meaning).bind fun _ =>
            inductionHypothesis _

theorem rebuildDatumIndex_harmless
    (backend : HostDirJournalBackend) :
    Harmless (rebuildDatumIndex kernel backend) := by
  refine ⟨fun _ _ => trivial, fun reply => ?_⟩
  cases reply with
  | ok entries => exact (rebuildEntries_harmless _ _ _).bind fun _ => trivial
  | error error =>
      dsimp only
      split <;> exact trivial

/-- A verified publication goes on with the admission that it asks for. -/
theorem publication_builds
    {α : Type} {publication : Publication} {backend : HostDirJournalBackend}
    {rest : Admission → HostProgram α}
    (laid : deployment.Laid world)
    (continues : ∀ middle, deployment.Laid middle →
      Builds deployment me (rest publication.admission) middle
        (fun _ _ => True)) :
    Builds deployment me
      (verifiedAdmission deployment.kernel
        (readState deployment.kernel backend) publication >>= rest) world
      (fun _ _ => True) := by
  have verified : Builds deployment me
      (verifiedAdmission deployment.kernel
        (readState deployment.kernel backend) publication) world
      (fun admission _ => admission = publication.admission) := by
    unfold verifiedAdmission
    split
    · exact .fail laid _
    · apply (Builds.harmless laid (readState_harmless backend)).bind
      intro before read laid _ _
      apply Builds.check laid
      intro _ _
      apply Builds.check laid
      intro _ _
      exact .ret laid fun _ _ => rfl
  apply verified.bind
  rintro _ middle laid _ rfl
  exact continues middle laid

theorem callProgram_builds
    (laid : deployment.Laid world) :
    Builds deployment me (deployment.program me) world LeavesRoots := by
  have finished {α : Type} {program : HostProgram α} {wrap : α → Outcome}
      (builds : Builds deployment me program world (fun _ _ => True))
      (other : ∀ value, wrap value ≠ .again) :
      Builds deployment me (program >>= fun value => .ret (wrap value)) world
        LeavesRoots := by
    apply builds.bind
    intro value middle laid _ _
    exact .ret laid fun final _ here => absurd here (other value)
  unfold Deployment.program
  generalize deployment.backends me = backend
  cases working : deployment.workload me with
  | acquireLease =>
      apply (Builds.harmless laid (writeCapable_harmless backend)).bind
      intro _ capable laid _ _
      apply (ensureLayout_builds laid).bind
      intro _ ready laid _ rooted
      apply (acquireAgain_builds laid rooted).weaken
      exact fun _ _ _ rooted _ => rooted
  | readState =>
      exact finished (.harmless laid (readState_harmless backend))
        fun _ => by simp
  | publish publication =>
      have supplied : ∀ object ∈ publication.objects,
          deployment.Supplied object :=
        fun object inside => ⟨me, by rw [working]; exact inside⟩
      have published : Builds deployment me
          (publish deployment.kernel backend publication) world
          (fun _ _ => True) := by
        apply publication_builds laid
        intro middle laid
        apply (admitWithAction_builds laid supplied).bind
        intro result final laid _ _
        exact .ret laid fun _ _ => trivial
      exact finished published fun _ => by simp
  | publishThen publication =>
      have supplied : ∀ object ∈ publication.objects,
          deployment.Supplied object :=
        fun object inside => ⟨me, by rw [working]; exact inside⟩
      have published : Builds deployment me
          (publishThen deployment.kernel backend publication) world
          (fun _ _ => True) := by
        apply publication_builds laid
        intro middle laid
        exact admitWithAction_builds laid supplied
      exact finished published fun _ => by simp
  | putDatum object =>
      have put : Builds deployment me
          (putDatum deployment.kernel backend object) world
          (fun _ _ => True) := by
        apply (Builds.harmless laid (writeCapable_harmless backend)).bind
        intro _ capable laid _ _
        apply (ensureLayout_builds laid).bind
        intro _ ready laid _ rooted
        exact putObject_builds laid rooted
          ⟨me, by rw [working]; exact List.mem_cons_self⟩
      exact finished put fun _ => by simp
  | getDatum meaning =>
      have got : Harmless (getDatum deployment.kernel meaning) :=
        (findObject_harmless meaning).bind fun _ => trivial
      exact finished (.harmless laid got) fun _ => by simp
  | rebuildDatumIndex =>
      exact finished (.harmless laid (rebuildDatumIndex_harmless backend))
        fun _ => by simp
  | verifiedSnapshot =>
      have snapshot : Harmless (verifiedSnapshot deployment.kernel
          (readState deployment.kernel backend)) :=
        (readState_harmless backend).bind fun _ => .pureResult _
      exact finished (.harmless laid snapshot) fun _ => by simp

end Calls

section Systems

variable {start : World} {system later : HostSystem}

/-- What holds when a call has ended. -/
def LayoutKept (deployment : Deployment) (system : HostSystem) : Prop :=
  deployment.layoutRely.AllKeep (fun _ => LeavesRoots) (fun _ _ _ => True)
    system

/-- A further round of the lease loop finds the roots. -/
theorem layout_resumable :
    System.Resumable deployment.layout deployment.resume
      (fun _ outcome final => deployment.Laid final ∧ LeavesRoots outcome final)
      (fun _ _ final => deployment.Laid final ∧ True) := by
  rintro me outcome program world resumed ⟨laid, roots⟩
  cases outcome with
  | again =>
      cases resumed
      apply Rely.Keeps.weaken
        (acquireAgain_builds laid (roots rfl) : Builds deployment me _ _ _)
      exact fun _ _ kept _ => kept.2
  | _ => cases resumed

theorem layoutKept_initial
    (laid : deployment.Laid start) :
    LayoutKept deployment (deployment.initial start) := by
  intro me program running
  have here : deployment.program me = program := Option.some.inj running
  rw [← here]
  exact Rely.Keeps.weaken (callProgram_builds laid) fun _ _ kept => kept.2

theorem layoutKept_of_steps
    (kept : LayoutKept deployment system)
    (steps : deployment.Steps system later) :
    LayoutKept deployment later :=
  System.Steps.allSafe layout_resumable steps kept

/-- Every call puts things only where their directories are. -/
structure Deployment.Orderly (deployment : Deployment) (start : World) :
    Prop where
  /-- The layout is in order, with every leaf named by its content. -/
  laid : ∀ system, deployment.Reaches start system →
    deployment.Laid system.world
  /-- A request that puts something finds the directory for it. -/
  issues : ∀ system me request next, deployment.Reaches start system →
    system.programs me = some (.call request next) →
    deployment.orderly request system.world
  /-- No directory is lost. -/
  grows : ∀ system later, deployment.Reaches start system →
    deployment.Steps system later → system.world.Grown later.world

/-- From a store with its directories, calls make directories before leaves. -/
theorem directories_before_leaves
    (laid : deployment.Laid start) :
    deployment.Orderly start := by
  have kept {system : HostSystem} (reaches : deployment.Reaches start system) :
      LayoutKept deployment system :=
    layoutKept_of_steps (layoutKept_initial laid) reaches
  refine ⟨?_, ?_, ?_⟩
  · intro system reaches
    exact System.Steps.preserves layout_resumable
      (fun move before => Deployment.Laid.move before move) reaches
      (layoutKept_initial laid) laid
  · intro system me request next reaches running
    exact (kept reaches me _ running system.world .refl).1
  · intro system later reaches steps
    have moves := System.Steps.moves layout_resumable steps (kept reaches)
    generalize later.world = final at moves
    induction moves with
    | refl => exact fun _ here => here
    | tail _ last inductionHypothesis =>
        exact inductionHypothesis.trans (grown_of_move last)

/-- An empty store has its directories. -/
theorem Empty.laid
    (empty : Empty start) :
    deployment.Laid start := by
  refine ⟨?_, ?_, ?_, ?_, ?_⟩
  · intro path bytes present
    rw [empty.noLeaf] at present
    cases present
  · intro path bytes present
    rw [empty.noLeaf] at present
    cases present
  · exact fun path here => absurd here (empty.noDirectory path)
  · exact fun path here => absurd here (empty.noDirectory path)
  · rintro envelope ⟨bytes, present, _⟩
    rw [World.state, empty.noLeaf] at present
    cases present

/-- Calls of a deployment with port failures make directories first. -/
theorem reference_directories_first :
    Deployment.reference.Orderly .vacant :=
  directories_before_leaves (World.vacant_empty.laid)

end Systems

end SimStorage.Journal.Host
