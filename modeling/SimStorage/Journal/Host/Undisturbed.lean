import SimStorage.Journal.Host.Index
import SimStorage.Interaction.Completes

namespace SimStorage.Journal.Host

/-!
# Calls that nobody disturbs

A call without port failures that runs while the others wait, in a store that
calls filled from nothing.  Its requests are answered as the store stands, its
reads find what is committed, and its puts cannot conflict unless two different
byte strings share a storage identity.
-/

open Codec NativeCodec Interaction

variable {deployment : Deployment} {me : CallId} {values : Set Datum}
variable {start world middle after : World} {system later : HostSystem}

section Definitions

/-- Every leaf of the layout was offered for it. -/
def World.Accounted (world : World) : Prop :=
  ∀ path bytes, world.leaf path = some bytes → V2Layout path →
    bytes ∈ world.offered

/-- Every leaf is the state leaf or one that a call has put. -/
def Deployment.Filled (deployment : Deployment) (world : World) : Prop :=
  ∀ path bytes, world.leaf path = some bytes → path = statePath ∨
    Placed deployment.kernel deployment.Supplied path bytes

/-- What holds of every store that calls filled from nothing. -/
structure Deployment.Tidy (deployment : Deployment) (world : World) : Prop
    extends deployment.Shelves world where
  accounted : world.Accounted
  filled : deployment.Filled world

/-- Two different byte strings that were offered share a storage identity. -/
def Deployment.Collides (deployment : Deployment) (world : World) : Prop :=
  ∃ first ∈ world.offered, ∃ second ∈ world.offered, first ≠ second ∧
    storageId deployment.kernel first = storageId deployment.kernel second

/-- The faults that an undisturbed call is excused for. -/
def Deployment.Excused (deployment : Deployment) (fault : Fault)
    (world : World) : Prop :=
  deployment.Collides world ∨ ∃ message, fault = .panicked message

/-- A later store with the same state leaf and guard. -/
structure World.Stays (world after : World) : Prop where
  leaves : ∀ path bytes, path ≠ statePath → world.leaf path = some bytes →
    after.leaf path = some bytes
  state : after.state = world.state
  held : after.held = world.held

/-- A later store in which nothing happened to the state leaf. -/
structure World.Kept (world after : World) : Prop
    extends world.Stays after where
  history : after.history = world.history

/-- The leaves of the objects are as they were. -/
def World.Apart (world after : World) : Prop :=
  ∀ path, path.head? = some "objects-v2" → after.leaf path = world.leaf path

variable {α : Type}

/--
An undisturbed part of a call: it returns a value that satisfies the
postcondition, unless it is excused, and the state leaf stays as it is.
-/
def Undisturbed (deployment : Deployment) (me : CallId)
    (program : HostProgram α) (world : World) (done : α → World → Prop) :
    Prop :=
  Completes (Exec deployment.port me) deployment.Tidy
    (fun value final =>
      deployment.Tidy final ∧ world.Kept final ∧ done value final)
    (fun fault final => world.Kept final ∧ deployment.Excused fault final)
    program world

end Definitions

section Invariants

/-- A request accounts for what it puts. -/
theorem World.Accounted.exec
    {request : HostCall} {reply : HostReply request}
    (accounted : world.Accounted)
    (executed : Exec deployment.port me request world reply after) :
    after.Accounted := by
  have offered (replacement : Option Bytes) :
      (world.offer replacement).Accounted := fun path bytes present layout =>
    List.mem_append_right _ (accounted path bytes present layout)
  have replaced (path : Path) (expected replacement : Option Bytes) :
      ((world.offer replacement).replace (some me) path expected
        replacement).Accounted := by
    intro query bytes present layout
    rw [World.leaf_replace] at present
    split at present
    · rw [present]
      exact List.mem_append_left _ (by simp)
    · exact offered replacement query bytes present layout
  cases executed with
  | exchanged _ _ => exact replaced _ _ _
  | exchangeUnanswered _ _ _ => exact replaced _ _ _
  | missed _ _ => exact offered _
  | exchangeFailed _ => exact offered _
  | @committed _ path expected replacement _ _ _ _ _ =>
      exact replaced path expected replacement
  | guardedMissed _ _ _ => exact offered _
  | guardedFailed _ => exact offered _
  | _ => exact accounted

/-- A v1 writer leaves the layout alone. -/
theorem World.Accounted.moved
    {kernel : Kernel} {port : Port}
    (accounted : world.Accounted)
    (moved : V1Writer kernel port world after) :
    after.Accounted := by
  have outside {path : Path} {old new : Option Bytes}
      (notLayout : ¬ V2Layout path) :
      (world.replace none path old new).Accounted := by
    intro query bytes present layout
    rw [World.leaf_replace, if_neg] at present
    · exact accounted query bytes present layout
    · exact fun same => notLayout (same ▸ layout)
  cases moved with
  | leaf _ _ notLayout _ => exact outside notLayout
  | directory _ _ => exact accounted
  | state _ _ _ _ _ => exact outside state_not_layout

/-- From an empty store, every leaf of the layout is accounted for. -/
theorem accounted_of_reaches
    (empty : Empty start)
    (reaches : deployment.Reaches start system) :
    system.world.Accounted := by
  induction reaches with
  | refl =>
      intro path bytes present
      have absent := (empty.noLeaf path).symm.trans present
      cases absent
  | tail _ step inductionHypothesis =>
      cases step with
      | issue _ executed => exact inductionHypothesis.exec executed
      | resume _ _ => exact inductionHypothesis
      | stop _ crashed => cases crashed <;> exact inductionHypothesis
      | environment moved => exact inductionHypothesis.moved moved

/-- Without a v1 writer, only calls put leaves. -/
theorem Deployment.Filled.effect
    {grounded : Prop} {caller : Option CallId}
    (modern : ¬ deployment.port.legacy)
    (filled : deployment.Filled world)
    (effect : deployment.Effect grounded caller world after) :
    deployment.Filled after := by
  intro path bytes present
  cases effect with
  | quiet leaves _ =>
      rw [leaves] at present
      exact filled path bytes present
  | @written wrote _ placed _ leaves _ =>
      rw [leaves] at present
      by_cases here : path = wrote
      · rw [if_pos here] at present
        cases present
        subst here
        exact .inr placed
      · rw [if_neg here] at present
        exact filled path bytes present
  | exchanged _ _ leaves _ =>
      rw [leaves] at present
      by_cases here : path = statePath
      · exact .inl here
      · rw [if_neg here] at present
        exact filled path bytes present
  | acted _ _ leaves _ =>
      rw [leaves] at present
      exact filled path bytes present
  | legacy _ legacy _ _ _ _ _ => exact absurd legacy modern

/-- What undisturbed calls rest on: an empty store and no v1 writer. -/
structure Fresh (deployment : Deployment) (start : World)
    (values : Set Datum) : Prop extends Shelving deployment start values where
  modern : ¬ deployment.port.legacy

theorem Fresh.readable
    (fresh : Fresh deployment start values) :
    Modern deployment start :=
  fresh.empty.modern fresh.lawful fresh.modern

/-- From an empty store, every store that calls reach is tidy. -/
theorem Fresh.tidy
    (fresh : Fresh deployment start values)
    (reaches : deployment.Reaches start system) :
    deployment.Tidy system.world := by
  have nothing : deployment.Filled start := by
    intro path bytes present
    rw [fresh.empty.noLeaf] at present
    cases present
  refine ⟨fresh.toShelving.shelves reaches,
    accounted_of_reaches fresh.empty reaches, ?_⟩
  have moves := fresh.sound.moves .refl reaches
  generalize system.world = world at moves
  induction moves with
  | refl => exact nothing
  | tail _ last inductionHypothesis =>
      obtain ⟨_, effect⟩ := effect_of_move last
      exact inductionHypothesis.effect fresh.modern effect

end Invariants

section Keeping

theorem World.Stays.trans
    (first : world.Stays middle)
    (last : middle.Stays after) :
    world.Stays after where
  leaves path bytes notState present :=
    last.leaves path bytes notState (first.leaves path bytes notState present)
  state := last.state.trans first.state
  held := last.held.trans first.held

theorem World.Kept.refl
    (world : World) :
    world.Kept world :=
  ⟨⟨fun _ _ _ => id, rfl, rfl⟩, rfl⟩

theorem World.Kept.trans
    (first : world.Kept middle)
    (last : middle.Kept after) :
    world.Kept after :=
  ⟨first.toStays.trans last.toStays, last.history.trans first.history⟩

/-- A leaf that is put where none was leaves the others as they are. -/
theorem World.kept_put
    {path : Path} {bytes : Bytes}
    (notState : path ≠ statePath)
    (absent : world.leaf path = none) :
    world.Kept ((world.offer (some bytes)).replace (some me) path none
      (some bytes)) where
  leaves query content _ present := by
    rw [World.leaf_replace, if_neg]
    · exact present
    · rintro rfl
      rw [absent] at present
      cases present
  state := by
    rw [World.state, World.leaf_replace, if_neg (Ne.symm notState)]
    rfl
  history := by simp [World.replace, World.offer, notState]
  held := rfl

/-- Settled leaves stay settled where no v1 writer is about. -/
theorem World.Stays.settled
    (modern : ¬ deployment.port.legacy)
    {path : Path} {bytes : Bytes}
    (kept : world.Stays after)
    (settled : deployment.Settled world path bytes) :
    deployment.Settled after path bytes :=
  ⟨⟨settled.1.1, .inl modern⟩, kept.leaves path bytes settled.1.1 settled.2⟩

theorem World.Apart.refl
    (world : World) :
    world.Apart world :=
  fun _ _ => rfl

theorem World.Apart.trans
    (first : world.Apart middle)
    (last : middle.Apart after) :
    world.Apart after :=
  fun path inside => (last path inside).trans (first path inside)

/-- What changes one leaf outside the objects is apart from them. -/
theorem World.Apart.of_others
    {path : Path}
    (outside : path.head? ≠ some "objects-v2")
    (others : ∀ query, query ≠ path → after.leaf query = world.leaf query) :
    world.Apart after := by
  intro query inside
  apply others
  rintro rfl
  exact outside inside

end Keeping

section Judgement

variable {α β : Type} {program : HostProgram α} {next : α → HostProgram β}
variable {done : α → World → Prop} {last : β → World → Prop}

/-- Undisturbed, a program that resolves to an outcome ends in it. -/
theorem Resolves.completes
    {outcome : Result α}
    (shelving : Shelving deployment start values)
    (calm : ¬ deployment.port.faulty me)
    (tidy : deployment.Tidy world)
    (resolves : Resolves deployment world program outcome) :
    Completes (Exec deployment.port me) deployment.Tidy
      (fun value final => final = world ∧ outcome = .ok value)
      (fun fault final => final = world ∧ outcome = .error fault)
      program world := by
  induction resolves with
  | ret value => exact ⟨rfl, rfl⟩
  | fail fault => exact ⟨rfl, rfl⟩
  | read settled rest inductionHypothesis =>
      refine ⟨⟨_, _, .read settled.2⟩, fun reply after executed _ => ?_⟩
      cases executed with
      | read there =>
          obtain rfl := Option.some.inj (there.symm.trans settled.2)
          exact inductionHypothesis
      | readMissing missing _ =>
          rw [settled.2] at missing
          cases missing
      | readFailed faulty _ => exact absurd faulty calm
  | list shelved rest inductionHypothesis =>
      obtain ⟨here, only⟩ := shelved.listed shelving tidy.toShelves
      refine ⟨⟨_, _, .list here⟩, fun reply after executed _ => ?_⟩
      cases executed with
      | list _ => exact inductionHypothesis _ only
      | listMissing missing _ => exact absurd here missing
      | listFailed faulty _ => exact absurd faulty calm

namespace Undisturbed

theorem weaken
    {weaker : α → World → Prop}
    (undisturbed : Undisturbed deployment me program world done)
    (implies : ∀ value final, world.Kept final → done value final →
      weaker value final) :
    Undisturbed deployment me program world weaker :=
  Completes.weaken undisturbed
    (fun value final facts =>
      ⟨facts.1, facts.2.1, implies value final facts.2.1 facts.2.2⟩)
    (fun _ _ => id)

theorem bind
    (first : Undisturbed deployment me program world done)
    (rest : ∀ value middle, deployment.Tidy middle → world.Kept middle →
      done value middle → Undisturbed deployment me (next value) middle last) :
    Undisturbed deployment me (program >>= next) world last := by
  apply Completes.bind (Completes.weaken first (fun _ _ => id) fun _ _ => id)
  rintro value middle ⟨tidy, kept, here⟩
  apply Completes.weaken (rest value middle tidy kept here)
  · rintro result final ⟨good, onward, there⟩
    exact ⟨good, kept.trans onward, there⟩
  · rintro fault final ⟨onward, excused⟩
    exact ⟨kept.trans onward, excused⟩

theorem ret
    {value : α}
    (tidy : deployment.Tidy world)
    (here : done value world) :
    Undisturbed deployment me (.ret value) world done :=
  ⟨tidy, .refl world, here⟩

/-- One request that keeps the state leaf. -/
theorem call
    {request : HostCall} {next : HostReply request → HostProgram α}
    (answered : ∃ reply after,
      Exec deployment.port me request world reply after)
    (continues : ∀ reply after,
      Exec deployment.port me request world reply after →
      deployment.Tidy after → world.Kept after ∧
        Undisturbed deployment me (next reply) after done) :
    Undisturbed deployment me (.call request next) world done := by
  refine ⟨answered, fun reply after executed tidy => ?_⟩
  obtain ⟨kept, rest⟩ := continues reply after executed tidy
  apply Completes.weaken rest
  · rintro value final ⟨good, onward, here⟩
    exact ⟨good, kept.trans onward, here⟩
  · rintro fault final ⟨onward, excused⟩
    exact ⟨kept.trans onward, excused⟩

/-- A check that may panic. -/
theorem check
    {result : Result α}
    (panics : ∀ fault, result = .error fault →
      ∃ message, fault = .panicked message)
    (passes : ∀ value, result = .ok value →
      Undisturbed deployment me (next value) world last) :
    Undisturbed deployment me (pureResult result >>= next) world last := by
  cases result with
  | ok value => exact passes value rfl
  | error fault => exact ⟨.refl world, .inr (panics fault rfl)⟩

/-- A program that resolves to a value returns it. -/
theorem of_resolves
    {value : α}
    (shelving : Shelving deployment start values)
    (calm : ¬ deployment.port.faulty me)
    (tidy : deployment.Tidy world)
    (resolves : Resolves deployment world program (.ok value)) :
    Undisturbed deployment me program world
      (fun found final => found = value ∧ final = world) := by
  apply Completes.weaken (resolves.completes shelving calm tidy)
  · rintro found final ⟨rfl, same⟩
    cases same
    exact ⟨tidy, .refl _, rfl, rfl⟩
  · rintro fault final ⟨_, same⟩
    cases same

end Undisturbed

end Judgement

section Requests

variable {path : Path} {bytes : Bytes}

theorem createDir_undisturbed
    (calm : ¬ deployment.port.faulty me) :
    Undisturbed deployment me (createDir path) world
      (fun _ final => ∀ query, final.leaf query = world.leaf query) := by
  apply Undisturbed.call ⟨_, _, .createDir⟩
  intro reply after executed tidy
  cases executed with
  | createDir =>
      exact ⟨⟨⟨fun _ _ _ => id, rfl, rfl⟩, rfl⟩, .ret tidy fun _ => rfl⟩
  | createDirFailed faulty => exact absurd faulty calm
  | createDirUnanswered faulty => exact absurd faulty calm

theorem ensureLayout_undisturbed
    (calm : ¬ deployment.port.faulty me) :
    Undisturbed deployment me ensureLayout world
      (fun _ final => ∀ query, final.leaf query = world.leaf query) := by
  apply (createDir_undisturbed calm).bind
  intro _ _ _ _ first
  apply (createDir_undisturbed calm).bind
  intro _ _ _ _ second
  apply (createDir_undisturbed calm).bind
  intro _ _ _ _ third
  apply (createDir_undisturbed calm).weaken
  intro _ _ _ last query
  rw [last, third, second, first]

/-- No failpoint trips in a call that meets no failure. -/
theorem tripped_completes
    {failed : Fault → World → Prop}
    (calm : ¬ deployment.port.faulty me)
    (point : Failpoint) :
    Completes (Exec deployment.port me) deployment.Tidy
      (fun error final => error = none ∧ final = world) failed
      (tripped point) world := by
  refine ⟨⟨false, _, .failpoint (by simp)⟩, fun trips after executed _ => ?_⟩
  cases executed with
  | failpoint faulty =>
      cases trips with
      | true => exact absurd (faulty rfl) calm
      | false => exact ⟨rfl, rfl⟩

theorem trippedAdmission_completes
    {failed : Fault → World → Prop}
    (calm : ¬ deployment.port.faulty me)
    (point : Failpoint) :
    Completes (Exec deployment.port me) deployment.Tidy
      (fun error final => error = none ∧ final = world) failed
      (trippedAdmission point) world := by
  apply (tripped_completes calm point).bind
  rintro error middle ⟨rfl, rfl⟩
  refine ⟨⟨false, _, .admissionFailpoint (by simp)⟩,
    fun trips after executed _ => ?_⟩
  cases executed with
  | admissionFailpoint faulty =>
      cases trips with
      | true => exact absurd (faulty rfl) calm
      | false => exact ⟨rfl, rfl⟩

theorem tripAdmission_completes
    {failed : Fault → World → Prop}
    (calm : ¬ deployment.port.faulty me)
    (point : Failpoint) :
    Completes (Exec deployment.port me) deployment.Tidy
      (fun _ final => final = world) failed (tripAdmission point) world := by
  apply (trippedAdmission_completes calm point).bind
  rintro error middle ⟨rfl, same⟩
  exact same

/-- Two contents of one place in the layout share their storage identity. -/
theorem Deployment.Tidy.collides
    {content : Bytes}
    (tidy : deployment.Tidy world)
    (offered : bytes ∈ world.offered)
    (layout : V2Layout path)
    (unmarked : ∀ name, path ≠ markerPath name)
    (place : path.getLast? =
      some (idKey (storageId deployment.kernel bytes)))
    (present : world.leaf path = some content)
    (different : content ≠ bytes) :
    deployment.Collides world := by
  refine ⟨content, tidy.accounted path content present layout, bytes, offered,
    different, ?_⟩
  rcases tidy.laid.named path content present layout with
    named | ⟨name, marker, _⟩
  · apply idKey_injective (spelled_storageId content)
      (spelled_storageId bytes)
    exact Option.some.inj (named.symm.trans place)
  · exact absurd marker (unmarked name)

/-- An exchange of an absent leaf leaves a leaf, which it reports. -/
theorem exchangeLeaf_undisturbed
    (calm : ¬ deployment.port.faulty me)
    (free : world.held = none)
    (notState : path ≠ statePath) :
    Undisturbed deployment me (compareExchange path none (some bytes)) world
      (fun outcome final => bytes ∈ final.offered ∧
        (∀ query, query ≠ path → final.leaf query = world.leaf query) ∧
        ∃ content, final.leaf path = some content ∧
          (outcome.exchanged = true ∧ content = bytes ∨
            outcome.exchanged = false ∧ outcome.observed = some content ∧
              world.leaf path ≠ none)) := by
  have freePath : world.Free path := by
    intro caller
    rw [free]
    simp
  apply Undisturbed.call
  · by_cases absent : world.leaf path = none
    · exact ⟨_, _, .exchanged freePath absent⟩
    · exact ⟨_, _, .missed freePath absent⟩
  intro reply after executed tidy
  cases executed with
  | exchanged _ absent =>
      refine ⟨World.kept_put notState absent, .ret tidy ?_⟩
      refine ⟨List.mem_append_left _ (by simp), ?_, bytes, ?_,
        .inl ⟨rfl, rfl⟩⟩
      · intro query other
        rw [World.leaf_replace, if_neg other]
        rfl
      · rw [World.leaf_replace, if_pos rfl]
  | missed _ present =>
      obtain ⟨content, here⟩ := Option.ne_none_iff_exists'.mp present
      refine ⟨⟨⟨fun _ _ _ => id, rfl, rfl⟩, rfl⟩, .ret tidy ?_⟩
      exact ⟨List.mem_append_left _ (by simp), fun _ _ => rfl, content, here,
        .inr ⟨rfl, here, present⟩⟩
  | exchangeFailed faulty => exact absurd faulty calm
  | exchangeUnanswered faulty _ _ => exact absurd faulty calm

/-- A put ends with its bytes in place. -/
theorem putImmutable_undisturbed
    (calm : ¬ deployment.port.faulty me)
    (free : world.held = none)
    (layout : V2Layout path)
    (unmarked : ∀ name, path ≠ markerPath name)
    (place : path.getLast? =
      some (idKey (storageId deployment.kernel bytes))) :
    Undisturbed deployment me (putImmutable path bytes) world
      (fun _ final => final.leaf path = some bytes ∧
        ∀ query, query ≠ path → final.leaf query = world.leaf query) := by
  have notState : path ≠ statePath := by
    rintro rfl
    exact state_not_layout layout
  apply (exchangeLeaf_undisturbed calm free notState).bind
  rintro outcome middle tidy _ ⟨offered, others, content, here, fits⟩
  rcases fits with ⟨exchanged, rfl⟩ | ⟨missed, observed, _⟩
  · rw [if_pos (.inl exchanged)]
    exact .ret tidy ⟨here, others⟩
  · by_cases same : content = bytes
    · subst same
      rw [if_pos (.inr observed)]
      exact .ret tidy ⟨here, others⟩
    · rw [if_neg (by simp [missed, observed, same])]
      exact ⟨.refl middle,
        .inl (tidy.collides offered layout unmarked place here same)⟩

end Requests

section Publishing

/-- A stored object of a meaning. -/
def Deployment.Stocks (deployment : Deployment) (world : World)
    (meaning : ContentId) : Prop :=
  ∃ object bytes, deployment.Shelved world object bytes ∧
    object.id = meaning

theorem World.Stays.stocks
    (fresh : Fresh deployment start values)
    {meaning : ContentId}
    (kept : world.Stays after)
    (stocks : deployment.Stocks world meaning) :
    deployment.Stocks after meaning := by
  obtain ⟨object, bytes, shelved, same⟩ := stocks
  exact ⟨object, bytes,
    shelved.mono fun _ _ settled => kept.settled fresh.modern settled, same⟩

/-- Apart from the objects, what is stored stays as it is. -/
theorem World.Apart.stocks
    {meaning : ContentId}
    (apart : world.Apart after) :
    deployment.Stocks after meaning ↔ deployment.Stocks world meaning := by
  constructor
  · rintro ⟨object, bytes, shelved, same⟩
    exact ⟨object, bytes, ⟨shelved.supplied, shelved.sound, shelved.put,
      (apart _ rfl).symm.trans shelved.here⟩, same⟩
  · rintro ⟨object, bytes, shelved, same⟩
    exact ⟨object, bytes, ⟨shelved.supplied, shelved.sound, shelved.put,
      (apart _ rfl).trans shelved.here⟩, same⟩

/-- A put stores the meaning of its object, and no other. -/
theorem Deployment.Shelved.stocks
    (fresh : Fresh deployment start values)
    {object : JournalObject} {bytes : Bytes} {meaning : ContentId}
    (shelved : deployment.Shelved after object bytes)
    (stays : world.Stays after)
    (others : ∀ query, query ≠ objectPath (deployment.shelf object bytes) →
      after.leaf query = world.leaf query) :
    deployment.Stocks after meaning ↔
      deployment.Stocks world meaning ∨ object.id = meaning := by
  constructor
  · rintro ⟨other, content, found, rfl⟩
    by_cases here : objectPath (deployment.shelf other content) =
        objectPath (deployment.shelf object bytes)
    · right
      simp only [objectPath, objectDir, objectsRoot, Deployment.shelf,
        List.cons_append, List.nil_append, List.cons.injEq, true_and,
        and_true] at here
      exact idKey_injective
        (spelled_contentId fresh.lawful shelved.sound.identity)
        (spelled_contentId fresh.lawful found.sound.identity) here.1.symm
    · left
      exact ⟨other, content, ⟨found.supplied, found.sound, found.put,
        (others _ here).symm.trans found.here⟩, rfl⟩
  · rintro (old | rfl)
    · exact stays.stocks fresh old
    · exact ⟨object, bytes, shelved, rfl⟩

/-- An object that is put is stored. -/
theorem putObject_undisturbed
    {object : JournalObject} {bytes : Bytes}
    (calm : ¬ deployment.port.faulty me)
    (free : world.held = none)
    (supplied : deployment.Supplied object)
    (verified : object.verify deployment.kernel = .ok ())
    (put : object.storageBytes deployment.kernel = .ok bytes) :
    Undisturbed deployment me (putObject deployment.kernel object) world
      (fun reference final => deployment.Shelved final object bytes ∧
        reference = deployment.shelf object bytes ∧
        ∀ query, query ≠ objectPath (deployment.shelf object bytes) →
          final.leaf query = world.leaf query) := by
  have sound := JournalObject.sound_of_storageBytes verified put
  unfold putObject
  rw [verified, put]
  have place : (objectPath ⟨object.id,
      storageId deployment.kernel bytes⟩).getLast? =
        some (idKey (storageId deployment.kernel bytes)) :=
    List.getLast?_concat
  have unmarked (name : EntryNamespace) :
      objectPath ⟨object.id, storageId deployment.kernel bytes⟩ ≠
        markerPath name := by
    simp [objectPath, objectDir, objectsRoot, markerPath, namespaceRoot]
  apply (createDir_undisturbed calm).bind
  intro _ made _ kept unchanged
  have still : made.held = none := kept.held.trans free
  apply (putImmutable_undisturbed calm still (.inl rfl) unmarked place).bind
  rintro _ final tidy _ ⟨here, others⟩
  refine .ret tidy ⟨⟨supplied, sound, put, here⟩, rfl, ?_⟩
  exact fun query other => (others query other).trans (unchanged query)

/-- Payloads that are stored are resolved, and the store stays. -/
theorem resolvePayloads_undisturbed
    {references : References} {payloads : List ContentId}
    (fresh : Fresh deployment start values)
    (calm : ¬ deployment.port.faulty me)
    (tidy : deployment.Tidy world)
    (stocked : ∀ meaning ∈ payloads, deployment.Stocks world meaning) :
    Undisturbed deployment me
      (resolvePayloads deployment.kernel references payloads) world
      (fun _ final => final = world) := by
  induction payloads with
  | nil => exact .ret tidy rfl
  | cons meaning rest inductionHypothesis =>
      have resolved : Undisturbed deployment me
          (resolvePayload deployment.kernel references meaning) world
          (fun _ final => final = world) := by
        unfold resolvePayload
        split
        · exact .ret tidy rfl
        · obtain ⟨object, bytes, shelved, rfl⟩ :=
            stocked meaning List.mem_cons_self
          apply (Undisturbed.of_resolves fresh.toShelving calm tidy
            (shelved.found fresh.toShelving)).bind
          rintro found _ tidy _ ⟨_, rfl⟩
          exact .ret tidy rfl
      apply resolved.bind
      rintro reference _ _ _ rfl
      apply (inductionHypothesis fun other inside =>
        stocked other (List.mem_cons_of_mem _ inside)).bind
      rintro found _ tidy _ rfl
      exact .ret tidy rfl

theorem finishBytes_panics
    {bytes : Bytes} {fault : Fault}
    (failed : finishBytes bytes = .error fault) :
    ∃ message, fault = .panicked message := by
  unfold finishBytes at failed
  split at failed <;> cases failed
  exact ⟨_, rfl⟩

theorem withCapacity_panics
    {size count : Nat} {fault : Fault}
    (failed : withCapacity size count = .error fault) :
    ∃ message, fault = .panicked message := by
  unfold withCapacity at failed
  split at failed <;> cases failed
  exact ⟨_, rfl⟩

/-- The encoding of an entry leaf fails only where an allocation panics. -/
theorem encodeV2Entry_panics
    {kernel : Kernel} {value : PhysicalEntry} {fault : Fault}
    (failed : encodeV2Entry kernel value = .error fault) :
    ∃ message, fault = .panicked message := by
  unfold encodeV2Entry encodeEntryDatum at failed
  cases put : DatumCodec.encode kernel value.entry.canonicalDatum with
  | error _ =>
      rw [put] at failed
      cases failed
      exact ⟨_, rfl⟩
  | ok bytes =>
      rw [put] at failed
      exact finishBytes_panics failed

/-- An entry is published where its payloads are stored. -/
theorem publishEntry_undisturbed
    {references : References} {name : EntryNamespace}
    {previous : Option EntryLocation} {entry : JournalEntry}
    (fresh : Fresh deployment start values)
    (calm : ¬ deployment.port.faulty me)
    (tidy : deployment.Tidy world)
    (free : world.held = none)
    (stocked : ∀ meaning ∈ entry.payloads, deployment.Stocks world meaning) :
    Undisturbed deployment me
      (publishEntry deployment.kernel references name previous entry) world
      (fun _ final => world.Apart final) := by
  apply Undisturbed.check fun _ => withCapacity_panics
  intro _ _
  apply (resolvePayloads_undisturbed fresh calm tidy stocked).bind
  rintro payloads _ tidy _ rfl
  apply Undisturbed.check fun _ => encodeV2Entry_panics
  intro bytes _
  have directories (location : EntryLocation) (world : World) :
      Undisturbed deployment me (ensureEntryDirs location) world
        (fun _ final => ∀ query, final.leaf query = world.leaf query) := by
    apply (createDir_undisturbed calm).bind
    intro _ _ _ _ first
    apply (createDir_undisturbed calm).weaken
    intro _ _ _ second query
    rw [second, first]
  apply (directories _ _).bind
  intro _ ready _ kept unchanged
  have unmarked (marked : EntryNamespace) :
      entryPath ⟨name, entry.sequence, entry.id,
        storageId deployment.kernel bytes⟩ ≠ markerPath marked := by
    simp [entryPath, entryDir, sequenceDir, entriesRoot, namespaceRoot,
      markerPath]
  apply (putImmutable_undisturbed calm (kept.held.trans free)
    (.inr (.inl rfl)) unmarked List.getLast?_concat).bind
  rintro _ final tidy _ ⟨_, others⟩
  have onward : ready.Apart final := by
    apply World.Apart.of_others _ others
    simp [entryPath, entryDir, sequenceDir, entriesRoot, namespaceRoot]
  exact .ret tidy (World.Apart.trans (fun _ _ => unchanged _) onward)

theorem publishEntries_undisturbed
    {references : References} {name : EntryNamespace}
    {previous : Option EntryLocation} {entries : List JournalEntry}
    (fresh : Fresh deployment start values)
    (calm : ¬ deployment.port.faulty me)
    (tidy : deployment.Tidy world)
    (free : world.held = none)
    (stocked : ∀ entry ∈ entries, ∀ meaning ∈ entry.payloads,
      deployment.Stocks world meaning) :
    Undisturbed deployment me
      (publishEntries deployment.kernel references name previous entries) world
      (fun _ final => world.Apart final) := by
  induction entries generalizing previous world with
  | nil => exact .ret tidy (.refl world)
  | cons entry rest inductionHypothesis =>
      apply (publishEntry_undisturbed fresh calm tidy free
        (stocked entry List.mem_cons_self)).bind
      intro location middle tidy kept apart
      apply Undisturbed.weaken (inductionHypothesis tidy
        (kept.held.trans free) ?_)
      · exact fun _ _ _ onward => apart.trans onward
      · intro member inside meaning listed
        exact kept.stocks fresh
          (stocked member (List.mem_cons_of_mem _ inside) meaning listed)

end Publishing

section Committing

variable {failed : Fault → World → Prop}
variable {observed replacement : Bytes}

/-- What an undisturbed exchange of the state leaf leaves. -/
structure World.Landed (me : CallId) (guarded : Bool)
    (observed : Option Bytes) (replacement : Bytes) (world final : World) :
    Prop where
  state : final.state = some replacement
  history : final.history = (if guarded then [.acted me] else []) ++
    .exchanged (some me) observed (some replacement) :: world.history
  held : final.held = none
  leaves : ∀ path, path ≠ statePath → final.leaf path = world.leaf path

/-- An exchange that expects the current state leaf lands. -/
theorem exchangeState_completes
    {leaf : Option Bytes}
    (calm : ¬ deployment.port.faulty me)
    (free : world.held = none)
    (current : world.state = leaf) :
    Completes (Exec deployment.port me) deployment.Tidy
      (fun outcome final => outcome.exchanged = true ∧
        world.Landed me false leaf replacement final) failed
      (compareExchange statePath leaf (some replacement)) world := by
  have freeState : world.Free statePath := by
    intro caller
    rw [free]
    simp
  refine ⟨⟨_, _, .exchanged freeState current⟩,
    fun reply after executed _ => ?_⟩
  cases executed with
  | exchanged _ _ =>
      refine ⟨rfl, ?_, ?_, free, ?_⟩
      · rw [World.state, World.leaf_replace, if_pos rfl]
      · simp [World.replace, World.offer]
      · intro path other
        rw [World.leaf_replace, if_neg other]
        rfl
  | missed _ other => exact absurd current other
  | exchangeFailed faulty => exact absurd faulty calm
  | exchangeUnanswered faulty _ _ => exact absurd faulty calm

theorem exchangePlain_completes
    (calm : ¬ deployment.port.faulty me)
    (free : world.held = none)
    (current : world.state = some observed) :
    Completes (Exec deployment.port me) deployment.Tidy
      (fun exchange final => exchange.result.exchanged = true ∧
        exchange.postCommitError = none ∧
        world.Landed me false (some observed) replacement final) failed
      (exchangePlain observed replacement) world := by
  apply (exchangeState_completes calm free current).bind
  rintro outcome middle ⟨exchanged, landed⟩
  rw [if_pos exchanged]
  apply (tripAdmission_completes calm _).bind
  rintro _ final rfl
  exact ⟨exchanged, rfl, landed⟩

/-- Only the first invocation of the continuation acts. -/
theorem invokeTimes_completes
    (times : Nat) :
    Completes (Exec deployment.port me) deployment.Tidy
      (fun state final => state = ⟨true, none⟩ ∧ final = world) failed
      (Continuation.invokeTimes times ⟨true, none⟩) world := by
  induction times with
  | zero => exact ⟨rfl, rfl⟩
  | succ times inductionHypothesis => exact inductionHypothesis

theorem invoked_completes
    {times : Nat}
    (calm : ¬ deployment.port.faulty me)
    (invoked : times ≠ 0) :
    Completes (Exec deployment.port me) deployment.Tidy
      (fun state final => state = ⟨true, none⟩ ∧ final = world.act me) failed
      (Continuation.invokeTimes times ⟨false, none⟩) world := by
  obtain ⟨more, rfl⟩ := Nat.exists_eq_succ_of_ne_zero invoked
  have first : Completes (Exec deployment.port me) deployment.Tidy
      (fun state final => state = ⟨true, none⟩ ∧ final = world.act me) failed
      (Continuation.invoke ⟨false, none⟩) world := by
    apply (trippedAdmission_completes calm _).bind
    rintro error middle ⟨rfl, rfl⟩
    refine ⟨⟨_, _, .afterCommit⟩, fun reply after executed _ => ?_⟩
    cases executed with
    | afterCommit => exact ⟨rfl, rfl⟩
  apply first.bind
  rintro state middle ⟨rfl, rfl⟩
  exact invokeTimes_completes more

theorem exchangeGuarded_completes
    (calm : ¬ deployment.port.faulty me)
    (free : world.held = none)
    (current : world.state = some observed)
    (supported : deployment.port.guarded = true) :
    Completes (Exec deployment.port me) deployment.Tidy
      (fun exchange final => exchange.result.exchanged = true ∧
        exchange.postCommitError = none ∧
        world.Landed me true (some observed) replacement final) failed
      (exchangeGuarded observed replacement) world := by
  refine ⟨⟨_, _, .committed supported free current
    (fun none : 1 = 0 => absurd none (by decide))⟩,
    fun reply after executed _ => ?_⟩
  cases executed with
  | committed _ _ _ invoked =>
      apply (invoked_completes calm fun none => calm (invoked none)).bind
      rintro state middle ⟨rfl, rfl⟩
      refine ⟨⟨_, _, .released rfl⟩, fun reply after executed _ => ?_⟩
      cases executed with
      | released _ =>
          have leaf := World.leaf_replace (world.offer (some replacement))
            (some me) statePath (some observed) (some replacement)
          have here := leaf statePath
          rw [if_pos rfl] at here
          refine ⟨rfl, rfl, here, ?_, rfl, ?_⟩
          · simp [World.replace, World.offer, World.withHeld, World.act]
          · intro path other
            exact (leaf path).trans (if_neg other)
      | releaseFailed faulty _ => exact absurd faulty calm
  | guardedMissed _ _ other => exact absurd current other
  | guardedFailed faulty => exact absurd faulty calm
  | guardedUnsupported missing _ =>
      rw [supported] at missing
      cases missing

/-- An undisturbed head exchange lands, and is acknowledged. -/
theorem commitHead_completes
    {guarded : Bool} {newHead : JournalHead}
    (calm : ¬ deployment.port.faulty me)
    (free : world.held = none)
    (current : world.state = some observed)
    (supported : guarded = true → deployment.port.guarded = true) :
    Completes (Exec deployment.port me) deployment.Tidy
      (fun result final => result = ⟨newHead, .committedActionInvoked⟩ ∧
        world.Landed me guarded (some observed) replacement final) failed
      (commitHead guarded observed replacement newHead) world := by
  have acknowledged {middle : World}
      (landed : world.Landed me guarded (some observed) replacement middle) :
      Completes (Exec deployment.port me) deployment.Tidy
        (fun (result : GuardedAdmission) final =>
          result = ⟨newHead, .committedActionInvoked⟩ ∧
            world.Landed me guarded (some observed) replacement final) failed
        (do
          tripAdmission .beforeAcknowledgement
          return ⟨newHead, .committedActionInvoked⟩) middle := by
    apply (tripAdmission_completes calm _).bind
    rintro _ last rfl
    exact ⟨rfl, landed⟩
  cases guarded with
  | true =>
      apply (exchangeGuarded_completes calm free current (supported rfl)).bind
      rintro exchange middle ⟨exchanged, completed, landed⟩
      beta_reduce
      rw [if_neg (by simp [exchanged]), completed]
      exact acknowledged landed
  | false =>
      apply (exchangePlain_completes calm free current).bind
      rintro exchange middle ⟨exchanged, completed, landed⟩
      beta_reduce
      rw [if_neg (by simp [exchanged]), completed]
      exact acknowledged landed

end Committing

section Availability

variable {kernel : Kernel} {known : Path → Bytes → Prop}
variable {state : StoredState} {log : List JournalEntry}
variable {meaning : ContentId}

/-- Objects of a state are inserted ones, or were there before. -/
theorem getElem_withObjects
    {objects : List JournalObject} {bytes : Bytes}
    (found : (objects.foldl StoredState.withObject state).objects[meaning]? =
      some bytes) :
    state.objects[meaning]? = some bytes ∨
      ∃ object ∈ objects, object.id = meaning ∧ object.bytes = bytes := by
  induction objects generalizing state with
  | nil => exact .inl found
  | cons object rest inductionHypothesis =>
      rcases inductionHypothesis found with before | ⟨other, inside, same⟩
      · rw [StoredState.withObject, Std.ExtTreeMap.getElem?_insert] at before
        split at before
        · next here =>
            have same := Std.LawfulEqCmp.compare_eq_iff_eq.mp here
            exact .inr ⟨object, List.mem_cons_self, same,
              Option.some.inj before⟩
        · exact .inl before
      · exact .inr ⟨other, List.mem_cons_of_mem _ inside, same⟩

theorem getElem_withLinks
    {links : List Link} {bytes : Bytes}
    (found : (withLinks state links).objects[meaning]? = some bytes) :
    state.objects[meaning]? = some bytes ∨ ∃ link ∈ links,
      ∃ object ∈ link.objects, object.id = meaning ∧ object.bytes = bytes := by
  induction links generalizing state with
  | nil => exact .inl found
  | cons link rest inductionHypothesis =>
      rcases inductionHypothesis found with before | ⟨other, linked, object⟩
      · exact (getElem_withObjects before).imp_right fun object =>
          ⟨link, List.mem_cons_self, object⟩
      · exact .inr ⟨other, List.mem_cons_of_mem _ linked, object⟩

/-- Where only calls put leaves, no envelope has a v1 prefix. -/
theorem Deployment.Tidy.no_v1_base
    (tidy : deployment.Tidy world)
    {bytes : Bytes} {canonical : JournalHead} :
    ¬ V1Holds deployment.kernel (deployment.Settled world) bytes state
      canonical := by
  rintro ⟨fence, head, _, _, body⟩
  obtain ⟨progress, loop, _⟩ := Anchored.bind_ok body
  obtain ⟨first, entry, _⟩ := Anchored.bind_ok loop
  obtain ⟨content, read, _⟩ := Anchored.bind_ok entry
  have settled := read.load_ok
  obtain ⟨notState, outside⟩ := v1EntryPath_outside (UInt64.ofNat 0)
  rcases tidy.filled _ _ settled.2 with isState | placed
  · exact notState isState
  · exact outside placed.layout

/-- What an envelope commits is the chain behind its locator. -/
theorem Deployment.Tidy.chained
    (tidy : deployment.Tidy world)
    {envelope : NativeStateEnvelope}
    (holds : EnvelopeLog deployment.kernel (deployment.Settled world) envelope
      log state) :
    ∃ links, Chain deployment.kernel (deployment.Settled world)
        envelope.entryNamespace none envelope.headLocation links ∧
      log = chainEntries links ∧
      state = chainState .empty links log envelope.head := by
  obtain ⟨base, baseLog, links, based, chain, logged, stated⟩ := holds.chained
  cases reference : envelope.prefixRef with
  | some found =>
      rw [reference] at based
      obtain ⟨⟨_, _, _, _, _, _, v1, _⟩, _⟩ := based
      exact absurd v1 tidy.no_v1_base
  | none =>
      rw [reference] at based
      obtain ⟨rfl, rfl⟩ := based
      exact ⟨links, chain, logged, stated⟩

/-- Every object behind a chain is read back from a stored one. -/
theorem Deployment.Tidy.stocks_held
    (tidy : deployment.Tidy world)
    (lawful : deployment.kernel.Lawful)
    {references : List StoredDatumRef} {objects : List JournalObject}
    {object : JournalObject}
    (holds : ObjectsHold deployment.kernel (deployment.Settled world)
      references objects)
    (member : object ∈ objects) :
    ∃ stored bytes, deployment.Shelved world stored bytes ∧
      object = stored.stored deployment.kernel := by
  induction holds with
  | nil => cases member
  | @cons reference found references objects here _ inductionHypothesis =>
      rcases List.mem_cons.mp member with rfl | later
      · obtain ⟨bytes, settled, checked⟩ := here
        obtain ⟨_, read, _⟩ := checkObject_eq_ok.mp checked
        obtain ⟨stored, shelved, _⟩ := tidy.toShelves.shelved settled.2 rfl
        refine ⟨stored, bytes, shelved, ?_⟩
        rw [JournalObject.fromStorageBytes_storageBytes lawful shelved.sound
          shelved.put] at read
        exact (Except.ok.inj read).symm
      · exact inductionHypothesis later

/-- What a committed state has available is stored, with its bytes. -/
theorem Deployment.Tidy.stocks
    {bytes : Bytes}
    (tidy : deployment.Tidy world)
    (lawful : deployment.kernel.Lawful)
    {envelope : NativeStateEnvelope}
    (holds : EnvelopeLog deployment.kernel (deployment.Settled world) envelope
      log state)
    (available : state.objects[meaning]? = some bytes) :
    ∃ object content, deployment.Shelved world object content ∧
      object.id = meaning ∧ object.bytes = bytes := by
  obtain ⟨links, chain, rfl, rfl⟩ := tidy.chained holds
  change (withLinks .empty links).objects[meaning]? = some bytes at available
  rcases getElem_withLinks available with impossible |
    ⟨link, linked, object, inside, rfl, rfl⟩
  · have nothing : StoredState.empty.objects[meaning]? = none :=
      Std.ExtTreeMap.getElem?_empty
    rw [nothing] at impossible
    cases impossible
  · obtain ⟨stored, content, shelved, rfl⟩ :=
      tidy.stocks_held lawful (chain.present link linked).objects inside
    exact ⟨stored, content, shelved, rfl, rfl⟩

end Availability

end SimStorage.Journal.Host
