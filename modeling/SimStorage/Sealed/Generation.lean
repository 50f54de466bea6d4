import SimStorage.Codec.Text
import SimStorage.Interaction.System

namespace SimStorage.Sealed

/-!
# Managed generations

A lane's sealed data lives in numbered generations.  A rotation stages the
records of a new generation, completes its manifest and selects it, under the
lane's guard; a recovery selects the newest complete generation.  Calls issue
single store operations, so they interleave at that grain.
-/

open Codec Interaction

/-- `Lane`: a stable isolation lane. -/
inductive Lane where
  | ordinary
  | finance
  | privateObservation
  deriving Repr, DecidableEq

/-- `GenerationId`: the identity of a generation within one lane. -/
abbrev GenerationId := UInt64

/-- `KeyGrant`: the authorization for one lane. -/
abbrev KeyGrant := String

/-- `KeyRef`: a provider-owned key identity. -/
abbrev KeyRef := String

/-- `GenerationManifest`. -/
structure GenerationManifest where
  lane : Lane
  generation : GenerationId
  key : KeyRef
  recordIds : List String
  authentication : Bytes
  deriving Repr, DecidableEq

/-- `Generation`: a manifest and the ciphertext of its records. -/
structure Generation where
  manifest : GenerationManifest
  ciphertext : Std.ExtTreeMap String Bytes

/-- `ManagedError`. -/
structure ManagedError where
  message : String
  deriving Repr, DecidableEq

/-- `ProviderReceipt`. -/
structure ProviderReceipt where
  id : String
  action : String
  key : KeyRef
  deriving Repr, DecidableEq

/-- `ProviderError`, shown as the rotation reports it. -/
structure ProviderError where
  action : String
  deriving Repr, DecidableEq

namespace ProviderError

/-- The text of a provider's refusal. -/
def text (error : ProviderError) : String :=
  "generation key provider refused " ++ error.action

end ProviderError

/-- `RecoveryReport`. -/
structure RecoveryReport where
  selected : Option GenerationId
  ignoredIncomplete : List GenerationId
  deriving Repr, DecidableEq

/-- The checks of `rotate` on a built generation. -/
def Generation.Accepted (generation : Generation) (lane : Lane)
    (id : GenerationId) (key : KeyRef) : Prop :=
  generation.manifest.lane = lane ∧
    generation.manifest.generation = id ∧
    generation.manifest.key = key ∧
    generation.manifest.authentication ≠ [] ∧
    generation.manifest.recordIds.length = generation.ciphertext.size ∧
    ∀ record ∈ generation.manifest.recordIds, record ∈ generation.ciphertext

instance (generation : Generation) (lane : Lane) (id : GenerationId)
    (key : KeyRef) : Decidable (generation.Accepted lane id key) :=
  inferInstanceAs (Decidable (_ ∧ _ ∧ _ ∧ _ ∧ _ ∧ _))

section Calls

/-- The store's operations, the lane guard and the key provider. -/
inductive StoreCall where
  | lockRotation (lane : Lane)
  | unlockRotation (lane : Lane)
  | create (lane : Lane) (generation : GenerationId) (grant : KeyGrant)
  | stageRecords (generation : Generation)
  | completeManifest (manifest : GenerationManifest)
  | select (lane : Lane) (generation : GenerationId)
  | complete (lane : Lane) (generation : GenerationId)
  | selected (lane : Lane)
  | staged (lane : Lane)

/-- The replies to the operations. -/
abbrev StoreReply : StoreCall → Type
  | .lockRotation _ => Except ManagedError Unit
  | .unlockRotation _ => Unit
  | .create _ _ _ => Except ProviderError (KeyRef × ProviderReceipt)
  | .stageRecords _ => Except ManagedError Unit
  | .completeManifest _ => Except ManagedError Unit
  | .select _ _ => Except ManagedError Unit
  | .complete _ _ => Option Generation
  | .selected _ => Option GenerationId
  | .staged _ => List GenerationId

/-- A program over the store. -/
abbrev StoreProgram := Program StoreCall StoreReply ManagedError

variable (grants : Lane → KeyGrant)

/-- What `rotate` does under the lane's guard. -/
def rotateGuarded (lane : Lane) (id : GenerationId)
    (build : KeyRef → Except ManagedError Generation) :
    StoreProgram (Generation × ProviderReceipt) :=
  .call (.selected lane) fun current =>
    if ∃ selected ∈ current, id ≤ selected then
      .fail ⟨"rollback generation refused"⟩
    else
      .call (.create lane id (grants lane)) fun
        | .error error => .fail ⟨error.text⟩
        | .ok (key, receipt) => do
            let generation ← Program.ofExcept (build key)
            if generation.Accepted lane id key then do
              .call (.stageRecords generation) Program.ofExcept
              .call (.completeManifest generation.manifest) Program.ofExcept
              .call (.select lane id) Program.ofExcept
              return (generation, receipt)
            else
              .fail ⟨"incomplete or mismatched generation"⟩

/-- `GenerationManager::rotate`. -/
def rotate (lane : Lane) (id : GenerationId)
    (build : KeyRef → Except ManagedError Generation) :
    StoreProgram (Generation × ProviderReceipt) := do
  .call (.lockRotation lane) Program.ofExcept
  (rotateGuarded grants lane id build).ensuring (.unlockRotation lane)

/-- The staged generations that are not complete. -/
def incomplete (lane : Lane) :
    List GenerationId → StoreProgram (List GenerationId)
  | [] => .ret []
  | id :: rest =>
      .call (.complete lane id) fun generation => do
        let later ← incomplete lane rest
        return if generation.isNone then id :: later else later

/-- The newest staged generation that is complete. -/
def newest (lane : Lane) :
    Option GenerationId → List GenerationId →
      StoreProgram (Option GenerationId)
  | best, [] => .ret best
  | best, id :: rest =>
      .call (.complete lane id) fun generation =>
        if generation.isSome then
          newest lane (some ((best.map (max · id)).getD id)) rest
        else
          newest lane best rest

/-- `GenerationManager::recover`. -/
def recover (lane : Lane) : StoreProgram RecoveryReport :=
  .call (.staged lane) fun staged => do
    let ignored ← incomplete lane staged
    let selected ← newest lane none staged
    match selected with
    | none => return ⟨none, ignored⟩
    | some id =>
        .call (.selected lane) fun current =>
          if current ≠ some id then do
            .call (.select lane id) Program.ofExcept
            return ⟨some id, ignored⟩
          else
            return ⟨some id, ignored⟩

/-- One call on the manager. -/
inductive ManagerCall where
  | rotate (lane : Lane) (id : GenerationId)
      (build : KeyRef → Except ManagedError Generation)
  | recover (lane : Lane)

/-- What a call returns. -/
inductive ManagerOutcome where
  | rotated (generation : Generation) (receipt : ProviderReceipt)
  | recovered (report : RecoveryReport)

/-- The program of a call. -/
def managerProgram : ManagerCall → StoreProgram ManagerOutcome
  | .rotate lane id build => do
      let (generation, receipt) ← rotate grants lane id build
      return .rotated generation receipt
  | .recover lane => do
      let report ← recover lane
      return .recovered report

end Calls

section Store

/-- Calls are numbered. -/
abbrev ManagerCallId := Nat

/-- What calls do to the store; recorded for reasoning only. -/
inductive StoreEvent where
  | looked (caller : ManagerCallId) (lane : Lane)
  | staged (caller : ManagerCallId) (generation : Generation)
  | completed (caller : ManagerCallId) (manifest : GenerationManifest)
  | selected (caller : ManagerCallId) (lane : Lane) (generation : GenerationId)

/--
`StoreState`, the lanes' guards, and what happened (latest event first).
-/
structure Store where
  staged : Lane → Std.ExtTreeMap GenerationId Generation
  complete : Lane → Std.ExtTreeSet GenerationId
  selected : Lane → Option GenerationId
  guard : Lane → Option ManagerCallId
  poisoned : Lane → Bool
  history : List StoreEvent

namespace Store

/-- The store's default. -/
def new : Store :=
  ⟨fun _ => ∅, fun _ => ∅, fun _ => none, fun _ => none, fun _ => false, []⟩

/-- Record an event. -/
def record (store : Store) (event : StoreEvent) : Store :=
  { store with history := event :: store.history }

/-- Put staged records in place. -/
def stage (store : Store) (generation : Generation) : Store :=
  { store with
    staged := fun lane =>
      if lane = generation.manifest.lane then
        (store.staged lane).insert generation.manifest.generation generation
      else
        store.staged lane }

/-- Mark a stage complete. -/
def finish (store : Store) (manifest : GenerationManifest) : Store :=
  { store with
    complete := fun lane =>
      if lane = manifest.lane then
        (store.complete lane).insert manifest.generation
      else
        store.complete lane }

/-- Make a generation the lane's head. -/
def choose (store : Store) (lane : Lane) (id : GenerationId) : Store :=
  { store with
    selected := fun query => if query = lane then some id else
      store.selected query }

/-- Set a lane's guard. -/
def setGuard (store : Store) (lane : Lane) (holder : Option ManagerCallId) :
    Store :=
  { store with
    guard := fun query => if query = lane then holder else store.guard query }

/-- Poison a lane's guard. -/
def poison (store : Store) (lane : Lane) : Store :=
  { store with
    poisoned := fun query => query = lane ∨ store.poisoned query }

/-- A complete generation. -/
def find (store : Store) (lane : Lane) (id : GenerationId) :
    Option Generation :=
  if id ∈ store.complete lane then (store.staged lane)[id]? else none

end Store

/-- What an operation may reply, and how it changes the store. -/
inductive StoreExec (me : ManagerCallId) :
    (call : StoreCall) → Store → StoreReply call → Store → Prop where
  | lock {store : Store} {lane : Lane} :
      store.guard lane = none →
      store.poisoned lane = false →
      StoreExec me (.lockRotation lane) store (.ok ())
        (store.setGuard lane (some me))
  | lockPoisoned {store : Store} {lane : Lane} :
      store.guard lane = none →
      store.poisoned lane = true →
      StoreExec me (.lockRotation lane) store
        (.error ⟨"lane rotation lock poisoned"⟩) store
  | unlock {store : Store} {lane : Lane} :
      StoreExec me (.unlockRotation lane) store () (store.setGuard lane none)
  | create {store : Store} {lane : Lane} {id : GenerationId} {grant : KeyGrant}
      (reply : Except ProviderError (KeyRef × ProviderReceipt)) :
      StoreExec me (.create lane id grant) store reply store
  | stage {store : Store} {generation : Generation} :
      StoreExec me (.stageRecords generation) store (.ok ())
        ((store.stage generation).record (.staged me generation))
  | stageFailed {store : Store} {generation : Generation}
      (error : ManagedError) :
      StoreExec me (.stageRecords generation) store (.error error) store
  | finish {store : Store} {manifest : GenerationManifest} :
      StoreExec me (.completeManifest manifest) store (.ok ())
        ((store.finish manifest).record (.completed me manifest))
  | finishFailed {store : Store} {manifest : GenerationManifest}
      (error : ManagedError) :
      StoreExec me (.completeManifest manifest) store (.error error) store
  | select {store : Store} {lane : Lane} {id : GenerationId} :
      id ∈ store.complete lane →
      StoreExec me (.select lane id) store (.ok ())
        ((store.choose lane id).record (.selected me lane id))
  | selectIncomplete {store : Store} {lane : Lane} {id : GenerationId} :
      id ∉ store.complete lane →
      StoreExec me (.select lane id) store
        (.error ⟨"incomplete selection"⟩) store
  | selectFailed {store : Store} {lane : Lane} {id : GenerationId}
      (error : ManagedError) :
      StoreExec me (.select lane id) store (.error error) store
  | complete {store : Store} {lane : Lane} {id : GenerationId} :
      StoreExec me (.complete lane id) store (store.find lane id) store
  | selected {store : Store} {lane : Lane} :
      StoreExec me (.selected lane) store (store.selected lane)
        (store.record (.looked me lane))
  | staged {store : Store} {lane : Lane} :
      StoreExec me (.staged lane) store (store.staged lane).keys
        (store.record (.looked me lane))

/-- A call that panics poisons the guard that it holds. -/
inductive StoreCrash (me : ManagerCallId) : Store → Store → Prop where
  | holding {store : Store} {lane : Lane} :
      store.guard lane = some me →
      StoreCrash me store ((store.setGuard lane none).poison lane)
  | idle {store : Store} :
      (∀ lane, store.guard lane ≠ some me) →
      StoreCrash me store store

end Store

end SimStorage.Sealed
