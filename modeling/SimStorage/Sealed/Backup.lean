import SimStorage.Sealed.Generation
import SimStorage.Interaction.Alone
import SimStorage.Interaction.Outcome
import Mathlib.Data.List.Perm.Subperm

namespace SimStorage.Sealed

/-!
# Backups of managed generations

A backup is a generation with a wrapped key.  A rotation accepts a built
generation and a restore a backup after comparing the manifest's record list
with the ciphertext; a list with repetitions can pass both comparisons.
-/

open Codec Interaction

variable {ω σ : Type}

/-- `WrappedKey`. -/
structure WrappedKey where
  policy : String
  envelope : Bytes
  deriving Repr, DecidableEq

/-- `BackupEnvelope`. -/
structure BackupEnvelope where
  generation : Generation
  wrappedKey : WrappedKey

/-- `GenerationKeyProvider` without `create`, with a state of its own. -/
structure KeyProvider (ω : Type) where
  wrap : KeyRef → KeyGrant → String → ω →
    Except ProviderError (WrappedKey × ProviderReceipt) × ω
  unwrap : WrappedKey → KeyGrant → String → ω →
    Except ProviderError (KeyRef × ProviderReceipt) × ω
  revoke : KeyRef → KeyGrant → ω → Except ProviderError ProviderReceipt × ω
  destroy : KeyRef → ω → Except ProviderError ProviderReceipt × ω
  probe : KeyRef → Bytes → ω → Except ProviderError Unit × ω

/-- A provider's answer, with its refusal as the manager reports it. -/
def fromProvider {α : Type}
    (step : ω → Except ProviderError α × ω) : EStateM ManagedError ω α := do
  let state ← get
  let (outcome, after) := step state
  set after
  ofExcept (outcome.mapError fun error => ⟨error.text⟩)

section Calls

variable (grants : Lane → KeyGrant) (provider : KeyProvider ω)

/-- `GenerationManager::backup`. -/
def backup (generation : Generation) (policy : String) :
    EStateM ManagedError ω BackupEnvelope :=
  if policy = "" ∨ generation.manifest.authentication = [] then
    throw ⟨"backup policy or authentication missing"⟩
  else do
    let (wrappedKey, _) ← fromProvider (provider.wrap generation.manifest.key
      (grants generation.manifest.lane) policy)
    return ⟨generation, wrappedKey⟩

/-- `GenerationManager::restore`. -/
def restore (backup : BackupEnvelope) (policy : String) :
    EStateM ManagedError ω KeyRef :=
  if backup.wrappedKey.policy ≠ policy ∨
      backup.generation.manifest.authentication = [] ∨
      backup.generation.ciphertext.size ≠
        backup.generation.manifest.recordIds.length then
    throw ⟨"backup is incomplete or policy mismatched"⟩
  else do
    let (key, _) ← fromProvider (provider.unwrap backup.wrappedKey
      (grants backup.generation.manifest.lane) policy)
    if key ≠ backup.generation.manifest.key then
      throw ⟨"stale generation envelope"⟩
    else
      return key

end Calls

section Completeness

/-- The manifest lists every record of the ciphertext once, and nothing else. -/
def Generation.Complete (generation : Generation) : Prop :=
  generation.manifest.recordIds.Nodup ∧
    ∀ record, record ∈ generation.manifest.recordIds ↔
      record ∈ generation.ciphertext

/-- A list without repetitions that covers as many records covers them all. -/
theorem Generation.complete_iff
    {generation : Generation}
    (sized : generation.manifest.recordIds.length =
      generation.ciphertext.size) :
    generation.Complete ↔ generation.manifest.recordIds.Nodup ∧
      ∀ record ∈ generation.manifest.recordIds,
        record ∈ generation.ciphertext := by
  constructor
  · rintro ⟨nodup, same⟩
    exact ⟨nodup, fun record => (same record).mp⟩
  · rintro ⟨nodup, covered⟩
    refine ⟨nodup, fun record => ⟨covered record, fun present => ?_⟩⟩
    have listed : generation.manifest.recordIds ⊆ generation.ciphertext.keys :=
      fun other member => Std.ExtTreeMap.mem_keys.mpr (covered other member)
    have short : generation.ciphertext.keys.length ≤
        generation.manifest.recordIds.length := by
      rw [Std.ExtTreeMap.length_keys, sized]
    have permuted :=
      (List.subperm_of_subset nodup listed).perm_of_length_le short
    exact permuted.mem_iff.mpr (Std.ExtTreeMap.mem_keys.mpr present)

variable {grants : Lane → KeyGrant} {lane : Lane} {id : GenerationId}
variable {build : KeyRef → Except ManagedError Generation}

/-- A rotation returns only what passed its checks, over any store. -/
theorem rotate_accepts
    {exec : (call : StoreCall) → σ → StoreReply call → σ → Prop}
    {store after : σ} {generation : Generation} {receipt : ProviderReceipt}
    (run : Runs exec (rotate grants lane id build) store
      (.ok (generation, receipt)) after) :
    ∃ key, generation.Accepted lane id key := by
  have program : Alone exec
      (fun value _ => ∃ key, value.1.Accepted lane id key) (fun _ _ => True)
      (rotate grants lane id build) store := by
    intro locked first _
    have guarded : Alone exec
        (fun value _ => ∃ key, value.1.Accepted lane id key) (fun _ _ => True)
        (rotateGuarded grants lane id build) first := by
      intro current second _
      by_cases rollback : ∃ selected ∈ current, id ≤ selected
      · simp only [rollback, if_true]
        trivial
      simp only [rollback, if_false]
      intro created third _
      rcases created with error | ⟨key, receipt⟩
      · trivial
      cases built : build key with
      | error error =>
          simp only [built]
          trivial
      | ok generation =>
          by_cases accepted : generation.Accepted lane id key
          swap
          · simp only [built, Program.ofExcept_ok, Program.ret_bind, accepted,
              if_false]
            trivial
          simp only [built, Program.ofExcept_ok, Program.ret_bind, accepted,
            if_true]
          intro staged fourth _
          rcases staged with error | ⟨⟩
          · trivial
          intro completed fifth _
          rcases completed with error | ⟨⟩
          · trivial
          intro selected last _
          rcases selected with error | ⟨⟩
          · trivial
          · exact ⟨key, accepted⟩
    rcases locked with error | ⟨⟩
    · trivial
    · exact guarded.ensuring (fun _ _ _ _ known _ => known)
        (fun _ _ _ _ _ _ => trivial)
  exact (program.ends run).1 _ rfl

/-- A restore returns only for a manifest as long as its ciphertext. -/
theorem restore_sized
    {provider : KeyProvider ω} {envelope : BackupEnvelope} {policy : String}
    {key : KeyRef} {state after : ω}
    (yields : Yields (restore grants provider envelope policy) state (.ok key)
      after) :
    envelope.generation.manifest.recordIds.length =
      envelope.generation.ciphertext.size := by
  rw [restore] at yields
  split at yields
  · cases (yields.unique (.throw _ _)).1
  · next sound =>
      simp only [not_or, not_not] at sound
      exact sound.2.2.symm

theorem fromProvider_yields
    {α : Type} {step : ω → Except ProviderError α × ω} {state : ω} :
    Yields (fromProvider step) state
      ((step state).1.mapError fun error => ⟨error.text⟩) (step state).2 :=
  (Yields.get state).bind ((Yields.set _ _).bind (Yields.ofExcept _ _))

/-- What a provider wraps under a policy it unwraps under that policy. -/
def KeyProvider.Unwraps (provider : KeyProvider ω) : Prop :=
  ∀ key grant policy state wrapped receipt,
    (provider.wrap key grant policy state).1 = .ok (wrapped, receipt) →
    wrapped.policy = policy ∧ ∀ later, ∃ again,
      (provider.unwrap wrapped grant policy later).1 = .ok (key, again)

/-- A backup of as many records as its manifest lists is restored to its key. -/
theorem restore_backup
    {provider : KeyProvider ω} {generation : Generation} {policy : String}
    {envelope : BackupEnvelope} {state after : ω}
    (unwraps : provider.Unwraps)
    (sized : generation.ciphertext.size = generation.manifest.recordIds.length)
    (made : Yields (backup grants provider generation policy) state
      (.ok envelope) after)
    (later : ω) :
    envelope.generation = generation ∧
      ∃ final, Yields (restore grants provider envelope policy) later
        (.ok generation.manifest.key) final := by
  rw [backup] at made
  split at made
  · cases (made.unique (.throw _ _)).1
  next allowed =>
  rw [not_or] at allowed
  obtain ⟨⟨wrapped, receipt⟩, _, wraps, returns⟩ := made.bind_ok
  cases (returns.unique (.pure _ _)).1
  obtain ⟨answered, _⟩ := wraps.unique fromProvider_yields
  obtain ⟨same, opens⟩ := unwraps _ _ _ _ _ _ (mapError_eq_ok answered.symm)
  obtain ⟨again, opened⟩ := opens later
  have unwrapped := @fromProvider_yields ω _
    (provider.unwrap wrapped (grants generation.manifest.lane) policy) later
  rw [opened] at unwrapped
  refine ⟨rfl,
    (provider.unwrap wrapped (grants generation.manifest.lane) policy later).2,
    ?_⟩
  rw [restore, if_neg]
  · refine unwrapped.bind ?_
    simp only [ne_eq, not_true_eq_false, if_false]
    exact .pure _ _
  · rintro (differs | missing | short)
    · exact differs same
    · exact allowed.2 missing
    · exact short sized

/-- What is accepted lists its records exactly, as far as it is so. -/
structure CompletelyListed (grants : Lane → KeyGrant) : Prop where
  /-- A rotated generation is complete just if its list has no repetition. -/
  rotated : ∀ (σ : Type)
    (exec : (call : StoreCall) → σ → StoreReply call → σ → Prop)
    (lane : Lane) (id : GenerationId)
    (build : KeyRef → Except ManagedError Generation) store generation receipt
    after,
    Runs exec (rotate grants lane id build) store (.ok (generation, receipt))
      after →
    (generation.Complete ↔ generation.manifest.recordIds.Nodup)
  /--
  A restored backup is complete just if its list has no repetition and names
  only records of the ciphertext.
  -/
  restored : ∀ (ω : Type) (provider : KeyProvider ω) envelope policy key state
    after,
    Yields (restore grants provider envelope policy) state (.ok key) after →
    (envelope.generation.Complete ↔
      envelope.generation.manifest.recordIds.Nodup ∧
        ∀ record ∈ envelope.generation.manifest.recordIds,
          record ∈ envelope.generation.ciphertext)

/-- Exactly lists without repetitions and strangers are complete. -/
theorem accepted_generations_are_listed
    (grants : Lane → KeyGrant) :
    CompletelyListed grants where
  rotated σ exec lane id build store generation receipt after run := by
    obtain ⟨key, _, _, _, _, sized, covered⟩ := rotate_accepts run
    rw [Generation.complete_iff sized]
    exact and_iff_left covered
  restored ω provider envelope policy key state after yields :=
    Generation.complete_iff (restore_sized yields)

end Completeness

section Repetitions

/-- Two records, one of them listed twice. -/
def repeatedGeneration : Generation where
  manifest := ⟨.ordinary, 1, "key", ["record", "record"], [1]⟩
  ciphertext := (∅ : Std.ExtTreeMap String Bytes).insert "record" [1]
    |>.insert "other" [2]

/-- The store after a rotation of it. -/
def repeatedStore : Store :=
  ((((((Store.new.setGuard .ordinary (some 0)).record
    (.looked 0 .ordinary)).stage repeatedGeneration).record
      (.staged 0 repeatedGeneration)).finish repeatedGeneration.manifest).record
        (.completed 0 repeatedGeneration.manifest)).choose .ordinary 1 |>.record
          (.selected 0 .ordinary 1) |>.setGuard .ordinary none

/-- A rotation accepts a record that its manifest does not list. -/
theorem repeated_record_is_accepted :
    Runs (StoreExec 0) (rotate (fun _ => "grant") .ordinary 1
        fun _ => .ok repeatedGeneration) .new
        (.ok (repeatedGeneration, ⟨"receipt", "create", "key"⟩))
        repeatedStore ∧
      ¬ repeatedGeneration.Complete := by
  have accepted : repeatedGeneration.Accepted .ordinary 1 "key" := by decide
  constructor
  · apply Runs.call (.lock rfl rfl)
    apply Runs.call .selected
    apply Runs.call (.create (.ok ("key", ⟨"receipt", "create", "key"⟩)))
    simp only [Program.ofExcept_ok, Program.ret_bind, accepted, if_true]
    apply Runs.call .stage
    apply Runs.call .finish
    have complete : (1 : GenerationId) ∈
        (((((Store.new.setGuard .ordinary (some 0)).record
          (.looked 0 .ordinary)).stage repeatedGeneration).record
            (.staged 0 repeatedGeneration)).finish
              repeatedGeneration.manifest).complete .ordinary := by
      decide
    apply Runs.call (.select complete)
    exact .call .unlock (.ret _ _)
  · rintro ⟨nodup, _⟩
    exact absurd nodup (by decide)

end Repetitions

end SimStorage.Sealed
