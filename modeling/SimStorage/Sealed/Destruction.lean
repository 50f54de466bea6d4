import SimStorage.Sealed.Backup
import SimStorage.Sealed.Rotation

namespace SimStorage.Sealed

/-!
# Destruction of managed generations

A destruction works on the lane, the identity, the key and the ciphertext of
the generation that its caller passes, and on what the store holds under that
lane and identity.  The two need not be the same generation.
-/

open Codec Interaction

variable {ω : Type}

/-- `LeakageDeclaration`. -/
structure LeakageDeclaration where
  residual : List String
  unmanagedPlaintextStatement : String
  deriving Repr, DecidableEq

/-- `DestructionEvidence`. -/
structure DestructionEvidence where
  lane : Lane
  generation : GenerationId
  providerReceipts : List ProviderReceipt
  removedEnvelopes : Nat
  negativeProbes : Nat
  leakage : LeakageDeclaration
  deriving Repr, DecidableEq

/-- `remove_generation` of the store. -/
def Store.remove (store : Store) (lane : Lane) (id : GenerationId) : Store :=
  { store with
    staged := fun query =>
      if query = lane then (store.staged query).erase id else
        store.staged query
    complete := fun query =>
      if query = lane then (store.complete query).erase id else
        store.complete query
    selected := fun query =>
      if query = lane ∧ store.selected query = some id then none else
        store.selected query }

/-- A probe: the key, the ciphertext, and whether it was refused. -/
structure Probe where
  key : KeyRef
  ciphertext : Bytes
  refused : Bool
  deriving Repr, DecidableEq

/--
The store, what it answers to the next removal, the provider, the tracked
backups and, for reasoning only, the probes, latest first.
-/
structure Custody (ω : Type) where
  store : Store
  removal : Except ManagedError Unit
  provider : ω
  backups : List BackupEnvelope
  probes : List Probe

/-- The envelope is of the lane and identity. -/
def BackupEnvelope.Of (backup : BackupEnvelope) (lane : Lane)
    (id : GenerationId) : Prop :=
  backup.generation.manifest.lane = lane ∧
    backup.generation.manifest.generation = id

instance (backup : BackupEnvelope) (lane : Lane) (id : GenerationId) :
    Decidable (backup.Of lane id) :=
  inferInstanceAs (Decidable (_ ∧ _))

/-- The ciphertext records of a generation. -/
def Generation.records (generation : Generation) : List Bytes :=
  generation.ciphertext.toList.map Prod.snd

section Calls

variable (grants : Lane → KeyGrant) (provider : KeyProvider ω)

/-- A step of the provider on its part of the custody. -/
def onKeys {α : Type} (step : ω → Except ProviderError α × ω) :
    EStateM ManagedError (Custody ω) α := do
  let world ← get
  let (outcome, after) := step world.provider
  set { world with provider := after }
  ofExcept (outcome.mapError fun error => ⟨error.text⟩)

/-- Remove a generation from the store, unless the store fails. -/
def removeGeneration (lane : Lane) (id : GenerationId) :
    EStateM ManagedError (Custody ω) Unit := do
  let world ← get
  ofExcept world.removal
  set { world with store := world.store.remove lane id }

/-- Probe records until one is decrypted; the number of refusals. -/
def probeAll (key : KeyRef) :
    List Bytes → Nat → EStateM ManagedError (Custody ω) Nat
  | [], refusals => return refusals
  | ciphertext :: rest, refusals => do
      let world ← get
      let (outcome, after) := provider.probe key ciphertext world.provider
      set { world with
        provider := after
        probes := ⟨key, ciphertext, !outcome.isOk⟩ :: world.probes }
      if outcome.isOk then
        throw ⟨"destroyed key still decrypts ciphertext"⟩
      else
        probeAll key rest (refusals + 1)

/-- `GenerationManager::destroy_generation`. -/
def destroyGeneration (generation : Generation) (residual : List String) :
    EStateM ManagedError (Custody ω) DestructionEvidence := do
  let lane := generation.manifest.lane
  let id := generation.manifest.generation
  let revoke ← onKeys (provider.revoke generation.manifest.key (grants lane))
  removeGeneration lane id
  let world ← get
  let before := world.backups.length
  let backups := world.backups.filter fun backup => ¬ backup.Of lane id
  set { world with backups := backups }
  let removedEnvelopes := 1 + before - backups.length
  let destroy ← onKeys (provider.destroy generation.manifest.key)
  let negativeProbes ←
    probeAll provider generation.manifest.key generation.records 0
  return {
    lane := lane
    generation := id
    providerReceipts := [revoke, destroy]
    removedEnvelopes := removedEnvelopes
    negativeProbes := negativeProbes
    leakage := {
      residual := residual
      unmanagedPlaintextStatement :=
        "exported or otherwise unmanaged plaintext is outside this " ++
          "destruction claim" } }

end Calls

section Evidence

variable {grants : Lane → KeyGrant} {provider : KeyProvider ω}
variable {generation : Generation} {residual : List String}
variable {world after : Custody ω} {evidence : DestructionEvidence}
variable {lane : Lane} {id : GenerationId}

/-- What a step of the provider leaves. -/
theorem onKeys_inv
    {α : Type} {step : ω → Except ProviderError α × ω}
    {outcome : Except ManagedError α}
    (yields : Yields (onKeys step) world outcome after) :
    ∃ state, after = { world with provider := state } := by
  have stepped := (Yields.get world).rest yields
  have answered := (Yields.set _ _).rest stepped
  obtain ⟨_, rfl⟩ := answered.ofExcept_inv
  exact ⟨_, rfl⟩

/-- Probes that all refuse are recorded, one for each record. -/
theorem probeAll_inv
    {key : KeyRef} {records : List Bytes} {refusals total : Nat}
    (yields : Yields (probeAll provider key records refusals) world (.ok total)
      after) :
    ∃ state probes, after =
        { world with provider := state, probes := probes ++ world.probes } ∧
      (∀ probe, probe ∈ probes ↔ ∃ ciphertext ∈ records,
        probe = ⟨key, ciphertext, true⟩) ∧
      total = refusals + records.length := by
  induction records generalizing world refusals with
  | nil =>
      obtain ⟨same, rfl⟩ := (Yields.pure refusals world).unique yields
      cases same
      exact ⟨_, [], rfl, by simp, rfl⟩
  | cons ciphertext rest inductionHypothesis =>
      have probing := (Yields.get world).rest yields
      have probed := (Yields.set _ _).rest probing
      cases answer : (provider.probe key ciphertext world.provider).1 with
      | ok _ =>
          simp only [answer, Except.isOk, Except.toBool, if_true] at probed
          cases (probed.unique (.throw _ _)).1
      | error error =>
          simp only [answer, Except.isOk, Except.toBool, Bool.false_eq_true,
            if_false] at probed
          obtain ⟨state, probes, rfl, known, counted⟩ :=
            inductionHypothesis probed
          refine ⟨state, probes ++ [⟨key, ciphertext, true⟩], ?_,
            fun probe => ?_, ?_⟩
          · simp
          · rw [List.mem_append, known, List.mem_singleton]
            simp only [List.mem_cons, exists_eq_or_imp]
            exact or_comm
          · rw [counted, List.length_cons]
            omega

/-- What a successful destruction has done. -/
theorem destroyGeneration_inv
    (yields : Yields (destroyGeneration grants provider generation residual)
      world (.ok evidence) after) :
    ∃ state probes, after = {
        store := world.store.remove generation.manifest.lane
          generation.manifest.generation
        removal := world.removal
        provider := state
        backups := world.backups.filter fun backup =>
          ¬ backup.Of generation.manifest.lane generation.manifest.generation
        probes := probes ++ world.probes } ∧
      (∀ probe, probe ∈ probes ↔ ∃ ciphertext ∈ generation.records,
        probe = ⟨generation.manifest.key, ciphertext, true⟩) ∧
      evidence.removedEnvelopes = 1 + world.backups.length -
        after.backups.length := by
  obtain ⟨revoke, first, revoked, yields⟩ := yields.bind_ok
  obtain ⟨state, rfl⟩ := onKeys_inv revoked
  obtain ⟨_, second, removed, yields⟩ := yields.bind_ok
  have removing := (Yields.get _).rest removed
  obtain ⟨_, third, answered, storing⟩ := removing.bind_ok
  obtain ⟨_, rfl⟩ := answered.ofExcept_inv
  obtain ⟨_, rfl⟩ := (Yields.set _ _).unique storing
  have dropping := (Yields.get _).rest yields
  have dropped := (Yields.set _ _).rest dropping
  obtain ⟨destroy, fourth, destroyed, yields⟩ := dropped.bind_ok
  obtain ⟨later, rfl⟩ := onKeys_inv destroyed
  obtain ⟨total, fifth, probed, yields⟩ := yields.bind_ok
  obtain ⟨last, probes, rfl, known, _⟩ := probeAll_inv probed
  obtain ⟨same, rfl⟩ := (Yields.pure _ _).unique yields
  cases same
  exact ⟨last, probes, rfl, known, rfl⟩

/-- What the evidence of a destruction promises. -/
structure DestructionEvidence.Sound (evidence : DestructionEvidence)
    (generation : Generation) (world after : Custody ω) : Prop where
  notStaged : generation.manifest.generation ∉
    after.store.staged generation.manifest.lane
  notComplete : generation.manifest.generation ∉
    after.store.complete generation.manifest.lane
  noBackup : ∀ backup ∈ after.backups,
    ¬ backup.Of generation.manifest.lane generation.manifest.generation
  otherBackups : ∀ lane id,
    (lane, id) ≠
        (generation.manifest.lane, generation.manifest.generation) →
    after.backups.filter (fun backup => backup.Of lane id) =
      world.backups.filter fun backup => backup.Of lane id
  otherGenerations : ∀ lane id,
    (lane, id) ≠
        (generation.manifest.lane, generation.manifest.generation) →
    (after.store.staged lane)[id]? = (world.store.staged lane)[id]? ∧
      (id ∈ after.store.complete lane ↔ id ∈ world.store.complete lane)
  /-- The removed envelopes are the live one, if any, and the backups. -/
  envelopes : evidence.removedEnvelopes =
    (if generation.manifest.generation ∈
        world.store.staged generation.manifest.lane then 1 else 0) +
      (world.backups.filter fun backup => backup.Of generation.manifest.lane
        generation.manifest.generation).length
  /-- Every stored record was refused under the stored key. -/
  probed : ∃ probes, after.probes = probes ++ world.probes ∧
    ∀ stored, (world.store.staged generation.manifest.lane)[
        generation.manifest.generation]? = some stored →
      ∀ ciphertext ∈ stored.records,
        ⟨stored.manifest.key, ciphertext, true⟩ ∈ probes

/--
The store holds a generation of the lane and identity, and the argument has its
records, under its key.
-/
def Generation.Covers (generation : Generation) (store : Store) : Prop :=
  ∃ stored, (store.staged generation.manifest.lane)[
      generation.manifest.generation]? = some stored ∧
    ∀ ciphertext ∈ stored.records,
      stored.manifest.key = generation.manifest.key ∧
        ciphertext ∈ generation.records

/-- The removed envelopes are one more than the removed backups. -/
theorem removed_backups
    (backups : List BackupEnvelope) :
    1 + backups.length -
        (backups.filter fun backup => ¬ backup.Of lane id).length =
      1 + (backups.filter fun backup => backup.Of lane id).length := by
  have parts := @List.length_eq_length_filter_add _ backups
    fun backup => decide (backup.Of lane id)
  simp only [decide_not]
  omega

theorem Store.remove_staged
    {store : Store} {query : Lane} {other : GenerationId} :
    ((store.remove lane id).staged query)[other]? =
      if query = lane ∧ id = other then none
      else (store.staged query)[other]? := by
  by_cases inLane : query = lane
  · simp [Store.remove, inLane, Std.ExtTreeMap.getElem?_erase]
  · simp [Store.remove, inLane]

theorem Store.mem_remove_complete
    {store : Store} {query : Lane} {other : GenerationId} :
    other ∈ (store.remove lane id).complete query ↔
      ¬ (query = lane ∧ id = other) ∧ other ∈ store.complete query := by
  by_cases inLane : query = lane
  · simp [Store.remove, inLane, Std.ExtTreeSet.mem_erase]
  · simp [Store.remove, inLane]

/-- Evidence is sound exactly where the argument covers what is stored. -/
theorem sound_iff_covers
    (yields : Yields (destroyGeneration grants provider generation residual)
      world (.ok evidence) after) :
    evidence.Sound generation world after ↔
      generation.Covers world.store := by
  obtain ⟨state, probes, rfl, known, removed⟩ := destroyGeneration_inv yields
  simp only [removed_backups] at removed
  constructor
  · intro sound
    have live : generation.manifest.generation ∈
        world.store.staged generation.manifest.lane := by
      by_contra absent
      have counted := sound.envelopes
      rw [removed, if_neg absent] at counted
      omega
    obtain ⟨stored, present⟩ := Option.isSome_iff_exists.mp
      (Std.ExtTreeMap.isSome_getElem?_iff_mem.mpr live)
    refine ⟨stored, present, fun ciphertext member => ?_⟩
    obtain ⟨others, same, probed⟩ := sound.probed
    rw [← List.append_cancel_right same] at probed
    obtain ⟨found, isRecord, here⟩ :=
      (known _).mp (probed stored present ciphertext member)
    obtain ⟨sameKey, rfl, _⟩ := Probe.mk.inj here
    exact ⟨sameKey, isRecord⟩
  · rintro ⟨stored, present, covered⟩
    refine ⟨?_, ?_, fun backup member => ?_, fun lane id other => ?_,
      fun lane id other => ⟨?_, ?_⟩, ?_, probes, rfl, ?_⟩
    · rw [← Std.ExtTreeMap.isSome_getElem?_iff_mem, Store.remove_staged]
      simp
    · rw [Store.mem_remove_complete]
      simp
    · exact of_decide_eq_true (List.mem_filter.mp member).2
    · rw [List.filter_filter]
      apply List.filter_congr
      intro backup _
      by_cases isOf : backup.Of lane id
      · have apart : ¬ backup.Of generation.manifest.lane
            generation.manifest.generation := by
          rintro ⟨sameLane, sameId⟩
          exact other (Prod.ext (isOf.1.symm.trans sameLane)
            (isOf.2.symm.trans sameId))
        simp [isOf, apart]
      · simp [isOf]
    · rw [Store.remove_staged, if_neg]
      rintro ⟨rfl, rfl⟩
      exact other rfl
    · rw [Store.mem_remove_complete]
      refine and_iff_right ?_
      rintro ⟨rfl, rfl⟩
      exact other rfl
    · have live : generation.manifest.generation ∈
          world.store.staged generation.manifest.lane := by
        rw [← Std.ExtTreeMap.isSome_getElem?_iff_mem, present]
        rfl
      rw [removed, if_pos live]
    · intro other here ciphertext member
      cases present.symm.trans here
      obtain ⟨sameKey, isRecord⟩ := covered ciphertext member
      exact (known _).mpr ⟨ciphertext, isRecord, by rw [sameKey]⟩

/-- The evidence of every successful destruction, as far as it is sound. -/
def EvidenceSoundWhereCovered (ω : Type) : Prop :=
  ∀ grants (provider : KeyProvider ω) generation residual world evidence after,
    Yields (destroyGeneration grants provider generation residual) world
      (.ok evidence) after →
    (evidence.Sound generation world after ↔ generation.Covers world.store)

theorem evidence_sound_where_covered
    (ω : Type) :
    EvidenceSoundWhereCovered ω :=
  fun _ _ _ _ _ _ _ yields => sound_iff_covers yields

end Evidence

section Absent

/-- A generation without records. -/
def absentGeneration : Generation where
  manifest := ⟨.ordinary, 1, "key", [], [1]⟩
  ciphertext := ∅

/-- A provider that acknowledges everything and decrypts nothing. -/
def sampleProvider : KeyProvider Unit where
  wrap key _ policy state := (.ok (⟨policy, []⟩, ⟨"wrap", "wrap", key⟩), state)
  unwrap _ _ _ state := (.error ⟨"grant"⟩, state)
  revoke key _ state := (.ok ⟨"revoke", "revoke", key⟩, state)
  destroy key state := (.ok ⟨"destroy", "destroy", key⟩, state)
  probe _ _ state := (.error ⟨"decrypt"⟩, state)

/-- Nothing stored, and nothing tracked. -/
def emptyCustody : Custody Unit :=
  ⟨.new, .ok (), (), [], []⟩

/-- The evidence of its destruction. -/
def absentEvidence : DestructionEvidence where
  lane := .ordinary
  generation := 1
  providerReceipts :=
    [⟨"revoke", "revoke", "key"⟩, ⟨"destroy", "destroy", "key"⟩]
  removedEnvelopes := 1
  negativeProbes := 0
  leakage := {
    residual := []
    unmanagedPlaintextStatement :=
      "exported or otherwise unmanaged plaintext is outside this " ++
        "destruction claim" }

/-- A destruction of a generation that is not stored reports an envelope. -/
theorem absent_generation_is_counted :
    Yields (destroyGeneration (fun _ => "grant") sampleProvider
        absentGeneration []) emptyCustody (.ok absentEvidence)
        { emptyCustody with store := Store.new.remove .ordinary 1 } ∧
      ¬ absentEvidence.Sound absentGeneration emptyCustody
        { emptyCustody with store := Store.new.remove .ordinary 1 } := by
  have yields : Yields (destroyGeneration (fun _ => "grant") sampleProvider
      absentGeneration []) emptyCustody (.ok absentEvidence)
      { emptyCustody with store := Store.new.remove .ordinary 1 } :=
    rfl
  refine ⟨yields, fun sound => ?_⟩
  obtain ⟨stored, present, _⟩ := (sound_iff_covers yields).mp sound
  simp [emptyCustody, Store.new] at present

end Absent

end SimStorage.Sealed
