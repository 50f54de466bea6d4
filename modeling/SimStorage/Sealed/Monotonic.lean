import SimStorage.Sealed.Destruction
import SimStorage.Sealed.Recovery

namespace SimStorage.Sealed

/-!
# Identities of generations over a lane's life

Rotations, recoveries and destructions follow one another and may fail at any
step.  A rotation compares its identity with the lane's head only, and a
destruction takes the head away: what was the head when it was destroyed is
what a later rotation can reuse.
-/

open Codec Interaction

variable {ω : Type}

/-- The head is complete, and what is complete is staged. -/
structure Store.Stocked (store : Store) : Prop where
  selected : ∀ lane id, store.selected lane = some id → id ∈ store.complete lane
  complete : ∀ lane id, id ∈ store.complete lane → id ∈ store.staged lane

/-- The heads are as before. -/
structure Store.Steady (store after : Store) : Prop where
  selected : after.selected = store.selected
  stocked : after.Stocked

variable {store middle after : Store} {me : ManagerCallId} {lane : Lane}

section Operations

theorem Store.Steady.of_alike
    (stocked : store.Stocked)
    (staged : after.staged = store.staged)
    (complete : after.complete = store.complete)
    (selected : after.selected = store.selected) :
    store.Steady after where
  selected := selected
  stocked := by
    refine ⟨?_, ?_⟩
    · rw [selected, complete]
      exact stocked.selected
    · rw [staged, complete]
      exact stocked.complete

theorem Store.Steady.trans
    (first : store.Steady middle)
    (last : middle.Steady after) :
    store.Steady after :=
  ⟨last.selected.trans first.selected, last.stocked⟩

theorem Store.Steady.staging
    (stocked : store.Stocked)
    (generation : Generation) :
    store.Steady (store.staging me generation) where
  selected := rfl
  stocked := ⟨stocked.selected, fun lane id isComplete =>
    mem_stage.mpr (.inr (stocked.complete lane id isComplete))⟩

theorem Store.Steady.completing
    (stocked : store.Stocked)
    {manifest : GenerationManifest}
    (staged : manifest.generation ∈ store.staged manifest.lane) :
    store.Steady (store.completing me manifest) where
  selected := rfl
  stocked := by
    refine ⟨fun lane id isHead => ?_, fun lane id isComplete => ?_⟩
    · exact mem_finish.mpr (.inr (stocked.selected lane id isHead))
    · rcases mem_finish.mp isComplete with ⟨rfl, rfl⟩ | before
      · exact staged
      · exact stocked.complete lane id before

theorem Store.Stocked.choosing
    (stocked : store.Stocked)
    {id : GenerationId} {event : StoreEvent}
    (isComplete : id ∈ store.complete lane) :
    ((store.choose lane id).record event).Stocked where
  selected query chosen isHead := by
    by_cases same : query = lane
    · subst same
      simp only [Store.record, Store.choose, if_true,
        Option.some.injEq] at isHead
      subst isHead
      exact isComplete
    · simp only [Store.record, Store.choose, same, if_false] at isHead
      exact stocked.selected query chosen isHead
  complete := stocked.complete

/-- The lane's head is a generation, the other lanes' are as before. -/
structure Store.Moved (store after : Store) (lane : Lane) (id : GenerationId) :
    Prop where
  head : after.selected lane = some id
  others : ∀ other ≠ lane, after.selected other = store.selected other
  stocked : after.Stocked

theorem Store.Moved.prepared
    {id : GenerationId}
    (steady : store.Steady middle)
    (moved : middle.Moved after lane id) :
    store.Moved after lane id where
  head := moved.head
  others other differs := by
    rw [moved.others other differs, steady.selected]
  stocked := moved.stocked

theorem Store.Moved.choosing
    {id : GenerationId} {event : StoreEvent}
    (stocked : store.Stocked)
    (isComplete : id ∈ store.complete lane) :
    store.Moved ((store.choose lane id).record event) lane id where
  head := by simp [Store.record, Store.choose]
  others other differs := by simp [Store.record, Store.choose, differs]
  stocked := stocked.choosing isComplete

end Operations

section Programs

variable {grants : Lane → KeyGrant} {id : GenerationId}
variable {build : KeyRef → Except ManagedError Generation}

/-- Under the guard: a rotation moves the head up, or leaves all heads. -/
theorem rotateGuarded_heads
    (stocked : store.Stocked) :
    Alone (StoreExec me)
      (fun _ final => store.Moved final lane id ∧
        ∀ head, store.selected lane = some head → head < id)
      (fun _ final => store.Steady final)
      (rotateGuarded grants lane id build) store := by
  intro current looked executed
  cases executed with
  | selected =>
      have begun : store.Steady (store.record (.looked me lane)) :=
        .of_alike stocked rfl rfl rfl
      by_cases rollback : ∃ selected ∈ store.selected lane, id ≤ selected
      · simp only [rollback, if_true]
        exact begun
      simp only [rollback, if_false]
      have above : ∀ head, store.selected lane = some head → head < id := by
        intro head isHead
        apply UInt64.not_le.mp
        exact fun below => rollback ⟨head, isHead, below⟩
      intro created reached executed
      cases executed with
      | create created =>
          rcases created with error | ⟨key, receipt⟩
          · exact begun
          cases built : build key with
          | error error =>
              simp only [built]
              exact begun
          | ok generation =>
              by_cases accepted : generation.Accepted lane id key
              swap
              · simp only [built, Program.ofExcept_ok, Program.ret_bind,
                  accepted, if_false]
                exact begun
              simp only [built, Program.ofExcept_ok, Program.ret_bind, accepted,
                if_true]
              intro staged reached executed
              cases executed with
              | stageFailed error => exact begun
              | stage =>
                  have stagedHeads := begun.trans
                    (.staging begun.stocked generation :
                      Store.Steady _ (Store.staging _ me generation))
                  intro completed reached executed
                  cases executed with
                  | finishFailed error => exact stagedHeads
                  | finish =>
                      have isStaged : generation.manifest.generation ∈
                          ((store.record (.looked me lane)).staging me
                            generation).staged generation.manifest.lane :=
                        mem_stage.mpr (.inl ⟨rfl, rfl⟩)
                      have completeHeads := stagedHeads.trans
                        (.completing stagedHeads.stocked isStaged :
                          Store.Steady _
                            (Store.completing _ me generation.manifest))
                      intro chosen reached executed
                      cases executed with
                      | select isComplete =>
                          exact ⟨.prepared completeHeads
                            (.choosing completeHeads.stocked isComplete), above⟩
                      | selectIncomplete _ => exact completeHeads
                      | selectFailed error => exact completeHeads

/-- A rotation moves the head up, or leaves all heads. -/
theorem rotate_heads
    (stocked : store.Stocked) :
    Alone (StoreExec me)
      (fun _ final => store.Moved final lane id ∧
        ∀ head, store.selected lane = some head → head < id)
      (fun _ final => store.Steady final)
      (rotate grants lane id build) store := by
  intro locked reached executed
  cases executed with
  | lockPoisoned _ _ => exact .of_alike stocked rfl rfl rfl
  | lock _ _ =>
      have begun : store.Steady (store.setGuard lane (some me)) :=
        .of_alike stocked rfl rfl rfl
      apply (rotateGuarded_heads begun.stocked).ensuring
      · rintro _ last _ final ⟨moved, above⟩ executed
        cases executed with
        | unlock =>
            have ended : last.Steady (last.setGuard lane none) :=
              .of_alike moved.stocked rfl rfl rfl
            refine ⟨⟨moved.head, fun other differs => ?_, ended.stocked⟩, above⟩
            exact moved.others other differs
      · rintro _ last _ final steady executed
        cases executed with
        | unlock =>
            exact (begun.trans steady).trans
              (.of_alike steady.stocked rfl rfl rfl)

/-- The newest complete generation is not below any complete one. -/
theorem newest_above
    (stocked : store.Stocked)
    (best : Option GenerationId) (ids : List GenerationId) :
    Alone (StoreExec me)
      (fun result final => final = store ∧
        ∀ id, (best = some id ∨ id ∈ ids ∧ id ∈ store.complete lane) →
          ∃ found, result = some found ∧ id ≤ found)
      (fun _ _ => False) (newest lane best ids) store := by
  induction ids generalizing best with
  | nil =>
      refine ⟨rfl, fun id known => ?_⟩
      rcases known with here | ⟨impossible, _⟩
      · exact ⟨id, here, UInt64.le_refl _⟩
      · cases impossible
  | cons id rest inductionHypothesis =>
      intro reply reached executed
      cases executed with
      | complete =>
          by_cases isComplete : id ∈ store.complete lane
          · have found : (store.find lane id).isSome := by
              rw [Store.find, if_pos isComplete,
                Std.ExtTreeMap.isSome_getElem?_iff_mem]
              exact stocked.complete lane id isComplete
            simp only [found, if_true]
            apply (inductionHypothesis _).weaken _
              fun _ _ impossible => impossible
            rintro result final ⟨same, above⟩
            refine ⟨same, fun query known => ?_⟩
            have raised (below : query ≤ (best.map (max · id)).getD id) :
                ∃ found, result = some found ∧ query ≤ found := by
              obtain ⟨value, isValue, under⟩ := above _ (.inl rfl)
              exact ⟨value, isValue, UInt64.le_trans below under⟩
            rcases known with here | ⟨member, known⟩
            · apply raised
              rw [here]
              exact le_max_left query id
            · rcases List.mem_cons.mp member with rfl | inRest
              · apply raised
                cases best with
                | none => exact UInt64.le_refl _
                | some value => exact le_max_right value query
              · exact above query (.inr ⟨inRest, known⟩)
          · have missing : ¬ (store.find lane id).isSome := by
              simp [Store.find, isComplete]
            simp only [missing]
            apply (inductionHypothesis best).weaken _
              fun _ _ impossible => impossible
            rintro result final ⟨same, above⟩
            refine ⟨same, fun query known => ?_⟩
            rcases known with here | ⟨member, known⟩
            · exact above query (.inl here)
            · rcases List.mem_cons.mp member with rfl | inRest
              · exact absurd known isComplete
              · exact above query (.inr ⟨inRest, known⟩)

/-- What a recovery reports, and how it leaves the heads. -/
def Store.Recovered (store : Store) (lane : Lane) (report : RecoveryReport)
    (after : Store) : Prop :=
  match report.selected with
  | none => store.Steady after
  | some id => store.Moved after lane id ∧
      ∀ head, store.selected lane = some head → head ≤ id

/-- A recovery moves the head to a generation that is not below it. -/
theorem recover_heads
    (stocked : store.Stocked) :
    Alone (StoreExec me)
      (fun report final => store.Recovered lane report final)
      (fun _ final => store.Steady final)
      (recover lane) store := by
  intro staged reached executed
  cases executed with
  | staged =>
      have begun : store.Steady (store.record (.looked me lane)) :=
        .of_alike stocked rfl rfl rfl
      apply ((incomplete_alone _).weaken (fun _ _ same => same) nofun).bind
      rintro ignored _ rfl
      apply ((newest_above begun.stocked none _).weaken
        (fun _ _ known => known) nofun).bind
      rintro result _ ⟨rfl, above⟩
      cases result with
      | none => exact begun
      | some id =>
          have notBelow : ∀ head, store.selected lane = some head →
              head ≤ id := by
            intro head isHead
            have isComplete := stocked.selected lane head isHead
            have listed : head ∈ (store.staged lane).keys :=
              Std.ExtTreeMap.mem_keys.mpr (stocked.complete lane head isComplete)
            obtain ⟨found, same, below⟩ := above head (.inr ⟨listed, isComplete⟩)
            cases same
            exact below
          intro current reached executed
          cases executed with
          | selected =>
              have looked : store.Steady
                  ((store.record (.looked me lane)).record (.looked me lane)) :=
                begun.trans (.of_alike begun.stocked rfl rfl rfl)
              by_cases same : store.selected lane = some id
              · have current : (store.record (.looked me lane)).selected lane =
                    some id := same
                simp only [current, ne_eq, not_true_eq_false, if_false]
                exact ⟨⟨same, fun _ _ => rfl, looked.stocked⟩, notBelow⟩
              · have current : (store.record (.looked me lane)).selected lane ≠
                    some id := same
                simp only [current, ne_eq, not_false_eq_true, if_true]
                intro chosen reached executed
                cases executed with
                | select isComplete =>
                    exact ⟨.prepared looked
                      (.choosing looked.stocked isComplete), notBelow⟩
                | selectIncomplete _ => exact looked
                | selectFailed error => exact looked

end Programs

section Destructions

variable {grants : Lane → KeyGrant} {provider : KeyProvider ω}
variable {generation : Generation} {residual : List String}
variable {world final : Custody ω}

/-- Both custodies have the same store. -/
def Custody.SameStore (world final : Custody ω) : Prop :=
  final.store = world.store

theorem Custody.SameStore.refl
    (world : Custody ω) :
    world.SameStore world :=
  rfl

theorem onKeys_sameStore
    {α : Type} (step : ω → Except ProviderError α × ω) :
    Within Custody.SameStore (onKeys step) := by
  intro world outcome final yields
  obtain ⟨state, rfl⟩ := onKeys_inv yields
  rfl

theorem probeAll_sameStore
    (key : KeyRef) (records : List Bytes) (refusals : Nat) :
    Within Custody.SameStore (probeAll provider key records refusals) := by
  induction records generalizing refusals with
  | nil => exact .pure Custody.SameStore.refl refusals
  | cons ciphertext rest inductionHypothesis =>
      apply Within.reading
      intro world outcome final yields
      have probed := (Yields.set _ _).rest yields
      split at probed
      · obtain ⟨_, rfl⟩ := (Yields.throw _ _).unique probed
        rfl
      · have later := inductionHypothesis _ _ _ _ probed
        exact later

/-- A destruction leaves the store, or removes one generation from it. -/
theorem destroyGeneration_store
    {outcome : Except ManagedError DestructionEvidence}
    (yields : Yields (destroyGeneration grants provider generation residual)
      world outcome final) :
    final.store = world.store ∨
      final.store = world.store.remove generation.manifest.lane
        generation.manifest.generation := by
  rcases yields.bind_inv with ⟨_, first, revoked, yields⟩ | ⟨_, failed, _⟩
  swap
  · exact .inl (onKeys_sameStore _ _ _ _ failed)
  have kept : first.store = world.store := onKeys_sameStore _ _ _ _ revoked
  rcases yields.bind_inv with ⟨_, second, removed, yields⟩ | ⟨_, failed, _⟩
  swap
  · have removing := (Yields.get first).rest failed
    rcases removing.bind_inv with ⟨_, third, _, storing⟩ | ⟨_, failed, _⟩
    · cases (storing.unique (.set _ third)).1
    · obtain ⟨_, rfl⟩ := failed.ofExcept_inv
      exact .inl kept
  have removing := (Yields.get first).rest removed
  obtain ⟨_, third, answered, storing⟩ := removing.bind_ok
  obtain ⟨_, rfl⟩ := answered.ofExcept_inv
  obtain ⟨_, rfl⟩ := (Yields.set _ _).unique storing
  right
  have dropping := (Yields.get _).rest yields
  have dropped := (Yields.set _ _).rest dropping
  have removedFrom : third.store.remove generation.manifest.lane
      generation.manifest.generation =
        world.store.remove generation.manifest.lane
          generation.manifest.generation := by
    rw [kept]
  rcases dropped.bind_inv with ⟨_, fourth, destroyed, yields⟩ | ⟨_, failed, _⟩
  swap
  · exact Eq.trans (onKeys_sameStore _ _ _ _ failed) removedFrom
  have destroyedFrom := Eq.trans (onKeys_sameStore _ _ _ _ destroyed) removedFrom
  rcases yields.bind_inv with ⟨_, fifth, probed, yields⟩ | ⟨_, failed, _⟩
  · obtain ⟨_, rfl⟩ := (Yields.pure _ _).unique yields
    exact Eq.trans (probeAll_sameStore _ _ _ _ _ _ probed) destroyedFrom
  · exact Eq.trans (probeAll_sameStore _ _ _ _ _ _ failed) destroyedFrom

end Destructions

section Lives

variable {grants : Lane → KeyGrant}
variable {id : GenerationId}
variable {picked fallen : List (Lane × GenerationId)}
variable {call : ManagerCall} {outcome : Except ManagedError ManagerOutcome}

/-- The head that a call reports. -/
def ManagerCall.picks :
    ManagerCall → Except ManagedError ManagerOutcome →
      List (Lane × GenerationId)
  | .rotate lane id _, .ok (.rotated _ _) => [(lane, id)]
  | .recover lane, .ok (.recovered ⟨some id, _⟩) => [(lane, id)]
  | _, _ => []

/-- The generation, if its removal took the head of its lane away. -/
def Store.falls (store after : Store) (lane : Lane) (id : GenerationId) :
    List (Lane × GenerationId) :=
  if store.selected lane = some id ∧ after.selected lane = none then
    [(lane, id)]
  else
    []

theorem Store.falls_self :
    store.falls store lane id = [] := by
  apply if_neg
  rintro ⟨isHead, noHead⟩
  cases isHead.symm.trans noHead

/--
Calls one after the other, however each of them ends: the heads that they
reported and the heads that were destroyed, latest first, and the store.
-/
inductive LaneRun (grants : Lane → KeyGrant) :
    List (Lane × GenerationId) → List (Lane × GenerationId) → Store → Prop where
  | start : LaneRun grants [] [] .new
  | called
      {picked fallen : List (Lane × GenerationId)}
      {store after : Store}
      {me : ManagerCallId}
      {call : ManagerCall}
      {outcome : Except ManagedError ManagerOutcome} :
      LaneRun grants picked fallen store →
      Runs (StoreExec me) (managerProgram grants call) store outcome after →
      LaneRun grants (call.picks outcome ++ picked) fallen after
  | destroyed
      {picked fallen : List (Lane × GenerationId)}
      {ω : Type}
      {provider : KeyProvider ω}
      {generation : Generation}
      {residual : List String}
      {world after : Custody ω}
      {outcome : Except ManagedError DestructionEvidence} :
      LaneRun grants picked fallen world.store →
      Yields (destroyGeneration grants provider generation residual) world
        outcome after →
      LaneRun grants picked
        (world.store.falls after.store generation.manifest.lane
          generation.manifest.generation ++ fallen) after.store
  /-- A builder that panics poisons the lane's lock. -/
  | poisoned
      {picked fallen : List (Lane × GenerationId)}
      {store : Store}
      (lane : Lane) :
      LaneRun grants picked fallen store →
      LaneRun grants picked fallen (store.poison lane)

/-- What was reported is not above the head, or not above a fallen head. -/
structure Chronicled (picked fallen : List (Lane × GenerationId))
    (store : Store) : Prop where
  stocked : store.Stocked
  head : ∀ lane id, store.selected lane = some id → (lane, id) ∈ picked
  lost : ∀ entry ∈ fallen, entry ∈ picked
  below : ∀ lane id, (lane, id) ∈ picked →
    (∃ head, store.selected lane = some head ∧ id ≤ head) ∨
      ∃ other, (lane, other) ∈ fallen ∧ id ≤ other

theorem Chronicled.start :
    Chronicled [] [] .new where
  stocked := ⟨nofun, fun _ _ impossible => by simp [Store.new] at impossible⟩
  head := nofun
  lost := nofun
  below := nofun

theorem Chronicled.steady
    (chronicled : Chronicled picked fallen store)
    (steady : store.Steady after) :
    Chronicled picked fallen after where
  stocked := steady.stocked
  head := by
    rw [steady.selected]
    exact chronicled.head
  lost := chronicled.lost
  below := by
    rw [steady.selected]
    exact chronicled.below

theorem Chronicled.moved
    (chronicled : Chronicled picked fallen store)
    (moved : store.Moved after lane id)
    (notBelow : ∀ head, store.selected lane = some head → head ≤ id) :
    Chronicled ((lane, id) :: picked) fallen after where
  stocked := moved.stocked
  head query found isHead := by
    by_cases same : query = lane
    · subst same
      cases moved.head.symm.trans isHead
      exact List.mem_cons_self
    · rw [moved.others query same] at isHead
      exact List.mem_cons_of_mem _ (chronicled.head query found isHead)
  lost entry member := List.mem_cons_of_mem _ (chronicled.lost entry member)
  below query found member := by
    rcases List.mem_cons.mp member with here | earlier
    · cases here
      exact .inl ⟨id, moved.head, UInt64.le_refl _⟩
    rcases chronicled.below query found earlier with ⟨head, isHead, under⟩ | lost
    · by_cases same : query = lane
      · subst same
        exact .inl ⟨id, moved.head,
          UInt64.le_trans under (notBelow head isHead)⟩
      · exact .inl ⟨head, (moved.others query same).trans isHead, under⟩
    · exact .inr lost

/-- A head that a removal leaves. -/
theorem Store.selected_of_remove
    {query : Lane} {found : GenerationId}
    (isHead : (store.remove lane id).selected query = some found) :
    store.selected query = some found ∧ ¬ (query = lane ∧ id = found) := by
  by_cases taken : query = lane ∧ store.selected query = some id
  · have noHead : (store.remove lane id).selected query = none := if_pos taken
    cases isHead.symm.trans noHead
  · have same : (store.remove lane id).selected query = store.selected query :=
      if_neg taken
    have before := same.symm.trans isHead
    refine ⟨before, ?_⟩
    rintro ⟨rfl, rfl⟩
    exact taken ⟨rfl, before⟩

theorem Store.Stocked.removed
    (stocked : store.Stocked) :
    (store.remove lane id).Stocked where
  selected query found isHead := by
    obtain ⟨before, other⟩ := Store.selected_of_remove isHead
    exact Store.mem_remove_complete.mpr
      ⟨other, stocked.selected query found before⟩
  complete query found isComplete := by
    obtain ⟨other, before⟩ := Store.mem_remove_complete.mp isComplete
    have isStaged := stocked.complete query found before
    rw [← Std.ExtTreeMap.isSome_getElem?_iff_mem] at isStaged ⊢
    rw [Store.remove_staged, if_neg other]
    exact isStaged

theorem Chronicled.removed
    (chronicled : Chronicled picked fallen store) :
    Chronicled picked
      (store.falls (store.remove lane id) lane id ++ fallen)
      (store.remove lane id) where
  stocked := chronicled.stocked.removed
  head query found isHead :=
    chronicled.head query found (Store.selected_of_remove isHead).1
  lost entry member := by
    rcases List.mem_append.mp member with now | before
    · by_cases falls : store.selected lane = some id ∧
          (store.remove lane id).selected lane = none
      · rw [Store.falls, if_pos falls, List.mem_singleton] at now
        subst now
        exact chronicled.head lane id falls.1
      · rw [Store.falls, if_neg falls] at now
        cases now
    · exact chronicled.lost entry before
  below query found member := by
    rcases chronicled.below query found member with
      ⟨current, isHead, under⟩ | ⟨other, gone, under⟩
    · by_cases taken : query = lane ∧ store.selected query = some id
      · have falls : store.selected lane = some id ∧
            (store.remove lane id).selected lane = none := by
          obtain ⟨rfl, here⟩ := taken
          exact ⟨here, if_pos ⟨rfl, here⟩⟩
        cases isHead.symm.trans taken.2
        rw [taken.1, Store.falls, if_pos falls]
        exact .inr ⟨_, List.mem_cons_self, under⟩
      · exact .inl ⟨current, (if_neg taken).trans isHead, under⟩
    · exact .inr ⟨other, List.mem_append_right _ gone, under⟩

/-- What a call reports and how it leaves the heads. -/
def ManagerCall.Leaves (call : ManagerCall) (store : Store)
    (outcome : Except ManagedError ManagerOutcome) (after : Store) : Prop :=
  (call.picks outcome = [] ∧ store.Steady after) ∨
    ∃ lane id, call.picks outcome = [(lane, id)] ∧
      store.Moved after lane id ∧
      ∀ head, store.selected lane = some head → head ≤ id

theorem call_leaves
    (stocked : store.Stocked)
    (run : Runs (StoreExec me) (managerProgram grants call) store outcome
      after) :
    call.Leaves store outcome after := by
  cases call with
  | rotate lane id build =>
      have rotated : Alone (StoreExec me)
          (fun value final =>
            (ManagerCall.rotate lane id build).Leaves store (.ok value) final)
          (fun _ final => store.Steady final)
          (managerProgram grants (.rotate lane id build)) store := by
        apply (rotate_heads stocked).bind
        rintro ⟨generation, receipt⟩ final ⟨moved, above⟩
        exact .inr ⟨lane, id, rfl, moved, fun head isHead =>
          UInt64.le_of_lt (above head isHead)⟩
      cases outcome with
      | ok value => exact (rotated.ends run).1 value rfl
      | error error => exact .inl ⟨rfl, (rotated.ends run).2 error rfl⟩
  | recover lane =>
      have recovered : Alone (StoreExec me)
          (fun value final =>
            (ManagerCall.recover lane).Leaves store (.ok value) final)
          (fun _ final => store.Steady final)
          (managerProgram grants (.recover lane)) store := by
        apply (recover_heads stocked).bind
        rintro ⟨selected, ignored⟩ final report
        cases selected with
        | none => exact .inl ⟨rfl, report⟩
        | some id => exact .inr ⟨lane, id, rfl, report⟩
      cases outcome with
      | ok value => exact (recovered.ends run).1 value rfl
      | error error => exact .inl ⟨rfl, (recovered.ends run).2 error rfl⟩

theorem LaneRun.chronicled
    (run : LaneRun grants picked fallen store) :
    Chronicled picked fallen store := by
  induction run with
  | start => exact .start
  | called _ executed inductionHypothesis =>
      rcases call_leaves inductionHypothesis.stocked executed with
        ⟨nothing, steady⟩ | ⟨lane, id, picks, moved, notBelow⟩
      · rw [nothing]
        exact inductionHypothesis.steady steady
      · rw [picks]
        exact inductionHypothesis.moved moved notBelow
  | destroyed _ yields inductionHypothesis =>
      rcases destroyGeneration_store yields with same | removed
      · rw [same, Store.falls_self]
        exact inductionHypothesis
      · rw [removed]
        exact inductionHypothesis.removed
  | poisoned lane _ inductionHypothesis =>
      exact inductionHypothesis.steady
        (.of_alike inductionHypothesis.stocked rfl rfl rfl)

/--
In every run, a rotation that succeeds is above all that was reported for its
lane exactly where it is above the heads of the lane that were destroyed.
-/
theorem monotonic_above_fallen
    {build : KeyRef → Except ManagedError Generation}
    {generation : Generation}
    {receipt : ProviderReceipt}
    (run : LaneRun grants picked fallen store)
    (rotates : Runs (StoreExec me) (managerProgram grants (.rotate lane id build))
      store (.ok (.rotated generation receipt)) after) :
    (∀ other, (lane, other) ∈ picked → other < id) ↔
      ∀ other, (lane, other) ∈ fallen → other < id := by
  have chronicled := run.chronicled
  have above : ∀ head, store.selected lane = some head → head < id := by
    have rotated : Alone (StoreExec me)
        (fun _ _ => ∀ head, store.selected lane = some head → head < id)
        (fun _ final => store.Steady final)
        (managerProgram grants (.rotate lane id build)) store := by
      apply (rotate_heads chronicled.stocked).bind
      rintro _ _ ⟨_, above⟩
      exact above
    exact (rotated.ends rotates).1 _ rfl
  constructor
  · intro monotonic other lost
    exact monotonic other (chronicled.lost _ lost)
  · intro aboveFallen other reported
    rcases chronicled.below lane other reported with
      ⟨head, isHead, under⟩ | ⟨gone, lost, under⟩
    · exact UInt64.lt_of_le_of_lt under (above head isHead)
    · exact UInt64.lt_of_le_of_lt under (aboveFallen gone lost)

end Lives

section Reuse

/-- Nothing but what the first rotation has left is stored. -/
def rotatedCustody : Custody Unit :=
  ⟨afterRotation 0 1 .new, .ok (), (), [], []⟩

/-- The evidence of the destruction of the generation. -/
def rotatedEvidence : DestructionEvidence :=
  { absentEvidence with negativeProbes := 1 }

/-- The first generation is destroyed while it is the head. -/
theorem rotated_and_destroyed :
    LaneRun sampleManager.grants [(.ordinary, 1)] [(.ordinary, 1)]
      ((afterRotation 0 1 .new).remove .ordinary 1) := by
  have rotated : LaneRun sampleManager.grants [(.ordinary, 1)] []
      rotatedCustody.store :=
    .called .start (rotation_runs 0 rfl rfl (by nofun))
  have yields : Yields
      (destroyGeneration sampleManager.grants sampleProvider (sampleGeneration 1)
        []) rotatedCustody (.ok rotatedEvidence)
      { rotatedCustody with
        store := rotatedCustody.store.remove .ordinary 1
        probes := [⟨"key", [2], true⟩] } :=
    rfl
  exact .destroyed rotated yields

/-- A rotation past the destroyed head is above all that was reported. -/
theorem sample_above_fallen :
    LaneRun sampleManager.grants [(.ordinary, 1)] [(.ordinary, 1)]
        ((afterRotation 0 1 .new).remove .ordinary 1) ∧
      ∀ other, (Lane.ordinary, other) ∈ [(Lane.ordinary, (1 : GenerationId))] →
        other < 2 := by
  have rotates := @rotation_runs 1 2
    ((afterRotation 0 1 .new).remove .ordinary 1) rfl rfl (by nofun)
  refine ⟨rotated_and_destroyed,
    (monotonic_above_fallen rotated_and_destroyed rotates).mpr ?_⟩
  intro other fallen
  rw [(Prod.mk.inj (List.mem_singleton.mp fallen)).2]
  decide

/-- A destroyed identity is rotated to again. -/
theorem destroyed_identity_is_reused :
    LaneRun sampleManager.grants [(.ordinary, 1)] [(.ordinary, 1)]
        ((afterRotation 0 1 .new).remove .ordinary 1) ∧
      Runs (StoreExec 1)
        (managerProgram sampleManager.grants
          (.rotate .ordinary 1 fun _ => .ok (sampleGeneration 1)))
        ((afterRotation 0 1 .new).remove .ordinary 1)
        (.ok (.rotated (sampleGeneration 1) ⟨"receipt", "create", "key"⟩))
        (afterRotation 1 1 ((afterRotation 0 1 .new).remove .ordinary 1)) ∧
      ¬ ∀ other, (Lane.ordinary, other) ∈ [(Lane.ordinary, (1 : GenerationId))] →
        other < 1 := by
  refine ⟨rotated_and_destroyed, ?_, fun above => ?_⟩
  · exact rotation_runs 1 rfl rfl (by nofun)
  · exact absurd (above 1 List.mem_cons_self) (by decide)

end Reuse

end SimStorage.Sealed
