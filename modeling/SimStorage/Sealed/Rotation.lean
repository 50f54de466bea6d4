import SimStorage.Sealed.Generation
import SimStorage.Interaction.Rely

namespace SimStorage.Sealed

/-!
# Rotations and recoveries of one lane

Every call looks at its lane before it selects: a rotation at the head, a
recovery at the staged generations.  What the call selects is not below the
head that it could see; only selections inside its window can be.
-/

open Codec Interaction

/-- The manager's grants, and the calls on it. -/
structure Manager where
  grants : Lane → KeyGrant
  workload : ManagerCallId → ManagerCall

/-- The head of a lane: its latest selection. -/
def headOf (lane : Lane) : List StoreEvent → Option GenerationId
  | [] => none
  | .selected _ found id :: rest =>
      if found = lane then some id else headOf lane rest
  | _ :: rest => headOf lane rest

namespace Manager

variable (manager : Manager)

/-- The call is a rotation. -/
def Rotates (me : ManagerCallId) : Prop :=
  match manager.workload me with
  | .rotate _ _ _ => True
  | .recover _ => False

/-- The operations that a call may issue. -/
def allowed (me : ManagerCallId) : StoreCall → Store → Prop
  | .unlockRotation lane, store => store.guard lane = some me
  | .completeManifest manifest, store =>
      manifest.generation ∈ store.staged manifest.lane
  | .select lane id, store => ∃ later earlier,
      store.history = later ++ .looked me lane :: earlier ∧
        (∀ head, headOf lane earlier = some head → head ≤ id) ∧
        (manager.Rotates me → store.guard lane = some me ∧
          ∀ who other, .selected who lane other ∈ later →
            ¬ manager.Rotates who)
  | _, _ => True

/-- The store as the calls share it. -/
def service : Service ManagerCallId StoreCall StoreReply Store where
  exec := StoreExec
  crash := StoreCrash
  environment _ _ := False

/-- The calls' protocol. -/
def protocol : Protocol ManagerCallId StoreCall StoreReply Store where
  toService := service
  allowed := manager.allowed

/-- The setting of one call. -/
abbrev setting (me : ManagerCallId) : Setting StoreCall StoreReply Store :=
  manager.protocol.setting me

end Manager

variable {manager : Manager} {me other : ManagerCallId}
variable {store after : Store}

section Heads

theorem headOf_append
    (lane : Lane) (later earlier : List StoreEvent) :
    headOf lane (later ++ earlier) =
      (headOf lane later).or (headOf lane earlier) := by
  induction later with
  | nil => rfl
  | cons event rest inductionHypothesis =>
      cases event with
      | selected caller found id =>
          by_cases same : found = lane
          · simp [headOf, same]
          · simp [headOf, same, inductionHypothesis]
      | looked caller found => simpa [headOf] using inductionHypothesis
      | staged caller generation => simpa [headOf] using inductionHypothesis
      | completed caller manifest => simpa [headOf] using inductionHypothesis

/-- The head was selected by some call. -/
theorem selected_of_headOf
    {lane : Lane} {events : List StoreEvent} {id : GenerationId}
    (head : headOf lane events = some id) :
    ∃ caller, .selected caller lane id ∈ events := by
  induction events with
  | nil => cases head
  | cons event rest inductionHypothesis =>
      have later (found : headOf lane rest = some id) :
          ∃ caller, .selected caller lane id ∈ event :: rest := by
        obtain ⟨caller, member⟩ := inductionHypothesis found
        exact ⟨caller, List.mem_cons_of_mem _ member⟩
      cases event with
      | selected caller found selectedId =>
          by_cases same : found = lane
          · subst same
            simp only [headOf, if_true, Option.some.injEq] at head
            subst head
            exact ⟨caller, List.mem_cons_self⟩
          · rw [headOf, if_neg same] at head
            exact later head
      | looked caller found => exact later head
      | staged caller generation => exact later head
      | completed caller manifest => exact later head

end Heads

section Invariant

/-- The invariant of the store. -/
structure Store.Sound (store : Store) : Prop where
  head : ∀ lane, store.selected lane = headOf lane store.history
  selectedComplete : ∀ lane id, store.selected lane = some id →
    id ∈ store.complete lane
  completeStaged : ∀ lane id, id ∈ store.complete lane →
    id ∈ store.staged lane

/-- What a call relies on while other calls run. -/
structure Store.Later (manager : Manager) (me : ManagerCallId)
    (store after : Store) : Prop where
  history : ∃ events, after.history = events ++ store.history ∧
    ∀ lane, store.guard lane = some me → ∀ who id,
      .selected who lane id ∈ events → ¬ manager.Rotates who
  staged : ∀ lane id, id ∈ store.staged lane → id ∈ after.staged lane
  complete : ∀ lane id, id ∈ store.complete lane → id ∈ after.complete lane
  guard : ∀ lane, store.guard lane = some me → after.guard lane = some me

theorem mem_stage
    {generation : Generation} {lane : Lane} {id : GenerationId} :
    id ∈ (store.stage generation).staged lane ↔
      (lane = generation.manifest.lane ∧ id = generation.manifest.generation) ∨
        id ∈ store.staged lane := by
  simp only [Store.stage]
  by_cases same : lane = generation.manifest.lane
  · rw [if_pos same, Std.ExtTreeMap.mem_insert,
      Std.LawfulEqCmp.compare_eq_iff_eq]
    simp [same, eq_comm]
  · simp [same]

theorem mem_finish
    {manifest : GenerationManifest} {lane : Lane} {id : GenerationId} :
    id ∈ (store.finish manifest).complete lane ↔
      (lane = manifest.lane ∧ id = manifest.generation) ∨
        id ∈ store.complete lane := by
  simp only [Store.finish]
  by_cases same : lane = manifest.lane
  · rw [if_pos same, Std.ExtTreeSet.mem_insert,
      Std.LawfulEqCmp.compare_eq_iff_eq]
    simp [same, eq_comm]
  · simp [same]

/-- A new store satisfies the invariant. -/
theorem Store.Sound.new : Store.Sound .new where
  head _ := rfl
  selectedComplete _ _ := nofun
  completeStaged _ _ member := absurd member Std.ExtTreeSet.not_mem_empty

/-- Every permitted operation keeps the invariant. -/
theorem Store.Sound.exec
    {call : StoreCall} {reply : StoreReply call}
    (sound : store.Sound)
    (permitted : manager.allowed me call store)
    (executed : StoreExec me call store reply after) :
    after.Sound := by
  obtain ⟨head, selectedComplete, completeStaged⟩ := sound
  cases executed with
  | lock _ _ => exact ⟨head, selectedComplete, completeStaged⟩
  | lockPoisoned _ _ => exact ⟨head, selectedComplete, completeStaged⟩
  | unlock => exact ⟨head, selectedComplete, completeStaged⟩
  | create _ => exact ⟨head, selectedComplete, completeStaged⟩
  | stage =>
      refine ⟨head, selectedComplete, fun lane id member => ?_⟩
      exact mem_stage.mpr (.inr (completeStaged lane id member))
  | stageFailed _ => exact ⟨head, selectedComplete, completeStaged⟩
  | finish =>
      refine ⟨head, fun lane id chosen => ?_, fun lane id member => ?_⟩
      · exact mem_finish.mpr (.inr (selectedComplete lane id chosen))
      · rcases mem_finish.mp member with ⟨rfl, rfl⟩ | before
        · exact permitted
        · exact completeStaged lane id before
  | finishFailed _ => exact ⟨head, selectedComplete, completeStaged⟩
  | @select _ lane id isComplete =>
      refine ⟨fun query => ?_, fun query chosen now => ?_, completeStaged⟩
      · by_cases same : query = lane
        · subst same
          simp [Store.record, Store.choose, headOf]
        · simp [Store.record, Store.choose, headOf, same, Ne.symm same, head]
      · by_cases same : query = lane
        · subst same
          simp only [Store.record, Store.choose, if_true,
            Option.some.injEq] at now
          subst now
          exact isComplete
        · simp only [Store.record, Store.choose, same, if_false] at now
          exact selectedComplete query chosen now
  | selectIncomplete _ => exact ⟨head, selectedComplete, completeStaged⟩
  | selectFailed _ => exact ⟨head, selectedComplete, completeStaged⟩
  | complete => exact ⟨head, selectedComplete, completeStaged⟩
  | selected => exact ⟨head, selectedComplete, completeStaged⟩
  | staged => exact ⟨head, selectedComplete, completeStaged⟩

theorem Store.Sound.crash
    (sound : store.Sound)
    (crashed : StoreCrash me store after) :
    after.Sound := by
  cases crashed with
  | holding _ => exact ⟨sound.1, sound.2, sound.3⟩
  | idle _ => exact sound

/-- Every permitted move keeps the invariant. -/
theorem Store.Sound.move
    (move : manager.protocol.Move store after)
    (sound : store.Sound) :
    after.Sound := by
  cases move with
  | issue permitted executed => exact sound.exec permitted executed
  | crash crashed => exact sound.crash crashed
  | environment impossible => exact impossible.elim

end Invariant

section Drift

theorem Store.Later.refl : Store.Later manager me store store where
  history := ⟨[], rfl, nofun⟩
  staged _ _ := id
  complete _ _ := id
  guard _ := id

theorem Store.Later.trans
    {last : Store}
    (first : Store.Later manager me store after)
    (second : Store.Later manager me after last) :
    Store.Later manager me store last where
  history := by
    obtain ⟨events, grown, silent⟩ := first.history
    obtain ⟨more, again, still⟩ := second.history
    refine ⟨more ++ events, by rw [again, grown, List.append_assoc], ?_⟩
    intro lane holds who id member
    rcases List.mem_append.mp member with late | early
    · exact still lane (first.guard lane holds) who id late
    · exact silent lane holds who id early
  staged lane id member := second.staged lane id (first.staged lane id member)
  complete lane id member :=
    second.complete lane id (first.complete lane id member)
  guard lane holds := second.guard lane (first.guard lane holds)

/-- Another call's operation leaves a call what it relies on. -/
theorem Store.Later.exec
    {call : StoreCall} {reply : StoreReply call}
    (different : other ≠ me)
    (permitted : manager.allowed other call store)
    (executed : StoreExec other call store reply after) :
    Store.Later manager me store after := by
  have keptGuard {lane : Lane} {holder : Option ManagerCallId}
      (free : store.guard lane ≠ some me) :
      ∀ query, store.guard query = some me →
        (store.setGuard lane holder).guard query = some me := by
    intro query holds
    have elsewhere : query ≠ lane := by
      rintro rfl
      exact free holds
    simpa [Store.setGuard, elsewhere] using holds
  cases executed with
  | lock free _ =>
      refine ⟨⟨[], rfl, nofun⟩, fun _ _ => id, fun _ _ => id, ?_⟩
      exact keptGuard (by rw [free]; nofun)
  | lockPoisoned _ _ => exact .refl
  | unlock =>
      refine ⟨⟨[], rfl, nofun⟩, fun _ _ => id, fun _ _ => id, ?_⟩
      apply keptGuard
      intro mine
      exact different (Option.some.inj (permitted.symm.trans mine))
  | create _ => exact .refl
  | stage =>
      refine ⟨⟨[_], rfl, fun _ _ _ _ member => ?_⟩,
        fun _ _ member => mem_stage.mpr (.inr member), fun _ _ => id,
        fun _ => id⟩
      cases List.mem_singleton.mp member
  | stageFailed _ => exact .refl
  | finish =>
      refine ⟨⟨[_], rfl, fun _ _ _ _ member => ?_⟩, fun _ _ => id,
        fun _ _ member => mem_finish.mpr (.inr member), fun _ => id⟩
      cases List.mem_singleton.mp member
  | finishFailed _ => exact .refl
  | @select _ lane newHead isComplete =>
      obtain ⟨_, _, _, _, guarded⟩ := permitted
      refine ⟨⟨[_], rfl, fun query holds who chosen member rotates => ?_⟩,
        fun _ _ => id, fun _ _ => id, fun _ => id⟩
      -- A rotation would hold the guard that this call holds.
      cases List.mem_singleton.mp member
      have theirs := (guarded rotates).1
      exact different (Option.some.inj (theirs.symm.trans holds))
  | selectIncomplete _ => exact .refl
  | selectFailed _ => exact .refl
  | complete => exact .refl
  | selected =>
      refine ⟨⟨[_], rfl, fun _ _ _ _ member => ?_⟩, fun _ _ => id,
        fun _ _ => id, fun _ => id⟩
      cases List.mem_singleton.mp member
  | staged =>
      refine ⟨⟨[_], rfl, fun _ _ _ _ member => ?_⟩, fun _ _ => id,
        fun _ _ => id, fun _ => id⟩
      cases List.mem_singleton.mp member

theorem Store.Later.crash
    (different : other ≠ me)
    (crashed : StoreCrash other store after) :
    Store.Later manager me store after := by
  cases crashed with
  | @holding lane holds =>
      refine ⟨⟨[], rfl, nofun⟩, fun _ _ => id, fun _ _ => id, ?_⟩
      intro query mine
      have elsewhere : query ≠ lane := by
        rintro rfl
        exact different (Option.some.inj (holds.symm.trans mine))
      simpa [Store.setGuard, Store.poison, elsewhere] using mine
  | idle _ => exact .refl

/-- What every call relies on. -/
def Manager.rely (manager : Manager) : Rely manager.protocol where
  invariant := Store.Sound
  later := Store.Later manager
  refl _ _ := .refl
  trans := .trans
  move sound move := sound.move move
  foreign _ foreign := by
    cases foreign with
    | issue different permitted executed =>
        exact .exec different permitted executed
    | crash different crashed => exact .crash different crashed
    | environment impossible => exact impossible.elim

end Drift

section Programs

variable {lane : Lane}

/-- The call looked at its lane, and the head it saw is below a bound. -/
def Looked (manager : Manager) (me : ManagerCallId) (lane : Lane)
    (bound : GenerationId) (store : Store) : Prop :=
  ∃ later earlier, store.history = later ++ .looked me lane :: earlier ∧
    (∀ head, headOf lane earlier = some head → head ≤ bound) ∧
    (manager.Rotates me → store.guard lane = some me ∧
      ∀ who other, .selected who lane other ∈ later → ¬ manager.Rotates who)

/-- What a call saw stays true of its window. -/
theorem Looked.later
    {bound : GenerationId}
    (looked : Looked manager me lane bound store)
    (since : Store.Later manager me store after) :
    Looked manager me lane bound after := by
  obtain ⟨later, earlier, history, below, guarded⟩ := looked
  obtain ⟨events, grown, silent⟩ := since.history
  refine ⟨events ++ later, earlier, ?_, below, fun rotates => ?_⟩
  · rw [grown, history, List.append_assoc]
  · obtain ⟨holds, quiet⟩ := guarded rotates
    refine ⟨since.guard lane holds, fun who other member => ?_⟩
    rcases List.mem_append.mp member with late | early
    · exact silent lane holds who other late
    · exact quiet who other early

/-- A call's own event other than a selection leaves its window. -/
theorem Looked.event
    {bound : GenerationId} {event : StoreEvent}
    (looked : Looked manager me lane bound store)
    (history : after.history = event :: store.history)
    (guard : after.guard = store.guard)
    (quiet : ∀ who other, event ≠ .selected who lane other) :
    Looked manager me lane bound after := by
  obtain ⟨later, earlier, before, below, guarded⟩ := looked
  refine ⟨event :: later, earlier, by rw [history, before]; rfl, below,
    fun rotates => ?_⟩
  obtain ⟨holds, silent⟩ := guarded rotates
  refine ⟨by rw [guard]; exact holds, fun who other member => ?_⟩
  rcases List.mem_cons.mp member with same | early
  · exact absurd same.symm (quiet who other)
  · exact silent who other early

/-- A call selected a generation of its lane. -/
def Chosen (me : ManagerCallId) (lane : Lane) (id : GenerationId)
    (store : Store) : Prop :=
  .selected me lane id ∈ store.history

theorem Chosen.later
    {id : GenerationId}
    (chosen : Chosen me lane id store)
    (since : Store.Later manager me store after) :
    Chosen me lane id after := by
  obtain ⟨events, grown, _⟩ := since.history
  rw [Chosen, grown]
  exact List.mem_append_right _ chosen

/-- The publication steps of a rotation, after its look. -/
theorem publish_keeps
    {id : GenerationId} {key : KeyRef} {generation : Generation}
    {receipt : ProviderReceipt}
    (sound : store.Sound)
    (accepted : generation.Accepted lane id key)
    (holds : store.guard lane = some me)
    (looked : Looked manager me lane id store) :
    manager.rely.Keeps me
      (fun result final => final.guard lane = some me ∧
        result.1.manifest.lane = lane ∧ result.1.manifest.generation = id ∧
        Chosen me lane id final)
      (fun _ final => final.guard lane = some me)
      (do
        .call (.stageRecords generation) Program.ofExcept
        .call (.completeManifest generation.manifest) Program.ofExcept
        .call (.select lane id) Program.ofExcept
        return (generation, receipt)) store := by
  have inLane : generation.manifest.lane = lane := accepted.1
  have hasId : generation.manifest.generation = id := accepted.2.1
  apply Rely.Keeps.call sound
  intro first _ since
  refine ⟨trivial, fun reply staged executed held => ?_⟩
  have holdsFirst := since.guard lane holds
  have lookedFirst := looked.later since
  cases executed with
  | stageFailed error =>
      exact .fail held fun final later => later.guard lane holdsFirst
  | stage =>
      have present : generation.manifest.generation ∈
          (first.stage generation).staged generation.manifest.lane :=
        mem_stage.mpr (.inl ⟨rfl, rfl⟩)
      have lookedStaged : Looked manager me lane id
          ((first.stage generation).record (.staged me generation)) :=
        lookedFirst.event rfl rfl (by nofun)
      apply Rely.Keeps.call held
      intro second _ onward
      refine ⟨onward.staged _ _ present, fun reply done executed held => ?_⟩
      have holdsSecond := onward.guard lane holdsFirst
      have lookedSecond := lookedStaged.later onward
      cases executed with
      | finishFailed error =>
          exact .fail held fun final later => later.guard lane holdsSecond
      | finish =>
          have lookedDone : Looked manager me lane id
              ((second.finish generation.manifest).record
                (.completed me generation.manifest)) :=
            lookedSecond.event rfl rfl (by nofun)
          apply Rely.Keeps.call held
          intro third _ again
          refine ⟨lookedDone.later again, fun reply chosen executed held => ?_⟩
          have holdsThird := again.guard lane holdsSecond
          cases executed with
          | selectIncomplete _ =>
              exact .fail held fun final later => later.guard lane holdsThird
          | selectFailed error =>
              exact .fail held fun final later => later.guard lane holdsThird
          | select _ =>
              apply Rely.Keeps.ret held
              intro final later
              refine ⟨later.guard lane holdsThird, inLane, hasId, ?_⟩
              exact Chosen.later List.mem_cons_self later

/-- A rotation selects its generation after its look, under the guard. -/
theorem rotateGuarded_keeps
    {id : GenerationId} {build : KeyRef → Except ManagedError Generation}
    (sound : store.Sound)
    (holds : store.guard lane = some me) :
    manager.rely.Keeps me
      (fun result final => final.guard lane = some me ∧
        result.1.manifest.lane = lane ∧ result.1.manifest.generation = id ∧
        Chosen me lane id final)
      (fun _ final => final.guard lane = some me)
      (rotateGuarded manager.grants lane id build) store := by
  apply Rely.Keeps.call sound
  intro first firstSound since
  refine ⟨trivial, fun current seen executed held => ?_⟩
  have holdsFirst := since.guard lane holds
  cases executed with
  | selected =>
      by_cases rollback : ∃ selected ∈ first.selected lane, id ≤ selected
      · simp only [rollback, if_true]
        exact .fail held fun final later => later.guard lane holdsFirst
      simp only [rollback, if_false]
      have looked : Looked manager me lane id
          (first.record (.looked me lane)) := by
        refine ⟨[], first.history, rfl, fun head found => ?_,
          fun _ => ⟨holdsFirst, nofun⟩⟩
        rw [← firstSound.head] at found
        by_contra above
        exact rollback ⟨head, found, UInt64.le_of_lt (UInt64.not_le.mp above)⟩
      apply Rely.Keeps.call held
      intro second _ onward
      refine ⟨trivial, fun reply created executed held => ?_⟩
      have holdsSecond := onward.guard lane holdsFirst
      have lookedSecond := looked.later onward
      cases executed with
      | create reply =>
          cases reply with
          | error error =>
              exact .fail held fun final later => later.guard lane holdsSecond
          | ok granted =>
              obtain ⟨key, receipt⟩ := granted
              cases built : build key with
              | error error =>
                  simp only [built]
                  exact .fail held
                    fun final later => later.guard lane holdsSecond
              | ok generation =>
                  by_cases accepted : generation.Accepted lane id key
                  · simp only [built, Program.ofExcept_ok, Program.ret_bind,
                      accepted, if_true]
                    exact publish_keeps held accepted holdsSecond lookedSecond
                  · simp only [built, Program.ofExcept_ok, Program.ret_bind,
                      accepted, if_false]
                    exact .fail held
                      fun final later => later.guard lane holdsSecond

/-- A rotation returns a generation that it has selected. -/
theorem rotate_keeps
    {id : GenerationId} {build : KeyRef → Except ManagedError Generation}
    (sound : store.Sound) :
    manager.rely.Keeps me
      (fun result final => result.1.manifest.lane = lane ∧
        result.1.manifest.generation = id ∧ Chosen me lane id final)
      (fun _ _ => True)
      (rotate manager.grants lane id build) store := by
  apply Rely.Keeps.call sound
  intro first _ _
  refine ⟨trivial, fun reply after executed held => ?_⟩
  cases executed with
  | lockPoisoned _ _ => exact .fail held fun _ _ => trivial
  | lock _ _ =>
      have holds : (first.setGuard lane (some me)).guard lane = some me := by
        simp [Store.setGuard]
      apply Rely.Keeps.ensuring (rotateGuarded_keeps held holds)
      · rintro result middle middleSound ⟨guarded, inLane, hasId, chosen⟩
        apply Rely.Keeps.call middleSound
        intro second _ onward
        refine ⟨onward.guard lane guarded, fun reply after executed held => ?_⟩
        cases executed with
        | unlock =>
            apply Rely.Keeps.ret held
            intro final later
            have still : Chosen me lane id second := chosen.later onward
            have released : Chosen me lane id (second.setGuard lane none) :=
              still
            exact ⟨inLane, hasId, released.later later⟩
      · intro error middle middleSound guarded
        apply Rely.Keeps.call middleSound
        intro second _ onward
        refine ⟨onward.guard lane guarded, fun reply after executed held => ?_⟩
        exact .fail held fun _ _ => trivial

theorem incomplete_keeps
    (ids : List GenerationId)
    (sound : store.Sound) :
    manager.rely.Keeps me (fun _ final => Store.Later manager me store final)
      (fun _ _ => True) (incomplete lane ids) store := by
  induction ids generalizing store with
  | nil => exact .ret sound fun _ later => later
  | cons id rest inductionHypothesis =>
      apply Rely.Keeps.call sound
      intro first _ since
      refine ⟨trivial, fun reply after executed held => ?_⟩
      cases executed with
      | complete =>
          apply Rely.Keeps.bind (inductionHypothesis held)
          intro later middle middleSound onward
          exact .ret middleSound fun _ again =>
            (since.trans onward).trans again

/-- A complete generation is found. -/
theorem Store.Sound.find_isSome
    (sound : store.Sound)
    {id : GenerationId}
    (isComplete : id ∈ store.complete lane) :
    (store.find lane id).isSome := by
  rw [Store.find, if_pos isComplete,
    Std.ExtTreeMap.isSome_getElem?_iff_mem]
  exact sound.completeStaged lane id isComplete

theorem le_max_left
    (first second : GenerationId) :
    first ≤ max first second := by
  rw [UInt64.max_def]
  split
  · assumption
  · exact UInt64.le_refl _

theorem le_max_right
    (first second : GenerationId) :
    second ≤ max first second := by
  rw [UInt64.max_def]
  split
  · exact UInt64.le_refl _
  · next above => exact UInt64.le_of_lt (UInt64.not_le.mp above)

/-- The newest complete generation is above all that were complete before. -/
theorem newest_keeps
    (best : Option GenerationId) (ids : List GenerationId)
    (sound : store.Sound) :
    manager.rely.Keeps me
      (fun result final => Store.Later manager me store final ∧
        ∀ id, (best = some id ∨ id ∈ ids ∧ id ∈ store.complete lane) →
          ∃ found, result = some found ∧ id ≤ found)
      (fun _ _ => True) (newest lane best ids) store := by
  induction ids generalizing best store with
  | nil =>
      apply Rely.Keeps.ret sound
      intro final later
      refine ⟨later, fun id known => ?_⟩
      rcases known with here | ⟨impossible, _⟩
      · exact ⟨id, here, UInt64.le_refl _⟩
      · cases impossible
  | cons id rest inductionHypothesis =>
      apply Rely.Keeps.call sound
      intro first firstSound since
      refine ⟨trivial, fun reply after executed held => ?_⟩
      cases executed with
      | complete =>
          by_cases found : (first.find lane id).isSome
          · simp only [found, if_true]
            apply Rely.Keeps.weaken (inductionHypothesis _ held)
            rintro result final ⟨later, above⟩
            refine ⟨since.trans later, fun query known => ?_⟩
            have raised (below : query ≤ (best.map (max · id)).getD id) :
                ∃ found, result = some found ∧ query ≤ found := by
              obtain ⟨value, same, under⟩ := above _ (.inl rfl)
              exact ⟨value, same, UInt64.le_trans below under⟩
            rcases known with here | ⟨member, isComplete⟩
            · apply raised
              rw [here]
              exact le_max_left query id
            · rcases List.mem_cons.mp member with rfl | inRest
              · apply raised
                cases best with
                | none => exact UInt64.le_refl _
                | some value => exact le_max_right value query
              · exact above query
                  (.inr ⟨inRest, since.complete lane query isComplete⟩)
          · simp only [found]
            apply Rely.Keeps.weaken (inductionHypothesis best held)
            rintro result final ⟨later, above⟩
            refine ⟨since.trans later, fun query known => ?_⟩
            rcases known with here | ⟨member, isComplete⟩
            · exact above query (.inl here)
            · have now := since.complete lane query isComplete
              rcases List.mem_cons.mp member with rfl | inRest
              · exact absurd (firstSound.find_isSome now) found
              · exact above query (.inr ⟨inRest, now⟩)

/-- A recovery selects nothing below the head that it could see. -/
theorem recover_keeps
    (sound : store.Sound)
    (recovers : ¬ manager.Rotates me) :
    manager.rely.Keeps me (fun _ _ => True) (fun _ _ => True) (recover lane)
      store := by
  apply Rely.Keeps.call sound
  intro first firstSound _
  refine ⟨trivial, fun staged after executed held => ?_⟩
  cases executed with
  | staged =>
      have begun : Store.Later manager me (first.record (.looked me lane))
          (first.record (.looked me lane)) := .refl
      apply Rely.Keeps.bind (incomplete_keeps _ held)
      intro ignored second secondSound since
      apply Rely.Keeps.bind (newest_keeps none _ secondSound)
      rintro result third thirdSound ⟨onward, above⟩
      cases result with
      | none => exact .ret thirdSound fun _ _ => trivial
      | some id =>
          have below : ∀ head, headOf lane first.history = some head →
              head ≤ id := by
            intro head found
            rw [← firstSound.head] at found
            have isComplete := firstSound.selectedComplete lane head found
            have listed : head ∈ (first.staged lane).keys :=
              Std.ExtTreeMap.mem_keys.mpr
                (firstSound.completeStaged lane head isComplete)
            obtain ⟨value, same, under⟩ := above head
              (.inr ⟨listed, since.complete lane head isComplete⟩)
            cases same
            exact under
          apply Rely.Keeps.call thirdSound
          intro fourth _ again
          refine ⟨trivial, fun current after executed held => ?_⟩
          have looked : Looked manager me lane id fourth := by
            obtain ⟨events, grown, _⟩ := ((since.trans onward).trans again).history
            exact ⟨events, first.history, grown, below,
              fun rotates => absurd rotates recovers⟩
          cases executed with
          | selected =>
              have still : Looked manager me lane id
                  (fourth.record (.looked me lane)) :=
                looked.event rfl rfl (by nofun)
              by_cases differs : fourth.selected lane ≠ some id
              · simp only [differs, ne_eq, not_false_eq_true, if_true]
                apply Rely.Keeps.call held
                intro fifth _ last
                refine ⟨still.later last, fun reply after executed held => ?_⟩
                have selects : manager.rely.Keeps me (fun _ _ => True)
                    (fun _ _ => True) (Program.ofExcept reply) after :=
                  .ofExcept held (fun _ _ _ _ => trivial)
                    (fun _ _ _ _ => trivial)
                apply Rely.Keeps.bind selects
                exact fun _ _ middleSound _ =>
                  .ret middleSound fun _ _ => trivial
              · simp only [differs, if_false]
                exact .ret held fun _ _ => trivial

end Programs

end SimStorage.Sealed
