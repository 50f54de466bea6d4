import SimStorage.Sealed.HeadOrder
import SimStorage.Interaction.Alone

namespace SimStorage.Sealed

/-!
# Torn rotations and recovery

Rotations run one after the other and may fail at any store operation.  A retry
of a complete but unselected generation replaces its records before its own
manifest is complete, and a failure there leaves the torn records complete.
-/

open Codec Interaction

section Stock

/-- The generations that calls staged. -/
def stagings : List StoreEvent → List (ManagerCallId × Generation)
  | [] => []
  | .staged caller generation :: rest => (caller, generation) :: stagings rest
  | _ :: rest => stagings rest

/-- The manifests that calls completed. -/
def completions : List StoreEvent → List (ManagerCallId × GenerationManifest)
  | [] => []
  | .completed caller manifest :: rest => (caller, manifest) :: completions rest
  | _ :: rest => completions rest

/-- Stage a generation and say so. -/
def Store.staging (store : Store) (me : ManagerCallId)
    (generation : Generation) : Store :=
  (store.stage generation).record (.staged me generation)

/-- Complete a manifest and say so. -/
def Store.completing (store : Store) (me : ManagerCallId)
    (manifest : GenerationManifest) : Store :=
  (store.finish manifest).record (.completed me manifest)

/-- Nothing was staged or completed between the two. -/
structure Store.Alike (store after : Store) : Prop where
  staged : after.staged = store.staged
  complete : after.complete = store.complete
  stagings : stagings after.history = stagings store.history
  completions : completions after.history = completions store.history

/-- What an attempt leaves staged and complete. -/
inductive Store.Attempted (me : ManagerCallId) (built : Generation → Prop)
    (store after : Store) : Prop where
  | untouched : store.Alike after → Attempted me built store after
  | torn (generation : Generation) :
      built generation →
      (store.staging me generation).Alike after →
      Attempted me built store after
  | whole (generation : Generation) :
      built generation →
      ((store.staging me generation).completing me
        generation.manifest).Alike after →
      Attempted me built store after

end Stock

variable {store middle after : Store} {me : ManagerCallId} {lane : Lane}

section Alike

theorem Store.Alike.refl :
    store.Alike store :=
  ⟨rfl, rfl, rfl, rfl⟩

theorem Store.Alike.trans
    (first : store.Alike middle)
    (last : middle.Alike after) :
    store.Alike after where
  staged := last.staged.trans first.staged
  complete := last.complete.trans first.complete
  stagings := last.stagings.trans first.stagings
  completions := last.completions.trans first.completions

theorem Store.Alike.find
    (alike : store.Alike after)
    (id : GenerationId) :
    after.find lane id = store.find lane id := by
  rw [Store.find, Store.find, alike.staged, alike.complete]

theorem Store.Alike.staging
    (alike : store.Alike middle)
    (generation : Generation) :
    (store.staging me generation).Alike (middle.staging me generation) where
  staged := by
    simp only [Store.staging, Store.stage, Store.record, alike.staged]
  complete := alike.complete
  stagings := congrArg ((me, generation) :: ·) alike.stagings
  completions := alike.completions

theorem Store.Alike.completing
    (alike : store.Alike middle)
    (manifest : GenerationManifest) :
    (store.completing me manifest).Alike (middle.completing me manifest) where
  staged := alike.staged
  complete := by
    simp only [Store.completing, Store.finish, Store.record, alike.complete]
  stagings := alike.stagings
  completions := congrArg ((me, manifest) :: ·) alike.completions

/-- An attempt on a store that differs in nothing staged or completed. -/
theorem Store.Attempted.prepared
    {built : Generation → Prop}
    (alike : store.Alike middle)
    (attempted : middle.Attempted me built after) :
    store.Attempted me built after := by
  cases attempted with
  | untouched same => exact .untouched (alike.trans same)
  | torn generation isBuilt same =>
      exact .torn generation isBuilt ((alike.staging generation).trans same)
  | whole generation isBuilt same =>
      exact .whole generation isBuilt
        (((alike.staging generation).completing _).trans same)

theorem Store.Attempted.alike
    {built : Generation → Prop}
    (attempted : store.Attempted me built middle)
    (alike : middle.Alike after) :
    store.Attempted me built after := by
  cases attempted with
  | untouched same => exact .untouched (same.trans alike)
  | torn generation isBuilt same =>
      exact .torn generation isBuilt (same.trans alike)
  | whole generation isBuilt same =>
      exact .whole generation isBuilt (same.trans alike)

end Alike

section Programs

variable {grants : Lane → KeyGrant} {id : GenerationId}
variable {build : KeyRef → Except ManagedError Generation}

/-- What the attempt's builder returns. -/
def BuiltBy (build : KeyRef → Except ManagedError Generation)
    (generation : Generation) : Prop :=
  ∃ key, build key = .ok generation

/-- The publication steps of an attempt. -/
theorem publish_alone
    {generation : Generation} {receipt : ProviderReceipt}
    (built : BuiltBy build generation) :
    Alone (StoreExec me)
      (fun _ final => store.Attempted me (BuiltBy build) final)
      (fun _ final => store.Attempted me (BuiltBy build) final)
      (do
        .call (.stageRecords generation) Program.ofExcept
        .call (.completeManifest generation.manifest) Program.ofExcept
        .call (.select lane id) Program.ofExcept
        return (generation, receipt)) store := by
  intro reply staged executed
  cases executed with
  | stageFailed error => exact .untouched .refl
  | stage =>
      intro reply completed executed
      cases executed with
      | finishFailed error => exact .torn generation built .refl
      | finish =>
          intro reply chosen executed
          cases executed with
          | select _ =>
              exact .whole generation built ⟨rfl, rfl, rfl, rfl⟩
          | selectIncomplete _ => exact .whole generation built .refl
          | selectFailed error => exact .whole generation built .refl

/-- A rotation stages at most one built generation, and completes it or not. -/
theorem rotateGuarded_alone :
    Alone (StoreExec me)
      (fun _ final => store.Attempted me (BuiltBy build) final)
      (fun _ final => store.Attempted me (BuiltBy build) final)
      (rotateGuarded grants lane id build) store := by
  intro current looked executed
  cases executed with
  | selected =>
      by_cases rollback : ∃ selected ∈ store.selected lane, id ≤ selected
      · simp only [rollback, if_true]
        exact .untouched ⟨rfl, rfl, rfl, rfl⟩
      simp only [rollback, if_false]
      intro reply created executed
      cases executed with
      | create reply =>
          rcases reply with error | ⟨key, receipt⟩
          · exact .untouched ⟨rfl, rfl, rfl, rfl⟩
          cases built : build key with
          | error error =>
              simp only [built]
              exact .untouched ⟨rfl, rfl, rfl, rfl⟩
          | ok generation =>
              by_cases accepted : generation.Accepted lane id key
              · simp only [built, Program.ofExcept_ok, Program.ret_bind,
                  accepted, if_true]
                have looked : store.Alike (store.record (.looked me lane)) :=
                  ⟨rfl, rfl, rfl, rfl⟩
                exact (publish_alone ⟨key, built⟩).weaken
                  (fun _ _ attempted => attempted.prepared looked)
                  (fun _ _ attempted => attempted.prepared looked)
              · simp only [built, Program.ofExcept_ok, Program.ret_bind,
                  accepted, if_false]
                exact .untouched ⟨rfl, rfl, rfl, rfl⟩

theorem rotate_alone :
    Alone (StoreExec me)
      (fun _ final => store.Attempted me (BuiltBy build) final)
      (fun _ final => store.Attempted me (BuiltBy build) final)
      (rotate grants lane id build) store := by
  intro reply locked executed
  cases executed with
  | lockPoisoned _ _ => exact .untouched .refl
  | lock _ _ =>
      have released {middle final : Store} {reply : Unit}
          (attempted : (store.setGuard lane (some me)).Attempted me
            (BuiltBy build) middle)
          (executed : StoreExec me (.unlockRotation lane) middle reply final) :
          store.Attempted me (BuiltBy build) final := by
        cases executed with
        | unlock =>
            have guarded : store.Alike (store.setGuard lane (some me)) :=
              ⟨rfl, rfl, rfl, rfl⟩
            exact (attempted.prepared guarded).alike ⟨rfl, rfl, rfl, rfl⟩
      exact rotateGuarded_alone.ensuring
        (fun _ _ _ _ attempted executed => released attempted executed)
        (fun _ _ _ _ attempted executed => released attempted executed)

theorem incomplete_alone
    (ids : List GenerationId) :
    Alone (StoreExec me) (fun _ final => final = store) (fun _ _ => False)
      (incomplete lane ids) store := by
  induction ids with
  | nil => exact rfl
  | cons id rest inductionHypothesis =>
      intro reply after executed
      cases executed with
      | complete =>
          apply inductionHypothesis.bind
          rintro later _ rfl
          exact rfl

/-- The newest complete generation is complete. -/
theorem newest_alone
    {best : Option GenerationId}
    (ids : List GenerationId)
    (known : ∀ id, best = some id → (store.find lane id).isSome) :
    Alone (StoreExec me)
      (fun result final => final = store ∧
        ∀ id, result = some id → (store.find lane id).isSome)
      (fun _ _ => False)
      (newest lane best ids) store := by
  induction ids generalizing best with
  | nil => exact ⟨rfl, known⟩
  | cons id rest inductionHypothesis =>
      intro reply after executed
      cases executed with
      | complete =>
          by_cases found : (store.find lane id).isSome
          · simp only [found, if_true]
            apply inductionHypothesis
            rintro _ ⟨⟩
            cases best with
            | none => exact found
            | some value =>
                simp only [Option.map_some, Option.getD_some, UInt64.max_def]
                split
                · exact found
                · exact known value rfl
          · simp only [found]
            exact inductionHypothesis known

/-- A recovery selects a generation that is complete. -/
theorem recover_alone :
    Alone (StoreExec me)
      (fun report final => store.Alike final ∧
        ∀ id, report.selected = some id →
          (store.find lane id).isSome ∧ final.selected lane = some id)
      (fun _ final => store.Alike final)
      (recover lane) store := by
  intro staged after executed
  cases executed with
  | staged =>
      apply ((incomplete_alone _).weaken (fun _ _ same => same) nofun).bind
      rintro ignored _ rfl
      apply ((newest_alone _ (fun _ missing => by cases missing)).weaken (fun _ _ same => same) nofun).bind
      rintro result _ ⟨rfl, known⟩
      cases result with
      | none => exact ⟨⟨rfl, rfl, rfl, rfl⟩, nofun⟩
      | some id =>
          intro current after executed
          cases executed with
          | selected =>
              by_cases differs : store.selected lane ≠ some id
              · have differs' : (store.record (.looked me lane)).selected lane ≠
                    some id := differs
                simp only [differs', ne_eq, not_false_eq_true, if_true]
                intro reply after executed
                cases executed with
                | select _ =>
                    refine ⟨⟨rfl, rfl, rfl, rfl⟩, ?_⟩
                    rintro _ ⟨⟩
                    exact ⟨known id rfl, by simp [Store.choose, Store.record]⟩
                | selectIncomplete _ => exact ⟨rfl, rfl, rfl, rfl⟩
                | selectFailed error => exact ⟨rfl, rfl, rfl, rfl⟩
              · have same : store.selected lane = some id := not_not.mp differs
                have same' : (store.record (.looked me lane)).selected lane =
                    some id := same
                simp only [same', ne_eq, not_true_eq_false, if_false]
                refine ⟨⟨rfl, rfl, rfl, rfl⟩, ?_⟩
                rintro _ ⟨⟩
                exact ⟨known id rfl, same⟩

end Programs

namespace Manager

variable (manager : Manager)

/-- The attempt built the generation. -/
def Built (me : ManagerCallId) (generation : Generation) : Prop :=
  ∃ lane id build, manager.workload me = .rotate lane id build ∧
    BuiltBy build generation

/-- One attempt built and staged the generation and completed its manifest. -/
def Completed (generation : Generation) (store : Store) : Prop :=
  ∃ caller, manager.Built caller generation ∧
    (caller, generation) ∈ stagings store.history ∧
    (caller, generation.manifest) ∈ completions store.history

/-- Every complete generation was completed by the attempt that built it. -/
def Whole (store : Store) : Prop :=
  ∀ lane id generation, store.find lane id = some generation →
    generation.manifest.lane = lane ∧ generation.manifest.generation = id ∧
      manager.Completed generation store

/-- One call, undisturbed. -/
def Call (me : ManagerCallId) (store : Store)
    (outcome : Except ManagedError ManagerOutcome) (after : Store) : Prop :=
  Runs (StoreExec me) (managerProgram manager.grants (manager.workload me))
    store outcome after

/--
A call that stages a generation under a complete identity also completes its
manifest, unless this very generation was completed before.
-/
def Careful (me : ManagerCallId) (store after : Store) : Prop :=
  ∀ generation, (me, generation) ∈ stagings after.history →
    (me, generation.manifest) ∉ completions after.history →
    generation.manifest.generation ∈
      store.complete generation.manifest.lane →
    manager.Completed generation store

/-- The calls, one after the other, as long as each meets a condition. -/
inductive Calls (meets : ManagerCallId → Store → Store → Prop) :
    ManagerCallId → Store → Prop where
  | start : Calls meets 0 .new
  | call {me : ManagerCallId} {store after : Store}
      {outcome : Except ManagedError ManagerOutcome} :
      Calls meets me store →
      manager.Call me store outcome after →
      meets me store after →
      Calls meets (me + 1) after

end Manager

variable {manager : Manager}
variable {outcome : Except ManagedError ManagerOutcome}

section Calls

/-- Staged generations are where their manifests say; callers are earlier. -/
structure Store.Filed (me : ManagerCallId) (store : Store) : Prop where
  keyed : ∀ lane id (generation : Generation), (store.staged lane)[id]? = some generation →
    generation.manifest.lane = lane ∧ generation.manifest.generation = id
  stagings : ∀ caller generation,
    (caller, generation) ∈ stagings store.history → caller < me
  completions : ∀ caller manifest,
    (caller, manifest) ∈ completions store.history → caller < me

/-- What a call leaves staged and complete. -/
theorem call_attempted
    (call : manager.Call me store outcome after) :
    store.Attempted me (manager.Built me) after := by
  have program : Alone (StoreExec me)
      (fun _ final => store.Attempted me (manager.Built me) final)
      (fun _ final => store.Attempted me (manager.Built me) final)
      (managerProgram manager.grants (manager.workload me)) store := by
    cases working : manager.workload me with
    | rotate lane id build =>
        have widened {final : Store}
            (attempted : store.Attempted me (BuiltBy build) final) :
            store.Attempted me (manager.Built me) final := by
          cases attempted with
          | untouched same => exact .untouched same
          | torn generation built same =>
              exact .torn generation ⟨lane, id, build, working, built⟩ same
          | whole generation built same =>
              exact .whole generation ⟨lane, id, build, working, built⟩ same
        exact (rotate_alone.weaken (fun _ _ attempted => widened attempted)
          (fun _ _ attempted => widened attempted)).bind
            fun _ _ attempted => attempted
    | recover lane =>
        exact (recover_alone.weaken (fun _ _ done => .untouched done.1)
          (fun _ _ same => .untouched same)).bind
            fun _ _ attempted => attempted
  cases outcome with
  | ok value => exact (program.ends call).1 value rfl
  | error error => exact (program.ends call).2 error rfl

/-- The staged generation of a lane and identity, after one more staging. -/
theorem getElem?_staging
    (generation : Generation)
    (id : GenerationId) :
    ((store.staging me generation).staged lane)[id]? =
      if lane = generation.manifest.lane ∧ generation.manifest.generation = id
      then some generation
      else (store.staged lane)[id]? := by
  by_cases inLane : lane = generation.manifest.lane
  · simp [Store.staging, Store.stage, Store.record, inLane,
      Std.ExtTreeMap.getElem?_insert]
  · simp [Store.staging, Store.stage, Store.record, inLane]

/-- A staging changes what is found only under a complete identity. -/
theorem find_staging
    {generation found : Generation} {id : GenerationId}
    (present : (store.staging me generation).find lane id = some found) :
    (lane = generation.manifest.lane ∧ generation.manifest.generation = id ∧
        id ∈ store.complete lane ∧ found = generation) ∨
      store.find lane id = some found := by
  by_cases isComplete : id ∈ store.complete lane
  swap
  · have still : id ∉ (store.staging me generation).complete lane := isComplete
    rw [Store.find, if_neg still] at present
    cases present
  have still : id ∈ (store.staging me generation).complete lane := isComplete
  rw [Store.find, if_pos still, getElem?_staging] at present
  by_cases here : lane = generation.manifest.lane ∧
      generation.manifest.generation = id
  · rw [if_pos here] at present
    cases present
    exact .inl ⟨here.1, here.2, isComplete, rfl⟩
  · rw [if_neg here] at present
    rw [Store.find, if_pos isComplete]
    exact .inr present

/-- A completion adds what is staged under its identity. -/
theorem find_completing
    {manifest : GenerationManifest} {found : Generation} {id : GenerationId}
    (present : (store.completing me manifest).find lane id = some found) :
    (lane = manifest.lane ∧ manifest.generation = id ∧
        (store.staged lane)[id]? = some found) ∨
      store.find lane id = some found := by
  by_cases still : id ∈ (store.completing me manifest).complete lane
  swap
  · rw [Store.find, if_neg still] at present
    cases present
  rw [Store.find, if_pos still] at present
  by_cases isComplete : id ∈ store.complete lane
  · rw [Store.find, if_pos isComplete]
    exact .inr present
  by_cases inLane : lane = manifest.lane
  · by_cases same : manifest.generation = id
    · exact .inl ⟨inLane, same, present⟩
    · simp [Store.completing, Store.finish, Store.record, inLane, same] at still
      rw [inLane] at isComplete
      exact absurd still isComplete
  · simp [Store.completing, Store.finish, Store.record, inLane] at still
    exact absurd still isComplete

theorem Store.Filed.alike
    (filed : store.Filed me)
    (alike : store.Alike after) :
    after.Filed me where
  keyed := by
    rw [alike.staged]
    exact filed.keyed
  stagings := by
    rw [alike.stagings]
    exact filed.stagings
  completions := by
    rw [alike.completions]
    exact filed.completions

theorem Store.Filed.next
    (filed : store.Filed me) :
    store.Filed (me + 1) where
  keyed := filed.keyed
  stagings caller generation member :=
    Nat.lt_succ_of_lt (filed.stagings caller generation member)
  completions caller manifest member :=
    Nat.lt_succ_of_lt (filed.completions caller manifest member)

theorem Store.Filed.staging
    (filed : store.Filed me)
    (generation : Generation) :
    (store.staging me generation).Filed (me + 1) where
  keyed lane id found present := by
    rw [getElem?_staging] at present
    by_cases here : lane = generation.manifest.lane ∧
        generation.manifest.generation = id
    · rw [if_pos here] at present
      cases present
      exact ⟨here.1.symm, here.2⟩
    · rw [if_neg here] at present
      exact filed.keyed lane id found present
  stagings caller found member := by
    rcases List.mem_cons.mp member with same | before
    · cases same
      exact Nat.lt_succ_self me
    · exact Nat.lt_succ_of_lt (filed.stagings caller found before)
  completions := filed.next.completions

theorem Store.Filed.completing
    (filed : store.Filed (me + 1))
    (manifest : GenerationManifest) :
    (store.completing me manifest).Filed (me + 1) where
  keyed := filed.keyed
  stagings := filed.stagings
  completions caller found member := by
    rcases List.mem_cons.mp member with same | before
    · cases same
      exact Nat.lt_succ_self me
    · exact filed.completions caller found before

theorem Store.Filed.call
    (filed : store.Filed me)
    (call : manager.Call me store outcome after) :
    after.Filed (me + 1) := by
  cases call_attempted call with
  | untouched same => exact filed.next.alike same
  | torn generation _ same => exact (filed.staging generation).alike same
  | whole generation _ same =>
      exact ((filed.staging generation).completing _).alike same

theorem filed_of_calls
    {meets : ManagerCallId → Store → Store → Prop}
    (calls : manager.Calls meets me store) :
    store.Filed me := by
  induction calls with
  | start =>
      refine ⟨fun lane id generation present => ?_, nofun, nofun⟩
      simp [Store.new] at present
  | call _ call _ inductionHypothesis => exact inductionHypothesis.call call

end Calls

section Whole

/-- What one attempt completed stays so. -/
theorem Manager.Completed.call
    {generation : Generation}
    (completed : manager.Completed generation store)
    (call : manager.Call me store outcome after) :
    manager.Completed generation after := by
  rcases completed with ⟨caller, built, staged, done⟩
  refine ⟨caller, built, ?_⟩
  cases call_attempted call with
  | untouched same =>
      rw [same.stagings, same.completions]
      exact ⟨staged, done⟩
  | torn other _ same =>
      rw [same.stagings, same.completions]
      exact ⟨List.mem_cons_of_mem _ staged, done⟩
  | whole other _ same =>
      rw [same.stagings, same.completions]
      exact ⟨List.mem_cons_of_mem _ staged, List.mem_cons_of_mem _ done⟩

/-- A careful call leaves every complete generation whole. -/
theorem whole_of_careful
    (filed : store.Filed me)
    (whole : manager.Whole store)
    (call : manager.Call me store outcome after)
    (careful : manager.Careful me store after) :
    manager.Whole after := by
  intro lane id found present
  have kept (before : store.find lane id = some found) :
      found.manifest.lane = lane ∧ found.manifest.generation = id ∧
        manager.Completed found after := by
    obtain ⟨inLane, hasId, completed⟩ := whole lane id found before
    exact ⟨inLane, hasId, completed.call call⟩
  cases call_attempted call with
  | untouched same =>
      rw [same.find] at present
      exact kept present
  | torn generation built same =>
      rw [same.find] at present
      rcases find_staging present with ⟨rfl, rfl, isComplete, rfl⟩ | before
      swap
      · exact kept before
      have staged : (me, found) ∈ stagings after.history := by
        rw [same.stagings]
        exact List.mem_cons_self
      have failed : (me, found.manifest) ∉ completions after.history := by
        intro done
        rw [same.completions] at done
        exact absurd (filed.completions me _ done) (Nat.lt_irrefl me)
      have completed := careful found staged failed isComplete
      exact ⟨rfl, rfl, completed.call call⟩
  | whole generation built same =>
      rw [same.find] at present
      have completed : manager.Completed generation after := by
        refine ⟨me, built, ?_, ?_⟩
        · rw [same.stagings]
          exact List.mem_cons_self
        · rw [same.completions]
          exact List.mem_cons_self
      rcases find_completing present with ⟨rfl, rfl, staged⟩ | before
      · rw [getElem?_staging, if_pos ⟨rfl, rfl⟩] at staged
        cases staged
        exact ⟨rfl, rfl, completed⟩
      · rcases find_staging before with ⟨rfl, rfl, _, rfl⟩ | earlier
        · exact ⟨rfl, rfl, completed⟩
        · exact kept earlier

/-- A call that leaves every complete generation whole is careful. -/
theorem careful_of_whole
    (filed : store.Filed me)
    (call : manager.Call me store outcome after)
    (whole : manager.Whole after) :
    manager.Careful me store after := by
  intro generation staged failed isComplete
  have fresh (found : Generation) :
      (me, found) ∉ stagings store.history := by
    intro member
    exact absurd (filed.stagings me found member) (Nat.lt_irrefl me)
  cases call_attempted call with
  | untouched same =>
      rw [same.stagings] at staged
      exact absurd staged (fresh generation)
  | torn other _ same =>
      rw [same.stagings] at staged
      rcases List.mem_cons.mp staged with here | before
      swap
      · exact absurd before (fresh generation)
      cases here
      have present : after.find generation.manifest.lane
          generation.manifest.generation = some generation := by
        have still : generation.manifest.generation ∈
            (store.staging me generation).complete generation.manifest.lane :=
          isComplete
        rw [same.find, Store.find, if_pos still, getElem?_staging,
          if_pos ⟨rfl, rfl⟩]
      obtain ⟨_, _, caller, built, byCaller, done⟩ := whole _ _ _ present
      rw [same.completions] at done
      rw [same.stagings] at byCaller
      rcases List.mem_cons.mp byCaller with itself | earlier
      · cases itself
        exact absurd (filed.completions me _ done) (Nat.lt_irrefl me)
      · exact ⟨caller, built, earlier, done⟩
  | whole other _ same =>
      rw [same.stagings] at staged
      rcases List.mem_cons.mp staged with here | before
      · cases here
        rw [same.completions] at failed
        exact absurd List.mem_cons_self failed
      · exact absurd before (fresh generation)

theorem whole_of_calls
    (calls : manager.Calls manager.Careful me store) :
    manager.Whole store := by
  induction calls with
  | start =>
      intro lane id generation present
      simp [Store.find, Store.new] at present
  | call calls call careful inductionHypothesis =>
      exact whole_of_careful (filed_of_calls calls) inductionHypothesis call
        careful

/-- What recoveries select after attempts. -/
structure Manager.NoMixing (manager : Manager) : Prop where
  /-- After careful calls, a call leaves all whole just if it is careful. -/
  precise : ∀ me store outcome after,
    manager.Calls manager.Careful me store →
    manager.Call me store outcome after →
    (manager.Whole after ↔ manager.Careful me store after)
  /-- After careful calls, a recovery selects what one attempt completed. -/
  recovered : ∀ me lane store report id after,
    manager.Calls manager.Careful me store →
    manager.workload me = .recover lane →
    manager.Call me store (.ok (.recovered report)) after →
    report.selected = some id →
    after.selected lane = some id ∧
      ∃ generation, after.find lane id = some generation ∧
        generation.manifest.lane = lane ∧
        generation.manifest.generation = id ∧
        manager.Completed generation after

/-- Exactly careful attempts leave nothing torn for a recovery to select. -/
theorem recovery_never_mixes
    (manager : Manager) :
    manager.NoMixing where
  precise me store outcome after calls call :=
    ⟨careful_of_whole (filed_of_calls calls) call,
      whole_of_careful (filed_of_calls calls) (whole_of_calls calls) call⟩
  recovered me lane store report id after calls working call selected := by
    have program : Alone (StoreExec me)
        (fun value final => ∀ report, value = .recovered report →
          store.Alike final ∧ ∀ id, report.selected = some id →
            (store.find lane id).isSome ∧ final.selected lane = some id)
        (fun _ _ => True)
        (managerProgram manager.grants (manager.workload me)) store := by
      rw [working]
      apply (recover_alone.weaken (fun _ _ done => done)
        (fun _ _ _ => trivial)).bind
      rintro value final done _ ⟨⟩
      exact done
    obtain ⟨alike, selects⟩ := (program.ends call).1 _ rfl report rfl
    obtain ⟨present, chosen⟩ := selects id selected
    obtain ⟨generation, found⟩ := Option.isSome_iff_exists.mp present
    obtain ⟨inLane, hasId, completed⟩ := whole_of_calls calls lane id _ found
    refine ⟨chosen, generation, ?_, inLane, hasId, completed.call call⟩
    rw [alike.find, found]

end Whole

section Retrying

/-- Another generation of the same identity. -/
def retriedGeneration : Generation :=
  { sampleGeneration 1 with
    ciphertext := (∅ : Std.ExtTreeMap String Bytes).insert "record" [3] }

/-- An attempt, its retry and a recovery. -/
def retryingManager : Manager where
  grants _ := "grant"
  workload
    | 0 => .rotate .ordinary 1 fun _ => .ok (sampleGeneration 1)
    | 1 => .rotate .ordinary 1 fun _ => .ok retriedGeneration
    | _ => .recover .ordinary

/-- The store after an attempt whose selection failed. -/
def unselected : Store :=
  ((((Store.new.setGuard .ordinary (some 0)).record
    (.looked 0 .ordinary)).staging 0 (sampleGeneration 1)).completing 0
      (sampleGeneration 1).manifest).setGuard .ordinary none

/-- The store after the retry whose manifest failed. -/
def tornRetry : Store :=
  (((unselected.setGuard .ordinary (some 1)).record
    (.looked 1 .ordinary)).staging 1 retriedGeneration).setGuard .ordinary none

theorem unselected_call :
    retryingManager.Call 0 .new (.error ⟨"torn selection"⟩) unselected := by
  apply Runs.call (.lock rfl rfl)
  apply Runs.call .selected
  apply Runs.call (.create (.ok ("key", ⟨"receipt", "create", "key"⟩)))
  simp only [Program.ofExcept_ok, Program.ret_bind,
    sampleGeneration_accepted 1, if_true]
  apply Runs.call .stage
  apply Runs.call .finish
  apply Runs.call (.selectFailed ⟨"torn selection"⟩)
  exact .call .unlock (.fail _ _)

theorem tornRetry_call :
    retryingManager.Call 1 unselected (.error ⟨"torn manifest"⟩) tornRetry := by
  have accepted : retriedGeneration.Accepted .ordinary 1 "key" := by decide
  apply Runs.call (.lock rfl rfl)
  apply Runs.call .selected
  apply Runs.call (.create (.ok ("key", ⟨"receipt", "create", "key"⟩)))
  simp only [Program.ofExcept_ok, Program.ret_bind, accepted, if_true]
  apply Runs.call .stage
  apply Runs.call (.finishFailed ⟨"torn manifest"⟩)
  exact .call .unlock (.fail _ _)

/-- The store after the recovery. -/
def recoveredRetry : Store :=
  (((tornRetry.record (.looked 2 .ordinary)).record
    (.looked 2 .ordinary)).choose .ordinary 1).record (.selected 2 .ordinary 1)

theorem recoveredRetry_call :
    retryingManager.Call 2 tornRetry (.ok (.recovered ⟨some 1, []⟩))
      recoveredRetry := by
  apply Runs.call .staged
  apply Runs.call .complete
  apply Runs.call .complete
  apply Runs.call .selected
  have complete : (1 : GenerationId) ∈ tornRetry.complete .ordinary := by
    decide
  exact .call (.select complete) (.ret _ _)

/-- A recovery selects records whose manifest was never completed. -/
theorem recovery_selects_torn_retry :
    retryingManager.Calls (fun _ _ _ => True) 2 tornRetry ∧
      retryingManager.Call 2 tornRetry (.ok (.recovered ⟨some 1, []⟩))
        recoveredRetry ∧
      recoveredRetry.selected .ordinary = some 1 ∧
      recoveredRetry.find .ordinary 1 = some retriedGeneration ∧
      ¬ retryingManager.Completed retriedGeneration recoveredRetry := by
  have calls : retryingManager.Calls (fun _ _ _ => True) 2 tornRetry :=
    .call (.call .start unselected_call trivial) tornRetry_call trivial
  refine ⟨calls, recoveredRetry_call, rfl, rfl, ?_⟩
  rintro ⟨caller, _, staged, completed⟩
  have only : caller = 0 := by
    have done : (caller, retriedGeneration.manifest) ∈
        [(0, (sampleGeneration 1).manifest)] := completed
    simpa using congrArg Prod.fst (List.mem_singleton.mp done)
  subst only
  have first : ((0 : ManagerCallId), retriedGeneration) ∈
      [(1, retriedGeneration), (0, sampleGeneration 1)] := staged
  have same : retriedGeneration = sampleGeneration 1 := by
    simpa using first
  have records := congrArg (·.ciphertext["record"]?) same
  exact absurd records (by decide)

end Retrying

end SimStorage.Sealed
