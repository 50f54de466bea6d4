import SimStorage.Sealed.Rotation

namespace SimStorage.Sealed

/-!
# The order of a lane's heads

A rotation holds its lane's guard and refuses to roll the head back, but a
recovery selects without the guard.  The head of a lane never falls exactly
as long as no selection overtakes a newer one in the window of its call.
-/

open Codec Interaction

/-- A system of calls on one store. -/
abbrev ManagerSystem :=
  System ManagerCallId StoreCall StoreReply ManagedError ManagerOutcome Store

namespace Manager

variable (manager : Manager)

/-- All calls at their start, on a new store. -/
def initial : ManagerSystem :=
  ⟨.new, fun me => some (managerProgram manager.grants (manager.workload me))⟩

/-- A call that returned stays so. -/
def resume (_ : ManagerCallId) (_ : ManagerOutcome) :
    Option (StoreProgram ManagerOutcome) :=
  none

/-- One step of any call. -/
def Step : ManagerSystem → ManagerSystem → Prop :=
  System.Step service resume

/-- Any number of steps of any calls. -/
def Steps : ManagerSystem → ManagerSystem → Prop :=
  System.Steps service resume

/--
A step that does not let a selection overtake a newer one: what it selects is
not below what another call selected since it looked at the lane.  Rotations
exclude each other from their windows.
-/
def Timely (store after : Store) : Prop :=
  ∀ me lane id later earlier who other,
    after.history = .selected me lane id :: store.history →
    store.history = later ++ .looked me lane :: earlier →
    .selected who lane other ∈ later →
    ¬ (manager.Rotates me ∧ manager.Rotates who) →
    other ≤ id

/-- Any number of timely steps. -/
def TimelySteps : ManagerSystem → ManagerSystem → Prop :=
  Relation.ReflTransGen fun system next =>
    Step system next ∧ manager.Timely system.world next.world

/-- The systems that timely steps reach from a new store. -/
def TimelyReaches (system : ManagerSystem) : Prop :=
  manager.TimelySteps manager.initial system

end Manager

/-- No lane's head falls. -/
def Store.Advances (store after : Store) : Prop :=
  ∀ lane head, store.selected lane = some head →
    ∃ next, after.selected lane = some next ∧ head ≤ next

/-- What a call has done when it returned. -/
def Rotated (manager : Manager) (me : ManagerCallId)
    (outcome : ManagerOutcome) (store : Store) : Prop :=
  match outcome with
  | .rotated _ _ => ∀ lane id build,
      manager.workload me = .rotate lane id build → Chosen me lane id store
  | .recovered _ => True

variable {manager : Manager} {me : ManagerCallId}
variable {system next later : ManagerSystem} {store after : Store}

section Calls

/-- Every call keeps the protocol. -/
theorem managerProgram_keeps
    (sound : store.Sound) :
    manager.rely.Keeps me (Rotated manager me) (fun _ _ => True)
      (managerProgram manager.grants (manager.workload me)) store := by
  cases working : manager.workload me with
  | rotate lane id build =>
      apply Rely.Keeps.bind (rotate_keeps sound)
      rintro ⟨generation, receipt⟩ middle middleSound ⟨_, _, chosen⟩
      apply Rely.Keeps.ret middleSound
      intro final since lane' id' build' same
      rw [working] at same
      cases same
      exact chosen.later since
  | recover lane =>
      have recovers : ¬ manager.Rotates me := by
        rw [Manager.Rotates, working]
        exact id
      apply Rely.Keeps.bind (recover_keeps sound recovers)
      intro report middle middleSound _
      exact .ret middleSound fun _ _ => trivial

/-- Timely steps are steps. -/
theorem Manager.TimelySteps.steps
    (steps : manager.TimelySteps system later) :
    Manager.Steps system later :=
  Relation.ReflTransGen.mono (fun _ _ step => step.1) _ _ steps

/-- At the start, all calls keep the protocol. -/
theorem initial_keeps :
    manager.rely.AllKeep (Rotated manager) (fun _ _ _ => True)
      manager.initial := by
  rintro me program ⟨⟩
  exact managerProgram_keeps .new

theorem allKeep_of_reaches
    (reaches : Manager.Steps manager.initial system) :
    manager.rely.AllKeep (Rotated manager) (fun _ _ _ => True) system :=
  manager.rely.allKeep_of_steps (fun _ _ => rfl) reaches initial_keeps

theorem sound_of_reaches
    (reaches : Manager.Steps manager.initial system) :
    system.world.Sound :=
  manager.rely.invariant_of_steps (fun _ _ => rfl) reaches initial_keeps
    Store.Sound.new

end Calls

section Steps

/-- What a step does to the selections and to the history. -/
theorem step_cases
    (reaches : Manager.Steps manager.initial system)
    (step : Manager.Step system next) :
    (next.world.selected = system.world.selected ∧
      ∃ events, next.world.history = events ++ system.world.history ∧
        ∀ who lane id, .selected who lane id ∉ events) ∨
    ∃ me lane id, Looked manager me lane id system.world ∧
      next.world.selected = (system.world.choose lane id).selected ∧
      next.world.history = .selected me lane id :: system.world.history := by
  cases step with
  | @issue me request rest reply after running executed =>
      have permitted :=
        (allKeep_of_reaches reaches me _ running system.world .refl).1
      cases executed with
      | select _ => exact .inr ⟨me, _, _, permitted, rfl, rfl⟩
      | lock _ _ => exact .inl ⟨rfl, [], rfl, by nofun⟩
      | lockPoisoned _ _ => exact .inl ⟨rfl, [], rfl, by nofun⟩
      | unlock => exact .inl ⟨rfl, [], rfl, by nofun⟩
      | create _ => exact .inl ⟨rfl, [], rfl, by nofun⟩
      | stage => exact .inl ⟨rfl, [_], rfl, by simp⟩
      | stageFailed _ => exact .inl ⟨rfl, [], rfl, by nofun⟩
      | finish => exact .inl ⟨rfl, [_], rfl, by simp⟩
      | finishFailed _ => exact .inl ⟨rfl, [], rfl, by nofun⟩
      | selectIncomplete _ => exact .inl ⟨rfl, [], rfl, by nofun⟩
      | selectFailed _ => exact .inl ⟨rfl, [], rfl, by nofun⟩
      | complete => exact .inl ⟨rfl, [], rfl, by nofun⟩
      | selected => exact .inl ⟨rfl, [_], rfl, by simp⟩
      | staged => exact .inl ⟨rfl, [_], rfl, by simp⟩
  | resume _ resumed => cases resumed
  | stop _ crashed =>
      cases crashed with
      | holding _ => exact .inl ⟨rfl, [], rfl, by nofun⟩
      | idle _ => exact .inl ⟨rfl, [], rfl, by nofun⟩
  | environment impossible => exact impossible.elim

/-- Every selection is at or below the head of its lane. -/
def Store.Ordered (store : Store) : Prop :=
  ∀ who lane id, .selected who lane id ∈ store.history →
    ∃ head, store.selected lane = some head ∧ id ≤ head

/-- A timely step lets no head fall. -/
theorem advances_of_timely
    (reaches : Manager.Steps manager.initial system)
    (step : Manager.Step system next)
    (timely : manager.Timely system.world next.world) :
    system.world.Advances next.world := by
  intro lane head current
  rcases step_cases reaches step with
    ⟨same, _⟩ | ⟨me, changed, id, looked, selects, history⟩
  · exact ⟨head, by rw [same, current], UInt64.le_refl _⟩
  by_cases elsewhere : lane = changed
  swap
  · refine ⟨head, ?_, UInt64.le_refl _⟩
    rw [selects, Store.choose]
    simp only [elsewhere, if_false, current]
  subst elsewhere
  refine ⟨id, by simp [selects, Store.choose], ?_⟩
  obtain ⟨later, earlier, cut, below, guarded⟩ := looked
  rw [(sound_of_reaches reaches).head, cut, headOf_append] at current
  cases inWindow : headOf lane later with
  | none =>
      rw [inWindow] at current
      exact below head current
  | some found =>
      rw [inWindow] at current
      cases current
      obtain ⟨who, member⟩ := selected_of_headOf inWindow
      apply timely me lane id later earlier who head history cut member
      rintro ⟨rotates, others⟩
      exact (guarded rotates).2 who head member others

/-- A step that lets no head fall keeps the selections ordered. -/
theorem ordered_of_advances
    (reaches : Manager.Steps manager.initial system)
    (step : Manager.Step system next)
    (advances : system.world.Advances next.world)
    (ordered : system.world.Ordered) :
    next.world.Ordered := by
  intro who lane id member
  have earlier (before : .selected who lane id ∈ system.world.history) :
      ∃ head, next.world.selected lane = some head ∧ id ≤ head := by
    obtain ⟨head, current, below⟩ := ordered who lane id before
    obtain ⟨newer, now, above⟩ := advances lane head current
    exact ⟨newer, now, UInt64.le_trans below above⟩
  rcases step_cases reaches step with
    ⟨_, events, history, quiet⟩ | ⟨me, changed, chosen, _, selects, history⟩
  · rw [history, List.mem_append] at member
    rcases member with late | before
    · exact absurd late (quiet who lane id)
    · exact earlier before
  · rw [history, List.mem_cons] at member
    rcases member with same | before
    · cases same
      exact ⟨id, by simp [selects, Store.choose], UInt64.le_refl _⟩
    · exact earlier before

/-- Systems that timely steps reach have ordered selections. -/
theorem ordered_of_timely
    (reaches : manager.TimelyReaches system) :
    system.world.Ordered := by
  induction reaches with
  | refl => exact fun _ _ _ member => absurd member List.not_mem_nil
  | tail earlier last inductionHypothesis =>
      have before := Manager.TimelySteps.steps earlier
      exact ordered_of_advances before last.1
        (advances_of_timely before last.1 last.2) inductionHypothesis

/-- A step that lets no head fall is timely. -/
theorem timely_of_advances
    (ordered : system.world.Ordered)
    (reaches : Manager.Steps manager.initial system)
    (step : Manager.Step system next)
    (advances : system.world.Advances next.world) :
    manager.Timely system.world next.world := by
  intro me lane id later earlier who other history cut member _
  have before : .selected who lane other ∈ system.world.history := by
    rw [cut]
    exact List.mem_append_left _ member
  obtain ⟨head, current, below⟩ := ordered who lane other before
  obtain ⟨newer, now, above⟩ := advances lane head current
  rcases step_cases reaches step with
    ⟨_, events, grown, quiet⟩ | ⟨_, _, _, _, selects, same⟩
  · rw [history] at grown
    cases events with
    | nil =>
        have lengths := congrArg List.length grown
        simp at lengths
    | cons event rest =>
        cases (List.cons.inj grown).1
        exact absurd List.mem_cons_self (quiet me lane id)
  · rw [history] at same
    cases (List.cons.inj same).1
    simp only [selects, Store.choose, if_true, Option.some.injEq] at now
    subst now
    exact UInt64.le_trans below above

end Steps

section Heads

/-- The order of a manager's heads. -/
structure Manager.HeadOrder (manager : Manager) : Prop where
  /-- After timely steps, a step lets no head fall just if it is timely. -/
  precise : ∀ system next, manager.TimelyReaches system →
    Manager.Step system next →
    (system.world.Advances next.world ↔
      manager.Timely system.world next.world)
  /-- Timely steps let no head fall. -/
  advances : ∀ system later, manager.TimelyReaches system →
    manager.TimelySteps system later →
    system.world.Advances later.world
  /-- A rotation that returned is selected, or a newer generation is. -/
  returned : ∀ system me lane id build generation receipt,
    manager.TimelyReaches system →
    manager.workload me = .rotate lane id build →
    system.programs me = some (.ret (.rotated generation receipt)) →
    ∃ head, system.world.selected lane = some head ∧ id ≤ head

/-- Exactly under timely steps, heads do not fall. -/
theorem heads_never_fall
    (manager : Manager) :
    manager.HeadOrder where
  precise system next reaches step :=
    ⟨timely_of_advances (ordered_of_timely reaches)
        (Manager.TimelySteps.steps reaches) step,
      advances_of_timely (Manager.TimelySteps.steps reaches) step⟩
  advances system later reaches steps := by
    induction steps with
    | refl => exact fun _ head current => ⟨head, current, UInt64.le_refl _⟩
    | tail earlier last inductionHypothesis =>
        intro lane head current
        obtain ⟨middle, now, below⟩ := inductionHypothesis lane head current
        have reached := Manager.TimelySteps.steps (reaches.trans earlier)
        obtain ⟨final, after, above⟩ :=
          advances_of_timely reached last.1 last.2 lane middle now
        exact ⟨final, after, UInt64.le_trans below above⟩
  returned system me lane id build generation receipt reaches working done := by
    have reached := Manager.TimelySteps.steps reaches
    have kept := allKeep_of_reaches reached me _ done system.world .refl
    exact ordered_of_timely reaches me lane id
      (kept.2 lane id build working)

end Heads

section Overtaking

/-- A generation with one record. -/
def sampleGeneration (id : GenerationId) : Generation :=
  ⟨⟨.ordinary, id, "key", ["record"], [1]⟩,
    (∅ : Std.ExtTreeMap String Bytes).insert "record" [2]⟩

/-- Two rotations and a recovery. -/
def sampleManager : Manager where
  grants _ := "grant"
  workload
    | 0 => .rotate .ordinary 1 fun _ => .ok (sampleGeneration 1)
    | 1 => .recover .ordinary
    | _ => .rotate .ordinary 2 fun _ => .ok (sampleGeneration 2)

/-- What a rotation makes of the store. -/
def afterRotation (me : ManagerCallId) (id : GenerationId) (store : Store) : Store :=
  let generation := sampleGeneration id
  let looked := (store.setGuard .ordinary (some me)).record (.looked me .ordinary)
  let staged := (looked.stage generation).record (.staged me generation)
  let completed := (staged.finish generation.manifest).record
    (.completed me generation.manifest)
  ((completed.choose .ordinary id).record (.selected me .ordinary id)).setGuard
    .ordinary none

theorem sampleGeneration_accepted
    (id : GenerationId) :
    (sampleGeneration id).Accepted .ordinary id "key" := by
  refine ⟨rfl, rfl, rfl, by simp [sampleGeneration], rfl, ?_⟩
  simp [sampleGeneration]

/-- An undisturbed rotation above the head selects its generation. -/
theorem rotation_runs
    (me : ManagerCallId)
    {id : GenerationId}
    {store : Store}
    (free : store.guard .ordinary = none)
    (sane : store.poisoned .ordinary = false)
    (above : ∀ head, store.selected .ordinary = some head → ¬ id ≤ head) :
    Runs (StoreExec me)
      (managerProgram sampleManager.grants
        (.rotate .ordinary id fun _ => .ok (sampleGeneration id))) store
      (.ok (.rotated (sampleGeneration id) ⟨"receipt", "create", "key"⟩))
      (afterRotation me id store) := by
  have accepted := sampleGeneration_accepted id
  have advances : ¬ ∃ head ∈ store.selected .ordinary, id ≤ head := by
    rintro ⟨head, found, below⟩
    exact above head found below
  apply Runs.call (.lock free sane)
  apply Runs.call .selected
  simp only [Store.setGuard, advances, if_false]
  apply Runs.call (.create (.ok ("key", ⟨"receipt", "create", "key"⟩)))
  simp only [Program.ofExcept_ok, Program.ret_bind, accepted, if_true]
  apply Runs.call .stage
  apply Runs.call .finish
  have present (before : Store) :
      id ∈ ((before.finish (sampleGeneration id).manifest).record
        (.completed me (sampleGeneration id).manifest)).complete .ordinary := by
    simp [Store.finish, Store.record, sampleGeneration]
  apply Runs.call (.select (present _))
  exact .call .unlock (.ret _ _)

/-- A recovery that pauses before its selection rolls the head back. -/
theorem paused_recovery_rolls_back :
    ∃ system next, Manager.Steps sampleManager.initial system ∧
      Manager.Step system next ∧ ¬ system.world.Advances next.world := by
  have above : ∀ head, (afterRotation 0 1 .new).selected .ordinary = some head →
      ¬ (2 : GenerationId) ≤ head := by
    rintro _ ⟨⟩
    decide
  have rotated : Manager.Steps sampleManager.initial _ :=
    System.Steps.of_runs rfl (rotation_runs 0 rfl rfl (by nofun))
  have listed := rotated.tail (.issue rfl (.staged : StoreExec 1 _ _ _ _))
  have checked := listed.tail (.issue rfl (.complete : StoreExec 1 _ _ _ _))
  have paused := checked.tail (.issue rfl (.complete : StoreExec 1 _ _ _ _))
  have overtaken := paused.trans
    (System.Steps.of_runs rfl (rotation_runs 2 rfl rfl above))
  have resumed :=
    overtaken.tail (.issue rfl (.selected : StoreExec 1 _ _ _ _))
  refine ⟨_, _, resumed, .issue rfl
    (.select ?complete : StoreExec 1 (.select .ordinary 1) _ _ _), fun advances => ?_⟩
  case complete => decide
  obtain ⟨head, now, below⟩ := advances .ordinary 2 rfl
  cases now
  exact absurd below (by decide)

end Overtaking

end SimStorage.Sealed
