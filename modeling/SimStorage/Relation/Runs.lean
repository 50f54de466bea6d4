import Mathlib.Data.List.TakeWhile
import SimStorage.Relation.Views
import SimStorage.Table.Reference

namespace SimStorage.Relation

/-!
# Runs of mutations through views

The world is the shared relation with every view given out so far and the id
of the directory that it was given out for.  A run whose steps put no node
where a view leads, and no name beside a directory written like it, keeps the
tree and the views.
-/

open Codec Table Interaction

variable {Value Expr Head σ α : Type}

section Definitions

/-- The relation, and the views given out with the ids of their directories. -/
structure World (Value Head σ : Type) where
  shared : Shared Value σ
  views : List (RelationDir Value Head × Nat)

/-- The calls that mutate the relation or give out a view. -/
inductive Call (Value Head : Type) where
  | set (key : Symbol) (value : Value)
  | del (key : Symbol)
  | clear
  | mkdir (name : Symbol)
  | rmdir (name : Symbol)
  | opendir (name : Symbol)
  | resolve (path : List String)
  | withHead (head : Head)

/-- A call in a context through a view that was given out for a directory. -/
structure Step (Value Head : Type) where
  cx : Cx
  view : RelationDir Value Head
  id : Nat
  call : Call Value Head

/-- The world of `open`: the root and its view. -/
def World.opened (codec : RelationValueCodec Value) (tables : σ) :
    World Value Head σ where
  shared := { state := .opened codec, tables }
  views := [({ path := [], codec, head := none }, 0)]

/-- The id that a path leads to. -/
def State.idAt (state : State Value) (path : List String) : Nat :=
  (Walk.walk state.next 0 path).getD 0

/-- The id of a child that a path leads to. -/
def State.childIdAt (state : State Value) (path : List String)
    (name : Symbol) : Nat :=
  ((state.child (state.idAt path) name).map Node.id).getD 0

variable (outside : Outside Value Expr Head σ)

/-- The world after a call, with the views that it gives out. -/
def World.after (world : World Value Head σ) (call : Calling Value σ α)
    (given : α → List (RelationDir Value Head × Nat)) : World Value Head σ :=
  match call world.shared with
  | .ok value shared => ⟨shared, given value ++ world.views⟩
  | .error _ shared => ⟨shared, world.views⟩

/-- The world after a step; a clone of a view is the same view. -/
def Step.perform (step : Step Value Head) (world : World Value Head σ) :
    World Value Head σ :=
  let state := world.shared.state
  match step.call with
  | .set key value =>
      world.after (step.view.set outside step.cx key value) fun _ => []
  | .del key => world.after (step.view.del outside step.cx key) fun _ => []
  | .clear => world.after (step.view.clear outside step.cx) fun _ => []
  | .mkdir name =>
      world.after (step.view.mkdir outside step.cx name)
        fun child => [(child, state.nextId)]
  | .rmdir name =>
      world.after (step.view.rmdir outside step.cx name) fun _ => []
  | .opendir name =>
      world.after (step.view.opendir step.cx name) fun found =>
        found.toList.map fun child =>
          (child, state.childIdAt step.view.path name)
  | .resolve path =>
      world.after (step.view.resolve outside path)
        fun found => [(found, state.idAt path)]
  | .withHead head =>
      { world with views := (step.view.withHead head, step.id) :: world.views }

/-- What a run reaches when all its steps are allowed. -/
inductive Reached (codec : RelationValueCodec Value) (tables : σ)
    (allowed : World Value Head σ → Step Value Head → Prop) :
    World Value Head σ → Prop where
  | opened : Reached codec tables allowed (.opened codec tables)
  | step {world : World Value Head σ} (step : Step Value Head) :
      Reached codec tables allowed world → (step.view, step.id) ∈ world.views →
        allowed world step →
          Reached codec tables allowed (step.perform outside world)

/-- The plan that a call executes. -/
def Step.plan (step : Step Value Head) : Option (Plan Value) :=
  match step.call with
  | .set key value =>
      (step.view.codec.encode value).toOption.map
        (.set step.view.path key value)
  | .del key => some (.delete step.view.path key)
  | .clear => some (.clear step.view.path)
  | .mkdir name => some (.mkdir step.view.path name)
  | .rmdir name => some (.rmdir step.view.path name)
  | _ => none

/--
Under the node, the plan puts no new name where a view leads, makes no
directory beside a name written like it, and removes no directory that is
beside one.
-/
def Plan.Keeps (isLegal : String → Bool) (state : State Value)
    (views : List (RelationDir Value Head × Nat)) (parent : Nat) :
    Plan Value → Prop
  | .set _ name _ _ =>
      isLegal name.name = true → state.next parent name.name = none →
        ∀ view ∈ views, ¬ state.LeadsTo view.1.path parent name.name
  | .mkdir _ name =>
      isLegal name.name = true → state.child parent name = none →
        state.next parent name.name = none ∧
          ∀ view ∈ views, ¬ state.LeadsTo view.1.path parent name.name
  | .rmdir _ name =>
      ∀ node ∈ state.nodes, node.parent = parent → node.name = name →
        node.kind = .dir → state.Leaf node →
          ∀ other ∈ state.nodes, other.parent = parent →
            other.name.name = name.name → other = node
  | _ => True

/-- The step's plan, when it is granted and resolves, keeps the views. -/
def Step.Keeps (isLegal : String → Bool) (world : World Value Head σ)
    (step : Step Value Head) : Prop :=
  authorize step.cx relationTableWriteCapability = .ok () →
    ∀ plan, step.plan = some plan → ∀ parent,
      world.shared.state.resolveId plan.path = .ok parent →
        plan.Keeps isLegal world.shared.state world.views parent

/-- The relation is a tree, and every view leads to its directory or nowhere. -/
structure Kept (views : List (RelationDir Value Head × Nat))
    (state : State Value) : Prop where
  tree : state.IsTree
  first : state.DirsFirst
  follows : ∀ view ∈ views, state.Follows view.1.path view.2

end Definitions

variable {outside : Outside Value Expr Head σ}
variable {codec : RelationValueCodec Value} {isLegal : String → Bool}
variable {state after : State Value} {plan : Plan Value} {parent : Nat}
variable {views : List (RelationDir Value Head × Nat)}
variable {node : Node Value} {path : List String} {id : Nat}

section Changes

/-- A node with the next id comes last. -/
theorem State.IsTree.insertNode
    (tree : state.IsTree)
    (fresh : node.id = state.nextId) :
    ({ state with nextId := state.nextId + 1 } : State Value).insertNode node =
      state.appendNode node := by
  have before : ∀ old ∈ state.nodes, decide (old.id < node.id) = true := by
    intro old member
    rw [fresh]
    exact decide_eq_true (tree.bounded old member)
  have all : state.nodes.takeWhile (fun old => decide (old.id < node.id)) =
      state.nodes :=
    List.takeWhile_eq_self_iff.mpr before
  have rest : state.nodes.dropWhile (fun old => decide (old.id ≤ node.id)) =
      [] := by
    rw [List.dropWhile_eq_nil_iff]
    intro old member
    rw [fresh]
    exact decide_eq_true (Nat.le_of_lt (tree.bounded old member))
  simp only [State.insertNode, State.appendNode, all, rest]

theorem State.DirsFirst.appendNode
    (tree : state.IsTree)
    (first : state.DirsFirst)
    (fresh : node.id = state.nextId)
    (alone : node.kind = .dir →
      state.next node.parent node.name.name = none) :
    (state.appendNode node).DirsFirst := by
  intro dir dirIn isDir other otherIn sibling written
  rcases List.mem_append.mp dirIn with old | isNew
  · rcases List.mem_append.mp otherIn with otherOld | otherNew
    · exact first dir old isDir other otherOld sibling written
    · rw [List.mem_singleton.mp otherNew, fresh]
      exact Nat.le_of_lt (tree.bounded dir old)
  · rw [List.mem_singleton.mp isNew] at isDir sibling written ⊢
    rcases List.mem_append.mp otherIn with otherOld | otherNew
    · exact absurd written
        (State.next_none_iff.mp (alone isDir) other otherOld sibling)
    · rw [List.mem_singleton.mp otherNew]

theorem State.DirsFirst.filterNodes
    (first : state.DirsFirst)
    (keep : Node Value → Bool) :
    (state.filterNodes keep).DirsFirst :=
  fun dir dirIn isDir node nodeIn =>
    first dir (List.mem_filter.mp dirIn).1 isDir node
      (List.mem_filter.mp nodeIn).1

theorem State.DirsFirst.mapNodes
    {change : Node Value → Node Value}
    (first : state.DirsFirst)
    (outlines : Outlines change) :
    (state.mapNodes change).DirsFirst := by
  intro dir dirIn isDir other otherIn sibling written
  obtain ⟨old, inNodes, rfl⟩ := List.mem_map.mp dirIn
  obtain ⟨found, foundIn, rfl⟩ := List.mem_map.mp otherIn
  obtain ⟨sameId, sameParent, sameName, sameKind⟩ := outlines old
  obtain ⟨foundId, foundParent, foundName, _⟩ := outlines found
  rw [sameId, foundId]
  rw [sameKind] at isDir
  rw [sameParent, foundParent] at sibling
  rw [sameName, foundName] at written
  exact first old inNodes isDir found foundIn sibling written

/-- Nodes without children may go, directories when nothing is beside them. -/
theorem Kept.filterNodes
    {keep : Node Value → Bool}
    (kept : Kept views state)
    (leaves : ∀ node ∈ state.nodes, keep node = false → state.Leaf node)
    (alone : ∀ node ∈ state.nodes, keep node = false → node.kind = .dir →
      ∀ other ∈ state.nodes, other.parent = node.parent →
        other.name.name = node.name.name → other = node) :
    Kept views (state.filterNodes keep) where
  tree := kept.tree.filterNodes leaves
  first := kept.first.filterNodes keep
  follows view member :=
    (kept.follows view member).filterNodes kept.tree kept.first leaves alone

theorem Kept.appendNode
    (kept : Kept views state)
    (fresh : node.id = state.nextId)
    (holder : ∃ holder ∈ state.nodes, holder.id = node.parent ∧
      holder.kind = .dir)
    (named : state.child node.parent node.name = none)
    (alone : node.kind = .dir →
      state.next node.parent node.name.name = none)
    (apart : state.next node.parent node.name.name = none → ∀ view ∈ views,
      ¬ state.LeadsTo view.1.path node.parent node.name.name) :
    Kept views (state.appendNode node) where
  tree := kept.tree.appendNode fresh holder fun other member sibling =>
    State.child_none named member sibling
  first := kept.first.appendNode kept.tree fresh alone
  follows view member := by
    obtain ⟨above, inNodes, holds, _⟩ := holder
    exact (kept.follows view member).appendNode kept.tree fresh
      (holds ▸ kept.tree.bounded above inNodes)
      fun missing => apart missing view member

/-- The generation is no part of the tree. -/
theorem Kept.withGeneration
    (kept : Kept views state)
    (generation : Nat) :
    Kept views { state with generation } where
  tree := ⟨kept.tree.ordered, kept.tree.bounded, kept.tree.root,
    kept.tree.parent, kept.tree.siblings⟩
  first := kept.first
  follows view member := by
    cases kept.follows view member with
    | live inNodes same isDir leads => exact .live inNodes same isDir leads
    | gone missing bounded leads => exact .gone missing bounded leads

/-- Where a view leads is a directory. -/
theorem Kept.holder
    {view : RelationDir Value Head × Nat}
    (kept : Kept views state)
    (given : view ∈ views)
    (leads : Walk.walk state.next 0 view.1.path = some parent) :
    parent = view.2 ∧
      ∃ holder ∈ state.nodes, holder.id = parent ∧ holder.kind = .dir := by
  cases kept.follows view given with
  | live inNodes same isDir led =>
      cases led.symm.trans leads
      exact ⟨rfl, _, inNodes, same, isDir⟩
  | gone missing bounded led =>
      cases led.symm.trans leads

/-- A change that keeps the views keeps the tree, and shows a new directory. -/
theorem Changed.kept
    (changed : Changed isLegal codec state parent plan after)
    (kept : Kept views state)
    (holder : ∃ holder ∈ state.nodes, holder.id = parent ∧ holder.kind = .dir)
    (leads : Walk.walk state.next 0 plan.path = some parent)
    (keeps : plan.Keeps isLegal state views parent) :
    Kept views after ∧ ∀ path name, plan = .mkdir path name →
      after.Follows (path ++ [name.name]) state.nextId := by
  have below : parent < state.nextId := by
    obtain ⟨above, inNodes, rfl, _⟩ := holder
    exact kept.tree.bounded above inNodes
  cases changed with
  | @updated path name value bytes node legal found isValue =>
      have outlines : Outlines fun old : Node Value =>
          if old.id = node.id then
            { old with bytes, codec := codec.identity, value }
          else
            old := by
        intro old
        by_cases same : old.id = node.id <;> simp [same]
      refine ⟨⟨kept.tree.mapNodes outlines, kept.first.mapNodes outlines,
        fun view member => (kept.follows view member).mapNodes outlines⟩, ?_⟩
      intro path name impossible
      cases impossible
  | addedValue legal absent fits =>
      rw [kept.tree.insertNode rfl]
      refine ⟨kept.appendNode rfl holder absent (fun isDir => ?_)
        fun missing => keeps legal missing, ?_⟩
      · cases isDir
      · intro path name impossible
        cases impossible
  | deleted found isValue =>
      obtain ⟨member, _, _⟩ := State.child_some found
      refine ⟨kept.filterNodes ?_ ?_, ?_⟩
      · intro other inNodes dropped
        have same := kept.tree.eq_of_id inNodes member (by simpa using dropped)
        exact same ▸ kept.tree.value_leaf member isValue
      · intro other inNodes dropped isDir
        have same := kept.tree.eq_of_id inNodes member (by simpa using dropped)
        rw [same, isValue] at isDir
        cases isDir
      · intro path name impossible
        cases impossible
  | @addedDir path name legal absent fits =>
      obtain ⟨missing, apart⟩ := keeps legal absent
      rw [kept.tree.insertNode rfl]
      refine ⟨kept.appendNode rfl holder absent (fun _ => missing)
        fun _ => apart, ?_⟩
      intro found given same
      cases same
      exact State.Follows.appended kept.tree rfl below rfl missing leads
  | @removed path name node found notRoot isDir empty =>
      obtain ⟨member, sibling, named⟩ := State.child_some found
      have leaf := kept.tree.empty_leaf member notRoot empty
      refine ⟨kept.filterNodes ?_ ?_, ?_⟩
      · intro other inNodes dropped
        have same := kept.tree.eq_of_id inNodes member (by simpa using dropped)
        exact same ▸ leaf
      · intro other inNodes dropped _ beside besideIn besideSibling written
        have same := kept.tree.eq_of_id inNodes member (by simpa using dropped)
        rw [same] at besideSibling written ⊢
        exact keeps node member sibling named isDir leaf beside besideIn
          (besideSibling.trans sibling) (written.trans (congrArg _ named))
      · intro path name impossible
        cases impossible
  | cleared =>
      have values : ∀ node ∈ state.nodes,
          decide (¬ (node.parent = parent ∧ node.kind = .value)) = false →
            node.kind = .value := by
        intro node member dropped
        simp only [decide_eq_false_iff_not, not_not] at dropped
        exact dropped.2
      refine ⟨kept.filterNodes ?_ ?_, ?_⟩
      · intro node member dropped
        exact kept.tree.value_leaf member (values node member dropped)
      · intro node member dropped isDir
        rw [values node member dropped] at isDir
        cases isDir
      · intro path name impossible
        cases impossible

end Changes

section Steps

variable {shared later : Shared Value σ} {world : World Value Head σ}
variable {view : RelationDir Value Head} {cx : Cx} {name : Symbol}
variable {step : Step Value Head}

/-- Only a removal finds nothing to do. -/
theorem Plan.apply_none
    (applied : plan.apply outside codec state = .ok none) :
    ∃ path name parent, plan = .delete path name ∧
      state.resolveId path = .ok parent ∧ state.child parent name = none := by
  obtain ⟨parent, resolved, applied⟩ := bind_ok_iff.mp applied
  cases plan with
  | delete path name =>
      simp only at applied
      split at applied
      next absent => exact ⟨path, name, parent, rfl, resolved, absent⟩
      next => split at applied <;> cases applied
  | clear path => cases applied
  | set path name value bytes =>
      simp only at applied
      split at applied
      next => cases applied
      next =>
        split at applied
        next => split at applied <;> cases applied
        next =>
          obtain ⟨made, _, ends⟩ := bind_ok_iff.mp applied
          cases ends
  | mkdir path name =>
      simp only at applied
      split at applied
      next => cases applied
      next =>
        split at applied
        next => cases applied
        next =>
          obtain ⟨made, _, ends⟩ := bind_ok_iff.mp applied
          cases ends
  | rmdir path name =>
      simp only at applied
      split at applied
      next => cases applied
      next =>
        split at applied
        next => cases applied
        next =>
          split at applied
          next => cases applied
          next => split at applied <;> cases applied

/-- A mutation that keeps the views keeps the tree, whatever it returns. -/
theorem execute_kept
    {outcome : Except Failure (Option Value)}
    (executed : Yields (view.execute outside cx plan) shared outcome later)
    (kept : Kept views shared.state)
    (given : (view, id) ∈ views)
    (under : plan.path = view.path)
    (keeps : authorize cx relationTableWriteCapability = .ok () → ∀ parent,
      shared.state.resolveId plan.path = .ok parent →
        plan.Keeps outside.isLegal shared.state views parent) :
    Kept views later.state ∧
      ∀ result, outcome = .ok result → ∀ path name, plan = .mkdir path name →
        later.state.Follows (path ++ [name.name]) shared.state.nextId := by
  rcases execute_cases executed with
    ⟨failure, rfl, fails⟩ | ⟨applied, rfl, rfl⟩ |
      ⟨state, result, tables, granted, applied, rfl, _, _, rfl⟩
  · have same : later.state = shared.state :=
      fails.elim (congrArg Shared.state) publish_state
    rw [same]
    refine ⟨kept, fun result impossible => ?_⟩
    cases impossible
  · refine ⟨kept, fun _ _ path name isMkdir => ?_⟩
    obtain ⟨_, _, _, isDelete, _⟩ := Plan.apply_none applied
    cases isMkdir.symm.trans isDelete
  · obtain ⟨parent, resolved, changed⟩ := Plan.apply_changed applied
    have leads := State.resolveId_ok_iff.mp resolved
    rw [under] at leads
    obtain ⟨_, holder⟩ := kept.holder given leads
    obtain ⟨after, shows⟩ := changed.kept kept holder (under ▸ leads)
      (keeps granted parent resolved)
    refine ⟨after.withGeneration _, fun _ _ path name isMkdir => ?_⟩
    cases shows path name isMkdir with
    | live inNodes same isDir led => exact .live inNodes same isDir led
    | gone missing bounded led => exact .gone missing bounded led

theorem State.idAt_of_resolved
    (resolved : state.resolveId path = .ok id) :
    state.idAt path = id := by
  rw [State.idAt, State.resolveId_ok_iff.mp resolved]
  rfl

/-- A view of a child is opened for the directory that it leads to. -/
theorem opendir_cases
    {outcome : Except Failure (Option (RelationDir Value Head))}
    (opened : Yields (view.opendir cx name) shared outcome later) :
    later = shared ∧ ∀ child, outcome = .ok (some child) →
      child = view.below name ∧ ∃ parent node,
        shared.state.resolveId view.path = .ok parent ∧
          shared.state.child parent name = some node ∧ node.kind = .dir := by
  rw [Yields, RelationDir.opendir] at opened
  cases allowed : authorize cx relationTableReadCapability with
  | error failure =>
      simp [RelationDir.reading, allowed] at opened
      cases outcome <;> simp [settle] at opened
      exact ⟨opened.2.symm, by simp⟩
  | ok _ =>
      cases resolved : shared.state.resolveId view.path with
      | error failure =>
          simp [RelationDir.reading, allowed, resolved] at opened
          cases outcome <;> simp [settle] at opened
          exact ⟨opened.2.symm, by simp⟩
      | ok parent =>
          cases found : shared.state.child parent name with
          | none =>
              simp [RelationDir.reading, allowed, resolved, found] at opened
              cases outcome <;> simp [settle] at opened
              refine ⟨opened.2.symm, fun child same => ?_⟩
              rw [← opened.1] at same
              cases same
          | some node =>
              by_cases isDir : node.kind = .dir
              · simp [RelationDir.reading, allowed, resolved, found, isDir]
                  at opened
                cases outcome <;> simp [settle] at opened
                refine ⟨opened.2.symm, fun child same => ?_⟩
                rw [← opened.1] at same
                cases same
                exact ⟨rfl, parent, node, rfl, found, isDir⟩
              · simp [RelationDir.reading, allowed, resolved, found, isDir]
                  at opened
                cases outcome <;> simp [settle] at opened
                exact ⟨opened.2.symm, by simp⟩

/-- A table path is resolved to the directory that it leads to. -/
theorem resolve_cases
    {outcome : Except Failure (RelationDir Value Head)}
    (found : Yields (view.resolve outside path) shared outcome later) :
    later = shared ∧ ∀ child, outcome = .ok child →
      child.path = path ∧ ∃ node ∈ shared.state.nodes,
        shared.state.resolveId path = .ok node.id ∧ node.kind = .dir := by
  rw [Yields, RelationDir.resolve] at found
  by_cases legal : path.all outside.isLegal = false
  · simp [legal] at found
    cases outcome <;> simp [settle] at found
    exact ⟨found.2.symm, by simp⟩
  · cases resolved : shared.state.resolveId path with
    | error failure =>
        simp [legal, resolved] at found
        cases outcome <;> simp [settle] at found
        exact ⟨found.2.symm, by simp⟩
    | ok id =>
        by_cases stored : ∃ node ∈ shared.state.nodes,
            node.id = id ∧ node.kind = .dir
        · simp [legal, resolved, stored] at found
          cases outcome <;> simp [settle] at found
          refine ⟨found.2.symm, fun child same => ?_⟩
          rw [← found.1] at same
          cases same
          obtain ⟨node, member, rfl, isDir⟩ := stored
          exact ⟨rfl, node, member, rfl, isDir⟩
        · simp [legal, resolved, stored] at found
          cases outcome <;> simp [settle] at found
          exact ⟨found.2.symm, by simp⟩

theorem lift_ok
    {outcome : Except Error α} {value : α}
    (lifted : lift outcome = .ok value) :
    outcome = .ok value := by
  cases outcome with
  | error error => cases lifted
  | ok found =>
      cases lifted
      rfl

/-- A call that keeps the views leaves a world that is kept. -/
theorem after_kept
    {call : Calling Value σ α}
    {made : α → List (RelationDir Value Head × Nat)}
    (called : ∀ outcome later, Yields call world.shared outcome later →
      Kept world.views later.state ∧ ∀ value, outcome = .ok value →
        ∀ view ∈ made value, later.state.Follows view.1.path view.2) :
    Kept (world.after call made).views (world.after call made).shared.state := by
  obtain ⟨outcome, later, yields⟩ := Yields.total call world.shared
  obtain ⟨kept, new⟩ := called outcome later yields
  rw [Yields] at yields
  rw [World.after, yields]
  cases outcome with
  | error failure => exact kept
  | ok value =>
      exact ⟨kept.tree, kept.first, fun view member =>
        (List.mem_append.mp member).elim (new value rfl view)
          (kept.follows view)⟩

/-- A step that keeps the views leaves a world that is kept. -/
theorem perform_kept
    (kept : Kept world.views world.shared.state)
    (given : (step.view, step.id) ∈ world.views)
    (keeps : step.Keeps outside.isLegal world) :
    Kept (step.perform outside world).views
      (step.perform outside world).shared.state := by
  obtain ⟨cx, view, id, call⟩ := step
  cases call with
  | set key value =>
      refine after_kept fun outcome later called => ?_
      rcases called.bind_inv with
        ⟨bytes, middle, encodes, rest⟩ | ⟨_, stops, fails⟩
      · obtain ⟨encoded, rfl⟩ := encodes.ofExcept_inv
        obtain ⟨found, executed⟩ := rest.of_discard
        have plans : view.codec.encode value = .ok bytes :=
          lift_ok encoded.symm
        exact ⟨(execute_kept executed kept given rfl fun granted =>
          keeps granted _ (by simp [Step.plan, plans, Except.toOption])).1,
          by simp⟩
      · rw [stops.ofExcept_inv.2]
        exact ⟨kept, by simp⟩
  | del key =>
      refine after_kept fun outcome later called => ?_
      rcases called.bind_inv with
        ⟨found, middle, executed, rest⟩ | ⟨_, executed, fails⟩
      · have after := execute_kept executed kept given rfl fun granted =>
          keeps granted _ rfl
        cases found with
        | none =>
            rw [rest.ofExcept_inv.2]
            exact ⟨after.1, by simp⟩
        | some value =>
            rw [← ((Yields.pure value middle).unique rest).2]
            exact ⟨after.1, by simp⟩
      · exact ⟨(execute_kept executed kept given rfl fun granted =>
          keeps granted _ rfl).1, by simp⟩
  | clear =>
      refine after_kept fun outcome later called => ?_
      obtain ⟨found, executed⟩ := called.of_discard
      exact ⟨(execute_kept executed kept given rfl fun granted =>
        keeps granted _ rfl).1, by simp⟩
  | mkdir name =>
      refine after_kept fun outcome later called => ?_
      rcases called.bind_inv with
        ⟨_, middle, discards, rest⟩ | ⟨_, discards, fails⟩
      · obtain ⟨found, executed⟩ := discards.of_discard
        have after := execute_kept executed kept given rfl fun granted =>
          keeps granted _ rfl
        obtain ⟨rfl, rfl⟩ := (Yields.pure (view.below name) middle).unique rest
        refine ⟨after.1, fun value same shown member => ?_⟩
        cases same
        rw [List.mem_singleton.mp member]
        cases found with
        | ok result => exact after.2 result rfl _ _ rfl
        | error failure => cases (executed.discard_error.unique discards).1
      · obtain ⟨found, executed⟩ := discards.of_discard
        rw [fails]
        exact ⟨(execute_kept executed kept given rfl fun granted =>
          keeps granted _ rfl).1, by simp⟩
  | rmdir name =>
      refine after_kept fun outcome later called => ?_
      rcases called.bind_inv with
        ⟨_, middle, discards, rest⟩ | ⟨_, discards, fails⟩
      · obtain ⟨found, executed⟩ := discards.of_discard
        rw [rest.ofExcept_inv.2]
        exact ⟨(execute_kept executed kept given rfl fun granted =>
          keeps granted _ rfl).1, by simp⟩
      · obtain ⟨found, executed⟩ := discards.of_discard
        exact ⟨(execute_kept executed kept given rfl fun granted =>
          keeps granted _ rfl).1, by simp⟩
  | opendir name =>
      refine after_kept fun outcome later called => ?_
      obtain ⟨rfl, opens⟩ := opendir_cases called
      refine ⟨kept, fun value same shown member => ?_⟩
      obtain ⟨child, isChild, rfl⟩ := List.mem_map.mp member
      rw [Option.mem_toList.mp isChild] at same
      obtain ⟨rfl, parent, node, resolved, found, isDir⟩ := opens child same
      obtain ⟨inNodes, sibling, named⟩ := State.child_some found
      have leads := kept.tree.next_of_first inNodes (kept.first node inNodes isDir)
      have path := State.resolveId_ok_iff.mp resolved
      refine .live inNodes ?_ isDir ?_
      · simp [State.childIdAt, State.idAt_of_resolved resolved, found]
      · simp only [RelationDir.below, State.childIdAt,
          State.idAt_of_resolved resolved, found, Option.map_some,
          Option.getD_some]
        rw [Walk.walk_concat, path, Option.bind_some, ← named, ← sibling, leads]
  | resolve path =>
      refine after_kept fun outcome later called => ?_
      obtain ⟨rfl, finds⟩ := resolve_cases called
      refine ⟨kept, fun value same shown member => ?_⟩
      obtain ⟨rfl, node, inNodes, resolved, isDir⟩ := finds value same
      rw [List.mem_singleton.mp member]
      refine .live inNodes (State.idAt_of_resolved resolved).symm isDir ?_
      simp only [State.idAt_of_resolved resolved]
      exact State.resolveId_ok_iff.mp resolved
  | withHead head =>
      have same : world.shared.state.Follows (view.withHead head).path id :=
        kept.follows (view, id) given
      refine ⟨kept.tree, kept.first, fun shown member => ?_⟩
      rcases List.mem_cons.mp member with rfl | old
      · exact same
      · exact kept.follows shown old

end Steps

section Reached

variable {world : World Value Head σ} {tables : σ} {shared : Shared Value σ}
variable {view : RelationDir Value Head} {cx : Cx} {key : Symbol}

/-- A fresh relation is a tree with a view of its root. -/
theorem opened_kept
    (codec : RelationValueCodec Value) (tables : σ) :
    Kept (World.opened codec tables : World Value Head σ).views
      (World.opened codec tables : World Value Head σ).shared.state where
  tree := {
    ordered := List.pairwise_singleton _ _
    bounded := fun node member => by
      rw [List.mem_singleton.mp member]
      exact Nat.zero_lt_one
    root := ⟨_, List.mem_singleton.mpr rfl, rfl, rfl, rfl, rfl⟩
    parent := fun node member notRoot => by
      rw [List.mem_singleton.mp member] at notRoot
      exact absurd rfl notRoot
    siblings := fun first firstIn second secondIn _ _ => by
      rw [List.mem_singleton.mp firstIn, List.mem_singleton.mp secondIn] }
  first dir dirIn isDir node nodeIn _ _ := by
    rw [List.mem_singleton.mp dirIn]
    exact Nat.zero_le _
  follows view member := by
    rw [List.mem_singleton.mp member]
    exact .live (List.mem_singleton.mpr rfl) rfl rfl rfl

/-- A run that keeps the views reaches worlds that are kept. -/
theorem Reached.kept
    (reached : Reached outside codec tables
      (fun world step => step.Keeps outside.isLegal world) world) :
    Kept world.views world.shared.state := by
  induction reached with
  | opened => exact opened_kept codec tables
  | step step _ given keeps inductionHypothesis =>
      exact perform_kept inductionHypothesis given keeps

/-- What a view of a directory lists are its children. -/
theorem keys_yields
    (granted : authorize cx relationTableReadCapability = .ok ())
    (resolved : shared.state.resolveId view.path = .ok parent) :
    Yields (view.keys cx) shared
      (.ok ((shared.state.nodes.filter fun node =>
        node.parent = parent ∧ node.id ≠ parent).map Node.name).eraseDups)
      shared := by
  simp [yields_ok, RelationDir.keys, RelationDir.reading, granted, resolved]

theorem has_yields
    (granted : authorize cx relationTableReadCapability = .ok ())
    (resolved : shared.state.resolveId view.path = .ok parent) :
    Yields (view.has cx key) shared
      (.ok (shared.state.child parent key).isSome) shared := by
  simp [yields_ok, RelationDir.has, RelationDir.reading, granted, resolved]

/-- A view has the names that it lists, and the root has its own as well. -/
theorem State.IsTree.listed_iff
    (tree : state.IsTree) :
    ((key ∈ ((state.nodes.filter fun node =>
        node.parent = parent ∧ node.id ≠ parent).map Node.name).eraseDups ↔
      (state.child parent key).isSome = true) ↔
        ¬ (parent = 0 ∧ key = .new "")) := by
  obtain ⟨root, rootIn, rootId, rootParent, rootName, rootDir⟩ := tree.root
  have present : (state.child parent key).isSome = true ↔
      ∃ node ∈ state.nodes, node.parent = parent ∧ node.name = key := by
    simp [State.child]
  have listed : key ∈ ((state.nodes.filter fun node =>
      node.parent = parent ∧ node.id ≠ parent).map Node.name).eraseDups ↔
      ∃ node ∈ state.nodes, node.parent = parent ∧ node.id ≠ parent ∧
        node.name = key := by
    simp [and_assoc]
  rw [listed, present]
  constructor
  · rintro agree ⟨rfl, rfl⟩
    obtain ⟨node, member, sibling, notRoot, named⟩ :=
      agree.mpr ⟨root, rootIn, rootParent, rootName⟩
    have same := tree.siblings node member root rootIn
      (sibling.trans rootParent.symm) (named.trans rootName.symm)
    exact notRoot (same ▸ rootId)
  · intro notRoot
    constructor
    · rintro ⟨node, member, sibling, _, named⟩
      exact ⟨node, member, sibling, named⟩
    · rintro ⟨node, member, sibling, named⟩
      refine ⟨node, member, sibling, fun own => notRoot ?_, named⟩
      by_cases isRoot : node.id = 0
      · have same := tree.eq_of_id member rootIn (isRoot.trans rootId.symm)
        exact ⟨own.symm.trans isRoot, named.symm.trans (same ▸ rootName)⟩
      · exact absurd (sibling.trans own.symm)
          (Nat.ne_of_lt (tree.parent node member isRoot).1)

/--
A run that keeps the views reaches trees, in which every view fails or works on
the directory that it was given out for.
-/
theorem kept_relations_are_trees
    (reached : Reached outside codec tables
      (fun world step => step.Keeps outside.isLegal world) world) :
    world.shared.state.IsTree ∧
      (∀ node ∈ world.shared.state.nodes,
        world.shared.state.Reachable node.id) ∧
      ∀ view ∈ world.views,
        (∃ failure,
          world.shared.state.resolveId view.1.path = .error failure) ∨
        (world.shared.state.resolveId view.1.path = .ok view.2 ∧
          (∃ node ∈ world.shared.state.nodes,
            node.id = view.2 ∧ node.kind = .dir) ∧
          ∀ cx, authorize cx relationTableReadCapability = .ok () →
            ∃ listed, Yields (view.1.keys cx) world.shared (.ok listed)
                world.shared ∧
              ∀ key, ∃ present, Yields (view.1.has cx key) world.shared
                  (.ok present) world.shared ∧
                ((key ∈ listed ↔ present = true) ↔
                  ¬ (view.2 = 0 ∧ key = .new ""))) := by
  have kept := reached.kept
  refine ⟨kept.tree, fun node member => kept.tree.reachable member,
    fun view member => ?_⟩
  cases kept.follows view member with
  | live inNodes same isDir leads =>
      have resolved := State.resolveId_ok_iff.mpr leads
      exact .inr ⟨resolved, ⟨_, inNodes, same, isDir⟩, fun cx granted =>
        ⟨_, keys_yields granted resolved, fun key =>
          ⟨_, has_yields granted resolved, kept.tree.listed_iff⟩⟩⟩
  | gone missing bounded leads =>
      exact .inl (State.resolveId_error_iff.mpr leads)

end Reached

section Samples

/-- A codec of texts. -/
def referenceCodec : RelationValueCodec (Option String) where
  identity := .qualified "codec" "test"
  encode
    | some text => .ok (utf8 text)
    | none => .error (.eval "test codec expects string")
  decode bytes :=
    match fromUtf8 bytes with
    | some text => .ok (some text)
    | none => .error (.eval "utf8")

/-- Texts, and a head slot that is the only one of its tables. -/
def referenceOutside :
    Outside (Option String) (Option String) Unit (Option (Option String)) where
  factory := referenceFactory
  text := some
  isLegal := referenceLegal
  compareExchange _ expected replacement := do
    let slot ← MonadState.get
    let observed : TableObserved (Option String) :=
      match slot with
      | some value => .value value
      | none => .absent
    let exchanged := expected.meets observed
    if exchanged then
      MonadState.set
        (match replacement with
        | .value value => some value
        | .delete => none)
    return { exchanged, observed }

/-- A call through a view of a path, with all capabilities. -/
def sampleStep (path : List String) (id : Nat)
    (call : Call (Option String) Unit) : Step (Option String) Unit where
  cx := fullCx
  view := { path, codec := referenceCodec, head := none }
  id := id
  call := call

/-- A fresh relation. -/
def sampleOpened : World (Option String) Unit (Option (Option String)) :=
  .opened referenceCodec none

/-- The root with a directory. -/
def sampleMade : World (Option String) Unit (Option (Option String)) :=
  (sampleStep [] 0 (.mkdir (.new "d"))).perform referenceOutside sampleOpened

/-- A value in the directory. -/
def sampleFilled : World (Option String) Unit (Option (Option String)) :=
  (sampleStep ["d"] 1 (.set (.new "x") (some "v"))).perform referenceOutside
    sampleMade

theorem sample_kept_relation_is_tree :
    sampleFilled.shared.state.IsTree ∧
      (∀ node ∈ sampleFilled.shared.state.nodes,
        sampleFilled.shared.state.Reachable node.id) ∧
      ∀ view ∈ sampleFilled.views,
        (∃ failure,
          sampleFilled.shared.state.resolveId view.1.path = .error failure) ∨
        (sampleFilled.shared.state.resolveId view.1.path = .ok view.2 ∧
          (∃ node ∈ sampleFilled.shared.state.nodes,
            node.id = view.2 ∧ node.kind = .dir) ∧
          ∀ cx, authorize cx relationTableReadCapability = .ok () →
            ∃ listed, Yields (view.1.keys cx) sampleFilled.shared (.ok listed)
                sampleFilled.shared ∧
              ∀ key, ∃ present, Yields (view.1.has cx key) sampleFilled.shared
                  (.ok present) sampleFilled.shared ∧
                ((key ∈ listed ↔ present = true) ↔
                  ¬ (view.2 = 0 ∧ key = .new ""))) := by
  have made : (sampleStep [] 0 (.mkdir (.new "d"))).Keeps referenceLegal
      sampleOpened := by
    intro _ plan planned parent _
    cases planned
    refine fun _ _ => ⟨?_, fun view member leads => ?_⟩
    · simp [State.next, sampleOpened, World.opened, State.opened, Symbol.new]
    · rw [List.mem_singleton.mp member] at leads
      obtain ⟨front, shape, _⟩ := leads
      cases front <;> cases shape
  have filled : (sampleStep ["d"] 1 (.set (.new "x") (some "v"))).Keeps
      referenceLegal sampleMade := by
    intro _ plan planned parent _
    cases planned
    have paths : ∀ view ∈ sampleMade.views, view.1.path.getLast? ≠ some "x" := by
      decide +kernel
    intro _ _ view member leads
    obtain ⟨front, shape, _⟩ := leads
    exact paths view member ((congrArg _ shape).trans List.getLast?_concat)
  have first : Reached referenceOutside referenceCodec none
      (fun world step => step.Keeps referenceOutside.isLegal world)
      sampleMade :=
    .step (sampleStep [] 0 (.mkdir (.new "d"))) .opened
      (List.mem_singleton.mpr rfl) made
  exact kept_relations_are_trees
    (.step (sampleStep ["d"] 1 (.set (.new "x") (some "v"))) first
      (List.mem_cons_self ..) filled)

/-- The directory is removed, and a value takes its name. -/
def sampleReplaced : World (Option String) Unit (Option (Option String)) :=
  (sampleStep [] 0 (.set (.new "d") (some "w"))).perform referenceOutside
    ((sampleStep [] 0 (.rmdir (.new "d"))).perform referenceOutside sampleMade)

/-- A value written through the view of the directory. -/
def sampleStale : World (Option String) Unit (Option (Option String)) :=
  (sampleStep ["d"] 1 (.set (.new "x") (some "v"))).perform referenceOutside
    sampleReplaced

/-- A write through the view of a replaced directory goes under a value. -/
theorem stale_view_breaks_tree :
    ¬ ∀ world : World (Option String) Unit (Option (Option String)),
      Reached referenceOutside referenceCodec none (fun _ _ => True) world →
        world.shared.state.IsTree := by
  intro trees
  have made : Reached referenceOutside referenceCodec none (fun _ _ => True)
      sampleMade :=
    .step (sampleStep [] 0 (.mkdir (.new "d"))) .opened
      (List.mem_singleton.mpr rfl) trivial
  have removed : Reached referenceOutside referenceCodec none
      (fun _ _ => True)
      ((sampleStep [] 0 (.rmdir (.new "d"))).perform referenceOutside
        sampleMade) :=
    .step (sampleStep [] 0 (.rmdir (.new "d"))) made
      (List.mem_cons_of_mem _ (List.mem_singleton.mpr rfl)) trivial
  have replaced : Reached referenceOutside referenceCodec none
      (fun _ _ => True) sampleReplaced :=
    .step (sampleStep [] 0 (.set (.new "d") (some "w"))) removed
      (List.mem_cons_of_mem _ (List.mem_singleton.mpr rfl)) trivial
  have tree := trees sampleStale
    (.step (sampleStep ["d"] 1 (.set (.new "x") (some "v"))) replaced
      (List.mem_cons_self ..) trivial)
  have loose : ∃ node ∈ sampleStale.shared.state.nodes, node.id ≠ 0 ∧
      ∀ holder ∈ sampleStale.shared.state.nodes, holder.id = node.parent →
        holder.kind ≠ .dir := by
    decide +kernel
  obtain ⟨node, member, notRoot, apart⟩ := loose
  obtain ⟨_, holder, holderIn, holds, isDir⟩ := tree.parent node member notRoot
  exact apart holder holderIn holds isDir

end Samples

end SimStorage.Relation
