import SimStorage.Interaction.Evaluation
import SimStorage.Relation.Dir
import SimStorage.Table.Walk

namespace SimStorage.Relation

/-!
# What a mutation does

A plan that applies changes the relation in the one way of its kind, under the
node that its path leads to; a mutation that returns has published and stored
that change, and one that fails has stored nothing.
-/

open Codec Table Interaction

variable {Value Expr Head σ α : Type}
variable {outside : Outside Value Expr Head σ}
variable {codec : RelationValueCodec Value}
variable {state after : State Value} {shared later : Shared Value σ}
variable {plan : Plan Value} {name : Symbol} {path : List String}
variable {node : Node Value} {parent : Nat}

namespace State

/-- Where a name leads from a node. -/
def next (state : State Value) (id : Nat) (part : String) : Option Nat :=
  (state.nodes.find? fun node =>
    node.parent = id ∧ node.name.name = part).map Node.id

theorem resolveFrom_eq
    (whole path : List String) (id : Nat) :
    state.resolveFrom whole id path =
      match Walk.walk state.next id path with
      | some id => .ok id
      | none =>
          .error (refused ("missing path /" ++ String.intercalate "/" whole)) := by
  induction path generalizing id with
  | nil => rfl
  | cons part rest inductionHypothesis =>
      rw [resolveFrom, Walk.walk_cons, next]
      cases state.nodes.find? fun node =>
        node.parent = id ∧ node.name.name = part with
      | none => rfl
      | some node => exact inductionHypothesis node.id

/-- A path resolves to the id that it leads to. -/
theorem resolveId_ok_iff
    {id : Nat} :
    state.resolveId path = .ok id ↔
      Walk.walk state.next 0 path = some id := by
  rw [resolveId, resolveFrom_eq]
  cases Walk.walk state.next 0 path <;> simp

/-- A path that leads nowhere fails. -/
theorem resolveId_error_iff :
    (∃ failure, state.resolveId path = .error failure) ↔
      Walk.walk state.next 0 path = none := by
  rw [resolveId, resolveFrom_eq]
  cases Walk.walk state.next 0 path <;> simp

theorem child_some
    (found : state.child parent name = some node) :
    node ∈ state.nodes ∧ node.parent = parent ∧ node.name = name := by
  have holds := List.find?_some found
  simp only [decide_eq_true_eq] at holds
  exact ⟨List.mem_of_find?_eq_some found, holds⟩

theorem child_none
    (absent : state.child parent name = none)
    {other : Node Value}
    (member : other ∈ state.nodes)
    (sibling : other.parent = parent) :
    other.name ≠ name := by
  have fails := List.find?_eq_none.mp absent other member
  simp only [decide_eq_true_eq, not_and] at fails
  exact fails sibling

end State

/-- A plan's change of the relation under a node. -/
inductive Changed (isLegal : String → Bool) (codec : RelationValueCodec Value)
    (state : State Value) (parent : Nat) : Plan Value → State Value → Prop where
  | updated {path : List String} {name : Symbol} {value : Value}
      {bytes : Bytes} {node : Node Value} :
      isLegal name.name = true → state.child parent name = some node →
        node.kind = .value →
          Changed isLegal codec state parent (.set path name value bytes)
            (state.updateNode node.id fun node =>
              { node with bytes, codec := codec.identity, value })
  | addedValue {path : List String} {name : Symbol} {value : Value}
      {bytes : Bytes} :
      isLegal name.name = true → state.child parent name = none →
        state.nextId + 1 < 2 ^ 64 →
          Changed isLegal codec state parent (.set path name value bytes)
            (({ state with nextId := state.nextId + 1 } : State Value).insertNode
              { id := state.nextId, parent, name, kind := .value, bytes,
                codec := codec.identity, value })
  | deleted {path : List String} {name : Symbol} {node : Node Value} :
      state.child parent name = some node → node.kind = .value →
        Changed isLegal codec state parent (.delete path name)
          (state.removeNode node.id)
  | addedDir {path : List String} {name : Symbol} :
      isLegal name.name = true → state.child parent name = none →
        state.nextId + 1 < 2 ^ 64 →
          Changed isLegal codec state parent (.mkdir path name)
            (({ state with nextId := state.nextId + 1 } : State Value).insertNode
              { id := state.nextId, parent, name, kind := .dir, bytes := [],
                codec := codec.identity, value := none })
  | removed {path : List String} {name : Symbol} {node : Node Value} :
      state.child parent name = some node → node.id ≠ 0 → node.kind = .dir →
        (∀ other ∈ state.nodes, other.parent = node.id → other.id = node.id) →
          Changed isLegal codec state parent (.rmdir path name)
            (state.removeNode node.id)
  | cleared {path : List String} :
      Changed isLegal codec state parent (.clear path)
        { state with
          nodes := state.nodes.filter fun node =>
            ¬ (node.parent = parent ∧ node.kind = .value) }

theorem bind_ok_iff
    {β : Type} {outcome : Except Failure α} {next : α → Except Failure β}
    {value : β} :
    (outcome >>= next) = .ok value ↔
      ∃ found, outcome = .ok found ∧ next found = .ok value := by
  cases outcome <;> simp [bind, Except.bind]

theorem bump_ok_iff
    {counter value : Nat} :
    bump counter = .ok value ↔ counter + 1 < 2 ^ 64 ∧ value = counter + 1 := by
  rw [bump]
  split
  next fits =>
    rw [Except.ok.injEq]
    exact ⟨fun same => ⟨fits, same.symm⟩, fun both => both.2.symm⟩
  next overflows =>
    constructor
    · intro same
      cases same
    · exact fun both => absurd both.1 overflows

theorem not_dir_iff
    {kind : NodeKind} :
    ¬ kind = .dir ↔ kind = .value := by
  cases kind <;> simp

/-- A plan that applies is a change under the node of its path. -/
theorem Plan.apply_changed
    {result : Option Value}
    (applied : plan.apply outside codec state = .ok (some (after, result))) :
    ∃ parent, state.resolveId plan.path = .ok parent ∧
      Changed outside.isLegal codec state parent plan after := by
  obtain ⟨parent, resolved, applied⟩ := bind_ok_iff.mp applied
  refine ⟨parent, resolved, ?_⟩
  cases plan with
  | set path name value bytes =>
      simp only at applied
      split at applied
      next => cases applied
      next legal =>
        split at applied
        next node found =>
          split at applied
          next => cases applied
          next isValue =>
            cases applied
            exact .updated (by simpa using legal) found
              (not_dir_iff.mp isValue)
        next absent =>
          obtain ⟨made, adds, ends⟩ := bind_ok_iff.mp applied
          obtain ⟨nextId, bumped, inserted⟩ := bind_ok_iff.mp adds
          obtain ⟨fits, rfl⟩ := bump_ok_iff.mp bumped
          cases inserted
          cases ends
          exact .addedValue (by simpa using legal) absent fits
  | delete path name =>
      simp only at applied
      split at applied
      next => cases applied
      next node found =>
        split at applied
        next => cases applied
        next isValue =>
          cases applied
          exact .deleted found (not_dir_iff.mp isValue)
  | mkdir path name =>
      simp only at applied
      split at applied
      next => cases applied
      next legal =>
        split at applied
        next => cases applied
        next absent =>
          obtain ⟨made, adds, ends⟩ := bind_ok_iff.mp applied
          obtain ⟨nextId, bumped, inserted⟩ := bind_ok_iff.mp adds
          obtain ⟨fits, rfl⟩ := bump_ok_iff.mp bumped
          cases inserted
          cases ends
          exact .addedDir (by simpa using legal) (by simpa using absent) fits
  | rmdir path name =>
      simp only at applied
      split at applied
      next => cases applied
      next node found =>
        split at applied
        next => cases applied
        next notRoot =>
          split at applied
          next => cases applied
          next isDir =>
            split at applied
            next => cases applied
            next empty =>
              cases applied
              exact .removed found notRoot (by simpa using isDir)
                (by simpa using empty)
  | clear path =>
      cases applied
      exact .cleared

/-- A change keeps the generation. -/
theorem Changed.generation
    {isLegal : String → Bool}
    (changed : Changed isLegal codec state parent plan after) :
    after.generation = state.generation := by
  cases changed <;> rfl

section Execution

variable {cx : Cx} {view : RelationDir Value Head}
variable {outcome : Except Failure (Option Value)}

/-- A call on the tables leaves the relation alone. -/
theorem onTables_state
    {call : EStateM Error σ α} {found : Except Failure α}
    (called : Yields (onTables call : Calling Value σ α) shared found later) :
    later.state = shared.state := by
  rw [Yields, onTables] at called
  cases result : call shared.tables with
  | ok value tables =>
      rw [result] at called
      cases found <;> cases called
      rfl
  | error error tables =>
      rw [result] at called
      cases found <;> cases called
      rfl

/-- A publication leaves the relation alone. -/
theorem publish_state
    {original next : Nat} {found : Except Failure Unit}
    (published : Yields (view.publish outside original next) shared found
      later) :
    later.state = shared.state := by
  rw [RelationDir.publish] at published
  cases slot : view.head with
  | none =>
      rw [slot] at published
      rw [((Yields.pure () shared).unique published).2]
  | some head =>
      rw [slot] at published
      rcases published.bind_inv with
        ⟨replacement, middle, made, rest⟩ | ⟨_, made, _⟩
      · obtain ⟨_, rfl⟩ := made.ofExcept_inv
        rcases rest.bind_inv with
          ⟨exchanged, last, exchange, ends⟩ | ⟨_, exchange, _⟩
        · rw [← onTables_state exchange]
          split at ends
          · rw [((Yields.throw _ last).unique ends).2]
          · rw [((Yields.pure _ last).unique ends).2]
        · exact onTables_state exchange
      · rw [made.ofExcept_inv.2]

/--
A mutation fails and stores nothing, finds nothing to delete, or publishes and
stores what its plan makes.
-/
theorem execute_cases
    (executed : Yields (view.execute outside cx plan) shared outcome later) :
    (∃ failure, outcome = .error failure ∧
        (later = shared ∨ Yields (view.publish outside shared.state.generation
          (shared.state.generation + 1)) shared (.error failure) later)) ∨
      (plan.apply outside view.codec shared.state = .ok none ∧
        outcome = .ok none ∧ later = shared) ∨
      ∃ state result tables,
        authorize cx relationTableWriteCapability = .ok () ∧
          plan.apply outside view.codec shared.state =
            .ok (some (state, result)) ∧
          outcome = .ok result ∧ shared.state.generation + 1 < 2 ^ 64 ∧
          Yields (view.publish outside shared.state.generation
            (shared.state.generation + 1)) shared (.ok ())
            { shared with tables } ∧
          later = {
            state := { state with generation := shared.state.generation + 1 }
            tables } := by
  rcases executed.bind_inv with ⟨⟨⟩, middle, allowed, rest⟩ | ⟨failure, stops, fails⟩
  case inr =>
    exact .inl ⟨failure, fails, .inl stops.ofExcept_inv.2⟩
  obtain ⟨granted, rfl⟩ := allowed.ofExcept_inv
  have rest := (Yields.get middle).rest rest
  rcases rest.bind_inv with ⟨found, last, applies, rest⟩ | ⟨failure, stops, fails⟩
  case inr =>
    exact .inl ⟨failure, fails, .inl stops.ofExcept_inv.2⟩
  obtain ⟨applied, rfl⟩ := applies.ofExcept_inv
  cases found with
  | none =>
      obtain ⟨rfl, rfl⟩ := (Yields.pure none last).unique rest
      exact .inr (.inl ⟨applied.symm, rfl, rfl⟩)
  | some made =>
      obtain ⟨state, result⟩ := made
      obtain ⟨_, _, changed⟩ := Plan.apply_changed applied.symm
      have same := changed.generation
      rcases rest.bind_inv with ⟨next, middle, bumps, rest⟩ | ⟨failure, stops, fails⟩
      case inr =>
        exact .inl ⟨failure, fails, .inl stops.ofExcept_inv.2⟩
      obtain ⟨bumped, rfl⟩ := bumps.ofExcept_inv
      obtain ⟨fits, rfl⟩ := bump_ok_iff.mp bumped.symm
      rw [same] at fits
      rw [same] at rest
      rcases rest.bind_inv with ⟨⟨⟩, after, published, rest⟩ | ⟨failure, stops, fails⟩
      case inr =>
        exact .inl ⟨failure, fails, .inr stops⟩
      have stored := (Yields.modify (fun shared : Shared Value σ =>
        { shared with
          state := { state with
            generation := middle.state.generation + 1 } }) after).rest rest
      obtain ⟨rfl, rfl⟩ := (Yields.pure result _).unique stored
      have kept := publish_state published
      refine .inr (.inr ⟨state, result, after.tables, granted.symm,
        applied.symm, rfl, fits, ?_, rfl⟩)
      have shape : after = { middle with tables := after.tables } := by
        rw [← kept]
      rw [← shape]
      exact published

end Execution

end SimStorage.Relation
