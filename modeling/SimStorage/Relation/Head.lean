import SimStorage.Relation.Runs

namespace SimStorage.Relation

/-!
# Publishing generations

Every mutation through a view with a head exchanges the text of the relation's
generation in the head slot for the text of the next one.  The slot of a fresh
relation is expected to be absent, and only then: an absent slot that is
attached to a relation of a later generation never meets what is expected.
-/

open Codec Table Interaction

variable {Value Expr Head σ α : Type}

section Definitions

/-- The mutations of a view. -/
inductive Mutation (Value : Type) where
  | set (key : Symbol) (value : Value)
  | del (key : Symbol)
  | clear
  | mkdir (name : Symbol)
  | rmdir (name : Symbol)

/-- A mutation through a view. -/
def Mutation.run (outside : Outside Value Expr Head σ) (cx : Cx)
    (view : RelationDir Value Head) :
    Mutation Value → Calling Value σ Unit
  | .set key value => view.set outside cx key value
  | .del key => discard (view.del outside cx key)
  | .clear => view.clear outside cx
  | .mkdir name => discard (view.mkdir outside cx name)
  | .rmdir name => discard (view.rmdir outside cx name)

/-- The plan that a mutation executes; a value has to have its bytes first. -/
def Mutation.plan (view : RelationDir Value Head) :
    Mutation Value → Except Error (Plan Value)
  | .set key value => do
      let bytes ← view.codec.encode value
      .ok (.set view.path key value bytes)
  | .del key => .ok (.delete view.path key)
  | .clear => .ok (.clear view.path)
  | .mkdir name => .ok (.mkdir view.path name)
  | .rmdir name => .ok (.rmdir view.path name)

/-- The view of the same relation under another path. -/
def RelationDir.under (view : RelationDir Value Head) (path : List String) :
    RelationDir Value Head :=
  { view with path }

variable (outside : Outside Value Expr Head σ)

/-- What the slot holds after a generation was published. -/
def published (generation : Nat) : TableObserved Expr :=
  if generation = 0 then
    .absent
  else
    .value (outside.text (toString generation))

/-- The head's table exchanges what its slot holds, when that is expected. -/
structure HeadSlot [DecidableEq Expr] (head : Head)
    (slot : σ → TableObserved Expr) : Prop where
  exchanges : ∀ expected value expr tables,
    outside.factory.asExpr value = .ok expr →
      expected.meets (slot tables) = true → ∃ after,
        outside.compareExchange head expected (.value value) tables =
          .ok { exchanged := true, observed := slot tables } after ∧
        slot after = .value expr
  refuses : ∀ expected value expr tables,
    outside.factory.asExpr value = .ok expr →
      expected.meets (slot tables) = false →
        outside.compareExchange head expected (.value value) tables =
          .ok { exchanged := false, observed := slot tables } tables

/--
The relation and the tables after mutations through views of the handle and
writes by others to the tables, with what the handle's last mutation left in
the slot.
-/
inductive HeadedRun (handle : RelationDir Value Head)
    (slot : σ → TableObserved Expr) (start : Shared Value σ) :
    Shared Value σ → TableObserved Expr → Prop where
  | attached : HeadedRun handle slot start start (slot start.tables)
  | mutated {shared later : Shared Value σ} {left : TableObserved Expr}
      {outcome : Except Failure Unit} (cx : Cx) (path : List String)
      (mutation : Mutation Value) :
      HeadedRun handle slot start shared left →
        Yields (mutation.run outside cx (handle.under path)) shared outcome
          later →
            HeadedRun handle slot start later
              (if later.state.generation = shared.state.generation then
                left
              else
                slot later.tables)
  | written {shared : Shared Value σ} {left : TableObserved Expr} (tables : σ) :
      HeadedRun handle slot start shared left →
        HeadedRun handle slot start { shared with tables } left

/--
Mutations that the tree admits are stored and published, the others leave all
as it was, and so do all when the slot is not as the handle left it.
-/
structure Publication (handle : RelationDir Value Head)
    (slot : σ → TableObserved Expr) (shared : Shared Value σ)
    (left : TableObserved Expr) : Prop where
  commits : ∀ cx path (mutation : Mutation Value) plan parent after,
    authorize cx relationTableWriteCapability = .ok () →
      Mutation.plan (handle.under path) mutation = .ok plan →
        shared.state.resolveId path = .ok parent →
          Changed outside.isLegal handle.codec shared.state parent plan after →
            shared.state.generation + 1 < 2 ^ 64 → slot shared.tables = left →
              ∃ tables,
                Yields (mutation.run outside cx (handle.under path)) shared
                  (.ok ()) {
                    state := { after with
                      generation := shared.state.generation + 1 }
                    tables } ∧
                slot tables =
                  .value (outside.text (toString (shared.state.generation + 1)))
  fails : ∀ cx path (mutation : Mutation Value) failure later,
    Yields (mutation.run outside cx (handle.under path)) shared
        (.error failure) later →
      later = shared
  absent : ∀ cx path key parent outcome later,
    shared.state.resolveId path = .ok parent →
      shared.state.child parent key = none →
        Yields ((Mutation.del key).run outside cx (handle.under path)) shared
            outcome later →
          later = shared
  stale : ∀ cx path (mutation : Mutation Value) outcome later, slot shared.tables ≠ left →
    Yields (mutation.run outside cx (handle.under path)) shared outcome later →
      (∃ failure, outcome = .error failure) ∨
        ∃ key parent, mutation = .del key ∧
          shared.state.resolveId path = .ok parent ∧
            shared.state.child parent key = none

/-- In every run from where the head is attached, mutations are published. -/
def Publishes (handle : RelationDir Value Head)
    (slot : σ → TableObserved Expr) (start : Shared Value σ) : Prop :=
  ∀ shared left, HeadedRun outside handle slot start shared left →
    Publication outside handle slot shared left

end Definitions

variable {outside : Outside Value Expr Head σ}
variable {state after : State Value} {plan : Plan Value} {parent : Nat}
variable {shared later start : Shared Value σ}
variable {view handle : RelationDir Value Head} {cx : Cx} {head : Head}

section Plans

/-- A change under the node of its path is what the plan applies. -/
theorem Changed.apply
    {codec : RelationValueCodec Value}
    (changed : Changed outside.isLegal codec state parent plan after)
    (resolved : state.resolveId plan.path = .ok parent) :
    ∃ result, plan.apply outside codec state = .ok (some (after, result)) := by
  cases changed with
  | updated legal found isValue =>
      refine ⟨none, bind_ok_iff.mpr ⟨parent, resolved, ?_⟩⟩
      simp [legal, found, isValue, pure, Except.pure]
  | addedValue legal absent fits =>
      have bumped : bump state.nextId = .ok (state.nextId + 1) :=
        bump_ok_iff.mpr ⟨fits, rfl⟩
      refine ⟨none, bind_ok_iff.mpr ⟨parent, resolved, ?_⟩⟩
      simp [legal, absent, State.addNode, bumped]
  | @deleted path name node found isValue =>
      refine ⟨node.value, bind_ok_iff.mpr ⟨parent, resolved, ?_⟩⟩
      simp [found, isValue, pure, Except.pure]
  | addedDir legal absent fits =>
      have bumped : bump state.nextId = .ok (state.nextId + 1) :=
        bump_ok_iff.mpr ⟨fits, rfl⟩
      refine ⟨none, bind_ok_iff.mpr ⟨parent, resolved, ?_⟩⟩
      simp [legal, absent, State.addNode, bumped]
  | @removed path name node found notRoot isDir empty =>
      refine ⟨none, bind_ok_iff.mpr ⟨parent, resolved, ?_⟩⟩
      have emptied : (state.nodes.any fun other =>
          other.parent = node.id ∧ other.id ≠ node.id) = false := by
        simpa using empty
      simp only [found, notRoot, isDir, emptied, if_false, ne_eq,
        not_true_eq_false, Bool.false_eq_true]
      rfl
  | cleared =>
      exact ⟨none, bind_ok_iff.mpr ⟨parent, resolved, rfl⟩⟩

/-- The plan of a mutation works under the path of the view. -/
theorem Mutation.plan_path
    {mutation : Mutation Value}
    (planned : mutation.plan view = .ok plan) :
    plan.path = view.path := by
  cases mutation with
  | set key value =>
      cases encoded : view.codec.encode value with
      | error error =>
          rw [Mutation.plan, encoded] at planned
          cases planned
      | ok bytes =>
          rw [Mutation.plan, encoded] at planned
          cases planned
          rfl
  | _ =>
      cases planned
      rfl

/-- Only a removal plans a removal. -/
theorem Mutation.plan_delete
    {mutation : Mutation Value} {path : List String} {key : Symbol}
    (planned : mutation.plan view = .ok (.delete path key)) :
    mutation = .del key ∧ path = view.path := by
  cases mutation with
  | set other value =>
      cases encoded : view.codec.encode value <;>
        rw [Mutation.plan, encoded] at planned <;> cases planned
  | del other =>
      cases planned
      exact ⟨rfl, rfl⟩
  | _ => cases planned

/-- A mutation executes its plan and returns when that does. -/
theorem Mutation.run_eq
    (lawful : outside.factory.Lawful outside.text)
    (mutation : Mutation Value) :
    mutation.run outside cx view shared =
      match mutation.plan view with
      | .error error => .error (.error error) shared
      | .ok plan =>
          match view.execute outside cx plan shared with
          | .ok _ later => .ok () later
          | .error failure later => .error failure later := by
  rcases lawful.nil with ⟨nil, isNil⟩
  have nils : (MonadExcept.ofExcept (lift outside.factory.nil) :
      Calling Value σ Value) = pure nil := by
    rw [isNil]
    rfl
  cases mutation with
  | set key value =>
      cases encoded : view.codec.encode value with
      | error error =>
          simp only [run, plan, RelationDir.set, encoded, bind_apply]
          rfl
      | ok bytes =>
          have sets : view.set outside cx key value =
              discard (view.execute outside cx
                (.set view.path key value bytes)) := by
            rw [RelationDir.set, encoded]
            rfl
          simp only [run, sets, discard_apply, plan, encoded, bind, Except.bind]
          cases view.execute outside cx (.set view.path key value bytes)
            shared <;> rfl
  | del key =>
      simp only [run, plan, RelationDir.del, discard_apply, bind_apply, nils]
      cases view.execute outside cx (.delete view.path key) shared with
      | ok found later => cases found <;> rfl
      | error failure later => rfl
  | clear =>
      simp only [run, plan, RelationDir.clear, discard_apply]
      cases view.execute outside cx (.clear view.path) shared <;> rfl
  | mkdir name =>
      simp only [run, plan, RelationDir.mkdir, discard_apply, bind_apply]
      cases view.execute outside cx (.mkdir view.path name) shared <;> rfl
  | rmdir name =>
      simp only [run, plan, RelationDir.rmdir, discard_apply, bind_apply, nils]
      cases view.execute outside cx (.rmdir view.path name) shared <;> rfl

/-- A mutation fails before it executes, or has its execution's outcome. -/
theorem Mutation.run_cases
    {mutation : Mutation Value} {outcome : Except Failure Unit}
    (lawful : outside.factory.Lawful outside.text)
    (ran : Yields (mutation.run outside cx view) shared outcome later) :
    ((∃ failure, outcome = .error failure) ∧ later = shared) ∨
      ∃ plan found, mutation.plan view = .ok plan ∧
        Yields (view.execute outside cx plan) shared found later ∧
        outcome = found.map fun _ => () := by
  rw [Yields, mutation.run_eq lawful] at ran
  cases planned : mutation.plan view with
  | error error =>
      rw [planned] at ran
      cases outcome <;> cases ran
      exact .inl ⟨⟨_, rfl⟩, rfl⟩
  | ok plan =>
      right
      simp only [planned] at ran
      cases executed : view.execute outside cx plan shared with
      | ok found last =>
          rw [executed] at ran
          cases outcome <;> cases ran
          exact ⟨plan, .ok found, rfl, executed, rfl⟩
      | error failure last =>
          rw [executed] at ran
          cases outcome <;> cases ran
          exact ⟨plan, .error failure, rfl, executed, rfl⟩

/-- A removal of a name that is absent changes nothing. -/
theorem Plan.apply_absent
    {codec : RelationValueCodec Value} {path : List String} {key : Symbol}
    (resolved : state.resolveId path = .ok parent)
    (absent : state.child parent key = none) :
    (Plan.delete path key).apply outside codec state = .ok none := by
  refine bind_ok_iff.mpr ⟨parent, resolved, ?_⟩
  simp only [absent]
  rfl

end Plans

section Publishing

variable [DecidableEq Expr] {slot : σ → TableObserved Expr}
variable {left : TableObserved Expr} {original next generation : Nat}

/-- What is expected is what the generation before has published. -/
theorem meets_iff
    {observed : TableObserved Expr} :
    (RelationDir.expectedHead outside generation).meets observed = true ↔
      observed = published outside generation := by
  by_cases fresh : generation = 0 <;> cases observed <;>
    simp [RelationDir.expectedHead, published, fresh, TableExpected.meets,
      eq_comm]

/-- A generation is published where the one before it was. -/
theorem publish_exchanges
    (lawful : outside.factory.Lawful outside.text)
    (slotted : HeadSlot outside head slot)
    (attached : view.head = some head)
    (holds : slot shared.tables = published outside original) :
    ∃ tables,
      Yields (view.publish outside original next) shared (.ok ())
        { shared with tables } ∧
      slot tables = .value (outside.text (toString next)) := by
  rcases lawful.string (toString next) with ⟨replacement, made, shown⟩
  rcases slotted.exchanges _ _ _ shared.tables shown (meets_iff.mpr holds) with
    ⟨tables, exchanged, written⟩
  have lifted : lift (outside.factory.string (toString next)) =
      .ok replacement := congrArg lift made
  have exchange : Yields (onTables (outside.compareExchange head
      (RelationDir.expectedHead outside original) (.value replacement)))
      shared (.ok { exchanged := true, observed := slot shared.tables })
      { shared with tables } := by
    rw [Yields, onTables, exchanged]
    rfl
  refine ⟨tables, ?_, written⟩
  rw [RelationDir.publish, attached]
  exact (Yields.of_ok lifted shared).bind (exchange.bind (Yields.pure () _))

/-- A generation is not published where another slot is found. -/
theorem publish_refuses
    (lawful : outside.factory.Lawful outside.text)
    (slotted : HeadSlot outside head slot)
    (attached : view.head = some head)
    (changed : slot shared.tables ≠ published outside original) :
    Yields (view.publish outside original next) shared
      (.error (refused "stale namespace head")) shared := by
  rcases lawful.string (toString next) with ⟨replacement, made, shown⟩
  have unmet : (RelationDir.expectedHead outside original).meets
      (slot shared.tables) = false := by
    rw [Bool.eq_false_iff]
    exact fun meets => changed (meets_iff.mp meets)
  have stays := slotted.refuses _ _ _ shared.tables shown unmet
  have lifted : lift (outside.factory.string (toString next)) =
      .ok replacement := congrArg lift made
  have exchange : Yields (onTables (outside.compareExchange head
      (RelationDir.expectedHead outside original) (.value replacement)))
      shared (.ok { exchanged := false, observed := slot shared.tables })
      shared := by
    rw [Yields, onTables, stays]
    rfl
  rw [RelationDir.publish, attached]
  exact (Yields.of_ok lifted shared).bind (exchange.bind (Yields.throw _ _))

/-- What a plan makes is stored and published where the slot is as expected. -/
theorem execute_commits
    {result : Option Value}
    (lawful : outside.factory.Lawful outside.text)
    (slotted : HeadSlot outside head slot)
    (attached : view.head = some head)
    (granted : authorize cx relationTableWriteCapability = .ok ())
    (applied : plan.apply outside view.codec shared.state =
      .ok (some (after, result)))
    (fits : shared.state.generation + 1 < 2 ^ 64)
    (holds : slot shared.tables = published outside shared.state.generation) :
    ∃ tables,
      Yields (view.execute outside cx plan) shared (.ok result) {
        state := { after with generation := shared.state.generation + 1 }
        tables } ∧
      slot tables =
        .value (outside.text (toString (shared.state.generation + 1))) := by
  rcases Plan.apply_changed applied with ⟨_, _, changed⟩
  have bumped : bump after.generation = .ok (shared.state.generation + 1) := by
    rw [changed.generation]
    exact bump_ok_iff.mpr ⟨fits, rfl⟩
  rcases publish_exchanges lawful slotted attached holds with
    ⟨tables, publishes, written⟩
  exact ⟨tables, (Yields.of_ok granted shared).bind
    ((Yields.get shared).bind ((Yields.of_ok applied shared).bind
      ((Yields.of_ok bumped shared).bind (publishes.bind
        ((Yields.modify _ _).bind (Yields.pure result _)))))), written⟩

/-- An execution that fails leaves the relation and the tables. -/
theorem execute_fails
    {failure : Failure}
    (lawful : outside.factory.Lawful outside.text)
    (slotted : HeadSlot outside head slot)
    (attached : view.head = some head)
    (executed : Yields (view.execute outside cx plan) shared (.error failure)
      later) :
    later = shared := by
  rcases execute_cases executed with
    ⟨_, _, same | stops⟩ | ⟨_, impossible, _⟩ | ⟨_, _, _, _, _, impossible, _⟩
  · exact same
  · by_cases holds : slot shared.tables =
        published outside shared.state.generation
    · rcases publish_exchanges lawful slotted attached holds with
        ⟨_, publishes, _⟩
      cases (publishes.unique stops).1
    · exact (stops.unique
        (publish_refuses lawful slotted attached holds)).2
  · cases impossible
  · cases impossible

/-- An execution that returns had nothing to remove, or has published. -/
theorem execute_returns
    {result : Option Value}
    (lawful : outside.factory.Lawful outside.text)
    (slotted : HeadSlot outside head slot)
    (attached : view.head = some head)
    (executed : Yields (view.execute outside cx plan) shared (.ok result)
      later) :
    (plan.apply outside view.codec shared.state = .ok none ∧ later = shared) ∨
      (∃ made, plan.apply outside view.codec shared.state = .ok (some made)) ∧
        shared.state.generation + 1 < 2 ^ 64 ∧
        slot shared.tables = published outside shared.state.generation ∧
        later.state.generation = shared.state.generation + 1 ∧
        slot later.tables = published outside later.state.generation := by
  rcases execute_cases executed with
    ⟨_, impossible, _⟩ | ⟨applied, _, same⟩ |
      ⟨state, found, tables, _, applied, _, fits, publishes, rfl⟩
  · cases impossible
  · exact .inl ⟨applied, same⟩
  · right
    refine ⟨⟨_, applied⟩, ?_⟩
    by_cases holds : slot shared.tables =
        published outside shared.state.generation
    · rcases publish_exchanges lawful slotted attached holds with
        ⟨others, exchanges, written⟩
      have same : tables = others :=
        congrArg Shared.tables (publishes.unique exchanges).2
      refine ⟨fits, holds, rfl, ?_⟩
      simp [published, same, written]
    · cases (publishes.unique
        (publish_refuses lawful slotted attached holds)).1

/-- Where the handle left what it published last, mutations are published. -/
theorem publication_of_left
    (lawful : outside.factory.Lawful outside.text)
    (slotted : HeadSlot outside head slot)
    (attached : handle.head = some head)
    (last : shared.state.generation + 1 < 2 ^ 64 →
      left = published outside shared.state.generation) :
    Publication outside handle slot shared left where
  commits cx path mutation plan parent after granted planned resolved changed
      fits holds := by
    have under : plan.path = path := Mutation.plan_path planned
    rcases changed.apply (under ▸ resolved) with ⟨result, applied⟩
    rcases @execute_commits _ _ _ _ outside after plan shared
      (handle.under path) cx head _ slot result lawful slotted attached granted
      applied fits (holds.trans (last fits)) with ⟨tables, executed, written⟩
    refine ⟨tables, ?_, written⟩
    rw [Yields] at executed
    simp only [Yields, mutation.run_eq lawful, planned, executed, settle]
  fails cx path mutation failure later ran := by
    rcases mutation.run_cases lawful ran with
      ⟨_, same⟩ | ⟨plan, found, _, executed, fails⟩
    · exact same
    · cases found with
      | error _ => exact execute_fails lawful slotted attached executed
      | ok _ => cases fails
  absent cx path key parent outcome later resolved absent ran := by
    rcases Mutation.run_cases lawful ran with
      ⟨_, same⟩ | ⟨plan, found, planned, executed, _⟩
    · exact same
    · cases planned
      cases found with
      | error _ => exact execute_fails lawful slotted attached executed
      | ok _ =>
          have nothing : (Plan.delete (handle.under path).path key).apply
              outside (handle.under path).codec shared.state = .ok none :=
            Plan.apply_absent resolved absent
          rcases execute_returns lawful slotted attached executed with
            ⟨_, same⟩ | ⟨⟨made, applied⟩, _⟩
          · exact same
          · cases nothing.symm.trans applied
  stale cx path mutation outcome later changed ran := by
    rcases mutation.run_cases lawful ran with
      ⟨fails, _⟩ | ⟨plan, found, planned, executed, ends⟩
    · exact .inl fails
    · cases found with
      | error failure => exact .inl ⟨failure, ends⟩
      | ok result =>
          rcases execute_returns lawful slotted attached executed with
            ⟨nothing, _⟩ | ⟨_, fits, holds, _⟩
          · rcases Plan.apply_none nothing with
              ⟨other, key, parent, rfl, resolved, absent⟩
            rcases Mutation.plan_delete planned with ⟨rfl, rfl⟩
            exact .inr ⟨key, parent, rfl, resolved, absent⟩
          · exact absurd (holds.trans (last fits).symm) changed

/-- A mutation changes nothing, or publishes the next generation. -/
theorem run_settles
    {mutation : Mutation Value} {outcome : Except Failure Unit}
    (lawful : outside.factory.Lawful outside.text)
    (slotted : HeadSlot outside head slot)
    (attached : view.head = some head)
    (ran : Yields (mutation.run outside cx view) shared outcome later) :
    later = shared ∨
      later.state.generation = shared.state.generation + 1 ∧
        slot later.tables = published outside later.state.generation := by
  rcases mutation.run_cases lawful ran with
    ⟨_, same⟩ | ⟨plan, found, _, executed, _⟩
  · exact .inl same
  · cases found with
    | error failure =>
        exact .inl (execute_fails lawful slotted attached executed)
    | ok result =>
        rcases execute_returns lawful slotted attached executed with
          ⟨_, same⟩ | ⟨_, _, _, raised, written⟩
        · exact .inl same
        · exact .inr ⟨raised, written⟩

/--
From a fresh relation, the handle leaves what it published last; from a last
generation, none follows.
-/
theorem HeadedRun.left_eq
    (lawful : outside.factory.Lawful outside.text)
    (slotted : HeadSlot outside head slot)
    (attached : handle.head = some head)
    (absent : slot start.tables = .absent)
    (starts : start.state.generation = 0 ∨ 2 ^ 64 ≤ start.state.generation + 1)
    (run : HeadedRun outside handle slot start shared left) :
    shared.state.generation + 1 < 2 ^ 64 →
      left = published outside shared.state.generation := by
  induction run with
  | attached =>
      intro fits
      have fresh := starts.resolve_right (Nat.not_le_of_lt fits)
      rw [absent, published, if_pos fresh]
  | @mutated shared later left outcome cx path mutation earlier ran inductionHypothesis =>
      have under : (handle.under path).head = some head := attached
      rcases run_settles lawful slotted under ran with rfl | ⟨raised, written⟩
      · rw [if_pos rfl]
        exact inductionHypothesis
      · rw [if_neg (raised ▸ Nat.succ_ne_self _)]
        exact fun _ => written
  | written tables earlier inductionHypothesis => exact inductionHypothesis

/--
A head whose slot is absent publishes every later generation when it is
attached to a fresh relation, and none when a generation was reached before.
-/
theorem publishes_iff
    (outside : Outside Value Expr Head σ) (head : Head)
    (slot : σ → TableObserved Expr) (handle : RelationDir Value Head)
    (start : Shared Value σ)
    (lawful : outside.factory.Lawful outside.text)
    (slotted : HeadSlot outside head slot)
    (absent : slot start.tables = .absent) :
    Publishes outside (handle.withHead head) slot start ↔
      start.state.generation = 0 ∨ 2 ^ 64 ≤ start.state.generation + 1 := by
  have attached : (handle.withHead head).head = some head := rfl
  constructor
  · intro publishes
    by_contra reached
    have later : ¬ start.state.generation = 0 := fun fresh =>
      reached (.inl fresh)
    have fits : start.state.generation + 1 < 2 ^ 64 :=
      Nat.lt_of_not_le fun past => reached (.inr past)
    -- Clearing the root is always admitted.
    rcases (publishes start _ .attached).commits ⟨fun _ => true⟩ [] .clear
      (.clear []) 0 _ rfl rfl rfl .cleared fits rfl with ⟨tables, clears, _⟩
    rcases Mutation.run_cases lawful clears with
      ⟨⟨_, impossible⟩, _⟩ | ⟨plan, found, planned, executed, ends⟩
    · cases impossible
    · cases found with
      | error _ => cases ends
      | ok result =>
          rcases execute_returns lawful slotted attached executed with
            ⟨nothing, _⟩ | ⟨_, _, holds, _⟩
          · rcases Plan.apply_none nothing with ⟨_, _, _, rfl, _⟩
            cases planned
          · rw [absent, published, if_neg later] at holds
            cases holds
  · intro starts shared left run
    exact publication_of_left lawful slotted attached
      (run.left_eq lawful slotted attached absent starts)

end Publishing

section Samples

/-- What the slot of the texts' only table holds. -/
def referenceSlot : Option (Option String) → TableObserved (Option String)
  | some value => .value value
  | none => .absent

theorem referenceOutside_compareExchange
    (expected : TableExpected (Option String)) (value : Option String)
    (tables : Option (Option String)) :
    referenceOutside.compareExchange () expected (.value value) tables =
      .ok {
        exchanged := expected.meets (referenceSlot tables)
        observed := referenceSlot tables }
        (if expected.meets (referenceSlot tables) then
          some value
        else
          tables) := by
  cases tables <;> cases met : expected.meets (referenceSlot _) <;>
    simp [referenceOutside, referenceSlot] at met ⊢ <;> simp [met]

theorem referenceOutside_slot :
    HeadSlot referenceOutside () referenceSlot where
  exchanges expected value expr tables shown meets := by
    cases shown
    refine ⟨some value, ?_, rfl⟩
    rw [referenceOutside_compareExchange, meets]
    rfl
  refuses expected value expr tables shown meets := by
    rw [referenceOutside_compareExchange, meets]
    rfl

/-- A view of the root. -/
def sampleHandle : RelationDir (Option String) Unit where
  path := []
  codec := referenceCodec
  head := none

theorem sample_fresh_publishes :
    Publishes referenceOutside (sampleHandle.withHead ()) referenceSlot
      sampleOpened.shared :=
  (publishes_iff referenceOutside () referenceSlot sampleHandle
    sampleOpened.shared referenceFactory_lawful referenceOutside_slot rfl).mpr
      (.inl rfl)

/-- A head that is attached after a mutation publishes nothing. -/
theorem attached_head_is_stale :
    ¬ ∀ world : World (Option String) Unit (Option (Option String)),
      Reached referenceOutside referenceCodec none (fun _ _ => True) world →
        referenceSlot world.shared.tables = .absent →
          Publishes referenceOutside (sampleHandle.withHead ()) referenceSlot
            world.shared := by
  intro publishes
  have made : Reached referenceOutside referenceCodec none (fun _ _ => True)
      sampleMade :=
    .step (sampleStep [] 0 (.mkdir (.new "d"))) .opened
      (List.mem_singleton.mpr rfl) trivial
  have first := publishes sampleMade made (by decide +kernel)
    sampleMade.shared _ .attached
  have fits : sampleMade.shared.state.generation + 1 < 2 ^ 64 := by
    decide +kernel
  rcases first.commits fullCx [] .clear (.clear []) 0 _ rfl rfl rfl .cleared
    fits rfl with ⟨tables, clears, _⟩
  have stale : (match Mutation.run referenceOutside fullCx
      ((sampleHandle.withHead ()).under []) .clear sampleMade.shared with
    | .ok _ _ => true
    | .error _ _ => false) = false := by
    decide +kernel
  rw [yields_ok.mp clears] at stale
  cases stale

end Samples

end SimStorage.Relation
