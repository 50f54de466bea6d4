import SimStorage.Db.Store
import SimStorage.Interaction.Evaluation

namespace SimStorage.Db

/-!
# What a step does

Each call either changes the store in its one way or leaves the world alone,
and which of them happens is known before: the capability, the name, and what
the store holds under it.
-/

open Table Interaction

variable {Value Expr : Type}
variable {isLegal : String → Bool} {factory : Factory Value Expr}
variable {cx : Cx} {dir : DbDir} {world : World Value}
variable {α : Type}

/-- The world with these values in its store. -/
abbrev World.withValues (world : World Value)
    (values : List ((String × Symbol) × Value)) : World Value where
  store := { world.store with values := values }
  handles := world.handles

namespace DbDir

theorem set_after
    (key : Symbol) (value : Value) :
    world.after (dir.set isLegal cx key value) (fun _ => []) =
      if cx.granted tableDbWriteCapability = true ∧
          isLegal key.name = true ∧
          Path.under dir.path key.name ∉ world.store.dirs then
        world.withValues
          (Entries.insert world.store.values (dir.path, key) value)
      else
        world := by
  by_cases granted : cx.granted tableDbWriteCapability = true
  · by_cases legal : isLegal key.name = true
    · by_cases present : Path.under dir.path key.name ∈ world.store.dirs <;>
        simp [World.after, set, Cx.require, childPath, granted, legal, present]
    · simp [World.after, set, Cx.require, childPath, granted, legal]
  · simp [World.after, set, Cx.require, granted]

theorem del_after
    (key : Symbol) :
    world.after (dir.del factory cx key) (fun _ => []) =
      if cx.granted tableDbWriteCapability = true then
        world.withValues (Entries.remove world.store.values (dir.path, key))
      else
        world := by
  by_cases granted : cx.granted tableDbWriteCapability = true
  · cases found : factory.orNil
        (Entries.find world.store.values (dir.path, key)) <;>
      simp [World.after, del, Cx.require, granted, found]
  · simp [World.after, del, Cx.require, granted]

theorem clear_after :
    world.after (dir.clear cx) (fun _ => []) =
      if cx.granted tableDbWriteCapability = true then
        world.withValues
          (world.store.values.filter fun entry => entry.1.1 ≠ dir.path)
      else
        world := by
  by_cases granted : cx.granted tableDbWriteCapability = true <;>
    simp [World.after, clear, Cx.require, granted]

theorem mkdir_after
    (name : Symbol) :
    world.after (dir.mkdir isLegal cx name) (fun child => [child]) =
      if cx.granted tableDbMkdirCapability = true ∧
          isLegal name.name = true ∧
          Entries.find world.store.values (dir.path, name) = none then
        { store := { world.store with
            dirs := world.store.dirs.insert (Path.under dir.path name.name) }
          handles := ⟨Path.under dir.path name.name⟩ :: world.handles }
      else
        world := by
  by_cases granted : cx.granted tableDbMkdirCapability = true
  · by_cases legal : isLegal name.name = true
    · cases found : Entries.find world.store.values (dir.path, name) <;>
        simp [World.after, mkdir, Cx.require, childPath, granted, legal, found]
    · simp [World.after, mkdir, Cx.require, childPath, granted, legal]
  · simp [World.after, mkdir, Cx.require, granted]

theorem opendir_after
    (name : Symbol) :
    world.after (dir.opendir isLegal cx name) Option.toList =
      if cx.granted tableDbReadCapability = true ∧
          isLegal name.name = true ∧
          Path.under dir.path name.name ∈ world.store.dirs then
        { world with
          handles := ⟨Path.under dir.path name.name⟩ :: world.handles }
      else
        world := by
  by_cases granted : cx.granted tableDbReadCapability = true
  · by_cases legal : isLegal name.name = true
    · by_cases present : Path.under dir.path name.name ∈ world.store.dirs
      · simp [World.after, opendir, Cx.require, childPath, granted, legal,
          present]
      · cases found : Entries.find world.store.values (dir.path, name) <;>
          simp [World.after, opendir, Cx.require, childPath, granted, legal,
            present, found]
    · simp [World.after, opendir, Cx.require, childPath, granted, legal]
  · simp [World.after, opendir, Cx.require, granted]

theorem rmdir_after
    (name : Symbol) :
    world.after (dir.rmdir isLegal factory cx name) (fun _ => []) =
      if cx.granted tableDbRmdirCapability = true ∧
          isLegal name.name = true ∧
          Path.under dir.path name.name ∈ world.store.dirs then
        { world with store :=
          { values := world.store.values.filter fun entry =>
              !removed (Path.under dir.path name.name) entry.1.1
            dirs := world.store.dirs.filter fun other =>
              !removed (Path.under dir.path name.name) other } }
      else
        world := by
  by_cases granted : cx.granted tableDbRmdirCapability = true
  · by_cases legal : isLegal name.name = true
    · by_cases present : Path.under dir.path name.name ∈ world.store.dirs
      · cases made : factory.nil <;>
          simp [World.after, rmdir, Cx.require, childPath, granted, legal,
            present, made]
      · simp [World.after, rmdir, Cx.require, childPath, granted, legal,
          present]
    · simp [World.after, rmdir, Cx.require, childPath, granted, legal]
  · simp [World.after, rmdir, Cx.require, granted]

/-- The replacement and what is observed, when there is an exchange. -/
def exchange [DecidableEq Expr] (store : Store Value) (isLegal : String → Bool)
    (factory : Factory Value Expr) (cx : Cx) (dir : DbDir) (key : Symbol)
    (expected : TableExpected Expr) (replacement : TableReplacement Value) :
    Option (Option Value) :=
  match factory.replacing replacement,
      factory.observe (Entries.find store.values (dir.path, key)) with
  | .ok change, .ok observed =>
      if cx.granted tableDbWriteCapability = true ∧ isLegal key.name = true ∧
          Path.under dir.path key.name ∉ store.dirs ∧
          expected.meets observed = true then
        some change
      else
        none
  | _, _ => none

/-- An exchange is under a legal key that is no directory's. -/
theorem exchange_guards
    [DecidableEq Expr] {store : Store Value} {key : Symbol}
    {expected : TableExpected Expr} {replacement : TableReplacement Value}
    {change : Option Value}
    (exchanged : exchange store isLegal factory cx dir key expected
      replacement = some change) :
    isLegal key.name = true ∧ Path.under dir.path key.name ∉ store.dirs := by
  unfold exchange at exchanged
  split at exchanged
  · split at exchanged
    next guards => exact ⟨guards.2.1, guards.2.2.1⟩
    next => cases exchanged
  · cases exchanged

/-- A value is put where none was expected or another was observed. -/
theorem exchange_puts
    [DecidableEq Expr] {store : Store Value} {key : Symbol}
    {expected : TableExpected Expr} {replacement : TableReplacement Value}
    {value : Value}
    (exchanged : exchange store isLegal factory cx dir key expected
      replacement = some (some value)) :
    replacement = .value value ∧
      (expected = .absent ∨
        (Entries.find store.values (dir.path, key)).isSome) := by
  unfold exchange at exchanged
  split at exchanged
  next change observed replaces observes =>
    split at exchanged
    next guards =>
      cases exchanged
      constructor
      · rcases Factory.replacing_iff.mp replaces with
          ⟨_, ends⟩ | ⟨other, expr, same, _, ends⟩
        · cases ends
        · cases ends
          exact same
      · cases found : Entries.find store.values (dir.path, key) with
        | some prior => exact .inr rfl
        | none =>
            rw [found] at observes
            cases observes
            cases expected with
            | absent => exact .inl rfl
            | value expr => cases guards.2.2.2
    next => cases exchanged
  next => cases exchanged

/-- What is put was granted, and has an expression. -/
theorem exchange_granted
    [DecidableEq Expr] {store : Store Value} {key : Symbol}
    {expected : TableExpected Expr} {value : Value} {change : Option Value}
    (exchanged : exchange store isLegal factory cx dir key expected
      (.value value) = some change) :
    cx.granted tableDbWriteCapability = true ∧
      (factory.asExpr value).isOk = true := by
  unfold exchange at exchanged
  split at exchanged
  next replaces observes =>
    split at exchanged
    next guards =>
      refine ⟨guards.1, ?_⟩
      rcases Factory.replacing_iff.mp replaces with
        ⟨isDelete, _⟩ | ⟨other, expr, same, shown, _⟩
      · cases isDelete
      · cases same
        rw [shown]
        rfl
    next => cases exchanged
  next => cases exchanged

/-- A replacement is not a removal. -/
theorem exchange_value
    [DecidableEq Expr] {store : Store Value} {key : Symbol}
    {expected : TableExpected Expr} (value : Value) :
    exchange store isLegal factory cx dir key expected (.value value) ≠
      some none := by
  intro exchanged
  unfold exchange at exchanged
  split at exchanged
  next replaces observes =>
    split at exchanged
    next guards =>
      cases exchanged
      rcases Factory.replacing_iff.mp replaces with
        ⟨isDelete, _⟩ | ⟨other, expr, _, _, ends⟩
      · cases isDelete
      · cases ends
    next => cases exchanged
  next => cases exchanged

/-- A value with an expression is put where none is. -/
theorem exchange_absent
    [DecidableEq Expr] {store : Store Value} {key : Symbol} {value : Value}
    (granted : cx.granted tableDbWriteCapability = true)
    (legal : isLegal key.name = true)
    (absent : Path.under dir.path key.name ∉ store.dirs)
    (shown : (factory.asExpr value).isOk = true)
    (free : Entries.find store.values (dir.path, key) = none) :
    exchange store isLegal factory cx dir key .absent (.value value) =
      some (some value) := by
  cases expr : factory.asExpr value with
  | error error => simp [expr, Except.isOk, Except.toBool] at shown
  | ok found =>
      have replaces : factory.replacing (.value value) = .ok (some value) :=
        Factory.replacing_iff.mpr (.inr ⟨value, found, rfl, expr, rfl⟩)
      have observes : factory.observe none = .ok .absent := rfl
      simp [exchange, replaces, free, observes, granted, legal, absent,
        TableExpected.meets]

theorem compareExchange_after
    [DecidableEq Expr]
    (key : Symbol) (expected : TableExpected Expr)
    (replacement : TableReplacement Value) :
    world.after
        (dir.compareExchange isLegal factory cx key expected replacement)
        (fun _ => []) =
      match exchange world.store isLegal factory cx dir key expected
          replacement with
      | some (some value) => world.withValues
          (Entries.insert world.store.values (dir.path, key) value)
      | some none => world.withValues
          (Entries.remove world.store.values (dir.path, key))
      | none => world := by
  by_cases granted : cx.granted tableDbWriteCapability = true
  · cases replaces : factory.replacing replacement with
    | error error =>
        simp [World.after, compareExchange, exchange, Cx.require, granted,
          replaces]
    | ok change =>
        by_cases legal : isLegal key.name = true
        · cases observes : factory.observe
              (Entries.find world.store.values (dir.path, key)) with
          | error error =>
              by_cases present :
                  Path.under dir.path key.name ∈ world.store.dirs <;>
                simp [World.after, compareExchange, exchange, Cx.require,
                  childPath, granted, legal, present, replaces, observes]
          | ok observed =>
              by_cases present :
                  Path.under dir.path key.name ∈ world.store.dirs
              · simp [World.after, compareExchange, exchange, Cx.require,
                  childPath, granted, legal, present, replaces, observes]
              · cases met : expected.meets observed <;> cases change <;>
                  simp [World.after, compareExchange, exchange, Cx.require,
                    childPath, granted, legal, present, replaces, observes,
                    met]
        · cases observes : factory.observe
              (Entries.find world.store.values (dir.path, key)) <;>
            simp [World.after, compareExchange, exchange, Cx.require,
              childPath, granted, legal, replaces, observes]
  · cases replaces : factory.replacing replacement <;>
      cases observes : factory.observe
        (Entries.find world.store.values (dir.path, key)) <;>
      simp [World.after, compareExchange, exchange, Cx.require, granted,
        replaces, observes]

end DbDir

end SimStorage.Db
