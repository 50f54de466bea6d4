import SimStorage.Kernel.Datum

namespace SimStorage.Table

/-!
# The kernel's table contract

What tables, directories and lists take from the kernel crate: errors,
capabilities, the values that a context makes, and compare-exchange.  The
kernel's own functions are not part of this repository; `Factory` carries them
as parameters.
-/

/-- `Error`, as far as tables and lists return it. -/
inductive Error where
  | eval (message : String)
  | capabilityDenied (capability : String)
  | typeMismatch (expected found : String)
  deriving Repr, DecidableEq

/-- `Cx`, as far as the capabilities that it was granted. -/
structure Cx where
  granted : String → Bool

/-- `Cx::require`. -/
def Cx.require (cx : Cx) (capability : String) : Except Error Unit :=
  if cx.granted capability then
    .ok ()
  else
    .error (.capabilityDenied capability)

/-- The values that a context makes, and the expression of a value. -/
structure Factory (Value Expr : Type) where
  nil : Except Error Value
  string : String → Except Error Value
  asExpr : Value → Except Error Expr

/-- `TableExpected`. -/
inductive TableExpected (Expr : Type) where
  | absent
  | value (expr : Expr)
  deriving Repr, DecidableEq

/-- `TableObserved`. -/
inductive TableObserved (Expr : Type) where
  | absent
  | value (expr : Expr)
  deriving Repr, DecidableEq

/-- `TableReplacement`. -/
inductive TableReplacement (Value : Type) where
  | delete
  | value (value : Value)
  deriving Repr, DecidableEq

/-- `TableCompareExchange`. -/
structure TableCompareExchange (Expr : Type) where
  exchanged : Bool
  observed : TableObserved Expr
  deriving Repr, DecidableEq

/-- What was expected is what was observed. -/
def TableExpected.meets {Expr : Type} [DecidableEq Expr] :
    TableExpected Expr → TableObserved Expr → Bool
  | .absent, .absent => true
  | .value expected, .value observed => expected = observed
  | _, _ => false

variable {Value Expr : Type}

namespace Factory

/-- The value found, or nil. -/
def orNil (factory : Factory Value Expr) : Option Value → Except Error Value
  | some value => .ok value
  | none => factory.nil

/-- What a compare-exchange observes. -/
def observe (factory : Factory Value Expr) :
    Option Value → Except Error (TableObserved Expr)
  | some value => do return .value (← factory.asExpr value)
  | none => return .absent

/-- The replacement; a value has to have an expression. -/
def replacing (factory : Factory Value Expr) :
    TableReplacement Value → Except Error (Option Value)
  | .delete => return none
  | .value value => do
      discard (factory.asExpr value)
      return some value

/-- A replacement is accepted as it is, once its value has an expression. -/
theorem replacing_iff
    {factory : Factory Value Expr} {replacement : TableReplacement Value}
    {change : Option Value} :
    factory.replacing replacement = .ok change ↔
      (replacement = .delete ∧ change = none) ∨
        ∃ value expr, replacement = .value value ∧
          factory.asExpr value = .ok expr ∧ change = some value := by
  cases replacement with
  | delete => simp [replacing, pure, Except.pure, eq_comm]
  | value value =>
      cases shown : factory.asExpr value <;>
        simp [replacing, shown, discard, Functor.discard, Functor.mapConst,
          Except.map, bind, Except.bind, pure, Except.pure, eq_comm]

/--
What the storage code relies on: nil and texts can be made, and their
expressions are told apart by the text.
-/
structure Lawful (factory : Factory Value Expr) (text : String → Expr) :
    Prop where
  nil : ∃ value, factory.nil = .ok value
  string : ∀ content, ∃ value, factory.string content = .ok value ∧
    factory.asExpr value = .ok (text content)
  text : Function.Injective text

end Factory

end SimStorage.Table
