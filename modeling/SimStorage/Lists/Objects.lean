import SimStorage.Table.Kernel

namespace SimStorage.Lists

/-!
# Values as lists

What a list object calls on values that are other lists: the operations of the
kernel's `ListValue` contract, which work on a state that the values share.
Whose operations they are is left open.
-/

open Table

/-- What a call may fail with: an error, or an index that is out of range. -/
inductive Failure where
  | error (error : Error)
  | outOfRange
  deriving Repr, DecidableEq

/-- An evaluation error. -/
def refused (text : String) : Failure :=
  .error (.eval text)

/--
The operations of values that are lists.  A handle that goes out of scope is
released.
-/
structure ListObjects (Value σ : Type) where
  isList : Value → Bool
  isEmpty : Value → EStateM Failure σ Bool
  car : Value → EStateM Failure σ (Option Value)
  cdr : Value → EStateM Failure σ (Option Value)
  release : Value → σ → σ

/-- How a visit of values ends. -/
inductive Visit where
  | finished
  | unfinished
  | failed (failure : Failure)
  deriving Repr, DecidableEq

end SimStorage.Lists
