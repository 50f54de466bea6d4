import SimStorage.Table.Kernel

namespace SimStorage.Table

/-!
# Values as tables and directories

What a storage object calls on the values that it is given: the operations of
the kernel's `Table` and `Dir` contracts, which work on a state that the
values share.  Whose operations they are is left open.
-/

/-- The operations of values that are tables and directories. -/
structure Objects (Value Expr σ : Type) where
  factory : Factory Value Expr
  isTable : Value → Bool
  isDir : Value → Bool
  asExpr : Cx → Value → EStateM Error σ Expr
  get : Cx → Value → Symbol → EStateM Error σ Value
  set : Cx → Value → Symbol → Value → EStateM Error σ Unit
  has : Cx → Value → Symbol → EStateM Error σ Bool
  del : Cx → Value → Symbol → EStateM Error σ Value
  keys : Cx → Value → EStateM Error σ (List Symbol)
  entries : Cx → Value → EStateM Error σ (List (Symbol × Value))
  clear : Cx → Value → EStateM Error σ Unit
  compareExchange : Cx → Value → Symbol → TableExpected Expr →
    TableReplacement Value → EStateM Error σ (TableCompareExchange Expr)
  mkdir : Cx → Value → Symbol → EStateM Error σ Value
  opendir : Cx → Value → Symbol → EStateM Error σ (Option Value)
  rmdir : Cx → Value → Symbol → EStateM Error σ Value
  hasDir : Cx → Value → Symbol → EStateM Error σ Bool

end SimStorage.Table
