import SimStorage.Table.Kernel
import SimStorage.Table.Path

namespace SimStorage.Table

/-!
# A concrete kernel for tables

Values that are nil or texts, which are their own expressions, and the names
that the kernel's path rules admit.
-/

/-- A factory of nil and texts. -/
def referenceFactory : Factory (Option String) (Option String) where
  nil := .ok none
  string content := .ok (some content)
  asExpr value := .ok value

/-- The factory does what is relied on. -/
theorem referenceFactory_lawful :
    referenceFactory.Lawful some where
  nil := ⟨none, rfl⟩
  string content := ⟨some content, rfl, rfl⟩
  text := Option.some_injective String

/-- A context with all capabilities. -/
def fullCx : Cx where
  granted _ := true

/-- Names that are not empty, not dots, and have no slash of either kind. -/
def referenceLegal (name : String) : Bool :=
  name ≠ "" && name ≠ "." && name ≠ ".." && '/' ∉ name.toList &&
    '\\' ∉ name.toList

/-- Legal names are told apart in paths. -/
theorem referenceLegal_plain
    (name : String)
    (legal : referenceLegal name = true) :
    Path.Plain name := by
  simp only [referenceLegal, Bool.and_eq_true, decide_eq_true_eq] at legal
  exact ⟨legal.1.1.1.1, legal.1.2⟩

end SimStorage.Table
