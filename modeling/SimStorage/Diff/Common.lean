import Mathlib.Data.List.Basic
import Mathlib.Data.List.Sublists
import Mathlib.Order.Lattice

namespace SimStorage.Diff

/-!
# Longest common subsequences

The length of a longest common subsequence of two lists, by the usual
recursion, and what it says about common sublists.
-/

variable {α : Type} [DecidableEq α]

/-- The length of a longest common subsequence. -/
def common : List α → List α → Nat
  | [], _ => 0
  | _, [] => 0
  | first :: xs, second :: ys =>
      if first = second then
        common xs ys + 1
      else
        max (common xs (second :: ys)) (common (first :: xs) ys)
termination_by xs ys => xs.length + ys.length

@[simp] theorem common_nil_left
    (ys : List α) :
    common [] ys = 0 := by
  rw [common]

@[simp] theorem common_nil_right
    (xs : List α) :
    common xs [] = 0 := by
  cases xs with
  | nil => rw [common]
  | cons head rest => rw [common]; nofun

theorem common_cons_same
    (head : α) (xs ys : List α) :
    common (head :: xs) (head :: ys) = common xs ys + 1 := by
  rw [common, if_pos rfl]

theorem common_cons_differ
    {first second : α}
    (differ : first ≠ second)
    (xs ys : List α) :
    common (first :: xs) (second :: ys) =
      max (common xs (second :: ys)) (common (first :: xs) ys) := by
  rw [common, if_neg differ]

variable {xs ys zs : List α}

/-- Some common sublist has that length. -/
theorem exists_common
    (xs ys : List α) :
    ∃ zs : List α, zs.Sublist xs ∧ zs.Sublist ys ∧ zs.length = common xs ys := by
  induction xs, ys using common.induct with
  | case1 ys => exact ⟨[], List.nil_sublist _, List.nil_sublist _, by simp⟩
  | case2 xs _ => exact ⟨[], List.nil_sublist _, List.nil_sublist _, by simp⟩
  | case3 xs head ys inductionHypothesis =>
      obtain ⟨zs, first, second, size⟩ := inductionHypothesis
      refine ⟨head :: zs, first.cons_cons head, second.cons_cons head, ?_⟩
      rw [common_cons_same, List.length_cons, size]
  | case4 first xs second ys differ dropFirst dropSecond =>
      rw [common_cons_differ differ]
      rcases Nat.le_total (common xs (second :: ys)) (common (first :: xs) ys)
        with less | less
      · obtain ⟨zs, left, right, size⟩ := dropSecond
        exact ⟨zs, left, right.cons second, by rw [size, max_eq_right less]⟩
      · obtain ⟨zs, left, right, size⟩ := dropFirst
        exact ⟨zs, left.cons first, right, by rw [size, max_eq_left less]⟩

/-- No common sublist is longer. -/
theorem length_le_common
    (left : zs.Sublist xs)
    (right : zs.Sublist ys) :
    zs.length ≤ common xs ys := by
  induction xs, ys using common.induct generalizing zs with
  | case1 ys =>
      rw [List.sublist_nil.mp left]
      exact Nat.zero_le _
  | case2 xs _ =>
      rw [List.sublist_nil.mp right]
      exact Nat.zero_le _
  | case3 xs head ys inductionHypothesis =>
      rw [common_cons_same]
      have shorter := inductionHypothesis left.tail right.tail
      rw [List.length_tail] at shorter
      exact Nat.le_add_of_sub_le shorter
  | case4 first xs second ys differ dropFirst dropSecond =>
      rw [common_cons_differ differ]
      rcases List.sublist_cons_iff.mp left with inRest | ⟨rest, rfl, _⟩
      · exact (dropFirst inRest right).trans (le_max_left _ _)
      · rcases List.sublist_cons_iff.mp right with inRest | ⟨_, same, _⟩
        · exact (dropSecond left inRest).trans (le_max_right _ _)
        · exact absurd (List.cons.inj same).1 differ

theorem common_le_left
    (xs ys : List α) :
    common xs ys ≤ xs.length := by
  obtain ⟨zs, left, _, size⟩ := exists_common xs ys
  rw [← size]
  exact left.length_le

theorem common_comm
    (xs ys : List α) :
    common xs ys = common ys xs := by
  apply Nat.le_antisymm
  · obtain ⟨zs, left, right, size⟩ := exists_common xs ys
    rw [← size]
    exact length_le_common right left
  · obtain ⟨zs, left, right, size⟩ := exists_common ys xs
    rw [← size]
    exact length_le_common right left

theorem common_le_right
    (xs ys : List α) :
    common xs ys ≤ ys.length := by
  rw [common_comm]
  exact common_le_left ys xs

omit [DecidableEq α] in
/-- Without its last element, a sublist avoids the last element. -/
theorem dropLast_sublist_of_concat
    {last : α}
    (sublist : zs.Sublist (xs ++ [last])) :
    zs.dropLast.Sublist xs := by
  obtain ⟨front, back, rfl, inFront, inLast⟩ := List.sublist_append_iff.mp sublist
  rcases List.sublist_singleton.mp inLast with rfl | rfl
  · rw [List.append_nil]
    exact (List.dropLast_sublist front).trans inFront
  · rw [List.dropLast_concat]
    exact inFront

/-- A common last element belongs to a longest common subsequence. -/
theorem common_concat
    (xs ys : List α) (last : α) :
    common (xs ++ [last]) (ys ++ [last]) = common xs ys + 1 := by
  apply Nat.le_antisymm
  · obtain ⟨zs, left, right, size⟩ := exists_common (xs ++ [last]) (ys ++ [last])
    have shorter := length_le_common (dropLast_sublist_of_concat left)
      (dropLast_sublist_of_concat right)
    rw [List.length_dropLast] at shorter
    rw [← size]
    exact Nat.le_add_of_sub_le shorter
  · obtain ⟨zs, left, right, size⟩ := exists_common xs ys
    have longer := length_le_common
      (left.append_right [last]) (right.append_right [last])
    rw [List.length_append, List.length_singleton, size] at longer
    exact longer

/-- A common suffix belongs to a longest common subsequence. -/
theorem common_append_right
    (xs ys suffix : List α) :
    common (xs ++ suffix) (ys ++ suffix) = common xs ys + suffix.length := by
  induction suffix using List.reverseRecOn with
  | nil => simp
  | append_singleton suffix last inductionHypothesis =>
      rw [← List.append_assoc, ← List.append_assoc, common_concat,
        inductionHypothesis, List.length_append, List.length_singleton,
        Nat.add_assoc]

end SimStorage.Diff
