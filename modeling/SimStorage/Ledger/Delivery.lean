import SimStorage.Ledger.Linked

namespace SimStorage.Ledger

/-!
# Deliveries of batches

Callers commit batches to a linked log, and a caller may act directly after its
own commit.  However often a batch is delivered, a linked log takes it in once,
so the actions of its callers run at most once together.

The module knows nothing about what callers, entries and heads are.
-/

variable {Caller Entry Head : Type}

/-- What happens at the head of a log. -/
inductive Event (Caller : Type) where
  | committed (caller : Caller)
  | acted (caller : Caller)
  | changed
  deriving DecidableEq

/-- The caller that an event is due to. -/
def Event.caller : Event Caller → Option Caller
  | .committed caller => some caller
  | .acted caller => some caller
  | .changed => none

/--
A history, latest event first, and the log that it leads to.  Every commit
appends the caller's batch after the head, and every action stands directly
after the commit of its caller.
-/
inductive Delivered (linking : Linking Entry Head)
    (batchOf : Caller → Option (List Entry)) :
    List (Event Caller) → List Entry → Prop where
  | start {log : List Entry} :
      linking.Linked none log →
      Delivered linking batchOf [] log
  | changed {history : List (Event Caller)} {log : List Entry} :
      Delivered linking batchOf history log →
      Delivered linking batchOf (.changed :: history) log
  | committed {history : List (Event Caller)} {log batch : List Entry}
      {caller : Caller} :
      Delivered linking batchOf history log →
      batchOf caller = some batch →
      linking.Linked (linking.headAfter none log) batch →
      Delivered linking batchOf (.committed caller :: history) (log ++ batch)
  | acted {history : List (Event Caller)} {log batch : List Entry}
      {caller : Caller} :
      Delivered linking batchOf history log →
      batchOf caller = some batch →
      linking.Linked (linking.headAfter none log) batch →
      Delivered linking batchOf (.acted caller :: .committed caller :: history)
        (log ++ batch)

namespace Delivered

variable {linking : Linking Entry Head}
variable {batchOf : Caller → Option (List Entry)}
variable {history later earlier : List (Event Caller)} {log : List Entry}

/-- The log of a history is linked. -/
theorem linked
    (delivered : Delivered linking batchOf history log) :
    linking.Linked none log := by
  induction delivered with
  | start linked => exact linked
  | changed _ inductionHypothesis => exact inductionHypothesis
  | committed _ _ follows inductionHypothesis =>
      exact Linking.linked_append.mpr ⟨inductionHypothesis, follows⟩
  | acted _ _ follows inductionHypothesis =>
      exact Linking.linked_append.mpr ⟨inductionHypothesis, follows⟩

/-- An action stands directly after the commit of its caller. -/
theorem after_commit
    {caller : Caller}
    (delivered : Delivered linking batchOf history log)
    (cut : history = later ++ .acted caller :: earlier) :
    ∃ rest, earlier = .committed caller :: rest := by
  induction delivered generalizing later with
  | start _ => simp at cut
  | changed _ inductionHypothesis =>
      cases later with
      | nil => cases cut
      | cons event rest => exact inductionHypothesis (List.cons.inj cut).2
  | committed _ _ _ inductionHypothesis =>
      cases later with
      | nil => cases cut
      | cons event rest => exact inductionHypothesis (List.cons.inj cut).2
  | acted _ _ _ inductionHypothesis =>
      cases later with
      | nil =>
          cases cut
          exact ⟨_, rfl⟩
      | cons event rest =>
          cases rest with
          | nil => cases cut
          | cons next rest =>
              exact inductionHypothesis
                (List.cons.inj (List.cons.inj cut).2).2

variable [DecidableEq Entry]

/-- The event is a commit of the batch. -/
def isCommit (batchOf : Caller → Option (List Entry)) (batch : List Entry) :
    Event Caller → Bool
  | .committed caller => batchOf caller = some batch
  | _ => false

/-- The event is an action for the batch. -/
def isAction (batchOf : Caller → Option (List Entry)) (batch : List Entry) :
    Event Caller → Bool
  | .acted caller => batchOf caller = some batch
  | _ => false

/-- There are no more actions for a batch than commits of it. -/
theorem actions_le_commits
    (batch : List Entry)
    (delivered : Delivered linking batchOf history log) :
    history.countP (isAction batchOf batch) ≤
      history.countP (isCommit batchOf batch) := by
  induction delivered with
  | start _ => simp
  | changed _ inductionHypothesis =>
      simpa [List.countP_cons, isAction, isCommit] using inductionHypothesis
  | committed _ _ _ inductionHypothesis =>
      simp only [List.countP_cons, isAction, isCommit, Bool.false_eq_true,
        if_false]
      omega
  | @acted _ _ _ caller _ _ _ inductionHypothesis =>
      by_cases same : batchOf caller = some batch
      · simpa [List.countP_cons, isAction, isCommit, same] using
          inductionHypothesis
      · simpa [List.countP_cons, isAction, isCommit, same] using
          inductionHypothesis

/-- A batch is committed at most once, and a committed batch is in the log. -/
theorem commits_once
    {batch : List Entry}
    (nonempty : batch ≠ [])
    (delivered : Delivered linking batchOf history log) :
    history.countP (isCommit batchOf batch) ≤ 1 ∧
      (0 < history.countP (isCommit batchOf batch) →
        ∀ entry ∈ batch, entry ∈ log) := by
  -- One more commit: the batch is new to the log, or it is another batch.
  have grows {history : List (Event Caller)} {log taken : List Entry}
      {caller : Caller}
      (working : batchOf caller = some taken)
      (linked : linking.Linked none (log ++ taken))
      (before : history.countP (isCommit batchOf batch) ≤ 1 ∧
        (0 < history.countP (isCommit batchOf batch) →
          ∀ entry ∈ batch, entry ∈ log)) :
      (Event.committed caller :: history).countP
          (isCommit batchOf batch) ≤ 1 ∧
        (0 < (Event.committed caller :: history).countP
            (isCommit batchOf batch) →
          ∀ entry ∈ batch, entry ∈ log ++ taken) := by
    rw [List.countP_cons]
    by_cases same : taken = batch
    · subst same
      have first : history.countP (isCommit batchOf taken) = 0 := by
        by_contra several
        obtain ⟨entry, rest, shape⟩ := List.exists_cons_of_ne_nil nonempty
        have inside := before.2 (Nat.pos_of_ne_zero several) entry
          (by rw [shape]; exact List.mem_cons_self)
        obtain ⟨leading, trailing, split⟩ := List.append_of_mem inside
        have again := (Linking.linked_append.mp linked).2
        rw [shape] at again
        have linkedLog := (Linking.linked_append.mp linked).1
        have position := (split ▸ linkedLog).position again.1
        rw [linkedLog.rank_headAfter, split, List.length_append,
          List.length_cons] at position
        omega
      simp only [first, isCommit, working]
      exact ⟨by simp, fun _ entry inside => List.mem_append_right _ inside⟩
    · have other : isCommit batchOf batch (.committed caller) = false := by
        simp [isCommit, working, same]
      rw [other]
      exact ⟨before.1, fun some' entry inside =>
        List.mem_append_left _ (before.2 some' entry inside)⟩
  induction delivered with
  | start _ => simp
  | changed _ inductionHypothesis =>
      simpa [List.countP_cons, isCommit] using inductionHypothesis
  | committed previous working follows inductionHypothesis =>
      exact grows working
        (Linking.linked_append.mpr ⟨previous.linked, follows⟩)
        inductionHypothesis
  | acted previous working follows inductionHypothesis =>
      have committed := grows working
        (Linking.linked_append.mpr ⟨previous.linked, follows⟩)
        inductionHypothesis
      rw [List.countP_cons]
      exact committed

/-- However often a batch is delivered, its actions run at most once. -/
theorem actions_once
    {batch : List Entry}
    (nonempty : batch ≠ [])
    (delivered : Delivered linking batchOf history log) :
    history.countP (isAction batchOf batch) ≤ 1 :=
  Nat.le_trans (delivered.actions_le_commits batch)
    (delivered.commits_once nonempty).1

end Delivered

end SimStorage.Ledger
