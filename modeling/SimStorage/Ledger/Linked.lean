import Mathlib.Data.List.Basic
import Mathlib.Data.List.Induction

namespace SimStorage.Ledger

/-!
# Linked logs

A log is linked when every entry is admitted by the head that the entries
before it make.  Heads carry a rank that grows by one with every entry, so the
position of an entry is determined by the entry itself.

The module knows nothing about what entries and heads are.
-/

variable {Entry Head : Type}

/-- How entries make heads, which entries a head admits, and a head's rank. -/
structure Linking (Entry Head : Type) where
  headOf : Entry → Head
  admits : Option Head → Entry → Prop
  rank : Option Head → Nat
  rank_none : rank none = 0
  rank_headOf :
    ∀ {head entry}, admits head entry →
      rank (some (headOf entry)) = rank head + 1
  admits_unique :
    ∀ {first second entry}, admits first entry → admits second entry →
      rank first = rank second

namespace Linking

variable (linking : Linking Entry Head)

/-- The head after appending entries to a given head. -/
def headAfter : Option Head → List Entry → Option Head
  | head, [] => head
  | _, entry :: rest => headAfter (some (linking.headOf entry)) rest

/-- Every entry is admitted by the head before it. -/
def Linked : Option Head → List Entry → Prop
  | _, [] => True
  | head, entry :: rest =>
      linking.admits head entry ∧ Linked (some (linking.headOf entry)) rest

variable {linking}
variable {head : Option Head} {log first second : List Entry}

@[simp] theorem headAfter_nil :
    linking.headAfter head [] = head :=
  rfl

@[simp] theorem headAfter_cons
    (entry : Entry)
    (rest : List Entry) :
    linking.headAfter head (entry :: rest) =
      linking.headAfter (some (linking.headOf entry)) rest :=
  rfl

/-- Appending twice is appending the concatenation. -/
theorem headAfter_append :
    linking.headAfter head (first ++ second) =
      linking.headAfter (linking.headAfter head first) second := by
  induction first generalizing head with
  | nil => rfl
  | cons entry rest inductionHypothesis => exact inductionHypothesis

/-- A concatenation is linked when both parts are, one after the other. -/
theorem linked_append :
    linking.Linked head (first ++ second) ↔
      linking.Linked head first ∧
        linking.Linked (linking.headAfter head first) second := by
  induction first generalizing head with
  | nil => simp [Linked]
  | cons entry rest inductionHypothesis =>
      simp only [List.cons_append, Linked, headAfter_cons,
        inductionHypothesis, and_assoc]

/-- The head after a nonempty list is the head of its last entry. -/
theorem headAfter_eq_getLast :
    linking.headAfter head log =
      (log.getLast?.map linking.headOf).or head := by
  induction log generalizing head with
  | nil => rfl
  | cons entry rest inductionHypothesis =>
      rw [headAfter_cons, inductionHypothesis]
      cases rest with
      | nil => rfl
      | cons next rest =>
          rw [List.getLast?_cons_cons,
            List.getLast?_eq_some_getLast (List.cons_ne_nil next rest)]
          rfl

/-- The rank counts the entries. -/
theorem Linked.rank_headAfter
    (linked : linking.Linked head log) :
    linking.rank (linking.headAfter head log) =
      linking.rank head + log.length := by
  induction log generalizing head with
  | nil => rfl
  | cons entry rest inductionHypothesis =>
      obtain ⟨admitted, later⟩ := linked
      rw [headAfter_cons, inductionHypothesis later,
        linking.rank_headOf admitted, List.length_cons]
      omega

/-- The entry at a position is admitted by the head of the entries before. -/
theorem Linked.admits_at
    (linked : linking.Linked head (first ++ entry :: second)) :
    linking.admits (linking.headAfter head first) entry :=
  (linked_append.mp linked).2.1

/-- The head before an entry has the rank of the entry's position. -/
theorem Linked.rank_before
    {entry : Entry}
    (linked : linking.Linked head (first ++ entry :: second)) :
    linking.rank (linking.headAfter head first) =
      linking.rank head + first.length :=
  (linked_append.mp linked).1.rank_headAfter

/-- An entry stands at the position that any head admitting it has as rank. -/
theorem Linked.position
    {entry : Entry} {other : Option Head}
    (linked : linking.Linked head (first ++ entry :: second))
    (admitted : linking.admits other entry) :
    linking.rank other = linking.rank head + first.length := by
  rw [← linked.rank_before]
  exact linking.admits_unique admitted linked.admits_at

/--
Linked logs with one head are equal, when a head determines the entry that made
it and an entry determines the head before it.
-/
theorem Linked.unique
    (linked : linking.Linked none first)
    (other : linking.Linked none second)
    (same : linking.headAfter none first = linking.headAfter none second)
    (entries : ∀ one ∈ first, ∀ two ∈ second,
      linking.headOf one = linking.headOf two → one = two)
    (heads : ∀ {before after entry},
      linking.admits before entry → linking.admits after entry →
      before = after) :
    first = second := by
  induction first using List.reverseRecOn generalizing second with
  | nil =>
      rw [headAfter_eq_getLast, headAfter_eq_getLast] at same
      cases last : second.getLast? with
      | none => exact (List.getLast?_eq_none_iff.mp last).symm
      | some entry => simp [last] at same
  | append_singleton leading entry inductionHypothesis =>
      rcases List.eq_nil_or_concat second with none | ⟨trailing, last, shape⟩
      · subst none
        simp [headAfter_eq_getLast] at same
      · rw [List.concat_eq_append] at shape
        subst shape
        simp only [headAfter_append, headAfter_cons, headAfter_nil,
          Option.some.injEq] at same
        have equal : entry = last :=
          entries entry (by simp) last (by simp) same
        subst equal
        have before := heads linked.admits_at other.admits_at
        rw [inductionHypothesis (linked_append.mp linked).1
          (linked_append.mp other).1 before]
        intro one inFirst two inSecond
        exact entries one (List.mem_append_left _ inFirst) two
          (List.mem_append_left _ inSecond)

end Linking

end SimStorage.Ledger
