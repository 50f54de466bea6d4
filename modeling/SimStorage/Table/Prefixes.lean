import Mathlib.Data.List.Infix
import SimStorage.Table.Entries

namespace SimStorage.Prefixes

/-!
# The longest entry above a path

Entries that stand under paths, and of those above or at a given path the one
whose path is longest.  What stands above one path is ordered by length, so
that entry is the nearest.
-/

variable {ν α : Type} [DecidableEq ν]

/-- Of the entries above or at a path, one whose path is longest. -/
def longest (path : List ν) :
    List (List ν × α) → Option (List ν × α)
  | [] => none
  | entry :: rest =>
      if entry.1 <+: path then
        match longest path rest with
        | some best =>
            if entry.1.length ≤ best.1.length then some best else some entry
        | none => some entry
      else
        longest path rest

/-- The entry is the nearest above or at the path. -/
def Nearest (entries : List (List ν × α)) (path : List ν)
    (entry : List ν × α) : Prop :=
  entry ∈ entries ∧ entry.1 <+: path ∧
    ∀ other ∈ entries, other.1 <+: path → other.1 <+: entry.1

/-- No entry is above or at the path. -/
def Uncovered (entries : List (List ν × α)) (path : List ν) : Prop :=
  ∀ entry ∈ entries, ¬ entry.1 <+: path

variable {entries : List (List ν × α)} {path front : List ν}
variable {entry other : List ν × α}

omit [DecidableEq ν] in
/-- Paths above one path are one above the other. -/
theorem above_of_length
    {first second : List ν}
    (firstAbove : first <+: path)
    (secondAbove : second <+: path)
    (shorter : first.length ≤ second.length) :
    first <+: second :=
  List.prefix_of_prefix_length_le firstAbove secondAbove shorter

theorem longest_eq_none :
    longest path entries = none ↔ Uncovered entries path := by
  induction entries with
  | nil => simp [longest, Uncovered]
  | cons head rest inductionHypothesis =>
      by_cases above : head.1 <+: path
      · have covered : ¬ Uncovered (head :: rest) path := fun uncovered =>
          uncovered head List.mem_cons_self above
        cases found : longest path rest with
        | none => simp [longest, above, found, covered]
        | some best =>
            simp only [longest, above, if_true, found, covered, iff_false]
            split <;> simp
      · simp only [longest, above, if_false, inductionHypothesis]
        simp [Uncovered, above]

/-- What the longest entry is, it is the nearest. -/
theorem nearest_of_longest
    (found : longest path entries = some entry) :
    Nearest entries path entry := by
  induction entries generalizing entry with
  | nil => simp [longest] at found
  | cons head rest inductionHypothesis =>
      by_cases above : head.1 <+: path
      · simp only [longest, above, if_true] at found
        cases later : longest path rest with
        | none =>
            simp only [later, Option.some.injEq] at found
            subst found
            refine ⟨List.mem_cons_self, above, fun other member otherAbove => ?_⟩
            rcases List.mem_cons.mp member with rfl | inRest
            · exact List.prefix_rfl
            · exact absurd otherAbove (longest_eq_none.mp later other inRest)
        | some best =>
            obtain ⟨inRest, bestAbove, nearest⟩ := inductionHypothesis later
            simp only [later] at found
            split at found
            · rename_i shorter
              cases found
              refine ⟨List.mem_cons_of_mem _ inRest, bestAbove,
                fun other member otherAbove => ?_⟩
              rcases List.mem_cons.mp member with rfl | otherInRest
              · exact above_of_length above bestAbove shorter
              · exact nearest other otherInRest otherAbove
            · rename_i longer
              cases found
              have bestShorter : best.1.length ≤ head.1.length :=
                (Nat.lt_of_not_le longer).le
              refine ⟨List.mem_cons_self, above,
                fun other member otherAbove => ?_⟩
              rcases List.mem_cons.mp member with rfl | otherInRest
              · exact List.prefix_rfl
              · exact (nearest other otherInRest otherAbove).trans
                  (above_of_length bestAbove above bestShorter)
      · simp only [longest, above, if_false] at found
        obtain ⟨inRest, bestAbove, nearest⟩ := inductionHypothesis found
        refine ⟨List.mem_cons_of_mem _ inRest, bestAbove,
          fun other member otherAbove => ?_⟩
        rcases List.mem_cons.mp member with rfl | otherInRest
        · exact absurd otherAbove above
        · exact nearest other otherInRest otherAbove

omit [DecidableEq ν] in
/-- Only one entry is the nearest, when no path has two. -/
theorem Nearest.unique
    (distinct : Entries.Distinct entries)
    (first : Nearest entries path entry)
    (second : Nearest entries path other) :
    entry = other := by
  have below := second.2.2 entry first.1 first.2.1
  have above := first.2.2 other second.1 second.2.1
  have samePath : entry.1 = other.1 :=
    below.eq_of_length (below.length_le.antisymm above.length_le)
  exact List.inj_on_of_nodup_map distinct first.1 second.1 samePath

theorem longest_eq_some
    (distinct : Entries.Distinct entries) :
    longest path entries = some entry ↔ Nearest entries path entry := by
  constructor
  · exact nearest_of_longest
  · intro nearest
    cases found : longest path entries with
    | none =>
        exact absurd nearest.2.1 (longest_eq_none.mp found entry nearest.1)
    | some best =>
        rw [(nearest_of_longest found).unique distinct nearest]

end SimStorage.Prefixes
