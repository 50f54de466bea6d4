import Mathlib.Data.List.Induction

namespace SimStorage.Walk

/-!
# Walks by names

A walk follows a path of names, each leading from a place to at most one other.
Where the names of a second map depart from those of a first only at places
after which both maps end, walks differ in their last step only.
-/

variable {ι ν : Type}

/-- Where a path leads from a place. -/
def walk (next : ι → ν → Option ι) (start : ι) (path : List ν) : Option ι :=
  path.foldlM next start

variable {next later : ι → ν → Option ι} {start : ι}

@[simp] theorem walk_nil :
    walk next start [] = some start :=
  rfl

theorem walk_cons
    (name : ν) (path : List ν) :
    walk next start (name :: path) =
      (next start name).bind fun place => walk next place path :=
  rfl

theorem walk_concat
    (front : List ν) (name : ν) :
    walk next start (front ++ [name]) =
      (walk next start front).bind fun place => next place name := by
  simp [walk, List.foldlM_append]

theorem walk_append
    (front back : List ν) :
    walk next start (front ++ back) =
      (walk next start front).bind fun place => walk next place back := by
  simp [walk, List.foldlM_append]

/-- A walk stays a walk when no place is taken away. -/
theorem walk_mono
    (stays : ∀ place name last, next place name = some last →
      later place name = some last)
    {path : List ν} {reached : ι}
    (walked : walk next start path = some reached) :
    walk later start path = some reached := by
  induction path generalizing start with
  | nil => exact walked
  | cons name rest inductionHypothesis =>
      rw [walk_cons, Option.bind_eq_some_iff] at walked
      obtain ⟨place, led, walked⟩ := walked
      rw [walk_cons, stays start name place led]
      exact inductionHypothesis walked

/-- Walks in two maps agree, or depart in the last step. -/
theorem walk_eq_or_departs
    {departs : ι → ν → Prop}
    (same : ∀ place name, ¬ departs place name →
      later place name = next place name)
    (ends : ∀ place name, departs place name → ∀ last,
      next place name = some last → ∀ name, next last name = none)
    (laterEnds : ∀ place name, departs place name → ∀ last,
      later place name = some last → ∀ name, later last name = none)
    (path : List ν) :
    walk later start path = walk next start path ∨
      ∃ front name place, path = front ++ [name] ∧
        walk next start front = some place ∧
        walk later start front = some place ∧ departs place name := by
  induction path using List.reverseRecOn with
  | nil => exact .inl rfl
  | append_singleton front name inductionHypothesis =>
      rw [walk_concat, walk_concat]
      rcases inductionHypothesis with agree | departed
      · rw [agree]
        cases reached : walk next start front with
        | none => exact .inl rfl
        | some place =>
            by_cases departing : departs place name
            · exact .inr ⟨front, name, place, rfl, reached,
                agree.trans reached, departing⟩
            · exact .inl (same place name departing)
      · obtain ⟨before, last, place, rfl, reached, also, departing⟩ := departed
        left
        rw [walk_concat, walk_concat, reached, also]
        have first : (next place last).bind (next · name) = none := by
          cases led : next place last with
          | none => rfl
          | some other => exact ends place last departing other led name
        have second : (later place last).bind (later · name) = none := by
          cases led : later place last with
          | none => rfl
          | some other => exact laterEnds place last departing other led name
        exact second.trans first.symm

end SimStorage.Walk
