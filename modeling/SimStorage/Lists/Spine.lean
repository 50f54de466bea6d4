import Mathlib.Data.List.Perm.Basic
import SimStorage.Interaction.Outcome
import SimStorage.Lists.Plain

namespace SimStorage.Lists

/-!
# Walking a spine

A spine gives the head and the tail of what a handle refers to.  The walks that
`get` and `for_each` make along it are written once; where the spine gives the
values of a sequence, they give what the sequence answers.
-/

open Interaction Table

variable {Value Handle σ α : Type}

/--
The operations of the cells of a list.  A handle that goes out of scope is
released; of a tail that is no list, the walks see nothing.
-/
structure Spine (Value Handle σ : Type) where
  isEmpty : Handle → EStateM Failure σ Bool
  car : Handle → EStateM Failure σ (Option Value)
  cdr : Handle → EStateM Failure σ (Option Handle)
  release : Handle → σ → σ

/-- A call after which the state is tidied, whether it returns or fails. -/
def tidying (call : EStateM Failure σ α) (tidy : σ → σ) :
    EStateM Failure σ α := fun state =>
  match call state with
  | .ok value later => .ok value (tidy later)
  | .error failure later => .error failure (tidy later)

namespace Spine

section Walks

variable (spine : Spine Value Handle σ)

/-- A handle goes out of scope, if there is one. -/
def dropped : Option Handle → σ → σ
  | none => id
  | some handle => spine.release handle

/-- How a walk begins: the head and the tail. -/
def begin (handle : Handle) :
    EStateM Failure σ (Option Value × Option Handle) := do
  let head ← spine.car handle
  let tail ← spine.cdr handle
  return (head, tail)

/-- A step along the spine: the head and the tail of a tail that is not empty. -/
def advance (handle : Handle) :
    EStateM Failure σ (Option (Option Value × Option Handle)) :=
  tidying
    (do
      if ← spine.isEmpty handle then
        return none
      else
        some <$> spine.begin handle)
    (spine.release handle)

/-- The loop of `get`. -/
def getFrom : Nat → Option Value → Option Handle →
    EStateM Failure σ (Option Value)
  | _, none, tail => do
      modify (spine.dropped tail)
      return none
  | 0, some value, tail => do
      modify (spine.dropped tail)
      return some value
  | _ + 1, some _, none => return none
  | index + 1, some _, some handle => do
      match ← spine.advance handle with
      | none => return none
      | some (head, tail) => getFrom index head tail

/-- `get`. -/
def get (handle : Handle) (index : Nat) : EStateM Failure σ (Option Value) := do
  let (head, tail) ← spine.begin handle
  spine.getFrom index head tail

/--
The loop of `for_each`: the values that were visited, and how it ended.  It
visits so many values at most, as an unlimited visit may have no end.
-/
def visitFrom (limit : Option Nat) : Nat → Nat → Option Value →
    Option Handle → EStateM Failure σ (List Value × Visit)
  | _, _, none, tail => do
      modify (spine.dropped tail)
      return ([], .finished)
  | 0, count, some _, tail => do
      modify (spine.dropped tail)
      return ([], if limit.any (· ≤ count) then .finished else .unfinished)
  | turns + 1, count, some value, tail => do
      if limit.any (· ≤ count) then
        modify (spine.dropped tail)
        return ([], .finished)
      else
        match tail with
        | none => return ([value], .finished)
        | some handle => do
            match ← observe (spine.advance handle) with
            | .error failure => return ([value], .failed failure)
            | .ok none => return ([value], .finished)
            | .ok (some (head, tail)) =>
                let (visited, ended) ←
                  visitFrom limit turns (count + 1) head tail
                return (value :: visited, ended)

/-- `for_each`. -/
def forEach (handle : Handle) (turns : Nat) (limit : Option Nat) :
    EStateM Failure σ (List Value × Visit) := do
  if limit = some 0 then
    return ([], .finished)
  else
    match ← observe (spine.begin handle) with
    | .error failure => return ([], .failed failure)
    | .ok (head, tail) => spine.visitFrom limit turns 0 head tail

end Walks

section Contract

/-- Handles that are held, with what they give. -/
abbrev Held (Value Handle : Type) :=
  List (Handle × Sequence Value)

/-- The handle of a rest, with what it gives. -/
def behind (rest : Option Handle) (sequence : Sequence Value) :
    Held Value Handle :=
  rest.toList.map fun handle => (handle, sequence.drop 1)

/-- There may be no rest only where the sequence has no second value. -/
def Rests (sequence : Sequence Value) (rest : Option Handle) : Prop :=
  rest = none → sequence 1 = none

/--
The handles that are held give their sequences, whatever is done to them: what
holds of the handles and the state is kept by every call.
-/
structure Keeps (spine : Spine Value Handle σ)
    (holds : Held Value Handle → σ → Prop) : Prop where
  ends : ∀ held state, holds held state → ∀ handle sequence,
    (handle, sequence) ∈ held → sequence.Ends
  perm : ∀ held other state, List.Perm held other → holds held state →
    holds other state
  isEmpty : ∀ held state, holds held state → ∀ handle sequence,
    (handle, sequence) ∈ held → ∃ later,
      Yields (spine.isEmpty handle) state (.ok (sequence 0).isNone) later ∧
        holds held later
  car : ∀ held state, holds held state → ∀ handle sequence,
    (handle, sequence) ∈ held → ∃ later,
      Yields (spine.car handle) state (.ok (sequence 0)) later ∧
        holds held later
  cdr : ∀ held state, holds held state → ∀ handle sequence,
    (handle, sequence) ∈ held → ∃ rest later,
      Yields (spine.cdr handle) state (.ok rest) later ∧
        Rests sequence rest ∧ holds (behind rest sequence ++ held) later
  release : ∀ held state handle sequence,
    holds ((handle, sequence) :: held) state →
      holds held (spine.release handle state)

variable {spine : Spine Value Handle σ}
variable {holds : Held Value Handle → σ → Prop}
variable {held : Held Value Handle} {state later : σ}
variable {handle : Handle} {sequence : Sequence Value}

/-- What is tidied afterwards does not change the outcome. -/
theorem tidying_yields
    {call : EStateM Failure σ α} {tidy : σ → σ} {outcome : Except Failure α}
    (yields : Yields call state outcome later) :
    Yields (tidying call tidy) state outcome (tidy later) := by
  rw [Yields] at yields ⊢
  simp only [tidying, yields]
  cases outcome <;> rfl

/-- A rest goes out of scope. -/
theorem Keeps.dropped
    (keeps : spine.Keeps holds)
    {rest : Option Handle}
    (holding : holds (behind rest sequence ++ held) state) :
    holds held (spine.dropped rest state) := by
  cases rest with
  | none => exact holding
  | some handle => exact keeps.release held state handle _ holding

/-- A walk begins with the first value and what is behind it. -/
theorem Keeps.begin_yields
    (keeps : spine.Keeps holds)
    (holding : holds held state)
    (member : (handle, sequence) ∈ held) :
    ∃ rest later, Yields (spine.begin handle) state
        (.ok (sequence 0, rest)) later ∧
      Rests sequence rest ∧ holds (behind rest sequence ++ held) later := by
  rcases keeps.car held state holding handle sequence member with
    ⟨middle, heads, kept⟩
  rcases keeps.cdr held middle kept handle sequence member with
    ⟨rest, later, tails, rests, kept⟩
  exact ⟨rest, later, heads.bind (tails.bind (Yields.pure _ later)), rests, kept⟩

/-- A step finds the end, or takes a handle to the one behind it. -/
theorem Keeps.advance_yields
    (keeps : spine.Keeps holds)
    (holding : holds ((handle, sequence) :: held) state) :
    (∃ later, Yields (spine.advance handle) state (.ok none) later ∧
        sequence 0 = none ∧ holds held later) ∨
      ∃ rest later, Yields (spine.advance handle) state
          (.ok (some (sequence 0, rest))) later ∧
        (sequence 0).isSome = true ∧ Rests sequence rest ∧
          holds (behind rest sequence ++ held) later := by
  have member : (handle, sequence) ∈ (handle, sequence) :: held :=
    List.mem_cons_self
  rcases keeps.isEmpty _ state holding handle sequence member with
    ⟨middle, empty, kept⟩
  cases found : sequence 0 with
  | none =>
      rw [found] at empty
      exact .inl ⟨_, tidying_yields (empty.bind (Yields.pure none middle)), rfl,
        keeps.release held middle handle sequence kept⟩
  | some value =>
      rw [found] at empty
      rcases keeps.begin_yields kept member with
        ⟨rest, later, begins, rests, kept⟩
      rw [found] at begins
      refine .inr ⟨rest, _, tidying_yields (empty.bind (begins.map some)), rfl,
        rests, keeps.release _ later handle sequence ?_⟩
      exact keeps.perm _ _ later List.perm_middle kept

/-- The loop of `get`, from a value and what is behind it. -/
theorem Keeps.getFrom_yields
    (keeps : spine.Keeps holds)
    (index : Nat)
    (ends : sequence.Ends)
    {rest : Option Handle}
    (rests : Rests sequence rest)
    (holding : holds (behind rest sequence ++ held) state) :
    ∃ later, Yields (spine.getFrom index (sequence 0) rest) state
        (.ok (sequence index)) later ∧
      holds held later := by
  induction index generalizing sequence rest state with
  | zero =>
      refine ⟨_, ?_, keeps.dropped holding⟩
      cases sequence 0 <;> exact (Yields.modify _ _).bind (Yields.pure _ _)
  | succ index inductionHypothesis =>
      cases found : sequence 0 with
      | none =>
          rw [ends.after (Nat.zero_le (index + 1)) found]
          exact ⟨_, (Yields.modify _ _).bind (Yields.pure none _),
            keeps.dropped holding⟩
      | some value =>
          cases rest with
          | none =>
              rw [ends.after (Nat.le_add_left 1 index) (rests rfl)]
              exact ⟨state, Yields.pure none state, holding⟩
          | some handle =>
              have next : sequence (index + 1) = sequence.drop 1 index := by
                rw [Sequence.drop, Nat.add_comm]
              rcases keeps.advance_yields holding with
                ⟨middle, stops, ended, kept⟩ |
                ⟨rest, middle, steps, _, rests, kept⟩
              · rw [next, (ends.drop 1).after (Nat.zero_le index) ended]
                exact ⟨middle, stops.bind (Yields.pure none middle), kept⟩
              · rcases inductionHypothesis (ends.drop 1) rests kept with
                  ⟨later, runs, kept⟩
                rw [next]
                exact ⟨later, steps.bind runs, kept⟩

/-- `get` gives the value at the index. -/
theorem Keeps.get_yields
    (keeps : spine.Keeps holds)
    (holding : holds held state)
    (member : (handle, sequence) ∈ held)
    (index : Nat) :
    ∃ later, Yields (spine.get handle index) state (.ok (sequence index))
        later ∧
      holds held later := by
  have ends := keeps.ends held state holding handle sequence member
  rcases keeps.begin_yields holding member with
    ⟨rest, middle, begins, rests, kept⟩
  rcases keeps.getFrom_yields index ends rests kept with ⟨later, runs, kept⟩
  exact ⟨later, begins.bind runs, kept⟩

/-- The loop of `for_each` where it stops, at the end or at its limit. -/
theorem visitFrom_stops
    {limit : Option Nat} {turns count : Nat} {head : Option Value}
    (stops : head = none ∨ limit.any (· ≤ count) = true)
    (rest : Option Handle) (state : σ) :
    Yields (spine.visitFrom limit turns count head rest) state
      (.ok ([], .finished)) (spine.dropped rest state) := by
  cases head with
  | none => cases turns <;> exact (Yields.modify _ _).bind (Yields.pure _ _)
  | some value =>
      rcases stops with impossible | enough
      · cases impossible
      · cases turns <;> simp only [visitFrom, enough, if_true] <;>
          exact (Yields.modify _ _).bind (Yields.pure _ _)

/-- The loop of `for_each`, from a value and what is behind it. -/
theorem Keeps.visitFrom_yields
    (keeps : spine.Keeps holds)
    (limit : Option Nat) (turns count : Nat)
    {rest : Option Handle}
    (rests : Rests sequence rest)
    (holding : holds (behind rest sequence ++ held) state) :
    ∃ later, Yields (spine.visitFrom limit turns count (sequence 0) rest) state
        (.ok (sequence.visits limit turns count)) later ∧
      holds held later := by
  induction turns generalizing count sequence rest state with
  | zero =>
      refine ⟨_, ?_, keeps.dropped holding⟩
      cases found : sequence 0 with
      | none =>
          rw [Sequence.visits_ended found]
          exact visitFrom_stops (.inl rfl) rest state
      | some value =>
          simp only [visitFrom, Sequence.visits, found, Option.isNone_some,
            Bool.false_or]
          exact (Yields.modify _ _).bind (Yields.pure _ _)
  | succ turns inductionHypothesis =>
      cases found : sequence 0 with
      | none =>
          rw [Sequence.visits_ended found]
          exact ⟨_, visitFrom_stops (.inl rfl) rest state,
            keeps.dropped holding⟩
      | some value =>
          by_cases enough : limit.any (· ≤ count) = true
          · rw [Sequence.visits_limited enough]
            exact ⟨_, visitFrom_stops (.inr enough) rest state,
              keeps.dropped holding⟩
          · rw [Sequence.visits_step found enough]
            simp only [visitFrom, enough, Bool.false_eq_true, if_false]
            cases rest with
            | none =>
                rw [Sequence.visits_ended (rests rfl)]
                exact ⟨state, Yields.pure _ state, holding⟩
            | some handle =>
                rcases keeps.advance_yields holding with
                  ⟨middle, stops, ended, kept⟩ |
                  ⟨rest, middle, steps, _, rests, kept⟩
                · rw [Sequence.visits_ended ended]
                  exact ⟨middle, stops.observe.bind (Yields.pure _ middle),
                    kept⟩
                · rcases inductionHypothesis (count + 1) rests kept with
                    ⟨later, runs, kept⟩
                  exact ⟨later, steps.observe.bind
                    (runs.bind (Yields.pure _ later)), kept⟩

/-- `for_each` visits the values. -/
theorem Keeps.forEach_yields
    (keeps : spine.Keeps holds)
    (holding : holds held state)
    (member : (handle, sequence) ∈ held)
    (turns : Nat) (limit : Option Nat) :
    ∃ later, Yields (spine.forEach handle turns limit) state
        (.ok (sequence.visits limit turns 0)) later ∧
      holds held later := by
  by_cases zero : limit = some 0
  · have enough : limit.any (· ≤ 0) = true := by
      rw [zero]
      rfl
    rw [Sequence.visits_limited enough]
    refine ⟨state, ?_, holding⟩
    simp only [forEach, zero, if_true]
    exact Yields.pure _ state
  · rcases keeps.begin_yields holding member with
      ⟨rest, middle, begins, rests, kept⟩
    rcases keeps.visitFrom_yields limit turns 0 rests kept with
      ⟨later, runs, kept⟩
    refine ⟨later, ?_, kept⟩
    simp only [forEach, zero, if_false]
    exact begins.observe.bind runs

end Contract

end Spine

end SimStorage.Lists
