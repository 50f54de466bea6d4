import SimStorage.Interaction.Outcome
import SimStorage.Lists.Scripts

namespace SimStorage.Lists

/-!
# The cons-cell list

A cell holds a value and the next cell, or a value and the value of another
list, which is kept as it is.  The cells do not change; only another list has a
state of its own.
-/

open Interaction Table

variable {Value σ : Type}

/-- `ConsList`, with `Rest` as what a cell holds beside its value. -/
inductive ConsList (Value : Type) where
  | empty
  | cell (car : Value) (next : ConsList Value)
  | cellForeign (car : Value) (tail : Value)
  deriving Repr, DecidableEq

namespace ConsList

/-- `from_vec`. -/
def fromVec (items : List Value) : ConsList Value :=
  items.foldr cell empty

/-- A handle of a list: of cells, or of another kind. -/
abbrev Handle (Value : Type) :=
  ConsList Value ⊕ Value

section Operations

variable (lists : ListValue Value Value σ) (isList : Value → Bool)

/-- `foreign_as_list`. -/
def foreignAsList (tail : Value) : EStateM Failure σ Value :=
  if isList tail then
    return tail
  else
    throw (.error (.typeMismatch "list" "non-list"))

/-- `is_empty`. -/
def isEmpty : ConsList Value → Bool
  | empty => true
  | _ => false

/-- `car`. -/
def car : ConsList Value → Option Value
  | empty => none
  | cell car _ => some car
  | cellForeign car _ => some car

/-- `truth`. -/
def truth (list : ConsList Value) : Bool :=
  list.car.isSome

/-- `cdr`. -/
def cdr : ConsList Value → Option (Handle Value)
  | empty => none
  | cell _ next => some (.inl next)
  | cellForeign _ tail => some (.inr tail)

/-- `len_cmp`, behind so many cells. -/
def lenCmp (n : Nat) : Nat → ConsList Value → EStateM Failure σ Ordering
  | count, empty => return compare count n
  | count, cell _ next =>
      if count + 1 > n then
        return .gt
      else
        lenCmp n (count + 1) next
  | count, cellForeign _ tail =>
      if count + 1 > n then
        return .gt
      else do
        let tail ← foreignAsList isList tail
        lists.lenCmp tail (n - (count + 1))

/-- `get`. -/
def get : ConsList Value → Nat → EStateM Failure σ (Option Value)
  | empty, _ => return none
  | cell car _, 0 => return some car
  | cellForeign car _, 0 => return some car
  | cell _ next, index + 1 => next.get index
  | cellForeign _ tail, index + 1 => do
      let tail ← foreignAsList isList tail
      lists.get tail index

/-- The loop of `for_each`, which visits so many values at most. -/
def visitFrom (limit : Option Nat) :
    Nat → Nat → ConsList Value → EStateM Failure σ (List Value × Visit)
  | _, _, empty => return ([], .finished)
  | turns, count, cell car next =>
      if limit.any (· ≤ count) then
        return ([], .finished)
      else
        match turns with
        | 0 => return ([], .unfinished)
        | turns + 1 => do
            let (visited, ended) ← visitFrom limit turns (count + 1) next
            return (car :: visited, ended)
  | turns, count, cellForeign car tail =>
      if limit.any (· ≤ count) then
        return ([], .finished)
      else
        match turns with
        | 0 => return ([], .unfinished)
        | turns + 1 => do
            match ← observe (foreignAsList isList tail) with
            | .error failure => return ([car], .failed failure)
            | .ok tail =>
                let (visited, ended) ←
                  lists.forEach tail turns (limit.map (· - (count + 1)))
                return (car :: visited, ended)

/-- `for_each`. -/
def forEach (list : ConsList Value) (turns : Nat) (limit : Option Nat) :
    EStateM Failure σ (List Value × Visit) :=
  if limit = some 0 then
    return ([], .finished)
  else
    visitFrom lists isList limit turns 0 list

/-- `ListValue` of cells, beside that of other lists. -/
def object : ListValue Value (Handle Value) σ where
  isEmpty := Sum.elim (fun list => return list.isEmpty) lists.isEmpty
  truth := Sum.elim (fun list => return list.truth) lists.truth
  car := Sum.elim (fun list => return list.car) lists.car
  cdr := Sum.elim (fun list => return list.cdr) fun tail =>
    Option.map .inr <$> lists.cdr tail
  get := Sum.elim (get lists isList) lists.get
  lenCmp := Sum.elim (fun list n => lenCmp lists isList n 0 list) lists.lenCmp
  forEach := Sum.elim (forEach lists isList) lists.forEach
  release := Sum.elim (fun _ => id) lists.release

end Operations

end ConsList

namespace ConsBackend

variable (isList : Value → Bool)

/-- `new_list`. -/
def newList (items : List Value) : ConsList.Handle Value :=
  .inl (.fromVec items)

/-- `new_cons`. -/
def newCons (car : Value) :
    ConsList.Handle Value → EStateM Failure σ (ConsList.Handle Value)
  | .inl cons => return .inl (.cell car cons)
  | .inr tail =>
      if isList tail then
        return .inl (.cellForeign car tail)
      else
        throw (.error (.typeMismatch "list" "non-list"))

/-- Repeated `new_cons` onto the empty list, from the last item on. -/
def consAll : List Value → EStateM Failure σ (ConsList.Handle Value)
  | [] => return newList []
  | item :: items => do
      let tail ← consAll items
      newCons isList item tail

end ConsBackend

section Contract

variable {lists : ListValue Value Value σ} {isList : Value → Bool}
variable {items : List Value}

/-- A handle of the cells of some items. -/
def ConsList.Gives (handle : ConsList.Handle Value)
    (sequence : Sequence Value) : Prop :=
  ∃ items, handle = .inl (.fromVec items) ∧ sequence = .ofList items

/-- The handles that are held are of cells only. -/
def ConsList.Holds (held : Spine.Held Value (ConsList.Handle Value))
    (_ : σ) : Prop :=
  ∀ pair ∈ held, ConsList.Gives pair.1 pair.2

@[simp] theorem ConsList.fromVec_nil :
    fromVec ([] : List Value) = .empty :=
  rfl

@[simp] theorem ConsList.fromVec_cons
    (item : Value) (items : List Value) :
    fromVec (item :: items) = .cell item (.fromVec items) :=
  rfl

/-- Repeated `new_cons` makes the cells that `new_list` makes. -/
theorem ConsBackend.consAll_yields
    (items : List Value) (state : σ) :
    Yields (consAll isList items) state (.ok (newList items)) state := by
  induction items with
  | nil => exact Yields.pure _ state
  | cons item items inductionHypothesis =>
      exact inductionHypothesis.bind (Yields.pure _ state)

theorem ConsList.get_yields
    (items : List Value) (index : Nat) (state : σ) :
    Yields (get lists isList (.fromVec items) index) state
      (.ok items[index]?) state := by
  induction items generalizing index with
  | nil => exact Yields.pure none state
  | cons item items inductionHypothesis =>
      cases index with
      | zero => exact Yields.pure (some item) state
      | succ index => exact inductionHypothesis index

theorem ConsList.lenCmp_yields
    (items : List Value) (n count : Nat) (state : σ)
    (within : count ≤ n) :
    Yields (lenCmp lists isList n count (.fromVec items)) state
      (.ok (if count + items.length > n then
          .gt
        else
          compare (count + items.length) n)) state := by
  induction items generalizing count with
  | nil =>
      rw [List.length_nil, Nat.add_zero, if_neg (Nat.not_lt.mpr within)]
      exact Yields.pure _ state
  | cons item items inductionHypothesis =>
      rw [List.length_cons, Nat.add_comm items.length, ← Nat.add_assoc]
      by_cases above : count + 1 > n
      · rw [if_pos (Nat.lt_of_lt_of_le above (Nat.le_add_right _ _))]
        simp only [fromVec_cons, lenCmp, above, if_true]
        exact Yields.pure Ordering.gt state
      · simp only [fromVec_cons, lenCmp, above, if_false]
        exact inductionHypothesis (count + 1) (Nat.le_of_not_lt above)

theorem ConsList.visitFrom_yields
    (items : List Value) (limit : Option Nat) (turns count : Nat) (state : σ) :
    Yields (visitFrom lists isList limit turns count (.fromVec items)) state
      (.ok ((Sequence.ofList items).visits limit turns count)) state := by
  induction items generalizing turns count with
  | nil =>
      rw [Sequence.visits_ended rfl]
      cases turns <;> exact Yields.pure _ state
  | cons item items inductionHypothesis =>
      have found : Sequence.ofList (item :: items) 0 = some item := rfl
      by_cases enough : limit.any (· ≤ count) = true
      · rw [Sequence.visits_limited enough]
        cases turns <;> simp only [fromVec_cons, visitFrom, enough, if_true] <;>
          exact Yields.pure _ state
      · cases turns with
        | zero =>
            rw [Sequence.visits_zero found enough, fromVec_cons, visitFrom,
              if_neg enough]
            exact Yields.pure _ state
        | succ turns =>
            rw [Sequence.visits_step found enough, Sequence.ofList_drop,
              fromVec_cons, visitFrom, if_neg enough]
            exact (inductionHypothesis turns (count + 1)).bind
              (Yields.pure _ state)

theorem ConsList.forEach_yields
    (items : List Value) (turns : Nat) (limit : Option Nat) (state : σ) :
    Yields (forEach lists isList (.fromVec items) turns limit) state
      (.ok ((Sequence.ofList items).visits limit turns 0)) state := by
  by_cases zero : limit = some 0
  · have enough : limit.any (· ≤ 0) = true := by
      rw [zero]
      rfl
    rw [Sequence.visits_limited enough, forEach, if_pos zero]
    exact Yields.pure _ state
  · rw [forEach, if_neg zero]
    exact visitFrom_yields items limit turns 0 state

/-- Cells answer as the items that they hold, and do not change. -/
theorem ConsList.object_answers :
    (object lists isList).Answers Sequence.answer Holds where
  answers held state holding handle sequence member call := by
    rcases holding _ member with ⟨items, rfl, rfl⟩
    cases call with
    | isEmpty =>
        refine ⟨.truth _, state, (Yields.pure _ state).map _, ?_, holding⟩
        cases items <;> rfl
    | truth =>
        refine ⟨.truth _, state, (Yields.pure _ state).map _, ?_, holding⟩
        cases items <;> rfl
    | car =>
        refine ⟨.item _, state, (Yields.pure _ state).map _, ?_, holding⟩
        cases items <;> rfl
    | cdr =>
        cases items with
        | nil =>
            exact ⟨.rest none, state, (Yields.pure _ state).map _, rfl,
              holding⟩
        | cons item items =>
            refine ⟨.rest (some (.inl (.fromVec items), .ofList items)), state,
              (Yields.pure _ state).map _,
              Sequence.answer_cdr_ofList item items, fun pair inAll => ?_⟩
            rcases List.mem_append.mp inAll with new | old
            · cases List.mem_singleton.mp new
              exact ⟨items, rfl, rfl⟩
            · exact holding pair old
    | get index =>
        exact ⟨.item _, state, (get_yields items index state).map _, rfl,
          holding⟩
    | lenCmp n =>
        have compares : Yields (lenCmp lists isList n 0 (.fromVec items)) state
            _ state :=
          lenCmp_yields items n 0 state (Nat.zero_le n)
        rw [Nat.zero_add, ← Sequence.lenCmp_ofList] at compares
        exact ⟨.order _, state, compares.map _, rfl, holding⟩
    | forEach turns limit =>
        exact ⟨.visited _ _, state,
          (forEach_yields items turns limit state).map _, rfl, holding⟩
  release held state handle sequence holding pair member :=
    holding pair (List.mem_cons_of_mem _ member)
  perm held other state same holding pair member :=
    holding pair (same.mem_iff.mpr member)

end Contract

end SimStorage.Lists
