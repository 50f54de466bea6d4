import SimStorage.Lists.Objects

namespace SimStorage.Lists

/-!
# Plain sequences

A sequence gives the value at an index, or none from its end on; it may have no
end.  It has the answers that a list object of the same values is to give.
-/

open Table

variable {Value View Other : Type}

/-- The value at each index, or none from the end on. -/
abbrev Sequence (Value : Type) :=
  Nat → Option Value

/-- The calls that read a list; a visit takes so many values at most. -/
inductive Call where
  | isEmpty
  | truth
  | car
  | cdr
  | get (index : Nat)
  | lenCmp (n : Nat)
  | forEach (turns : Nat) (limit : Option Nat)
  deriving Repr, DecidableEq

/-- The answer to a call, where the rest of a list is given as a view. -/
inductive Answer (Value View : Type) where
  | truth (value : Bool)
  | item (value : Option Value)
  | rest (view : Option View)
  | order (ordering : Ordering)
  | visited (values : List Value) (ended : Visit)
  deriving Repr, DecidableEq

namespace Answer

/-- The same answer, where views are given otherwise. -/
def map (change : View → Other) : Answer Value View → Answer Value Other
  | .truth value => .truth value
  | .item value => .item value
  | .rest view => .rest (view.map change)
  | .order ordering => .order ordering
  | .visited values ended => .visited values ended

/-- The view that an answer gives. -/
def views : Answer Value View → List View
  | .rest view => view.toList
  | _ => []

variable {Last : Type} {answer : Answer Value View}

@[simp] theorem map_map
    (first : View → Other) (second : Other → Last) :
    (answer.map first).map second = answer.map (second ∘ first) := by
  cases answer <;> simp [map]

@[simp] theorem views_map
    (change : View → Other) :
    (answer.map change).views = answer.views.map change := by
  cases answer with
  | rest view => cases view <;> rfl
  | truth | item | order | visited => rfl

/-- Only the view that an answer gives matters. -/
theorem map_congr
    {first second : View → Other}
    (same : ∀ view ∈ answer.views, first view = second view) :
    answer.map first = answer.map second := by
  cases answer with
  | rest view =>
      cases view with
      | none => rfl
      | some view =>
          have here := same view List.mem_cons_self
          simp only [map, Option.map_some, here]
  | truth | item | order | visited => rfl

end Answer

namespace Sequence

/-- From its end on, a sequence gives nothing. -/
def Ends (sequence : Sequence Value) : Prop :=
  ∀ index, sequence index = none → sequence (index + 1) = none

/-- The sequence without its first values. -/
def drop (sequence : Sequence Value) (start : Nat) : Sequence Value := fun index =>
  sequence (start + index)

/-- The values that a limit allows, after so many of them. -/
def visits (limit : Option Nat) :
    Nat → Nat → Sequence Value → List Value × Visit
  | 0, count, sequence =>
      ([], if (sequence 0).isNone || limit.any (· ≤ count) then
          .finished
        else
          .unfinished)
  | turns + 1, count, sequence =>
      match sequence 0 with
      | none => ([], .finished)
      | some value =>
          if limit.any (· ≤ count) then
            ([], .finished)
          else
            let (values, ended) :=
              visits limit turns (count + 1) (sequence.drop 1)
            (value :: values, ended)

/-- The values of a list. -/
def ofList (items : List Value) : Sequence Value := fun index =>
  items[index]?

/-- The values that an iterator gives before it first gives none. -/
def ofItems (items : Nat → Option (Except Error Value)) : Sequence Value
  | 0 => (items 0).bind Except.toOption
  | index + 1 =>
      (ofItems items index).bind fun _ =>
        (items (index + 1)).bind Except.toOption

/-- How many values there are, compared with a number. -/
def lenCmp (sequence : Sequence Value) (n : Nat) : Ordering :=
  if (sequence n).isSome then
    .gt
  else if n = 0 ∨ (sequence (n - 1)).isSome then
    .eq
  else
    .lt

/-- What a list of the values is to answer. -/
def answer (sequence : Sequence Value) : Call → Answer Value (Sequence Value)
  | .isEmpty => .truth (sequence 0).isNone
  | .truth => .truth (sequence 0).isSome
  | .car => .item (sequence 0)
  | .cdr => .rest ((sequence 0).map fun _ => sequence.drop 1)
  | .get index => .item (sequence index)
  | .lenCmp n => .order (sequence.lenCmp n)
  | .forEach turns limit =>
      let (values, ended) := sequence.visits limit turns 0
      .visited values ended

/-- The same where a list may be cut, with no rest behind its last value. -/
def answering (cut : Bool) (sequence : Sequence Value) :
    Call → Answer Value (Sequence Value)
  | .cdr =>
      if cut && (sequence 1).isNone then .rest none else sequence.answer .cdr
  | call => sequence.answer call

variable {sequence : Sequence Value}

theorem drop_zero
    (sequence : Sequence Value) :
    sequence.drop 0 = sequence := by
  funext index
  rw [drop, Nat.zero_add]

theorem drop_drop
    (sequence : Sequence Value) (first second : Nat) :
    (sequence.drop first).drop second = sequence.drop (first + second) := by
  funext index
  simp only [drop, Nat.add_assoc]

theorem Ends.after
    (ends : sequence.Ends)
    {first second : Nat}
    (below : first ≤ second)
    (ended : sequence first = none) :
    sequence second = none := by
  induction below with
  | refl => exact ended
  | step _ inductionHypothesis => exact ends _ inductionHypothesis

theorem Ends.drop
    (ends : sequence.Ends) (start : Nat) :
    (sequence.drop start).Ends :=
  fun index => ends (start + index)

theorem ofList_ends
    (items : List Value) :
    (ofList items).Ends := fun _ ended =>
  List.getElem?_eq_none (Nat.le_succ_of_le (List.getElem?_eq_none_iff.mp ended))

@[simp] theorem ofList_drop
    (item : Value) (items : List Value) :
    (ofList (item :: items)).drop 1 = ofList items := by
  funext index
  rw [drop, ofList, Nat.add_comm]
  exact List.getElem?_cons_succ

theorem answer_cdr_ofList
    (item : Value) (items : List Value) :
    (ofList (item :: items)).answer .cdr = .rest (some (ofList items)) := by
  rw [← ofList_drop item items]
  rfl

/-- The rest of a list, which is cut at its last value or not. -/
theorem answering_cdr_ofList
    (cut : Bool) (item : Value) (items : List Value) :
    (ofList (item :: items)).answering cut .cdr =
      .rest (if cut && items.isEmpty then none else some (ofList items)) := by
  rw [answering, answer_cdr_ofList]
  have last : (ofList (item :: items) 1).isNone = items.isEmpty := by
    cases items <;> rfl
  rw [last]
  cases cut && items.isEmpty <;> rfl

/-- Only a list without a second value has no rest. -/
theorem second_of_no_rest
    {cut : Bool} {items : List Value}
    (told : (ofList items).answering cut .cdr = .rest none) :
    ofList items 1 = none := by
  match items with
  | [] => rfl
  | [_] => rfl
  | item :: second :: items =>
      rw [answering_cdr_ofList, List.isEmpty_cons, Bool.and_false,
        if_neg Bool.false_ne_true] at told
      cases told

/-- Of a list that is not cut, the answers are those of its sequence. -/
theorem answering_false :
    @answering Value false = answer := by
  funext sequence call
  cases call <;> rfl

theorem ofItems_ends
    (items : Nat → Option (Except Error Value)) :
    (ofItems items).Ends := by
  intro index ended
  rw [ofItems, ended, Option.bind_none]

/-- While an iterator has not ended, its values are the sequence. -/
theorem ofItems_eq
    {items : Nat → Option (Except Error Value)} {index : Nat}
    (before : ∀ earlier < index, (ofItems items earlier).isSome = true) :
    ofItems items index = (items index).bind Except.toOption := by
  cases index with
  | zero => rfl
  | succ index =>
      rcases Option.isSome_iff_exists.mp (before index (Nat.lt_succ_self _)) with
        ⟨value, found⟩
      rw [ofItems, found, Option.bind_some]

/-- An iterator on a list gives its values. -/
theorem ofItems_list
    (items : List Value) :
    ofItems (fun index => items[index]?.map .ok) = ofList items := by
  funext index
  induction index with
  | zero => cases items <;> rfl
  | succ index inductionHypothesis =>
      rw [ofItems, inductionHypothesis]
      cases found : ofList items index with
      | none => exact (ofList_ends items index found).symm
      | some value =>
          rw [Option.bind_some, ofList]
          cases items[index + 1]? <;> rfl

section Visits

variable {limit : Option Nat} {turns count : Nat} {value : Value}

/-- A visit ends where the sequence ends. -/
theorem visits_ended
    (ended : sequence 0 = none) :
    sequence.visits limit turns count = ([], .finished) := by
  cases turns <;> simp [visits, ended]

/-- A visit ends at its limit. -/
theorem visits_limited
    (enough : limit.any (· ≤ count) = true) :
    sequence.visits limit turns count = ([], .finished) := by
  cases turns with
  | zero => simp [visits, enough]
  | succ turns => cases found : sequence 0 <;> simp [visits, found, enough]

/-- A visit has taken all its turns. -/
theorem visits_zero
    (found : sequence 0 = some value)
    (more : ¬ limit.any (· ≤ count) = true) :
    sequence.visits limit 0 count = ([], .unfinished) := by
  simp [visits, found, more]

/-- A visit takes a value and goes on. -/
theorem visits_step
    (found : sequence 0 = some value)
    (more : ¬ limit.any (· ≤ count) = true) :
    sequence.visits limit (turns + 1) count =
      (value :: ((sequence.drop 1).visits limit turns (count + 1)).1,
        ((sequence.drop 1).visits limit turns (count + 1)).2) := by
  simp only [visits, found, more, if_false, Bool.false_eq_true]

/-- A visit with enough turns ends, at its limit or with the sequence. -/
theorem visits_finished
    (enough : limit.any (· ≤ count + turns) = true ∨ sequence turns = none) :
    (sequence.visits limit turns count).2 = .finished := by
  induction turns generalizing count sequence with
  | zero =>
      rcases enough with limited | ended
      · rw [visits_limited (by simpa using limited)]
      · rw [visits_ended ended]
  | succ turns inductionHypothesis =>
      cases found : sequence 0 with
      | none => rw [visits_ended found]
      | some value =>
          by_cases reached : limit.any (· ≤ count) = true
          · rw [visits_limited reached]
          · rw [visits_step found reached]
            apply inductionHypothesis
            rw [Nat.add_assoc count, Nat.add_comm 1, drop, Nat.add_comm 1]
            exact enough

end Visits

/-- A count that is right up to the number compares as the sequence does. -/
theorem lenCmp_eq
    {n remaining : Nat}
    (counts : ∀ index ≤ n, index < remaining ↔ (sequence index).isSome = true) :
    sequence.lenCmp n =
      if remaining > n then .gt else compare remaining n := by
  have last := counts n (Nat.le_refl n)
  by_cases more : remaining > n
  · rw [lenCmp, if_pos (last.mp more), if_pos more]
  · rw [lenCmp, if_neg (mt last.mpr more), if_neg more]
    by_cases empty : n = 0
    · have same : remaining = n := by omega
      rw [if_pos (.inl empty), same, Nat.compare_eq_eq.mpr rfl]
    · have before := counts (n - 1) (Nat.sub_le n 1)
      by_cases full : (sequence (n - 1)).isSome = true
      · have same : remaining = n := by
          have := before.mpr full
          omega
        rw [if_pos (.inr full), same, Nat.compare_eq_eq.mpr rfl]
      · have less : remaining < n := by
          have := mt before.mp full
          omega
        rw [if_neg (not_or.mpr ⟨empty, full⟩), Nat.compare_eq_lt.mpr less]

/-- An empty sequence has the length zero. -/
theorem lenCmp_empty
    (ends : sequence.Ends)
    (empty : sequence 0 = none) (n : Nat) :
    sequence.lenCmp n = compare 0 n := by
  have counts : ∀ index ≤ n, index < 0 ↔ (sequence index).isSome = true := by
    intro index _
    rw [ends.after (Nat.zero_le index) empty]
    simp
  rw [lenCmp_eq counts, if_neg (Nat.not_lt_zero n)]

/-- Without its first value, a sequence compares with one less. -/
theorem lenCmp_succ
    (more : (sequence 0).isSome = true) (n : Nat) :
    sequence.lenCmp (n + 1) = (sequence.drop 1).lenCmp n := by
  cases n with
  | zero => simp [lenCmp, drop, more]
  | succ n => simp [lenCmp, drop, Nat.add_comm, Nat.add_left_comm]

/-- Of a list, the length is compared. -/
theorem lenCmp_ofList
    (items : List Value) (n : Nat) :
    (ofList items).lenCmp n =
      if items.length > n then .gt else compare items.length n :=
  lenCmp_eq fun index _ => by simp [ofList]

end Sequence

end SimStorage.Lists
