import SimStorage.Lists.Cons

namespace SimStorage.Lists

/-!
# Cells that end in another list

The last cell of a list may hold the value of another list.  A walk counts the
cells that it passes and asks the other list for what is left of its number,
index or limit: of that the cells never take more than there is.
-/

open Interaction Table

variable {Value σ α β : Type}

/-- `LengthResult`. -/
inductive LengthResult where
  | known (length : Nat)
  | unknown
  deriving Repr, DecidableEq

/-- A sum of lengths, which fails where it is too large for its type. -/
def addLengths (count more : Nat) : EStateM Failure σ Nat :=
  if count + more < 2 ^ 64 then
    return count + more
  else
    throw .outOfRange

namespace Sequence

/-- The values, and then those of a sequence. -/
def following (items : List Value) (rest : Sequence Value) : Sequence Value :=
  fun index =>
    if index < items.length then items[index]? else rest (index - items.length)

/-- There are just so many values. -/
def HasLength (sequence : Sequence Value) (length : Nat) : Prop :=
  ∀ index, index < length ↔ (sequence index).isSome = true

/-- A length that is known is that of the sequence. -/
def Measured (sequence : Sequence Value) (length : LengthResult) : Prop :=
  ∀ count, length = .known count → sequence.HasLength count

end Sequence

namespace ConsList

section Definitions

variable (isList : Value → Bool)
variable (measure : Value → EStateM Failure σ LengthResult)

/-- `len`, behind so many cells, where another list has its own `len`. -/
def len : Nat → ConsList Value → EStateM Failure σ LengthResult
  | count, empty => return .known count
  | count, cell _ next => len (count + 1) next
  | count, cellForeign _ tail => do
      let tail ← foreignAsList isList tail
      match ← measure tail with
      | .known more => .known <$> addLengths (count + 1) more
      | .unknown => return .unknown

/-- The values of the cells. -/
def natives : ConsList Value → List Value
  | empty => []
  | cell car next => car :: next.natives
  | cellForeign car _ => [car]

/-- The other list that the cells end in. -/
def foreign : ConsList Value → Option Value
  | empty => none
  | cell _ next => next.foreign
  | cellForeign _ tail => some tail

/-- The values of the cells and of what they end in. -/
def flattened (list : ConsList Value) (rest : Sequence Value) :
    Sequence Value :=
  .following list.natives rest

/-- The cells end in nothing, or in a list that gives the rest. -/
def EndsIn (held : Spine.Held Value Value) (rest : Sequence Value)
    (list : ConsList Value) : Prop :=
  match list.foreign with
  | none => rest = .ofList []
  | some tail => isList tail = true ∧ (tail, rest) ∈ held

variable (lists : ListValue Value Value σ)
variable (holds : Spine.Held Value Value → σ → Prop)
variable (held : Spine.Held Value Value) (state : σ)
variable (list : ConsList Value)

/-- The cells answer as a sequence does, and the other lists are kept. -/
structure AnswersAs (sequence : Sequence Value) : Prop where
  len : ∃ length later, Yields (len isList measure 0 list) state (.ok length)
      later ∧
    sequence.Measured length ∧ holds held later ∧
      (length = .unknown ↔ ∃ tail after, list.foreign = some tail ∧
        Yields (measure tail) state (.ok .unknown) after)
  lenCmp : ∀ n, ∃ later, Yields (lenCmp lists isList n 0 list) state
      (.ok (sequence.lenCmp n)) later ∧
    holds held later
  get : ∀ index, ∃ later, Yields (get lists isList list index) state
      (.ok (sequence index)) later ∧
    holds held later
  forEach : ∀ turns limit, ∃ later, Yields (forEach lists isList list turns limit)
      state (.ok (sequence.visits limit turns 0)) later ∧
    holds held later

/-- Of the list that the cells end in, just what is left is asked, once. -/
structure AsksResidual (tail : Value) : Prop where
  len : len isList measure 0 list = do
    match ← measure tail with
    | .known more => .known <$> addLengths list.natives.length more
    | .unknown => return .unknown
  lenCmp : ∀ n,
    n < list.natives.length ∧
        lenCmp lists isList n 0 list = (return .gt) ∨
      ∃ residual, list.natives.length + residual = n ∧
        lenCmp lists isList n 0 list = lists.lenCmp tail residual
  get : ∀ index,
    index < list.natives.length ∧
        get lists isList list index = (return list.natives[index]?) ∨
      ∃ residual, list.natives.length + residual = index ∧
        get lists isList list index = lists.get tail residual
  forEach : ∀ turns limit,
    (turns < list.natives.length ∨
        ∃ max, limit = some max ∧ max < list.natives.length) ∧
        forEach lists isList list turns limit =
          (return (Sequence.ofList list.natives).visits limit turns 0) ∨
      ∃ left residual, list.natives.length + left = turns ∧
        residual.map (list.natives.length + ·) = limit ∧
        forEach lists isList list turns limit =
          (fun visit => (list.natives ++ visit.1, visit.2)) <$>
            lists.forEach tail left residual

end Definitions

end ConsList

section Sequences

namespace Sequence

variable {items : List Value} {rest : Sequence Value} {index : Nat}
variable {limit residual : Option Nat} {turns left count : Nat}

@[simp] theorem following_nil
    (rest : Sequence Value) :
    following [] rest = rest :=
  rfl

theorem following_ofList
    (items : List Value) :
    following items (ofList []) = ofList items := by
  funext index
  by_cases within : index < items.length
  · rw [following, if_pos within, ofList]
  · rw [following, if_neg within, ofList, ofList, List.getElem?_nil,
      List.getElem?_eq_none (Nat.le_of_not_lt within)]

theorem following_lt
    (within : index < items.length) :
    following items rest index = items[index]? :=
  if_pos within

@[simp] theorem following_add
    (items : List Value) (rest : Sequence Value) (index : Nat) :
    following items rest (items.length + index) = rest index := by
  rw [following, if_neg (Nat.not_lt.mpr (Nat.le_add_right _ _)),
    Nat.add_sub_cancel_left]

@[simp] theorem following_zero
    (item : Value) (items : List Value) (rest : Sequence Value) :
    following (item :: items) rest 0 = some item :=
  rfl

@[simp] theorem following_drop
    (item : Value) (items : List Value) (rest : Sequence Value) :
    (following (item :: items) rest).drop 1 = following items rest := by
  funext index
  simp only [drop, following, Nat.add_comm 1 index, List.length_cons,
    Nat.add_lt_add_iff_right, List.getElem?_cons_succ, Nat.add_sub_add_right]

/-- The values are added to a length. -/
theorem HasLength.following
    {length : Nat}
    (measured : rest.HasLength length) (items : List Value) :
    (following items rest).HasLength (items.length + length) := by
  intro index
  by_cases within : index < items.length
  · rw [following_lt within, List.getElem?_eq_getElem within]
    simp only [Option.isSome_some, iff_true]
    exact Nat.lt_of_lt_of_le within (Nat.le_add_right _ _)
  · rcases Nat.exists_eq_add_of_le (Nat.le_of_not_lt within) with ⟨more, rfl⟩
    rw [following_add, Nat.add_lt_add_iff_left]
    exact measured more

/-- A number that the values exceed is exceeded. -/
theorem lenCmp_following_lt
    {n : Nat}
    (within : n < items.length) :
    (following items rest).lenCmp n = .gt := by
  rw [lenCmp, following_lt within, List.getElem?_eq_getElem within]
  rfl

/-- Behind the values, what is left of a number is compared. -/
theorem lenCmp_following_add
    (items : List Value) (rest : Sequence Value) (n : Nat) :
    (following items rest).lenCmp (items.length + n) = rest.lenCmp n := by
  induction items with
  | nil => rw [following_nil, List.length_nil, Nat.zero_add]
  | cons item items inductionHypothesis =>
      have more : (following (item :: items) rest 0).isSome = true := rfl
      rw [List.length_cons, Nat.add_right_comm, lenCmp_succ more,
        following_drop, inductionHypothesis]

/-- A count has reached a limit when both are higher by the same number. -/
theorem limit_shift
    (limit : Option Nat) (shift count : Nat) :
    ((limit.map (shift + ·)).any fun max => max ≤ shift + count) =
      limit.any fun max => max ≤ count := by
  cases limit with
  | none => rfl
  | some max => simp

/-- A visit that has seen more values, of a limit that is as much higher. -/
theorem visits_shift
    (sequence : Sequence Value) (shift : Nat) :
    sequence.visits (limit.map (shift + ·)) turns (shift + count) =
      sequence.visits limit turns count := by
  have same := limit_shift limit shift count
  induction turns generalizing sequence count with
  | zero => rw [visits, visits, same]
  | succ turns inductionHypothesis =>
      cases found : sequence 0 with
      | none => rw [visits_ended found, visits_ended found]
      | some value =>
          by_cases enough : (limit.any fun max => max ≤ count) = true
          · rw [visits_limited enough, visits_limited (same.trans enough)]
          · have more := same ▸ enough
            have later := limit_shift limit shift (count + 1)
            rw [visits_step found enough, visits_step found more, Nat.add_assoc,
              inductionHypothesis _ later]

/-- A visit with no turn or limit for all the values does not get to the rest. -/
theorem visits_following_short
    (short : turns < items.length ∨
      ∃ max, limit = some max ∧ max < count + items.length) :
    (following items rest).visits limit turns count =
      (ofList items).visits limit turns count := by
  induction items generalizing turns count with
  | nil =>
      rcases short with impossible | ⟨max, rfl, passed⟩
      · cases impossible
      · have enough : (some max).any (· ≤ count) = true := by
          simpa using Nat.le_of_lt passed
        rw [visits_limited enough, visits_limited enough]
  | cons item items inductionHypothesis =>
      have found : ofList (item :: items) 0 = some item := rfl
      by_cases enough : limit.any (· ≤ count) = true
      · rw [visits_limited enough, visits_limited enough]
      · cases turns with
        | zero =>
            rw [visits_zero (following_zero item items rest) enough,
              visits_zero found enough]
        | succ turns =>
            have fewer : turns < items.length ∨
                ∃ max, limit = some max ∧ max < count + 1 + items.length := by
              rw [Nat.add_assoc, Nat.add_comm 1]
              exact short.imp_left Nat.lt_of_succ_lt_succ
            rw [visits_step (following_zero item items rest) enough,
              visits_step found enough, following_drop, ofList_drop,
              inductionHypothesis fewer]

/-- A visit with turns and a limit for all the values goes on with the rest. -/
theorem visits_following_add
    (items : List Value) (rest : Sequence Value) :
    (following items rest).visits (residual.map (count + items.length + ·))
        (items.length + left) count =
      (items ++ (rest.visits residual left 0).1,
        (rest.visits residual left 0).2) := by
  induction items generalizing count with
  | nil =>
      rw [following_nil, List.length_nil, Nat.zero_add, Nat.add_zero]
      have shifted : rest.visits (residual.map (count + ·)) left (count + 0) =
          rest.visits residual left 0 := visits_shift rest count
      exact shifted
  | cons item items inductionHypothesis =>
      have more : ¬ (residual.map (count + (item :: items).length + ·)).any
          (· ≤ count) = true := by
        cases residual with
        | none => exact Bool.false_ne_true
        | some max =>
            simp only [Option.map_some, Option.any_some, List.length_cons,
              decide_eq_true_iff]
            omega
      have same : count + (item :: items).length = count + 1 + items.length := by
        rw [List.length_cons, Nat.add_assoc, Nat.add_comm 1]
      have turns : (item :: items).length + left = items.length + left + 1 :=
        Nat.add_right_comm _ _ _
      rw [same] at more ⊢
      rw [turns, visits_step (following_zero item items rest) more,
        following_drop, inductionHypothesis]
      rfl

end Sequence

end Sequences

section Foreign

variable {lists : ListValue Value Value σ}
variable {holds : Spine.Held Value Value → σ → Prop}
variable {held : Spine.Held Value Value} {state : σ}
variable {tail : Value} {rest : Sequence Value}

/-- A list that answers as a sequence compares its length. -/
theorem ListValue.Answers.lenCmp_yields
    (answers : lists.Answers Sequence.answer holds)
    (holding : holds held state)
    (member : (tail, rest) ∈ held)
    (n : Nat) :
    ∃ later, Yields (lists.lenCmp tail n) state (.ok (rest.lenCmp n)) later ∧
      holds held later := by
  rcases answers.answers held state holding tail rest member (.lenCmp n) with
    ⟨pairs, later, calls, told, kept⟩
  rcases calls.map_ok with ⟨ordering, compares, same⟩
  cases pairs with
  | order expected =>
      cases same
      cases told
      exact ⟨later, compares, kept⟩
  | truth | item | rest | visited => cases told

/-- A list that answers as a sequence gives its values. -/
theorem ListValue.Answers.get_yields
    (answers : lists.Answers Sequence.answer holds)
    (holding : holds held state)
    (member : (tail, rest) ∈ held)
    (index : Nat) :
    ∃ later, Yields (lists.get tail index) state (.ok (rest index)) later ∧
      holds held later := by
  rcases answers.answers held state holding tail rest member (.get index) with
    ⟨pairs, later, calls, told, kept⟩
  rcases calls.map_ok with ⟨value, gets, same⟩
  cases pairs with
  | item expected =>
      cases same
      cases told
      exact ⟨later, gets, kept⟩
  | truth | rest | order | visited => cases told

/-- A list that answers as a sequence visits its values. -/
theorem ListValue.Answers.forEach_yields
    (answers : lists.Answers Sequence.answer holds)
    (holding : holds held state)
    (member : (tail, rest) ∈ held)
    (turns : Nat) (limit : Option Nat) :
    ∃ later, Yields (lists.forEach tail turns limit) state
        (.ok (rest.visits limit turns 0)) later ∧
      holds held later := by
  rcases answers.answers held state holding tail rest member
    (.forEach turns limit) with ⟨pairs, later, calls, told, kept⟩
  rcases calls.map_ok with ⟨visit, visits, same⟩
  cases pairs with
  | visited values ended =>
      cases told
      rcases visit with ⟨seen, finish⟩
      cases same
      exact ⟨later, visits, kept⟩
  | truth | item | rest | order => cases told

end Foreign

namespace ConsList

variable {lists : ListValue Value Value σ} {isList : Value → Bool}
variable {measure : Value → EStateM Failure σ LengthResult}
variable {holds : Spine.Held Value Value → σ → Prop}
variable {held : Spine.Held Value Value} {state : σ}
variable {list : ConsList Value} {tail : Value} {rest : Sequence Value}

section Native

/-- Cells that end in nothing are those of their values. -/
theorem fromVec_natives
    (native : list.foreign = none) :
    fromVec list.natives = list := by
  induction list with
  | empty => rfl
  | cell car next inductionHypothesis =>
      exact congrArg (cell car) (inductionHypothesis native)
  | cellForeign car tail => cases native

theorem len_native
    (native : list.foreign = none) (count : Nat) :
    len isList measure count list =
      (return .known (count + list.natives.length)) := by
  induction list generalizing count with
  | empty => rfl
  | cell car next inductionHypothesis =>
      rw [len, inductionHypothesis native, natives, List.length_cons,
        Nat.add_assoc, Nat.add_comm 1]
  | cellForeign car tail => cases native

end Native

section Residual

variable (endsIn : list.foreign = some tail) (isTail : isList tail = true)

include endsIn in
theorem natives_pos :
    0 < list.natives.length := by
  cases list with
  | empty => cases endsIn
  | cell | cellForeign => exact Nat.zero_lt_succ _

include endsIn isTail in
/-- The length of the other list is added to the number of cells. -/
theorem len_residual
    (count : Nat) :
    len isList measure count list = do
      match ← measure tail with
      | .known more => .known <$> addLengths (count + list.natives.length) more
      | .unknown => return .unknown := by
  induction list generalizing count with
  | empty => cases endsIn
  | cell car next inductionHypothesis =>
      rw [len, inductionHypothesis endsIn, natives, List.length_cons,
        Nat.add_assoc, Nat.add_comm 1]
  | cellForeign car other =>
      cases endsIn
      rw [len, foreignAsList, if_pos isTail, pure_bind]
      rfl

include endsIn isTail in
/-- A number that the cells do not exceed is compared with what is behind. -/
theorem lenCmp_residual
    (n count : Nat) :
    n < count + list.natives.length ∧
        lenCmp lists isList n count list = (return .gt) ∨
      ∃ residual, count + list.natives.length + residual = n ∧
        lenCmp lists isList n count list = lists.lenCmp tail residual := by
  induction list generalizing count with
  | empty => cases endsIn
  | cell car next inductionHypothesis =>
      have same : count + (cell car next).natives.length =
          count + 1 + next.natives.length := by
        rw [natives, List.length_cons, Nat.add_assoc, Nat.add_comm 1]
      rw [same]
      by_cases above : count + 1 > n
      · refine .inl ⟨Nat.lt_of_lt_of_le above (Nat.le_add_right _ _), ?_⟩
        rw [lenCmp, if_pos above]
      · rw [lenCmp, if_neg above]
        exact inductionHypothesis endsIn (count + 1)
  | cellForeign car other =>
      cases endsIn
      by_cases above : count + 1 > n
      · refine .inl ⟨above, ?_⟩
        rw [lenCmp, if_pos above]
      · refine .inr ⟨n - (count + 1),
          Nat.add_sub_cancel' (Nat.le_of_not_lt above), ?_⟩
        rw [lenCmp, if_neg above, foreignAsList, if_pos isTail, pure_bind]

include endsIn isTail in
/-- An index that is not one of a cell is looked up behind the cells. -/
theorem get_residual
    (index : Nat) :
    index < list.natives.length ∧
        get lists isList list index = (return list.natives[index]?) ∨
      ∃ residual, list.natives.length + residual = index ∧
        get lists isList list index = lists.get tail residual := by
  induction list generalizing index with
  | empty => cases endsIn
  | cell car next inductionHypothesis =>
      cases index with
      | zero => exact .inl ⟨Nat.zero_lt_succ _, rfl⟩
      | succ index =>
          rcases inductionHypothesis endsIn index with
            ⟨within, found⟩ | ⟨residual, rfl, asked⟩
          · exact .inl ⟨Nat.succ_lt_succ within, found⟩
          · exact .inr ⟨residual, Nat.add_right_comm _ _ _, asked⟩
  | cellForeign car other =>
      cases endsIn
      cases index with
      | zero => exact .inl ⟨Nat.zero_lt_one, rfl⟩
      | succ index =>
          refine .inr ⟨index, Nat.add_comm 1 index, ?_⟩
          rw [get, foreignAsList, if_pos isTail, pure_bind]

include endsIn in
/-- A visit with no turn or limit for all the cells stays among them. -/
theorem visitFrom_short
    {limit : Option Nat} {turns count : Nat}
    (short : turns < list.natives.length ∨
      ∃ max, limit = some max ∧ max < count + list.natives.length) :
    visitFrom lists isList limit turns count list =
      (return (Sequence.ofList list.natives).visits limit turns count) := by
  induction list generalizing turns count with
  | empty => cases endsIn
  | cell car next inductionHypothesis =>
      have found : Sequence.ofList (cell car next).natives 0 = some car := rfl
      by_cases enough : limit.any (· ≤ count) = true
      · rw [Sequence.visits_limited enough]
        cases turns <;> simp only [visitFrom, enough, if_true]
      · cases turns with
        | zero =>
            rw [Sequence.visits_zero found enough, visitFrom, if_neg enough]
        | succ turns =>
            have fewer : turns < next.natives.length ∨
                ∃ max, limit = some max ∧
                  max < count + 1 + next.natives.length := by
              rw [Nat.add_assoc, Nat.add_comm 1]
              exact short.imp_left Nat.lt_of_succ_lt_succ
            rw [Sequence.visits_step found enough, visitFrom, if_neg enough,
              natives, Sequence.ofList_drop]
            simp only [inductionHypothesis endsIn fewer, pure_bind]
  | cellForeign car other =>
      have found : Sequence.ofList (cellForeign car other).natives 0 = some car :=
        rfl
      by_cases enough : limit.any (· ≤ count) = true
      · rw [Sequence.visits_limited enough]
        cases turns <;> simp only [visitFrom, enough, if_true]
      · cases turns with
        | zero =>
            rw [Sequence.visits_zero found enough, visitFrom, if_neg enough]
        | succ turns =>
            rcases short with impossible | ⟨max, rfl, passed⟩
            · exact absurd impossible (Nat.not_lt.mpr (Nat.le_add_left 1 turns))
            · have reached : (some max).any (· ≤ count) = true := by
                simpa using Nat.le_of_lt_succ passed
              exact absurd reached enough

include endsIn in
/-- A limit for all the cells lets the first of them be visited. -/
theorem limit_above
    (residual : Option Nat) (count : Nat) :
    ¬ (residual.map (count + list.natives.length + ·)).any (· ≤ count) =
      true := by
  have positive := natives_pos endsIn
  cases residual with
  | none => exact Bool.false_ne_true
  | some max =>
      simp only [Option.map_some, Option.any_some, decide_eq_true_iff]
      omega

include endsIn isTail in
/-- A visit with turns and a limit for all the cells goes on behind them. -/
theorem visitFrom_residual
    (residual : Option Nat) (left count : Nat) :
    visitFrom lists isList
        (residual.map (count + list.natives.length + ·))
        (list.natives.length + left) count list =
      (fun visit => (list.natives ++ visit.1, visit.2)) <$>
        lists.forEach tail left residual := by
  have more := limit_above endsIn residual count
  induction list generalizing count with
  | empty => cases endsIn
  | cell car next inductionHypothesis =>
      have same : count + (cell car next).natives.length =
          count + 1 + next.natives.length := by
        rw [natives, List.length_cons, Nat.add_assoc, Nat.add_comm 1]
      have endsNext : next.foreign = some tail := endsIn
      have later := inductionHypothesis endsNext (count + 1)
        (limit_above endsNext residual (count + 1))
      have turns : (cell car next).natives.length + left =
          next.natives.length + left + 1 := Nat.add_right_comm _ _ _
      rw [same] at more ⊢
      rw [turns, visitFrom, if_neg more, later, bind_map_left]
      rfl
  | cellForeign car other =>
      cases endsIn
      have asked : (residual.map (count + (cellForeign car tail).natives.length
          + ·)).map (· - (count + 1)) = residual := by
        cases residual with
        | none => rfl
        | some max => exact congrArg some (Nat.add_sub_cancel_left ..)
      have turns : (cellForeign car tail).natives.length + left = left + 1 :=
        Nat.add_comm 1 left
      rw [turns, visitFrom, if_neg more, asked, foreignAsList, if_pos isTail]
      rfl

/-- A visit has too few turns or too low a limit for the cells, or goes on. -/
theorem short_or_residual
    (length turns : Nat) (limit : Option Nat) :
    (turns < length ∨ ∃ max, limit = some max ∧ max < length) ∨
      ∃ (left : Nat) (residual : Option Nat), length + left = turns ∧
        residual.map (length + ·) = limit := by
  by_cases fewTurns : turns < length
  · exact .inl (.inl fewTurns)
  · have turnsLeft := Nat.add_sub_cancel' (Nat.le_of_not_lt fewTurns)
    cases limit with
    | none => exact .inr ⟨turns - length, none, turnsLeft, rfl⟩
    | some max =>
        by_cases low : max < length
        · exact .inl (.inr ⟨max, rfl, low⟩)
        · have limitLeft := Nat.add_sub_cancel' (Nat.le_of_not_lt low)
          exact .inr ⟨turns - length, some (max - length), turnsLeft,
            congrArg some limitLeft⟩

include endsIn isTail in
/-- The other list is asked for what is left, whatever the cells are asked. -/
theorem asksResidual :
    list.AsksResidual isList measure lists tail where
  len := by
    rw [len_residual endsIn isTail, Nat.zero_add]
  lenCmp n := by
    simpa only [Nat.zero_add] using lenCmp_residual endsIn isTail n 0
  get := get_residual endsIn isTail
  forEach turns limit := by
    have positive := natives_pos endsIn
    rcases short_or_residual list.natives.length turns limit with
      short | ⟨left, residual, rfl, rfl⟩
    · refine .inl ⟨short, ?_⟩
      by_cases zero : limit = some 0
      · have enough : limit.any (· ≤ 0) = true := by
          rw [zero]
          rfl
        rw [forEach, if_pos zero, Sequence.visits_limited enough]
      · rw [forEach, if_neg zero]
        apply visitFrom_short endsIn
        rw [Nat.zero_add]
        exact short
    · refine .inr ⟨left, residual, rfl, rfl, ?_⟩
      have nonzero : residual.map (list.natives.length + ·) ≠ some 0 := by
        cases residual with
        | none =>
            intro impossible
            cases impossible
        | some max =>
            simp only [Option.map_some, ne_eq, Option.some.injEq]
            omega
      rw [forEach, if_neg nonzero]
      simpa only [Nat.zero_add] using
        visitFrom_residual endsIn isTail residual left 0

end Residual

section Answers

/-- The lists that are held tell their lengths, or that they are unknown. -/
def Measures (measure : Value → EStateM Failure σ LengthResult)
    (holds : Spine.Held Value Value → σ → Prop) : Prop :=
  ∀ held state, holds held state → ∀ handle sequence,
    (handle, sequence) ∈ held → ∃ length later,
      Yields (measure handle) state (.ok length) later ∧
        sequence.Measured length ∧ holds held later

/-- Cells that end in nothing answer as their values. -/
theorem native_answers
    (native : list.foreign = none)
    (holding : holds held state) :
    list.AnswersAs isList measure lists holds held state
      (.ofList list.natives) := by
  have same := fromVec_natives native
  refine ⟨?_, fun n => ?_, fun index => ?_, fun turns limit => ?_⟩
  · rw [len_native native, Nat.zero_add]
    refine ⟨_, state, Yields.pure _ state, ?_, holding, ?_⟩
    · rintro count ⟨⟩ index
      simp [Sequence.ofList]
    · rw [native]
      simp
  · have compares : Yields
        (lenCmp lists isList n 0 (.fromVec list.natives)) state _ state :=
      lenCmp_yields list.natives n 0 state (Nat.zero_le n)
    rw [Nat.zero_add, ← Sequence.lenCmp_ofList, same] at compares
    exact ⟨state, compares, holding⟩
  · have gets : Yields (get lists isList (.fromVec list.natives) index) state
        _ state :=
      get_yields list.natives index state
    rw [same] at gets
    exact ⟨state, gets, holding⟩
  · have visits : Yields
        (forEach lists isList (.fromVec list.natives) turns limit) state _
        state :=
      forEach_yields list.natives turns limit state
    rw [same] at visits
    exact ⟨state, visits, holding⟩

/-- Cells that end in another list answer as their values and then its own. -/
theorem foreign_answers
    (answers : lists.Answers Sequence.answer holds)
    (measures : Measures measure holds)
    (endsIn : list.foreign = some tail)
    (isTail : isList tail = true)
    (member : (tail, rest) ∈ held)
    (fits : ∀ count, (list.flattened rest).HasLength count → count < 2 ^ 64)
    (holding : holds held state) :
    list.AnswersAs isList measure lists holds held state
      (list.flattened rest) := by
  have asks : list.AsksResidual isList measure lists tail :=
    asksResidual endsIn isTail
  refine ⟨?_, fun n => ?_, fun index => ?_, fun turns limit => ?_⟩
  · rcases measures held state holding tail rest member with
      ⟨length, later, tells, measured, kept⟩
    rw [asks.len]
    cases length with
    | unknown =>
        refine ⟨.unknown, later, tells.bind (Yields.pure _ later), ?_, kept, ?_⟩
        · rintro count ⟨⟩
        · exact ⟨fun _ => ⟨tail, later, endsIn, tells⟩, fun _ => rfl⟩
    | known more =>
        have total := (measured more rfl).following list.natives
        have sum : Yields (addLengths list.natives.length more) later
            (.ok (list.natives.length + more)) later := by
          rw [addLengths, if_pos (fits _ total)]
          exact Yields.pure _ later
        refine ⟨_, later, tells.bind (sum.map LengthResult.known), ?_, kept, ?_⟩
        · rintro count ⟨⟩
          exact total
        · refine ⟨nofun, ?_⟩
          rintro ⟨other, after, ends, unknown⟩
          cases endsIn.symm.trans ends
          cases (tells.unique unknown).1
  · rcases asks.lenCmp n with ⟨within, same⟩ | ⟨residual, rfl, same⟩
    · rw [same, flattened, Sequence.lenCmp_following_lt within]
      exact ⟨state, Yields.pure _ state, holding⟩
    · rw [same, flattened, Sequence.lenCmp_following_add]
      exact answers.lenCmp_yields holding member residual
  · rcases asks.get index with ⟨within, same⟩ | ⟨residual, rfl, same⟩
    · rw [same, flattened, Sequence.following_lt within]
      exact ⟨state, Yields.pure _ state, holding⟩
    · rw [same, flattened, Sequence.following_add]
      exact answers.get_yields holding member residual
  · rcases asks.forEach turns limit with
      ⟨short, same⟩ | ⟨left, residual, rfl, rfl, same⟩
    · have stays : (list.flattened rest).visits limit turns 0 =
          (Sequence.ofList list.natives).visits limit turns 0 := by
        apply Sequence.visits_following_short
        rw [Nat.zero_add]
        exact short
      rw [same, stays]
      exact ⟨state, Yields.pure _ state, holding⟩
    · have goesOn : (Sequence.following list.natives rest).visits
          (residual.map (0 + list.natives.length + ·))
          (list.natives.length + left) 0 = _ :=
        Sequence.visits_following_add list.natives rest
      rw [Nat.zero_add] at goesOn
      rw [same, flattened, goesOn]
      rcases answers.forEach_yields holding member left residual with
        ⟨later, visits, kept⟩
      exact ⟨later, visits.map _, kept⟩

/--
Cells of any number answer as their values and then those of what they end in,
where the total length fits its type; what they end in is asked for what is
left, and a visit with a limit ends.
-/
theorem mixed_answers
    (answers : lists.Answers Sequence.answer holds)
    (measures : Measures measure holds)
    (endsIn : list.EndsIn isList held rest)
    (fits : ∀ count, (list.flattened rest).HasLength count → count < 2 ^ 64)
    (holding : holds held state) :
    list.AnswersAs isList measure lists holds held state
        (list.flattened rest) ∧
      (∀ tail, list.foreign = some tail →
        list.AsksResidual isList measure lists tail) ∧
      ∀ max turns, max ≤ turns →
        ((list.flattened rest).visits (some max) turns 0).2 = .finished := by
  refine ⟨?_, ?_, ?_⟩
  · cases found : list.foreign with
    | none =>
        rw [EndsIn, found] at endsIn
        rw [endsIn, flattened, Sequence.following_ofList]
        exact native_answers found holding
    | some tail =>
        rw [EndsIn, found] at endsIn
        exact foreign_answers answers measures found endsIn.1 endsIn.2 fits
          holding
  · intro tail found
    rw [EndsIn, found] at endsIn
    exact asksResidual found endsIn.1
  · intro max turns enough
    apply Sequence.visits_finished
    simpa using .inl enough

end Answers

end ConsList

section Sample

/-- A value as the list of itself without an end. -/
def endless : ListValue Nat Nat Unit where
  isEmpty _ := return false
  truth _ := return true
  car value := return some value
  cdr value := return some value
  get value _ := return some value
  lenCmp _ _ := return .gt
  forEach value turns limit := return Sequence.visits limit turns 0 fun _ => value
  release _ state := state

/-- The values that are held give themselves. -/
def Repeats (held : Spine.Held Nat Nat) (_ : Unit) : Prop :=
  ∀ pair ∈ held, pair.2 = fun _ => some pair.1

theorem endless_answers :
    endless.Answers Sequence.answer Repeats where
  answers held state holding value sequence member call := by
    have repeats : sequence = fun _ => some value := holding _ member
    subst repeats
    cases call with
    | isEmpty => exact ⟨.truth false, (), rfl, rfl, holding⟩
    | truth => exact ⟨.truth true, (), rfl, rfl, holding⟩
    | car => exact ⟨.item (some value), (), rfl, rfl, holding⟩
    | cdr =>
        refine ⟨.rest (some (value, fun _ => value)), (), rfl, rfl, ?_⟩
        intro pair inAll
        rcases List.mem_append.mp inAll with new | old
        · cases List.mem_singleton.mp new
          rfl
        · exact holding pair old
    | get index => exact ⟨.item (some value), (), rfl, rfl, holding⟩
    | lenCmp n => exact ⟨.order .gt, (), rfl, rfl, holding⟩
    | forEach turns limit => exact ⟨.visited _ _, (), rfl, rfl, holding⟩
  release held state handle sequence holding pair member :=
    holding pair (List.mem_cons_of_mem _ member)
  perm held other state same holding pair member :=
    holding pair (same.mem_iff.mpr member)

/-- Two cells before a list without an end. -/
def sampleMixed : ConsList Nat :=
  .cell 1 (.cellForeign 2 7)

theorem sample_mixed_answers :
    sampleMixed.AnswersAs (fun _ => true) (fun _ => return .unknown) endless
        Repeats [(7, fun _ => some 7)] ()
        (sampleMixed.flattened fun _ => some 7) ∧
      (∀ tail, sampleMixed.foreign = some tail →
        sampleMixed.AsksResidual (fun _ => true) (fun _ => return .unknown)
          endless tail) ∧
      ∀ max turns, max ≤ turns →
        ((sampleMixed.flattened fun _ => some 7).visits (some max) turns 0).2 =
          .finished := by
  have unknown : ConsList.Measures (fun _ => return .unknown) Repeats := by
    intro held state holding handle sequence member
    exact ⟨.unknown, (), rfl, nofun, holding⟩
  have repeated : Repeats [(7, fun _ => some 7)] () := by
    intro pair member
    cases List.mem_singleton.mp member
    rfl
  refine ConsList.mixed_answers endless_answers unknown
    ⟨rfl, List.mem_singleton.mpr rfl⟩ (fun count measured => ?_) repeated
  -- The values have no end, so there is no length to fit.
  have there : (sampleMixed.flattened (fun _ => some 7) count).isSome = true := by
    match count with
    | 0 => rfl
    | 1 => rfl
    | _ + 2 => rfl
  exact absurd ((measured count).mpr there) (Nat.lt_irrefl count)

end Sample

end SimStorage.Lists
