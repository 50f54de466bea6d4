import SimStorage.Lists.Spine

namespace SimStorage.Lists

/-!
# Spines whose heads and tails may fail

Where every head and every tail has an outcome of its own, a list is the
sequence of its cells.  The walks of `get` and `for_each` force the head and the
tail of each cell that they come to before they look whether they need them.
This says what they give, and when that is what the cells alone would give.
-/

open Interaction

variable {Value Handle σ : Type}

section Cells

/--
A cell of a list that has been unrolled: an empty list, or the outcome of its
head, and of its tail, which is a list or nothing.
-/
inductive Unrolled.Cell (Value : Type) where
  | empty
  | cell (car : Except Failure Value) (cdr : Except Failure Bool)

/-- The cells of a list, one behind the other as long as there is a tail. -/
abbrev Unrolled (Value : Type) :=
  Nat → Unrolled.Cell Value

namespace Unrolled

/-- The outcome of `is_empty`. -/
def Cell.isEmpty : Cell Value → Bool
  | .empty => true
  | .cell _ _ => false

/-- The outcome of `car`. -/
def Cell.head : Cell Value → Except Failure (Option Value)
  | .empty => .ok none
  | .cell car _ => some <$> car

/-- The outcome of `cdr`: whether there is a list. -/
def Cell.tail : Cell Value → Except Failure Bool
  | .empty => .ok false
  | .cell _ cdr => cdr

/-- The list behind so many cells. -/
def drop (cells : Unrolled Value) (start : Nat) : Unrolled Value := fun index =>
  cells (start + index)

/-- What is read by `car` behind so many `cdr`s. -/
def carAfter : Nat → Unrolled Value → Except Failure (Option Value)
  | 0, cells => (cells 0).head
  | index + 1, cells => do
      if ← (cells 0).tail then
        carAfter index (cells.drop 1)
      else
        return none

/-- What `get` gives: the head and the tail of each cell are forced. -/
def get : Nat → Unrolled Value → Except Failure (Option Value)
  | index, cells =>
      match cells 0 with
      | .empty => return none
      | .cell car cdr => do
          let value ← car
          let more ← cdr
          match index with
          | 0 => return some value
          | index + 1 =>
              if more then
                get index (cells.drop 1)
              else
                return none

/-- What the loop of `for_each` visits, and how it ends. -/
def visits (limit : Option Nat) : Nat → Nat → Unrolled Value → List Value × Visit
  | turns, count, cells =>
      match cells 0 with
      | .empty => ([], .finished)
      | .cell (.error failure) _ => ([], .failed failure)
      | .cell (.ok _) (.error failure) => ([], .failed failure)
      | .cell (.ok value) (.ok more) =>
          if limit.any (· ≤ count) then
            ([], .finished)
          else
            match turns with
            | 0 => ([], .unfinished)
            | turns + 1 =>
                if more then
                  let (visited, ended) :=
                    visits limit turns (count + 1) (cells.drop 1)
                  (value :: visited, ended)
                else
                  ([value], .finished)

/-- What `for_each` visits, and how it ends. -/
def forEach (cells : Unrolled Value) (turns : Nat) (limit : Option Nat) :
    List Value × Visit :=
  if limit = some 0 then ([], .finished) else visits limit turns 0 cells

/-- The first elements: so many heads, and the tails between them. -/
def taken : Nat → Unrolled Value → Except Failure (List Value)
  | 0, _ => return []
  | count + 1, cells =>
      match cells 0 with
      | .empty => return []
      | .cell car cdr => do
          let value ← car
          match count with
          | 0 => return [value]
          | count + 1 =>
              if ← cdr then
                (value :: ·) <$> taken (count + 1) (cells.drop 1)
              else
                return [value]

/-- All heads and tails of the cells before an index succeed. -/
def Passed (cells : Unrolled Value) (index : Nat) : Prop :=
  ∀ earlier < index, ∃ value, cells earlier = .cell (.ok value) (.ok true)

/--
No head before the index fails, or the `cdr`s lead to the same failure, and the
tail at the index does not fail where its head does not.
-/
structure GetsAlone (cells : Unrolled Value) (index : Nat) : Prop where
  heads : ∀ earlier < index, cells.Passed earlier → ∀ failure cdr,
    cells earlier = .cell (.error failure) cdr →
      carAfter index cells = .error failure
  tail : cells.Passed index → ∀ value failure,
    cells index ≠ .cell (.ok value) (.error failure)

/--
The tail of the last element does not fail, and if it is a list that is not
empty, then the head and the tail of that do not fail.
-/
def VisitsAlone (cells : Unrolled Value) (count : Nat) : Prop :=
  ∀ last, last + 1 = count → cells.Passed last → ∀ value cdr,
    cells last = .cell (.ok value) cdr →
      cdr = .ok false ∨ cdr = .ok true ∧
        (cells count = .empty ∨
          ∃ next more, cells count = .cell (.ok next) (.ok more))

end Unrolled

end Cells

namespace Unrolled

variable {cells other : Unrolled Value} {value : Value} {failure : Failure}
variable {index : Nat}

section Getting

theorem passed_zero
    (cells : Unrolled Value) :
    cells.Passed 0 := by
  intro earlier impossible
  cases impossible

/-- The first cell is passed, and then those of the tail. -/
theorem passed_succ
    (found : cells 0 = .cell (.ok value) (.ok true)) (index : Nat) :
    cells.Passed (index + 1) ↔ (cells.drop 1).Passed index := by
  constructor
  · intro passed earlier before
    rw [drop, Nat.add_comm]
    exact passed (earlier + 1) (Nat.succ_lt_succ before)
  · intro passed earlier before
    cases earlier with
    | zero => exact ⟨value, found⟩
    | succ earlier =>
        have later := passed earlier (Nat.lt_of_succ_lt_succ before)
        rw [drop, Nat.add_comm] at later
        exact later

/-- What is behind a cell that is not passed is not reached. -/
theorem not_passed
    (stops : ∀ value, cells 0 ≠ .cell (.ok value) (.ok true)) (index : Nat) :
    ¬ cells.Passed (index + 1) := by
  intro passed
  rcases passed 0 (Nat.zero_lt_succ index) with ⟨value, found⟩
  exact stops value found

/-- At a cell that is passed, both go on alone with the tail. -/
theorem getsAlone_succ
    (found : cells 0 = .cell (.ok value) (.ok true)) (index : Nat) :
    cells.GetsAlone (index + 1) ↔ (cells.drop 1).GetsAlone index := by
  have after : carAfter (index + 1) cells = carAfter index (cells.drop 1) := by
    rw [carAfter, found]
    rfl
  constructor
  · intro alone
    refine ⟨fun earlier before passed failure cdr fails => ?_,
      fun passed value failure => ?_⟩
    · rw [← after]
      rw [drop, Nat.add_comm] at fails
      exact alone.heads (earlier + 1) (Nat.succ_lt_succ before)
        ((passed_succ found earlier).mpr passed) failure cdr fails
    · rw [drop, Nat.add_comm]
      exact alone.tail ((passed_succ found index).mpr passed) value failure
  · intro alone
    refine ⟨fun earlier before passed failure cdr fails => ?_,
      fun passed value failure fails => ?_⟩
    · rw [after]
      cases earlier with
      | zero => cases found.symm.trans fails
      | succ earlier =>
          apply alone.heads earlier (Nat.lt_of_succ_lt_succ before)
            ((passed_succ found earlier).mp passed) failure cdr
          rw [drop, Nat.add_comm]
          exact fails
    · apply alone.tail ((passed_succ found index).mp passed) value failure
      rw [drop, Nat.add_comm]
      exact fails

/-- Behind a cell with no tail to go to, nothing is forced. -/
theorem getsAlone_of_stop
    (stops : ∀ value, cells 0 ≠ .cell (.ok value) (.ok true))
    (fine : ∀ failure cdr, cells 0 ≠ .cell (.error failure) cdr)
    (index : Nat) :
    cells.GetsAlone (index + 1) := by
  refine ⟨fun earlier before passed failure cdr fails => ?_, fun passed => ?_⟩
  · cases earlier with
    | zero => exact absurd fails (fine failure cdr)
    | succ earlier => exact absurd passed (not_passed stops earlier)
  · exact absurd passed (not_passed stops index)

theorem get_empty
    (found : cells 0 = .empty) :
    get index cells = .ok none := by
  rw [get, found]
  rfl

theorem get_head
    {cdr : Except Failure Bool}
    (found : cells 0 = .cell (.error failure) cdr) :
    get index cells = .error failure := by
  rw [get, found]
  rfl

theorem get_tail
    (found : cells 0 = .cell (.ok value) (.error failure)) :
    get index cells = .error failure := by
  rw [get, found]
  rfl

theorem get_zero
    {more : Bool}
    (found : cells 0 = .cell (.ok value) (.ok more)) :
    get 0 cells = .ok (some value) := by
  rw [get, found]
  rfl

theorem get_last
    (found : cells 0 = .cell (.ok value) (.ok false)) :
    get (index + 1) cells = .ok none := by
  rw [get, found]
  rfl

theorem get_next
    (found : cells 0 = .cell (.ok value) (.ok true)) :
    get (index + 1) cells = get index (cells.drop 1) := by
  rw [get, found]
  rfl

/-- `get` of the first element gives its head just when its tail succeeds. -/
theorem get_zero_iff
    (cells : Unrolled Value) :
    get 0 cells = carAfter 0 cells ↔ cells.GetsAlone 0 := by
  have alone_iff : cells.GetsAlone 0 ↔
      ∀ value failure, cells 0 ≠ .cell (.ok value) (.error failure) := by
    constructor
    · intro alone
      exact alone.tail (passed_zero cells)
    · intro fine
      refine ⟨fun earlier impossible => ?_, fun _ => fine⟩
      cases impossible
  rw [alone_iff, carAfter]
  cases found : cells 0 with
  | empty => simp [get_empty found, Cell.head]
  | cell car cdr =>
      rcases car with failure | value
      · simp [get_head found, Cell.head]
      · rcases cdr with failure | more
        · simp [get_tail found, Cell.head]
        · simp [get_zero found, Cell.head]

/-- `get` gives what is behind the `cdr`s just when the cells are so. -/
theorem get_eq_carAfter_iff
    (cells : Unrolled Value) (index : Nat) :
    get index cells = carAfter index cells ↔ cells.GetsAlone index := by
  induction index generalizing cells with
  | zero => exact get_zero_iff cells
  | succ index inductionHypothesis =>
      cases found : cells 0 with
      | empty =>
          have alone : cells.GetsAlone (index + 1) :=
            getsAlone_of_stop (by simp [found]) (by simp [found]) index
          simp only [get_empty found, carAfter, found, alone, iff_true]
          rfl
      | cell car cdr =>
          rcases car with failure | value
          · -- The `cdr`s do not look at the head that fails.
            rw [get_head found]
            have stops : ∀ value, cells 0 ≠ .cell (.ok value) (.ok true) := by
              simp [found]
            constructor
            · intro same
              refine ⟨fun earlier before passed other otherCdr fails => ?_,
                fun passed => absurd passed (not_passed stops index)⟩
              cases earlier with
              | zero =>
                  cases found.symm.trans fails
                  exact same.symm
              | succ earlier => exact absurd passed (not_passed stops earlier)
            · intro alone
              exact (alone.heads 0 (Nat.zero_lt_succ index)
                (passed_zero cells) failure cdr found).symm
          · rcases cdr with failure | more
            · have alone : cells.GetsAlone (index + 1) :=
                getsAlone_of_stop (by simp [found]) (by simp [found]) index
              simp only [get_tail found, carAfter, found, alone, iff_true]
              rfl
            · cases more with
              | false =>
                  have alone : cells.GetsAlone (index + 1) :=
                    getsAlone_of_stop (by simp [found]) (by simp [found]) index
                  simp only [get_last found, carAfter, found, alone, iff_true]
                  rfl
              | true =>
                  have after : carAfter (index + 1) cells =
                      carAfter index (cells.drop 1) := by
                    rw [carAfter, found]
                    rfl
                  rw [get_next found, after, getsAlone_succ found]
                  exact inductionHypothesis (cells.drop 1)

end Getting

section Visiting

variable {limit : Option Nat} {turns count : Nat} {items : List Value}

theorem visits_empty
    (found : cells 0 = .empty) :
    visits limit turns count cells = ([], .finished) := by
  rw [visits, found]

theorem visits_head
    {cdr : Except Failure Bool}
    (found : cells 0 = .cell (.error failure) cdr) :
    visits limit turns count cells = ([], .failed failure) := by
  rw [visits, found]

theorem visits_tail
    (found : cells 0 = .cell (.ok value) (.error failure)) :
    visits limit turns count cells = ([], .failed failure) := by
  rw [visits, found]

theorem visits_limited
    {more : Bool}
    (found : cells 0 = .cell (.ok value) (.ok more))
    (enough : limit.any (· ≤ count) = true) :
    visits limit turns count cells = ([], .finished) := by
  rw [visits, found]
  simp only [enough, if_true]

theorem visits_unfinished
    {more : Bool}
    (found : cells 0 = .cell (.ok value) (.ok more))
    (below : ¬ limit.any (· ≤ count) = true) :
    visits limit 0 count cells = ([], .unfinished) := by
  rw [visits, found]
  simp only [below, if_false, Bool.false_eq_true]

theorem visits_last
    (found : cells 0 = .cell (.ok value) (.ok false))
    (below : ¬ limit.any (· ≤ count) = true) :
    visits limit (turns + 1) count cells = ([value], .finished) := by
  rw [visits, found]
  simp only [below, if_false, Bool.false_eq_true]

theorem visits_next
    (found : cells 0 = .cell (.ok value) (.ok true))
    (below : ¬ limit.any (· ≤ count) = true) :
    visits limit (turns + 1) count cells =
      (value :: (visits limit turns (count + 1) (cells.drop 1)).1,
        (visits limit turns (count + 1) (cells.drop 1)).2) := by
  rw [visits, found]
  simp only [below, if_true, if_false, Bool.false_eq_true]

/-- Where a limit has been reached, the next cell must not fail. -/
theorem visits_reached_iff
    (cells : Unrolled Value) (turns count : Nat) :
    visits (some count) turns count cells = ([], .finished) ↔
      cells 0 = .empty ∨ ∃ next more, cells 0 = .cell (.ok next) (.ok more) := by
  cases found : cells 0 with
  | empty => simp [visits_empty found]
  | cell car cdr =>
      rcases car with failure | value
      · simp [visits_head found]
      · rcases cdr with failure | more
        · simp [visits_tail found]
        · have enough : (some count).any (· ≤ count) = true := by simp
          simp [visits_limited found enough]

/-- At a cell that is passed, a visit of more goes on alone with the tail. -/
theorem visitsAlone_succ
    (found : cells 0 = .cell (.ok value) (.ok true)) (count : Nat) :
    cells.VisitsAlone (count + 2) ↔ (cells.drop 1).VisitsAlone (count + 1) := by
  have shift : ∀ index, cells.drop 1 index = cells (index + 1) := by
    intro index
    rw [drop, Nat.add_comm]
  constructor
  · intro alone last same passed value cdr isCell
    rw [shift] at isCell ⊢
    exact alone (last + 1) (congrArg (· + 1) same)
      ((passed_succ found last).mpr passed) value cdr isCell
  · intro alone last same passed value cdr isCell
    cases Nat.succ.inj same
    have later := alone count rfl ((passed_succ found count).mp passed) value
      cdr (shift count ▸ isCell)
    rw [shift] at later
    exact later

/-- For the first element alone, its tail and the next cell must not fail. -/
theorem visitsAlone_one
    {cdr : Except Failure Bool}
    (found : cells 0 = .cell (.ok value) cdr) :
    cells.VisitsAlone 1 ↔ cdr = .ok false ∨ cdr = .ok true ∧
      (cells 1 = .empty ∨
        ∃ next more, cells 1 = .cell (.ok next) (.ok more)) := by
  constructor
  · intro alone
    exact alone 0 rfl (passed_zero cells) value cdr found
  · intro fine last same _ other otherCdr isCell
    cases Nat.succ.inj same
    cases found.symm.trans isCell
    exact fine

/-- Where the cells end before, nothing more is forced. -/
theorem visitsAlone_of_stop
    (stops : ∀ value, cells 0 ≠ .cell (.ok value) (.ok true)) (count : Nat) :
    cells.VisitsAlone (count + 2) := by
  intro last same passed
  cases Nat.succ.inj same
  exact absurd passed (not_passed stops count)

theorem visitsAlone_of_empty
    (found : cells 0 = .empty) (count : Nat) :
    cells.VisitsAlone (count + 1) := by
  cases count with
  | zero =>
      intro last same _ value cdr isCell
      cases Nat.succ.inj same
      cases found.symm.trans isCell
  | succ count => exact visitsAlone_of_stop (by simp [found]) count

/--
A visit of the first elements gives them and ends just when nothing fails that
it forces besides.
-/
theorem visits_eq_taken_iff
    (fewer : count ≤ turns)
    (takes : taken (count + 1) cells = .ok items)
    (seen : Nat) :
    visits (some (seen + (count + 1))) (turns + 1) seen cells =
        (items, .finished) ↔
      cells.VisitsAlone (count + 1) := by
  have below : ¬ (some (seen + (count + 1))).any (· ≤ seen) = true := by simp
  induction count generalizing cells items turns seen with
  | zero =>
      cases found : cells 0 with
      | empty =>
          rw [taken, found] at takes
          cases takes
          simp [visits_empty found, visitsAlone_of_empty found 0]
      | cell car cdr =>
          rw [taken, found] at takes
          rcases car with failure | value
          · cases takes
          · cases takes
            rw [visitsAlone_one found]
            rcases cdr with failure | more
            · simp [visits_tail found]
            · cases more with
              | false => simp [visits_last found below]
              | true =>
                  have reached : visits (some (seen + 1)) turns (seen + 1)
                      (cells.drop 1) = ([], .finished) ↔ cells 1 = .empty ∨
                        ∃ next more, cells 1 = .cell (.ok next) (.ok more) :=
                    visits_reached_iff (cells.drop 1) turns (seen + 1)
                  rw [visits_next found below]
                  simpa [Prod.ext_iff] using reached
  | succ count inductionHypothesis =>
      cases found : cells 0 with
      | empty =>
          rw [taken, found] at takes
          cases takes
          simp [visits_empty found, visitsAlone_of_empty found (count + 1)]
      | cell car cdr =>
          rw [taken, found] at takes
          rcases car with failure | value
          · cases takes
          · rcases cdr with failure | more
            · cases takes
            · cases more with
              | false =>
                  cases takes
                  have alone : cells.VisitsAlone (count + 2) :=
                    visitsAlone_of_stop (by simp [found]) count
                  simp [visits_last found below, alone]
              | true =>
                  cases turns with
                  | zero => cases fewer
                  | succ turns =>
                      rcases later : taken (count + 1) (cells.drop 1) with
                        failure | rest
                      · simp only [later] at takes
                        cases takes
                      · simp only [later] at takes
                        cases takes
                        have goesOn := inductionHypothesis
                          (Nat.le_of_succ_le_succ fewer) later (seen + 1)
                          (by simp)
                        have same : seen + 1 + (count + 1) =
                            seen + (count + 1 + 1) := by
                          rw [Nat.add_assoc, Nat.add_comm 1]
                        rw [same] at goesOn
                        rw [visits_next found below, visitsAlone_succ found]
                        refine Iff.trans ?_ goesOn
                        simp [Prod.ext_iff]

/-- `for_each` with a limit gives the first elements just when it is so. -/
theorem forEach_eq_taken_iff
    (fewer : count ≤ turns)
    (takes : taken count cells = .ok items) :
    cells.forEach turns (some count) = (items, .finished) ↔
      cells.VisitsAlone count := by
  cases count with
  | zero =>
      cases takes
      have alone : cells.VisitsAlone 0 := by
        intro last same
        cases same
      simp [forEach, alone]
  | succ count =>
      cases turns with
      | zero => cases fewer
      | succ turns =>
          have loop := visits_eq_taken_iff (Nat.le_of_succ_le_succ fewer) takes 0
          rw [Nat.zero_add] at loop
          rw [forEach, if_neg (by simp)]
          exact loop

end Visiting

/-- What is behind the `cdr`s depends on their tails and the last head only. -/
theorem carAfter_congr
    (tails : ∀ earlier < index, (cells earlier).tail = (other earlier).tail)
    (head : (cells index).head = (other index).head) :
    carAfter index cells = carAfter index other := by
  induction index generalizing cells other with
  | zero => exact head
  | succ index inductionHypothesis =>
      have shift : ∀ (list : Unrolled Value) (position : Nat),
          list.drop 1 position = list (position + 1) := by
        intro list position
        rw [drop, Nat.add_comm]
      have rest : carAfter index (cells.drop 1) =
          carAfter index (other.drop 1) := by
        apply inductionHypothesis
        · intro earlier before
          rw [shift, shift]
          exact tails (earlier + 1) (Nat.succ_lt_succ before)
        · rw [shift, shift]
          exact head
      rw [carAfter, carAfter, tails 0 (Nat.zero_lt_succ index), rest]

end Unrolled

namespace Spine

section Walks

variable (spine : Spine Value Handle σ)

/-- `car` behind so many `cdr`s; the handles on the way go out of scope. -/
def carAfter : Nat → Handle → EStateM Failure σ (Option Value)
  | 0, handle => spine.car handle
  | index + 1, handle => do
      match ← spine.cdr handle with
      | none => return none
      | some next => tidying (carAfter index next) (spine.release next)

end Walks

section Contract

variable (gives : σ → Handle → Unrolled Value → Prop)

/-- What a handle gives, it goes on to give. -/
def Lasts (state after : σ) : Prop :=
  ∀ handle cells, gives state handle cells → gives after handle cells

/-- What `cdr` of the first cell returns or throws. -/
inductive Followed (after : σ) (cells : Unrolled Value) :
    Except Failure (Option Handle) → Prop where
  | failed {failure : Failure}
      (fails : (cells 0).tail = .error failure) :
      Followed after cells (.error failure)
  | ended
      (ends : (cells 0).tail = .ok false) :
      Followed after cells (.ok none)
  | next {handle : Handle}
      (more : (cells 0).tail = .ok true)
      (given : gives after handle (cells.drop 1)) :
      Followed after cells (.ok (some handle))

/-- Every handle gives its cells, whatever has been forced. -/
structure Settled (spine : Spine Value Handle σ) : Prop where
  isEmpty : ∀ state handle cells, gives state handle cells → ∃ after,
    Yields (spine.isEmpty handle) state (.ok (cells 0).isEmpty) after ∧
      Lasts gives state after
  car : ∀ state handle cells, gives state handle cells → ∃ after,
    Yields (spine.car handle) state (cells 0).head after ∧
      Lasts gives state after
  cdr : ∀ state handle cells, gives state handle cells → ∃ outcome after,
    Yields (spine.cdr handle) state outcome after ∧
      Lasts gives state after ∧ Followed gives after cells outcome
  release : ∀ state handle, Lasts gives state (spine.release handle state)

/-- How a walk begins at the first cell. -/
inductive Begun (after : σ) (cells : Unrolled Value) :
    Except Failure (Option Value × Option Handle) → Prop where
  | empty
      (found : cells 0 = .empty) :
      Begun after cells (.ok (none, none))
  | head {failure : Failure} {cdr : Except Failure Bool}
      (found : cells 0 = .cell (.error failure) cdr) :
      Begun after cells (.error failure)
  | tail {value : Value} {failure : Failure}
      (found : cells 0 = .cell (.ok value) (.error failure)) :
      Begun after cells (.error failure)
  | last {value : Value}
      (found : cells 0 = .cell (.ok value) (.ok false)) :
      Begun after cells (.ok (some value, none))
  | next {value : Value} {handle : Handle}
      (found : cells 0 = .cell (.ok value) (.ok true))
      (given : gives after handle (cells.drop 1)) :
      Begun after cells (.ok (some value, some handle))

variable {gives} {spine : Spine Value Handle σ}
variable {state middle after : σ} {handle : Handle} {cells : Unrolled Value}

theorem Lasts.refl
    (state : σ) :
    Lasts gives state state := fun _ _ given => given

theorem Lasts.trans
    (first : Lasts gives state middle)
    (second : Lasts gives middle after) :
    Lasts gives state after :=
  fun handle cells given => second handle cells (first handle cells given)

theorem Begun.mono
    {outcome : Except Failure (Option Value × Option Handle)}
    (begun : Begun gives state cells outcome)
    (lasts : Lasts gives state after) :
    Begun gives after cells outcome := by
  cases begun with
  | empty found => exact .empty found
  | head found => exact .head found
  | tail found => exact .tail found
  | last found => exact .last found
  | next found given => exact .next found (lasts _ _ given)

theorem Begun.get_failed
    {failure : Failure} {index : Nat}
    (begun : Begun gives state cells (.error failure)) :
    cells.get index = .error failure := by
  cases begun with
  | head found => exact Unrolled.get_head found
  | tail found => exact Unrolled.get_tail found

theorem Begun.visits_failed
    {failure : Failure} {limit : Option Nat} {turns count : Nat}
    (begun : Begun gives state cells (.error failure)) :
    cells.visits limit turns count = ([], .failed failure) := by
  cases begun with
  | head found => exact Unrolled.visits_head found
  | tail found => exact Unrolled.visits_tail found

theorem Settled.dropped
    (settled : spine.Settled gives)
    (rest : Option Handle) (state : σ) :
    Lasts gives state (spine.dropped rest state) := by
  cases rest with
  | none => exact Lasts.refl state
  | some handle => exact settled.release state handle

/-- A walk begins with the outcomes of the first cell. -/
theorem Settled.begin_yields
    (settled : spine.Settled gives)
    (given : gives state handle cells) :
    ∃ outcome after, Yields (spine.begin handle) state outcome after ∧
      Lasts gives state after ∧ Begun gives after cells outcome := by
  rcases settled.car state handle cells given with ⟨middle, heads, kept⟩
  rcases settled.cdr middle handle cells (kept _ _ given) with
    ⟨outcome, after, tails, more, followed⟩
  have lasts := kept.trans more
  cases found : cells 0 with
  | empty =>
      rw [found] at heads
      cases followed with
      | failed fails =>
          rw [found] at fails
          cases fails
      | ended ends =>
          exact ⟨_, after, heads.bind (tails.bind (Yields.pure _ after)), lasts,
            .empty found⟩
      | next more given =>
          rw [found] at more
          cases more
  | cell car cdr =>
      rw [found] at heads
      rcases car with failure | value
      · exact ⟨_, middle, heads.bindError, kept, .head found⟩
      · cases followed with
        | failed fails =>
            rw [found] at fails
            cases fails
            exact ⟨_, after, heads.bind tails.bindError, lasts, .tail found⟩
        | ended ends =>
            rw [found] at ends
            cases ends
            exact ⟨_, after, heads.bind (tails.bind (Yields.pure _ after)),
              lasts, .last found⟩
        | next more given =>
            rw [found] at more
            cases more
            exact ⟨_, after, heads.bind (tails.bind (Yields.pure _ after)),
              lasts, .next found given⟩

/-- A step finds the end, or begins at the cell that it comes to. -/
theorem Settled.advance_yields
    (settled : spine.Settled gives)
    (given : gives state handle cells) :
    ∃ outcome after, Yields (spine.advance handle) state outcome after ∧
      Lasts gives state after ∧
        (cells 0 = .empty ∧ outcome = .ok none ∨
          ∃ begun, Begun gives after cells begun ∧
            outcome = begun.map some) := by
  rcases settled.isEmpty state handle cells given with ⟨middle, empty, kept⟩
  have released := settled.release
  cases found : cells 0 with
  | empty =>
      rw [found] at empty
      exact ⟨.ok none, _,
        tidying_yields (empty.bind (Yields.pure none middle)),
        kept.trans (released middle handle), .inl ⟨rfl, rfl⟩⟩
  | cell car cdr =>
      rw [found] at empty
      rcases settled.begin_yields (kept _ _ given) with
        ⟨outcome, after, begins, more, begun⟩
      have last := released after handle
      refine ⟨outcome.map some, _, tidying_yields (empty.bind ?_),
        (kept.trans more).trans last, .inr ⟨outcome, begun.mono last, rfl⟩⟩
      cases outcome with
      | ok value => exact begins.map some
      | error failure => exact begins.mapError some

/-- The loop of `get`, from a cell that it has begun with. -/
theorem Settled.getFrom_yields
    (settled : spine.Settled gives)
    {head : Option Value} {rest : Option Handle}
    (begun : Begun gives state cells (.ok (head, rest)))
    (index : Nat) :
    ∃ after, Yields (spine.getFrom index head rest) state (cells.get index)
        after ∧
      Lasts gives state after := by
  induction index generalizing state cells head rest with
  | zero =>
      cases begun with
      | empty found =>
          rw [Unrolled.get_empty found]
          exact ⟨_, (Yields.modify _ state).bind (Yields.pure none _),
            settled.dropped none state⟩
      | last found =>
          rw [Unrolled.get_zero found]
          exact ⟨_, (Yields.modify _ state).bind (Yields.pure _ _),
            settled.dropped none state⟩
      | next found given =>
          rw [Unrolled.get_zero found]
          exact ⟨_, (Yields.modify _ state).bind (Yields.pure _ _),
            settled.dropped _ state⟩
  | succ index inductionHypothesis =>
      cases begun with
      | empty found =>
          rw [Unrolled.get_empty found]
          exact ⟨_, (Yields.modify _ state).bind (Yields.pure none _),
            settled.dropped none state⟩
      | last found =>
          rw [Unrolled.get_last found]
          exact ⟨state, Yields.pure none state, Lasts.refl state⟩
      | next found given =>
          rw [Unrolled.get_next found]
          rcases settled.advance_yields given with
            ⟨outcome, middle, steps, kept, ⟨ended, rfl⟩ | ⟨begun, begins, rfl⟩⟩
          · rw [Unrolled.get_empty ended]
            exact ⟨middle, steps.bind (Yields.pure none middle), kept⟩
          · rcases begun with failure | ⟨head, rest⟩
            · rw [begins.get_failed]
              exact ⟨middle, steps.bindError, kept⟩
            · rcases inductionHypothesis begins with ⟨after, runs, more⟩
              exact ⟨after, steps.bind runs, kept.trans more⟩

/-- `get` gives what it gives of the cells. -/
theorem Settled.get_yields
    (settled : spine.Settled gives)
    (given : gives state handle cells)
    (index : Nat) :
    ∃ after, Yields (spine.get handle index) state (cells.get index) after ∧
      Lasts gives state after := by
  rcases settled.begin_yields given with ⟨outcome, middle, begins, kept, begun⟩
  rcases outcome with failure | ⟨head, rest⟩
  · rw [begun.get_failed]
    exact ⟨middle, begins.bindError, kept⟩
  · rcases settled.getFrom_yields begun index with ⟨after, runs, more⟩
    exact ⟨after, begins.bind runs, kept.trans more⟩

/-- The loop of `for_each`, from a cell that it has begun with. -/
theorem Settled.visitFrom_yields
    (settled : spine.Settled gives)
    {head : Option Value} {rest : Option Handle}
    (begun : Begun gives state cells (.ok (head, rest)))
    (limit : Option Nat) (turns count : Nat) :
    ∃ after, Yields (spine.visitFrom limit turns count head rest) state
        (.ok (cells.visits limit turns count)) after ∧
      Lasts gives state after := by
  induction turns generalizing state cells head rest count with
  | zero =>
      refine ⟨_, ?_, settled.dropped rest state⟩
      have ended : ∀ value more, cells 0 = .cell (.ok value) (.ok more) →
          cells.visits limit 0 count = ([],
            if limit.any (· ≤ count) then .finished else .unfinished) := by
        intro value more found
        by_cases enough : limit.any (· ≤ count) = true
        · rw [Unrolled.visits_limited found enough, if_pos enough]
        · rw [Unrolled.visits_unfinished found enough, if_neg enough]
      cases begun with
      | empty found =>
          rw [Unrolled.visits_empty found]
          exact visitFrom_stops (.inl rfl) none state
      | last found =>
          rw [ended _ _ found]
          exact (Yields.modify _ _).bind (Yields.pure _ _)
      | next found given =>
          rw [ended _ _ found]
          exact (Yields.modify _ _).bind (Yields.pure _ _)
  | succ turns inductionHypothesis =>
      cases begun with
      | empty found =>
          rw [Unrolled.visits_empty found]
          exact ⟨_, visitFrom_stops (.inl rfl) none state,
            settled.dropped none state⟩
      | last found =>
          by_cases enough : limit.any (· ≤ count) = true
          · rw [Unrolled.visits_limited found enough]
            exact ⟨_, visitFrom_stops (.inr enough) none state,
              settled.dropped none state⟩
          · rw [Unrolled.visits_last found enough, visitFrom, if_neg enough]
            exact ⟨state, Yields.pure _ state, Lasts.refl state⟩
      | next found given =>
          by_cases enough : limit.any (· ≤ count) = true
          · rw [Unrolled.visits_limited found enough]
            exact ⟨_, visitFrom_stops (.inr enough) _ state,
              settled.dropped _ state⟩
          · rw [Unrolled.visits_next found enough, visitFrom, if_neg enough]
            rcases settled.advance_yields given with
              ⟨outcome, middle, steps, kept, ⟨ended, rfl⟩ | ⟨begun, begins, rfl⟩⟩
            · rw [Unrolled.visits_empty ended]
              exact ⟨middle, steps.observe.bind (Yields.pure _ middle), kept⟩
            · rcases begun with failure | ⟨head, rest⟩
              · rw [begins.visits_failed]
                exact ⟨middle, steps.observe.bind (Yields.pure _ middle), kept⟩
              · rcases inductionHypothesis begins (count + 1) with
                  ⟨after, runs, more⟩
                exact ⟨after, steps.observe.bind
                  (runs.bind (Yields.pure _ after)), kept.trans more⟩

/-- `for_each` visits what it visits of the cells. -/
theorem Settled.forEach_yields
    (settled : spine.Settled gives)
    (given : gives state handle cells)
    (turns : Nat) (limit : Option Nat) :
    ∃ after, Yields (spine.forEach handle turns limit) state
        (.ok (cells.forEach turns limit)) after ∧
      Lasts gives state after := by
  by_cases zero : limit = some 0
  · rw [Spine.forEach, if_pos zero, Unrolled.forEach, if_pos zero]
    exact ⟨state, Yields.pure _ state, Lasts.refl state⟩
  · rw [Spine.forEach, if_neg zero, Unrolled.forEach, if_neg zero]
    rcases settled.begin_yields given with ⟨outcome, middle, begins, kept, begun⟩
    rcases outcome with failure | ⟨head, rest⟩
    · rw [begun.visits_failed]
      exact ⟨middle, begins.observe.bind (Yields.pure _ middle), kept⟩
    · rcases settled.visitFrom_yields begun limit turns 0 with
        ⟨after, runs, more⟩
      exact ⟨after, begins.observe.bind runs, kept.trans more⟩

/-- `car` behind some `cdr`s reads what is behind them. -/
theorem Settled.carAfter_yields
    (settled : spine.Settled gives)
    (given : gives state handle cells)
    (index : Nat) :
    ∃ after, Yields (spine.carAfter index handle) state (cells.carAfter index)
        after ∧
      Lasts gives state after := by
  induction index generalizing state handle cells with
  | zero => exact settled.car state handle cells given
  | succ index inductionHypothesis =>
      rcases settled.cdr state handle cells given with
        ⟨outcome, middle, tails, kept, followed⟩
      rw [Unrolled.carAfter]
      cases followed with
      | failed fails =>
          rw [fails]
          exact ⟨middle, tails.bindError, kept⟩
      | ended ends =>
          rw [ends]
          exact ⟨middle, tails.bind (Yields.pure none middle), kept⟩
      | next more given =>
          rw [more]
          rcases inductionHypothesis given with ⟨after, reads, last⟩
          exact ⟨_, tails.bind (tidying_yields reads),
            (kept.trans last).trans (settled.release after _)⟩

end Contract

end Spine

end SimStorage.Lists
