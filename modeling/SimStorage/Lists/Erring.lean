import SimStorage.Lists.Chain
import SimStorage.Lists.Failing

namespace SimStorage.Lists

/-!
# What an iterator list loses to an error

A driver that has failed has moved on, and what it failed at is not given
again.  As long as nothing is asked of it after that, every reading is that of
the source.
-/

open Interaction Table

variable {Value σ : Type}

section Definitions

/--
A list whose calls may fail gives a source, where each call that succeeds is
right; where the source has an error, `car` fails.
-/
structure MayKeep (lists : ListObjects Value σ)
    (holds : Spine.Held (Except Error Value) Value → σ → Prop) : Prop where
  isEmpty : ∀ held state, holds held state → ∀ node items,
    (node, items) ∈ held → ∃ outcome later,
      Yields (lists.isEmpty node) state outcome later ∧
        ((∃ failure, outcome = .error failure) ∨
          outcome = .ok (items 0).isNone ∧ holds held later)
  car : ∀ held state, holds held state → ∀ node items,
    (node, items) ∈ held → ∃ outcome later,
      Yields (lists.car node) state outcome later ∧
        ((∃ failure, outcome = .error failure) ∨
          ∃ given, outcome = .ok given ∧ Source.Gives (items 0) given ∧
            holds held later)
  cdr : ∀ held state, holds held state → ∀ node items,
    (node, items) ∈ held → ∃ outcome later,
      Yields (lists.cdr node) state outcome later ∧
        ((∃ failure, outcome = .error failure) ∨
          ∃ rest, outcome = .ok rest ∧ Spine.Rests items rest ∧
            holds (Spine.behind rest items ++ held) later)
  release : ∀ held state node items, holds ((node, items) :: held) state →
    holds held (lists.release node state)
  perm : ∀ held other state, List.Perm held other → holds held state →
    holds other state

/-- A value and then a source. -/
def Source.behind (first : Value) (rest : Source Value) : Source Value
  | 0 => some (.ok first)
  | index + 1 => rest index

/-- A cursor that has not failed holds the rest of the source. -/
def CursorAt (items : Source Value)
    (holds : Spine.Held (Except Error Value) Value → σ → Prop) (index : Nat) :
    IterDriver Value → σ → Prop
  | .iter _ _, _ => False
  | .list none, _ => items index = none
  | .list (some node), lists => holds [(node, items.drop index)] lists

/-- A list that has been opened without views, on a source that may fail. -/
inductive OpenedOn (lists : ListObjects Value σ) :
    Source Value → (Nat → IterDriver Value → σ → Prop) →
      World Value σ → Prop where
  | new {items : Source Value} {outside : σ} :
      OpenedOn lists items (fun index driver _ => driver = .iter items index)
        { iter := .new items, lists := outside }
  | prepend {rest : Source Value} {first tail : Value} {outside : σ}
      {holds : Spine.Held (Except Error Value) Value → σ → Prop}
      (keeps : MayKeep lists holds)
      (ends : Sequence.Ends rest)
      (held : holds [(tail, rest)] outside) :
      OpenedOn lists (.behind first rest)
        (CursorAt (.behind first rest) holds)
        { iter := .withFirst first tail, lists := outside }

/-- A call that does not call the driver. -/
def Unforced (world : World Value σ) (start : Nat) : Call → Prop
  | .isEmpty | .truth | .car | .cdr => InBuffer world start
  | .get index => InBuffer world (start + index)
  | .lenCmp n => InBuffer world (start + n)
  | .forEach _ limit =>
      limit = some 0 ∨ world.iter.done = true ∨
        ∃ max, limit = some max ∧ InBuffer world (start + max)

/-- A call in which the driver has failed. -/
def broke : Except Failure (Answer Value LazyIterList) → Bool
  | .error _ => true
  | .ok (.visited _ (.failed _)) => true
  | .ok _ => false

/-- The views that a call gives. -/
def given : Except Failure (Answer Value LazyIterList) → List Nat
  | .error _ => []
  | .ok answer => answer.views.map LazyIterList.start

/--
What calls, clones and drops reach, where no call needs the driver after it has
failed; and whether it has.
-/
inductive Careful (lists : ListObjects Value σ) (opened : World Value σ) :
    Bool → List Nat → World Value σ → Prop where
  | first {later : World Value σ}
      (runs : Yields (LazyIterList.fromState 0) opened (.ok ⟨0⟩) later) :
      Careful lists opened false [0] later
  | called {failed : Bool} {views : List Nat} {world later : World Value σ}
      {view : LazyIterList} {call : Call}
      {outcome : Except Failure (Answer Value LazyIterList)}
      (reached : Careful lists opened failed views world)
      (live : view.start ∈ views)
      (cautious : failed = false ∨ Unforced world view.start call)
      (runs : Yields ((LazyIterList.object lists).answer view call) world
        outcome later) :
      Careful lists opened (failed || broke outcome) (given outcome ++ views)
        later
  | cloned {failed : Bool} {views : List Nat} {world later : World Value σ}
      {view clone : LazyIterList}
      (reached : Careful lists opened failed views world)
      (live : view.start ∈ views)
      (runs : Yields view.clone world (.ok clone) later) :
      Careful lists opened failed (clone.start :: views) later
  | dropped {failed : Bool} {views : List Nat} {world : World Value σ}
      {view : LazyIterList}
      (reached : Careful lists opened failed views world)
      (live : view.start ∈ views) :
      Careful lists opened failed (views.erase view.start) (view.dropped world)

/-- How far behind the start of a view a call reads. -/
def Call.Reads : Call → Nat → Prop
  | .isEmpty, offset | .truth, offset | .car, offset | .cdr, offset => offset = 0
  | .get index, offset => offset = index
  | .lenCmp n, offset => offset ≤ n
  | .forEach turns limit, offset =>
      offset < turns ∧ ¬ limit.any (· ≤ offset) = true

/--
A call fails, after it has visited elements of the source if it is a visit; or
it answers as the source does, whose positions that it reads have a value or lie
behind the end.
-/
def Right (items : Source Value) (start : Nat) (call : Call) :
    Except Failure (Answer Value LazyIterList) → Prop
  | .error _ => True
  | .ok (.visited values (.failed _)) => ∀ offset value,
      values[offset]? = some value → items (start + offset) = some (.ok value)
  | .ok answer =>
      answer.map (fun rest => (Sequence.ofItems items).drop rest.start) =
          ((Sequence.ofItems items).drop start).answer call ∧
        ∀ offset, call.Reads offset → items.Certain (start + offset)

end Definitions

variable {lists : ListObjects Value σ} {items : Source Value}
variable {ready : Nat → IterDriver Value → σ → Prop} {failed : Bool}
variable {views : List Nat} {opened world later : World Value σ}

section Drivers

/-- An iterator gives its items, and fails at its errors. -/
theorem iter_mayFeed
    (lists : ListObjects Value σ) (items : Source Value) :
    MayFeed lists items (fun index driver _ => driver = .iter items index) := by
  intro index world driven
  cases found : items index with
  | none =>
      refine ⟨.ok none, .iter items (index + 1), world.lists,
        (Yields.get world).bind ?_, .inr ⟨none, rfl, .ended, rfl⟩⟩
      rw [driven]
      refine (Yields.modify _ world).bind ?_
      rw [found]
      exact Yields.pure none _
  | some item =>
      cases item with
      | ok value =>
          refine ⟨.ok (some value), .iter items (index + 1), world.lists,
            (Yields.get world).bind ?_,
            .inr ⟨some value, rfl, .value value, rfl⟩⟩
          rw [driven]
          refine (Yields.modify _ world).bind ?_
          rw [found]
          exact Yields.pure (some value) _
      | error error =>
          refine ⟨.error (.error error), .iter items (index + 1), world.lists,
            (Yields.get world).bind ?_, .inl ⟨_, rfl⟩⟩
          rw [driven]
          refine (Yields.modify _ world).bind ?_
          rw [found]
          exact Yields.throw _ _

variable {holds : Spine.Held (Except Error Value) Value → σ → Prop}

/-- A cursor steps along a list that keeps its source, or fails. -/
theorem nextOf_mayGive
    (keeps : MayKeep lists holds)
    {node : Value}
    (driven : world.iter.driver = .list none)
    (holding : holds [(node, items)] world.lists) :
    ∃ outcome next after, Yields (nextOf lists node) world outcome
        { iter := { world.iter with driver := .list next }, lists := after } ∧
      ((∃ failure, outcome = .error failure) ∨
        ∃ given, outcome = .ok given ∧ Source.Gives (items 0) given ∧
          match next with
          | none => items 0 = none ∨ items 1 = none
          | some node => holds [(node, items.drop 1)] after) := by
  have member : (node, items) ∈ [(node, items)] := List.mem_cons_self
  have same : { world.iter with driver := .list none } = world.iter := by
    rw [← driven]
  -- A call that leaves the cursor where it was, at no node.
  have stops : ∀ outcome after, Yields (do
      if lists.isList node = false then
        throw (refused "list cdr did not yield a list")
      else if ← onLists (lists.isEmpty node) then
        return none
      else
        match ← onLists (lists.car node) with
        | none => throw (refused "list car missing for non-empty list")
        | some head =>
            let next ← onLists (lists.cdr node)
            onIter fun state => { state with driver := .list next }
            return some head) world outcome { world with lists := after } →
      Yields (nextOf lists node) world outcome
        { iter := { world.iter with driver := .list none }
          lists := lists.release node after } := by
    intro outcome after yields
    rw [same]
    exact Spine.tidying_yields yields
  by_cases isList : lists.isList node = false
  · refine ⟨_, none, _, stops (.error (refused "list cdr did not yield a list"))
      world.lists ?_, .inl ⟨_, rfl⟩⟩
    rw [if_pos isList]
    exact Yields.throw _ world
  · rcases keeps.isEmpty _ _ holding node items member with
      ⟨outcome, first, empty, ⟨failure, rfl⟩ | ⟨rfl, kept⟩⟩
    · refine ⟨_, none, _, stops (.error failure) first ?_, .inl ⟨_, rfl⟩⟩
      rw [if_neg isList]
      exact (onLists_yields world empty).bindError
    · cases found : items 0 with
      | none =>
          rw [found] at empty
          refine ⟨_, none, _, stops (.ok none) first ?_,
            .inr ⟨none, rfl, .ended, .inl rfl⟩⟩
          rw [if_neg isList]
          exact (onLists_yields world empty).bind (Yields.pure none _)
      | some item =>
          rw [found] at empty
          have full := onLists_yields world empty
          rcases keeps.car _ first kept node items member with
            ⟨outcome, second, heads, ⟨failure, rfl⟩ |
              ⟨head, rfl, gives, kept⟩⟩
          · refine ⟨_, none, _, stops (.error failure) second ?_,
              .inl ⟨_, rfl⟩⟩
            rw [if_neg isList]
            exact full.bind
              (onLists_yields { world with lists := first } heads).bindError
          · rw [found] at gives
            cases gives with
            | value value =>
                have read := onLists_yields { world with lists := first } heads
                rcases keeps.cdr _ second kept node items member with
                  ⟨outcome, third, tails, ⟨failure, rfl⟩ |
                    ⟨rest, rfl, rests, kept⟩⟩
                · refine ⟨_, none, _, stops (.error failure) third ?_,
                    .inl ⟨_, rfl⟩⟩
                  rw [if_neg isList]
                  exact full.bind (read.bind
                    (onLists_yields { world with lists := second }
                      tails).bindError)
                · have moved : Yields (nextOf lists node) world
                      (.ok (some value))
                      { iter := { world.iter with driver := .list rest }
                        lists := lists.release node third } := by
                    refine Spine.tidying_yields
                      (?_ : Yields _ world (.ok (some value))
                        { iter := { world.iter with driver := .list rest }
                          lists := third })
                    rw [if_neg isList]
                    exact full.bind (read.bind
                      ((onLists_yields { world with lists := second }
                        tails).bind
                        ((Yields.modify _ _).bind
                          (Yields.pure (some value) _))))
                  have left := keeps.release _ third node items
                    (keeps.perm _ _ third List.perm_append_comm kept)
                  refine ⟨_, rest, _, moved,
                    .inr ⟨some value, rfl, .value value, ?_⟩⟩
                  cases rest with
                  | none => exact .inr (rests rfl)
                  | some next => exact left

/-- A cursor on a list that keeps its source gives it, or fails. -/
theorem cursor_mayFeed
    (keeps : MayKeep lists holds)
    (ends : Sequence.Ends items) :
    MayFeed lists items (CursorAt items holds) := by
  intro index world ready
  cases driver : world.iter.driver with
  | iter items position =>
      rw [driver] at ready
      exact ready.elim
  | list next =>
      rw [driver] at ready
      cases next with
      | none =>
          have ended : items index = none := ready
          have same : { world.iter with driver := .list none } = world.iter := by
            rw [← driver]
          refine ⟨.ok none, .list none, world.lists, (Yields.get world).bind ?_,
            .inr ⟨none, rfl, ?_, ends index ended⟩⟩
          · rw [same, driver]
            exact Yields.pure none world
          · rw [ended]
            exact .ended
      | some node =>
          let taken : World Value σ :=
            { world with iter := { world.iter with driver := .list none } }
          have holding : holds [(node, items.drop index)] taken.lists := ready
          rcases nextOf_mayGive keeps rfl holding with
            ⟨outcome, next, after, steps, ended⟩
          have whole : Yields (nextValue lists) world outcome
              { iter := { world.iter with driver := .list next }
                lists := after } := by
            refine (Yields.get world).bind ?_
            rw [driver]
            exact (Yields.modify _ world).bind steps
          refine ⟨outcome, .list next, after, whole, ended.imp_right ?_⟩
          rintro ⟨given, rfl, gives, behind⟩
          refine ⟨given, rfl, gives, ?_⟩
          cases next with
          | none =>
              rcases behind with ended | ended
              · exact ends index ended
              · exact ended
          | some next =>
              rw [Sequence.drop_drop] at behind
              exact behind

/-- A list that has been opened on a source is driven by it. -/
theorem OpenedOn.mayFeed
    (start : OpenedOn lists items ready opened) :
    MayFeed lists items ready := by
  cases start with
  | new => exact iter_mayFeed lists items
  | @prepend rest first tail outside holds keeps ends held =>
      apply cursor_mayFeed keeps
      intro index ended
      cases index with
      | zero => cases ended
      | succ index => exact ends index ended

/-- Before its first view, a list is sound. -/
theorem OpenedOn.sound
    (start : OpenedOn lists items ready opened) :
    Sound items ready false [] opened := by
  cases start with
  | new =>
      refine ⟨⟨.nil, ?_, ?_, ?_, fun _ => rfl, ?_⟩, ?_⟩
      · intro start member
        cases member
      · intro index fits
        exact absurd fits (Nat.not_lt_zero index)
      · intro index fits
        exact absurd fits (Nat.not_lt_zero index)
      · intro finished
        cases finished
      · intro finished
        cases finished
  | @prepend rest first tail outside holds keeps ends held =>
      refine ⟨⟨.nil, ?_, ?_, ?_, fun _ => ?_, ?_⟩, ?_⟩
      · intro start member
        cases member
      · intro index fits
        cases Nat.lt_one_iff.mp fits
        rfl
      · intro index fits
        cases Nat.lt_one_iff.mp fits
        rfl
      · have drops : Sequence.drop (Source.behind first rest) 1 = rest := by
          funext index
          rw [Sequence.drop, Nat.add_comm]
          rfl
        have ready : holds [(tail, Sequence.drop (Source.behind first rest) 1)]
            outside := by
          rw [drops]
          exact held
        exact ready
      · intro finished
        cases finished
      · intro finished
        cases finished

theorem OpenedOn.base
    (start : OpenedOn lists items ready opened) :
    opened.iter.base ≤ 0 := by
  cases start <;> exact Nat.le_refl 0

end Drivers

section Runs

/-- The answer to a call that is right or fails. -/
theorem Tries.answers
    {α : Type} {asked : Calling Value σ α} {make : α → Answer Value LazyIterList}
    {right : α → List Nat → World Value σ → Prop} {start : Nat} {call : Call}
    (tries : Tries items ready failed views world asked right)
    (told : ∀ value left after, right value left after →
      left = given (.ok (make value)) ++ views ∧
        Right items start call (.ok (make value)) ∧
        broke (.ok (make value)) = false) :
    ∃ outcome after, Yields (make <$> asked) world outcome after ∧
      Right items start call outcome ∧
        Sound items ready (failed || broke outcome) (given outcome ++ views)
          after := by
  rcases tries with ⟨outcome, after, runs, _, tried⟩
  cases tried with
  | @failed failure before sound =>
      refine ⟨.error failure, after, runs.mapError make, trivial, ?_⟩
      rw [before]
      exact sound
  | @returned value left correct sound =>
      rcases told value left after correct with ⟨rfl, correct, whole⟩
      refine ⟨.ok (make value), after, runs.map make, correct, ?_⟩
      rw [whole, Bool.or_false]
      exact sound

/-- A call that may need the driver is right, as long as it has not failed. -/
theorem answer_tries
    (feeds : MayFeed lists items ready)
    (sound : Sound items ready failed views world)
    {view : LazyIterList}
    (live : view.start ∈ views)
    (call : Call)
    (cautious : failed = false ∨ Unforced world view.start call) :
    ∃ outcome after,
      Yields ((LazyIterList.object lists).answer view call) world outcome
          after ∧
        Right items view.start call outcome ∧
          Sound items ready (failed || broke outcome) (given outcome ++ views)
            after := by
  cases call with
  | isEmpty =>
      refine (isEmpty_tries feeds sound view cautious).answers ?_
      rintro _ _ _ ⟨rfl, rfl, certain⟩
      refine ⟨rfl, ⟨rfl, ?_⟩, rfl⟩
      rintro _ rfl
      exact certain
  | truth =>
      refine (truth_tries feeds sound view cautious).answers ?_
      rintro _ _ _ ⟨rfl, rfl, certain⟩
      refine ⟨rfl, ⟨rfl, ?_⟩, rfl⟩
      rintro _ rfl
      exact certain
  | car =>
      refine (car_tries feeds sound view live cautious).answers ?_
      rintro _ _ _ ⟨rfl, rfl, certain⟩
      refine ⟨rfl, ⟨rfl, ?_⟩, rfl⟩
      rintro _ rfl
      exact certain
  | cdr =>
      refine (cdr_tries feeds sound view live cautious).answers ?_
      rintro _ _ _ ⟨rfl, rfl, certain⟩
      have same : (Sequence.ofItems items).drop view.start 0 =
          Sequence.ofItems items view.start := rfl
      refine ⟨?_, ⟨?_, ?_⟩, rfl⟩
      · rw [behindStart]
        cases Sequence.ofItems items view.start <;> rfl
      · rw [Sequence.answer, same, Sequence.drop_drop]
        cases Sequence.ofItems items view.start <;> rfl
      · rintro _ rfl
        exact certain
  | get index =>
      refine (get_tries feeds sound view live index cautious).answers ?_
      rintro _ _ _ ⟨rfl, rfl, certain⟩
      refine ⟨rfl, ⟨rfl, ?_⟩, rfl⟩
      rintro _ rfl
      exact certain
  | lenCmp n =>
      refine (lenCmp_tries feeds sound view n cautious).answers ?_
      rintro _ _ _ ⟨rfl, rfl, certain⟩
      exact ⟨rfl, ⟨rfl, certain⟩, rfl⟩
  | forEach turns limit =>
      have allowed : limit = some 0 ∨ ∀ offset ≤ turns,
          (∀ earlier < offset, ¬ limit.any (· ≤ earlier) = true) →
            Allowed failed world (view.start + offset) := by
        rcases cautious with unfailed | zero | finished | ⟨max, rfl, within⟩
        · exact .inr fun _ _ _ => .inl unfailed
        · exact .inl zero
        · exact .inr fun _ _ _ => .inr (.inl finished)
        · refine .inr fun offset _ more => ?_
          have bound : offset ≤ max := by
            by_contra above
            apply more max (Nat.lt_of_not_le above)
            exact decide_eq_true (Nat.le_refl max)
          have reach : Allowed failed world (view.start + max) := .inr within
          exact reach.before (Nat.add_le_add_left bound view.start)
      rcases forEach_tries feeds sound view live turns limit allowed with
        ⟨⟨values, ended⟩, after, visits, _, tried⟩
      refine ⟨_, after, visits.map _, ?_⟩
      have rightly : (∀ failure, ended ≠ .failed failure) →
          Right items view.start (.forEach turns limit)
              (.ok (.visited values ended)) ∧
            Sound items ready (failed || broke (.ok (.visited values ended)))
              (given (.ok (.visited values ended)) ++ views) after := by
        intro unfailed
        rcases tried.right unfailed with ⟨kept, same, certain⟩
        have told : (Answer.visited values ended : Answer Value LazyIterList).map
              (fun rest => (Sequence.ofItems items).drop rest.start) =
            ((Sequence.ofItems items).drop view.start).answer
              (.forEach turns limit) := by
          rw [Sequence.answer, ← same]
          rfl
        have reads : ∀ offset, (Call.forEach turns limit).Reads offset →
            items.Certain (view.start + offset) := by
          intro offset read
          apply certain offset read.1
          rw [Nat.zero_add]
          exact read.2
        cases ended with
        | failed failure => exact absurd rfl (unfailed failure)
        | finished | unfinished =>
            refine ⟨⟨told, reads⟩, ?_⟩
            have same : Sound items ready (failed || false) views after := by
              rw [Bool.or_false]
              exact kept
            exact same
      cases ended with
      | failed failure =>
          rcases tried.failed failure rfl with ⟨rfl, kept⟩
          exact ⟨tried.values, kept⟩
      | finished | unfinished =>
          exact rightly fun failure impossible => by cases impossible

/-- Whatever has been called with care, the state is sound. -/
theorem Careful.sound
    (start : OpenedOn lists items ready opened)
    (careful : Careful lists opened failed views world) :
    Sound items ready failed views world := by
  have feeds := start.mayFeed
  induction careful with
  | first runs =>
      obtain ⟨_, rfl⟩ := runs.unique
        (Yields.bind (Yields.modify _ opened) (Yields.pure _ _))
      exact start.sound.register start.base
  | called _ live cautious runs inductionHypothesis =>
      rcases answer_tries feeds inductionHypothesis live _ cautious with
        ⟨outcome, after, answers, _, kept⟩
      obtain ⟨rfl, rfl⟩ := runs.unique answers
      exact kept
  | @cloned failed views world later view clone _ live runs
      inductionHypothesis =>
      have clones : Yields view.clone world (.ok view) _ :=
        Yields.bind (Yields.modify _ world) (Yields.pure _ _)
      obtain ⟨same, rfl⟩ := runs.unique clones
      cases same
      exact inductionHypothesis.register
        (inductionHypothesis.coherent.low _ live)
  | dropped _ live inductionHypothesis =>
      exact inductionHypothesis.unregister _

/--
As long as no call needs the driver after it has failed, every call through a
live view fails or answers as the source does; what `get` returns is the element
of the source at that position, or the source has ended there.
-/
theorem careful_calls_read_the_source
    (lists : ListObjects Value σ)
    (items : Source Value)
    (ready : Nat → IterDriver Value → σ → Prop)
    (opened world : World Value σ)
    (failed : Bool)
    (views : List Nat)
    (start : OpenedOn lists items ready opened)
    (careful : Careful lists opened failed views world)
    (view : LazyIterList)
    (live : view.start ∈ views) :
    (∀ call outcome later,
      failed = false ∨ Unforced world view.start call →
        Yields ((LazyIterList.object lists).answer view call) world outcome
            later →
          Right items view.start call outcome) ∧
      ∀ index value later,
        failed = false ∨ InBuffer world (view.start + index) →
          Yields (view.get lists index) world (.ok value) later →
            items.At (view.start + index) value := by
  have sound := careful.sound start
  constructor
  · intro call outcome later cautious runs
    rcases answer_tries start.mayFeed sound live call cautious with
      ⟨outcome, after, answers, correct, _⟩
    obtain ⟨rfl, rfl⟩ := runs.unique answers
    exact correct
  · intro index value later allowed runs
    rcases get_tries start.mayFeed sound view live index allowed with
      ⟨outcome, after, gets, _, tried⟩
    obtain ⟨rfl, rfl⟩ := runs.unique gets
    cases tried with
    | returned correct _ =>
        rcases correct with ⟨_, rfl, certain⟩
        exact certain

end Runs

section Sample

/-- An iterator with an error between two values. -/
def interrupted : Source Nat :=
  Sequence.ofList [.ok 10, .error (.eval "later"), .ok 20]

/-- A list on it, with a view. -/
def interruptedWorld : World Nat Unit where
  iter := (IterState.new interrupted).register 0
  lists := ()

/-- The same, when the iterator has been asked for its second item. -/
def brokenWorld : World Nat Unit where
  iter := {
    driver := .iter interrupted 2
    buffer := [10]
    base := 0
    live := [0]
    done := false }
  lists := ()

theorem sample_careful :
    Careful plainValues { iter := .new interrupted, lists := () } true [0]
      brokenWorld := by
  have first : Careful plainValues { iter := .new interrupted, lists := () }
      false [0] interruptedWorld :=
    .first rfl
  exact @Careful.called _ _ _ _ _ _ _ _ ⟨0⟩ (.get 1)
    (.error (refused "later")) first List.mem_cons_self (.inl rfl) rfl

/-- A list of one value that cannot tell at first whether it is empty. -/
def hesitant : ListObjects Nat Bool where
  isList _ := true
  isEmpty _ := do
    if ← MonadState.get then
      return false
    else
      set true
      throw (refused "later")
  car _ := return some 20
  cdr _ := return none
  release _ state := state

/-- A value before it, with a view. -/
def hesitantWorld : World Nat Bool where
  iter := (IterState.withFirst 10 0).register 0
  lists := false

end Sample

theorem sample_careful_calls_read_the_source :
    (∀ call outcome later,
      true = false ∨ Unforced brokenWorld 0 call →
        Yields ((LazyIterList.object plainValues).answer ⟨0⟩ call) brokenWorld
            outcome later →
          Right interrupted 0 call outcome) ∧
      ∀ index value later,
        true = false ∨ InBuffer brokenWorld (0 + index) →
          Yields ((⟨0⟩ : LazyIterList).get plainValues index) brokenWorld
              (.ok value) later →
            interrupted.At (0 + index) value :=
  careful_calls_read_the_source plainValues interrupted _ _ brokenWorld true [0]
    .new sample_careful ⟨0⟩ List.mem_cons_self

/--
At an error, the next read gives the value behind it, or the end where the
source has an element.
-/
theorem next_read_skips :
    ((∃ later, Yields ((⟨0⟩ : LazyIterList).get plainValues 1) interruptedWorld
          (.error (refused "later")) brokenWorld ∧
        Yields ((⟨0⟩ : LazyIterList).get plainValues 1) brokenWorld
          (.ok (some 20)) later) ∧
      ¬ interrupted.At 1 (some 20)) ∧
      ((∃ middle later,
          Yields ((⟨0⟩ : LazyIterList).get hesitant 1) hesitantWorld
              (.error (refused "later")) middle ∧
            Yields ((⟨0⟩ : LazyIterList).get hesitant 1) middle (.ok none)
              later) ∧
        ¬ Source.At (.behind 10 (Sequence.ofList [.ok 20])) 1 none) := by
  refine ⟨⟨⟨_, rfl, rfl⟩, fun found => ?_⟩, ⟨_, _, rfl, rfl⟩, ?_⟩
  · cases found
  · rintro ⟨ended, within, none⟩
    rcases Nat.le_one_iff_eq_zero_or_eq_one.mp within with rfl | rfl <;> cases none

end SimStorage.Lists
