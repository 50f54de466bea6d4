import SimStorage.Lists.Runs

namespace SimStorage.Lists

/-!
# Iterator lists on sources that fail

A driver that fails has moved on all the same.  Until it fails, it gives one
value of the source a call; after that the buffer still has what was given
before, and only a call that needs more than that goes wrong.
-/

open Interaction Table

variable {Value σ α : Type}

section Definitions

/-- What a source has at each position; an iterator may have an error there. -/
abbrev Source (Value : Type) :=
  Sequence (Except Error Value)

/-- A reading of a position is the value there, or the end of the source. -/
def Source.At (items : Source Value) (position : Nat) : Option Value → Prop
  | some value => items position = some (.ok value)
  | none => ∃ ended ≤ position, items ended = none

/-- The values before the first error are certain to be read so. -/
def Source.Certain (items : Source Value) (position : Nat) : Prop :=
  items.At position (Sequence.ofItems items position)

/-- What a call of the driver gives of an item that it does not fail at. -/
inductive Source.Gives : Option (Except Error Value) → Option Value → Prop where
  | ended : Gives none none
  | value (value : Value) : Gives (some (.ok value)) (some value)

/--
The driver gives the source or fails, at its errors at least; `ready` says of a
driver how often it has been called without failing.
-/
def MayFeed (lists : ListObjects Value σ) (items : Source Value)
    (ready : Nat → IterDriver Value → σ → Prop) : Prop :=
  ∀ index world, ready index world.iter.driver world.lists →
    ∃ outcome driver after, Yields (nextValue lists) world outcome
        { iter := { world.iter with driver }, lists := after } ∧
      ((∃ failure, outcome = .error failure) ∨
        ∃ given, outcome = .ok given ∧ Source.Gives (items index) given ∧
          ready (index + 1) driver after)

/-- The state is sound for the views; the driver is, unless it has failed. -/
structure Sound (items : Source Value)
    (ready : Nat → IterDriver Value → σ → Prop) (failed : Bool)
    (views : List Nat) (world : World Value σ) : Prop where
  coherent : Coherent (Sequence.ofItems items)
    (fun index driver others => failed = false → ready index driver others)
    views world
  ended : world.iter.done = true → items world.iter.filled = none

/-- The buffer reaches at least as far. -/
structure Grew (world later : World Value σ) : Prop where
  filled : world.iter.filled ≤ later.iter.filled
  done : world.iter.done = true → later.iter.done = true

/-- To read a position, the driver is not called. -/
def InBuffer (world : World Value σ) (position : Nat) : Prop :=
  world.iter.done = true ∨ position < world.iter.filled

/-- A position may be read: the driver has not failed, or is not needed. -/
def Allowed (failed : Bool) (world : World Value σ) (position : Nat) : Prop :=
  failed = false ∨ InBuffer world position

/--
What a call returns is right, and the state is sound for the views that it
leaves; or the driver has failed, and the state is sound for those that remain.
-/
inductive Tried (items : Source Value)
    (ready : Nat → IterDriver Value → σ → Prop) (failed : Bool)
    (views : List Nat) (right : α → List Nat → World Value σ → Prop)
    (later : World Value σ) : Except Failure α → Prop where
  | returned {value : α} {left : List Nat}
      (correct : right value left later)
      (sound : Sound items ready failed left later) :
      Tried items ready failed views right later (.ok value)
  | failed {failure : Failure}
      (before : failed = false)
      (sound : Sound items ready true views later) :
      Tried items ready failed views right later (.error failure)

/-- A call that reads some positions is right or fails. -/
def Tries (items : Source Value)
    (ready : Nat → IterDriver Value → σ → Prop) (failed : Bool)
    (views : List Nat) (world : World Value σ)
    (call : Calling Value σ α)
    (right : α → List Nat → World Value σ → Prop) : Prop :=
  ∃ outcome later, Yields call world outcome later ∧ Grew world later ∧
    Tried items ready failed views right later outcome

end Definitions

variable {lists : ListObjects Value σ} {items : Source Value}
variable {ready : Nat → IterDriver Value → σ → Prop} {failed : Bool}
variable {views : List Nat} {world middle later : World Value σ}
variable {start position : Nat}

section Positions

theorem Grew.refl
    (world : World Value σ) :
    Grew world world :=
  ⟨Nat.le_refl _, id⟩

theorem Grew.trans
    (first : Grew world middle)
    (second : Grew middle later) :
    Grew world later :=
  ⟨Nat.le_trans first.filled second.filled,
    fun finished => second.done (first.done finished)⟩

theorem Allowed.mono
    (allowed : Allowed failed world position)
    (grew : Grew world later) :
    Allowed failed later position :=
  allowed.imp_right fun ready =>
    ready.imp grew.done fun within => Nat.lt_of_lt_of_le within grew.filled

/-- A position before an allowed one is allowed. -/
theorem Allowed.before
    (allowed : Allowed failed world position)
    (below : start ≤ position) :
    Allowed failed world start :=
  allowed.imp_right fun ready =>
    ready.imp_right (Nat.lt_of_le_of_lt below)

/-- Values that can be read are items of the source. -/
theorem ofItems_some
    {value : Value}
    (found : Sequence.ofItems items position = some value) :
    items position = some (.ok value) := by
  have shown : ∀ item : Option (Except Error Value),
      item.bind Except.toOption = some value → item = some (.ok value) := by
    intro item same
    rcases item with _ | failure | other
    · cases same
    · cases same
    · cases same
      rfl
  cases position with
  | zero => exact shown _ found
  | succ position =>
      rcases Option.bind_eq_some_iff.mp found with ⟨_, _, last⟩
      exact shown _ last

/-- What has been buffered is certain. -/
theorem Sound.certain_of_lt
    (sound : Sound items ready failed views world)
    (within : position < world.iter.filled) :
    items.Certain position := by
  rcases Option.isSome_iff_exists.mp (sound.coherent.given position within) with
    ⟨value, found⟩
  rw [Source.Certain, found]
  exact ofItems_some found

/-- Behind the end there is nothing for certain. -/
theorem Sound.certain_of_done
    (sound : Sound items ready failed views world)
    (finished : world.iter.done = true)
    (above : world.iter.filled ≤ position) :
    items.Certain position ∧ Sequence.ofItems items position = none := by
  have absent : Sequence.ofItems items position = none :=
    (Sequence.ofItems_ends items).after above (sound.coherent.ended finished)
  refine ⟨?_, absent⟩
  rw [Source.Certain, absent]
  exact ⟨_, above, sound.ended finished⟩

/-- What a fill for a position has reached is certain. -/
theorem Sound.certain
    (sound : Sound items ready failed views world)
    (reached : position < world.iter.filled ∨ world.iter.done = true) :
    items.Certain position := by
  by_cases within : position < world.iter.filled
  · exact sound.certain_of_lt within
  · rcases reached with enough | finished
    · exact absurd enough within
    · exact (sound.certain_of_done finished (Nat.le_of_not_lt within)).1

/-- After a fill for a position, the buffer reaches it just when it is there. -/
theorem Sound.lt_filled_iff
    (sound : Sound items ready failed views world)
    (reached : position < world.iter.filled ∨ world.iter.done = true) :
    position < world.iter.filled ↔
      (Sequence.ofItems items position).isSome = true := by
  constructor
  · exact sound.coherent.given position
  · intro present
    rcases reached with enough | finished
    · exact enough
    · by_contra above
      have absent :=
        (sound.certain_of_done finished (Nat.le_of_not_lt above)).2
      rw [absent] at present
      cases present

end Positions

section Keeping

/-- A driver that has failed leaves the buffer as it was. -/
theorem Sound.fail
    {driver : IterDriver Value} {after : σ}
    (sound : Sound items ready failed views world) :
    Sound items ready true views
      { iter := { world.iter with driver }, lists := after } where
  coherent := {
    census := sound.coherent.census
    low := sound.coherent.low
    buffered := sound.coherent.buffered
    given := sound.coherent.given
    called := fun impossible => by cases impossible
    ended := sound.coherent.ended }
  ended := sound.ended

theorem Sound.register
    (sound : Sound items ready failed views world)
    (above : world.iter.base ≤ start) :
    Sound items ready failed (start :: views)
      { world with iter := world.iter.register start } :=
  ⟨sound.coherent.register above, sound.ended⟩

theorem Sound.unregister
    (sound : Sound items ready failed views world)
    (start : Nat) :
    Sound items ready failed (views.erase start)
      { world with iter := world.iter.unregister start } := by
  refine ⟨sound.coherent.unregister start, fun finished => ?_⟩
  rw [filled_unregister]
  exact sound.ended finished

theorem Grew.unregister
    (world : World Value σ) (start : Nat) :
    Grew world { world with iter := world.iter.unregister start } := by
  refine ⟨?_, id⟩
  rw [filled_unregister]

theorem Sound.perm
    {other : List Nat}
    (sound : Sound items ready failed views world)
    (same : views.Perm other) :
    Sound items ready failed other world :=
  ⟨sound.coherent.perm same, sound.ended⟩

end Keeping

section Filling

variable {right : α → List Nat → World Value σ → Prop}

theorem Tries.pure
    {left : List Nat} {value : α}
    (sound : Sound items ready failed left world)
    (correct : right value left world) :
    Tries items ready failed views world (return value) right :=
  ⟨_, world, Yields.pure value world, Grew.refl world,
    .returned correct sound⟩

/-- A call and then another. -/
theorem Tries.bind
    {β : Type} {call : Calling Value σ α} {next : α → Calling Value σ β}
    {last : β → List Nat → World Value σ → Prop}
    (first : Tries items ready failed views world call right)
    (rest : ∀ value left middle, right value left middle →
      Sound items ready failed left middle → Grew world middle →
        Tries items ready failed views middle (next value) last) :
    Tries items ready failed views world (call >>= next) last := by
  rcases first with ⟨outcome, middle, runs, grew, tried⟩
  cases tried with
  | failed before sound =>
      exact ⟨_, middle, runs.bindError, grew, .failed before sound⟩
  | returned correct sound =>
      rcases rest _ _ middle correct sound grew with
        ⟨final, later, goes, more, done⟩
      exact ⟨final, later, runs.bind goes, grew.trans more, done⟩

theorem ofItems_none
    (ended : items position = none) :
    Sequence.ofItems items position = none := by
  cases position with
  | zero => simp only [Sequence.ofItems, ended, Option.bind_none]
  | succ position =>
      simp only [Sequence.ofItems, ended, Option.bind_none]
      cases Sequence.ofItems items position <;> rfl

/-- Filling gives so many values more, or all that there are, or fails. -/
theorem fillMore_tries
    (feeds : MayFeed lists items ready)
    (missing : Nat)
    (sound : Sound items ready failed views world)
    (allowed : failed = false ∨ world.iter.done = true ∨ missing = 0) :
    Tries items ready failed views world (fillMore lists missing)
      fun _ left later => left = views ∧
        (world.iter.filled + missing ≤ later.iter.filled ∨
          later.iter.done = true) := by
  induction missing generalizing world with
  | zero => exact Tries.pure sound ⟨rfl, .inl (Nat.le_refl _)⟩
  | succ missing inductionHypothesis =>
      cases running : world.iter.done with
      | true =>
          refine ⟨.ok (), world, ?_, Grew.refl world,
            .returned ⟨rfl, .inr running⟩ sound⟩
          simp [yields_ok, fillMore, running]
      | false =>
          have intact : failed = false := by
            rcases allowed with intact | finished | none
            · exact intact
            · rw [running] at finished
              cases finished
            · cases none
          have notDone : ¬ world.iter.done = true := by
            rw [running]
            exact Bool.false_ne_true
          have called := sound.coherent.called intact
          rw [running, Bool.toNat_false, Nat.add_zero] at called
          rcases feeds _ world called with
            ⟨outcome, driver, after, calls, ⟨failure, rfl⟩ |
              ⟨given, rfl, gives, moved⟩⟩
          · have whole : Yields (fillMore lists (missing + 1)) world
                (.error failure)
                { iter := { world.iter with driver }, lists := after } := by
              refine (Yields.get world).bind ?_
              rw [if_neg notDone]
              exact calls.bindError
            exact ⟨_, _, whole, ⟨Nat.le_refl _, id⟩, .failed intact sound.fail⟩
          · generalize item : items world.iter.filled = found at gives
            cases gives with
            | ended =>
                have finished := @Coherent.finish _ _ _ _ _ _ driver after
                  sound.coherent (ofItems_none item) fun _ => moved
                have whole : Yields (fillMore lists (missing + 1)) world (.ok ())
                    { iter := { world.iter with driver, done := true }
                      lists := after } := by
                  refine (Yields.get world).bind ?_
                  rw [if_neg notDone]
                  exact calls.bind (Yields.modify _ _)
                exact ⟨_, _, whole, ⟨Nat.le_refl _, fun _ => rfl⟩,
                  .returned ⟨rfl, .inr rfl⟩ ⟨finished, fun _ => item⟩⟩
            | value value =>
                have here : Sequence.ofItems items world.iter.filled =
                    some value := by
                  rw [Sequence.ofItems_eq sound.coherent.given, item]
                  rfl
                let pushed : World Value σ := {
                  iter := { world.iter with
                    driver
                    buffer := world.iter.buffer ++ [value] }
                  lists := after }
                have longer : pushed.iter.filled = world.iter.filled + 1 := by
                  simp only [pushed, IterState.filled, List.length_append,
                    List.length_singleton]
                  rfl
                have kept : Sound items ready failed views pushed := by
                  refine ⟨sound.coherent.push here (fun _ => moved) running,
                    fun finished => ?_⟩
                  exact absurd finished (by simp [pushed, running])
                rcases inductionHypothesis kept (.inl intact) with
                  ⟨outcome, later, fills, grew, tried⟩
                have whole : Yields (fillMore lists (missing + 1)) world outcome
                    later := by
                  refine (Yields.get world).bind ?_
                  rw [if_neg notDone]
                  exact calls.bind ((Yields.modify _ _).bind fills)
                have more : Grew world pushed := by
                  refine ⟨?_, fun finished => ?_⟩
                  · rw [longer]
                    exact Nat.le_succ _
                  · rw [running] at finished
                    cases finished
                refine ⟨outcome, later, whole, more.trans grew, ?_⟩
                cases tried with
                | failed before sound => exact .failed before sound
                | returned correct sound =>
                    refine .returned ⟨correct.1, correct.2.imp_left ?_⟩ sound
                    rw [longer, Nat.add_assoc, Nat.add_comm 1]
                    exact id

/-- A fill for a position that may be read reaches it or the end, or fails. -/
theorem fillTo_tries
    (feeds : MayFeed lists items ready)
    (sound : Sound items ready failed views world)
    (allowed : Allowed failed world position) :
    Tries items ready failed views world (fillTo lists (position + 1))
      fun filled left later => left = views ∧ filled = later.iter.filled ∧
        (position < later.iter.filled ∨ later.iter.done = true) := by
  have enough : failed = false ∨ world.iter.done = true ∨
      position + 1 - world.iter.filled = 0 :=
    allowed.imp_right fun ready => ready.imp_right Nat.sub_eq_zero_of_le
  rcases fillMore_tries feeds _ sound enough with
    ⟨outcome, later, fills, grew, tried⟩
  cases tried with
  | failed before kept =>
      exact ⟨_, later, (Yields.get world).bind fills.bindError, grew,
        .failed before kept⟩
  | returned correct kept =>
      refine ⟨_, later, (Yields.get world).bind
        (fills.bind ((Yields.get later).bind (Yields.pure _ later))), grew,
        .returned ⟨correct.1, rfl, correct.2.imp_left fun reached => ?_⟩ kept⟩
      have covers : position + 1 ≤
          world.iter.filled + (position + 1 - world.iter.filled) :=
        le_add_tsub
      exact Nat.lt_of_lt_of_le covers reached

end Filling

section Views

/-- `is_empty` tells whether the source ends at the start of the view. -/
theorem isEmpty_tries
    (feeds : MayFeed lists items ready)
    (sound : Sound items ready failed views world)
    (view : LazyIterList)
    (allowed : Allowed failed world view.start) :
    Tries items ready failed views world (view.isEmpty lists)
      fun empty left _ => left = views ∧
        empty = (Sequence.ofItems items view.start).isNone ∧
          items.Certain view.start := by
  refine (fillTo_tries feeds sound allowed).bind ?_
  rintro filled left middle ⟨rfl, rfl, reached⟩ kept _
  refine Tries.pure kept ⟨rfl, ?_, kept.certain reached⟩
  rw [Bool.eq_iff_iff, decide_eq_true_iff, ← Nat.not_lt,
    kept.lt_filled_iff reached, Option.not_isSome_iff_eq_none,
    Option.isNone_iff_eq_none]

/-- `truth` tells whether the source goes on at the start of the view. -/
theorem truth_tries
    (feeds : MayFeed lists items ready)
    (sound : Sound items ready failed views world)
    (view : LazyIterList)
    (allowed : Allowed failed world view.start) :
    Tries items ready failed views world (view.truth lists)
      fun full left _ => left = views ∧
        full = (Sequence.ofItems items view.start).isSome ∧
          items.Certain view.start := by
  refine (isEmpty_tries feeds sound view allowed).bind ?_
  rintro empty left middle ⟨rfl, rfl, certain⟩ kept _
  exact Tries.pure kept ⟨rfl, Option.not_isNone _, certain⟩

/-- `car` reads the source at the start of a live view. -/
theorem car_tries
    (feeds : MayFeed lists items ready)
    (sound : Sound items ready failed views world)
    (view : LazyIterList)
    (live : view.start ∈ views)
    (allowed : Allowed failed world view.start) :
    Tries items ready failed views world (view.car lists)
      fun value left _ => left = views ∧
        value = Sequence.ofItems items view.start ∧
          items.Certain view.start := by
  refine (fillTo_tries feeds sound allowed).bind ?_
  rintro filled left middle ⟨rfl, rfl, reached⟩ kept _
  have certain := kept.certain reached
  have within := kept.lt_filled_iff reached
  by_cases present : view.start < middle.iter.filled
  · have low := kept.coherent.low _ live
    have fits : view.start - middle.iter.base < middle.iter.buffer.length := by
      simp only [IterState.filled] at present
      omega
    have stored := kept.coherent.buffered _ fits
    rw [Nat.add_sub_cancel' low] at stored
    rcases Option.isSome_iff_exists.mp (within.mp present) with ⟨value, found⟩
    rw [if_neg (Nat.not_le_of_lt present)]
    refine ⟨.ok (some value), middle, (Yields.get middle).bind ?_,
      Grew.refl middle, .returned ⟨rfl, found.symm, certain⟩ kept⟩
    simp only [low, if_true, stored, found]
    exact Yields.pure (some value) middle
  · have absent : Sequence.ofItems items view.start = none := by
      rw [← Option.not_isSome_iff_eq_none, ← within]
      exact present
    rw [if_pos (Nat.le_of_not_lt present)]
    exact Tries.pure kept ⟨rfl, absent.symm, certain⟩

/-- The start of the view behind a start where there is a value. -/
def behindStart (items : Source Value) (start : Nat) : List Nat :=
  ((Sequence.ofItems items start).map fun _ => start + 1).toList

/-- `cdr` of a live view is a view of the rest. -/
theorem cdr_tries
    (feeds : MayFeed lists items ready)
    (sound : Sound items ready failed views world)
    (view : LazyIterList)
    (live : view.start ∈ views)
    (allowed : Allowed failed world view.start) :
    Tries items ready failed views world (view.cdr lists)
      fun rest left _ => left = behindStart items view.start ++ views ∧
        rest = (Sequence.ofItems items view.start).map
          (fun _ => ⟨view.start + 1⟩) ∧
          items.Certain view.start := by
  refine (isEmpty_tries feeds sound view allowed).bind ?_
  rintro empty left middle ⟨rfl, rfl, certain⟩ kept _
  cases found : Sequence.ofItems items view.start with
  | none =>
      have nothing : behindStart items view.start = [] := by
        rw [behindStart, found]
        rfl
      rw [nothing]
      exact Tries.pure kept ⟨rfl, rfl, certain⟩
  | some value =>
      have more : behindStart items view.start = [view.start + 1] := by
        rw [behindStart, found]
        rfl
      have above : middle.iter.base ≤ view.start + 1 :=
        Nat.le_succ_of_le (kept.coherent.low _ live)
      rw [more]
      exact ⟨.ok _, _, rfl, ⟨Nat.le_refl _, id⟩,
        .returned ⟨rfl, rfl, certain⟩ (kept.register above)⟩

/-- `len_cmp` compares what remains of the source with a number. -/
theorem lenCmp_tries
    (feeds : MayFeed lists items ready)
    (sound : Sound items ready failed views world)
    (view : LazyIterList) (n : Nat)
    (allowed : Allowed failed world (view.start + n)) :
    Tries items ready failed views world (view.lenCmp lists n)
      fun order left _ => left = views ∧
        order = ((Sequence.ofItems items).drop view.start).lenCmp n ∧
          ∀ offset ≤ n, items.Certain (view.start + offset) := by
  refine (fillTo_tries feeds sound allowed).bind ?_
  rintro filled left middle ⟨rfl, rfl, reached⟩ kept _
  have each : ∀ offset ≤ n, view.start + offset < middle.iter.filled ∨
      middle.iter.done = true := by
    intro offset within
    exact reached.imp_left
      (Nat.lt_of_le_of_lt (Nat.add_le_add_left within view.start))
  have counts : ∀ index ≤ n, index < middle.iter.filled - view.start ↔
      ((Sequence.ofItems items).drop view.start index).isSome = true := by
    intro index within
    rw [Sequence.drop, ← kept.lt_filled_iff (each index within),
      Nat.lt_sub_iff_add_lt']
  have certain : ∀ offset ≤ n, items.Certain (view.start + offset) :=
    fun offset within => kept.certain (each offset within)
  have compared := Sequence.lenCmp_eq counts
  by_cases more : middle.iter.filled - view.start > n
  · rw [if_pos more] at compared
    simp only [more, if_true]
    exact Tries.pure kept ⟨rfl, compared.symm, certain⟩
  · rw [if_neg more] at compared
    simp only [more, if_false]
    exact Tries.pure kept ⟨rfl, compared.symm, certain⟩

end Views

section Walks

/-- Behind the end there is certainly nothing. -/
theorem Source.Certain.after
    (certain : items.Certain start)
    (absent : Sequence.ofItems items start = none)
    (below : start ≤ position) :
    items.Certain position ∧ Sequence.ofItems items position = none := by
  have later := (Sequence.ofItems_ends items).after below absent
  rw [Source.Certain, absent] at certain
  rcases certain with ⟨ended, before, none⟩
  refine ⟨?_, later⟩
  rw [Source.Certain, later]
  exact ⟨ended, Nat.le_trans before below, none⟩

/-- A walk has begun at a position, with the view behind it. -/
structure Began (items : Source Value) (position : Nat) (views : List Nat)
    (head : Option Value) (tail : Option LazyIterList) (left : List Nat) :
    Prop where
  head : head = Sequence.ofItems items position
  tail : tail = (Sequence.ofItems items position).map fun _ => ⟨position + 1⟩
  left : left = behindStart items position ++ views
  certain : items.Certain position

/-- A view goes out of scope after a call. -/
theorem Tries.tidying
    {call : Calling Value σ α}
    {right : α → List Nat → World Value σ → Prop} {last : α → List Nat → Prop}
    (tries : Tries items ready failed (start :: views) world call right)
    (splits : ∀ value left later, right value left later →
      ∃ rest, left.Perm (start :: rest) ∧ last value rest) :
    Tries items ready failed views world
      (Lists.tidying call (LazyIterList.dropped ⟨start⟩))
      fun value left _ => last value left := by
  rcases tries with ⟨outcome, later, runs, grew, tried⟩
  refine ⟨outcome, _, Spine.tidying_yields runs,
    grew.trans (Grew.unregister later start), ?_⟩
  cases tried with
  | failed before sound =>
      have dropped := sound.unregister start
      rw [List.erase_cons_head] at dropped
      exact .failed before dropped
  | returned correct sound =>
      rcases splits _ _ _ correct with ⟨rest, same, told⟩
      have dropped := (sound.perm same).unregister start
      rw [List.erase_cons_head] at dropped
      exact .returned told dropped

/-- A walk begins with the value at the start of a live view. -/
theorem begin_tries
    (feeds : MayFeed lists items ready)
    (sound : Sound items ready failed views world)
    (view : LazyIterList)
    (live : view.start ∈ views)
    (allowed : Allowed failed world view.start) :
    Tries items ready failed views world
      ((LazyIterList.spine lists).begin view)
      fun pair left _ =>
        Began items view.start views pair.1 pair.2 left := by
  refine (car_tries feeds sound view live allowed).bind ?_
  rintro head left middle ⟨rfl, rfl, certain⟩ kept grew
  refine (cdr_tries feeds kept view live (allowed.mono grew)).bind ?_
  rintro tail left later ⟨rfl, rfl, _⟩ last _
  exact Tries.pure last ⟨rfl, rfl, rfl, certain⟩

/-- A step finds the end, or begins at the start of the view that it takes. -/
theorem advance_tries
    (feeds : MayFeed lists items ready)
    (sound : Sound items ready failed (start :: views) world)
    (allowed : Allowed failed world start) :
    Tries items ready failed views world
      ((LazyIterList.spine lists).advance ⟨start⟩)
      fun step left _ =>
        step = none ∧ left = views ∧ items.Certain start ∧
            Sequence.ofItems items start = none ∨
          ∃ head tail, step = some (head, tail) ∧
            Began items start views head tail left := by
  have inner : Tries items ready failed (start :: views) world (do
      if ← (LazyIterList.spine lists).isEmpty ⟨start⟩ then
        return none
      else
        some <$> (LazyIterList.spine lists).begin ⟨start⟩)
      fun step left _ =>
        step = none ∧ left = start :: views ∧ items.Certain start ∧
            Sequence.ofItems items start = none ∨
          ∃ head tail, step = some (head, tail) ∧
            Began items start (start :: views) head tail left := by
    refine (isEmpty_tries feeds sound ⟨start⟩ allowed).bind ?_
    rintro empty left middle ⟨rfl, rfl, certain⟩ kept grew
    cases found : Sequence.ofItems items start with
    | none => exact Tries.pure kept (.inl ⟨rfl, rfl, certain, rfl⟩)
    | some value =>
        rcases begin_tries feeds kept ⟨start⟩ List.mem_cons_self
          (allowed.mono grew) with ⟨outcome, later, begins, more, tried⟩
        cases tried with
        | failed before sound =>
            exact ⟨_, later, begins.mapError some, more, .failed before sound⟩
        | returned began sound =>
            exact ⟨_, later, begins.map some, more,
              .returned (.inr ⟨_, _, rfl, began⟩) sound⟩
  refine inner.tidying ?_
  rintro step left later
    (⟨rfl, rfl, certain, absent⟩ | ⟨head, tail, rfl, began⟩)
  · exact ⟨views, List.Perm.refl _, .inl ⟨rfl, rfl, certain, absent⟩⟩
  · refine ⟨behindStart items start ++ views, ?_, .inr ⟨head, tail, rfl,
      began.head, began.tail, rfl, began.certain⟩⟩
    rw [began.left]
    exact List.perm_middle

/-- The rest of a walk that ends here goes out of scope. -/
theorem Began.stop
    (lists : ListObjects Value σ)
    {head : Option Value} {tail : Option LazyIterList} {left : List Nat}
    (began : Began items position views head tail left)
    (sound : Sound items ready failed left world) :
    Sound items ready failed views
        ((LazyIterList.spine lists).dropped tail world) ∧
      Grew world ((LazyIterList.spine lists).dropped tail world) := by
  rw [began.left] at sound
  rw [began.tail]
  cases found : Sequence.ofItems items position with
  | none =>
      have nothing : behindStart items position = [] := by
        rw [behindStart, found]
        rfl
      rw [nothing] at sound
      exact ⟨sound, Grew.refl world⟩
  | some value =>
      have more : behindStart items position = [position + 1] := by
        rw [behindStart, found]
        rfl
      rw [more] at sound
      have dropped := sound.unregister (position + 1)
      rw [List.singleton_append, List.erase_cons_head] at dropped
      exact ⟨dropped, Grew.unregister world (position + 1)⟩

/-- The loop of `get` gives the value so far behind, or fails. -/
theorem getFrom_tries
    (feeds : MayFeed lists items ready)
    (index : Nat)
    {head : Option Value} {tail : Option LazyIterList} {left : List Nat}
    (began : Began items position views head tail left)
    (sound : Sound items ready failed left world)
    (allowed : Allowed failed world (position + index)) :
    Tries items ready failed views world
      ((LazyIterList.spine lists).getFrom index head tail)
      fun value left _ => left = views ∧
        value = Sequence.ofItems items (position + index) ∧
          items.Certain (position + index) := by
  have stopped := began.stop lists sound
  have isHead := began.head
  induction index generalizing position head tail left world with
  | zero =>
      refine ⟨.ok head, _, ?_, stopped.2,
        .returned ⟨rfl, began.head, began.certain⟩ stopped.1⟩
      cases head <;> exact (Yields.modify _ _).bind (Yields.pure _ _)
  | succ index inductionHypothesis =>
      have below : position ≤ position + (index + 1) := Nat.le_add_right _ _
      cases found : Sequence.ofItems items position with
      | none =>
          rw [found] at isHead
          subst isHead
          have after := began.certain.after found below
          exact ⟨.ok none, _, (Yields.modify _ _).bind (Yields.pure none _),
            stopped.2, .returned ⟨rfl, after.2.symm, after.1⟩ stopped.1⟩
      | some value =>
          rw [found] at isHead
          subst isHead
          have isTail : tail = some ⟨position + 1⟩ := by
            rw [began.tail, found]
            rfl
          subst isTail
          have views' : left = (position + 1) :: views := by
            rw [began.left, behindStart, found]
            rfl
          subst views'
          have same : position + 1 + index = position + (index + 1) := by
            rw [Nat.add_assoc, Nat.add_comm 1]
          have next : position + 1 ≤ position + (index + 1) :=
            Nat.add_le_add_left (Nat.le_add_left 1 index) position
          refine (advance_tries feeds sound (allowed.before next)).bind ?_
          rintro step left middle (⟨rfl, rfl, certain, absent⟩ |
            ⟨head, tail, rfl, begun⟩) kept grew
          · have after := certain.after absent next
            exact Tries.pure kept ⟨rfl, after.2.symm, after.1⟩
          · rw [← same] at allowed ⊢
            exact inductionHypothesis begun kept (allowed.mono grew)
              (begun.stop lists kept) begun.head

/-- `get` gives the value at the index, or fails. -/
theorem get_tries
    (feeds : MayFeed lists items ready)
    (sound : Sound items ready failed views world)
    (view : LazyIterList)
    (live : view.start ∈ views)
    (index : Nat)
    (allowed : Allowed failed world (view.start + index)) :
    Tries items ready failed views world (view.get lists index)
      fun value left _ => left = views ∧
        value = Sequence.ofItems items (view.start + index) ∧
          items.Certain (view.start + index) := by
  have first := allowed.before (Nat.le_add_right view.start index)
  refine (begin_tries feeds sound view live first).bind ?_
  rintro ⟨head, tail⟩ left middle began kept grew
  exact getFrom_tries feeds index began kept (allowed.mono grew)

end Walks

section Visits

/-- How a visit from a position ends: as that of the source, or failed. -/
structure VisitTries (items : Source Value)
    (ready : Nat → IterDriver Value → σ → Prop) (failed : Bool)
    (views : List Nat) (limit : Option Nat) (turns count position : Nat)
    (later : World Value σ) (visit : List Value × Visit) : Prop where
  right : (∀ failure, visit.2 ≠ .failed failure) →
    Sound items ready failed views later ∧
      visit = ((Sequence.ofItems items).drop position).visits limit turns
        count ∧
        ∀ offset < turns, ¬ limit.any (· ≤ count + offset) = true →
          items.Certain (position + offset)
  failed : ∀ failure, visit.2 = .failed failure →
    failed = false ∧ Sound items ready true views later
  values : ∀ offset value, visit.1[offset]? = some value →
    items (position + offset) = some (.ok value)

/-- A limit that has been reached stays so. -/
theorem limited_later
    {limit : Option Nat} {count : Nat}
    (enough : limit.any (· ≤ count) = true) (offset : Nat) :
    limit.any (· ≤ count + offset) = true := by
  cases limit with
  | none => cases enough
  | some max =>
      simp only [Option.any_some, decide_eq_true_iff] at enough ⊢
      exact Nat.le_add_right_of_le enough

theorem finished_unfailed
    (failure : Failure) :
    Visit.finished ≠ .failed failure := by
  intro same
  cases same

/-- A visit ends where nothing more is visited. -/
theorem VisitTries.stop
    {limit : Option Nat} {turns count : Nat} {ended : Visit}
    (sound : Sound items ready failed views later)
    (visits : ([], ended) =
      ((Sequence.ofItems items).drop position).visits limit turns count)
    (unfailed : ∀ failure, ended ≠ .failed failure)
    (certain : ∀ offset < turns, ¬ limit.any (· ≤ count + offset) = true →
      items.Certain (position + offset)) :
    VisitTries items ready failed views limit turns count position later
      ([], ended) where
  right _ := ⟨sound, visits, certain⟩
  failed failure impossible := absurd impossible (unfailed failure)
  values offset value impossible := by
    cases impossible

/-- A visit that has failed behind its first value. -/
theorem VisitTries.fail
    {limit : Option Nat} {turns count : Nat} {visited : List Value}
    {failure : Failure}
    (before : failed = false)
    (sound : Sound items ready true views later)
    (values : ∀ offset value, visited[offset]? = some value →
      items (position + offset) = some (.ok value)) :
    VisitTries items ready failed views limit turns count position later
      (visited, .failed failure) where
  right impossible := absurd rfl (impossible failure)
  failed _ _ := ⟨before, sound⟩
  values := values

/-- The loop of `for_each` visits the values from a position, or fails. -/
theorem visitFrom_tries
    (feeds : MayFeed lists items ready)
    (limit : Option Nat) (turns count : Nat)
    {head : Option Value} {tail : Option LazyIterList} {left : List Nat}
    (began : Began items position views head tail left)
    (sound : Sound items ready failed left world)
    (allowed : ∀ offset ≤ turns,
      (∀ earlier < offset, ¬ limit.any (· ≤ count + earlier) = true) →
        Allowed failed world (position + offset)) :
    ∃ visit later, Yields ((LazyIterList.spine lists).visitFrom limit turns
        count head tail) world (.ok visit) later ∧
      Grew world later ∧
        VisitTries items ready failed views limit turns count position later
          visit := by
  have stopped := began.stop lists sound
  have isHead := began.head
  induction turns generalizing count position head tail left world with
  | zero =>
      cases found : Sequence.ofItems items position with
      | none =>
          rw [found] at isHead
          subst isHead
          refine ⟨_, _, Spine.visitFrom_stops (.inl rfl) tail world, stopped.2,
            .stop stopped.1 (Sequence.visits_ended found).symm finished_unfailed ?_⟩
          intro offset impossible
          cases impossible
      | some value =>
          rw [found] at isHead
          subst isHead
          refine ⟨_, _, (Yields.modify _ _).bind (Yields.pure _ _), stopped.2,
            .stop stopped.1 ?_ ?_ ?_⟩
          · have first : (Sequence.ofItems items).drop position 0 =
                some value := found
            by_cases enough : limit.any (· ≤ count) = true
            · rw [Sequence.visits_limited enough, if_pos enough]
            · rw [Sequence.visits_zero first enough, if_neg enough]
          · intro failure same
            split at same <;> cases same
          · intro offset impossible
            cases impossible
  | succ turns inductionHypothesis =>
      cases found : Sequence.ofItems items position with
      | none =>
          rw [found] at isHead
          subst isHead
          refine ⟨_, _, Spine.visitFrom_stops (.inl rfl) tail world, stopped.2,
            .stop stopped.1 (Sequence.visits_ended found).symm finished_unfailed ?_⟩
          intro offset _ _
          exact (began.certain.after found (Nat.le_add_right _ _)).1
      | some value =>
          rw [found] at isHead
          subst isHead
          by_cases enough : limit.any (· ≤ count) = true
          · refine ⟨_, _, Spine.visitFrom_stops (.inr enough) tail world,
              stopped.2,
              .stop stopped.1 (Sequence.visits_limited enough).symm finished_unfailed ?_⟩
            intro offset _ more
            exact absurd (limited_later enough offset) more
          · have first : (Sequence.ofItems items).drop position 0 =
                some value := found
            have here := ofItems_some found
            have isTail : tail = some ⟨position + 1⟩ := by
              rw [began.tail, found]
              rfl
            subst isTail
            have leaves : left = (position + 1) :: views := by
              rw [began.left, behindStart, found]
              rfl
            subst leaves
            have nearby : Allowed failed world (position + 1) := by
              apply allowed 1 (Nat.le_add_left 1 turns)
              intro earlier before
              cases Nat.lt_one_iff.mp before
              exact enough
            rcases advance_tries feeds sound nearby with
              ⟨outcome, middle, steps, grew, tried⟩
            rw [Spine.visitFrom, if_neg enough]
            cases tried with
            | @failed failure before kept =>
                refine ⟨_, middle, steps.observe.bind (Yields.pure _ middle),
                  grew, .fail before kept fun offset other seen => ?_⟩
                cases offset with
                | zero =>
                    cases seen
                    exact here
                | succ offset => cases seen
            | @returned step _ correct kept =>
                rcases correct with ⟨rfl, rfl, certain, absent⟩ |
                  ⟨head, tail, rfl, begun⟩
                · refine ⟨_, middle,
                    steps.observe.bind (Yields.pure _ middle), grew,
                    ⟨fun _ => ⟨kept, ?_, ?_⟩, ?_, ?_⟩⟩
                  · have ends : ((Sequence.ofItems items).drop position).drop 1
                        0 = none := by
                      rw [Sequence.drop_drop]
                      exact absent
                    rw [Sequence.visits_step first enough,
                      Sequence.visits_ended ends]
                  · intro offset _ _
                    cases offset with
                    | zero => exact began.certain
                    | succ offset =>
                        exact (certain.after absent (by omega)).1
                  · intro failure same
                    cases same
                  · intro offset other seen
                    cases offset with
                    | zero =>
                        cases seen
                        exact here
                    | succ offset => cases seen
                · have shift : ∀ offset,
                      position + 1 + offset = position + (offset + 1) := by
                    intro offset
                    rw [Nat.add_assoc, Nat.add_comm 1]
                  have shiftCount : ∀ offset,
                      count + 1 + offset = count + (offset + 1) := by
                    intro offset
                    rw [Nat.add_assoc, Nat.add_comm 1]
                  have allowedLater : ∀ offset ≤ turns,
                      (∀ earlier < offset,
                        ¬ limit.any (· ≤ count + 1 + earlier) = true) →
                        Allowed failed middle (position + 1 + offset) := by
                    intro offset within more
                    rw [shift]
                    apply (allowed (offset + 1) (Nat.succ_le_succ within)
                      fun earlier before => ?_).mono grew
                    cases earlier with
                    | zero => exact enough
                    | succ earlier =>
                        rw [← shiftCount]
                        exact more earlier (Nat.lt_of_succ_lt_succ before)
                  rcases inductionHypothesis (count + 1) begun kept allowedLater
                    (begun.stop lists kept) begun.head with
                    ⟨visit, later, visits, more, ended⟩
                  refine ⟨(value :: visit.1, visit.2), later,
                    steps.observe.bind (visits.bind (Yields.pure _ later)),
                    grew.trans more, ⟨fun unfailed => ?_, ended.failed, ?_⟩⟩
                  · rcases ended.right unfailed with ⟨last, same, certain⟩
                    refine ⟨last, ?_, fun offset within below => ?_⟩
                    · rw [Sequence.visits_step first enough,
                        Sequence.drop_drop, ← same]
                    · cases offset with
                      | zero => exact began.certain
                      | succ offset =>
                          rw [← shift]
                          apply certain offset (Nat.lt_of_succ_lt_succ within)
                          rw [shiftCount]
                          exact below
                  · intro offset other seen
                    cases offset with
                    | zero =>
                        cases seen
                        exact here
                    | succ offset =>
                        rw [← shift]
                        exact ended.values offset other seen

/-- `for_each` visits the values from the start of the view, or fails. -/
theorem forEach_tries
    (feeds : MayFeed lists items ready)
    (sound : Sound items ready failed views world)
    (view : LazyIterList)
    (live : view.start ∈ views)
    (turns : Nat) (limit : Option Nat)
    (allowed : limit = some 0 ∨ ∀ offset ≤ turns,
      (∀ earlier < offset, ¬ limit.any (· ≤ earlier) = true) →
        Allowed failed world (view.start + offset)) :
    ∃ visit later, Yields (view.forEach lists turns limit) world (.ok visit)
        later ∧
      Grew world later ∧
        VisitTries items ready failed views limit turns 0 view.start later
          visit := by
  by_cases zero : limit = some 0
  · have enough : limit.any (· ≤ 0) = true := by
      rw [zero]
      rfl
    rw [LazyIterList.forEach, Spine.forEach, if_pos zero]
    refine ⟨_, world, Yields.pure _ world, Grew.refl world,
      .stop sound (Sequence.visits_limited enough).symm finished_unfailed ?_⟩
    intro offset _ more
    exact absurd (limited_later enough offset) more
  · have reach := allowed.resolve_left zero
    have first : Allowed failed world view.start := by
      apply reach 0 (Nat.zero_le turns)
      intro earlier impossible
      cases impossible
    rw [LazyIterList.forEach, Spine.forEach, if_neg zero]
    rcases begin_tries feeds sound view live first with
      ⟨outcome, middle, begins, grew, tried⟩
    cases tried with
    | failed before kept =>
        refine ⟨_, middle, begins.observe.bind (Yields.pure _ middle), grew,
          .fail before kept fun offset other seen => ?_⟩
        cases seen
    | @returned pair left began kept =>
        have reachLater : ∀ offset ≤ turns,
            (∀ earlier < offset, ¬ limit.any (· ≤ 0 + earlier) = true) →
              Allowed failed middle (view.start + offset) := by
          intro offset within more
          apply (reach offset within fun earlier before => ?_).mono grew
          have below := more earlier before
          rw [Nat.zero_add] at below
          exact below
        rcases visitFrom_tries feeds limit turns 0 began kept reachLater with
          ⟨visit, later, visits, more, ended⟩
        exact ⟨visit, later, begins.observe.bind visits, grew.trans more, ended⟩

end Visits

end SimStorage.Lists
