import SimStorage.Interaction.Evaluation
import SimStorage.Lists.Iter

namespace SimStorage.Lists

/-!
# One buffer for all views

The census counts the live views, the buffer holds what the driver has given
from the base on, and the base is at or below the start of every live view.
So every view reads the source from its start on, and what no view needs is
dropped with the last view that did.
-/

open Interaction Table

variable {Value σ α : Type}

section Definitions

/--
The driver gives the source, one value a call and without errors; `ready` says
of a driver how often it has been called.
-/
structure Feeds (lists : ListObjects Value σ) (source : Sequence Value)
    (ready : Nat → IterDriver Value → σ → Prop) : Prop where
  ends : source.Ends
  next : ∀ index world,
    (∀ earlier < index, (source earlier).isSome = true) →
      ready index world.iter.driver world.lists →
        ∃ driver after, Yields (nextValue lists) world (.ok (source index))
            { iter := { world.iter with driver }, lists := after } ∧
          ready (index + 1) driver after

/-- The state is coherent for the starts of the live views. -/
structure Coherent (source : Sequence Value)
    (ready : Nat → IterDriver Value → σ → Prop) (views : List Nat)
    (world : World Value σ) : Prop where
  census : world.iter.live.Perm views
  low : ∀ start ∈ views, world.iter.base ≤ start
  buffered : ∀ index, index < world.iter.buffer.length →
    world.iter.buffer[index]? = source (world.iter.base + index)
  given : ∀ index < world.iter.filled, (source index).isSome = true
  called : ready (world.iter.filled + world.iter.done.toNat)
    world.iter.driver world.lists
  ended : world.iter.done = true → source world.iter.filled = none

/-- Every value in the buffer is needed by a view. -/
def Reclaimed (views : List Nat) (state : IterState Value) : Prop :=
  ∀ index < state.buffer.length, ∃ start ∈ views, start ≤ state.base + index

end Definitions

variable {lists : ListObjects Value σ} {source : Sequence Value}
variable {ready : Nat → IterDriver Value → σ → Prop}
variable {views : List Nat} {world later : World Value σ}
variable {start : Nat}

section Filling

/-- A call of the driver gives a value. -/
theorem Coherent.push
    {item : Value} {driver : IterDriver Value} {after : σ}
    (coherent : Coherent source ready views world)
    (gives : source world.iter.filled = some item)
    (moved : ready (world.iter.filled + 1) driver after)
    (running : world.iter.done = false) :
    Coherent source ready views {
      iter := { world.iter with
        driver
        buffer := world.iter.buffer ++ [item] }
      lists := after } where
  census := coherent.census
  low := coherent.low
  buffered index fits := by
    simp only [List.length_append, List.length_singleton] at fits
    by_cases old : index < world.iter.buffer.length
    · simp only [List.getElem?_append_left old]
      exact coherent.buffered index old
    · have last : index = world.iter.buffer.length := by omega
      rw [last]
      simpa [IterState.filled] using gives.symm
  given index fits := by
    by_cases old : index < world.iter.filled
    · exact coherent.given index old
    · have last : index = world.iter.filled := by
        simp only [IterState.filled, List.length_append,
          List.length_singleton] at fits old ⊢
        omega
      rw [last, gives]
      rfl
  called := by
    simp only [running, Bool.toNat_false, IterState.filled,
      List.length_append, List.length_singleton]
    exact moved
  ended finished := by
    simp only [running, Bool.false_eq_true] at finished

/-- A call of the driver finds the end. -/
theorem Coherent.finish
    {driver : IterDriver Value} {after : σ}
    (coherent : Coherent source ready views world)
    (ended : source world.iter.filled = none)
    (moved : ready (world.iter.filled + 1) driver after) :
    Coherent source ready views {
      iter := { world.iter with driver, done := true }
      lists := after } where
  census := coherent.census
  low := coherent.low
  buffered := coherent.buffered
  given := coherent.given
  called := moved
  ended _ := ended

/-- Filling gives so many values more, or all that there are. -/
theorem fillMore_yields
    (feeds : Feeds lists source ready)
    (missing : Nat)
    (coherent : Coherent source ready views world) :
    ∃ later, Yields (fillMore lists missing) world (.ok ()) later ∧
      Coherent source ready views later ∧
      (world.iter.filled + missing ≤ later.iter.filled ∨
        source later.iter.filled = none) := by
  induction missing generalizing world with
  | zero => exact ⟨world, Yields.pure () world, coherent, .inl (Nat.le_refl _)⟩
  | succ missing inductionHypothesis =>
      have called := coherent.called
      cases running : world.iter.done with
      | true =>
          refine ⟨world, ?_, coherent, .inr (coherent.ended running)⟩
          simp [yields_ok, fillMore, running]
      | false =>
          rw [running, Bool.toNat_false, Nat.add_zero] at called
          rcases feeds.next _ _ coherent.given called with
            ⟨driver, after, gives, moved⟩
          cases found : source world.iter.filled with
          | none =>
              rw [found] at gives
              refine ⟨_, (Yields.get world).bind ?_,
                @Coherent.finish _ _ _ _ _ _ driver after coherent found moved,
                .inr found⟩
              simp only [running, Bool.false_eq_true, if_false]
              exact gives.bind (Yields.modify _ _)
          | some item =>
              rw [found] at gives
              rcases inductionHypothesis
                (coherent.push found moved running) with
                ⟨later, fills, kept, reached⟩
              refine ⟨later, (Yields.get world).bind ?_, kept,
                reached.imp_left fun enough => ?_⟩
              · simp only [running, Bool.false_eq_true, if_false]
                exact gives.bind ((Yields.modify _ _).bind fills)
              · simp only [IterState.filled, List.length_append,
                  List.length_singleton] at enough ⊢
                omega

/-- A fill for an index tells whether the source goes so far. -/
theorem fillTo_yields
    (feeds : Feeds lists source ready)
    (need : Nat)
    (coherent : Coherent source ready views world) :
    ∃ later, Yields (fillTo lists need) world (.ok later.iter.filled) later ∧
      Coherent source ready views later ∧
      (need ≤ later.iter.filled ∨ source later.iter.filled = none) := by
  rcases fillMore_yields feeds (need - world.iter.filled) coherent with
    ⟨later, fills, kept, reached⟩
  have enough : need ≤ world.iter.filled + (need - world.iter.filled) := by
    omega
  exact ⟨later, (Yields.get world).bind
    (fills.bind ((Yields.get later).bind (Yields.pure _ later))), kept,
    reached.imp_left (Nat.le_trans enough)⟩

/-- After a fill for an index, the buffer reaches it just when it is there. -/
theorem Coherent.lt_filled_iff
    (feeds : Feeds lists source ready)
    {index need : Nat}
    (within : index < need)
    (coherent : Coherent source ready views later)
    (reached : need ≤ later.iter.filled ∨ source later.iter.filled = none) :
    index < later.iter.filled ↔ (source index).isSome = true := by
  constructor
  · exact coherent.given index
  · intro present
    rcases reached with enough | ended
    · exact Nat.lt_of_lt_of_le within enough
    · by_contra above
      have absent := feeds.ends.after (Nat.le_of_not_lt above) ended
      rw [absent] at present
      cases present

end Filling

section Census

theorem Coherent.perm
    {other : List Nat}
    (coherent : Coherent source ready views world)
    (same : views.Perm other) :
    Coherent source ready other world :=
  { coherent with
    census := coherent.census.trans same
    low := fun start member => coherent.low start (same.mem_iff.mpr member) }

/-- A view more, at or above the base. -/
theorem Coherent.register
    (coherent : Coherent source ready views world)
    (above : world.iter.base ≤ start) :
    Coherent source ready (start :: views)
      { world with iter := world.iter.register start } where
  census := coherent.census.cons start
  low other member := by
    rcases List.mem_cons.mp member with rfl | old
    · exact above
    · exact coherent.low other old
  buffered := coherent.buffered
  given := coherent.given
  called := coherent.called
  ended := coherent.ended

/-- The smallest start is at or below every start. -/
theorem floor_le
    {live : List Nat} {top : Nat}
    (member : start ∈ live) :
    live.min?.getD top ≤ start := by
  cases least : live.min? with
  | none =>
      rw [List.min?_eq_none_iff] at least
      rw [least] at member
      cases member
  | some floor =>
      rw [List.min?_eq_some_iff] at least
      exact least.2 start member

/-- Values that are dropped are below the floor. -/
theorem filled_unregister
    (state : IterState Value) (start : Nat) :
    (state.unregister start).filled = state.filled := by
  simp only [IterState.filled, IterState.unregister, List.length_drop]
  omega

/-- A view less: what remains is coherent. -/
theorem Coherent.unregister
    (coherent : Coherent source ready views world)
    (start : Nat) :
    Coherent source ready (views.erase start)
      { world with iter := world.iter.unregister start } := by
  have same := filled_unregister world.iter start
  have census := coherent.census.erase start
  refine ⟨census, ?_, ?_, ?_, ?_, ?_⟩
  · intro other member
    have floor : (world.iter.live.erase start).min?.getD
        world.iter.filled ≤ other :=
      floor_le (census.mem_iff.mpr member)
    have low := coherent.low other (List.mem_of_mem_erase member)
    simp only [IterState.unregister]
    omega
  · intro index fits
    simp only [IterState.unregister, List.length_drop] at fits ⊢
    rw [List.getElem?_drop, coherent.buffered _ (by omega), Nat.add_assoc]
  · simp only [same]
    exact coherent.given
  · simp only [same]
    exact coherent.called
  · simp only [same]
    exact coherent.ended

/-- After a drop, the buffer holds nothing below the smallest start. -/
theorem Coherent.reclaimed
    (coherent : Coherent source ready views world)
    (start : Nat) :
    Reclaimed (views.erase start) (world.iter.unregister start) := by
  intro index fits
  have census := coherent.census.erase start
  simp only [IterState.unregister, List.length_drop] at fits ⊢
  cases least : (world.iter.live.erase start).min? with
  | none =>
      simp only [least, Option.getD_none, IterState.filled] at fits
      omega
  | some floor =>
      have member := (List.min?_eq_some_iff.mp least).1
      refine ⟨floor, census.mem_iff.mp member, ?_⟩
      simp only [least, Option.getD_some] at fits ⊢
      omega

end Census

section Views

/-- `is_empty` tells whether the source ends at the start of the view. -/
theorem isEmpty_yields
    (feeds : Feeds lists source ready)
    (coherent : Coherent source ready views world)
    (view : LazyIterList) :
    ∃ later, Yields (view.isEmpty lists) world
        (.ok (source view.start).isNone) later ∧
      Coherent source ready views later := by
  rcases fillTo_yields feeds (view.start + 1) coherent with
    ⟨later, fills, kept, reached⟩
  have within := kept.lt_filled_iff feeds (Nat.lt_succ_self view.start) reached
  refine ⟨later, fills.bind ?_, kept⟩
  have same : decide (later.iter.filled ≤ view.start) =
      (source view.start).isNone := by
    rw [Bool.eq_iff_iff, decide_eq_true_iff, ← Nat.not_lt, within,
      Option.not_isSome_iff_eq_none, Option.isNone_iff_eq_none]
  rw [same]
  exact Yields.pure _ later

/-- `truth` tells whether the source goes on at the start of the view. -/
theorem truth_yields
    (feeds : Feeds lists source ready)
    (coherent : Coherent source ready views world)
    (view : LazyIterList) :
    ∃ later, Yields (view.truth lists) world
        (.ok (source view.start).isSome) later ∧
      Coherent source ready views later := by
  rcases isEmpty_yields feeds coherent view with ⟨later, empty, kept⟩
  refine ⟨later, empty.bind ?_, kept⟩
  rw [Option.not_isNone]
  exact Yields.pure _ later

/-- `car` reads the source at the start of a live view. -/
theorem car_yields
    (feeds : Feeds lists source ready)
    (coherent : Coherent source ready views world)
    (view : LazyIterList)
    (live : view.start ∈ views) :
    ∃ later, Yields (view.car lists) world (.ok (source view.start)) later ∧
      Coherent source ready views later := by
  rcases fillTo_yields feeds (view.start + 1) coherent with
    ⟨later, fills, kept, reached⟩
  have within := kept.lt_filled_iff feeds (Nat.lt_succ_self view.start) reached
  refine ⟨later, fills.bind ?_, kept⟩
  by_cases present : view.start < later.iter.filled
  · have low := kept.low _ live
    have fits : view.start - later.iter.base < later.iter.buffer.length := by
      simp only [IterState.filled] at present
      omega
    have stored := kept.buffered _ fits
    rw [Nat.add_sub_cancel' low] at stored
    rcases Option.isSome_iff_exists.mp (within.mp present) with ⟨value, found⟩
    rw [if_neg (Nat.not_le_of_lt present)]
    refine (Yields.get later).bind ?_
    simp only [low, if_true, stored, found]
    exact Yields.pure (some value) later
  · have absent : source view.start = none := by
      rw [← Option.not_isSome_iff_eq_none, ← within]
      exact present
    rw [if_pos (Nat.le_of_not_lt present), absent]
    exact Yields.pure none later

/-- `cdr` of a live view is a view of the rest. -/
theorem cdr_yields
    (feeds : Feeds lists source ready)
    (coherent : Coherent source ready views world)
    (view : LazyIterList)
    (live : view.start ∈ views) :
    ∃ later, Yields (view.cdr lists) world
        (.ok ((source view.start).map fun _ => ⟨view.start + 1⟩)) later ∧
      Coherent source ready
        (if (source view.start).isSome then
          (view.start + 1) :: views
        else
          views) later := by
  rcases isEmpty_yields feeds coherent view with ⟨middle, empty, kept⟩
  cases found : source view.start with
  | none =>
      rw [found] at empty
      exact ⟨middle, empty.bind (Yields.pure none middle), kept⟩
  | some value =>
      rw [found] at empty
      have above : middle.iter.base ≤ view.start + 1 :=
        Nat.le_succ_of_le (kept.low _ live)
      refine ⟨_, empty.bind ?_, kept.register above⟩
      rfl

/-- `len_cmp` compares what remains of the source with a number. -/
theorem lenCmp_yields
    (feeds : Feeds lists source ready)
    (coherent : Coherent source ready views world)
    (view : LazyIterList) (n : Nat) :
    ∃ later, Yields (view.lenCmp lists n) world
        (.ok ((source.drop view.start).lenCmp n)) later ∧
      Coherent source ready views later := by
  rcases fillTo_yields feeds (view.start + n + 1) coherent with
    ⟨later, fills, kept, reached⟩
  have counts : ∀ index ≤ n, index < later.iter.filled - view.start ↔
      (source.drop view.start index).isSome = true := by
    intro index within
    have filled := kept.lt_filled_iff feeds
      (Nat.lt_succ_of_le (Nat.add_le_add_left within view.start)) reached
    rw [Sequence.drop, ← filled, Nat.lt_sub_iff_add_lt']
  refine ⟨later, fills.bind ?_, kept⟩
  rw [Sequence.lenCmp_eq counts]
  by_cases more : later.iter.filled - view.start > n
  · simp only [more, if_true]
    exact Yields.pure Ordering.gt later
  · simp only [more, if_false]
    exact Yields.pure _ later

/-- The views that are held are the live ones, and give the source. -/
def Showing (source : Sequence Value)
    (ready : Nat → IterDriver Value → σ → Prop)
    (held : Spine.Held Value LazyIterList) (world : World Value σ) : Prop :=
  Coherent source ready (held.map fun pair => pair.1.start) world ∧
    ∀ pair ∈ held, pair.2 = source.drop pair.1.start

theorem Showing.gives
    {held : Spine.Held Value LazyIterList} {view : LazyIterList}
    {sequence : Sequence Value}
    (showing : Showing source ready held world)
    (member : (view, sequence) ∈ held) :
    sequence = source.drop view.start :=
  showing.2 _ member

theorem Showing.live
    {held : Spine.Held Value LazyIterList} {view : LazyIterList}
    {sequence : Sequence Value}
    (member : (view, sequence) ∈ held) :
    view.start ∈ held.map fun pair => pair.1.start :=
  List.mem_map.mpr ⟨_, member, rfl⟩

/-- A rest that is held gives the source from its own start on. -/
theorem Showing.behind
    {held : Spine.Held Value LazyIterList} {start : Nat}
    (showing : ∀ pair ∈ held, pair.2 = source.drop pair.1.start)
    (coherent : Coherent source ready
      ((start + 1) :: held.map fun pair => pair.1.start) world) :
    Showing source ready
      (Spine.behind (some ⟨start + 1⟩) (source.drop start) ++ held) world := by
  refine ⟨coherent, fun pair member => ?_⟩
  rcases List.mem_append.mp member with first | old
  · cases List.mem_singleton.mp first
    exact source.drop_drop start 1
  · exact showing pair old

/-- The views of a list that is fed keep giving its source. -/
theorem spine_keeps
    (feeds : Feeds lists source ready) :
    (LazyIterList.spine lists).Keeps (Showing source ready) where
  ends held world showing view sequence member := by
    rw [showing.gives member]
    exact feeds.ends.drop view.start
  perm held other world same showing :=
    ⟨showing.1.perm (same.map _), fun pair member =>
      showing.2 pair (same.mem_iff.mpr member)⟩
  isEmpty held world showing view sequence member := by
    rcases isEmpty_yields feeds showing.1 view with ⟨later, empty, kept⟩
    rw [showing.gives member]
    exact ⟨later, empty, kept, showing.2⟩
  car held world showing view sequence member := by
    rcases car_yields feeds showing.1 view (Showing.live member) with
      ⟨later, heads, kept⟩
    rw [showing.gives member]
    exact ⟨later, heads, kept, showing.2⟩
  cdr held world showing view sequence member := by
    rcases cdr_yields feeds showing.1 view (Showing.live member) with
      ⟨later, tails, kept⟩
    rw [showing.gives member]
    cases found : source view.start with
    | none =>
        rw [found] at tails kept
        exact ⟨none, later, tails, fun _ => feeds.ends _ found, kept, showing.2⟩
    | some value =>
        rw [found] at tails kept
        refine ⟨some ⟨view.start + 1⟩, later, tails, fun impossible => ?_,
          Showing.behind showing.2 kept⟩
        cases impossible
  release held world view sequence showing := by
    have left := showing.1.unregister view.start
    rw [List.map_cons, List.erase_cons_head] at left
    exact ⟨left, fun pair member =>
      showing.2 pair (List.mem_cons_of_mem _ member)⟩

end Views

end SimStorage.Lists
