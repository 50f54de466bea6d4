import SimStorage.Lists.Runs

namespace SimStorage.Lists

/-!
# Iterator lists on iterator lists

`new_cons` drives a new list by a cursor on an older one, so the states of
iterator lists stand on one another: each level has a state of its own and is
driven by lists of the levels below.
-/

open Interaction Table

variable {Value σ : Type}

section Definitions

/-- A value: an item, or a view of the iterator list of a level. -/
inductive Node (Value : Type) where
  | item (value : Value)
  | view (level start : Nat)
  deriving Repr, DecidableEq

/-- The view, where it is of the level. -/
def Node.own (level : Nat) : Node Value → Option LazyIterList
  | .item _ => none
  | .view other start => if other = level then some ⟨start⟩ else none

/-- The states of so many iterator lists, on the state of other lists. -/
def Tower (Value σ : Type) : Nat → Type
  | 0 => σ
  | level + 1 => World (Node Value) (Tower Value σ level)

/-- The lists of a level, beside those below. -/
def above (level : Nat) (lists : ListObjects (Node Value) σ) :
    ListObjects (Node Value) (World (Node Value) σ) where
  isList node := (node.own level).isSome || lists.isList node
  isEmpty node :=
    match node.own level with
    | some view => view.isEmpty lists
    | none => onLists (lists.isEmpty node)
  car node :=
    match node.own level with
    | some view => view.car lists
    | none => onLists (lists.car node)
  cdr node :=
    match node.own level with
    | some view =>
        Option.map (fun rest => .view level rest.start) <$> view.cdr lists
    | none => onLists (lists.cdr node)
  release node world :=
    match node.own level with
    | some view => view.dropped world
    | none => { world with lists := lists.release node world.lists }

/-- The lists of all levels below one. -/
def objects (base : ListObjects (Node Value) σ) :
    (level : Nat) → ListObjects (Node Value) (Tower Value σ level)
  | 0 => base
  | level + 1 => above level (objects base level)

namespace IterBackend

/-- `new_list`: a state on top, with a first view. -/
def newList (items : List (Node Value)) (below : σ) : World (Node Value) σ where
  iter := (IterState.new fun index => items[index]?.map .ok).register 0
  lists := below

/-- `new_cons`: a state on top, with a first view. -/
def newCons (lists : ListObjects (Node Value) σ) (car tail : Node Value)
    (below : σ) : Except Failure (World (Node Value) σ) :=
  if lists.isList tail then
    .ok { iter := (IterState.withFirst car tail).register 0, lists := below }
  else
    .error (.error (.typeMismatch "list" "non-list"))

/-- Repeated `new_cons` onto the empty list, from the last item on. -/
def consAll (base : ListObjects (Node Value) σ) (below : σ) :
    (items : List (Node Value)) →
      Except Failure (World (Node Value) (Tower Value σ items.length))
  | [] => .ok (newList [] below)
  | item :: items => do
      let tail ← consAll base below items
      newCons (objects base (items.length + 1)) item (.view items.length 0) tail

end IterBackend

/-- The spine of values that are lists. -/
def ListObjects.spine (lists : ListObjects Value σ) : Spine Value Value σ where
  isEmpty := lists.isEmpty
  car := lists.car
  cdr := lists.cdr
  release := lists.release

/-- A cursor holds the rest of the source, or is at its end. -/
def CursorReady (source : Sequence Value)
    (holds : Spine.Held Value Value → σ → Prop) (index : Nat) :
    IterDriver Value → σ → Prop
  | .iter _ _, _ => False
  | .list none, _ => ∃ earlier ≤ index, source earlier = none
  | .list (some node), lists => holds [(node, source.drop index)] lists

end Definitions

variable {lists : ListObjects Value σ} {source : Sequence Value}
variable {holds : Spine.Held Value Value → σ → Prop}

theorem onLists_yields
    {α : Type} {call : EStateM Failure σ α} {outcome : Except Failure α}
    {after : σ}
    (world : World Value σ)
    (yields : Yields call world.lists outcome after) :
    Yields (onLists call) world outcome { world with lists := after } := by
  rw [Yields] at yields ⊢
  simp only [onLists, yields]
  cases outcome <;> rfl

/-- A cursor steps along a list that keeps its values. -/
theorem nextOf_yields
    (keeps : lists.spine.Keeps holds)
    {node : Value} {sequence : Sequence Value} {world : World Value σ}
    (isList : lists.isList node = true)
    (driven : world.iter.driver = .list none)
    (holding : holds [(node, sequence)] world.lists) :
    ∃ next after, Yields (nextOf lists node) world (.ok (sequence 0))
        { iter := { world.iter with driver := .list next }, lists := after } ∧
      match next with
      | none => sequence 0 = none ∨ sequence 1 = none
      | some node => holds [(node, sequence.drop 1)] after := by
  have member : (node, sequence) ∈ [(node, sequence)] := List.mem_cons_self
  have same : { world.iter with driver := .list none } = world.iter := by
    rw [← driven]
  rcases keeps.isEmpty _ _ holding node sequence member with
    ⟨first, empty, kept⟩
  cases found : sequence 0 with
  | none =>
      rw [found] at empty
      have stops : Yields (nextOf lists node) world (.ok none)
          { world with lists := lists.release node first } := by
        refine Spine.tidying_yields
          (?_ : Yields _ world (.ok none) { world with lists := first })
        rw [if_neg (by simp [isList])]
        exact (onLists_yields world empty).bind (Yields.pure none _)
      refine ⟨none, lists.release node first, ?_, .inl rfl⟩
      rw [same]
      exact stops
  | some value =>
      rw [found] at empty
      rcases keeps.car _ first kept node sequence member with
        ⟨second, heads, kept⟩
      rcases keeps.cdr _ second kept node sequence member with
        ⟨rest, third, tails, rests, kept⟩
      rw [found] at heads
      have steps : Yields (nextOf lists node) world (.ok (some value))
          { iter := { world.iter with driver := .list rest }
            lists := lists.release node third } := by
        refine Spine.tidying_yields
          (?_ : Yields _ world (.ok (some value))
            { iter := { world.iter with driver := .list rest }
              lists := third })
        rw [if_neg (by simp [isList])]
        exact (onLists_yields world empty).bind
          ((onLists_yields { world with lists := first } heads).bind
            ((onLists_yields { world with lists := second } tails).bind
              ((Yields.modify _ _).bind (Yields.pure (some value) _))))
      have left := keeps.release _ third node sequence
        (keeps.perm _ _ third (List.perm_append_comm) kept)
      refine ⟨rest, _, steps, ?_⟩
      cases rest with
      | none => exact .inr (rests rfl)
      | some next => exact left

/-- A cursor on a list that keeps its values gives them. -/
theorem cursor_feeds
    (keeps : lists.spine.Keeps holds)
    (ends : source.Ends)
    (areLists : ∀ held state, holds held state → ∀ node sequence,
      (node, sequence) ∈ held → lists.isList node = true) :
    Feeds lists source (CursorReady source holds) where
  ends := ends
  next index world before ready := by
    cases driver : world.iter.driver with
    | iter items position =>
        rw [driver] at ready
        exact ready.elim
    | list next =>
        rw [driver] at ready
        cases next with
        | none =>
            rcases ready with ⟨earlier, within, ended⟩
            rw [ends.after within ended]
            have same : { world.iter with driver := .list none } = world.iter := by
              rw [← driver]
            refine ⟨.list none, world.lists, (Yields.get world).bind ?_, earlier,
              Nat.le_succ_of_le within, ended⟩
            rw [same, driver]
            exact Yields.pure none world
        | some node =>
            have isList := areLists _ _ ready node _ List.mem_cons_self
            let taken : World Value σ :=
              { world with iter := { world.iter with driver := .list none } }
            rcases @nextOf_yields _ _ lists holds keeps node _ taken isList rfl
              ready with ⟨next, after, steps, behind⟩
            refine ⟨.list next, after, (Yields.get world).bind ?_, ?_⟩
            · rw [driver]
              exact (Yields.modify _ world).bind steps
            · cases next with
              | none =>
                  rcases behind with ended | ended
                  · exact ⟨index, Nat.le_succ index, ended⟩
                  · exact ⟨index + 1, Nat.le_refl _, ended⟩
              | some next =>
                  rw [Sequence.drop_drop] at behind
                  exact behind

section Levels

variable {level : Nat} {lists : ListObjects (Node Value) σ}
variable {source : Sequence (Node Value)}
variable {ready : Nat → IterDriver (Node Value) → σ → Prop}

/-- The views that are held are of the level. -/
def OnLevel (level : Nat) (source : Sequence (Node Value))
    (ready : Nat → IterDriver (Node Value) → σ → Prop)
    (held : Spine.Held (Node Value) (Node Value))
    (world : World (Node Value) σ) : Prop :=
  ∃ own : Spine.Held (Node Value) LazyIterList,
    held.Perm (own.map fun pair => (.view level pair.1.start, pair.2)) ∧
      Showing source ready own world

@[simp] theorem own_view
    (level start : Nat) :
    (Node.view level start : Node Value).own level = some ⟨start⟩ := by
  simp [Node.own]

/-- A view that is held is of the level, and is one of its views. -/
theorem OnLevel.own
    {held : Spine.Held (Node Value) (Node Value)}
    {own : Spine.Held (Node Value) LazyIterList}
    (same : held.Perm (own.map fun pair => (.view level pair.1.start, pair.2)))
    {node : Node Value} {sequence : Sequence (Node Value)}
    (member : (node, sequence) ∈ held) :
    ∃ view : LazyIterList, node = .view level view.start ∧
      (view, sequence) ∈ own := by
  rcases List.mem_map.mp (same.mem_iff.mp member) with ⟨⟨view, _⟩, inOwn, pair⟩
  cases pair
  exact ⟨view, rfl, inOwn⟩

/-- The views of a level that is fed keep their values. -/
theorem above_keeps
    (feeds : Feeds lists source ready) :
    (above level lists).spine.Keeps (OnLevel level source ready) where
  ends held world holding node sequence member := by
    rcases holding with ⟨own, same, showing⟩
    rcases OnLevel.own same member with ⟨view, rfl, inOwn⟩
    exact (spine_keeps feeds).ends own world showing view sequence inOwn
  perm held other world moved holding := by
    rcases holding with ⟨own, same, showing⟩
    exact ⟨own, moved.symm.trans same, showing⟩
  isEmpty held world holding node sequence member := by
    rcases holding with ⟨own, same, showing⟩
    rcases OnLevel.own same member with ⟨view, rfl, inOwn⟩
    rcases (spine_keeps feeds).isEmpty own world showing view sequence inOwn with
      ⟨later, empty, kept⟩
    refine ⟨later, ?_, own, same, kept⟩
    simp only [ListObjects.spine, above, own_view]
    exact empty
  car held world holding node sequence member := by
    rcases holding with ⟨own, same, showing⟩
    rcases OnLevel.own same member with ⟨view, rfl, inOwn⟩
    rcases (spine_keeps feeds).car own world showing view sequence inOwn with
      ⟨later, heads, kept⟩
    refine ⟨later, ?_, own, same, kept⟩
    simp only [ListObjects.spine, above, own_view]
    exact heads
  cdr held world holding node sequence member := by
    rcases holding with ⟨own, same, showing⟩
    rcases OnLevel.own same member with ⟨view, rfl, inOwn⟩
    rcases (spine_keeps feeds).cdr own world showing view sequence inOwn with
      ⟨rest, later, tails, rests, kept⟩
    refine ⟨rest.map fun rest => .view level rest.start, later, ?_,
      fun none => rests (Option.map_eq_none_iff.mp none),
      Spine.behind rest sequence ++ own, ?_, kept⟩
    · simp only [ListObjects.spine, above, own_view]
      exact tails.map _
    · cases rest with
      | none => exact same
      | some rest => exact same.cons _
  release held world node sequence holding := by
    rcases holding with ⟨own, same, showing⟩
    rcases OnLevel.own same List.mem_cons_self with ⟨view, rfl, inOwn⟩
    rcases List.append_of_mem inOwn with ⟨front, back, rfl⟩
    have keeps := spine_keeps feeds
    have first := keeps.perm _ _ world List.perm_middle showing
    have moved := same.trans (List.perm_middle.map _)
    refine ⟨front ++ back, moved.cons_inv, ?_⟩
    simp only [ListObjects.spine, above, own_view]
    exact keeps.release _ world view sequence first

/-- A list on an iterator gives its items. -/
theorem newList_opens
    (lists : ListObjects (Node Value) σ) (below : σ)
    (items : List (Node Value)) :
    ∃ ready, Feeds lists (.ofList items) ready ∧
      Coherent (.ofList items) ready [0] (IterBackend.newList items below) := by
  have noErrors : ∀ (index : Nat) (error : Error),
      (items[index]?.map .ok : Option (Except Error (Node Value))) ≠
        some (.error error) := by
    simp
  have opened : Opened lists _ _
      { iter := .new fun index => items[index]?.map .ok, lists := below } :=
    .new noErrors
  have feeds := opened.feeds
  have coherent := opened.coherent.register (Nat.le_refl 0)
  rw [Sequence.ofItems_list] at feeds coherent
  exact ⟨_, feeds, coherent⟩

/-- Every level that repeated `new_cons` adds gives its items. -/
theorem consAll_opens
    (base : ListObjects (Node Value) σ) (below : σ)
    (items : List (Node Value)) :
    ∃ world ready, IterBackend.consAll base below items = .ok world ∧
      Feeds (objects base items.length) (.ofList items) ready ∧
      Coherent (.ofList items) ready [0] world := by
  induction items with
  | nil =>
      rcases newList_opens base below [] with ⟨ready, feeds, coherent⟩
      exact ⟨_, ready, rfl, feeds, coherent⟩
  | cons item items inductionHypothesis =>
      rcases inductionHypothesis with ⟨tail, ready, makes, feeds, coherent⟩
      have keeps : (above items.length (objects base items.length)).spine.Keeps
          (OnLevel items.length (.ofList items) ready) :=
        above_keeps feeds
      have feedsMore := cursor_feeds keeps (Sequence.ofList_ends (item :: items))
        fun held world holding node sequence member => by
          rcases holding with ⟨own, same, _⟩
          rcases OnLevel.own same member with ⟨view, rfl, _⟩
          simp [above]
      have behind : OnLevel items.length (.ofList items) ready
          [(.view items.length 0, (Sequence.ofList (item :: items)).drop 1)]
          tail := by
        refine ⟨[(⟨0⟩, .ofList items)], ?_, coherent, fun pair member => ?_⟩
        · rw [Sequence.ofList_drop]
          exact List.Perm.refl _
        · cases List.mem_singleton.mp member
          exact (Sequence.drop_zero _).symm
      have opened : Opened _ _ _
          { iter := .withFirst item (.view items.length 0), lists := tail } :=
        .prepend feedsMore rfl behind
      refine ⟨_, _, ?_, feedsMore, opened.coherent.register (Nat.le_refl 0)⟩
      have isList : (objects base (items.length + 1)).isList
          (.view items.length 0) = true := by
        simp [objects, above]
      rw [IterBackend.consAll, makes]
      exact if_pos isList

end Levels

end SimStorage.Lists
