import SimStorage.Lists.Chain
import SimStorage.Lists.Cons
import SimStorage.Lists.Forced

namespace SimStorage.Lists

/-!
# The list backends

Lists of the same items answer every script alike, whichever backend made them
and whether at once or item by item.  Only the chain that the lazy backend makes
at once has no rest behind its last item, where the others have an empty list.
-/

open Interaction Table

variable {Value Handle σ : Type}

section Walking

/-- A walk by `is_empty` and `cdr` that compares the length with a number. -/
def walkLenCmp (spine : Spine Value Handle σ) (handle : Handle) (n : Nat) :
    EStateM Failure σ Ordering := do
  if ← spine.isEmpty handle then
    return compare 0 n
  else
    match n with
    | 0 => return .gt
    | n + 1 => do
        match ← spine.cdr handle with
        | none => return compare 0 n
        | some rest => do
            let order ← walkLenCmp spine rest n
            modify (spine.release rest)
            return order

variable {spine : Spine Value Handle σ}
variable {holds : Spine.Held Value Handle → σ → Prop}
variable {held : Spine.Held Value Handle} {state : σ}
variable {handle : Handle} {sequence : Sequence Value}

/-- The walk compares the number of the values. -/
theorem walkLenCmp_yields
    (keeps : spine.Keeps holds)
    (holding : holds held state)
    (member : (handle, sequence) ∈ held) (n : Nat) :
    ∃ later, Yields (walkLenCmp spine handle n) state
        (.ok (sequence.lenCmp n)) later ∧
      holds held later := by
  induction n generalizing held state handle sequence with
  | zero =>
      rcases keeps.isEmpty held state holding handle sequence member with
        ⟨later, empty, kept⟩
      refine ⟨later, empty.bind ?_, kept⟩
      cases found : sequence 0 with
      | none =>
          have ends := keeps.ends held state holding handle sequence member
          rw [Sequence.lenCmp_empty ends found]
          exact Yields.pure _ later
      | some value =>
          have more : (sequence 0).isSome = true := by
            rw [found]
            rfl
          rw [Sequence.lenCmp, if_pos more]
          exact Yields.pure _ later
  | succ n inductionHypothesis =>
      have ends := keeps.ends held state holding handle sequence member
      rcases keeps.isEmpty held state holding handle sequence member with
        ⟨first, empty, kept⟩
      cases found : sequence 0 with
      | none =>
          rw [found] at empty
          rw [Sequence.lenCmp_empty ends found]
          exact ⟨first, empty.bind (Yields.pure _ first), kept⟩
      | some value =>
          have more : (sequence 0).isSome = true := by
            rw [found]
            rfl
          rw [found] at empty
          rw [Sequence.lenCmp_succ more]
          rcases keeps.cdr held first kept handle sequence member with
            ⟨rest, second, tails, rests, kept⟩
          cases rest with
          | none =>
              rw [Sequence.lenCmp_empty (ends.drop 1) (rests rfl)]
              exact ⟨second, empty.bind (tails.bind (Yields.pure _ second)), kept⟩
          | some next =>
              rcases inductionHypothesis kept List.mem_cons_self with
                ⟨third, walks, kept⟩
              exact ⟨_, empty.bind (tails.bind (walks.bind
                ((Yields.modify _ third).bind (Yields.pure _ _)))),
                keeps.release held third next _ kept⟩

/-- The walk is one that `spine_len_cmp` may make. -/
theorem walkLenCmp_compares :
    Compares (walkLenCmp : Spine Value (LazyHandle Value) (Cells Value σ) →
      LazyHandle Value → Nat → Forcing Value σ Ordering) :=
  fun _ _ keeps _ _ holding _ _ member n =>
    walkLenCmp_yields keeps holding member n

end Walking

/-- What a script answers on a list of items. -/
def plainAnswers (items : List Value) (script : List Call) :
    List (Answer Value Unit) :=
  (Sequence.ofList items).run Sequence.answer script

/-- The same where the list is cut at its last item. -/
def cutAnswers (items : List Value) (script : List Call) :
    List (Answer Value Unit) :=
  (Sequence.ofList items).run (Sequence.answering true) script

section Answers

variable {items : List (Node Value)}

/-- A list that is driven by an iterator or a cursor answers its items. -/
theorem iter_answers
    {lists : ListObjects (Node Value) σ}
    {ready : Nat → IterDriver (Node Value) → σ → Prop}
    {world : World (Node Value) σ}
    (feeds : Feeds lists (.ofList items) ready)
    (coherent : Coherent (.ofList items) ready [0] world)
    (script : List Call) :
    ∃ later, Yields ((LazyIterList.object lists).run ⟨0⟩ script) world
      (.ok (plainAnswers items script)) later := by
  have showing : Showing (.ofList items) ready
      [(⟨0⟩, .ofList items)] world := by
    have shown := coherent.showing
    simp only [liveViews, List.map_cons, List.map_nil, Sequence.drop_zero]
      at shown
    exact shown
  exact (object_answers feeds).run_yields script showing

/-- A list of cells answers its items. -/
theorem cons_answers
    {lists : ListValue Value Value σ} {isList : Value → Bool}
    (items : List Value) (state : σ) (script : List Call) :
    ∃ later, Yields ((ConsList.object lists isList).run
      (ConsBackend.newList items) script) state
      (.ok (plainAnswers items script)) later := by
  have holding : ConsList.Holds [(ConsBackend.newList items, .ofList items)]
      state := by
    intro pair member
    cases List.mem_singleton.mp member
    exact ⟨items, rfl, rfl⟩
  exact ConsList.object_answers.run_yields script holding

/--
However the backends make lists of the same items, they answer every script
alike; the chain of the lazy backend's `new_list` answers as a list that is cut
at its last item.  A visit with as many turns as there are items ends.
-/
theorem backends_interchange
    (base : ListObjects (Node Value) σ)
    (lists : ListValue (Node Value) (Node Value) σ)
    (isList : Node Value → Bool)
    (spineLenCmp :
      Spine (Node Value) (LazyHandle (Node Value)) (Cells (Node Value) σ) →
        LazyHandle (Node Value) → Nat → Forcing (Node Value) σ Ordering)
    (items : List (Node Value))
    (state : σ)
    (store : Cells (Node Value) σ)
    (script : List Call)
    (compares : Compares spineLenCmp) :
    (∃ later, Yields ((ConsList.object lists isList).run
        (ConsBackend.newList items) script) state
        (.ok (plainAnswers items script)) later) ∧
      (∃ later, Yields (do
          let handle ← ConsBackend.consAll isList items
          (ConsList.object lists isList).run handle script) state
        (.ok (plainAnswers items script)) later) ∧
      (∃ later, Yields (do
          let handle ← LazyBackend.newList items
          (LazyConsList.object lists isList spineLenCmp).run handle script)
        store (.ok (cutAnswers items script)) later) ∧
      (∃ later, Yields (do
          let handle ← LazyBackend.consAll isList items
          (LazyConsList.object lists isList spineLenCmp).run handle script)
        store (.ok (plainAnswers items script)) later) ∧
      (∃ later, Yields ((LazyIterList.object base).run ⟨0⟩ script)
        (IterBackend.newList items state)
        (.ok (plainAnswers items script)) later) ∧
      (∃ world later, IterBackend.consAll base state items = .ok world ∧
        Yields ((LazyIterList.object (objects base items.length)).run ⟨0⟩
          script) world (.ok (plainAnswers items script)) later) ∧
      ∀ start turns limit, items.length ≤ start + turns →
        (((Sequence.ofList items).drop start).visits limit turns 0).2 =
          .finished := by
  refine ⟨?_, ?_, ?_, ?_, ?_, ?_, fun start turns limit enough => ?_⟩
  · exact cons_answers items state script
  · rcases cons_answers items state script with ⟨later, runs⟩
    exact ⟨later, (ConsBackend.consAll_yields items state).bind runs⟩
  · rcases newList_yields items store with ⟨handle, middle, makes, holding⟩
    rcases (cells_answer compares).run_yields script holding with ⟨later, runs⟩
    exact ⟨later, makes.bind runs⟩
  · rcases consAll_yields isList items store with
      ⟨handle, middle, makes, holding⟩
    rcases (cells_answer compares).run_yields script holding with ⟨later, runs⟩
    rw [Sequence.answering_false] at runs
    exact ⟨later, makes.bind runs⟩
  · rcases newList_opens base state items with ⟨ready, feeds, coherent⟩
    exact iter_answers feeds coherent script
  · rcases consAll_opens base state items with
      ⟨world, ready, makes, feeds, coherent⟩
    rcases iter_answers feeds coherent script with ⟨later, runs⟩
    exact ⟨world, later, makes, runs⟩
  · apply Sequence.visits_finished
    exact .inr (List.getElem?_eq_none enough)

end Answers

section Sample

/-- No node of another kind is a list. -/
def noNodes : ListObjects (Node Nat) Unit where
  isList _ := false
  isEmpty _ := throw (refused "not a list")
  car _ := throw (refused "not a list")
  cdr _ := throw (refused "not a list")
  release _ state := state

/-- There are no lists of another kind. -/
def noLists : ListValue (Node Nat) (Node Nat) Unit where
  isEmpty _ := throw (refused "not a list")
  truth _ := throw (refused "not a list")
  car _ := throw (refused "not a list")
  cdr _ := throw (refused "not a list")
  get _ _ := throw (refused "not a list")
  lenCmp _ _ := throw (refused "not a list")
  forEach _ _ _ := throw (refused "not a list")
  release _ state := state

theorem sample_backends_interchange :
    (∃ world later,
      IterBackend.consAll noNodes () [.item 7, .item 8] = .ok world ∧
        Yields ((LazyIterList.object (objects noNodes 2)).run ⟨0⟩
          [.cdr, .car, .cdr, .isEmpty]) world
          (.ok (plainAnswers [.item 7, .item 8] [.cdr, .car, .cdr, .isEmpty]))
          later) ∧
      plainAnswers [Node.item 7, .item 8] [.cdr, .car, .cdr, .isEmpty] =
        [.rest (some ()), .item (some (.item 8)), .rest (some ()),
          .truth true] :=
  ⟨(backends_interchange noNodes noLists (fun _ => false) walkLenCmp
    [.item 7, .item 8] () { cells := [], lists := () }
    [.cdr, .car, .cdr, .isEmpty] walkLenCmp_compares).2.2.2.2.2.1, rfl⟩

/-- The chain of one item has no rest, where the cells have an empty one. -/
theorem cut_chain_has_no_rest :
    (∃ later, Yields (do
        let handle ← LazyBackend.newList [Node.item 7]
        (LazyConsList.object noLists (fun _ => false) walkLenCmp).run handle
          [.cdr]) { cells := [], lists := () } (.ok [.rest none]) later) ∧
      Yields ((ConsList.object noLists fun _ => false).run
        (ConsBackend.newList [Node.item 7]) [.cdr]) ()
        (.ok [.rest (some ())]) () :=
  ⟨⟨_, rfl⟩, rfl⟩

end Sample

end SimStorage.Lists
