import SimStorage.Lists.Coherence
import SimStorage.Lists.Scripts

namespace SimStorage.Lists

/-!
# Runs on the views of one list

However views of one list are read, cloned and dropped, each of them answers as
the source does from its start on.
-/

open Interaction Table Sequence

variable {Value σ : Type}

section Definitions

/-- `ListValue` of the views of a list. -/
def LazyIterList.object (lists : ListObjects Value σ) :
    ListValue Value LazyIterList (World Value σ) where
  isEmpty view := view.isEmpty lists
  truth view := view.truth lists
  car view := view.car lists
  cdr view := view.cdr lists
  get view := view.get lists
  lenCmp view := view.lenCmp lists
  forEach view := view.forEach lists
  release := dropped

/-- A list that has been opened without views, on a source without errors. -/
inductive Opened (lists : ListObjects Value σ) :
    Sequence Value → (Nat → IterDriver Value → σ → Prop) →
      World Value σ → Prop where
  | new {items : Nat → Option (Except Error Value)} {outside : σ}
      (noErrors : ∀ index error, items index ≠ some (.error error)) :
      Opened lists (ofItems items)
        (fun index driver _ => driver = .iter items index)
        { iter := .new items, lists := outside }
  | prepend {source : Sequence Value}
      {ready : Nat → IterDriver Value → σ → Prop}
      {first tail : Value} {outside : σ}
      (feeds : Feeds lists source ready)
      (begins : source 0 = some first)
      (behind : ready 1 (.list (some tail)) outside) :
      Opened lists source ready
        { iter := .withFirst first tail, lists := outside }

/-- What calls, clones and drops reach, with the starts of the live views. -/
inductive Reached (lists : ListObjects Value σ) (opened : World Value σ) :
    List Nat → World Value σ → Prop where
  | first {later : World Value σ}
      (runs : Yields (LazyIterList.fromState 0) opened (.ok ⟨0⟩) later) :
      Reached lists opened [0] later
  | called {views : List Nat} {world later : World Value σ}
      {view : LazyIterList} {call : Call} {answer : Answer Value LazyIterList}
      (reached : Reached lists opened views world)
      (live : view.start ∈ views)
      (runs : Yields ((LazyIterList.object lists).answer view call) world
        (.ok answer) later) :
      Reached lists opened (answer.views.map LazyIterList.start ++ views) later
  | failed {views : List Nat} {world later : World Value σ}
      {view : LazyIterList} {call : Call} {failure : Failure}
      (reached : Reached lists opened views world)
      (live : view.start ∈ views)
      (runs : Yields ((LazyIterList.object lists).answer view call) world
        (.error failure) later) :
      Reached lists opened views later
  | cloned {views : List Nat} {world later : World Value σ}
      {view clone : LazyIterList}
      (reached : Reached lists opened views world)
      (live : view.start ∈ views)
      (runs : Yields view.clone world (.ok clone) later) :
      Reached lists opened (clone.start :: views) later
  | dropped {views : List Nat} {world : World Value σ} {view : LazyIterList}
      (reached : Reached lists opened views world)
      (live : view.start ∈ views) :
      Reached lists opened (views.erase view.start)
        (view.dropped world)

end Definitions

variable {lists : ListObjects Value σ} {source : Sequence Value}
variable {ready : Nat → IterDriver Value → σ → Prop}
variable {views : List Nat} {opened world later : World Value σ}

/-- An iterator without errors gives its values, one a call. -/
theorem iter_feeds
    {items : Nat → Option (Except Error Value)}
    (lists : ListObjects Value σ)
    (noErrors : ∀ index error, items index ≠ some (.error error)) :
    Feeds lists (ofItems items)
      (fun index driver _ => driver = .iter items index) where
  ends := ofItems_ends items
  next index world before ready := by
    refine ⟨.iter items (index + 1), world.lists, ?_, rfl⟩
    rw [ofItems_eq before]
    refine (Yields.get world).bind ?_
    rw [ready]
    refine (Yields.modify _ _).bind ?_
    cases found : items index with
    | none => exact Yields.pure none _
    | some item =>
        cases item with
        | ok value => exact Yields.pure (some value) _
        | error error => exact absurd found (noErrors index error)

/-- A list that has been opened is driven by its source. -/
theorem Opened.feeds
    (start : Opened lists source ready opened) :
    Feeds lists source ready := by
  cases start with
  | new noErrors => exact iter_feeds lists noErrors
  | prepend feeds _ _ => exact feeds

/-- Before its first view, a list is coherent. -/
theorem Opened.coherent
    (start : Opened lists source ready opened) :
    Coherent source ready [] opened := by
  cases start with
  | new noErrors =>
      refine ⟨.nil, ?_, ?_, ?_, rfl, ?_⟩
      · intro start member
        cases member
      · intro index fits
        exact absurd fits (Nat.not_lt_zero index)
      · intro index fits
        exact absurd fits (Nat.not_lt_zero index)
      · intro finished
        cases finished
  | prepend feeds begins behind =>
      refine ⟨.nil, ?_, ?_, ?_, behind, ?_⟩
      · intro start member
        cases member
      · intro index fits
        cases Nat.lt_one_iff.mp fits
        exact begins.symm
      · intro index fits
        cases Nat.lt_one_iff.mp fits
        rw [begins]
        rfl
      · intro finished
        cases finished

theorem Opened.base
    (start : Opened lists source ready opened) :
    opened.iter.base ≤ 0 := by
  cases start <;> exact Nat.le_refl 0

/-- Every call through a view that is held answers as the source does. -/
theorem object_answers
    (feeds : Feeds lists source ready) :
    (LazyIterList.object lists).Answers Sequence.answer
      (Showing source ready) where
  answers held world showing view sequence member call := by
    have keeps := spine_keeps feeds
    cases call with
    | isEmpty =>
        rcases keeps.isEmpty _ world showing view sequence member with
          ⟨later, runs, kept⟩
        exact ⟨.truth _, later, runs.map _, rfl, kept⟩
    | truth =>
        rcases truth_yields feeds showing.1 view with ⟨later, runs, kept⟩
        rw [showing.gives member]
        exact ⟨.truth _, later, runs.map _, rfl, kept, showing.2⟩
    | car =>
        rcases keeps.car _ world showing view sequence member with
          ⟨later, runs, kept⟩
        exact ⟨.item _, later, runs.map _, rfl, kept⟩
    | cdr =>
        rcases cdr_yields feeds showing.1 view (Showing.live member) with
          ⟨later, tails, kept⟩
        rw [showing.gives member]
        cases found : source view.start with
        | none =>
            have first : source.drop view.start 0 = none := found
            rw [found] at tails kept
            refine ⟨.rest none, later, tails.map _, ?_, kept, showing.2⟩
            rw [Sequence.answer, first]
            rfl
        | some value =>
            have first : source.drop view.start 0 = some value := found
            rw [found] at tails kept
            refine ⟨.rest (some (⟨view.start + 1⟩,
                (source.drop view.start).drop 1)), later, tails.map _, ?_,
              Showing.behind showing.2 kept⟩
            rw [Sequence.answer, first]
            rfl
    | get index =>
        rcases keeps.get_yields showing member index with ⟨later, runs, kept⟩
        exact ⟨.item _, later, runs.map _, rfl, kept⟩
    | lenCmp n =>
        rcases lenCmp_yields feeds showing.1 view n with ⟨later, runs, kept⟩
        rw [showing.gives member]
        exact ⟨.order _, later, runs.map _, rfl, kept, showing.2⟩
    | forEach turns limit =>
        rcases keeps.forEach_yields showing member turns limit with
          ⟨later, runs, kept⟩
        exact ⟨.visited _ _, later, runs.map _, rfl, kept⟩
  release := (spine_keeps feeds).release
  perm := (spine_keeps feeds).perm

/-- The handles of the live views. -/
def liveViews (source : Sequence Value) (views : List Nat) :
    Spine.Held Value LazyIterList :=
  views.map fun start => (⟨start⟩, source.drop start)

theorem starts_liveViews :
    (liveViews source views).map (fun pair => pair.1.start) = views := by
  simp [liveViews, Function.comp_def]

theorem Coherent.showing
    (coherent : Coherent source ready views world) :
    Showing source ready (liveViews source views) world := by
  refine ⟨?_, fun pair member => ?_⟩
  · rw [starts_liveViews]
    exact coherent
  · rcases List.mem_map.mp member with ⟨start, _, rfl⟩
    rfl

/-- A call through a live view answers as the source does, and keeps the rest. -/
theorem answer_yields
    (feeds : Feeds lists source ready)
    (coherent : Coherent source ready views world)
    {view : LazyIterList}
    (live : view.start ∈ views) (call : Call) :
    ∃ (given : Answer Value LazyIterList) (later : World Value σ),
      Yields ((LazyIterList.object lists).answer view call) world (.ok given)
          later ∧
        given.map (fun rest => source.drop rest.start) =
          (source.drop view.start).answer call ∧
        Coherent source ready (given.views.map LazyIterList.start ++ views)
          later := by
  have member : (view, source.drop view.start) ∈ liveViews source views :=
    List.mem_map.mpr ⟨view.start, live, rfl⟩
  rcases (object_answers feeds).answers _ world
    coherent.showing view _ member call with
    ⟨pairs, later, runs, told, kept⟩
  refine ⟨_, later, runs, ?_, ?_⟩
  · rw [told, Answer.map_map]
    exact Answer.map_congr fun pair member =>
      (kept.2 pair (List.mem_append_left _ member)).symm
  · have starts := kept.1
    rw [List.map_append, starts_liveViews] at starts
    rw [Answer.views_map, List.map_map]
    exact starts

/-- Whatever has been called, cloned and dropped, the state is coherent. -/
theorem Reached.coherent
    (start : Opened lists source ready opened)
    (reached : Reached lists opened views world) :
    Coherent source ready views world := by
  have feeds := start.feeds
  induction reached with
  | first runs =>
      obtain ⟨_, rfl⟩ := runs.unique
        (Yields.bind (Yields.modify _ opened) (Yields.pure _ _))
      exact start.coherent.register start.base
  | called _ live runs inductionHypothesis =>
      rcases answer_yields feeds inductionHypothesis live _ with
        ⟨given, after, answers, _, kept⟩
      obtain ⟨same, rfl⟩ := runs.unique answers
      cases same
      exact kept
  | failed _ live runs inductionHypothesis =>
      rcases answer_yields feeds inductionHypothesis live _ with
        ⟨given, after, answers, _, _⟩
      cases (runs.unique answers).1
  | @cloned views world later view clone _ live runs inductionHypothesis =>
      have clones : Yields view.clone world (.ok view) _ :=
        Yields.bind (Yields.modify _ world) (Yields.pure _ _)
      obtain ⟨same, rfl⟩ := runs.unique clones
      cases same
      exact inductionHypothesis.register (inductionHypothesis.low _ live)
  | dropped reached live inductionHypothesis =>
      exact inductionHypothesis.unregister _

/--
In every state that is reached the base is at or below the start of every live
view, every call through a live view answers as the source does from its start
on, the driver has been called once for each value that was given and once for
the end, and a drop leaves nothing in the buffer that no view needs.  A visit
ends when its turns reach its limit or the end of the source.
-/
theorem views_read_the_source
    (lists : ListObjects Value σ)
    (source : Sequence Value)
    (ready : Nat → IterDriver Value → σ → Prop)
    (opened world : World Value σ)
    (views : List Nat)
    (start : Opened lists source ready opened)
    (reached : Reached lists opened views world) :
    Coherent source ready views world ∧
      (∀ view : LazyIterList, view.start ∈ views → ∀ call,
        ∃ (given : Answer Value LazyIterList) (later : World Value σ),
          Yields ((LazyIterList.object lists).answer view call) world
              (.ok given) later ∧
            given.map (fun rest => source.drop rest.start) =
              (source.drop view.start).answer call) ∧
      (∀ view : LazyIterList, view.start ∈ views →
        Reclaimed (views.erase view.start) (view.dropped world).iter) ∧
      ∀ start turns limit,
        limit.any (· ≤ turns) = true ∨ source.drop start turns = none →
          ((source.drop start).visits limit turns 0).2 = .finished := by
  have coherent := reached.coherent start
  refine ⟨coherent, fun view live call => ?_, fun view _ => ?_,
    fun start turns limit enough => ?_⟩
  · rcases answer_yields start.feeds coherent live call with
      ⟨given, later, runs, told, _⟩
    exact ⟨given, later, runs, told⟩
  · exact coherent.reclaimed view.start
  · apply visits_finished
    rw [Nat.zero_add]
    exact enough

section Sample

/-- No value is a list. -/
def plainValues : ListObjects Nat Unit where
  isList _ := false
  isEmpty _ := throw (refused "not a list")
  car _ := throw (refused "not a list")
  cdr _ := throw (refused "not a list")
  release _ state := state

/-- An iterator of two values. -/
def sampleItems (index : Nat) : Option (Except Error Nat) :=
  [10, 20][index]?.map .ok

theorem sampleItems_noErrors
    (index : Nat) (error : Error) :
    sampleItems index ≠ some (.error error) := by
  simp [sampleItems]

/-- The first value has been given and dropped with its view. -/
def sampleWorld : World Nat Unit where
  iter := {
    driver := .iter sampleItems 1
    buffer := []
    base := 1
    live := [1]
    done := false }
  lists := ()

theorem sample_reached :
    Reached plainValues { iter := .new sampleItems, lists := () } [1]
      sampleWorld := by
  have first : Reached plainValues { iter := .new sampleItems, lists := () } [0]
      { iter := (IterState.new sampleItems).register 0, lists := () } :=
    .first rfl
  have called : Reached plainValues { iter := .new sampleItems, lists := () }
      [1, 0]
      { iter := {
          driver := .iter sampleItems 1
          buffer := [10]
          base := 0
          live := [1, 0]
          done := false }
        lists := () } :=
    @Reached.called _ _ _ _ _ _ _ ⟨0⟩ .cdr (.rest (some ⟨1⟩)) first
      List.mem_cons_self rfl
  exact @Reached.dropped _ _ _ _ _ _ ⟨0⟩ called (by decide)

end Sample

theorem sample_views_read_the_source :
    Coherent (ofItems sampleItems)
        (fun index driver (_ : Unit) => driver = .iter sampleItems index) [1]
        sampleWorld ∧
      (∀ view : LazyIterList, view.start ∈ [1] → ∀ call,
        ∃ (given : Answer Nat LazyIterList) (later : World Nat Unit),
          Yields ((LazyIterList.object plainValues).answer view call)
              sampleWorld (.ok given) later ∧
            given.map (fun rest => (ofItems sampleItems).drop rest.start) =
              ((ofItems sampleItems).drop view.start).answer call) ∧
      (∀ view : LazyIterList, view.start ∈ [1] →
        Reclaimed ([1].erase view.start) (view.dropped sampleWorld).iter) ∧
      ∀ start turns limit,
        limit.any (· ≤ turns) = true ∨
            (ofItems sampleItems).drop start turns = none →
          (((ofItems sampleItems).drop start).visits limit turns 0).2 =
            .finished :=
  views_read_the_source plainValues _ _ _ sampleWorld [1]
    (.new sampleItems_noErrors) sample_reached

example :
    (LazyIterList.object plainValues).answer ⟨1⟩ (.lenCmp 1) sampleWorld =
      .ok (.order .eq) {
        iter := {
          driver := .iter sampleItems 3
          buffer := [20]
          base := 1
          live := [1]
          done := true }
        lists := () } :=
  rfl

end SimStorage.Lists
