import Mathlib.Data.List.Perm.Basic
import SimStorage.Interaction.Program

namespace SimStorage.Interaction

/-!
# Outcomes of computations that fail but keep their state

`Yields` says what a computation returns or throws from a state, and the state
that it leaves.  The rules follow the computation; every computation yields
exactly one outcome.
-/

variable {ε σ α β : Type}

/-- A result is returned whatever its errors are told as. -/
theorem mapError_eq_ok
    {δ : Type} {result : Except ε α} {change : ε → δ} {value : α}
    (passes : result.mapError change = .ok value) :
    result = .ok value := by
  cases result with
  | ok found =>
      cases passes
      rfl
  | error error => cases passes

/-- An outcome and the state it leaves, as a result. -/
def settle (state : σ) : Except ε α → EStateM.Result ε σ α
  | .ok value => .ok value state
  | .error error => .error error state

/-- The computation has the outcome and leaves the state. -/
def Yields (computation : EStateM ε σ α) (state : σ) (outcome : Except ε α)
    (after : σ) : Prop :=
  computation state = settle after outcome

namespace Yields

variable {computation : EStateM ε σ α} {next : α → EStateM ε σ β}
variable {state middle after : σ}
variable {outcome : Except ε α} {final : Except ε β}

theorem pure
    (value : α) (state : σ) :
    Yields (pure value : EStateM ε σ α) state (.ok value) state :=
  rfl

theorem throw
    (error : ε) (state : σ) :
    Yields (throw error : EStateM ε σ α) state (.error error) state :=
  rfl

theorem ofExcept
    (outcome : Except ε α) (state : σ) :
    Yields (MonadExcept.ofExcept outcome : EStateM ε σ α) state outcome
      state := by
  cases outcome <;> rfl

theorem of_ok
    {value : α}
    (passes : outcome = .ok value) (state : σ) :
    Yields (MonadExcept.ofExcept outcome : EStateM ε σ α) state (.ok value)
      state := by
  subst passes
  rfl

theorem of_error
    {error : ε}
    (fails : outcome = .error error) (state : σ) :
    Yields (MonadExcept.ofExcept outcome : EStateM ε σ α) state (.error error)
      state := by
  subst fails
  rfl

theorem get
    (state : σ) :
    Yields (MonadState.get : EStateM ε σ σ) state (.ok state) state :=
  rfl

theorem set
    (later state : σ) :
    Yields (MonadStateOf.set later : EStateM ε σ PUnit) state (.ok ()) later :=
  rfl

theorem modify
    (change : σ → σ) (state : σ) :
    Yields (modify change : EStateM ε σ PUnit) state (.ok ())
      (change state) :=
  rfl

theorem bind
    {value : α}
    (first : Yields computation state (.ok value) middle)
    (rest : Yields (next value) middle final after) :
    Yields (computation >>= next) state final after := by
  rw [Yields] at first rest ⊢
  simp only [Bind.bind, EStateM.bind, first, settle, rest]

/-- After a first part that is known, a sequence runs the rest. -/
theorem bind_eq
    {value : α}
    (first : Yields computation state (.ok value) middle) :
    (computation >>= next) state = next value middle := by
  rw [Yields] at first
  simp only [Bind.bind, EStateM.bind, first, settle]

theorem bindError
    {error : ε}
    (first : Yields computation state (.error error) middle) :
    Yields (computation >>= next) state (.error error) middle := by
  rw [Yields] at first ⊢
  simp only [Bind.bind, EStateM.bind, first, settle]

theorem map
    {value : α}
    (yields : Yields computation state (.ok value) after)
    (change : α → β) :
    Yields (change <$> computation) state (.ok (change value)) after := by
  rw [Yields] at yields ⊢
  simp only [Functor.map, EStateM.map, yields, settle]

theorem mapError
    {error : ε}
    (yields : Yields computation state (.error error) after)
    (change : α → β) :
    Yields (change <$> computation) state (.error error) after := by
  rw [Yields] at yields ⊢
  simp only [Functor.map, EStateM.map, yields, settle]

/-- What a mapped computation returns comes from what it maps. -/
theorem map_ok
    {change : α → β} {found : β}
    (yields : Yields (change <$> computation) state (.ok found) after) :
    ∃ value, Yields computation state (.ok value) after ∧
      change value = found := by
  cases result : computation state with
  | ok value later =>
      simp only [Yields, Functor.map, EStateM.map, result, settle] at yields
      cases yields
      exact ⟨value, result, rfl⟩
  | error error later =>
      simp only [Yields, Functor.map, EStateM.map, result, settle] at yields
      cases yields

/-- Every computation yields something. -/
theorem total
    (computation : EStateM ε σ α) (state : σ) :
    ∃ outcome after, Yields computation state outcome after := by
  cases result : computation state with
  | ok value after => exact ⟨.ok value, after, result⟩
  | error error after => exact ⟨.error error, after, result⟩

/-- A computation yields one thing only. -/
theorem unique
    {other : Except ε α} {later : σ}
    (first : Yields computation state outcome after)
    (second : Yields computation state other later) :
    outcome = other ∧ after = later := by
  have same : settle after outcome = settle later other :=
    first.symm.trans second
  cases outcome <;> cases other <;> simp_all [settle]

/-- What follows a first part that is known. -/
theorem rest
    {value : α}
    (first : Yields computation state (.ok value) middle)
    (whole : Yields (computation >>= next) state final after) :
    Yields (next value) middle final after := by
  obtain ⟨other, last, second⟩ := total (next value) middle
  obtain ⟨rfl, rfl⟩ := (first.bind second).unique whole
  exact second

/-- After a pure computation, the state is the same. -/
theorem ofExcept_inv
    {found : Except ε α}
    (yields : Yields (MonadExcept.ofExcept outcome : EStateM ε σ α) state found
      after) :
    found = outcome ∧ after = state := by
  obtain ⟨rfl, rfl⟩ := (Yields.ofExcept outcome state).unique yields
  exact ⟨rfl, rfl⟩

/-- What a sequence yields comes from its parts. -/
theorem bind_inv
    (whole : Yields (computation >>= next) state final after) :
    (∃ value middle, Yields computation state (.ok value) middle ∧
        Yields (next value) middle final after) ∨
      ∃ error, Yields computation state (.error error) after ∧
        final = .error error := by
  obtain ⟨outcome, middle, first⟩ := total computation state
  cases outcome with
  | ok value =>
      obtain ⟨rest, last, second⟩ := total (next value) middle
      obtain ⟨rfl, rfl⟩ := (first.bind second).unique whole
      exact .inl ⟨value, middle, first, second⟩
  | error error =>
      obtain ⟨rfl, rfl⟩ :=
        (first.bindError : Yields (computation >>= next) _ _ _).unique whole
      exact .inr ⟨error, first, rfl⟩

/-- A sequence that returns runs both of its parts. -/
theorem bind_ok
    {value : β}
    (whole : Yields (computation >>= next) state (.ok value) after) :
    ∃ found middle, Yields computation state (.ok found) middle ∧
      Yields (next found) middle (.ok value) after := by
  rcases bind_inv whole with parts | ⟨error, _, impossible⟩
  · exact parts
  · cases impossible

end Yields

section Callbacks

variable {Request : Type} {Reply : Request → Type} {δ : Type}

/-- The outcome of a computation as a value. -/
def observe (computation : EStateM ε σ α) : EStateM δ σ (Except ε α) :=
  fun state =>
    match computation state with
    | .ok value after => .ok (.ok value) after
    | .error error after => .ok (.error error) after

/-- Run a program with a computation that answers its requests. -/
def Program.interpret
    (answer : (request : Request) → EStateM δ σ (Reply request)) :
    Program Request Reply ε α → EStateM δ σ (Except ε α)
  | .ret value => return .ok value
  | .fail error => return .error error
  | .call request next => do
      let reply ← answer request
      (next reply).interpret answer

theorem Yields.observe
    {computation : EStateM ε σ α} {state after : σ} {outcome : Except ε α}
    (yields : Yields computation state outcome after) :
    Yields (Interaction.observe computation : EStateM δ σ _) state (.ok outcome)
      after := by
  rw [Yields] at yields ⊢
  simp only [Interaction.observe, yields]
  cases outcome <;> rfl

end Callbacks

section Changes

variable {δ : Type} {change : σ → σ → Prop}
variable {computation : EStateM ε σ α} {next : α → EStateM ε σ β}

/-- Whatever the outcome, the state changes only as the relation allows. -/
def Within (change : σ → σ → Prop) (computation : EStateM ε σ α) : Prop :=
  ∀ state outcome after, Yields computation state outcome after →
    change state after

namespace Within

variable (refl : ∀ state, change state state)
variable (trans : ∀ first middle last,
  change first middle → change middle last → change first last)

include refl in
theorem pure
    (value : α) :
    Within change (pure value : EStateM ε σ α) := by
  intro state outcome after yields
  obtain ⟨_, rfl⟩ := (Yields.pure value state).unique yields
  exact refl _

include refl in
theorem throw
    (error : ε) :
    Within change (throw error : EStateM ε σ α) := by
  intro state outcome after yields
  obtain ⟨_, rfl⟩ := (Yields.throw error state).unique yields
  exact refl _

include refl in
theorem ofExcept
    (found : Except ε α) :
    Within change (MonadExcept.ofExcept found : EStateM ε σ α) := by
  intro state outcome after yields
  obtain ⟨_, rfl⟩ := yields.ofExcept_inv
  exact refl _

include refl in
theorem get :
    Within change (MonadState.get : EStateM ε σ σ) := by
  intro state outcome after yields
  obtain ⟨_, rfl⟩ := (Yields.get state).unique yields
  exact refl _

theorem modify
    {step : σ → σ}
    (allowed : ∀ state, change state (step state)) :
    Within change (modify step : EStateM ε σ PUnit) := by
  intro state outcome after yields
  obtain ⟨_, rfl⟩ := (Yields.modify step state).unique yields
  exact allowed _

include trans in
theorem bind
    (first : Within change computation)
    (rest : ∀ value, Within change (next value)) :
    Within change (computation >>= next) := by
  intro state outcome after whole
  rcases whole.bind_inv with ⟨value, middle, head, tail⟩ | ⟨error, failed, _⟩
  · exact trans _ _ _ (first _ _ _ head) (rest value _ _ _ tail)
  · exact first _ _ _ failed

/-- A computation on the state that it has just read. -/
theorem reading
    {next : σ → EStateM ε σ β}
    (rest : ∀ state outcome after, Yields (next state) state outcome after →
      change state after) :
    Within change (MonadState.get >>= next) := by
  intro state outcome after whole
  exact rest state outcome after ((Yields.get state).rest whole)

theorem observe
    (within : Within change computation) :
    Within change (Interaction.observe computation : EStateM δ σ _) := by
  intro state outcome after yields
  obtain ⟨found, last, runs⟩ := Yields.total computation state
  obtain ⟨_, rfl⟩ := runs.observe.unique yields
  exact within _ _ _ runs

include refl trans in
/-- A program changes only what its answers change. -/
theorem interpret
    {Request : Type} {Reply : Request → Type}
    {answer : (request : Request) → EStateM δ σ (Reply request)}
    (answers : ∀ request, Within change (answer request))
    (program : Program Request Reply ε α) :
    Within change (program.interpret answer) := by
  induction program with
  | ret value => exact pure refl _
  | fail error => exact pure refl _
  | call request continuation inductionHypothesis =>
      exact bind trans (answers request) inductionHypothesis

end Within

end Changes

section Reading

variable {computation : EStateM ε σ α} {next : α → EStateM ε σ β}
variable {state : σ} {fact : α → Prop} {goal : β → Prop}

/-- The computation leaves the state, and returns only what is so there. -/
def Reads (computation : EStateM ε σ α) (state : σ) (fact : α → Prop) : Prop :=
  ∀ outcome after, Yields computation state outcome after →
    after = state ∧ ∀ value, outcome = .ok value → fact value

namespace Reads

theorem of_yields
    {outcome : Except ε α}
    (yields : Yields computation state outcome state)
    (so : ∀ value, outcome = .ok value → fact value) :
    Reads computation state fact := by
  intro found after runs
  obtain ⟨rfl, rfl⟩ := yields.unique runs
  exact ⟨rfl, so⟩

theorem pure
    {value : α}
    (so : fact value) :
    Reads (pure value : EStateM ε σ α) state fact :=
  of_yields (.pure value state) fun _ same => Except.ok.inj same ▸ so

theorem throw
    (error : ε) :
    Reads (throw error : EStateM ε σ α) state fact :=
  of_yields (.throw error state) fun _ impossible => by cases impossible

theorem ofExcept
    {outcome : Except ε α}
    (so : ∀ value, outcome = .ok value → fact value) :
    Reads (MonadExcept.ofExcept outcome : EStateM ε σ α) state fact :=
  of_yields (.ofExcept outcome state) so

theorem bind
    (first : Reads computation state fact)
    (rest : ∀ value, fact value → Reads (next value) state goal) :
    Reads (computation >>= next) state goal := by
  intro outcome after whole
  rcases whole.bind_inv with ⟨value, middle, head, tail⟩ | ⟨error, failed, rfl⟩
  · obtain ⟨rfl, so⟩ := first _ _ head
    exact rest value (so value rfl) _ _ tail
  · obtain ⟨rfl, _⟩ := first _ _ failed
    exact ⟨rfl, fun _ impossible => by cases impossible⟩

/-- A computation on the state that it has just read. -/
theorem reading
    {next : σ → EStateM ε σ β}
    (rest : Reads (next state) state goal) :
    Reads (MonadState.get >>= next) state goal := by
  intro outcome after whole
  exact rest outcome after ((Yields.get state).rest whole)

theorem imp
    {other : α → Prop}
    (reads : Reads computation state fact)
    (follows : ∀ value, fact value → other value) :
    Reads computation state other := by
  intro outcome after yields
  obtain ⟨same, so⟩ := reads outcome after yields
  exact ⟨same, fun value returned => follows value (so value returned)⟩

/-- What leaves every state changes it as any reflexive relation allows. -/
theorem within
    {change : σ → σ → Prop}
    (refl : ∀ state, change state state)
    (reads : ∀ state, Reads computation state fun _ => True) :
    Within change computation := by
  intro state outcome after yields
  obtain ⟨rfl, _⟩ := reads state outcome after yields
  exact refl _

end Reads

end Reading

section Lists

variable {body : α → EStateM ε σ β}
variable {state : σ} {items : List α} {values : List β}

/-- Every item of the second list is related to one of the first. -/
theorem exists_of_forall₂
    {γ : Type} {related : α → γ → Prop} {items : List α} {others : List γ}
    (pairs : List.Forall₂ related items others)
    {other : γ}
    (member : other ∈ others) :
    ∃ item ∈ items, related item other := by
  induction pairs with
  | nil => exact absurd member List.not_mem_nil
  | cons head _ inductionHypothesis =>
      rcases List.mem_cons.mp member with rfl | inRest
      · exact ⟨_, List.mem_cons_self, head⟩
      · obtain ⟨item, isItem, holds⟩ := inductionHypothesis inRest
        exact ⟨item, List.mem_cons_of_mem _ isItem, holds⟩

/-- Items that each have a related value have a list of them. -/
theorem exists_forall₂
    {γ : Type} {related : α → γ → Prop} {items : List α}
    (each : ∀ item ∈ items, ∃ other, related item other) :
    ∃ others, List.Forall₂ related items others := by
  induction items with
  | nil => exact ⟨[], .nil⟩
  | cons head rest inductionHypothesis =>
      obtain ⟨other, first⟩ := each head List.mem_cons_self
      obtain ⟨others, later⟩ := inductionHypothesis
        fun item member => each item (List.mem_cons_of_mem _ member)
      exact ⟨other :: others, .cons first later⟩

/-- A function that undoes the relation gives the first list back. -/
theorem map_of_forall₂
    {γ : Type} {related : α → γ → Prop} {items : List α} {others : List γ}
    {undo : γ → α}
    (pairs : List.Forall₂ related items others)
    (undone : ∀ item other, related item other → undo other = item) :
    others.map undo = items := by
  induction pairs with
  | nil => rfl
  | cons head _ inductionHypothesis =>
      rw [List.map_cons, inductionHypothesis, undone _ _ head]

/-- Reading all items, when each read leaves the state. -/
theorem Yields.mapM
    (each : List.Forall₂
      (fun item value => Yields (body item) state (.ok value) state)
      items values) :
    Yields (items.mapM body) state (.ok values) state := by
  induction each with
  | nil => exact .pure [] state
  | cons head _ inductionHypothesis =>
      rw [List.mapM_cons]
      exact head.bind (inductionHypothesis.bind (.pure _ state))

/-- Reading fails at the first item whose read fails. -/
theorem Yields.mapM_error
    (each : ∀ item ∈ items, ∃ outcome, Yields (body item) state outcome state)
    {item : α} {error : ε}
    (member : item ∈ items)
    (fails : Yields (body item) state (.error error) state) :
    ∃ error, Yields (items.mapM body) state (.error error) state := by
  induction items with
  | nil => exact absurd member List.not_mem_nil
  | cons head rest inductionHypothesis =>
      rw [List.mapM_cons]
      obtain ⟨outcome, first⟩ := each head List.mem_cons_self
      cases outcome with
      | error error => exact ⟨error, first.bindError⟩
      | ok value =>
          have later : item ∈ rest := by
            rcases List.mem_cons.mp member with rfl | later
            · cases (first.unique fails).1
            · exact later
          obtain ⟨error, failed⟩ := inductionHypothesis
            (fun found inRest => each found (List.mem_cons_of_mem _ inRest))
            later
          exact ⟨error, first.bind failed.bindError⟩

/-- What was read comes from the items, when each read leaves the state. -/
theorem Yields.mapM_inv
    {after : σ}
    (each : ∀ item ∈ items, ∃ outcome, Yields (body item) state outcome state)
    (whole : Yields (items.mapM body) state (.ok values) after) :
    List.Forall₂ (fun item value => Yields (body item) state (.ok value) state)
      items values := by
  induction items generalizing values with
  | nil =>
      obtain ⟨same, _⟩ := (Yields.pure [] state).unique whole
      cases same
      exact .nil
  | cons head rest inductionHypothesis =>
      rw [List.mapM_cons] at whole
      obtain ⟨value, middle, first, whole⟩ := whole.bind_ok
      obtain ⟨outcome, alone⟩ := each head List.mem_cons_self
      obtain ⟨rfl, rfl⟩ := alone.unique first
      obtain ⟨later, last, others, done⟩ := whole.bind_ok
      obtain ⟨same, rfl⟩ := (Yields.pure _ _).unique done
      cases same
      exact .cons first (inductionHypothesis
        (fun found inRest => each found (List.mem_cons_of_mem _ inRest)) others)

end Lists

end SimStorage.Interaction
