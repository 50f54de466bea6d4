import SimStorage.Interaction.Outcome

namespace SimStorage.Interaction

/-!
# Parties that do not interfere

`Twins` compares the runs of computations from two states.  A machine answers
the actions of several parties one after another.  When a party cannot see what
the others do, its answers are those of the run from which the others' actions
are left out.
-/

section Equal

variable {ε σ α β : Type}
variable {first second : EStateM ε σ α} {state : σ}

/-- Sequences run the same when their parts do, in the states they come to. -/
theorem bind_eq_bind
    {next other : α → EStateM ε σ β}
    (same : first state = second state)
    (rest : ∀ value middle, Yields first state (.ok value) middle →
      next value middle = other value middle) :
    (first >>= next) state = (second >>= other) state := by
  cases runs : first state with
  | ok value middle =>
      have yields : Yields first state (.ok value) middle := runs
      have again : Yields second state (.ok value) middle :=
        same.symm.trans runs
      rw [yields.bind_eq, again.bind_eq, rest value middle yields]
  | error error middle =>
      have yields : Yields first state (.error error) middle := runs
      have again : Yields second state (.error error) middle :=
        same.symm.trans runs
      exact (Yields.bindError yields).trans (Yields.bindError again).symm

/-- The bodies matter for the listed items only. -/
theorem mapM_congr_of_mem
    {items : List β} {body other : β → EStateM ε σ α}
    (same : ∀ item ∈ items, body item = other item) :
    items.mapM body = items.mapM other := by
  induction items with
  | nil => rfl
  | cons item rest inductionHypothesis =>
      rw [List.mapM_cons, List.mapM_cons, same item List.mem_cons_self,
        inductionHypothesis fun later inside =>
          same later (List.mem_cons_of_mem _ inside)]

/-- The bodies matter for the listed items only. -/
theorem forM_congr_of_mem
    {items : List β} {body other : β → EStateM ε σ PUnit}
    (same : ∀ item ∈ items, body item = other item) :
    items.forM body = items.forM other := by
  induction items with
  | nil => rfl
  | cons item rest inductionHypothesis =>
      change (body item >>= fun _ => rest.forM body) =
        other item >>= fun _ => rest.forM other
      rw [same item List.mem_cons_self,
        inductionHypothesis fun later inside =>
          same later (List.mem_cons_of_mem _ inside)]

end Equal

section Twins

variable {ε σ α β : Type}
variable {related : σ → σ → Prop}
variable {first second : EStateM ε σ α} {state mirror : σ}

/-- The same outcome from two states, and related states afterwards. -/
def Twins (related : σ → σ → Prop) (first : EStateM ε σ α) (state : σ)
    (second : EStateM ε σ α) (mirror : σ) : Prop :=
  ∃ outcome after later, Yields first state outcome after ∧
    Yields second mirror outcome later ∧ related after later

namespace Twins

theorem pure
    (value : α)
    (here : related state mirror) :
    Twins related (pure value : EStateM ε σ α) state (pure value) mirror :=
  ⟨_, _, _, .pure value state, .pure value mirror, here⟩

theorem ofExcept
    (outcome : Except ε α)
    (here : related state mirror) :
    Twins related (MonadExcept.ofExcept outcome : EStateM ε σ α) state
      (MonadExcept.ofExcept outcome) mirror :=
  ⟨_, _, _, .ofExcept outcome state, .ofExcept outcome mirror, here⟩

theorem modify
    {change : σ → σ}
    (here : related (change state) (change mirror)) :
    Twins related (modify change : EStateM ε σ PUnit) state (modify change)
      mirror :=
  ⟨_, _, _, .modify change state, .modify change mirror, here⟩

theorem set
    {after later : σ}
    (here : related after later) :
    Twins related (MonadStateOf.set after : EStateM ε σ PUnit) state
      (MonadStateOf.set later) mirror :=
  ⟨_, _, _, .set after state, .set later mirror, here⟩

theorem bind
    {next other : α → EStateM ε σ β}
    (twins : Twins related first state second mirror)
    (rest : ∀ value after later, related after later →
      Twins related (next value) after (other value) later) :
    Twins related (first >>= next) state (second >>= other) mirror := by
  obtain ⟨outcome, after, later, runs, again, here⟩ := twins
  cases outcome with
  | error error =>
      exact ⟨_, _, _, runs.bindError, again.bindError, here⟩
  | ok value =>
      obtain ⟨final, _, _, onward, too, there⟩ := rest value after later here
      exact ⟨final, _, _, runs.bind onward, again.bind too, there⟩

/-- Computations on the states that they have just read. -/
theorem reading
    {next other : σ → EStateM ε σ β}
    (rest : Twins related (next state) state (other mirror) mirror) :
    Twins related (MonadState.get >>= next) state (MonadState.get >>= other)
      mirror := by
  obtain ⟨outcome, after, later, runs, again, here⟩ := rest
  exact ⟨outcome, after, later, (Yields.get state).bind runs,
    (Yields.get mirror).bind again, here⟩

/-- What two runs are known to yield. -/
theorem of_yields
    {outcome : Except ε α} {after later : σ}
    (runs : Yields first state outcome after)
    (again : Yields second mirror outcome later)
    (here : related after later) :
    Twins related first state second mirror :=
  ⟨outcome, after, later, runs, again, here⟩

end Twins

end Twins

section Unwinding

variable {σ Action Reply : Type}

/-- The answers of a run, and the state after it. -/
def answers
    (machine : σ → Action → Reply × σ) :
    σ → List Action → List (Action × Reply) × σ
  | state, [] => ([], state)
  | state, action :: rest =>
      let (reply, middle) := machine state action
      let (log, final) := answers machine middle rest
      ((action, reply) :: log, final)

/--
What a party sees of a state is kept by the actions of the others, and decides
the answers to its own actions and what it sees afterwards.
-/
structure Unwinds
    (machine : σ → Action → Reply × σ)
    (own : Action → Bool)
    (looks : σ → σ → Prop)
    (alike : Action → Reply → Reply → Prop) : Prop where
  ignores : ∀ state mirror action, own action = false → looks state mirror →
    looks (machine state action).2 mirror
  agrees : ∀ state mirror action, own action = true → looks state mirror →
    alike action (machine state action).1 (machine mirror action).1 ∧
      looks (machine state action).2 (machine mirror action).2

/-- The answers to a party are those of the run of its own actions. -/
theorem Unwinds.purged
    {machine : σ → Action → Reply × σ} {own : Action → Bool}
    {looks : σ → σ → Prop} {alike : Action → Reply → Reply → Prop}
    (unwinds : Unwinds machine own looks alike)
    (actions : List Action) :
    ∀ state mirror, looks state mirror →
      List.Forall₂
          (fun first second =>
            first.1 = second.1 ∧ alike first.1 first.2 second.2)
          ((answers machine state actions).1.filter fun entry => own entry.1)
          (answers machine mirror (actions.filter own)).1 ∧
        looks (answers machine state actions).2
          (answers machine mirror (actions.filter own)).2 := by
  induction actions with
  | nil => exact fun _ _ here => ⟨.nil, here⟩
  | cons action rest inductionHypothesis =>
      intro state mirror here
      cases mine : own action with
      | false =>
          have later := inductionHypothesis _ _
            (unwinds.ignores state mirror action mine here)
          simp only [answers, List.filter_cons, mine, Bool.false_eq_true,
            if_false]
          exact later
      | true =>
          obtain ⟨same, onward⟩ := unwinds.agrees state mirror action mine here
          obtain ⟨replies, final⟩ := inductionHypothesis _ _ onward
          simp only [answers, List.filter_cons, mine, if_true]
          exact ⟨.cons ⟨rfl, same⟩ replies, final⟩

end Unwinding

end SimStorage.Interaction
