import SimStorage.Interaction.Outcome

namespace SimStorage.Interaction

/-!
# Computations side by side

`Mirrors` says that a second computation repeats a first one: from two given
states both fail alike, or both return values that belong together, and they
leave states that belong together.
-/

variable {ε σ τ α β γ δ : Type}

/-- The same error, or values that belong together. -/
def Matches (same : α → β → Prop) : Except ε α → Except ε β → Prop
  | .ok value, .ok other => same value other
  | .error error, .error other => error = other
  | _, _ => False

theorem Matches.weaken
    {same weaker : α → β → Prop}
    {outcome : Except ε α} {result : Except ε β}
    (outcomes : Matches same outcome result)
    (weaken : ∀ value other, same value other → weaker value other) :
    Matches weaker outcome result := by
  cases outcome <;> cases result
  · exact outcomes
  · exact outcomes
  · exact outcomes
  · exact weaken _ _ outcomes

/-- From two states, the second computation repeats the first. -/
def Mirrors (related : σ → τ → Prop) (same : α → β → Prop)
    (first : EStateM ε σ α) (second : EStateM ε τ β) (state : σ) (other : τ) :
    Prop :=
  ∀ outcome after, Yields first state outcome after →
    ∃ result later, Yields second other result later ∧
      related after later ∧ Matches same outcome result

namespace Mirrors

variable {related : σ → τ → Prop} {same : α → β → Prop}
variable {alike : γ → δ → Prop}
variable {state : σ} {other : τ}

theorem pure
    {value : α} {result : β}
    (states : related state other)
    (values : same value result) :
    Mirrors related same (pure value : EStateM ε σ α)
      (pure result : EStateM ε τ β) state other := by
  intro outcome after yields
  obtain ⟨rfl, rfl⟩ := yields.unique (.pure value state)
  exact ⟨.ok result, other, .pure result other, states, values⟩

theorem throw
    {error : ε}
    (states : related state other) :
    Mirrors related same (throw error : EStateM ε σ α)
      (throw error : EStateM ε τ β) state other := by
  intro outcome after yields
  obtain ⟨rfl, rfl⟩ := yields.unique (.throw error state)
  exact ⟨.error error, other, .throw error other, states, rfl⟩

theorem ofExcept
    {outcome : Except ε α} {result : Except ε β}
    (states : related state other)
    (outcomes : Matches same outcome result) :
    Mirrors related same (MonadExcept.ofExcept outcome : EStateM ε σ α)
      (MonadExcept.ofExcept result : EStateM ε τ β) state other := by
  intro found after yields
  obtain ⟨rfl, rfl⟩ := yields.ofExcept_inv
  exact ⟨result, other, .ofExcept result other, states, outcomes⟩

theorem modify
    {change : σ → σ} {alter : τ → τ}
    (states : related (change state) (alter other)) :
    Mirrors related (fun _ _ => True)
      (modify change : EStateM ε σ PUnit) (modify alter : EStateM ε τ PUnit)
      state other := by
  intro outcome after yields
  obtain ⟨rfl, rfl⟩ := yields.unique (.modify change state)
  exact ⟨.ok (), alter other, .modify alter other, states, trivial⟩

/-- Computations on the states that they have just read. -/
theorem reading
    {next : σ → EStateM ε σ α} {follow : τ → EStateM ε τ β}
    (rest : Mirrors related same (next state) (follow other) state other) :
    Mirrors related same (MonadState.get >>= next)
      (MonadState.get >>= follow) state other := by
  intro outcome after yields
  obtain ⟨result, later, repeats, ends⟩ :=
    rest outcome after ((Yields.get state).rest yields)
  exact ⟨result, later, (Yields.get other).bind repeats, ends⟩

theorem bind
    {first : EStateM ε σ α} {second : EStateM ε τ β}
    {next : α → EStateM ε σ γ} {follow : β → EStateM ε τ δ}
    (heads : Mirrors related same first second state other)
    (tails : ∀ value result after later, same value result →
      related after later →
      Mirrors related alike (next value) (follow result) after later) :
    Mirrors related alike (first >>= next) (second >>= follow) state other := by
  intro outcome after yields
  rcases yields.bind_inv with ⟨value, reached, head, tail⟩ | ⟨error, failed, rfl⟩
  · obtain ⟨result, later, repeats, states, values⟩ := heads _ _ head
    cases result with
    | error _ => exact values.elim
    | ok result =>
        obtain ⟨last, ended, follows, ends⟩ :=
          tails value result _ _ values states _ _ tail
        exact ⟨last, ended, repeats.bind follows, ends⟩
  · obtain ⟨result, later, repeats, states, values⟩ := heads _ _ failed
    cases result with
    | ok _ => exact values.elim
    | error _ =>
        exact ⟨_, later, repeats.bindError, states, values⟩

end Mirrors

end SimStorage.Interaction
