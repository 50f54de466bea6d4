import SimStorage.Interaction.Outcome

namespace SimStorage.Interaction

/-!
# Evaluating computations that keep their state

The steps of a computation, applied to a state, in the form in which the
simplifier runs them.
-/

variable {ε σ α β : Type}

@[simp] theorem bind_apply
    (computation : EStateM ε σ α) (next : α → EStateM ε σ β) (state : σ) :
    (computation >>= next) state =
      match computation state with
      | .ok value after => next value after
      | .error error after => .error error after :=
  rfl

@[simp] theorem map_apply
    (change : α → β) (computation : EStateM ε σ α) (state : σ) :
    (change <$> computation) state =
      match computation state with
      | .ok value after => .ok (change value) after
      | .error error after => .error error after :=
  rfl

@[simp] theorem pure_apply
    (value : α) (state : σ) :
    (pure value : EStateM ε σ α) state = .ok value state :=
  rfl

@[simp] theorem throw_apply
    (error : ε) (state : σ) :
    (throw error : EStateM ε σ α) state = .error error state :=
  rfl

@[simp] theorem get_apply
    (state : σ) :
    (MonadState.get : EStateM ε σ σ) state = .ok state state :=
  rfl

@[simp] theorem set_apply
    (later state : σ) :
    (MonadState.set later : EStateM ε σ PUnit) state = .ok () later :=
  rfl

@[simp] theorem ofExcept_ok_apply
    (value : α) (state : σ) :
    (MonadExcept.ofExcept (.ok value : Except ε α) : EStateM ε σ α) state =
      .ok value state :=
  rfl

@[simp] theorem ofExcept_error_apply
    (error : ε) (state : σ) :
    (MonadExcept.ofExcept (.error error : Except ε α) : EStateM ε σ α) state =
      .error error state :=
  rfl

theorem discard_apply
    (computation : EStateM ε σ α) (state : σ) :
    discard computation state =
      match computation state with
      | .ok _ after => .ok ⟨⟩ after
      | .error error after => .error error after :=
  rfl

/-- A computation of which the result is not used has run, with its outcome. -/
theorem Yields.discard_inv
    {computation : EStateM ε σ α} {state after : σ}
    {outcome : Except ε PUnit}
    (yields : Yields (discard computation) state outcome after) :
    ∃ found, Yields computation state found after ∧
      outcome = found.map fun _ => ⟨⟩ := by
  rw [Yields, discard_apply] at yields
  cases ran : computation state with
  | ok value last =>
      rw [ran] at yields
      cases outcome <;> cases yields
      exact ⟨.ok value, ran, rfl⟩
  | error error last =>
      rw [ran] at yields
      cases outcome <;> cases yields
      exact ⟨.error error, ran, rfl⟩

theorem Yields.of_discard
    {computation : EStateM ε σ α} {state after : σ}
    {outcome : Except ε PUnit}
    (yields : Yields (discard computation) state outcome after) :
    ∃ found, Yields computation state found after := by
  rcases yields.discard_inv with ⟨found, ran, _⟩
  exact ⟨found, ran⟩

/-- A failure is not discarded. -/
theorem Yields.discard_error
    {computation : EStateM ε σ α} {state after : σ} {error : ε}
    (yields : Yields computation state (.error error) after) :
    Yields (discard computation) state (.error error) after := by
  rw [Yields] at yields ⊢
  rw [discard_apply, yields]
  rfl

/-- A computation yields what it evaluates to. -/
theorem yields_ok
    {computation : EStateM ε σ α} {value : α} {state after : σ} :
    Yields computation state (.ok value) after ↔
      computation state = .ok value after :=
  Iff.rfl

end SimStorage.Interaction
