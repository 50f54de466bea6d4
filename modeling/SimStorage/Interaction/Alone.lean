import SimStorage.Interaction.Program

namespace SimStorage.Interaction

/-!
# Programs that run alone

Without interference a program is judged from request to request by the replies
that the service may give.  The judgement speaks about all undisturbed runs.
-/

variable {Request : Type} {Reply : Request → Type}
variable {ε α β : Type} {σ : Type}

/-- Every undisturbed run ends as the postconditions say. -/
def Alone
    (exec : (request : Request) → σ → Reply request → σ → Prop)
    (done : α → σ → Prop)
    (failed : ε → σ → Prop) :
    Program Request Reply ε α → σ → Prop
  | .ret value, world => done value world
  | .fail error, world => failed error world
  | .call request next, world =>
      ∀ reply after, exec request world reply after →
        Alone exec done failed (next reply) after

namespace Alone

variable {exec : (request : Request) → σ → Reply request → σ → Prop}
variable {done : α → σ → Prop} {failed : ε → σ → Prop}
variable {program : Program Request Reply ε α}
variable {world final : σ}

/-- Weaken both postconditions. -/
theorem weaken
    {done' : α → σ → Prop} {failed' : ε → σ → Prop}
    (alone : Alone exec done failed program world)
    (doneWeaker : ∀ value final, done value final → done' value final)
    (failedWeaker : ∀ error final, failed error final → failed' error final) :
    Alone exec done' failed' program world := by
  induction program generalizing world with
  | ret value => exact doneWeaker value world alone
  | fail error => exact failedWeaker error world alone
  | call issued next inductionHypothesis =>
      intro reply after executed
      exact inductionHypothesis reply (alone reply after executed)

/-- Sequential composition. -/
theorem bind
    {next : α → Program Request Reply ε β}
    {last : β → σ → Prop}
    (first : Alone exec done failed program world)
    (rest : ∀ value middle, done value middle →
      Alone exec last failed (next value) middle) :
    Alone exec last failed (program >>= next) world := by
  induction program generalizing world with
  | ret value => exact rest value world first
  | fail error => exact first
  | call issued continuation inductionHypothesis =>
      intro reply after executed
      exact inductionHypothesis reply (first reply after executed)

/-- A request that follows both ends of a program. -/
theorem ensuring
    {cleanup : Request}
    {done' : α → σ → Prop} {failed' : ε → σ → Prop}
    (first : Alone exec done failed program world)
    (onDone : ∀ value middle reply after, done value middle →
      exec cleanup middle reply after → done' value after)
    (onFailed : ∀ error middle reply after, failed error middle →
      exec cleanup middle reply after → failed' error after) :
    Alone exec done' failed' (program.ensuring cleanup) world := by
  induction program generalizing world with
  | ret value =>
      intro reply after executed
      exact onDone value world reply after first executed
  | fail error =>
      intro reply after executed
      exact onFailed error world reply after first executed
  | call issued next inductionHypothesis =>
      intro reply after executed
      exact inductionHypothesis reply (first reply after executed)

/-- What an undisturbed run ends in. -/
theorem ends
    {outcome : Except ε α}
    (alone : Alone exec done failed program world)
    (run : Runs exec program world outcome final) :
    (∀ value, outcome = .ok value → done value final) ∧
      (∀ error, outcome = .error error → failed error final) := by
  induction run with
  | ret value world =>
      constructor
      · rintro _ ⟨⟩
        exact alone
      · nofun
  | fail error world =>
      constructor
      · nofun
      · rintro _ ⟨⟩
        exact alone
  | call executed rest inductionHypothesis =>
      exact inductionHypothesis (alone _ _ executed)

end Alone

end SimStorage.Interaction
