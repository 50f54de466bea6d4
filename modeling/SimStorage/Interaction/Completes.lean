import SimStorage.Interaction.System

namespace SimStorage.Interaction

/-!
# Programs that complete alone

Without interference a program completes when the service answers its every
request and each of its ends is as the postconditions say.  The worlds on the
way may be taken to be good: an invariant of the whole system is known there.
-/

variable {Request : Type} {Reply : Request → Type}
variable {ε α β : Type} {σ : Type}

/-- Sequential composition is associative. -/
theorem Program.bind_assoc
    {γ : Type}
    (program : Program Request Reply ε α)
    (next : α → Program Request Reply ε β)
    (last : β → Program Request Reply ε γ) :
    program >>= next >>= last =
      program >>= fun value => next value >>= last := by
  induction program with
  | ret value => rfl
  | fail error => rfl
  | call issued continuation inductionHypothesis =>
      exact congrArg (Program.call issued) (funext inductionHypothesis)

/-- Every request is answered, and every end is as the postconditions say. -/
def Completes
    (exec : (request : Request) → σ → Reply request → σ → Prop)
    (good : σ → Prop)
    (done : α → σ → Prop)
    (failed : ε → σ → Prop) :
    Program Request Reply ε α → σ → Prop
  | .ret value, world => done value world
  | .fail error, world => failed error world
  | .call request next, world =>
      (∃ reply after, exec request world reply after) ∧
        ∀ reply after, exec request world reply after → good after →
          Completes exec good done failed (next reply) after

/-- How a program may end. -/
def Ends
    (done : α → σ → Prop)
    (failed : ε → σ → Prop) :
    Except ε α → σ → Prop
  | .ok value, world => done value world
  | .error error, world => failed error world

namespace Completes

variable {exec : (request : Request) → σ → Reply request → σ → Prop}
variable {good : σ → Prop}
variable {done : α → σ → Prop} {failed : ε → σ → Prop}
variable {program : Program Request Reply ε α}
variable {world final : σ}

/-- Weaken both postconditions. -/
theorem weaken
    {done' : α → σ → Prop} {failed' : ε → σ → Prop}
    (completes : Completes exec good done failed program world)
    (doneWeaker : ∀ value final, done value final → done' value final)
    (failedWeaker : ∀ error final, failed error final → failed' error final) :
    Completes exec good done' failed' program world := by
  induction program generalizing world with
  | ret value => exact doneWeaker value world completes
  | fail error => exact failedWeaker error world completes
  | call issued next inductionHypothesis =>
      refine ⟨completes.1, fun reply after executed kept => ?_⟩
      exact inductionHypothesis reply (completes.2 reply after executed kept)

/-- Sequential composition. -/
theorem bind
    {next : α → Program Request Reply ε β}
    {last : β → σ → Prop}
    (first : Completes exec good done failed program world)
    (rest : ∀ value middle, done value middle →
      Completes exec good last failed (next value) middle) :
    Completes exec good last failed (program >>= next) world := by
  induction program generalizing world with
  | ret value => exact rest value world first
  | fail error => exact first
  | call issued continuation inductionHypothesis =>
      refine ⟨first.1, fun reply after executed kept => ?_⟩
      exact inductionHypothesis reply (first.2 reply after executed kept)

/-- A check that makes no request. -/
theorem check
    {result : Except ε β}
    {next : β → Program Request Reply ε α}
    (fails : ∀ error, result = .error error → failed error world)
    (passes : ∀ value, result = .ok value →
      Completes exec good done failed (next value) world) :
    Completes exec good done failed (Program.ofExcept result >>= next)
      world := by
  cases result with
  | ok value => exact passes value rfl
  | error fault => exact fails fault rfl

section Systems

variable {ι : Type} [DecidableEq ι]
variable {service : Service ι Request Reply σ}
variable {resume : ι → α → Option (Program Request Reply ε α)}
variable {system : System ι Request Reply ε α σ} {me : ι}

/-- A request that a party issues leads to a good world. -/
private theorem good_of_issue
    {request : Request} {next : Reply request → Program Request Reply ε α}
    {reply : Reply request} {after : σ}
    (running : system.programs me = some (.call request next))
    (kept : ∀ later, System.Steps service resume system later →
      good later.world)
    (executed : service.exec me request system.world reply after) :
    ∀ later, System.Steps service resume
        ⟨after, System.update system.programs me (some (next reply))⟩ later →
      good later.world := by
  have first : System.Step service resume system
      ⟨after, System.update system.programs me (some (next reply))⟩ :=
    .issue running executed
  exact fun later steps => kept later (.head first steps)

/-- In a system that keeps its worlds good, a completing program has a run. -/
theorem exists_run
    (running : system.programs me = some program)
    (kept : ∀ later, System.Steps service resume system later →
      good later.world)
    (completes : Completes (service.exec me) good done failed program
      system.world) :
    ∃ outcome final,
      Runs (service.exec me) program system.world outcome final := by
  induction program generalizing system with
  | ret value => exact ⟨_, _, .ret value _⟩
  | fail error => exact ⟨_, _, .fail error _⟩
  | call issued next inductionHypothesis =>
      obtain ⟨⟨reply, after, executed⟩, continues⟩ := completes
      have onward := good_of_issue running kept executed
      obtain ⟨outcome, final, rest⟩ := inductionHypothesis reply
        (System.update_same _ _ _) onward
        (continues reply after executed (onward _ .refl))
      exact ⟨outcome, final, .call executed rest⟩

/-- Every run of a completing program ends as the postconditions say. -/
theorem ends
    {outcome : Except ε α}
    (running : system.programs me = some program)
    (kept : ∀ later, System.Steps service resume system later →
      good later.world)
    (completes : Completes (service.exec me) good done failed program
      system.world)
    (run : Runs (service.exec me) program system.world outcome final) :
    Ends done failed outcome final := by
  generalize start : system.world = world at run
  induction run generalizing system with
  | ret value world => exact start ▸ completes
  | fail error world => exact start ▸ completes
  | call executed rest inductionHypothesis =>
      subst start
      have onward := good_of_issue running kept executed
      exact inductionHypothesis (System.update_same _ _ _) onward
        (completes.2 _ _ executed (onward _ .refl)) rfl

end Systems

end Completes

end SimStorage.Interaction
