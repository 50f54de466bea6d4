import SimStorage.Interaction.Outcome

namespace SimStorage.Interaction

/-!
# Transcripts

A transcript of a program lists its requests with the replies that it got, in
order.  Running a program against a service that always replies has one, and
what each reply keeps, the whole run keeps.
-/

variable {Request : Type} {Reply : Request → Type} {ε δ σ α : Type}

/-- A request and its reply. -/
abbrev Exchange (Request : Type) (Reply : Request → Type) :=
  (request : Request) × Reply request

/-- The requests of a program with their replies, its result and the states. -/
inductive Transcript
    (answer : (request : Request) → EStateM δ σ (Reply request)) :
    Program Request Reply ε α → σ → List (Exchange Request Reply) →
      Except ε α → σ → Prop where
  | ret (value : α) (state : σ) :
      Transcript answer (.ret value) state [] (.ok value) state
  | fail (error : ε) (state : σ) :
      Transcript answer (.fail error) state [] (.error error) state
  | call
      {request : Request}
      {next : Reply request → Program Request Reply ε α}
      {state middle after : σ}
      {reply : Reply request}
      {log : List (Exchange Request Reply)}
      {result : Except ε α} :
      Yields (answer request) state (.ok reply) middle →
      Transcript answer (next reply) middle log result after →
      Transcript answer (.call request next) state (⟨request, reply⟩ :: log)
        result after

namespace Transcript

variable {answer : (request : Request) → EStateM δ σ (Reply request)}
variable {program : Program Request Reply ε α}
variable {state after : σ} {log : List (Exchange Request Reply)}
variable {result : Except ε α}

/-- A run against a service that always replies has a transcript. -/
theorem of_interpret
    (replies : ∀ request state, ∃ reply after,
      Yields (answer request) state (.ok reply) after)
    {outcome : Except δ (Except ε α)}
    (yields : Yields (program.interpret answer) state outcome after) :
    ∃ log result, outcome = .ok result ∧
      Transcript answer program state log result after := by
  induction program generalizing state with
  | ret value =>
      obtain ⟨rfl, rfl⟩ := (Yields.pure _ state).unique yields
      exact ⟨[], _, rfl, .ret value state⟩
  | fail error =>
      obtain ⟨rfl, rfl⟩ := (Yields.pure _ state).unique yields
      exact ⟨[], _, rfl, .fail error state⟩
  | call request next inductionHypothesis =>
      obtain ⟨reply, middle, replied⟩ := replies request state
      have later := replied.rest yields
      obtain ⟨log, result, same, rest⟩ := inductionHypothesis reply later
      exact ⟨⟨request, reply⟩ :: log, result, same, .call replied rest⟩

/-- A service that another one simulates has the same transcripts. -/
theorem map
    {γ τ : Type}
    {simulated : (request : Request) → EStateM γ τ (Reply request)}
    (project : σ → τ)
    (simulates : ∀ request state reply after,
      Yields (answer request) state (.ok reply) after →
      Yields (simulated request) (project state) (.ok reply) (project after))
    (transcript : Transcript answer program state log result after) :
    Transcript simulated program (project state) log result (project after) := by
  induction transcript with
  | ret value state => exact .ret value _
  | fail error state => exact .fail error _
  | call replied _ inductionHypothesis =>
      exact .call (simulates _ _ _ _ replied) inductionHypothesis

end Transcript

end SimStorage.Interaction
