import Mathlib.Logic.Relation

namespace SimStorage.Interaction

/-!
# Interaction programs and their safety under interference

A program issues requests to a shared service one at a time and continues with
the reply.  Between two of its own requests the shared world may drift, because
other programs use the same service.  `Safe` is the judgement that a program,
started in a given world, only issues permitted requests and ends in a result
that satisfies its postcondition, whatever the drift and whatever the replies.

The module knows nothing about the service: requests, replies, worlds, faults
and results are parameters.
-/

variable {Request : Type} {Reply : Request → Type}
variable {ε α β : Type} {σ : Type}

/-- A sequential program over a request signature, with a failure exit. -/
inductive Program (Request : Type) (Reply : Request → Type) (ε α : Type) where
  | ret (value : α)
  | fail (error : ε)
  | call (request : Request) (next : Reply request → Program Request Reply ε α)

namespace Program

/-- Sequential composition; a failure skips the continuation. -/
def bind :
    Program Request Reply ε α →
      (α → Program Request Reply ε β) →
      Program Request Reply ε β
  | .ret value, next => next value
  | .fail error, _ => .fail error
  | .call request continuation, next =>
      .call request fun reply => (continuation reply).bind next

/-- Run a program, then issue a request however it ends (a guard's release). -/
def ensuring (cleanup : Request) :
    Program Request Reply ε α → Program Request Reply ε α
  | .ret value => .call cleanup fun _ => .ret value
  | .fail error => .call cleanup fun _ => .fail error
  | .call request next => .call request fun reply => (next reply).ensuring cleanup

instance : Monad (Program Request Reply ε) where
  pure := .ret
  bind := bind

/-- A pure computation that may fail. -/
def ofExcept : Except ε α → Program Request Reply ε α
  | .ok value => .ret value
  | .error error => .fail error

@[simp] theorem pure_eq
    (value : α) :
    (pure value : Program Request Reply ε α) = .ret value :=
  rfl

@[simp] theorem ret_bind
    (value : α)
    (next : α → Program Request Reply ε β) :
    ((.ret value : Program Request Reply ε α) >>= next) = next value :=
  rfl

@[simp] theorem fail_bind
    (error : ε)
    (next : α → Program Request Reply ε β) :
    ((.fail error : Program Request Reply ε α) >>= next) = .fail error :=
  rfl

@[simp] theorem call_bind
    (issued : Request)
    (continuation : Reply issued → Program Request Reply ε α)
    (next : α → Program Request Reply ε β) :
    (.call issued continuation >>= next) =
      .call issued fun reply => continuation reply >>= next :=
  rfl

@[simp] theorem ofExcept_ok
    (value : α) :
    (ofExcept (.ok value) : Program Request Reply ε α) = .ret value :=
  rfl

@[simp] theorem ofExcept_error
    (error : ε) :
    (ofExcept (.error error) : Program Request Reply ε α) = .fail error :=
  rfl

/-- The program cannot fail. -/
def Certain : Program Request Reply ε α → Prop
  | .ret _ => True
  | .fail _ => False
  | .call _ next => ∀ reply, Certain (next reply)

/-- The program gets no decisive reply. -/
def Idle (decisive : (request : Request) → Reply request → Prop) :
    Program Request Reply ε α → Prop
  | .ret _ => True
  | .fail _ => True
  | .call request next =>
      ∀ reply, ¬ decisive request reply ∧ Idle decisive (next reply)

/-- After a decisive reply the program cannot fail. -/
def Settled (decisive : (request : Request) → Reply request → Prop) :
    Program Request Reply ε α → Prop
  | .ret _ => True
  | .fail _ => True
  | .call request next => ∀ reply,
      (decisive request reply → Certain (next reply)) ∧
        Settled decisive (next reply)

section Decisive

variable {decisive : (request : Request) → Reply request → Prop}
variable {program : Program Request Reply ε α}
variable {next : α → Program Request Reply ε β}

theorem Certain.bind
    (certain : program.Certain)
    (continues : ∀ value, (next value).Certain) :
    (program >>= next).Certain := by
  induction program with
  | ret value => exact continues value
  | fail error => exact certain.elim
  | call issued continuation inductionHypothesis =>
      exact fun reply => inductionHypothesis reply (certain reply)

theorem Idle.bind
    (idle : program.Idle decisive)
    (continues : ∀ value, (next value).Idle decisive) :
    (program >>= next).Idle decisive := by
  induction program with
  | ret value => exact continues value
  | fail error => trivial
  | call issued continuation inductionHypothesis =>
      intro reply
      exact ⟨(idle reply).1, inductionHypothesis reply (idle reply).2⟩

theorem Idle.ofExcept
    (outcome : Except ε α) :
    (Program.ofExcept outcome : Program Request Reply ε α).Idle decisive := by
  cases outcome <;> trivial

theorem Certain.settled
    (certain : program.Certain) :
    program.Settled decisive := by
  induction program with
  | ret value => trivial
  | fail error => trivial
  | call issued continuation inductionHypothesis =>
      intro reply
      exact ⟨fun _ => certain reply, inductionHypothesis reply (certain reply)⟩

/-- Before anything is decided, a program may fail. -/
theorem Idle.settled_bind
    (idle : program.Idle decisive)
    (continues : ∀ value, (next value).Settled decisive) :
    (program >>= next).Settled decisive := by
  induction program with
  | ret value => exact continues value
  | fail error => trivial
  | call issued continuation inductionHypothesis =>
      intro reply
      exact ⟨fun decided => absurd decided (idle reply).1,
        inductionHypothesis reply (idle reply).2⟩

/-- What cannot fail may follow a settled program. -/
theorem Settled.bind
    (settled : program.Settled decisive)
    (continues : ∀ value, (next value).Certain) :
    (program >>= next).Settled decisive := by
  induction program with
  | ret value => exact (continues value).settled
  | fail error => trivial
  | call issued continuation inductionHypothesis =>
      intro reply
      exact ⟨fun decided => ((settled reply).1 decided).bind continues,
        inductionHypothesis reply (settled reply).2⟩

end Decisive

end Program

/--
What one program may assume and must respect: how the service answers its
requests, which requests it may issue in which world, and how the world may
drift while it is not running.
-/
structure Setting (Request : Type) (Reply : Request → Type) (σ : Type) where
  exec : (request : Request) → σ → Reply request → σ → Prop
  allowed : Request → σ → Prop
  drift : σ → σ → Prop
  drift_refl : ∀ world, drift world world
  drift_trans : ∀ {first middle last},
    drift first middle → drift middle last → drift first last

/--
`Safe setting ok err program world`: from `world`, under every drift and for
every reply, `program` issues only allowed requests; a returned value satisfies
`ok` and a failure satisfies `err`, also in every world drifted to afterwards.
-/
def Safe
    (setting : Setting Request Reply σ)
    (ok : α → σ → Prop)
    (err : ε → σ → Prop) :
    Program Request Reply ε α → σ → Prop
  | .ret value, world =>
      ∀ later, setting.drift world later → ok value later
  | .fail error, world =>
      ∀ later, setting.drift world later → err error later
  | .call request next, world =>
      ∀ later, setting.drift world later →
        setting.allowed request later ∧
          ∀ reply after,
            setting.exec request later reply after →
            Safe setting ok err (next reply) after

namespace Safe

variable {setting : Setting Request Reply σ}
variable {ok ok' : α → σ → Prop} {err err' : ε → σ → Prop}
variable {program : Program Request Reply ε α}
variable {world later : σ}

/-- Safety survives drift that happens before the program moves. -/
theorem drifted
    (safe : Safe setting ok err program world)
    (moved : setting.drift world later) :
    Safe setting ok err program later := by
  cases program with
  | ret value =>
      intro final last
      exact safe final (setting.drift_trans moved last)
  | fail error =>
      intro final last
      exact safe final (setting.drift_trans moved last)
  | call issued next =>
      intro final last
      exact safe final (setting.drift_trans moved last)

/-- Weaken both postconditions. -/
theorem weaken
    (safe : Safe setting ok err program world)
    (okWeaker : ∀ value final, ok value final → ok' value final)
    (errWeaker : ∀ error final, err error final → err' error final) :
    Safe setting ok' err' program world := by
  induction program generalizing world with
  | ret value =>
      intro final last
      exact okWeaker value final (safe final last)
  | fail error =>
      intro final last
      exact errWeaker error final (safe final last)
  | call issued next inductionHypothesis =>
      intro final last
      obtain ⟨permitted, resume⟩ := safe final last
      exact ⟨permitted, fun reply after executed =>
        inductionHypothesis reply (resume reply after executed)⟩

/-- Sequential composition of safe programs. -/
theorem bind
    {next : α → Program Request Reply ε β}
    {final : β → σ → Prop}
    (first : Safe setting ok err program world)
    (rest : ∀ value middle, ok value middle →
      Safe setting final err (next value) middle) :
    Safe setting final err (program >>= next) world := by
  induction program generalizing world with
  | ret value =>
      exact rest value world (first world (setting.drift_refl world))
  | fail error =>
      exact first
  | call issued continuation inductionHypothesis =>
      intro middle moved
      obtain ⟨permitted, resume⟩ := first middle moved
      exact ⟨permitted, fun reply after executed =>
        inductionHypothesis reply (resume reply after executed)⟩

/-- A returned value is safe when its postcondition holds after any drift. -/
theorem ret
    {value : α}
    (done : ∀ final, setting.drift world final → ok value final) :
    Safe setting ok err (.ret value) world :=
  done

/-- A failure is safe when its postcondition holds after any drift. -/
theorem fail
    {error : ε}
    (failed : ∀ final, setting.drift world final → err error final) :
    Safe setting ok err (.fail error) world :=
  failed

/-- One request followed by a continuation. -/
theorem call
    {issued : Request}
    {next : Reply issued → Program Request Reply ε α}
    (step : ∀ middle, setting.drift world middle →
      setting.allowed issued middle ∧
        ∀ reply after,
          setting.exec issued middle reply after →
          Safe setting ok err (next reply) after) :
    Safe setting ok err (.call issued next) world :=
  step

/-- A request that follows both ends of a program. -/
theorem ensuring
    {cleanup : Request}
    (safe : Safe setting ok err program world)
    (onOk : ∀ value middle, ok value middle →
      Safe setting ok' err' (.call cleanup fun _ => .ret value) middle)
    (onError : ∀ error middle, err error middle →
      Safe setting ok' err' (.call cleanup fun _ => .fail error) middle) :
    Safe setting ok' err' (program.ensuring cleanup) world := by
  induction program generalizing world with
  | ret value => exact onOk value world (safe world (setting.drift_refl world))
  | fail error =>
      exact onError error world (safe world (setting.drift_refl world))
  | call issued next inductionHypothesis =>
      intro middle moved
      obtain ⟨permitted, resume⟩ := safe middle moved
      exact ⟨permitted, fun reply after executed =>
        inductionHypothesis reply (resume reply after executed)⟩

/-- A computation without requests is judged on its two outcomes. -/
theorem ofExcept
    {outcome : Except ε α}
    (onOk : ∀ value, outcome = .ok value →
      ∀ final, setting.drift world final → ok value final)
    (onError : ∀ error, outcome = .error error →
      ∀ final, setting.drift world final → err error final) :
    Safe setting ok err (Program.ofExcept outcome) world := by
  cases outcome with
  | ok value => exact onOk value rfl
  | error error => exact onError error rfl

end Safe

/-- One complete run of a program that nothing interrupts. -/
inductive Runs
    (exec : (request : Request) → σ → Reply request → σ → Prop) :
    Program Request Reply ε α → σ → Except ε α → σ → Prop where
  | ret (value : α) (world : σ) :
      Runs exec (.ret value) world (.ok value) world
  | fail (error : ε) (world : σ) :
      Runs exec (.fail error) world (.error error) world
  | call
      {request : Request}
      {next : Reply request → Program Request Reply ε α}
      {world middle final : σ}
      {reply : Reply request}
      {outcome : Except ε α} :
      exec request world reply middle →
      Runs exec (next reply) middle outcome final →
      Runs exec (.call request next) world outcome final

end SimStorage.Interaction
