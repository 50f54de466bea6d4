import SimStorage.Interaction.Program

namespace SimStorage.Interaction

/-!
# Systems of interleaved programs

A system runs any family of programs over one shared world.  Programs issue
their requests in any order, may stop after any request, and a program that
returned may be resumed (a loop of the modelled code).  A protocol fixes what
each program is permitted to do; the soundness theorem turns one safety
judgement per program into facts about every reachable system.
-/

variable {ι : Type} {Request : Type} {Reply : Request → Type}
variable {ε α : Type} {σ : Type}

/--
How a family of programs shares a world: the answer to each program's requests,
the world change when a program stops, and steps of parties that are not
programs.
-/
structure Service
    (ι Request : Type) (Reply : Request → Type) (σ : Type) where
  exec : ι → (request : Request) → σ → Reply request → σ → Prop
  crash : ι → σ → σ → Prop
  environment : σ → σ → Prop

/-- A service, and the requests that each program is permitted to issue. -/
structure Protocol
    (ι Request : Type) (Reply : Request → Type) (σ : Type)
    extends Service ι Request Reply σ where
  allowed : ι → Request → σ → Prop

namespace Protocol

/-- A world change by a program other than `me`, or by the environment. -/
inductive Foreign
    (protocol : Protocol ι Request Reply σ)
    (me : ι) :
    σ → σ → Prop where
  | issue
      {other : ι} {request : Request} {reply : Reply request}
      {world after : σ} :
      other ≠ me →
      protocol.allowed other request world →
      protocol.exec other request world reply after →
      Foreign protocol me world after
  | crash {other : ι} {world after : σ} :
      other ≠ me →
      protocol.crash other world after →
      Foreign protocol me world after
  | environment {world after : σ} :
      protocol.environment world after →
      Foreign protocol me world after

/-- Any number of world changes by the other parties. -/
def Interference
    (protocol : Protocol ι Request Reply σ)
    (me : ι) :
    σ → σ → Prop :=
  Relation.ReflTransGen (protocol.Foreign me)

/-- The setting in which program `me` runs. -/
def setting
    (protocol : Protocol ι Request Reply σ)
    (me : ι) :
    Setting Request Reply σ where
  exec := protocol.exec me
  allowed := protocol.allowed me
  drift := protocol.Interference me
  drift_refl _ := .refl
  drift_trans first last := first.trans last

/-- A permitted world change by any party. -/
inductive Move
    (protocol : Protocol ι Request Reply σ) :
    σ → σ → Prop where
  | issue
      {me : ι} {request : Request} {reply : Reply request}
      {world after : σ} :
      protocol.allowed me request world →
      protocol.exec me request world reply after →
      Move protocol world after
  | crash {me : ι} {world after : σ} :
      protocol.crash me world after →
      Move protocol world after
  | environment {world after : σ} :
      protocol.environment world after →
      Move protocol world after

/-- Foreign changes are moves. -/
theorem Foreign.move
    {protocol : Protocol ι Request Reply σ}
    {me : ι} {world after : σ}
    (foreign : protocol.Foreign me world after) :
    protocol.Move world after := by
  cases foreign with
  | issue _ permitted executed => exact .issue permitted executed
  | crash _ crashed => exact .crash crashed
  | environment moved => exact .environment moved

/-- What every foreign change preserves, any interference preserves. -/
theorem Interference.preserves
    {protocol : Protocol ι Request Reply σ}
    {me : ι}
    {invariant : σ → Prop}
    (step : ∀ {world after},
      protocol.Foreign me world after → invariant world → invariant after)
    {world after : σ}
    (moved : protocol.Interference me world after)
    (holds : invariant world) :
    invariant after := by
  induction moved with
  | refl => exact holds
  | tail _ last inductionHypothesis => exact step last inductionHypothesis

end Protocol

/-- A shared world and the residual program of every party still running. -/
structure System (ι Request : Type) (Reply : Request → Type) (ε α σ : Type) where
  world : σ
  programs : ι → Option (Program Request Reply ε α)

namespace System

variable [DecidableEq ι]

/-- Replace one party's residual program. -/
def update
    (programs : ι → Option (Program Request Reply ε α))
    (me : ι)
    (next : Option (Program Request Reply ε α)) :
    ι → Option (Program Request Reply ε α) :=
  fun query => if query = me then next else programs query

@[simp] theorem update_same
    (programs : ι → Option (Program Request Reply ε α))
    (me : ι)
    (next : Option (Program Request Reply ε α)) :
    update programs me next me = next := by
  simp [update]

theorem update_other
    (programs : ι → Option (Program Request Reply ε α))
    {me other : ι}
    (different : other ≠ me)
    (next : Option (Program Request Reply ε α)) :
    update programs me next other = programs other := by
  simp [update, different]

variable (service : Service ι Request Reply σ)
variable (resume : ι → α → Option (Program Request Reply ε α))

/-- One step of a system. -/
inductive Step :
    System ι Request Reply ε α σ →
      System ι Request Reply ε α σ → Prop where
  | issue
      {system : System ι Request Reply ε α σ}
      {me : ι} {request : Request}
      {next : Reply request → Program Request Reply ε α}
      {reply : Reply request} {after : σ} :
      system.programs me = some (.call request next) →
      service.exec me request system.world reply after →
      Step system ⟨after, update system.programs me (some (next reply))⟩
  | resume
      {system : System ι Request Reply ε α σ}
      {me : ι} {value : α}
      {program : Program Request Reply ε α} :
      system.programs me = some (.ret value) →
      resume me value = some program →
      Step system ⟨system.world, update system.programs me (some program)⟩
  | stop
      {system : System ι Request Reply ε α σ}
      {me : ι} {program : Program Request Reply ε α} {after : σ} :
      system.programs me = some program →
      service.crash me system.world after →
      Step system ⟨after, update system.programs me none⟩
  | environment
      {system : System ι Request Reply ε α σ} {after : σ} :
      service.environment system.world after →
      Step system ⟨after, system.programs⟩

/-- Any number of steps. -/
def Steps :
    System ι Request Reply ε α σ →
      System ι Request Reply ε α σ → Prop :=
  Relation.ReflTransGen (Step service resume)

variable (protocol : Protocol ι Request Reply σ)
variable (ok : ι → α → σ → Prop) (err : ι → ε → σ → Prop)

/-- Every running program of the system is safe from the current world. -/
def AllSafe (system : System ι Request Reply ε α σ) : Prop :=
  ∀ me program, system.programs me = some program →
    Safe (protocol.setting me) (ok me) (err me) program system.world

variable {protocol resume ok err}
variable {system system' : System ι Request Reply ε α σ}

omit [DecidableEq ι] in
/-- A foreign change leaves a safe program safe. -/
theorem safe_of_foreign
    {me : ι} {program : Program Request Reply ε α} {world after : σ}
    (safe : Safe (protocol.setting me) (ok me) (err me) program world)
    (moved : protocol.Foreign me world after) :
    Safe (protocol.setting me) (ok me) (err me) program after :=
  safe.drifted (.single moved)

/--
A resumption is sound when the postcondition of the returned value already
promises that the resumed program is safe.
-/
def Resumable
    (protocol : Protocol ι Request Reply σ)
    (resume : ι → α → Option (Program Request Reply ε α))
    (ok : ι → α → σ → Prop) (err : ι → ε → σ → Prop) : Prop :=
  ∀ me value program world,
    resume me value = some program →
    ok me value world →
    Safe (protocol.setting me) (ok me) (err me) program world

/-- Replacing one program keeps a system safe if it and the others are safe. -/
theorem allSafe_update
    {me : ι} {after : σ}
    {next : Option (Program Request Reply ε α)}
    (own : ∀ program, next = some program →
      Safe (protocol.setting me) (ok me) (err me) program after)
    (others : ∀ other, other ≠ me → ∀ program,
      system.programs other = some program →
      Safe (protocol.setting other) (ok other) (err other) program after) :
    AllSafe protocol ok err ⟨after, update system.programs me next⟩ := by
  intro other program found
  change update system.programs me next other = some program at found
  by_cases same : other = me
  · subst same
    rw [update_same] at found
    exact own program found
  · rw [update_other _ same] at found
    exact others other same program found

/-- One step keeps every running program safe and is a permitted move. -/
theorem Step.sound
    (resumable : Resumable protocol resume ok err)
    (step : Step protocol.toService resume system system')
    (safe : AllSafe protocol ok err system) :
    AllSafe protocol ok err system' ∧
      (system'.world = system.world ∨
        protocol.Move system.world system'.world) := by
  cases step with
  | @issue me request next reply after running executed =>
      obtain ⟨permitted, continues⟩ :=
        safe me _ running system.world .refl
      refine ⟨allSafe_update ?_ ?_, .inr (.issue permitted executed)⟩
      · rintro _ ⟨⟩
        exact continues reply after executed
      · intro other different residual found
        exact safe_of_foreign (safe other residual found)
          (.issue different.symm permitted executed)
  | @resume me value program returned resumed =>
      refine ⟨allSafe_update ?_ ?_, .inl rfl⟩
      · rintro _ ⟨⟩
        exact resumable me value program system.world resumed
          (safe me _ returned system.world .refl)
      · intro other _ residual found
        exact safe other residual found
  | @stop me program after running crashed =>
      refine ⟨allSafe_update ?_ ?_, .inr (.crash crashed)⟩
      · rintro _ ⟨⟩
      · intro other different residual found
        exact safe_of_foreign (safe other residual found)
          (.crash different.symm crashed)
  | @environment after moved =>
      refine ⟨?_, .inr (.environment moved)⟩
      intro other residual found
      exact safe_of_foreign (safe other residual found) (.environment moved)

/-- Every reachable system consists of safe programs. -/
theorem Steps.allSafe
    (resumable : Resumable protocol resume ok err)
    (steps : Steps protocol.toService resume system system')
    (safe : AllSafe protocol ok err system) :
    AllSafe protocol ok err system' := by
  induction steps with
  | refl => exact safe
  | tail _ last inductionHypothesis =>
      exact (last.sound resumable inductionHypothesis).1

/-- The world of a reachable system is reached by permitted moves only. -/
theorem Steps.moves
    (resumable : Resumable protocol resume ok err)
    (steps : Steps protocol.toService resume system system')
    (safe : AllSafe protocol ok err system) :
    Relation.ReflTransGen protocol.Move system.world system'.world := by
  induction steps with
  | refl => exact .refl
  | @tail middle final earlier last inductionHypothesis =>
      obtain ⟨_, unmoved | moved⟩ :=
        last.sound resumable (Steps.allSafe resumable earlier safe)
      · rwa [unmoved]
      · exact inductionHypothesis.tail moved

/-- What every permitted move preserves holds in every reachable system. -/
theorem Steps.preserves
    (resumable : Resumable protocol resume ok err)
    {invariant : σ → Prop}
    (step : ∀ {world after},
      protocol.Move world after → invariant world → invariant after)
    (steps : Steps protocol.toService resume system system')
    (safe : AllSafe protocol ok err system)
    (holds : invariant system.world) :
    invariant system'.world := by
  have moves := Steps.moves resumable steps safe
  generalize system'.world = final at moves
  induction moves with
  | refl => exact holds
  | tail _ last inductionHypothesis => exact step last inductionHypothesis

/-- What is left of a program that ended. -/
def ended :
    Except ε α → Program Request Reply ε α
  | .ok value => .ret value
  | .error error => .fail error

/-- A program that runs to its end while the others wait. -/
theorem Steps.of_runs
    {service : Service ι Request Reply σ}
    {me : ι} {program : Program Request Reply ε α} {final : σ}
    {outcome : Except ε α}
    (running : system.programs me = some program)
    (run : Runs (service.exec me) program system.world outcome final) :
    Steps service resume system
      ⟨final, update system.programs me (some (ended outcome))⟩ := by
  have unchanged {program : Program Request Reply ε α}
      {system : System ι Request Reply ε α σ}
      (here : system.programs me = some program) :
      update system.programs me (some program) = system.programs := by
    funext query
    by_cases same : query = me
    · subst same
      rw [update_same, here]
    · rw [update_other _ same]
  generalize start : system.world = world at run
  induction run generalizing system with
  | ret value world =>
      rw [ended, unchanged running, ← start]
      exact .refl
  | fail error world =>
      rw [ended, unchanged running, ← start]
      exact .refl
  | @call request next world middle final reply outcome executed rest
      inductionHypothesis =>
      subst start
      have first : Step service resume system
          ⟨middle, update system.programs me (some (next reply))⟩ :=
        .issue running executed
      have again := @inductionHypothesis
        ⟨middle, update system.programs me (some (next reply))⟩
        (update_same _ _ _) rfl
      refine Relation.ReflTransGen.head first ?_
      have overwritten : update (update system.programs me
          (some (next reply))) me (some (ended outcome)) =
            update system.programs me (some (ended outcome)) := by
        funext query
        simp only [update]
        split <;> rfl
      rwa [overwritten] at again

/-- What every reply leaves true of a residual program, all steps leave true. -/
theorem Steps.residual
    {service : Service ι Request Reply σ}
    {property : ι → Program Request Reply ε α → Prop}
    (replied : ∀ me request next, property me (.call request next) →
      ∀ reply, property me (next reply))
    (resumed : ∀ me value program, resume me value = some program →
      property me (.ret value) → property me program)
    (steps : Steps service resume system system')
    (holds : ∀ me program, system.programs me = some program →
      property me program)
    {me : ι} {program : Program Request Reply ε α}
    (running : system'.programs me = some program) :
    property me program := by
  induction steps generalizing me program with
  | refl => exact holds me program running
  | tail _ last inductionHypothesis =>
      have updated {before : System ι Request Reply ε α σ}
          {caller : ι} {next : Option (Program Request Reply ε α)}
          (earlier : ∀ {other residual}, before.programs other = some residual →
            property other residual)
          (own : ∀ residual, next = some residual → property caller residual)
          (found : update before.programs caller next me = some program) :
          property me program := by
        by_cases same : me = caller
        · subst same
          rw [update_same] at found
          exact own program found
        · rw [update_other _ same] at found
          exact earlier found
      cases last with
      | issue here _ =>
          apply updated inductionHypothesis _ running
          rintro _ ⟨⟩
          exact replied _ _ _ (inductionHypothesis here) _
      | resume here again =>
          apply updated inductionHypothesis _ running
          rintro _ ⟨⟩
          exact resumed _ _ _ again (inductionHypothesis here)
      | stop _ _ =>
          apply updated inductionHypothesis _ running
          rintro _ ⟨⟩
      | environment _ => exact inductionHypothesis running

omit [DecidableEq ι] in
/-- A program that returned satisfies its postcondition. -/
theorem AllSafe.returned
    (safe : AllSafe protocol ok err system)
    {me : ι} {value : α}
    (returned : system.programs me = some (.ret value)) :
    ok me value system.world :=
  safe me _ returned system.world .refl

omit [DecidableEq ι] in
/-- A program that failed satisfies its failure postcondition. -/
theorem AllSafe.failed
    (safe : AllSafe protocol ok err system)
    {me : ι} {error : ε}
    (failed : system.programs me = some (.fail error)) :
    err me error system.world :=
  safe me _ failed system.world .refl

end System

end SimStorage.Interaction
