import SimStorage.Interaction.System

namespace SimStorage.Interaction

/-!
# Programs that rely on an invariant

All moves of a protocol keep an invariant, and the moves of the other programs
leave a program something to rely on.  A program is then judged from request to
request, with the invariant at hand and what it relied on carried along.
-/

variable {ι : Type} {Request : Type} {Reply : Request → Type}
variable {ε α β : Type} {σ : Type}

/-- An invariant of a protocol, and what a program relies on under it. -/
structure Rely (protocol : Protocol ι Request Reply σ) where
  invariant : σ → Prop
  later : ι → σ → σ → Prop
  refl : ∀ me world, later me world world
  trans : ∀ {me first middle last},
    later me first middle → later me middle last → later me first last
  move : ∀ {world after},
    invariant world → protocol.Move world after → invariant after
  foreign : ∀ {me world after},
    invariant world → protocol.Foreign me world after → later me world after

namespace Rely

variable {protocol : Protocol ι Request Reply σ} (rely : Rely protocol)
variable {me : ι} {world after : σ}

/-- The program keeps its postconditions, whatever the other programs do. -/
def Keeps (me : ι) (done : α → σ → Prop) (failed : ε → σ → Prop)
    (program : Program Request Reply ε α) (world : σ) : Prop :=
  Safe (protocol.setting me)
    (fun value final => rely.invariant final ∧ done value final)
    (fun error final => rely.invariant final ∧ failed error final)
    program world

variable {rely}

/-- Interference keeps the invariant and what the program relies on. -/
theorem of_drift
    (held : rely.invariant world)
    (drift : (protocol.setting me).drift world after) :
    rely.invariant after ∧ rely.later me world after := by
  have step {middle last : σ}
      (foreign : protocol.Foreign me middle last)
      (before : rely.invariant middle ∧ rely.later me world middle) :
      rely.invariant last ∧ rely.later me world last :=
    ⟨rely.move before.1 foreign.move,
      rely.trans before.2 (rely.foreign before.1 foreign)⟩
  exact Protocol.Interference.preserves step drift ⟨held, rely.refl me world⟩

namespace Keeps

variable {done : α → σ → Prop} {failed : ε → σ → Prop}

/-- One request, issued in a world that others changed. -/
theorem call
    (held : rely.invariant world)
    {request : Request} {next : Reply request → Program Request Reply ε α}
    (step : ∀ middle, rely.invariant middle → rely.later me world middle →
      protocol.allowed me request middle ∧
        ∀ reply after, protocol.exec me request middle reply after →
          rely.invariant after →
          rely.Keeps me done failed (next reply) after) :
    rely.Keeps me done failed (.call request next) world := by
  apply Safe.call
  intro middle drift
  obtain ⟨still, since⟩ := of_drift held drift
  obtain ⟨permitted, continues⟩ := step middle still since
  refine ⟨permitted, fun reply after executed => ?_⟩
  exact continues reply after executed
    (rely.move still (.issue permitted executed))

/-- A returned value is judged by what no other program can change. -/
theorem ret
    (held : rely.invariant world)
    {value : α}
    (finishes : ∀ final, rely.later me world final → done value final) :
    rely.Keeps me done failed (.ret value) world := by
  apply Safe.ret
  intro final drift
  obtain ⟨still, since⟩ := of_drift held drift
  exact ⟨still, finishes final since⟩

theorem fail
    (held : rely.invariant world)
    {error : ε}
    (finishes : ∀ final, rely.later me world final → failed error final) :
    rely.Keeps me done failed (.fail error) world := by
  apply Safe.fail
  intro final drift
  obtain ⟨still, since⟩ := of_drift held drift
  exact ⟨still, finishes final since⟩

/-- Weaken the postcondition of the result. -/
theorem weaken
    {program : Program Request Reply ε α} {done' : α → σ → Prop}
    (keeps : rely.Keeps me done failed program world)
    (weaker : ∀ value final, done value final → done' value final) :
    rely.Keeps me done' failed program world :=
  Safe.weaken keeps
    (fun value final kept => ⟨kept.1, weaker value final kept.2⟩)
    (fun _ _ kept => kept)

theorem bind
    {program : Program Request Reply ε α}
    {next : α → Program Request Reply ε β}
    {last : β → σ → Prop}
    (first : rely.Keeps me done failed program world)
    (rest : ∀ value middle, rely.invariant middle → done value middle →
      rely.Keeps me last failed (next value) middle) :
    rely.Keeps me last failed (program >>= next) world :=
  Safe.bind first fun value middle kept => rest value middle kept.1 kept.2

/-- A computation without requests is judged on its two outcomes. -/
theorem ofExcept
    (held : rely.invariant world)
    {outcome : Except ε α}
    (onOk : ∀ value, outcome = .ok value →
      ∀ final, rely.later me world final → done value final)
    (onError : ∀ error, outcome = .error error →
      ∀ final, rely.later me world final → failed error final) :
    rely.Keeps me done failed (Program.ofExcept outcome) world := by
  cases outcome with
  | ok value => exact ret held (onOk value rfl)
  | error error => exact fail held (onError error rfl)

/-- A request that follows both ends of a program. -/
theorem ensuring
    {cleanup : Request} {program : Program Request Reply ε α}
    {done' : α → σ → Prop} {failed' : ε → σ → Prop}
    (first : rely.Keeps me done failed program world)
    (onOk : ∀ value middle, rely.invariant middle → done value middle →
      rely.Keeps me done' failed' (.call cleanup fun _ => .ret value) middle)
    (onError : ∀ error middle, rely.invariant middle → failed error middle →
      rely.Keeps me done' failed' (.call cleanup fun _ => .fail error)
        middle) :
    rely.Keeps me done' failed' (program.ensuring cleanup) world :=
  Safe.ensuring first
    (fun value middle kept => onOk value middle kept.1 kept.2)
    (fun error middle kept => onError error middle kept.1 kept.2)

end Keeps

section Systems

variable [DecidableEq ι]
variable {resume : ι → α → Option (Program Request Reply ε α)}
variable {done : ι → α → σ → Prop} {failed : ι → ε → σ → Prop}
variable {system system' : System ι Request Reply ε α σ}

/-- All running programs of the system keep their postconditions. -/
abbrev AllKeep (rely : Rely protocol) (done : ι → α → σ → Prop)
    (failed : ι → ε → σ → Prop) (system : System ι Request Reply ε α σ) :
    Prop :=
  System.AllSafe protocol
    (fun me value final => rely.invariant final ∧ done me value final)
    (fun me error final => rely.invariant final ∧ failed me error final)
    system

omit [DecidableEq ι] in
theorem resumable_of_once
    (once : ∀ me value, resume me value = none) :
    System.Resumable protocol resume
      (fun me value final => rely.invariant final ∧ done me value final)
      (fun me error final => rely.invariant final ∧ failed me error final) := by
  intro me value program world resumed _
  rw [once] at resumed
  cases resumed

/-- Without resumptions, every reachable system keeps the postconditions. -/
theorem allKeep_of_steps
    (once : ∀ me value, resume me value = none)
    (steps : System.Steps protocol.toService resume system system')
    (start : rely.AllKeep done failed system) :
    rely.AllKeep done failed system' :=
  System.Steps.allSafe (resumable_of_once once) steps start

/-- Every reachable system satisfies the invariant. -/
theorem invariant_of_steps
    (once : ∀ me value, resume me value = none)
    (steps : System.Steps protocol.toService resume system system')
    (start : rely.AllKeep done failed system)
    (held : rely.invariant system.world) :
    rely.invariant system'.world :=
  System.Steps.preserves (resumable_of_once once)
    (fun moved before => rely.move before moved) steps start held

end Systems

end Rely

end SimStorage.Interaction
