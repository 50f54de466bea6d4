import SimStorage.Journal.Host.Leasing

namespace SimStorage.Journal.Host

/-!
# Soundness of the calls

Every call keeps the protocol, so every store that calls reach satisfies the
invariant, and a call that returned has the events that its outcome names.
-/

open Codec NativeCodec Interaction

/-- The events of a call that returned an outcome. -/
def Left (deployment : Deployment) (me : CallId) (world : World) :
    Outcome → Prop
  | .lease lease => Leased deployment me (some lease) world
  | .head _ => ∃ result, Admitted me false result world
  | .guarded result => Admitted me true result world
  | _ => world.own me = []

/-- A call that returned: its outcome is its operation's, with its events. -/
structure Returned (deployment : Deployment) (me : CallId) (outcome : Outcome)
    (world : World) : Prop where
  yields : (deployment.workload me).Yields outcome
  left : Left deployment me world outcome

variable {deployment : Deployment} {grounded : Prop} {me : CallId}
variable {first : Option Bytes} {world after : World}

section Calls

theorem readState_does
    (backend : HostDirJournalBackend) :
    Does deployment grounded me (readState deployment.kernel backend) world
      (fun _ _ => True) := by
  apply stateBytes_does.bind
  intro observed middle _ _
  exact .reader (readStateFrom_readsOnly _ _)

/-- The verification of a publication establishes what it checks. -/
theorem verifiedAdmission_does
    (backend : HostDirJournalBackend) (publication : Publication) :
    Does deployment grounded me
      (verifiedAdmission deployment.kernel
        (readState deployment.kernel backend) publication) world
      (fun admission _ => admission = publication.admission ∧
        publication.entries ≠ [] ∧
        Follows deployment.kernel publication.expected
          publication.entries) := by
  unfold verifiedAdmission
  by_cases empty : publication.entries.isEmpty = true
  · rw [if_pos empty]
    exact .fail _
  rw [if_neg empty]
  have nonempty : publication.entries ≠ [] := by
    intro none
    rw [none] at empty
    exact empty rfl
  apply (readState_does backend).bind
  intro before middle _ _
  cases verifyState deployment.kernel before with
  | error fault => exact .fail _
  | ok verified =>
      cases batch : verifyBatch deployment.kernel before publication.expected
          publication.objects publication.entries with
      | error fault => exact .fail _
      | ok accepted =>
          have follows := (verifyBatch_eq_ok.mp batch).follows
          apply Does.ret
          intro _ _
          exact ⟨rfl, nonempty, follows⟩

theorem Admitted.moved
    {guarded : Bool} {result : GuardedAdmission}
    (admitted : Admitted me guarded result world)
    (own : after.own me = world.own me) :
    Admitted me guarded result after := by
  unfold Admitted at *
  rw [own]
  exact admitted

/-- A verified publication goes on with a safe admission. -/
theorem publication_safe
    (lawful : deployment.kernel.Lawful)
    {α : Type} {guarded : Bool} {publication : Publication}
    {rest : Admission → HostProgram α} {done : α → World → Prop}
    (backend : HostDirJournalBackend)
    (inv : Inv deployment grounded first world)
    (working : (deployment.workload me).publication = some publication)
    (supplied : (deployment.workload me).objects = publication.objects)
    (own : world.own me = [])
    (continues : ∀ middle,
      Safe (deployment.setting grounded me) (Admitted me guarded)
        (fun _ _ => True)
        (admitWithAction deployment.kernel backend guarded
          publication.admission) middle →
      Safe (deployment.setting grounded me) done (fun _ _ => True)
        (rest publication.admission) middle) :
    Safe (deployment.setting grounded me) done (fun _ _ => True)
      (verifiedAdmission deployment.kernel
        (readState deployment.kernel backend) publication >>= rest) world := by
  apply (verifiedAdmission_does backend publication).then
  rintro _ middle moved ⟨rfl, nonempty, follows⟩
  have objects : ∀ object ∈ publication.objects,
      deployment.Supplied object := by
    intro object inside
    exact ⟨me, by rw [supplied]; exact inside⟩
  apply continues
  exact admitWithAction_safe lawful (moved.inv inv) working objects follows
    nonempty (by rw [moved.own, own])

theorem putDatum_does
    (lawful : deployment.kernel.Lawful)
    {object : JournalObject}
    (backend : HostDirJournalBackend)
    (supplied : deployment.Supplied object) :
    Does deployment grounded me (putDatum deployment.kernel backend object)
      world (fun _ _ => True) := by
  apply (writeCapable_does backend).bind
  intro _ _ _ _
  apply ensureLayout_does.bind
  intro _ _ _ _
  apply (putObject_does lawful supplied).weaken
  intro _ _ _ _
  trivial

theorem getDatum_does
    (meaning : ContentId)
    (inv : Inv deployment grounded first world) :
    Does deployment grounded me (getDatum deployment.kernel meaning) world
      (fun _ _ => True) := by
  apply (findObject_does inv).bind
  intro _ _ _ _
  exact .ret fun _ _ => trivial

theorem rebuildEntries_does
    (backend : HostDirJournalBackend) (rebuilt : List StoredDatumRef)
    (entries : List HostEntry)
    (inv : Inv deployment grounded first world) :
    Does deployment grounded me
      (rebuildEntries deployment.kernel backend rebuilt entries) world
      (fun _ _ => True) := by
  induction entries generalizing rebuilt world with
  | nil => exact .ret fun _ _ => trivial
  | cons entry rest inductionHypothesis =>
      unfold rebuildEntries
      split
      · exact .fail _
      · split
        · exact .fail _
        · apply Does.check
          intro meaning _
          apply (findObject_does inv).bind
          intro _ _ moved _
          exact inductionHypothesis _ (moved.inv inv)

theorem rebuildDatumIndex_does
    (backend : HostDirJournalBackend)
    (inv : Inv deployment grounded first world) :
    Does deployment grounded me
      (rebuildDatumIndex deployment.kernel backend) world
      (fun _ _ => True) := by
  apply Does.call
  · intro _ _
    trivial
  intro middle reply after moved executed
  refine ⟨by cases executed <;> rfl, fun later => ?_⟩
  cases executed with
  | list _ =>
      apply (rebuildEntries_does backend [] _ (later.inv inv)).bind
      intro _ _ _ _
      exact .ret fun _ _ => trivial
  | listMissing _ kind =>
      simp only [kind, if_true]
      exact .ret fun _ _ => trivial
  | listFailed _ kind =>
      simp only [kind, if_false]
      exact .fail _

theorem verifiedSnapshot_does
    (backend : HostDirJournalBackend) :
    Does deployment grounded me
      (verifiedSnapshot deployment.kernel
        (readState deployment.kernel backend)) world (fun _ _ => True) := by
  apply (readState_does backend).bind
  intro state _ _ _
  exact .pureResult fun _ _ _ _ => trivial

/-- A round of the lease loop ends in an outcome with its events. -/
theorem acquireAgain_safe
    (lawful : deployment.kernel.Lawful)
    (backend : HostDirJournalBackend)
    (inv : Inv deployment grounded first world)
    (working : deployment.workload me = .acquireLease)
    (own : world.own me = []) :
    Safe (deployment.setting grounded me) (Returned deployment me)
      (fun _ _ => True)
      (acquireAgain deployment.kernel backend) world := by
  apply Safe.bind (acquireAttempt_safe lawful inv working own)
  intro lease middle leased
  apply Safe.ret
  intro final drift
  have moved := (Later.of_drift drift).own
  cases lease with
  | none => exact ⟨by rw [working]; trivial, moved.trans leased⟩
  | some lease =>
      obtain ⟨old, new, events, fence⟩ := leased
      exact ⟨by rw [working]; trivial, old, new, moved.trans events, fence⟩

/-- The outcome of a quiet call. -/
theorem quiet_safe
    {α : Type} {program : HostProgram α} {wrap : α → Outcome}
    (does : Does deployment grounded me program world (fun _ _ => True))
    (yields : ∀ value, (deployment.workload me).Yields (wrap value))
    (quiet : ∀ value world', world'.own me = [] →
      Left deployment me world' (wrap value))
    (own : world.own me = []) :
    Safe (deployment.setting grounded me) (Returned deployment me)
      (fun _ _ => True)
      (program >>= fun value => .ret (wrap value)) world := by
  apply does.then
  intro value middle moved _
  apply Safe.ret
  intro final drift
  refine ⟨yields value, quiet value final ?_⟩
  rw [(Later.of_drift drift).own, moved.own, own]

/-- Every call is safe and ends with the events of its outcome. -/
theorem callProgram_safe
    (lawful : deployment.kernel.Lawful)
    (inv : Inv deployment grounded first world)
    (own : world.own me = []) :
    Safe (deployment.setting grounded me) (Returned deployment me)
      (fun _ _ => True)
      (deployment.program me) world := by
  unfold Deployment.program
  generalize deployment.backends me = backend
  generalize working : deployment.workload me = operation
  cases operation with
  | acquireLease =>
      apply (writeCapable_does backend).then
      intro _ capable moved _
      apply ensureLayout_does.then
      intro _ laid onward _
      have since := moved.trans onward
      apply acquireAgain_safe lawful backend (since.inv inv) working
      rw [since.own, own]
  | readState =>
      exact quiet_safe (readState_does backend)
        (fun _ => by rw [working]; trivial) (fun _ _ => id) own
  | publish publication =>
      have published : Safe (deployment.setting grounded me)
          (fun _ final => ∃ result, Admitted me false result final)
          (fun _ _ => True)
          (publish deployment.kernel backend publication) world := by
        apply publication_safe lawful backend inv (by rw [working]; rfl)
          (by rw [working]; rfl) own
        intro middle admits
        apply Safe.bind admits
        intro result final admitted
        apply Safe.ret
        intro last drift
        exact ⟨result, admitted.moved (Later.of_drift drift).own⟩
      apply Safe.bind published
      rintro head middle ⟨result, admitted⟩
      apply Safe.ret
      intro final drift
      exact ⟨by rw [working]; trivial, result,
        admitted.moved (Later.of_drift drift).own⟩
  | publishThen publication =>
      have published : Safe (deployment.setting grounded me) (Admitted me true)
          (fun _ _ => True)
          (publishThen deployment.kernel backend publication) world := by
        apply publication_safe lawful backend inv (by rw [working]; rfl)
          (by rw [working]; rfl) own
        exact fun _ admits => admits
      apply Safe.bind published
      intro result middle admitted
      apply Safe.ret
      intro final drift
      exact ⟨by rw [working]; trivial,
        admitted.moved (Later.of_drift drift).own⟩
  | putDatum object =>
      have supplied : deployment.Supplied object :=
        ⟨me, by rw [working]; exact List.mem_cons_self⟩
      exact quiet_safe (putDatum_does lawful backend supplied)
        (fun _ => by rw [working]; trivial) (fun _ _ => id) own
  | getDatum meaning =>
      exact quiet_safe (getDatum_does meaning inv)
        (fun _ => by rw [working]; trivial) (fun _ _ => id) own
  | rebuildDatumIndex =>
      exact quiet_safe (rebuildDatumIndex_does backend inv)
        (fun _ => by rw [working]; trivial) (fun _ _ => id) own
  | verifiedSnapshot =>
      exact quiet_safe (verifiedSnapshot_does backend)
        (fun _ => by rw [working]; trivial) (fun _ _ => id) own

end Calls

section Systems

variable {start : World} {system later : HostSystem}

/-- What the soundness of a deployment rests on. -/
structure Sound (deployment : Deployment) (grounded : Prop) (start : World) :
    Prop where
  lawful : deployment.kernel.Lawful
  untouched : Untouched start
  starts : grounded → deployment.Grounded start

/-- What holds when a call has returned. -/
def Ended (deployment : Deployment) (grounded : Prop) (start : World)
    (me : CallId) (outcome : Outcome) (world : World) : Prop :=
  Inv deployment grounded start.state world ∧
    Returned deployment me outcome world

/-- All running calls are safe. -/
def AllCallsSafe (deployment : Deployment) (grounded : Prop) (start : World)
    (system : HostSystem) : Prop :=
  System.AllSafe (deployment.protocol grounded)
    (Ended deployment grounded start) (fun _ _ _ => True) system

/-- A safe call also keeps the invariant up to its end. -/
theorem Safe.withInv
    {α : Type} {program : HostProgram α} {ok : α → World → Prop}
    (inv : Inv deployment grounded start.state world)
    (safe : Safe (deployment.setting grounded me) ok (fun _ _ => True) program
      world) :
    Safe (deployment.setting grounded me)
      (fun value final =>
        Inv deployment grounded start.state final ∧ ok value final)
      (fun _ _ => True) program world := by
  have drifted {first last : World}
      (drift : (deployment.setting grounded me).drift first last)
      (held : Inv deployment grounded start.state first) :
      Inv deployment grounded start.state last :=
    (Later.of_drift drift).inv held
  induction program generalizing world with
  | ret value =>
      intro final drift
      exact ⟨drifted drift inv, safe final drift⟩
  | fail fault => exact fun _ _ => trivial
  | call request next inductionHypothesis =>
      intro middle drift
      obtain ⟨permitted, continues⟩ := safe middle drift
      refine ⟨permitted, fun reply after executed => ?_⟩
      apply inductionHypothesis reply _ (continues reply after executed)
      exact (drifted drift inv).effect (effect_of_exec permitted executed)

theorem resumable
    (lawful : deployment.kernel.Lawful) :
    System.Resumable (deployment.protocol grounded) deployment.resume
      (Ended deployment grounded start) (fun _ _ _ => True) := by
  rintro me outcome program world resumed ⟨inv, returned⟩
  cases outcome with
  | again =>
      cases resumed
      have working : deployment.workload me = .acquireLease := by
        have yields := returned.yields
        generalize deployment.workload me = operation at yields ⊢
        cases operation <;> first | rfl | cases yields
      exact Safe.withInv inv
        (acquireAgain_safe lawful _ inv working returned.left)
  | _ => cases resumed

/-- At the start, all calls are safe. -/
theorem Sound.initial
    (sound : Sound deployment grounded start) :
    AllCallsSafe deployment grounded start (deployment.initial start) := by
  intro me program running
  have here : deployment.program me = program := Option.some.inj running
  rw [← here]
  have inv := inv_start sound.untouched sound.starts
  apply Safe.withInv inv
  apply callProgram_safe sound.lawful inv
  change (deployment.initial start).world.history.filter _ = []
  change start.history.filter _ = []
  rw [sound.untouched.history]
  rfl

/-- In every reachable system, all running calls are safe. -/
theorem Sound.allSafe
    (sound : Sound deployment grounded start)
    (reaches : deployment.Reaches start system) :
    AllCallsSafe deployment grounded start system :=
  System.Steps.allSafe (resumable sound.lawful) reaches sound.initial

/-- In every reachable system, the store satisfies the invariant. -/
theorem Sound.inv
    (sound : Sound deployment grounded start)
    (reaches : deployment.Reaches start system) :
    Inv deployment grounded start.state system.world :=
  System.Steps.preserves (resumable sound.lawful) (fun move => Inv.move move)
    reaches sound.initial (inv_start sound.untouched sound.starts)

/-- Steps between reachable systems move the store as the protocol permits. -/
theorem Sound.moves
    (sound : Sound deployment grounded start)
    (reaches : deployment.Reaches start system)
    (steps : deployment.Steps system later) :
    Relation.ReflTransGen (deployment.protocol grounded).Move system.world
      later.world :=
  System.Steps.moves (resumable sound.lawful) steps (sound.allSafe reaches)

/-- A call that returned has the events of its outcome. -/
theorem Sound.returned
    (sound : Sound deployment grounded start)
    (reaches : deployment.Reaches start system)
    {outcome : Outcome}
    (done : system.programs me = some (.ret outcome)) :
    Returned deployment me outcome system.world :=
  (System.AllSafe.returned (sound.allSafe reaches) done).2

theorem Deployment.Reaches.trans
    (reaches : deployment.Reaches start system)
    (steps : deployment.Steps system later) :
    deployment.Reaches start later :=
  Relation.ReflTransGen.trans reaches steps

/-- An empty store is a sound start. -/
theorem Empty.isGrounded
    (empty : Empty start) :
    deployment.Grounded start := by
  constructor
  · intro bytes current
    rw [World.state, empty.noLeaf] at current
    cases current
  · intro path bytes present
    rw [empty.noLeaf] at present
    cases present

end Systems

end SimStorage.Journal.Host
