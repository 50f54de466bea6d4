import SimStorage.Journal.Host.History

namespace SimStorage.Journal.Host

/-!
# Quiet parts of a call

Most of a call neither exchanges the state leaf nor runs a commit action: it
reads, creates directories and writes leaves of the v2 layout.  `Does` judges
such a part: the store moves on, the call leaves no event of its own, and a
returned value satisfies its postcondition.
-/

open Codec NativeCodec Interaction

variable {α β : Type}

/-- The events of one call, latest first. -/
def World.own (world : World) (me : CallId) : List Event :=
  world.history.filter fun event => event.caller = some me

/-- A store reached by permitted moves, without an event of the call. -/
structure Later (deployment : Deployment) (grounded : Prop) (me : CallId)
    (world after : World) : Prop where
  moves : Relation.ReflTransGen (deployment.protocol grounded).Move world after
  own : after.own me = world.own me

/-- A part of a call that is safe and leaves no event of the call. -/
def Does (deployment : Deployment) (grounded : Prop) (me : CallId)
    (program : HostProgram α) (world : World) (ok : α → World → Prop) : Prop :=
  Safe (deployment.setting grounded me)
    (fun value final => Later deployment grounded me world final ∧
      ok value final)
    (fun _ _ => True)
    program world

variable {deployment : Deployment} {grounded : Prop} {me : CallId}
variable {first : Option Bytes} {world middle after : World}

section Movement

variable {caller : Option CallId}

/-- The moves of others leave no event of the call. -/
theorem Deployment.Effect.own
    (effect : deployment.Effect grounded caller world after)
    (different : caller ≠ some me) :
    after.own me = world.own me := by
  cases effect with
  | quiet _ history => rw [World.own, World.own, history]
  | written _ _ _ history => rw [World.own, World.own, history]
  | exchanged _ _ _ history =>
      rw [World.own, World.own, history]
      simp [Event.caller, different]
  | acted here _ _ history =>
      rw [World.own, World.own, history]
      rw [here] at different
      simp [Event.caller, different]
  | legacy _ _ _ _ _ _ history => rw [World.own, World.own, history]

namespace Later

@[refl] theorem refl : Later deployment grounded me world world :=
  ⟨.refl, rfl⟩

theorem trans
    (earlier : Later deployment grounded me world middle)
    (later : Later deployment grounded me middle after) :
    Later deployment grounded me world after :=
  ⟨earlier.moves.trans later.moves, later.own.trans earlier.own⟩

theorem of_drift
    (drift : (deployment.setting grounded me).drift world after) :
    Later deployment grounded me world after := by
  induction drift with
  | refl => exact .refl
  | tail _ last inductionHypothesis =>
      obtain ⟨caller, different, effect⟩ := effect_of_foreign last
      exact inductionHypothesis.trans
        ⟨.single last.move, effect.own different⟩

/-- What every effect preserves, moving on preserves. -/
theorem preserves
    {holds : World → Prop}
    (step : ∀ {caller world after},
      deployment.Effect grounded caller world after →
      holds world → holds after)
    (later : Later deployment grounded me world after)
    (now : holds world) :
    holds after := by
  have moves := later.moves
  clear later
  induction moves with
  | refl => exact now
  | tail _ last inductionHypothesis =>
      obtain ⟨caller, effect⟩ := effect_of_move last
      exact step effect inductionHypothesis

theorem inv
    (later : Later deployment grounded me world after)
    (inv : Inv deployment grounded first world) :
    Inv deployment grounded first after :=
  later.preserves (fun effect held => held.effect effect) inv

theorem settled
    (later : Later deployment grounded me world after)
    {path : Path} {bytes : Bytes}
    (settled : deployment.Settled world path bytes) :
    deployment.Settled after path bytes :=
  later.preserves (fun effect held => effect.settled held) settled

theorem ever
    (later : Later deployment grounded me world after)
    {bytes : Bytes}
    (ever : world.Ever bytes) :
    after.Ever bytes :=
  later.preserves (fun effect held => effect.ever held) ever

theorem commits
    (later : Later deployment grounded me world after)
    {leaf : Option Bytes} {log : List JournalEntry} {state : StoredState}
    (commits : deployment.Commits world leaf log state) :
    deployment.Commits after leaf log state :=
  later.preserves (fun effect held => effect.commits held) commits

/-- What a committed v1 head reaches keeps its content. -/
theorem v1Constant
    (later : Later deployment grounded me world after)
    {bytes : Bytes} {path : Path}
    (ever : world.Ever bytes)
    (leaf : V1Leaf deployment.kernel world.leaf bytes path) :
    after.leaf path = world.leaf path ∧
      V1Leaf deployment.kernel after.leaf bytes path ∧ after.Ever bytes := by
  have held : ∀ {caller world' after'},
      deployment.Effect grounded caller world' after' →
      (world'.leaf path = world.leaf path ∧
        V1Leaf deployment.kernel world'.leaf bytes path ∧
        world'.Ever bytes) →
      (after'.leaf path = world.leaf path ∧
        V1Leaf deployment.kernel after'.leaf bytes path ∧
        after'.Ever bytes) := by
    rintro caller world' after' effect ⟨same, reached, been⟩
    have outside : path ≠ statePath ∧ ¬ V2Layout path := by
      cases leaf with
      | entry _ _ => exact v1EntryPath_outside _
      | object _ _ _ _ _ => exact v1ObjectPath_outside _
    refine ⟨?_, effect.v1Leaf been reached, effect.ever been⟩
    rw [effect.constant outside.1 outside.2 (.inr ⟨bytes, been, reached⟩)]
    exact same
  exact later.preserves held ⟨rfl, leaf, ever⟩

end Later

end Movement

namespace Does

variable {ok ok' : α → World → Prop} {program : HostProgram α}

theorem weaken
    (does : Does deployment grounded me program world ok)
    (weaker : ∀ value final, Later deployment grounded me world final →
      ok value final → ok' value final) :
    Does deployment grounded me program world ok' :=
  Safe.weaken does
    (fun value final both => ⟨both.1, weaker value final both.1 both.2⟩)
    (fun _ _ _ => trivial)

/-- A part that starts later leaves no event since before. -/
theorem since
    (later : Later deployment grounded me world middle)
    (does : Does deployment grounded me program middle ok) :
    Safe (deployment.setting grounded me)
      (fun value final => Later deployment grounded me world final ∧
        ok value final)
      (fun _ _ => True)
      program middle :=
  Safe.weaken does
    (fun _ _ both => ⟨later.trans both.1, both.2⟩)
    (fun _ _ _ => trivial)

theorem bind
    {next : α → HostProgram β} {done : β → World → Prop}
    (first : Does deployment grounded me program world ok)
    (rest : ∀ value middle, Later deployment grounded me world middle →
      ok value middle → Does deployment grounded me (next value) middle done) :
    Does deployment grounded me (program >>= next) world done :=
  Safe.bind first fun value middle both =>
    (rest value middle both.1 both.2).since both.1

theorem ret
    {value : α}
    (done : ∀ final, Later deployment grounded me world final →
      ok value final) :
    Does deployment grounded me (.ret value) world ok :=
  Safe.ret fun final drift =>
    ⟨.of_drift drift, done final (.of_drift drift)⟩

theorem fail
    (fault : Fault) :
    Does deployment grounded me (.fail fault) world ok :=
  Safe.fail fun _ _ => trivial

theorem pureResult
    {result : Result α}
    (done : ∀ value, result = .ok value →
      ∀ final, Later deployment grounded me world final → ok value final) :
    Does deployment grounded me (pureResult result) world ok := by
  cases result with
  | ok value => exact ret (done value rfl)
  | error fault => exact fail fault

/-- A check without requests, and the rest. -/
theorem check
    {result : Result α} {next : α → HostProgram β}
    {done : β → World → Prop}
    (rest : ∀ value, result = .ok value →
      Does deployment grounded me (next value) world done) :
    Does deployment grounded me (Host.pureResult result >>= next) world
      done := by
  cases result with
  | ok value => exact rest value rfl
  | error fault => exact fail fault

/-- A permitted request that leaves no event, and the rest. -/
theorem call
    {request : HostCall} {next : HostReply request → HostProgram α}
    (permitted : ∀ middle, Later deployment grounded me world middle →
      deployment.allowed grounded me request middle)
    (rest : ∀ middle reply after, Later deployment grounded me world middle →
      Exec deployment.port me request middle reply after →
      after.own me = middle.own me ∧
        (Later deployment grounded me world after →
          Does deployment grounded me (next reply) after ok)) :
    Does deployment grounded me (.call request next) world ok := by
  apply Safe.call
  intro middle drift
  have moved := Later.of_drift drift
  refine ⟨permitted middle moved, fun reply after executed => ?_⟩
  obtain ⟨own, continues⟩ := rest middle reply after moved executed
  have now : Later deployment grounded me world after :=
    moved.trans ⟨.single (.issue (permitted middle moved) executed), own⟩
  exact (continues now).since now

/-- A reader leaves no event. -/
theorem reader
    (reads : ReadsOnly program) :
    Does deployment grounded me program world (fun _ _ => True) := by
  apply Safe.weaken (@ReadsOnly.safe α (deployment.setting grounded me)
    deployment.port me world program reads rfl fun _ _ => trivial)
  · intro value final drift
    exact ⟨.of_drift drift, trivial⟩
  · intro fault final _
    trivial

/-- A reader of settled leaves returns what they say. -/
theorem anchored
    {outcome : Result α}
    (reads : ReadsOnly program)
    (anchored : Anchored (deployment.Settled world) program outcome) :
    Does deployment grounded me program world
      (fun value _ => outcome = .ok value) := by
  apply Safe.weaken (@Anchored.safe α (deployment.Settled world)
    (deployment.setting grounded me) deployment.port me world program outcome
    reads anchored rfl (fun _ _ => trivial) fun later drift path bytes found =>
      ((Later.of_drift drift).settled found).2)
  · intro value final both
    exact ⟨.of_drift both.2, both.1⟩
  · intro fault final _
    trivial

end Does

section Requests

theorem createDir_does
    {path : Path}
    (layout : LayoutDir deployment.Supplied path) :
    Does deployment grounded me (createDir path) world (fun _ _ => True) := by
  apply Does.call
  · intro _ _
    exact layout
  intro middle reply after _ executed
  refine ⟨by cases executed <;> rfl, fun _ => ?_⟩
  cases reply with
  | ok _ => exact .ret fun _ _ => trivial
  | error error => exact .fail _

theorem ensureLayout_does :
    Does deployment grounded me ensureLayout world (fun _ _ => True) := by
  have layout {path : Path}
      (listed : path ∈
        [objectsRoot, ["namespaces-v2"], ["compat-v1"], ["temporary"]])
      (world : World) :
      Does deployment grounded me (createDir path) world (fun _ _ => True) :=
    createDir_does (.root listed)
  apply (layout (by simp) _).bind
  intro _ _ _ _
  apply (layout (by simp) _).bind
  intro _ _ _ _
  apply (layout (by simp) _).bind
  intro _ _ _ _
  exact layout (by simp) _

theorem stateBytes_does :
    Does deployment grounded me stateBytes world
      (fun observed final => ∀ bytes, observed = some bytes →
        final.Ever bytes) := by
  apply Does.call
  · intro _ _
    trivial
  intro middle reply after _ executed
  refine ⟨by cases executed <;> rfl, fun _ => ?_⟩
  cases executed with
  | read present =>
      apply Does.ret
      intro final later bytes same
      cases same
      exact later.ever (.inl present)
  | readMissing _ kind =>
      simp only [kind, if_true]
      exact .ret fun _ _ _ absent => nomatch absent
  | readFailed _ kind =>
      simp only [kind, if_false]
      exact .fail _

theorem trip_does
    (point : Failpoint) :
    Does deployment grounded me (trip point) world (fun _ _ => True) := by
  apply Does.call
  · intro _ _
    trivial
  intro middle reply after _ executed
  refine ⟨by cases executed; rfl, fun _ => ?_⟩
  cases reply with
  | true => exact .fail _
  | false => exact .ret fun _ _ => trivial

theorem tripAdmission_does
    (point : Failpoint) :
    Does deployment grounded me (tripAdmission point) world
      (fun _ _ => True) := by
  apply Does.call
  · intro _ _
    trivial
  intro middle reply after _ executed
  refine ⟨by cases executed; rfl, fun _ => ?_⟩
  cases reply with
  | true => exact .fail _
  | false =>
      apply Does.call
      · intro _ _
        trivial
      intro middle reply after _ executed
      refine ⟨by cases executed; rfl, fun _ => ?_⟩
      cases reply with
      | true => exact .fail _
      | false => exact .ret fun _ _ => trivial

theorem writeCapable_does
    (backend : HostDirJournalBackend) :
    Does deployment grounded me (writeCapable backend) world
      (fun _ _ => True) := by
  unfold writeCapable
  split
  · exact .fail _
  · split
    · exact .fail _
    · exact .ret fun _ _ => trivial

/-- An exchange for an absent leaf settles the bytes that it leaves there. -/
theorem exchangeLeaf_does
    {path : Path} {bytes : Bytes}
    (placed : Placed deployment.kernel deployment.Supplied path bytes) :
    Does deployment grounded me (compareExchange path none (some bytes)) world
      (fun outcome final =>
        outcome.exchanged = true ∨ outcome.observed = some bytes →
          deployment.Settled final path bytes) := by
  have notState := placed.path_ne
  have settles {final : World} (present : final.leaf path = some bytes) :
      deployment.Settled final path bytes :=
    ⟨⟨notState, .inr (.inl placed.layout)⟩, present⟩
  have permitted : ∀ middle, deployment.allowed grounded me
      (.compareExchange path none (some bytes)) middle := by
    intro middle
    simp only [Deployment.allowed, if_neg notState, true_and]
    exact ⟨bytes, rfl, placed⟩
  apply Does.call
  · intro middle _
    exact permitted middle
  intro middle reply after _ executed
  have history : after.history = middle.history := by
    cases executed <;> simp [World.replace, World.offer, notState]
  refine ⟨by rw [World.own, World.own, history], fun _ => ?_⟩
  cases executed with
  | exchanged _ _ =>
      apply Does.ret
      intro final later _
      apply later.settled (settles _)
      rw [World.leaf_replace, if_pos rfl]
  | missed _ _ =>
      apply Does.ret
      rintro final later (impossible | same)
      · cases impossible
      · exact later.settled (settles same)
  | exchangeFailed _ => exact .fail _
  | exchangeUnanswered _ _ _ => exact .fail _

/-- A leaf that is written once settles with the bytes offered for it. -/
theorem putImmutable_does
    {path : Path} {bytes : Bytes}
    (placed : Placed deployment.kernel deployment.Supplied path bytes) :
    Does deployment grounded me (putImmutable path bytes) world
      (fun _ final => deployment.Settled final path bytes) := by
  apply (exchangeLeaf_does placed).bind
  intro outcome middle _ settled
  by_cases there : outcome.exchanged = true ∨ outcome.observed = some bytes
  · rw [if_pos there]
    apply Does.ret
    intro final later
    exact later.settled (settled there)
  · rw [if_neg there]
    exact .fail _

end Requests

end SimStorage.Journal.Host
