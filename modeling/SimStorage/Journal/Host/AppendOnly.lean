import SimStorage.Journal.Host.Soundness

namespace SimStorage.Journal.Host

/-!
# The host journal is append-only

From any readable store, at any two points of any run, the earlier log is a
prefix of the later one; every step leaves the log alone or appends one whole
batch after the head that it expects.
-/

open Codec NativeCodec Interaction

variable {deployment : Deployment} {grounded : Prop} {me : CallId}
variable {start world after : World} {system later : HostSystem}

/-- A publication whose call returned. -/
def Deployment.Published (deployment : Deployment) (system : HostSystem)
    (me : CallId) (publication : Publication) : Prop :=
  (deployment.workload me).publication = some publication ∧
    ∃ outcome, system.programs me = some (.ret outcome)

section Decoding

/-- What the state leaf commits is what the store decodes to. -/
theorem decodes_iff
    {log : List JournalEntry} {state other : StoredState}
    (commits : deployment.Commits world world.state log state) :
    world.Decodes deployment.kernel other ↔ other = state := by
  have present := commits.mono fun _ _ settled => settled.2
  constructor
  · rintro ⟨backend, anchored⟩
    have expected := Committed.anchored present backend
    have same := anchored.unique
      (fun _ _ _ found otherFound =>
        Option.some.inj (found.symm.trans otherFound))
      expected
    split at same
    · exact Except.ok.inj same
    · cases same
  · rintro rfl
    refine ⟨⟨⟨true, true⟩, log.length⟩, ?_⟩
    have anchored := Committed.anchored present ⟨⟨true, true⟩, log.length⟩
    rwa [if_pos (Nat.le_refl _)] at anchored

theorem decodes_listed
    {log : List JournalEntry} {state other : StoredState}
    (commits : deployment.Commits world world.state log state)
    (decodes : world.Decodes deployment.kernel other) :
    other.entries.list = log := by
  rw [(decodes_iff commits).mp decodes]
  exact commits.holds.listed

end Decoding

section Movement

/-- What moves keep of the invariant and the history. -/
theorem moves_keep
    (moves : Relation.ReflTransGen (deployment.protocol grounded).Move world
      after)
    {first : Option Bytes}
    (inv : Inv deployment grounded first world) :
    Inv deployment grounded first after ∧
      (∃ events, after.history = events ++ world.history) ∧
      Recorded deployment grounded after first world.history world.state ∧
      ∀ leaf log state, deployment.Commits world leaf log state →
        deployment.Commits after leaf log state := by
  induction moves with
  | refl => exact ⟨inv, ⟨[], rfl⟩, inv.recorded, fun _ _ _ => id⟩
  | tail _ last inductionHypothesis =>
      obtain ⟨held, ⟨events, history⟩, recorded, commits⟩ :=
        inductionHypothesis
      obtain ⟨_, effect⟩ := effect_of_move last
      obtain ⟨more, grown⟩ := effect.history_grows
      refine ⟨held.effect effect, ⟨more ++ events, ?_⟩, recorded.mono effect,
        fun leaf log state found => effect.commits (commits leaf log state found)⟩
      rw [grown, history, List.append_assoc]

/-- The log of a later store continues the log of an earlier one. -/
theorem commits_later
    (moves : Relation.ReflTransGen (deployment.protocol grounded).Move world
      after)
    {first : Option Bytes}
    (inv : Inv deployment grounded first world)
    (isGrounded : grounded)
    (modern : ¬ deployment.port.legacy)
    {log : List JournalEntry} {state : StoredState}
    (commits : deployment.Commits world world.state log state) :
    ∃ more last,
      deployment.Commits after after.state (log ++ more) last := by
  obtain ⟨held, ⟨events, history⟩, recorded, kept⟩ := moves_keep moves inv
  have whole := held.recorded
  rw [history] at whole
  exact whole.extends recorded isGrounded modern (kept _ _ _ commits)

/-- One permitted move extends the log by nothing or by one batch. -/
theorem Deployment.Effect.log
    {caller : Option CallId}
    (effect : deployment.Effect grounded caller world after)
    (isGrounded : grounded)
    (modern : ¬ deployment.port.legacy)
    {log : List JournalEntry} {state : StoredState}
    (commits : deployment.Commits world world.state log state) :
    ∃ grown last, deployment.Commits after after.state grown last ∧
      (grown = log ∨ Extends deployment caller log grown ∧
        after.history =
          .exchanged caller world.state after.state :: world.history) := by
  have kept := effect.commits commits
  have unchanged (same : after.state = world.state) :
      ∃ grown last, deployment.Commits after after.state grown last ∧
        (grown = log ∨ Extends deployment caller log grown ∧
          after.history =
            .exchanged caller world.state after.state :: world.history) :=
    ⟨log, state, same ▸ kept, .inl rfl⟩
  cases effect with
  | quiet leaves _ => exact unchanged (leaves statePath)
  | written placed _ leaves _ =>
      apply unchanged
      rw [World.state, leaves, if_neg (Ne.symm placed.path_ne)]
      rfl
  | @exchanged old new same exchange leaves history =>
      have current : after.state = new := by
        rw [World.state, leaves, if_pos rfl]
      rw [same] at kept
      obtain ⟨grown, last, now, extends'⟩ :=
        (Deployment.Effect.exchange (.exchanged same exchange leaves history)
          exchange).logs isGrounded modern kept
      refine ⟨grown, last, current ▸ now, .inr ⟨extends', ?_⟩⟩
      rw [history, same, current]
  | acted _ _ leaves _ => exact unchanged (leaves statePath)
  | legacy _ legacy _ _ _ _ _ => exact absurd legacy modern

end Movement

section Reachable

/-- A publication whose call returned has exchanged the state leaf. -/
theorem Returned.exchanged
    {outcome : Outcome} {publication : Publication}
    (returned : Returned deployment me outcome world)
    (working : (deployment.workload me).publication = some publication) :
    ∃ old new, .exchanged (some me) old new ∈ world.history := by
  have inHistory {event : Event} (member : event ∈ world.own me) :
      event ∈ world.history :=
    (List.mem_filter.mp member).1
  obtain ⟨yields, left⟩ := returned
  have admitted : ∃ guarded result, Admitted me guarded result world := by
    cases operation : deployment.workload me <;> rw [operation] at yields
    case publish publication =>
      cases outcome <;> cases yields
      obtain ⟨result, admitted⟩ := left
      exact ⟨false, result, admitted⟩
    case publishThen publication =>
      cases outcome <;> cases yields
      exact ⟨true, _, left⟩
    all_goals
      rw [operation] at working
      cases working
  obtain ⟨guarded, result, old, new, events⟩ := admitted
  refine ⟨old, new, inHistory ?_⟩
  cases disposition : result.disposition with
  | committedActionInvoked =>
      rw [disposition] at events
      cases guarded with
      | true =>
          rw [show world.own me = _ from events]
          simp
      | false =>
          rw [show world.own me = _ from events]
          simp
  | alreadyCommittedActionNotInvoked =>
      rw [disposition] at events
      rw [events.2]
      simp

/-- A deployment without a v1 writer, started from a readable store. -/
structure Modern (deployment : Deployment) (start : World) : Prop where
  lawful : deployment.kernel.Lawful
  modern : ¬ deployment.port.legacy
  untouched : Untouched start
  grounded : deployment.Grounded start
  readable : Readable deployment start

theorem Modern.sound
    (modern : Modern deployment start) :
    Sound deployment True start :=
  ⟨modern.lawful, modern.untouched, fun _ => modern.grounded⟩

theorem Empty.modern
    (empty : Empty start)
    (lawful : deployment.kernel.Lawful)
    (modern : ¬ deployment.port.legacy) :
    Modern deployment start := by
  refine ⟨lawful, modern, empty.toUntouched, empty.isGrounded, [], .empty, ?_⟩
  rw [World.state, empty.noLeaf]
  exact .absent

/-- Every reachable store commits a log. -/
theorem Modern.commits
    (modern : Modern deployment start)
    (reaches : deployment.Reaches start system) :
    ∃ log state,
      deployment.Commits system.world system.world.state log state := by
  obtain ⟨log, state, readable⟩ := modern.readable
  have begun := inv_start modern.untouched
    (fun _ : True => modern.grounded)
  have moves := modern.sound.moves .refl reaches
  obtain ⟨more, last, commits⟩ :=
    commits_later moves begun trivial modern.modern readable
  exact ⟨_, last, commits⟩

/-- The log of a later system continues the log of an earlier one. -/
theorem Modern.commits_later
    (modern : Modern deployment start)
    (reaches : deployment.Reaches start system)
    (steps : deployment.Steps system later)
    {log : List JournalEntry} {state : StoredState}
    (commits :
      deployment.Commits system.world system.world.state log state) :
    ∃ more last, deployment.Commits later.world later.world.state
      (log ++ more) last :=
  Host.commits_later (modern.sound.moves reaches steps)
    (modern.sound.inv reaches) trivial modern.modern commits

/-- One step extends the log by nothing or by one batch. -/
theorem Modern.commits_step
    (modern : Modern deployment start)
    (reaches : deployment.Reaches start system)
    (step : deployment.Step system later)
    {log : List JournalEntry} {state : StoredState}
    (commits :
      deployment.Commits system.world system.world.state log state) :
    ∃ grown last,
      deployment.Commits later.world later.world.state grown last ∧
        (grown = log ∨ ∃ caller, Extends deployment caller log grown ∧
          later.world.history =
            .exchanged caller system.world.state later.world.state ::
              system.world.history) := by
  obtain ⟨_, same | move⟩ :=
    step.sound (resumable modern.lawful) (modern.sound.allSafe reaches)
  · rw [same]
    exact ⟨log, state, commits, .inl rfl⟩
  · obtain ⟨caller, effect⟩ := effect_of_move move
    obtain ⟨grown, last, now, extends'⟩ :=
      effect.log trivial modern.modern commits
    refine ⟨grown, last, now, ?_⟩
    rcases extends' with unchanged | more
    · exact .inl unchanged
    · exact .inr ⟨caller, more⟩

/-- The exchange that a call left in the history kept its promise. -/
theorem Modern.exchange_of_own
    (modern : Modern deployment start)
    (reaches : deployment.Reaches start system)
    {caller : Option CallId} {old new : Option Bytes}
    (member : .exchanged caller old new ∈ system.world.history) :
    ∃ earlier, Recorded deployment True system.world start.state
        (.exchanged caller old new :: earlier) new ∧
      deployment.Exchange True system.world caller old new ∧
      ∃ events, system.world.history =
        events ++ .exchanged caller old new :: earlier := by
  have inv := modern.sound.inv reaches
  obtain ⟨events, earlier, cut⟩ := List.append_of_mem member
  obtain ⟨before, exchange⟩ := inv.recorded.before cut
  exact ⟨earlier, .exchanged before exchange, exchange, events, cut⟩

/-- A batch that a call exchanged into the journal stays in its log. -/
theorem Modern.logged
    (modern : Modern deployment start)
    (reaches : deployment.Reaches start system)
    {publication : Publication} {old new : Option Bytes}
    (working : (deployment.workload me).publication = some publication)
    (member : .exchanged (some me) old new ∈ system.world.history)
    {log : List JournalEntry} {state : StoredState}
    (commits :
      deployment.Commits system.world system.world.state log state) :
    ∀ entry ∈ publication.entries, entry ∈ log := by
  obtain ⟨earlier, recorded, exchange, events, cut⟩ :=
    modern.exchange_of_own reaches member
  have whole := (modern.sound.inv reaches).recorded
  rw [cut] at whole
  have batch : ∃ found last,
      deployment.Commits system.world new found last ∧
        ∀ entry ∈ publication.entries, entry ∈ found := by
    cases exchange with
    | leased leasing _ =>
        rw [leasing] at working
        cases working
    | appended other appends =>
        rw [working] at other
        cases other
        obtain ⟨before, _, last, _, now⟩ := appends.logs trivial
        exact ⟨_, last, now, fun entry inside =>
          List.mem_append_right _ inside⟩
    | confirmed other confirms =>
        rw [working] at other
        cases other
        obtain ⟨found, last, now, inside⟩ := confirms.logs trivial
        exact ⟨found, last, now, inside⟩
  obtain ⟨found, last, now, inside⟩ := batch
  obtain ⟨more, final, current⟩ :=
    whole.extends recorded trivial modern.modern now
  obtain ⟨same, _⟩ := commits.unique current
  intro entry here
  rw [same]
  exact List.mem_append_left _ (inside entry here)

/-- The batch of a publication whose call returned is in the log. -/
theorem Modern.published
    (modern : Modern deployment start)
    (reaches : deployment.Reaches start system)
    {publication : Publication}
    (published : deployment.Published system me publication)
    {log : List JournalEntry} {state : StoredState}
    (commits :
      deployment.Commits system.world system.world.state log state) :
    ∀ entry ∈ publication.entries, entry ∈ log := by
  obtain ⟨working, outcome, done⟩ := published
  have returned := modern.sound.returned reaches done
  obtain ⟨old, new, member⟩ := returned.exchanged working
  exact modern.logged reaches working member commits

/-- The journal that runs of a deployment keep is append-only. -/
structure Deployment.AppendOnly (deployment : Deployment) (start : World) :
    Prop where
  /-- Every reachable store decodes to a state. -/
  decodes : ∀ system, deployment.Reaches start system →
    ∃ state, system.world.Decodes deployment.kernel state
  /-- The entries at a point are a prefix of the entries later. -/
  grows : ∀ earlier later before after,
    deployment.Reaches start earlier → deployment.Steps earlier later →
    earlier.world.Decodes deployment.kernel before →
    later.world.Decodes deployment.kernel after →
    before.entries.list <+: after.entries.list
  /-- A step appends one publication's batch after its head, or nothing. -/
  appends : ∀ system next before after,
    deployment.Reaches start system → deployment.Step system next →
    system.world.Decodes deployment.kernel before →
    next.world.Decodes deployment.kernel after →
    after.entries.list = before.entries.list ∨
      ∃ me publication,
        (deployment.workload me).publication = some publication ∧
        next.world.history =
          .exchanged (some me) system.world.state next.world.state ::
            system.world.history ∧
        publication.expected = headAfter none before.entries.list ∧
        after.entries.list = before.entries.list ++ publication.entries
  /-- Publications that returned agree on the entry at every sequence. -/
  agrees : ∀ first second one two publication another,
    deployment.Reaches start first → deployment.Steps first second →
    deployment.Published first one publication →
    deployment.Published second two another →
    ∀ entry ∈ publication.entries, ∀ other ∈ another.entries,
      entry.sequence = other.sequence → entry = other

/-- From an empty store, every run keeps an append-only journal. -/
theorem host_log_append_only
    (lawful : deployment.kernel.Lawful)
    (modern : ¬ deployment.port.legacy)
    (empty : Empty start) :
    deployment.AppendOnly start := by
  have sound := empty.modern lawful modern
  refine ⟨?_, ?_, ?_, ?_⟩
  · intro system reaches
    obtain ⟨log, state, commits⟩ := sound.commits reaches
    exact ⟨state, (decodes_iff commits).mpr rfl⟩
  · intro earlier later before after reaches steps decodes decodesLater
    obtain ⟨log, state, commits⟩ := sound.commits reaches
    obtain ⟨more, last, commitsLater⟩ :=
      sound.commits_later reaches steps commits
    rw [decodes_listed commits decodes,
      decodes_listed commitsLater decodesLater]
    exact List.prefix_append log more
  · intro system next before after reaches step decodes decodesLater
    obtain ⟨log, state, commits⟩ := sound.commits reaches
    obtain ⟨grown, last, commitsLater, extends'⟩ :=
      sound.commits_step reaches step commits
    rw [decodes_listed commits decodes,
      decodes_listed commitsLater decodesLater]
    rcases extends' with unchanged | ⟨caller, unchanged | appended, history⟩
    · exact .inl unchanged
    · exact .inl unchanged
    · obtain ⟨me, publication, rfl, working, expected, grown⟩ := appended
      exact .inr ⟨me, publication, working, history, expected, grown⟩
  · intro first second one two publication another reaches steps published
      publishedLater entry inside other otherInside same
    obtain ⟨log, state, commits⟩ := sound.commits reaches
    obtain ⟨more, last, commitsLater⟩ :=
      sound.commits_later reaches steps commits
    have mine := List.mem_append_left more
      (sound.published reaches published commits entry inside)
    have theirs := sound.published (reaches.trans steps) publishedLater
      commitsLater other otherInside
    have follows := commitsLater.holds.follows
    have here := follows.getElem_sequence mine
    rw [same, follows.getElem_sequence theirs] at here
    exact (Option.some.inj here).symm

/-- The reference deployment keeps an append-only journal. -/
theorem reference_log_append_only :
    Deployment.reference.AppendOnly .vacant :=
  host_log_append_only Reference.kernel_lawful id World.vacant_empty

end Reachable

end SimStorage.Journal.Host
