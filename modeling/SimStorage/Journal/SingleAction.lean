import SimStorage.Journal.Host.AppendOnly
import SimStorage.Journal.Memory.AllOrNothing

namespace SimStorage.Journal

/-!
# Commit actions run at most once

However often a batch is delivered, and by however many calls, the actions
supplied with it run at most once, directly after the exchange that committed
the batch.  Both backends are deliveries to one linked log.
-/

open Codec Interaction

namespace Host

variable {deployment : Deployment} {me : CallId}
variable {start world : World} {system : HostSystem}
variable {first leaf : Option Bytes} {history : List Event}

/-- The batch that a call publishes. -/
def Deployment.batchOf (deployment : Deployment) (me : CallId) :
    Option (List JournalEntry) :=
  (deployment.workload me).publication.map Publication.entries

/-- The event is an action that was supplied with the batch. -/
def isAction (deployment : Deployment) (batch : List JournalEntry) :
    Event → Bool
  | .acted me => deployment.batchOf me = some batch
  | .exchanged _ _ _ => false

/-- What an event of the port means for deliveries. -/
inductive Means : Event → Ledger.Event CallId → Prop where
  | committed {me : CallId} {old new : Option Bytes} :
      Means (.exchanged (some me) old new) (.committed me)
  | changed {caller : Option CallId} {old new : Option Bytes} :
      Means (.exchanged caller old new) .changed
  | acted {me : CallId} :
      Means (.acted me) (.acted me)

/-- Every readable history is a history of deliveries to the committed log. -/
theorem Recorded.delivered
    {log : List JournalEntry} {state : StoredState}
    (recorded : Recorded deployment True world first history leaf)
    (modern : ¬ deployment.port.legacy)
    (readable : deployment.Commits world first log state) :
    ∃ events found last, deployment.Commits world leaf found last ∧
      Ledger.Delivered (linking deployment.kernel) deployment.batchOf events
        found ∧
      List.Forall₂ Means history events := by
  induction recorded with
  | start =>
      exact ⟨[], log, state, readable, .start readable.holds.follows, .nil⟩
  | @exchanged caller old new history previous exchange inductionHypothesis =>
      obtain ⟨events, found, last, commits, delivered, means⟩ :=
        inductionHypothesis
      obtain ⟨grown, final, now, same | more⟩ :=
        exchange.logs trivial modern commits
      · subst same
        exact ⟨.changed :: events, grown, final, now, .changed delivered,
          .cons .changed means⟩
      · obtain ⟨me, publication, rfl, working, _, rfl⟩ := more
        have follows := (Follows.append_iff.mp now.holds.follows).2
        refine ⟨.committed me :: events, _, final, now, ?_,
          .cons .committed means⟩
        apply Ledger.Delivered.committed delivered
        · rw [Deployment.batchOf, working]
          rfl
        · rw [linking_headAfter]
          exact follows
  | @acted me publication old new history previous working appends
      inductionHypothesis =>
      obtain ⟨events, found, last, commits, delivered, means⟩ :=
        inductionHypothesis
      obtain ⟨before, state, final, here, now⟩ := appends.logs trivial
      obtain ⟨rfl, rfl⟩ := commits.unique here
      have follows := (Follows.append_iff.mp now.holds.follows).2
      refine ⟨.acted me :: .committed me :: events, _, final, now, ?_,
        .cons .acted (.cons .committed means)⟩
      apply Ledger.Delivered.acted delivered
      · rw [Deployment.batchOf, working]
        rfl
      · rw [linking_headAfter]
        exact follows

/-- An action directly follows its own call's append. -/
theorem Recorded.appended_of_acted
    {later earlier : List Event}
    (recorded : Recorded deployment True world first history leaf)
    (cut : history = later ++ .acted me :: earlier) :
    ∃ publication old new rest,
      earlier = .exchanged (some me) old new :: rest ∧
      (deployment.workload me).publication = some publication ∧
      deployment.Appends True world publication old new := by
  rw [cut] at recorded
  obtain ⟨_, here⟩ := recorded.cut
  rcases here.cons_cases with
    ⟨_, _, impossible, _⟩ | ⟨_, publication, old, rest, same, before, _,
      working, appends⟩
  · cases impossible
  · cases same
    exact ⟨publication, old, _, rest, before, working, appends⟩

/-- As many actions are recorded as are delivered. -/
theorem countP_of_means
    {events : List (Ledger.Event CallId)} {batch : List JournalEntry}
    (means : List.Forall₂ Means history events) :
    history.countP (isAction deployment batch) =
      events.countP (Ledger.Delivered.isAction deployment.batchOf batch) := by
  induction means with
  | nil => rfl
  | cons event rest inductionHypothesis =>
      rw [List.countP_cons, List.countP_cons, inductionHypothesis]
      cases event <;> rfl

/-- Commit actions on a host port run once, after their own commits. -/
structure Deployment.ActsOnce (deployment : Deployment) (start : World) :
    Prop where
  /-- The actions of all deliveries of a batch run at most once together. -/
  once : ∀ system batch, deployment.Reaches start system → batch ≠ [] →
    system.world.history.countP (isAction deployment batch) ≤ 1
  /-- An action follows the exchange that added its call's batch to the log. -/
  committed : ∀ system me later earlier, deployment.Reaches start system →
    system.world.history = later ++ .acted me :: earlier →
    ∃ publication old new rest log before after,
      earlier = .exchanged (some me) old new :: rest ∧
      (deployment.workload me).publication = some publication ∧
      deployment.Commits system.world old log before ∧
      deployment.Commits system.world new (log ++ publication.entries) after
  /-- A redelivery that was confirmed has run no action. -/
  already : ∀ system me head, deployment.Reaches start system →
    system.programs me = some (.ret (.guarded
      ⟨head, .alreadyCommittedActionNotInvoked⟩)) →
    .acted me ∉ system.world.history
  /-- A call that has not exchanged the state leaf has run no action. -/
  uncommitted : ∀ system me, deployment.Reaches start system →
    (∀ old new, .exchanged (some me) old new ∉ system.world.history) →
    .acted me ∉ system.world.history

theorem Modern.actsOnce
    (modern : Modern deployment start) :
    deployment.ActsOnce start := by
  have appended {system : HostSystem} {me : CallId}
      (reaches : deployment.Reaches start system)
      {later earlier : List Event}
      (cut : system.world.history = later ++ .acted me :: earlier) :
      ∃ publication old new rest,
        earlier = .exchanged (some me) old new :: rest ∧
        (deployment.workload me).publication = some publication ∧
        deployment.Appends True system.world publication old new :=
    (modern.sound.inv reaches).recorded.appended_of_acted cut
  refine ⟨?_, ?_, ?_, ?_⟩
  · intro system batch reaches nonempty
    obtain ⟨log, state, readable⟩ := modern.readable
    have inv := modern.sound.inv reaches
    have begun := inv_start modern.untouched (fun _ : True => modern.grounded)
    have kept := (moves_keep (modern.sound.moves .refl reaches) begun).2.2.2
      _ _ _ readable
    obtain ⟨events, found, last, _, delivered, means⟩ :=
      inv.recorded.delivered modern.modern kept
    rw [countP_of_means means]
    exact delivered.actions_once nonempty
  · intro system me later earlier reaches cut
    obtain ⟨publication, old, new, rest, before, working, appends⟩ :=
      appended reaches cut
    obtain ⟨log, state, last, here, now⟩ := appends.logs trivial
    exact ⟨publication, old, new, rest, log, state, last, before, working,
      here, now⟩
  · intro system me head reaches done member
    obtain ⟨_, old, new, same, own⟩ := modern.sound.returned reaches done
    have mine : Event.acted me ∈ system.world.own me :=
      List.mem_filter.mpr ⟨member, by simp [Event.caller]⟩
    rw [own, List.mem_singleton] at mine
    cases mine
  · intro system me reaches none member
    obtain ⟨later, earlier, cut⟩ := List.append_of_mem member
    obtain ⟨publication, old, new, rest, before, _⟩ := appended reaches cut
    apply none old new
    rw [cut, before]
    exact List.mem_append_right _
      (List.mem_cons_of_mem _ List.mem_cons_self)

end Host

namespace Memory

variable {clients : Clients}

/-- Commit actions on the memory backend run once, after their own commits. -/
structure Clients.ActsOnce (clients : Clients) : Prop where
  /-- The actions of all deliveries of a batch run at most once together. -/
  once : ∀ system batch, clients.Reaches system → batch ≠ [] →
    system.world.history.countP
      (Ledger.Delivered.isAction clients.batchOf batch) ≤ 1
  /-- An action directly follows the commit of its own call. -/
  committed : ∀ system me later earlier, clients.Reaches system →
    system.world.history = later ++ .acted me :: earlier →
    ∃ rest, earlier = .committed me :: rest
  /-- A redelivery that was recognised has run no action. -/
  already : ∀ system me head, clients.Reaches system →
    system.programs me = some (.ret (.guarded
      ⟨head, .alreadyCommittedActionNotInvoked⟩)) →
    .acted me ∉ system.world.history
  /-- A call that failed has run no action. -/
  failed : ∀ system me fault, clients.Reaches system →
    system.programs me = some (.fail fault) →
    .acted me ∉ system.world.history

theorem Clients.Assumed.actsOnce
    (assumed : clients.Assumed) :
    clients.ActsOnce := by
  have silent {system : MemorySystem} {me : CallId}
      (own : system.world.own me = []) :
      .acted me ∉ system.world.history := by
    intro member
    have mine : .acted me ∈ system.world.own me :=
      List.mem_filter.mpr ⟨member, by simp [Ledger.Event.caller]⟩
    rw [own] at mine
    cases mine
  refine ⟨?_, ?_, ?_, ?_⟩
  · intro system batch reaches nonempty
    obtain ⟨log, _, delivered⟩ := (assumed.inv reaches).log
    exact delivered.actions_once nonempty
  · intro system me later earlier reaches cut
    obtain ⟨log, _, delivered⟩ := (assumed.inv reaches).log
    exact delivered.after_commit cut
  · intro system me head reaches done
    exact silent (System.AllSafe.returned (assumed.allSafe reaches) done).2.left
  · intro system me fault reaches done
    exact silent (System.AllSafe.failed (assumed.allSafe reaches) done)

end Memory

/-- On both backends, commit actions run once, after their own commits. -/
theorem commit_actions_run_once
    {clients : Memory.Clients} {deployment : Host.Deployment}
    {start : Host.World}
    (assumed : clients.Assumed)
    (modern : Host.Modern deployment start) :
    clients.ActsOnce ∧ deployment.ActsOnce start :=
  ⟨assumed.actsOnce, modern.actsOnce⟩

/-- The reference calls' commit actions run once. -/
theorem reference_actions_run_once :
    Memory.Clients.reference.ActsOnce ∧
      Host.Deployment.reference.ActsOnce .vacant :=
  commit_actions_run_once Memory.Clients.reference_assumed
    (Host.World.vacant_empty.modern Reference.kernel_lawful id)

end SimStorage.Journal
