import SimStorage.Journal.Host.Protocol

namespace SimStorage.Journal.Host

/-!
# The recorded history

The events of a deployment form a chain of exchanges from the first content of
the state leaf to its current content, each of which kept its promise, with
every commit action directly after the append of its own call.  This invariant
holds after every move.
-/

open Codec NativeCodec Interaction

/-- A history, latest event first, and the leaf content that it leads to. -/
inductive Recorded (deployment : Deployment) (grounded : Prop)
    (world : World) (first : Option Bytes) :
    List Event → Option Bytes → Prop where
  | start : Recorded deployment grounded world first [] first
  | exchanged {caller : Option CallId} {old new : Option Bytes}
      {history : List Event} :
      Recorded deployment grounded world first history old →
      deployment.Exchange grounded world caller old new →
      Recorded deployment grounded world first
        (.exchanged caller old new :: history) new
  | acted {me : CallId} {publication : Publication}
      {old new : Option Bytes} {history : List Event} :
      Recorded deployment grounded world first history old →
      (deployment.workload me).publication = some publication →
      deployment.Appends grounded world publication old new →
      Recorded deployment grounded world first
        (.acted me :: .exchanged (some me) old new :: history) new

/-- The invariant of a deployment that started from a given leaf content. -/
structure Inv (deployment : Deployment) (grounded : Prop)
    (first : Option Bytes) (world : World) : Prop where
  recorded :
    Recorded deployment grounded world first world.history world.state
  started : grounded → ∀ bytes, first = some bytes →
    isV1State bytes = false →
    ∃ log state, deployment.Commits world first log state
  placed : grounded → ∀ path bytes, world.leaf path = some bytes →
    path.head? = some "objects-v2" →
    Placed deployment.kernel (fun _ => True) path bytes

variable {deployment : Deployment} {grounded : Prop}
variable {first : Option Bytes} {world after : World}

section Preservation

theorem Recorded.mono
    {caller : Option CallId} {history : List Event} {leaf : Option Bytes}
    (recorded : Recorded deployment grounded world first history leaf)
    (effect : deployment.Effect grounded caller world after) :
    Recorded deployment grounded after first history leaf := by
  induction recorded with
  | start => exact .start
  | exchanged _ exchange inductionHypothesis =>
      exact .exchanged inductionHypothesis (effect.exchange exchange)
  | @acted me publication old new history _ working appends
      inductionHypothesis =>
      apply Recorded.acted inductionHypothesis working
      exact effect.appends appends

theorem Placed.mono
    {kernel : Kernel} {supplied wider : JournalObject → Prop}
    {path : Path} {bytes : Bytes}
    (placed : Placed kernel supplied path bytes)
    (includes : ∀ object, supplied object → wider object) :
    Placed kernel wider path bytes := by
  cases placed with
  | object given sound put => exact .object (includes _ given) sound put
  | entry location bytes => exact .entry location bytes
  | marker name => exact .marker name
  | descriptor id bytes => exact .descriptor id bytes

/-- The invariant survives every effect. -/
theorem Inv.effect
    {caller : Option CallId}
    (inv : Inv deployment grounded first world)
    (effect : deployment.Effect grounded caller world after) :
    Inv deployment grounded first after := by
  have recorded := inv.recorded.mono effect
  refine ⟨?_, ?_, ?_⟩
  · cases effect with
    | quiet leaves history =>
        rw [history, World.state, leaves]
        exact recorded
    | written placed _ leaves history =>
        rw [history, World.state, leaves, if_neg (Ne.symm placed.path_ne)]
        exact recorded
    | @exchanged old new same exchange leaves history =>
        have current : after.state = new := by
          rw [World.state, leaves, if_pos rfl]
        rw [history, current]
        rw [same] at recorded
        exact .exchanged recorded (Deployment.Effect.exchange
          (.exchanged same exchange leaves history) exchange)
    | @acted me here appended leaves history =>
        obtain ⟨publication, old, new, rest, working, appends, latest⟩ :=
          id appended
        have stays := Deployment.Effect.appends
          (.acted here appended leaves history) appends
        have current : after.state = world.state := leaves statePath
        rw [history, latest, current]
        rw [latest] at recorded
        generalize world.state = leaf at recorded
        cases recorded with
        | exchanged earlier _ => exact .acted earlier working stays
    | legacy _ _ notState _ _ leaves history =>
        rw [history, World.state, leaves, if_neg (Ne.symm notState)]
        exact recorded
  · intro isGrounded bytes same isV2
    obtain ⟨log, state, commits⟩ := inv.started isGrounded bytes same isV2
    exact ⟨log, state, effect.commits commits⟩
  · intro isGrounded path bytes present inObjects
    have before := inv.placed isGrounded path bytes
    cases effect with
    | quiet leaves _ =>
        rw [leaves] at present
        exact before present inObjects
    | @written wrote _ placed _ leaves _ =>
        rw [leaves] at present
        by_cases here : path = wrote
        · rw [if_pos here] at present
          cases present
          subst here
          exact placed.mono fun _ _ => trivial
        · rw [if_neg here] at present
          exact before present inObjects
    | exchanged _ _ leaves _ =>
        rw [leaves] at present
        by_cases here : path = statePath
        · subst here
          exact absurd (.inl inObjects) state_not_layout
        · rw [if_neg here] at present
          exact before present inObjects
    | acted _ _ leaves _ =>
        rw [leaves] at present
        exact before present inObjects
    | @legacy wrote _ _ _ _ outside _ leaves _ =>
        rw [leaves] at present
        by_cases here : path = wrote
        · subst here
          exact absurd (.inl inObjects) outside
        · rw [if_neg here] at present
          exact before present inObjects

/-- The invariant survives every permitted move. -/
theorem Inv.move
    (move : (deployment.protocol grounded).Move world after)
    (inv : Inv deployment grounded first world) :
    Inv deployment grounded first after := by
  obtain ⟨_, effect⟩ := effect_of_move move
  exact inv.effect effect

/-- The invariant holds of an untouched store. -/
theorem inv_start
    (untouched : Untouched world)
    (starts : grounded → deployment.Grounded world) :
    Inv deployment grounded world.state world := by
  refine ⟨?_, ?_, ?_⟩
  · rw [untouched.history]
    exact .start
  · intro isGrounded bytes same isV2
    rw [same]
    exact (starts isGrounded).commits bytes same isV2
  · intro isGrounded
    exact (starts isGrounded).placed

end Preservation

section Histories

variable {history later earlier : List Event} {leaf : Option Bytes}

/-- A history cut before an event, and the leaf content at the cut. -/
theorem Recorded.before
    {caller : Option CallId} {old new : Option Bytes}
    (recorded : Recorded deployment grounded world first history leaf)
    (cut : history = later ++ .exchanged caller old new :: earlier) :
    Recorded deployment grounded world first earlier old ∧
      deployment.Exchange grounded world caller old new := by
  induction recorded generalizing later with
  | start =>
      have lengths := congrArg List.length cut
      simp at lengths
  | exchanged previous exchange inductionHypothesis =>
      cases later with
      | nil =>
          cases cut
          exact ⟨previous, exchange⟩
      | cons event rest =>
          exact inductionHypothesis (List.cons.inj cut).2
  | acted previous working appends inductionHypothesis =>
      cases later with
      | nil => cases cut
      | cons event rest =>
          cases rest with
          | nil =>
              cases cut
              exact ⟨previous, .appended working appends⟩
          | cons next rest =>
              have tails := (List.cons.inj (List.cons.inj cut).2).2
              exact inductionHypothesis tails

/-- How a history can end: in an exchange, or in the action after an append. -/
theorem Recorded.cons_cases
    {event : Event}
    (recorded :
      Recorded deployment grounded world first (event :: history) leaf) :
    (∃ caller old, event = .exchanged caller old leaf ∧
      Recorded deployment grounded world first history old ∧
      deployment.Exchange grounded world caller old leaf) ∨
    (∃ me publication old rest, event = .acted me ∧
      history = .exchanged (some me) old leaf :: rest ∧
      Recorded deployment grounded world first history leaf ∧
      (deployment.workload me).publication = some publication ∧
      deployment.Appends grounded world publication old leaf) := by
  cases recorded with
  | exchanged previous exchange => exact .inl ⟨_, _, rfl, previous, exchange⟩
  | acted previous working appends =>
      exact .inr ⟨_, _, _, _, rfl, rfl,
        .exchanged previous (.appended working appends), working, appends⟩

/-- A history leads to one leaf content. -/
theorem Recorded.unique
    {other : Option Bytes}
    (recorded : Recorded deployment grounded world first history leaf)
    (otherRecorded : Recorded deployment grounded world first history other) :
    leaf = other := by
  cases recorded with
  | start =>
      cases otherRecorded
      rfl
  | exchanged _ _ =>
      cases otherRecorded
      rfl
  | acted _ _ _ =>
      cases otherRecorded
      rfl

/-- An earlier part of a history is a history. -/
theorem Recorded.cut
    (recorded :
      Recorded deployment grounded world first (later ++ earlier) leaf) :
    ∃ middle, Recorded deployment grounded world first earlier middle := by
  induction later generalizing leaf with
  | nil => exact ⟨leaf, recorded⟩
  | cons event rest inductionHypothesis =>
      rcases recorded.cons_cases with
        ⟨_, _, _, previous, _⟩ | ⟨_, _, _, _, _, _, previous, _⟩
      · exact inductionHypothesis previous
      · exact inductionHypothesis previous

/-- Every v2 leaf of a grounded history commits a log. -/
theorem Recorded.commits
    (recorded : Recorded deployment grounded world first history leaf)
    (isGrounded : grounded)
    (started : ∀ bytes, first = some bytes → isV1State bytes = false →
      ∃ log state, deployment.Commits world first log state)
    {bytes : Bytes}
    (current : leaf = some bytes)
    (isV2 : isV1State bytes = false) :
    ∃ log state, deployment.Commits world leaf log state := by
  cases recorded with
  | start => exact started bytes current isV2
  | exchanged _ exchange =>
      cases exchange with
      | leased _ leases =>
          obtain ⟨log, state, _, commits⟩ := leases.logs isGrounded
          exact ⟨log, state, commits⟩
      | appended _ appends =>
          obtain ⟨log, _, state, _, commits⟩ := appends.logs isGrounded
          exact ⟨_, state, commits⟩
      | confirmed _ confirms =>
          obtain ⟨log, state, commits, _⟩ := confirms.logs isGrounded
          exact ⟨log, state, commits⟩
      | legacy _ _ isV1 =>
          cases current
          rw [isV1] at isV2
          cases isV2
  | acted _ _ appends =>
      obtain ⟨log, _, state, _, commits⟩ := appends.logs isGrounded
      exact ⟨_, state, commits⟩

/-- Whatever v2 content the state leaf has had commits a log. -/
theorem Inv.commits_of_ever
    (inv : Inv deployment grounded first world)
    (isGrounded : grounded)
    {bytes : Bytes}
    (ever : world.Ever bytes)
    (isV2 : isV1State bytes = false) :
    ∃ log state, deployment.Commits world (some bytes) log state := by
  rcases ever with current | ⟨caller, old, new, member, here⟩
  · have commits := inv.recorded.commits isGrounded
      (inv.started isGrounded) current isV2
    rwa [current] at commits
  · obtain ⟨later, earlier, cut⟩ := List.append_of_mem member
    obtain ⟨before, exchange⟩ := inv.recorded.before cut
    rcases here with isOld | isNew
    · subst isOld
      exact before.commits isGrounded (inv.started isGrounded) rfl isV2
    · subst isNew
      exact (Recorded.exchanged before exchange).commits isGrounded
        (inv.started isGrounded) rfl isV2

/-- Effects only add to the history. -/
theorem Deployment.Effect.history_grows
    {caller : Option CallId}
    (effect : deployment.Effect grounded caller world after) :
    ∃ events, after.history = events ++ world.history := by
  cases effect with
  | quiet _ history => exact ⟨[], history⟩
  | written _ _ _ history => exact ⟨[], history⟩
  | exchanged _ _ _ history => exact ⟨[_], history⟩
  | acted _ _ _ history => exact ⟨[_], history⟩
  | legacy _ _ _ _ _ _ history => exact ⟨[], history⟩

end Histories

section Logs

variable {history later earlier : List Event} {leaf middle : Option Bytes}

/-- The store at the start commits a log. -/
def Readable (deployment : Deployment) (start : World) : Prop :=
  ∃ log state, deployment.Commits start start.state log state

/-- What an exchange makes of the log: nothing, or its whole batch more. -/
def Extends (deployment : Deployment) (caller : Option CallId)
    (log after : List JournalEntry) : Prop :=
  after = log ∨ ∃ me publication, caller = some me ∧
    (deployment.workload me).publication = some publication ∧
    publication.expected = headAfter none log ∧
    after = log ++ publication.entries

/-- Without a v1 writer, every exchange leads from log to log. -/
theorem Deployment.Exchange.logs
    {caller : Option CallId} {old new : Option Bytes}
    {log : List JournalEntry} {state : StoredState}
    (exchange : deployment.Exchange grounded world caller old new)
    (isGrounded : grounded)
    (modern : ¬ deployment.port.legacy)
    (commits : deployment.Commits world old log state) :
    ∃ after later, deployment.Commits world new after later ∧
      Extends deployment caller log after := by
  cases exchange with
  | leased _ leases =>
      obtain ⟨found, same, before, after⟩ := leases.logs isGrounded
      obtain ⟨rfl, rfl⟩ := commits.unique before
      exact ⟨log, state, after, .inl rfl⟩
  | @appended me publication _ _ working appends =>
      obtain ⟨found, same, last, before, after⟩ := appends.logs isGrounded
      obtain ⟨rfl, rfl⟩ := commits.unique before
      refine ⟨_, last, after, .inr ⟨me, publication, rfl, working, ?_, rfl⟩⟩
      obtain ⟨envelope, _, selects, _, _, _, expected⟩ := appends.envelopes
      rw [← expected]
      exact ((committed_iff_envelopeLog selects).mp commits).head
  | confirmed _ _ => exact ⟨log, state, commits, .inl rfl⟩
  | legacy legacy _ _ => exact absurd legacy modern

/-- Every leaf of a readable history commits a log that grows at its end. -/
theorem Recorded.extends
    {log : List JournalEntry} {state : StoredState}
    (recorded :
      Recorded deployment grounded world first (later ++ earlier) leaf)
    (before : Recorded deployment grounded world first earlier middle)
    (isGrounded : grounded)
    (modern : ¬ deployment.port.legacy)
    (commits : deployment.Commits world middle log state) :
    ∃ more last, deployment.Commits world leaf (log ++ more) last := by
  induction later generalizing leaf with
  | nil =>
      obtain rfl := before.unique recorded
      exact ⟨[], state, by simpa using commits⟩
  | cons event rest inductionHypothesis =>
      rcases recorded.cons_cases with
        ⟨caller, old, _, previous, exchange⟩ | ⟨_, _, _, _, _, _, previous, _⟩
      · obtain ⟨more, last, reached⟩ := inductionHypothesis previous
        obtain ⟨after, final, now, same | grown⟩ :=
          exchange.logs isGrounded modern reached
        · subst same
          exact ⟨more, final, now⟩
        · obtain ⟨_, publication, _, _, _, same⟩ := grown
          rw [same, List.append_assoc] at now
          exact ⟨more ++ publication.entries, final, now⟩
      · exact inductionHypothesis previous

end Logs

end SimStorage.Journal.Host
