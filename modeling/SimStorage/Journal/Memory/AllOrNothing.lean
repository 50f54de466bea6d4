import SimStorage.Journal.Memory.Soundness

namespace SimStorage.Journal.Memory

/-!
# Whole batches on the memory backend

Every reachable state is a verified log, which grows by whole batches.  A
request that changes the backend decides its call: a call that fails has left
objects, datums, entries, head and fence as they were.
-/

open Codec Interaction

variable {clients : Clients} {me : CallId} {world after : World}

section Decisions

/-- The replies that come with a change of the backend. -/
def Decisive : (call : MemoryCall) → MemoryReply call → Prop
  | .commitAdmission _, .ok _ => True
  | .bumpFence, .ok _ => True
  | .insertDatum _, .ok _ => True
  | _, _ => False

theorem readState_idle :
    readState.Idle Decisive :=
  fun _ => ⟨id, .ofExcept _⟩

theorem release_certain
    {α : Type} {value : α} :
    (release (.ok value)).Certain :=
  fun _ => trivial

theorem act_certain
    {guarded : Bool} {result : GuardedAdmission} :
    (act guarded result).Certain := by
  unfold act
  split
  · exact fun _ => release_certain
  · exact release_certain

/-- After a successful section the lock is released without a failure. -/
theorem acquireLease_settled :
    acquireLease.Settled Decisive := by
  apply Program.Idle.settled_bind
  · exact fun _ => ⟨id, .ofExcept _⟩
  intro _ reply
  cases reply with
  | ok lease => exact ⟨fun _ => release_certain, release_certain.settled⟩
  | error fault => exact ⟨False.elim, fun _ => ⟨False.elim, trivial⟩⟩

theorem admitThen_settled
    {guarded : Bool} {admission : Admission} :
    (admitThen guarded admission).Settled Decisive := by
  apply Program.Idle.settled_bind
  · exact fun _ => ⟨id, .ofExcept _⟩
  intro _ reply
  cases reply with
  | ok result => exact ⟨fun _ => act_certain, act_certain.settled⟩
  | error fault => exact ⟨False.elim, fun _ => ⟨False.elim, trivial⟩⟩

theorem putDatum_settled
    {kernel : Kernel} {object : JournalObject} :
    (putDatum kernel object).Settled Decisive := by
  apply Program.Idle.settled_bind (.ofExcept _)
  intro _
  apply Program.Idle.settled_bind (.ofExcept _)
  intro _ reply
  cases reply with
  | ok inserted => exact ⟨fun _ => trivial, trivial⟩
  | error fault => exact ⟨False.elim, trivial⟩

theorem verifiedAdmission_idle
    {kernel : Kernel} {publication : Publication} :
    (verifiedAdmission kernel readState publication).Idle Decisive := by
  unfold verifiedAdmission
  split
  · trivial
  · apply readState_idle.bind
    intro before
    apply (Program.Idle.ofExcept _).bind
    intro _
    apply (Program.Idle.ofExcept _).bind
    intro _
    trivial

/-- A request that changes the backend decides its call. -/
theorem callProgram_settled
    (kernel : Kernel) (operation : Operation) :
    (callProgram kernel operation).Settled Decisive := by
  cases operation with
  | acquireLease => exact acquireLease_settled.bind fun _ => trivial
  | readState => exact readState_idle.settled_bind fun _ => trivial
  | publish publication =>
      have published : (publish kernel publication).Settled Decisive := by
        apply verifiedAdmission_idle.settled_bind
        intro admission
        exact admitThen_settled.bind fun _ => trivial
      exact published.bind fun _ => trivial
  | publishThen publication =>
      have published : (publishThen kernel publication).Settled Decisive := by
        apply verifiedAdmission_idle.settled_bind
        exact fun admission => admitThen_settled
      exact published.bind fun _ => trivial
  | putDatum object => exact putDatum_settled.bind fun _ => trivial
  | getDatum meaning =>
      have idle : (getDatum meaning).Idle Decisive :=
        fun _ => ⟨id, .ofExcept _⟩
      exact idle.settled_bind fun _ => trivial
  | rebuildDatumIndex =>
      have idle : rebuildDatumIndex.Idle Decisive :=
        fun _ => ⟨id, .ofExcept _⟩
      exact idle.settled_bind fun _ => trivial
  | verifiedSnapshot =>
      have idle : (verifiedSnapshot kernel readState).Idle Decisive :=
        readState_idle.bind fun _ => .ofExcept _
      exact idle.settled_bind fun _ => trivial

/-- Without a decision the backend stays as it is. -/
theorem inner_of_exec
    (assumed : clients.Assumed)
    (inv : Inv clients world)
    {call : MemoryCall} {reply : MemoryReply call}
    (permitted : clients.allowed me call world)
    (executed : Exec clients.kernel me call world reply after)
    (undecided : ¬ Decisive call reply) :
    after.inner = world.inner := by
  cases call with
  | commitAdmission admission =>
      rcases commitAdmission_exec assumed inv permitted executed with
        ⟨head, rfl, _⟩ | ⟨head, rfl, _⟩ | ⟨error, rfl, rfl⟩
      · exact absurd trivial undecided
      · exact absurd trivial undecided
      · rfl
  | bumpFence =>
      cases executed with
      | bumpFence =>
          rcases bumpFence_spec world.inner with
            ⟨fence, answer, _⟩ | ⟨error, answer⟩
          · rw [World.locked_eq inv.usable answer nofun] at undecided
            exact absurd trivial undecided
          · rw [World.locked_eq inv.usable answer (by nofun)]
            rfl
  | insertDatum object =>
      obtain ⟨supplied, sound⟩ := permitted
      obtain ⟨state, answer, _⟩ :=
        insertDatum_spec assumed inv.stocked supplied sound
      cases executed with
      | insertDatum =>
          rw [World.locked_eq inv.usable answer nofun] at undecided
          exact absurd trivial undecided
  | lockAdmission => cases executed <;> rfl
  | unlockAdmission => cases executed; rfl
  | readState =>
      cases executed with
      | readState => rw [World.reading_eq inv.usable (by nofun)]
  | afterCommit => cases executed; rfl
  | lookupDatum meaning =>
      cases executed with
      | lookupDatum =>
          rw [World.reading_eq inv.usable (lookupDatum_calm _ _)]
  | rebuildDatumIndex =>
      cases executed with
      | rebuildDatumIndex =>
          obtain ⟨references, found⟩ :=
            datumReferences_isOk assumed inv.stocked
          rw [World.reading_eq inv.usable (by rw [found]; nofun)]

end Decisions

section Reachable

variable {system next later : MemorySystem}

/-- What a call of a reachable system still has to do is settled. -/
theorem Clients.Reaches.settled
    (reaches : clients.Reaches system)
    {program : MemoryProgram Outcome}
    (running : system.programs me = some program) :
    program.Settled Decisive := by
  have start : ∀ me program, clients.initial.programs me = some program →
      program.Settled Decisive := by
    rintro me program ⟨⟩
    exact callProgram_settled _ _
  have replied : ∀ (_ : CallId) (request : MemoryCall)
      (next : MemoryReply request → MemoryProgram Outcome),
      (Program.call request next).Settled Decisive →
      ∀ reply, (next reply).Settled Decisive :=
    fun _ _ _ settled reply => (settled reply).2
  have resumed : ∀ me value program,
      Clients.resume me value = some program →
      (Program.ret value : MemoryProgram Outcome).Settled Decisive →
      program.Settled Decisive := by
    rintro _ _ _ ⟨⟩
  exact System.Steps.residual replied resumed reaches start running

/-- A program that cannot fail does not fail. -/
theorem certain_steps
    (certain : ∀ program, system.programs me = some program →
      program.Certain)
    (steps : clients.Steps system later)
    {program : MemoryProgram Outcome}
    (running : later.programs me = some program) :
    program.Certain := by
  have start : ∀ other program, system.programs other = some program →
      other = me → program.Certain := by
    rintro _ program found rfl
    exact certain program found
  have replied : ∀ (other : CallId) (request : MemoryCall)
      (next : MemoryReply request → MemoryProgram Outcome),
      (other = me → (Program.call request next).Certain) →
      ∀ reply, other = me → (next reply).Certain :=
    fun _ _ _ before reply same => before same reply
  have resumed : ∀ other value program,
      Clients.resume other value = some program →
      (other = me → (Program.ret value : MemoryProgram Outcome).Certain) →
      other = me → program.Certain := by
    rintro _ _ _ ⟨⟩
  exact System.Steps.residual replied resumed steps start running rfl

/-- A call that fails has changed nothing with its requests. -/
theorem inner_of_failed
    (assumed : clients.Assumed)
    (reaches : clients.Reaches system)
    {request : MemoryCall} {rest : MemoryReply request → MemoryProgram Outcome}
    {reply : MemoryReply request} {fault : Fault}
    (running : system.programs me = some (.call request rest))
    (executed : Exec clients.kernel me request system.world reply after)
    (steps : clients.Steps
      ⟨after, System.update system.programs me (some (rest reply))⟩ later)
    (failed : later.programs me = some (.fail fault)) :
    after.inner = system.world.inner := by
  by_cases decided : Decisive request reply
  · have certain := (reaches.settled running reply).1 decided
    have start : ∀ program, System.update system.programs me
        (some (rest reply)) me = some program → program.Certain := by
      rintro program found
      rw [System.update_same] at found
      cases found
      exact certain
    exact (certain_steps start steps failed).elim
  · exact inner_of_exec assumed (assumed.inv reaches)
      (assumed.permitted reaches running) executed decided

/-- The keys of a state over a log are the positions in the log. -/
theorem keys_of_holds
    {state : StoredState} {log : List JournalEntry}
    (holds : Holds clients.kernel state log) :
    state.entries.keys.map UInt64.toNat = List.range log.length := by
  have keyed : state.entries.keys =
      state.entries.list.map JournalEntry.sequence := by
    rw [EntryMap.list, List.map_map, ← Std.ExtTreeMap.map_fst_toList_eq_keys]
    apply List.map_congr_left
    rintro ⟨key, entry⟩ member
    have found := Std.ExtTreeMap.mem_toList_iff_getElem?_eq_some.mp member
    exact (holds.getElem.mp found).2.symm
  rw [keyed, holds.listed]
  apply List.ext_getElem
  · simp
  · intro index inside _
    have stored : index < log.length := by simpa using inside
    have here : log[index]? = some log[index] :=
      List.getElem?_eq_getElem stored
    have position := holds.follows.sequence_of_getElem here
    simpa [nextIndex] using position

/-- One step leaves the entries or appends one call's whole batch. -/
theorem Clients.Assumed.step_entries
    (assumed : clients.Assumed)
    (reaches : clients.Reaches system)
    (step : clients.Step system next) :
    next.world.inner.state.entries.list =
        system.world.inner.state.entries.list ∨
      ∃ me publication,
        (clients.workload me).publication = some publication ∧
          next.world.inner.state.entries.list =
            system.world.inner.state.entries.list ++ publication.entries := by
  have inv := assumed.inv reaches
  have changes {caller : CallId}
      (effect : Effect clients caller system.world next.world) :
      next.world.inner.state.entries.list =
          system.world.inner.state.entries.list ∨
        ∃ me publication,
          (clients.workload me).publication = some publication ∧
            next.world.inner.state.entries.list =
              system.world.inner.state.entries.list ++ publication.entries := by
    cases effect with
    | locks _ inner _ _ => exact .inl (by rw [inner])
    | grown grown _ _ _ _ => exact .inl (by rw [grown.entries])
    | committed _ working holds appended _ _ _ =>
        refine .inr ⟨caller, _, working, ?_⟩
        rw [appended.holds.listed, holds.listed]
    | leased _ state _ _ _ _ => exact .inl (by rw [state])
    | acted _ _ inner _ _ _ => exact .inl (by rw [inner])
  cases step with
  | issue running executed =>
      exact changes (effect_of_exec assumed inv
        (assumed.permitted reaches running) executed)
  | resume _ resumed => cases resumed
  | stop _ crashed => exact changes (effect_of_crash inv crashed)
  | environment impossible => exact impossible.elim

/-- What the memory backend keeps, whatever the interleaving of its calls. -/
structure Clients.AllOrNothing (clients : Clients) : Prop where
  /-- A reachable state passes its verification, as its listed entries. -/
  verified : ∀ system, clients.Reaches system → ∃ verified,
    verifyState clients.kernel system.world.inner.state = .ok verified ∧
      verified.entries = system.world.inner.state.entries.list
  /-- The keys are `0..n-1`, and they are the sequences of their entries. -/
  keyed : ∀ system, clients.Reaches system →
    system.world.inner.state.entries.keys.map UInt64.toNat =
        List.range system.world.inner.state.entries.list.length ∧
      ∀ (key : UInt64) (entry : JournalEntry),
        system.world.inner.state.entries[key]? = some entry →
          entry.sequence = key
  /-- One step leaves the entries or appends one call's whole batch. -/
  whole : ∀ system next, clients.Reaches system → clients.Step system next →
    next.world.inner.state.entries.list =
        system.world.inner.state.entries.list ∨
      ∃ me publication,
        (clients.workload me).publication = some publication ∧
          next.world.inner.state.entries.list =
            system.world.inner.state.entries.list ++ publication.entries
  /-- The entries only ever grow at the end. -/
  grows : ∀ system later, clients.Reaches system →
    clients.Steps system later →
    system.world.inner.state.entries.list <+:
      later.world.inner.state.entries.list
  /--
  A call that fails, then or later, leaves objects, datums, entries, head and
  fence at each of its requests exactly as they were.
  -/
  unchanged : ∀ system later me request rest reply after fault,
    clients.Reaches system →
    system.programs me = some (.call request rest) →
    Exec clients.kernel me request system.world reply after →
    clients.Steps
      ⟨after, System.update system.programs me (some (rest reply))⟩ later →
    later.programs me = some (.fail fault) →
    after.inner = system.world.inner

/-- Admissions to the memory backend are whole or nothing. -/
theorem memory_all_or_nothing
    (assumed : clients.Assumed) :
    clients.AllOrNothing where
  verified system reaches := by
    obtain ⟨log, holds, _⟩ := (assumed.inv reaches).log
    obtain ⟨verified, accepted, _, entries, _⟩ := holds.verifyState
    exact ⟨verified, accepted, entries.trans holds.listed.symm⟩
  keyed system reaches := by
    obtain ⟨log, holds, _⟩ := (assumed.inv reaches).log
    constructor
    · rw [keys_of_holds holds, holds.listed]
    · exact fun key entry found => (holds.getElem.mp found).2
  whole system next := assumed.step_entries
  grows system later reaches steps := by
    induction steps with
    | refl => exact List.prefix_rfl
    | tail earlier last inductionHypothesis =>
        apply inductionHypothesis.trans
        rcases assumed.step_entries (reaches.trans earlier) last with
          same | ⟨_, _, _, appended⟩
        · rw [same]
        · rw [appended]
          exact List.prefix_append _ _
  unchanged system later me request rest reply after fault reaches running
      executed :=
    inner_of_failed assumed reaches running executed

/--
Clients on the reference kernel: one acquires a lease, one puts the first
entry's object and the others publish the first entry.
-/
def Clients.reference : Clients where
  kernel := Reference.kernel
  workload
    | 0 => .acquireLease
    | 1 => .putDatum (referenceObject [1, 2, 3])
    | _ => .publishThen
        ⟨⟨1⟩, none, [referenceObject [1, 2, 3]], [referenceEntry]⟩

/-- The clients supply one object. -/
theorem Clients.reference_supplied
    {object : JournalObject}
    (supplied : Clients.reference.Supplied object) :
    object = referenceObject [1, 2, 3] := by
  obtain ⟨me, inside⟩ := supplied
  match me with
  | 0 => cases inside
  | 1 => exact List.mem_singleton.mp inside
  | _ + 2 => exact List.mem_singleton.mp inside

theorem Clients.reference_assumed : Clients.reference.Assumed where
  lawful := Reference.kernel_lawful
  free := by
    rintro _ ⟨one, supplied, rfl⟩ _ ⟨other, otherSupplied, rfl⟩ _ _ _
    rw [reference_supplied supplied, reference_supplied otherSupplied]
    exact .refl _
  fits object supplied := by
    rw [reference_supplied supplied]
    exact referenceObject_fits (by decide)

/-- The reference clients' admissions are whole or nothing. -/
theorem reference_all_or_nothing :
    Clients.reference.AllOrNothing :=
  memory_all_or_nothing Clients.reference_assumed

end Reachable

end SimStorage.Journal.Memory
