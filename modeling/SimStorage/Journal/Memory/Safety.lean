import SimStorage.Journal.Memory.Admission

namespace SimStorage.Journal.Memory

/-!
# The clients of the memory backend

What every request may change, the invariant that all changes keep, and the
safety of the calls: from a new backend, whatever the interleaving, the state
holds a linked log of delivered batches and stores only supplied objects.
-/

open Codec Interaction

/-- The events that a call is the caller of. -/
def World.own (world : World) (me : CallId) : List (Ledger.Event CallId) :=
  world.history.filter fun event => event.caller = some me

/-- The invariant of the backend. -/
structure Inv (clients : Clients) (world : World) : Prop where
  usable : world.innerPoisoned = false
  stocked : clients.Stocked world.inner.state
  log : ∃ log, Holds clients.kernel world.inner.state log ∧
    Ledger.Delivered (linking clients.kernel) clients.batchOf world.history log

/-- What a request of a call changes. -/
inductive Effect (clients : Clients) (me : CallId) (world after : World) :
    Prop where
  | locks :
      world.holder = none ∨ world.holder = some me →
      after.inner = world.inner →
      after.innerPoisoned = world.innerPoisoned →
      after.history = world.history →
      Effect clients me world after
  | grown :
      Grown clients world.inner.state after.inner.state →
      after.inner.fence = world.inner.fence →
      after.innerPoisoned = world.innerPoisoned →
      after.holder = world.holder →
      after.history = world.history →
      Effect clients me world after
  | committed {publication : Publication} {log : List JournalEntry} :
      world.holder = some me →
      (clients.workload me).publication = some publication →
      Holds clients.kernel world.inner.state log →
      Appended clients publication log world.inner after.inner →
      after.innerPoisoned = world.innerPoisoned →
      after.holder = world.holder →
      after.history = .committed me :: world.history →
      Effect clients me world after
  | leased :
      world.holder = some me →
      after.inner.state = world.inner.state →
      after.inner.fence.toNat = world.inner.fence.toNat + 1 →
      after.innerPoisoned = world.innerPoisoned →
      after.holder = world.holder →
      after.history = .changed :: world.history →
      Effect clients me world after
  | acted {rest : List (Ledger.Event CallId)} :
      world.holder = some me →
      world.history = .committed me :: rest →
      after.inner = world.inner →
      after.innerPoisoned = world.innerPoisoned →
      after.holder = world.holder →
      after.history = .acted me :: world.history →
      Effect clients me world after

namespace Clients

variable (clients : Clients)

/-- The requests that a call may issue. -/
def allowed (me : CallId) : MemoryCall → World → Prop
  | .unlockAdmission, world => world.holder = some me
  | .commitAdmission admission, world =>
      world.holder = some me ∧ ∃ publication,
        (clients.workload me).publication = some publication ∧
          admission = publication.admission ∧
          clients.Prepared world.inner.state publication
  | .bumpFence, world => world.holder = some me
  | .afterCommit, world =>
      world.holder = some me ∧ ∃ rest, world.history = .committed me :: rest
  | .insertDatum object, _ =>
      clients.Supplied object ∧ object.Sound clients.kernel
  | _, _ => True

/-- The backend as the calls share it. -/
def service : Service CallId MemoryCall MemoryReply World where
  exec := Exec clients.kernel
  crash := Crash
  environment _ _ := False

/-- The clients' protocol. -/
def protocol : Protocol CallId MemoryCall MemoryReply World where
  toService := clients.service
  allowed := clients.allowed

end Clients

variable {clients : Clients} {me : CallId} {world after last : World}

section Effects

/-- A section that does not panic leaves the inner lock usable. -/
theorem World.locked_eq
    {α : Type} {run : Inner → Result α × Inner}
    {result : Result α} {inner : Inner}
    (usable : world.innerPoisoned = false)
    (ran : run world.inner = (result, inner))
    (calm : ∀ message, result ≠ .error (.panicked message)) :
    world.locked run = (result, { world with inner := inner }) := by
  unfold World.locked
  rw [usable, if_neg Bool.false_ne_true, ran]
  cases result with
  | ok value => rw [← usable]
  | error fault =>
      cases fault with
      | refused error => rw [← usable]
      | panicked message => exact absurd rfl (calm message)

theorem Grown.refl
    {state : StoredState}
    (stocked : clients.Stocked state) :
    Grown clients state state :=
  ⟨stocked, fun _ => id, rfl, rfl⟩

/-- A stocked state has references to all its datums. -/
theorem datumReferences_isOk
    (assumed : clients.Assumed)
    {state : StoredState}
    (stocked : clients.Stocked state) :
    ∃ references, datumReferences clients.kernel state.datums.toList =
      .ok references := by
  have given : ∀ entry ∈ state.datums.toList, ∃ object,
      clients.Supplied object ∧ object.Sound clients.kernel ∧
        object.datum = entry.2 := by
    rintro ⟨meaning, datum⟩ member
    have found :=
      Std.ExtTreeMap.mem_toList_iff_getElem?_eq_some.mp member
    rcases stocked meaning with ⟨_, absent⟩ |
      ⟨object, supplied, sound, _, _, here⟩
    · rw [absent] at found
      cases found
    · rw [here] at found
      exact ⟨object, supplied, sound, Option.some.inj found⟩
  generalize state.datums.toList = entries at given
  induction entries with
  | nil => exact ⟨[], rfl⟩
  | cons entry rest inductionHypothesis =>
      obtain ⟨object, supplied, sound, same⟩ :=
        given entry List.mem_cons_self
      have canonical := (assumed.lawful.contentId_isSome object.datum).mp
        (Option.isSome_of_eq_some sound.identity)
      obtain ⟨bytes, put⟩ := JournalObject.storageBytes_isOk canonical
        (assumed.fits object supplied)
      obtain ⟨references, later⟩ := inductionHypothesis
        fun member inside => given member (List.mem_cons_of_mem _ inside)
      refine ⟨_, bind_eq_ok.mpr ⟨object, ?_, bind_eq_ok.mpr
        ⟨bytes, put, bind_eq_ok.mpr ⟨references, later, rfl⟩⟩⟩⟩
      exact JournalObject.fromDatum_eq_ok.mpr ⟨same, sound⟩

/-- A reading section changes nothing. -/
theorem World.reading_eq
    {α : Type} {run : Inner → Result α}
    (usable : world.innerPoisoned = false)
    (calm : ∀ message, run world.inner ≠ .error (.panicked message)) :
    world.reading run = (run world.inner, world) :=
  World.locked_eq usable rfl calm

/-- A look-up does not panic. -/
theorem lookupDatum_calm
    (meaning : ContentId) (inner : Inner) (message : String) :
    lookupDatum meaning inner ≠ .error (.panicked message) := by
  unfold lookupDatum
  cases inner.state.datums[meaning]? <;> nofun

/-- Every permitted request has one of the effects. -/
theorem effect_of_exec
    (assumed : clients.Assumed)
    (inv : Inv clients world)
    {call : MemoryCall} {reply : MemoryReply call}
    (permitted : clients.allowed me call world)
    (executed : Exec clients.kernel me call world reply after) :
    Effect clients me world after := by
  have unchanged : Effect clients me world world :=
    .grown (.refl inv.stocked) rfl rfl rfl rfl
  cases executed with
  | lockAdmission free _ => exact .locks (.inl free) rfl rfl rfl
  | lockPoisoned _ _ => exact unchanged
  | unlockAdmission => exact .locks (.inr permitted) rfl rfl rfl
  | @commitAdmission admission =>
      obtain ⟨holds, publication, working, rfl, prepared⟩ := permitted
      obtain ⟨log, state, _⟩ := inv.log
      rcases commitAdmission_spec assumed inv.stocked state prepared with
        ⟨head, inner, answer, _, appended⟩ | ⟨head, answer, _⟩ |
          ⟨error, answer, _⟩
      · rw [World.locked_eq inv.usable answer nofun]
        exact .committed holds working state appended rfl rfl rfl
      · rw [World.locked_eq inv.usable answer nofun]
        exact unchanged
      · rw [World.locked_eq inv.usable answer (by nofun)]
        exact unchanged
  | bumpFence =>
      rcases bumpFence_spec world.inner with
        ⟨fence, answer, grows⟩ | ⟨error, answer⟩
      · rw [World.locked_eq inv.usable answer nofun]
        exact .leased permitted rfl grows rfl rfl rfl
      · rw [World.locked_eq inv.usable answer (by nofun)]
        exact unchanged
  | readState =>
      rw [World.reading_eq inv.usable (by nofun)]
      exact unchanged
  | afterCommit =>
      obtain ⟨holds, rest, latest⟩ := permitted
      exact .acted holds latest rfl rfl rfl rfl
  | insertDatum =>
      obtain ⟨supplied, sound⟩ := permitted
      obtain ⟨state, answer, grown⟩ :=
        insertDatum_spec assumed inv.stocked supplied sound
      rw [World.locked_eq inv.usable answer nofun]
      exact .grown grown rfl rfl rfl rfl
  | lookupDatum =>
      rw [World.reading_eq inv.usable (lookupDatum_calm _ _)]
      exact unchanged
  | rebuildDatumIndex =>
      obtain ⟨references, found⟩ := datumReferences_isOk assumed inv.stocked
      rw [World.reading_eq inv.usable (by rw [found]; nofun)]
      exact unchanged

/-- A call that stops changes nothing but the admission lock. -/
theorem effect_of_crash
    (inv : Inv clients world)
    (crashed : Crash me world after) :
    Effect clients me world after := by
  cases crashed with
  | holding holds => exact .locks (.inr holds) rfl rfl rfl
  | idle _ => exact .grown (.refl inv.stocked) rfl rfl rfl rfl

/-- The invariant survives every effect. -/
theorem Inv.effect
    (inv : Inv clients world)
    (effect : Effect clients me world after) :
    Inv clients after := by
  obtain ⟨usable, stocked, log, holds, delivered⟩ := inv
  cases effect with
  | locks _ inner poison history =>
      refine ⟨poison.trans usable, by rw [inner]; exact stocked, log, ?_, ?_⟩
      · rw [inner]
        exact holds
      · rw [history]
        exact delivered
  | grown grown _ poison _ history =>
      refine ⟨poison.trans usable, grown.stocked, log, grown.holds holds, ?_⟩
      rw [history]
      exact delivered
  | @committed publication other _ working otherHolds appended poison _
      history =>
      obtain rfl := holds.unique otherHolds
      refine ⟨poison.trans usable, appended.stocked, _, appended.holds, ?_⟩
      rw [history]
      apply Ledger.Delivered.committed delivered
      · rw [Clients.batchOf, working]
        rfl
      · rw [linking_headAfter]
        exact appended.follows
  | leased _ state _ poison _ history =>
      refine ⟨poison.trans usable, by rw [state]; exact stocked, log, ?_, ?_⟩
      · rw [state]
        exact holds
      · rw [history]
        exact .changed delivered
  | acted _ latest inner poison _ history =>
      refine ⟨poison.trans usable, by rw [inner]; exact stocked, log, ?_, ?_⟩
      · rw [inner]
        exact holds
      · rw [history]
        rw [latest] at delivered ⊢
        cases delivered with
        | committed previous working follows =>
            exact .acted previous working follows

/-- The invariant survives every permitted move. -/
theorem Inv.move
    (assumed : clients.Assumed)
    (move : clients.protocol.Move world after)
    (inv : Inv clients world) :
    Inv clients after := by
  cases move with
  | issue permitted executed =>
      exact inv.effect (effect_of_exec assumed inv permitted executed)
  | crash crashed => exact inv.effect (effect_of_crash inv crashed)
  | environment impossible => exact impossible.elim

/-- A new backend satisfies the invariant. -/
theorem inv_new : Inv clients World.new where
  usable := rfl
  stocked _ := .inl ⟨Std.ExtTreeMap.getElem?_empty,
    Std.ExtTreeMap.getElem?_empty⟩
  log := ⟨[], holds_empty, .start trivial⟩

end Effects

end SimStorage.Journal.Memory
