import SimStorage.Journal.Memory.Safety

namespace SimStorage.Journal.Memory

/-!
# Soundness of the calls on the memory backend

Every call keeps the protocol, whatever the other calls do between its locked
sections, and ends with the events that its outcome names.
-/

open Codec Interaction

variable {clients : Clients} {me other : CallId} {world after : World}

section Drift

/-- What a call relies on while other calls run. -/
structure Later (me : CallId) (world after : World) : Prop where
  own : after.own me = world.own me
  objects : ∀ id, id ∈ world.inner.state.objects →
    id ∈ after.inner.state.objects
  held : world.holder = some me →
    after.holder = some me ∧ after.history = world.history

theorem Later.refl : Later me world world :=
  ⟨rfl, fun _ => id, fun held => ⟨held, rfl⟩⟩

theorem Later.trans
    {last : World}
    (first : Later me world after)
    (second : Later me after last) :
    Later me world last where
  own := second.own.trans first.own
  objects id inside := second.objects id (first.objects id inside)
  held holds := by
    obtain ⟨holding, same⟩ := first.held holds
    obtain ⟨holdingStill, equal⟩ := second.held holding
    exact ⟨holdingStill, equal.trans same⟩

/-- An event of another caller is not one's own. -/
theorem own_of_event
    (event : Ledger.Event CallId)
    (foreign : event.caller ≠ some me)
    (history : after.history = event :: world.history) :
    after.own me = world.own me := by
  rw [World.own, World.own, history, List.filter_cons_of_neg]
  simpa using foreign

/-- A new event of the caller comes first among its own. -/
theorem own_of_mine
    (event : Ledger.Event CallId)
    (mine : event.caller = some me)
    (history : after.history = event :: world.history) :
    after.own me = event :: world.own me := by
  rw [World.own, World.own, history, List.filter_cons_of_pos]
  simpa using mine

theorem own_of_same
    (history : after.history = world.history) :
    after.own me = world.own me := by
  rw [World.own, World.own, history]

/-- Another caller's effect leaves a call what it relies on. -/
theorem Later.of_effect
    (different : other ≠ me)
    (effect : Effect clients other world after) :
    Later me world after := by
  have foreign : some other ≠ some me := fun same =>
    different (Option.some.inj same)
  have excluded : world.holder = some other → world.holder = some me →
      after.holder = some me ∧ after.history = world.history :=
    fun holds held => absurd (holds.symm.trans held) foreign
  cases effect with
  | locks lock inner _ history =>
      refine ⟨own_of_same history, by rw [inner]; exact fun _ => id, ?_⟩
      intro held
      rcases lock with free | holds
      · rw [free] at held
        cases held
      · exact excluded holds held
  | grown grown _ _ holder history =>
      exact ⟨own_of_same history, grown.keeps,
        fun held => ⟨holder.trans held, history⟩⟩
  | committed holds _ _ appended _ _ history =>
      exact ⟨own_of_event (.committed other) foreign history, appended.keeps, excluded holds⟩
  | leased holds state _ _ _ history =>
      exact ⟨own_of_event .changed (by nofun) history, by rw [state]; exact fun _ => id,
        excluded holds⟩
  | acted holds _ inner _ _ history =>
      exact ⟨own_of_event (.acted other) foreign history,
        by rw [inner]; exact fun _ => id, excluded holds⟩

/-- Any interference leaves the invariant, and a call what it relies on. -/
theorem later_of_drift
    (assumed : clients.Assumed)
    (inv : Inv clients world)
    (drift : (clients.protocol.setting me).drift world after) :
    Inv clients after ∧ Later me world after := by
  have step {middle last : World}
      (foreign : clients.protocol.Foreign me middle last)
      (before : Inv clients middle ∧ Later me world middle) :
      Inv clients last ∧ Later me world last := by
    obtain ⟨held, since⟩ := before
    have kept : Later me middle last := by
      cases foreign with
      | issue different permitted executed =>
          exact .of_effect different
            (effect_of_exec assumed held permitted executed)
      | crash different crashed =>
          exact .of_effect different (effect_of_crash held crashed)
      | environment impossible => exact impossible.elim
    exact ⟨Inv.move assumed foreign.move held, since.trans kept⟩
  exact Protocol.Interference.preserves step drift ⟨inv, .refl⟩

end Drift

section Requests

/-- What a commit replies, and the event it leaves. -/
theorem commitAdmission_exec
    (assumed : clients.Assumed)
    (inv : Inv clients world)
    {admission : Admission} {reply : Result GuardedAdmission}
    (permitted : clients.allowed me (.commitAdmission admission) world)
    (executed :
      Exec clients.kernel me (.commitAdmission admission) world reply after) :
    (∃ head, reply = .ok ⟨head, .committedActionInvoked⟩ ∧
      after.holder = world.holder ∧
      after.history = .committed me :: world.history) ∨
    (∃ head, reply = .ok ⟨head, .alreadyCommittedActionNotInvoked⟩ ∧
      after = world) ∨
    ∃ error, reply = refuse error ∧ after = world := by
  obtain ⟨_, publication, _, rfl, prepared⟩ := permitted
  obtain ⟨log, state, _⟩ := inv.log
  cases executed with
  | commitAdmission =>
      rcases commitAdmission_spec assumed inv.stocked state prepared with
        ⟨head, inner, answer, _⟩ | ⟨head, answer, _⟩ | ⟨error, answer, _⟩
      · rw [World.locked_eq inv.usable answer nofun]
        exact .inl ⟨head, rfl, rfl, rfl⟩
      · rw [World.locked_eq inv.usable answer nofun]
        exact .inr (.inl ⟨head, rfl, rfl⟩)
      · rw [World.locked_eq inv.usable answer (by nofun)]
        exact .inr (.inr ⟨error, rfl, rfl⟩)

/-- A section under the inner lock leaves the history. -/
theorem World.locked_history
    {α : Type} {run : Inner → Result α × Inner} :
    (world.locked run).2.history = world.history := by
  unfold World.locked
  split
  · rfl
  · split <;> rfl

/-- A section under the inner lock leaves the admission lock. -/
theorem World.locked_holder
    {α : Type} {run : Inner → Result α × Inner} :
    (world.locked run).2.holder = world.holder := by
  unfold World.locked
  split
  · rfl
  · split <;> rfl

theorem World.recordLease_holder
    {result : Result Lease} :
    (world.recordLease result).holder = world.holder := by
  cases result <;> rfl

theorem World.recordLease_own
    {result : Result Lease} :
    (world.recordLease result).own me = world.own me := by
  cases result with
  | ok lease => exact own_of_event .changed (by nofun) rfl
  | error fault => rfl

/-- Only commits and actions leave events of a call. -/
theorem own_of_exec
    {call : MemoryCall} {reply : MemoryReply call}
    (commits : ∀ admission, call ≠ .commitAdmission admission)
    (acts : call ≠ .afterCommit)
    (executed : Exec clients.kernel me call world reply after) :
    after.own me = world.own me := by
  cases executed with
  | lockAdmission _ _ => rfl
  | lockPoisoned _ _ => rfl
  | unlockAdmission => rfl
  | commitAdmission => exact absurd rfl (commits _)
  | bumpFence =>
      rw [World.recordLease_own]
      exact own_of_same World.locked_history
  | readState => exact own_of_same World.locked_history
  | afterCommit => exact absurd rfl acts
  | insertDatum => exact own_of_same World.locked_history
  | lookupDatum => exact own_of_same World.locked_history
  | rebuildDatumIndex => exact own_of_same World.locked_history

end Requests

section Calls

variable {α β : Type} {done : α → World → Prop}

/-- What a call keeps to its end, and what a failed call has left: no event. -/
def Clients.Keeps (clients : Clients) (me : CallId)
    (done : α → World → Prop) (program : MemoryProgram α) (world : World) :
    Prop :=
  Safe (clients.protocol.setting me)
    (fun value final => Inv clients final ∧ done value final)
    (fun _ final => final.own me = []) program world

namespace Clients.Keeps

/-- One request of a call, in a world that others changed. -/
theorem call
    (assumed : clients.Assumed)
    (inv : Inv clients world)
    {request : MemoryCall} {next : MemoryReply request → MemoryProgram α}
    (step : ∀ middle, Inv clients middle → Later me world middle →
      clients.allowed me request middle ∧
        ∀ reply after, Exec clients.kernel me request middle reply after →
          Inv clients after →
          clients.Keeps me done (next reply) after) :
    clients.Keeps me done (.call request next) world := by
  apply Safe.call
  intro middle drift
  obtain ⟨held, since⟩ := later_of_drift assumed inv drift
  obtain ⟨permitted, continues⟩ := step middle held since
  refine ⟨permitted, fun reply after executed => ?_⟩
  exact continues reply after executed
    (held.effect (effect_of_exec assumed held permitted executed))

/-- A returned value is judged by what no other call can change. -/
theorem ret
    (assumed : clients.Assumed)
    (inv : Inv clients world)
    {value : α}
    (finishes : ∀ final, Later me world final → done value final) :
    clients.Keeps me done (.ret value) world := by
  apply Safe.ret
  intro final drift
  obtain ⟨held, since⟩ := later_of_drift assumed inv drift
  exact ⟨held, finishes final since⟩

theorem fail
    (assumed : clients.Assumed)
    (inv : Inv clients world)
    {fault : Fault}
    (own : world.own me = []) :
    clients.Keeps me done (.fail fault) world := by
  apply Safe.fail
  intro final drift
  exact (later_of_drift assumed inv drift).2.own.trans own

theorem bind
    {program : MemoryProgram α} {next : α → MemoryProgram β}
    {last : β → World → Prop}
    (first : clients.Keeps me done program world)
    (rest : ∀ value middle, Inv clients middle → done value middle →
      clients.Keeps me last (next value) middle) :
    clients.Keeps me last (program >>= next) world :=
  Safe.bind first fun value middle kept => rest value middle kept.1 kept.2

/-- A computation without requests is judged on its value. -/
theorem ofExcept
    (assumed : clients.Assumed)
    (inv : Inv clients world)
    (own : world.own me = [])
    {result : Result α}
    (onOk : ∀ value, result = .ok value → ∀ final,
      Later me world final → done value final) :
    clients.Keeps me done (Program.ofExcept result) world := by
  cases result with
  | ok value => exact .ret assumed inv (onOk value rfl)
  | error fault => exact .fail assumed inv own

/-- A single request that leaves no event. -/
theorem request
    (assumed : clients.Assumed)
    (inv : Inv clients world)
    (own : world.own me = [])
    (request : MemoryCall) (answer : MemoryReply request → Result α)
    (commits : ∀ admission, request ≠ .commitAdmission admission)
    (acts : request ≠ .afterCommit)
    (permitted : ∀ middle, clients.allowed me request middle) :
    clients.Keeps me (fun _ final => final.own me = [])
      (.call request fun reply => Program.ofExcept (answer reply)) world := by
  apply call assumed inv
  intro middle _ since
  refine ⟨permitted middle, fun reply after executed held => ?_⟩
  have quiet : after.own me = [] := by
    rw [own_of_exec commits acts executed, since.own, own]
  apply ofExcept assumed held quiet
  exact fun _ _ _ last => last.own.trans quiet

/-- The end of a locked section leaves no event. -/
theorem release
    (assumed : clients.Assumed)
    (inv : Inv clients world)
    (holds : world.holder = some me)
    {result : Result α}
    (onOk : ∀ value, result = .ok value → ∀ final,
      final.own me = world.own me → done value final)
    (onError : ∀ fault, result = .error fault → world.own me = []) :
    clients.Keeps me done (release result) world := by
  cases result with
  | ok value =>
      apply call assumed inv
      intro middle _ since
      refine ⟨(since.held holds).1, fun reply after executed held => ?_⟩
      have same := own_of_exec (by nofun) (by nofun) executed
      apply ret assumed held
      intro final last
      exact onOk value rfl final (last.own.trans (same.trans since.own))
  | error fault =>
      apply call assumed inv
      intro middle _ since
      refine ⟨(since.held holds).1, fun reply after executed held => ?_⟩
      have same := own_of_exec (by nofun) (by nofun) executed
      apply fail assumed held
      rw [same, since.own, onError fault rfl]

end Clients.Keeps

/-- The events of an admission that returned. -/
def Admitted (me : CallId) (guarded : Bool) (result : GuardedAdmission)
    (world : World) : Prop :=
  world.own me =
    match result.disposition, guarded with
    | .committedActionInvoked, true => [.acted me, .committed me]
    | .committedActionInvoked, false => [.committed me]
    | .alreadyCommittedActionNotInvoked, _ => []

/-- What is verified stays available. -/
theorem Clients.Prepared.later
    {publication : Publication}
    (prepared : clients.Prepared world.inner.state publication)
    (since : Later me world after) :
    clients.Prepared after.inner.state publication where
  nonempty := prepared.nonempty
  follows := prepared.follows
  objects := prepared.objects
  available entry member payload inside :=
    (prepared.available entry member payload inside).imp_left
      (since.objects payload)

/-- An action runs once, directly after the commit of its own call. -/
theorem act_keeps
    (assumed : clients.Assumed)
    (inv : Inv clients world)
    (guarded : Bool) (head : JournalHead)
    (holds : world.holder = some me)
    {rest : List (Ledger.Event CallId)}
    (latest : world.history = .committed me :: rest)
    (own : world.own me = [.committed me]) :
    clients.Keeps me (Admitted me guarded)
      (act guarded ⟨head, .committedActionInvoked⟩) world := by
  cases guarded with
  | false =>
      simp only [act, Bool.false_eq_true, false_and, if_false]
      apply Clients.Keeps.release assumed inv holds
      · rintro _ ⟨⟩ final same
        exact same.trans own
      · nofun
  | true =>
      simp only [act, and_self, if_true]
      apply Clients.Keeps.call assumed inv
      intro middle _ since
      obtain ⟨holding, same⟩ := since.held holds
      refine ⟨⟨holding, rest, same.trans latest⟩, ?_⟩
      intro reply after executed held
      cases executed with
      | afterCommit =>
          have events : (middle.record (.acted me)).own me =
              [.acted me, .committed me] := by
            rw [own_of_mine (.acted me) rfl rfl, since.own, own]
          apply Clients.Keeps.release assumed held holding
          · rintro _ ⟨⟩ final keeps
            exact keeps.trans events
          · nofun

/-- A verified admission leaves the events of its result. -/
theorem admitThen_keeps
    (assumed : clients.Assumed)
    (inv : Inv clients world)
    (guarded : Bool) {publication : Publication}
    (working : (clients.workload me).publication = some publication)
    (prepared : clients.Prepared world.inner.state publication)
    (own : world.own me = []) :
    clients.Keeps me (Admitted me guarded)
      (admitThen guarded publication.admission) world := by
  apply Clients.Keeps.call assumed inv
  intro middle _ since
  refine ⟨trivial, fun reply after executed held => ?_⟩
  have ready := prepared.later since
  have quiet := (own_of_exec (by nofun) (by nofun) executed).trans
    (since.own.trans own)
  cases executed with
  | lockPoisoned _ _ => exact .fail assumed held quiet
  | lockAdmission _ _ =>
      apply Clients.Keeps.call assumed held
      intro current valid onward
      obtain ⟨holding, _⟩ := onward.held rfl
      have still := onward.own.trans quiet
      have available : clients.Prepared current.inner.state publication :=
        @Clients.Prepared.later _ _ { middle with holder := some me } _ _
          ready onward
      have permitted : clients.allowed me
          (.commitAdmission publication.admission) current :=
        ⟨holding, publication, working, rfl, available⟩
      refine ⟨permitted, fun reply after executed held => ?_⟩
      rcases commitAdmission_exec assumed valid permitted executed with
        ⟨head, rfl, holder, history⟩ | ⟨head, rfl, rfl⟩ | ⟨error, rfl, rfl⟩
      · have events : after.own me = [.committed me] := by
          rw [own_of_mine (.committed me) rfl history, still]
        exact act_keeps assumed held guarded head (holder.trans holding)
          history events
      · have skips : act guarded
            ⟨head, .alreadyCommittedActionNotInvoked⟩ =
            release (.ok ⟨head, .alreadyCommittedActionNotInvoked⟩) := by
          simp [act]
        change clients.Keeps me (Admitted me guarded)
          (act guarded ⟨head, .alreadyCommittedActionNotInvoked⟩) after
        rw [skips]
        apply Clients.Keeps.release assumed held holding
        · rintro _ ⟨⟩ final same
          exact same.trans still
        · nofun
      · apply Clients.Keeps.release assumed held holding
        · nofun
        · exact fun _ _ => still

end Calls

section Operations

variable {α : Type}

/-- The events of a call that returned an outcome. -/
def Left (me : CallId) (world : World) : Outcome → Prop
  | .head _ => ∃ result, Admitted me false result world
  | .guarded result => Admitted me true result world
  | _ => world.own me = []

/-- A call that returned: its outcome is its operation's, with its events. -/
structure Returned (clients : Clients) (me : CallId) (outcome : Outcome)
    (world : World) : Prop where
  yields : (clients.workload me).Yields outcome
  left : Left me world outcome

theorem Admitted.later
    {guarded : Bool} {result : GuardedAdmission}
    (admitted : Admitted me guarded result world)
    (own : after.own me = world.own me) :
    Admitted me guarded result after :=
  own.trans admitted

/-- What a call has read stays stored. -/
theorem readState_keeps
    (assumed : clients.Assumed)
    (inv : Inv clients world)
    (own : world.own me = []) :
    clients.Keeps me
      (fun state final => final.own me = [] ∧
        ∀ id, id ∈ state.objects → id ∈ final.inner.state.objects)
      readState world := by
  apply Clients.Keeps.call assumed inv
  intro middle valid since
  refine ⟨trivial, fun reply after executed held => ?_⟩
  have quiet : after.own me = [] := by
    rw [own_of_exec (by nofun) (by nofun) executed, since.own, own]
  cases executed with
  | readState =>
      rw [World.reading_eq valid.usable (by nofun)] at quiet held ⊢
      apply Clients.Keeps.ret assumed held
      exact fun final last => ⟨last.own.trans quiet, last.objects⟩

/-- A publication whose verification succeeds is prepared. -/
theorem verifiedAdmission_keeps
    (assumed : clients.Assumed)
    (inv : Inv clients world)
    {publication : Publication}
    (supplied : (clients.workload me).objects = publication.objects)
    (own : world.own me = []) :
    clients.Keeps me
      (fun admission final => admission = publication.admission ∧
        final.own me = [] ∧
        clients.Prepared final.inner.state publication)
      (verifiedAdmission clients.kernel readState publication) world := by
  unfold verifiedAdmission
  by_cases empty : publication.entries.isEmpty = true
  · rw [if_pos empty]
    exact .fail assumed inv own
  rw [if_neg empty]
  have nonempty : publication.entries ≠ [] := by
    intro none
    rw [none] at empty
    exact empty rfl
  apply Clients.Keeps.bind (readState_keeps assumed inv own)
  rintro before middle held ⟨quiet, stored⟩
  cases verifyState clients.kernel before with
  | error fault => exact .fail assumed held quiet
  | ok verified =>
      cases batch : verifyBatch clients.kernel before publication.expected
          publication.objects publication.entries with
      | error fault => exact .fail assumed held quiet
      | ok accepted =>
          have accepts := verifyBatch_eq_ok.mp batch
          obtain ⟨_, objects⟩ := accepts.supplied
          apply Clients.Keeps.ret assumed held
          intro final last
          refine ⟨rfl, last.own.trans quiet, nonempty, accepts.follows, ?_, ?_⟩
          · intro object inside
            have given : clients.Supplied object :=
              ⟨me, by rw [supplied]; exact inside⟩
            exact ⟨given, assumed.sound_of_verify given
              (availableObjects_verified objects object inside)⟩
          · intro entry member payload inside
            exact (accepts.available entry member payload inside).imp_left
              fun present => last.objects payload (stored payload present)

theorem acquireLease_keeps
    (assumed : clients.Assumed)
    (inv : Inv clients world)
    (own : world.own me = []) :
    clients.Keeps me (fun _ final => final.own me = []) acquireLease world := by
  apply Clients.Keeps.call assumed inv
  intro middle _ since
  refine ⟨trivial, fun reply after executed held => ?_⟩
  have quiet := (own_of_exec (by nofun) (by nofun) executed).trans
    (since.own.trans own)
  cases executed with
  | lockPoisoned _ _ => exact .fail assumed held quiet
  | lockAdmission _ _ =>
      apply Clients.Keeps.call assumed held
      intro current _ onward
      obtain ⟨holding, _⟩ := onward.held rfl
      refine ⟨holding, fun reply after executed held => ?_⟩
      have still := (own_of_exec (by nofun) (by nofun) executed).trans
        (onward.own.trans quiet)
      have holder : after.holder = some me := by
        cases executed with
        | bumpFence =>
            rw [World.recordLease_holder, World.locked_holder, holding]
      apply Clients.Keeps.release assumed held holder
      · exact fun _ _ _ same => same.trans still
      · exact fun _ _ => still

theorem putDatum_keeps
    (assumed : clients.Assumed)
    (inv : Inv clients world)
    {object : JournalObject}
    (supplied : clients.Supplied object)
    (own : world.own me = []) :
    clients.Keeps me (fun _ final => final.own me = [])
      (putDatum clients.kernel object) world := by
  unfold putDatum
  cases verified : object.verify clients.kernel with
  | error fault => exact .fail assumed inv own
  | ok accepted =>
      cases object.storageBytes clients.kernel with
      | error fault => exact .fail assumed inv own
      | ok bytes =>
          have sound := assumed.sound_of_verify supplied verified
          have inserts := Clients.Keeps.request assumed inv own
            (.insertDatum object) (fun reply => reply)
            (by nofun) (by nofun) (fun _ => ⟨supplied, sound⟩)
          apply Clients.Keeps.bind inserts
          intro _ middle held quiet
          apply Clients.Keeps.ret assumed held
          exact fun final last => last.own.trans quiet

/-- A verification reads the state and leaves no event. -/
theorem verifiedSnapshot_keeps
    (assumed : clients.Assumed)
    (inv : Inv clients world)
    (own : world.own me = []) :
    clients.Keeps me (fun _ final => final.own me = [])
      (verifiedSnapshot clients.kernel readState) world := by
  apply Clients.Keeps.bind (readState_keeps assumed inv own)
  rintro state middle held ⟨quiet, _⟩
  apply Clients.Keeps.ofExcept assumed held quiet
  exact fun _ _ _ last => last.own.trans quiet

/-- The outcome of a call without events. -/
theorem quiet_keeps
    (assumed : clients.Assumed)
    {program : MemoryProgram α} {wrap : α → Outcome}
    (keeps : clients.Keeps me (fun _ final => final.own me = []) program world)
    (yields : ∀ value, (clients.workload me).Yields (wrap value))
    (quiet : ∀ value final, final.own me = [] →
      Left me final (wrap value)) :
    clients.Keeps me (fun outcome final => Returned clients me outcome final)
      (program >>= fun value => .ret (wrap value)) world := by
  apply Clients.Keeps.bind keeps
  intro value middle held own
  apply Clients.Keeps.ret assumed held
  intro final last
  exact ⟨yields value, quiet value final (last.own.trans own)⟩

/-- Every call keeps the protocol and ends with the events of its outcome. -/
theorem callProgram_keeps
    (assumed : clients.Assumed)
    (inv : Inv clients world)
    (own : world.own me = []) :
    clients.Keeps me (fun outcome final => Returned clients me outcome final)
      (callProgram clients.kernel (clients.workload me)) world := by
  generalize working : clients.workload me = operation
  cases operation with
  | acquireLease =>
      exact quiet_keeps assumed (acquireLease_keeps assumed inv own)
        (fun _ => by rw [working]; trivial) (fun _ _ => id)
  | readState =>
      apply quiet_keeps assumed _ (fun _ => by rw [working]; trivial)
        (fun _ _ => id)
      exact Clients.Keeps.request assumed inv own .readState
        (fun reply => reply) (by nofun) (by nofun) (fun _ => trivial)
  | publish publication =>
      have published : clients.Keeps me
          (fun _ final => ∃ result, Admitted me false result final)
          (publish clients.kernel publication) world := by
        apply Clients.Keeps.bind (verifiedAdmission_keeps assumed inv
          (by rw [working]; rfl) own)
        rintro _ middle held ⟨rfl, quiet, prepared⟩
        apply Clients.Keeps.bind (admitThen_keeps assumed held false
          (by rw [working]; rfl) prepared quiet)
        intro result last held admitted
        apply Clients.Keeps.ret assumed held
        exact fun final last => ⟨result, admitted.later last.own⟩
      apply Clients.Keeps.bind published
      rintro head middle held ⟨result, admitted⟩
      apply Clients.Keeps.ret assumed held
      intro final last
      exact ⟨by rw [working]; trivial, result, admitted.later last.own⟩
  | publishThen publication =>
      have published : clients.Keeps me (Admitted me true)
          (publishThen clients.kernel publication) world := by
        apply Clients.Keeps.bind (verifiedAdmission_keeps assumed inv
          (by rw [working]; rfl) own)
        rintro _ middle held ⟨rfl, quiet, prepared⟩
        exact admitThen_keeps assumed held true (by rw [working]; rfl)
          prepared quiet
      apply Clients.Keeps.bind published
      intro result middle held admitted
      apply Clients.Keeps.ret assumed held
      intro final last
      exact ⟨by rw [working]; trivial, admitted.later last.own⟩
  | putDatum object =>
      have supplied : clients.Supplied object :=
        ⟨me, by rw [working]; exact List.mem_cons_self⟩
      exact quiet_keeps assumed (putDatum_keeps assumed inv supplied own)
        (fun _ => by rw [working]; trivial) (fun _ _ => id)
  | getDatum meaning =>
      apply quiet_keeps assumed _ (fun _ => by rw [working]; trivial)
        (fun _ _ => id)
      exact Clients.Keeps.request assumed inv own
        (.lookupDatum meaning)
        (fun reply => reply) (by nofun) (by nofun) (fun _ => trivial)
  | rebuildDatumIndex =>
      apply quiet_keeps assumed _ (fun _ => by rw [working]; trivial)
        (fun _ _ => id)
      exact Clients.Keeps.request assumed inv own
        .rebuildDatumIndex
        (fun reply => reply) (by nofun) (by nofun) (fun _ => trivial)
  | verifiedSnapshot =>
      exact quiet_keeps assumed (verifiedSnapshot_keeps assumed inv own)
        (fun _ => by rw [working]; trivial) (fun _ _ => id)

end Operations

section Systems

/-- A system of calls on the backend. -/
abbrev MemorySystem :=
  System CallId MemoryCall MemoryReply Fault Outcome World

namespace Clients

variable (clients : Clients)

/-- All calls at their start, on a new backend. -/
def initial : MemorySystem :=
  ⟨.new, fun me => some (callProgram clients.kernel (clients.workload me))⟩

/-- A call that returned stays so. -/
def resume (_ : CallId) (_ : Outcome) : Option (MemoryProgram Outcome) :=
  none

/-- One step of any call. -/
def Step : MemorySystem → MemorySystem → Prop :=
  System.Step clients.service resume

/-- Any number of steps of any calls. -/
def Steps : MemorySystem → MemorySystem → Prop :=
  System.Steps clients.service resume

/-- The systems that calls reach from a new backend. -/
def Reaches (system : MemorySystem) : Prop :=
  clients.Steps clients.initial system

end Clients

variable {system later : MemorySystem}

/-- What holds when a call has returned. -/
def Ended (clients : Clients) (me : CallId) (outcome : Outcome)
    (world : World) : Prop :=
  Inv clients world ∧ Returned clients me outcome world

/-- All running calls are safe, and a failed call has left no event. -/
def AllCallsSafe (clients : Clients) (system : MemorySystem) : Prop :=
  System.AllSafe clients.protocol (Ended clients)
    (fun me _ final => final.own me = []) system

theorem resumable :
    System.Resumable clients.protocol Clients.resume (Ended clients)
      (fun me _ final => final.own me = []) := by
  intro me outcome program world resumed _
  cases resumed

/-- At the start, all calls are safe. -/
theorem Clients.Assumed.initial
    (assumed : clients.Assumed) :
    AllCallsSafe clients clients.initial := by
  intro me program running
  have here : callProgram clients.kernel (clients.workload me) = program :=
    Option.some.inj running
  rw [← here]
  exact callProgram_keeps assumed inv_new rfl

/-- In every reachable system, all running calls are safe. -/
theorem Clients.Assumed.allSafe
    (assumed : clients.Assumed)
    (reaches : clients.Reaches system) :
    AllCallsSafe clients system :=
  System.Steps.allSafe resumable reaches assumed.initial

/-- In every reachable system, the backend satisfies the invariant. -/
theorem Clients.Assumed.inv
    (assumed : clients.Assumed)
    (reaches : clients.Reaches system) :
    Inv clients system.world :=
  System.Steps.preserves resumable (fun move => Inv.move assumed move)
    reaches assumed.initial inv_new

theorem Clients.Reaches.trans
    (reaches : clients.Reaches system)
    (steps : clients.Steps system later) :
    clients.Reaches later :=
  Relation.ReflTransGen.trans reaches steps

/-- A request of a reachable system is permitted. -/
theorem Clients.Assumed.permitted
    (assumed : clients.Assumed)
    (reaches : clients.Reaches system)
    {request : MemoryCall} {next : MemoryReply request → MemoryProgram Outcome}
    (running : system.programs me = some (.call request next)) :
    clients.allowed me request system.world :=
  (assumed.allSafe reaches me _ running system.world .refl).1

end Systems

end SimStorage.Journal.Memory
