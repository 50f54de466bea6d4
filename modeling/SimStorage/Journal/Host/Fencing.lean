import SimStorage.Journal.Host.AppendOnly

namespace SimStorage.Journal.Host

/-!
# Fencing

From any first content of the state leaf, the stored fence never falls and
every lease raises it by one.  An admission exchanges the leaf, or acts, only
while its own fence is the stored one.
-/

open Codec NativeCodec Interaction

variable {deployment : Deployment} {grounded : Prop} {me : CallId}
variable {start world : World} {system : HostSystem}
variable {first leaf middle : Option Bytes}
variable {history later earlier : List Event}

section Histories

/-- What an exchange does to the stored fence. -/
theorem Deployment.Exchange.fences
    {caller : Option CallId} {old new : Option Bytes}
    (exchange : deployment.Exchange grounded world caller old new)
    (modern : ¬ deployment.port.legacy) :
    ∃ before after,
      storedFence deployment.kernel old = some before ∧
        storedFence deployment.kernel new = some after ∧
        before ≤ after ∧
        (∀ me, caller = some me → deployment.workload me = .acquireLease →
          before < after) ∧
        (∀ me publication, caller = some me →
          (deployment.workload me).publication = some publication →
          publication.lease.fence = before) := by
  cases exchange with
  | leased working leases =>
      obtain ⟨before, envelope, stored, selects, grows⟩ := leases.fences
      have less : before < envelope.fence := by
        rw [UInt64.lt_iff_toNat_lt]
        omega
      refine ⟨before, envelope.fence, stored, storedFence_of_selects selects,
        UInt64.le_of_lt less, fun _ _ _ => less, ?_⟩
      intro other publication same published
      cases same
      rw [working] at published
      cases published
  | @appended me publication _ _ working appends =>
      obtain ⟨before, after, selects, newSelects, fence, newFence, _⟩ :=
        appends.envelopes
      have same : after.fence = before.fence := newFence.trans fence.symm
      refine ⟨before.fence, after.fence, storedFence_of_selects selects,
        storedFence_of_selects newSelects, UInt64.le_of_eq same.symm, ?_, ?_⟩
      · intro other same leasing
        cases same
        rw [leasing] at working
        cases working
      · intro other another same published
        cases same
        rw [working] at published
        cases published
        exact fence.symm
  | @confirmed me publication _ working confirms =>
      obtain ⟨envelope, selects, fence⟩ := confirms.envelopes
      have stored := storedFence_of_selects selects
      refine ⟨envelope.fence, envelope.fence, stored, stored,
        UInt64.le_refl _, ?_, ?_⟩
      · intro other same leasing
        cases same
        rw [leasing] at working
        cases working
      · intro other another same published
        cases same
        rw [working] at published
        cases published
        exact fence.symm
  | legacy legacy _ _ => exact absurd legacy modern

/-- The stored fence never falls. -/
theorem Recorded.fence_le
    {fence : UInt64}
    (recorded :
      Recorded deployment grounded world first (later ++ earlier) leaf)
    (before : Recorded deployment grounded world first earlier middle)
    (modern : ¬ deployment.port.legacy)
    (stored : storedFence deployment.kernel middle = some fence) :
    ∃ current, storedFence deployment.kernel leaf = some current ∧
      fence ≤ current := by
  induction later generalizing leaf with
  | nil =>
      obtain rfl := before.unique recorded
      exact ⟨fence, stored, UInt64.le_refl _⟩
  | cons event rest inductionHypothesis =>
      rcases recorded.cons_cases with
        ⟨caller, old, _, previous, exchange⟩ | ⟨_, _, _, _, _, _, previous, _⟩
      · obtain ⟨reached, found, below⟩ := inductionHypothesis previous
        obtain ⟨low, high, lowStored, highStored, grows, _⟩ :=
          exchange.fences modern
        rw [found] at lowStored
        cases lowStored
        exact ⟨high, highStored, UInt64.le_trans below grows⟩
      · exact inductionHypothesis previous

/-- An event of an admission comes with its own fence stored. -/
theorem Recorded.admission_fence
    {event : Event} {publication : Publication} {fence : UInt64}
    (recorded : Recorded deployment grounded world first
      (event :: (later ++ earlier)) leaf)
    (before : Recorded deployment grounded world first earlier middle)
    (modern : ¬ deployment.port.legacy)
    (stored : storedFence deployment.kernel middle = some fence)
    (mine : event.caller = some me)
    (working : (deployment.workload me).publication = some publication) :
    fence ≤ publication.lease.fence := by
  rcases recorded.cons_cases with
    ⟨caller, old, rfl, previous, exchange⟩ |
    ⟨other, another, _, _, rfl, _, previous, published, appends⟩
  · obtain ⟨reached, found, below⟩ :=
      previous.fence_le before modern stored
    obtain ⟨low, _, lowStored, _, _, _, carried⟩ := exchange.fences modern
    rw [found] at lowStored
    cases lowStored
    rw [carried me publication mine working]
    exact below
  · cases mine
    rw [working] at published
    cases published
    obtain ⟨reached, found, below⟩ :=
      previous.fence_le before modern stored
    obtain ⟨_, after, _, selects, _, same, _⟩ := appends.envelopes
    rw [storedFence_of_selects selects] at found
    cases found
    rw [← same]
    exact below

end Histories

section Reachable

variable {earlierSystem laterSystem : HostSystem}

/-- A lease was exchanged into the state leaf, with a given fence. -/
def Deployment.LeasedTo (deployment : Deployment) (system : HostSystem)
    (fence : UInt64) : Prop :=
  ∃ me old new, deployment.workload me = .acquireLease ∧
    .exchanged (some me) old new ∈ system.world.history ∧
    storedFence deployment.kernel new = some fence

/-- The exchange of a call that returned a lease. -/
theorem exchanged_of_lease
    (sound : Sound deployment grounded start)
    (reaches : deployment.Reaches start system)
    {lease : Lease}
    (done : system.programs me = some (.ret (.lease lease))) :
    deployment.workload me = .acquireLease ∧
      ∃ old new, system.world.own me = [.exchanged (some me) old new] ∧
        .exchanged (some me) old new ∈ system.world.history ∧
        storedFence deployment.kernel new = some lease.fence := by
  obtain ⟨yields, old, new, events, fence⟩ := sound.returned reaches done
  have working : deployment.workload me = .acquireLease := by
    generalize deployment.workload me = operation at yields ⊢
    cases operation <;> first | rfl | cases yields
  refine ⟨working, old, new, events, ?_, fence⟩
  have member : .exchanged (some me) old new ∈ system.world.own me := by
    rw [events]
    exact List.mem_cons_self
  exact (List.mem_filter.mp member).1

/-- Of two lease exchanges, the later one selects the larger fence. -/
theorem lease_fences_increase
    (sound : Sound deployment grounded start)
    (modern : ¬ deployment.port.legacy)
    (reaches : deployment.Reaches start system)
    {recent older : List Event} {one two : CallId}
    {old new oldOther newOther : Option Bytes} {fence other : UInt64}
    (working : deployment.workload one = .acquireLease)
    (cut : system.world.history =
      recent ++ .exchanged (some one) old new :: older)
    (member : .exchanged (some two) oldOther newOther ∈ older)
    (stored : storedFence deployment.kernel new = some fence)
    (storedOther : storedFence deployment.kernel newOther = some other) :
    other < fence := by
  have inv := sound.inv reaches
  obtain ⟨before, exchange⟩ := inv.recorded.before cut
  obtain ⟨between, oldest, split⟩ := List.append_of_mem member
  obtain ⟨begun, exchangeOther⟩ := before.before split
  rw [split] at before
  obtain ⟨reached, found, below⟩ := before.fence_le
    (.exchanged begun exchangeOther) modern storedOther
  obtain ⟨low, high, lowStored, highStored, _, grows, _⟩ :=
    exchange.fences modern
  rw [found] at lowStored
  cases lowStored
  rw [stored] at highStored
  cases highStored
  exact UInt64.lt_of_le_of_lt below (grows one rfl working)

/-- An admission with a fence below a lease leaves no event after it. -/
theorem stale_admission_silent
    (sound : Sound deployment grounded start)
    (modern : ¬ deployment.port.legacy)
    (reaches : deployment.Reaches start earlierSystem)
    (steps : deployment.Steps earlierSystem laterSystem)
    {fence : UInt64} {publication : Publication}
    (leased : deployment.LeasedTo earlierSystem fence)
    (working : (deployment.workload me).publication = some publication)
    (stale : publication.lease.fence < fence) :
    laterSystem.world.own me = earlierSystem.world.own me := by
  obtain ⟨events, history⟩ :=
    (moves_keep (sound.moves reaches steps) (sound.inv reaches)).2.1
  have inv := sound.inv (reaches.trans steps)
  obtain ⟨holder, old, new, _, member, stored⟩ := leased
  obtain ⟨recent, older, cut⟩ := List.append_of_mem member
  have silent : ∀ event ∈ events, event.caller ≠ some me := by
    intro event inside mine
    obtain ⟨after, before, split⟩ := List.append_of_mem inside
    have whole := inv.recorded
    rw [history, cut, split, List.append_assoc, List.cons_append,
      ← List.append_assoc] at whole
    obtain ⟨leaf, recorded⟩ := whole.cut
    have selected : Recorded deployment grounded laterSystem.world
        start.state (.exchanged (some holder) old new :: older) new := by
      obtain ⟨previous, exchange⟩ := inv.recorded.before
        (show laterSystem.world.history =
          (events ++ recent) ++ .exchanged (some holder) old new :: older by
            rw [history, cut, List.append_assoc])
      exact .exchanged previous exchange
    have below := recorded.admission_fence selected modern stored mine working
    exact absurd stale (UInt64.not_lt.mpr below)
  rw [World.own, World.own, history, List.filter_append,
    List.filter_eq_nil_iff.mpr, List.nil_append]
  intro event inside
  simpa using silent event inside

/-- Leases fence off the writers before them. -/
structure Deployment.Fenced (deployment : Deployment) (start : World) :
    Prop where
  /-- A returned lease comes from an exchange that raised the stored fence. -/
  raised : ∀ system me lease, deployment.Reaches start system →
    system.programs me = some (.ret (.lease lease)) →
    ∃ old new before,
      .exchanged (some me) old new ∈ system.world.history ∧
      storedFence deployment.kernel old = some before ∧
      storedFence deployment.kernel new = some lease.fence ∧
      before < lease.fence
  /-- Leases differ, and grow in the order of their exchanges. -/
  increases : ∀ system one two lease other, deployment.Reaches start system →
    system.programs one = some (.ret (.lease lease)) →
    system.programs two = some (.ret (.lease other)) →
    one ≠ two →
    lease.fence ≠ other.fence ∧
      ∀ recent older old new oldOther newOther,
        system.world.history =
          recent ++ .exchanged (some one) old new :: older →
        .exchanged (some two) oldOther newOther ∈ older →
        other.fence < lease.fence
  /--
  After a lease's exchange, an admission with a smaller fence leaves no more
  events, and returns only if it had exchanged the leaf before.
  -/
  stale : ∀ earlier later me publication fence,
    deployment.Reaches start earlier → deployment.Steps earlier later →
    deployment.LeasedTo earlier fence →
    (deployment.workload me).publication = some publication →
    publication.lease.fence < fence →
    later.world.own me = earlier.world.own me ∧
      ∀ outcome, later.programs me = some (.ret outcome) →
        ∃ old new, .exchanged (some me) old new ∈ earlier.world.history

/-- From any first content of the state leaf, leases fence. -/
theorem lease_fencing
    (lawful : deployment.kernel.Lawful)
    (modern : ¬ deployment.port.legacy)
    (untouched : Untouched start) :
    deployment.Fenced start := by
  have sound : Sound deployment False start := ⟨lawful, untouched, nofun⟩
  refine ⟨?_, ?_, ?_⟩
  · intro system me lease reaches done
    obtain ⟨working, old, new, _, member, fence⟩ :=
      exchanged_of_lease sound reaches done
    obtain ⟨recent, older, cut⟩ := List.append_of_mem member
    obtain ⟨_, exchange⟩ := (sound.inv reaches).recorded.before cut
    obtain ⟨before, after, stored, newStored, _, grows, _⟩ :=
      exchange.fences modern
    rw [fence] at newStored
    cases newStored
    exact ⟨old, new, before, member, stored, fence, grows me rfl working⟩
  · intro system one two lease other reaches done doneOther different
    obtain ⟨working, old, new, own, member, fence⟩ :=
      exchanged_of_lease sound reaches done
    obtain ⟨workingOther, oldOther, newOther, ownOther, memberOther,
      fenceOther⟩ := exchanged_of_lease sound reaches doneOther
    have unique {caller : CallId} {o n o' n' : Option Bytes}
        (mine : system.world.own caller = [.exchanged (some caller) o n])
        (inside : .exchanged (some caller) o' n' ∈ system.world.history) :
        o' = o ∧ n' = n := by
      have here : .exchanged (some caller) o' n' ∈ system.world.own caller :=
        List.mem_filter.mpr ⟨inside, by simp [Event.caller]⟩
      rw [mine, List.mem_singleton] at here
      cases here
      exact ⟨rfl, rfl⟩
    constructor
    · obtain ⟨recent, older, cut⟩ := List.append_of_mem member
      rw [cut, List.mem_append, List.mem_cons] at memberOther
      rcases memberOther with after | same | before
      · obtain ⟨latest, between, split⟩ := List.append_of_mem after
        have less := lease_fences_increase sound modern reaches workingOther
          (show system.world.history = latest ++
            .exchanged (some two) oldOther newOther ::
              (between ++ .exchanged (some one) old new :: older) by
                rw [cut, split, List.append_assoc, List.cons_append])
          (List.mem_append_right _ List.mem_cons_self) fenceOther fence
        exact UInt64.ne_of_lt less
      · cases same
        exact absurd rfl different
      · have less := lease_fences_increase sound modern reaches working cut
          before fence fenceOther
        exact (UInt64.ne_of_lt less).symm
    · intro recent older o n o' n' cut inside
      have here : .exchanged (some one) o n ∈ system.world.history := by
        rw [cut]
        exact List.mem_append_right _ List.mem_cons_self
      have there : .exchanged (some two) o' n' ∈ system.world.history := by
        rw [cut]
        exact List.mem_append_right _ (List.mem_cons_of_mem _ inside)
      obtain ⟨_, rfl⟩ := unique own here
      obtain ⟨_, rfl⟩ := unique ownOther there
      exact lease_fences_increase sound modern reaches working cut inside fence
        fenceOther
  · intro earlier later me publication fence reaches steps leased working stale
    have silent := stale_admission_silent sound modern reaches steps leased
      working stale
    refine ⟨silent, fun outcome done => ?_⟩
    have returned := sound.returned (reaches.trans steps) done
    obtain ⟨old, new, member⟩ := returned.exchanged working
    have mine : .exchanged (some me) old new ∈ later.world.own me :=
      List.mem_filter.mpr ⟨member, by simp [Event.caller]⟩
    rw [silent] at mine
    exact ⟨old, new, (List.mem_filter.mp mine).1⟩

/-- The reference deployment's leases fence. -/
theorem reference_lease_fencing :
    Deployment.reference.Fenced .vacant :=
  lease_fencing Reference.kernel_lawful id World.vacant_empty.toUntouched

end Reachable

end SimStorage.Journal.Host
