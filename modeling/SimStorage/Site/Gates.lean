import SimStorage.Site.Bounds

namespace SimStorage.Site

/-!
# The gate of a site

A call of a site reaches its driver only through the effect that requires the
call's capability.  Bodies of transactions, however they nest savepoints, work
on a session that was opened under the transaction's capability; outside of
bodies every row was checked, and the rows that a sink accepts stay within the
limits of the call.
-/

open Codec Interaction

variable {R : Relations} {Cx ω κ α β : Type}

section Definitions

/-- The calls of a site. -/
inductive SiteCall (R : Relations) (κ : Type) where
  | query (plan : R.CheckedQuery) (bindings : R.Bindings) (sink : RowSink R κ)
  | mutate (plan : R.CheckedMutation) (bindings : R.Bindings)
      (sink : RowSink R κ)
  | migrate (program : R.CheckedProgram)
  | schema (program : R.CheckedProgram)
  | attach (locator : Datum)
  | transaction (body : κ → Body R κ)

namespace SiteCall

/-- The operation of a call. -/
def operation : SiteCall R κ → Operation
  | .query .. => .read
  | .mutate .. => .write
  | .migrate _ => .migrate
  | .schema _ => .schema
  | .attach _ => .attach
  | .transaction _ => .transaction

/-- A call on a site. -/
def run (kernel : Kernel Cx) (site : RelationSite R ω) (limits : Limits) :
    SiteCall R κ → SiteM R Cx ω κ Receipt
  | .query plan bindings sink => site.query kernel plan bindings limits sink
  | .mutate plan bindings sink => site.mutate kernel plan bindings limits sink
  | .migrate program => site.migrate kernel program limits
  | .schema program => site.schema kernel program limits
  | .attach locator => site.attach kernel locator limits
  | .transaction body => site.transaction kernel limits body

/-- What a call does with the session that it connects. -/
def perform (site : RelationSite R ω) (limits : Limits) :
    SiteCall R κ → Nat → SiteM R Cx ω κ ProviderStats
  | .query plan bindings sink => fun session =>
      executeRows .read false
        (boundedPush (R.queryOutput plan) limits
          (deliver (R.queryOutput plan) sink false))
        (site.driver.query session plan bindings limits)
  | .mutate plan bindings sink => fun session =>
      executeRows .write false
        (boundedPush (R.mutationOutput plan) limits
          (deliver (R.mutationOutput plan) sink false))
        (site.driver.mutate session plan bindings limits)
  | .migrate program => fun session =>
      execute .migrate false (site.driver.migrate session program limits)
  | .schema program => fun session =>
      execute .schema false (site.driver.schema session program limits)
  | .attach locator => fun session =>
      execute .attach false (site.driver.attach session locator limits)
  | .transaction body => fun session => do
      enterScope (fun session => do
        let world ← get
        (body world.caller).run site.driver session)
        (site.driver.transaction session)
      return .none

end SiteCall

/-- The kernel admits the effect of an operation, and leaves a context. -/
inductive Admits (kernel : Kernel Cx) (site : RelationSite R ω)
    (operation : Operation) (cx : Cx) : Cx → Prop where
  | intro {input : ContentId} {handle : Nat} {interned fresh after : Cx} :
      kernel.intern (.node (.qualified "relation" "request")
        [(.new "site", .symbol site.placement.site)]) cx =
          (.ok input, interned) →
      kernel.freshHandle interned = (handle, fresh) →
      kernel.admitted {
        handle := handle
        kind := operation.effect
        subject := site.placement.site
        input := input
        result := .qualified "core" "Any"
        requires := operation.capability } fresh = (.ok (), after) →
      Admits kernel site operation cx after

/-- The worlds differ in the context and in the locals of a call only. -/
structure World.Rests (world after : World R Cx ω κ) : Prop where
  provider : after.provider = world.provider
  caller : after.caller = world.caller
  clock : after.clock = world.clock
  ticks : after.ticks = world.ticks
  trace : after.trace = world.trace

/--
The driver is connected and works, in the context in which the kernel admitted
the operation, and which holds its capability; nothing else happens.
-/
inductive Connects (kernel : Kernel Cx) (site : RelationSite R ω)
    (limits : Limits) (operation : Operation)
    (perform : Nat → SiteM R Cx ω κ ProviderStats)
    (world after : World R Cx ω κ) : Prop where
  | intro (ready middle : World R Cx ω κ)
      (performed : Except SiteError ContentId) :
      Admits kernel site operation world.cx ready.cx →
      kernel.held ready.cx operation.capability →
      world.Rests ready →
      Yields (site.performing kernel limits perform) ready performed middle →
      middle.Rests after →
      Connects kernel site limits operation perform world after

/-- The event was let through by the gate, and its row by the check. -/
def Event.Gated (kernel : Kernel Cx) : Event R Cx → Prop
  | .execute operation cx false => kernel.held cx operation.capability
  | .execute _ cx true => kernel.held cx Operation.transaction.capability
  | .deliver expected row false => R.rowType row = expected
  | _ => True

/--
The rows that sinks outside of bodies accepted, by the events in order; the
latest event comes first, and a refusal follows the delivery that it refuses.
-/
def acceptedRows (refused : Bool) : List (Event R Cx) → List R.Row
  | [] => []
  | .refuse :: rest => acceptedRows true rest
  | .deliver _ row inBody :: rest =>
      if refused || inBody then
        acceptedRows false rest
      else
        acceptedRows false rest ++ [row]
  | .execute _ _ _ :: rest => acceptedRows refused rest
  | .begin _ :: rest => acceptedRows refused rest

/-- What the effect of an operation, or a body, may record in a context. -/
inductive Local : Option Operation → Cx → Event R Cx → Prop where
  | execute (operation : Operation) (cx : Cx) :
      Local (some operation) cx (.execute operation cx false)
  | deliver {operation : Operation} {cx : Cx} {row : R.Row} :
      Local (some operation) cx (.deliver (R.rowType row) row false)
  | inBody (operation : Operation) (cx : Cx) :
      Local none cx (.execute operation cx true)
  | delivered {cx : Cx} (expected : R.RowType) (row : R.Row) :
      Local none cx (.deliver expected row true)
  | refuse (scope : Option Operation) (cx : Cx) :
      Local scope cx .refuse

/-- The context stays, and only events of a scope are recorded. -/
def Adds (scope : Option Operation) (world after : World R Cx ω κ) : Prop :=
  after.cx = world.cx ∧ ∃ events, after.trace = events ++ world.trace ∧
    ∀ event ∈ events, Local scope world.cx event

end Definitions

section Recording

variable {scope : Option Operation} {operation : Operation}
variable {world after : World R Cx ω κ}

theorem Adds.refl
    (world : World R Cx ω κ) :
    Adds scope world world :=
  ⟨rfl, [], rfl, fun _ impossible => absurd impossible List.not_mem_nil⟩

theorem Adds.trans
    (first middle last : World R Cx ω κ)
    (before : Adds scope first middle)
    (later : Adds scope middle last) :
    Adds scope first last := by
  obtain ⟨same, events, added, local'⟩ := before
  obtain ⟨sameToo, others, addedToo, localToo⟩ := later
  refine ⟨sameToo.trans same, others ++ events, ?_, ?_⟩
  · rw [addedToo, added, List.append_assoc]
  · intro event member
    rcases List.mem_append.mp member with inside | inside
    · exact same ▸ localToo event inside
    · exact local' event inside

/-- A change without events that keeps the context. -/
theorem Adds.quiet
    (cx : after.cx = world.cx)
    (trace : after.trace = world.trace) :
    Adds scope world after :=
  ⟨cx, [], trace, fun _ impossible => absurd impossible List.not_mem_nil⟩

/-- One event of the scope. -/
theorem record_adds
    {event : Event R Cx}
    (fits : ∀ cx : Cx, Local scope cx event) :
    Interaction.Within (Adds scope)
      (record event : SiteM R Cx ω κ Unit) := by
  apply Interaction.Within.modify
  intro world
  refine ⟨rfl, [event], rfl, fun other member => ?_⟩
  rw [List.mem_singleton.mp member]
  exact fits world.cx

/-- Recording an operation in the current context, and what follows. -/
theorem executing_adds
    {inBody : Bool} {rest : World R Cx ω κ → SiteM R Cx ω κ α}
    (fits : ∀ cx : Cx, Local (R := R) scope cx (.execute operation cx inBody))
    (others : ∀ world, Interaction.Within (Adds scope) (rest world)) :
    Interaction.Within (Adds scope) (do
      let world ← get
      record (.execute operation world.cx inBody)
      rest world) := by
  apply Interaction.Within.reading
  intro world outcome after whole
  let recorded : World R Cx ω κ :=
    { world with trace := .execute operation world.cx inBody :: world.trace }
  have runs : Yields (record (.execute operation world.cx inBody)) world
      (.ok ()) recorded := Yields.modify _ _
  have added : Adds scope world recorded := by
    refine ⟨rfl, [_], rfl, fun event member => ?_⟩
    rw [List.mem_singleton.mp member]
    exact fits world.cx
  exact Adds.trans _ _ _ added (others world _ _ _ (runs.rest whole))

theorem deliver_adds
    {expected : R.RowType} {sink : RowSink R κ} {inBody : Bool} {row : R.Row}
    (fits : ∀ cx : Cx, Local scope cx (.deliver expected row inBody)) :
    Interaction.Within (Adds scope)
      (deliver expected sink inBody row : SiteM R Cx ω κ Unit) := by
  apply Interaction.Within.bind Adds.trans (record_adds fits)
  intro _
  apply Interaction.Within.reading
  intro world outcome after whole
  have set := (Yields.set _ _).rest whole
  have quiet : Adds scope world
      { world with caller := (sink row world.caller).2 } :=
    .quiet rfl rfl
  refine Adds.trans _ _ _ quiet ?_
  cases answer : (sink row world.caller).1 with
  | ok done =>
      simp only [answer] at set
      exact Interaction.Within.pure Adds.refl _ _ _ _ set
  | error error =>
      simp only [answer] at set
      exact Interaction.Within.bind Adds.trans
        (record_adds fun cx => .refuse scope cx)
        (fun _ => Interaction.Within.throw Adds.refl _) _ _ _ set

theorem settleProvider_adds
    {outcome : Except (SiteError × ω) (α × ω)} :
    Interaction.Within (Adds scope)
      (settleProvider outcome : SiteM R Cx ω κ α) := by
  cases outcome with
  | ok value =>
      exact Interaction.Within.bind Adds.trans
        (Interaction.Within.modify fun _ => .quiet rfl rfl)
        fun _ => Interaction.Within.pure Adds.refl _
  | error error =>
      exact Interaction.Within.bind Adds.trans
        (Interaction.Within.modify fun _ => .quiet rfl rfl)
        fun _ => Interaction.Within.throw Adds.refl _

theorem onProvider_adds
    {step : ω → Except SiteError α × ω} :
    Interaction.Within (Adds scope)
      (onProvider step : SiteM R Cx ω κ α) := by
  intro world outcome after yields
  obtain ⟨_, rfl⟩ := (onProvider_yields step world).unique yields
  exact .quiet rfl rfl

theorem execute_adds
    {inBody : Bool} {step : ω → Except SiteError ProviderStats × ω}
    (fits : ∀ cx : Cx, Local (R := R) scope cx (.execute operation cx inBody)) :
    Interaction.Within (Adds scope)
      (execute operation inBody step : SiteM R Cx ω κ ProviderStats) :=
  executing_adds fits fun _ => onProvider_adds

theorem executeRows_adds
    {inBody : Bool} {push : R.Row → SiteM R Cx ω κ Unit}
    {emission : ω → Emission R ω}
    (fits : ∀ cx : Cx, Local (R := R) scope cx (.execute operation cx inBody))
    (pushes : ∀ row, Interaction.Within (Adds scope) (push row)) :
    Interaction.Within (Adds scope)
      (executeRows operation inBody push emission) := by
  apply executing_adds fits
  intro world
  apply Interaction.Within.bind Adds.trans
  · exact Interaction.Within.interpret Adds.refl Adds.trans
      (fun row => (pushes row).observe) _
  · exact fun _ => settleProvider_adds

/-- A provider enters a body as often as it likes. -/
theorem enterScope_adds
    {enter : Nat → SiteM R Cx ω κ Unit} {entered : ω → Scope ω}
    (inside : ∀ session, Interaction.Within (Adds scope) (enter session)) :
    Interaction.Within (Adds scope) (enterScope enter entered) := by
  apply Interaction.Within.bind Adds.trans
    (Interaction.Within.get Adds.refl)
  intro world
  apply Interaction.Within.bind Adds.trans
  · apply Interaction.Within.interpret Adds.refl Adds.trans
    rintro ⟨session, state⟩
    dsimp only
    refine Interaction.Within.bind Adds.trans ?_ fun _ => ?_
    · exact Interaction.Within.modify fun _ => .quiet rfl rfl
    · apply Interaction.Within.bind Adds.trans (inside session).observe
      intro outcome
      apply Interaction.Within.bind Adds.trans
        (Interaction.Within.get Adds.refl)
      exact fun _ => Interaction.Within.pure Adds.refl _
  · exact fun _ => settleProvider_adds

/-- A body records operations in bodies only, whatever it nests. -/
theorem Body.run_adds
    (driver : Driver R ω) (body : Body R κ) :
    ∀ session, Interaction.Within (Adds none)
      (body.run driver session : SiteM R Cx ω κ Unit) := by
  -- What a body does next depends on the caller's state after the operation.
  have continues {α : Type} {step : SiteM R Cx ω κ α} {session : Nat}
      {next : Except SiteError α → κ → Body R κ}
      (steps : Interaction.Within (Adds none) step)
      (later : ∀ outcome state session, Interaction.Within (Adds none)
        ((next outcome state).run driver session : SiteM R Cx ω κ Unit)) :
      Interaction.Within (Adds none) (do
        let outcome ← observe step
        let world ← get
        (next outcome world.caller).run driver session) := by
    apply Interaction.Within.bind Adds.trans steps.observe
    intro outcome
    apply Interaction.Within.bind Adds.trans
      (Interaction.Within.get Adds.refl)
    exact fun world => later outcome world.caller session
  have enters {inner : κ → Body R κ} {entered : ω → Scope ω}
      (inside : ∀ state session, Interaction.Within (Adds none)
        ((inner state).run driver session : SiteM R Cx ω κ Unit)) :
      Interaction.Within (Adds none) (enterScope (fun session => do
        let world ← get
        (inner world.caller).run driver session) entered :
          SiteM R Cx ω κ Unit) := by
    apply enterScope_adds
    intro session
    apply Interaction.Within.bind Adds.trans
      (Interaction.Within.get Adds.refl)
    exact fun world => inside world.caller session
  induction body with
  | done outcome state =>
      intro session
      exact Interaction.Within.bind Adds.trans
        (Interaction.Within.modify fun _ => .quiet rfl rfl)
        fun _ => Interaction.Within.ofExcept Adds.refl _
  | query plan bindings limits sink next later =>
      exact fun session => continues (executeRows_adds (fun cx => .inBody _ cx)
        fun row => deliver_adds fun _ => .delivered _ row) later
  | mutate plan bindings limits sink next later =>
      exact fun session => continues (executeRows_adds (fun cx => .inBody _ cx)
        fun row => deliver_adds fun _ => .delivered _ row) later
  | migrate program limits next later =>
      exact fun session => continues (execute_adds fun cx => .inBody _ cx) later
  | schema program limits next later =>
      exact fun session => continues (execute_adds fun cx => .inBody _ cx) later
  | attach locator limits next later =>
      exact fun session => continues (execute_adds fun cx => .inBody _ cx) later
  | transaction inner next inside later =>
      exact fun session => continues (enters inside) later
  | savepoint inner next inside later =>
      exact fun session => continues (enters inside) later

end Recording

section Counting

variable {start world after : World R Cx ω κ} {limits : Limits}
variable {expected : R.RowType} {sink : RowSink R κ} {row : R.Row}

/-- The counts are those of the rows accepted since a start, in the limits. -/
def Counted (limits : Limits) (start world : World R Cx ω κ) : Prop :=
  ∃ events, world.trace = events ++ start.trace ∧
    world.counts.Tallies R (acceptedRows false events) ∧
    Within R limits (acceptedRows false events)

/-- What is counted stays so. -/
def Counts.Keeps (limits : Limits) (start world after : World R Cx ω κ) :
    Prop :=
  Counted limits start world → Counted limits start after

theorem keeps_refl
    (world : World R Cx ω κ) :
    Counts.Keeps limits start world world :=
  id

theorem keeps_trans
    (first middle last : World R Cx ω κ)
    (before : Counts.Keeps limits start first middle)
    (later : Counts.Keeps limits start middle last) :
    Counts.Keeps limits start first last :=
  later ∘ before

theorem keeps_quiet
    (trace : after.trace = world.trace)
    (counts : after.counts = world.counts) :
    Counts.Keeps limits start world after := by
  rintro ⟨events, added, tallies, within⟩
  exact ⟨events, trace.trans added, counts ▸ tallies, within⟩

theorem counted_start
    (zero : start.counts = .zero) :
    Counted limits start start :=
  ⟨[], rfl, zero ▸ Counts.zero_tallies, ⟨Nat.zero_le _, Nat.zero_le _,
    Nat.zero_le _⟩⟩

/-- A delivery is recorded, and a refusal after it. -/
theorem deliver_cases
    {outcome : Except SiteError Unit}
    (yields : Yields (deliver expected sink false row) world outcome after) :
    after.counts = world.counts ∧
      (outcome = .ok () ∧
          after.trace = .deliver expected row false :: world.trace ∨
        (∃ error, outcome = .error error) ∧
          after.trace =
            .refuse :: .deliver expected row false :: world.trace) := by
  have recorded : Yields (record (.deliver expected row false)) world (.ok ())
      { world with trace := .deliver expected row false :: world.trace } :=
    Yields.modify _ _
  have asked := (Yields.get _).rest (recorded.rest yields)
  have set := (Yields.set _ _).rest asked
  cases answer : (sink row world.caller).1 with
  | ok done =>
      simp only [answer] at set
      obtain ⟨rfl, rfl⟩ := (Yields.pure _ _).unique set
      exact ⟨rfl, .inl ⟨rfl, rfl⟩⟩
  | error error =>
      simp only [answer] at set
      have thrown := (Yields.modify _ _).rest set
      obtain ⟨rfl, rfl⟩ := (Yields.throw _ _).unique thrown
      exact ⟨rfl, .inr ⟨⟨error, rfl⟩, rfl⟩⟩

/-- A push that is accepted is counted, and a refused one is not. -/
theorem boundedPush_keeps
    (sized : R.Sized) :
    Interaction.Within (Counts.Keeps limits start)
      (boundedPush expected limits (deliver expected sink false) row :
        SiteM R Cx ω κ Unit) := by
  rw [boundedPush]
  split
  · exact Interaction.Within.throw keeps_refl _
  · apply Interaction.Within.reading
    rintro world outcome after whole ⟨events, added, tallies, within⟩
    rcases whole.bind_inv with ⟨later, _, admits, pushed⟩ | ⟨_, failed, _⟩
    swap
    · obtain ⟨_, rfl⟩ := failed.ofExcept_inv
      exact ⟨events, added, tallies, within⟩
    obtain ⟨admitted, rfl⟩ := admits.ofExcept_inv
    obtain ⟨counted, bounded⟩ := tallies.admitted sized admitted.symm
    rcases pushed.bind_inv with ⟨_, middle, delivers, counting⟩ |
      ⟨_, delivers, rfl⟩
    · obtain ⟨_, ⟨_, trace⟩ | ⟨⟨_, impossible⟩, _⟩⟩ := deliver_cases delivers
      swap
      · cases impossible
      obtain ⟨_, rfl⟩ := (Yields.modify _ middle).unique counting
      refine ⟨.deliver expected row false :: events, ?_, counted, bounded⟩
      rw [trace, added]
      rfl
    · obtain ⟨same, ⟨impossible, _⟩ | ⟨_, trace⟩⟩ := deliver_cases delivers
      · cases impossible
      refine ⟨.refuse :: .deliver expected row false :: events, ?_,
        same ▸ tallies, within⟩
      rw [trace, added]
      rfl

theorem settleProvider_keeps
    {outcome : Except (SiteError × ω) (α × ω)} :
    Interaction.Within (Counts.Keeps limits start)
      (settleProvider outcome : SiteM R Cx ω κ α) := by
  cases outcome with
  | ok value =>
      refine Interaction.Within.bind keeps_trans ?_
        fun _ => Interaction.Within.pure keeps_refl _
      exact Interaction.Within.modify fun _ => keeps_quiet rfl rfl
  | error error =>
      refine Interaction.Within.bind keeps_trans ?_
        fun _ => Interaction.Within.throw keeps_refl _
      exact Interaction.Within.modify fun _ => keeps_quiet rfl rfl

theorem executeRows_keeps
    {operation : Operation} {emission : ω → Emission R ω}
    (sized : R.Sized) :
    Interaction.Within (Counts.Keeps limits start)
      (executeRows operation false
        (boundedPush expected limits (deliver expected sink false)) emission :
          SiteM R Cx ω κ ProviderStats) := by
  apply Interaction.Within.reading
  intro world outcome after whole
  let recorded : World R Cx ω κ :=
    { world with trace := .execute operation world.cx false :: world.trace }
  have runs : Yields (record (.execute operation world.cx false)) world
      (.ok ()) recorded := Yields.modify _ _
  have keeps : Counts.Keeps limits start world recorded := by
    rintro ⟨events, added, tallies, within⟩
    refine ⟨.execute operation world.cx false :: events, ?_, tallies, within⟩
    exact congrArg (List.cons _) added
  refine keeps_trans _ _ _ keeps ?_
  refine Interaction.Within.bind keeps_trans ?_ (fun _ => settleProvider_keeps)
    _ _ _ (runs.rest whole)
  exact Interaction.Within.interpret keeps_refl keeps_trans
    (fun row => (boundedPush_keeps sized).observe) _

end Counting

section Effects

variable {kernel : Kernel Cx} {site : RelationSite R ω}
variable {operation : Operation} {limits : Limits}
variable {world after : World R Cx ω κ}

theorem World.OnlyCx.refl
    (world : World R Cx ω κ) :
    world.OnlyCx world :=
  ⟨world.cx, rfl⟩

theorem World.OnlyCx.trans
    (first middle last : World R Cx ω κ)
    (before : first.OnlyCx middle)
    (later : middle.OnlyCx last) :
    first.OnlyCx last := by
  obtain ⟨_, rfl⟩ := before
  obtain ⟨cx, rfl⟩ := later
  exact ⟨cx, rfl⟩

theorem World.OnlyCx.rests
    (changed : world.OnlyCx after) :
    world.Rests after := by
  obtain ⟨_, rfl⟩ := changed
  exact ⟨rfl, rfl, rfl, rfl, rfl⟩

/-- An effect runs its body only where the kernel admits its operation. -/
theorem effect_gated
    {perform : SiteM R Cx ω κ ContentId} {outcome : Except SiteError Unit}
    (gated : kernel.Gated)
    (yields : Yields (site.effect kernel operation perform) world outcome
      after) :
    ((∃ error, outcome = .error error) ∧ world.OnlyCx after) ∨
      ∃ ready middle performed, world.OnlyCx ready ∧
        Admits kernel site operation world.cx ready.cx ∧
        kernel.held ready.cx operation.capability ∧
        Yields perform ready performed middle ∧ middle.OnlyCx after := by
  rw [RelationSite.effect] at yields
  rcases yields.bind_inv with ⟨input, interned, interns, rest⟩ |
    ⟨error, interns, rfl⟩
  swap
  · exact .inl ⟨⟨error, rfl⟩, intern_onlyCx interns⟩
  obtain ⟨made, rfl⟩ :=
    ((onCx_yields _ world).rest interns).ofExcept_inv
  have admitting := (onCx_yields kernel.freshHandle _).rest rest
  have concluding := (onCx_yields (kernel.admitted _) _).rest admitting
  rcases concluding.bind_inv with ⟨_, ready, admits, body⟩ |
    ⟨error, admits, rfl⟩
  swap
  · obtain ⟨_, rfl⟩ := admits.ofExcept_inv
    exact .inl ⟨⟨error, rfl⟩, _, rfl⟩
  obtain ⟨admitted, rfl⟩ := admits.ofExcept_inv
  obtain ⟨performed, middle, performs⟩ := Yields.total perform _
  have ending := performs.observe.rest body
  have passed : (kernel.admitted _ _).1 = .ok () := mapError_eq_ok admitted.symm
  refine .inr ⟨_, middle, performed, ⟨_, rfl⟩, ?_, gated _ _ _
    (Prod.ext passed rfl), performs, ?_⟩
  · exact .intro (Prod.ext (mapError_eq_ok made.symm) rfl) rfl
      (Prod.ext passed rfl)
  · refine Interaction.Within.bind World.OnlyCx.trans ?_ (fun concluded => ?_)
      _ _ _ ending
    · intro world outcome after yields
      obtain ⟨_, rfl⟩ := (onCx_yields _ world).unique yields
      exact ⟨_, rfl⟩
    · cases concluded with
      | ok done => exact Interaction.Within.pure World.OnlyCx.refl _
      | error text =>
          cases performed with
          | ok id => exact Interaction.Within.throw World.OnlyCx.refl _
          | error error => exact Interaction.Within.throw World.OnlyCx.refl _

/-- What the operation of an effect did, if its session was connected. -/
inductive Entered (kernel : Kernel Cx) (operation : Operation)
    (perform : Nat → SiteM R Cx ω κ ProviderStats)
    (world after : World R Cx ω κ) : Prop where
  | unconnected :
      after.trace = world.trace → after.counts = world.counts →
      Entered kernel operation perform world after
  | ran (ready middle : World R Cx ω κ) (session : Nat)
      (outcome : Except SiteError ProviderStats) :
      kernel.held ready.cx operation.capability →
      ready.trace = world.trace → ready.counts = world.counts →
      Yields (perform session) ready outcome middle →
      after.trace = middle.trace → after.counts = middle.counts →
      Entered kernel operation perform world after

/-- An effect is refused, or its operation runs on a connected session. -/
theorem effect_entered
    {perform : Nat → SiteM R Cx ω κ ProviderStats}
    {outcome : Except SiteError Unit}
    (gated : kernel.Gated)
    (yields : Yields
      (site.effect kernel operation (site.performing kernel limits perform))
      world outcome after) :
    ((∃ error, outcome = .error error) ∧ world.OnlyCx after) ∨
      Connects kernel site limits operation perform world after ∧
        Entered kernel operation perform world after := by
  rcases effect_gated gated yields with refused |
    ⟨ready, middle, performed, started, admitted, held, performs, ended⟩
  · exact .inl refused
  refine .inr ⟨.intro ready middle performed admitted held started.rests
    performs ended.rests, ?_⟩
  obtain ⟨cx, rfl⟩ := started
  obtain ⟨later, rfl⟩ := ended
  rcases performing_cases performs with
    ⟨_, provider, _, rfl, _⟩ | ⟨session, last, ran, provider, happened⟩
  · exact .unconnected rfl rfl
  · let ready : World R Cx ω κ :=
      { world with cx := cx, provider := provider, ticks := world.ticks + 1 }
    exact .ran ready last session ran held rfl rfl happened.yields
      happened.trace happened.counts

end Effects

section Securing

variable {kernel : Kernel Cx} {site : RelationSite R ω}
variable {operation : Operation} {limits : Limits}
variable {world after : World R Cx ω κ}

/-- A call is let through by the gate, and keeps its limits. -/
structure Secured (kernel : Kernel Cx) (site : RelationSite R ω)
    (limits : Limits) (operation : Operation)
    (perform : Nat → SiteM R Cx ω κ ProviderStats) (world : World R Cx ω κ)
    (outcome : Except SiteError Receipt) (after : World R Cx ω κ)
    (events : List (Event R Cx)) : Prop where
  trace : after.trace = events ++ world.trace
  /-- Every operation had its capability, and every checked row its type. -/
  gated : ∀ event ∈ events, event.Gated kernel
  /-- The accepted rows are within the limits of the call. -/
  within : Within R limits (acceptedRows false events)
  /-- A receipt counts the accepted rows. -/
  receipt : ∀ receipt, outcome = .ok receipt →
    (⟨receipt.rows, receipt.cells, receipt.bytes⟩ : Counts).Tallies R
      (acceptedRows false events)
  /-- Without the capability not even the driver is connected. -/
  entered : ((∃ error, outcome = .error error) ∧ world.Rests after) ∨
    Connects kernel site limits operation perform world after

/-- Where the kernel does not admit the operation, the call is an error. -/
theorem Secured.denied
    {perform : Nat → SiteM R Cx ω κ ProviderStats}
    {outcome : Except SiteError Receipt} {events : List (Event R Cx)}
    (secured : Secured kernel site limits operation perform world outcome after
      events)
    (denies : ∀ cx, Admits kernel site operation world.cx cx →
      ¬ kernel.held cx operation.capability) :
    (∃ error, outcome = .error error) ∧ world.Rests after := by
  rcases secured.entered with refused | connects
  · exact refused
  · cases connects with
    | intro ready middle performed admitted held =>
        exact absurd held (denies _ admitted)

/-- The locals of a call do not matter to what it connects. -/
theorem Connects.from_locals
    {perform : Nat → SiteM R Cx ω κ ProviderStats} {start : World R Cx ω κ}
    (connects : Connects kernel site limits operation perform start after)
    (rests : world.Rests start)
    (cx : start.cx = world.cx) :
    Connects kernel site limits operation perform world after := by
  cases connects with
  | intro ready middle performed admitted held started performs ended =>
      refine .intro ready middle performed (cx ▸ admitted) held ?_ performs
        ended
      exact ⟨started.provider.trans rests.provider,
        started.caller.trans rests.caller, started.clock.trans rests.clock,
        started.ticks.trans rests.ticks, started.trace.trans rests.trace⟩

theorem within_nil :
    Within R limits [] :=
  ⟨Nat.zero_le _, Nat.zero_le _, Nat.zero_le _⟩

theorem Local.gated
    {cx : Cx} {event : Event R Cx}
    (here : Local (some operation) cx event)
    (held : kernel.held cx operation.capability) :
    event.Gated kernel := by
  cases here with
  | execute => exact held
  | deliver => exact rfl
  | refuse => trivial

theorem Local.gated_body
    {cx : Cx} {event : Event R Cx}
    (here : Local none cx event)
    (held : kernel.held cx Operation.transaction.capability) :
    event.Gated kernel := by
  cases here with
  | inBody => exact held
  | delivered => trivial
  | refuse => trivial

/-- Bodies deliver their rows to nobody's bounded sink. -/
theorem acceptedRows_body
    {cx : Cx} {events : List (Event R Cx)}
    (inBody : ∀ event ∈ events, Local none cx event) :
    ∀ refused, acceptedRows refused events = [] := by
  induction events with
  | nil => exact fun _ => rfl
  | cons event rest inductionHypothesis =>
      have later := inductionHypothesis
        fun other member => inBody other (List.mem_cons_of_mem _ member)
      intro refused
      cases inBody event List.mem_cons_self with
      | inBody => exact later refused
      | delivered => simp [acceptedRows, later]
      | refuse => exact later true

/-- What the operation of an effect without rows records. -/
def Rowless (kernel : Kernel Cx) (operation : Operation)
    (perform : Nat → SiteM R Cx ω κ ProviderStats) : Prop :=
  ∀ session ready outcome middle,
    Yields (perform session) ready outcome middle →
    kernel.held ready.cx operation.capability →
    ∃ events, middle.trace = events ++ ready.trace ∧
      (∀ event ∈ events, event.Gated kernel) ∧ acceptedRows false events = []

theorem simpleEffect_secured
    {id : String} {perform : Nat → SiteM R Cx ω κ ProviderStats}
    {outcome : Except SiteError Receipt}
    (gated : kernel.Gated)
    (rowless : Rowless kernel operation perform)
    (yields : Yields (site.simpleEffect kernel operation id limits perform)
      world outcome after) :
    ∃ events, Secured kernel site limits operation perform world outcome after
      events := by
  have rests : world.Rests { world with stats := none } :=
    ⟨rfl, rfl, rfl, rfl, rfl⟩
  have effecting := (Yields.modify _ world).rest yields
  rcases effecting.bind_inv with ⟨_, middle, effects, ending⟩ |
    ⟨error, effects, rfl⟩
  · have returning := (Yields.get middle).rest ending
    obtain ⟨rfl, rfl⟩ := (Yields.pure _ middle).unique returning
    rcases effect_entered gated effects with
      ⟨⟨_, impossible⟩, _⟩ | ⟨connects, entered⟩
    · cases impossible
    have connected := connects.from_locals rests rfl
    cases entered with
    | unconnected trace =>
        refine ⟨[], trace, fun _ impossible =>
          absurd impossible List.not_mem_nil, within_nil, ?_, .inr connected⟩
        rintro _ ⟨⟩
        exact Counts.zero_tallies
    | ran ready last session ran held before _ runs trace =>
        obtain ⟨events, added, all, none⟩ := rowless _ _ _ _ runs held
        refine ⟨events, ?_, all, none ▸ within_nil, ?_, .inr connected⟩
        · rw [trace, added, before]
        · rintro _ ⟨⟩
          rw [none]
          exact Counts.zero_tallies
  · rcases effect_entered gated effects with
      ⟨_, cx, rfl⟩ | ⟨connects, entered⟩
    · exact ⟨[], rfl, fun _ impossible => absurd impossible List.not_mem_nil,
        within_nil, nofun, .inl ⟨⟨error, rfl⟩, ⟨rfl, rfl, rfl, rfl, rfl⟩⟩⟩
    have connected := connects.from_locals rests rfl
    cases entered with
    | unconnected trace =>
        exact ⟨[], trace, fun _ impossible =>
          absurd impossible List.not_mem_nil, within_nil, nofun,
          .inr connected⟩
    | ran ready last session ran held before _ runs trace =>
        obtain ⟨events, added, all, none⟩ := rowless _ _ _ _ runs held
        refine ⟨events, ?_, all, none ▸ within_nil, nofun, .inr connected⟩
        rw [trace, added, before]

/-- What a run of a query or a mutation on a session leaves. -/
theorem rows_ran
    {expected : R.RowType} {sink : RowSink R κ} {emission : ω → Emission R ω}
    {ready middle : World R Cx ω κ} {ran : Except SiteError ProviderStats}
    (sized : R.Sized)
    (zero : ready.counts = .zero)
    (held : kernel.held ready.cx operation.capability)
    (runs : Yields (executeRows operation false
      (boundedPush expected limits (deliver expected sink false)) emission)
      ready ran middle) :
    ∃ events, middle.trace = events ++ ready.trace ∧
      (∀ event ∈ events, event.Gated kernel) ∧
      Within R limits (acceptedRows false events) ∧
      middle.counts.Tallies R (acceptedRows false events) := by
  obtain ⟨events, counted, tallies, within⟩ :=
    executeRows_keeps sized _ _ _ runs (counted_start zero)
  have pushes (row : R.Row) : Interaction.Within (Adds (some operation))
      (boundedPush expected limits (deliver expected sink false) row :
        SiteM R Cx ω κ Unit) := by
    rw [boundedPush]
    split
    · exact Interaction.Within.throw Adds.refl _
    next typed =>
      have fits := Decidable.not_not.mp typed
      apply Interaction.Within.bind Adds.trans
        (Interaction.Within.get Adds.refl)
      intro world
      apply Interaction.Within.bind Adds.trans
        (Interaction.Within.ofExcept Adds.refl _)
      intro counts
      apply Interaction.Within.bind Adds.trans
        (deliver_adds fun cx => fits ▸ .deliver)
      exact fun _ => Interaction.Within.modify fun _ => .quiet rfl rfl
  obtain ⟨_, others, added, local'⟩ := executeRows_adds
    (fun cx => .execute operation cx) pushes _ _ _ runs
  have same : others = events :=
    List.append_cancel_right (added.symm.trans counted)
  subst same
  exact ⟨others, added, fun event member => (local' event member).gated held,
    within, tallies⟩

theorem rowsEffect_secured
    {id : String} {expected : R.RowType} {sink : RowSink R κ}
    {emission : Nat → ω → Emission R ω}
    {outcome : Except SiteError Receipt}
    (sized : R.Sized)
    (gated : kernel.Gated)
    (yields : Yields
      (site.rowsEffect kernel operation id expected limits sink emission) world
      outcome after) :
    ∃ events, Secured kernel site limits operation
      (fun session => executeRows operation false
        (boundedPush expected limits (deliver expected sink false))
        (emission session)) world outcome after events := by
  have rests : world.Rests { world with counts := .zero, stats := none } :=
    ⟨rfl, rfl, rfl, rfl, rfl⟩
  have effecting := (Yields.modify _ world).rest yields
  rcases effecting.bind_inv with ⟨_, middle, effects, ending⟩ |
    ⟨error, effects, rfl⟩
  · have returning := (Yields.get middle).rest ending
    obtain ⟨rfl, rfl⟩ := (Yields.pure _ middle).unique returning
    rcases effect_entered gated effects with
      ⟨⟨_, impossible⟩, _⟩ | ⟨connects, entered⟩
    · cases impossible
    have connected := connects.from_locals rests rfl
    cases entered with
    | unconnected trace counts =>
        refine ⟨[], trace, fun _ impossible =>
          absurd impossible List.not_mem_nil, within_nil, ?_, .inr connected⟩
        rintro _ ⟨⟩
        rw [counts]
        exact Counts.zero_tallies
    | ran ready last session ran held before zero runs trace counts =>
        obtain ⟨events, added, all, within, tallies⟩ :=
          rows_ran sized zero held runs
        refine ⟨events, ?_, all, within, ?_, .inr connected⟩
        · rw [trace, added, before]
        · rintro _ ⟨⟩
          rw [counts]
          exact tallies
  · rcases effect_entered gated effects with
      ⟨_, cx, rfl⟩ | ⟨connects, entered⟩
    · exact ⟨[], rfl, fun _ impossible => absurd impossible List.not_mem_nil,
        within_nil, nofun, .inl ⟨⟨error, rfl⟩, ⟨rfl, rfl, rfl, rfl, rfl⟩⟩⟩
    have connected := connects.from_locals rests rfl
    cases entered with
    | unconnected trace =>
        exact ⟨[], trace, fun _ impossible =>
          absurd impossible List.not_mem_nil, within_nil, nofun,
          .inr connected⟩
    | ran ready last session ran held before zero runs trace =>
        obtain ⟨events, added, all, within, _⟩ :=
          rows_ran sized zero held runs
        refine ⟨events, ?_, all, within, nofun, .inr connected⟩
        rw [trace, added, before]

/-- An operation without rows is one event. -/
theorem execute_rowless
    {step : Nat → ω → Except SiteError ProviderStats × ω} :
    Rowless (R := R) (κ := κ) kernel operation
      fun session => execute operation false (step session) := by
  intro session ready outcome middle runs held
  have recording := (Yields.get ready).rest runs
  have stepping := (Yields.modify _ ready).rest recording
  obtain ⟨_, rfl⟩ := (onProvider_yields _ _).unique stepping
  refine ⟨[.execute operation ready.cx false], rfl, fun event member => ?_, rfl⟩
  rw [List.mem_singleton.mp member]
  exact held

/-- A transaction works in its body only. -/
theorem transaction_rowless
    {body : κ → Body R κ} :
    Rowless kernel .transaction (fun session => do
      enterScope (fun session => do
        let world ← get
        (body world.caller).run site.driver session)
        (site.driver.transaction session)
      return .none) := by
  intro session ready outcome middle runs held
  have entering : Interaction.Within (Adds none)
      (enterScope (fun session => do
        let world ← get
        (body world.caller).run site.driver session)
        (site.driver.transaction session) : SiteM R Cx ω κ Unit) := by
    apply enterScope_adds
    intro session
    apply Interaction.Within.bind Adds.trans
      (Interaction.Within.get Adds.refl)
    exact fun world => Body.run_adds site.driver (body world.caller) session
  have whole := Interaction.Within.bind Adds.trans entering
    (fun _ => Interaction.Within.pure Adds.refl ProviderStats.none)
  obtain ⟨_, events, added, inBody⟩ := whole _ _ _ runs
  refine ⟨events, added, ?_, acceptedRows_body inBody false⟩
  exact fun event member => (inBody event member).gated_body held

/--
Every call of a site is let through by the gate and keeps its limits, whatever
the driver, the sink and the bodies do: the driver is connected only where the
kernel admits the operation of the call; operations run under their capability,
in bodies under the transaction's; outside of bodies rows have their type and
those accepted stay within the limits, as the receipt counts them.
-/
theorem every_call_gated
    (sized : R.Sized)
    (gated : kernel.Gated)
    (call : SiteCall R κ)
    {outcome : Except SiteError Receipt}
    (yields : Yields (call.run kernel site limits) world outcome after) :
    ∃ events, Secured kernel site limits call.operation
      (call.perform site limits) world outcome after events := by
  cases call with
  | query plan bindings sink => exact rowsEffect_secured sized gated yields
  | mutate plan bindings sink => exact rowsEffect_secured sized gated yields
  | migrate program =>
      exact simpleEffect_secured gated execute_rowless yields
  | schema program =>
      exact simpleEffect_secured gated execute_rowless yields
  | attach locator =>
      exact simpleEffect_secured gated execute_rowless yields
  | transaction body =>
      exact simpleEffect_secured gated transaction_rowless yields

end Securing

section Sample

/-- A kernel with the capabilities of a context. -/
def gatekeeper : Kernel (List String) where
  held cx capability := capability ∈ cx
  intern _ cx := (.ok sampleOperation, cx)
  freshHandle cx := (0, cx)
  admitted effect cx :=
    if effect.requires ∈ cx then (.ok (), cx) else (.error "denied", cx)
  conclude _ outcome cx := (outcome.map fun _ => (), cx)

theorem gatekeeper_gated :
    gatekeeper.Gated := by
  intro effect cx after admits
  change (if effect.requires ∈ cx then (Except.ok (), cx)
    else (.error "denied", cx)) = (.ok (), after) at admits
  split at admits
  · next held =>
    cases admits
    exact held
  · cases admits

/-- A context that may read. -/
def readerWorld : World sampleRelations (List String) Unit Unit where
  cx := ["relation.read"]
  provider := ()
  caller := ()
  clock := fun _ => 0
  ticks := 0
  counts := .zero
  stats := none
  trace := []

/-- A reader's query of the careless driver is secured, and no write starts. -/
theorem reader_gated :
    (∃ outcome after events,
        Yields ((SiteCall.query () () sampleSink).run gatekeeper
          (sampleSite careless) sampleLimits) readerWorld outcome after ∧
        Secured gatekeeper (sampleSite careless) sampleLimits .read
          ((SiteCall.query () () sampleSink).perform (sampleSite careless)
            sampleLimits) readerWorld outcome after events) ∧
      ∃ outcome after,
        Yields ((SiteCall.mutate () () sampleSink).run gatekeeper
          (sampleSite careless) sampleLimits) readerWorld outcome after ∧
        (∃ error, outcome = .error error) ∧ readerWorld.Rests after := by
  have sized : sampleRelations.Sized := by
    intro row
    cases row <;> decide
  constructor
  · obtain ⟨outcome, after, yields⟩ := Yields.total
      ((SiteCall.query () () sampleSink).run gatekeeper (sampleSite careless)
        sampleLimits) readerWorld
    obtain ⟨events, secured⟩ :=
      every_call_gated sized gatekeeper_gated _ yields
    exact ⟨outcome, after, events, yields, secured⟩
  · obtain ⟨outcome, after, yields⟩ := Yields.total
      ((SiteCall.mutate () () sampleSink).run gatekeeper (sampleSite careless)
        sampleLimits) readerWorld
    obtain ⟨events, secured⟩ :=
      every_call_gated sized gatekeeper_gated _ yields
    refine ⟨outcome, after, yields, secured.denied fun cx admits _ => ?_⟩
    rcases admits with ⟨⟨⟩, ⟨⟩, admitted⟩
    cases admitted

end Sample

end SimStorage.Site
