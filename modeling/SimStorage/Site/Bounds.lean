import SimStorage.Site.Rows

namespace SimStorage.Site

/-!
# The bounds of a query or a mutation

A call of a site is one effect around a connection, two looks at the clock and
the operation of the session.  When the driver heeds refusals, the rows that
reach the caller's sink stay within the limits, and a receipt counts them.
-/

open Codec Interaction

variable {R : Relations} {Cx ω κ : Type}

/-- The worlds differ in the context only. -/
def World.OnlyCx (world after : World R Cx ω κ) : Prop :=
  ∃ cx, after = { world with cx := cx }

/-- `resolve_effect` fails when its body fails. -/
def Kernel.Propagates (kernel : Kernel Cx) : Prop :=
  ∀ effect text cx after,
    kernel.conclude effect (.error text) cx ≠ (.ok (), after)

section Calls

variable {kernel : Kernel Cx} {site : RelationSite R ω}
variable {world after : World R Cx ω κ}

theorem onCx_yields
    {α : Type}
    (step : Cx → α × Cx) (world : World R Cx ω κ) :
    Yields (onCx step) world (.ok (step world.cx).1)
      { world with cx := (step world.cx).2 } :=
  rfl

/-- Interning changes the context only. -/
theorem intern_onlyCx
    {datum : Datum} {outcome : Except SiteError ContentId}
    (yields : Yields (RelationSite.intern kernel datum) world outcome after) :
    world.OnlyCx after := by
  have later := (onCx_yields (kernel.intern datum) world).rest yields
  obtain ⟨_, rfl⟩ := later.ofExcept_inv
  exact ⟨_, rfl⟩

/-- What an effect did: nothing but on the context, or its body in between. -/
inductive Effected (perform : SiteM R Cx ω κ ContentId)
    (world : World R Cx ω κ) (outcome : Except SiteError Unit)
    (after : World R Cx ω κ) : Prop where
  | none (error : SiteError) :
      outcome = .error error → world.OnlyCx after →
      Effected perform world outcome after
  | some (start middle : World R Cx ω κ)
      (performed : Except SiteError ContentId) :
      world.OnlyCx start → Yields perform start performed middle →
      middle.OnlyCx after →
      (outcome = .ok () → ∃ id, performed = .ok id) →
      Effected perform world outcome after

/-- The conclusion of an effect changes the context, and reports failures. -/
theorem concluding_cases
    {effect : Effect} {performed : Except SiteError ContentId}
    {outcome : Except SiteError Unit}
    (propagates : kernel.Propagates)
    (yields : Yields
      (do
        let concluded ← onCx
          (kernel.conclude effect (performed.mapError SiteError.text))
        match concluded, performed with
        | .ok (), _ => return ()
        | .error _, .error error => throw error
        | .error text, .ok _ => throw (.kernel text))
      world outcome after) :
    world.OnlyCx after ∧ (outcome = .ok () → ∃ id, performed = .ok id) := by
  have ending := (onCx_yields _ world).rest yields
  cases verdict : kernel.conclude effect (performed.mapError SiteError.text)
      world.cx with
  | mk concluded cx =>
      rw [verdict] at ending
      cases concluded with
      | ok done =>
          obtain ⟨_, rfl⟩ := (Yields.pure _ _).unique ending
          refine ⟨⟨cx, rfl⟩, fun _ => ?_⟩
          cases performed with
          | ok id => exact ⟨id, rfl⟩
          | error error => exact absurd verdict (propagates _ _ _ _)
      | error text =>
          cases performed with
          | ok id =>
              obtain ⟨rfl, rfl⟩ := (Yields.throw _ _).unique ending
              exact ⟨⟨cx, rfl⟩, nofun⟩
          | error error =>
              obtain ⟨rfl, rfl⟩ := (Yields.throw _ _).unique ending
              exact ⟨⟨cx, rfl⟩, nofun⟩

/-- An effect runs its body at most once. -/
theorem effect_effected
    {operation : Operation} {perform : SiteM R Cx ω κ ContentId}
    {outcome : Except SiteError Unit}
    (propagates : kernel.Propagates)
    (yields : Yields (site.effect kernel operation perform) world outcome
      after) :
    Effected perform world outcome after := by
  rw [RelationSite.effect] at yields
  rcases yields.bind_inv with ⟨input, interned, interns, rest⟩ |
    ⟨error, interns, rfl⟩
  · obtain ⟨cx, rfl⟩ := intern_onlyCx interns
    have admitting := (onCx_yields kernel.freshHandle _).rest rest
    have concluding := (onCx_yields (kernel.admitted _) _).rest admitting
    rcases concluding.bind_inv with ⟨_, ready, admits, body⟩ |
      ⟨error, admits, rfl⟩
    · obtain ⟨_, same⟩ := admits.ofExcept_inv
      have started : world.OnlyCx ready := ⟨_, same⟩
      obtain ⟨performed, middle, performs⟩ := Yields.total perform ready
      obtain ⟨changed, succeeds⟩ :=
        concluding_cases propagates (performs.observe.rest body)
      exact .some ready middle performed started performs changed succeeds
    · obtain ⟨_, rfl⟩ := admits.ofExcept_inv
      exact .none error rfl ⟨_, rfl⟩
  · exact .none error rfl (intern_onlyCx interns)

theorem onProvider_yields
    {α : Type}
    (step : ω → Except SiteError α × ω) (world : World R Cx ω κ) :
    Yields (onProvider step) world (step world.provider).1
      { world with provider := (step world.provider).2 } :=
  (Yields.get world).bind ((Yields.set _ _).bind (Yields.ofExcept _ _))

theorem now_yields
    (world : World R Cx ω κ) :
    Yields now world (.ok (world.clock world.ticks))
      { world with ticks := world.ticks + 1 } :=
  rfl

/-- A connection passes the provider's session on. -/
theorem connect_cases
    {limits : Limits} {outcome : Except SiteError Nat}
    (yields : Yields (site.connect limits) world outcome after) :
    ∃ found provider,
      site.driver.connect site.placement.locator limits world.provider =
        (found, provider) ∧
      outcome = found.mapError (fun _ => SiteError.locator) ∧
      after = { world with provider := provider } := by
  obtain ⟨rfl, rfl⟩ := (onProvider_yields _ world).unique yields
  exact ⟨_, _, rfl, rfl, rfl⟩

/-- The session's operation ran, between two looks at the clock. -/
structure Performed (site : RelationSite R ω) (limits : Limits)
    (perform : Nat → SiteM R Cx ω κ ProviderStats) (world : World R Cx ω κ)
    (outcome : Except SiteError ContentId) (after : World R Cx ω κ)
    (session : Nat) (middle : World R Cx ω κ)
    (ran : Except SiteError ProviderStats) (provider : ω) : Prop where
  connected :
    site.driver.connect site.placement.locator limits world.provider =
      (.ok session, provider)
  yields : Yields (perform session)
    { world with provider := provider, ticks := world.ticks + 1 } ran middle
  counts : after.counts = middle.counts
  trace : after.trace = middle.trace
  succeeds : ∀ id, outcome = .ok id → ∃ stats, ran = .ok stats ∧
    after.stats = some stats ∧
    enforceDeadline limits
      (middle.clock middle.ticks - world.clock world.ticks) = .ok () ∧
    enforceWork limits stats.work = .ok ()

/-- Without a connection nothing happens; otherwise the operation runs once. -/
theorem performing_cases
    {limits : Limits} {perform : Nat → SiteM R Cx ω κ ProviderStats}
    {outcome : Except SiteError ContentId}
    (yields : Yields (site.performing kernel limits perform) world outcome
      after) :
    (∃ error provider, outcome = .error error ∧
        after = { world with provider := provider } ∧
        ∃ refused, site.driver.connect site.placement.locator limits
          world.provider = (.error refused, provider)) ∨
      ∃ session middle ran provider,
        Performed site limits perform world outcome after session middle ran
          provider := by
  rw [RelationSite.performing] at yields
  rcases yields.bind_inv with ⟨session, connected, connects, started⟩ |
    ⟨error, connects, rfl⟩
  · obtain ⟨found, provider, driven, outcome', rfl⟩ := connect_cases connects
    cases found with
    | error error => cases outcome'
    | ok found =>
    cases outcome'
    have running := (now_yields _).rest started
    refine .inr ?_
    rcases running.bind_inv with ⟨stats, middle, ran, finished⟩ |
      ⟨error, failed, rfl⟩
    · refine ⟨session, middle, .ok stats, provider, ?_⟩
      have checks := (now_yields _).rest finished
      rcases checks.bind_inv with ⟨_, timed, timely, working⟩ |
        ⟨error, late, rfl⟩
      · obtain ⟨inTime, rfl⟩ := timely.ofExcept_inv
        rcases working.bind_inv with ⟨_, worked, works, storing⟩ |
          ⟨error, overworked, rfl⟩
        · obtain ⟨inWork, rfl⟩ := works.ofExcept_inv
          have interning := (Yields.modify _ _).rest storing
          obtain ⟨cx, rfl⟩ := intern_onlyCx interning
          exact ⟨driven, ran, rfl, rfl, fun _ _ =>
            ⟨stats, rfl, rfl, inTime.symm, inWork.symm⟩⟩
        · obtain ⟨_, rfl⟩ := overworked.ofExcept_inv
          exact ⟨driven, ran, rfl, rfl, nofun⟩
      · obtain ⟨_, rfl⟩ := late.ofExcept_inv
        exact ⟨driven, ran, rfl, rfl, nofun⟩
    · exact ⟨session, after, .error error, provider,
        driven, failed, rfl, rfl, nofun⟩
  · obtain ⟨found, provider, driven, outcome', rfl⟩ := connect_cases connects
    cases found with
    | error refused => exact .inl ⟨error, provider, rfl, rfl, refused, driven⟩
    | ok found => cases outcome'

/-- The result of a provider's step, and the provider's state. -/
theorem settleProvider_yields
    {α : Type}
    (result : Except (SiteError × ω) (α × ω)) (world : World R Cx ω κ) :
    ∃ provider, Yields (settleProvider result) world
      ((result.map Prod.fst).mapError Prod.fst)
      { world with provider := provider } := by
  cases result with
  | ok settled => exact ⟨settled.2, rfl⟩
  | error settled => exact ⟨settled.2, rfl⟩

/-- An execution delivers what reaches the sink of the driver's pushes. -/
theorem executeRows_pushes
    {expected : R.RowType} {limits : Limits} {sink : RowSink R κ}
    {operation : Operation} {emission : ω → Emission R ω}
    {outcome : Except SiteError ProviderStats}
    (yields : Yields
      (executeRows operation false
        (boundedPush expected limits (deliver expected sink false)) emission)
      world outcome after) :
    ∃ log result,
      Transcript (offer expected limits sink) (emission world.provider)
        (world.counts, world.caller) log result
        (after.counts, after.caller) ∧
      deliveredRows after.trace = deliveredRows world.trace ++
        reached expected limits world.counts log ∧
      world.SameTime after ∧
      (∀ stats, outcome = .ok stats → ∃ value, result = .ok value) := by
  rw [executeRows] at yields
  have recorded := (Yields.get world).rest yields
  have running := (Yields.modify _ world).rest recorded
  obtain ⟨reply, finished, ran⟩ := Yields.total
    (Program.interpret (answerPush expected limits sink)
      (emission world.provider)) _
  have replies : ∀ row (world : World R Cx ω κ), ∃ answer after,
      Yields (answerPush expected limits sink row) world (.ok answer) after := by
    intro row world
    obtain ⟨answer, after, pushed, _⟩ := push_yields world row
    exact ⟨answer, after, pushed.observe⟩
  obtain ⟨log, result, rfl, transcript⟩ := Transcript.of_interpret replies ran
  have settled := ran.rest running
  obtain ⟨delivered, time⟩ := deliveredRows_of_transcript transcript
  have offers := offers_of_transcript transcript
  obtain ⟨provider, settles⟩ := settleProvider_yields result finished
  obtain ⟨rfl, rfl⟩ := settles.unique settled
  refine ⟨log, result, offers, delivered, ⟨time.clock, time.ticks⟩, ?_⟩
  intro stats succeeds
  cases result with
  | ok value => exact ⟨value, rfl⟩
  | error error => cases succeeds

end Calls

/-- A call that pushes rows. -/
inductive Asked (R : Relations) where
  | query (plan : R.CheckedQuery) (bindings : R.Bindings)
  | mutate (plan : R.CheckedMutation) (bindings : R.Bindings)

namespace Asked

/-- The row type of the plan. -/
def expected : Asked R → R.RowType
  | .query plan _ => R.queryOutput plan
  | .mutate plan _ => R.mutationOutput plan

/-- What the driver does with its session. -/
def emission (driver : Driver R ω) (limits : Limits) :
    Asked R → Nat → ω → Emission R ω
  | .query plan bindings, session => driver.query session plan bindings limits
  | .mutate plan bindings, session =>
      driver.mutate session plan bindings limits

/-- The call on a site. -/
def run (kernel : Kernel Cx) (site : RelationSite R ω) (limits : Limits)
    (sink : RowSink R κ) : Asked R → SiteM R Cx ω κ Receipt
  | .query plan bindings => site.query kernel plan bindings limits sink
  | .mutate plan bindings => site.mutate kernel plan bindings limits sink

/-- What the driver pushes in the call, with the answers, and its result. -/
inductive Pushes (site : RelationSite R ω) (limits : Limits)
    (sink : RowSink R κ) (world : World R Cx ω κ) (asked : Asked R) :
    List (Push R) → Except (SiteError × ω) (ProviderStats × ω) → Prop where
  | intro {session : Nat} {provider : ω} {log : List (Push R)}
      {result : Except (SiteError × ω) (ProviderStats × ω)}
      {last : Counts × κ} :
      site.driver.connect site.placement.locator limits world.provider =
        (.ok session, provider) →
      Transcript (offer asked.expected limits sink)
        (asked.emission site.driver limits session provider)
        (Counts.zero, world.caller) log result last →
      Pushes site limits sink world asked log result

/-- The rows of a call are bounded, and a receipt counts them. -/
structure Bounded (limits : Limits) (asked : Asked R)
    (world : World R Cx ω κ) (log : List (Push R)) (rows : List R.Row)
    (outcome : Except SiteError Receipt) (after : World R Cx ω κ) : Prop where
  delivered :
    deliveredRows after.trace = deliveredRows world.trace ++ rows
  typed : ∀ row ∈ rows, R.rowType row = asked.expected
  first : rows <+: log.map fun push => push.1
  within : Within R limits rows
  accepted : (∃ receipt, outcome = .ok receipt) →
    ∀ push ∈ log, push.2 = .ok ()
  counted : ∀ receipt, outcome = .ok receipt →
    receipt.rows.toNat = rows.length ∧
      receipt.cells.toNat = (rows.map R.cells).sum ∧
      receipt.bytes.toNat = (rows.map R.datumText).sum
  work : ∀ receipt, outcome = .ok receipt → receipt.work ≤ limits.work
  timely : (∃ receipt, outcome = .ok receipt) →
    ∀ deadline ∈ limits.deadline,
      world.clock (world.ticks + 1) - world.clock world.ticks ≤ deadline

end Asked

section Bounding

variable {kernel : Kernel Cx} {site : RelationSite R ω}
variable {limits : Limits} {sink : RowSink R κ} {asked : Asked R}
variable {world after : World R Cx ω κ}

/-- A call that fails without a push is bounded. -/
theorem Asked.Bounded.failed
    {error : SiteError}
    (quiet : deliveredRows after.trace = deliveredRows world.trace) :
    asked.Bounded limits world [] [] (.error error) after where
  delivered := by rw [quiet, List.append_nil]
  typed := fun _ member => absurd member List.not_mem_nil
  first := List.nil_prefix
  within := ⟨Nat.zero_le _, Nat.zero_le _, Nat.zero_le _⟩
  accepted := nofun
  counted := nofun
  work := nofun
  timely := nofun

/-- The calls are effects around an execution with a bounded sink. -/
theorem Asked.run_eq
    (kernel : Kernel Cx) (site : RelationSite R ω) (limits : Limits)
    (sink : RowSink R κ) (asked : Asked R) :
    ∃ operation id,
      (asked.run kernel site limits sink : SiteM R Cx ω κ Receipt) =
        site.rowsEffect kernel operation id asked.expected limits sink
          (asked.emission site.driver limits) := by
  cases asked with
  | query plan bindings => exact ⟨_, _, rfl⟩
  | mutate plan bindings => exact ⟨_, _, rfl⟩

theorem enforceWork_eq_ok
    {work : UInt64}
    (enforced : enforceWork limits work = .ok ()) :
    work ≤ limits.work := by
  rw [enforceWork] at enforced
  split at enforced
  · cases enforced
  · next fits => exact UInt64.not_lt.mp fits

theorem enforceDeadline_eq_ok
    {elapsed : Nat}
    (enforced : enforceDeadline limits elapsed = .ok ()) :
    ∀ deadline ∈ limits.deadline, elapsed ≤ deadline := by
  intro deadline set
  rw [enforceDeadline] at enforced
  split at enforced
  · cases enforced
  · next timely => exact Nat.not_lt.mp fun late => timely ⟨deadline, set, late⟩

/-- What the effect of a call leaves when its driver pushed rows. -/
structure Pushed (site : RelationSite R ω) (limits : Limits)
    (sink : RowSink R κ) (asked : Asked R) (world : World R Cx ω κ)
    (outcome : Except SiteError Unit) (after : World R Cx ω κ)
    (log : List (Push R))
    (result : Except (SiteError × ω) (ProviderStats × ω))
    (rows : List R.Row) : Prop where
  pushes : asked.Pushes site limits sink world log result
  delivered : deliveredRows after.trace = deliveredRows world.trace ++ rows
  typed : ∀ row ∈ rows, R.rowType row = asked.expected
  orderly : Orderly R limits [] log result rows after.counts
  succeeds : outcome = .ok () → (∃ value, result = .ok value) ∧
    ∃ stats, after.stats = some stats ∧
      enforceDeadline limits
        (world.clock (world.ticks + 1) - world.clock world.ticks) = .ok () ∧
      enforceWork limits stats.work = .ok ()

/-- An effect of a call fails without a push, or its pushes are orderly. -/
theorem effect_pushed
    {operation : Operation} {outcome : Except SiteError Unit}
    (sized : R.Sized)
    (heeds : ∀ log result, asked.Pushes site limits sink world log result →
      Heeds asked.expected limits result .zero log)
    (effected : Effected
      (site.performing kernel limits fun session =>
        executeRows operation false
          (boundedPush asked.expected limits
            (deliver asked.expected sink false))
          (asked.emission site.driver limits session))
      { world with counts := .zero, stats := none } outcome after) :
    (∃ error, outcome = .error error ∧
        deliveredRows after.trace = deliveredRows world.trace) ∨
      ∃ log result rows,
        Pushed site limits sink asked world outcome after log result rows := by
  cases effected with
  | none error failed changed =>
      obtain ⟨cx, rfl⟩ := changed
      exact .inl ⟨error, failed, rfl⟩
  | some start middle performed starts performs ends succeeds =>
      obtain ⟨cx, rfl⟩ := starts
      obtain ⟨later, rfl⟩ := ends
      rcases performing_cases performs with
        ⟨error, provider, rfl, rfl, _⟩ |
        ⟨session, finished, ran, provider, happened⟩
      · cases outcome with
        | ok done =>
            obtain ⟨id, impossible⟩ := succeeds rfl
            cases impossible
        | error error => exact .inl ⟨error, rfl, rfl⟩
      · obtain ⟨log, result, offers, delivered, time, ranOk⟩ :=
          executeRows_pushes happened.yields
        have pushes : asked.Pushes site limits sink world log result :=
          .intro happened.connected offers
        have orderly := orderly_of_heeds sized offers Counts.zero_tallies
          ⟨Nat.zero_le _, Nat.zero_le _, Nat.zero_le _⟩
          (heeds log result pushes)
        refine .inr ⟨log, result, reached asked.expected limits .zero log,
          pushes, ?_, reached_typed, ?_, ?_⟩
        · exact (congrArg deliveredRows happened.trace).trans delivered
        · rw [happened.counts]
          exact orderly
        · intro done
          obtain ⟨id, rfl⟩ := succeeds done
          obtain ⟨stats, rfl, stored, inTime, inWork⟩ :=
            happened.succeeds id rfl
          rw [time.clock, time.ticks] at inTime
          exact ⟨ranOk stats rfl, stats, stored, inTime, inWork⟩

/--
When the driver heeds refusals, the rows of a query or a mutation are bounded:
the pushes of the call are those that the driver makes with its session, or
there are none and the call fails.
-/
theorem rows_bounded
    (sized : R.Sized) (propagates : kernel.Propagates)
    (heeds : ∀ log result, asked.Pushes site limits sink world log result →
      Heeds asked.expected limits result .zero log)
    {outcome : Except SiteError Receipt}
    (yields : Yields (asked.run kernel site limits sink) world outcome after) :
    ∃ log rows, asked.Bounded limits world log rows outcome after ∧
      ((∃ result, asked.Pushes site limits sink world log result) ∨
        log = [] ∧ ∃ error, outcome = .error error) := by
  obtain ⟨operation, id, whole⟩ := asked.run_eq kernel site limits sink
  rw [whole, RelationSite.rowsEffect] at yields
  have effecting := (Yields.modify _ world).rest yields
  rcases effecting.bind_inv with ⟨_, middle, effects, ending⟩ |
    ⟨error, effects, rfl⟩
  · have returning := (Yields.get middle).rest ending
    obtain ⟨rfl, rfl⟩ := (Yields.pure _ middle).unique returning
    rcases effect_pushed sized heeds (effect_effected propagates effects) with
      ⟨error, impossible, _⟩ | ⟨log, result, rows, pushed⟩
    · cases impossible
    · obtain ⟨succeeded, stats, stored, inTime, inWork⟩ := pushed.succeeds rfl
      obtain ⟨accepted, tallies⟩ := pushed.orderly.complete succeeded
      refine ⟨log, rows, ?_, .inl ⟨result, pushed.pushes⟩⟩
      refine ⟨pushed.delivered, pushed.typed, pushed.orderly.first,
        pushed.orderly.within, fun _ => accepted, ?_, ?_, fun _ => ?_⟩
      · rintro _ ⟨⟩
        exact ⟨tallies.rows, tallies.cells, tallies.bytes⟩
      · rintro _ ⟨⟩
        rw [stored]
        exact enforceWork_eq_ok inWork
      · exact enforceDeadline_eq_ok inTime
  · rcases effect_pushed sized heeds (effect_effected propagates effects) with
      ⟨_, _, quiet⟩ | ⟨log, result, rows, pushed⟩
    · exact ⟨[], [], .failed quiet, .inr ⟨rfl, error, rfl⟩⟩
    · exact ⟨log, rows, ⟨pushed.delivered, pushed.typed, pushed.orderly.first,
        pushed.orderly.within, nofun, nofun, nofun, nofun⟩,
        .inl ⟨result, pushed.pushes⟩⟩

section Sample

/-- The identity of the sample's operations. -/
def sampleOperation : ContentId :=
  ⟨.qualified "core" "sample", List.replicate 32 83, by decide⟩

/-- Rows of one cell with a long text or a short one. -/
def sampleRelations : Relations where
  Row := Bool
  RowType := Unit
  CheckedQuery := Unit
  CheckedMutation := Unit
  CheckedProgram := Unit
  Bindings := Unit
  decideRowType := inferInstance
  rowType := fun _ => ()
  cells := fun _ => 1
  datumText := fun long => if long then 80 else 30
  queryId := fun _ => sampleOperation
  queryOutput := fun _ => ()
  mutationId := fun _ => sampleOperation
  mutationOutput := fun _ => ()

/-- A kernel that grants every capability. -/
def sampleKernel : Kernel Unit where
  held := fun _ _ => True
  intern := fun _ cx => (.ok sampleOperation, cx)
  freshHandle := fun cx => (0, cx)
  admitted := fun _ cx => (.ok (), cx)
  conclude := fun _ outcome cx => (outcome.map fun _ => (), cx)

/-- A site whose driver only knows queries. -/
def sampleSite (emission : Emission sampleRelations Unit) :
    RelationSite sampleRelations Unit where
  placement := ⟨.new "sample", .symbol (.new "memory")⟩
  driver := {
    connect := fun _ _ _ => (.ok 0, ())
    query := fun _ _ _ _ _ => emission
    mutate := fun _ _ _ _ _ => .fail (.readOnly, ())
    migrate := fun _ _ _ _ => (.error .readOnly, ())
    schema := fun _ _ _ _ => (.error .readOnly, ())
    attach := fun _ _ _ _ => (.error .readOnly, ())
    transaction := fun _ _ => .fail (.readOnly, ())
    savepoint := fun _ _ => .fail (.readOnly, ()) }

/-- One long row and one short row are too many bytes. -/
def sampleLimits : Limits where
  rows := 8
  cells := 8
  bytes := 100
  work := 8
  deadline := none
  bufferBytes := none

/-- A caller that takes every row. -/
def sampleSink : RowSink sampleRelations Unit :=
  fun _ _ => (.ok (), ())

/-- The world before the call. -/
def sampleWorld : World sampleRelations Unit Unit Unit where
  cx := ()
  provider := ()
  caller := ()
  clock := fun _ => 0
  ticks := 0
  counts := .zero
  stats := none
  trace := []

/-- A driver that pushes three rows, a long one second, whatever it hears. -/
def careless : Emission sampleRelations Unit :=
  .call false fun _ => .call true fun _ => .call false fun _ =>
    .ret (⟨3, 0⟩, ())

/-- What goes on after a push, and reports its refusal. -/
def heeding (next : Emission sampleRelations Unit) :
    Except SiteError Unit → Emission sampleRelations Unit
  | .ok () => next
  | .error error => .fail (error, ())

/-- A driver that pushes a short row, then a long one, and reports refusals. -/
def careful : Emission sampleRelations Unit :=
  .call false (heeding (.call true (heeding (.ret (⟨2, 0⟩, ())))))

/-- The sample query. -/
def sampleAsked : Asked sampleRelations :=
  .query () ()

/-- The receipt of the sample query, from what its effect leaves. -/
def sampleReceipt (after : World sampleRelations Unit Unit Unit) : Receipt where
  operationId := contentIdText sampleOperation
  operation := .read
  rows := after.counts.rows
  cells := after.counts.cells
  bytes := after.counts.bytes
  work := (after.stats.getD .none).work
  affected := (after.stats.getD .none).affected

/-- The bounded sink of the sample query. -/
def samplePush (row : Bool) : SiteM sampleRelations Unit Unit Unit Unit :=
  boundedPush () sampleLimits (deliver () sampleSink false) row

/-- What a driver pushes into it. -/
def samplePushes (emission : Emission sampleRelations Unit) :
    SiteM sampleRelations Unit Unit Unit
      (Except (SiteError × Unit) (ProviderStats × Unit)) :=
  emission.interpret fun row => observe (samplePush row)

/-- What the effect of the sample query performs. -/
def samplePerforming (emission : Emission sampleRelations Unit) :
    SiteM sampleRelations Unit Unit Unit ContentId :=
  (sampleSite emission).performing sampleKernel sampleLimits fun _ =>
    executeRows .read false samplePush fun _ => emission

/-- The world in the session, with the counts and what the sink was given. -/
def sampleCounted (counts : Counts)
    (events : List (Event sampleRelations Unit)) :
    World sampleRelations Unit Unit Unit :=
  { sampleWorld with
    ticks := 1
    counts := counts
    trace := events ++ [.execute .read () false] }

/-- The sample query ends as the operation of its session does. -/
theorem sample_ends
    {emission : Emission sampleRelations Unit}
    {performed : Except SiteError ContentId}
    {after : World sampleRelations Unit Unit Unit}
    (performs : Yields (samplePerforming emission) sampleWorld performed
      after) :
    Yields (sampleAsked.run sampleKernel (sampleSite emission) sampleLimits
      sampleSink) sampleWorld (performed.map fun _ => sampleReceipt after)
      after := by
  have effects : Yields ((sampleSite emission).effect sampleKernel .read
      (samplePerforming emission)) sampleWorld (performed.map fun _ => ())
      after := by
    have interns : Yields (RelationSite.intern sampleKernel
        (.node (.qualified "relation" "request")
          [(.new "site", .symbol (.new "sample"))])) sampleWorld
        (.ok sampleOperation) sampleWorld := rfl
    refine interns.bind ((onCx_yields _ _).bind ((onCx_yields _ _).bind
      ((Yields.ofExcept _ _).bind (performs.observe.bind ?_))))
    cases performed <;> rfl
  cases performed with
  | ok id => exact (Yields.modify _ _).bind (effects.bind rfl)
  | error error => exact (Yields.modify _ _).bind effects.bindError

/-- A short row is pushed. -/
theorem sample_pushes :
    Yields (samplePush false) (sampleCounted .zero []) (.ok ())
      (sampleCounted ⟨1, 1, 30⟩ [.deliver () false false]) :=
  rfl

/-- A long row is refused after it. -/
theorem sample_refuses :
    Yields (samplePush true)
      (sampleCounted ⟨1, 1, 30⟩ [.deliver () false false])
      (.error (.limit .bytes))
      (sampleCounted ⟨1, 1, 30⟩ [.deliver () false false]) :=
  rfl

/-- The refusal is forgotten. -/
theorem sample_pushes_again :
    Yields (samplePush false)
      (sampleCounted ⟨1, 1, 30⟩ [.deliver () false false]) (.ok ())
      (sampleCounted ⟨2, 2, 60⟩
        [.deliver () false false, .deliver () false false]) :=
  rfl

/-- The careful driver's second push is refused: the call is bounded. -/
theorem careful_bounded :
    ∃ log rows outcome after,
      sampleAsked.Bounded sampleLimits sampleWorld log rows outcome after ∧
        ((∃ result, sampleAsked.Pushes (sampleSite careful) sampleLimits
            sampleSink sampleWorld log result) ∨
          log = [] ∧ ∃ error, outcome = .error error) ∧
        deliveredRows after.trace = [false] ∧
        outcome = .error (.limit .bytes) := by
  have sized : sampleRelations.Sized := by
    intro row
    cases row <;> decide
  have propagates : sampleKernel.Propagates := nofun
  have heeds : ∀ log result,
      sampleAsked.Pushes (sampleSite careful) sampleLimits sampleSink
        sampleWorld log result →
      Heeds sampleAsked.expected sampleLimits result .zero log := by
    rintro log result ⟨connected, transcript⟩
    cases connected
    cases transcript with
    | call offered rest =>
    have taken : Yields (offer sampleAsked.expected sampleLimits sampleSink
        false) (Counts.zero, ()) (.ok (.ok ())) ((⟨1, 1, 30⟩ : Counts), ()) := by
      rfl
    obtain ⟨same, rfl⟩ := taken.unique offered
    cases same
    cases rest with
    | call offeredToo last =>
    have refused : Yields (offer sampleAsked.expected sampleLimits sampleSink
        true) ((⟨1, 1, 30⟩ : Counts), ()) (.ok (.error (.limit .bytes)))
        ((⟨1, 1, 30⟩ : Counts), ()) := by
      rfl
    obtain ⟨same, rfl⟩ := refused.unique offeredToo
    cases same
    cases last with
    | fail error state => exact ⟨rfl, _, rfl⟩
  obtain ⟨outcome, after, yields⟩ := Yields.total
    (sampleAsked.run sampleKernel (sampleSite careful) sampleLimits sampleSink)
    sampleWorld
  obtain ⟨log, rows, bounded, pushed⟩ :=
    rows_bounded sized propagates heeds yields
  have executes : Yields
      (executeRows .read false samplePush fun _ => careful)
      { sampleWorld with ticks := 1 } (.error (.limit .bytes))
      (sampleCounted ⟨1, 1, 30⟩ [.deliver () false false]) := by
    have emits : Yields (samplePushes careful) (sampleCounted .zero [])
        (.ok (.error (.limit .bytes, ()))) _ :=
      sample_pushes.observe.bind (sample_refuses.observe.bind rfl)
    exact (Yields.get _).bind ((Yields.modify _ _).bind (emits.bind rfl))
  have performs : Yields (samplePerforming careful) sampleWorld
      (.error (.limit .bytes)) _ :=
    (onProvider_yields _ _).bind ((now_yields _).bind executes.bindError)
  obtain ⟨rfl, rfl⟩ := (sample_ends performs).unique yields
  exact ⟨log, rows, _, _, bounded, pushed, rfl, rfl⟩

/-- A receipt in spite of a refused push, and rows that were not the first. -/
theorem unheeded_refusal_receipted :
    ∃ log result receipt after,
      sampleAsked.Pushes (sampleSite careless) sampleLimits sampleSink
        sampleWorld log result ∧
      Yields
        (sampleAsked.run sampleKernel (sampleSite careless) sampleLimits
          sampleSink)
        sampleWorld (.ok receipt) after ∧
      (∃ push ∈ log, push.2 = .error (.limit .bytes)) ∧
      ¬ deliveredRows after.trace <+: log.map fun push => push.1 := by
  have executes : Yields
      (executeRows .read false samplePush fun _ => careless)
      { sampleWorld with ticks := 1 } (.ok ⟨3, 0⟩)
      (sampleCounted ⟨2, 2, 60⟩
        [.deliver () false false, .deliver () false false]) := by
    have emits : Yields (samplePushes careless) (sampleCounted .zero [])
        (.ok (.ok (⟨3, 0⟩, ()))) _ :=
      sample_pushes.observe.bind (sample_refuses.observe.bind
        (sample_pushes_again.observe.bind rfl))
    exact (Yields.get _).bind ((Yields.modify _ _).bind (emits.bind rfl))
  have timely : enforceDeadline sampleLimits 0 = .ok () := by
    simp [enforceDeadline, sampleLimits]
  have performs : Yields (samplePerforming careless) sampleWorld
      (.ok sampleOperation) _ :=
    (onProvider_yields _ _).bind ((now_yields _).bind (executes.bind
      ((now_yields _).bind ((Yields.of_ok timely _).bind
        ((Yields.of_ok rfl _).bind ((Yields.modify _ _).bind rfl))))))
  refine ⟨[⟨false, .ok ()⟩, ⟨true, .error (.limit .bytes)⟩, ⟨false, .ok ()⟩],
    .ok (⟨3, 0⟩, ()), _, _, ?_, sample_ends performs, ?_, ?_⟩
  · exact .intro (by rfl)
      (.call (by rfl) (.call (by rfl) (.call (by rfl) (.ret _ _))))
  · exact ⟨_, List.mem_cons_of_mem _ List.mem_cons_self, rfl⟩
  · change ¬ [false, false] <+: [false, true, false]
    decide

end Sample

end Bounding

end SimStorage.Site
