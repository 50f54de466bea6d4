import SimStorage.Site.Contract
import SimStorage.Codec.Text

namespace SimStorage.Site

/-!
# The bounded site

Every operation of a site is one kernel effect that requires the operation's
capability.  Queries and mutations push their rows through a bounded sink; the
body of a transaction works on the session that the provider gives it.  The
trace records what sessions execute and what callers' sinks receive.
-/

open Codec Interaction

/-- What happened, with the context or the row that it happened with. -/
inductive Event (R : Relations) (Cx : Type) where
  | begin (limits : Limits)
  | execute (operation : Operation) (cx : Cx) (inBody : Bool)
  | deliver (expected : R.RowType) (row : R.Row) (inBody : Bool)
  | refuse

/-- `Counts`. -/
structure Counts where
  rows : UInt64
  cells : UInt64
  bytes : UInt64
  deriving Repr, DecidableEq

/-- `Counts::default`. -/
def Counts.zero : Counts :=
  ⟨0, 0, 0⟩

/--
The context, the states of the provider and of the caller, the clock, the
locals of the current call and, for reasoning only, the trace, latest first.
-/
structure World (R : Relations) (Cx ω κ : Type) where
  cx : Cx
  provider : ω
  caller : κ
  clock : Nat → Nat
  ticks : Nat
  counts : Counts
  stats : Option ProviderStats
  trace : List (Event R Cx)

variable {R : Relations} {Cx ω κ α : Type}

/-- A computation of the site. -/
abbrev SiteM (R : Relations) (Cx ω κ : Type) :=
  EStateM SiteError (World R Cx ω κ)

section Steps

/-- Record an event. -/
def record (event : Event R Cx) : SiteM R Cx ω κ Unit :=
  modify fun world => { world with trace := event :: world.trace }

/-- A step of the kernel on the context. -/
def onCx (step : Cx → α × Cx) : SiteM R Cx ω κ α := do
  let world ← get
  let (value, cx) := step world.cx
  set { world with cx := cx }
  return value

/-- The result of a step of the provider, which keeps its own state. -/
def settleProvider :
    Except (SiteError × ω) (α × ω) → SiteM R Cx ω κ α
  | .ok (value, state) => do
      modify fun world => { world with provider := state }
      return value
  | .error (error, state) => do
      modify fun world => { world with provider := state }
      throw error

/-- A step of the provider. -/
def onProvider (step : ω → Except SiteError α × ω) : SiteM R Cx ω κ α := do
  let world ← get
  let (outcome, state) := step world.provider
  set { world with provider := state }
  ofExcept outcome

/-- `Instant::now`. -/
def now : SiteM R Cx ω κ Nat := do
  let world ← get
  set { world with ticks := world.ticks + 1 }
  return world.clock world.ticks

/-- A caller's sink receives a row of a plan's output. -/
def deliver (expected : R.RowType) (sink : RowSink R κ) (inBody : Bool)
    (row : R.Row) : SiteM R Cx ω κ Unit := do
  record (.deliver expected row inBody)
  let world ← get
  let (outcome, state) := sink row world.caller
  set { world with caller := state }
  match outcome with
  | .ok () => return ()
  | .error error => do
      record .refuse
      throw error

end Steps

section Sessions

variable (driver : Driver R ω)

/-- A session executes an operation that pushes rows. -/
def executeRows (operation : Operation) (inBody : Bool)
    (push : R.Row → SiteM R Cx ω κ Unit) (emission : ω → Emission R ω) :
    SiteM R Cx ω κ ProviderStats := do
  let world ← get
  record (.execute operation world.cx inBody)
  let outcome ← (emission world.provider).interpret fun row =>
    observe (push row)
  settleProvider outcome

/-- A session executes an operation without rows. -/
def execute (operation : Operation) (inBody : Bool)
    (step : ω → Except SiteError ProviderStats × ω) :
    SiteM R Cx ω κ ProviderStats := do
  let world ← get
  record (.execute operation world.cx inBody)
  onProvider step

/-- A provider enters a body, with a session, as often as it likes. -/
def enterScope (enter : Nat → SiteM R Cx ω κ Unit) (scope : ω → Scope ω) :
    SiteM R Cx ω κ Unit := do
  let world ← get
  let outcome ← (scope world.provider).interpret fun (session, state) => do
    modify fun world => { world with provider := state }
    let outcome ← observe (enter session)
    let world ← get
    return (outcome, world.provider)
  settleProvider outcome

/-- The body of a transaction on its session. -/
def Body.run : Body R κ → Nat → SiteM R Cx ω κ Unit
  | .done outcome state, _ => do
      modify fun world => { world with caller := state }
      ofExcept outcome
  | .query plan bindings limits sink next, session => do
      let outcome ← observe (executeRows .read true
        (deliver (R.queryOutput plan) sink true)
        (driver.query session plan bindings limits))
      let world ← get
      (next outcome world.caller).run session
  | .mutate plan bindings limits sink next, session => do
      let outcome ← observe (executeRows .write true
        (deliver (R.mutationOutput plan) sink true)
        (driver.mutate session plan bindings limits))
      let world ← get
      (next outcome world.caller).run session
  | .migrate program limits next, session => do
      let outcome ← observe
        (execute .migrate true (driver.migrate session program limits))
      let world ← get
      (next outcome world.caller).run session
  | .schema program limits next, session => do
      let outcome ← observe
        (execute .schema true (driver.schema session program limits))
      let world ← get
      (next outcome world.caller).run session
  | .attach locator limits next, session => do
      let outcome ← observe
        (execute .attach true (driver.attach session locator limits))
      let world ← get
      (next outcome world.caller).run session
  | .transaction inner next, session => do
      let outcome ← observe (enterScope (fun session => do
        let world ← get
        (inner world.caller).run session) (driver.transaction session))
      let world ← get
      (next outcome world.caller).run session
  | .savepoint inner next, session => do
      let outcome ← observe (enterScope (fun session => do
        let world ← get
        (inner world.caller).run session) (driver.savepoint session))
      let world ← get
      (next outcome world.caller).run session

end Sessions

section Bounds

/-- `u64::checked_add`, or a limit error. -/
def checkedAdd (kind : LimitKind) (first second : UInt64) :
    Except SiteError UInt64 :=
  if first.toNat + second.toNat < 2 ^ 64 then
    .ok (first + second)
  else
    .error (.limit kind)

/-- The counts with one more row, within the limits. -/
def Counts.admitted (R : Relations) (limits : Limits) (counts : Counts)
    (row : R.Row) : Except SiteError Counts := do
  let cells := UInt64.ofNat (R.cells row)
  let bytes := UInt64.ofNat (R.datumText row)
  let rows ← checkedAdd .rows counts.rows 1
  let cells ← checkedAdd .cells counts.cells cells
  let bytes ← checkedAdd .bytes counts.bytes bytes
  if limits.rows < rows then
    .error (.limit .rows)
  else if limits.cells < cells then
    .error (.limit .cells)
  else if limits.bytes < bytes then
    .error (.limit .bytes)
  else
    return ⟨rows, cells, bytes⟩

/-- `BoundedSink::push`. -/
def boundedPush (expected : R.RowType) (limits : Limits)
    (inner : R.Row → SiteM R Cx ω κ Unit) (row : R.Row) :
    SiteM R Cx ω κ Unit := do
  if R.rowType row ≠ expected then
    throw .rowType
  else
    let world ← get
    let counts ← ofExcept (world.counts.admitted R limits row)
    inner row
    modify fun world => { world with counts := counts }

/-- `enforce_work`. -/
def enforceWork (limits : Limits) (work : UInt64) : Except SiteError Unit :=
  if limits.work < work then .error (.limit .work) else .ok ()

/-- `enforce_deadline`. -/
def enforceDeadline (limits : Limits) (elapsed : Nat) : Except SiteError Unit :=
  if ∃ deadline ∈ limits.deadline, deadline < elapsed then
    .error (.limit .deadline)
  else
    .ok ()

/-- `content_id_text`. -/
def contentIdText (id : ContentId) : String :=
  id.algorithm.asQualifiedStr ++ ":" ++ hex id.digest.val

end Bounds

/-- `RelationSite`. -/
structure RelationSite (R : Relations) (ω : Type) where
  placement : RelationPlacement
  driver : Driver R ω

namespace RelationSite

variable (kernel : Kernel Cx) (site : RelationSite R ω)

/-- Intern a datum; its identity. -/
def intern (datum : Datum) : SiteM R Cx ω κ ContentId := do
  let outcome ← onCx (kernel.intern datum)
  ofExcept (outcome.mapError .kernel)

/-- `effect`: one kernel effect that requires the operation's capability. -/
def effect (operation : Operation) (perform : SiteM R Cx ω κ ContentId) :
    SiteM R Cx ω κ Unit := do
  let input ← intern kernel (.node (.qualified "relation" "request")
    [(.new "site", .symbol site.placement.site)])
  let handle ← onCx kernel.freshHandle
  let effect : Effect := {
    handle := handle
    kind := operation.effect
    subject := site.placement.site
    input := input
    result := .qualified "core" "Any"
    requires := operation.capability }
  let admitted ← onCx (kernel.admitted effect)
  ofExcept (admitted.mapError .kernel)
  let outcome ← observe perform
  let concluded ← onCx
    (kernel.conclude effect (outcome.mapError SiteError.text))
  match concluded, outcome with
  | .ok (), _ => return ()
  | .error _, .error error => throw error
  | .error text, .ok _ => throw (.kernel text)

/-- `connect`. -/
def connect (limits : Limits) : SiteM R Cx ω κ Nat :=
  onProvider fun state =>
    let (outcome, after) :=
      site.driver.connect site.placement.locator limits state
    (outcome.mapError fun _ => .locator, after)

/-- What both kinds of effects do around an operation of the session. -/
def performing (limits : Limits)
    (perform : Nat → SiteM R Cx ω κ ProviderStats) :
    SiteM R Cx ω κ ContentId := do
  let session ← site.connect limits
  let started ← now
  let got ← perform session
  let finished ← now
  ofExcept (enforceDeadline limits (finished - started))
  ofExcept (enforceWork limits got.work)
  modify fun world => { world with stats := some got }
  intern kernel (.symbol (.new "ok"))

/-- `simple_effect`. -/
def simpleEffect (operation : Operation) (id : String) (limits : Limits)
    (perform : Nat → SiteM R Cx ω κ ProviderStats) :
    SiteM R Cx ω κ Receipt := do
  modify fun world => { world with stats := none }
  site.effect kernel operation (site.performing kernel limits perform)
  let world ← get
  let got := world.stats.getD .none
  return {
    operationId := id
    operation := operation
    rows := 0
    cells := 0
    bytes := 0
    work := got.work
    affected := got.affected }

/-- `rows_effect`. -/
def rowsEffect (operation : Operation) (id : String) (expected : R.RowType)
    (limits : Limits) (sink : RowSink R κ)
    (emission : Nat → ω → Emission R ω) : SiteM R Cx ω κ Receipt := do
  modify fun world => { world with counts := .zero, stats := none }
  site.effect kernel operation (site.performing kernel limits fun session =>
    executeRows operation false
      (boundedPush expected limits (deliver expected sink false))
      (emission session))
  let world ← get
  let got := world.stats.getD .none
  return {
    operationId := id
    operation := operation
    rows := world.counts.rows
    cells := world.counts.cells
    bytes := world.counts.bytes
    work := got.work
    affected := got.affected }

/-- `query`. -/
def query (plan : R.CheckedQuery) (bindings : R.Bindings) (limits : Limits)
    (sink : RowSink R κ) : SiteM R Cx ω κ Receipt :=
  site.rowsEffect kernel .read (contentIdText (R.queryId plan))
    (R.queryOutput plan) limits sink fun session =>
      site.driver.query session plan bindings limits

/-- `mutate`. -/
def mutate (plan : R.CheckedMutation) (bindings : R.Bindings) (limits : Limits)
    (sink : RowSink R κ) : SiteM R Cx ω κ Receipt :=
  site.rowsEffect kernel .write (contentIdText (R.mutationId plan))
    (R.mutationOutput plan) limits sink fun session =>
      site.driver.mutate session plan bindings limits

/-- `migrate`. -/
def migrate (program : R.CheckedProgram) (limits : Limits) :
    SiteM R Cx ω κ Receipt :=
  site.simpleEffect kernel .migrate "checked-migration" limits fun session =>
    execute .migrate false (site.driver.migrate session program limits)

/-- `schema`. -/
def schema (program : R.CheckedProgram) (limits : Limits) :
    SiteM R Cx ω κ Receipt :=
  site.simpleEffect kernel .schema "checked-schema" limits fun session =>
    execute .schema false (site.driver.schema session program limits)

/-- `attach`. -/
def attach (locator : Datum) (limits : Limits) : SiteM R Cx ω κ Receipt :=
  site.simpleEffect kernel .attach "attach" limits fun session =>
    execute .attach false (site.driver.attach session locator limits)

/-- `transaction`. -/
def transaction (limits : Limits) (body : κ → Body R κ) :
    SiteM R Cx ω κ Receipt :=
  site.simpleEffect kernel .transaction "transaction" limits fun session => do
    enterScope (fun session => do
      let world ← get
      (body world.caller).run site.driver session)
      (site.driver.transaction session)
    return .none

end RelationSite

end SimStorage.Site
