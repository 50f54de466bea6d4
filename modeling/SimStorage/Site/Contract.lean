import SimStorage.Interaction.Outcome
import SimStorage.Interaction.Program
import SimStorage.Kernel.Datum

namespace SimStorage.Site

/-!
# The contract of relation sites

Drivers open sessions, sessions execute checked operations and push rows, and a
transaction hands a session to a caller's body.  Drivers and bodies are
arbitrary: what they do is a program, what the kernel does is a parameter.
-/

open Codec Interaction

/--
The relational data of other crates: rows of a type with their cells and the
length of their text, and checked operations with an identity and an output.
-/
structure Relations where
  Row : Type
  RowType : Type
  CheckedQuery : Type
  CheckedMutation : Type
  CheckedProgram : Type
  Bindings : Type
  decideRowType : DecidableEq RowType
  rowType : Row → RowType
  cells : Row → Nat
  datumText : Row → Nat
  queryId : CheckedQuery → ContentId
  queryOutput : CheckedQuery → RowType
  mutationId : CheckedMutation → ContentId
  mutationOutput : CheckedMutation → RowType

instance (R : Relations) : DecidableEq R.RowType :=
  R.decideRowType

/-- `LimitKind`. -/
inductive LimitKind where
  | rows
  | cells
  | bytes
  | work
  | deadline
  deriving Repr, DecidableEq

/-- `LimitKind` as its debug text. -/
def LimitKind.text : LimitKind → String
  | .rows => "Rows"
  | .cells => "Cells"
  | .bytes => "Bytes"
  | .work => "Work"
  | .deadline => "Deadline"

/-- `SiteError`. -/
inductive SiteError where
  | invalidLimits
  | bindings (text : String)
  | rowType
  | limit (kind : LimitKind)
  | locator
  | registration
  | constraint
  | locked
  | readOnly
  | interrupted
  | corruption
  | conversion
  | drift
  | provider
  | kernel (text : String)
  deriving Repr, DecidableEq

/-- `SiteError` as its display text. -/
def SiteError.text : SiteError → String
  | .invalidLimits => "InvalidLimits"
  | .bindings text => "Bindings(" ++ debugText text ++ ")"
  | .rowType => "RowType"
  | .limit kind => "Limit(" ++ kind.text ++ ")"
  | .locator => "Locator"
  | .registration => "Registration"
  | .constraint => "Constraint"
  | .locked => "Locked"
  | .readOnly => "ReadOnly"
  | .interrupted => "Interrupted"
  | .corruption => "Corruption"
  | .conversion => "Conversion"
  | .drift => "Drift"
  | .provider => "Provider"
  | .kernel text => "Kernel(" ++ debugText text ++ ")"

/-- `Operation`. -/
inductive Operation where
  | read
  | write
  | schema
  | migrate
  | transaction
  | attach
  deriving Repr, DecidableEq

namespace Operation

/-- `label`. -/
def label : Operation → String
  | .read => "read"
  | .write => "write"
  | .schema => "schema"
  | .migrate => "migrate"
  | .transaction => "transaction"
  | .attach => "attach"

/-- `capability`. -/
def capability (operation : Operation) : String :=
  "relation." ++ operation.label

/-- `effect`. -/
def effect (operation : Operation) : Symbol :=
  .qualified "effect/relation" operation.label

end Operation

/-- `Limits`. -/
structure Limits where
  rows : UInt64
  cells : UInt64
  bytes : UInt64
  work : UInt64
  deadline : Option Nat
  bufferBytes : Option UInt64
  deriving Repr, DecidableEq

/-- `ProviderStats`. -/
structure ProviderStats where
  work : UInt64
  affected : UInt64
  deriving Repr, DecidableEq

/-- `ProviderStats::default`. -/
def ProviderStats.none : ProviderStats :=
  ⟨0, 0⟩

/-- `Receipt`. -/
structure Receipt where
  operationId : String
  operation : Operation
  rows : UInt64
  cells : UInt64
  bytes : UInt64
  work : UInt64
  affected : UInt64
  deriving Repr, DecidableEq

/-- `RelationPlacement`. -/
structure RelationPlacement where
  site : Symbol
  locator : Datum

/-- What a provider does with a sink: it pushes rows, and may go on after errors. -/
abbrev Emission (R : Relations) (ω : Type) :=
  Program R.Row (fun _ => Except SiteError Unit) (SiteError × ω)
    (ProviderStats × ω)

/-- What a provider does with a body: it enters it with a session. -/
abbrev Scope (ω : Type) :=
  Program (Nat × ω) (fun _ => Except SiteError Unit × ω) (SiteError × ω)
    (Unit × ω)

/--
`Driver` with its sessions by reference; what they do depends on the state of
the provider.
-/
structure Driver (R : Relations) (ω : Type) where
  connect : Datum → Limits → ω → Except SiteError Nat × ω
  query : Nat → R.CheckedQuery → R.Bindings → Limits → ω → Emission R ω
  mutate : Nat → R.CheckedMutation → R.Bindings → Limits → ω → Emission R ω
  migrate : Nat → R.CheckedProgram → Limits → ω →
    Except SiteError ProviderStats × ω
  schema : Nat → R.CheckedProgram → Limits → ω →
    Except SiteError ProviderStats × ω
  attach : Nat → Datum → Limits → ω → Except SiteError ProviderStats × ω
  transaction : Nat → ω → Scope ω
  savepoint : Nat → ω → Scope ω

/-- `RowSink` of a caller: it may refuse a row, and keeps its own state. -/
abbrev RowSink (R : Relations) (κ : Type) :=
  R.Row → κ → Except SiteError Unit × κ

/--
The body of a transaction: operations on the session that it is given, nested
transactions and savepoints, and a result.  It goes on with each reply and with
the caller's state.
-/
inductive Body (R : Relations) (κ : Type) where
  | done (outcome : Except SiteError Unit) (state : κ)
  | query (plan : R.CheckedQuery) (bindings : R.Bindings) (limits : Limits)
      (sink : RowSink R κ)
      (next : Except SiteError ProviderStats → κ → Body R κ)
  | mutate (plan : R.CheckedMutation) (bindings : R.Bindings) (limits : Limits)
      (sink : RowSink R κ)
      (next : Except SiteError ProviderStats → κ → Body R κ)
  | migrate (program : R.CheckedProgram) (limits : Limits)
      (next : Except SiteError ProviderStats → κ → Body R κ)
  | schema (program : R.CheckedProgram) (limits : Limits)
      (next : Except SiteError ProviderStats → κ → Body R κ)
  | attach (locator : Datum) (limits : Limits)
      (next : Except SiteError ProviderStats → κ → Body R κ)
  | transaction (inner : κ → Body R κ)
      (next : Except SiteError Unit → κ → Body R κ)
  | savepoint (inner : κ → Body R κ)
      (next : Except SiteError Unit → κ → Body R κ)

/-- `Effect`, without the constant resume and abort operations. -/
structure Effect where
  handle : Nat
  kind : Symbol
  subject : Symbol
  input : ContentId
  result : Symbol
  requires : String

/--
The kernel: which capabilities a context holds, interning, fresh handles, and
`resolve_effect` as what comes before and what comes after the body.
-/
structure Kernel (Cx : Type) where
  held : Cx → String → Prop
  intern : Datum → Cx → Except String ContentId × Cx
  freshHandle : Cx → Nat × Cx
  admitted : Effect → Cx → Except String Unit × Cx
  conclude : Effect → Except String ContentId → Cx → Except String Unit × Cx

/-- `resolve_effect` runs a body only when the required capability is granted. -/
def Kernel.Gated {Cx : Type} (kernel : Kernel Cx) : Prop :=
  ∀ effect cx after, kernel.admitted effect cx = (.ok (), after) →
    kernel.held after effect.requires

end SimStorage.Site
