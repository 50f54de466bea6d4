import SimStorage.Interaction.Outcome
import SimStorage.Table.Layers
import SimStorage.Table.Objects

namespace SimStorage.Override

/-!
# The override table

An override table reads its layers front to back and writes its front layer.
Keys that were deleted or cleared are masked until they are set again; the
masks are shared by all clones of the table.
-/

open Table

variable {Value Expr σ α : Type}

/-- The masks of an override table, and the state of its layers. -/
structure Shared (σ : Type) where
  masked : List Symbol
  layers : σ

/-- A call on an override table. -/
abbrev Calling (σ α : Type) :=
  EStateM Error (Shared σ) α

/-- A call on a layer. -/
def onLayers (call : EStateM Error σ α) : Calling σ α := fun shared =>
  match call shared.layers with
  | .ok value layers => .ok value { shared with layers }
  | .error error layers => .error error { shared with layers }

/-- `with_masked`. -/
def withMasked (change : List Symbol → List Symbol) : Calling σ Unit :=
  modify fun shared => { shared with masked := change shared.masked }

/-- `masked_snapshot`. -/
def maskedSnapshot : Calling σ (List Symbol) := do
  let shared ← MonadState.get
  return shared.masked

/-- `is_masked`. -/
def isMasked (key : Symbol) : Calling σ Bool := do
  let shared ← MonadState.get
  return key ∈ shared.masked

/-- `OverrideTable`: at least one layer, and all of them tables. -/
structure OverrideTable (objects : Objects Value Expr σ) where
  front : Value
  rest : List Value
  tables : ∀ layer ∈ front :: rest, objects.isTable layer = true

namespace OverrideTable

/-- `OverrideTable::new`. -/
def new (objects : Objects Value Expr σ) :
    List Value → Except Error (OverrideTable objects)
  | [] =>
      .error (.eval "table/override: expected at least one table layer")
  | front :: rest =>
      if tables : ∀ layer ∈ front :: rest, objects.isTable layer = true then
        .ok { front, rest, tables }
      else
        .error (.eval "table/override: every layer must be a table")

variable {objects : Objects Value Expr σ}
variable (table : OverrideTable objects) (cx : Cx)

/-- `layers`. -/
def layers : List Value :=
  table.front :: table.rest

/-- The value of the first layer that has the key. -/
def getFrom (objects : Objects Value Expr σ) (key : Symbol) :
    List Value → Calling σ Value
  | [] => MonadExcept.ofExcept objects.factory.nil
  | layer :: rest => do
      if ← onLayers (objects.has cx layer key) then
        onLayers (objects.get cx layer key)
      else
        getFrom objects key rest

/-- `get`. -/
def get (key : Symbol) : Calling σ Value := do
  if ← isMasked key then
    MonadExcept.ofExcept objects.factory.nil
  else
    getFrom cx objects key table.layers

/-- `set`. -/
def set (key : Symbol) (value : Value) : Calling σ Unit := do
  onLayers (objects.set cx table.front key value)
  withMasked fun masked => masked.filter fun other => other ≠ key

/-- Whether a layer has the key. -/
def hasFrom (objects : Objects Value Expr σ) (key : Symbol) :
    List Value → Calling σ Bool
  | [] => return false
  | layer :: rest => do
      if ← onLayers (objects.has cx layer key) then
        return true
      else
        hasFrom objects key rest

/-- `has`. -/
def has (key : Symbol) : Calling σ Bool := do
  if ← isMasked key then
    return false
  else
    hasFrom cx objects key table.layers

/-- `del`. -/
def del (key : Symbol) : Calling σ Value := do
  let removed ← onLayers (objects.del cx table.front key)
  withMasked fun masked => key :: masked
  return removed

/-- The rows of the layers, scanned for keys that are not masked, once each. -/
def scanFrom (key : α → Symbol) (rows : Value → EStateM Error σ (List α))
    (masked : List Symbol) :
    List Symbol × List α → List Value → Calling σ (List α)
  | taken, [] => return taken.2
  | taken, layer :: rest => do
      let found ← onLayers (rows layer)
      scanFrom key rows masked (Layers.scan key masked taken found) rest

/-- `keys`. -/
def keys : Calling σ (List Symbol) := do
  let masked ← maskedSnapshot
  scanFrom id (objects.keys cx) masked ([], []) table.layers

/-- `entries`. -/
def entries : Calling σ (List (Symbol × Value)) := do
  let masked ← maskedSnapshot
  scanFrom Prod.fst (objects.entries cx) masked ([], []) table.layers

/-- `len`. -/
def len : Calling σ Nat := do
  let keys ← table.keys cx
  return keys.length

/-- `clear`. -/
def clear : Calling σ Unit := do
  let visibleKeys ← table.keys cx
  onLayers (objects.clear cx table.front)
  withMasked fun masked => visibleKeys ++ masked

/-- `ObjectEncoding::Constructor`. -/
structure ObjectEncoding (Expr : Type) where
  className : Symbol
  args : List Expr

/-- `object_encoding`. -/
def objectEncoding : Calling σ (ObjectEncoding Expr) := do
  let args ← table.layers.mapM fun layer => onLayers (objects.asExpr cx layer)
  return { className := .new "OverrideTable", args }

end OverrideTable

end SimStorage.Override
