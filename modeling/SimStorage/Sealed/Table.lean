import SimStorage.Sealed.Format

namespace SimStorage.Sealed

/-!
# The sealed table

A sealed table is a view over a backend: it stores the sealed form of a value
under the blinded form of its key.  Operations may fail half way, so they keep
the state that a failure leaves behind.
-/

open Codec

/-- `SecretKey`. -/
structure SecretKey where
  id : String
  aead : KeyBytes
  blinding : KeyBytes
  deriving Repr, DecidableEq

/--
`SealedConfig`; the key provider and the nonce source are references.  Vectors
are shorter than half the address space.
-/
structure SealedConfig where
  grant : String
  keyId : String
  lane : Bytes
  generation : UInt64
  maxPlaintextBytes : Nat
  maxObjectBytes : Nat
  metadataClass : String
  nonceBudget : Nat
  keys : Nat
  nonces : Nat
  lane_fits : lane.length < 2 ^ 63
  class_fits : (utf8 metadataClass).length < 2 ^ 63

/-- `SealedTable`: a backend, the policy and a reference to the used nonces. -/
structure SealedTable (Handle : Type) where
  backend : Handle
  config : SealedConfig
  usedNonces : Nat

/-- The `Table` and `Dir` operations of backends with a common state. -/
structure Backend (Handle Value σ : Type) where
  isTable : Handle → Bool
  get : Handle → Symbol → EStateM EvalError σ Value
  set : Handle → Symbol → Value → EStateM EvalError σ Unit
  has : Handle → Symbol → EStateM EvalError σ Bool
  del : Handle → Symbol → EStateM EvalError σ Value
  keys : Handle → EStateM EvalError σ (List Symbol)
  isDirectory : Handle → Bool
  mkdir : Handle → Symbol → EStateM EvalError σ Handle
  opendir : Handle → Symbol → EStateM EvalError σ (Option Handle)
  rmdir : Handle → Symbol → EStateM EvalError σ Value
  isDir : Handle → Symbol → EStateM EvalError σ Bool

/-- A sealed object that was handed to the backend, and what it is for. -/
structure Handed (Expr : Type) where
  key : SecretKey
  binding : Binding
  nonce : Nonce
  logical : Symbol
  expr : Expr

/--
The backends' state, what the key providers and nonce sources answer, the used
nonces, and the objects handed out (for reasoning only).
-/
structure World (σ Expr : Type) where
  store : σ
  grants : Nat → String → Option SecretKey
  source : Nat → Nat → Except SealedError Nonce
  drawn : Nat → Nat
  used : Nat → List Nonce
  handed : List (Handed Expr)

/-- `failure`. -/
def failure (error : SealedError) : EvalError :=
  ⟨"table/sealed: " ++ error.text⟩

section Operations

variable {Handle Value Expr σ : Type}

/-- A computation on the world. -/
abbrev SealedM (σ Expr : Type) := EStateM EvalError (World σ Expr)

/-- An operation of the backend. -/
def onStore {α : Type} (operation : EStateM EvalError σ α) :
    SealedM σ Expr α :=
  fun world =>
    match operation world.store with
    | .ok value store => .ok value { world with store := store }
    | .error error store => .error error { world with store := store }

namespace SealedTable

/-- `SealedTable::new`. -/
def new (backend : Backend Handle Value σ) (handle : Handle)
    (config : SealedConfig) (usedNonces : Nat) :
    Except EvalError (SealedTable Handle) :=
  if ¬ backend.isTable handle then
    .error ⟨"table/sealed: backend must implement Table"⟩
  else if config.maxPlaintextBytes = 0 ∨
      config.maxObjectBytes < (config.maxPlaintextBytes + 34) % wordBound ∨
      config.metadataClass = "" ∨ config.keyId = "" ∨
      config.nonceBudget = 0 then
    .error ⟨"table/sealed: invalid size policy"⟩
  else
    .ok ⟨handle, config, usedNonces⟩

variable (primitives : Primitives Value Expr)
variable (backend : Backend Handle Value σ)
variable (table : SealedTable Handle)

/-- The granted key, if it is the expected one. -/
def grantedKey (world : World σ Expr) : Except EvalError SecretKey :=
  match world.grants table.config.keys table.config.grant with
  | none => .error (failure .grantUnavailable)
  | some key =>
      if key.id ≠ table.config.keyId then
        .error (failure .authentication)
      else
        .ok key

/-- `key`. -/
def key : SealedM σ Expr SecretKey := do
  let world ← get
  ofExcept (table.grantedKey world)

/-- `physical`: the blinded symbol of a logical one. -/
def physical (key : SecretKey) (logical : Symbol) : Symbol :=
  .new (physicalName primitives key.blinding table.config.lane logical.name)

/-- `belongs_to_lane`. -/
def belongsToLane (key : SecretKey) (physical : Symbol) : Bool :=
  ((blindLane primitives key.blinding table.config.lane).toList ++ ['-'])
    |>.isPrefixOf physical.name.toList

/-- `binding`. -/
def binding (physical : Symbol) : Binding where
  lane := table.config.lane
  generation := table.config.generation
  physicalKey := physical.name
  metadataClass := table.config.metadataClass

/-- Whether a nonce is new and within the budget. -/
def admitNonce (used : List Nonce) (nonce : Nonce) : Except EvalError Unit :=
  if table.config.nonceBudget ≤ used.length then
    .error (failure .nonceBudgetExhausted)
  else if nonce ∈ used then
    .error (failure .nonceReuse)
  else
    .ok ()

/-- The next nonce of the source, remembered as used. -/
def nonce : SealedM σ Expr Nonce := do
  let world ← get
  let count := world.drawn table.config.nonces
  set { world with
    drawn := Function.update world.drawn table.config.nonces (count + 1) }
  let nonce ← ofExcept
    ((world.source table.config.nonces count).mapError failure)
  let used := world.used table.usedNonces
  ofExcept (table.admitNonce used nonce)
  modify fun world => { world with
    used := Function.update world.used table.usedNonces (nonce :: used) }
  return nonce

/-- The sealed object of a plaintext, as a byte value. -/
def sealObject (physical : Symbol) (plaintext : Bytes) (nonce : Nonce)
    (key : SecretKey) : Except EvalError Value :=
  match primitives.aeadSeal key.aead nonce (table.binding physical).aad
      plaintext with
  | none => .error (failure .authentication)
  | some (ciphertext, tag) => do
      let object : SealedObject :=
        ⟨suiteChacha20Poly1305, nonce, ciphertext ++ tag⟩
      let bytes ← object.encode.mapError failure
      if table.config.maxObjectBytes < bytes.length then
        .error (failure .oversized)
      else
        primitives.bytes bytes

/-- `seal`. -/
def sealValue (logical physical : Symbol) (value : Value) (key : SecretKey) :
    SealedM σ Expr Value := do
  let expr ← ofExcept (primitives.asExpr value)
  let plaintext ← ofExcept
    ((encodePayload primitives logical.name expr
      table.config.maxPlaintextBytes).mapError failure)
  let nonce ← table.nonce
  let stored ← ofExcept
    (table.sealObject primitives physical plaintext nonce key)
  modify fun world => { world with
    handed := ⟨key, table.binding physical, nonce, logical, expr⟩ ::
      world.handed }
  return stored

/-- The logical key and the expression in a stored object. -/
def decryptStored (physical : Symbol) (stored : Value) (key : SecretKey) :
    Except EvalError (Symbol × Expr) := do
  let expr ← primitives.asExpr stored
  match primitives.asBytes expr with
  | none => .error (failure .authentication)
  | some bytes =>
      let object ←
        (SealedObject.decode bytes table.config.maxObjectBytes).mapError failure
      match primitives.aeadOpen key.aead object.nonce
          (table.binding physical).aad object.ciphertextAndTag with
      | none => .error (failure .authentication)
      | some plaintext =>
          let (decodedKey, decodedExpr) ←
            (decodePayload primitives plaintext
              table.config.maxPlaintextBytes).mapError failure
          return (.new decodedKey, decodedExpr)

/-- `open`: the logical key and the value of a stored object. -/
def openStored (logical : Option Symbol) (physical : Symbol) (stored : Value)
    (key : SecretKey) : Except EvalError (Symbol × Value) := do
  let (decoded, decodedExpr) ← table.decryptStored primitives physical stored key
  if (∃ expected ∈ logical, expected ≠ decoded) ∨
      table.physical primitives key decoded ≠ physical then
    .error (failure .authentication)
  else
    let value ← primitives.expr decodedExpr
    return (decoded, value)

/-- `get`. -/
def get (logical : Symbol) : SealedM σ Expr Value := do
  let key ← table.key
  let physical := table.physical primitives key logical
  if ← onStore (backend.has table.backend physical) then
    let stored ← onStore (backend.get table.backend physical)
    let (_, value) ← ofExcept
      (table.openStored primitives (some logical) physical stored key)
    return value
  else
    ofExcept primitives.nil

/-- `set`. -/
def set (logical : Symbol) (value : Value) : SealedM σ Expr Unit := do
  let key ← table.key
  let physical := table.physical primitives key logical
  let sealedValue ← table.sealValue primitives logical physical value key
  onStore (backend.set table.backend physical sealedValue)

/-- `has`. -/
def has (logical : Symbol) : SealedM σ Expr Bool := do
  let key ← table.key
  let physical := table.physical primitives key logical
  if ← onStore (backend.has table.backend physical) then
    let stored ← onStore (backend.get table.backend physical)
    let _ ← ofExcept
      (table.openStored primitives (some logical) physical stored key)
    return true
  else
    return false

/-- `del`. -/
def del (logical : Symbol) : SealedM σ Expr Value := do
  let prior ← table.get primitives backend logical
  let key ← table.key
  let _ ← onStore
    (backend.del table.backend (table.physical primitives key logical))
  return prior

/-- `entries`. -/
def entries : SealedM σ Expr (List (Symbol × Value)) := do
  let key ← table.key
  let listed ← onStore (backend.keys table.backend)
  (listed.filter (table.belongsToLane primitives key)).mapM fun physical => do
    let stored ← onStore (backend.get table.backend physical)
    ofExcept (table.openStored primitives none physical stored key)

/-- `keys`. -/
def keys : SealedM σ Expr (List Symbol) := do
  let key ← table.key
  let listed ← onStore (backend.keys table.backend)
  (listed.filter (table.belongsToLane primitives key)).mapM fun physical => do
    let stored ← onStore (backend.get table.backend physical)
    let (logical, _) ← ofExcept
      (table.openStored primitives none physical stored key)
    return logical

/-- `len`. -/
def len : SealedM σ Expr Nat := do
  let keys ← table.keys primitives backend
  return keys.length

/-- `clear`. -/
def clear : SealedM σ Expr Unit := do
  let key ← table.key
  let listed ← onStore (backend.keys table.backend)
  (listed.filter (table.belongsToLane primitives key)).forM fun physical => do
    let _ ← onStore (backend.del table.backend physical)

/-- `child`: the same policy in the lane of a child directory. -/
def child (handle : Handle) (name : Symbol) :
    Except EvalError (SealedTable Handle) :=
  let lane := table.config.lane ++ putBytes (utf8 name.name)
  if fits : lane.length < 2 ^ 63 then
    .ok { table with
      backend := handle
      config := { table.config with lane := lane, lane_fits := fits } }
  else
    -- Extending the vector panics.
    .error ⟨"capacity overflow"⟩

/-- `dir`: a failure unless the backend is a directory. -/
def dir : SealedM σ Expr Unit :=
  if backend.isDirectory table.backend then
    return ()
  else
    throw ⟨"table/sealed: backend does not implement Dir"⟩

/-- `mkdir`. -/
def mkdir (name : Symbol) : SealedM σ Expr (SealedTable Handle) := do
  let key ← table.key
  let physical := table.physical primitives key name
  table.dir backend
  let handle ← onStore (backend.mkdir table.backend physical)
  ofExcept (table.child handle name)

/-- `opendir`. -/
def opendir (name : Symbol) :
    SealedM σ Expr (Option (SealedTable Handle)) := do
  let key ← table.key
  let physical := table.physical primitives key name
  table.dir backend
  match ← onStore (backend.opendir table.backend physical) with
  | none => return none
  | some handle => do
      let child ← ofExcept (table.child handle name)
      return some child

/-- `rmdir`. -/
def rmdir (name : Symbol) : SealedM σ Expr Value := do
  let key ← table.key
  let physical := table.physical primitives key name
  table.dir backend
  onStore (backend.rmdir table.backend physical)

/-- `is_dir`. -/
def isDir (name : Symbol) : SealedM σ Expr Bool := do
  let key ← table.key
  let physical := table.physical primitives key name
  table.dir backend
  onStore (backend.isDir table.backend physical)

end SealedTable

end Operations

end SimStorage.Sealed
