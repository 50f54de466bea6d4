import SimStorage.Sealed.Contract
import SimStorage.Interaction.Unwinding

namespace SimStorage.Sealed

/-!
# Views in lanes of their own

Several sealed tables may be views of one flat backend.  A view uses only the
names of its lane, whatever the backend does, and lanes have no names in
common.  So views do not interfere: each answers as if the others' calls were
never made.
-/

open Codec Interaction

variable {Handle Value Expr σ α ι : Type}
variable {primitives : Primitives Value Expr}
variable {backend : Backend Handle Value σ}
variable {contents : σ → Symbol → Option Value}
variable {table away : SealedTable Handle} {secret foreign : SecretKey}
variable {logical physical : Symbol}
variable {world after mirror : World σ Expr}

section Definitions

/-- The names of the lane that the granted key gives a table. -/
def SealedTable.lane (primitives : Primitives Value Expr)
    (table : SealedTable Handle) (world : World σ Expr) (physical : Symbol) :
    Bool :=
  match table.grantedKey world with
  | .ok secret => table.belongsToLane primitives secret physical
  | .error _ => false

/-- A backend of which only some names can be used. -/
def Backend.only (backend : Backend Handle Value σ) (usable : Symbol → Bool) :
    Backend Handle Value σ :=
  let guarding {α : Type} (name : Symbol) (operation : EStateM EvalError σ α) :
      EStateM EvalError σ α :=
    if usable name then operation else throw ⟨"unusable name"⟩
  { isTable := backend.isTable
    get := fun handle name => guarding name (backend.get handle name)
    set := fun handle name value =>
      guarding name (backend.set handle name value)
    has := fun handle name => guarding name (backend.has handle name)
    del := fun handle name => guarding name (backend.del handle name)
    keys := fun handle => do
      let listed ← backend.keys handle
      return listed.filter usable
    isDirectory := backend.isDirectory
    mkdir := fun handle name => guarding name (backend.mkdir handle name)
    opendir := fun handle name => guarding name (backend.opendir handle name)
    rmdir := fun handle name => guarding name (backend.rmdir handle name)
    isDir := fun handle name => guarding name (backend.isDir handle name) }

/-- The operations of a sealed table, those of a directory included. -/
inductive ViewCall (Value : Type) where
  | table (call : TableCall Value)
  | mkdir (name : Symbol)
  | opendir (name : Symbol)
  | rmdir (name : Symbol)
  | isDir (name : Symbol)

/-- What the operations return. -/
inductive ViewReply (Handle Value : Type) where
  | table (reply : TableReply Value)
  | child (view : SealedTable Handle)
  | opened (view : Option (SealedTable Handle))
  | value (value : Value)
  | flag (value : Bool)

/-- An operation on a sealed table. -/
def SealedTable.serve (primitives : Primitives Value Expr)
    (backend : Backend Handle Value σ) (table : SealedTable Handle) :
    ViewCall Value → SealedM σ Expr (ViewReply Handle Value)
  | .table call => do return .table (← table.call primitives backend call)
  | .mkdir name => do return .child (← table.mkdir primitives backend name)
  | .opendir name => do return .opened (← table.opendir primitives backend name)
  | .rmdir name => do return .value (← table.rmdir primitives backend name)
  | .isDir name => do return .flag (← table.isDir primitives backend name)

/-- Views whose lanes, nonce sources and used nonces are their own. -/
structure Separate (views : ι → SealedTable Handle) (world : World σ Expr) :
    Prop where
  lanes : ∀ me other, me ≠ other → ∀ secret foreign,
    (views me).Granted secret world → (views other).Granted foreign world →
    ¬ (secret.blinding = foreign.blinding ∧
      (views me).config.lane = (views other).config.lane)
  nonces : ∀ me other, me ≠ other →
    (views me).config.nonces ≠ (views other).config.nonces
  used : ∀ me other, me ≠ other →
    (views me).usedNonces ≠ (views other).usedNonces

/-- The calls whose answers enumerate. -/
def TableCall.Lists : TableCall Value → Prop
  | .keys | .entries | .len => True
  | _ => False

/-- The same answer, but for the order of an enumeration and why it fails. -/
inductive SameAnswer : TableCall Value → Except EvalError (TableReply Value) →
    Except EvalError (TableReply Value) → Prop where
  | same (call : TableCall Value)
      (outcome : Except EvalError (TableReply Value)) :
      SameAnswer call outcome outcome
  | keys {first second : List Symbol} :
      first.Perm second →
      SameAnswer .keys (.ok (.symbols first)) (.ok (.symbols second))
  | entries {first second : List (Symbol × Value)} :
      first.Perm second →
      SameAnswer .entries (.ok (.pairs first)) (.ok (.pairs second))
  | failed {call : TableCall Value} (error other : EvalError) :
      call.Lists →
      SameAnswer call (.error error) (.error other)

/-- A call through one of several views. -/
def serveAll (primitives : Primitives Value Expr)
    (backend : Backend Handle Value σ) (views : ι → SealedTable Handle)
    (world : World σ Expr) (call : ι × TableCall Value) :
    Except EvalError (TableReply Value) × World σ Expr :=
  match (views call.1).call primitives backend call.2 world with
  | .ok reply after => (.ok reply, after)
  | .error error after => (.error error, after)

end Definitions

namespace SealedTable

section Names

/-- A name of a lane starts with the lane's digest and a dash. -/
theorem splitOnce_of_belongs
    (belongs : table.belongsToLane primitives secret physical) :
    ∃ rest, splitOnce '-' physical.name =
      some (blindLane primitives secret.blinding table.config.lane, rest) := by
  obtain ⟨rest, shape⟩ := List.isPrefixOf_iff_prefix.mp belongs
  refine ⟨String.ofList rest, splitOnce_of_toList ?_ (dash_not_mem_hex _)⟩
  rw [← shape]
  simp

/-- With an injective digest, a name belongs to one lane only. -/
theorem lane_of_belongs
    (injective : ∀ key other message query,
      primitives.hmac key message = primitives.hmac other query →
        key = other ∧ message = query)
    (belongs : table.belongsToLane primitives secret physical)
    (belongsToo : away.belongsToLane primitives foreign physical) :
    secret.blinding = foreign.blinding ∧
      table.config.lane = away.config.lane := by
  obtain ⟨rest, split⟩ := splitOnce_of_belongs belongs
  obtain ⟨other, splitToo⟩ := splitOnce_of_belongs belongsToo
  have same := Prod.mk.inj (Option.some.inj (split.symm.trans splitToo))
  obtain ⟨sameKey, messages⟩ := injective _ _ _ _ (hex_injective same.1)
  have sized := (List.append_inj messages rfl).2
  exact ⟨sameKey, (List.append_inj sized (by simp)).2⟩

theorem lane_eq
    (granted : table.Granted secret world) :
    table.lane primitives world = table.belongsToLane primitives secret := by
  funext physical
  rw [lane, grantedKey_eq_ok.mpr granted]

theorem lane_of_granted
    (inside : table.lane primitives world physical) :
    ∃ secret, table.Granted secret world ∧
      table.belongsToLane primitives secret physical := by
  rw [lane] at inside
  split at inside
  next secret known => exact ⟨secret, grantedKey_eq_ok.mp known, inside⟩
  next => cases inside

theorem grantedKey_congr
    (grants : after.grants = world.grants) :
    table.grantedKey after = table.grantedKey world := by
  rw [grantedKey, grantedKey, grants]

theorem lane_congr
    (grants : after.grants = world.grants) :
    table.lane primitives after = table.lane primitives world := by
  funext physical
  rw [lane, lane, grantedKey_congr grants]

theorem Granted.congr
    (granted : table.Granted secret world)
    (grants : after.grants = world.grants) :
    table.Granted secret after := by
  rw [Granted, grants]
  exact granted

/-- The views' lanes have no names in common. -/
theorem lane_disjoint
    {views : ι → SealedTable Handle} {me other : ι}
    (injective : ∀ key other message query,
      primitives.hmac key message = primitives.hmac other query →
        key = other ∧ message = query)
    (separate : Separate views world)
    (differ : me ≠ other)
    (inside : (views me).lane primitives world physical) :
    (views other).lane primitives world physical = false := by
  rw [Bool.eq_false_iff]
  intro both
  obtain ⟨secret, granted, belongs⟩ := lane_of_granted inside
  obtain ⟨foreign, grantedToo, belongsToo⟩ := lane_of_granted both
  exact separate.lanes me other differ secret foreign granted grantedToo
    (lane_of_belongs injective belongs belongsToo)

end Names

section Confinement

variable {usable : Symbol → Bool} {handle : Handle} {name : Symbol}

/-- A usable name can be used as ever. -/
theorem only_eq
    (backend : Backend Handle Value σ) (handle : Handle)
    (allowed : usable name = true) :
    (backend.only usable).get handle name = backend.get handle name ∧
      (∀ value, (backend.only usable).set handle name value =
        backend.set handle name value) ∧
      (backend.only usable).has handle name = backend.has handle name ∧
      (backend.only usable).del handle name = backend.del handle name := by
  refine ⟨if_pos allowed, fun value => if_pos allowed, if_pos allowed,
    if_pos allowed⟩

theorem onlyDirs_eq
    (backend : Backend Handle Value σ) (handle : Handle)
    (allowed : usable name = true) :
    (backend.only usable).mkdir handle name = backend.mkdir handle name ∧
      (backend.only usable).opendir handle name =
        backend.opendir handle name ∧
      (backend.only usable).rmdir handle name = backend.rmdir handle name ∧
      (backend.only usable).isDir handle name = backend.isDir handle name :=
  ⟨if_pos allowed, if_pos allowed, if_pos allowed, if_pos allowed⟩

/-- Without the key a call fails at once, on whatever backend. -/
theorem keyed_error
    {error : EvalError} {next other : SecretKey → SealedM σ Expr α}
    (refused : table.grantedKey world = .error error) :
    (table.key >>= next) world = (table.key >>= other) world := by
  have key := table.key_yields world
  rw [refused] at key
  exact (Yields.bindError key).trans (Yields.bindError key).symm

/-- Calls ask for the key first; they may then use the names of its lane. -/
theorem keyed_congr
    {next other : SecretKey → SealedM σ Expr α}
    (same : ∀ secret, table.Granted secret world →
      next secret world = other secret world) :
    (table.key >>= next) world = (table.key >>= other) world := by
  cases key : table.grantedKey world with
  | error error => exact keyed_error key
  | ok secret =>
      have granted := grantedKey_eq_ok.mp key
      rw [granted.yields.bind_eq, granted.yields.bind_eq, same secret granted]

/-- The name of a key is in the lane. -/
theorem lane_physical
    (primitives : Primitives Value Expr) (logical : Symbol)
    (granted : table.Granted secret world) :
    table.lane primitives world (table.physical primitives secret logical) =
      true := by
  rw [lane_eq granted]
  exact physical_belongs

theorem onStore_grants
    {operation : EStateM EvalError σ α} :
    Within (fun world after : World σ Expr => after.grants = world.grants)
      (onStore operation) := by
  intro world outcome after yields
  obtain ⟨_, _, rfl⟩ := onStore_inv yields
  rfl

/-- Looking a key up leaves the grants. -/
theorem get_grants :
    Within (fun world after : World σ Expr => after.grants = world.grants)
      (table.get primitives backend logical) := by
  have trans (first middle last : World σ Expr)
      (before : middle.grants = first.grants)
      (later : last.grants = middle.grants) : last.grants = first.grants :=
    later.trans before
  have refl (state : World σ Expr) : state.grants = state.grants := rfl
  apply Within.bind trans
  · intro world outcome after yields
    obtain ⟨_, rfl⟩ := (table.key_yields world).unique yields
    rfl
  · intro secret
    apply Within.bind trans onStore_grants
    rintro (_ | _)
    · exact Within.ofExcept refl _
    · apply Within.bind trans onStore_grants
      intro stored
      exact Within.bind trans (Within.ofExcept refl _)
        fun _ => Within.pure refl _

theorem get_confined :
    table.get primitives (backend.only (table.lane primitives world)) logical
        world =
      table.get primitives backend logical world := by
  apply keyed_congr
  intro secret granted
  obtain ⟨gets, _, asks, _⟩ := only_eq backend table.backend
    (lane_physical primitives logical granted)
  simp only [gets, asks]

/-- An enumeration is filtered by the lane anyway. -/
theorem listed_confined
    {next other : List Symbol → SealedM σ Expr α}
    (granted : table.Granted secret world)
    (same : ∀ names, (∀ physical ∈ names,
        table.belongsToLane primitives secret physical = true) →
      next names = other names) :
    (do
        let listed ← onStore
          ((backend.only (table.lane primitives world)).keys table.backend)
        next (listed.filter (table.belongsToLane primitives secret))) world =
      (do
        let listed ← onStore (backend.keys table.backend)
        other (listed.filter (table.belongsToLane primitives secret)))
        world := by
  obtain ⟨outcome, store, lists⟩ :=
    Yields.total (backend.keys table.backend) world.store
  have full := onStore_yields lists
  have inside (listed : List Symbol) :
      next (listed.filter (table.belongsToLane primitives secret)) =
        other (listed.filter (table.belongsToLane primitives secret)) :=
    same _ fun physical member => (List.mem_filter.mp member).2
  cases outcome with
  | error error =>
      have limited : Yields
          ((backend.only (table.lane primitives world)).keys table.backend)
          world.store (.error error) store :=
        lists.bindError
      exact (onStore_yields limited).bindError.trans full.bindError.symm
  | ok listed =>
      have limited : Yields
          ((backend.only (table.lane primitives world)).keys table.backend)
          world.store (.ok (listed.filter (table.lane primitives world)))
          store :=
        lists.bind (.pure _ store)
      refine (onStore_yields limited).bind_eq.trans ?_
      refine Eq.trans ?_ (Yields.bind_eq full).symm
      rw [List.filter_filter, lane_eq granted]
      simp only [Bool.and_self]
      rw [inside]

theorem has_confined :
    table.has primitives (backend.only (table.lane primitives world)) logical
        world =
      table.has primitives backend logical world := by
  apply keyed_congr
  intro secret granted
  obtain ⟨gets, _, asks, _⟩ := only_eq backend table.backend
    (lane_physical primitives logical granted)
  simp only [gets, asks]

theorem set_confined
    {value : Value} :
    table.set primitives (backend.only (table.lane primitives world)) logical
        value world =
      table.set primitives backend logical value world := by
  apply keyed_congr
  intro secret granted
  obtain ⟨_, sets, _⟩ := only_eq backend table.backend
    (lane_physical primitives logical granted)
  simp only [sets]

theorem del_confined :
    table.del primitives (backend.only (table.lane primitives world)) logical
        world =
      table.del primitives backend logical world := by
  apply bind_eq_bind get_confined
  intro prior middle looked
  have same : table.lane primitives middle = table.lane primitives world :=
    lane_congr (get_grants _ _ _ looked)
  rw [← same] at looked ⊢
  apply keyed_congr
  intro secret granted
  obtain ⟨_, _, _, deletes⟩ := only_eq backend table.backend
    (lane_physical primitives logical granted)
  simp only [deletes]

theorem entries_confined :
    table.entries primitives (backend.only (table.lane primitives world))
        world =
      table.entries primitives backend world := by
  apply keyed_congr
  intro secret granted
  apply listed_confined granted
  intro names inside
  apply mapM_congr_of_mem
  intro physical member
  have allowed : table.lane primitives world physical = true := by
    rw [lane_eq granted]
    exact inside physical member
  rw [(only_eq backend table.backend allowed).1]

theorem keys_confined :
    table.keys primitives (backend.only (table.lane primitives world)) world =
      table.keys primitives backend world := by
  apply keyed_congr
  intro secret granted
  apply listed_confined granted
  intro names inside
  apply mapM_congr_of_mem
  intro physical member
  have allowed : table.lane primitives world physical = true := by
    rw [lane_eq granted]
    exact inside physical member
  rw [(only_eq backend table.backend allowed).1]

theorem clear_confined :
    table.clear primitives (backend.only (table.lane primitives world)) world =
      table.clear primitives backend world := by
  apply keyed_congr
  intro secret granted
  let sweep (view : Backend Handle Value σ) (names : List Symbol) :
      SealedM σ Expr PUnit :=
    names.forM fun physical => do
      let _ ← onStore (view.del table.backend physical)
  have same (names : List Symbol)
      (inside : ∀ physical ∈ names,
        table.belongsToLane primitives secret physical = true) :
      sweep (backend.only (table.lane primitives world)) names =
        sweep backend names := by
    apply forM_congr_of_mem
    intro physical member
    have allowed : table.lane primitives world physical = true := by
      rw [lane_eq granted]
      exact inside physical member
    obtain ⟨_, _, _, deletes⟩ :=
      only_eq backend table.backend allowed
    rw [deletes]
  exact listed_confined granted same

theorem call_confined
    (call : TableCall Value) :
    table.call primitives (backend.only (table.lane primitives world)) call
        world =
      table.call primitives backend call world := by
  cases call with
  | get key => exact bind_eq_bind get_confined fun _ _ _ => rfl
  | set key value => exact bind_eq_bind set_confined fun _ _ _ => rfl
  | has key => exact bind_eq_bind has_confined fun _ _ _ => rfl
  | del key => exact bind_eq_bind del_confined fun _ _ _ => rfl
  | keys => exact bind_eq_bind keys_confined fun _ _ _ => rfl
  | entries => exact bind_eq_bind entries_confined fun _ _ _ => rfl
  | len =>
      exact bind_eq_bind (bind_eq_bind keys_confined fun _ _ _ => rfl)
        fun _ _ _ => rfl
  | clear => exact bind_eq_bind clear_confined fun _ _ _ => rfl

/-- A view uses the names of its lane only, whatever the backend does. -/
theorem serve_confined
    (call : ViewCall Value) :
    table.serve primitives (backend.only (table.lane primitives world)) call
        world =
      table.serve primitives backend call world := by
  have dirs {name : Symbol} (secret : SecretKey)
      (granted : table.Granted secret world) :=
    onlyDirs_eq backend table.backend (lane_physical primitives name granted)
  cases call with
  | table call => exact bind_eq_bind (call_confined call) fun _ _ _ => rfl
  | mkdir name =>
      refine bind_eq_bind (keyed_congr fun secret granted => ?_)
        fun _ _ _ => rfl
      simp only [(dirs secret granted).1]
      rfl
  | opendir name =>
      refine bind_eq_bind (keyed_congr fun secret granted => ?_)
        fun _ _ _ => rfl
      simp only [(dirs secret granted).2.1]
      rfl
  | rmdir name =>
      refine bind_eq_bind (keyed_congr fun secret granted => ?_)
        fun _ _ _ => rfl
      simp only [(dirs secret granted).2.2.1]
      rfl
  | isDir name =>
      refine bind_eq_bind (keyed_congr fun secret granted => ?_)
        fun _ _ _ => rfl
      simp only [(dirs secret granted).2.2.2]
      rfl

end Confinement

section Frames

/-- What a call leaves: grants, other nonces, and what is not in its lane. -/
structure Spares (primitives : Primitives Value Expr)
    (contents : σ → Symbol → Option Value) (table : SealedTable Handle)
    (world after : World σ Expr) : Prop where
  grants : after.grants = world.grants
  source : after.source = world.source
  drawn : ∀ nonces, nonces ≠ table.config.nonces →
    after.drawn nonces = world.drawn nonces
  used : ∀ nonces, nonces ≠ table.usedNonces →
    after.used nonces = world.used nonces
  outside : ∀ physical, table.lane primitives world physical = false →
    contents after.store physical = contents world.store physical

theorem Spares.refl
    (world : World σ Expr) :
    Spares primitives contents table world world :=
  ⟨rfl, rfl, fun _ _ => rfl, fun _ _ => rfl, fun _ _ => rfl⟩

/-- Looks the same in both worlds, through the view of a table. -/
structure Alike (primitives : Primitives Value Expr)
    (contents : σ → Symbol → Option Value) (table : SealedTable Handle)
    (world mirror : World σ Expr) : Prop where
  grants : mirror.grants = world.grants
  source : mirror.source = world.source
  drawn : mirror.drawn table.config.nonces = world.drawn table.config.nonces
  used : mirror.used table.usedNonces = world.used table.usedNonces
  lane : ∀ physical, table.lane primitives world physical = true →
    contents mirror.store physical = contents world.store physical

/-- A call through another view cannot be seen. -/
theorem Spares.alike
    {views : ι → SealedTable Handle} {me other : ι}
    (injective : ∀ key other message query,
      primitives.hmac key message = primitives.hmac other query →
        key = other ∧ message = query)
    (separate : Separate views world)
    (differ : other ≠ me)
    (spares : Spares primitives contents (views other) world after)
    (alike : Alike primitives contents (views me) world mirror) :
    Alike primitives contents (views me) after mirror where
  grants := alike.grants.trans spares.grants.symm
  source := alike.source.trans spares.source.symm
  drawn := by
    rw [alike.drawn, spares.drawn _ (separate.nonces me other differ.symm)]
  used := by
    rw [alike.used, spares.used _ (separate.used me other differ.symm)]
  lane physical inside := by
    rw [congrFun (lane_congr spares.grants) physical] at inside
    rw [alike.lane physical inside, spares.outside physical
      (lane_disjoint injective separate differ.symm inside)]

theorem separate_congr
    {views : ι → SealedTable Handle}
    (separate : Separate views world)
    (grants : after.grants = world.grants) :
    Separate views after where
  lanes me other differ secret foreign granted grantedToo :=
    separate.lanes me other differ secret foreign (granted.congr grants.symm)
      (grantedToo.congr grants.symm)
  nonces := separate.nonces
  used := separate.used

/-- Without the key a call fails at once. -/
theorem keyed_refused
    {error : EvalError} {next : SecretKey → SealedM σ Expr α}
    (refused : table.grantedKey world = .error error) :
    Yields (table.key >>= next) world (.error error) world := by
  have key := table.key_yields world
  rw [refused] at key
  exact key.bindError

end Frames

section Pairs

variable {start state : World σ Expr}

/-- Two runs of a call on their way: alike, and the others spared so far. -/
structure Paired (primitives : Primitives Value Expr)
    (contents : σ → Symbol → Option Value) (table : SealedTable Handle)
    (start state mirror : World σ Expr) : Prop where
  alike : Alike primitives contents table state mirror
  spares : Spares primitives contents table start state

theorem Paired.granted
    (paired : Paired primitives contents table start state mirror)
    (granted : table.Granted secret start) :
    table.Granted secret state ∧ table.Granted secret mirror := by
  have here := granted.congr paired.spares.grants
  exact ⟨here, here.congr paired.alike.grants⟩

/-- The lane is where it was at the start. -/
theorem Paired.lane_eq
    (paired : Paired primitives contents table start state mirror)
    (granted : table.Granted secret start) :
    table.lane primitives state = table.belongsToLane primitives secret :=
  SealedTable.lane_eq (granted.congr paired.spares.grants)

/-- Both draw the same nonce, or the same failure. -/
theorem nonce_twins
    (paired : Paired primitives contents table start state mirror) :
    Twins (Paired primitives contents table start) table.nonce state
      table.nonce mirror := by
  obtain ⟨alike, spares⟩ := paired
  apply Twins.reading
  simp only [alike.drawn, alike.source, alike.used]
  refine (Twins.set ?_).bind fun _ after later here => ?_
  · refine ⟨⟨alike.grants, rfl, ?_, alike.used, alike.lane⟩,
      ⟨spares.grants, spares.source, fun nonces other => ?_, spares.used,
        spares.outside⟩⟩
    · simp
    · simp only [Function.update_of_ne other]
      exact spares.drawn nonces other
  refine (Twins.ofExcept _ here).bind fun nonce after later here => ?_
  refine (Twins.ofExcept _ here).bind fun _ after later here => ?_
  refine (Twins.modify ?_).bind fun _ after later here => .pure nonce here
  obtain ⟨alike, spares⟩ := here
  refine ⟨⟨alike.grants, alike.source, alike.drawn, ?_, alike.lane⟩,
    ⟨spares.grants, spares.source, spares.drawn, fun nonces other => ?_,
      spares.outside⟩⟩
  · simp
  · simp only [Function.update_of_ne other]
    exact spares.used nonces other

/-- Both seal a value to the same object. -/
theorem sealValue_twins
    {value : Value}
    (paired : Paired primitives contents table start state mirror) :
    Twins (Paired primitives contents table start)
      (table.sealValue primitives logical physical value secret) state
      (table.sealValue primitives logical physical value secret) mirror := by
  refine (Twins.ofExcept _ paired).bind fun expr _ _ here => ?_
  refine (Twins.ofExcept _ here).bind fun plaintext _ _ here => ?_
  refine (nonce_twins here).bind fun nonce _ _ here => ?_
  refine (Twins.ofExcept _ here).bind fun stored _ _ here => ?_
  refine (Twins.modify ?_).bind fun _ _ _ here => .pure stored here
  obtain ⟨alike, spares⟩ := here
  exact ⟨⟨alike.grants, alike.source, alike.drawn, alike.used, alike.lane⟩,
    ⟨spares.grants, spares.source, spares.drawn, spares.used, spares.outside⟩⟩

/-- Changing the store in the lane only, in the same way. -/
theorem Paired.stored
    {store other : σ}
    (paired : Paired primitives contents table start state mirror)
    (granted : table.Granted secret start)
    (outside : ∀ physical,
      table.belongsToLane primitives secret physical = false →
      contents store physical = contents state.store physical)
    (inside : ∀ physical,
      table.belongsToLane primitives secret physical = true →
      contents other physical = contents store physical) :
    Paired primitives contents table start { state with store := store }
      { mirror with store := other } := by
  obtain ⟨alike, spares⟩ := paired
  have here : table.lane primitives state =
      table.belongsToLane primitives secret :=
    SealedTable.lane_eq (granted.congr spares.grants)
  refine ⟨⟨alike.grants, alike.source, alike.drawn, alike.used, ?_⟩,
    ⟨spares.grants, spares.source, spares.drawn, spares.used, ?_⟩⟩
  · intro physical member
    apply inside
    rw [← here]
    exact member
  · intro physical member
    rw [← spares.outside physical member]
    apply outside
    rw [← SealedTable.lane_eq granted]
    exact member

section Stores

variable (mapLike : backend.MapLike primitives table.backend contents)

include mapLike

theorem has_twins
    (paired : Paired primitives contents table start state mirror)
    (granted : table.Granted secret start)
    (belongs : table.belongsToLane primitives secret physical = true) :
    Twins (Paired primitives contents table start)
      (onStore (backend.has table.backend physical)) state
      (onStore (backend.has table.backend physical)) mirror := by
  have same := paired.alike.lane physical
    (by rw [paired.lane_eq granted]; exact belongs)
  have again := onStore_still (mapLike.has physical mirror.store)
  rw [same] at again
  exact .of_yields (onStore_still (mapLike.has physical state.store)) again
    paired

theorem get_twins
    (paired : Paired primitives contents table start state mirror)
    (granted : table.Granted secret start)
    (belongs : table.belongsToLane primitives secret physical = true) :
    Twins (Paired primitives contents table start)
      (onStore (backend.get table.backend physical)) state
      (onStore (backend.get table.backend physical)) mirror := by
  have same := paired.alike.lane physical
    (by rw [paired.lane_eq granted]; exact belongs)
  have again := onStore_still (mapLike.get physical mirror.store)
  rw [same] at again
  exact .of_yields (onStore_still (mapLike.get physical state.store)) again
    paired

theorem set_twins
    {value : Value}
    (paired : Paired primitives contents table start state mirror)
    (granted : table.Granted secret start)
    (belongs : table.belongsToLane primitives secret physical = true) :
    Twins (Paired primitives contents table start)
      (onStore (backend.set table.backend physical value)) state
      (onStore (backend.set table.backend physical value)) mirror := by
  obtain ⟨store, written, contained⟩ := mapLike.set physical value state.store
  obtain ⟨other, again, containedToo⟩ :=
    mapLike.set physical value mirror.store
  refine .of_yields (onStore_yields written) (onStore_yields again)
    (paired.stored granted ?_ ?_)
  · intro query outside
    rw [contained, Function.update_of_ne]
    rintro rfl
    rw [belongs] at outside
    cases outside
  · intro query inside
    have same := paired.alike.lane query
      (by rw [paired.lane_eq granted]; exact inside)
    simp only [contained, containedToo, Function.update_apply, same]

theorem del_twins
    {prior : α}
    (paired : Paired primitives contents table start state mirror)
    (granted : table.Granted secret start)
    (belongs : table.belongsToLane primitives secret physical = true) :
    Twins (Paired primitives contents table start)
      (do
        let _ ← onStore (backend.del table.backend physical)
        return prior) state
      (do
        let _ ← onStore (backend.del table.backend physical)
        return prior) mirror := by
  obtain ⟨_, store, removed, deleted⟩ := mapLike.del physical state.store
  obtain ⟨_, other, again, deletedToo⟩ := mapLike.del physical mirror.store
  refine .of_yields ((onStore_yields removed).bind (.pure prior _))
    ((onStore_yields again).bind (.pure prior _))
    (paired.stored granted ?_ ?_)
  · intro query outside
    rw [deleted, Function.update_of_ne]
    rintro rfl
    rw [belongs] at outside
    cases outside
  · intro query inside
    have same := paired.alike.lane query
      (by rw [paired.lane_eq granted]; exact inside)
    simp only [deleted, deletedToo, Function.update_apply, same]

end Stores

/-- Both runs go on with the key, or both fail without it. -/
theorem keyed_twins
    {next : SecretKey → SealedM σ Expr α}
    (paired : Paired primitives contents table start state mirror)
    (rest : ∀ secret, table.Granted secret start →
      Twins (Paired primitives contents table start) (next secret) state
        (next secret) mirror) :
    Twins (Paired primitives contents table start) (table.key >>= next) state
      (table.key >>= next) mirror := by
  have here : table.grantedKey state = table.grantedKey start :=
    grantedKey_congr paired.spares.grants
  have there : table.grantedKey mirror = table.grantedKey state :=
    grantedKey_congr paired.alike.grants
  cases known : table.grantedKey state with
  | error error =>
      exact .of_yields (keyed_refused known)
        (keyed_refused (there.trans known)) paired
  | ok secret =>
      have granted := grantedKey_eq_ok.mp (here.symm.trans known)
      obtain ⟨_, _, _, runs, again, onward⟩ := rest secret granted
      obtain ⟨first, second⟩ := paired.granted granted
      exact .of_yields (first.yields.bind runs) (second.yields.bind again)
        onward

section Calls

variable {value : Value}
variable (mapLike : backend.MapLike primitives table.backend contents)

include mapLike

theorem lookup_twins
    (paired : Paired primitives contents table start state mirror) :
    Twins (Paired primitives contents table start)
      (table.get primitives backend logical) state
      (table.get primitives backend logical) mirror := by
  refine keyed_twins paired fun secret granted => ?_
  refine (has_twins mapLike paired granted physical_belongs).bind ?_
  rintro (_ | _) _ _ here
  · exact .ofExcept _ here
  · refine (get_twins mapLike here granted physical_belongs).bind
      fun stored _ _ here => ?_
    exact (Twins.ofExcept _ here).bind fun _ _ _ here => .pure _ here

theorem ask_twins
    (paired : Paired primitives contents table start state mirror) :
    Twins (Paired primitives contents table start)
      (table.has primitives backend logical) state
      (table.has primitives backend logical) mirror := by
  refine keyed_twins paired fun secret granted => ?_
  refine (has_twins mapLike paired granted physical_belongs).bind ?_
  rintro (_ | _) _ _ here
  · exact .pure _ here
  · refine (get_twins mapLike here granted physical_belongs).bind
      fun stored _ _ here => ?_
    exact (Twins.ofExcept _ here).bind fun _ _ _ here => .pure _ here

theorem store_twins
    (paired : Paired primitives contents table start state mirror) :
    Twins (Paired primitives contents table start)
      (table.set primitives backend logical value) state
      (table.set primitives backend logical value) mirror := by
  refine keyed_twins paired fun secret granted => ?_
  refine (sealValue_twins paired).bind fun stored _ _ here => ?_
  exact set_twins mapLike here granted physical_belongs

theorem delete_twins
    (paired : Paired primitives contents table start state mirror) :
    Twins (Paired primitives contents table start)
      (table.del primitives backend logical) state
      (table.del primitives backend logical) mirror := by
  refine (lookup_twins mapLike paired).bind fun prior _ _ here => ?_
  refine keyed_twins here fun secret granted => ?_
  exact del_twins mapLike here granted physical_belongs

/-- The names of the lane, as the two backends enumerate them. -/
theorem listed_perm
    (paired : Paired primitives contents table start state mirror)
    (granted : table.Granted secret start) :
    ∃ listed other,
      Yields (backend.keys table.backend) state.store (.ok listed)
        state.store ∧
      Yields (backend.keys table.backend) mirror.store (.ok other)
        mirror.store ∧
      (listed.filter (table.belongsToLane primitives secret)).Perm
        (other.filter (table.belongsToLane primitives secret)) ∧
      (∀ physical, (contents state.store physical).isSome →
        physical ∈ listed) ∧
      ∀ physical, (contents mirror.store physical).isSome →
        physical ∈ other := by
  obtain ⟨listed, lists, distinct, complete⟩ := mapLike.keys state.store
  obtain ⟨other, again, distinctToo, completeToo⟩ := mapLike.keys mirror.store
  refine ⟨listed, other, lists, again, ?_,
    fun physical => (complete physical).mpr,
    fun physical => (completeToo physical).mpr⟩
  rw [List.perm_ext_iff_of_nodup (distinct.filter _) (distinctToo.filter _)]
  intro physical
  rw [List.mem_filter, List.mem_filter, complete, completeToo]
  constructor
  · rintro ⟨present, inside⟩
    rw [paired.alike.lane physical
      (by rw [paired.lane_eq granted]; exact inside)]
    exact ⟨present, inside⟩
  · rintro ⟨present, inside⟩
    rw [← paired.alike.lane physical
      (by rw [paired.lane_eq granted]; exact inside)]
    exact ⟨present, inside⟩

theorem clear_twins
    (paired : Paired primitives contents table start state mirror) :
    Twins (Paired primitives contents table start)
      (table.clear primitives backend) state
      (table.clear primitives backend) mirror := by
  refine keyed_twins paired fun secret granted => ?_
  obtain ⟨listed, other, lists, again, _, complete, completeToo⟩ :=
    listed_perm mapLike paired granted
  obtain ⟨store, removed, cleared⟩ := deleteAll_yields mapLike
    (listed.filter (table.belongsToLane primitives secret)) state
  obtain ⟨rest, removedToo, clearedToo⟩ := deleteAll_yields mapLike
    (other.filter (table.belongsToLane primitives secret)) mirror
  refine .of_yields ((onStore_still lists).bind removed)
    ((onStore_still again).bind removedToo) (paired.stored granted ?_ ?_)
  · intro physical outside
    rw [cleared, if_neg]
    intro member
    rw [(List.mem_filter.mp member).2] at outside
    cases outside
  · intro physical inside
    have gone {names : List Symbol} {found : Option Value}
        (complete : found.isSome → physical ∈ names) :
        (if physical ∈ names.filter (table.belongsToLane primitives secret)
          then none else found) = none := by
      split
      · rfl
      · next absent =>
          by_contra present
          exact absent (List.mem_filter.mpr
            ⟨complete (Option.isSome_iff_ne_none.mpr present), inside⟩)
    rw [cleared, clearedToo, gone (complete physical),
      gone (completeToo physical)]

end Calls

section Enumerations

/-- The entry that is stored under a name. -/
def entryOf (primitives : Primitives Value Expr) (table : SealedTable Handle)
    (secret : SecretKey) (physical : Symbol) (found : Option Value) :
    Except EvalError (Symbol × Value) := do
  let stored ← orNil primitives found
  table.openStored primitives none physical stored secret

theorem readEntry_yields
    (mapLike : backend.MapLike primitives table.backend contents)
    (secret : SecretKey) (physical : Symbol) (state : World σ Expr) :
    Yields (table.readEntry primitives backend secret physical) state
      (table.entryOf primitives secret physical
        (contents state.store physical)) state := by
  have got := onStore_still (mapLike.get physical state.store)
  rw [entryOf]
  cases found : orNil primitives (contents state.store physical) with
  | error error =>
      rw [found] at got
      exact got.bindError
  | ok stored =>
      rw [found] at got
      exact got.bind (.ofExcept _ state)

/-- Two enumerations of the same entries, in some order, or both fail. -/
theorem entries_both
    (mapLike : backend.MapLike primitives table.backend contents)
    {names others : List Symbol}
    (perm : names.Perm others)
    (inside : ∀ physical ∈ names,
      contents mirror.store physical = contents state.store physical) :
    (∃ entries rest, entries.Perm rest ∧
      List.Forall₂ (fun physical entry => Yields
          (table.readEntry primitives backend secret physical) state
          (.ok entry) state) names entries ∧
      List.Forall₂ (fun physical entry => Yields
          (table.readEntry primitives backend secret physical) mirror
          (.ok entry) mirror) others rest) ∨
    ((∃ physical ∈ names, ∃ error, Yields
        (table.readEntry primitives backend secret physical) state
        (.error error) state) ∧
      ∃ physical ∈ others, ∃ error, Yields
        (table.readEntry primitives backend secret physical) mirror
        (.error error) mirror) := by
  have read (physical : Symbol) := readEntry_yields mapLike secret
    physical state
  have readToo {physical : Symbol} (member : physical ∈ names) :
      Yields (table.readEntry primitives backend secret physical) mirror
        (table.entryOf primitives secret physical
          (contents state.store physical)) mirror := by
    rw [← inside physical member]
    exact readEntry_yields mapLike secret physical mirror
  by_cases all : ∀ physical ∈ names, ∃ entry, table.entryOf primitives secret
      physical (contents state.store physical) = .ok entry
  · left
    have each : ∀ physical ∈ others, ∃ entry, physical ∈ names ∧
        table.entryOf primitives secret physical
          (contents state.store physical) = .ok entry := by
      intro physical member
      have isName := perm.mem_iff.mpr member
      obtain ⟨entry, opens⟩ := all physical isName
      exact ⟨entry, isName, opens⟩
    obtain ⟨rest, pairs⟩ := exists_forall₂ each
    obtain ⟨entries, first, same⟩ := List.perm_comp_forall₂ perm pairs
    refine ⟨entries, rest, same, first.imp ?_, pairs.imp ?_⟩
    · rintro physical entry ⟨_, opens⟩
      exact opens ▸ read physical
    · rintro physical entry ⟨member, opens⟩
      exact opens ▸ readToo member
  · right
    push Not at all
    obtain ⟨physical, member, never⟩ := all
    cases opens : table.entryOf primitives secret physical
        (contents state.store physical) with
    | ok entry => exact absurd opens (never entry)
    | error error =>
        exact ⟨⟨physical, member, error, opens ▸ read physical⟩, physical,
          perm.mem_iff.mp member, error, opens ▸ readToo member⟩

/-- Listings of the two runs are the same, in some order, or both fail. -/
theorem listing_pairs
    (mapLike : backend.MapLike primitives table.backend contents)
    (paired : Paired primitives contents table start state mirror) :
    (∃ entries rest, entries.Perm rest ∧
      Yields (table.entries primitives backend) state (.ok entries) state ∧
      Yields (table.entries primitives backend) mirror (.ok rest) mirror ∧
      Yields (table.keys primitives backend) state
        (.ok (entries.map Prod.fst)) state ∧
      Yields (table.keys primitives backend) mirror
        (.ok (rest.map Prod.fst)) mirror) ∨
    ((∃ error, Yields (table.entries primitives backend) state (.error error)
        state) ∧
      (∃ error, Yields (table.entries primitives backend) mirror (.error error)
        mirror) ∧
      (∃ error, Yields (table.keys primitives backend) state (.error error)
        state) ∧
      ∃ error, Yields (table.keys primitives backend) mirror (.error error)
        mirror) := by
  cases known : table.grantedKey state with
  | error error =>
      have there : table.grantedKey mirror = .error error :=
        (grantedKey_congr paired.alike.grants).trans known
      exact .inr ⟨⟨error, keyed_refused known⟩, ⟨error, keyed_refused there⟩,
        ⟨error, keyed_refused known⟩, error, keyed_refused there⟩
  | ok secret =>
  have granted : table.Granted secret start :=
    (grantedKey_eq_ok.mp known).congr paired.spares.grants.symm
  obtain ⟨listed, other, lists, again, perm, _⟩ :=
    listed_perm mapLike paired granted
  obtain ⟨first, second⟩ := paired.granted granted
  have inside : ∀ physical ∈
      listed.filter (table.belongsToLane primitives secret),
      contents mirror.store physical = contents state.store physical := by
    intro physical member
    apply paired.alike.lane
    rw [paired.lane_eq granted]
    exact (List.mem_filter.mp member).2
  have total (physical : Symbol) (world : World σ Expr) :=
    readEntry_yields mapLike secret physical world
  rcases entries_both mapLike perm inside with
    ⟨entries, rest, same, reads, readsToo⟩ |
      ⟨⟨physical, member, error, fails⟩, place, memberToo, other, failsToo⟩
  · left
    refine ⟨entries, rest, same, ?_, ?_, ?_, ?_⟩
    · exact first.yields.bind ((onStore_still lists).bind (Yields.mapM reads))
    · exact second.yields.bind
        ((onStore_still again).bind (Yields.mapM readsToo))
    · apply first.yields.bind
      apply (onStore_still lists).bind
      apply Yields.mapM
      rw [List.forall₂_map_right_iff]
      exact reads.imp fun _ _ read => readKey_yields read
    · apply second.yields.bind
      apply (onStore_still again).bind
      apply Yields.mapM
      rw [List.forall₂_map_right_iff]
      exact readsToo.imp fun _ _ read => readKey_yields read
  · right
    have each (world : World σ Expr) (names : List Symbol) :
        ∀ physical ∈ names, ∃ outcome, Yields
          (table.readEntry primitives backend secret physical) world outcome
          world :=
      fun physical _ => ⟨_, total physical world⟩
    refine ⟨?_, ?_, ?_, ?_⟩
    · obtain ⟨error, failed⟩ :=
        Yields.mapM_error (each state _) member fails
      exact ⟨error, first.yields.bind ((onStore_still lists).bind failed)⟩
    · obtain ⟨error, failed⟩ :=
        Yields.mapM_error (each mirror _) memberToo failsToo
      exact ⟨error, second.yields.bind ((onStore_still again).bind failed)⟩
    · obtain ⟨error, failed⟩ :=
        Yields.mapM_error
          (fun physical _ => ⟨_, readKey_yields (total physical state)⟩)
          member (readKey_yields fails)
      exact ⟨error, first.yields.bind ((onStore_still lists).bind failed)⟩
    · obtain ⟨error, failed⟩ :=
        Yields.mapM_error
          (fun physical _ => ⟨_, readKey_yields (total physical mirror)⟩)
          memberToo (readKey_yields failsToo)
      exact ⟨error, second.yields.bind ((onStore_still again).bind failed)⟩

/-- Both runs of a call answer the same, and stay paired. -/
theorem call_pairs
    (mapLike : backend.MapLike primitives table.backend contents)
    (paired : Paired primitives contents table start state mirror)
    (call : TableCall Value) :
    ∃ outcome other after later,
      Yields (table.call primitives backend call) state outcome after ∧
      Yields (table.call primitives backend call) mirror other later ∧
      SameAnswer call outcome other ∧
      Paired primitives contents table start after later := by
  have same {call : TableCall Value}
      (twins : Twins (Paired primitives contents table start)
        (table.call primitives backend call) state
        (table.call primitives backend call) mirror) :
      ∃ outcome other after later,
        Yields (table.call primitives backend call) state outcome after ∧
        Yields (table.call primitives backend call) mirror other later ∧
        SameAnswer call outcome other ∧
        Paired primitives contents table start after later := by
    obtain ⟨outcome, after, later, runs, again, here⟩ := twins
    exact ⟨outcome, outcome, after, later, runs, again, .same call outcome,
      here⟩
  have wrapped {α β : Type} {computation : SealedM σ Expr α} {wrap : α → β}
      (twins : Twins (Paired primitives contents table start) computation state
        computation mirror) :
      Twins (Paired primitives contents table start)
        (do return wrap (← computation)) state
        (do return wrap (← computation)) mirror :=
    twins.bind fun value _ _ here => .pure (wrap value) here
  cases call with
  | get key => exact same (wrapped (lookup_twins mapLike paired))
  | has key => exact same (wrapped (ask_twins mapLike paired))
  | set key value =>
      exact same ((store_twins mapLike paired).bind
        fun _ _ _ here => .pure _ here)
  | del key => exact same (wrapped (delete_twins mapLike paired))
  | clear =>
      exact same ((clear_twins mapLike paired).bind
        fun _ _ _ here => .pure _ here)
  | keys =>
      rcases listing_pairs mapLike paired with
        ⟨entries, rest, perm, _, _, keys, keysToo⟩ |
          ⟨_, _, ⟨error, failed⟩, other, failedToo⟩
      · exact ⟨_, _, _, _, yields_map keys, yields_map keysToo,
          .keys (perm.map Prod.fst), paired⟩
      · exact ⟨_, _, _, _, yields_map failed, yields_map failedToo,
          .failed error other trivial, paired⟩
  | entries =>
      rcases listing_pairs mapLike paired with
        ⟨entries, rest, perm, all, allToo, _⟩ |
          ⟨⟨error, failed⟩, ⟨other, failedToo⟩, _⟩
      · exact ⟨_, _, _, _, yields_map all, yields_map allToo, .entries perm,
          paired⟩
      · exact ⟨_, _, _, _, yields_map failed, yields_map failedToo,
          .failed error other trivial, paired⟩
  | len =>
      rcases listing_pairs mapLike paired with
        ⟨entries, rest, perm, _, _, keys, keysToo⟩ |
          ⟨_, _, ⟨error, failed⟩, other, failedToo⟩
      · have counted : (rest.map Prod.fst).length =
            (entries.map Prod.fst).length :=
          (perm.map Prod.fst).length_eq.symm
        refine ⟨_, _, _, _, yields_map (yields_map keys),
          yields_map (yields_map keysToo), ?_, paired⟩
        simp only [Except.map, counted]
        exact .same _ _
      · exact ⟨_, _, _, _, yields_map (yields_map failed),
          yields_map (yields_map failedToo), .failed error other trivial,
          paired⟩

end Enumerations

end Pairs

end SealedTable

section Isolation

variable {views : ι → SealedTable Handle} {handle : Handle}
variable {start : World σ Expr}

theorem serveAll_eq
    {call : ι × TableCall Value} {outcome : Except EvalError (TableReply Value)}
    (yields : Yields ((views call.1).call primitives backend call.2) world
      outcome after) :
    serveAll primitives backend views world call = (outcome, after) := by
  rw [Yields] at yields
  rw [serveAll, yields]
  cases outcome <;> rfl

/-- What a view sees decides its answers, and the others do not change it. -/
theorem views_unwind
    [DecidableEq ι]
    (injective : ∀ key other message query,
      primitives.hmac key message = primitives.hmac other query →
        key = other ∧ message = query)
    (shared : ∀ me, (views me).backend = handle)
    (mapLike : backend.MapLike primitives handle contents)
    (separate : Separate views start)
    (me : ι) :
    Unwinds (serveAll primitives backend views)
      (fun call => decide (call.1 = me))
      (fun world mirror => world.grants = start.grants ∧
        (views me).Alike primitives contents world mirror)
      (fun call first second => SameAnswer call.2 first second) where
  ignores world mirror call other := by
    rintro ⟨grants, alike⟩
    have mapped : backend.MapLike primitives (views call.1).backend contents :=
      (shared call.1).symm ▸ mapLike
    obtain ⟨_, _, after, _, runs, _, _, paired⟩ :=
      SealedTable.call_pairs mapped ⟨⟨rfl, rfl, rfl, rfl, fun _ _ => rfl⟩,
        .refl world⟩ call.2
    rw [serveAll_eq runs]
    exact ⟨paired.spares.grants.trans grants, paired.spares.alike injective
      (SealedTable.separate_congr separate grants) (of_decide_eq_false other)
      alike⟩
  agrees world mirror call mine := by
    rintro ⟨grants, alike⟩
    obtain rfl := of_decide_eq_true mine
    have mapped : backend.MapLike primitives (views call.1).backend contents :=
      (shared call.1).symm ▸ mapLike
    obtain ⟨_, _, after, later, runs, again, same, paired⟩ :=
      SealedTable.call_pairs mapped ⟨alike, .refl world⟩ call.2
    rw [serveAll_eq runs, serveAll_eq again]
    exact ⟨same, paired.spares.grants.trans grants, paired.alike⟩

/-- Views in lanes of their own do not interfere. -/
structure Isolated [DecidableEq ι] (primitives : Primitives Value Expr)
    (backend : Backend Handle Value σ)
    (contents : σ → Symbol → Option Value) (views : ι → SealedTable Handle) :
    Prop where
  /-- The lanes have no names in common. -/
  disjoint : ∀ (world : World σ Expr) me other physical,
    Separate views world → me ≠ other →
    (views me).lane primitives world physical = true →
    (views other).lane primitives world physical = false
  /-- The answers to a view are those of its own calls alone. -/
  silent : ∀ (world : World σ Expr) me calls, Separate views world →
    List.Forall₂
      (fun first second =>
        first.1 = second.1 ∧ SameAnswer first.1.2 first.2 second.2)
      ((answers (serveAll primitives backend views) world calls).1.filter
        fun entry => decide (entry.1.1 = me))
      (answers (serveAll primitives backend views) world
        (calls.filter fun call => decide (call.1 = me))).1
  /-- What they leave in its lane is what its own calls leave there. -/
  kept : ∀ (world : World σ Expr) me calls physical, Separate views world →
    (views me).lane primitives world physical = true →
    contents (answers (serveAll primitives backend views) world calls).2.store
        physical =
      contents (answers (serveAll primitives backend views) world
        (calls.filter fun call => decide (call.1 = me))).2.store physical

/--
On any backend, a view uses the names of its lane only; with an injective
digest and a map of names, views in lanes of their own are isolated.
-/
theorem lanes_isolated
    [DecidableEq ι] (primitives : Primitives Value Expr)
    (backend : Backend Handle Value σ) (contents : σ → Symbol → Option Value)
    (views : ι → SealedTable Handle) (handle : Handle) :
    (∀ (any : Backend Handle Value σ) (world : World σ Expr) me call,
      (views me).serve primitives (any.only ((views me).lane primitives world))
          call world =
        (views me).serve primitives any call world) ∧
      ((∀ key other message query,
          primitives.hmac key message = primitives.hmac other query →
            key = other ∧ message = query) →
        (∀ me, (views me).backend = handle) →
        backend.MapLike primitives handle contents →
        Isolated primitives backend contents views) := by
  refine ⟨fun any world me call => SealedTable.serve_confined call,
    fun injective shared mapLike => ?_⟩
  have purged (world : World σ Expr) (me : ι)
      (calls : List (ι × TableCall Value)) (separate : Separate views world) :=
    (views_unwind injective shared mapLike separate me).purged calls world world
      ⟨rfl, rfl, rfl, rfl, rfl, fun _ _ => rfl⟩
  refine ⟨fun world me other physical separate differ inside =>
      SealedTable.lane_disjoint injective separate differ inside,
    fun world me calls separate => (purged world me calls separate).1, ?_⟩
  intro world me calls physical separate inside
  obtain ⟨_, grants, alike⟩ := purged world me calls separate
  refine (alike.lane physical ?_).symm
  rw [SealedTable.lane_congr grants]
  exact inside

/-- Two tables of one backend, with lanes and nonces of their own. -/
def sampleViews (second : Bool) : SealedTable Unit where
  backend := ()
  config := { Reference.config with
    lane := if second then [1] else []
    nonces := if second then 1 else 0
    lane_fits := by cases second <;> decide }
  usedNonces := if second then 1 else 0

theorem sampleViews_separate :
    Separate sampleViews
      (Reference.world (∅ : PlainTable Reference.Sample)) where
  lanes me other differ secret foreign _ _ same := by
    cases me <;> cases other <;> simp_all [sampleViews]
  nonces me other differ same := by
    cases me <;> cases other <;> simp_all [sampleViews]
  used me other differ same := by
    cases me <;> cases other <;> simp_all [sampleViews]

theorem sample_lanes_isolated :
    Separate sampleViews
        (Reference.world (∅ : PlainTable Reference.Sample)) ∧
      Isolated (Reference.primitives plainTagging)
        (mapBackend (Reference.primitives plainTagging))
        (fun store key => store.lookup key) sampleViews :=
  have lawful := Reference.primitives_lawful plainTagging
  ⟨sampleViews_separate, (lanes_isolated _ _ _ sampleViews ()).2 lawful.hmac
    (fun _ => rfl) (mapBackend_mapLike lawful)⟩

end Isolation

end SimStorage.Sealed
