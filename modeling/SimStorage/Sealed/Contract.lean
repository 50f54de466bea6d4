import SimStorage.Sealed.Reference
import Mathlib.Data.List.AList

namespace SimStorage.Sealed

/-!
# The sealed table as a map

Over a backend that behaves as a map, the operations of a sealed table are
compared with those of a plain symbol-keyed map.  They agree on unqualified
keys; a qualified key is stored under its bare name.
-/

open Codec Interaction

variable {Handle Value Expr σ α : Type}

section Calls

/-- The operations of a table. -/
inductive TableCall (Value : Type) where
  | get (key : Symbol)
  | set (key : Symbol) (value : Value)
  | has (key : Symbol)
  | del (key : Symbol)
  | keys
  | entries
  | len
  | clear

/-- What the operations return. -/
inductive TableReply (Value : Type) where
  | value (value : Value)
  | done
  | flag (value : Bool)
  | symbols (keys : List Symbol)
  | pairs (entries : List (Symbol × Value))
  | count (value : Nat)

/-- The value that a table returns for what it found. -/
def orNil (primitives : Primitives Value Expr) :
    Option Value → Except EvalError Value
  | some value => .ok value
  | none => primitives.nil

/-- A plain symbol-keyed map. -/
abbrev PlainTable (Value : Type) :=
  AList fun _ : Symbol => Value

/-- An operation on a plain map: its result and the map after it. -/
def PlainTable.call (primitives : Primitives Value Expr)
    (plain : PlainTable Value) :
    TableCall Value → Except EvalError (TableReply Value) × PlainTable Value
  | .get key => ((orNil primitives (plain.lookup key)).map .value, plain)
  | .set key value => (.ok .done, plain.insert key value)
  | .has key => (.ok (.flag (plain.lookup key).isSome), plain)
  | .del key =>
      ((orNil primitives (plain.lookup key)).map .value, plain.erase key)
  | .keys => (.ok (.symbols plain.keys), plain)
  | .entries =>
      (.ok (.pairs (plain.entries.map fun entry => (entry.1, entry.2))), plain)
  | .len => (.ok (.count plain.keys.length), plain)
  | .clear => (.ok .done, ∅)

/-- An operation on a sealed table. -/
def SealedTable.call (primitives : Primitives Value Expr)
    (backend : Backend Handle Value σ) (table : SealedTable Handle) :
    TableCall Value → SealedM σ Expr (TableReply Value)
  | .get key => do return .value (← table.get primitives backend key)
  | .set key value => do
      table.set primitives backend key value
      return .done
  | .has key => do return .flag (← table.has primitives backend key)
  | .del key => do return .value (← table.del primitives backend key)
  | .keys => do return .symbols (← table.keys primitives backend)
  | .entries => do return .pairs (← table.entries primitives backend)
  | .len => do return .count (← table.len primitives backend)
  | .clear => do
      table.clear primitives backend
      return .done

/-- Keys and the expressions of their values. -/
def shown (primitives : Primitives Value Expr)
    (entries : List (Symbol × Value)) :
    List (Symbol × Except EvalError Expr) :=
  entries.map fun entry => (entry.1, primitives.asExpr entry.2)

/-- Replies with the same meaning; enumerations in any order. -/
def TableReply.Alike (primitives : Primitives Value Expr) :
    TableReply Value → TableReply Value → Prop
  | .value first, .value second =>
      primitives.asExpr first = primitives.asExpr second
  | .done, .done => True
  | .flag first, .flag second => first = second
  | .symbols first, .symbols second => first.Perm second
  | .pairs first, .pairs second =>
      (shown primitives first).Perm (shown primitives second)
  | .count first, .count second => first = second
  | _, _ => False

/-- Results with the same meaning. -/
def Agree (primitives : Primitives Value Expr) :
    Except EvalError (TableReply Value) →
      Except EvalError (TableReply Value) → Prop
  | .ok first, .ok second => first.Alike primitives second
  | .error first, .error second => first = second
  | _, _ => False

/-- The operation does not rely on the namespace of a key. -/
def Careful (plain : PlainTable Value) : TableCall Value → Prop
  | .set key _ => key.space = none
  | .get key | .has key | .del key =>
      key.space = none ∨ Symbol.new key.name ∉ plain
  | _ => True

end Calls

/-- A backend that behaves as a finite symbol-keyed map at a handle. -/
structure Backend.MapLike (primitives : Primitives Value Expr)
    (backend : Backend Handle Value σ) (handle : Handle)
    (contents : σ → Symbol → Option Value) : Prop where
  get : ∀ key store, Yields (backend.get handle key) store
    (orNil primitives (contents store key)) store
  has : ∀ key store, Yields (backend.has handle key) store
    (.ok (contents store key).isSome) store
  set : ∀ key value store, ∃ after,
    Yields (backend.set handle key value) store (.ok ()) after ∧
      contents after = Function.update (contents store) key (some value)
  del : ∀ key store, ∃ prior after,
    Yields (backend.del handle key) store (.ok prior) after ∧
      contents after = Function.update (contents store) key none
  keys : ∀ store, ∃ listed,
    Yields (backend.keys handle) store (.ok listed) store ∧
      listed.Nodup ∧ ∀ key, key ∈ listed ↔ (contents store key).isSome

namespace SealedTable

variable {primitives : Primitives Value Expr}
variable {backend : Backend Handle Value σ}
variable {contents : σ → Symbol → Option Value}
variable {table : SealedTable Handle} {secret : SecretKey}
variable {logical physical : Symbol} {value stored : Value}
variable {plain : PlainTable Value} {world after : World σ Expr}

/-- The world holds the sealed form of a plain map. -/
structure Matches (primitives : Primitives Value Expr)
    (contents : σ → Symbol → Option Value) (table : SealedTable Handle)
    (secret : SecretKey) (plain : PlainTable Value) (world : World σ Expr) :
    Prop where
  granted : table.Granted secret world
  bare : ∀ key ∈ plain, key.space = none
  kept : ∀ key value, plain.lookup key = some value →
    ∃ stored opened,
      contents world.store (table.physical primitives secret key) =
          some stored ∧
        table.openStored primitives none
            (table.physical primitives secret key) stored secret =
          .ok (key, opened) ∧
        primitives.asExpr opened = primitives.asExpr value
  only : ∀ physical, table.belongsToLane primitives secret physical →
    (contents world.store physical).isSome →
    ∃ key ∈ plain, physical = table.physical primitives secret key

section Names

theorem physical_belongs :
    table.belongsToLane primitives secret
      (table.physical primitives secret logical) := by
  simp [belongsToLane, physical, physicalName, Symbol.new]

/-- The physical name of a key stands for its bare form. -/
theorem physical_injective
    (lawful : primitives.Lawful)
    {other : Symbol}
    (same : table.physical primitives secret logical =
      table.physical primitives secret other) :
    logical.name = other.name :=
  (physicalName_injective lawful.hmac (congrArg Symbol.name same)).2.2

/-- Unqualified keys have different physical names. -/
theorem eq_of_physical
    (lawful : primitives.Lawful)
    {other : Symbol}
    (bare : logical.space = none) (bareOther : other.space = none)
    (same : table.physical primitives secret logical =
      table.physical primitives secret other) :
    logical = other := by
  have names := physical_injective lawful same
  cases logical
  cases other
  simp_all

theorem new_name
    (bare : logical.space = none) :
    Symbol.new logical.name = logical := by
  cases logical
  simp_all [Symbol.new]

end Names

section Probes

/-- What a lookup at a physical name gives. -/
def opened (primitives : Primitives Value Expr) (table : SealedTable Handle)
    (secret : SecretKey) (logical : Symbol) :
    Option Value → Except EvalError Value
  | none => primitives.nil
  | some stored =>
      (table.openStored primitives (some logical)
        (table.physical primitives secret logical) stored secret).map Prod.snd

theorem get_yields
    (mapLike : backend.MapLike primitives table.backend contents)
    (granted : table.Granted secret world) :
    Yields (table.get primitives backend logical) world
      (table.opened primitives secret logical (contents world.store
        (table.physical primitives secret logical))) world := by
  apply granted.yields.bind
  have asked := onStore_still
    (mapLike.has (table.physical primitives secret logical) world.store)
  apply asked.bind
  have read := onStore_still
    (mapLike.get (table.physical primitives secret logical) world.store)
  cases found : contents world.store
      (table.physical primitives secret logical) with
  | none =>
      simp only [Option.isSome_none, opened]
      exact .ofExcept _ world
  | some stored =>
      rw [found] at read
      simp only [Option.isSome_some, if_true, opened]
      apply read.bind
      cases opens : table.openStored primitives (some logical)
          (table.physical primitives secret logical) stored secret with
      | error error => exact (Yields.ofExcept (.error error) world).bindError
      | ok entry => exact (Yields.ofExcept (.ok entry) world).bind (.pure _ _)

theorem has_yields
    (mapLike : backend.MapLike primitives table.backend contents)
    (granted : table.Granted secret world) :
    Yields (table.has primitives backend logical) world
      (match contents world.store
          (table.physical primitives secret logical) with
        | none => .ok false
        | some stored =>
            (table.openStored primitives (some logical)
              (table.physical primitives secret logical) stored secret).map
                fun _ => true) world := by
  apply granted.yields.bind
  have asked := onStore_still
    (mapLike.has (table.physical primitives secret logical) world.store)
  apply asked.bind
  have read := onStore_still
    (mapLike.get (table.physical primitives secret logical) world.store)
  cases found : contents world.store
      (table.physical primitives secret logical) with
  | none =>
      simp only [Option.isSome_none]
      exact .pure false world
  | some stored =>
      rw [found] at read
      simp only [Option.isSome_some, if_true]
      apply read.bind
      cases opens : table.openStored primitives (some logical)
          (table.physical primitives secret logical) stored secret with
      | error error => exact (Yields.ofExcept (.error error) world).bindError
      | ok entry => exact (Yields.ofExcept (.ok entry) world).bind (.pure _ _)

/-- What is stored at the physical name of a key. -/
inductive Probe (primitives : Primitives Value Expr)
    (contents : σ → Symbol → Option Value) (table : SealedTable Handle)
    (secret : SecretKey) (plain : PlainTable Value) (world : World σ Expr)
    (logical : Symbol) : Prop where
  | absent :
      plain.lookup logical = none →
      Symbol.new logical.name ∉ plain →
      contents world.store (table.physical primitives secret logical) = none →
      Probe primitives contents table secret plain world logical
  | present (value stored opened : Value) :
      logical.space = none →
      plain.lookup logical = some value →
      contents world.store (table.physical primitives secret logical) =
        some stored →
      table.openStored primitives (some logical)
          (table.physical primitives secret logical) stored secret =
        .ok (logical, opened) →
      primitives.asExpr opened = primitives.asExpr value →
      Probe primitives contents table secret plain world logical
  | mistaken (stored : Value) :
      logical.space ≠ none →
      Symbol.new logical.name ∈ plain →
      plain.lookup logical = none →
      contents world.store (table.physical primitives secret logical) =
        some stored →
      table.openStored primitives (some logical)
          (table.physical primitives secret logical) stored secret =
        .error (failure .authentication) →
      Probe primitives contents table secret plain world logical

/-- A key is absent, present, or mistaken for its bare form. -/
theorem Matches.probe
    (lawful : primitives.Lawful)
    (holds : Matches primitives contents table secret plain world)
    (logical : Symbol) :
    Probe primitives contents table secret plain world logical := by
  have unqualified (qualified : logical.space ≠ none) :
      plain.lookup logical = none := by
    rw [AList.lookup_eq_none]
    exact fun member => qualified (holds.bare logical member)
  by_cases bareKnown : Symbol.new logical.name ∈ plain
  · obtain ⟨value, found⟩ := Option.isSome_iff_exists.mp
      (AList.lookup_isSome.mpr bareKnown)
    obtain ⟨stored, opened, here, opens, same⟩ := holds.kept _ _ found
    by_cases bare : logical.space = none
    · rw [new_name bare] at found here opens
      have found' : table.openStored primitives (some logical)
          (table.physical primitives secret logical) stored secret =
            .ok (logical, opened) := by
        rw [openStored_some opens, if_pos rfl]
      exact .present value stored opened bare found here found' same
    · have differs : logical ≠ Symbol.new logical.name := by
        intro impossible
        rw [impossible] at bare
        exact bare rfl
      have refused : table.openStored primitives (some logical)
          (table.physical primitives secret logical) stored secret =
            .error (failure .authentication) :=
        (openStored_some opens).trans (if_neg differs)
      exact .mistaken stored bare bareKnown (unqualified bare) here refused
  · have absent : contents world.store
        (table.physical primitives secret logical) = none := by
      by_contra stored
      obtain ⟨key, member, same⟩ := holds.only _ physical_belongs
        (Option.isSome_iff_ne_none.mpr stored)
      have names := physical_injective lawful same
      rw [names, new_name (holds.bare key member)] at bareKnown
      exact bareKnown member
    refine .absent ?_ bareKnown absent
    by_cases bare : logical.space = none
    · rw [AList.lookup_eq_none, ← new_name bare]
      exact bareKnown
    · exact unqualified bare

end Probes

section Steps

/-- The call gives the plain result, and the world matches the plain map. -/
def Simulates (primitives : Primitives Value Expr)
    (backend : Backend Handle Value σ)
    (contents : σ → Symbol → Option Value) (table : SealedTable Handle)
    (secret : SecretKey) (plain : PlainTable Value) (world : World σ Expr)
    (call : TableCall Value) : Prop :=
  ∃ outcome after, Yields (table.call primitives backend call) world outcome
      after ∧
    Agree primitives outcome (plain.call primitives call).1 ∧
    Matches primitives contents table secret (plain.call primitives call).2
      after

theorem agree_value
    (outcome : Except EvalError Value) :
    Agree primitives (outcome.map .value) (outcome.map .value) := by
  cases outcome <;> rfl

/-- An authentication failure never agrees with a plain lookup. -/
theorem not_agree_nil
    (lawful : primitives.Lawful)
    (error : EvalError) :
    ¬ Agree primitives (.error error)
      ((orNil primitives none).map .value) := by
  obtain ⟨nil, _, made, _⟩ := lawful.nil
  simp only [orNil, made, Except.map]
  exact id

/-- What a call yields decides whether it simulates the plain one. -/
theorem simulates_iff
    {call : TableCall Value} {outcome : Except EvalError (TableReply Value)}
    (yields : Yields (table.call primitives backend call) world outcome after) :
    Simulates primitives backend contents table secret plain world call ↔
      Agree primitives outcome (plain.call primitives call).1 ∧
        Matches primitives contents table secret
          (plain.call primitives call).2 after := by
  constructor
  · rintro ⟨other, later, found, agrees, holds⟩
    obtain ⟨rfl, rfl⟩ := found.unique yields
    exact ⟨agrees, holds⟩
  · rintro ⟨agrees, holds⟩
    exact ⟨outcome, after, yields, agrees, holds⟩

/-- A computation whose result is only wrapped. -/
theorem yields_map
    {β : Type} {computation : SealedM σ Expr α} {wrap : α → β}
    {outcome : Except EvalError α}
    (yields : Yields computation world outcome after) :
    Yields (do return wrap (← computation)) world (outcome.map wrap) after := by
  cases outcome with
  | ok value => exact yields.bind (.pure _ after)
  | error error => exact yields.bindError

theorem simulates_get
    (lawful : primitives.Lawful)
    (mapLike : backend.MapLike primitives table.backend contents)
    (holds : Matches primitives contents table secret plain world) :
    Simulates primitives backend contents table secret plain world
        (.get logical) ↔
      Careful plain (.get logical) := by
  have whole : Yields (table.call primitives backend (.get logical)) world _
      world :=
    yields_map (get_yields mapLike holds.granted)
  rw [simulates_iff whole]
  cases holds.probe lawful logical with
  | absent unknown bareUnknown empty =>
      simp only [PlainTable.call, empty, unknown, opened]
      exact ⟨fun _ => .inr bareUnknown, fun _ => ⟨agree_value _, holds⟩⟩
  | present value stored shows bare known here opens same =>
      simp only [PlainTable.call, here, known, opened, opens, orNil]
      exact ⟨fun _ => .inl bare, fun _ => ⟨same, holds⟩⟩
  | mistaken stored qualified bareKnown unknown here refused =>
      simp only [PlainTable.call, here, unknown, opened, refused]
      constructor
      · rintro ⟨agrees, _⟩
        exact absurd agrees (not_agree_nil lawful _)
      · rintro (bare | bareUnknown)
        · exact absurd bare qualified
        · exact absurd bareKnown bareUnknown

theorem simulates_has
    (lawful : primitives.Lawful)
    (mapLike : backend.MapLike primitives table.backend contents)
    (holds : Matches primitives contents table secret plain world) :
    Simulates primitives backend contents table secret plain world
        (.has logical) ↔
      Careful plain (.has logical) := by
  have whole : Yields (table.call primitives backend (.has logical)) world _
      world :=
    yields_map (has_yields mapLike holds.granted)
  rw [simulates_iff whole]
  cases holds.probe lawful logical with
  | absent unknown bareUnknown empty =>
      simp only [PlainTable.call, empty, unknown]
      exact ⟨fun _ => .inr bareUnknown, fun _ => ⟨rfl, holds⟩⟩
  | present value stored shows bare known here opens same =>
      simp only [PlainTable.call, here, known, opens]
      exact ⟨fun _ => .inl bare, fun _ => ⟨rfl, holds⟩⟩
  | mistaken stored qualified bareKnown unknown here refused =>
      simp only [PlainTable.call, here, unknown, refused]
      constructor
      · rintro ⟨agrees, _⟩
        exact agrees.elim
      · rintro (bare | bareUnknown)
        · exact absurd bare qualified
        · exact absurd bareKnown bareUnknown

/-- Storing under an unqualified key keeps the match. -/
theorem Matches.insert
    (lawful : primitives.Lawful)
    (holds : Matches primitives contents table secret plain world)
    (bare : logical.space = none)
    (grants : after.grants = world.grants)
    (written : contents after.store = Function.update (contents world.store)
      (table.physical primitives secret logical) (some stored))
    (opens : ∃ opened, table.openStored primitives none
        (table.physical primitives secret logical) stored secret =
          .ok (logical, opened) ∧
      primitives.asExpr opened = primitives.asExpr value) :
    Matches primitives contents table secret (plain.insert logical value)
      after where
  granted := by
    rw [Granted, grants]
    exact holds.granted
  bare key member := by
    rcases (AList.mem_insert plain).mp member with rfl | before
    · exact bare
    · exact holds.bare key before
  kept key found known := by
    by_cases same : key = logical
    · subst same
      rw [AList.lookup_insert] at known
      cases known
      obtain ⟨opened, here, shows⟩ := opens
      exact ⟨stored, opened, by rw [written, Function.update_self], here, shows⟩
    · rw [AList.lookup_insert_ne same] at known
      have differs : table.physical primitives secret key ≠
          table.physical primitives secret logical := by
        intro impossible
        have member : key ∈ plain := by
          rw [← AList.lookup_isSome, known]
          rfl
        exact same (eq_of_physical lawful (holds.bare key member) bare
          impossible)
      rw [written, Function.update_of_ne differs]
      exact holds.kept key found known
  only physical belongs present := by
    by_cases same : physical = table.physical primitives secret logical
    · exact ⟨logical, (AList.mem_insert plain).mpr (.inl rfl), same⟩
    · rw [written, Function.update_of_ne same] at present
      obtain ⟨key, member, named⟩ := holds.only physical belongs present
      exact ⟨key, (AList.mem_insert plain).mpr (.inr member), named⟩

theorem simulates_set
    (lawful : primitives.Lawful)
    (mapLike : backend.MapLike primitives table.backend contents)
    (holds : Matches primitives contents table secret plain world)
    (ready : table.Ready world)
    (fits : table.Fits primitives logical value) :
    Simulates primitives backend contents table secret plain world
        (.set logical value) ↔
      Careful plain (.set logical value) := by
  obtain ⟨stored, middle, sealedValue⟩ : ∃ stored middle, Yields
      (table.sealValue primitives logical
        (table.physical primitives secret logical) value secret) world
      (.ok stored) middle :=
    sealValue_yields lawful ready fits
  rcases sealValue_inv lawful sealedValue with ⟨_, impossible, _⟩ |
    ⟨_, same, sealedAs⟩
  · cases impossible
  cases same
  obtain ⟨store, written, contained⟩ := mapLike.set
    (table.physical primitives secret logical) stored middle.store
  have whole : Yields
      (table.call primitives backend (.set logical value)) world (.ok .done)
      { middle with store := store } :=
    (holds.granted.yields.bind (sealedValue.bind
      (onStore_yields written))).bind (.pure _ _)
  rw [simulates_iff whole]
  constructor
  · rintro ⟨_, matched⟩
    exact matched.bare logical ((AList.mem_insert plain).mpr (.inl rfl))
  · intro bare
    refine ⟨trivial, ?_⟩
    obtain ⟨opened, opens, shows⟩ := sealedAs.opens rfl
    rw [new_name bare] at opens
    rw [sealedAs.untouched.store] at contained
    exact holds.insert lawful bare sealedAs.untouched.grants contained
      ⟨opened, opens, shows⟩

/-- Deleting a key keeps the match. -/
theorem Matches.erase
    (lawful : primitives.Lawful)
    (holds : Matches primitives contents table secret plain world)
    (careful : Careful plain (.del logical))
    (grants : after.grants = world.grants)
    (deleted : contents after.store = Function.update (contents world.store)
      (table.physical primitives secret logical) none) :
    Matches primitives contents table secret (plain.erase logical) after := by
  have apart {key : Symbol} (member : key ∈ plain) (differs : key ≠ logical) :
      table.physical primitives secret key ≠
        table.physical primitives secret logical := by
    intro same
    rcases careful with bare | bareUnknown
    · exact differs
        (eq_of_physical lawful (holds.bare key member) bare same)
    · rw [← physical_injective lawful same, new_name (holds.bare key member)]
        at bareUnknown
      exact bareUnknown member
  refine ⟨?_, fun key member => ?_, fun key found known => ?_,
    fun physical belongs present => ?_⟩
  · rw [Granted, grants]
    exact holds.granted
  · exact holds.bare key (AList.mem_erase.mp member).2
  · by_cases same : key = logical
    · subst same
      rw [AList.lookup_erase] at known
      cases known
    · rw [AList.lookup_erase_ne same] at known
      have member : key ∈ plain := by
        rw [← AList.lookup_isSome, known]
        rfl
      rw [deleted, Function.update_of_ne (apart member same)]
      exact holds.kept key found known
  · by_cases same : physical = table.physical primitives secret logical
    · rw [deleted, same, Function.update_self] at present
      cases present
    · rw [deleted, Function.update_of_ne same] at present
      obtain ⟨key, member, named⟩ := holds.only physical belongs present
      refine ⟨key, AList.mem_erase.mpr ⟨?_, member⟩, named⟩
      rintro rfl
      exact same named

theorem simulates_del
    (lawful : primitives.Lawful)
    (mapLike : backend.MapLike primitives table.backend contents)
    (holds : Matches primitives contents table secret plain world) :
    Simulates primitives backend contents table secret plain world
        (.del logical) ↔
      Careful plain (.del logical) := by
  obtain ⟨prior, store, removed, deleted⟩ := mapLike.del
    (table.physical primitives secret logical) world.store
  have looked : Yields (table.get primitives backend logical) world _ world :=
    get_yields mapLike holds.granted
  have whole {value : Value}
      (found : Yields (table.get primitives backend logical) world (.ok value)
        world) :
      Yields (table.call primitives backend (.del logical)) world
        (.ok (.value value)) { world with store := store } :=
    (found.bind (holds.granted.yields.bind
      ((onStore_yields removed).bind (.pure value _)))).bind (.pure _ _)
  cases holds.probe lawful logical with
  | absent unknown bareUnknown empty =>
      obtain ⟨nil, _, made, _⟩ := lawful.nil
      simp only [empty, opened, made] at looked
      rw [simulates_iff (whole looked)]
      simp only [PlainTable.call, unknown, orNil, made, Except.map]
      exact ⟨fun _ => .inr bareUnknown,
        fun careful => ⟨rfl, holds.erase lawful careful rfl deleted⟩⟩
  | present value stored shows bare known here opens same =>
      simp only [here, opened, opens, Except.map] at looked
      rw [simulates_iff (whole looked)]
      simp only [PlainTable.call, known, orNil, Except.map]
      exact ⟨fun _ => .inl bare,
        fun careful => ⟨same, holds.erase lawful careful rfl deleted⟩⟩
  | mistaken stored qualified bareKnown unknown here refused =>
      simp only [here, opened, refused, Except.map] at looked
      have failed : Yields (table.call primitives backend (.del logical)) world
          (.error (failure .authentication)) world :=
        looked.bindError.bindError
      rw [simulates_iff failed]
      simp only [PlainTable.call, unknown]
      constructor
      · rintro ⟨agrees, _⟩
        exact absurd agrees (not_agree_nil lawful _)
      · rintro (bare | bareUnknown)
        · exact absurd bare qualified
        · exact absurd bareKnown bareUnknown

end Steps

section Listings

/-- One entry of an enumeration is read. -/
def readEntry (primitives : Primitives Value Expr)
    (backend : Backend Handle Value σ) (table : SealedTable Handle)
    (secret : SecretKey) (physical : Symbol) :
    SealedM σ Expr (Symbol × Value) := do
  let stored ← onStore (backend.get table.backend physical)
  MonadExcept.ofExcept
    (table.openStored primitives none physical stored secret)

/-- The enumerated names of the lane stand for the plain entries. -/
structure Listing (primitives : Primitives Value Expr)
    (backend : Backend Handle Value σ) (table : SealedTable Handle)
    (secret : SecretKey) (plain : PlainTable Value) (world : World σ Expr)
    (listed : List Symbol) (entries : List (Symbol × Value)) : Prop where
  lists : Yields (backend.keys table.backend) world.store (.ok listed)
    world.store
  read : List.Forall₂ (fun physical entry =>
      Yields (table.readEntry primitives backend secret physical) world
        (.ok entry) world)
    (listed.filter (table.belongsToLane primitives secret)) entries
  keys : (entries.map Prod.fst).Perm plain.keys
  values : ∀ entry ∈ entries, ∃ value,
    plain.lookup entry.1 = some value ∧
      primitives.asExpr entry.2 = primitives.asExpr value

theorem Matches.listing
    (lawful : primitives.Lawful)
    (mapLike : backend.MapLike primitives table.backend contents)
    (holds : Matches primitives contents table secret plain world) :
    ∃ listed entries, Listing primitives backend table secret plain world
      listed entries := by
  obtain ⟨listed, shown, nodup, complete⟩ := mapLike.keys world.store
  have each : ∀ physical ∈
      listed.filter (table.belongsToLane primitives secret),
      ∃ entry : Symbol × Value,
        physical = table.physical primitives secret entry.1 ∧
        entry.1 ∈ plain ∧
        (∃ value, plain.lookup entry.1 = some value ∧
          primitives.asExpr entry.2 = primitives.asExpr value) ∧
        Yields (table.readEntry primitives backend secret physical) world
          (.ok entry) world := by
    intro physical member
    obtain ⟨isListed, belongs⟩ := List.mem_filter.mp member
    obtain ⟨key, isKey, rfl⟩ := holds.only physical belongs
      ((complete physical).mp isListed)
    obtain ⟨value, known⟩ := Option.isSome_iff_exists.mp
      (AList.lookup_isSome.mpr isKey)
    obtain ⟨stored, opened, here, opens, same⟩ := holds.kept key value known
    have read := onStore_still (mapLike.get
      (table.physical primitives secret key) world.store)
    rw [here] at read
    exact ⟨(key, opened), rfl, isKey, ⟨value, known, same⟩,
      read.bind (.of_ok opens world)⟩
  obtain ⟨entries, related⟩ := exists_forall₂ each
  have names : (entries.map Prod.fst).map (table.physical primitives secret) =
      listed.filter (table.belongsToLane primitives secret) := by
    rw [List.map_map]
    exact map_of_forall₂ related fun _ _ holds => holds.1.symm
  have distinct : (entries.map Prod.fst).Nodup := by
    apply List.Nodup.of_map (table.physical primitives secret)
    rw [names]
    exact nodup.filter _
  have members : ∀ entry ∈ entries, entry.1 ∈ plain ∧ ∃ value,
      plain.lookup entry.1 = some value ∧
        primitives.asExpr entry.2 = primitives.asExpr value := by
    intro entry member
    obtain ⟨physical, _, _, isKey, same, _⟩ := exists_of_forall₂ related member
    exact ⟨isKey, same⟩
  refine ⟨listed, entries, shown, related.imp fun _ _ holds => holds.2.2.2, ?_,
    fun entry member => (members entry member).2⟩
  rw [List.perm_ext_iff_of_nodup distinct plain.keys_nodup]
  intro key
  rw [← AList.mem_keys]
  constructor
  · intro member
    obtain ⟨entry, isEntry, rfl⟩ := List.mem_map.mp member
    exact (members entry isEntry).1
  · intro isKey
    obtain ⟨value, known⟩ := Option.isSome_iff_exists.mp
      (AList.lookup_isSome.mpr isKey)
    obtain ⟨stored, _, here, _⟩ := holds.kept key value known
    have isListed : table.physical primitives secret key ∈
        listed.filter (table.belongsToLane primitives secret) := by
      rw [List.mem_filter, complete, here]
      exact ⟨rfl, physical_belongs⟩
    rw [← names] at isListed
    obtain ⟨other, isOther, same⟩ := List.mem_map.mp isListed
    obtain ⟨entry, isEntry, rfl⟩ := List.mem_map.mp isOther
    have bare := holds.bare _ (members entry isEntry).1
    rw [← eq_of_physical lawful bare (holds.bare key isKey) same]
    exact isOther

/-- Reading a key reads the entry. -/
theorem readKey_yields
    {outcome : Except EvalError (Symbol × Value)}
    (read : Yields (table.readEntry primitives backend secret physical) world
      outcome after) :
    Yields (do
        let stored ← onStore (backend.get table.backend physical)
        let (logical, _) ← MonadExcept.ofExcept
          (table.openStored primitives none physical stored secret)
        return logical : SealedM σ Expr Symbol) world (outcome.map Prod.fst)
      after := by
  rcases read.bind_inv with ⟨stored, middle, got, opens⟩ | ⟨error, failed, rfl⟩
  · obtain ⟨rfl, rfl⟩ := opens.ofExcept_inv
    apply got.bind
    cases table.openStored primitives none physical stored secret with
    | error error => exact (Yields.ofExcept (.error error) _).bindError
    | ok entry => exact (Yields.ofExcept (.ok entry) _).bind (.pure _ _)
  · exact failed.bindError

variable {listed : List Symbol} {entries : List (Symbol × Value)}

theorem Listing.entries_yields
    (listing : Listing primitives backend table secret plain world listed
      entries)
    (granted : table.Granted secret world) :
    Yields (table.entries primitives backend) world (.ok entries) world :=
  granted.yields.bind
    ((onStore_still listing.lists).bind (Yields.mapM listing.read))

theorem Listing.keys_yields
    (listing : Listing primitives backend table secret plain world listed
      entries)
    (granted : table.Granted secret world) :
    Yields (table.keys primitives backend) world
      (.ok (entries.map Prod.fst)) world := by
  apply granted.yields.bind
  apply (onStore_still listing.lists).bind
  apply Yields.mapM
  rw [List.forall₂_map_right_iff]
  exact listing.read.imp fun _ _ read => readKey_yields read

/-- What is read has the meaning of the plain entries, in some order. -/
theorem Listing.shown
    (listing : Listing primitives backend table secret plain world listed
      entries) :
    (shown primitives entries).Perm (shown primitives
      (plain.entries.map fun entry => (entry.1, entry.2))) := by
  -- Both are the keys, each with the expression of its plain value.
  let meaning (key : Symbol) : Symbol × Except EvalError Expr :=
    (key, match plain.lookup key with
      | some value => primitives.asExpr value
      | none => .error ⟨""⟩)
  have first : Sealed.shown primitives entries =
      (entries.map Prod.fst).map meaning := by
    rw [Sealed.shown, List.map_map]
    apply List.map_congr_left
    intro entry member
    obtain ⟨value, known, same⟩ := listing.values entry member
    simp only [Function.comp, meaning, known, same]
  have second : Sealed.shown primitives
      (plain.entries.map fun entry => (entry.1, entry.2)) =
        plain.keys.map meaning := by
    rw [Sealed.shown, List.map_map, AList.keys, List.keys, List.map_map]
    apply List.map_congr_left
    intro entry member
    have known : plain.lookup entry.1 = some entry.2 :=
      AList.mem_lookup_iff.mpr member
    simp only [Function.comp, meaning, known]
  rw [first, second]
  exact listing.keys.map meaning

theorem simulates_listing
    (lawful : primitives.Lawful)
    (mapLike : backend.MapLike primitives table.backend contents)
    (holds : Matches primitives contents table secret plain world) :
    Simulates primitives backend contents table secret plain world .keys ∧
      Simulates primitives backend contents table secret plain world .entries ∧
      Simulates primitives backend contents table secret plain world .len := by
  obtain ⟨listed, entries, listing⟩ := holds.listing lawful mapLike
  have keys := listing.keys_yields holds.granted
  refine ⟨⟨_, _, yields_map keys, listing.keys, holds⟩,
    ⟨_, _, yields_map (listing.entries_yields holds.granted), listing.shown,
      holds⟩, ⟨_, _, yields_map (yields_map keys), ?_, holds⟩⟩
  exact listing.keys.length_eq

/-- Deleting listed names one after the other. -/
theorem deleteAll_yields
    (mapLike : backend.MapLike primitives table.backend contents)
    (names : List Symbol) (world : World σ Expr) :
    ∃ store, Yields (names.forM fun physical => do
          let _ ← onStore (backend.del table.backend physical)) world
        (.ok PUnit.unit) { world with store := store } ∧
      ∀ physical, contents store physical =
        if physical ∈ names then none else contents world.store physical := by
  induction names generalizing world with
  | nil => exact ⟨world.store, .pure _ world, by simp⟩
  | cons name rest inductionHypothesis =>
      obtain ⟨_, middle, removed, deleted⟩ := mapLike.del name world.store
      obtain ⟨store, others, cleared⟩ :=
        inductionHypothesis { world with store := middle }
      refine ⟨store, ?_, fun physical => ?_⟩
      · have first : Yields (do
            let _ ← onStore (backend.del table.backend name)) world (.ok ())
            { world with store := middle } :=
          (onStore_yields removed).bind (.pure () _)
        change Yields (_ >>= fun _ => rest.forM _) _ _ _
        exact first.bind others
      · rw [cleared]
        by_cases later : physical ∈ rest
        · simp [later]
        · by_cases same : physical = name
          · simp [same, deleted]
          · simp [later, same, deleted]

theorem simulates_clear
    (mapLike : backend.MapLike primitives table.backend contents)
    (holds : Matches primitives contents table secret plain world) :
    Simulates primitives backend contents table secret plain world .clear := by
  obtain ⟨listed, shown, _, complete⟩ := mapLike.keys world.store
  obtain ⟨store, removed, cleared⟩ := deleteAll_yields mapLike
    (listed.filter (table.belongsToLane primitives secret)) world
  have whole : Yields (table.clear primitives backend) world (.ok ())
      { world with store := store } :=
    holds.granted.yields.bind ((onStore_still shown).bind removed)
  refine ⟨_, _, whole.bind (.pure _ _), trivial, holds.granted, ?_, ?_, ?_⟩
  · intro key member
    exact absurd member (AList.notMem_empty key)
  · intro key value known
    simp [PlainTable.call] at known
  · intro physical belongs present
    have gone : contents store physical = none := by
      rw [cleared]
      split
      · rfl
      · next kept =>
          by_contra stored
          apply kept
          rw [List.mem_filter, complete]
          exact ⟨Option.isSome_iff_ne_none.mpr stored, belongs⟩
    rw [gone] at present
    cases present

end Listings

section Sessions

/-- What a call needs from its environment. -/
def Served (primitives : Primitives Value Expr) (table : SealedTable Handle)
    (world : World σ Expr) : TableCall Value → Prop
  | .set key value => table.Ready world ∧ table.Fits primitives key value
  | _ => True

/-- A call simulates the plain one just if it is careful. -/
theorem simulates_iff_careful
    (lawful : primitives.Lawful)
    (mapLike : backend.MapLike primitives table.backend contents)
    (holds : Matches primitives contents table secret plain world)
    {call : TableCall Value}
    (served : Served primitives table world call) :
    Simulates primitives backend contents table secret plain world call ↔
      Careful plain call := by
  have listings := simulates_listing lawful mapLike holds
  cases call with
  | get key => exact simulates_get lawful mapLike holds
  | set key value => exact simulates_set lawful mapLike holds served.1 served.2
  | has key => exact simulates_has lawful mapLike holds
  | del key => exact simulates_del lawful mapLike holds
  | keys => exact ⟨fun _ => trivial, fun _ => listings.1⟩
  | entries => exact ⟨fun _ => trivial, fun _ => listings.2.1⟩
  | len => exact ⟨fun _ => trivial, fun _ => listings.2.2⟩
  | clear =>
      exact ⟨fun _ => trivial, fun _ => simulates_clear mapLike holds⟩

variable (primitives backend contents table secret) in
/-- Careful calls from a backend without names of the lane. -/
inductive Session : PlainTable Value → World σ Expr → Prop where
  | start {world : World σ Expr} :
      table.Granted secret world →
      (∀ physical, table.belongsToLane primitives secret physical →
        contents world.store physical = none) →
      Session ∅ world
  | call {plain : PlainTable Value} {world after : World σ Expr}
      {call : TableCall Value}
      {outcome : Except EvalError (TableReply Value)} :
      Session plain world →
      Served primitives table world call →
      Careful plain call →
      Yields (table.call primitives backend call) world outcome after →
      Session (plain.call primitives call).2 after

theorem Session.holds
    (lawful : primitives.Lawful)
    (mapLike : backend.MapLike primitives table.backend contents)
    (session : Session primitives backend contents table secret plain world) :
    Matches primitives contents table secret plain world := by
  induction session with
  | start granted empty =>
      refine ⟨granted, fun key member => ?_, fun key value known => ?_,
        fun physical belongs present => ?_⟩
      · exact absurd member (AList.notMem_empty key)
      · simp at known
      · rw [empty physical belongs] at present
        cases present
  | call earlier served careful yields inductionHypothesis =>
      have simulates := (simulates_iff_careful lawful mapLike
        inductionHypothesis served).mpr careful
      exact ((simulates_iff yields).mp simulates).2

/-- A value is read back under the key of its set just if that is unqualified. -/
theorem reads_back
    (lawful : primitives.Lawful)
    (mapLike : backend.MapLike primitives table.backend contents)
    (granted : table.Granted secret world)
    (served : Served primitives table world (.set logical value)) :
    ∃ middle, Yields (table.set primitives backend logical value) world (.ok ())
        middle ∧
      ((∃ found, Yields (table.get primitives backend logical) middle
          (.ok found) middle ∧
        primitives.asExpr found = primitives.asExpr value) ↔
      logical.space = none) := by
  obtain ⟨stored, middle, sealedValue⟩ : ∃ stored middle, Yields
      (table.sealValue primitives logical
        (table.physical primitives secret logical) value secret) world
      (.ok stored) middle :=
    sealValue_yields lawful served.1 served.2
  rcases sealValue_inv lawful sealedValue with ⟨_, impossible, _⟩ |
    ⟨_, same, sealedAs⟩
  · cases impossible
  cases same
  obtain ⟨store, written, contained⟩ := mapLike.set
    (table.physical primitives secret logical) stored middle.store
  obtain ⟨found, opens, shows⟩ := sealedAs.opens rfl
  have still : table.Granted secret { middle with store := store } := by
    rw [Granted, sealedAs.untouched.grants]
    exact granted
  have reads : Yields (table.get primitives backend logical)
      { middle with store := store } _ _ :=
    get_yields mapLike still
  simp only [contained, Function.update_self, opened, openStored_some opens]
    at reads
  refine ⟨_, granted.yields.bind (sealedValue.bind (onStore_yields written)),
    ?_⟩
  by_cases bare : logical.space = none
  · rw [if_pos (new_name bare).symm] at reads
    exact ⟨fun _ => bare, fun _ => ⟨found, reads, shows⟩⟩
  · have differs : logical ≠ Symbol.new logical.name := by
      intro impossible
      rw [impossible] at bare
      exact bare rfl
    rw [if_neg differs] at reads
    constructor
    · rintro ⟨other, yields, _⟩
      cases (reads.unique yields).1
    · exact fun impossible => absurd impossible bare

/-- A sealed table keeps the contract of a plain map. -/
structure Contract (primitives : Primitives Value Expr)
    (backend : Backend Handle Value σ)
    (contents : σ → Symbol → Option Value) (table : SealedTable Handle) :
    Prop where
  /-- In a careful session, every careful call gives the plain result. -/
  agrees : ∀ secret plain world call outcome after,
    Session primitives backend contents table secret plain world →
    Served primitives table world call →
    Careful plain call →
    Yields (table.call primitives backend call) world outcome after →
    Agree primitives outcome (plain.call primitives call).1
  /-- A call simulates the plain one just if it is careful. -/
  precise : ∀ secret plain world call,
    Session primitives backend contents table secret plain world →
    Served primitives table world call →
    (Simulates primitives backend contents table secret plain world call ↔
      Careful plain call)
  /-- What is set is read back just under unqualified keys. -/
  readsBack : ∀ secret plain world key value,
    Session primitives backend contents table secret plain world →
    Served primitives table world (.set key value) →
    ∃ middle, Yields (table.set primitives backend key value) world (.ok ())
        middle ∧
      ((∃ found, Yields (table.get primitives backend key) middle (.ok found)
          middle ∧ primitives.asExpr found = primitives.asExpr value) ↔
        key.space = none)

/-- Exactly on unqualified keys, a sealed table behaves as a plain map. -/
theorem sealed_table_keeps_contract
    (lawful : primitives.Lawful)
    {handle : Handle} {config : SealedConfig} {usedNonces : Nat}
    (mapLike : backend.MapLike primitives handle contents)
    (accepted : SealedTable.new backend handle config usedNonces =
      .ok table) :
    Contract primitives backend contents table := by
  have same : table.backend = handle := by
    rw [SealedTable.new] at accepted
    split at accepted
    · cases accepted
    · split at accepted
      · cases accepted
      · cases accepted
        rfl
  subst same
  refine ⟨fun secret plain world call outcome after session served careful
    yields => ?_, fun secret plain world call session served => ?_,
    fun secret plain world key value session served => ?_⟩
  · have simulates := (simulates_iff_careful lawful mapLike
      (session.holds lawful mapLike) served).mpr careful
    exact ((simulates_iff yields).mp simulates).1
  · exact simulates_iff_careful lawful mapLike (session.holds lawful mapLike)
      served
  · exact reads_back lawful mapLike (session.holds lawful mapLike).granted
      served

end Sessions

end SealedTable

section Examples

/-- A backend of one map. -/
def mapBackend (primitives : Primitives Value Expr) :
    Backend Unit Value (PlainTable Value) where
  isTable _ := true
  get _ key := do
    let store ← get
    MonadExcept.ofExcept (orNil primitives (store.lookup key))
  set _ key value := modify fun store => store.insert key value
  has _ key := do
    let store ← get
    return (store.lookup key).isSome
  del _ key := do
    let store ← get
    let value ← MonadExcept.ofExcept (orNil primitives (store.lookup key))
    set (store.erase key)
    return value
  keys _ := do
    let store ← get
    return store.keys
  isDirectory _ := false
  mkdir _ _ := throw ⟨"no directory"⟩
  opendir _ _ := throw ⟨"no directory"⟩
  rmdir _ _ := throw ⟨"no directory"⟩
  isDir _ _ := throw ⟨"no directory"⟩

theorem mapBackend_mapLike
    {primitives : Primitives Value Expr}
    (lawful : primitives.Lawful) :
    (mapBackend primitives).MapLike primitives () fun store key =>
      store.lookup key where
  get key store := (Yields.get store).bind (.ofExcept _ store)
  has key store := (Yields.get store).bind (.pure _ store)
  set key value store := by
    refine ⟨store.insert key value, Yields.modify _ store, ?_⟩
    funext query
    by_cases same : query = key
    · subst same
      simp
    · simp [same]
  del key store := by
    obtain ⟨nil, _, made, _⟩ := lawful.nil
    have found : ∃ prior, orNil primitives (store.lookup key) = .ok prior := by
      cases store.lookup key with
      | none => exact ⟨nil, made⟩
      | some value => exact ⟨value, rfl⟩
    obtain ⟨prior, looked⟩ := found
    refine ⟨prior, store.erase key, (Yields.get store).bind
      ((Yields.of_ok looked store).bind
        ((Yields.set _ store).bind (.pure prior _))), ?_⟩
    funext query
    by_cases same : query = key
    · subst same
      simp
    · simp [same]
  keys store := by
    refine ⟨store.keys, (Yields.get store).bind (.pure _ store),
      store.keys_nodup, fun key => ?_⟩
    rw [AList.lookup_isSome, AList.mem_keys]

/-- A tag that is always the same. -/
def plainTagging : Reference.Tagging :=
  fun _ _ _ => ⟨List.replicate tagLen 0, List.length_replicate⟩

/-- A sealed table over one map. -/
def sampleTable : SealedTable Unit :=
  ⟨(), Reference.config, 0⟩

theorem reference_keeps_contract :
    SealedTable.new (mapBackend (Reference.primitives plainTagging)) ()
        Reference.config 0 = .ok sampleTable ∧
      SealedTable.Contract (Reference.primitives plainTagging)
        (mapBackend (Reference.primitives plainTagging))
        (fun store key => store.lookup key) sampleTable :=
  have accepted : SealedTable.new
      (mapBackend (Reference.primitives plainTagging)) () Reference.config 0 =
        .ok sampleTable :=
    rfl
  have lawful := Reference.primitives_lawful plainTagging
  ⟨accepted, SealedTable.sealed_table_keeps_contract lawful
    (mapBackend_mapLike lawful) accepted⟩

/-- A value that is set under a qualified key is not read back under it. -/
theorem qualified_key_not_read_back :
    ∃ middle, Yields
        (sampleTable.set (Reference.primitives plainTagging)
          (mapBackend (Reference.primitives plainTagging))
          (.qualified "space" "name") (.text "value"))
        (Reference.world ∅) (.ok ()) middle ∧
      ¬ ∃ found, Yields
          (sampleTable.get (Reference.primitives plainTagging)
            (mapBackend (Reference.primitives plainTagging))
            (.qualified "space" "name")) middle (.ok found) middle ∧
        found = .text "value" := by
  have lawful := Reference.primitives_lawful plainTagging
  have granted : sampleTable.Granted Reference.secret
      (Reference.world (∅ : PlainTable Reference.Sample)) := ⟨rfl, rfl⟩
  have served : SealedTable.Served (Reference.primitives plainTagging)
      sampleTable (Reference.world (∅ : PlainTable Reference.Sample))
      (.set (.qualified "space" "name") (.text "value")) := by
    refine ⟨⟨_, rfl, List.not_mem_nil, by decide⟩, .text "value", "value", rfl,
      rfl, ?_, ?_, ?_⟩ <;> decide
  obtain ⟨middle, written, reads⟩ := SealedTable.reads_back lawful
    (mapBackend_mapLike lawful) granted served
  refine ⟨middle, written, ?_⟩
  rintro ⟨found, yields, rfl⟩
  cases reads.mp ⟨_, yields, rfl⟩

end Examples

end SimStorage.Sealed
