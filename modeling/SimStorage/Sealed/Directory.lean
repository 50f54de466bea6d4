import SimStorage.Sealed.DbDir

namespace SimStorage.Sealed

/-!
# The sealed table as a directory

Values and child directories of a sealed directory share the physical names of
one lane.  The tree of logical names says what the calls on a directory and on
its children have left; the backend holds its image under the blinded names.
-/

open Codec Interaction

variable {Handle Value Expr σ : Type}

section Calls

/-- The changing operations of a directory, with unqualified names. -/
inductive DirCall (Value : Type) where
  | set (name : String) (value : Value)
  | del (name : String)
  | clear
  | mkdir (name : String)
  | opendir (name : String)
  | rmdir (name : String)

/-- The path of the directory that a call at a path opens. -/
def DirCall.target (path : List String) : DirCall Value → List String
  | .mkdir name | .opendir name => path ++ [name]
  | _ => path

/-- A call on a sealed directory, and the child that it returns. -/
def SealedTable.dirCall (primitives : Primitives Value Expr)
    (backend : Backend Handle Value σ) (table : SealedTable Handle) :
    DirCall Value → SealedM σ Expr (Option (SealedTable Handle))
  | .set name value => do
      table.set primitives backend (.new name) value
      return none
  | .del name => do
      let _ ← table.del primitives backend (.new name)
      return none
  | .clear => do
      table.clear primitives backend
      return none
  | .mkdir name => do
      let child ← table.mkdir primitives backend (.new name)
      return some child
  | .opendir name => table.opendir primitives backend (.new name)
  | .rmdir name => do
      let _ ← table.rmdir primitives backend (.new name)
      return none

/-- The names of the values, and the directories, by logical paths. -/
structure Tree where
  values : Set (List String × String)
  dirs : Set (List String)

namespace Tree

/-- A tree without values and directories. -/
def empty : Tree := ⟨∅, ∅⟩

/-- What a call at a path changes when it succeeds. -/
def after (tree : Tree) (path : List String) : DirCall Value → Tree
  | .set name _ => { tree with values := insert (path, name) tree.values }
  | .del name => { tree with values := tree.values \ {(path, name)} }
  | .clear => { tree with values := { slot ∈ tree.values | slot.1 ≠ path } }
  | .mkdir name => { tree with dirs := insert (path ++ [name]) tree.dirs }
  | .opendir _ => tree
  | .rmdir name => {
      values := { slot ∈ tree.values | ¬ path ++ [name] <+: slot.1 }
      dirs := { dir ∈ tree.dirs | ¬ path ++ [name] <+: dir } }

/-- The name of a live value or of a live child directory. -/
def Live (tree : Tree) (path : List String) (name : String) : Prop :=
  (path, name) ∈ tree.values ∨ path ++ [name] ∈ tree.dirs

/-- No directory below the path, but below the name of a value. -/
def Flat (tree : Tree) (path : List String) : Prop :=
  ∀ name rest, path ++ name :: rest ∈ tree.dirs → (path, name) ∈ tree.values

end Tree

end Calls

section Places

/-- Where a sealed directory starts: the path, the policy and the key. -/
structure Root where
  home : List String
  config : SealedConfig
  secret : SecretKey

/-- The lane below a lane, as `child` extends it. -/
def childLane (lane : Bytes) (name : String) : Bytes :=
  lane ++ putBytes (utf8 name)

/-- The physical names along a logical path. -/
def physicalPath (primitives : Primitives Value Expr) (key : KeyBytes) :
    Bytes → List String → List String
  | _, [] => []
  | lane, name :: rest =>
      physicalName primitives key lane name ::
        physicalPath primitives key (childLane lane name) rest

namespace Root

variable (primitives : Primitives Value Expr) (root : Root)

/-- The lane of a logical path. -/
def lane (path : List String) : Bytes :=
  path.foldl childLane root.config.lane

/-- The physical path of a logical one. -/
def place (path : List String) : List String :=
  root.home ++
    physicalPath primitives root.secret.blinding root.config.lane path

/-- The physical name of a name at a logical path. -/
def physical (path : List String) (name : String) : Symbol :=
  .new (physicalName primitives root.secret.blinding (root.lane path) name)

/-- The physical slot of a name at a logical path. -/
def slot (path : List String) (name : String) : List String × Symbol :=
  (root.place primitives path, root.physical primitives path name)

/-- The symbol carries the prefix of the lane of a logical path. -/
def Belongs (path : List String) (symbol : Symbol) : Prop :=
  (blindLane primitives root.secret.blinding (root.lane path)).toList ++ ['-']
    <+: symbol.name.toList

/-- A slot that no view of the directory enumerates. -/
def ForeignSlot (slot : List String × Symbol) : Prop :=
  ∀ path, slot.1 = root.place primitives path →
    ¬ root.Belongs primitives path slot.2

/-- A directory that no view of the directory enumerates. -/
def ForeignDir (dir : List String) : Prop :=
  ∀ path name rest, dir = root.place primitives path ++ name :: rest →
    ¬ root.Belongs primitives path (.new name)

/-- A table for a logical path: its handle, and the policy in its lane. -/
structure View (handlePath : Handle → List String) (path : List String)
    (table : SealedTable Handle) : Prop where
  handle : handlePath table.backend = root.place primitives path
  config : ∃ fits, table.config =
    { root.config with lane := root.lane path, lane_fits := fits }

end Root

variable {primitives : Primitives Value Expr} {root : Root}
variable {path other : List String} {name query : String}

theorem physicalPath_append
    (key : KeyBytes) (lane : Bytes) (path rest : List String) :
    physicalPath primitives key lane (path ++ rest) =
      physicalPath primitives key lane path ++
        physicalPath primitives key (path.foldl childLane lane) rest := by
  induction path generalizing lane with
  | nil => rfl
  | cons head tail inductionHypothesis =>
      simp only [List.cons_append, physicalPath, inductionHypothesis,
        List.foldl_cons]

/-- Blinding names keeps what is below what. -/
theorem prefix_of_physicalPath
    (lawful : primitives.Lawful)
    {key : KeyBytes} {lane : Bytes}
    (below : physicalPath primitives key lane path <+:
      physicalPath primitives key lane other) :
    path <+: other := by
  induction path generalizing lane other with
  | nil => exact List.nil_prefix
  | cons head tail inductionHypothesis =>
      cases other with
      | nil => simp [physicalPath] at below
      | cons first rest =>
          obtain ⟨same, later⟩ := List.cons_prefix_cons.mp below
          obtain ⟨_, _, rfl⟩ := physicalName_injective lawful.hmac same
          exact List.cons_prefix_cons.mpr ⟨rfl, inductionHypothesis later⟩

namespace Root

theorem lane_append :
    root.lane (path ++ [name]) = childLane (root.lane path) name := by
  simp [lane]

theorem place_append
    (rest : List String) :
    root.place primitives (path ++ rest) = root.place primitives path ++
      physicalPath primitives root.secret.blinding (root.lane path) rest := by
  rw [place, physicalPath_append, ← List.append_assoc]
  rfl

theorem place_child :
    root.place primitives (path ++ [name]) =
      root.place primitives path ++ [(root.physical primitives path name).name] :=
  place_append [name]

theorem prefix_of_place
    (lawful : primitives.Lawful)
    (below : root.place primitives path <+: root.place primitives other) :
    path <+: other :=
  prefix_of_physicalPath lawful ((List.prefix_append_right_inj _).mp below)

theorem place_isPrefix
    (lawful : primitives.Lawful) :
    root.place primitives path <+: root.place primitives other ↔
      path <+: other := by
  refine ⟨prefix_of_place lawful, ?_⟩
  rintro ⟨rest, rfl⟩
  rw [place_append]
  exact List.prefix_append _ _

theorem place_injective
    (lawful : primitives.Lawful)
    (same : root.place primitives path = root.place primitives other) :
    path = other := by
  have forth := prefix_of_place lawful (same ▸ List.prefix_rfl :
    root.place primitives path <+: root.place primitives other)
  have back := prefix_of_place lawful (same ▸ List.prefix_rfl :
    root.place primitives other <+: root.place primitives path)
  exact forth.eq_of_length (Nat.le_antisymm forth.length_le back.length_le)

theorem physical_injective
    (lawful : primitives.Lawful)
    (same : root.physical primitives path name =
      root.physical primitives path query) :
    name = query :=
  (physicalName_injective lawful.hmac (congrArg Symbol.name same)).2.2

theorem slot_injective
    (lawful : primitives.Lawful)
    (same : root.slot primitives path name =
      root.slot primitives other query) :
    path = other ∧ name = query := by
  have places := place_injective lawful (congrArg Prod.fst same)
  subst places
  exact ⟨rfl, physical_injective lawful (congrArg Prod.snd same)⟩

theorem physical_belongs :
    root.Belongs primitives path (root.physical primitives path name) := by
  simp [Belongs, physical, physicalName, Symbol.new]

/-- What a directory of the tree shows at a path of the tree. -/
theorem name_of_place
    (lawful : primitives.Lawful)
    {segment : String} {rest : List String}
    (same : root.place primitives path ++ segment :: rest =
      root.place primitives other) :
    ∃ name later, other = path ++ name :: later ∧
      Symbol.new segment = root.physical primitives path name := by
  obtain ⟨tail, rfl⟩ := prefix_of_place lawful ⟨_, same⟩
  rw [place_append, List.append_cancel_left_eq] at same
  cases tail with
  | nil => cases same
  | cons name later =>
      cases same
      exact ⟨name, later, rfl, rfl⟩

end Root

end Places

section States

variable {backend : Backend Handle Value σ} {legal : String → Prop}
variable {handlePath : Handle → List String}
variable {contents : σ → List String × Symbol → Option Value}
variable {dirs : σ → Set (List String)}
variable {root : Root} {tree : Tree} {world after : World σ Expr}
variable {path : List String} {name : String} {table : SealedTable Handle}

namespace Root

/-- The backend holds the image of the tree, and what no view enumerates. -/
structure Holds (primitives : Primitives Value Expr)
    (handlePath : Handle → List String)
    (contents : σ → List String × Symbol → Option Value)
    (dirs : σ → Set (List String))
    (root : Root) (tree : Tree) (world : World σ Expr) : Prop where
  granted : world.grants root.config.keys root.config.grant =
    some root.secret ∧ root.secret.id = root.config.keyId
  kept : ∀ path name, (path, name) ∈ tree.values → ∃ stored,
    contents world.store (root.slot primitives path name) = some stored ∧
      ∀ table, root.View primitives handlePath path table → ∃ opened,
        table.openStored primitives none (root.physical primitives path name)
          stored root.secret = .ok (.new name, opened)
  only : ∀ slot, (contents world.store slot).isSome →
    (∃ path name, (path, name) ∈ tree.values ∧
      slot = root.slot primitives path name) ∨
    root.ForeignSlot primitives slot
  made : ∀ path ∈ tree.dirs, root.place primitives path ∈ dirs world.store
  onlyDirs : ∀ dir ∈ dirs world.store,
    (∃ path ∈ tree.dirs, dir = root.place primitives path) ∨
    root.ForeignDir primitives dir
  apart : ∀ path name, (path, name) ∈ tree.values → path ++ [name] ∉ tree.dirs

end Root

variable {primitives : Primitives Value Expr}

namespace Root.View

variable (view : root.View primitives handlePath path table)

include view

theorem lane_eq :
    table.config.lane = root.lane path := by
  obtain ⟨_, config⟩ := view.config
  rw [config]

theorem physical_eq :
    table.physical primitives root.secret (.new name) =
      root.physical primitives path name := by
  rw [SealedTable.physical, lane_eq view]
  rfl

theorem belongs_eq
    {symbol : Symbol} :
    table.belongsToLane primitives root.secret symbol = true ↔
      root.Belongs primitives path symbol := by
  rw [SealedTable.belongsToLane, lane_eq view, List.isPrefixOf_iff_prefix]
  rfl

theorem openStored_eq
    {sibling : SealedTable Handle} {expected : Option Symbol}
    {physical : Symbol} {stored : Value}
    (also : root.View primitives handlePath path sibling) :
    sibling.openStored primitives expected physical stored root.secret =
      table.openStored primitives expected physical stored root.secret := by
  obtain ⟨_, first⟩ := view.config
  obtain ⟨_, second⟩ := also.config
  have same : sibling.config = table.config := second.trans first.symm
  cases table
  cases sibling
  cases same
  rfl

theorem child
    {handle : Handle} {child : SealedTable Handle}
    (below : handlePath handle = root.place primitives (path ++ [name]))
    (opens : table.child handle (.new name) = .ok child) :
    root.View primitives handlePath (path ++ [name]) child := by
  obtain ⟨_, config⟩ := view.config
  rw [SealedTable.child] at opens
  split at opens
  next fits =>
    cases opens
    refine ⟨below, ?_⟩
    simp only [config] at fits ⊢
    exact ⟨by rw [lane_append]; exact fits, by simp [lane_append, childLane]; rfl⟩
  · cases opens

end Root.View

namespace Root.Holds

section Changes

variable (holds : root.Holds primitives handlePath contents dirs tree world)

include holds

theorem untouched
    (same : world.Untouched after) :
    root.Holds primitives handlePath contents dirs tree after := by
  obtain ⟨granted, kept, only, made, onlyDirs, apart⟩ := holds
  refine ⟨?_, ?_, ?_, ?_, ?_, apart⟩ <;> simp only [same.store, same.grants]
  · exact granted
  · exact kept
  · exact only
  · exact made
  · exact onlyDirs

/-- A name without a value has nothing in its slot. -/
theorem empty_slot
    (lawful : primitives.Lawful)
    (absent : (path, name) ∉ tree.values) :
    contents world.store (root.slot primitives path name) = none := by
  by_contra stored
  rcases holds.only _ (Option.isSome_iff_ne_none.mpr stored) with
    ⟨_, _, member, same⟩ | isForeign
  · obtain ⟨rfl, rfl⟩ := slot_injective lawful same
    exact absent member
  · exact isForeign path rfl physical_belongs

theorem mem_dirs
    (lawful : primitives.Lawful) :
    root.place primitives (path ++ [name]) ∈ dirs world.store ↔
      path ++ [name] ∈ tree.dirs := by
  refine ⟨fun present => ?_, holds.made _⟩
  rcases holds.onlyDirs _ present with ⟨other, member, same⟩ | isForeign
  · rw [place_injective lawful same]
    exact member
  · exact absurd physical_belongs (isForeign path _ [] place_child)

/-- A value is stored where no directory is. -/
theorem insert_value
    (lawful : primitives.Lawful)
    {stored : Value} {store : σ}
    (written : contents store = Function.update (contents world.store)
      (root.slot primitives path name) (some stored))
    (same : dirs store = dirs world.store)
    (free : path ++ [name] ∉ tree.dirs)
    (opens : ∀ table, root.View primitives handlePath path table → ∃ opened,
      table.openStored primitives none (root.physical primitives path name)
        stored root.secret = .ok (.new name, opened)) :
    root.Holds primitives handlePath contents dirs
      { tree with values := insert (path, name) tree.values } { world with
        store := store } := by
  refine ⟨holds.granted, fun other query member => ?_,
    fun slot present => ?_, same ▸ holds.made, same ▸ holds.onlyDirs,
    fun other query member => ?_⟩
  · by_cases here : (other, query) = (path, name)
    · cases here
      exact ⟨stored, by rw [written, Function.update_self], opens⟩
    · have apart : root.slot primitives other query ≠
          root.slot primitives path name := by
        intro impossible
        obtain ⟨rfl, rfl⟩ := slot_injective lawful impossible
        exact here rfl
      rw [written, Function.update_of_ne apart]
      exact holds.kept other query (member.resolve_left here)
  · by_cases here : slot = root.slot primitives path name
    · exact .inl ⟨path, name, Set.mem_insert _ _, here⟩
    · rw [written, Function.update_of_ne here] at present
      rcases holds.only slot present with ⟨_, _, member, same⟩ | isForeign
      · exact .inl ⟨_, _, Set.mem_insert_of_mem _ member, same⟩
      · exact .inr isForeign
  · rcases member with here | member
    · cases here
      exact free
    · exact holds.apart other query member

/-- Values and directories are taken away, from the tree and from the backend. -/
theorem shrink
    (rest : Tree) {store : σ}
    (values : rest.values ⊆ tree.values)
    (fewer : rest.dirs ⊆ tree.dirs)
    (same : ∀ path name, (path, name) ∈ rest.values →
      contents store (root.slot primitives path name) =
        contents world.store (root.slot primitives path name))
    (only : ∀ slot, (contents store slot).isSome →
      (contents world.store slot).isSome ∧ ∀ path name,
        (path, name) ∈ tree.values → slot = root.slot primitives path name →
          (path, name) ∈ rest.values)
    (made : ∀ path ∈ rest.dirs, root.place primitives path ∈ dirs store)
    (onlyDirs : ∀ dir ∈ dirs store, dir ∈ dirs world.store ∧
      ∀ path ∈ tree.dirs, dir = root.place primitives path →
        path ∈ rest.dirs) :
    root.Holds primitives handlePath contents dirs rest { world with
        store := store } := by
  refine ⟨holds.granted, fun path name member => ?_,
    fun slot present => ?_, made, fun dir present => ?_,
    fun path name member below => holds.apart path name (values member)
      (fewer below)⟩
  · rw [same path name member]
    exact holds.kept path name (values member)
  · obtain ⟨before, stays⟩ := only slot present
    rcases holds.only slot before with ⟨path, name, member, here⟩ | isForeign
    · exact .inl ⟨path, name, stays path name member here, here⟩
    · exact .inr isForeign
  · obtain ⟨before, stays⟩ := onlyDirs dir present
    rcases holds.onlyDirs dir before with ⟨path, member, here⟩ | isForeign
    · exact .inl ⟨path, stays path member here, here⟩
    · exact .inr isForeign

theorem insert_dir
    {store : σ}
    (same : contents store = contents world.store)
    (grown : dirs store =
      insert (root.place primitives (path ++ [name])) (dirs world.store))
    (free : (path, name) ∉ tree.values) :
    root.Holds primitives handlePath contents dirs
      { tree with dirs := insert (path ++ [name]) tree.dirs } { world with
        store := store } := by
  refine ⟨holds.granted, same ▸ holds.kept, same ▸ holds.only,
    fun other member => ?_, fun dir present => ?_,
    fun other query member => ?_⟩
  · rw [grown]
    rcases member with here | member
    · rw [here]
      exact Set.mem_insert _ _
    · exact Set.mem_insert_of_mem _ (holds.made other member)
  · rw [grown] at present
    rcases present with here | present
    · exact .inl ⟨_, Set.mem_insert _ _, here⟩
    · rcases holds.onlyDirs dir present with ⟨other, member, here⟩ | isForeign
      · exact .inl ⟨other, Set.mem_insert_of_mem _ member, here⟩
      · exact .inr isForeign
  · rintro (here | below)
    · obtain ⟨rfl, last⟩ := List.append_inj' here rfl
      cases last
      exact free member
    · exact holds.apart other query member below

end Changes

end Root.Holds

section Probes

namespace Root

variable (lawful : primitives.Lawful)
variable (dirLike : backend.DirLike primitives legal handlePath contents dirs)
variable (legalNames : ∀ key lane name,
  legal (physicalName primitives key lane name))
variable (view : root.View primitives handlePath path table)
variable (holds : root.Holds primitives handlePath contents dirs tree world)

theorem Holds.table_granted
    (holds : root.Holds primitives handlePath contents dirs tree world)
    (view : root.View primitives handlePath path table) :
    table.Granted root.secret world := by
  obtain ⟨_, config⟩ := view.config
  rw [SealedTable.Granted, config]
  exact holds.granted

/-- The error of a failed authentication. -/
theorem openStored_nil
    {nil : Value} {expr : Expr}
    (shows : primitives.asExpr nil = .ok expr)
    (noBytes : primitives.asBytes expr = none)
    (table : SealedTable Handle) (expected : Option Symbol)
    (physical : Symbol) (secret : SecretKey) :
    table.openStored primitives expected physical nil secret =
      .error (failure .authentication) := by
  simp [SealedTable.openStored, SealedTable.decryptStored, shows, noBytes,
    Bind.bind, Except.bind]

include lawful dirLike view holds

/-- Where no value is, the backend returns nil, which does not open. -/
theorem nothing_opens
    (absent : (path, name) ∉ tree.values) :
    ∃ nil, Yields
        (backend.get table.backend (root.physical primitives path name))
        world.store (.ok nil) world.store ∧
      primitives.nil = .ok nil ∧
      ∀ expected, table.openStored primitives expected
        (root.physical primitives path name) nil root.secret =
          .error (failure .authentication) := by
  obtain ⟨nil, expr, made, shows, noBytes⟩ := lawful.nil
  have read := dirLike.get table.backend (root.physical primitives path name)
    world.store
  have empty := holds.empty_slot lawful absent
  rw [slot, ← view.handle] at empty
  rw [empty, orNil, made] at read
  exact ⟨nil, read, made, fun expected =>
    openStored_nil shows noBytes table expected _ _⟩

omit lawful in
/-- A value is read and opened. -/
theorem value_opens
    (present : (path, name) ∈ tree.values) :
    ∃ stored opened, Yields
        (backend.get table.backend (root.physical primitives path name))
        world.store (.ok stored) world.store ∧
      table.openStored primitives none (root.physical primitives path name)
        stored root.secret = .ok (.new name, opened) := by
  obtain ⟨stored, here, opens⟩ := holds.kept path name present
  obtain ⟨opened, opens⟩ := opens table view
  have read := dirLike.get table.backend (root.physical primitives path name)
    world.store
  rw [slot, ← view.handle] at here
  rw [here, orNil] at read
  exact ⟨stored, opened, read, opens⟩

include legalNames

/-- The backend has a name just if it is live. -/
theorem has_live
    (name : String) :
    ∃ present, Yields
        (backend.has table.backend (root.physical primitives path name))
        world.store (.ok present) world.store ∧
      (present = true ↔ tree.Live path name) := by
  obtain ⟨present, asked, known⟩ := dirLike.has table.backend
    (root.physical primitives path name) world.store (legalNames _ _ _)
  refine ⟨present, asked, known.trans ?_⟩
  rw [view.handle, ← place_child, holds.mem_dirs lawful, Tree.Live]
  have stored : (contents world.store (root.place primitives path,
      root.physical primitives path name)).isSome ↔
        (path, name) ∈ tree.values := by
    constructor
    · intro present
      by_contra absent
      have empty := holds.empty_slot lawful absent
      rw [slot] at empty
      rw [empty] at present
      cases present
    · intro member
      obtain ⟨stored, here, _⟩ := holds.kept path name member
      rw [slot] at here
      rw [here]
      rfl
  rw [stored]

/-- A lookup leaves the world. -/
theorem get_yields
    (name : String) :
    ∃ outcome, Yields (table.get primitives backend (.new name)) world outcome
      world := by
  obtain ⟨present, asked, _⟩ :=
    has_live lawful dirLike legalNames view holds name
  have granted := holds.table_granted view
  have probe := SealedTable.onStore_still asked
  rw [← view.physical_eq] at probe
  cases present with
  | false =>
      exact ⟨_, granted.yields.bind (probe.bind (.ofExcept _ world))⟩
  | true =>
      have read := SealedTable.onStore_still (dirLike.get table.backend
        (table.physical primitives root.secret (.new name)) world.store)
      cases found : orNil primitives (contents world.store
          (handlePath table.backend,
            table.physical primitives root.secret (.new name))) with
      | error error =>
          rw [found] at read
          exact ⟨_, granted.yields.bind (probe.bind read.bindError)⟩
      | ok stored =>
          rw [found] at read
          cases opens : table.openStored primitives (some (.new name))
              (table.physical primitives root.secret (.new name)) stored
              root.secret with
          | error error =>
              exact ⟨_, granted.yields.bind (probe.bind
                (read.bind (Yields.of_error opens world).bindError))⟩
          | ok entry =>
              exact ⟨_, granted.yields.bind (probe.bind
                (read.bind ((Yields.of_ok opens world).bind (.pure _ _))))⟩

/-- Asking for a name fails just at a directory, and otherwise is right. -/
theorem has_exact :
    (∃ flag, Yields (table.has primitives backend (.new name)) world (.ok flag)
        world ∧ (flag = true ↔ tree.Live path name)) ↔
      path ++ [name] ∉ tree.dirs := by
  obtain ⟨present, asked, known⟩ :=
    has_live lawful dirLike legalNames view holds name
  have granted := holds.table_granted view
  have probe := SealedTable.onStore_still asked
  by_cases stored : (path, name) ∈ tree.values
  · -- A value opens under its own name.
    obtain ⟨kept, opened, read, opens⟩ := value_opens dirLike view holds stored
    have isLive : tree.Live path name := .inl stored
    cases known.mpr isLive
    have found : table.openStored primitives (some (.new name))
        (root.physical primitives path name) kept root.secret =
          .ok (.new name, opened) := by
      rw [SealedTable.openStored_some opens, if_pos rfl]
    rw [← view.physical_eq] at probe read found
    have whole : Yields (table.has primitives backend (.new name)) world
        (.ok true) world :=
      granted.yields.bind (probe.bind ((SealedTable.onStore_still read).bind
        ((Yields.of_ok found world).bind (.pure true world))))
    exact ⟨fun _ => holds.apart path name stored,
      fun _ => ⟨true, whole, fun _ => isLive, fun _ => rfl⟩⟩
  by_cases isDir : path ++ [name] ∈ tree.dirs
  · -- A directory is present, but it does not open.
    obtain ⟨nil, read, _, fails⟩ := nothing_opens lawful dirLike view holds stored
    cases known.mpr (.inr isDir)
    have refused := fails (some (.new name))
    rw [← view.physical_eq] at probe read refused
    have whole : Yields (table.has primitives backend (.new name)) world
        (.error (failure .authentication)) world :=
      granted.yields.bind (probe.bind ((SealedTable.onStore_still read).bind
        (Yields.of_error refused world).bindError))
    constructor
    · rintro ⟨flag, yields, _⟩
      cases (whole.unique yields).1
    · exact fun impossible => absurd isDir impossible
  · have unknown : ¬ tree.Live path name := not_or.mpr ⟨stored, isDir⟩
    have missing : present = false := by
      cases present with
      | false => rfl
      | true => exact absurd (known.mp rfl) unknown
    subst missing
    rw [← view.physical_eq] at probe
    have whole : Yields (table.has primitives backend (.new name)) world
        (.ok false) world :=
      granted.yields.bind (probe.bind (.pure false world))
    exact ⟨fun _ => isDir, fun _ => ⟨false, whole, known⟩⟩

/-- Directories are always told. -/
theorem isDir_exact :
    ∃ flag, Yields (table.isDir primitives backend (.new name)) world (.ok flag)
        world ∧ (flag = true ↔ path ++ [name] ∈ tree.dirs) := by
  obtain ⟨present, asked, known⟩ := dirLike.isDir table.backend
    (root.physical primitives path name) world.store (legalNames _ _ _)
  rw [view.handle, ← place_child, holds.mem_dirs lawful] at known
  rw [← view.physical_eq] at asked
  have isDirectory : Yields (table.dir backend : SealedM σ Expr Unit) world
      (.ok ()) world := by
    rw [SealedTable.dir, if_pos (dirLike.isDirectory _)]
    exact .pure () world
  exact ⟨present, (holds.table_granted view).yields.bind
    (isDirectory.bind (SealedTable.onStore_still asked)), known⟩

omit lawful legalNames view holds in
/-- Reading an enumerated name leaves the world. -/
theorem readEntry_still
    (physical : Symbol) (world : World σ Expr) :
    ∃ outcome, Yields
      (table.readEntry primitives backend root.secret physical) world outcome
      world := by
  have read := SealedTable.onStore_still
    (dirLike.get table.backend physical world.store)
  cases found : orNil primitives
      (contents world.store (handlePath table.backend, physical)) with
  | error error =>
      rw [found] at read
      exact ⟨_, read.bindError⟩
  | ok stored =>
      rw [found] at read
      exact ⟨_, read.bind (.ofExcept _ world)⟩

omit legalNames in
/-- What the backend enumerates in the lane. -/
theorem listed_names :
    ∃ listed, Yields (backend.keys table.backend) world.store (.ok listed)
        world.store ∧ listed.Nodup ∧
      ∀ symbol, symbol ∈ listed ∧ root.Belongs primitives path symbol ↔
        ∃ name, symbol = root.physical primitives path name ∧
          ((path, name) ∈ tree.values ∨
            ∃ rest, path ++ name :: rest ∈ tree.dirs) := by
  obtain ⟨listed, shown, nodup, complete⟩ :=
    dirLike.keys table.backend world.store
  refine ⟨listed, shown, nodup, fun symbol => ?_⟩
  rw [complete, view.handle]
  constructor
  · rintro ⟨stored | ⟨bare, rest, below⟩, belongs⟩
    · rcases holds.only _ stored with ⟨_, name, member, same⟩ | isForeign
      · have places := place_injective lawful (congrArg Prod.fst same)
        subst places
        exact ⟨name, congrArg Prod.snd same, .inl member⟩
      · exact absurd belongs (isForeign path rfl)
    · rcases holds.onlyDirs _ below with ⟨other, member, same⟩ | isForeign
      · obtain ⟨name, later, rfl, named⟩ := name_of_place lawful same
        rw [SealedTable.new_name bare] at named
        exact ⟨name, named, .inr ⟨later, member⟩⟩
      · have outside := isForeign path symbol.name rest rfl
        rw [SealedTable.new_name bare] at outside
        exact absurd belongs outside
  · rintro ⟨name, rfl, stored | ⟨rest, below⟩⟩
    · obtain ⟨kept, here, _⟩ := holds.kept path name stored
      rw [slot] at here
      rw [here]
      exact ⟨.inl rfl, physical_belongs⟩
    · have made := holds.made _ below
      rw [place_append] at made
      exact ⟨.inr ⟨rfl, _, made⟩, physical_belongs⟩

end Root

end Probes

section Listings

/-- Listing and asking work at a path, and show its live names. -/
structure Browsable (primitives : Primitives Value Expr)
    (backend : Backend Handle Value σ) (tree : Tree) (path : List String)
    (table : SealedTable Handle) (world : World σ Expr) : Prop where
  keys : ∃ names,
    Yields (table.keys primitives backend) world (.ok names) world ∧
      names.Nodup ∧
      ∀ key, key ∈ names ↔ key.space = none ∧ tree.Live path key.name
  len : ∃ count, Yields (table.len primitives backend) world (.ok count) world
  entries : ∃ entries,
    Yields (table.entries primitives backend) world (.ok entries) world
  has : ∀ name, ∃ flag,
    Yields (table.has primitives backend (.new name)) world (.ok flag) world ∧
      (flag = true ↔ tree.Live path name)
  isDir : ∀ name, ∃ flag,
    Yields (table.isDir primitives backend (.new name)) world (.ok flag)
        world ∧
      (flag = true ↔ path ++ [name] ∈ tree.dirs)

namespace Root

variable (lawful : primitives.Lawful)
variable (dirLike : backend.DirLike primitives legal handlePath contents dirs)
variable (legalNames : ∀ key lane name,
  legal (physicalName primitives key lane name))
variable (view : root.View primitives handlePath path table)
variable (holds : root.Holds primitives handlePath contents dirs tree world)

include lawful dirLike view holds

/-- Below a name without a value, a directory breaks the enumeration. -/
theorem keys_fail
    {rest : List String}
    (below : path ++ name :: rest ∈ tree.dirs)
    (absent : (path, name) ∉ tree.values) :
    ∃ error, Yields (table.keys primitives backend) world (.error error)
      world := by
  obtain ⟨listed, shown, _, complete⟩ :=
    listed_names lawful dirLike view holds
  obtain ⟨isListed, belongs⟩ := (complete _).mpr
    ⟨name, rfl, .inr ⟨rest, below⟩⟩
  obtain ⟨nil, read, _, fails⟩ :=
    nothing_opens lawful dirLike view holds absent
  have member : root.physical primitives path name ∈
      listed.filter (table.belongsToLane primitives root.secret) :=
    List.mem_filter.mpr ⟨isListed, view.belongs_eq.mpr belongs⟩
  have unread : Yields (table.readEntry primitives backend root.secret
      (root.physical primitives path name)) world
      (.error (failure .authentication)) world :=
    (SealedTable.onStore_still read).bind (.of_error (fails none) world)
  have each (symbol : Symbol) : ∃ outcome, Yields
      (table.readEntry primitives backend root.secret symbol) world outcome
      world :=
    readEntry_still dirLike symbol world
  obtain ⟨error, whole⟩ := Yields.mapM_error
    (fun symbol _ => (each symbol).elim fun _ found =>
      ⟨_, SealedTable.readKey_yields found⟩)
    member (SealedTable.readKey_yields unread)
  exact ⟨error, (holds.table_granted view).yields.bind
    ((SealedTable.onStore_still shown).bind whole)⟩

/-- Without such a directory, exactly the values are enumerated. -/
theorem keys_list
    (flat : tree.Flat path) :
    ∃ entries : List (Symbol × Value),
      Yields (table.entries primitives backend) world (.ok entries) world ∧
      Yields (table.keys primitives backend) world
        (.ok (entries.map Prod.fst)) world ∧
      (entries.map Prod.fst).Nodup ∧
      ∀ key, key ∈ entries.map Prod.fst ↔
        key.space = none ∧ (path, key.name) ∈ tree.values := by
  obtain ⟨listed, shown, nodup, complete⟩ :=
    listed_names lawful dirLike view holds
  have inLane (symbol : Symbol) :
      symbol ∈ listed.filter (table.belongsToLane primitives root.secret) ↔
        ∃ name, symbol = root.physical primitives path name ∧
          (path, name) ∈ tree.values := by
    rw [List.mem_filter, view.belongs_eq, complete]
    constructor
    · rintro ⟨name, same, stored | ⟨rest, below⟩⟩
      · exact ⟨name, same, stored⟩
      · exact ⟨name, same, flat name rest below⟩
    · rintro ⟨name, same, stored⟩
      exact ⟨name, same, .inl stored⟩
  have each : ∀ symbol ∈
      listed.filter (table.belongsToLane primitives root.secret),
      ∃ entry : Symbol × Value, (∃ name, entry.1 = .new name ∧
          symbol = root.physical primitives path name ∧
          (path, name) ∈ tree.values) ∧
        Yields (table.readEntry primitives backend root.secret symbol) world
          (.ok entry) world := by
    intro symbol member
    obtain ⟨name, rfl, stored⟩ := (inLane symbol).mp member
    obtain ⟨kept, opened, read, opens⟩ := value_opens dirLike view holds stored
    exact ⟨(.new name, opened), ⟨name, rfl, rfl, stored⟩,
      (SealedTable.onStore_still read).bind (.of_ok opens world)⟩
  obtain ⟨entries, related⟩ := exists_forall₂ each
  have granted := holds.table_granted view
  have names : (entries.map Prod.fst).map
      (fun key => root.physical primitives path key.name) =
        listed.filter (table.belongsToLane primitives root.secret) := by
    rw [List.map_map]
    apply map_of_forall₂ related
    rintro symbol entry ⟨⟨name, isName, same, _⟩, _⟩
    simp only [Function.comp, isName, Symbol.new, same]
  refine ⟨entries, granted.yields.bind ((SealedTable.onStore_still shown).bind
    (Yields.mapM (related.imp fun _ _ found => found.2))),
    granted.yields.bind ((SealedTable.onStore_still shown).bind
      (Yields.mapM ?_)), ?_, fun key => ?_⟩
  · rw [List.forall₂_map_right_iff]
    exact related.imp fun _ _ found => SealedTable.readKey_yields found.2
  · apply List.Nodup.of_map fun key => root.physical primitives path key.name
    rw [names]
    exact nodup.filter _
  · constructor
    · intro member
      obtain ⟨entry, isEntry, rfl⟩ := List.mem_map.mp member
      obtain ⟨_, _, ⟨name, isName, _, stored⟩, _⟩ :=
        exists_of_forall₂ related isEntry
      rw [isName]
      exact ⟨rfl, stored⟩
    · rintro ⟨bare, stored⟩
      have isListed := (inLane _).mpr ⟨key.name, rfl, stored⟩
      rw [← names] at isListed
      obtain ⟨other, isOther, same⟩ := List.mem_map.mp isListed
      obtain ⟨entry, isEntry, rfl⟩ := List.mem_map.mp isOther
      obtain ⟨_, _, ⟨name, isName, _⟩, _⟩ := exists_of_forall₂ related isEntry
      have found := physical_injective lawful same
      rw [← SealedTable.new_name bare, ← found, isName]
      rw [isName] at isOther
      exact isOther

include legalNames

/-- A path can be browsed just if it has no directories but below values. -/
theorem browsable_iff_flat :
    Browsable primitives backend tree path table world ↔ tree.Flat path := by
  constructor
  · intro browsable name rest below
    by_contra absent
    obtain ⟨names, listed, _⟩ := browsable.keys
    obtain ⟨error, failed⟩ :=
      keys_fail lawful dirLike view holds below absent
    cases (failed.unique listed).1
  · intro flat
    -- A live child directory would have a value under its name.
    have childless (name : String) : path ++ [name] ∉ tree.dirs :=
      fun below => holds.apart path name (flat name [] below) below
    have onlyValues (name : String) :
        (path, name) ∈ tree.values ↔ tree.Live path name :=
      (or_iff_left (childless name)).symm
    obtain ⟨entries, read, listed, nodup, complete⟩ :=
      keys_list lawful dirLike view holds flat
    refine ⟨⟨_, listed, nodup, fun key => ?_⟩, ⟨_, listed.bind (.pure _ world)⟩,
      ⟨_, read⟩, fun name => ?_, fun name => ?_⟩
    · rw [complete, onlyValues]
    · exact (has_exact lawful dirLike legalNames view holds).mpr
        (childless name)
    · exact isDir_exact lawful dirLike legalNames view holds

end Root

end Listings

section Steps

/-- The error of a lane that outgrows the address space. -/
def overflow : EvalError :=
  ⟨"capacity overflow"⟩

namespace Root

/-- What a call leaves: the tree that it names, or the same tree if it fails. -/
def Leaves (primitives : Primitives Value Expr)
    (handlePath : Handle → List String)
    (contents : σ → List String × Symbol → Option Value)
    (dirs : σ → Set (List String)) (root : Root) (tree : Tree)
    (path : List String) (call : DirCall Value) (after : World σ Expr) :
    Except EvalError (Option (SealedTable Handle)) → Prop
  | .ok reply =>
      root.Holds primitives handlePath contents dirs (tree.after path call)
          after ∧
        ∀ child, reply = some child →
          root.View primitives handlePath (call.target path) child
  | .error error =>
      error = overflow ∨
        root.Holds primitives handlePath contents dirs tree after

variable (lawful : primitives.Lawful)
variable (dirLike : backend.DirLike primitives legal handlePath contents dirs)
variable (legalNames : ∀ key lane name,
  legal (physicalName primitives key lane name))
variable (view : root.View primitives handlePath path table)
variable (holds : root.Holds primitives handlePath contents dirs tree world)

include dirLike in
/-- The backend is a directory. -/
theorem dir_yields
    (world : World σ Expr) :
    Yields (table.dir backend : SealedM σ Expr Unit) world (.ok ()) world := by
  rw [SealedTable.dir, if_pos (dirLike.isDirectory _)]
  exact .pure () world

include dirLike in
/-- A child directory that was made is returned. -/
theorem mkdir_yields
    {secret : SecretKey} {handle : Handle} {store : σ}
    {child : SealedTable Handle}
    (granted : table.Granted secret world)
    (made : Yields (backend.mkdir table.backend
      (table.physical primitives secret (.new name))) world.store (.ok handle)
      store)
    (opens : table.child handle (.new name) = .ok child) :
    Yields (table.dirCall primitives backend (.mkdir name)) world
      (.ok (some child)) { world with store := store } :=
  (granted.yields.bind ((dir_yields dirLike world).bind
    ((SealedTable.onStore_yields made).bind (.of_ok opens _)))).bind
      (.pure (some child) _)

include lawful dirLike legalNames view holds

theorem leaves_set
    (value : Value) :
    ∃ outcome after, Yields
        (table.dirCall primitives backend (.set name value)) world outcome
        after ∧
      root.Leaves primitives handlePath contents dirs tree path
        (.set name value) after outcome := by
  have granted := holds.table_granted view
  obtain ⟨outcome, middle, sealedValue⟩ := Yields.total
    (table.sealValue primitives (.new name)
      (table.physical primitives root.secret (.new name)) value root.secret)
    world
  rcases SealedTable.sealValue_inv lawful sealedValue with
    ⟨error, rfl, untouched, _⟩ | ⟨stored, rfl, sealedAs⟩
  · exact ⟨_, _, (granted.yields.bind sealedValue.bindError).bindError,
      .inr (holds.untouched untouched)⟩
  have later := holds.untouched sealedAs.untouched
  by_cases isDir : path ++ [name] ∈ tree.dirs
  · -- The backend refuses the name of a directory.
    have present := (later.mem_dirs lawful).mpr isDir
    rw [place_child, ← view.handle] at present
    obtain ⟨error, refused⟩ := dirLike.setDir table.backend
      (root.physical primitives path name) stored middle.store
      (legalNames _ _ _) present
    rw [← view.physical_eq] at refused
    exact ⟨_, _, (granted.yields.bind (sealedValue.bind
      (SealedTable.onStore_still refused))).bindError, .inr later⟩
  · have absent := isDir
    rw [← later.mem_dirs lawful, place_child, ← view.handle] at absent
    obtain ⟨store, written, contained, same⟩ := dirLike.set table.backend
      (root.physical primitives path name) stored middle.store
      (legalNames _ _ _) absent
    rw [← view.physical_eq] at written
    have opens (sibling : SealedTable Handle)
        (also : root.View primitives handlePath path sibling) :
        ∃ opened, sibling.openStored primitives none
          (root.physical primitives path name) stored root.secret =
            .ok (.new name, opened) := by
      obtain ⟨opened, opens, _⟩ := sealedAs.opens rfl
      rw [view.openStored_eq also, ← view.physical_eq]
      exact ⟨opened, opens⟩
    have inserted : root.Holds primitives handlePath contents dirs
        { tree with values := insert (path, name) tree.values }
        { middle with store := store } := by
      apply later.insert_value lawful _ same isDir opens
      rw [slot, ← view.handle]
      exact contained
    exact ⟨_, _, (granted.yields.bind (sealedValue.bind
      (SealedTable.onStore_yields written))).bind (.pure none _), inserted,
      nofun⟩

theorem leaves_del :
    ∃ outcome after, Yields
        (table.dirCall primitives backend (.del name)) world outcome after ∧
      root.Leaves primitives handlePath contents dirs tree path (.del name)
        after outcome := by
  have granted := holds.table_granted view
  obtain ⟨outcome, looked⟩ :=
    get_yields lawful dirLike legalNames view holds name
  cases outcome with
  | error error => exact ⟨_, _, looked.bindError.bindError, .inr holds⟩
  | ok prior =>
      obtain ⟨_, store, removed, contained, same⟩ := dirLike.del table.backend
        (root.physical primitives path name) world.store
      rw [view.handle] at contained
      rw [← view.physical_eq] at removed
      have gone : root.Holds primitives handlePath contents dirs
          { tree with values := tree.values \ {(path, name)} }
          { world with store := store } := by
        apply holds.shrink ⟨_, tree.dirs⟩ Set.sdiff_subset subset_rfl
        · intro other query member
          have apart : root.slot primitives other query ≠
              root.slot primitives path name := by
            intro impossible
            obtain ⟨rfl, rfl⟩ := slot_injective lawful impossible
            exact member.2 rfl
          rw [contained]
          exact Function.update_of_ne apart _ _
        · intro slot present
          rw [contained] at present
          by_cases here : slot =
              (root.place primitives path, root.physical primitives path name)
          · rw [here, Function.update_self] at present
            cases present
          · rw [Function.update_of_ne here] at present
            refine ⟨present, fun other query member same => ⟨member, ?_⟩⟩
            rintro ⟨⟩
            exact here same
        · exact same ▸ holds.made
        · exact fun dir present => ⟨same ▸ present, fun _ member _ => member⟩
      exact ⟨_, _, (looked.bind (granted.yields.bind
        ((SealedTable.onStore_yields removed).bind (.pure prior _)))).bind
          (.pure none _), gone, nofun⟩

omit lawful legalNames holds in
/-- Deleting listed names one after the other. -/
theorem deleteAll_yields
    (names : List Symbol) (world : World σ Expr) :
    ∃ store, Yields (names.forM fun physical => do
          let _ ← onStore (backend.del table.backend physical)) world
        (.ok PUnit.unit) { world with store := store } ∧
      (∀ slot, contents store slot =
        if slot.1 = root.place primitives path ∧ slot.2 ∈ names then none
        else contents world.store slot) ∧
      dirs store = dirs world.store := by
  induction names generalizing world with
  | nil => exact ⟨world.store, .pure _ world, by simp, rfl⟩
  | cons name rest inductionHypothesis =>
      obtain ⟨_, middle, removed, deleted, same⟩ :=
        dirLike.del table.backend name world.store
      obtain ⟨store, others, cleared, still⟩ :=
        inductionHypothesis { world with store := middle }
      have first : Yields (do
          let _ ← onStore (backend.del table.backend name)) world (.ok ())
          { world with store := middle } :=
        (SealedTable.onStore_yields removed).bind (.pure () _)
      refine ⟨store, ?_, fun slot => ?_, still.trans same⟩
      · change Yields (_ >>= fun _ => rest.forM _) _ _ _
        exact first.bind others
      · rw [cleared, deleted, view.handle]
        obtain ⟨dir, key⟩ := slot
        by_cases here : dir = root.place primitives path
        · by_cases now : key = name
          · simp [here, now]
          · by_cases later : key ∈ rest <;> simp [here, now, later]
        · simp [here]

omit legalNames in
theorem leaves_clear :
    ∃ outcome after, Yields
        (table.dirCall primitives backend .clear) world outcome after ∧
      root.Leaves primitives handlePath contents dirs tree path .clear after
        outcome := by
  have granted := holds.table_granted view
  obtain ⟨listed, shown, _, complete⟩ := listed_names lawful dirLike view holds
  obtain ⟨store, removed, cleared, same⟩ := deleteAll_yields dirLike view
    (listed.filter (table.belongsToLane primitives root.secret)) world
  have gone : root.Holds primitives handlePath contents dirs
      { tree with values := { slot ∈ tree.values | slot.1 ≠ path } }
      { world with store := store } := by
    apply holds.shrink ⟨_, tree.dirs⟩ (Set.sep_subset _ _) subset_rfl
    · intro other query member
      rw [cleared, if_neg]
      exact fun here => member.2 (place_injective lawful here.1)
    · intro slot present
      rw [cleared] at present
      split at present
      · cases present
      next kept =>
        refine ⟨present, fun other query member here => ⟨member, ?_⟩⟩
        rintro rfl
        obtain ⟨isListed, belongs⟩ :=
          (complete _).mpr ⟨query, rfl, .inl member⟩
        apply kept
        rw [here]
        exact ⟨rfl, List.mem_filter.mpr
          ⟨isListed, view.belongs_eq.mpr belongs⟩⟩
    · exact same ▸ holds.made
    · exact fun dir present => ⟨same ▸ present, fun _ member _ => member⟩
  exact ⟨_, _, (granted.yields.bind ((SealedTable.onStore_still shown).bind
    removed)).bind (.pure none _), gone, nofun⟩

theorem leaves_mkdir :
    ∃ outcome after, Yields
        (table.dirCall primitives backend (.mkdir name)) world outcome after ∧
      root.Leaves primitives handlePath contents dirs tree path (.mkdir name)
        after outcome := by
  have granted := holds.table_granted view
  have isDirectory : Yields (table.dir backend) world (.ok ()) world :=
    dir_yields dirLike world
  by_cases stored : (path, name) ∈ tree.values
  · -- The backend refuses the key of a value.
    obtain ⟨kept, here, _⟩ := holds.kept path name stored
    rw [slot, ← view.handle] at here
    obtain ⟨error, refused⟩ := dirLike.mkdirFile table.backend
      (root.physical primitives path name) world.store (legalNames _ _ _)
      (by rw [here]; rfl)
    rw [← view.physical_eq] at refused
    exact ⟨_, _, (granted.yields.bind (isDirectory.bind
      (SealedTable.onStore_still refused).bindError)).bindError, .inr holds⟩
  · have empty := holds.empty_slot lawful stored
    rw [slot, ← view.handle] at empty
    obtain ⟨handle, store, made, below, same, grown⟩ := dirLike.mkdir
      table.backend (root.physical primitives path name) world.store
      (legalNames _ _ _) empty
    rw [view.handle, ← place_child] at below
    rw [below] at grown
    rw [← view.physical_eq] at made
    have entered := SealedTable.onStore_yields made
    cases opens : table.child handle (.new name) with
    | error error =>
        have text : error = overflow := by
          rw [SealedTable.child] at opens
          split at opens
          · cases opens
          · cases opens
            rfl
        exact ⟨_, _, (granted.yields.bind (isDirectory.bind
          (entered.bind (.of_error opens _)))).bindError, .inl text⟩
    | ok child =>
        refine ⟨_, _, mkdir_yields dirLike granted made opens,
          holds.insert_dir same grown stored, ?_⟩
        rintro _ ⟨⟩
        exact view.child below opens

omit lawful in
theorem leaves_opendir :
    ∃ outcome after, Yields
        (table.dirCall primitives backend (.opendir name)) world outcome
        after ∧
      root.Leaves primitives handlePath contents dirs tree path (.opendir name)
        after outcome := by
  have granted := holds.table_granted view
  have isDirectory : Yields (table.dir backend) world (.ok ()) world :=
    dir_yields dirLike world
  obtain ⟨outcome, asked, known⟩ := dirLike.opendir table.backend
    (root.physical primitives path name) world.store (legalNames _ _ _)
  rw [view.handle, ← place_child] at known
  rw [← view.physical_eq] at asked
  have entered := SealedTable.onStore_still asked
  cases outcome with
  | error error =>
      exact ⟨_, _, granted.yields.bind (isDirectory.bind entered.bindError),
        .inr holds⟩
  | ok found =>
      cases found with
      | none =>
          exact ⟨_, _, granted.yields.bind (isDirectory.bind
            (entered.bind (.pure none world))), holds, nofun⟩
      | some handle =>
          cases opens : table.child handle (.new name) with
          | error error =>
              exact ⟨_, _, granted.yields.bind (isDirectory.bind
                (entered.bind (Yields.of_error opens world).bindError)),
                .inr holds⟩
          | ok child =>
              refine ⟨_, _, granted.yields.bind (isDirectory.bind
                (entered.bind ((Yields.of_ok opens world).bind
                  (.pure (some child) world)))), holds, ?_⟩
              rintro _ ⟨⟩
              exact view.child (known handle rfl) opens

theorem leaves_rmdir :
    ∃ outcome after, Yields
        (table.dirCall primitives backend (.rmdir name)) world outcome after ∧
      root.Leaves primitives handlePath contents dirs tree path (.rmdir name)
        after outcome := by
  have granted := holds.table_granted view
  have isDirectory : Yields (table.dir backend) world (.ok ()) world :=
    dir_yields dirLike world
  have known : handlePath table.backend ++
      [(root.physical primitives path name).name] ∈ dirs world.store ↔
        path ++ [name] ∈ tree.dirs := by
    rw [view.handle, ← place_child]
    exact holds.mem_dirs lawful
  by_cases isDir : path ++ [name] ∈ tree.dirs
  swap
  · obtain ⟨error, refused⟩ := dirLike.rmdirMissing table.backend
      (root.physical primitives path name) world.store (legalNames _ _ _)
      (mt known.mp isDir)
    rw [← view.physical_eq] at refused
    exact ⟨_, _, (granted.yields.bind (isDirectory.bind
      (SealedTable.onStore_still refused))).bindError, .inr holds⟩
  obtain ⟨reply, store, removed, contained, rest⟩ := dirLike.rmdir
    table.backend (root.physical primitives path name) world.store
    (legalNames _ _ _) (known.mpr isDir)
  rw [view.handle, ← place_child] at contained rest
  rw [← view.physical_eq] at removed
  have gone : root.Holds primitives handlePath contents dirs
      (tree.after path (.rmdir name : DirCall Value))
      { world with store := store } := by
    apply holds.shrink ⟨_, _⟩ (Set.sep_subset _ _) (Set.sep_subset _ _)
    · intro other query member
      rw [contained, if_neg]
      exact mt (place_isPrefix lawful).mp member.2
    · intro slot present
      rw [contained] at present
      split at present
      · cases present
      next kept =>
        refine ⟨present, fun other query member here => ⟨member, ?_⟩⟩
        rw [here] at kept
        exact mt (place_isPrefix lawful).mpr kept
    · intro other member
      rw [rest]
      exact ⟨holds.made other member.1,
        mt (place_isPrefix lawful).mp member.2⟩
    · intro dir present
      rw [rest] at present
      refine ⟨present.1, fun other member here => ⟨member, ?_⟩⟩
      have kept := present.2
      rw [here] at kept
      exact mt (place_isPrefix lawful).mpr kept
  exact ⟨_, _, (granted.yields.bind (isDirectory.bind
    (SealedTable.onStore_yields removed))).bind (.pure none _), gone, nofun⟩

/-- Every call leaves what it names. -/
theorem leaves_dirCall
    {call : DirCall Value} {after : World σ Expr}
    {outcome : Except EvalError (Option (SealedTable Handle))}
    (yields : Yields (table.dirCall primitives backend call) world outcome
      after) :
    root.Leaves primitives handlePath contents dirs tree path call after
      outcome := by
  have known : ∃ outcome after, Yields
        (table.dirCall primitives backend call) world outcome after ∧
      root.Leaves primitives handlePath contents dirs tree path call after
        outcome := by
    cases call with
    | set name value =>
        exact leaves_set lawful dirLike legalNames view holds value
    | del name => exact leaves_del lawful dirLike legalNames view holds
    | clear => exact leaves_clear lawful dirLike view holds
    | mkdir name => exact leaves_mkdir lawful dirLike legalNames view holds
    | opendir name => exact leaves_opendir dirLike legalNames view holds
    | rmdir name => exact leaves_rmdir lawful dirLike legalNames view holds
  obtain ⟨found, last, same, leaves⟩ := known
  obtain ⟨rfl, rfl⟩ := same.unique yields
  exact leaves

end Root

end Steps

section Runs

/-- Nothing in the backend is enumerated by a view. -/
def Root.Fresh (primitives : Primitives Value Expr)
    (contents : σ → List String × Symbol → Option Value)
    (dirs : σ → Set (List String)) (root : Root) (world : World σ Expr) :
    Prop :=
  (∀ slot, (contents world.store slot).isSome →
      root.ForeignSlot primitives slot) ∧
    ∀ dir ∈ dirs world.store, root.ForeignDir primitives dir

/--
Calls on a directory and on the children that calls have returned, in any
order.  An overflow ends the run.
-/
inductive Root.Run (primitives : Primitives Value Expr)
    (backend : Backend Handle Value σ) (handlePath : Handle → List String)
    (contents : σ → List String × Symbol → Option Value)
    (dirs : σ → Set (List String)) (root : Root) :
    List (List String × SealedTable Handle) → Tree → World σ Expr → Prop where
  | start {table : SealedTable Handle} {world : World σ Expr} :
      root.View primitives handlePath [] table →
      table.Granted root.secret world →
      root.Fresh primitives contents dirs world →
      Root.Run primitives backend handlePath contents dirs root [([], table)]
        .empty world
  | call {views : List (List String × SealedTable Handle)} {tree : Tree}
      {world after : World σ Expr} {path : List String}
      {table : SealedTable Handle} {call : DirCall Value}
      {reply : Option (SealedTable Handle)} :
      Root.Run primitives backend handlePath contents dirs root views tree
        world →
      (path, table) ∈ views →
      Yields (table.dirCall primitives backend call) world (.ok reply) after →
      Root.Run primitives backend handlePath contents dirs root
        (reply.toList.map (fun child => (call.target path, child)) ++ views)
        (tree.after path call) after
  | refused {views : List (List String × SealedTable Handle)} {tree : Tree}
      {world after : World σ Expr} {path : List String}
      {table : SealedTable Handle} {call : DirCall Value}
      {error : EvalError} :
      Root.Run primitives backend handlePath contents dirs root views tree
        world →
      (path, table) ∈ views →
      Yields (table.dirCall primitives backend call) world (.error error)
        after →
      error ≠ overflow →
      Root.Run primitives backend handlePath contents dirs root views tree after

/-- In a run, the backend holds the tree, and the tables are views of it. -/
theorem Root.Run.holds
    (lawful : primitives.Lawful)
    (dirLike : backend.DirLike primitives legal handlePath contents dirs)
    (legalNames : ∀ key lane name,
      legal (physicalName primitives key lane name))
    {views : List (List String × SealedTable Handle)}
    (run : root.Run primitives backend handlePath contents dirs views tree
      world) :
    root.Holds primitives handlePath contents dirs tree world ∧
      ∀ path table, (path, table) ∈ views →
        root.View primitives handlePath path table := by
  induction run with
  | start view granted fresh =>
      obtain ⟨_, config⟩ := view.config
      rw [SealedTable.Granted, config] at granted
      refine ⟨⟨granted, by simp [Tree.empty],
        fun slot present => .inr (fresh.1 slot present), by simp [Tree.empty],
        fun dir present => .inr (fresh.2 dir present), by simp [Tree.empty]⟩, ?_⟩
      intro path table member
      cases List.mem_singleton.mp member
      exact view
  | call earlier member yields inductionHypothesis =>
      obtain ⟨holds, views⟩ := inductionHypothesis
      obtain ⟨left, returned⟩ := Root.leaves_dirCall lawful dirLike legalNames
        (views _ _ member) holds yields
      refine ⟨left, fun other sibling isView => ?_⟩
      rcases List.mem_append.mp isView with isNew | isOld
      · obtain ⟨child, isChild, same⟩ := List.mem_map.mp isNew
        cases same
        exact returned sibling (Option.mem_toList.mp isChild)
      · exact views other sibling isOld
  | refused earlier member yields noOverflow inductionHypothesis =>
      obtain ⟨holds, views⟩ := inductionHypothesis
      rcases Root.leaves_dirCall lawful dirLike legalNames (views _ _ member)
        holds yields with impossible | left
      · exact absurd impossible noOverflow
      · exact ⟨left, views⟩

/-- A directory and its children can be browsed exactly where they are flat. -/
def BrowsableWhereFlat (primitives : Primitives Value Expr)
    (backend : Backend Handle Value σ) (handlePath : Handle → List String)
    (contents : σ → List String × Symbol → Option Value)
    (dirs : σ → Set (List String)) : Prop :=
  ∀ (root : Root) views tree world,
    root.Run primitives backend handlePath contents dirs views tree world →
    ∀ path table, (path, table) ∈ views →
      (Browsable primitives backend tree path table world ↔ tree.Flat path)

theorem browsable_where_flat
    (lawful : primitives.Lawful)
    (dirLike : backend.DirLike primitives legal handlePath contents dirs)
    (legalNames : ∀ key lane name,
      legal (physicalName primitives key lane name)) :
    BrowsableWhereFlat primitives backend handlePath contents dirs := by
  intro root views tree world run path table member
  obtain ⟨holds, isView⟩ := run.holds lawful dirLike legalNames
  exact Root.browsable_iff_flat lawful dirLike legalNames
    (isView path table member) holds

end Runs

end States

section Examples

/-- A segment of a path: not empty, not special, and without separators. -/
def sampleLegal (segment : String) : Bool :=
  segment ≠ "" && segment ≠ "." && segment ≠ ".." &&
    '/' ∉ segment.toList && '\\' ∉ segment.toList

theorem sampleLegal_physicalName
    (primitives : Primitives Value Expr) (key : KeyBytes) (lane : Bytes)
    (name : String) :
    sampleLegal (physicalName primitives key lane name) = true := by
  have dashed : '-' ∈ (physicalName primitives key lane name).toList := by
    simp [physicalName]
  have differs {special : String} (plain : '-' ∉ special.toList) :
      physicalName primitives key lane name ≠ special := by
    intro same
    rw [same] at dashed
    exact plain dashed
  have absent {char : Char} (noDigit : ∀ value < 16, char ≠ hexDigit value)
      (noDash : char ≠ '-') :
      char ∉ (physicalName primitives key lane name).toList := by
    simp [physicalName, blindLane, blindKey, not_mem_hex noDigit, noDash]
  simp only [sampleLegal, Bool.and_eq_true, decide_eq_true_eq]
  exact ⟨⟨⟨⟨differs (by decide), differs (by decide)⟩, differs (by decide)⟩,
    absent (by decide) (by decide)⟩, absent (by decide) (by decide)⟩

/-- A directory over a `DbDir`. -/
def sampleBackend :
    Backend DbDir Reference.Sample (DbStore Reference.Sample) :=
  DbDir.backend sampleLegal (Reference.primitives plainTagging)

theorem dbDir_browsable_where_flat :
    BrowsableWhereFlat (Reference.primitives plainTagging) sampleBackend
      DbDir.path DbDir.contents DbDir.dirs :=
  browsable_where_flat (Reference.primitives_lawful plainTagging)
    (DbDir.backend_dirLike (Reference.primitives_lawful plainTagging))
    (sampleLegal_physicalName _)

/-- The place of a sealed directory at the root of a `DbDir`. -/
def sampleRoot : Root :=
  ⟨[], Reference.config, Reference.secret⟩

/-- A sealed directory at the root of a `DbDir`. -/
def sampleDirectory : SealedTable DbDir :=
  ⟨⟨[]⟩, Reference.config, 0⟩

/-- After one `mkdir` the directory cannot be listed. -/
theorem child_directory_breaks_listing :
    ∃ views tree world, sampleRoot.Run (Reference.primitives plainTagging)
        sampleBackend DbDir.path DbDir.contents DbDir.dirs views tree world ∧
      ([], sampleDirectory) ∈ views ∧
      ¬ Browsable (Reference.primitives plainTagging) sampleBackend tree []
        sampleDirectory world := by
  have lawful := Reference.primitives_lawful plainTagging
  have dirLike : sampleBackend.DirLike (Reference.primitives plainTagging)
      (sampleLegal · = true) DbDir.path DbDir.contents DbDir.dirs :=
    DbDir.backend_dirLike lawful
  have legalNames : ∀ key lane name, sampleLegal
      (physicalName (Reference.primitives plainTagging) key lane name) =
        true :=
    sampleLegal_physicalName _
  have view : sampleRoot.View (Reference.primitives plainTagging) DbDir.path []
      sampleDirectory :=
    ⟨rfl, Reference.config.lane_fits, rfl⟩
  have granted : sampleDirectory.Granted Reference.secret
      (Reference.world (DbDir.openStore Reference.Sample)) := ⟨rfl, rfl⟩
  have fresh : sampleRoot.Fresh (Reference.primitives plainTagging)
      DbDir.contents DbDir.dirs
      (Reference.world (DbDir.openStore Reference.Sample)) := by
    refine ⟨nofun, fun dir present path name rest same => ?_⟩
    cases List.mem_singleton.mp present
    have impossible := congrArg List.length same
    simp at impossible
  have started : sampleRoot.Run (Reference.primitives plainTagging)
      sampleBackend DbDir.path DbDir.contents DbDir.dirs [([], sampleDirectory)]
      .empty (Reference.world (DbDir.openStore Reference.Sample)) :=
    .start view granted fresh
  obtain ⟨handle, store, made, _⟩ := dirLike.mkdir ⟨[]⟩
    (sampleDirectory.physical (Reference.primitives plainTagging)
      Reference.secret (.new "child")) (DbDir.openStore Reference.Sample)
    (legalNames _ _ _) rfl
  obtain ⟨child, opens⟩ : ∃ child, sampleDirectory.child handle
      (.new "child") = .ok child := by
    have fits : (sampleDirectory.config.lane ++
        putBytes (utf8 "child")).length < 2 ^ 63 := by decide
    rw [SealedTable.child]
    exact ⟨_, dif_pos fits⟩
  have entered : Yields (sampleDirectory.dirCall
      (Reference.primitives plainTagging) sampleBackend (.mkdir "child"))
      (Reference.world (DbDir.openStore Reference.Sample)) (.ok (some child))
      { Reference.world (DbDir.openStore Reference.Sample) with
        store := store } :=
    Root.mkdir_yields dirLike granted made opens
  have run := started.call (List.mem_singleton_self _) entered
  refine ⟨_, _, _, run, List.mem_cons_of_mem _ List.mem_cons_self, ?_⟩
  intro browsable
  obtain ⟨holds, isView⟩ := run.holds lawful dirLike legalNames
  have flat := (Root.browsable_iff_flat lawful dirLike legalNames view
    holds).mp browsable
  exact flat "child" [] (Set.mem_insert _ _)

end Examples

end SimStorage.Sealed
