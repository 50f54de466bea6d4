import SimStorage.Mount.Registry
import SimStorage.Mount.Stores

namespace SimStorage.Mount

/-!
# Delegation to the owning backend

A path belongs to the mount whose path is the longest prefix of it, or to the
root.  Where no mount stands at or below a key, the operations at the key are
those of the table that the owner opens along the rest of the path.
-/

open Interaction Table

variable {Value Expr σ α : Type} {objects : Objects Value Expr σ}
variable {mounts : Mounts objects} {world : World objects}
variable {path rest : MountPath} {target : MountTarget objects}
variable {view : MountedDir objects} {cx : Cx} {key : Symbol}
variable {state opened : σ} {value : Value}
variable {outcome : Except Error (Option Value)}

/-- The root as the target of the paths that no mount covers. -/
def MountedDir.top (view : MountedDir objects) : MountTarget objects where
  kind := .dir
  value := view.root
  fits := view.isDir

/-- The target that owns a path, and the rest of the path below it. -/
inductive Owner (top : MountTarget objects) (mounts : Mounts objects)
    (path : MountPath) : MountTarget objects → MountPath → Prop where
  | mount {entry : MountPath × MountTarget objects} {rest : MountPath} :
      Prefixes.Nearest mounts path entry → path = entry.1 ++ rest →
        Owner top mounts path entry.2 rest
  | root : Prefixes.Uncovered mounts path → Owner top mounts path top path

/-- What opening one directory after another comes to, and the state left. -/
inductive Opens (objects : Objects Value Expr σ) (cx : Cx) :
    Value → MountPath → σ → Except Error (Option Value) → σ → Prop where
  | here {value : Value} {state : σ} :
      Opens objects cx value [] state (.ok (some value)) state
  | noDir {value : Value} {name : String} {rest : MountPath} {state : σ} :
      objects.isDir value = false →
        Opens objects cx value (name :: rest) state
          (.error (.eval "table/mount: path component is not a Dir")) state
  | missing {value : Value} {name : String} {rest : MountPath}
      {state after : σ} :
      objects.isDir value = true →
        Yields (objects.opendir cx value (.new name)) state (.ok none) after →
          Opens objects cx value (name :: rest) state (.ok none) after
  | failed {value : Value} {name : String} {rest : MountPath}
      {state after : σ} {error : Error} :
      objects.isDir value = true →
        Yields (objects.opendir cx value (.new name)) state (.error error)
          after →
          Opens objects cx value (name :: rest) state (.error error) after
  | through {value child : Value} {name : String} {rest : MountPath}
      {state middle after : σ} {outcome : Except Error (Option Value)} :
      objects.isDir value = true →
        Yields (objects.opendir cx value (.new name)) state
          (.ok (some child)) middle →
          Opens objects cx child rest middle outcome after →
            Opens objects cx value (name :: rest) state outcome after

/-- Opening directories leaves all backends as they are. -/
def Lookups (objects : Objects Value Expr σ) (cx : Cx) : Prop :=
  ∀ value name,
    Within (fun before after => after = before) (objects.opendir cx value name)

/-- No mount is at or below the key. -/
def Free (mounts : Mounts objects) (path : MountPath) (key : Symbol) : Prop :=
  ∀ entry ∈ mounts, ¬ (path ++ [key.name]) <+: entry.1

/-- The operations at a key are those on the value, from the world. -/
structure Delegates (view : MountedDir objects) (cx : Cx) (key : Symbol)
    (before : World objects) (value : Value) (world : World objects) :
    Prop where
  get : view.get cx key before = onBackends (objects.get cx value key) world
  set : ∀ stored, view.set cx key stored before =
    onBackends (objects.set cx value key stored) world
  has : view.has cx key before = onBackends (objects.has cx value key) world
  del : view.del cx key before = onBackends (objects.del cx value key) world
  compareExchange : ∀ expected replacement,
    view.compareExchange cx key expected replacement before =
      onBackends (objects.compareExchange cx value key expected replacement)
        world

/-- Whatever the operations at a key yield, they leave the world. -/
structure Leaves (view : MountedDir objects) (cx : Cx) (key : Symbol)
    (before world : World objects) : Prop where
  get : ∃ outcome, Yields (view.get cx key) before outcome world
  set : ∀ stored, ∃ outcome,
    Yields (view.set cx key stored) before outcome world
  has : ∃ outcome, Yields (view.has cx key) before outcome world
  del : ∃ outcome, Yields (view.del cx key) before outcome world
  compareExchange : ∀ expected replacement, ∃ outcome,
    Yields (view.compareExchange cx key expected replacement) before outcome
      world

theorem requires_dir
    {σ : Type} {state : σ} {message : String}
    (isDir : objects.isDir value = true) :
    Yields (MonadExcept.ofExcept (requireDirValue objects value message) :
      EStateM Error σ Unit) state (.ok ()) state :=
  .of_ok (if_pos isDir) _

theorem requires_no_dir
    {σ : Type} {state : σ} {message : String}
    (noDir : objects.isDir value = false) :
    Yields (MonadExcept.ofExcept (requireDirValue objects value message) :
      EStateM Error σ Unit) state (.error (.eval message)) state :=
  .of_error (if_neg (by simp [noDir])) _

/-- A traversal opens one directory after another. -/
theorem Opens.traverse
    (opens : Opens objects cx value path state outcome opened) :
    Yields (traverseDirPath objects cx value path) state outcome opened := by
  induction opens with
  | here => exact Yields.pure _ _
  | noDir noDir => exact (requires_no_dir noDir).bindError
  | missing isDir opensNone =>
      exact (requires_dir isDir).bind (opensNone.bind (.pure _ _))
  | failed isDir fails =>
      exact (requires_dir isDir).bind fails.bindError
  | through isDir opensChild _ inductionHypothesis =>
      exact (requires_dir isDir).bind (opensChild.bind inductionHypothesis)

/-- When opening is a lookup, so is opening one directory after another. -/
theorem Opens.unchanged
    (lookups : Lookups objects cx)
    (opens : Opens objects cx value path state outcome opened) :
    opened = state := by
  induction opens with
  | here => rfl
  | noDir _ => rfl
  | missing _ yields => exact lookups _ _ _ _ _ yields
  | failed _ yields => exact lookups _ _ _ _ _ yields
  | through _ yields _ inductionHypothesis =>
      rw [inductionHypothesis, lookups _ _ _ _ _ yields]

theorem Owner.below
    {top : MountTarget objects}
    (owner : Owner top mounts path target rest) :
    ∃ front, path = front ++ rest := by
  cases owner with
  | mount _ split => exact ⟨_, split⟩
  | root _ => exact ⟨[], rfl⟩

/-- Every path has an owner. -/
theorem exists_owner
    (top : MountTarget objects) (mounts : Mounts objects) (path : MountPath) :
    ∃ target rest, Owner top mounts path target rest := by
  cases found : Prefixes.longest path mounts with
  | none => exact ⟨top, path, .root (Prefixes.longest_eq_none.mp found)⟩
  | some entry =>
      have nearest := Prefixes.nearest_of_longest found
      obtain ⟨rest, split⟩ := nearest.2.1
      exact ⟨entry.2, rest, .mount nearest split.symm⟩

/-- A mount owns its own path. -/
theorem owner_of_mem
    {entry : MountPath × MountTarget objects}
    (top : MountTarget objects)
    (member : entry ∈ mounts) :
    Owner top mounts entry.1 entry.2 [] :=
  .mount ⟨member, List.prefix_rfl, fun _ _ above => above⟩
    (List.append_nil _).symm

/-- Where no mount stands, a name has the owner of the path before it. -/
theorem Owner.concat
    {top : MountTarget objects} {name : String}
    (owner : Owner top mounts path target rest)
    (free : ∀ entry ∈ mounts, entry.1 ≠ path ++ [name]) :
    Owner top mounts (path ++ [name]) target (rest ++ [name]) := by
  have above : ∀ entry ∈ mounts, entry.1 <+: path ++ [name] →
      entry.1 <+: path := fun entry member within =>
    (List.prefix_concat_iff.mp within).resolve_left (free entry member)
  cases owner with
  | @mount entry _ nearest split =>
      obtain ⟨member, isAbove, longest⟩ := nearest
      refine .mount ⟨member, isAbove.trans (List.prefix_append _ _),
        fun other inMounts within => ?_⟩ (by rw [split, List.append_assoc])
      exact longest other inMounts (above other inMounts within)
  | root uncovered =>
      exact .root fun entry member within =>
        uncovered entry member (above entry member within)

/-- The longest mount of a path is its owner's, or there is none. -/
theorem Owner.longestMount
    (distinct : Entries.Distinct mounts)
    (owner : Owner view.top mounts path target rest) :
    (∃ length, longestMount mounts path = some (length, target) ∧
        path.drop length = rest) ∨
      longestMount mounts path = none ∧ target = view.top ∧ rest = path := by
  cases owner with
  | @mount entry _ nearest below =>
      have found := (Prefixes.longest_eq_some distinct).mpr nearest
      left
      refine ⟨entry.1.length, ?_, ?_⟩
      · rw [Mount.longestMount, found]
        rfl
      · rw [below, List.drop_left]
  | root uncovered =>
      right
      refine ⟨?_, rfl, rfl⟩
      rw [Mount.longestMount, Prefixes.longest_eq_none.mpr uncovered]
      rfl

namespace MountedDir

/-- Below an owner that is a directory, a path resolves to what it opens. -/
theorem resolveCurrent_dir
    (distinct : Entries.Distinct world.mounts)
    (owner : Owner view.top world.mounts view.path target rest)
    (isDir : target.kind = .dir)
    (opens : Opens objects cx target.value rest world.backends
      (.ok (some value)) opened) :
    Yields (view.resolveCurrent cx) world (.ok (.backed value))
      { world with backends := opened } := by
  refine (Yields.get world).bind ?_
  rcases owner.longestMount distinct with
    ⟨length, found, below⟩ | ⟨found, rfl, rfl⟩
  · have resolved : Yields (resolveMountedTarget cx target rest)
        world.backends (.ok (.backed value)) opened := by
      simp only [resolveMountedTarget, isDir]
      exact opens.traverse.bind (.pure _ _)
    rw [found]
    simp only [below]
    exact onBackends_yields resolved
  · rw [found]
    exact (onBackends_yields opens.traverse).bind (.pure _ _)

/-- What opens no directory fails, or is virtual where no mount is above. -/
theorem resolveCurrent_missing
    (distinct : Entries.Distinct world.mounts)
    (owner : Owner view.top world.mounts view.path target rest)
    (isDir : target.kind = .dir)
    (opens : Opens objects cx target.value rest world.backends outcome opened)
    (missing : ∀ value, outcome ≠ .ok (some value)) :
    ∃ node, ((∃ error, node = .error error) ∨ node = .ok .virtual ∧
        Prefixes.Uncovered world.mounts view.path) ∧
      Yields (view.resolveCurrent cx) world node
        { world with backends := opened } := by
  have traversed := opens.traverse
  rcases owner.longestMount distinct with
    ⟨length, found, below⟩ | ⟨found, rfl, rfl⟩
  · have resolved : ∃ error, Yields (resolveMountedTarget cx target rest)
        world.backends (.error error) opened := by
      simp only [resolveMountedTarget, isDir]
      rcases outcome with error | _ | value
      · exact ⟨error, traversed.bindError⟩
      · exact ⟨_, traversed.bind (.throw _ _)⟩
      · exact absurd rfl (missing value)
    obtain ⟨error, resolved⟩ := resolved
    refine ⟨_, .inl ⟨error, rfl⟩, (Yields.get world).bind ?_⟩
    rw [found]
    simp only [below]
    exact onBackends_yields resolved
  · have traversed : Yields (onBackends
        (traverseDirPath objects cx view.root view.path)) world outcome
        { world with backends := opened } := onBackends_yields traversed
    rcases outcome with error | _ | value
    · refine ⟨_, .inl ⟨error, rfl⟩, (Yields.get world).bind ?_⟩
      rw [found]
      exact traversed.bindError
    · by_cases virtual : hasMountDescendant world.mounts view.path = true
      · have uncovered : Prefixes.Uncovered world.mounts view.path := by
          rw [longestMount, Option.map_eq_none_iff] at found
          exact Prefixes.longest_eq_none.mp found
        refine ⟨_, .inr ⟨rfl, uncovered⟩, (Yields.get world).bind ?_⟩
        rw [found]
        refine traversed.bind ?_
        simp only [virtual, if_true]
        exact Yields.pure _ _
      · refine ⟨_, .inl ⟨view.noBackingDir, rfl⟩, (Yields.get world).bind ?_⟩
        rw [found]
        refine traversed.bind ?_
        simp only [virtual]
        exact Yields.throw _ _
    · exact absurd rfl (missing value)

/-- A mounted table is what its own path resolves to, and nothing is below. -/
theorem resolveCurrent_table
    (distinct : Entries.Distinct world.mounts)
    (owner : Owner view.top world.mounts view.path target rest)
    (isTable : target.kind = .table) :
    Yields (view.resolveCurrent cx) world
      (if rest = [] then
        .ok (.backed target.value)
      else
        .error (.eval "table/mount: cannot traverse below a table mount"))
      world := by
  refine (Yields.get world).bind ?_
  rcases owner.longestMount distinct with
    ⟨length, found, below⟩ | ⟨_, rfl, _⟩
  · have resolved : Yields (resolveMountedTarget cx target rest)
        world.backends
        (if rest = [] then
          .ok (.backed target.value)
        else
          .error (.eval "table/mount: cannot traverse below a table mount"))
        world.backends := by
      simp only [resolveMountedTarget, isTable, List.isEmpty_iff]
      split
      · exact Yields.pure _ _
      · exact Yields.throw _ _
    rw [found]
    simp only [below]
    exact onBackends_yields resolved
  · cases isTable

variable {before : World objects}

/-- The backing table of a path that resolves to a table. -/
theorem backing_of_backed
    (isTable : objects.isTable value = true)
    (resolved : Yields (view.resolveCurrent cx) before (.ok (.backed value))
      world) :
    Yields (view.backing cx) before (.ok (some value)) world := by
  have required : requireTableValue objects value
      "table/mount: backing node is not a Table" = .ok () := if_pos isTable
  refine resolved.bind (.of_ok ?_ _)
  simp only [backedTable, required]
  rfl

/-- A path that resolves to no value has no backing table. -/
theorem backing_of_not_backed
    {node : Except Error (ResolvedNode Value)}
    (missing : ∀ value, node ≠ .ok (.backed value))
    (resolved : Yields (view.resolveCurrent cx) before node world) :
    ∃ found, (∀ value, found ≠ .ok (some value)) ∧
      Yields (view.backing cx) before found world := by
  rcases node with error | value | _
  · exact ⟨.error error, by simp, resolved.bindError⟩
  · exact absurd rfl (missing value)
  · exact ⟨.ok none, by simp, resolved.bind (.of_ok rfl _)⟩

section Keys

variable (free : Free before.mounts view.path key)

include free in
theorem childHasMount_of_free :
    view.childHasMount before.mounts key = false := by
  rw [childHasMount, List.any_eq_false]
  exact fun entry member below => free entry member (isPrefix_iff.mp below)

include free in
theorem directMountValue_of_free :
    view.directMountValue before.mounts key = none := by
  rw [directMountValue, ← Option.not_isSome_iff_eq_none, Entries.isSome_find]
  rintro ⟨entry, member, same⟩
  exact free entry member (same ▸ List.prefix_rfl)

include free in
theorem checkNoMountChild_of_free
    (action : String) :
    Yields (view.checkNoMountChild key action) before (.ok ()) before := by
  refine (Yields.get before).bind ?_
  rw [if_neg (by simp [childHasMount_of_free free])]
  exact Yields.pure _ _

include free in
/-- With a backing table, the operations are those of the table. -/
theorem delegates_of_backing
    (backed : Yields (view.backing cx) before (.ok (some value)) world) :
    Delegates view cx key before value world where
  get := by
    refine (Yields.get before).bind_eq.trans ?_
    rw [directMountValue_of_free free]
    exact backed.bind_eq
  set stored := (checkNoMountChild_of_free free _).bind_eq.trans backed.bind_eq
  has := by
    refine (Yields.get before).bind_eq.trans ?_
    rw [if_neg (by simp [childHasMount_of_free free])]
    exact backed.bind_eq
  del := (checkNoMountChild_of_free free _).bind_eq.trans backed.bind_eq
  compareExchange expected replacement :=
    (checkNoMountChild_of_free free _).bind_eq.trans backed.bind_eq

include free in
/-- Without a backing table, nothing more is done. -/
theorem leaves_of_backing
    {found : Except Error (Option Value)}
    (missing : ∀ value, found ≠ .ok (some value))
    (backed : Yields (view.backing cx) before found world) :
    Leaves view cx key before world := by
  have checked := fun action => @checkNoMountChild_of_free _ _ _ _ view key
    before free action
  rcases found with error | _ | value
  · constructor
    · refine ⟨.error error, (Yields.get before).bind ?_⟩
      rw [directMountValue_of_free free]
      exact backed.bindError
    · exact fun stored => ⟨.error error, (checked _).bind backed.bindError⟩
    · refine ⟨.error error, (Yields.get before).bind ?_⟩
      rw [if_neg (by simp [childHasMount_of_free free])]
      exact backed.bindError
    · exact ⟨.error error, (checked _).bind backed.bindError⟩
    · exact fun expected replacement =>
        ⟨.error error, (checked _).bind backed.bindError⟩
  · constructor
    · refine ⟨objects.factory.nil, (Yields.get before).bind ?_⟩
      rw [directMountValue_of_free free]
      exact backed.bind (.ofExcept _ _)
    · exact fun stored => ⟨_, (checked _).bind (backed.bind (.throw _ _))⟩
    · refine ⟨.ok false, (Yields.get before).bind ?_⟩
      rw [if_neg (by simp [childHasMount_of_free free])]
      exact backed.bind (.pure _ _)
    · exact ⟨_, (checked _).bind (backed.bind (.ofExcept _ _))⟩
    · exact fun expected replacement =>
        ⟨_, (checked _).bind (backed.bind (.throw _ _))⟩
  · exact absurd rfl (missing value)

end Keys

end MountedDir

/-- The rest of a path leads from its owner to a table. -/
inductive Leads (cx : Cx) (target : MountTarget objects) (rest : MountPath)
    (state : σ) : Value → σ → Prop where
  | table : target.kind = .table → rest = [] →
      Leads cx target rest state target.value state
  | dir {value : Value} {opened : σ} : target.kind = .dir →
      Opens objects cx target.value rest state (.ok (some value)) opened →
        objects.isTable value = true → Leads cx target rest state value opened

/-- The rest of a path ends in an error or in a missing directory. -/
inductive Misses (cx : Cx) (target : MountTarget objects) (rest : MountPath)
    (state : σ) : σ → Prop where
  | table : target.kind = .table → rest ≠ [] → Misses cx target rest state state
  | dir {outcome : Except Error (Option Value)} {opened : σ} :
      target.kind = .dir →
        Opens objects cx target.value rest state outcome opened →
          (∀ value, outcome ≠ .ok (some value)) →
            Misses cx target rest state opened

theorem Leads.delegates
    (distinct : Entries.Distinct world.mounts)
    (free : Free world.mounts view.path key)
    (owner : Owner view.top world.mounts view.path target rest)
    (leads : Leads cx target rest world.backends value opened) :
    Delegates view cx key world value { world with backends := opened } := by
  refine MountedDir.delegates_of_backing free ?_
  cases leads with
  | table isTable here =>
      have resolved :=
        @MountedDir.resolveCurrent_table _ _ _ _ _ _ _ _ cx distinct owner isTable
      have fits := target.fits
      rw [isTable] at fits
      rw [if_pos here] at resolved
      exact MountedDir.backing_of_backed fits resolved
  | dir isDir opens isTable =>
      exact MountedDir.backing_of_backed isTable
        (MountedDir.resolveCurrent_dir distinct owner isDir opens)

theorem Misses.leaves
    (distinct : Entries.Distinct world.mounts)
    (free : Free world.mounts view.path key)
    (owner : Owner view.top world.mounts view.path target rest)
    (misses : Misses cx target rest world.backends opened) :
    Leaves view cx key world { world with backends := opened } := by
  have resolved : ∃ node, (∀ value, node ≠ .ok (.backed value)) ∧
      Yields (view.resolveCurrent cx) world node
        { world with backends := opened } := by
    cases misses with
    | table isTable below =>
        have resolved := @MountedDir.resolveCurrent_table _ _ _ _ _ _ _ _ cx
          distinct owner isTable
        rw [if_neg below] at resolved
        exact ⟨_, by simp, resolved⟩
    | dir isDir opens missing =>
        obtain ⟨node, unbacked, resolved⟩ :=
          MountedDir.resolveCurrent_missing distinct owner isDir opens missing
        refine ⟨node, fun value backed => ?_, resolved⟩
        rcases unbacked with ⟨error, rfl⟩ | ⟨rfl, _⟩ <;> cases backed
  obtain ⟨node, missing, resolved⟩ := resolved
  obtain ⟨found, none, backed⟩ :=
    MountedDir.backing_of_not_backed missing resolved
  exact MountedDir.leaves_of_backing free none backed

theorem Leads.unchanged
    (lookups : Lookups objects cx)
    (leads : Leads cx target rest state value opened) :
    opened = state := by
  cases leads with
  | table _ _ => rfl
  | dir _ opens _ => exact opens.unchanged lookups

theorem Misses.unchanged
    (lookups : Lookups objects cx)
    (misses : Misses cx target rest state opened) :
    opened = state := by
  cases misses with
  | table _ _ => rfl
  | dir _ opens _ => exact opens.unchanged lookups

/--
In every mount table that registrations reach, tables are leaves.  Where no
mount is at or below a key, what is done at the key is done on the table that
the rest of the path leads to, and nothing is done when it leads to none.
-/
theorem mounted_dir_routes
    {isLegal : String → Bool} {top : MountedDir objects}
    (reached : Reached isLegal top world) :
    world.mounts.WellFormed ∧
      ∀ (view : MountedDir objects) (cx : Cx) (key : Symbol)
        (target : MountTarget objects) (rest : MountPath) (opened : σ),
        view.root = top.root →
          Free world.mounts view.path key →
            Owner view.top world.mounts view.path target rest →
              (∀ value, Leads cx target rest world.backends value opened →
                Delegates view cx key world value
                    { world with backends := opened } ∧
                  (Lookups objects cx → opened = world.backends)) ∧
              (Misses cx target rest world.backends opened →
                Leaves view cx key world { world with backends := opened } ∧
                  (Lookups objects cx → opened = world.backends)) := by
  refine ⟨reached.wellFormed, ?_⟩
  intro view cx key target rest opened _ free owner
  have distinct := reached.wellFormed.distinct
  exact ⟨fun value leads => ⟨leads.delegates distinct free owner,
      fun lookups => leads.unchanged lookups⟩,
    fun misses => ⟨misses.leaves distinct free owner,
      fun lookups => misses.unchanged lookups⟩⟩

section Samples

/-- A namespace over the first store. -/
def sampleTop : MountedDir Stores.objects where
  root := .dir 0 .root
  path := []
  isDir := rfl

/-- The second store has a directory. -/
def sampleStores : Stores :=
  [Db.DbDir.openStore, { values := [], dirs := ["", "d"] }]

/-- The second store as a target. -/
def sampleTarget : MountTarget Stores.objects where
  kind := .dir
  value := .dir 1 .root
  fits := rfl

/-- The second store is mounted. -/
def sampleWorld : World Stores.objects where
  mounts := [(["m"], sampleTarget)]
  backends := sampleStores

theorem sample_reached :
    Reached referenceLegal sampleTop sampleWorld :=
  .registered sampleTop fullCx
    (.mountDir ⟨["m"], by decide⟩ (.dir 1 .root))
    (.opened sampleStores) rfl
    (show Yields _ _ (.ok ()) sampleWorld from rfl)

/-- A key of the directory in the mounted store is that directory's. -/
theorem sample_routes :
    Delegates (sampleTop.atPath ["m", "d"]) fullCx (.new "k") sampleWorld
      (.dir 1 ⟨"d"⟩) sampleWorld := by
  have free : Free sampleWorld.mounts ["m", "d"] (.new "k") := by
    intro entry member
    rw [List.mem_singleton.mp member]
    decide
  have nearest : Prefixes.Nearest sampleWorld.mounts ["m", "d"]
      (["m"], sampleTarget) :=
    Prefixes.nearest_of_longest rfl
  have owner : Owner sampleTop.top sampleWorld.mounts ["m", "d"]
      sampleTarget ["d"] :=
    .mount nearest rfl
  have opens : Opens Stores.objects fullCx (.dir 1 .root) ["d"] sampleStores
      (.ok (some (.dir 1 ⟨"d"⟩))) sampleStores :=
    .through rfl rfl .here
  have leads : Leads fullCx sampleTarget ["d"] sampleStores
      (.dir 1 ⟨"d"⟩) sampleStores :=
    .dir rfl opens rfl
  exact (((mounted_dir_routes sample_reached).2 (sampleTop.atPath ["m", "d"])
    fullCx (.new "k") _ _ _ rfl free owner).1 _ leads).1

end Samples

end SimStorage.Mount
