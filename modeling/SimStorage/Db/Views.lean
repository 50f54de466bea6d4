import SimStorage.Db.Tree
import SimStorage.Table.Reference
import Mathlib.Data.List.Dedup

namespace SimStorage.Db

/-!
# What the views of a tree show

In a tree, a view lists a bare name exactly when it has it, its entries are
the values, and a directory that was not there before is empty.  Every run
whose steps keep the tree reaches trees only.
-/

open Table Interaction

variable {Value Expr : Type}

/--
The view agrees with the store: it lists a name when it has it, unless the name
is a directory's in another namespace; its entries are the values; and a new
directory is empty.
-/
structure DbDir.Consistent (isLegal : String → Bool) (cx : Cx) (dir : DbDir)
    (store : Store Value) : Prop where
  keys : ∃ listed, Yields (dir.keys cx) store (.ok listed) store ∧
    ∀ key : Symbol, isLegal key.name = true → ∃ present,
      Yields (dir.has isLegal cx key) store (.ok present) store ∧
        ((key ∈ listed ↔ present = true) ↔
          (key.space = none ∨ Path.under dir.path key.name ∉ store.dirs))
  entries : ∃ found, Yields (dir.entries cx) store (.ok found) store ∧
    Entries.Distinct found ∧ ∀ key value,
      (key, value) ∈ found ↔
        Entries.find store.values (dir.path, key) = some value
  fresh : ∀ name child after,
    Yields (dir.has isLegal cx name) store (.ok false) store →
      Yields (dir.mkdir isLegal cx name) store (.ok child) after →
        Yields (child.keys cx) after (.ok []) after ∧
          Yields (child.entries cx) after (.ok []) after

variable {isLegal : String → Bool} {factory : Factory Value Expr}
variable {world : World Value} {dir : DbDir} {cx : Cx}
variable {path : String} {key : Symbol} {value : Value}
variable (plain : ∀ name, isLegal name = true → Path.Plain name)

section Trees

include plain in
/-- Everything above a stored directory is stored. -/
theorem Store.IsTree.stored_above
    (tree : world.store.IsTree isLegal)
    (formed : world.WellFormed isLegal)
    {front rest : List String}
    (stored : path ∈ world.store.dirs)
    (shape : Path.segments path = front ++ rest) :
    Path.text front ∈ world.store.dirs := by
  induction rest using List.reverseRecOn generalizing path with
  | nil =>
      have spelled := formed.dirs path stored
      rw [← spelled.2, shape, List.append_nil] at stored
      exact stored
  | append_singleton rest name inductionHypothesis =>
      have isPath : path ≠ "" := by
        rintro rfl
        simp at shape
      obtain ⟨parent, parent_stored, found, legal, rfl⟩ :=
        tree.parent path stored isPath
      rw [Path.segments_under (plain found legal), ← List.append_assoc]
        at shape
      exact inductionHypothesis parent_stored
        (List.append_inj' shape rfl).1

theorem new_eq_iff
    {name : String} :
    Symbol.new name = key ↔ key.space = none ∧ key.name = name := by
  constructor
  · rintro rfl
    exact ⟨rfl, rfl⟩
  · rintro ⟨bare, rfl⟩
    cases key
    cases bare
    rfl

include plain in
/-- The names listed for directories are the bare ones of children. -/
theorem Store.IsTree.mem_directSubdirs
    (tree : world.store.IsTree isLegal)
    (formed : world.WellFormed isLegal)
    (spelled : Spelled isLegal dir.path)
    (legal : isLegal key.name = true) :
    key ∈ dir.directSubdirs world.store ↔
      key.space = none ∧ Path.under dir.path key.name ∈ world.store.dirs := by
  rw [DbDir.directSubdirs, List.mem_filterMap]
  constructor
  · rintro ⟨path, stored, named⟩
    obtain ⟨name, direct, same⟩ := Option.map_eq_some_iff.mp named
    obtain ⟨rest, shape⟩ :=
      (directName_iff plain spelled (formed.dirs path stored)).mp direct
    obtain ⟨bare, rfl⟩ := new_eq_iff.mp same
    have above : Path.segments path =
        (Path.segments dir.path ++ [key.name]) ++ rest := by
      simp [shape]
    have child := tree.stored_above plain formed stored above
    rw [Path.text_concat, spelled.2] at child
    exact ⟨bare, child⟩
  · rintro ⟨bare, stored⟩
    refine ⟨_, stored, ?_⟩
    have direct := (directName_iff plain spelled (formed.dirs _ stored)).mpr
      ⟨[], Path.segments_under (plain key.name legal)⟩
    rw [direct, Option.map_some, new_eq_iff.mpr ⟨bare, rfl⟩]

theorem mem_here
    (distinct : Entries.Distinct world.store.values) :
    (key, value) ∈ dir.here world.store ↔
      Entries.find world.store.values (dir.path, key) = some value := by
  rw [← distinct.mem_iff, DbDir.here, List.mem_map]
  constructor
  · rintro ⟨⟨⟨path, found⟩, stored⟩, member, same⟩
    obtain ⟨inStore, isHere⟩ := List.mem_filter.mp member
    cases same
    cases of_decide_eq_true isHere
    exact inStore
  · intro member
    exact ⟨_, List.mem_filter.mpr ⟨member, by simp⟩, rfl⟩

theorem mem_here_keys
    (distinct : Entries.Distinct world.store.values) :
    key ∈ (dir.here world.store).map Prod.fst ↔
      (Entries.find world.store.values (dir.path, key)).isSome = true := by
  rw [Option.isSome_iff_exists, List.mem_map]
  constructor
  · rintro ⟨⟨found, value⟩, member, rfl⟩
    exact ⟨value, (mem_here distinct).mp member⟩
  · rintro ⟨value, found⟩
    exact ⟨(key, value), (mem_here distinct).mpr found, rfl⟩

theorem here_distinct
    (distinct : Entries.Distinct world.store.values) :
    Entries.Distinct (dir.here world.store) := by
  have kept : ((world.store.values.filter fun entry =>
      entry.1.1 = dir.path).map Prod.fst).Nodup := distinct.filter _
  rw [Entries.Distinct, DbDir.here, List.map_map]
  refine (List.nodup_map_iff_inj_on kept.of_map).mpr ?_
  intro first first_member second second_member same
  have first_here := of_decide_eq_true (List.mem_filter.mp first_member).2
  have second_here := of_decide_eq_true (List.mem_filter.mp second_member).2
  exact List.inj_on_of_nodup_map kept first_member second_member
    (Prod.ext (first_here.trans second_here.symm) same)

theorem keys_yields
    (granted : cx.granted tableDbReadCapability = true)
    (store : Store Value) :
    Yields (dir.keys cx) store
      (.ok ((dir.here store).map Prod.fst ++ dir.directSubdirs store).dedup)
      store := by
  simp [yields_ok, DbDir.keys, Cx.require, granted]

theorem entries_yields
    (granted : cx.granted tableDbReadCapability = true)
    (store : Store Value) :
    Yields (dir.entries cx) store (.ok (dir.here store)) store := by
  simp [yields_ok, DbDir.entries, Cx.require, granted]

theorem has_yields
    (granted : cx.granted tableDbReadCapability = true)
    (legal : isLegal key.name = true)
    (store : Store Value) :
    Yields (dir.has isLegal cx key) store
      (.ok ((Entries.find store.values (dir.path, key)).isSome ||
        Path.under dir.path key.name ∈ store.dirs)) store := by
  simp [yields_ok, DbDir.has, DbDir.childPath, Cx.require, granted, legal]

/-- A view that has not the name has a legal one, and no such directory. -/
theorem has_false
    {store : Store Value}
    (absent : Yields (dir.has isLegal cx key) store (.ok false) store) :
    isLegal key.name = true ∧ Path.under dir.path key.name ∉ store.dirs := by
  rw [yields_ok] at absent
  by_cases granted : cx.granted tableDbReadCapability = true
  · by_cases legal : isLegal key.name = true
    · simp [DbDir.has, DbDir.childPath, Cx.require, granted, legal] at absent
      exact ⟨legal, absent.2⟩
    · simp [DbDir.has, DbDir.childPath, Cx.require, granted, legal] at absent
  · simp [DbDir.has, Cx.require, granted] at absent

/-- What a view makes is the child, and nothing else changes. -/
theorem mkdir_ok
    {name : Symbol} {store after : Store Value} {child : DbDir}
    (made : Yields (dir.mkdir isLegal cx name) store (.ok child) after) :
    child.path = Path.under dir.path name.name ∧
      after = { store with dirs := store.dirs.insert child.path } := by
  rw [yields_ok] at made
  by_cases granted : cx.granted tableDbMkdirCapability = true
  · by_cases legal : isLegal name.name = true
    · cases found : Entries.find store.values (dir.path, name) with
      | none =>
          simp [DbDir.mkdir, DbDir.childPath, Cx.require, granted, legal,
            found] at made
          obtain ⟨rfl, rfl⟩ := made
          exact ⟨rfl, rfl⟩
      | some value =>
          simp [DbDir.mkdir, DbDir.childPath, Cx.require, granted, legal,
            found] at made
    · simp [DbDir.mkdir, DbDir.childPath, Cx.require, granted, legal] at made
  · simp [DbDir.mkdir, Cx.require, granted] at made

include plain in
/-- In a tree, nothing is in a directory that is not there. -/
theorem Store.IsTree.empty_of_missing
    (tree : world.store.IsTree isLegal)
    (formed : world.WellFormed isLegal)
    {child : DbDir}
    (spelled : Spelled isLegal child.path)
    (missing : child.path ∉ world.store.dirs) :
    child.here world.store = [] ∧
      child.directSubdirs { world.store with
        dirs := world.store.dirs.insert child.path } = [] := by
  constructor
  · rw [DbDir.here, List.map_eq_nil_iff, List.filter_eq_nil_iff]
    intro entry member isHere
    exact missing (of_decide_eq_true isHere ▸ tree.holder entry member)
  · rw [DbDir.directSubdirs, List.filterMap_eq_nil_iff]
    intro path stored
    rw [Option.map_eq_none_iff, Option.eq_none_iff_forall_ne_some]
    intro name direct
    rcases List.mem_insert_iff.mp stored with isChild | old
    · simp [DbDir.directName, isChild] at direct
    · obtain ⟨rest, shape⟩ :=
        (directName_iff plain spelled (formed.dirs path old)).mp direct
      have above := tree.stored_above plain formed old shape
      rw [spelled.2] at above
      exact missing above

include plain in
/-- In a tree, the view of a stored directory is consistent. -/
theorem Store.IsTree.consistent
    (tree : world.store.IsTree isLegal)
    (formed : world.WellFormed isLegal)
    (stored : dir.path ∈ world.store.dirs)
    (granted : cx.granted tableDbReadCapability = true) :
    dir.Consistent isLegal cx world.store where
  keys := by
    refine ⟨_, keys_yields granted world.store, fun key legal =>
      ⟨_, has_yields granted legal world.store, ?_⟩⟩
    have below := tree.mem_directSubdirs plain formed
      (formed.dirs dir.path stored) legal
    have values : key ∈ (dir.here world.store).map Prod.fst ↔
        (Entries.find world.store.values (dir.path, key)).isSome = true :=
      mem_here_keys formed.distinct
    rw [List.mem_dedup, List.mem_append, values, below]
    by_cases present : Path.under dir.path key.name ∈ world.store.dirs
    · have free : ¬ (Entries.find world.store.values
          (dir.path, key)).isSome = true := by
        intro found
        obtain ⟨value, member⟩ := mem_of_find found
        exact tree.apart _ member present
      simp [present, free]
    · simp [present]
  entries := ⟨_, entries_yields granted world.store,
    here_distinct formed.distinct, fun _ _ => mem_here formed.distinct⟩
  fresh name child after absent made := by
    obtain ⟨legal, missing⟩ := has_false absent
    obtain ⟨isChild, rfl⟩ := mkdir_ok made
    have spelled : Spelled isLegal child.path := by
      rw [isChild]
      exact (formed.dirs dir.path stored).under plain legal
    rw [← isChild] at missing
    obtain ⟨noValues, noDirs⟩ :=
      tree.empty_of_missing plain formed spelled missing
    have listed := @keys_yields _ child _ granted
      { world.store with dirs := world.store.dirs.insert child.path }
    have found := @entries_yields _ child _ granted
      { world.store with dirs := world.store.dirs.insert child.path }
    have nothing : child.here { world.store with
        dirs := world.store.dirs.insert child.path } = [] := noValues
    rw [nothing, noDirs] at listed
    rw [nothing] at found
    exact ⟨listed, found⟩

end Trees

section Runs

variable [DecidableEq Expr]
variable {allowed : World Value → Step Value Expr → Prop}

theorem opened_wellFormed :
    (World.opened : World Value).WellFormed isLegal where
  dirs path member := by
    rw [List.mem_singleton.mp member]
    exact Spelled.root
  values := by simp [World.opened, DbDir.openStore]
  distinct := List.nodup_nil
  handles dir member := by
    rw [List.mem_singleton.mp member]
    exact Spelled.root

theorem opened_isTree :
    (World.opened : World Value).store.IsTree isLegal where
  root := List.mem_singleton.mpr rfl
  parent path member isPath := absurd (List.mem_singleton.mp member) isPath
  holder := by simp [World.opened, DbDir.openStore]
  apart := by simp [World.opened, DbDir.openStore]

include plain in
/-- Every run keeps the paths spelled. -/
theorem Reached.wellFormed
    (reached : Reached isLegal factory allowed world) :
    world.WellFormed isLegal := by
  induction reached with
  | opened => exact opened_wellFormed
  | step step _ issued _ inductionHypothesis =>
      exact perform_wellFormed plain inductionHypothesis issued

/--
A run whose steps write and make directories in stored directories only, and
make none under the bare name of a value, reaches trees with consistent views.
-/
theorem kept_runs_are_trees
    (plain : ∀ name, isLegal name = true → Path.Plain name)
    (reached : Reached isLegal factory
      (fun world step => step.Keeps isLegal factory world) world) :
    world.store.IsTree isLegal ∧
      ∀ (dir : DbDir) (cx : Cx), dir.path ∈ world.store.dirs →
        cx.granted tableDbReadCapability = true →
          dir.Consistent isLegal cx world.store := by
  have tree : world.store.IsTree isLegal := by
    induction reached with
    | opened => exact opened_isTree
    | step step earlier issued keeps inductionHypothesis =>
        exact (perform_isTree_iff plain inductionHypothesis
          (earlier.wellFormed plain) issued).mpr keeps
  exact ⟨tree, fun dir cx stored granted =>
    tree.consistent plain (reached.wellFormed plain) stored granted⟩

end Runs

section Samples

/-- A call on values that are texts, with all capabilities. -/
def sampleStep (path : String) (call : Call (Option String) (Option String)) :
    Step (Option String) (Option String) where
  cx := fullCx
  dir := ⟨path⟩
  call := call

/-- The world after a sample step. -/
def sampleAfter (world : World (Option String))
    (step : Step (Option String) (Option String)) : World (Option String) :=
  step.perform referenceLegal referenceFactory world

/-- The root with a directory. -/
def sampleMade : World (Option String) :=
  sampleAfter .opened (sampleStep "" (.mkdir (.new "a")))

/-- A value in the directory. -/
def sampleWritten : World (Option String) :=
  sampleAfter sampleMade (sampleStep "a" (.set (.new "k") (some "v")))

theorem sample_kept_run_is_tree :
    sampleWritten.store.IsTree referenceLegal ∧
      ∀ (dir : DbDir) (cx : Cx), dir.path ∈ sampleWritten.store.dirs →
        cx.granted tableDbReadCapability = true →
          dir.Consistent referenceLegal cx sampleWritten.store := by
  have made : (sampleStep "" (.mkdir (.new "a"))).Keeps referenceLegal
      referenceFactory (World.opened : World (Option String)) :=
    fun _ _ _ => ⟨List.mem_singleton.mpr rfl, fun _ _ => rfl⟩
  have written : (sampleStep "a" (.set (.new "k") (some "v"))).Keeps
      referenceLegal referenceFactory sampleMade :=
    fun _ _ => by decide +kernel
  have first : Reached referenceLegal referenceFactory
      (fun world step => step.Keeps referenceLegal referenceFactory world)
      sampleMade :=
    .step (sampleStep "" (.mkdir (.new "a"))) .opened (by decide) made
  exact kept_runs_are_trees referenceLegal_plain
    (.step (sampleStep "a" (.set (.new "k") (some "v"))) first
      (by decide +kernel) written)

/-- The directory is removed, and a handle to it stays. -/
def sampleRemoved : World (Option String) :=
  sampleAfter sampleMade (sampleStep "" (.rmdir (.new "a")))

/-- A value written through the handle. -/
def sampleStale : World (Option String) :=
  sampleAfter sampleRemoved (sampleStep "a" (.set (.new "k") (some "v")))

/-- A write through the handle of a removed directory leaves a loose value. -/
theorem stale_write_breaks_tree :
    ¬ ∀ world, Reached referenceLegal referenceFactory (fun _ _ => True) world →
      world.store.IsTree referenceLegal := by
  intro trees
  have made : Reached referenceLegal referenceFactory (fun _ _ => True)
      sampleMade :=
    .step (sampleStep "" (.mkdir (.new "a"))) .opened (by decide) trivial
  have emptied : Reached referenceLegal referenceFactory (fun _ _ => True)
      sampleRemoved :=
    .step (sampleStep "" (.rmdir (.new "a"))) made (by decide +kernel) trivial
  have reached : Reached referenceLegal referenceFactory (fun _ _ => True)
      sampleStale :=
    .step (sampleStep "a" (.set (.new "k") (some "v"))) emptied
      (by decide +kernel) trivial
  have stored := (trees _ reached).holder (("a", .new "k"), some "v")
    (by decide +kernel)
  revert stored
  decide +kernel

end Samples

end SimStorage.Db
