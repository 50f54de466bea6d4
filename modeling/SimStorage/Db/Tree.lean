import SimStorage.Db.Steps

namespace SimStorage.Db

/-!
# The store is a tree

Values and directories live in two flat maps under texts.  They form a tree
when every directory's parent and every value's path is a directory, and no
name is both.  A step keeps the tree exactly when it writes and makes
directories in stored directories only, and makes none under the bare name of
a value in another namespace.
-/

open Table Interaction

variable {Value Expr : Type}

section Definitions

variable (isLegal : String → Bool)

/-- The path is spelled with legal names. -/
def Spelled (path : String) : Prop :=
  (∀ name ∈ Path.segments path, isLegal name = true) ∧
    Path.text (Path.segments path) = path

/-- Directories have parents, values have directories, and no name is both. -/
structure Store.IsTree (store : Store Value) : Prop where
  root : "" ∈ store.dirs
  parent : ∀ path ∈ store.dirs, path ≠ "" →
    ∃ parent ∈ store.dirs, ∃ name, isLegal name = true ∧
      path = Path.under parent name
  holder : ∀ entry ∈ store.values, entry.1.1 ∈ store.dirs
  apart : ∀ entry ∈ store.values,
    Path.under entry.1.1 entry.1.2.name ∉ store.dirs

/-- Paths are spelled with legal names, and no value is stored twice. -/
structure World.WellFormed (world : World Value) : Prop where
  dirs : ∀ path ∈ world.store.dirs, Spelled isLegal path
  values : ∀ entry ∈ world.store.values,
    Spelled isLegal entry.1.1 ∧ isLegal entry.1.2.name = true
  distinct : Entries.Distinct world.store.values
  handles : ∀ dir ∈ world.handles, Spelled isLegal dir.path

/--
A step that writes a value or makes a directory does so in a stored directory,
and makes none under the bare name of a value.
-/
def Step.Keeps (factory : Factory Value Expr) (world : World Value)
    (step : Step Value Expr) : Prop :=
  match step.call with
  | .set key _ =>
      step.cx.granted tableDbWriteCapability = true →
        isLegal key.name = true → step.dir.path ∈ world.store.dirs
  | .compareExchange key .absent (.value value) =>
      step.cx.granted tableDbWriteCapability = true →
        isLegal key.name = true → (factory.asExpr value).isOk = true →
          step.dir.path ∈ world.store.dirs
  | .mkdir name =>
      step.cx.granted tableDbMkdirCapability = true →
        isLegal name.name = true →
          Entries.find world.store.values (step.dir.path, name) = none →
            step.dir.path ∈ world.store.dirs ∧
              ∀ key : Symbol, key.name = name.name →
                Entries.find world.store.values (step.dir.path, key) = none
  | _ => True

end Definitions

variable {isLegal : String → Bool} {factory : Factory Value Expr}
variable {store : Store Value} {world : World Value}
variable {path parent name other : String}

section Spelling

variable (plain : ∀ name, isLegal name = true → Path.Plain name)

theorem Spelled.root :
    Spelled isLegal "" :=
  ⟨by simp, rfl⟩

include plain in
theorem Spelled.clear
    (spelled : Spelled isLegal path) :
    Path.Clear (Path.segments path) := fun name member =>
  plain name (spelled.1 name member)

include plain in
theorem Spelled.under
    (spelled : Spelled isLegal path)
    (legal : isLegal name = true) :
    Spelled isLegal (Path.under path name) := by
  have shape : Path.segments (Path.under path name) =
      Path.segments path ++ [name] := Path.segments_under (plain name legal)
  constructor
  · intro found member
    rw [shape] at member
    rcases List.mem_append.mp member with inPath | isName
    · exact spelled.1 found inPath
    · rw [List.mem_singleton.mp isName]
      exact legal
  · rw [shape, Path.text_concat, spelled.2]

theorem Spelled.eq_of_segments
    (first : Spelled isLegal path)
    (second : Spelled isLegal other)
    (same : Path.segments path = Path.segments other) :
    path = other := by
  rw [← first.2, same, second.2]

include plain in
theorem under_injective
    {first second : String}
    (parent_spelled : Spelled isLegal parent)
    (path_spelled : Spelled isLegal path)
    (first_legal : isLegal first = true)
    (second_legal : isLegal second = true)
    (same : Path.under parent first = Path.under path second) :
    parent = path ∧ first = second := by
  have spelling := congrArg Path.segments same
  rw [Path.segments_under (plain first first_legal),
    Path.segments_under (plain second second_legal)] at spelling
  have parts := List.append_inj' spelling rfl
  exact ⟨parent_spelled.eq_of_segments path_spelled parts.1,
    List.head_eq_of_cons_eq parts.2⟩

include plain in
theorem removed_iff
    (path_spelled : Spelled isLegal path)
    (other_spelled : Spelled isLegal other)
    (isChild : path ≠ "") :
    DbDir.removed path other = true ↔
      Path.segments path <+: Path.segments other := by
  have isPath : Path.segments path ≠ [] := by
    intro isRoot
    exact isChild (path_spelled.eq_of_segments Spelled.root isRoot)
  have within := Path.within_iff (path_spelled.clear plain)
    (other_spelled.clear plain) isPath
  rw [path_spelled.2, other_spelled.2] at within
  simpa [DbDir.removed] using within

theorem Spelled.eq_empty
    (spelled : Spelled isLegal path) :
    path.isEmpty = true ↔ Path.segments path = [] := by
  rw [String.isEmpty_iff]
  constructor
  · rintro rfl
    rfl
  · exact fun isRoot => spelled.eq_of_segments Spelled.root isRoot

theorem headName_text
    {rest : List String}
    (clear : Path.Clear (name :: rest)) :
    DbDir.headName (Path.text (name :: rest)) = some name := by
  have named : name ≠ "" := (clear name List.mem_cons_self).1
  by_cases last : rest = []
  · subst last
    have alone : Path.text [name] = name := rfl
    have split := Path.splitOnce_text clear
    rw [if_pos rfl, alone] at split
    simp [DbDir.headName, alone, split, named]
  · have split := Path.splitOnce_text clear
    have below : Path.text rest ≠ "" := fun isRoot =>
      last ((Path.text_eq_empty
        fun found member => clear found (List.mem_cons_of_mem _ member)).mp
          isRoot)
    rw [if_neg last] at split
    simp [DbDir.headName, split, named, below]

include plain in
/-- A directory shows under the first name below. -/
theorem directName_iff
    {dir : DbDir}
    (dir_spelled : Spelled isLegal dir.path)
    (path_spelled : Spelled isLegal path) :
    dir.directName path = some name ↔
      ∃ rest, Path.segments path = Path.segments dir.path ++ name :: rest := by
  have path_clear := path_spelled.clear plain
  by_cases isRoot : path.isEmpty = true
  · have nothing := (path_spelled.eq_empty).mp isRoot
    simp [DbDir.directName, isRoot, nothing]
  by_cases here : path = dir.path
  · simp [DbDir.directName, here]
  by_cases top : dir.path.isEmpty = true
  · have nothing := (dir_spelled.eq_empty).mp top
    cases shape : Path.segments path with
    | nil => exact absurd ((path_spelled.eq_empty).mpr shape) isRoot
    | cons head rest =>
        rw [shape] at path_clear
        have named := headName_text path_clear
        rw [← shape, path_spelled.2] at named
        simp [DbDir.directName, isRoot, here, top, nothing, named]
  · have isPath : Path.segments dir.path ≠ [] := fun nothing =>
      top ((dir_spelled.eq_empty).mpr nothing)
    have stripped := @Path.stripPrefix_text _ _ (dir_spelled.clear plain)
      path_clear isPath
    rw [path_spelled.2, dir_spelled.2] at stripped
    have direct : dir.directName path =
        (Path.stripPrefix path (dir.path ++ "/")).bind DbDir.headName := by
      simp [DbDir.directName, isRoot, here, top]
    rw [direct, Option.bind_eq_some_iff]
    simp only [stripped]
    constructor
    · rintro ⟨_, ⟨rest, below, shape, rfl⟩, named⟩
      cases rest with
      | nil => exact absurd rfl below
      | cons head rest =>
          have clear : Path.Clear (head :: rest) := fun found member =>
            path_clear found (shape ▸ List.mem_append_right _ member)
          rw [headName_text clear] at named
          cases named
          exact ⟨rest, shape⟩
    · rintro ⟨rest, shape⟩
      have clear : Path.Clear (name :: rest) := fun found member =>
        path_clear found (shape ▸ List.mem_append_right _ member)
      exact ⟨_, ⟨name :: rest, by simp, shape, rfl⟩, headName_text clear⟩

end Spelling

section Invariants

variable (plain : ∀ name, isLegal name = true → Path.Plain name)
variable {dir : DbDir} {key : Symbol} {value : Value} {cx : Cx}
variable {step : Step Value Expr}

theorem World.WellFormed.insert
    (formed : world.WellFormed isLegal)
    (spelled : Spelled isLegal dir.path)
    (legal : isLegal key.name = true) :
    (world.withValues
      (Entries.insert world.store.values (dir.path, key) value)).WellFormed
        isLegal where
  dirs := formed.dirs
  values entry member := by
    rcases List.mem_cons.mp member with rfl | kept
    · exact ⟨spelled, legal⟩
    · exact formed.values entry (List.mem_filter.mp kept).1
  distinct := formed.distinct.insert _ _
  handles := formed.handles

theorem World.WellFormed.restrict
    (formed : world.WellFormed isLegal)
    (keep : (String × Symbol) × Value → Bool) :
    (world.withValues (world.store.values.filter keep)).WellFormed
      isLegal where
  dirs := formed.dirs
  values entry member := formed.values entry (List.mem_filter.mp member).1
  distinct := formed.distinct.filter keep
  handles := formed.handles

include plain in
/-- Steps keep the paths spelled. -/
theorem perform_wellFormed
    [DecidableEq Expr]
    (formed : world.WellFormed isLegal)
    (issued : step.dir ∈ world.handles) :
    (step.perform isLegal factory world).WellFormed isLegal := by
  have spelled := formed.handles step.dir issued
  obtain ⟨cx, dir, call⟩ := step
  cases call with
  | set key value =>
      simp only [Step.perform, DbDir.set_after]
      split
      next guards => exact formed.insert spelled guards.2.1
      next => exact formed
  | del key =>
      simp only [Step.perform, DbDir.del_after]
      split
      · exact formed.restrict _
      · exact formed
  | clear =>
      simp only [Step.perform, DbDir.clear_after]
      split
      · exact formed.restrict _
      · exact formed
  | compareExchange key expected replacement =>
      simp only [Step.perform, DbDir.compareExchange_after]
      split
      next value exchanged =>
        exact formed.insert spelled (DbDir.exchange_guards exchanged).1
      next => exact formed.restrict _
      next => exact formed
  | mkdir name =>
      simp only [Step.perform, DbDir.mkdir_after]
      split
      next guards =>
        have child := spelled.under plain guards.2.1
        exact {
          dirs := fun path member =>
            (List.mem_insert_iff.mp member).elim (fun isChild => isChild ▸ child)
              (formed.dirs path)
          values := formed.values
          distinct := formed.distinct
          handles := fun found member =>
            (List.mem_cons.mp member).elim (fun isChild => isChild ▸ child)
              (formed.handles found) }
      next => exact formed
  | opendir name =>
      simp only [Step.perform, DbDir.opendir_after]
      split
      next guards =>
        exact { formed with
          handles := fun found member =>
            (List.mem_cons.mp member).elim
              (fun isChild => isChild ▸ spelled.under plain guards.2.1)
              (formed.handles found) }
      next => exact formed
  | rmdir name =>
      simp only [Step.perform, DbDir.rmdir_after]
      split
      · exact {
          dirs := fun path member =>
            formed.dirs path (List.mem_filter.mp member).1
          values := fun entry member =>
            formed.values entry (List.mem_filter.mp member).1
          distinct := formed.distinct.filter _
          handles := formed.handles }
      · exact formed

/-- The entry that is found. -/
theorem mem_of_find
    {values : List ((String × Symbol) × Value)}
    (found : (Entries.find values (path, key)).isSome = true) :
    ∃ value, ((path, key), value) ∈ values := by
  obtain ⟨⟨_, value⟩, member, rfl⟩ := Entries.isSome_find.mp found
  exact ⟨value, member⟩

include plain in
/-- Only stored directories have children. -/
theorem Store.IsTree.stored_of_child
    (tree : world.store.IsTree isLegal)
    (formed : world.WellFormed isLegal)
    (spelled : Spelled isLegal path)
    (legal : isLegal name = true)
    (child : Path.under path name ∈ world.store.dirs) :
    path ∈ world.store.dirs := by
  obtain ⟨parent, stored, found, found_legal, same⟩ :=
    tree.parent _ child (Path.under_ne_empty (plain name legal))
  have parts := under_injective plain spelled (formed.dirs parent stored) legal
    found_legal same
  exact parts.1 ▸ stored

theorem Store.IsTree.stored_of_find
    (tree : store.IsTree isLegal)
    (found : (Entries.find store.values (path, key)).isSome = true) :
    path ∈ store.dirs := by
  obtain ⟨value, member⟩ := mem_of_find found
  exact tree.holder _ member

/-- A value put under a free name keeps the tree in a stored directory. -/
theorem Store.IsTree.insert_iff
    (tree : world.store.IsTree isLegal)
    (absent : Path.under path key.name ∉ world.store.dirs) :
    (world.withValues
      (Entries.insert world.store.values (path, key) value)).store.IsTree
        isLegal ↔ path ∈ world.store.dirs := by
  constructor
  · intro after
    exact after.holder ((path, key), value) List.mem_cons_self
  · intro stored
    exact {
      root := tree.root
      parent := tree.parent
      holder := fun entry member => by
        rcases List.mem_cons.mp member with rfl | kept
        · exact stored
        · exact tree.holder entry (List.mem_filter.mp kept).1
      apart := fun entry member => by
        rcases List.mem_cons.mp member with rfl | kept
        · exact absent
        · exact tree.apart entry (List.mem_filter.mp kept).1 }

theorem Store.IsTree.restrict
    (tree : world.store.IsTree isLegal)
    (keep : (String × Symbol) × Value → Bool) :
    (world.withValues (world.store.values.filter keep)).store.IsTree isLegal where
  root := tree.root
  parent := tree.parent
  holder entry member := tree.holder entry (List.mem_filter.mp member).1
  apart entry member := tree.apart entry (List.mem_filter.mp member).1

include plain in
/-- A new directory keeps the tree in a stored directory without the name. -/
theorem Store.IsTree.mkdir_iff
    (tree : world.store.IsTree isLegal)
    (formed : world.WellFormed isLegal)
    (spelled : Spelled isLegal path)
    (legal : isLegal name = true) :
    ({ world.store with
        dirs := world.store.dirs.insert (Path.under path name) } :
          Store Value).IsTree isLegal ↔
      path ∈ world.store.dirs ∧ ∀ key : Symbol, key.name = name →
        Entries.find world.store.values (path, key) = none := by
  have named := plain name legal
  have child := spelled.under plain legal
  constructor
  · intro after
    have inserted : Path.under path name ∈
        world.store.dirs.insert (Path.under path name) := by
      simp
    constructor
    · obtain ⟨parent, stored, found, found_legal, same⟩ :=
        after.parent _ inserted (Path.under_ne_empty named)
      rcases List.mem_insert_iff.mp stored with isChild | old
      · have lengths := congrArg (fun path => (Path.segments path).length) same
        simp only [isChild, Path.segments_under named,
          Path.segments_under (plain found found_legal)] at lengths
        simp at lengths
      · exact (under_injective plain spelled (formed.dirs parent old) legal
          found_legal same).1 ▸ old
    · intro key sameName
      cases found : Entries.find world.store.values (path, key) with
      | none => rfl
      | some value =>
          obtain ⟨value, member⟩ := mem_of_find (Option.isSome_of_eq_some found)
          refine absurd ?_ (after.apart _ member)
          rw [sameName]
          exact inserted
  · rintro ⟨stored, free⟩
    exact {
      root := List.mem_insert_of_mem tree.root
      parent := fun other member isPath => by
        rcases List.mem_insert_iff.mp member with rfl | old
        · exact ⟨path, List.mem_insert_of_mem stored, name, legal, rfl⟩
        · obtain ⟨parent, found, rest⟩ := tree.parent other old isPath
          exact ⟨parent, List.mem_insert_of_mem found, rest⟩
      holder := fun entry member =>
        List.mem_insert_of_mem (tree.holder entry member)
      apart := fun entry member inDirs => by
        rcases List.mem_insert_iff.mp inDirs with same | old
        · obtain ⟨entry_spelled, entry_legal⟩ := formed.values entry member
          have parts := under_injective plain entry_spelled spelled entry_legal
            legal same
          have present : (Entries.find world.store.values
              (path, entry.1.2)).isSome = true :=
            Entries.isSome_find.mpr ⟨entry, member, Prod.ext parts.1 rfl⟩
          rw [free entry.1.2 parts.2] at present
          cases present
        · exact tree.apart entry member old }

include plain in
/-- Removing a directory with everything below keeps the tree. -/
theorem Store.IsTree.rmdir
    (tree : world.store.IsTree isLegal)
    (formed : world.WellFormed isLegal)
    (spelled : Spelled isLegal path)
    (isChild : path ≠ "") :
    ({ values := world.store.values.filter fun entry =>
          !DbDir.removed path entry.1.1
       dirs := world.store.dirs.filter fun other =>
          !DbDir.removed path other } : Store Value).IsTree isLegal where
  root := by
    have kept : ¬ DbDir.removed path "" = true := by
      rw [removed_iff plain spelled Spelled.root isChild]
      intro within
      have isRoot : Path.segments path = [] := List.prefix_nil.mp within
      exact isChild (spelled.eq_of_segments Spelled.root isRoot)
    exact List.mem_filter.mpr ⟨tree.root, by simp [kept]⟩
  parent other member isPath := by
    obtain ⟨stored, kept⟩ := List.mem_filter.mp member
    obtain ⟨parent, parent_stored, name, legal, rfl⟩ :=
      tree.parent other stored isPath
    refine ⟨parent, List.mem_filter.mpr ⟨parent_stored, ?_⟩, name, legal, rfl⟩
    have parent_spelled := formed.dirs parent parent_stored
    have outside : ¬ DbDir.removed path (Path.under parent name) = true := by
      simpa using kept
    rw [removed_iff plain spelled (parent_spelled.under plain legal) isChild,
      Path.segments_under (plain name legal)] at outside
    have parent_outside : ¬ DbDir.removed path parent = true := by
      rw [removed_iff plain spelled parent_spelled isChild]
      exact fun within => outside (within.trans (List.prefix_append _ _))
    simp [parent_outside]
  holder entry member := by
    obtain ⟨stored, kept⟩ := List.mem_filter.mp member
    exact List.mem_filter.mpr ⟨tree.holder entry stored, kept⟩
  apart entry member inDirs :=
    tree.apart entry (List.mem_filter.mp member).1 (List.mem_filter.mp inDirs).1

include plain in
/-- A step keeps the tree exactly when it meets the condition. -/
theorem perform_isTree_iff
    [DecidableEq Expr]
    (tree : world.store.IsTree isLegal)
    (formed : world.WellFormed isLegal)
    (issued : step.dir ∈ world.handles) :
    (step.perform isLegal factory world).store.IsTree isLegal ↔
      step.Keeps isLegal factory world := by
  have spelled := formed.handles step.dir issued
  obtain ⟨cx, dir, call⟩ := step
  cases call with
  | set key value =>
      simp only [Step.perform, DbDir.set_after, Step.Keeps]
      split
      next guards =>
        rw [tree.insert_iff guards.2.2]
        exact ⟨fun stored _ _ => stored,
          fun keeps => keeps guards.1 guards.2.1⟩
      next guards =>
        refine ⟨fun _ granted legal => ?_, fun _ => tree⟩
        by_contra missing
        exact guards ⟨granted, legal, fun child =>
          missing (tree.stored_of_child plain formed spelled legal child)⟩
  | del key =>
      simp only [Step.perform, DbDir.del_after, Step.Keeps, iff_true]
      split
      · exact tree.restrict _
      · exact tree
  | clear =>
      simp only [Step.perform, DbDir.clear_after, Step.Keeps, iff_true]
      split
      · exact tree.restrict _
      · exact tree
  | compareExchange key expected replacement =>
      simp only [Step.perform, DbDir.compareExchange_after]
      split
      next value exchanged =>
        obtain ⟨rfl, expects⟩ := DbDir.exchange_puts exchanged
        have guards := DbDir.exchange_guards exchanged
        rw [tree.insert_iff guards.2]
        constructor
        · intro stored
          cases expected with
          | absent => exact fun _ _ _ => stored
          | value expr => exact True.intro
        · intro keeps
          rcases expects with rfl | present
          · obtain ⟨granted, shown⟩ := DbDir.exchange_granted exchanged
            exact keeps granted guards.1 shown
          · exact tree.stored_of_find present
      next exchanged =>
        refine ⟨fun _ => ?_, fun _ => tree.restrict _⟩
        cases replacement with
        | delete => cases expected <;> exact True.intro
        | value value => exact absurd exchanged (DbDir.exchange_value _)
      next exchanged =>
        refine ⟨fun _ => ?_, fun _ => tree⟩
        cases replacement with
        | delete => cases expected <;> exact True.intro
        | value value =>
            cases expected with
            | value expr => exact True.intro
            | absent =>
                intro granted legal shown
                by_contra missing
                have absent : Path.under dir.path key.name ∉
                    world.store.dirs := fun child =>
                  missing
                    (tree.stored_of_child plain formed spelled legal child)
                have free : Entries.find world.store.values (dir.path, key) =
                    none := by
                  cases found : Entries.find world.store.values (dir.path, key)
                    with
                  | none => rfl
                  | some prior =>
                      exact absurd
                        (tree.stored_of_find (Option.isSome_of_eq_some found))
                        missing
                rw [DbDir.exchange_absent granted legal absent shown free]
                  at exchanged
                cases exchanged
  | mkdir name =>
      simp only [Step.perform, DbDir.mkdir_after, Step.Keeps]
      split
      next guards =>
        rw [tree.mkdir_iff plain formed spelled guards.2.1]
        exact ⟨fun made _ _ _ => made,
          fun keeps => keeps guards.1 guards.2.1 guards.2.2⟩
      next guards =>
        exact ⟨fun _ granted legal free => absurd ⟨granted, legal, free⟩ guards,
          fun _ => tree⟩
  | opendir name =>
      simp only [Step.perform, DbDir.opendir_after, Step.Keeps, iff_true]
      split
      · exact tree
      · exact tree
  | rmdir name =>
      simp only [Step.perform, DbDir.rmdir_after, Step.Keeps, iff_true]
      split
      next guards =>
        exact tree.rmdir plain formed (spelled.under plain guards.2.1)
          (Path.under_ne_empty (plain name.name guards.2.1))
      next => exact tree

end Invariants

end SimStorage.Db
