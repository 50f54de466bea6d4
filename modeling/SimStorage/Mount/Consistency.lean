import SimStorage.Mount.Shadow
import SimStorage.Mount.Views

namespace SimStorage.Mount

/-!
# When views are consistent

Where all opened views are consistent, the ways to the mounts are passable.  A
directory that `mkdir` makes answers as the view of its path while no mount is
there.
-/

open Interaction Slots Table Walk

variable {Value Expr σ : Type} {objects : Objects Value Expr σ}
variable {isLegal : String → Bool} {content : Content Value σ}
variable {world : World objects} {top view : MountedDir objects}
variable {cx : Cx} {dir : Value}

section Definitions

/--
The legal path leads to the directory, and no mount is at the path or below.
-/
structure Bare (isLegal : String → Bool) (content : Content Value σ)
    (view : MountedDir objects) (world : World objects) (dir : Value) :
    Prop where
  legal : ∀ segment ∈ view.path, isLegal segment = true
  found : Found content view world (some dir)
  free : ∀ entry ∈ world.mounts, ¬ view.path <+: entry.1

/-- A view and a directory answer alike, and so do the children. -/
structure Alike (isLegal : String → Bool) (cx : Cx)
    (content : Content Value σ) (view : MountedDir objects)
    (world : World objects) (dir : Value) : Prop where
  key : ∀ key, Delegates view cx key world dir world
  keys : ∃ names listed, Yields (view.keys cx) world (.ok names) world ∧
    Yields (objects.keys cx dir) world.backends (.ok listed) world.backends ∧
      ∀ name, name ∈ names ↔ name ∈ listed
  entries : ∃ rows, Yields (view.entries cx) world (.ok rows) world ∧
    Yields (objects.entries cx dir) world.backends (.ok rows) world.backends ∧
      Yields (view.len cx) world (.ok rows.length) world
  hasDir : ∀ name, isLegal name.name = true →
    view.hasDir isLegal cx name world =
      onBackends (objects.hasDir cx dir name) world
  opendir : ∀ name, isLegal name.name = true →
    ((∃ child, Yields (view.opendir isLegal cx name) world
        (.ok (some child)) world) ↔
      ∃ child, Yields (objects.opendir cx dir name) world.backends
        (.ok (some child)) world.backends) ∧
      ∀ child, Yields (objects.opendir cx dir name) world.backends
        (.ok (some child)) world.backends →
          Bare isLegal content (view.atPath (view.path ++ [name.name])) world
            child

end Definitions

section Converse

variable (serves : Serves objects isLegal cx content)
variable (formed : world.mounts.WellFormed)
variable (legalMounts : ∀ entry ∈ world.mounts, LegalPath isLegal entry.1)

/-- A name on the way to a mount opens. -/
theorem opendir_onTheWay
    {name : String} {entry : MountPath × MountTarget objects}
    (formed : world.mounts.WellFormed)
    (isName : isLegal name = true)
    (member : entry ∈ world.mounts)
    (below : view.path ++ [name] <+: entry.1)
    (apart : entry.1 ≠ view.path ++ [name]) :
    Yields (view.opendir isLegal cx (.new name)) world
      (.ok (some (view.atPath (view.path ++ [name])))) world := by
  have checked : Yields (MonadExcept.ofExcept (checkSegment isLegal (.new name)))
      world (.ok ()) world := .of_ok (if_pos isName) _
  refine checked.bind ((Yields.get world).bind ?_)
  cases direct : view.directMountValue world.mounts (.new name) with
  | some target =>
      have inMounts := Entries.mem_of_find direct
      cases isKind : target.kind with
      | dir =>
          simp only [isKind]
          exact Yields.pure _ _
      | table =>
          have same := formed.leaves _ inMounts isKind entry member below
          exact absurd (congrArg Prod.fst same) apart
  | none =>
      have isBelow : view.childHasMount world.mounts (.new name) = true :=
        List.any_eq_true.mpr ⟨entry, member, isPrefix_iff.mpr below⟩
      simp only [isBelow, if_true]
      exact Yields.pure _ _

include formed legalMounts in
/-- All places on the way to a mount are opened. -/
theorem opened_onTheWay
    {entry : MountPath × MountTarget objects} {front more : MountPath}
    {name : String}
    (rooted : top.path = [])
    (member : entry ∈ world.mounts)
    (split : entry.1 = front ++ name :: more) :
    Opened isLegal cx top world (top.atPath front) := by
  induction front using List.reverseRecOn generalizing name more with
  | nil =>
      have same : top.atPath [] = top := by
        rw [← rooted]
        rfl
      rw [same]
      exact .top
  | append_singleton front last inductionHypothesis =>
      have earlier : entry.1 = front ++ last :: name :: more := by
        rw [split, List.append_assoc]
        rfl
      have isName : isLegal last = true :=
        legalMounts entry member last (by simp [earlier])
      have opens := @opendir_onTheWay _ _ _ _ isLegal world (top.atPath front) cx
        last entry formed isName member ⟨name :: more, split.symm⟩
        fun equal => by
          have equal : front ++ [last] ++ name :: more = front ++ [last] :=
            split.symm.trans equal
          simp at equal
      exact .opened (inductionHypothesis earlier) opens

/-- What `get` gives at a mount is what the mount shows. -/
theorem shows_of_get
    {key : Symbol} {target : MountTarget objects} {value : Value}
    (direct : view.directMountValue world.mounts key = some target)
    (gets : Yields (view.get cx key) world (.ok value) world) :
    Shows target value := by
  have rest := (Yields.get world).rest gets
  rw [direct] at rest
  unfold Shows
  cases isKind : target.kind with
  | table =>
      simp only [isKind] at rest
      exact (Except.ok.inj ((Yields.pure _ _).unique rest).1).symm
  | dir =>
      simp only [isKind] at rest
      exact rest.ofExcept_inv.1.symm

include serves formed legalMounts in
/-- Where all opened views are consistent, the ways are passable. -/
theorem passable_of_consistent
    (rooted : top.path = [])
    (consistent : ∀ view, Opened isLegal cx top world view →
      Consistent isLegal cx view world) :
    Passable content cx top world := by
  intro entry member front name more split target rest owner
  have opened := @opened_onTheWay _ _ _ _ isLegal world top cx formed
    legalMounts entry front more name rooted member split
  have agrees := consistent (top.atPath front) opened
  have below : front <+: entry.1 := ⟨name :: more, split.symm⟩
  have isDir := owner.kind_of_below formed member below (by rw [split]; simp)
  have fits := target.fits
  rw [isDir] at fits
  obtain ⟨before, above⟩ := owner.below
  have legalFront : LegalPath isLegal front := fun segment inFront =>
    legalMounts entry member segment (by simp [split, inFront])
  have legalRest : LegalPath isLegal rest := fun segment inRest =>
    legalFront segment (above ▸ List.mem_append_right before inRest)
  cases walked : walk (Slots.next (content world.backends)) target.value rest with
  | some dir =>
      have found : Found content (top.atPath front) world (some dir) := by
        obtain ⟨_, _, reached, _⟩ :=
          @opens_walk _ _ _ _ _ _ cx _ _ world.backends serves fits legalRest
        exact .dir owner isDir walked (reached dir walked).2
      have backed := found.backing serves formed.distinct legalFront
      obtain ⟨rows, listed, held, _⟩ :=
        serves.entries dir world.backends (by cases found; assumption)
      obtain ⟨all, entries, gets⟩ := agrees.entries
      have answered : Yields (onBackends (objects.entries cx dir)) world
          (.ok rows) world := onBackends_yields listed
      have entries := answered.rest (backed.rest ((Yields.get world).rest entries))
      obtain ⟨_, _, checked, returned⟩ := entries.bind_ok
      obtain ⟨passed, _⟩ := checked.ofExcept_inv
      obtain ⟨same, _⟩ := (Yields.pure _ _).unique returned
      obtain rfl := Except.ok.inj same
      have apart := checkRows_eq_ok.mp passed.symm
      constructor
      · intro value leaf
        refine apart _ ((held name value).mpr leaf) ?_
        exact isSome_directMountChildren.mpr
          ⟨entry, member, name, more, split, rfl⟩
      · intro last others also row isRow named
        obtain ⟨same, _⟩ := listed.unique also
        obtain rfl := Except.ok.inj same
        have direct : (top.atPath front).directMountValue world.mounts row.1 =
            some entry.2 := by
          have place : entry = (front ++ [row.1.name], entry.2) := by
            rw [named, ← last, ← split]
          exact formed.distinct.mem_iff.mp (place ▸ member)
        exact shows_of_get direct (gets row (List.mem_append_left _ isRow))
  | none =>
      obtain ⟨outcome, opens, _, lost, _⟩ :=
        @opens_walk _ _ _ _ _ _ cx _ _ world.backends serves fits legalRest
      obtain ⟨node, unbacked, resolved⟩ :=
        @MountedDir.resolveCurrent_missing _ _ _ _ world _ _ (top.atPath front)
          cx _ outcome formed.distinct owner isDir opens (lost walked)
      obtain ⟨names, listed, _⟩ := agrees.keys
      rcases unbacked with ⟨error, rfl⟩ | ⟨_, uncovered⟩
      · have failed := (resolved.bindError : Yields ((top.atPath front).backing
          cx) _ _ _)
        have fails : Yields ((top.atPath front).keys cx) world (.error error)
            world := failed.bindError
        cases (fails.unique listed).1
      · exact uncovered

end Converse

section Making

variable (serves : Serves objects isLegal cx content)
variable (formed : world.mounts.WellFormed)
variable {name : Symbol} {made : Value}

/-- No mount is at a name of a bare view, or below. -/
theorem Bare.freeAt
    (bare : Bare isLegal content view world dir)
    (key : Symbol) :
    Free world.mounts view.path key := fun entry member below =>
  bare.free entry member ((List.prefix_append _ _).trans below)

/-- A bare view shows no mount. -/
theorem Bare.directMountChildren
    (bare : Bare isLegal content view world dir) :
    view.directMountChildren world.mounts = [] := by
  rw [List.eq_nil_iff_forall_not_mem]
  rintro ⟨name, kind⟩ member
  have isSome := Entries.mem_keys.mp (List.mem_map.mpr ⟨_, member, rfl⟩)
  obtain ⟨entry, inMounts, segment, more, split, _⟩ :=
    isSome_directMountChildren.mp isSome
  exact bare.free entry inMounts ⟨segment :: more, split.symm⟩

include serves in
/-- A directory of a bare view's directory stands for a bare view. -/
theorem Bare.child
    (bare : Bare isLegal content view world dir)
    (isName : isLegal name.name = true)
    (held : content world.backends dir name.name = some (.dir made)) :
    Bare isLegal content (view.atPath (view.path ++ [name.name])) world
      made where
  legal segment member := by
    rcases List.mem_append.mp member with inPath | isLast
    · exact bare.legal segment inPath
    · rw [List.mem_singleton.mp isLast]
      exact isName
  found := by
    have free : ∀ entry ∈ world.mounts,
        entry.1 ≠ view.path ++ [name.name] := fun entry member same =>
      bare.free entry member ⟨[name.name], same.symm⟩
    cases bare.found with
    | dir owner isDir walked _ =>
        refine .dir (owner.concat free) isDir ?_ (serves.held _ _ _ _ held)
        rw [walk_concat, walked]
        exact next_eq_some.mpr held
  free entry member below :=
    bare.free entry member ((List.prefix_append _ _).trans below)

include serves formed in
/-- A bare view and the directory that its path leads to answer alike. -/
theorem Bare.alike
    (bare : Bare isLegal content view world dir) :
    Alike isLegal cx content view world dir := by
  have backed := bare.found.backing serves formed.distinct bare.legal
  have backedDir := bare.found.backingDir serves formed.distinct bare.legal
  have isDir : objects.isDir dir = true := by
    cases bare.found
    assumption
  have children := bare.directMountChildren
  obtain ⟨rows, listedRows, _⟩ := serves.entries dir world.backends isDir
  have entries : Yields (view.entries cx) world (.ok rows) world := by
    refine (Yields.get world).bind (backed.bind ?_)
    refine (onBackends_yields listedRows).bind ?_
    have checked : MountedDir.checkRows
        (view.directMountChildren world.mounts) rows = .ok () := by
      rw [children]
      exact checkRows_eq_ok.mpr fun _ _ isChild => by cases isChild
    refine (Yields.of_ok checked _).bind ?_
    rw [MountedDir.mountRows, children, List.filterMap_nil, List.append_nil]
    exact Yields.pure _ _
  obtain ⟨names, listed, _⟩ := serves.keys dir world.backends isDir
  refine ⟨fun key => ?_, ?_, ⟨rows, entries, listedRows, ?_⟩,
    fun name isName => ?_, fun name isName => ⟨?_, fun child opened => ?_⟩⟩
  · exact MountedDir.delegates_of_backing (bare.freeAt key) backed
  · have listedKeys : Yields (onBackends (objects.keys cx dir)) world
        (.ok names) world := onBackends_yields listed
    refine ⟨_, names, backed.bind (listedKeys.bind
      ((Yields.get _).bind (.pure _ _))), listed, fun name => ?_⟩
    rw [children, List.map_nil, List.append_nil, List.mem_dedup]
  · exact entries.bind (.pure _ _)
  · have checked : Yields (MonadExcept.ofExcept (checkSegment isLegal name))
        world (.ok ()) world := .of_ok (if_pos isName) _
    refine checked.bind_eq.trans ((Yields.get world).bind_eq.trans ?_)
    rw [MountedDir.directMountValue_of_free (bare.freeAt name),
      if_neg (by simp [MountedDir.childHasMount_of_free (bare.freeAt name)])]
    exact backedDir.bind_eq
  · obtain ⟨outcome, opens, isView⟩ :=
      opendir_yields serves formed bare.legal bare.found isName
    obtain ⟨found, answered, isChild, _⟩ :=
      serves.opendir dir name world.backends isDir isName
    simp only [Enters,
      MountedDir.directMountValue_of_free (bare.freeAt name),
      MountedDir.childHasMount_of_free (bare.freeAt name)] at isView
    constructor
    · rintro ⟨view, opened⟩
      obtain ⟨rfl, _⟩ := opens.unique opened
      obtain ⟨_, below | ⟨_, child, same, held⟩⟩ := (isView view).mp rfl
      · cases below
      · cases same
        exact ⟨child, (isChild child).mpr held ▸ answered⟩
    · rintro ⟨child, opened⟩
      obtain ⟨rfl, _⟩ := answered.unique opened
      have held := (isChild child).mp rfl
      exact ⟨_, (isView _).mpr ⟨rfl, .inr ⟨dir, child, rfl, held⟩⟩ ▸ opens⟩
  · obtain ⟨found, answered, isChild, _⟩ :=
      serves.opendir dir name world.backends isDir isName
    obtain ⟨rfl, _⟩ := answered.unique opened
    exact bare.child serves isName ((isChild child).mp rfl)

/-- What passes the check for mounts has none. -/
theorem free_of_checked
    {action : String} {later : World objects}
    (checked : Yields (view.checkNoMountChild name action) world (.ok ())
      later) :
    later = world ∧ Free world.mounts view.path name := by
  have rest := (Yields.get world).rest checked
  by_cases isBelow : view.childHasMount world.mounts name = true
  · rw [if_pos isBelow] at rest
    cases ((Yields.throw _ _).unique rest).1
  · rw [if_neg isBelow] at rest
    obtain ⟨_, rfl⟩ := (Yields.pure _ _).unique rest
    exact ⟨rfl, fun entry member below =>
      isBelow (List.any_eq_true.mpr ⟨entry, member, isPrefix_iff.mpr below⟩)⟩

include serves formed in
/-- The directory that `mkdir` makes is one that a bare view leads to. -/
theorem mkdir_bare
    {place : Option Value} {later : World objects}
    (legal : LegalPath isLegal view.path)
    (found : Found content view world place)
    (makes : Yields (view.mkdir isLegal cx name) world (.ok made) later) :
    later.mounts = world.mounts ∧
      Bare isLegal content (view.atPath (view.path ++ [name.name])) later
        made := by
  have backed := found.backingDir serves formed.distinct legal
  obtain ⟨_, _, checked, rest⟩ := makes.bind_ok
  obtain ⟨passed, rfl⟩ := checked.ofExcept_inv
  have isName : isLegal name.name = true := by
    by_contra illegal
    rw [checkSegment, if_neg illegal] at passed
    cases passed
  obtain ⟨_, _, noMount, opens⟩ := rest.bind_ok
  obtain ⟨rfl, free⟩ := free_of_checked noMount
  have onDir := backed.rest opens
  cases found with
  | virtual _ _ _ => cases ((Yields.throw _ _).unique onDir).1
  | dir owner isDir walked _ =>
      obtain ⟨backends, made, rfl⟩ := onBackends_inv onDir
      obtain ⟨held, stays⟩ := serves.mkdir _ _ _ _ _ made
      have walked := walk_mono (fun other query last led =>
        next_eq_some.mpr (stays other query last (next_eq_some.mp led))) walked
      refine ⟨rfl, fun segment member => ?_, ?_, free⟩
      · rcases List.mem_append.mp member with inPath | isLast
        · exact legal segment inPath
        · rw [List.mem_singleton.mp isLast]
          exact isName
      · refine .dir (owner.concat fun entry member same =>
          free entry member ⟨[], by rw [List.append_nil, same]⟩) isDir ?_
          (serves.held _ _ _ _ held)
        rw [walk_concat, walked]
        exact next_eq_some.mpr held

include serves in
/-- What a mount below a directory adds, the directory itself lacks. -/
theorem has_apart
    {entry : MountPath × MountTarget objects} {key : String}
    {more : MountPath}
    (isDir : objects.isDir dir = true)
    (isName : isLegal key = true)
    (member : entry ∈ world.mounts)
    (split : entry.1 = view.path ++ key :: more)
    (absent : content world.backends dir key = none) :
    Yields (view.has cx (.new key)) world (.ok true) world ∧
      Yields (objects.has cx dir (.new key)) world.backends (.ok false)
        world.backends := by
  have isBelow : view.childHasMount world.mounts (.new key) = true := by
    refine List.any_eq_true.mpr ⟨entry, member, isPrefix_iff.mpr ⟨more, ?_⟩⟩
    rw [split, List.append_assoc]
    rfl
  have held := serves.has dir key world.backends isDir isName
  rw [absent] at held
  refine ⟨(Yields.get world).bind ?_, held⟩
  rw [if_pos isBelow]
  exact Yields.pure _ _

end Making

section Runs

/-- What `opendir` gives is the view of the child's path. -/
theorem opendir_eq
    {name : Symbol} {child : MountedDir objects} {later : World objects}
    (opened : Yields (view.opendir isLegal cx name) world (.ok (some child))
      later) :
    child = view.atPath (view.path ++ [name.name]) := by
  obtain ⟨_, _, _, rest⟩ := opened.bind_ok
  have rest := (Yields.get _).rest rest
  split at rest
  · split at rest
    · exact (Option.some.inj (Except.ok.inj
        ((Yields.pure _ _).unique rest).1)).symm
    · cases ((Yields.throw _ _).unique rest).1
  · split at rest
    · exact (Option.some.inj (Except.ok.inj
        ((Yields.pure _ _).unique rest).1)).symm
    · obtain ⟨found, _, _, rest⟩ := rest.bind_ok
      cases found with
      | none => cases ((Yields.pure _ _).unique rest).1
      | some dir =>
          obtain ⟨found, _, _, rest⟩ := rest.bind_ok
          cases found with
          | none => cases ((Yields.pure _ _).unique rest).1
          | some _ =>
              exact (Option.some.inj (Except.ok.inj
                ((Yields.pure _ _).unique rest).1)).symm

/-- A view is known by its path, whenever it was opened. -/
theorem Opened.eq_atPath
    (opened : Opened isLegal cx top world view) :
    view = top.atPath view.path := by
  induction opened with
  | top => rfl
  | opened _ opens inductionHypothesis =>
      rw [opendir_eq opens, inductionHypothesis]
      rfl

/--
In every mount table that registrations reach, the views that are opened are
consistent just when the ways to the mounts are passable.  Views of one path are
one view, whenever they were opened.  A directory that `mkdir` makes answers as
the view of its path while no mount is there, and lacks what mounts below add.
-/
theorem views_consistent_iff
    (serves : Serves objects isLegal cx content)
    (rooted : top.path = [])
    (reached : Reached isLegal top world) :
    ((∀ view, Opened isLegal cx top world view →
        Consistent isLegal cx view world) ↔ Passable content cx top world) ∧
      (∀ (first second : MountedDir objects) (otherCx : Cx)
          (earlier : World objects),
        Opened isLegal otherCx top earlier first →
          Opened isLegal cx top world second → first.path = second.path →
            first = second) ∧
      (Passable content cx top world →
        ∀ (view : MountedDir objects) (name : Symbol) (made : Value)
          (later : World objects), Opened isLegal cx top world view →
          Yields (view.mkdir isLegal cx name) world (.ok made) later →
            Reached isLegal top later ∧
              Bare isLegal content (view.atPath (view.path ++ [name.name]))
                later made) ∧
      ∀ (view : MountedDir objects) (dir : Value),
        (Bare isLegal content view world dir →
          Alike isLegal cx content view world dir) ∧
        (Found content view world (some dir) →
          ∀ entry ∈ world.mounts, ∀ name more,
            entry.1 = view.path ++ name :: more →
              content world.backends dir name = none →
                Yields (view.has cx (.new name)) world (.ok true) world ∧
                  Yields (objects.has cx dir (.new name)) world.backends
                    (.ok false) world.backends) := by
  have formed := reached.wellFormed
  have legalMounts := reached.legal
  refine ⟨⟨?_, ?_⟩, ?_, ?_, fun view dir => ⟨?_, ?_⟩⟩
  · exact passable_of_consistent serves formed legalMounts rooted
  · intro passable view opened
    obtain ⟨same, legal, place, found⟩ :=
      opened.found serves formed legalMounts passable rooted
    exact found.consistent serves formed legal passable same
  · intro first second otherCx earlier opened also same
    rw [opened.eq_atPath, also.eq_atPath, same]
  · intro passable view name made later opened makes
    obtain ⟨_, legal, place, found⟩ :=
      opened.found serves formed legalMounts passable rooted
    obtain ⟨same, bare⟩ := mkdir_bare serves formed legal found makes
    have changed : Reached isLegal top { world with backends := later.backends } :=
      .changed _ reached
    rw [← same] at changed
    exact ⟨changed, bare⟩
  · exact fun bare => bare.alike serves formed
  · intro found entry member name more split absent
    have isDir : objects.isDir dir = true := by
      cases found
      assumption
    have isName := legalMounts entry member name (by simp [split])
    exact has_apart serves isDir isName member split absent

end Runs

section Samples

theorem drawersMounted_reached :
    Reached referenceLegal drawersTop drawersMounted :=
  .registered drawersTop fullCx (.mountDir ⟨["m"], by decide⟩ (.drawer 1))
    (.opened [[], [], []]) rfl
    (show Yields _ _ (.ok ()) drawersMounted from rfl)

/-- The root of the drawers holds nothing in the way of the mount. -/
theorem drawersMounted_passable :
    Passable Cabinet.content fullCx drawersTop drawersMounted := by
  intro entry member front name more split target rest owner
  rw [List.mem_singleton.mp member] at split
  obtain ⟨rfl, rfl, rfl⟩ : front = [] ∧ name = "m" ∧ more = [] := by
    cases front with
    | nil =>
        obtain ⟨rfl, rfl⟩ := List.cons.inj split
        exact ⟨rfl, rfl, rfl⟩
    | cons first front => simp at split
  have uncovered : Prefixes.Uncovered drawersMounted.mounts [] := by
    intro other also above
    rw [List.mem_singleton.mp also] at above
    exact absurd above (by decide)
  obtain ⟨rfl, rfl⟩ := owner.of_uncovered uncovered
  refine ⟨fun value => ?_, fun _ rows listed row isRow => ?_⟩
  · exact fun held => by cases held
  · have empty : Yields (Cabinet.objects.entries fullCx (.drawer 0))
        drawersMounted.backends (.ok []) drawersMounted.backends := rfl
    obtain ⟨same, _⟩ := empty.unique listed
    cases same
    cases isRow

theorem drawers_consistent :
    Consistent referenceLegal fullCx (drawersTop.atPath ["m"])
      drawersMounted := by
  have opened : Opened referenceLegal fullCx drawersTop drawersMounted
      (drawersTop.atPath ["m"]) :=
    .opened .top (show Yields (drawersTop.opendir referenceLegal fullCx
      (.new "m")) _ _ _ from rfl)
  exact (views_consistent_iff (Cabinet.objects_serve referenceLegal fullCx) rfl
    drawersMounted_reached).1.mpr drawersMounted_passable _ opened

/-- A table is mounted below a directory that the mounted store lacks. -/
def lackingWorld : World Stores.objects where
  mounts := [(["m"], sampleTarget),
    (["m", "v", "leaf"], { kind := .table, value := .dir 0 .root, fits := rfl })]
  backends := [Db.DbDir.openStore, Db.DbDir.openStore]

/-- A view on the way to the mounted table opens, but has no keys to list. -/
theorem opened_view_fails :
    Reached referenceLegal sampleTop lackingWorld ∧
      Opened referenceLegal fullCx sampleTop lackingWorld
        (sampleTop.atPath ["m", "v"]) ∧
        Yields ((sampleTop.atPath ["m", "v"]).keys fullCx) lackingWorld
          (.error (.eval "table/mount: mounted directory path is missing"))
          lackingWorld := by
  refine ⟨?_, ?_, rfl⟩
  · have mounted : Reached referenceLegal sampleTop
        ⟨[(["m"], sampleTarget)], lackingWorld.backends⟩ :=
      .registered sampleTop fullCx
        (.mountDir ⟨["m"], by decide⟩ (.dir 1 .root))
        (.opened lackingWorld.backends) rfl
        (show Yields _ _ (.ok ()) _ from rfl)
    exact .registered sampleTop fullCx
      (.mountTable ⟨["m", "v", "leaf"], by decide⟩ (.dir 0 .root)) mounted rfl
      (show Yields _ _ (.ok ()) lackingWorld from rfl)
  · have first : Opened referenceLegal fullCx sampleTop lackingWorld
        (sampleTop.atPath ["m"]) :=
      .opened .top (show Yields (sampleTop.opendir referenceLegal fullCx
        (.new "m")) _ _ _ from rfl)
    exact .opened first (show Yields ((sampleTop.atPath ["m"]).opendir
      referenceLegal fullCx (.new "v")) _ _ _ from rfl)

end Samples

end SimStorage.Mount
