import SimStorage.Mount.Cabinet

namespace SimStorage.Mount

/-!
# Mounts and what the backends hold

A mount stands clear when no backend above it, the root or a mounted directory,
holds anything at its place or a value on the way.  The root is checked when a
mount is made; where the directories that are mounted are checked as well, and
no directory is written under two paths, all mounts stand clear in every run.
-/

open Interaction Slots Table Walk

variable {Value Expr σ α : Type} {objects : Objects Value Expr σ}
variable {isLegal : String → Bool} {content : Content Value σ}
variable {mounts : Mounts objects} {world later : World objects}
variable {top view : MountedDir objects} {cx : Cx} {key : Symbol}
variable {path point front : MountPath} {value dir : Value}

section Definitions

/-- The root at no path, and the mounts at theirs. -/
inductive Layer (top : MountedDir objects) (mounts : Mounts objects) :
    MountPath → Value → Prop where
  | root : Layer top mounts [] top.root
  | mount {entry : MountPath × MountTarget objects} :
      entry ∈ mounts → Layer top mounts entry.1 entry.2.value

/-- No layer above a mount holds anything at the mount or a value on the way. -/
def Clear (content : Content Value σ) (top : MountedDir objects)
    (world : World objects) : Prop :=
  ∀ front value, Layer top world.mounts front value →
    ∀ entry ∈ world.mounts, ∀ rest, rest ≠ [] → entry.1 = front ++ rest →
      Vacant (content world.backends) value rest

/--
No mount is below the point, and when its parent belongs to a mount, the target
has nothing at the point and no value on the way.
-/
structure Room (content : Content Value σ) (world : World objects)
    (point : MountPath) : Prop where
  below : ∀ entry ∈ world.mounts, point <+: entry.1 → entry.1 = point
  owner : ∀ entry rest, Prefixes.Nearest world.mounts point.dropLast entry →
    point = entry.1 ++ rest →
      Vacant (content world.backends) entry.2.value rest

/--
The directory that a view stands for is not on the way to a mount at another
path, just before the name.
-/
def Alone (content : Content Value σ) (top view : MountedDir objects)
    (world : World objects) (name : String) : Prop :=
  ∀ dir, Stands content view world dir →
    ∀ front value, Layer top world.mounts front value →
      ∀ entry ∈ world.mounts, ∀ rest more,
        entry.1 = front ++ rest ++ name :: more →
          walk (next (content world.backends)) value rest = some dir →
            front ++ rest = view.path

/-- The calls that change what the backends hold. -/
inductive Change (Value Expr : Type) where
  | set (key : Symbol) (value : Value)
  | compareExchange (key : Symbol) (expected : TableExpected Expr)
      (replacement : TableReplacement Value)
  | mkdir (name : Symbol)
  | del (key : Symbol)
  | clear
  | rmdir (name : Symbol)

/-- What a change does in the namespace. -/
def Change.run (isLegal : String → Bool) (view : MountedDir objects) (cx : Cx) :
    Change Value Expr → Calling objects Unit
  | .set key value => view.set cx key value
  | .compareExchange key expected replacement =>
      discard (view.compareExchange cx key expected replacement)
  | .mkdir name => discard (view.mkdir isLegal cx name)
  | .del key => discard (view.del cx key)
  | .clear => view.clear cx
  | .rmdir name => discard (view.rmdir isLegal cx name)

/-- The name under which a change may make something. -/
def Change.makes : Change Value Expr → Option Symbol
  | .set key _ => some key
  | .compareExchange key _ _ => some key
  | .mkdir name => some name
  | _ => none

end Definitions

/-- The mounts stay, and the slots of the backends are as before or empty. -/
def Kept (content : Content Value σ) (world later : World objects) : Prop :=
  later.mounts = world.mounts ∧
    Shrinks (content world.backends) (content later.backends)

/-- The mounts stay, and a slot without a mount changes in the view's place. -/
def Written (content : Content Value σ) (view : MountedDir objects)
    (key : Symbol) (world later : World objects) : Prop :=
  later.mounts = world.mounts ∧
    view.childHasMount world.mounts key = false ∧
      ∃ dir, Stands content view world dir ∧
        Changes (content world.backends) (content later.backends) dir key.name

theorem Kept.refl
    (world : World objects) :
    Kept content world world :=
  ⟨rfl, .refl⟩

section Calls

variable {outcome : Except Error α}

/-- The guard stops the call, or no mount is at the key. -/
theorem guard_inv
    {action : String} {rest : Calling objects α}
    (yields : Yields (do
      view.checkNoMountChild key action
      rest) world outcome later) :
    later = world ∨ view.childHasMount world.mounts key = false ∧
      Yields rest world outcome later := by
  have guards : Reads (view.checkNoMountChild key action) world fun _ =>
      view.childHasMount world.mounts key = false := by
    refine .reading ?_
    split
    · exact .throw _
    · next free => exact .pure (by simpa using free)
  rcases yields.bind_inv with ⟨_, _, passed, runs⟩ | ⟨_, stopped, _⟩
  · obtain ⟨rfl, free⟩ := guards _ _ passed
    exact .inr ⟨free _ rfl, runs⟩
  · exact .inl (guards _ _ stopped).1

/-- The name is refused, or the call goes on. -/
theorem segment_inv
    {rest : Calling objects α}
    (yields : Yields (do
      MonadExcept.ofExcept (checkSegment isLegal key)
      rest) world outcome later) :
    later = world ∨ Yields rest world outcome later := by
  rcases yields.bind_inv with ⟨_, _, passed, runs⟩ | ⟨_, stopped, _⟩
  · obtain ⟨_, rfl⟩ := passed.ofExcept_inv
    exact .inr runs
  · exact .inl stopped.ofExcept_inv.2

/-- A call on the backing value does what the value's call does. -/
theorem place_inv
    {lookup : Calling objects (Option Value)} {fact : Option Value → Prop}
    {call : Value → EStateM Error σ α} {other : Calling objects α}
    (finds : Reads lookup world fact)
    (otherwise : Reads other world fun _ => True)
    (yields : Yields (do
      match ← lookup with
      | some dir => onBackends (call dir)
      | none => other) world outcome later) :
    later = world ∨ ∃ dir backends, fact (some dir) ∧
      Yields (call dir) world.backends outcome backends ∧
        later = { world with backends } := by
  rcases yields.bind_inv with ⟨found, _, looked, yields⟩ | ⟨_, failed, _⟩
  · obtain ⟨rfl, so⟩ := finds _ _ looked
    cases found with
    | some dir =>
        obtain ⟨backends, runs, rfl⟩ := onBackends_inv yields
        exact .inr ⟨dir, backends, so _ rfl, runs, rfl⟩
    | none => exact .inl (otherwise _ _ yields).1
  · exact .inl (finds _ _ failed).1

end Calls

section Changes

variable {change : Change Value Expr} {outcome : Except Error Unit}

/-- What a change does to the backends. -/
theorem Change.run_written
    (truthful : Truthful objects content)
    (yields : Yields (change.run isLegal view cx) world outcome later) :
    Kept content world later ∨
      ∃ key, change.makes = some key ∧ Written content view key world later := by
  cases change with
  | set key stored =>
      rcases guard_inv yields with rfl | ⟨free, yields⟩
      · exact .inl (.refl _)
      · rcases place_inv (backing_reads truthful view cx world) (.throw _)
          yields with rfl | ⟨dir, backends, stands, runs, rfl⟩
        · exact .inl (.refl _)
        · exact .inr ⟨key, rfl, rfl, free, dir, stands dir rfl,
            truthful.set _ _ _ _ _ _ _ runs⟩
  | compareExchange key expected replacement =>
      obtain ⟨found, yields, _⟩ := yields.discard_inv
      rcases guard_inv yields with rfl | ⟨free, yields⟩
      · exact .inl (.refl _)
      · rcases place_inv (backing_reads truthful view cx world) (.throw _)
          yields with rfl | ⟨dir, backends, stands, runs, rfl⟩
        · exact .inl (.refl _)
        · exact .inr ⟨key, rfl, rfl, free, dir, stands dir rfl,
            truthful.compareExchange _ _ _ _ _ _ _ _ runs⟩
  | mkdir name =>
      obtain ⟨found, yields, _⟩ := yields.discard_inv
      rcases segment_inv yields with rfl | yields
      · exact .inl (.refl _)
      · rcases guard_inv yields with rfl | ⟨free, yields⟩
        · exact .inl (.refl _)
        · rcases place_inv (backingDir_reads truthful view cx world) (.throw _)
            yields with rfl | ⟨dir, backends, stands, runs, rfl⟩
          · exact .inl (.refl _)
          · exact .inr ⟨name, rfl, rfl, free, dir, stands dir rfl,
              truthful.mkdir _ _ _ _ _ _ runs⟩
  | del key =>
      obtain ⟨found, yields, _⟩ := yields.discard_inv
      rcases guard_inv yields with rfl | ⟨_, yields⟩
      · exact .inl (.refl _)
      · rcases place_inv (backing_reads truthful view cx world)
          (.ofExcept fun _ _ => trivial) yields with
            rfl | ⟨dir, backends, _, runs, rfl⟩
        · exact .inl (.refl _)
        · exact .inl ⟨rfl, truthful.del _ _ _ _ _ _ runs⟩
  | clear =>
      have yields := (Yields.get world).rest yields
      split at yields
      · obtain ⟨_, rfl⟩ := (Yields.throw _ _).unique yields
        exact .inl (.refl _)
      · rcases place_inv (backing_reads truthful view cx world) (.pure trivial)
          yields with rfl | ⟨dir, backends, _, runs, rfl⟩
        · exact .inl (.refl _)
        · exact .inl ⟨rfl, truthful.clear _ _ _ _ _ runs⟩
  | rmdir name =>
      obtain ⟨found, yields, _⟩ := yields.discard_inv
      rcases segment_inv yields with rfl | yields
      · exact .inl (.refl _)
      · rcases guard_inv yields with rfl | ⟨_, yields⟩
        · exact .inl (.refl _)
        · rcases place_inv (backingDir_reads truthful view cx world)
            (.ofExcept fun _ _ => trivial) yields with
              rfl | ⟨dir, backends, _, runs, rfl⟩
          · exact .inl (.refl _)
          · exact .inl ⟨rfl, truthful.rmdir _ _ _ _ _ _ runs⟩

end Changes

section Invariant

theorem childHasMount_eq_false
    (free : view.childHasMount mounts key = false) :
    ∀ entry ∈ mounts, ¬ (view.path ++ [key.name]) <+: entry.1 := by
  intro entry member below
  have isChild : view.childHasMount mounts key = true :=
    List.any_eq_true.mpr ⟨entry, member, isPrefix_iff.mpr below⟩
  rw [free] at isChild
  cases isChild

/-- What empties slots keeps the mounts clear. -/
theorem Clear.kept
    (clear : Clear content top world)
    (kept : Kept content world later) :
    Clear content top later := by
  obtain ⟨same, shrinks⟩ := kept
  intro front value layer entry member rest isPath below
  rw [same] at layer member
  exact (clear front value layer entry member rest isPath below).shrinks shrinks

/-- What is written where no other path leads keeps the mounts clear. -/
theorem Clear.written
    (clear : Clear content top world)
    (written : Written content view key world later)
    (alone : Alone content top view world key.name) :
    Clear content top later := by
  obtain ⟨same, free, dir, stands, changes⟩ := written
  intro front value layer entry member rest isPath below
  rw [same] at layer member
  have vacant := clear front value layer entry member rest isPath below
  refine vacant.changes changes fun inside more split walked => ?_
  have spelled : entry.1 = front ++ inside ++ key.name :: more := by
    rw [below, split, List.append_assoc]
  have here := alone dir stands front value layer entry member inside more
    spelled walked
  refine childHasMount_eq_false free entry member ⟨more, ?_⟩
  rw [spelled, here, List.append_assoc]
  rfl

/-- A vacant place stays vacant when mounts are removed. -/
theorem Clear.removed
    (clear : Clear content top world)
    (point : MountPath) :
    Clear content top
      { world with mounts := Entries.remove world.mounts point } := by
  intro front value layer entry member rest isPath below
  have layer : Layer top world.mounts front value := by
    cases layer with
    | root => exact .root
    | mount member => exact .mount (List.mem_filter.mp member).1
  exact clear front value layer entry (List.mem_filter.mp member).1 rest isPath
    below

/-- With room at a point, no layer above has anything there. -/
theorem Room.vacant
    (clear : Clear content top world)
    (room : Room content world point)
    (rooted : Vacant (content world.backends) top.root point)
    (layer : Layer top world.mounts front value)
    {rest : MountPath}
    (isPath : rest ≠ [])
    (below : point = front ++ rest) :
    Vacant (content world.backends) value rest := by
  cases layer with
  | root =>
      rw [List.nil_append] at below
      exact below ▸ rooted
  | @mount entry member =>
      have parent : point.dropLast = entry.1 ++ rest.dropLast := by
        rw [below, List.dropLast_append_of_ne_nil isPath]
      have above : entry.1 <+: point.dropLast := ⟨_, parent.symm⟩
      cases found : Prefixes.longest point.dropLast world.mounts with
      | none =>
          exact absurd above (Prefixes.longest_eq_none.mp found entry member)
      | some nearest =>
          have isNearest := Prefixes.nearest_of_longest found
          obtain ⟨middle, between⟩ := isNearest.2.2 entry member above
          obtain ⟨last, ends⟩ : ∃ last, point = nearest.1 ++ last :=
            (isNearest.2.1.trans (List.dropLast_prefix point)).imp
              fun _ => Eq.symm
          have spelled : rest = middle ++ last := by
            rw [ends, ← between, List.append_assoc] at below
            exact (List.append_cancel_left below).symm
          cases middle with
          | nil =>
              rw [List.append_nil] at between
              have also : Prefixes.Nearest world.mounts point.dropLast entry :=
                ⟨member, above, between ▸ isNearest.2.2⟩
              exact room.owner entry rest also below
          | cons name names =>
              have vacant := clear entry.1 entry.2.value (.mount member) nearest
                isNearest.1 (name :: names) (by simp) between.symm
              rw [spelled]
              exact vacant.below (by simp) last

/-- A mount where there is room keeps the mounts clear. -/
theorem Clear.mounted
    {target : MountTarget objects}
    (clear : Clear content top world)
    (room : Room content world point)
    (admits : world.mounts.Admits point target.kind)
    (rooted : Vacant (content world.backends) top.root point) :
    Clear content top
      { world with mounts := world.mounts.insert point target } := by
  intro front value layer entry member rest isPath below
  obtain ⟨apart, _⟩ := clear_of_refusal admits.clear
  have layered : Layer top world.mounts front value ∨ front = point := by
    cases layer with
    | root => exact .inl .root
    | mount above =>
        rcases Mounts.mem_insert.mp above with rfl | old
        · exact .inr rfl
        · exact .inl (.mount old)
  rcases Mounts.mem_insert.mp member with rfl | old
  · rcases layered with layer | rfl
    · exact room.vacant clear rooted layer isPath below
    · exact absurd (List.self_eq_append_right.mp below) isPath
  · rcases layered with layer | rfl
    · exact clear front value layer entry old rest isPath below
    · exact absurd (room.below entry old ⟨rest, below.symm⟩) (apart entry old)

end Invariant

section Runs

/--
What a namespace comes to when mounts are made where there is room, and nothing
is made in a directory that is on the way to a mount at another path.
-/
inductive Orderly (isLegal : String → Bool) (content : Content Value σ)
    (top : MountedDir objects) : World objects → Prop where
  | opened (backends : σ) : Orderly isLegal content top ⟨[], backends⟩
  | registered {world later : World objects} (view : MountedDir objects)
      (cx : Cx) (registration : Registration isLegal Value)
      {outcome : Except Error Unit} :
      Orderly isLegal content top world → view.root = top.root →
        (∀ kind, registration.kind = some kind →
          world.mounts.Admits registration.point kind →
            Room content world registration.point) →
          Yields (registration.run view cx) world outcome later →
            Orderly isLegal content top later
  | changed {world later : World objects} (view : MountedDir objects) (cx : Cx)
      (change : Change Value Expr) {outcome : Except Error Unit} :
      Orderly isLegal content top world → view.root = top.root →
        (∀ key, change.makes = some key →
          Alone content top view world key.name) →
          Yields (change.run isLegal view cx) world outcome later →
            Orderly isLegal content top later

variable (truthful : Truthful objects content)

include truthful in
/-- A registration that finds room keeps the mounts clear. -/
theorem Registers.clear
    {registration : Registration isLegal Value} {outcome : Except Error Unit}
    (registers : Registers view cx registration world outcome later)
    (same : view.root = top.root)
    (room : ∀ kind, registration.kind = some kind →
      world.mounts.Admits registration.point kind →
        Room content world registration.point)
    (clear : Clear content top world) :
    Clear content top later := by
  cases registers with
  | nothing => exact clear
  | refused looked =>
      obtain ⟨rfl, _⟩ := rootExactKind_reads truthful _ _ _ _ _ _ looked
      exact clear
  | mounted isMount admits looked =>
      obtain ⟨rfl, vacant⟩ := rootExactKind_reads truthful _ _ _ _ _ _ looked
      exact clear.mounted (room _ isMount admits) admits (same ▸ vacant none rfl rfl)
  | unmounted _ => exact clear.removed _

include truthful in
/-- In every orderly run the mounts stand clear, in a well-formed table. -/
theorem Orderly.clear
    (orderly : Orderly isLegal content top world) :
    world.mounts.WellFormed ∧ Clear content top world := by
  induction orderly with
  | opened backends =>
      exact ⟨.empty, fun _ _ _ _ member => absurd member List.not_mem_nil⟩
  | registered view cx registration _ same room yields inductionHypothesis =>
      obtain ⟨formed, clear⟩ := inductionHypothesis
      have registers := registration.run_registers yields
      exact ⟨registers.wellFormed formed,
        registers.clear truthful same room clear⟩
  | changed view cx change _ same alone yields inductionHypothesis =>
      obtain ⟨formed, clear⟩ := inductionHypothesis
      rcases change.run_written truthful yields with kept | ⟨key, made, written⟩
      · exact ⟨kept.1 ▸ formed, clear.kept kept⟩
      · exact ⟨written.1 ▸ formed, clear.written written (alone key made)⟩

end Runs

section Visibility

variable (truthful : Truthful objects content)

/-- An owner is one of the layers, above the path. -/
theorem Owner.layer
    {target : MountTarget objects} {rest : MountPath}
    (same : view.root = top.root)
    (owner : Owner view.top mounts path target rest) :
    ∃ front, Layer top mounts front target.value ∧ path = front ++ rest := by
  cases owner with
  | @mount entry _ nearest below => exact ⟨entry.1, .mount nearest.1, below⟩
  | root _ =>
      have layer : Layer top mounts [] view.root := same.symm ▸ .root
      exact ⟨[], layer, rfl⟩

include truthful in
/-- The rows of a backing directory have no mount's name. -/
theorem Clear.checkRows
    (clear : Clear content top world)
    (same : view.root = top.root)
    (stands : Stands content view world dir) :
    Reads (objects.entries cx dir) world.backends fun rows =>
      MountedDir.checkRows (view.directMountChildren world.mounts) rows =
        .ok () := by
  refine (truthful.entries cx dir world.backends).imp fun rows held => ?_
  refine checkRows_eq_ok.mpr fun row member isChild => ?_
  obtain ⟨entry, inMounts, segment, more, split, named⟩ :=
    isSome_directMountChildren.mp isChild
  obtain ⟨target, rest, owner, walked⟩ := stands
  obtain ⟨front, layer, above⟩ := owner.layer same
  have below : entry.1 = front ++ (rest ++ segment :: more) := by
    rw [split, above, List.append_assoc]
  have vacant := clear front target.value layer entry inMounts _ (by simp) below
  have noLeaf := (vacant rest segment more dir rfl walked).1
  have isRow : (.new segment, row.2) ∈ rows := named ▸ member
  exact noLeaf row.2 (held segment row.2 isRow)

include truthful in
/-- `entries` fails only where the backing directory does. -/
theorem Clear.entries
    (clear : Clear content top world)
    (same : view.root = top.root)
    {error : Error}
    (yields : Yields (view.entries cx) world (.error error) later) :
    Yields (view.backing cx) world (.error error) later ∨
      ∃ dir backends, Yields (view.backing cx) world (.ok (some dir)) world ∧
        Yields (objects.entries cx dir) world.backends (.error error)
          backends := by
  have yields := (Yields.get world).rest yields
  rcases yields.bind_inv with ⟨found, _, backed, yields⟩ | ⟨_, failed, fails⟩
  · obtain ⟨rfl, stands⟩ := backing_reads truthful _ _ _ _ _ backed
    cases found with
    | none => cases ((Yields.pure _ _).unique yields).1
    | some dir =>
        rcases yields.bind_inv with ⟨rows, _, listed, rest⟩ | ⟨_, failed, fails⟩
        · obtain ⟨backends, answered, rfl⟩ := onBackends_inv listed
          have apart := (clear.checkRows truthful same
            (stands _ rfl dir rfl) _ _ answered).2 rows rfl
          have returns := (Yields.of_ok apart _).rest rest
          cases ((Yields.pure _ _).unique returns).1
        · cases fails
          obtain ⟨backends, answered, rfl⟩ := onBackends_inv failed
          exact .inr ⟨dir, backends, backed, answered⟩
  · cases fails
    exact .inl failed

/-- Where a mount is made with room, nothing was to be seen before. -/
theorem Clear.unseen
    {registration : Registration isLegal Value} {other : MountedDir objects}
    {last : String}
    (truthful : Truthful objects content)
    (clear : Clear content top world)
    (same : view.root = top.root)
    (isMount : registration.kind ≠ none)
    (room : Room content world registration.point)
    (yields : Yields (registration.run view cx) world (.ok ()) later)
    (root : other.root = top.root)
    (place : registration.point = other.path ++ [last])
    (cx : Cx) :
    Reads (other.has cx (.new last)) world fun found => found = false := by
  cases registration.run_registers yields with
  | unmounted isUnmount => exact absurd isUnmount isMount
  | mounted _ admits looked =>
      obtain ⟨rfl, vacant⟩ := rootExactKind_reads truthful _ _ _ _ _ _ looked
      have rooted : Vacant (content world.backends) top.root
          registration.point := same ▸ vacant none rfl rfl
      obtain ⟨apart, _⟩ := clear_of_refusal admits.clear
      have free : other.childHasMount world.mounts (.new last) = false := by
        refine List.any_eq_false.mpr fun entry member below => ?_
        have under : registration.point <+: entry.1 :=
          place ▸ isPrefix_iff.mp below
        exact apart entry member (room.below entry member under)
      refine .reading ?_
      rw [if_neg (by simp [free])]
      refine (backing_reads truthful other cx world).bind fun found stands => ?_
      cases found with
      | none => exact .pure rfl
      | some dir =>
          obtain ⟨target, rest, owner, walked⟩ := stands dir rfl
          obtain ⟨front, layer, above⟩ := owner.layer root
          have below : registration.point = front ++ (rest ++ [last]) := by
            rw [place, above, List.append_assoc]
          have nothing := (room.vacant clear rooted layer (by simp) below rest
            last [] dir rfl walked).2 rfl
          refine (onBackends_reads (truthful.has cx dir last _)).imp
            fun found held => ?_
          rw [nothing] at held
          simpa using held

/--
In every orderly run no backend has anything where a mount stands, `entries`
fails only where a backend does, and a mount that succeeds where there is room
had nothing to be seen in its place.
-/
theorem mounts_never_shadow
    (truthful : Truthful objects content)
    (orderly : Orderly isLegal content top world) :
    Clear content top world ∧
      (∀ (view : MountedDir objects) (cx : Cx) (error : Error)
          (later : World objects),
        view.root = top.root →
          Yields (view.entries cx) world (.error error) later →
            Yields (view.backing cx) world (.error error) later ∨
              ∃ dir backends,
                Yields (view.backing cx) world (.ok (some dir)) world ∧
                  Yields (objects.entries cx dir) world.backends
                    (.error error) backends) ∧
      ∀ (view : MountedDir objects) (cx : Cx)
          (registration : Registration isLegal Value) (later : World objects),
        view.root = top.root → registration.kind ≠ none →
          Room content world registration.point →
            Yields (registration.run view cx) world (.ok ()) later →
              ∀ (other : MountedDir objects) (last : String) (cx : Cx),
                other.root = top.root →
                  registration.point = other.path ++ [last] →
                    Reads (other.has cx (.new last)) world fun found =>
                      found = false := by
  have clear := (orderly.clear truthful).2
  refine ⟨clear, fun view cx error later same yields => ?_, ?_⟩
  · exact clear.entries truthful same yields
  · intro view cx registration later same isMount room yields other last cx root
      place
    exact clear.unseen truthful same isMount room yields root place cx

end Visibility

section Samples

/-- A namespace over the first drawer. -/
def drawersTop : MountedDir Cabinet.objects where
  root := .drawer 0
  path := []
  isDir := rfl

/-- The second drawer as a directory. -/
def drawersDir : MountTarget Cabinet.objects where
  kind := .dir
  value := .drawer 1
  fits := rfl

/-- The third drawer as a table. -/
def drawersLeaf : MountTarget Cabinet.objects where
  kind := .table
  value := .drawer 2
  fits := rfl

/-- The second drawer is mounted. -/
def drawersMounted : World Cabinet.objects where
  mounts := [(["m"], drawersDir)]
  backends := [[], [], []]

/-- The third drawer is mounted in the second. -/
def drawersNested : World Cabinet.objects where
  mounts := [(["m"], drawersDir), (["m", "t"], drawersLeaf)]
  backends := [[], [], []]

/-- A value was set in the second drawer. -/
def drawersWritten : World Cabinet.objects where
  mounts := drawersNested.mounts
  backends := [[], [(.new "a", .leaf (.text "x"))], []]

theorem drawersMounted_room :
    Room Cabinet.content drawersMounted ["m", "t"] where
  below entry member below := by
    rw [List.mem_singleton.mp member] at below
    exact absurd below (by decide)
  owner entry rest nearest split := by
    rw [List.mem_singleton.mp nearest.1] at split ⊢
    obtain rfl : rest = ["t"] := (List.cons.inj split).2.symm
    exact vacant_of_walk (show walk _ _ [] = some _ from rfl) rfl []

theorem drawersNested_orderly :
    Orderly referenceLegal Cabinet.content drawersTop drawersNested := by
  have opened : Orderly referenceLegal Cabinet.content drawersTop
      ⟨[], [[], [], []]⟩ := .opened _
  have mounted : Orderly referenceLegal Cabinet.content drawersTop
      drawersMounted :=
    .registered drawersTop fullCx (.mountDir ⟨["m"], by decide⟩ (.drawer 1))
      opened rfl
      (fun _ _ _ => ⟨fun _ member => absurd member List.not_mem_nil,
        fun _ _ nearest => absurd nearest.1 List.not_mem_nil⟩)
      (show Yields _ _ (.ok ()) drawersMounted from rfl)
  exact .registered drawersTop fullCx
    (.mountTable ⟨["m", "t"], by decide⟩ (.drawer 2)) mounted rfl
    (fun _ _ _ => drawersMounted_room)
    (show Yields _ _ (.ok ()) drawersNested from rfl)

theorem drawersWritten_orderly :
    Orderly referenceLegal Cabinet.content drawersTop drawersWritten := by
  refine .changed (drawersTop.atPath ["m"]) fullCx
    (.set (.new "a") (.text "x")) drawersNested_orderly rfl ?_
    (show Yields _ _ (.ok ()) drawersWritten from rfl)
  intro key made dir _ front value _ entry member rest more split _
  cases made
  have named : "a" ∈ entry.1 := split ▸ by simp [Symbol.new]
  rcases List.mem_cons.mp member with rfl | member
  · exact absurd named (by decide)
  · rw [List.mem_singleton.mp member] at named
    exact absurd named (by decide)

theorem drawers_never_shadow :
    Clear Cabinet.content drawersTop drawersWritten :=
  (mounts_never_shadow Cabinet.objects_truthful drawersWritten_orderly).1

/-- The second store has a value. -/
def shadowedWorld : World Stores.objects where
  mounts := [(["m"], sampleTarget)]
  backends := [Db.DbDir.openStore,
    { values := [(("", .new "a"), .text "x")], dirs := [""] }]

/-- A mount hides the value of the mounted store, and `entries` fails. -/
theorem mount_shadows_mounted_value :
    Reached referenceLegal sampleTop shadowedWorld ∧
      Yields ((sampleTop.atPath ["m"]).has fullCx (.new "a")) shadowedWorld
        (.ok true) shadowedWorld ∧
        ∃ later,
          Yields (sampleTop.mountTable fullCx
            (⟨["m", "a"], by decide⟩ : TablePath referenceLegal) (.dir 0 .root))
            shadowedWorld (.ok ()) later ∧
            Yields ((sampleTop.atPath ["m"]).entries fullCx) later
              (.error (.eval
                "table/mount: backing entry a conflicts with a mount"))
              later := by
  refine ⟨?_, rfl, _, rfl, rfl⟩
  exact .registered sampleTop fullCx
    (.mountDir ⟨["m"], by decide⟩ (.dir 1 .root))
    (.opened shadowedWorld.backends) rfl
    (show Yields _ _ (.ok ()) shadowedWorld from rfl)

end Samples

end SimStorage.Mount
