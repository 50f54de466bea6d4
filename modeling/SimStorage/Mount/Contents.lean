import SimStorage.Mount.Delegation
import SimStorage.Table.Slots

namespace SimStorage.Mount

/-!
# What the backends hold

The backing directories hold values and directories under names.  Backends are
truthful when what they answer is what is held, and when they change no more
than what a call is about.
-/

open Interaction Slots Table Walk

variable {Value Expr σ α : Type} {objects : Objects Value Expr σ}
variable {world later : World objects}
variable {view : MountedDir objects} {cx : Cx} {key : Symbol}
variable {state after : σ} {value : Value} {path : MountPath}

/-- What each directory holds under a name. -/
abbrev Content (Value σ : Type) :=
  σ → Value → String → Option (Slot Value Value)

/-- The answers of directories are what they hold, and changes are local. -/
structure Truthful (objects : Objects Value Expr σ)
    (content : Content Value σ) : Prop where
  opendir : ∀ cx value name state,
    Reads (objects.opendir cx value (.new name)) state fun found =>
      match found with
      | some child => content state value name = some (.dir child)
      | none => content state value name = none
  hasDir : ∀ cx value name state,
    Reads (objects.hasDir cx value (.new name)) state fun found =>
      found = true ↔ ∃ child, content state value name = some (.dir child)
  has : ∀ cx value name state,
    Reads (objects.has cx value (.new name)) state fun found =>
      found = true ↔ (content state value name).isSome = true
  entries : ∀ cx value state,
    Reads (objects.entries cx value) state fun rows =>
      ∀ name stored, (.new name, stored) ∈ rows →
        content state value name = some (.leaf stored)
  set : ∀ cx value key stored,
    Within (fun before after =>
      Changes (content before) (content after) value key.name)
      (objects.set cx value key stored)
  compareExchange : ∀ cx value key expected replacement,
    Within (fun before after =>
      Changes (content before) (content after) value key.name)
      (objects.compareExchange cx value key expected replacement)
  mkdir : ∀ cx value key,
    Within (fun before after =>
      Changes (content before) (content after) value key.name)
      (objects.mkdir cx value key)
  del : ∀ cx value key,
    Within (fun before after => Shrinks (content before) (content after))
      (objects.del cx value key)
  clear : ∀ cx value,
    Within (fun before after => Shrinks (content before) (content after))
      (objects.clear cx value)
  rmdir : ∀ cx value key,
    Within (fun before after => Shrinks (content before) (content after))
      (objects.rmdir cx value key)

section Traversals

variable {content : Content Value σ} (truthful : Truthful objects content)

include truthful in
/-- A traversal walks through directories, or finds that one is missing. -/
theorem traverse_reads
    (path : MountPath) (value : Value) (state : σ) :
    Reads (traverseDirPath objects cx value path) state fun found =>
      match found with
      | some reached =>
          walk (next (content state)) value path = some reached
      | none => Missing (content state) value path := by
  induction path generalizing value with
  | nil => exact .pure rfl
  | cons name rest inductionHypothesis =>
      refine Reads.bind (.ofExcept fun _ _ => trivial) fun _ _ => ?_
      refine (truthful.opendir cx value name state).bind fun found held => ?_
      cases found with
      | none => exact .pure (missing_cons.mpr (.inl held))
      | some child =>
          refine (inductionHypothesis child).imp fun found told => ?_
          cases found with
          | none => exact missing_cons.mpr (.inr ⟨child, held, told⟩)
          | some reached =>
              change walk _ value (name :: rest) = some reached
              rw [walk_cons, next_eq_some.mpr held]
              exact told

include truthful in
/-- A mounted target resolves to what the rest of the path walks to. -/
theorem resolveMountedTarget_reads
    (target : MountTarget objects) (rest : MountPath) (state : σ) :
    Reads (resolveMountedTarget cx target rest) state fun node =>
      ∀ value, node = .backed value →
        walk (next (content state)) target.value rest = some value := by
  unfold resolveMountedTarget
  split
  · split
    · next here =>
        refine .pure fun value same => ?_
        cases same
        rw [List.isEmpty_iff.mp here]
        rfl
    · exact .throw _
  · refine (traverse_reads truthful rest target.value state).bind
      fun found walked => ?_
    cases found with
    | none => exact .throw _
    | some reached =>
        refine .pure fun value same => ?_
        cases same
        exact walked

/-- A call on a backend reads the world when it reads the backends. -/
theorem onBackends_reads
    {call : EStateM Error σ α} {fact : α → Prop}
    (reads : Reads call world.backends fact) :
    Reads (onBackends call) world fact := by
  intro outcome later yields
  obtain ⟨backends, runs, rfl⟩ := onBackends_inv yields
  obtain ⟨rfl, so⟩ := reads outcome backends runs
  exact ⟨rfl, so⟩

/-- The view's path leads from its owner to the value. -/
def Stands (content : Content Value σ) (view : MountedDir objects)
    (world : World objects) (value : Value) : Prop :=
  ∃ target rest, Owner view.top world.mounts view.path target rest ∧
    walk (next (content world.backends)) target.value rest = some value

include truthful in
/-- A view resolves to a value that its path leads to. -/
theorem resolveCurrent_reads
    (view : MountedDir objects) (cx : Cx) (world : World objects) :
    Reads (view.resolveCurrent cx) world fun node =>
      ∀ value, node = .backed value → Stands content view world value := by
  refine .reading ?_
  cases found : Prefixes.longest view.path world.mounts with
  | some entry =>
      have nearest := Prefixes.nearest_of_longest found
      obtain ⟨rest, below⟩ := nearest.2.1
      have suffix : view.path.drop entry.1.length = rest := by
        rw [← below, List.drop_left]
      simp only [longestMount, found, Option.map_some, suffix]
      exact (onBackends_reads (resolveMountedTarget_reads truthful _ _ _)).imp
        fun node resolved value same =>
          ⟨entry.2, rest, .mount nearest below.symm, resolved value same⟩
  | none =>
      have uncovered := Prefixes.longest_eq_none.mp found
      simp only [longestMount, found, Option.map_none]
      refine (onBackends_reads
        (traverse_reads truthful view.path view.root world.backends)).bind
          fun found walked => ?_
      cases found with
      | some reached =>
          refine .pure fun value same => ?_
          cases same
          exact ⟨view.top, view.path, .root uncovered, walked⟩
      | none =>
          simp only
          split
          · exact .pure fun value impossible => by cases impossible
          · exact .throw _

theorem backedTable_backed
    (value : Value) :
    MountedDir.backedTable objects (.backed value) =
      if objects.isTable value = true then
        .ok (some value)
      else
        .error (.eval "table/mount: backing node is not a Table") := by
  by_cases isTable : objects.isTable value = true <;>
    simp [MountedDir.backedTable, requireTableValue, isTable, bind, Except.bind,
      pure, Except.pure]

include truthful in
theorem backing_reads
    (view : MountedDir objects) (cx : Cx) (world : World objects) :
    Reads (view.backing cx) world fun found =>
      ∀ value, found = some value → Stands content view world value := by
  refine (resolveCurrent_reads truthful view cx world).bind
    fun node stands => .ofExcept fun found checked value same => ?_
  subst same
  cases node with
  | backed backing =>
      rw [backedTable_backed] at checked
      split at checked
      · cases checked
        exact stands value rfl
      · cases checked
  | virtual => cases checked

include truthful in
theorem backingDir_reads
    (view : MountedDir objects) (cx : Cx) (world : World objects) :
    Reads (view.backingDir cx) world fun found =>
      ∀ value, found = some value → Stands content view world value := by
  refine (resolveCurrent_reads truthful view cx world).bind
    fun node stands => ?_
  cases node with
  | backed backing =>
      refine Reads.bind (.ofExcept fun _ _ => trivial) fun _ _ => ?_
      refine .pure fun value same => ?_
      cases same
      exact stands _ rfl
  | virtual => exact .pure fun value impossible => by cases impossible

include truthful in
/-- Where the root directory has nothing, its path is vacant. -/
theorem rootExactKind_reads
    (view : MountedDir objects) (cx : Cx) (path : MountPath) (state : σ) :
    Reads (view.rootExactKind cx path) state fun found =>
      found = none → Vacant (content state) view.root path := by
  unfold MountedDir.rootExactKind
  cases ends : path.getLast? with
  | none => exact .pure fun impossible => by cases impossible
  | some last =>
      obtain ⟨parent, rfl⟩ := List.getLast?_eq_some_iff.mp ends
      rw [List.dropLast_concat]
      refine (traverse_reads truthful parent view.root state).bind
        fun found walked => ?_
      cases found with
      | none => exact .pure fun _ => (walked.below [last]).vacant
      | some place =>
          refine Reads.bind (.ofExcept fun _ _ => trivial) fun _ _ => ?_
          refine Reads.bind (.ofExcept fun _ _ => trivial) fun _ _ => ?_
          refine (truthful.hasDir cx place last state).bind
            fun isDir isHeld => ?_
          split
          · exact .pure fun impossible => by cases impossible
          · refine (truthful.has cx place last state).bind
              fun isPresent present => ?_
            split
            · exact .pure fun impossible => by cases impossible
            · next absent =>
                refine .pure fun _ => ?_
                rw [present, Option.not_isSome_iff_eq_none] at absent
                exact vacant_of_walk walked absent []

end Traversals

section Children

variable {mounts : Mounts objects} {kind : MountKind} {name : Symbol}
variable {entry : MountPath × MountTarget objects}

/-- A mount below a view shows as the next segment of its path. -/
theorem mountChild_eq_some :
    view.mountChild entry = some (name, kind) ↔
      ∃ segment more, entry.1 = view.path ++ segment :: more ∧
        name = .new segment ∧
          kind = if more = [] then entry.2.kind else .dir := by
  simp only [MountedDir.mountChild, isPrefix_iff]
  constructor
  · intro shows
    split at shows
    · cases shows
    · next below =>
        rw [not_or, Nat.not_le, not_not] at below
        obtain ⟨longer, rest, split⟩ := below
        cases rest with
        | nil =>
            rw [List.append_nil] at split
            rw [split] at longer
            exact absurd longer (Nat.lt_irrefl _)
        | cons segment more =>
            simp only [← split, List.getElem?_append_right (Nat.le_refl _),
              Nat.sub_self, List.getElem?_cons_zero, Option.map_some,
              List.length_append, List.length_cons, Nat.add_left_cancel_iff,
              Nat.add_eq_right, List.length_eq_zero_iff] at shows
            cases shows
            exact ⟨segment, more, split.symm, rfl, rfl⟩
  · rintro ⟨segment, more, split, rfl, rfl⟩
    have below : ¬ (entry.1.length ≤ view.path.length ∨
        ¬ view.path <+: entry.1) := by
      rw [split]
      simp
    rw [if_neg below]
    simp [split]

theorem mem_directMountChildren
    {child : Symbol × MountKind} :
    child ∈ view.directMountChildren mounts ↔
      (mounts.filterMap view.mountChild).find?
        (fun other => other.1 = child.1) = some child := by
  simp [MountedDir.directMountChildren, Layers.mem_scan]

/-- A name is a child's when a mount is at or below it. -/
theorem isSome_directMountChildren :
    (Entries.find (view.directMountChildren mounts) name).isSome = true ↔
      ∃ entry ∈ mounts, ∃ segment more,
        entry.1 = view.path ++ segment :: more ∧ name = .new segment := by
  rw [Entries.isSome_find]
  constructor
  · rintro ⟨child, member, rfl⟩
    have shown := List.mem_of_find?_eq_some (mem_directMountChildren.mp member)
    obtain ⟨entry, inMounts, shows⟩ := List.mem_filterMap.mp shown
    obtain ⟨segment, more, split, same, _⟩ := mountChild_eq_some.mp shows
    exact ⟨entry, inMounts, segment, more, split, same⟩
  · rintro ⟨entry, inMounts, segment, more, split, rfl⟩
    have shows := mountChild_eq_some.mpr ⟨segment, more, split, rfl, rfl⟩
    have shown := List.mem_filterMap.mpr ⟨entry, inMounts, shows⟩
    have present : ((mounts.filterMap view.mountChild).find?
        fun other => other.1 = Symbol.new segment).isSome = true :=
      List.find?_isSome.mpr ⟨_, shown, by simp⟩
    obtain ⟨first, found⟩ := Option.isSome_iff_exists.mp present
    have same : first.1 = .new segment := by simpa using List.find?_some found
    exact ⟨first, mem_directMountChildren.mpr (same ▸ found), same⟩

/-- Rows pass when none is under the name of a child. -/
theorem checkRows_eq_ok
    {children : List (Symbol × MountKind)} {rows : List (Symbol × Value)} :
    MountedDir.checkRows children rows = .ok () ↔
      ∀ row ∈ rows, ¬ (Entries.find children row.1).isSome = true := by
  unfold MountedDir.checkRows
  cases found : rows.find? fun row => (Entries.find children row.1).isSome with
  | none => simpa using List.find?_eq_none.mp found
  | some row =>
      have isRow := List.mem_of_find?_eq_some found
      have isChild := List.find?_some found
      simp only [reduceCtorEq, false_iff]
      exact fun apart => apart row isRow isChild

end Children

end SimStorage.Mount
