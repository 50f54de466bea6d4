import SimStorage.Mount.Serving

namespace SimStorage.Mount

/-!
# Views that agree

The views that `opendir` gives are consistent just when the way to every mount
is passable: its directories are there, but for those of the root, and no value
stands in the way.
-/

open Interaction Slots Table Walk

variable {Value Expr σ : Type} {objects : Objects Value Expr σ}
variable {isLegal : String → Bool} {content : Content Value σ}
variable {world : World objects} {top view : MountedDir objects}
variable {cx : Cx} {value dir : Value} {path : MountPath} {state : σ}

section Definitions

/-- The views that `opendir` gives, one from another. -/
inductive Opened (isLegal : String → Bool) (cx : Cx) (top : MountedDir objects)
    (world : World objects) : MountedDir objects → Prop where
  | top : Opened isLegal cx top world top
  | opened {view child : MountedDir objects} {name : Symbol} :
      Opened isLegal cx top world view →
        Yields (view.opendir isLegal cx name) world (.ok (some child)) world →
          Opened isLegal cx top world child

/-- A view answers all reads, and its answers agree. -/
structure Consistent (isLegal : String → Bool) (cx : Cx)
    (view : MountedDir objects) (world : World objects) : Prop where
  keys : ∃ names, Yields (view.keys cx) world (.ok names) world ∧
    ∀ name, isLegal name = true →
      ∃ found, Yields (view.has cx (.new name)) world (.ok found) world ∧
        (.new name ∈ names ↔ found = true)
  entries : ∃ rows, Yields (view.entries cx) world (.ok rows) world ∧
    ∀ row ∈ rows, Yields (view.get cx row.1) world (.ok row.2) world
  len : ∃ count, Yields (view.len cx) world (.ok count) world
  opendir : ∀ name, isLegal name = true →
    ((∃ child, Yields (view.opendir isLegal cx (.new name)) world
        (.ok (some child)) world) ↔
      Yields (view.hasDir isLegal cx (.new name)) world (.ok true) world)

/-- What `get` shows of a mount. -/
def Shows (target : MountTarget objects) (value : Value) : Prop :=
  match target.kind with
  | .table => value = target.value
  | .dir => objects.factory.nil = .ok value

/--
On the way to a mount, the directories are there in the backend that owns them,
but for those of the root, and the next name is no value there; and a row of
the mount's name in another namespace is what the mount shows.
-/
def Passable (content : Content Value σ) (cx : Cx) (top : MountedDir objects)
    (world : World objects) : Prop :=
  ∀ entry ∈ world.mounts, ∀ front name more, entry.1 = front ++ name :: more →
    ∀ target rest, Owner top.top world.mounts front target rest →
      match walk (next (content world.backends)) target.value rest with
      | some dir =>
          (∀ value, content world.backends dir name ≠ some (.leaf value)) ∧
            (more = [] → ∀ rows,
              Yields (objects.entries cx dir) world.backends (.ok rows)
                world.backends →
                ∀ row ∈ rows, row.1.name = name → Shows entry.2 row.2)
      | none => Prefixes.Uncovered world.mounts front

/-- A view's path opens to a directory, or is on the way to a mount only. -/
inductive Found (content : Content Value σ) (view : MountedDir objects)
    (world : World objects) : Option Value → Prop where
  | dir {target : MountTarget objects} {rest : MountPath} {dir : Value} :
      Owner view.top world.mounts view.path target rest → target.kind = .dir →
        walk (next (content world.backends)) target.value rest = some dir →
          objects.isDir dir = true → Found content view world (some dir)
  | virtual : Prefixes.Uncovered world.mounts view.path →
      Missing (content world.backends) view.root view.path →
        hasMountDescendant world.mounts view.path = true →
          Found content view world none

end Definitions

/-- All segments of the path are legal. -/
abbrev LegalPath (isLegal : String → Bool) (path : MountPath) : Prop :=
  ∀ segment ∈ path, isLegal segment = true

section Opening

variable (serves : Serves objects isLegal cx content)

include serves in
/-- Opening one directory after another comes to what a walk comes to. -/
theorem opens_walk
    (isDir : objects.isDir value = true)
    (legal : LegalPath isLegal path) :
    ∃ outcome, Opens objects cx value path state outcome state ∧
      (∀ dir, walk (next (content state)) value path = some dir →
        outcome = .ok (some dir) ∧ objects.isDir dir = true) ∧
      (walk (next (content state)) value path = none →
        ∀ dir, outcome ≠ .ok (some dir)) ∧
      (Missing (content state) value path → outcome = .ok none) := by
  induction path generalizing value with
  | nil =>
      refine ⟨.ok (some value), .here, ?_, ?_, ?_⟩
      · intro dir walked
        cases walked
        exact ⟨rfl, isDir⟩
      · intro impossible
        cases impossible
      · rintro ⟨front, name, more, place, split, _⟩
        simp at split
  | cons name rest inductionHypothesis =>
      have legalName := legal name List.mem_cons_self
      obtain ⟨outcome, opened, isChild, isNone⟩ :=
        serves.opendir value (.new name) state isDir legalName
      have isChild : ∀ child, outcome = .ok (some child) ↔
          content state value name = some (.dir child) := isChild
      have isNone : outcome = .ok none ↔ content state value name = none :=
        isNone
      rw [walk_cons, missing_cons]
      rcases outcome with error | _ | child
      · refine ⟨.error error, .failed isDir opened, ?_, by simp, ?_⟩
        · intro dir walked
          obtain ⟨child, led, _⟩ := Option.bind_eq_some_iff.mp walked
          cases (isChild child).mpr (next_eq_some.mp led)
        · rintro (nothing | ⟨child, held, _⟩)
          · cases isNone.mpr nothing
          · cases (isChild child).mpr held
      · refine ⟨.ok none, .missing isDir opened, ?_, by simp, fun _ => rfl⟩
        intro dir walked
        obtain ⟨child, led, _⟩ := Option.bind_eq_some_iff.mp walked
        cases (isChild child).mpr (next_eq_some.mp led)
      · have held := (isChild child).mp rfl
        obtain ⟨outcome, opens, reached, lost, missing⟩ := inductionHypothesis
          (serves.held state value name child held)
          fun segment member => legal segment (List.mem_cons_of_mem _ member)
        rw [next_eq_some.mpr held]
        refine ⟨outcome, .through isDir opened opens, reached, lost, ?_⟩
        rintro (nothing | ⟨other, also, misses⟩)
        · cases held.symm.trans nothing
        · cases held.symm.trans also
          exact missing misses

/-- The node that a view stands for. -/
def nodeOf : Option Value → ResolvedNode Value
  | some dir => .backed dir
  | none => .virtual

variable {place : Option Value}
variable (distinct : Entries.Distinct world.mounts)
variable (legal : LegalPath isLegal view.path)

include serves distinct legal in
theorem Found.resolveCurrent
    (found : Found content view world place) :
    Yields (view.resolveCurrent cx) world (.ok (nodeOf place)) world := by
  cases found with
  | @dir target rest dir owner isDir walked =>
      have fits := target.fits
      rw [isDir] at fits
      obtain ⟨front, split⟩ := owner.below
      have legalRest : LegalPath isLegal rest := fun segment member =>
        legal segment (split ▸ List.mem_append_right front member)
      obtain ⟨_, opens, reached, _⟩ := opens_walk serves fits legalRest
      obtain ⟨rfl, _⟩ := reached dir walked
      exact MountedDir.resolveCurrent_dir distinct owner isDir opens
  | virtual uncovered missing below =>
      obtain ⟨_, opens, _, _, nothing⟩ := opens_walk serves view.isDir legal
      obtain rfl := nothing missing
      refine (Yields.get world).bind ?_
      have longest : longestMount world.mounts view.path = none := by
        rw [longestMount, Prefixes.longest_eq_none.mpr uncovered]
        rfl
      rw [longest]
      refine (onBackends_yields opens.traverse).bind ?_
      simp only [below, if_true]
      exact Yields.pure _ _

include serves distinct legal in
theorem Found.backing
    (found : Found content view world place) :
    Yields (view.backing cx) world (.ok place) world := by
  have resolved := found.resolveCurrent serves distinct legal
  refine resolved.bind (.of_ok ?_ _)
  cases found with
  | dir _ _ _ isDir =>
      rw [nodeOf, backedTable_backed, if_pos (serves.table _ isDir)]
  | virtual _ _ _ => rfl

include serves distinct legal in
theorem Found.backingDir
    (found : Found content view world place) :
    Yields (view.backingDir cx) world (.ok place) world := by
  have resolved := found.resolveCurrent serves distinct legal
  refine resolved.bind ?_
  cases found with
  | dir _ _ _ isDir => exact (requires_dir isDir).bind (.pure _ _)
  | virtual _ _ _ => exact Yields.pure _ _

end Opening

section Steps

variable (serves : Serves objects isLegal cx content)
variable (formed : world.mounts.WellFormed)
variable (legal : LegalPath isLegal view.path)
variable {place : Option Value} {name : Symbol}

/-- The name leads to a directory, to a mounted one or to one on the way. -/
def Enters (content : Content Value σ) (view : MountedDir objects)
    (world : World objects) (place : Option Value) (name : Symbol) : Prop :=
  match view.directMountValue world.mounts name with
  | some target => target.kind = .dir
  | none => view.childHasMount world.mounts name = true ∨
      ∃ dir child, place = some dir ∧
        content world.backends dir name.name = some (.dir child)

include serves formed legal in
/-- `opendir` gives a view of the child just when the name leads there. -/
theorem opendir_yields
    (found : Found content view world place)
    (isName : isLegal name.name = true) :
    ∃ outcome, Yields (view.opendir isLegal cx name) world outcome world ∧
      ∀ child, outcome = .ok (some child) ↔
        child = view.atPath (view.path ++ [name.name]) ∧
          Enters content view world place name := by
  have checked : Yields (MonadExcept.ofExcept (checkSegment isLegal name))
      world (.ok ()) world := .of_ok (if_pos isName) _
  have backed := found.backingDir serves formed.distinct legal
  unfold Enters
  cases direct : view.directMountValue world.mounts name with
  | some target =>
      cases isKind : target.kind with
      | dir =>
          refine ⟨.ok (some (view.atPath (view.path ++ [name.name]))), ?_, ?_⟩
          · refine checked.bind ((Yields.get world).bind ?_)
            simp only [direct, isKind]
            exact Yields.pure _ _
          · simp [isKind, eq_comm]
      | table =>
          refine ⟨.error (.eval ("table/mount: " ++ joinChild view.path name ++
            " is a table mount, not a directory")), ?_, by simp [isKind]⟩
          refine checked.bind ((Yields.get world).bind ?_)
          simp only [direct, isKind]
          exact Yields.throw _ _
  | none =>
      by_cases below : view.childHasMount world.mounts name = true
      · refine ⟨.ok (some (view.atPath (view.path ++ [name.name]))), ?_, ?_⟩
        · refine checked.bind ((Yields.get world).bind ?_)
          simp only [direct, below, if_true]
          exact Yields.pure _ _
        · simp [below, eq_comm]
      · cases found with
        | virtual _ _ _ =>
            refine ⟨.ok none, ?_, by simp [below]⟩
            refine checked.bind ((Yields.get world).bind ?_)
            simp only [direct, below]
            exact backed.bind (.pure _ _)
        | @dir _ _ dir _ _ _ isDir =>
            obtain ⟨outcome, opened, isChild, _⟩ :=
              serves.opendir dir name world.backends isDir isName
            have opened : Yields (onBackends (objects.opendir cx dir name))
                world outcome world := onBackends_yields opened
            have rest : ∃ result, Yields (do
                match ← onBackends (objects.opendir cx dir name) with
                | some _ =>
                    return some (view.atPath (view.path ++ [name.name]))
                | none => return none) world result world ∧
                ∀ child, result = .ok (some child) ↔
                  child = view.atPath (view.path ++ [name.name]) ∧
                    ∃ found, outcome = .ok (some found) := by
              rcases outcome with error | _ | found
              · exact ⟨_, opened.bindError, by simp⟩
              · exact ⟨_, opened.bind (.pure _ _), by simp⟩
              · exact ⟨_, opened.bind (.pure _ _), by simp [eq_comm]⟩
            obtain ⟨result, runs, isView⟩ := rest
            refine ⟨result, ?_, fun child => ?_⟩
            · refine checked.bind ((Yields.get world).bind ?_)
              simp only [direct, below]
              exact backed.bind runs
            · rw [isView]
              simp [below, isChild]

include serves formed legal in
/-- `is_dir` says whether the name leads to a directory. -/
theorem hasDir_yields
    (found : Found content view world place)
    (isName : isLegal name.name = true) :
    ∃ isDir, Yields (view.hasDir isLegal cx name) world (.ok isDir) world ∧
      (isDir = true ↔ Enters content view world place name) := by
  have checked : Yields (MonadExcept.ofExcept (checkSegment isLegal name))
      world (.ok ()) world := .of_ok (if_pos isName) _
  have backed := found.backingDir serves formed.distinct legal
  unfold Enters
  cases direct : view.directMountValue world.mounts name with
  | some target =>
      refine ⟨decide (target.kind = .dir), ?_, by simp⟩
      refine checked.bind ((Yields.get world).bind ?_)
      simp only [direct]
      exact Yields.pure _ _
  | none =>
      by_cases below : view.childHasMount world.mounts name = true
      · refine ⟨true, ?_, by simp [below]⟩
        refine checked.bind ((Yields.get world).bind ?_)
        simp only [direct, below, if_true]
        exact Yields.pure _ _
      · cases found with
        | virtual _ _ _ =>
            refine ⟨false, ?_, by simp [below]⟩
            refine checked.bind ((Yields.get world).bind ?_)
            simp only [direct, below]
            exact backed.bind (.pure _ _)
        | @dir _ _ dir _ _ _ isDir =>
            obtain ⟨isDir, answered, isChild⟩ :=
              serves.hasDir dir name world.backends isDir isName
            refine ⟨isDir, ?_, by simp [below, isChild]⟩
            refine checked.bind ((Yields.get world).bind ?_)
            simp only [direct, below]
            exact backed.bind (onBackends_yields answered)

end Steps

section Ways

variable (serves : Serves objects isLegal cx content)
variable (formed : world.mounts.WellFormed)
variable (legalMounts : ∀ entry ∈ world.mounts, LegalPath isLegal entry.1)

theorem top_eq
    (same : view.root = top.root) :
    view.top = top.top := by
  simp only [MountedDir.top, same]

/-- A target above a mount is a directory. -/
theorem Owner.kind_of_below
    {target : MountTarget objects} {rest : MountPath}
    {entry : MountPath × MountTarget objects}
    (formed : world.mounts.WellFormed)
    (owner : Owner top.top world.mounts path target rest)
    (member : entry ∈ world.mounts)
    (below : path <+: entry.1)
    (apart : entry.1 ≠ path) :
    target.kind = .dir := by
  cases owner with
  | root _ => rfl
  | @mount nearest _ isNearest _ =>
      cases isKind : nearest.2.kind with
      | dir => rfl
      | table =>
          obtain ⟨isMount, above, _⟩ := isNearest
          have same := formed.leaves nearest isMount isKind entry member
            (above.trans below)
          rw [same] at below apart
          exact absurd (above.eq_of_length_le below.length_le) apart

/-- An owner of a path that no mount covers is the root. -/
theorem Owner.of_uncovered
    {top target : MountTarget objects} {rest : MountPath}
    (owner : Owner top world.mounts path target rest)
    (uncovered : Prefixes.Uncovered world.mounts path) :
    target = top ∧ rest = path := by
  cases owner with
  | mount nearest _ => exact absurd nearest.2.1 (uncovered _ nearest.1)
  | root _ => exact ⟨rfl, rfl⟩

theorem Uncovered.of_concat
    {name : String}
    (uncovered : Prefixes.Uncovered world.mounts (path ++ [name])) :
    Prefixes.Uncovered world.mounts path := fun entry member above =>
  uncovered entry member (above.trans (List.prefix_append _ _))

include serves formed legalMounts in
/-- When the way to the mounts is passable, a name on the way leads to a view. -/
theorem Found.onTheWay
    {place : Option Value} {name : String}
    {entry : MountPath × MountTarget objects}
    (passable : Passable content cx top world)
    (same : view.root = top.root)
    (found : Found content view world place)
    (member : entry ∈ world.mounts)
    (below : view.path ++ [name] <+: entry.1)
    (apart : entry.1 ≠ view.path ++ [name]) :
    ∃ next, Found content (view.atPath (view.path ++ [name])) world next := by
  have sameTop := top_eq same
  obtain ⟨rest, split⟩ := below
  obtain ⟨next, more, rfl⟩ : ∃ next more, rest = next :: more := by
    cases rest with
    | nil => exact absurd (split.symm.trans (List.append_nil _)) apart
    | cons next more => exact ⟨next, more, rfl⟩
  obtain ⟨target, rest, owner⟩ :=
    exists_owner top.top world.mounts (view.path ++ [name])
  have isDir := owner.kind_of_below formed member ⟨next :: more, split⟩ apart
  have passes := passable entry member _ next more split.symm target rest owner
  have owned : Owner (view.atPath (view.path ++ [name])).top world.mounts
      (view.path ++ [name]) target rest := by
    have atTop : (view.atPath (view.path ++ [name])).top = view.top := rfl
    rw [atTop, sameTop]
    exact owner
  cases walked : walk (Slots.next (content world.backends)) target.value rest with
  | some dir =>
      have fits := target.fits
      rw [isDir] at fits
      obtain ⟨front, above⟩ := owner.below
      have legalRest : LegalPath isLegal rest := fun segment inRest =>
        legalMounts entry member segment (by
          rw [← split, above]
          simp [inRest])
      obtain ⟨_, _, reached, _⟩ :=
        @opens_walk _ _ _ _ _ _ cx _ _ world.backends serves fits legalRest
      exact ⟨some dir, .dir owned isDir walked (reached dir walked).2⟩
  | none =>
      rw [walked] at passes
      have uncovered : Prefixes.Uncovered world.mounts
          (view.path ++ [name]) := passes
      obtain ⟨rfl, rfl⟩ := owner.of_uncovered uncovered
      have longer : hasMountDescendant world.mounts (view.path ++ [name]) =
          true := by
        refine List.any_eq_true.mpr ⟨entry, member, ?_⟩
        rw [Bool.and_eq_true, isPrefix_iff, decide_eq_true_eq, ← split]
        exact ⟨by simp, List.prefix_append _ _⟩
      refine ⟨none, .virtual uncovered ?_ longer⟩
      cases found with
      | virtual _ missing _ => exact missing.below [name]
      | @dir target _ dir above _ led _ =>
          obtain ⟨rfl, rfl⟩ := above.of_uncovered (Uncovered.of_concat uncovered)
          have spelled : entry.1 = view.path ++ name :: next :: more := by
            rw [← split, List.append_assoc]
            rfl
          have noLeaf := passable entry member view.path name (next :: more)
            spelled view.top view.path (sameTop ▸ above)
          rw [led] at noLeaf
          refine ⟨view.path, name, [], dir, rfl, led, ?_⟩
          have lost : walk (Slots.next (content world.backends)) view.root
              (view.path ++ [name]) = none := by
            have atRoot : top.top.value = view.root := same.symm
            rw [← atRoot]
            exact walked
          have led : walk (Slots.next (content world.backends)) view.root
              view.path = some dir := led
          rw [walk_concat, led] at lost
          have noChild : Slots.next (content world.backends) dir name = none :=
            lost
          cases held : content world.backends dir name with
          | none => rfl
          | some slot =>
              cases slot with
              | leaf value => exact absurd held (noLeaf.1 value)
              | dir child =>
                  rw [next_eq_some.mpr held] at noChild
                  cases noChild

include serves formed legalMounts in
/-- When the way to the mounts is passable, a name leads on to a view. -/
theorem Found.child
    {place : Option Value} {name : Symbol}
    (passable : Passable content cx top world)
    (same : view.root = top.root)
    (found : Found content view world place)
    (enters : Enters content view world place name) :
    ∃ next, Found content (view.atPath (view.path ++ [name.name])) world
      next := by
  unfold Enters at enters
  cases direct : view.directMountValue world.mounts name with
  | some target =>
      rw [direct] at enters
      have isKind : target.kind = .dir := enters
      have fits := target.fits
      rw [isKind] at fits
      exact ⟨some target.value, .dir (owner_of_mem _
        (Entries.mem_of_find direct)) isKind rfl fits⟩
  | none =>
      rw [direct] at enters
      have free : ∀ entry ∈ world.mounts,
          entry.1 ≠ view.path ++ [name.name] := fun entry member equal => by
        have isSome := Entries.isSome_find.mpr ⟨entry, member, equal⟩
        rw [MountedDir.directMountValue] at direct
        rw [direct] at isSome
        cases isSome
      by_cases below : view.childHasMount world.mounts name = true
      · obtain ⟨entry, member, isPrefix⟩ := List.any_eq_true.mp below
        have under := isPrefix_iff.mp isPrefix
        exact found.onTheWay serves formed legalMounts passable same member under
          (free entry member)
      · rw [Bool.not_eq_true] at below
        rcases enters with isBelow | ⟨dir, child, rfl, held⟩
        · rw [below] at isBelow
          cases isBelow
        · cases found with
          | dir owner isDir walked _ =>
              refine ⟨some child, .dir (owner.concat free) isDir ?_
                (serves.held _ _ _ _ held)⟩
              rw [walk_concat, walked]
              exact next_eq_some.mpr held

/-- A name that was opened is legal. -/
theorem isLegal_of_opened
    {name : Symbol} {outcome : Option (MountedDir objects)}
    {later : World objects}
    (opened : Yields (view.opendir isLegal cx name) world (.ok outcome) later) :
    isLegal name.name = true := by
  obtain ⟨_, _, checked, _⟩ := opened.bind_ok
  obtain ⟨passed, _⟩ := checked.ofExcept_inv
  by_contra illegal
  have refused : checkSegment isLegal name = .error _ := if_neg illegal
  rw [refused] at passed
  cases passed

include serves formed legalMounts in
/-- On passable ways, every view that is opened stands for something. -/
theorem Opened.found
    (passable : Passable content cx top world)
    (rooted : top.path = [])
    (opened : Opened isLegal cx top world view) :
    view.root = top.root ∧ LegalPath isLegal view.path ∧
      ∃ place, Found content view world place := by
  induction opened with
  | top =>
      have owner : Owner top.top world.mounts top.path top.top [] := by
        rw [rooted]
        refine .root fun entry member above => ?_
        exact formed.nonempty entry member (List.prefix_nil.mp above)
      refine ⟨rfl, fun segment member => ?_, _, .dir owner rfl rfl top.isDir⟩
      rw [rooted] at member
      cases member
  | opened _ opens inductionHypothesis =>
      obtain ⟨same, legal, place, found⟩ := inductionHypothesis
      have isName := isLegal_of_opened opens
      obtain ⟨outcome, yields, isView⟩ :=
        opendir_yields serves formed legal found isName
      obtain ⟨rfl, _⟩ := yields.unique opens
      obtain ⟨rfl, enters⟩ := (isView _).mp rfl
      refine ⟨same, fun segment member => ?_,
        found.child serves formed legalMounts passable same enters⟩
      rcases List.mem_append.mp member with inPath | isLast
      · exact legal segment inPath
      · rw [List.mem_singleton.mp isLast]
        exact isName

end Ways

section Answers

variable (serves : Serves objects isLegal cx content)
variable (formed : world.mounts.WellFormed)
variable (legal : LegalPath isLegal view.path)
variable {place : Option Value}

/-- A mount is at or below a name just when it is a child's. -/
theorem childHasMount_iff
    {name : String} :
    view.childHasMount world.mounts (.new name) = true ↔
      .new name ∈ (view.directMountChildren world.mounts).map Prod.fst := by
  rw [Entries.mem_keys, isSome_directMountChildren]
  constructor
  · intro below
    obtain ⟨entry, member, isPrefix⟩ := List.any_eq_true.mp below
    obtain ⟨more, split⟩ := isPrefix_iff.mp isPrefix
    refine ⟨entry, member, name, more, ?_, rfl⟩
    rw [← split, List.append_assoc]
    rfl
  · rintro ⟨entry, member, segment, more, split, named⟩
    obtain rfl : name = segment := congrArg Symbol.name named
    refine List.any_eq_true.mpr ⟨entry, member, isPrefix_iff.mpr ⟨more, ?_⟩⟩
    rw [split, List.append_assoc]
    rfl

include serves formed legal in
/-- The keys that a view lists are those that it has. -/
theorem Found.keys
    (found : Found content view world place) :
    ∃ names, Yields (view.keys cx) world (.ok names) world ∧
      ∀ name, isLegal name = true →
        ∃ present, Yields (view.has cx (.new name)) world (.ok present) world ∧
          (.new name ∈ names ↔ present = true) := by
  have backed := found.backing serves formed.distinct legal
  cases found with
  | virtual _ _ _ =>
      have noRows : Yields (pure [] : Calling objects (List Symbol)) world
          (.ok []) world := .pure [] world
      refine ⟨_, backed.bind (noRows.bind ((Yields.get _).bind (.pure _ _))),
        fun name isName => ?_⟩
      rw [List.nil_append, List.mem_dedup, ← childHasMount_iff]
      refine ⟨view.childHasMount world.mounts (.new name), ?_, Iff.rfl⟩
      refine (Yields.get world).bind ?_
      cases below : view.childHasMount world.mounts (.new name) with
      | true => exact Yields.pure _ _
      | false => exact backed.bind (.pure _ _)
  | @dir _ _ dir _ _ _ isDir =>
      obtain ⟨names, listed, held⟩ := serves.keys dir world.backends isDir
      have listed : Yields (onBackends (objects.keys cx dir)) world (.ok names)
          world := onBackends_yields listed
      refine ⟨_, backed.bind (listed.bind ((Yields.get _).bind (.pure _ _))),
        fun name isName => ?_⟩
      rw [List.mem_dedup, List.mem_append, ← childHasMount_iff, held name isName]
      have answered : Yields (onBackends (objects.has cx dir (.new name))) world
          (.ok (content world.backends dir name).isSome) world :=
        onBackends_yields (serves.has dir name world.backends isDir isName)
      refine ⟨(content world.backends dir name).isSome ||
        view.childHasMount world.mounts (.new name), ?_, by simp⟩
      refine (Yields.get world).bind ?_
      cases below : view.childHasMount world.mounts (.new name) with
      | true =>
          rw [Bool.or_true]
          exact Yields.pure _ _
      | false =>
          rw [Bool.or_false]
          exact backed.bind answered

/-- `get` gives what a mount shows. -/
theorem get_mounted
    {key : Symbol} {target : MountTarget objects} {value : Value}
    (direct : view.directMountValue world.mounts key = some target)
    (shows : Shows target value) :
    Yields (view.get cx key) world (.ok value) world := by
  refine (Yields.get world).bind ?_
  rw [direct]
  unfold Shows at shows
  simp only
  split
  · next isKind =>
      simp only [isKind] at shows
      rw [shows]
      exact Yields.pure _ _
  · next isKind =>
      simp only [isKind] at shows
      exact .of_ok shows _

include formed in
/-- What the rows of the mounts say is what `get` gives. -/
theorem mountRows_get
    {rows : List (Symbol × Value)} {row : Symbol × Value}
    (member : row ∈ view.mountRows world.mounts rows) :
    Yields (view.get cx row.1) world (.ok row.2) world := by
  obtain ⟨child, isChild, shows⟩ := List.mem_filterMap.mp member
  split at shows
  · next isTable =>
      obtain ⟨target, direct, rfl⟩ := Option.map_eq_some_iff.mp shows
      refine get_mounted direct ?_
      have shown := List.mem_of_find?_eq_some
        (mem_directMountChildren.mp isChild)
      obtain ⟨entry, inMounts, shows⟩ := List.mem_filterMap.mp shown
      obtain ⟨segment, more, split, named, isKind⟩ :=
        mountChild_eq_some.mp shows
      rw [isTable.1] at isKind
      split at isKind
      · next last =>
          rw [last] at split
          have found := formed.distinct.mem_iff.mp (split ▸ inMounts :
            (view.path ++ [segment], entry.2) ∈ world.mounts)
          rw [MountedDir.directMountValue, named] at direct
          obtain rfl := Option.some.inj (found.symm.trans direct)
          simp only [Shows, ← isKind]
      · cases isKind
  · cases shows

include serves formed legal in
/-- The entries that a view lists are what `get` gives. -/
theorem Found.entries
    (passable : Passable content cx top world)
    (same : view.root = top.root)
    (found : Found content view world place) :
    ∃ rows, Yields (view.entries cx) world (.ok rows) world ∧
      ∀ row ∈ rows, Yields (view.get cx row.1) world (.ok row.2) world := by
  have backed := found.backing serves formed.distinct legal
  cases found with
  | virtual _ _ _ =>
      refine ⟨view.mountRows world.mounts [], ?_, fun row member =>
        mountRows_get formed member⟩
      exact (Yields.get world).bind (backed.bind (.pure _ _))
  | @dir target rest dir owner _ walked isDir =>
      obtain ⟨rows, listed, held, gets⟩ :=
        serves.entries dir world.backends isDir
      have passes : ∀ entry ∈ world.mounts, ∀ name more,
          entry.1 = view.path ++ name :: more → _ :=
        fun entry member name more split => passable entry member view.path name
          more split target rest (top_eq same ▸ owner)
      rw [walked] at passes
      have checked : MountedDir.checkRows
          (view.directMountChildren world.mounts) rows = .ok () := by
        refine checkRows_eq_ok.mpr fun row member isChild => ?_
        obtain ⟨entry, inMounts, segment, more, split, named⟩ :=
          isSome_directMountChildren.mp isChild
        have isRow : (.new segment, row.2) ∈ rows := named ▸ member
        exact (passes entry inMounts segment more split).1 row.2
          ((held segment row.2).mp isRow)
      refine ⟨rows ++ view.mountRows world.mounts rows, ?_, fun row member => ?_⟩
      · have answered : Yields (onBackends (objects.entries cx dir)) world
            (.ok rows) world := onBackends_yields listed
        exact (Yields.get world).bind (backed.bind (answered.bind
          ((Yields.of_ok checked _).bind (.pure _ _))))
      · rcases List.mem_append.mp member with isRow | isMount
        · cases direct : view.directMountValue world.mounts row.1 with
          | some target =>
              have inMounts := Entries.mem_of_find direct
              exact get_mounted direct ((passes _ inMounts row.1.name [] rfl).2
                rfl rows listed row isRow rfl)
          | none =>
              refine (Yields.get world).bind ?_
              rw [direct]
              exact backed.bind (onBackends_yields (gets row isRow))
        · exact mountRows_get formed isMount

include serves formed legal in
/-- On passable ways, a view that stands for something is consistent. -/
theorem Found.consistent
    (passable : Passable content cx top world)
    (same : view.root = top.root)
    (found : Found content view world place) :
    Consistent isLegal cx view world where
  keys := found.keys serves formed legal
  entries := found.entries serves formed legal passable same
  len := by
    obtain ⟨rows, listed, _⟩ := found.entries serves formed legal passable same
    exact ⟨rows.length, listed.bind (.pure _ _)⟩
  opendir name isName := by
    obtain ⟨outcome, opens, isView⟩ := @opendir_yields _ _ _ _ _ _ _ _ cx serves
      formed legal place (.new name) found isName
    obtain ⟨isDir, answered, isEntered⟩ := @hasDir_yields _ _ _ _ _ _ _ _ cx
      serves formed legal place (.new name) found isName
    constructor
    · rintro ⟨child, opened⟩
      obtain ⟨rfl, _⟩ := opens.unique opened
      have entered := isEntered.mpr ((isView child).mp rfl).2
      exact entered ▸ answered
    · intro entered
      obtain ⟨same, _⟩ := answered.unique entered
      have enters := isEntered.mp (Except.ok.inj same)
      exact ⟨_, (isView _).mpr ⟨rfl, enters⟩ ▸ opens⟩

end Answers

end SimStorage.Mount
