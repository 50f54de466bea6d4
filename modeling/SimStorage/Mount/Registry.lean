import SimStorage.Interaction.Evaluation
import SimStorage.Mount.MountedDir

namespace SimStorage.Mount

/-!
# The mount table

A registration adds one mount that conflicts with no other, removes one, or
leaves the table.  In every run no mount is at the root, no two are at one
path, and none is below a mounted table.
-/

open Interaction Table

variable {Value Expr σ α : Type} {objects : Objects Value Expr σ}
variable {mounts : Mounts objects} {world later : World objects}
variable {path : MountPath} {target : MountTarget objects}
variable {isLegal : String → Bool}
variable {view : MountedDir objects} {cx : Cx}

/-- No mount is at the root or twice at a path, and tables are leaves. -/
structure Mounts.WellFormed (mounts : Mounts objects) : Prop where
  distinct : Entries.Distinct mounts
  nonempty : ∀ entry ∈ mounts, entry.1 ≠ []
  leaves : ∀ entry ∈ mounts, entry.2.kind = .table →
    ∀ other ∈ mounts, entry.1 <+: other.1 → other = entry

/-- Nothing in the mount table is against a mount of the kind at the path. -/
structure Mounts.Admits (mounts : Mounts objects) (path : MountPath)
    (kind : MountKind) : Prop where
  nonempty : path ≠ []
  clear : refusal mounts path kind = none

theorem Mounts.mem_insert
    {entry : MountPath × MountTarget objects} :
    entry ∈ mounts.insert path target ↔
      entry = (path, target) ∨ entry ∈ mounts :=
  List.mem_orderedInsert _

/-- A mount that is not in conflict is not below a table, nor above one. -/
theorem clear_of_conflict
    {kind : MountKind} {existing : MountPath × MountTarget objects}
    (clear : conflict path kind existing = none) :
    (existing.1 <+: path → existing.2.kind = .table →
        path.length ≤ existing.1.length) ∧
      (path <+: existing.1 → kind ≠ .table) := by
  simp only [conflict, isPrefix_iff] at clear
  split at clear
  · cases clear
  · next noLeaf =>
      split at clear
      · cases clear
      · next noParent =>
          constructor
          · intro above isTable
            exact Nat.le_of_not_lt fun longer => noLeaf ⟨above, isTable, longer⟩
          · exact fun below isTable => noParent ⟨below, isTable⟩

/-- What is not refused is fresh and in conflict with no mount. -/
theorem clear_of_refusal
    {kind : MountKind}
    (clear : refusal mounts path kind = none) :
    (∀ entry ∈ mounts, entry.1 ≠ path) ∧
      ∀ existing ∈ mounts, conflict path kind existing = none := by
  simp only [refusal, Entries.isSome_find] at clear
  split at clear
  · cases clear
  · next fresh =>
      exact ⟨fun entry member same => fresh ⟨entry, member, same⟩,
        List.findSome?_eq_none_iff.mp clear⟩

theorem Mounts.Admits.wellFormed
    (admits : mounts.Admits path target.kind)
    (formed : mounts.WellFormed) :
    (mounts.insert path target).WellFormed := by
  obtain ⟨apart, clear⟩ := clear_of_refusal admits.clear
  have clear := fun existing member =>
    clear_of_conflict (clear existing member)
  have absent : path ∉ mounts.map Prod.fst := fun member => by
    obtain ⟨entry, inMounts, same⟩ := List.mem_map.mp member
    exact apart entry inMounts same
  refine ⟨?_, fun entry member => ?_, fun entry member isTable other also =>
    ?_⟩
  · have order := List.perm_orderedInsert
      (fun first second : MountPath × MountTarget objects =>
        first.1 ≤ second.1) (path, target) mounts
    exact (order.map Prod.fst).nodup_iff.mpr
      (List.nodup_cons.mpr ⟨absent, formed.distinct⟩)
  · rcases mem_insert.mp member with rfl | old
    · exact admits.nonempty
    · exact formed.nonempty entry old
  · intro above
    rcases mem_insert.mp member with rfl | old <;>
      rcases mem_insert.mp also with rfl | older
    · rfl
    · exact absurd isTable ((clear other older).2 above)
    · have short := (clear entry old).1 above isTable
      exact absurd (above.eq_of_length_le short) (apart entry old)
    · exact formed.leaves entry old isTable other older above

theorem Mounts.WellFormed.remove
    (formed : mounts.WellFormed)
    (path : MountPath) :
    Mounts.WellFormed (Entries.remove mounts path) where
  distinct := formed.distinct.remove path
  nonempty entry member := formed.nonempty entry (List.mem_filter.mp member).1
  leaves entry member isTable other also :=
    formed.leaves entry (List.mem_filter.mp member).1 isTable other
      (List.mem_filter.mp also).1

/-- What a call on a backend yields, and that it leaves the mount table. -/
theorem onBackends_yields
    {call : EStateM Error σ α} {outcome : Except Error α} {backends : σ}
    (yields : Yields call world.backends outcome backends) :
    Yields (onBackends call) world outcome { world with backends } := by
  rw [Yields] at yields ⊢
  simp only [onBackends, yields]
  cases outcome <;> rfl

/-- A call on a backend yields what the backend does. -/
theorem onBackends_inv
    {call : EStateM Error σ α} {outcome : Except Error α}
    (yields : Yields (onBackends call) world outcome later) :
    ∃ backends, Yields call world.backends outcome backends ∧
      later = { world with backends } := by
  obtain ⟨found, backends, runs⟩ := Yields.total call world.backends
  obtain ⟨rfl, rfl⟩ := (onBackends_yields runs).unique yields
  exact ⟨backends, runs, rfl⟩

/-- Without the capability nothing happens. -/
theorem of_required
    {capability : String} {rest : Calling objects α} {outcome : Except Error α}
    (yields : Yields (do
      MonadExcept.ofExcept (cx.require capability)
      rest) world outcome later) :
    ((∃ error, outcome = .error error) ∧ later = world) ∨
      Yields rest world outcome later := by
  rcases yields.bind_inv with ⟨_, _, required, runs⟩ | ⟨error, denied, fails⟩
  · obtain ⟨_, rfl⟩ := required.ofExcept_inv
    exact .inr runs
  · exact .inl ⟨⟨error, fails⟩, denied.ofExcept_inv.2⟩

/-- The calls that change the mount table. -/
inductive Registration (isLegal : String → Bool) (Value : Type) where
  | mountDir (path : TablePath isLegal) (target : Value)
  | mountTable (path : TablePath isLegal) (target : Value)
  | unmount (path : TablePath isLegal)

namespace Registration

/-- What a registration does. -/
def run (view : MountedDir objects) (cx : Cx) :
    Registration isLegal Value → Calling objects Unit
  | .mountDir path target => view.mountDir cx path target
  | .mountTable path target => view.mountTable cx path target
  | .unmount path => discard (MountedDir.unmount cx path)

/-- The mount point that is taken or given up. -/
def point : Registration isLegal Value → MountPath
  | .mountDir path _ => path.segments
  | .mountTable path _ => path.segments
  | .unmount path => path.segments

theorem point_legal
    (registration : Registration isLegal Value) :
    ∀ segment ∈ registration.point, isLegal segment = true := by
  cases registration with
  | mountDir path _ => exact path.legal
  | mountTable path _ => exact path.legal
  | unmount path => exact path.legal

/-- The kind that is mounted, when it is a mount. -/
def kind : Registration isLegal Value → Option MountKind
  | .mountDir _ _ => some .dir
  | .mountTable _ _ => some .table
  | .unmount _ => none

end Registration

variable {registration : Registration isLegal Value}

/-- What a registration yields, and does to the mount table and backends. -/
inductive Registers (view : MountedDir objects) (cx : Cx)
    (registration : Registration isLegal Value) (world : World objects) :
    Except Error Unit → World objects → Prop where
  | nothing {error : Error} :
      Registers view cx registration world (.error error) world
  | refused {error : Error} {outcome : Except Error (Option MountKind)}
      {backends : σ} :
      Yields (view.rootExactKind cx registration.point) world.backends
        outcome backends →
        Registers view cx registration world (.error error)
          { world with backends }
  | mounted {target : MountTarget objects} {backends : σ} :
      registration.kind = some target.kind →
        world.mounts.Admits registration.point target.kind →
          Yields (view.rootExactKind cx registration.point)
            world.backends (.ok none) backends →
            Registers view cx registration world (.ok ())
              ⟨world.mounts.insert registration.point target, backends⟩
  | unmounted : registration.kind = none →
      Registers view cx registration world (.ok ())
        { world with
          mounts := Entries.remove world.mounts registration.point }

variable {outcome : Except Error Unit}

theorem insertMount_registers
    (isMount : registration.kind = some target.kind)
    (yields : Yields (view.insertMount cx registration.point target) world
      outcome later) :
    Registers view cx registration world outcome later := by
  unfold MountedDir.insertMount at yields
  split at yields
  · obtain ⟨rfl, rfl⟩ := (Yields.throw _ world).unique yields
    exact .nothing
  · next isPath =>
      rcases yields.bind_inv with
        ⟨found, checked, looked, yields⟩ | ⟨error, failed, rfl⟩
      · obtain ⟨backends, answered, rfl⟩ := onBackends_inv looked
        split at yields
        · obtain ⟨rfl, rfl⟩ := (Yields.throw _ _).unique yields
          exact .refused answered
        · next nothing =>
            have yields := (Yields.get _).rest yields
            split at yields
            · obtain ⟨rfl, rfl⟩ := (Yields.throw _ _).unique yields
              exact .refused answered
            · next clear =>
                obtain ⟨rfl, rfl⟩ := (Yields.set _ _).unique yields
                rw [Option.not_isSome_iff_eq_none.mp nothing] at answered
                exact .mounted isMount ⟨by simpa using isPath, clear⟩ answered
      · obtain ⟨backends, answered, rfl⟩ := onBackends_inv failed
        exact .refused answered

/-- A registration does one of these things, whether it succeeds. -/
theorem Registration.run_registers
    (yields : Yields (registration.run view cx) world outcome later) :
    Registers view cx registration world outcome later := by
  cases registration with
  | mountDir path target =>
      rcases of_required yields with ⟨⟨_, rfl⟩, rfl⟩ | runs
      · exact .nothing
      · split at runs
        · exact insertMount_registers rfl runs
        · obtain ⟨rfl, rfl⟩ := (Yields.throw _ _).unique runs
          exact .nothing
  | mountTable path target =>
      rcases of_required yields with ⟨⟨_, rfl⟩, rfl⟩ | runs
      · exact .nothing
      · split at runs
        · exact insertMount_registers rfl runs
        · obtain ⟨rfl, rfl⟩ := (Yields.throw _ _).unique runs
          exact .nothing
  | unmount path =>
      obtain ⟨found, ran, rfl⟩ := yields.discard_inv
      rcases of_required ran with ⟨⟨_, rfl⟩, rfl⟩ | runs
      · exact .nothing
      · split at runs
        · obtain ⟨rfl, rfl⟩ := (Yields.throw _ _).unique runs
          exact .nothing
        · have read := (Yields.get world).rest runs
          have removed := (Yields.set _ world).rest read
          obtain ⟨rfl, rfl⟩ := (Yields.pure _ _).unique removed
          exact .unmounted rfl

/-- Registrations keep the mount table well formed. -/
theorem Registers.wellFormed
    (registers : Registers view cx registration world outcome later)
    (formed : world.mounts.WellFormed) :
    later.mounts.WellFormed := by
  cases registers with
  | nothing => exact formed
  | refused _ => exact formed
  | mounted _ admits _ => exact admits.wellFormed formed
  | unmounted _ => exact formed.remove _

/-- Registrations keep the mount paths legal. -/
theorem Registers.legal
    (registers : Registers view cx registration world outcome later)
    (legal : ∀ entry ∈ world.mounts, ∀ segment ∈ entry.1,
      isLegal segment = true) :
    ∀ entry ∈ later.mounts, ∀ segment ∈ entry.1, isLegal segment = true := by
  cases registers with
  | nothing => exact legal
  | refused _ => exact legal
  | mounted _ _ _ =>
      intro entry member
      rcases Mounts.mem_insert.mp member with rfl | old
      · exact registration.point_legal
      · exact legal entry old
  | unmounted _ =>
      exact fun entry member => legal entry (List.mem_filter.mp member).1

section Runs

/-- What registrations reach in a namespace, while the backends change. -/
inductive Reached (isLegal : String → Bool) (top : MountedDir objects) :
    World objects → Prop where
  | opened (backends : σ) : Reached isLegal top ⟨[], backends⟩
  | registered {world later : World objects} (view : MountedDir objects)
      (cx : Cx) (registration : Registration isLegal Value)
      {outcome : Except Error Unit} :
      Reached isLegal top world → view.root = top.root →
        Yields (registration.run view cx) world outcome later →
          Reached isLegal top later
  | changed {world : World objects} (backends : σ) :
      Reached isLegal top world → Reached isLegal top { world with backends }

theorem Mounts.WellFormed.empty :
    Mounts.WellFormed ([] : Mounts objects) where
  distinct := List.nodup_nil
  nonempty _ member := absurd member List.not_mem_nil
  leaves _ member := absurd member List.not_mem_nil

theorem Reached.wellFormed
    {top : MountedDir objects}
    (reached : Reached isLegal top world) :
    world.mounts.WellFormed := by
  induction reached with
  | opened backends => exact .empty
  | registered view cx registration _ _ yields inductionHypothesis =>
      exact (registration.run_registers yields).wellFormed inductionHypothesis
  | changed backends _ inductionHypothesis => exact inductionHypothesis

theorem Reached.legal
    {top : MountedDir objects}
    (reached : Reached isLegal top world) :
    ∀ entry ∈ world.mounts, ∀ segment ∈ entry.1, isLegal segment = true := by
  induction reached with
  | opened backends => exact fun _ member => absurd member List.not_mem_nil
  | registered view cx registration _ _ yields inductionHypothesis =>
      exact (registration.run_registers yields).legal inductionHypothesis
  | changed backends _ inductionHypothesis => exact inductionHypothesis

end Runs

end SimStorage.Mount
