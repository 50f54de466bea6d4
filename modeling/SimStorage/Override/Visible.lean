import SimStorage.Interaction.Evaluation
import SimStorage.Override.Table

namespace SimStorage.Override

/-!
# The visible map

Layers that behave as maps show one map through an override table: of each key
that is not masked, the value of the first layer that has it.  All reads report
it and all writes change it as they would change a single map, whatever is done
to the layers meanwhile.
-/

open Interaction Table

variable {Value Expr σ α : Type} {objects : Objects Value Expr σ}

section Definitions

/-- The call changes the map of its own layer, and only when it returns. -/
structure Writes (content : σ → Value → Symbol → Option Value)
    (call : EStateM Error σ α) (layers : List Value) (layer : Value)
    (change : (Symbol → Option Value) → Symbol → Option Value) : Prop where
  returned : ∀ state value later, Yields call state (.ok value) later →
    content later layer = change (content state layer)
  failed : ∀ state error later, Yields call state (.error error) later →
    content later layer = content state layer
  others : ∀ state outcome later, Yields call state outcome later →
    ∀ other ∈ layers, other ≠ layer → content later other = content state other

/-- The layers behave as maps by symbols: reads report them, writes may fail. -/
structure Maps (objects : Objects Value Expr σ) (layers : List Value)
    (content : σ → Value → Symbol → Option Value) : Prop where
  has : ∀ cx, ∀ layer ∈ layers, ∀ key state,
    Yields (objects.has cx layer key) state
      (.ok (content state layer key).isSome) state
  get : ∀ cx, ∀ layer ∈ layers, ∀ key state value,
    content state layer key = some value →
      Yields (objects.get cx layer key) state (.ok value) state
  keys : ∀ cx, ∀ layer ∈ layers, ∀ state, ∃ keys,
    Yields (objects.keys cx layer) state (.ok keys) state ∧ keys.Nodup ∧
      ∀ key, key ∈ keys ↔ (content state layer key).isSome = true
  entries : ∀ cx, ∀ layer ∈ layers, ∀ state, ∃ entries,
    Yields (objects.entries cx layer) state (.ok entries) state ∧
      (entries.map Prod.fst).Nodup ∧
        ∀ key value, (key, value) ∈ entries ↔
          content state layer key = some value
  set : ∀ cx, ∀ layer ∈ layers, ∀ key value,
    Writes content (objects.set cx layer key value) layers layer
      fun map => Function.update map key (some value)
  del : ∀ cx, ∀ layer ∈ layers, ∀ key,
    Writes content (objects.del cx layer key) layers layer
      fun map => Function.update map key none
  clear : ∀ cx, ∀ layer ∈ layers,
    Writes content (objects.clear cx layer) layers layer fun _ _ => none

variable (table : OverrideTable objects)
variable (content : σ → Value → Symbol → Option Value)

/-- What the layers show and the masks do not hide. -/
def OverrideTable.visible (shared : Shared σ) : Symbol → Option Value :=
  Layers.mask shared.masked
    (Layers.overlay (table.layers.map (content shared.layers)))

/-- The calls on an override table. -/
inductive Call (Value : Type) where
  | get (key : Symbol)
  | set (key : Symbol) (value : Value)
  | has (key : Symbol)
  | del (key : Symbol)
  | keys
  | entries
  | len
  | clear

/-- A call through the table or a clone. -/
def Call.run (cx : Cx) : Call Value → Calling σ Unit
  | .get key => discard (table.get cx key)
  | .set key value => table.set cx key value
  | .has key => discard (table.has cx key)
  | .del key => discard (table.del cx key)
  | .keys => discard (table.keys cx)
  | .entries => discard (table.entries cx)
  | .len => discard (table.len cx)
  | .clear => table.clear cx

/-- What a single map shows after the call. -/
def Call.shows (map : Symbol → Option Value) :
    Call Value → Symbol → Option Value
  | .set key value => Function.update map key (some value)
  | .del key => Function.update map key none
  | .clear => fun _ => none
  | _ => map

/-- The keys that were deleted or cleared and not set since. -/
def Call.hides (map : Symbol → Option Value) (hidden : Symbol → Prop) :
    Call Value → Symbol → Prop
  | .set key _ => fun other => hidden other ∧ other ≠ key
  | .del key => fun other => hidden other ∨ other = key
  | .clear => fun other => hidden other ∨ (map other).isSome = true
  | _ => hidden

/--
What a run reaches, with the keys that were deleted or cleared and not set
since: calls through the table and its clones, and any changes of the layers.
-/
inductive Reached : Shared σ → (Symbol → Prop) → Prop where
  | made (layers : σ) : Reached { masked := [], layers } fun _ => False
  | returned {shared later : Shared σ} {hidden : Symbol → Prop} (cx : Cx)
      (call : Call Value) :
      Reached shared hidden →
        Yields (call.run table cx) shared (.ok ()) later →
          Reached later (call.hides (table.visible content shared) hidden)
  | failed {shared later : Shared σ} {hidden : Symbol → Prop} {error : Error}
      (cx : Cx) (call : Call Value) :
      Reached shared hidden →
        Yields (call.run table cx) shared (.error error) later →
          Reached later hidden
  | changed {shared : Shared σ} {hidden : Symbol → Prop} (layers : σ) :
      Reached shared hidden → Reached { shared with layers } hidden

/-- All calls work on the visible map. -/
structure Refines (shared : Shared σ) (hidden : Symbol → Prop) : Prop where
  get : ∀ cx key, Yields (table.get cx key) shared
    (objects.factory.orNil (table.visible content shared key)) shared
  has : ∀ cx key, Yields (table.has cx key) shared
    (.ok (table.visible content shared key).isSome) shared
  keys : ∀ cx, ∃ keys, Yields (table.keys cx) shared (.ok keys) shared ∧
    Yields (table.len cx) shared (.ok keys.length) shared ∧ keys.Nodup ∧
      ∀ key, key ∈ keys ↔ (table.visible content shared key).isSome = true
  entries : ∀ cx, ∃ entries,
    Yields (table.entries cx) shared (.ok entries) shared ∧
      (entries.map Prod.fst).Nodup ∧
        ∀ key value, (key, value) ∈ entries ↔
          table.visible content shared key = some value
  /-- A write ends as that of the front layer, and leaves the layers so. -/
  set : ∀ cx key value outcome layers,
    Yields (objects.set cx table.front key value) shared.layers outcome layers →
      ∃ later, Yields (table.set cx key value) shared outcome later ∧
        later.layers = layers
  del : ∀ cx key outcome layers,
    Yields (objects.del cx table.front key) shared.layers outcome layers →
      ∃ later, Yields (table.del cx key) shared outcome later ∧
        later.layers = layers
  clear : ∀ cx outcome layers,
    Yields (objects.clear cx table.front) shared.layers outcome layers →
      ∃ later, Yields (table.clear cx) shared outcome later ∧
        later.layers = layers
  returned : ∀ cx (call : Call Value) later,
    Yields (call.run table cx) shared (.ok ()) later →
      table.visible content later = call.shows (table.visible content shared)
  failed : ∀ cx (call : Call Value) error later,
    Yields (call.run table cx) shared (.error error) later →
      later.masked = shared.masked ∧
        table.visible content later = table.visible content shared
  rest : ∀ cx (call : Call Value) outcome later,
    Yields (call.run table cx) shared outcome later → ∀ layer ∈ table.rest,
      content later.layers layer = content shared.layers layer
  hidden : ∀ key, hidden key → table.visible content shared key = none

end Definitions

variable {table : OverrideTable objects} {cx : Cx}
variable {content : σ → Value → Symbol → Option Value}
variable {shared later : Shared σ} {layers : List Value}

section Layered

/-- A call on a layer leaves the masks. -/
theorem onLayers_iff
    {call : EStateM Error σ α} {outcome : Except Error α} :
    Yields (onLayers call) shared outcome later ↔
      Yields call shared.layers outcome later.layers ∧
        later.masked = shared.masked := by
  rcases later with ⟨masked, after⟩
  simp only [Yields, onLayers]
  cases call shared.layers <;> cases outcome <;>
    simp [settle, Shared.mk.injEq, eq_comm] <;> tauto

/-- A read of a layer leaves the table. -/
theorem onLayers_read
    {call : EStateM Error σ α} {outcome : Except Error α}
    (reads : Yields call shared.layers outcome shared.layers) :
    Yields (onLayers call) shared outcome shared :=
  onLayers_iff.mpr ⟨reads, rfl⟩

/-- What the front layer shows comes before what the others show. -/
theorem visible_eq :
    table.visible content shared =
      Layers.mask shared.masked fun key =>
        (content shared.layers table.front key).or
          (Layers.overlay (table.rest.map (content shared.layers)) key) := by
  funext key
  simp only [OverrideTable.visible, OverrideTable.layers, List.map_cons,
    Layers.mask, Layers.overlay_cons]

end Layered

section Reads

/-- The first layer that has a key gives its value. -/
theorem getFrom_yields
    (maps : Maps objects table.layers content)
    (within : layers ⊆ table.layers)
    (key : Symbol) :
    Yields (OverrideTable.getFrom cx objects key layers) shared
      (objects.factory.orNil
        (Layers.overlay (layers.map (content shared.layers)) key)) shared := by
  induction layers with
  | nil => exact Yields.ofExcept _ shared
  | cons layer rest inductionHypothesis =>
      have inLayers : layer ∈ table.layers := within List.mem_cons_self
      refine (onLayers_read (maps.has cx layer inLayers key _)).bind ?_
      rw [List.map_cons, Layers.overlay_cons]
      cases stored : content shared.layers layer key with
      | some value =>
          exact onLayers_read (maps.get cx layer inLayers key _ value stored)
      | none =>
          exact inductionHypothesis fun other member =>
            within (List.mem_cons_of_mem _ member)

theorem hasFrom_yields
    (maps : Maps objects table.layers content)
    (within : layers ⊆ table.layers)
    (key : Symbol) :
    Yields (OverrideTable.hasFrom cx objects key layers) shared
      (.ok (Layers.overlay (layers.map (content shared.layers)) key).isSome)
      shared := by
  induction layers with
  | nil => exact Yields.pure _ shared
  | cons layer rest inductionHypothesis =>
      have inLayers : layer ∈ table.layers := within List.mem_cons_self
      refine (onLayers_read (maps.has cx layer inLayers key _)).bind ?_
      rw [List.map_cons, Layers.overlay_cons]
      cases content shared.layers layer key with
      | some value => exact Yields.pure true shared
      | none =>
          exact inductionHypothesis fun other member =>
            within (List.mem_cons_of_mem _ member)

/-- A scan of the layers is one scan of all their rows. -/
theorem scanFrom_yields
    {key : α → Symbol} {rows : Value → EStateM Error σ (List α)}
    {masked : List Symbol} {taken : List Symbol × List α}
    {found : List (List α)}
    (reads : List.Forall₂ (fun layer listed =>
      Yields (rows layer) shared.layers (.ok listed) shared.layers)
      layers found) :
    Yields (OverrideTable.scanFrom key rows masked taken layers) shared
      (.ok (Layers.scan key masked taken found.flatten).2) shared := by
  induction reads generalizing taken with
  | nil => exact Yields.pure _ shared
  | cons head _ inductionHypothesis =>
      rw [List.flatten_cons, Layers.scan_append]
      exact (onLayers_read head).bind inductionHypothesis

/-- A scan of layers that list their maps lists what they show unmasked. -/
theorem scanFrom_lists
    {key : α → Symbol} {rows : Value → EStateM Error σ (List α)}
    {make : Symbol → Value → α}
    (lists : ∀ layer ∈ table.layers, ∃ listed,
      Yields (rows layer) shared.layers (.ok listed) shared.layers ∧
        Layers.Rows key make (content shared.layers layer) listed) :
    ∃ out, Yields (OverrideTable.scanFrom key rows shared.masked ([], [])
        table.layers) shared (.ok out) shared ∧
      (out.map key).Nodup ∧
      ∀ item, item ∈ out ↔
        (table.visible content shared (key item)).map (make (key item)) =
          some item := by
  rcases exists_forall₂ lists with ⟨found, pairs⟩
  have layered : List.Forall₂ (Layers.Rows key make)
      (table.layers.map (content shared.layers)) found := by
    rw [List.forall₂_map_left_iff]
    exact pairs.imp fun _ _ both => both.2
  exact ⟨_, scanFrom_yields (pairs.imp fun _ _ both => both.1),
    Layers.Taken.nil.scan.1,
    Layers.mem_scan_rows (Layers.Rows.flatten layered)⟩

/-- A masked key shows nothing; another, what the layers show. -/
theorem visible_apply
    (key : Symbol) :
    table.visible content shared key =
      if key ∈ shared.masked then
        none
      else
        Layers.overlay (table.layers.map (content shared.layers)) key :=
  rfl

theorem isMasked_yields
    (key : Symbol) :
    Yields (isMasked key) shared (.ok (decide (key ∈ shared.masked))) shared :=
  rfl

theorem get_yields
    (maps : Maps objects table.layers content)
    (key : Symbol) :
    Yields (table.get cx key) shared
      (objects.factory.orNil (table.visible content shared key)) shared := by
  refine (isMasked_yields key).bind ?_
  rw [visible_apply]
  by_cases masked : key ∈ shared.masked
  · simp only [masked, decide_true, if_true]
    exact Yields.ofExcept _ shared
  · simp only [masked, decide_false, Bool.false_eq_true, if_false]
    exact getFrom_yields maps (List.Subset.refl _) key

theorem has_yields
    (maps : Maps objects table.layers content)
    (key : Symbol) :
    Yields (table.has cx key) shared
      (.ok (table.visible content shared key).isSome) shared := by
  refine (isMasked_yields key).bind ?_
  rw [visible_apply]
  by_cases masked : key ∈ shared.masked
  · simp only [masked, decide_true, if_true]
    exact Yields.pure _ shared
  · simp only [masked, decide_false, Bool.false_eq_true, if_false]
    exact hasFrom_yields maps (List.Subset.refl _) key

theorem keys_yields
    (maps : Maps objects table.layers content)
    (cx : Cx) (shared : Shared σ) :
    ∃ keys, Yields (table.keys cx) shared (.ok keys) shared ∧ keys.Nodup ∧
      ∀ key, key ∈ keys ↔ (table.visible content shared key).isSome = true := by
  have lists : ∀ layer ∈ table.layers, ∃ listed,
      Yields (objects.keys cx layer) shared.layers (.ok listed) shared.layers ∧
        Layers.Rows id (fun key _ => key) (content shared.layers layer)
          listed := by
    intro layer member
    rcases maps.keys cx layer member shared.layers with
      ⟨listed, reads, _, present⟩
    refine ⟨listed, reads, Layers.Rows.of_mem (fun _ _ => rfl) fun key => ?_⟩
    rw [present]
    simp [Option.isSome_iff_exists]
  rcases scanFrom_lists lists with ⟨out, scans, distinct, shown⟩
  refine ⟨out, (Yields.get shared).bind scans, by simpa using distinct, ?_⟩
  intro key
  rw [shown]
  simp [Option.isSome_iff_exists]

theorem entries_yields
    (maps : Maps objects table.layers content)
    (cx : Cx) (shared : Shared σ) :
    ∃ entries, Yields (table.entries cx) shared (.ok entries) shared ∧
      (entries.map Prod.fst).Nodup ∧
        ∀ key value, (key, value) ∈ entries ↔
          table.visible content shared key = some value := by
  have lists : ∀ layer ∈ table.layers, ∃ listed,
      Yields (objects.entries cx layer) shared.layers (.ok listed)
          shared.layers ∧
        Layers.Rows Prod.fst Prod.mk (content shared.layers layer) listed := by
    intro layer member
    rcases maps.entries cx layer member shared.layers with
      ⟨listed, reads, _, present⟩
    refine ⟨listed, reads, Layers.Rows.of_mem (fun _ _ => rfl) fun row => ?_⟩
    rcases row with ⟨key, value⟩
    rw [present]
    simp
  rcases scanFrom_lists lists with ⟨out, scans, distinct, shown⟩
  refine ⟨out, (Yields.get shared).bind scans, distinct, ?_⟩
  intro key value
  rw [shown]
  simp

end Reads

section Writes

variable {β : Type} {call : EStateM Error σ α} {next : α → Calling σ β}
variable {masks : List Symbol → List Symbol} {result : α → β}
variable {change : (Symbol → Option Value) → Symbol → Option Value}
variable {outcome : Except Error β}

/-- What is visible depends on the masks and the layers' maps only. -/
theorem visible_of_layers
    {map : Symbol → Option Value}
    (front : content later.layers table.front = map)
    (rest : ∀ layer ∈ table.rest,
      content later.layers layer = content shared.layers layer) :
    table.visible content later =
      Layers.mask later.masked fun key =>
        (map key).or
          (Layers.overlay (table.rest.map (content shared.layers)) key) := by
  rw [visible_eq, front, List.map_congr_left rest]

/-- A write to the front layer fails and leaves the masks, or changes both. -/
theorem write_cases
    (distinct : table.layers.Nodup)
    (writes : Writes content call table.layers table.front change)
    (nexts : ∀ value middle, Yields (next value) middle (.ok (result value))
      { middle with masked := masks middle.masked })
    (called : Yields (onLayers call >>= next) shared outcome later) :
    (∀ layer ∈ table.rest,
        content later.layers layer = content shared.layers layer) ∧
      ((∃ value, outcome = .ok value) ∧
          later.masked = masks shared.masked ∧
          content later.layers table.front =
            change (content shared.layers table.front) ∨
        (∃ error, outcome = .error error) ∧ later.masked = shared.masked ∧
          content later.layers table.front =
            content shared.layers table.front) := by
  have apart : ∀ layer ∈ table.rest, layer ≠ table.front := by
    intro layer member same
    exact (List.nodup_cons.mp distinct).1 (same ▸ member)
  have inLayers : ∀ layer ∈ table.rest, layer ∈ table.layers :=
    fun layer member => List.mem_cons_of_mem _ member
  rcases called.bind_inv with
    ⟨value, middle, first, rest⟩ | ⟨error, first, fails⟩
  · rcases onLayers_iff.mp first with ⟨wrote, sameMasks⟩
    rcases rest.unique (nexts value middle) with ⟨returns, rfl⟩
    refine ⟨fun layer member => writes.others _ _ _ wrote layer
      (inLayers layer member) (apart layer member), .inl ⟨⟨_, returns⟩, ?_,
        writes.returned _ _ _ wrote⟩⟩
    exact congrArg masks sameMasks
  · rcases onLayers_iff.mp first with ⟨stopped, sameMasks⟩
    exact ⟨fun layer member => writes.others _ _ _ stopped layer
      (inLayers layer member) (apart layer member), .inr ⟨⟨_, fails⟩, sameMasks,
        writes.failed _ _ _ stopped⟩⟩

/-- A call on a layer, and what cannot fail after it, end as the layer does. -/
theorem onLayers_ends
    {found : Except Error α} {after : σ}
    (called : Yields call shared.layers found after)
    (nexts : ∀ value middle, Yields (next value) middle (.ok (result value))
      { middle with masked := masks middle.masked })
    (same : found.map result = outcome) :
    ∃ later, Yields (onLayers call >>= next) shared outcome later ∧
      later.layers = after := by
  have first : Yields (onLayers call) shared found
      { shared with layers := after } := onLayers_iff.mpr ⟨called, rfl⟩
  subst same
  cases found with
  | ok value => exact ⟨_, first.bind (nexts value _), rfl⟩
  | error error => exact ⟨_, first.bindError, rfl⟩

theorem set_ends
    {key : Symbol} {value : Value} {outcome : Except Error Unit} {after : σ}
    (wrote : Yields (objects.set cx table.front key value) shared.layers outcome
      after) :
    ∃ later, Yields (table.set cx key value) shared outcome later ∧
      later.layers = after :=
  onLayers_ends wrote (fun _ middle => Yields.modify _ middle)
    (by cases outcome <;> rfl)

theorem del_ends
    {key : Symbol} {outcome : Except Error Value} {after : σ}
    (wrote : Yields (objects.del cx table.front key) shared.layers outcome
      after) :
    ∃ later, Yields (table.del cx key) shared outcome later ∧
      later.layers = after :=
  onLayers_ends wrote
    (fun value middle => (Yields.modify _ middle).bind (Yields.pure value _))
    (by cases outcome <;> rfl)

/-- The keys are listed first, which changes nothing. -/
theorem clear_ends
    {outcome : Except Error Unit} {after : σ}
    (maps : Maps objects table.layers content)
    (wrote : Yields (objects.clear cx table.front) shared.layers outcome
      after) :
    ∃ later, Yields (table.clear cx) shared outcome later ∧
      later.layers = after := by
  rcases keys_yields maps cx shared with ⟨keys, lists, _⟩
  have ends : ∃ later, Yields (do
      onLayers (objects.clear cx table.front)
      withMasked fun masked => keys ++ masked) shared outcome later ∧
        later.layers = after :=
    onLayers_ends wrote (fun _ middle => Yields.modify _ middle)
      (by cases outcome <;> rfl)
  rcases ends with ⟨later, clears, left⟩
  exact ⟨later, lists.bind clears, left⟩

/-- What a call leaves: the visible map as its outcome says, and the rest. -/
structure Settles (table : OverrideTable objects)
    (content : σ → Value → Symbol → Option Value) (shared later : Shared σ)
    (call : Call Value) (outcome : Except Error Unit) : Prop where
  returned : outcome = .ok () →
    table.visible content later = call.shows (table.visible content shared)
  hides : outcome = .ok () → ∀ key,
    call.hides (table.visible content shared) (· ∈ shared.masked) key →
      key ∈ later.masked
  failed : ∀ error, outcome = .error error →
    later.masked = shared.masked ∧
      table.visible content later = table.visible content shared
  rest : ∀ layer ∈ table.rest,
    content later.layers layer = content shared.layers layer

/-- A call that reads settles. -/
theorem Settles.read
    {call : Call Value} {outcome : Except Error Unit}
    (shows : ∀ map, call.shows map = map)
    (hides : ∀ map hidden, call.hides map hidden = hidden) :
    Settles table content shared shared call outcome where
  returned _ := (shows _).symm
  hides _ key hidden := by
    rw [hides] at hidden
    exact hidden
  failed _ _ := ⟨rfl, rfl⟩
  rest _ _ := rfl

/-- A write that changes the visible map by its masks and its front settles. -/
theorem Settles.write
    {done : Call Value} {outcome : Except Error Unit} {masked : List Symbol}
    {map : Symbol → Option Value}
    (rest : ∀ layer ∈ table.rest,
      content later.layers layer = content shared.layers layer)
    (wrote : (∃ value, outcome = .ok value) ∧ later.masked = masked ∧
          content later.layers table.front = map ∨
        (∃ error, outcome = .error error) ∧ later.masked = shared.masked ∧
          content later.layers table.front =
            content shared.layers table.front)
    (hides : ∀ key,
      done.hides (table.visible content shared) (· ∈ shared.masked) key →
        key ∈ masked)
    (shows : Layers.mask masked (fun key =>
        (map key).or
          (Layers.overlay (table.rest.map (content shared.layers)) key)) =
      done.shows (table.visible content shared)) :
    Settles table content shared later done outcome where
  returned returns := by
    rcases wrote with ⟨_, same, front⟩ | ⟨⟨error, fails⟩, _⟩
    · rw [visible_of_layers front rest, same, shows]
    · cases returns.symm.trans fails
  hides returns key hidden := by
    rcases wrote with ⟨_, same, _⟩ | ⟨⟨error, fails⟩, _⟩
    · rw [same]
      exact hides key hidden
    · cases returns.symm.trans fails
  failed error fails := by
    rcases wrote with ⟨⟨value, returns⟩, _⟩ | ⟨_, same, front⟩
    · cases fails.symm.trans returns
    · refine ⟨same, ?_⟩
      rw [visible_of_layers front rest, same, visible_eq]
  rest := rest

/-- A call settles. -/
theorem run_settles
    {call : Call Value} {outcome : Except Error Unit}
    (maps : Maps objects table.layers content)
    (distinct : table.layers.Nodup)
    (ran : Yields (call.run table cx) shared outcome later) :
    Settles table content shared later call outcome := by
  have front : table.front ∈ table.layers := List.mem_cons_self
  cases call with
  | get key =>
      rcases ran.of_discard with ⟨found, reads⟩
      rw [(reads.unique (get_yields maps key)).2]
      exact .read (fun _ => rfl) fun _ _ => rfl
  | has key =>
      rcases ran.of_discard with ⟨found, reads⟩
      rw [(reads.unique (has_yields maps key)).2]
      exact .read (fun _ => rfl) fun _ _ => rfl
  | keys =>
      rcases ran.of_discard with ⟨found, reads⟩
      rcases keys_yields maps cx shared with ⟨keys, lists, _⟩
      rw [(reads.unique lists).2]
      exact .read (fun _ => rfl) fun _ _ => rfl
  | entries =>
      rcases ran.of_discard with ⟨found, reads⟩
      rcases entries_yields maps cx shared with ⟨entries, lists, _⟩
      rw [(reads.unique lists).2]
      exact .read (fun _ => rfl) fun _ _ => rfl
  | len =>
      rcases ran.of_discard with ⟨found, reads⟩
      rcases keys_yields maps cx shared with ⟨keys, lists, _⟩
      rw [(reads.unique (lists.bind (Yields.pure _ _))).2]
      exact .read (fun _ => rfl) fun _ _ => rfl
  | set key value =>
      rcases write_cases distinct (maps.set cx _ front key value)
        (fun _ middle => Yields.modify _ middle) ran with ⟨rest, wrote⟩
      refine .write rest wrote (fun other hidden => ?_) ?_
      · simpa [Call.hides] using hidden
      funext query
      by_cases same : query = key
      · subst same
        simp [Layers.mask, Call.shows]
      · simp [visible_eq, Layers.mask, Call.shows, same]
  | del key =>
      rcases ran.discard_inv with ⟨found, deletes, rfl⟩
      rcases write_cases distinct (maps.del cx _ front key)
        (fun value middle => (Yields.modify _ middle).bind (Yields.pure value _))
        deletes with ⟨rest, wrote⟩
      have hides : ∀ other, (Call.del key : Call Value).hides
          (table.visible content shared) (· ∈ shared.masked) other →
            other ∈ key :: shared.masked := fun other hidden =>
        List.mem_cons.mpr hidden.symm
      have shows : Layers.mask (key :: shared.masked) (fun query =>
          (Function.update (content shared.layers table.front) key none
            query).or
              (Layers.overlay (table.rest.map (content shared.layers)) query)) =
          (Call.del key).shows (table.visible content shared) := by
        funext query
        by_cases same : query = key <;>
          simp [visible_eq, Layers.mask, Call.shows, same]
      rcases wrote with ⟨⟨value, rfl⟩, changed⟩ | ⟨⟨error, rfl⟩, kept⟩
      · exact .write rest (.inl ⟨⟨(), rfl⟩, changed⟩) hides shows
      · exact .write rest (.inr ⟨⟨error, rfl⟩, kept⟩) hides shows
  | clear =>
      rcases keys_yields maps cx shared with ⟨keys, lists, _, present⟩
      have clears := lists.rest ran
      rcases write_cases distinct (maps.clear cx _ front)
        (fun _ middle => Yields.modify _ middle) clears with ⟨rest, wrote⟩
      refine .write rest wrote (fun other hidden => ?_) ?_
      · rw [List.mem_append, present]
        exact hidden.symm
      funext query
      have listed := present query
      by_cases masked : query ∈ shared.masked
      · simp [Layers.mask, Call.shows, masked]
      · by_cases visible : query ∈ keys
        · simp [Layers.mask, Call.shows, visible]
        · have absent : table.visible content shared query = none := by
            simpa [visible] using listed
          simp only [visible_eq, Layers.mask, masked, if_false,
            Option.or_eq_none_iff] at absent
          simp [Layers.mask, Call.shows, masked, visible, absent.2]

end Writes

end SimStorage.Override
