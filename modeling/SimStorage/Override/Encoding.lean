import SimStorage.Override.Runs

namespace SimStorage.Override

/-!
# Encoding an override table

The encoding holds the expressions of the layers and nothing of the masks.  A
table that is constructed from it shows what the first one showed just when no
layer holds a key that is masked.
-/

open Interaction Table

variable {Value Expr σ : Type} {objects : Objects Value Expr σ}

section Definitions

/-- `construct_override_table`: a table of the layers, with masks of its own. -/
def constructOverrideTable (objects : Objects Value Expr σ)
    (args : List Value) (layers : σ) :
    Except Error (OverrideTable objects × Shared σ) := do
  let table ← OverrideTable.new objects args
  return (table, { masked := [], layers })

/-- The outcome of expressing a value. -/
def Expresses (objects : Objects Value Expr σ) (cx : Cx) (layers : σ)
    (value : Value) (expr : Expr) : Prop :=
  Yields (objects.asExpr cx value) layers (.ok expr) layers

variable (objects : Objects Value Expr σ) (cx : Cx)

/-- Both are nothing, or values with the same expressions. -/
inductive Alike (first second : σ) : Option Value → Option Value → Prop where
  | none : Alike first second none none
  | some {value other : Value} :
      (∀ expr, Expresses objects cx first value expr ↔
        Expresses objects cx second other expr) →
          Alike first second (some value) (some other)

/-- The values read from the expressions have the content of the layers. -/
structure ReadBack (content : σ → Value → Symbol → Option Value)
    (layers : List Value) (first : σ) (args : List Value) (second : σ) :
    Prop where
  maps : Maps objects args content
  same : List.Forall₂ (fun layer arg => ∀ key,
    Alike objects cx first second (content first layer key)
      (content second arg key)) layers args

/-- The expressions of the layers read back as tables with their content. -/
def ReadsBack (content : σ → Value → Symbol → Option Value)
    (read : Expr → EStateM Error σ Value) (layers : List Value) (first : σ) :
    Prop :=
  ∀ exprs args second,
    Yields (layers.mapM (objects.asExpr cx)) first (.ok exprs) first →
      Yields (exprs.mapM read) first (.ok args) second →
        ReadBack objects cx content layers first args second

/-- Both tables give the same results, values compared by expressions. -/
structure SameReads {objects : Objects Value Expr σ} (cx : Cx)
    (table other : OverrideTable objects) (first second : Shared σ) : Prop where
  has : ∀ key present, Yields (table.has cx key) first (.ok present) first ↔
    Yields (other.has cx key) second (.ok present) second
  get : ∀ key, ∃ value found,
    Yields (table.get cx key) first (objects.factory.orNil value) first ∧
      Yields (other.get cx key) second (objects.factory.orNil found) second ∧
        Alike objects cx first.layers second.layers value found
  keys : ∃ keys others, Yields (table.keys cx) first (.ok keys) first ∧
    Yields (other.keys cx) second (.ok others) second ∧ keys.Perm others
  entries : ∃ rows others, Yields (table.entries cx) first (.ok rows) first ∧
    Yields (other.entries cx) second (.ok others) second ∧
      (∀ key value, (key, value) ∈ rows → ∃ found, (key, found) ∈ others ∧
        Alike objects cx first.layers second.layers (some value)
          (some found)) ∧
      ∀ key found, (key, found) ∈ others → ∃ value, (key, value) ∈ rows ∧
        Alike objects cx first.layers second.layers (some value) (some found)
  len : ∀ size, Yields (table.len cx) first (.ok size) first ↔
    Yields (other.len cx) second (.ok size) second

end Definitions

section RoundTrip

variable {table other : OverrideTable objects} {cx : Cx}
variable {content : σ → Value → Symbol → Option Value}
variable {shared second : Shared σ} {layers args : List Value} {later : σ}

/-- A loop of calls on layers is a loop on their state. -/
theorem onLayers_mapM
    {α β : Type} {body : α → EStateM Error σ β} {items : List α}
    {outcome : Except Error (List β)}
    (ran : Yields (items.mapM fun item => onLayers (body item)) shared outcome
      second) :
    Yields (items.mapM body) shared.layers outcome second.layers := by
  induction items generalizing shared outcome with
  | nil =>
      rcases (Yields.pure [] shared).unique ran with ⟨rfl, rfl⟩
      exact Yields.pure [] _
  | cons item rest inductionHypothesis =>
      rw [List.mapM_cons] at ran ⊢
      rcases ran.bind_inv with
        ⟨value, middle, first, others⟩ | ⟨error, first, rfl⟩
      · have head := (onLayers_iff.mp first).1
        rcases others.bind_inv with
          ⟨values, last, loop, ends⟩ | ⟨error, loop, rfl⟩
        · rcases (Yields.pure (value :: values) last).unique ends with
            ⟨rfl, rfl⟩
          exact head.bind ((inductionHypothesis loop).bind (Yields.pure _ _))
        · exact head.bind (inductionHypothesis loop).bindError
      · exact (onLayers_iff.mp first).1.bindError

/-- Layers with the same content show the same. -/
theorem overlay_alike
    {first : σ}
    (same : List.Forall₂ (fun layer arg => ∀ key,
      Alike objects cx first later (content first layer key)
        (content later arg key)) layers args)
    (key : Symbol) :
    Alike objects cx first later
      (Layers.overlay (layers.map (content first)) key)
      (Layers.overlay (args.map (content later)) key) := by
  induction same with
  | nil => exact .none
  | @cons layer arg layers args head _ inductionHypothesis =>
      have alike := head key
      simp only [List.map_cons, Layers.overlay_cons]
      generalize content first layer key = value at alike ⊢
      generalize content later arg key = found at alike ⊢
      cases alike with
      | none => exact inductionHypothesis
      | some expressed => exact .some expressed

theorem Alike.isSome
    {first : σ} {value found : Option Value}
    (alike : Alike objects cx first later value found) :
    value.isSome = found.isSome := by
  cases alike <;> rfl

theorem yields_ok_iff
    {α τ : Type} {call : EStateM Error τ α} {state after : τ}
    {value found : α}
    (yields : Yields call state (.ok value) after) :
    Yields call state (.ok found) after ↔ found = value := by
  constructor
  · intro other
    cases (other.unique yields).1
    rfl
  · intro same
    rw [same]
    exact yields

/-- Tables whose visible maps are alike give the same results. -/
theorem sameReads_of_alike
    (maps : Maps objects table.layers content)
    (others : Maps objects other.layers content)
    (alike : ∀ key, Alike objects cx shared.layers second.layers
      (table.visible content shared key) (other.visible content second key)) :
    SameReads cx table other shared second := by
  rcases keys_yields maps cx shared with ⟨keys, lists, distinct, present⟩
  rcases keys_yields others cx second with
    ⟨otherKeys, otherLists, otherDistinct, otherPresent⟩
  rcases entries_yields maps cx shared with ⟨rows, listsRows, _, rowsOf⟩
  rcases entries_yields others cx second with
    ⟨otherRows, otherListsRows, _, otherRowsOf⟩
  have same : keys.Perm otherKeys := by
    rw [List.perm_ext_iff_of_nodup distinct otherDistinct]
    intro key
    rw [present, otherPresent, (alike key).isSome]
  refine ⟨fun key shown => ?_, fun key => ?_, ?_, ?_, fun size => ?_⟩
  · rw [yields_ok_iff (has_yields maps key),
      yields_ok_iff (has_yields others key), (alike key).isSome]
  · exact ⟨_, _, get_yields maps key, get_yields others key, alike key⟩
  · exact ⟨keys, otherKeys, lists, otherLists, same⟩
  · refine ⟨rows, otherRows, listsRows, otherListsRows, fun key value member => ?_,
      fun key found member => ?_⟩
    · have agrees := alike key
      rw [(rowsOf key value).mp member] at agrees
      cases stored : other.visible content second key with
      | none =>
          rw [stored] at agrees
          cases agrees
      | some found =>
          rw [stored] at agrees
          exact ⟨found, (otherRowsOf key found).mpr stored, agrees⟩
    · have agrees := alike key
      rw [(otherRowsOf key found).mp member] at agrees
      cases stored : table.visible content shared key with
      | none =>
          rw [stored] at agrees
          cases agrees
      | some value =>
          rw [stored] at agrees
          exact ⟨value, (rowsOf key value).mpr stored, agrees⟩
  · have length : Yields (table.len cx) shared (.ok keys.length) shared :=
      lists.bind (Yields.pure _ _)
    have otherLength : Yields (other.len cx) second (.ok otherKeys.length)
        second := otherLists.bind (Yields.pure _ _)
    rw [yields_ok_iff length, yields_ok_iff otherLength, same.length_eq]

/-- A new table has the layers that it was given. -/
theorem new_layers
    (made : OverrideTable.new objects args = .ok other) :
    other.layers = args := by
  cases args with
  | nil => cases made
  | cons front rest =>
      rw [OverrideTable.new] at made
      split_ifs at made with tables
      cases made
      rfl

/-- A constructed table has the layers that were read and no masks. -/
theorem construct_ok
    (constructs : constructOverrideTable objects args later =
      .ok (other, second)) :
    other.layers = args ∧ second = { masked := [], layers := later } := by
  cases made : OverrideTable.new objects args with
  | error error =>
      rw [constructOverrideTable, made] at constructs
      cases constructs
  | ok table =>
      rw [constructOverrideTable, made] at constructs
      cases constructs
      exact ⟨new_layers made, rfl⟩

/-- An encoding holds the expressions of the layers. -/
theorem objectEncoding_args
    {encoding : OverrideTable.ObjectEncoding Expr}
    (encodes : Yields (table.objectEncoding cx) shared (.ok encoding) shared) :
    Yields (table.layers.mapM (objects.asExpr cx)) shared.layers
      (.ok encoding.args) shared.layers := by
  rcases encodes.bind_ok with ⟨exprs, middle, loop, ends⟩
  rcases (Yields.pure _ middle).unique ends with ⟨same, rfl⟩
  cases same
  exact onLayers_mapM loop

/-- No layer has a key when the layers show nothing under it. -/
theorem overlay_eq_none_iff
    {first : σ} {key : Symbol} :
    Layers.overlay (layers.map (content first)) key = none ↔
      ∀ layer ∈ layers, content first layer key = none := by
  simp [Layers.overlay, List.findSome?_eq_none_iff]

/--
What is read back from an encoding gives the same results just when no layer
holds a key that is masked.
-/
theorem roundTrip_iff
    {read : Expr → EStateM Error σ Value}
    {encoding : OverrideTable.ObjectEncoding Expr}
    (maps : Maps objects table.layers content)
    (readsBack : ReadsBack objects cx content read table.layers shared.layers)
    (encodes : Yields (table.objectEncoding cx) shared (.ok encoding) shared)
    (reads : Yields (encoding.args.mapM read) shared.layers (.ok args) later)
    (constructs : constructOverrideTable objects args later =
      .ok (other, second)) :
    SameReads cx table other shared second ↔
      ∀ key ∈ shared.masked, ∀ layer ∈ table.layers,
        content shared.layers layer key = none := by
  rcases construct_ok constructs with ⟨same, rfl⟩
  have back := readsBack _ _ _ (objectEncoding_args encodes) reads
  have others : Maps objects other.layers content := same ▸ back.maps
  have shown : ∀ key, Alike objects cx shared.layers later
      (Layers.overlay (table.layers.map (content shared.layers)) key)
      (other.visible content ⟨[], later⟩ key) := by
    intro key
    rw [visible_apply, if_neg List.not_mem_nil, same]
    exact overlay_alike back.same key
  constructor
  · intro agree key masked
    have hides : Yields (table.has cx key) shared (.ok false) shared := by
      have reports := @has_yields _ _ _ _ table cx content shared maps key
      rw [visible_apply, if_pos masked] at reports
      exact reports
    have absent := (yields_ok_iff (has_yields others key)).mp
      ((agree.has key false).mp hides)
    have nothing := (shown key).isSome.trans absent.symm
    exact overlay_eq_none_iff.mp (Option.isSome_eq_false_iff.mp nothing |>
      Option.isNone_iff_eq_none.mp)
  · intro free
    refine sameReads_of_alike maps others fun key => ?_
    have visible : table.visible content shared key =
        Layers.overlay (table.layers.map (content shared.layers)) key := by
      rw [visible_apply]
      split_ifs with masked
      · exact (overlay_eq_none_iff.mpr (free key masked)).symm
      · rfl
    rw [visible]
    exact shown key

end RoundTrip

section Samples

/-- The value of an expression; entries are read as a new table. -/
def readForm : Form → EStateM Error Cells Cell
  | .cell cell => return cell
  | .entries rows => do
      let cells ← MonadState.get
      MonadState.set (cells ++ [rows])
      return .table cells.length

/-- The sample's layers and the tables that are read from them. -/
def sampleRead : Cells :=
  sampleLayers ++ sampleLayers

theorem sample_encodes :
    Yields (sampleTable.layers.mapM (Cells.objects.asExpr fullCx)) sampleLayers
      (.ok [.entries [], .entries [(.new "a", .text "back")]])
      sampleLayers := by
  rfl

theorem sample_reads :
    Yields ([Form.entries [], .entries [(.new "a", .text "back")]].mapM
      readForm) sampleLayers (.ok [.table 2, .table 3]) sampleRead := by
  rfl

/-- The expressions of the sample's layers read back. -/
theorem sample_readsBack :
    ReadsBack Cells.objects fullCx Cells.content readForm sampleTable.layers
      sampleLayers := by
  intro exprs args second encodes reads
  cases (encodes.unique sample_encodes).1
  rcases reads.unique sample_reads with ⟨same, rfl⟩
  cases same
  refine ⟨Cells.objects_maps _, .cons (fun key => .none) (.cons ?_ .nil)⟩
  intro key
  have lower : Cells.content sampleLayers (.table 1) key =
      if key = .new "a" then some (.text "back") else none :=
    Entries.find_cons _ _ [] key
  have copy : Cells.content sampleRead (.table 3) key =
      if key = .new "a" then some (.text "back") else none :=
    Entries.find_cons _ _ [] key
  rw [lower, copy]
  split_ifs
  · refine .some fun expr => ?_
    constructor <;>
      · intro expresses
        cases expresses
        rfl
  · exact .none

/-- A key that no layer holds is masked. -/
def sampleHarmless : Shared Cells where
  masked := [.new "b"]
  layers := sampleLayers

/-- The table that is constructed from the encoding. -/
def sampleOther : OverrideTable Cells.objects where
  front := .table 2
  rest := [.table 3]
  tables := by decide

/-- What is masked in no layer stays away, and what is in a layer does not. -/
theorem sample_round_trips :
    SameReads fullCx sampleTable sampleOther sampleHarmless ⟨[], sampleRead⟩ ∧
      ¬ SameReads fullCx sampleTable sampleOther sampleDeleted
        ⟨[], sampleRead⟩ := by
  have harmless : SameReads fullCx sampleTable sampleOther sampleHarmless
      ⟨[], sampleRead⟩ ↔ _ :=
    roundTrip_iff (Cells.objects_maps _) sample_readsBack rfl sample_reads rfl
  have deleted : SameReads fullCx sampleTable sampleOther sampleDeleted
      ⟨[], sampleRead⟩ ↔ _ :=
    roundTrip_iff (Cells.objects_maps _) sample_readsBack rfl sample_reads rfl
  refine ⟨harmless.mpr (by decide), fun same => ?_⟩
  have absent := deleted.mp same (.new "a") List.mem_cons_self (.table 1)
    (by decide)
  exact absurd absent (by decide)

/-- A key that was deleted comes back with what is read from the encoding. -/
theorem deleted_key_comes_back :
    ¬ ∀ (shared : Shared Cells) (hidden : Symbol → Prop),
      Reached sampleTable Cells.content shared hidden →
        ReadsBack Cells.objects fullCx Cells.content readForm
          sampleTable.layers shared.layers →
          ∀ encoding args later other second,
            Yields (sampleTable.objectEncoding fullCx) shared (.ok encoding)
              shared →
            Yields (encoding.args.mapM readForm) shared.layers (.ok args)
              later →
            constructOverrideTable Cells.objects args later =
              .ok (other, second) →
            SameReads fullCx sampleTable other shared second := by
  intro returns
  have same := returns sampleDeleted _
    (.returned fullCx (.del (.new "a")) (.made sampleLayers) rfl)
    sample_readsBack { className := .new "OverrideTable", args := _ } _ _
    sampleOther _ rfl sample_reads rfl
  have shown : Yields (sampleOther.has fullCx (.new "a")) ⟨[], sampleRead⟩
      (.ok true) ⟨[], sampleRead⟩ := rfl
  have impossible := (same.has (.new "a") true).mpr shown
  cases impossible

end Samples

end SimStorage.Override
