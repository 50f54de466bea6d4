import SimStorage.Journal.DatumOrder

namespace SimStorage.Reference

/-!
# A reference kernel

A kernel that satisfies the laws: its canonical form writes unordered parts in
key order and refuses repeated keys, and its digest is a polynomial of the
bytes.  Results about every lawful kernel are instantiated with it.
-/

open Codec Journal.DatumCodec

/-- Bytes behind their length. -/
def frame (bytes : Bytes) : Bytes :=
  be64 (UInt64.ofNat bytes.length) ++ bytes

/-- A symbol behind a mark that tells whether it has a namespace. -/
def frameSymbol (symbol : Symbol) : Bytes :=
  match symbol.space with
  | some space => 1 :: (frame (utf8 space) ++ frame (utf8 symbol.name))
  | none => 0 :: frame (utf8 symbol.name)

/-- Keyed parts, in key order; repeated keys have no form. -/
def assemble (tag : UInt8) (parts : List (Bytes × Bytes)) : Option Bytes :=
  if (parts.map Prod.fst).Nodup then
    some (tag :: ((sortByKey parts).map fun part =>
      frame part.1 ++ frame part.2).flatten)
  else
    none

/-- Named parts, in name order; repeated names have no form. -/
def assembleFields (tag : Symbol)
    (parts : List ((Option String × String) × Bytes)) : Option Bytes :=
  if (parts.map Prod.fst).Nodup then
    some (10 :: (frameSymbol tag ++
      ((sortFields parts).map fun part =>
        frameSymbol ⟨part.1.1, part.1.2⟩ ++ frame part.2).flatten))
  else
    none

mutual

/-- The canonical form of a value. -/
def form : Datum → Option Bytes
  | .nil => some [0]
  | .bool value => some [1, if value then 1 else 0]
  | .number value =>
      some (2 :: (frameSymbol value.domain ++ frame (utf8 value.canonical)))
  | .symbol value => some (3 :: frameSymbol value)
  | .string value => some (4 :: frame (utf8 value))
  | .bytes value => some (5 :: frame value)
  | .list items =>
      (forms items).bind fun parts => some (6 :: (parts.map frame).flatten)
  | .vector items =>
      (forms items).bind fun parts => some (7 :: (parts.map frame).flatten)
  | .map entries => (entryForms entries).bind (assemble 8)
  | .set items =>
      (forms items).bind fun parts =>
        assemble 9 (parts.map fun part => (part, []))
  | .node tag fields => (fieldForms fields).bind (assembleFields tag)

/-- The forms of items. -/
def forms : List Datum → Option (List Bytes)
  | [] => some []
  | item :: rest => do
      let part ← form item
      let parts ← forms rest
      return part :: parts

/-- The forms of map entries. -/
def entryForms : List (Datum × Datum) → Option (List (Bytes × Bytes))
  | [] => some []
  | (key, value) :: rest => do
      let keyForm ← form key
      let valueForm ← form value
      let parts ← entryForms rest
      return (keyForm, valueForm) :: parts

/-- The forms of node fields. -/
def fieldForms :
    List (Symbol × Datum) →
      Option (List ((Option String × String) × Bytes))
  | [] => some []
  | (name, value) :: rest => do
      let part ← form value
      let parts ← fieldForms rest
      return (symbolKey name, part) :: parts

end

/-- The digest: a polynomial of the bytes. -/
def digest (bytes : Bytes) : Digest :=
  ⟨bigEndian 32 (bytes.foldl
    (fun sum byte => (sum * 257 + byte.toNat + 1) % (2 ^ 256 - 189)) 0),
    bigEndian_length 32 _⟩

/-- The identity of a value with a canonical form. -/
def contentId (value : Datum) : Option ContentId :=
  (form value).map fun bytes => ⟨datumContentAlgorithm, digest bytes⟩

/-- The reference kernel; a symbol's name is acceptable without a slash. -/
def kernel : Kernel where
  canonicalBytes := form
  contentId := contentId
  checkedName name := name ≠ "" ∧ '/' ∉ name.toList
  symbolSize := 32
  datumSize := 56
  sha256 := digest

section Traversals

variable {σ τ : Type} {part : σ → Option τ}
variable {values : List σ} {results : List τ}

/-- The member of a traversed list at each result. -/
abbrev Each (part : σ → Option τ) : List σ → List τ → Prop :=
  List.Forall₂ fun value found => part value = some found

/-- Every member of a traversed list has a result. -/
theorem each_isSome
    (each : Each part values results) :
    ∀ value ∈ values, (part value).isSome := by
  induction each with
  | nil => nofun
  | cons head _ inductionHypothesis =>
      intro value member
      rcases List.mem_cons.mp member with rfl | inside
      · simp [head]
      · exact inductionHypothesis value inside

/-- Exchanging a member for one with the same result. -/
theorem each_replace
    {before after : List σ} {first second : σ}
    (same : part first = part second) :
    Each part (before ++ first :: after) results ↔
      Each part (before ++ second :: after) results :=
  ⟨forall₂_replace fun _ found => same ▸ found,
    forall₂_replace fun _ found => same ▸ found⟩

end Traversals

theorem forms_eq_some
    {items : List Datum} {parts : List Bytes} :
    forms items = some parts ↔ Each form items parts := by
  induction items generalizing parts with
  | nil => simp [forms, eq_comm]
  | cons item rest inductionHypothesis =>
      simp only [forms, Option.bind_eq_bind, Option.bind_eq_some_iff,
        inductionHypothesis, Option.pure_def, Option.some.injEq]
      constructor
      · intro ⟨part, head, tail, later, same⟩
        exact same ▸ .cons head later
      · intro each
        cases each with
        | cons head later => exact ⟨_, head, _, later, rfl⟩

/-- The form of one map entry. -/
def entryForm (entry : Datum × Datum) : Option (Bytes × Bytes) := do
  let key ← form entry.1
  let value ← form entry.2
  return (key, value)

/-- The form of one node field. -/
def fieldForm (field : Symbol × Datum) :
    Option ((Option String × String) × Bytes) := do
  let value ← form field.2
  return (symbolKey field.1, value)

theorem entryForms_eq_some
    {entries : List (Datum × Datum)} {parts : List (Bytes × Bytes)} :
    entryForms entries = some parts ↔ Each entryForm entries parts := by
  induction entries generalizing parts with
  | nil => simp [entryForms, eq_comm]
  | cons entry rest inductionHypothesis =>
      obtain ⟨key, value⟩ := entry
      simp only [entryForms, Option.bind_eq_bind, Option.bind_eq_some_iff,
        inductionHypothesis, Option.pure_def, Option.some.injEq]
      constructor
      · intro ⟨keyForm, keyed, valueForm, valued, tail, later, same⟩
        refine same ▸ .cons ?_ later
        simp [entryForm, keyed, valued]
      · intro each
        cases each with
        | cons head later =>
            simp only [entryForm, Option.bind_eq_bind,
              Option.bind_eq_some_iff, Option.pure_def,
              Option.some.injEq] at head
            obtain ⟨keyForm, keyed, valueForm, valued, rfl⟩ := head
            exact ⟨_, keyed, _, valued, _, later, rfl⟩

theorem fieldForms_eq_some
    {fields : List (Symbol × Datum)}
    {parts : List ((Option String × String) × Bytes)} :
    fieldForms fields = some parts ↔ Each fieldForm fields parts := by
  induction fields generalizing parts with
  | nil => simp [fieldForms, eq_comm]
  | cons field rest inductionHypothesis =>
      obtain ⟨name, value⟩ := field
      simp only [fieldForms, Option.bind_eq_bind, Option.bind_eq_some_iff,
        inductionHypothesis, Option.pure_def, Option.some.injEq]
      constructor
      · intro ⟨part, formed, tail, later, same⟩
        refine same ▸ .cons ?_ later
        simp [fieldForm, formed]
      · intro each
        cases each with
        | cons head later =>
            simp only [fieldForm, Option.bind_eq_bind,
              Option.bind_eq_some_iff, Option.pure_def,
              Option.some.injEq] at head
            obtain ⟨part, formed, rfl⟩ := head
            exact ⟨_, formed, _, later, rfl⟩

section Containers

variable {σ τ : Type} {part : σ → Option τ}
variable {traverse : List σ → Option (List τ)}
variable {close : List τ → Option Bytes}

/-- A traversal and its closing agree on exchanged members. -/
theorem close_replace
    (each : ∀ values results,
      traverse values = some results ↔ Each part values results)
    {before after : List σ} {first second : σ}
    (same : part first = part second) :
    (traverse (before ++ first :: after)).bind close =
      (traverse (before ++ second :: after)).bind close := by
  have equal : traverse (before ++ first :: after) =
      traverse (before ++ second :: after) := by
    apply Option.ext
    intro results
    rw [each, each, each_replace same]
  rw [equal]

/-- A traversal whose closing ignores the order agrees on permutations. -/
theorem close_permute
    (each : ∀ values results,
      traverse values = some results ↔ Each part values results)
    (unordered : ∀ {first second : List τ}, first.Perm second →
      close first = close second)
    {first second : List σ}
    (same : first.Perm second) :
    (traverse first).bind close = (traverse second).bind close := by
  have forward : ∀ {first second : List σ}, first.Perm second →
      ∀ results, traverse first = some results →
      ∃ moved, traverse second = some moved ∧ results.Perm moved := by
    intro first second same results found
    obtain ⟨moved, paired, permuted⟩ :=
      List.perm_comp_forall₂ same.symm ((each _ _).mp found)
    exact ⟨moved, (each _ _).mpr paired, permuted.symm⟩
  cases formed : traverse first with
  | some results =>
      obtain ⟨moved, found, permuted⟩ := forward same results formed
      rw [found]
      exact unordered permuted
  | none =>
      cases other : traverse second with
      | none => rfl
      | some results =>
          obtain ⟨moved, found, _⟩ := forward same.symm results other
          rw [formed] at found
          cases found

end Containers

theorem assemble_permute
    (tag : UInt8) {first second : List (Bytes × Bytes)}
    (same : first.Perm second) :
    assemble tag first = assemble tag second := by
  have distinct := (same.map Prod.fst).nodup_iff
  by_cases nodup : (first.map Prod.fst).Nodup
  · simp only [assemble, nodup, distinct.mp nodup, if_true,
      sortByKey_eq_of_perm same nodup]
  · have other := mt distinct.mpr nodup
    simp only [assemble, nodup, other, if_false]

theorem assembleFields_permute
    (tag : Symbol) {first second : List ((Option String × String) × Bytes)}
    (same : first.Perm second) :
    assembleFields tag first = assembleFields tag second := by
  have distinct := (same.map Prod.fst).nodup_iff
  by_cases nodup : (first.map Prod.fst).Nodup
  · simp only [assembleFields, nodup, distinct.mp nodup, if_true,
      sortFields_eq_of_perm same nodup]
  · have other := mt distinct.mpr nodup
    simp only [assembleFields, nodup, other, if_false]

/-- The canonical form does not depend on the order of unordered parts. -/
theorem form_rearranged
    {first second : Datum}
    (same : Rearranged first second) :
    form first = form second := by
  induction same with
  | refl value => rfl
  | symm _ inductionHypothesis => exact inductionHypothesis.symm
  | trans _ _ leading trailing => exact leading.trans trailing
  | listItem before after _ inductionHypothesis =>
      simp only [form]
      exact close_replace (fun _ _ => forms_eq_some) inductionHypothesis
  | vectorItem before after _ inductionHypothesis =>
      simp only [form]
      exact close_replace (fun _ _ => forms_eq_some) inductionHypothesis
  | setItem before after _ inductionHypothesis =>
      simp only [form]
      exact close_replace (fun _ _ => forms_eq_some) inductionHypothesis
  | mapKey value before after _ inductionHypothesis =>
      simp only [form]
      apply close_replace fun _ _ => entryForms_eq_some
      simp only [entryForm, inductionHypothesis]
  | mapValue key before after _ inductionHypothesis =>
      simp only [form]
      apply close_replace fun _ _ => entryForms_eq_some
      simp only [entryForm, inductionHypothesis]
  | nodeField tag name before after _ inductionHypothesis =>
      simp only [form]
      apply close_replace fun _ _ => fieldForms_eq_some
      simp only [fieldForm, inductionHypothesis]
  | setOrder permuted =>
      simp only [form]
      apply close_permute (fun _ _ => forms_eq_some) _ permuted
      intro _ _ moved
      exact assemble_permute 9 (moved.map _)
  | mapOrder permuted =>
      simp only [form]
      exact close_permute (fun _ _ => entryForms_eq_some)
        (assemble_permute 8) permuted
  | nodeOrder tag permuted =>
      simp only [form]
      exact close_permute (fun _ _ => fieldForms_eq_some)
        (assembleFields_permute tag) permuted

/-- A closed container has distinct keys. -/
theorem assemble_nodup
    {tag : UInt8} {parts : List (Bytes × Bytes)}
    (closed : (assemble tag parts).isSome) :
    (parts.map Prod.fst).Nodup := by
  unfold assemble at closed
  split at closed
  · next distinct => exact distinct
  · cases closed

theorem assembleFields_nodup
    {tag : Symbol} {parts : List ((Option String × String) × Bytes)}
    (closed : (assembleFields tag parts).isSome) :
    (parts.map Prod.fst).Nodup := by
  unfold assembleFields at closed
  split at closed
  · next distinct => exact distinct
  · cases closed

/-- A bind with a value has a value before it. -/
private theorem bind_isSome
    {σ τ : Type} {first : Option σ} {next : σ → Option τ}
    (some' : (first.bind next).isSome) :
    ∃ value, first = some value ∧ (next value).isSome := by
  cases first with
  | none => cases some'
  | some value => exact ⟨value, rfl, some'⟩

/-- Results with a common label are labelled like the members. -/
private theorem each_label
    {σ τ κ : Type} {part : σ → Option τ}
    {member : σ → κ} {result : τ → κ}
    (labelled : ∀ value found, part value = some found →
      member value = result found)
    {values : List σ} {results : List τ}
    (each : Each part values results) :
    values.map member = results.map result := by
  induction each with
  | nil => rfl
  | cons head _ inductionHypothesis =>
      simp [labelled _ _ head, inductionHypothesis]

/-- The reference kernel satisfies the laws. -/
theorem kernel_lawful : kernel.Lawful where
  rearranged := form_rearranged
  listItems {items} canonical item member := by
    obtain ⟨parts, formed, _⟩ := bind_isSome canonical
    exact each_isSome (forms_eq_some.mp formed) item member
  vectorItems {items} canonical item member := by
    obtain ⟨parts, formed, _⟩ := bind_isSome canonical
    exact each_isSome (forms_eq_some.mp formed) item member
  mapEntries {entries} canonical := by
    obtain ⟨parts, formed, closed⟩ := bind_isSome canonical
    have each := entryForms_eq_some.mp formed
    have keyed : ∀ entry found, entryForm entry = some found →
        form entry.1 = some found.1 ∧ form entry.2 = some found.2 := by
      intro entry found made
      simp only [entryForm, Option.bind_eq_bind, Option.bind_eq_some_iff,
        Option.pure_def, Option.some.injEq] at made
      obtain ⟨key, keyForm, value, valueForm, rfl⟩ := made
      exact ⟨keyForm, valueForm⟩
    constructor
    · intro entry member
      obtain ⟨found, made⟩ :=
        Option.isSome_iff_exists.mp (each_isSome each entry member)
      obtain ⟨key, value⟩ := keyed entry found made
      exact ⟨by simp [Kernel.Canonical, Reference.kernel, key],
        by simp [Kernel.Canonical, Reference.kernel, value]⟩
    · have labels := each_label
        (fun entry found made => (keyed entry found made).1) each
      change (entries.map fun entry => form entry.1).Nodup
      have shape : (parts.map fun found => some found.1) =
          (parts.map Prod.fst).map some := by simp
      rw [labels, shape]
      exact (assemble_nodup closed).map (Option.some_injective _)
  setItems {items} canonical := by
    obtain ⟨parts, formed, closed⟩ := bind_isSome canonical
    have each := forms_eq_some.mp formed
    constructor
    · exact each_isSome each
    · have labels := each_label (fun _ _ made => made) each
      change (items.map form).Nodup
      have distinct := assemble_nodup closed
      rw [List.map_map] at distinct
      rw [labels]
      have same : parts.map (Prod.fst ∘ fun part => (part, ([] : Bytes))) =
          parts := List.map_id parts
      rw [same] at distinct
      exact distinct.map (Option.some_injective _)
  nodeFields {tag fields} canonical := by
    obtain ⟨parts, formed, closed⟩ := bind_isSome canonical
    have each := fieldForms_eq_some.mp formed
    have named : ∀ field found, fieldForm field = some found →
        form field.2 = some found.2 ∧ symbolKey field.1 = found.1 := by
      intro field found made
      simp only [fieldForm, Option.bind_eq_bind, Option.bind_eq_some_iff,
        Option.pure_def, Option.some.injEq] at made
      obtain ⟨value, valueForm, rfl⟩ := made
      exact ⟨valueForm, rfl⟩
    constructor
    · intro field member
      obtain ⟨found, made⟩ :=
        Option.isSome_iff_exists.mp (each_isSome each field member)
      simp [Kernel.Canonical, Reference.kernel, (named field found made).1]
    · have labels := each_label
        (fun field found made => (named field found made).2) each
      have distinct := assembleFields_nodup closed
      have shape : (fields.map fun field => symbolKey field.1) =
          (fields.map Prod.fst).map symbolKey := by simp
      rw [← labels, shape] at distinct
      exact distinct.of_map
  contentId_isSome value := by
    simp [Reference.kernel, Reference.contentId, Kernel.Canonical]
  contentId_congr {first second} same := by
    change (form first).map _ = (form second).map _
    exact congrArg _ same
  contentId_algorithm {value id} found := by
    obtain ⟨bytes, _, rfl⟩ := Option.map_eq_some_iff.mp found
    rfl

end SimStorage.Reference
