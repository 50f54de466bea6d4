import SimStorage.Journal.DatumRoundTrip
import Mathlib.Data.List.Forall2
import Mathlib.Data.List.Perm.Basic

namespace SimStorage.Journal.DatumCodec

/-!
# Bytes of rearranged datums

Two canonical datums that differ only in the order of node fields, map entries
and set items have the same physical bytes, so the storage identity of a datum
is a function of its meaning wherever content identities are collision-free.
-/

open Codec

variable (kernel : Kernel)

/-- The keyed bytes that the codec writes for one item. -/
def ItemPart (value : Datum) (part : Bytes × Bytes) : Prop :=
  part.1 = itemKey kernel value ∧ putDatum kernel value = .ok part.2

/-- The keyed bytes that the codec writes for one map entry. -/
def EntryPart (entry : Datum × Datum) (part : Bytes × Bytes) : Prop :=
  part.1 = itemKey kernel entry.1 ∧
    ∃ key value,
      putDatum kernel entry.1 = .ok key ∧
        putDatum kernel entry.2 = .ok value ∧
        part.2 = key ++ value

/-- The keyed bytes that the codec writes for one node field. -/
def FieldPart
    (field : Symbol × Datum)
    (part : (Option String × String) × Bytes) : Prop :=
  part.1 = symbolKey field.1 ∧
    ∃ name value,
      putSymbol field.1 = .ok name ∧
        putDatum kernel field.2 = .ok value ∧
        part.2 = name ++ value

/-- Writing items writes each of them. -/
theorem putItems_eq_ok
    {values : List Datum} {encoded : List (Bytes × Bytes)} :
    putItems kernel values = .ok encoded ↔
      List.Forall₂ (ItemPart kernel) values encoded := by
  induction values generalizing encoded with
  | nil =>
      constructor
      · rintro ⟨⟩
        exact .nil
      · rintro ⟨⟩
        rfl
  | cons value rest inductionHypothesis =>
      constructor
      · intro put
        obtain ⟨bytes, putValue, remaining⟩ := bind_eq_ok.mp put
        obtain ⟨tail, putRest, found⟩ := bind_eq_ok.mp remaining
        cases found
        exact .cons ⟨rfl, putValue⟩ (inductionHypothesis.mp putRest)
      · rintro (_ | @⟨_, ⟨key, bytes⟩, _, tail, ⟨rfl, putValue⟩, putRest⟩)
        refine bind_eq_ok.mpr ⟨bytes, putValue, ?_⟩
        exact bind_eq_ok.mpr ⟨tail, inductionHypothesis.mpr putRest, rfl⟩

/-- Writing map entries writes each of them. -/
theorem putEntries_eq_ok
    {entries : List (Datum × Datum)} {encoded : List (Bytes × Bytes)} :
    putEntries kernel entries = .ok encoded ↔
      List.Forall₂ (EntryPart kernel) entries encoded := by
  induction entries generalizing encoded with
  | nil =>
      constructor
      · rintro ⟨⟩
        exact .nil
      · rintro ⟨⟩
        rfl
  | cons entry rest inductionHypothesis =>
      constructor
      · intro put
        obtain ⟨key, putKey, remaining⟩ := bind_eq_ok.mp put
        obtain ⟨value, putValue, remaining⟩ := bind_eq_ok.mp remaining
        obtain ⟨tail, putRest, found⟩ := bind_eq_ok.mp remaining
        cases found
        exact .cons ⟨rfl, key, value, putKey, putValue, rfl⟩
          (inductionHypothesis.mp putRest)
      · rintro (_ | @⟨_, ⟨key, bytes⟩, _, tail,
          ⟨rfl, keyBytes, valueBytes, putKey, putValue, rfl⟩, putRest⟩)
        refine bind_eq_ok.mpr ⟨keyBytes, putKey, ?_⟩
        refine bind_eq_ok.mpr ⟨valueBytes, putValue, ?_⟩
        exact bind_eq_ok.mpr ⟨tail, inductionHypothesis.mpr putRest, rfl⟩

/-- Writing node fields writes each of them. -/
theorem putFields_eq_ok
    {fields : List (Symbol × Datum)}
    {encoded : List ((Option String × String) × Bytes)} :
    putFields kernel fields = .ok encoded ↔
      List.Forall₂ (FieldPart kernel) fields encoded := by
  induction fields generalizing encoded with
  | nil =>
      constructor
      · rintro ⟨⟩
        exact .nil
      · rintro ⟨⟩
        rfl
  | cons field rest inductionHypothesis =>
      constructor
      · intro put
        obtain ⟨name, putName, remaining⟩ := bind_eq_ok.mp put
        obtain ⟨value, putValue, remaining⟩ := bind_eq_ok.mp remaining
        obtain ⟨tail, putRest, found⟩ := bind_eq_ok.mp remaining
        cases found
        exact .cons ⟨rfl, name, value, putName, putValue, rfl⟩
          (inductionHypothesis.mp putRest)
      · rintro (_ | @⟨_, ⟨key, bytes⟩, _, tail,
          ⟨rfl, nameBytes, valueBytes, putName, putValue, rfl⟩, putRest⟩)
        refine bind_eq_ok.mpr ⟨nameBytes, putName, ?_⟩
        refine bind_eq_ok.mpr ⟨valueBytes, putValue, ?_⟩
        exact bind_eq_ok.mpr ⟨tail, inductionHypothesis.mpr putRest, rfl⟩

section Parts

variable {τ υ : Type} {related : τ → υ → Prop}

/-- Exchanging one member of the left list keeps a pairing. -/
theorem forall₂_replace
    {before after : List τ} {first second : τ} {parts : List υ}
    (replace : ∀ part, related first part → related second part)
    (paired : List.Forall₂ related (before ++ first :: after) parts) :
    List.Forall₂ related (before ++ second :: after) parts := by
  induction before generalizing parts with
  | nil =>
      cases paired with
      | cons head rest => exact .cons (replace _ head) rest
  | cons member before inductionHypothesis =>
      cases paired with
      | cons head rest => exact .cons head (inductionHypothesis rest)

/-- A pairing follows a permutation of its left list. -/
private theorem forall₂_perm
    {first second : List τ} {parts : List υ}
    (same : first.Perm second)
    (paired : List.Forall₂ related first parts) :
    ∃ moved, List.Forall₂ related second moved ∧ moved.Perm parts :=
  List.perm_comp_forall₂ same.symm paired

/-- Keys of paired parts are the keys of the left list. -/
private theorem forall₂_keys
    {κ : Type} {key : τ → κ} {first : List τ} {parts : List (κ × Bytes)}
    {related : τ → κ × Bytes → Prop}
    (keys : ∀ value part, related value part → part.1 = key value)
    (paired : List.Forall₂ related first parts) :
    parts.map Prod.fst = first.map key := by
  induction paired with
  | nil => rfl
  | cons head _ inductionHypothesis =>
      simp [keys _ _ head, inductionHypothesis]

end Parts

/-- Two values that the codec writes alike. -/
def SameBytes (first second : Datum) : Prop :=
  ∀ bytes, putDatum kernel first = .ok bytes ↔
    putDatum kernel second = .ok bytes

variable {kernel}

/-- Order keys of canonical values with distinct canonical forms differ. -/
theorem itemKeys_nodup
    {τ : Type} {key : τ → Datum} {parts : List τ}
    (canonical : ∀ part ∈ parts, kernel.Canonical (key part))
    (distinct : (parts.map fun part => kernel.canonicalBytes (key part)).Nodup) :
    (parts.map fun part => itemKey kernel (key part)).Nodup := by
  have shape : (parts.map fun part => kernel.canonicalBytes (key part)) =
      (parts.map fun part => itemKey kernel (key part)).map some := by
    rw [List.map_map]
    refine List.map_congr_left fun part member => ?_
    obtain ⟨bytes, present⟩ :=
      Option.isSome_iff_exists.mp (canonical part member)
    simp [itemKey, present]
  rw [shape] at distinct
  exact distinct.of_map

/-- The order keys of fields with distinct names differ. -/
theorem symbolKeys_nodup
    {fields : List (Symbol × Datum)}
    (distinct : (fields.map Prod.fst).Nodup) :
    (fields.map fun field => symbolKey field.1).Nodup := by
  have shape : fields.map (fun field => symbolKey field.1) =
      (fields.map Prod.fst).map symbolKey := by
    simp
  rw [shape]
  refine distinct.map ?_
  rintro ⟨firstSpace, firstName⟩ ⟨secondSpace, secondName⟩ same
  cases same
  rfl

theorem itemKey_rearranged
    (lawful : kernel.Lawful)
    {first second : Datum}
    (same : Rearranged first second) :
    itemKey kernel first = itemKey kernel second := by
  unfold itemKey
  rw [lawful.rearranged same]

section Containers

variable {κ τ : Type}

/--
A container is written by writing its parts and assembling their keyed bytes,
given how many there are.
-/
def Assembled
    (kernel : Kernel)
    (wrap : List τ → Datum)
    (related : τ → κ × Bytes → Prop)
    (assemble : Nat → List (κ × Bytes) → Result Bytes) : Prop :=
  ∀ parts bytes, putDatum kernel (wrap parts) = .ok bytes ↔
    ∃ encoded, List.Forall₂ related parts encoded ∧
      assemble parts.length encoded = .ok bytes

variable {wrap : List τ → Datum} {related : τ → κ × Bytes → Prop}
variable {assemble : Nat → List (κ × Bytes) → Result Bytes}

/-- Exchanging a part for one that is written alike keeps the bytes. -/
private theorem Assembled.replace
    (assembled : Assembled kernel wrap related assemble)
    {before after : List τ} {first second : τ}
    (alike : ∀ part, related first part ↔ related second part) :
    SameBytes kernel (wrap (before ++ first :: after))
      (wrap (before ++ second :: after)) := by
  intro bytes
  rw [assembled, assembled]
  have sizes : (before ++ first :: after).length =
      (before ++ second :: after).length := by simp
  rw [sizes]
  constructor
  · rintro ⟨encoded, paired, put⟩
    exact ⟨encoded, forall₂_replace (fun part => (alike part).mp) paired, put⟩
  · rintro ⟨encoded, paired, put⟩
    exact ⟨encoded, forall₂_replace (fun part => (alike part).mpr) paired, put⟩

/-- Permuting parts keeps the bytes when assembling sorts by distinct keys. -/
private theorem Assembled.permute
    {key : τ → κ}
    (assembled : Assembled kernel wrap related assemble)
    (keys : ∀ value part, related value part → part.1 = key value)
    (sorts : ∀ count {first second : List (κ × Bytes)},
      first.Perm second → (first.map Prod.fst).Nodup →
      assemble count first = assemble count second)
    {first second : List τ}
    (same : first.Perm second)
    (distinct : (first.map key).Nodup) :
    SameBytes kernel (wrap first) (wrap second) := by
  have forward : ∀ {first second : List τ}, first.Perm second →
      (first.map key).Nodup → ∀ bytes,
      putDatum kernel (wrap first) = .ok bytes →
      putDatum kernel (wrap second) = .ok bytes := by
    intro first second same distinct bytes put
    obtain ⟨encoded, paired, whole⟩ := (assembled _ _).mp put
    obtain ⟨moved, pairedMoved, permuted⟩ := forall₂_perm same paired
    have nodup : (moved.map Prod.fst).Nodup := by
      rw [forall₂_keys keys pairedMoved]
      exact (same.map key).nodup_iff.mp distinct
    refine (assembled _ _).mpr ⟨moved, pairedMoved, ?_⟩
    rw [sorts _ permuted nodup, ← same.length_eq]
    exact whole
  intro bytes
  exact ⟨forward same distinct bytes,
    forward same.symm ((same.map key).nodup_iff.mp distinct) bytes⟩

end Containers

section Shapes

/-- How a list, a vector or a set is put together. -/
private def assembleItems
    (tag : UInt8)
    (order : List (Bytes × Bytes) → List (Bytes × Bytes))
    (count : Nat)
    (encoded : List (Bytes × Bytes)) : Result Bytes := do
  let length ← putLen count
  return tag :: (length ++ ((order encoded).map Prod.snd).flatten)

/-- How a map is put together. -/
private def assembleEntries
    (kernel : Kernel)
    (count : Nat)
    (encoded : List (Bytes × Bytes)) : Result Bytes := do
  entryCapacity kernel count
  let length ← putLen count
  return 9 :: (length ++ ((sortByKey encoded).map Prod.snd).flatten)

/-- How a node is put together. -/
private def assembleFields
    (kernel : Kernel)
    (tag : Symbol)
    (count : Nat)
    (encoded : List ((Option String × String) × Bytes)) : Result Bytes := do
  let symbol ← putSymbol tag
  fieldCapacity kernel count
  let length ← putLen count
  return 11 :: (symbol ++
    (length ++ ((sortFields encoded).map Prod.snd).flatten))

variable (kernel)

private theorem assembled_items
    {wrap : List Datum → Datum}
    {tag : UInt8}
    {order : List (Bytes × Bytes) → List (Bytes × Bytes)}
    (written : ∀ values, putDatum kernel (wrap values) = do
      let count ← putLen values.length
      let encoded ← putItems kernel values
      return tag :: (count ++ ((order encoded).map Prod.snd).flatten)) :
    Assembled kernel wrap (ItemPart kernel) (assembleItems tag order) := by
  intro parts bytes
  rw [written]
  simp only [← putItems_eq_ok]
  constructor
  · intro put
    obtain ⟨length, putLength, rest⟩ := bind_eq_ok.mp put
    obtain ⟨encoded, putParts, found⟩ := bind_eq_ok.mp rest
    exact ⟨encoded, putParts, bind_eq_ok.mpr ⟨length, putLength, found⟩⟩
  · rintro ⟨encoded, putParts, put⟩
    obtain ⟨length, putLength, found⟩ := bind_eq_ok.mp put
    refine bind_eq_ok.mpr ⟨length, putLength, ?_⟩
    exact bind_eq_ok.mpr ⟨encoded, putParts, found⟩

private theorem assembled_list :
    Assembled kernel .list (ItemPart kernel) (assembleItems 7 id) :=
  assembled_items kernel fun _ => rfl

private theorem assembled_vector :
    Assembled kernel .vector (ItemPart kernel) (assembleItems 8 id) :=
  assembled_items kernel fun _ => rfl

private theorem assembled_set :
    Assembled kernel .set (ItemPart kernel) (assembleItems 10 sortByKey) :=
  assembled_items kernel fun _ => rfl

private theorem assembled_map :
    Assembled kernel .map (EntryPart kernel) (assembleEntries kernel) := by
  intro parts bytes
  simp only [← putEntries_eq_ok]
  constructor
  · intro put
    obtain ⟨passes, fits, rest⟩ := bind_eq_ok.mp put
    obtain ⟨length, putLength, rest⟩ := bind_eq_ok.mp rest
    obtain ⟨encoded, putParts, found⟩ := bind_eq_ok.mp rest
    refine ⟨encoded, putParts, bind_eq_ok.mpr ⟨passes, fits, ?_⟩⟩
    exact bind_eq_ok.mpr ⟨length, putLength, found⟩
  · rintro ⟨encoded, putParts, put⟩
    obtain ⟨passes, fits, rest⟩ := bind_eq_ok.mp put
    obtain ⟨length, putLength, found⟩ := bind_eq_ok.mp rest
    refine bind_eq_ok.mpr ⟨passes, fits, ?_⟩
    refine bind_eq_ok.mpr ⟨length, putLength, ?_⟩
    exact bind_eq_ok.mpr ⟨encoded, putParts, found⟩

private theorem assembled_node (tag : Symbol) :
    Assembled kernel (.node tag) (FieldPart kernel)
      (assembleFields kernel tag) := by
  intro parts bytes
  simp only [← putFields_eq_ok]
  constructor
  · intro put
    obtain ⟨symbol, putTag, rest⟩ := bind_eq_ok.mp put
    obtain ⟨passes, fits, rest⟩ := bind_eq_ok.mp rest
    obtain ⟨length, putLength, rest⟩ := bind_eq_ok.mp rest
    obtain ⟨encoded, putParts, found⟩ := bind_eq_ok.mp rest
    refine ⟨encoded, putParts, bind_eq_ok.mpr ⟨symbol, putTag, ?_⟩⟩
    refine bind_eq_ok.mpr ⟨passes, fits, ?_⟩
    exact bind_eq_ok.mpr ⟨length, putLength, found⟩
  · rintro ⟨encoded, putParts, put⟩
    obtain ⟨symbol, putTag, rest⟩ := bind_eq_ok.mp put
    obtain ⟨passes, fits, rest⟩ := bind_eq_ok.mp rest
    obtain ⟨length, putLength, found⟩ := bind_eq_ok.mp rest
    refine bind_eq_ok.mpr ⟨symbol, putTag, ?_⟩
    refine bind_eq_ok.mpr ⟨passes, fits, ?_⟩
    refine bind_eq_ok.mpr ⟨length, putLength, ?_⟩
    exact bind_eq_ok.mpr ⟨encoded, putParts, found⟩

end Shapes

section Replacement

variable {first second : Datum}

private theorem itemPart_congr
    (lawful : kernel.Lawful)
    (same : Rearranged first second)
    (alike : SameBytes kernel first second)
    (part : Bytes × Bytes) :
    ItemPart kernel first part ↔ ItemPart kernel second part := by
  unfold ItemPart
  rw [itemKey_rearranged lawful same, alike]

private theorem entryPart_congr_key
    (lawful : kernel.Lawful)
    (same : Rearranged first second)
    (alike : SameBytes kernel first second)
    (value : Datum)
    (part : Bytes × Bytes) :
    EntryPart kernel (first, value) part ↔
      EntryPart kernel (second, value) part := by
  unfold EntryPart
  simp only [itemKey_rearranged lawful same, alike _]

private theorem entryPart_congr_value
    (alike : SameBytes kernel first second)
    (key : Datum)
    (part : Bytes × Bytes) :
    EntryPart kernel (key, first) part ↔
      EntryPart kernel (key, second) part := by
  unfold EntryPart
  simp only [alike _]

private theorem fieldPart_congr
    (alike : SameBytes kernel first second)
    (name : Symbol)
    (part : (Option String × String) × Bytes) :
    FieldPart kernel (name, first) part ↔
      FieldPart kernel (name, second) part := by
  unfold FieldPart
  simp only [alike _]

end Replacement

/-- Rearranged canonical values are written alike. -/
theorem sameBytes_of_rearranged
    (lawful : kernel.Lawful)
    {first second : Datum}
    (same : Rearranged first second)
    (canonical : kernel.Canonical first) :
    SameBytes kernel first second := by
  induction same with
  | refl value => exact fun _ => Iff.rfl
  | symm reversed inductionHypothesis =>
      have other := lawful.canonical_rearranged reversed.symm canonical
      exact fun bytes => (inductionHypothesis other bytes).symm
  | trans head _ leading trailing =>
      have middle := lawful.canonical_rearranged head canonical
      exact fun bytes =>
        (leading canonical bytes).trans (trailing middle bytes)
  | @listItem _ _ before after inner inductionHypothesis =>
      have part := lawful.listItems canonical _
        (List.mem_append_right before List.mem_cons_self)
      exact (assembled_list kernel).replace
        (itemPart_congr lawful inner (inductionHypothesis part))
  | @vectorItem _ _ before after inner inductionHypothesis =>
      have part := lawful.vectorItems canonical _
        (List.mem_append_right before List.mem_cons_self)
      exact (assembled_vector kernel).replace
        (itemPart_congr lawful inner (inductionHypothesis part))
  | @setItem _ _ before after inner inductionHypothesis =>
      have part := (lawful.setItems canonical).1 _
        (List.mem_append_right before List.mem_cons_self)
      exact (assembled_set kernel).replace
        (itemPart_congr lawful inner (inductionHypothesis part))
  | @mapKey _ _ value before after inner inductionHypothesis =>
      have part := (lawful.mapEntries canonical).1 _
        (List.mem_append_right before List.mem_cons_self)
      exact (assembled_map kernel).replace
        (entryPart_congr_key lawful inner (inductionHypothesis part.1) value)
  | @mapValue _ _ key before after inner inductionHypothesis =>
      have part := (lawful.mapEntries canonical).1 _
        (List.mem_append_right before List.mem_cons_self)
      exact (assembled_map kernel).replace
        (entryPart_congr_value (inductionHypothesis part.2) key)
  | @nodeField _ _ tag name before after inner inductionHypothesis =>
      have part := (lawful.nodeFields canonical).1 _
        (List.mem_append_right before List.mem_cons_self)
      exact (assembled_node kernel tag).replace
        (fieldPart_congr (inductionHypothesis part) name)
  | setOrder permuted =>
      obtain ⟨parts, distinct⟩ := lawful.setItems canonical
      refine (assembled_set kernel).permute (fun _ _ related => related.1) ?_
        permuted (itemKeys_nodup parts distinct)
      intro count first second same nodup
      simp only [assembleItems, sortByKey_eq_of_perm same nodup]
  | @mapOrder first second permuted =>
      obtain ⟨parts, distinct⟩ := lawful.mapEntries canonical
      have canonicalKeys : ∀ entry ∈ first, kernel.Canonical entry.1 :=
        fun entry member => (parts entry member).1
      refine (assembled_map kernel).permute (fun _ _ related => related.1) ?_
        permuted (itemKeys_nodup canonicalKeys distinct)
      intro count first second same nodup
      simp only [assembleEntries, sortByKey_eq_of_perm same nodup]
  | nodeOrder tag permuted =>
      obtain ⟨parts, distinct⟩ := lawful.nodeFields canonical
      refine (assembled_node kernel tag).permute (fun _ _ related => related.1) ?_
        permuted (symbolKeys_nodup distinct)
      intro count first second same nodup
      simp only [assembleFields, sortFields_eq_of_perm same nodup]

/-- Rearranged canonical values have the same physical bytes. -/
theorem encode_rearranged
    (lawful : kernel.Lawful)
    {first second : Datum}
    (same : Rearranged first second)
    {bytes : Bytes}
    (encoded : encode kernel first = .ok bytes) :
    encode kernel second = .ok bytes := by
  unfold encode at encoded ⊢
  rw [← lawful.rearranged same]
  cases form : kernel.canonicalBytes first with
  | none =>
      rw [form] at encoded
      cases encoded
  | some found =>
      rw [form] at encoded
      have canonical : kernel.Canonical first := by
        simp [Kernel.Canonical, form]
      obtain ⟨body, put, finished⟩ := bind_eq_ok.mp encoded
      have putSecond :=
        (sameBytes_of_rearranged lawful same canonical body).mp put
      exact bind_eq_ok.mpr ⟨body, putSecond, finished⟩

end SimStorage.Journal.DatumCodec
