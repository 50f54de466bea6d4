import SimStorage.Journal.DatumCodec

namespace SimStorage.Journal.DatumCodec

/-!
# Round trip of the datum codec

Decoding an encoded datum gives the datum with every map, set and node in the
codec's order, which has the same content identity.  Two datums that differ
only in the order of unordered parts have the same bytes.
-/

open Codec

section KeyedSort

variable {κ τ υ : Type} [Ord κ]

/-- Sorting only permutes. -/
theorem sortByKey_perm
    (items : List (κ × τ)) :
    (sortByKey items).Perm items :=
  List.perm_insertionSort _ _

/-- Inserting by key respects a pairing of two lists with equal keys. -/
private theorem orderedInsert_forall₂
    {pairing : κ × τ → κ × υ → Prop}
    (keys : ∀ {left right}, pairing left right → left.1 = right.1)
    {left : κ × τ} {right : κ × υ}
    {lefts : List (κ × τ)} {rights : List (κ × υ)}
    (head : pairing left right)
    (tail : List.Forall₂ pairing lefts rights) :
    List.Forall₂ pairing
      (lefts.orderedInsert
        (fun first second => (compare first.1 second.1).isLE) left)
      (rights.orderedInsert
        (fun first second => (compare first.1 second.1).isLE) right) := by
  induction tail with
  | nil => exact .cons head .nil
  | @cons nextLeft nextRight lefts rights next rest inductionHypothesis =>
      simp only [List.orderedInsert, keys head, keys next]
      split
      · exact .cons head (.cons next rest)
      · exact .cons next inductionHypothesis

/-- Sorting by key respects a pairing of two lists with equal keys. -/
theorem sortByKey_forall₂
    {pairing : κ × τ → κ × υ → Prop}
    (keys : ∀ {left right}, pairing left right → left.1 = right.1)
    {lefts : List (κ × τ)} {rights : List (κ × υ)}
    (paired : List.Forall₂ pairing lefts rights) :
    List.Forall₂ pairing (sortByKey lefts) (sortByKey rights) := by
  induction paired with
  | nil => exact .nil
  | cons head _ inductionHypothesis =>
      exact orderedInsert_forall₂ keys head inductionHypothesis

variable [Std.TransOrd κ] [Std.LawfulEqOrd κ]

/-- Lists with distinct keys have one sorted order. -/
theorem sortByKey_eq_of_perm
    {first second : List (κ × τ)}
    (same : first.Perm second)
    (distinct : (first.map Prod.fst).Nodup) :
    sortByKey first = sortByKey second := by
  have sorted (items : List (κ × τ)) :
      (sortByKey items).Pairwise
        fun left right => (compare left.1 right.1).isLE = true := by
    have total : Std.Total
        (fun left right : κ × τ => (compare left.1 right.1).isLE = true) :=
      ⟨fun left right => by
        rw [Std.OrientedOrd.eq_swap (a := right.1) (b := left.1)]
        cases compare left.1 right.1 <;> simp⟩
    have trans : IsTrans (κ × τ)
        (fun left right => (compare left.1 right.1).isLE = true) :=
      ⟨fun _ _ _ => Std.TransCmp.isLE_trans⟩
    exact List.pairwise_insertionSort _ items
  refine List.Perm.eq_of_pairwise ?_ (sorted first) (sorted second)
    ((sortByKey_perm first).trans (same.trans (sortByKey_perm second).symm))
  intro left right leftMember rightMember below above
  have leftIn : left ∈ first := (sortByKey_perm first).mem_iff.mp leftMember
  have rightIn : right ∈ first :=
    same.mem_iff.mpr ((sortByKey_perm second).mem_iff.mp rightMember)
  have sameKey : left.1 = right.1 :=
    Std.LawfulEqOrd.eq_of_compare
      (Std.OrientedCmp.isLE_antisymm below above)
  exact List.inj_on_of_nodup_map distinct leftIn rightIn sameKey

end KeyedSort

section Fields

variable {τ υ : Type}

attribute [local instance] lexOrd

/-- Sorting fields only permutes. -/
theorem sortFields_perm
    (fields : List ((Option String × String) × τ)) :
    (sortFields fields).Perm fields :=
  sortByKey_perm fields

/-- Sorting fields respects a pairing of two lists with equal keys. -/
theorem sortFields_forall₂
    {pairing :
      (Option String × String) × τ → (Option String × String) × υ → Prop}
    (keys : ∀ {left right}, pairing left right → left.1 = right.1)
    {lefts : List ((Option String × String) × τ)}
    {rights : List ((Option String × String) × υ)}
    (paired : List.Forall₂ pairing lefts rights) :
    List.Forall₂ pairing (sortFields lefts) (sortFields rights) :=
  sortByKey_forall₂ keys paired

/-- Fields with distinct names have one sorted order. -/
theorem sortFields_eq_of_perm
    {first second : List ((Option String × String) × τ)}
    (same : first.Perm second)
    (distinct : (first.map Prod.fst).Nodup) :
    sortFields first = sortFields second :=
  sortByKey_eq_of_perm same distinct

end Fields

section Primitives

theorem putLen_decodes
    {length : Nat} {bytes : Bytes}
    (put : putLen length = .ok bytes) :
    Decodes len bytes length := by
  unfold putLen at put
  split at put
  · next small =>
      cases put
      have read : (fromBe64 (be64 (UInt64.ofNat length))).toNat = length := by
        rw [fromBe64_be64]
        exact UInt64.toNat_ofNat_of_lt small
      refine .bind_done (.take (be64_length _)) ?_
      rw [read]
      exact .pure length
  · cases put

theorem byte_decodes
    (tag : UInt8) :
    Decodes byte [tag] tag :=
  .bind_done (.take rfl) (.pure tag)

/-- A value behind a tag is read by the reader that the tag selects. -/
theorem byte_bind
    {τ : Type} {next : UInt8 → Reader τ}
    {tag : UInt8} {body : Bytes} {value : τ}
    (read : Decodes (next tag) body value) :
    Decodes (byte >>= next) (tag :: body) value :=
  .bind (byte_decodes tag) read

theorem putBytes_decodes
    {value encoded : Bytes}
    (put : putBytes value = .ok encoded) :
    Decodes bytes encoded value := by
  obtain ⟨length, putLength, found⟩ := bind_eq_ok.mp put
  cases found
  exact .bind (putLen_decodes putLength) (.take rfl)

theorem putText_decodes
    {value : String} {encoded : Bytes}
    (put : putBytes (utf8 value) = .ok encoded) :
    Decodes text encoded value := by
  refine .bind_done (putBytes_decodes put) (.lift ?_)
  simp

theorem putSymbolText_decodes
    {value : String} {encoded : Bytes}
    (put : putSymbolText value = .ok encoded) :
    Decodes text encoded value := by
  unfold putSymbolText at put
  split at put
  · next found =>
      cases put
      exact putText_decodes found
  · cases put

theorem putSymbol_decodes
    {value : Symbol} {encoded : Bytes}
    (put : putSymbol value = .ok encoded) :
    Decodes symbol encoded value := by
  rcases value with ⟨_ | space, name⟩
  · obtain ⟨trailing, putName, found⟩ := bind_eq_ok.mp put
    cases found
    refine byte_bind ?_
    exact .bind_done (putSymbolText_decodes putName) (.pure _)
  · obtain ⟨leading, putSpace, rest⟩ := bind_eq_ok.mp put
    obtain ⟨trailing, putName, found⟩ := bind_eq_ok.mp rest
    cases found
    refine byte_bind ?_
    refine .bind (putSymbolText_decodes putSpace) ?_
    exact .bind_done (putSymbolText_decodes putName) (.pure _)

end Primitives

variable (kernel : Kernel)

mutual

/-- A value with every map, set and node in the codec's order. -/
def arranged : Datum → Datum
  | .list items => .list ((arrangedItems items).map Prod.snd)
  | .vector items => .vector ((arrangedItems items).map Prod.snd)
  | .map entries => .map ((sortByKey (arrangedEntries entries)).map Prod.snd)
  | .set items => .set ((sortByKey (arrangedItems items)).map Prod.snd)
  | .node tag fields =>
      .node tag ((sortFields (arrangedFields fields)).map Prod.snd)
  | .nil => .nil
  | .bool value => .bool value
  | .number value => .number value
  | .symbol value => .symbol value
  | .string value => .string value
  | .bytes value => .bytes value

/-- Items in place, with the order key of the value they came from. -/
def arrangedItems : List Datum → List (Bytes × Datum)
  | [] => []
  | item :: rest => (itemKey kernel item, arranged item) :: arrangedItems rest

/-- Map entries in place, with their order keys. -/
def arrangedEntries :
    List (Datum × Datum) → List (Bytes × (Datum × Datum))
  | [] => []
  | (key, value) :: rest =>
      (itemKey kernel key, (arranged key, arranged value)) ::
        arrangedEntries rest

/-- Node fields in place, with their order keys. -/
def arrangedFields :
    List (Symbol × Datum) →
      List ((Option String × String) × (Symbol × Datum))
  | [] => []
  | (name, value) :: rest =>
      (symbolKey name, (name, arranged value)) :: arrangedFields rest

end

/-- Two keyed parts: equal keys, and bytes that a reader maps to the value. -/
def PartDecodes {κ τ : Type}
    (item : Reader τ) (left : κ × Bytes) (right : κ × τ) : Prop :=
  left.1 = right.1 ∧ Decodes item left.2 right.2

/-- Reading the second components of paired parts, in order. -/
theorem parts_decode
    {κ τ : Type} {item : Reader τ}
    {lefts : List (κ × Bytes)} {rights : List (κ × τ)}
    {count : Nat}
    (paired : List.Forall₂ (PartDecodes item) lefts rights)
    (size : count = rights.length) :
    Decodes (Decoder.many item count)
      (lefts.map Prod.snd).flatten (rights.map Prod.snd) := by
  have each : List.Forall₂ (fun bytes value => Decodes item bytes value)
      (lefts.map Prod.snd) (rights.map Prod.snd) := by
    rw [List.forall₂_map_left_iff, List.forall₂_map_right_iff]
    exact paired.imp fun _ _ both => both.2
  have lengths : count = (rights.map Prod.snd).length := by simp [size]
  rw [lengths]
  exact .many each

theorem arrangedItems_length
    (items : List Datum) :
    (arrangedItems kernel items).length = items.length := by
  induction items with
  | nil => rfl
  | cons item rest inductionHypothesis =>
      simp [arrangedItems, inductionHypothesis]

theorem arrangedEntries_length
    (entries : List (Datum × Datum)) :
    (arrangedEntries kernel entries).length = entries.length := by
  induction entries with
  | nil => rfl
  | cons entry rest inductionHypothesis =>
      simp [arrangedEntries, inductionHypothesis]

theorem arrangedFields_length
    (fields : List (Symbol × Datum)) :
    (arrangedFields kernel fields).length = fields.length := by
  induction fields with
  | nil => rfl
  | cons field rest inductionHypothesis =>
      simp [arrangedFields, inductionHypothesis]

/-- No part is longer than the concatenation of all parts. -/
private theorem part_length_le
    {κ : Type} {parts sorted : List (κ × Bytes)}
    (same : sorted.Perm parts)
    {part : κ × Bytes}
    (member : part ∈ parts) :
    part.2.length ≤ (sorted.map Prod.snd).flatten.length := by
  have inside : part.2 ∈ sorted.map Prod.snd :=
    List.mem_map_of_mem (same.mem_iff.mpr member)
  obtain ⟨before, after, split⟩ := List.append_of_mem inside
  rw [split]
  simp only [List.flatten_append, List.flatten_cons, List.length_append]
  omega

/-- A counted sequence of parts behind a tag-specific wrapper. -/
private theorem counted_decodes
    {κ τ : Type} {item : Reader τ}
    {wrap : List τ → Datum}
    {count : Nat} {length : Bytes}
    {lefts : List (κ × Bytes)} {rights : List (κ × τ)}
    (guard : Nat → Result Unit)
    (putLength : putLen count = .ok length)
    (passes : guard count = .ok ())
    (size : count = rights.length)
    (paired : List.Forall₂ (PartDecodes item) lefts rights) :
    Decodes
      (do
        let count ← len
        Decoder.lift (guard count)
        let found ← Decoder.many item count
        return wrap found : Reader Datum)
      (length ++ (lefts.map Prod.snd).flatten)
      (wrap (rights.map Prod.snd)) := by
  refine .bind (putLen_decodes putLength) (.lift_bind passes ?_)
  exact .bind_done (parts_decode paired size) (.pure _)

/-- A counted sequence of items behind a tag-specific wrapper. -/
private theorem items_wrapped_decode
    {κ : Type} {item : Reader Datum} {wrap : List Datum → Datum}
    {count : Nat} {length : Bytes}
    {lefts : List (κ × Bytes)} {rights : List (κ × Datum)}
    (putLength : putLen count = .ok length)
    (size : count = rights.length)
    (paired : List.Forall₂ (PartDecodes item) lefts rights) :
    Decodes
      (do
        let found ← items item
        return wrap found : Reader Datum)
      (length ++ (lefts.map Prod.snd).flatten)
      (wrap (rights.map Prod.snd)) := by
  refine .bind_done (.bind (putLen_decodes putLength) ?_) (.pure _)
  exact parts_decode paired size

private theorem sameKeys
    {κ τ : Type} {item : Reader τ}
    {left : κ × Bytes} {right : κ × τ}
    (pair : PartDecodes item left right) :
    left.1 = right.1 :=
  pair.1

/-- Every value is written with at least its tag. -/
private theorem putDatum_length_pos
    {value : Datum} {bytes : Bytes}
    (put : putDatum kernel value = .ok bytes) :
    0 < bytes.length := by
  cases value with
  | nil => cases put; simp
  | bool flag => cases flag <;> cases put <;> simp
  | number value =>
      obtain ⟨_, _, rest⟩ := bind_eq_ok.mp put
      obtain ⟨_, _, found⟩ := bind_eq_ok.mp rest
      cases found; simp
  | symbol value =>
      obtain ⟨_, _, found⟩ := bind_eq_ok.mp put
      cases found; simp
  | string value =>
      obtain ⟨_, _, found⟩ := bind_eq_ok.mp put
      cases found; simp
  | bytes value =>
      obtain ⟨_, _, found⟩ := bind_eq_ok.mp put
      cases found; simp
  | list items =>
      obtain ⟨_, _, rest⟩ := bind_eq_ok.mp put
      obtain ⟨_, _, found⟩ := bind_eq_ok.mp rest
      cases found; simp
  | vector items =>
      obtain ⟨_, _, rest⟩ := bind_eq_ok.mp put
      obtain ⟨_, _, found⟩ := bind_eq_ok.mp rest
      cases found; simp
  | map entries =>
      obtain ⟨_, _, rest⟩ := bind_eq_ok.mp put
      obtain ⟨_, _, rest⟩ := bind_eq_ok.mp rest
      obtain ⟨_, _, found⟩ := bind_eq_ok.mp rest
      cases found; simp
  | set items =>
      obtain ⟨_, _, rest⟩ := bind_eq_ok.mp put
      obtain ⟨_, _, found⟩ := bind_eq_ok.mp rest
      cases found; simp
  | node tag fields =>
      obtain ⟨_, _, rest⟩ := bind_eq_ok.mp put
      obtain ⟨_, _, rest⟩ := bind_eq_ok.mp rest
      obtain ⟨_, _, rest⟩ := bind_eq_ok.mp rest
      obtain ⟨_, _, found⟩ := bind_eq_ok.mp rest
      cases found; simp

mutual

/-- Reading the bytes of a value gives the value in the codec's order. -/
theorem putDatum_decodes :
    ∀ (value : Datum) {bytes : Bytes} {depth : Nat},
      putDatum kernel value = .ok bytes →
      bytes.length ≤ depth →
      Decodes (datum kernel depth) bytes (arranged kernel value)
  | value, bytes, 0, put, bound => by
      have nonempty := putDatum_length_pos kernel put
      omega
  | .nil, _, depth + 1, put, _ => by
      cases put
      exact byte_bind (.pure _)
  | .bool false, _, depth + 1, put, _ => by
      cases put
      exact byte_bind (.pure _)
  | .bool true, _, depth + 1, put, _ => by
      cases put
      exact byte_bind (.pure _)
  | .number value, _, depth + 1, put, _ => by
      obtain ⟨domain, putDomain, rest⟩ := bind_eq_ok.mp put
      obtain ⟨text, putText, found⟩ := bind_eq_ok.mp rest
      cases found
      refine byte_bind ?_
      refine .bind (putSymbol_decodes putDomain) ?_
      exact .bind_done (putText_decodes putText) (.pure _)
  | .symbol value, _, depth + 1, put, _ => by
      obtain ⟨symbol, putValue, found⟩ := bind_eq_ok.mp put
      cases found
      refine byte_bind ?_
      exact .bind_done (putSymbol_decodes putValue) (.pure _)
  | .string value, _, depth + 1, put, _ => by
      obtain ⟨text, putText, found⟩ := bind_eq_ok.mp put
      cases found
      refine byte_bind ?_
      exact .bind_done (putText_decodes putText) (.pure _)
  | .bytes value, _, depth + 1, put, _ => by
      obtain ⟨encoded, putValue, found⟩ := bind_eq_ok.mp put
      cases found
      refine byte_bind ?_
      exact .bind_done (putBytes_decodes putValue) (.pure _)
  | .list values, _, depth + 1, put, bound => by
      obtain ⟨count, putCount, rest⟩ := bind_eq_ok.mp put
      obtain ⟨encoded, putParts, found⟩ := bind_eq_ok.mp rest
      cases found
      have small : ∀ part ∈ encoded, part.2.length ≤ depth := by
        intro part member
        have := part_length_le (List.Perm.refl encoded) member
        simp only [List.length_cons, List.length_append] at bound
        omega
      refine byte_bind ?_
      exact items_wrapped_decode putCount
        (arrangedItems_length kernel values).symm
        (putItems_decode values putParts small)
  | .vector values, _, depth + 1, put, bound => by
      obtain ⟨count, putCount, rest⟩ := bind_eq_ok.mp put
      obtain ⟨encoded, putParts, found⟩ := bind_eq_ok.mp rest
      cases found
      have small : ∀ part ∈ encoded, part.2.length ≤ depth := by
        intro part member
        have := part_length_le (List.Perm.refl encoded) member
        simp only [List.length_cons, List.length_append] at bound
        omega
      refine byte_bind ?_
      exact items_wrapped_decode putCount
        (arrangedItems_length kernel values).symm
        (putItems_decode values putParts small)
  | .map entries, _, depth + 1, put, bound => by
      obtain ⟨⟨⟩, passes, rest⟩ := bind_eq_ok.mp put
      obtain ⟨count, putCount, rest⟩ := bind_eq_ok.mp rest
      obtain ⟨encoded, putParts, found⟩ := bind_eq_ok.mp rest
      cases found
      have small : ∀ part ∈ encoded, part.2.length ≤ depth := by
        intro part member
        have := part_length_le (sortByKey_perm encoded) member
        simp only [List.length_cons, List.length_append] at bound
        omega
      refine byte_bind ?_
      refine counted_decodes (entryCapacity kernel) putCount passes ?_
        (sortByKey_forall₂ sameKeys (putEntries_decode entries putParts small))
      rw [(sortByKey_perm _).length_eq, arrangedEntries_length]
  | .set values, _, depth + 1, put, bound => by
      obtain ⟨count, putCount, rest⟩ := bind_eq_ok.mp put
      obtain ⟨encoded, putParts, found⟩ := bind_eq_ok.mp rest
      cases found
      have small : ∀ part ∈ encoded, part.2.length ≤ depth := by
        intro part member
        have := part_length_le (sortByKey_perm encoded) member
        simp only [List.length_cons, List.length_append] at bound
        omega
      refine byte_bind ?_
      refine items_wrapped_decode putCount ?_
        (sortByKey_forall₂ sameKeys (putItems_decode values putParts small))
      rw [(sortByKey_perm _).length_eq, arrangedItems_length]
  | .node tag fields, _, depth + 1, put, bound => by
      obtain ⟨symbol, putTag, rest⟩ := bind_eq_ok.mp put
      obtain ⟨⟨⟩, passes, rest⟩ := bind_eq_ok.mp rest
      obtain ⟨count, putCount, rest⟩ := bind_eq_ok.mp rest
      obtain ⟨encoded, putParts, found⟩ := bind_eq_ok.mp rest
      cases found
      have small : ∀ part ∈ encoded, part.2.length ≤ depth := by
        intro part member
        have := part_length_le (sortFields_perm encoded) member
        simp only [List.length_cons, List.length_append] at bound
        omega
      refine byte_bind ?_
      refine .bind (putSymbol_decodes putTag) ?_
      refine counted_decodes (fieldCapacity kernel) putCount passes ?_
        (sortFields_forall₂ sameKeys
          (putFields_decode fields putParts small))
      rw [(sortFields_perm _).length_eq, arrangedFields_length]

theorem putItems_decode :
    ∀ (values : List Datum) {encoded : List (Bytes × Bytes)} {depth : Nat},
      putItems kernel values = .ok encoded →
      (∀ part ∈ encoded, part.2.length ≤ depth) →
      List.Forall₂ (PartDecodes (datum kernel depth)) encoded
        (arrangedItems kernel values)
  | [], _, _, put, _ => by
      cases put
      exact .nil
  | value :: rest, _, _, put, small => by
      obtain ⟨bytes, putValue, remaining⟩ := bind_eq_ok.mp put
      obtain ⟨tail, putRest, found⟩ := bind_eq_ok.mp remaining
      cases found
      refine .cons ⟨rfl, ?_⟩ ?_
      · exact putDatum_decodes value putValue (small _ List.mem_cons_self)
      · exact putItems_decode rest putRest fun part member =>
          small part (List.mem_cons_of_mem _ member)

theorem putEntries_decode :
    ∀ (entries : List (Datum × Datum)) {encoded : List (Bytes × Bytes)}
      {depth : Nat},
      putEntries kernel entries = .ok encoded →
      (∀ part ∈ encoded, part.2.length ≤ depth) →
      List.Forall₂ (PartDecodes (entry (datum kernel depth))) encoded
        (arrangedEntries kernel entries)
  | [], _, _, put, _ => by
      cases put
      exact .nil
  | (key, value) :: rest, _, _, put, small => by
      obtain ⟨keyBytes, putKey, remaining⟩ := bind_eq_ok.mp put
      obtain ⟨valueBytes, putValue, remaining⟩ := bind_eq_ok.mp remaining
      obtain ⟨tail, putRest, found⟩ := bind_eq_ok.mp remaining
      cases found
      have bound := small _ List.mem_cons_self
      simp only [List.length_append] at bound
      refine .cons ⟨rfl, ?_⟩ ?_
      · refine .bind (putDatum_decodes key putKey (by omega)) ?_
        exact .bind_done (putDatum_decodes value putValue (by omega)) (.pure _)
      · exact putEntries_decode rest putRest fun part member =>
          small part (List.mem_cons_of_mem _ member)

theorem putFields_decode :
    ∀ (fields : List (Symbol × Datum))
      {encoded : List ((Option String × String) × Bytes)} {depth : Nat},
      putFields kernel fields = .ok encoded →
      (∀ part ∈ encoded, part.2.length ≤ depth) →
      List.Forall₂ (PartDecodes (field (datum kernel depth))) encoded
        (arrangedFields kernel fields)
  | [], _, _, put, _ => by
      cases put
      exact .nil
  | (name, value) :: rest, _, _, put, small => by
      obtain ⟨nameBytes, putName, remaining⟩ := bind_eq_ok.mp put
      obtain ⟨valueBytes, putValue, remaining⟩ := bind_eq_ok.mp remaining
      obtain ⟨tail, putRest, found⟩ := bind_eq_ok.mp remaining
      cases found
      have bound := small _ List.mem_cons_self
      simp only [List.length_append] at bound
      refine .cons ⟨rfl, ?_⟩ ?_
      · refine .bind (putSymbol_decodes putName) ?_
        exact .bind_done (putDatum_decodes value putValue (by omega)) (.pure _)
      · exact putFields_decode rest putRest fun part member =>
          small part (List.mem_cons_of_mem _ member)

end

section Arrangement

/-- Replacing the parts of a container one at a time rearranges it. -/
private theorem rearranged_of_parts
    {τ : Type} (related : τ → τ → Prop) (wrap : List τ → Datum)
    (replace : ∀ (before after : List τ) {first second : τ},
      related first second →
      Rearranged (wrap (before ++ first :: after))
        (wrap (before ++ second :: after)))
    {firsts seconds : List τ}
    (paired : List.Forall₂ related firsts seconds) :
    ∀ before, Rearranged (wrap (before ++ firsts)) (wrap (before ++ seconds)) := by
  induction paired with
  | nil => exact fun before => .refl _
  | @cons first second firsts seconds head _ inductionHypothesis =>
      intro before
      have later := inductionHypothesis (before ++ [second])
      simp only [List.append_assoc, List.singleton_append] at later
      exact (replace before firsts head).trans later

mutual

/-- The codec's order is a rearrangement of the value. -/
theorem rearranged_arranged :
    ∀ value : Datum, Rearranged value (arranged kernel value)
  | .nil => .refl _
  | .bool _ => .refl _
  | .number _ => .refl _
  | .symbol _ => .refl _
  | .string _ => .refl _
  | .bytes _ => .refl _
  | .list values =>
      rearranged_of_parts Rearranged .list
        (fun before after _ _ related => .listItem before after related)
        (rearranged_items values) []
  | .vector values =>
      rearranged_of_parts Rearranged .vector
        (fun before after _ _ related => .vectorItem before after related)
        (rearranged_items values) []
  | .set values =>
      .trans
        (rearranged_of_parts Rearranged .set
          (fun before after _ _ related => .setItem before after related)
          (rearranged_items values) [])
        (.setOrder ((sortByKey_perm _).map _).symm)
  | .map entries =>
      .trans
        (rearranged_of_parts
          (fun first second =>
            Rearranged first.1 second.1 ∧ Rearranged first.2 second.2)
          .map
          (fun before after first second related =>
            .trans (.mapKey first.2 before after related.1)
              (.mapValue second.1 before after related.2))
          (rearranged_entries entries) [])
        (.mapOrder ((sortByKey_perm _).map _).symm)
  | .node tag fields =>
      .trans
        (rearranged_of_parts
          (fun first second =>
            first.1 = second.1 ∧ Rearranged first.2 second.2)
          (.node tag)
          (fun before after first second related => by
            rcases first with ⟨name, first⟩
            rcases second with ⟨_, second⟩
            obtain ⟨rfl, moved⟩ := related
            exact .nodeField tag name before after moved)
          (rearranged_fields fields) [])
        (.nodeOrder tag ((sortFields_perm _).map _).symm)

private theorem rearranged_items :
    ∀ values : List Datum,
      List.Forall₂ Rearranged values
        ((arrangedItems kernel values).map Prod.snd)
  | [] => .nil
  | value :: rest =>
      .cons (rearranged_arranged value) (rearranged_items rest)

private theorem rearranged_entries :
    ∀ entries : List (Datum × Datum),
      List.Forall₂
        (fun first second =>
          Rearranged first.1 second.1 ∧ Rearranged first.2 second.2)
        entries ((arrangedEntries kernel entries).map Prod.snd)
  | [] => .nil
  | (key, value) :: rest =>
      .cons ⟨rearranged_arranged key, rearranged_arranged value⟩
        (rearranged_entries rest)

private theorem rearranged_fields :
    ∀ fields : List (Symbol × Datum),
      List.Forall₂
        (fun first second =>
          first.1 = second.1 ∧ Rearranged first.2 second.2)
        fields ((arrangedFields kernel fields).map Prod.snd)
  | [] => .nil
  | (_, value) :: rest =>
      .cons ⟨rfl, rearranged_arranged value⟩ (rearranged_fields rest)

end

end Arrangement

variable {kernel}

/-- Decoding the bytes of a value gives the value in the codec's order. -/
theorem decode_encode
    (lawful : kernel.Lawful)
    {value : Datum} {bytes : Bytes}
    (encoded : encode kernel value = .ok bytes) :
    decode kernel bytes = .ok (arranged kernel value) := by
  unfold encode at encoded
  split at encoded
  · cases encoded
  · next canonical found =>
      obtain ⟨body, put, finished⟩ := bind_eq_ok.mp encoded
      obtain ⟨rfl, small⟩ := finishBytes_eq_ok.mp finished
      have inWord : (magic ++ body).length < wordBound :=
        Nat.lt_of_le_of_lt small isizeMax_lt_wordBound
      have stillCanonical :
          kernel.canonicalBytes (arranged kernel value) = some canonical := by
        rw [← lawful.rearranged (rearranged_arranged kernel value)]
        exact found
      have long : body.length ≤ (magic ++ body).length := by simp
      have readBody := putDatum_decodes kernel value put long
      have readMagic : Decodes (take 10) magic magic := .take rfl
      have checked : checkMagic magic = .ok () := by simp [checkMagic]
      have readAll :
          Decodes
            (do
              let leading ← take 10
              Decoder.lift (checkMagic leading)
              datum kernel (magic ++ body).length)
            (magic ++ body) (arranged kernel value) :=
        .bind readMagic (.lift_bind checked readBody)
      have accepted : ∀ cursor : Cursor,
          Decoder.lift (checkCanonical kernel (arranged kernel value)) cursor =
            .ok (arranged kernel value, cursor) := by
        intro cursor
        simp only [checkCanonical, stillCanonical, Decoder.lift]
        rfl
      have readToEnd := Decodes.run_finish (corrupt "trailing datum bytes")
        (fun found => Decoder.lift (checkCanonical kernel found))
        readAll inWord accepted
      simp only [Decoder.bind_assoc] at readToEnd
      exact readToEnd

end SimStorage.Journal.DatumCodec
