import SimStorage.Codec.Decoder

namespace SimStorage

/-!
# Kernel data and identities

The data model that the storage crates take from the kernel crate: symbols,
content identities and the open `Datum` tree.  The kernel's own functions are
not part of this repository; `Kernel` carries them as parameters and
`Kernel.Lawful` names what the storage code relies on.
-/

open Codec

/-- A symbol with an optional namespace. -/
structure Symbol where
  space : Option String
  name : String
  deriving Repr, DecidableEq

namespace Symbol

/-- `Symbol::new`: an unqualified symbol. -/
def new (name : String) : Symbol where
  space := none
  name := name

/-- `Symbol::qualified`: a symbol in a namespace. -/
def qualified (space name : String) : Symbol where
  space := some space
  name := name

/-- `Symbol::as_qualified_str`: the namespace and the name around a slash. -/
def asQualifiedStr (symbol : Symbol) : String :=
  match symbol.space with
  | some space => space ++ "/" ++ symbol.name
  | none => symbol.name

end Symbol

/-- A 32-byte digest. -/
abbrev Digest :=
  { bytes : Bytes // bytes.length = 32 }

/-- A content identity: the algorithm symbol and its digest. -/
structure ContentId where
  algorithm : Symbol
  digest : Digest
  deriving Repr, DecidableEq

namespace ContentId

/-- The fields of an identity in comparison order. -/
def key (id : ContentId) : (Option String × String) × Bytes :=
  ((id.algorithm.space, id.algorithm.name), id.digest.val)

theorem key_injective
    {first second : ContentId}
    (same : first.key = second.key) :
    first = second := by
  rcases first with ⟨⟨firstSpace, firstName⟩, firstDigest⟩
  rcases second with ⟨⟨secondSpace, secondName⟩, secondDigest⟩
  simp only [key, Prod.mk.injEq] at same
  obtain ⟨⟨rfl, rfl⟩, sameBytes⟩ := same
  rw [Subtype.ext sameBytes]

attribute [local instance] lexOrd

/-- Identities are ordered by algorithm and then by digest. -/
instance : Ord ContentId where
  compare first second := compare first.key second.key

instance : Std.TransOrd ContentId :=
  inferInstanceAs (Std.TransCmp (compareOn key))

instance : Std.LawfulEqOrd ContentId where
  compare_self {id} := Std.ReflOrd.compare_self (a := id.key)
  eq_of_compare same := key_injective (Std.LawfulEqOrd.eq_of_compare same)

end ContentId

/-- A number in a numeric domain, by its canonical text. -/
structure NumberLiteral where
  domain : Symbol
  canonical : String
  deriving Repr, DecidableEq

/-- The kernel's open semantic value. -/
inductive Datum where
  | nil
  | bool (value : Bool)
  | number (value : NumberLiteral)
  | symbol (value : Symbol)
  | string (value : String)
  | bytes (value : Bytes)
  | list (items : List Datum)
  | vector (items : List Datum)
  | map (entries : List (Datum × Datum))
  | set (items : List Datum)
  | node (tag : Symbol) (fields : List (Symbol × Datum))

/--
Two values that differ only in the order of node fields, map entries and set
items, at any depth.
-/
inductive Rearranged : Datum → Datum → Prop where
  | refl (value : Datum) : Rearranged value value
  | symm {first second : Datum} :
      Rearranged first second → Rearranged second first
  | trans {first middle last : Datum} :
      Rearranged first middle → Rearranged middle last →
      Rearranged first last
  | listItem {first second : Datum} (before after : List Datum) :
      Rearranged first second →
      Rearranged (.list (before ++ first :: after))
        (.list (before ++ second :: after))
  | vectorItem {first second : Datum} (before after : List Datum) :
      Rearranged first second →
      Rearranged (.vector (before ++ first :: after))
        (.vector (before ++ second :: after))
  | mapKey {first second : Datum} (value : Datum)
      (before after : List (Datum × Datum)) :
      Rearranged first second →
      Rearranged (.map (before ++ (first, value) :: after))
        (.map (before ++ (second, value) :: after))
  | mapValue {first second : Datum} (key : Datum)
      (before after : List (Datum × Datum)) :
      Rearranged first second →
      Rearranged (.map (before ++ (key, first) :: after))
        (.map (before ++ (key, second) :: after))
  | mapOrder {first second : List (Datum × Datum)} :
      first.Perm second → Rearranged (.map first) (.map second)
  | setItem {first second : Datum} (before after : List Datum) :
      Rearranged first second →
      Rearranged (.set (before ++ first :: after))
        (.set (before ++ second :: after))
  | setOrder {first second : List Datum} :
      first.Perm second → Rearranged (.set first) (.set second)
  | nodeField {first second : Datum} (tag name : Symbol)
      (before after : List (Symbol × Datum)) :
      Rearranged first second →
      Rearranged (.node tag (before ++ (name, first) :: after))
        (.node tag (before ++ (name, second) :: after))
  | nodeOrder {first second : List (Symbol × Datum)} (tag : Symbol) :
      first.Perm second →
      Rearranged (.node tag first) (.node tag second)

/-- `datum_content_algorithm`: the algorithm of every datum identity. -/
def datumContentAlgorithm : Symbol :=
  .qualified "core" "sha256-datum-v1"

/--
The functions of other crates that the storage code calls: the kernel's
canonical form, content identity and symbol check, the in-memory sizes of its
types, and the SHA-256 digest.
-/
structure Kernel where
  canonicalBytes : Datum → Option Bytes
  contentId : Datum → Option ContentId
  checkedName : String → Bool
  symbolSize : Nat
  datumSize : Nat
  sha256 : Bytes → Digest

namespace Kernel

variable (kernel : Kernel)

/-- A value has a canonical form. -/
def Canonical (value : Datum) : Prop :=
  (kernel.canonicalBytes value).isSome

/-- `Symbol::checked`: an unqualified symbol with an acceptable name. -/
def checked (name : String) : Option Symbol :=
  if kernel.checkedName name then some (.new name) else none

/--
What the storage code relies on.  The canonical form does not depend on the
order of node fields, map entries and set items; a canonical value has
canonical parts and repeats no map key, set item or field name; and a content
identity exists exactly for canonical values, depends only on the canonical
form, and carries the datum algorithm.
-/
structure Lawful : Prop where
  rearranged :
    ∀ {first second}, Rearranged first second →
      kernel.canonicalBytes first = kernel.canonicalBytes second
  listItems :
    ∀ {items}, kernel.Canonical (.list items) →
      ∀ item ∈ items, kernel.Canonical item
  vectorItems :
    ∀ {items}, kernel.Canonical (.vector items) →
      ∀ item ∈ items, kernel.Canonical item
  mapEntries :
    ∀ {entries}, kernel.Canonical (.map entries) →
      (∀ entry ∈ entries,
        kernel.Canonical entry.1 ∧ kernel.Canonical entry.2) ∧
      (entries.map fun entry => kernel.canonicalBytes entry.1).Nodup
  setItems :
    ∀ {items}, kernel.Canonical (.set items) →
      (∀ item ∈ items, kernel.Canonical item) ∧
      (items.map kernel.canonicalBytes).Nodup
  nodeFields :
    ∀ {tag fields}, kernel.Canonical (.node tag fields) →
      (∀ field ∈ fields, kernel.Canonical field.2) ∧
      (fields.map Prod.fst).Nodup
  contentId_isSome :
    ∀ value, (kernel.contentId value).isSome ↔ kernel.Canonical value
  contentId_congr :
    ∀ {first second},
      kernel.canonicalBytes first = kernel.canonicalBytes second →
      kernel.contentId first = kernel.contentId second
  contentId_algorithm :
    ∀ {value id}, kernel.contentId value = some id →
      id.algorithm = datumContentAlgorithm

variable {kernel}

/-- Rearranging a value keeps its content identity. -/
theorem Lawful.contentId_rearranged
    (lawful : kernel.Lawful)
    {first second : Datum}
    (same : Rearranged first second) :
    kernel.contentId first = kernel.contentId second :=
  lawful.contentId_congr (lawful.rearranged same)

/-- Rearranging a value keeps it canonical. -/
theorem Lawful.canonical_rearranged
    (lawful : kernel.Lawful)
    {first second : Datum}
    (same : Rearranged first second)
    (canonical : kernel.Canonical first) :
    kernel.Canonical second := by
  unfold Canonical at *
  rwa [← lawful.rearranged same]

/--
Content identities are collision-free on a set of values: equal identities
name values that differ only in the order of unordered parts.
-/
def CollisionFree (kernel : Kernel) (values : Set Datum) : Prop :=
  ∀ first ∈ values, ∀ second ∈ values, ∀ id,
    kernel.contentId first = some id →
    kernel.contentId second = some id →
    Rearranged first second

end Kernel

end SimStorage
