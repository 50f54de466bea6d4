import SimStorage.Journal.Error
import Mathlib.Data.List.Sort

namespace SimStorage.Journal.DatumCodec

/-!
# The datum codec

The physical byte form of a datum.  Maps, sets and nodes are written in a fixed
order: by the canonical bytes of the key or item, and by field name.
-/

open Codec

/-- `put_len`: an eight-byte length. -/
def putLen (length : Nat) : Result Bytes :=
  if length < 2 ^ 64 then
    .ok (be64 (UInt64.ofNat length))
  else
    refuse .workBoundExceeded

/-- `put_bytes`: a length and the bytes. -/
def putBytes (bytes : Bytes) : Result Bytes := do
  let length ← putLen bytes.length
  return length ++ bytes

/-- `put_bytes(..).expect("symbol length fits u64")`. -/
def putSymbolText (text : String) : Result Bytes :=
  match putBytes (utf8 text) with
  | .ok bytes => .ok bytes
  | .error _ => panicWith "symbol length fits u64"

/-- `put_symbol`. -/
def putSymbol (symbol : Symbol) : Result Bytes :=
  match symbol.space with
  | some space => do
      let leading ← putSymbolText space
      let trailing ← putSymbolText symbol.name
      return 1 :: (leading ++ trailing)
  | none => do
      let trailing ← putSymbolText symbol.name
      return 0 :: trailing

/-- `symbol_key`: the order of node fields. -/
def symbolKey (symbol : Symbol) : Option String × String :=
  (symbol.space, symbol.name)

section

attribute [local instance] lexOrd

/-- The stable order by a key that `sort_by_key` produces. -/
def sortByKey {κ τ : Type} [Ord κ] (items : List (κ × τ)) : List (κ × τ) :=
  items.insertionSort fun first second => (compare first.1 second.1).isLE

/-- Node fields in the codec's order. -/
def sortFields {τ : Type}
    (fields : List ((Option String × String) × τ)) :
    List ((Option String × String) × τ) :=
  sortByKey fields

end

variable (kernel : Kernel)

/-- The key under which map entries and set items are ordered. -/
def itemKey (value : Datum) : Bytes :=
  (kernel.canonicalBytes value).getD []

/-- `to_vec` of a slice of map entries. -/
def entryCapacity (count : Nat) : Result Unit :=
  withCapacity (2 * kernel.datumSize) count

/-- `to_vec` of a slice of node fields. -/
def fieldCapacity (count : Nat) : Result Unit :=
  withCapacity (kernel.symbolSize + kernel.datumSize) count

mutual

/-- `put_datum`: the bytes of one value. -/
def putDatum : Datum → Result Bytes
  | .nil => .ok [0]
  | .bool false => .ok [1]
  | .bool true => .ok [2]
  | .number value => do
      let domain ← putSymbol value.domain
      let text ← putBytes (utf8 value.canonical)
      return 3 :: (domain ++ text)
  | .symbol value => do
      let symbol ← putSymbol value
      return 4 :: symbol
  | .string value => do
      let text ← putBytes (utf8 value)
      return 5 :: text
  | .bytes value => do
      let bytes ← putBytes value
      return 6 :: bytes
  | .list items => do
      let count ← putLen items.length
      let encoded ← putItems items
      return 7 :: (count ++ (encoded.map Prod.snd).flatten)
  | .vector items => do
      let count ← putLen items.length
      let encoded ← putItems items
      return 8 :: (count ++ (encoded.map Prod.snd).flatten)
  | .map entries => do
      entryCapacity kernel entries.length
      let count ← putLen entries.length
      let encoded ← putEntries entries
      return 9 :: (count ++ ((sortByKey encoded).map Prod.snd).flatten)
  | .set items => do
      let count ← putLen items.length
      let encoded ← putItems items
      return 10 :: (count ++ ((sortByKey encoded).map Prod.snd).flatten)
  | .node tag fields => do
      let symbol ← putSymbol tag
      fieldCapacity kernel fields.length
      let count ← putLen fields.length
      let encoded ← putFields fields
      return 11 :: (symbol ++
        (count ++ ((sortFields encoded).map Prod.snd).flatten))

/-- The bytes of each item, with its order key. -/
def putItems : List Datum → Result (List (Bytes × Bytes))
  | [] => .ok []
  | item :: rest => do
      let bytes ← putDatum item
      let tail ← putItems rest
      return (itemKey kernel item, bytes) :: tail

/-- The bytes of each map entry, with its order key. -/
def putEntries : List (Datum × Datum) → Result (List (Bytes × Bytes))
  | [] => .ok []
  | (key, value) :: rest => do
      let keyBytes ← putDatum key
      let valueBytes ← putDatum value
      let tail ← putEntries rest
      return (itemKey kernel key, keyBytes ++ valueBytes) :: tail

/-- The bytes of each node field, with its order key. -/
def putFields :
    List (Symbol × Datum) →
      Result (List ((Option String × String) × Bytes))
  | [] => .ok []
  | (name, value) :: rest => do
      let nameBytes ← putSymbol name
      let valueBytes ← putDatum value
      let tail ← putFields rest
      return (symbolKey name, nameBytes ++ valueBytes) :: tail

end

/-- The leading bytes of every encoded datum. -/
def magic : Bytes :=
  utf8 "SIMJDATUM1"

/-- `encode`: the physical bytes of a canonical value. -/
def encode (value : Datum) : Result Bytes := do
  match kernel.canonicalBytes value with
  | none => refuse .nonCanonicalDatum
  | some _ =>
      let body ← putDatum kernel value
      finishBytes (magic ++ body)

/-- A reader of the datum format. -/
abbrev Reader := Decoder Fault

/-- Report corrupt state. -/
def corrupt (message : String) : Fault :=
  .refused (.corruptState message)

/-- `Cursor::take`. -/
def take (length : Nat) : Reader Bytes :=
  Decoder.take (corrupt "datum length") (corrupt "truncated datum") length

/-- `Cursor::byte`. -/
def byte : Reader UInt8 := do
  let bytes ← take 1
  return bytes.headD 0

/-- `Cursor::len`. -/
def len : Reader Nat := do
  let bytes ← take 8
  return (fromBe64 bytes).toNat

/-- `Cursor::bytes`. -/
def bytes : Reader Bytes := do
  let length ← len
  take length

/-- `Cursor::text`. -/
def text : Reader String := do
  let found ← bytes
  Decoder.lift (okOr (fromUtf8 found) (.corruptState "datum utf8"))

/-- `Cursor::symbol`. -/
def symbol : Reader Symbol := do
  let tag ← byte
  if tag = 0 then do
    let name ← text
    return .new name
  else if tag = 1 then do
    let space ← text
    let name ← text
    return .qualified space name
  else
    Decoder.fail (corrupt "datum symbol")

/-- One map entry. -/
def entry (item : Reader Datum) : Reader (Datum × Datum) := do
  let key ← item
  let value ← item
  return (key, value)

/-- One node field. -/
def field (item : Reader Datum) : Reader (Symbol × Datum) := do
  let name ← symbol
  let value ← item
  return (name, value)

/-- `Cursor::items`. -/
def items (item : Reader Datum) : Reader (List Datum) := do
  let count ← len
  Decoder.many item count

/--
`Cursor::datum`.  Every nested value consumes at least its tag byte, so the
number of input bytes bounds the nesting; `depth` starts there.
-/
def datum : Nat → Reader Datum
  | 0 => Decoder.fail (corrupt "truncated datum")
  | depth + 1 => do
      let tag ← byte
      match tag.toNat with
      | 0 => return .nil
      | 1 => return .bool false
      | 2 => return .bool true
      | 3 => do
          let domain ← symbol
          let canonical ← text
          return .number ⟨domain, canonical⟩
      | 4 => do
          let value ← symbol
          return .symbol value
      | 5 => do
          let value ← text
          return .string value
      | 6 => do
          let value ← bytes
          return .bytes value
      | 7 => do
          let found ← items (datum depth)
          return .list found
      | 8 => do
          let found ← items (datum depth)
          return .vector found
      | 9 => do
          let count ← len
          Decoder.lift (entryCapacity kernel count)
          let found ← Decoder.many (entry (datum depth)) count
          return .map found
      | 10 => do
          let found ← items (datum depth)
          return .set found
      | 11 => do
          let tag ← symbol
          let count ← len
          Decoder.lift (fieldCapacity kernel count)
          let found ← Decoder.many (field (datum depth)) count
          return .node tag found
      | _ => Decoder.fail (corrupt "datum tag")

/-- The check of the leading bytes. -/
def checkMagic (found : Bytes) : Result Unit :=
  if found = magic then .ok () else .error (corrupt "datum format")

/-- The check that a decoded value is canonical. -/
def checkCanonical (value : Datum) : Result Datum :=
  match kernel.canonicalBytes value with
  | some _ => .ok value
  | none => refuse .nonCanonicalDatum

/-- `decode`: the value with the given physical bytes. -/
def decode (input : Bytes) : Result Datum :=
  Decoder.run (show Reader Datum from do
    let found ← take 10
    Decoder.lift (checkMagic found)
    let value ← datum kernel input.length
    Decoder.finish (corrupt "trailing datum bytes")
    Decoder.lift (checkCanonical kernel value)) input

end SimStorage.Journal.DatumCodec
