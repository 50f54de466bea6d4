import SimStorage.Codec.Text
import SimStorage.Table.Path
import Mathlib.Data.List.Infix

namespace SimStorage.Http

/-!
# Names as path segments

A name becomes one segment of a URL: its unreserved bytes as they are, and the
others as percent triples.  The segment is read back by undoing the triples;
no name is lost, and none leaves its segment.
-/

open Codec

/-- `is_unreserved_path_byte`. -/
def isUnreservedPathByte (byte : UInt8) : Bool :=
  ('A'.toUInt8 ≤ byte && byte ≤ 'Z'.toUInt8) ||
    ('a'.toUInt8 ≤ byte && byte ≤ 'z'.toUInt8) ||
      ('0'.toUInt8 ≤ byte && byte ≤ '9'.toUInt8) ||
        byte = '-'.toUInt8 || byte = '.'.toUInt8 || byte = '_'.toUInt8 ||
          byte = '~'.toUInt8

/-- `HEX`. -/
def hexDigits : List Char :=
  "0123456789ABCDEF".toList

/-- A digit of `HEX`; a half of a byte is always in range. -/
def hexDigitAt (half : UInt8) : Char :=
  hexDigits.getD half.toNat '0'

/-- What `encode_path_segment` pushes for a byte. -/
def encodeByte (byte : UInt8) : List Char :=
  if isUnreservedPathByte byte then
    [Char.ofNat byte.toNat]
  else
    ['%', hexDigitAt (byte >>> 4), hexDigitAt (byte &&& 0x0f)]

/-- `encode_path_segment`. -/
def encodePathSegment (segment : String) : String :=
  String.ofList ((utf8 segment).flatMap encodeByte)

/-- An unreserved character: that of an unreserved byte. -/
def isUnreserved (character : Char) : Bool :=
  character.toNat < 128 && isUnreservedPathByte character.toUInt8

/--
The bytes that a segment stands for, read from the left: a percent sign takes
the two digits after it, and any other character must be unreserved.
-/
def readSegment : List Char → Option Bytes
  | [] => some []
  | first :: rest =>
      if first = '%' then
        match rest with
        | high :: low :: others => do
            let upper ← digitValue high
            let lower ← digitValue low
            let bytes ← readSegment others
            return UInt8.ofNat (upper * 16 + lower) :: bytes
        | _ => none
      else if isUnreserved first then
        (readSegment rest).map fun bytes => first.toUInt8 :: bytes
      else
        none

section Bytes

variable {byte : UInt8}

theorem toNat_ofByte
    (byte : UInt8) :
    (Char.ofNat byte.toNat).toNat = byte.toNat := by
  have below : byte.toNat < 256 := byte.toNat_lt
  have valid : byte.toNat.isValidChar := .inl (by omega)
  rw [Char.ofNat, dif_pos valid]
  rfl

theorem toUInt8_ofByte
    (byte : UInt8) :
    (Char.ofNat byte.toNat).toUInt8 = byte := by
  apply UInt8.toNat_inj.mp
  calc (Char.ofNat byte.toNat).toUInt8.toNat
      = (Char.ofNat byte.toNat).toNat % 256 := rfl
    _ = byte.toNat % 256 := by rw [toNat_ofByte]
    _ = byte.toNat := Nat.mod_eq_of_lt byte.toNat_lt

/-- An unreserved byte is an ASCII one, and no percent sign. -/
theorem unreserved_ascii
    (unreserved : isUnreservedPathByte byte = true) :
    byte.toNat < 128 ∧ byte.toNat ≠ '%'.toNat := by
  simp only [isUnreservedPathByte, Bool.or_eq_true, Bool.and_eq_true,
    decide_eq_true_eq, UInt8.le_iff_toNat_le, ← UInt8.toNat_inj] at unreserved
  have code : ∀ character : Char,
      character.toUInt8.toNat = character.toNat % 256 := fun _ => rfl
  simp only [code, Char.reduceToNat] at unreserved ⊢
  omega

theorem isUnreserved_ofByte
    (unreserved : isUnreservedPathByte byte = true) :
    isUnreserved (Char.ofNat byte.toNat) = true := by
  simp [isUnreserved, toUInt8_ofByte, toNat_ofByte, unreserved,
    (unreserved_ascii unreserved).1]

theorem ofByte_ne_percent
    (unreserved : isUnreservedPathByte byte = true) :
    Char.ofNat byte.toNat ≠ '%' := by
  intro same
  have number := toNat_ofByte byte
  rw [same] at number
  exact (unreserved_ascii unreserved).2 number.symm

/-- A digit has its value, and is an unreserved character. -/
theorem hexDigits_spec
    {value : Nat}
    (small : value < 16) :
    digitValue (hexDigits.getD value '0') = some value ∧
      isUnreserved (hexDigits.getD value '0') = true := by
  revert value
  decide

theorem high_toNat
    (byte : UInt8) :
    (byte >>> 4).toNat = byte.toNat / 16 := by
  simp [Nat.shiftRight_eq_div_pow]

theorem low_toNat
    (byte : UInt8) :
    (byte &&& 0x0f).toNat = byte.toNat % 16 := by
  have masked := Nat.and_two_pow_sub_one_eq_mod byte.toNat 4
  simpa using masked

theorem high_spec
    (byte : UInt8) :
    digitValue (hexDigitAt (byte >>> 4)) = some (byte.toNat / 16) ∧
      isUnreserved (hexDigitAt (byte >>> 4)) = true := by
  have below : byte.toNat < 256 := byte.toNat_lt
  rw [hexDigitAt, high_toNat]
  exact hexDigits_spec (by omega)

theorem low_spec
    (byte : UInt8) :
    digitValue (hexDigitAt (byte &&& 0x0f)) = some (byte.toNat % 16) ∧
      isUnreserved (hexDigitAt (byte &&& 0x0f)) = true := by
  rw [hexDigitAt, low_toNat]
  exact hexDigits_spec (by omega)

theorem readSegment_plain
    {first : Char}
    (unreserved : isUnreserved first = true)
    (isPlain : first ≠ '%')
    (rest : List Char) :
    readSegment (first :: rest) =
      (readSegment rest).map fun bytes => first.toUInt8 :: bytes := by
  rw [readSegment.eq_def]
  exact (if_neg isPlain).trans (if_pos unreserved)

/-- An encoded byte is read back, whatever follows it. -/
theorem readSegment_encodeByte
    (byte : UInt8) (rest : List Char) :
    readSegment (encodeByte byte ++ rest) =
      (readSegment rest).map fun bytes => byte :: bytes := by
  by_cases unreserved : isUnreservedPathByte byte = true
  · rw [encodeByte, if_pos unreserved, List.singleton_append,
      readSegment_plain (isUnreserved_ofByte unreserved)
        (ofByte_ne_percent unreserved), toUInt8_ofByte]
  · have joined :
        UInt8.ofNat (byte.toNat / 16 * 16 + byte.toNat % 16) = byte := by
      rw [Nat.div_add_mod']
      exact UInt8.ofNat_toNat
    rw [encodeByte, if_neg unreserved]
    simp only [List.cons_append, List.nil_append, readSegment, ↓reduceIte,
      (high_spec byte).1, (low_spec byte).1, Option.bind_eq_bind,
      Option.bind_some, joined]
    cases readSegment rest <;> rfl

/-- A byte is written with unreserved characters and percent signs. -/
theorem mem_encodeByte
    {character : Char}
    (member : character ∈ encodeByte byte) :
    character = '%' ∨ isUnreserved character = true := by
  by_cases unreserved : isUnreservedPathByte byte = true
  · rw [encodeByte, if_pos unreserved, List.mem_singleton] at member
    exact .inr (member ▸ isUnreserved_ofByte unreserved)
  · rw [encodeByte, if_neg unreserved] at member
    simp only [List.mem_cons, List.not_mem_nil, or_false] at member
    rcases member with rfl | rfl | rfl
    · exact .inl rfl
    · exact .inr (high_spec byte).2
    · exact .inr (low_spec byte).2

end Bytes

section Segments

variable {first second segment : String}

theorem readSegment_flatMap
    (bytes : Bytes) :
    readSegment (bytes.flatMap encodeByte) = some bytes := by
  induction bytes with
  | nil => rfl
  | cons byte rest inductionHypothesis =>
      rw [List.flatMap_cons, readSegment_encodeByte, inductionHypothesis]
      rfl

/-- A segment stands for the bytes of its name. -/
theorem readSegment_encodePathSegment
    (segment : String) :
    readSegment (encodePathSegment segment).toList = some (utf8 segment) := by
  rw [encodePathSegment, String.toList_ofList]
  exact readSegment_flatMap (utf8 segment)

theorem encodePathSegment_injective
    (same : encodePathSegment first = encodePathSegment second) :
    first = second := by
  have read := readSegment_encodePathSegment first
  rw [same, readSegment_encodePathSegment second] at read
  exact (utf8_injective (Option.some.inj read)).symm

theorem mem_encodePathSegment
    {character : Char}
    (member : character ∈ (encodePathSegment segment).toList) :
    character = '%' ∨ isUnreserved character = true := by
  rw [encodePathSegment, String.toList_ofList, List.mem_flatMap] at member
  obtain ⟨byte, _, member⟩ := member
  exact mem_encodeByte member

theorem slash_not_mem
    (segment : String) :
    '/' ∉ (encodePathSegment segment).toList := by
  intro member
  rcases mem_encodePathSegment member with isPercent | unreserved
  · exact absurd isPercent (by decide)
  · exact absurd unreserved (by decide)

/-- Only a dot segment is written as one, and only the empty name as nothing. -/
theorem encodePathSegment_ne
    (fixed : encodePathSegment second = second)
    (differs : first ≠ second) :
    encodePathSegment first ≠ second := by
  intro same
  exact differs (encodePathSegment_injective (same.trans fixed.symm))

end Segments

/-- The names that URL paths give a meaning to are written as they are. -/
theorem encodePathSegment_special :
    encodePathSegment "" = "" ∧ encodePathSegment "." = "." ∧
      encodePathSegment ".." = ".." := by
  decide

end SimStorage.Http
