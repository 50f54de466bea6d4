import SimStorage.Codec.Text

namespace SimStorage.Codec

/-!
# Lossy UTF-8

The text of bytes that need not be UTF-8: valid bytes are their text, and in
others every sequence that breaks off is one replacement character.
-/

/-- U+FFFD. -/
def replacement : Char :=
  Char.ofNat 0xFFFD

/-- A sequence that has begun: what the next byte must be, and the rest. -/
structure Sequence where
  remaining : Nat
  low : UInt8
  high : UInt8
  code : Nat

/-- The sequence that a byte begins. -/
def Sequence.start (first : UInt8) : Option Sequence :=
  if 0xC2 ≤ first && first ≤ 0xDF then
    some ⟨1, 0x80, 0xBF, first.toNat % 32⟩
  else if first = 0xE0 then
    some ⟨2, 0xA0, 0xBF, first.toNat % 16⟩
  else if first = 0xED then
    some ⟨2, 0x80, 0x9F, first.toNat % 16⟩
  else if 0xE1 ≤ first && first ≤ 0xEF then
    some ⟨2, 0x80, 0xBF, first.toNat % 16⟩
  else if first = 0xF0 then
    some ⟨3, 0x90, 0xBF, first.toNat % 8⟩
  else if first = 0xF4 then
    some ⟨3, 0x80, 0x8F, first.toNat % 8⟩
  else if 0xF1 ≤ first && first ≤ 0xF3 then
    some ⟨3, 0x80, 0xBF, first.toNat % 8⟩
  else
    none

/-- What a byte outside a sequence gives: a character, or a sequence. -/
def beginWith (first : UInt8) : List Char × Option Sequence :=
  if first < 0x80 then
    ([Char.ofNat first.toNat], none)
  else
    match Sequence.start first with
    | some sequence => ([], some sequence)
    | none => ([replacement], none)

/-- What the next byte of a sequence gives; one that does not fit begins anew. -/
def Sequence.next (sequence : Sequence) (byte : UInt8) :
    List Char × Option Sequence :=
  let code := sequence.code * 64 + byte.toNat % 64
  if !(sequence.low ≤ byte && byte ≤ sequence.high) then
    let (characters, later) := beginWith byte
    (replacement :: characters, later)
  else if sequence.remaining = 1 then
    ([Char.ofNat code], none)
  else
    ([], some ⟨sequence.remaining - 1, 0x80, 0xBF, code⟩)

/-- The characters of bytes, from within a sequence or outside of one. -/
def lossyList : Option Sequence → Bytes → List Char
  | none, [] => []
  | some _, [] => [replacement]
  | none, byte :: rest =>
      let (characters, later) := beginWith byte
      characters ++ lossyList later rest
  | some sequence, byte :: rest =>
      let (characters, later) := sequence.next byte
      characters ++ lossyList later rest

/-- `String::from_utf8_lossy`. -/
def fromUtf8Lossy (bytes : Bytes) : String :=
  (fromUtf8 bytes).getD (String.ofList (lossyList none bytes))

/-- The bytes of a text are shown as the text. -/
@[simp] theorem fromUtf8Lossy_utf8
    (text : String) :
    fromUtf8Lossy (utf8 text) = text := by
  simp [fromUtf8Lossy]

/-- A sequence that breaks off is one replacement, and what follows is kept. -/
example : lossyList none [0x61, 0xE2, 0x82, 0x62, 0xFF, 0xC3, 0xA9, 0xF0] =
    ['a', replacement, 'b', replacement, 'é', replacement] := by
  decide

end SimStorage.Codec
