import Mathlib.Tactic.Linarith

namespace SimStorage.Codec

/-!
# Texts, bytes and hexadecimal names

UTF-8 encoding of strings as byte lists, splitting at a separator, the
lower-case hexadecimal names that storage layouts build from bytes, and texts
as messages quote them.
-/

/-- A byte string. -/
abbrev Bytes := List UInt8

/-- The UTF-8 bytes of a text. -/
def utf8 (text : String) : Bytes :=
  text.toByteArray.data.toList

/-- Read bytes as UTF-8, refusing malformed input. -/
def fromUtf8 (bytes : Bytes) : Option String :=
  String.fromUTF8? ⟨bytes.toArray⟩

@[simp] theorem fromUtf8_utf8
    (text : String) :
    fromUtf8 (utf8 text) = some text := by
  have same :
      (⟨(utf8 text).toArray⟩ : ByteArray) = text.toByteArray := by
    simp [utf8]
  have valid := text.isValidUTF8
  unfold fromUtf8
  rw [same]
  simp only [String.fromUTF8?, valid, ↓reduceDIte]
  rfl

/-- Accepted bytes are the UTF-8 form of the text read from them. -/
theorem utf8_of_fromUtf8
    {bytes : Bytes}
    {text : String}
    (accepted : fromUtf8 bytes = some text) :
    utf8 text = bytes := by
  unfold fromUtf8 String.fromUTF8? at accepted
  split at accepted
  · cases accepted
    simp [utf8, String.fromUTF8]
  · cases accepted

/-- Encoding a text loses nothing. -/
theorem utf8_injective
    {first second : String}
    (same : utf8 first = utf8 second) :
    first = second := by
  have read := congrArg fromUtf8 same
  simpa using read

/-- A character takes at most four bytes. -/
theorem utf8_ofList_length_le
    (characters : List Char) :
    (utf8 (String.ofList characters)).length ≤ 4 * characters.length := by
  have shape : utf8 (String.ofList characters) =
      characters.flatMap String.utf8EncodeChar := by
    simp [utf8, List.utf8Encode]
  rw [shape]
  clear shape
  induction characters with
  | nil => simp
  | cons head rest inductionHypothesis =>
      have size := head.utf8Size_le_four
      simp only [List.flatMap_cons, List.length_append, List.length_cons,
        String.length_utf8EncodeChar]
      omega

/-- Split a list at the first occurrence of a separator. -/
def splitList (separator : Char) :
    List Char → Option (List Char × List Char)
  | [] => none
  | head :: rest =>
      if head = separator then
        some ([], rest)
      else
        (splitList separator rest).map fun (left, right) =>
          (head :: left, right)

/-- A split list is the two parts around the separator. -/
theorem splitList_sound
    {separator : Char}
    {text left right : List Char}
    (found : splitList separator text = some (left, right)) :
    text = left ++ separator :: right ∧ separator ∉ left := by
  induction text generalizing left with
  | nil => simp [splitList] at found
  | cons head rest inductionHypothesis =>
      by_cases isSeparator : head = separator
      · simp only [splitList, isSeparator, ↓reduceIte, Option.some.injEq,
          Prod.mk.injEq] at found
        obtain ⟨rfl, rfl⟩ := found
        simp [isSeparator]
      · simp only [splitList, isSeparator, ↓reduceIte, Option.map_eq_some_iff,
          Prod.exists, Prod.mk.injEq] at found
        obtain ⟨tail, other, inner, rfl, rfl⟩ := found
        obtain ⟨shape, absent⟩ := inductionHypothesis inner
        refine ⟨by simp [shape], ?_⟩
        simp [absent, Ne.symm isSeparator]

/-- Splitting finds the separator that was put in. -/
theorem splitList_append
    {separator : Char}
    {left : List Char}
    (absent : separator ∉ left)
    (right : List Char) :
    splitList separator (left ++ separator :: right) =
      some (left, right) := by
  induction left with
  | nil => simp [splitList]
  | cons head rest inductionHypothesis =>
      simp only [List.mem_cons, not_or] at absent
      simp [splitList, Ne.symm absent.1, inductionHypothesis absent.2]

/-- Split a text at the first occurrence of a separator. -/
def splitOnce (separator : Char) (text : String) : Option (String × String) :=
  (splitList separator text.toList).map fun (left, right) =>
    (String.ofList left, String.ofList right)

/-- A split text is the two parts around the separator. -/
theorem splitOnce_sound
    {separator : Char}
    {text left right : String}
    (found : splitOnce separator text = some (left, right)) :
    text.toList = left.toList ++ separator :: right.toList ∧
      separator ∉ left.toList := by
  simp only [splitOnce, Option.map_eq_some_iff, Prod.exists,
    Prod.mk.injEq] at found
  obtain ⟨leftList, rightList, split, rfl, rfl⟩ := found
  simpa using splitList_sound split

/-- Splitting finds the separator that was put in. -/
theorem splitOnce_of_toList
    {separator : Char}
    {text left right : String}
    (shape : text.toList = left.toList ++ separator :: right.toList)
    (absent : separator ∉ left.toList) :
    splitOnce separator text = some (left, right) := by
  simp [splitOnce, shape, splitList_append absent]

/-- The lower-case hexadecimal digit of a number below sixteen. -/
def hexDigit (value : Nat) : Char :=
  if value < 10 then
    Char.ofNat ('0'.toNat + value)
  else
    Char.ofNat ('a'.toNat + (value - 10))

/-- The value of a hexadecimal digit of either case. -/
def digitValue (digit : Char) : Option Nat :=
  if '0' ≤ digit ∧ digit ≤ '9' then
    some (digit.toNat - '0'.toNat)
  else if 'a' ≤ digit ∧ digit ≤ 'f' then
    some (digit.toNat - 'a'.toNat + 10)
  else if 'A' ≤ digit ∧ digit ≤ 'F' then
    some (digit.toNat - 'A'.toNat + 10)
  else
    none

/-- The two digits of a byte, most significant first. -/
def hexByte (byte : UInt8) : List Char :=
  [hexDigit (byte.toNat / 16), hexDigit (byte.toNat % 16)]

/-- The lower-case hexadecimal name of a byte string. -/
def hex (bytes : Bytes) : String :=
  String.ofList (bytes.flatMap hexByte)

/-- Read pairs of hexadecimal digits back to bytes. -/
def unhexList : List Char → Option Bytes
  | [] => some []
  | [_] => none
  | high :: low :: rest => do
      let upper ← digitValue high
      let lower ← digitValue low
      let tail ← unhexList rest
      return UInt8.ofNat (upper * 16 + lower) :: tail

/-- Read a hexadecimal name back to bytes. -/
def unhex (text : String) : Option Bytes :=
  unhexList text.toList

theorem digitValue_hexDigit
    {value : Nat}
    (small : value < 16) :
    digitValue (hexDigit value) = some value := by
  revert value
  decide

theorem unhexList_flatMap
    (bytes : Bytes) :
    unhexList (bytes.flatMap hexByte) = some bytes := by
  induction bytes with
  | nil => rfl
  | cons head rest inductionHypothesis =>
      have below : head.toNat < 256 := head.toNat_lt
      have upper :=
        digitValue_hexDigit (show head.toNat / 16 < 16 by omega)
      have lower :=
        digitValue_hexDigit (show head.toNat % 16 < 16 by omega)
      have joined :
          UInt8.ofNat (head.toNat / 16 * 16 + head.toNat % 16) = head := by
        rw [Nat.div_add_mod']
        exact UInt8.ofNat_toNat
      simp only [List.flatMap_cons, hexByte, List.cons_append,
        List.nil_append, unhexList, upper, lower, inductionHypothesis,
        Option.bind_eq_bind, Option.bind_some, joined]
      rfl

/-- Hexadecimal names determine their bytes. -/
@[simp] theorem unhex_hex
    (bytes : Bytes) :
    unhex (hex bytes) = some bytes := by
  simp [unhex, hex, unhexList_flatMap]

/-- A hexadecimal name has two characters for each byte. -/
theorem utf8_hex_length_le
    (bytes : Bytes) :
    (utf8 (hex bytes)).length ≤ 8 * bytes.length := by
  have digits : (bytes.flatMap hexByte).length = 2 * bytes.length := by
    induction bytes with
    | nil => rfl
    | cons head rest inductionHypothesis =>
        simp only [List.flatMap_cons, List.length_append, List.length_cons,
          inductionHypothesis, hexByte, List.length_nil]
        omega
  have bounded := utf8_ofList_length_le (bytes.flatMap hexByte)
  unfold hex
  omega

/-- Hexadecimal names consist of digits. -/
theorem mem_hex
    {char : Char} {bytes : Bytes}
    (member : char ∈ (hex bytes).toList) :
    ∃ value < 16, char = hexDigit value := by
  simp only [hex, String.toList_ofList, List.mem_flatMap] at member
  obtain ⟨byte, _, digit⟩ := member
  have below : byte.toNat < 256 := byte.toNat_lt
  simp only [hexByte, List.mem_cons, List.not_mem_nil, or_false] at digit
  rcases digit with high | low
  · exact ⟨_, by omega, high⟩
  · exact ⟨_, by omega, low⟩

/-- A character that is no digit is not in a hexadecimal name. -/
theorem not_mem_hex
    {char : Char}
    (noDigit : ∀ value < 16, char ≠ hexDigit value)
    (bytes : Bytes) :
    char ∉ (hex bytes).toList := by
  intro member
  obtain ⟨value, small, digit⟩ := mem_hex member
  exact noDigit value small digit

/-- Hexadecimal names contain no dash. -/
theorem dash_not_mem_hex
    (bytes : Bytes) :
    '-' ∉ (hex bytes).toList :=
  not_mem_hex (by decide) bytes

/--
`char::escape_debug` within a text.  Up to U+00FF this is the table of the
standard library; what lies beyond is taken for printable.
-/
def escapeDebug (character : Char) : String :=
  let code := character.toNat
  if code = 0 then
    "\\0"
  else if code = 9 then
    "\\t"
  else if code = 10 then
    "\\n"
  else if code = 13 then
    "\\r"
  else if code = 34 ∨ code = 92 then
    "\\" ++ character.toString
  else if code < 32 ∨ 127 ≤ code ∧ code ≤ 160 ∨ code = 173 then
    "\\u\x7b" ++ String.ofList (Nat.toDigits 16 code) ++ "\x7d"
  else
    character.toString

/-- A text as `{:?}` writes it. -/
def debugText (text : String) : String :=
  "\"" ++ String.join (text.toList.map escapeDebug) ++ "\""

end SimStorage.Codec
