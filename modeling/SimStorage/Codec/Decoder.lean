import SimStorage.Codec.Text

namespace SimStorage.Codec

/-!
# Cursor decoders and their round trips

A decoder reads a value from a cursor over a byte string.  `Decodes` says that
a decoder recovers a value from exactly the given bytes, whatever follows them;
it composes along the decoder monad, so a round trip for a record is assembled
from the round trips of its fields.  `Ensures` collects what every successful
read guarantees about its value.

Positions are bounded by the machine word: advancing past it is an error of its
own, distinct from running out of bytes.
-/

/-- Positions and lengths are below this bound. -/
def wordBound : Nat :=
  2 ^ 64

/-- A read position and the bytes from there on. -/
structure Cursor where
  position : Nat
  rest : Bytes
  deriving Repr, DecidableEq

/-- A reader that consumes bytes from a cursor or fails. -/
def Decoder (ε α : Type) : Type :=
  Cursor → Except ε (α × Cursor)

variable {ε α β : Type}

namespace Decoder

/-- Sequential reading. -/
def bind
    (first : Decoder ε α)
    (next : α → Decoder ε β) :
    Decoder ε β :=
  fun cursor =>
    match first cursor with
    | .error error => .error error
    | .ok (value, later) => next value later

instance : Monad (Decoder ε) where
  pure value := fun cursor => .ok (value, cursor)
  bind := bind

/-- Sequential reading is associative. -/
theorem bind_assoc
    {γ : Type}
    (first : Decoder ε α)
    (second : α → Decoder ε β)
    (third : β → Decoder ε γ) :
    (first >>= second) >>= third =
      first >>= fun value => second value >>= third := by
  funext cursor
  change Decoder.bind (Decoder.bind first second) third cursor =
    Decoder.bind first (fun value => Decoder.bind (second value) third) cursor
  unfold Decoder.bind
  cases first cursor <;> rfl

/-- Refuse the input. -/
def fail (error : ε) : Decoder ε α :=
  fun _ => .error error

/-- Embed a check that reads nothing. -/
def lift : Except ε α → Decoder ε α
  | .ok value => pure value
  | .error error => fail error

/--
Read exactly `length` bytes.  `overflow` reports a position past the machine
word and `truncated` reports missing bytes.
-/
def take (overflow truncated : ε) (length : Nat) : Decoder ε Bytes :=
  fun cursor =>
    if wordBound ≤ cursor.position + length then
      .error overflow
    else if cursor.rest.length < length then
      .error truncated
    else
      .ok (cursor.rest.take length,
        ⟨cursor.position + length, cursor.rest.drop length⟩)

/-- Succeed only at the end of the input. -/
def finish (trailing : ε) : Decoder ε Unit :=
  fun cursor =>
    if cursor.rest.isEmpty then .ok ((), cursor) else .error trailing

/-- Read `count` values one after another. -/
def many (item : Decoder ε α) : Nat → Decoder ε (List α)
  | 0 => pure []
  | count + 1 => do
      let head ← item
      let tail ← many item count
      return head :: tail

/-- Read a whole byte string from its start. -/
def run (decoder : Decoder ε α) (bytes : Bytes) : Except ε α :=
  (decoder ⟨0, bytes⟩).map Prod.fst

end Decoder

/-- `decoder` recovers `value` from exactly `bytes`, whatever follows. -/
def Decodes (decoder : Decoder ε α) (bytes : Bytes) (value : α) : Prop :=
  ∀ position rest,
    position + bytes.length < wordBound →
    decoder ⟨position, bytes ++ rest⟩ =
      .ok (value, ⟨position + bytes.length, rest⟩)

namespace Decodes

/-- Reading nothing recovers a value from no bytes. -/
theorem pure
    (value : α) :
    Decodes (pure value : Decoder ε α) [] value := by
  intro position rest _
  rfl

/-- Consecutive reads recover from concatenated bytes. -/
theorem bind
    {first : Decoder ε α}
    {next : α → Decoder ε β}
    {leading trailing : Bytes}
    {value : α} {result : β}
    (head : Decodes first leading value)
    (tail : Decodes (next value) trailing result) :
    Decodes (first >>= next) (leading ++ trailing) result := by
  intro position rest inWord
  simp only [List.length_append] at inWord ⊢
  have readHead := head position (trailing ++ rest) (by omega)
  have readTail := tail (position + leading.length) rest (by omega)
  change Decoder.bind first next _ = _
  simp only [Decoder.bind, List.append_assoc, readHead, readTail,
    Nat.add_assoc]

/-- A read followed by steps that consume nothing. -/
theorem bind_done
    {first : Decoder ε α}
    {next : α → Decoder ε β}
    {bytes : Bytes}
    {value : α} {result : β}
    (head : Decodes first bytes value)
    (tail : Decodes (next value) [] result) :
    Decodes (first >>= next) bytes result := by
  have joined := bind head tail
  rwa [List.append_nil] at joined

/-- A check that passes may precede a read. -/
theorem lift_bind
    {check : Except ε α}
    {next : α → Decoder ε β}
    {bytes : Bytes}
    {value : α} {result : β}
    (passes : check = .ok value)
    (tail : Decodes (next value) bytes result) :
    Decodes (Decoder.lift check >>= next) bytes result := by
  subst passes
  exact tail

/-- Post-processing of a read value. -/
theorem lift
    {check : Except ε α}
    {value : α}
    (passes : check = .ok value) :
    Decodes (Decoder.lift check) [] value := by
  subst passes
  exact pure value

/-- A fixed-length read recovers bytes of that length. -/
theorem take
    {overflow truncated : ε}
    {bytes : Bytes}
    {length : Nat}
    (size : bytes.length = length) :
    Decodes (Decoder.take overflow truncated length) bytes bytes := by
  intro position rest inWord
  subst size
  have inside : ¬ wordBound ≤ position + bytes.length := by omega
  simp [Decoder.take, inside]

/-- Repeated reads recover a list from the concatenation of its items. -/
theorem many
    {item : Decoder ε α}
    {encoded : List Bytes}
    {values : List α}
    (each : List.Forall₂ (fun bytes value => Decodes item bytes value)
      encoded values) :
    Decodes (Decoder.many item values.length) encoded.flatten values := by
  induction each with
  | nil => exact pure []
  | @cons bytes value encoded values head _ inductionHypothesis =>
      have shape :
          (bytes :: encoded).flatten = bytes ++ (encoded.flatten ++ []) := by
        simp
      rw [shape]
      exact bind head (bind inductionHypothesis (pure (value :: values)))

/-- A decoder followed by an end check accepts exactly the encoded bytes. -/
theorem run_finish
    {decoder : Decoder ε α}
    {bytes : Bytes}
    {value : α} {result : β}
    (trailing : ε)
    (next : α → Decoder ε β)
    (read : Decodes decoder bytes value)
    (inWord : bytes.length < wordBound)
    (done : ∀ cursor : Cursor, next value cursor = .ok (result, cursor)) :
    Decoder.run
        (decoder >>= fun found =>
          Decoder.finish trailing >>= fun _ => next found)
        bytes =
      .ok result := by
  have readAll := read 0 [] (by omega)
  rw [List.append_nil] at readAll
  change (Decoder.bind decoder _ ⟨0, bytes⟩).map Prod.fst = _
  simp only [Decoder.bind, readAll]
  change ((Decoder.bind (Decoder.finish trailing) _ _).map Prod.fst) = _
  simp [Decoder.bind, Decoder.finish, done, Except.map]

end Decodes

/-- Every value that `decoder` reads satisfies `property`. -/
def Ensures (decoder : Decoder ε α) (property : α → Prop) : Prop :=
  ∀ cursor value later,
    decoder cursor = .ok (value, later) → property value

namespace Ensures

theorem pure
    {property : α → Prop}
    {value : α}
    (holds : property value) :
    Ensures (pure value : Decoder ε α) property := by
  rintro cursor _ later ⟨⟩
  exact holds

theorem fail
    {property : α → Prop}
    (error : ε) :
    Ensures (Decoder.fail error : Decoder ε α) property := by
  intro cursor value later impossible
  cases impossible

theorem lift
    {property : α → Prop}
    {check : Except ε α}
    (holds : ∀ value, check = .ok value → property value) :
    Ensures (Decoder.lift check) property := by
  cases check with
  | ok value => exact pure (holds value rfl)
  | error error => exact fail error

theorem bind
    {first : Decoder ε α}
    {next : α → Decoder ε β}
    {property : α → Prop}
    {final : β → Prop}
    (head : Ensures first property)
    (tail : ∀ value, property value → Ensures (next value) final) :
    Ensures (first >>= next) final := by
  intro cursor result later accepted
  change Decoder.bind first next cursor = _ at accepted
  unfold Decoder.bind at accepted
  split at accepted
  · cases accepted
  · next value middle readHead =>
      exact tail value (head cursor value middle readHead) middle result later
        accepted

theorem trivial
    (decoder : Decoder ε α) :
    Ensures decoder fun _ => True :=
  fun _ _ _ _ => True.intro

/-- A fixed-length read returns that many bytes. -/
theorem take
    {overflow truncated : ε}
    {length : Nat} :
    Ensures (Decoder.take overflow truncated length)
      (fun bytes => bytes.length = length) := by
  intro cursor value later accepted
  unfold Decoder.take at accepted
  split at accepted
  · cases accepted
  · split at accepted
    · cases accepted
    · next enough =>
        cases accepted
        rw [List.length_take]
        omega

/-- Whatever reading ensures holds of the result of a whole run. -/
theorem run
    {decoder : Decoder ε α}
    {property : α → Prop}
    (ensures : Ensures decoder property)
    {bytes : Bytes} {value : α}
    (accepted : decoder.run bytes = .ok value) :
    property value := by
  unfold Decoder.run at accepted
  cases read : decoder ⟨0, bytes⟩ with
  | error error => simp [read, Except.map] at accepted
  | ok found =>
      rcases found with ⟨result, later⟩
      simp only [read, Except.map, Except.ok.injEq] at accepted
      subst accepted
      exact ensures _ _ _ read

end Ensures

/-- A successful read consumes at most `bound` bytes. -/
def Consumes (decoder : Decoder ε α) (bound : Nat) : Prop :=
  ∀ cursor value later,
    decoder cursor = .ok (value, later) →
    cursor.rest.length ≤ later.rest.length + bound

namespace Consumes

theorem pure
    (value : α) :
    Consumes (pure value : Decoder ε α) 0 := by
  rintro cursor _ later ⟨⟩
  exact Nat.le_refl _

theorem fail
    (error : ε)
    (bound : Nat) :
    Consumes (Decoder.fail error : Decoder ε α) bound := by
  intro cursor value later impossible
  cases impossible

theorem lift
    (check : Except ε α) :
    Consumes (Decoder.lift check) 0 := by
  cases check with
  | ok value => exact pure value
  | error error => exact fail error 0

theorem mono
    {decoder : Decoder ε α}
    {bound larger : Nat}
    (consumes : Consumes decoder bound)
    (below : bound ≤ larger) :
    Consumes decoder larger := by
  intro cursor value later accepted
  have used := consumes cursor value later accepted
  omega

theorem take
    (overflow truncated : ε)
    (length : Nat) :
    Consumes (Decoder.take overflow truncated length) length := by
  intro cursor value later accepted
  unfold Decoder.take at accepted
  split at accepted
  · cases accepted
  · split at accepted
    · cases accepted
    · cases accepted
      rw [List.length_drop]
      omega

theorem bind
    {first : Decoder ε α}
    {next : α → Decoder ε β}
    {leading trailing : Nat}
    (head : Consumes first leading)
    (tail : ∀ value, Consumes (next value) trailing) :
    Consumes (first >>= next) (leading + trailing) := by
  intro cursor result later accepted
  change Decoder.bind first next cursor = _ at accepted
  unfold Decoder.bind at accepted
  split at accepted
  · cases accepted
  · next value middle readHead =>
      have used := head cursor value middle readHead
      have usedRest := tail value middle result later accepted
      omega

/-- An input read to its end is no longer than what reading consumes. -/
theorem run_finish
    {decoder : Decoder ε α}
    {next : α → Decoder ε β}
    {trailing : ε}
    {bound : Nat} {bytes : Bytes} {result : β}
    (consumes : Consumes decoder bound)
    (accepted : Decoder.run
      (decoder >>= fun found =>
        Decoder.finish trailing >>= fun _ => next found) bytes =
      .ok result) :
    bytes.length ≤ bound := by
  unfold Decoder.run at accepted
  change (Decoder.bind decoder _ _).map _ = _ at accepted
  unfold Decoder.bind at accepted
  cases read : decoder ⟨0, bytes⟩ with
  | error error => simp [read, Except.map] at accepted
  | ok found =>
      rcases found with ⟨value, later⟩
      have used := consumes _ _ _ read
      rw [read] at accepted
      change (Decoder.bind (Decoder.finish trailing) _ later).map _ = _
        at accepted
      unfold Decoder.bind Decoder.finish at accepted
      by_cases ended : later.rest.isEmpty
      · simpa [List.isEmpty_iff.mp ended] using used
      · simp [ended, Except.map] at accepted

end Consumes

/-- The `width` low-order base-256 digits of a number, most significant first. -/
def bigEndian : Nat → Nat → Bytes
  | 0, _ => []
  | width + 1, value =>
      bigEndian width (value / 256) ++ [UInt8.ofNat (value % 256)]

/-- The number with the given base-256 digits, most significant first. -/
def fromBigEndian (bytes : Bytes) : Nat :=
  bytes.foldl (fun value byte => value * 256 + byte.toNat) 0

@[simp] theorem bigEndian_length
    (width value : Nat) :
    (bigEndian width value).length = width := by
  induction width generalizing value with
  | zero => rfl
  | succ width inductionHypothesis =>
      simp [bigEndian, inductionHypothesis]

/-- Big-endian digits determine the number modulo the width. -/
theorem fromBigEndian_bigEndian
    (width value : Nat) :
    fromBigEndian (bigEndian width value) = value % 256 ^ width := by
  induction width generalizing value with
  | zero => simp [bigEndian, fromBigEndian, Nat.mod_one]
  | succ width inductionHypothesis =>
      have digit : (UInt8.ofNat (value % 256)).toNat = value % 256 := by
        simp
      have split : value % 256 ^ (width + 1) =
          value / 256 % 256 ^ width * 256 + value % 256 := by
        rw [Nat.pow_succ', Nat.mod_mul]
        omega
      have leading := inductionHypothesis (value / 256)
      unfold fromBigEndian at leading
      simp only [fromBigEndian, bigEndian, List.foldl_append, leading,
        List.foldl_cons, List.foldl_nil, digit, split]

/-- The eight big-endian bytes of a 64-bit word. -/
def be64 (value : UInt64) : Bytes :=
  bigEndian 8 value.toNat

/-- The 64-bit word with the given big-endian bytes. -/
def fromBe64 (bytes : Bytes) : UInt64 :=
  UInt64.ofNat (fromBigEndian bytes)

/-- The four big-endian bytes of a 32-bit word. -/
def be32 (value : UInt32) : Bytes :=
  bigEndian 4 value.toNat

/-- The 32-bit word with the given big-endian bytes. -/
def fromBe32 (bytes : Bytes) : UInt32 :=
  UInt32.ofNat (fromBigEndian bytes)

@[simp] theorem be64_length
    (value : UInt64) :
    (be64 value).length = 8 :=
  bigEndian_length 8 _

@[simp] theorem be32_length
    (value : UInt32) :
    (be32 value).length = 4 :=
  bigEndian_length 4 _

@[simp] theorem fromBe64_be64
    (value : UInt64) :
    fromBe64 (be64 value) = value := by
  have small : value.toNat < 256 ^ 8 := value.toNat_lt
  rw [fromBe64, be64, fromBigEndian_bigEndian, Nat.mod_eq_of_lt small]
  exact UInt64.ofNat_toNat

@[simp] theorem fromBe32_be32
    (value : UInt32) :
    fromBe32 (be32 value) = value := by
  have small : value.toNat < 256 ^ 4 := value.toNat_lt
  rw [fromBe32, be32, fromBigEndian_bigEndian, Nat.mod_eq_of_lt small]
  exact UInt32.ofNat_toNat

end SimStorage.Codec
