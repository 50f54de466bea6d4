import SimStorage.Codec.Decoder
import Mathlib.Data.List.Induction

namespace SimStorage.Codec

/-!
# What a read has consumed

`Spelling` relates the value that a decoder reads to the bytes that it took for
it.  It composes along the decoder monad like `Decodes`, and where the relation
is that the bytes are the encoding of the value, an input that is read to its
end is that encoding.
-/

variable {ε α β : Type}

/-- Whatever `decoder` reads is related to the bytes that it consumes. -/
def Spelling (decoder : Decoder ε α) (relation : α → Bytes → Prop) : Prop :=
  ∀ cursor value later, decoder cursor = .ok (value, later) →
    ∃ bytes, cursor.rest = bytes ++ later.rest ∧ relation value bytes

namespace Spelling

variable {relation : α → Bytes → Prop} {final : β → Bytes → Prop}

theorem pure
    {value : α}
    (holds : relation value []) :
    Spelling (pure value : Decoder ε α) relation := by
  rintro cursor _ later ⟨⟩
  exact ⟨[], rfl, holds⟩

theorem fail
    (error : ε) :
    Spelling (Decoder.fail error : Decoder ε α) relation := by
  intro cursor value later impossible
  cases impossible

theorem lift
    {check : Except ε α}
    (holds : ∀ value, check = .ok value → relation value []) :
    Spelling (Decoder.lift check) relation := by
  cases check with
  | ok value => exact pure (holds value rfl)
  | error error => exact fail error

/-- One read after the other consumes the bytes of both. -/
theorem bind
    {first : Decoder ε α}
    {next : α → Decoder ε β}
    (head : Spelling first relation)
    (tail : ∀ value leading, relation value leading →
      Spelling (next value) fun result trailing =>
        final result (leading ++ trailing)) :
    Spelling (first >>= next) final := by
  intro cursor result later accepted
  change Decoder.bind first next cursor = _ at accepted
  unfold Decoder.bind at accepted
  split at accepted
  · cases accepted
  · next value middle readHead =>
      obtain ⟨leading, taken, related⟩ := head cursor value middle readHead
      obtain ⟨trailing, takenLater, holds⟩ :=
        tail value leading related middle result later accepted
      refine ⟨leading ++ trailing, ?_, holds⟩
      rw [taken, takenLater, List.append_assoc]

/-- A check before a read consumes nothing. -/
theorem lift_bind
    {check : Except ε α}
    {next : α → Decoder ε β}
    (tail : ∀ value, check = .ok value → Spelling (next value) final) :
    Spelling (Decoder.lift check >>= next) final := by
  have checked : Spelling (Decoder.lift check)
      fun value bytes => check = .ok value ∧ bytes = [] :=
    lift fun value passed => ⟨passed, rfl⟩
  refine .bind checked ?_
  rintro value _ ⟨passed, rfl⟩
  exact tail value passed

/-- A fixed-length read returns the bytes that it consumes. -/
theorem take
    {overflow truncated : ε} {length : Nat} :
    Spelling (Decoder.take overflow truncated length)
      fun value bytes => value = bytes ∧ bytes.length = length := by
  intro cursor value later accepted
  have sized := Ensures.take cursor value later accepted
  unfold Decoder.take at accepted
  split at accepted
  · cases accepted
  · split at accepted
    · cases accepted
    · cases accepted
      exact ⟨cursor.rest.take length, (List.take_append_drop _ _).symm, rfl,
        sized⟩

/-- An input that is read to its end is the encoding of what was read. -/
theorem run_finish
    {decoder : Decoder ε α}
    {next : α → Decoder ε α}
    {encode : α → Bytes}
    {trailing : ε} {bytes : Bytes} {result : α}
    (spelling : Spelling decoder fun value bytes => bytes = encode value)
    (keeps : ∀ value cursor later,
      next value cursor = .ok (result, later) → value = result)
    (accepted : Decoder.run
      (decoder >>= fun found =>
        Decoder.finish trailing >>= fun _ => next found) bytes =
      .ok result) :
    encode result = bytes := by
  unfold Decoder.run at accepted
  change (Decoder.bind decoder _ _).map _ = _ at accepted
  unfold Decoder.bind at accepted
  cases read : decoder ⟨0, bytes⟩ with
  | error error => simp [read, Except.map] at accepted
  | ok found =>
      rcases found with ⟨value, later⟩
      obtain ⟨consumed, taken, spelt⟩ := spelling _ _ _ read
      rw [read] at accepted
      change (Decoder.bind (Decoder.finish trailing) _ later).map _ = _
        at accepted
      unfold Decoder.bind Decoder.finish at accepted
      by_cases ended : later.rest.isEmpty
      · rw [List.isEmpty_iff.mp ended, List.append_nil] at taken
        change bytes = consumed at taken
        rw [if_pos ended] at accepted
        cases done : next value later with
        | error error => simp [done, Except.map] at accepted
        | ok last =>
            rcases last with ⟨again, rest⟩
            simp only [done, Except.map, Except.ok.injEq] at accepted
            rw [← keeps value later rest (accepted ▸ done), taken, spelt]
      · simp [ended, Except.map] at accepted

end Spelling

section Words

/-- Big-endian bytes are the digits of their number. -/
theorem bigEndian_fromBigEndian
    (bytes : Bytes) :
    bigEndian bytes.length (fromBigEndian bytes) = bytes := by
  induction bytes using List.reverseRecOn with
  | nil => rfl
  | append_singleton bytes last inductionHypothesis =>
      have small : last.toNat < 256 := last.toNat_lt
      have value : fromBigEndian (bytes ++ [last]) =
          fromBigEndian bytes * 256 + last.toNat := by
        simp [fromBigEndian]
      have quotient : (fromBigEndian bytes * 256 + last.toNat) / 256 =
          fromBigEndian bytes := by omega
      have digit : (fromBigEndian bytes * 256 + last.toNat) % 256 =
          last.toNat := by omega
      rw [List.length_append, List.length_singleton, value, bigEndian,
        quotient, digit, inductionHypothesis, UInt8.ofNat_toNat]

/-- Big-endian bytes make a number below the bound of their width. -/
theorem fromBigEndian_lt
    (bytes : Bytes) :
    fromBigEndian bytes < 256 ^ bytes.length := by
  rw [← bigEndian_fromBigEndian bytes, fromBigEndian_bigEndian,
    bigEndian_fromBigEndian]
  exact Nat.mod_lt _ (Nat.pow_pos (by decide))

theorem be64_fromBe64
    {bytes : Bytes}
    (sized : bytes.length = 8) :
    be64 (fromBe64 bytes) = bytes := by
  have small := fromBigEndian_lt bytes
  rw [sized] at small
  have value : (fromBe64 bytes).toNat = fromBigEndian bytes :=
    UInt64.toNat_ofNat_of_lt small
  rw [be64, value, ← sized, bigEndian_fromBigEndian]

theorem be32_fromBe32
    {bytes : Bytes}
    (sized : bytes.length = 4) :
    be32 (fromBe32 bytes) = bytes := by
  have small := fromBigEndian_lt bytes
  rw [sized] at small
  have value : (fromBe32 bytes).toNat = fromBigEndian bytes :=
    UInt32.toNat_ofNat_of_lt small
  rw [be32, value, ← sized, bigEndian_fromBigEndian]

end Words

end SimStorage.Codec
