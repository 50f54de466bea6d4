import SimStorage.Kernel.Datum

namespace SimStorage.Sealed

/-!
# Sealed objects and blinded names

A value is sealed as a versioned object: a nonce and the ciphertext of a payload
that carries the logical key and the portable text of the value.  The associated
data binds it to a lane, a generation, a physical name and a metadata class, and
the physical name is a keyed digest of the logical one.
-/

open Codec

/-- `SealedError`. -/
inductive SealedError where
  | grantUnavailable
  | authentication
  | nonceReuse
  | nonceBudgetExhausted
  | oversized
  | unsupportedValue
  deriving Repr, DecidableEq

/-- The text of an error. -/
def SealedError.text : SealedError → String
  | .grantUnavailable => "sealed object grant unavailable"
  | .authentication => "sealed object authentication failed"
  | .nonceReuse => "sealed object nonce reuse refused"
  | .nonceBudgetExhausted => "sealed object nonce budget exhausted"
  | .oversized => "sealed object size limit exceeded"
  | .unsupportedValue => "sealed table accepts portable data values only"

/-- `VERSION`: the object format version. -/
def version : UInt8 :=
  1

/-- `SUITE_CHACHA20_POLY1305`: the suite identifier. -/
def suiteChacha20Poly1305 : UInt8 :=
  1

/-- `NONCE_LEN`. -/
def nonceLen : Nat :=
  12

/-- `TAG_LEN`. -/
def tagLen : Nat :=
  16

/-- `HEADER_LEN`. -/
def headerLen : Nat :=
  2 + nonceLen + 4

/-- A nonce. -/
abbrev Nonce :=
  { bytes : Bytes // bytes.length = nonceLen }

/-- The bytes of one purpose-separated key. -/
abbrev KeyBytes :=
  { bytes : Bytes // bytes.length = 32 }

/-- The kernel's evaluation error. -/
structure EvalError where
  text : String
  deriving Repr, DecidableEq

/--
What the sealed table takes from other crates: values and their expressions,
the portable text of an expression, the keyed digest and the cipher.  Sealing
returns the ciphertext and its tag; opening takes them joined.
-/
structure Primitives (Value Expr : Type) where
  asExpr : Value → Except EvalError Expr
  expr : Expr → Except EvalError Value
  bytes : Bytes → Except EvalError Value
  nil : Except EvalError Value
  asBytes : Expr → Option Bytes
  encodePortable : Expr → Option String
  decodePortable : String → Option Expr
  hmac : KeyBytes → Bytes → Bytes
  aeadSeal : KeyBytes → Nonce → (aad plaintext : Bytes) → Option (Bytes × Bytes)
  aeadOpen : KeyBytes → Nonce → (aad joined : Bytes) → Option Bytes

section Binding

/-- `Binding`: what an object is bound to. -/
structure Binding where
  lane : Bytes
  generation : UInt64
  physicalKey : String
  metadataClass : String
  deriving Repr, DecidableEq

/-- `put_bytes`: a length and the bytes. -/
def putBytes (bytes : Bytes) : Bytes :=
  be64 (UInt64.ofNat bytes.length) ++ bytes

/-- `Binding::aad`. -/
def Binding.aad (binding : Binding) : Bytes :=
  utf8 "sim-table-sealed" ++ [0, version, suiteChacha20Poly1305] ++
    (putBytes binding.lane ++ (be64 binding.generation ++
      (putBytes (utf8 binding.physicalKey) ++
        putBytes (utf8 binding.metadataClass))))

theorem length_of_be64
    {first second : Nat}
    (same : be64 (UInt64.ofNat first) = be64 (UInt64.ofNat second)) :
    first % 2 ^ 64 = second % 2 ^ 64 := by
  have words := congrArg fromBe64 same
  simp only [fromBe64_be64] at words
  simpa using congrArg UInt64.toNat words

/-- The bound data determines the binding. -/
theorem Binding.aad_injective
    {first second : Binding}
    (firstLane : first.lane.length < 2 ^ 63)
    (secondLane : second.lane.length < 2 ^ 63)
    (firstClass : (utf8 first.metadataClass).length < 2 ^ 63)
    (secondClass : (utf8 second.metadataClass).length < 2 ^ 63)
    (same : first.aad = second.aad) :
    first = second := by
  have framed := (List.append_inj same rfl).2
  simp only [putBytes, List.append_assoc] at framed
  obtain ⟨laneSize, framed⟩ := List.append_inj framed (by simp)
  have laneLengths := length_of_be64 laneSize
  obtain ⟨lane, framed⟩ := List.append_inj framed (by omega)
  obtain ⟨generation, framed⟩ := List.append_inj framed (by simp)
  obtain ⟨nameSize, framed⟩ := List.append_inj framed (by simp)
  have nameLengths := length_of_be64 nameSize
  have total := congrArg List.length framed
  simp only [List.length_append, be64_length] at total
  obtain ⟨name, framed⟩ := List.append_inj framed (by omega)
  have metadata := (List.append_inj framed (by simp)).2
  have generations := congrArg fromBe64 generation
  simp only [fromBe64_be64] at generations
  cases first
  cases second
  simp only [Binding.mk.injEq]
  exact ⟨lane, generations, utf8_injective name, utf8_injective metadata⟩

end Binding

section Objects

/-- `SealedObject`. -/
structure SealedObject where
  suite : UInt8
  nonce : Nonce
  ciphertextAndTag : Bytes
  deriving Repr, DecidableEq

/-- `SealedObject::encode`. -/
def SealedObject.encode (object : SealedObject) : Except SealedError Bytes :=
  if object.ciphertextAndTag.length < 2 ^ 32 then
    .ok ([version, object.suite] ++ (object.nonce.val ++
      (be32 (UInt32.ofNat object.ciphertextAndTag.length) ++
        object.ciphertextAndTag)))
  else
    .error .oversized

/-- `SealedObject::decode`. -/
def SealedObject.decode (bytes : Bytes) (maxObjectBytes : Nat) :
    Except SealedError SealedObject :=
  if maxObjectBytes < bytes.length then
    .error .oversized
  else if bytes.length < headerLen + tagLen then
    .error .authentication
  else
    match bytes with
    | format :: suite :: rest =>
        if format ≠ version ∨ suite ≠ suiteChacha20Poly1305 then
          .error .authentication
        else if sized : (rest.take nonceLen).length = nonceLen then
          let length := (fromBe32 ((rest.drop nonceLen).take 4)).toNat
          if length < tagLen ∨ headerLen + length ≠ bytes.length then
            .error .authentication
          else
            .ok ⟨suite, ⟨rest.take nonceLen, sized⟩, bytes.drop headerLen⟩
        else
          .error .authentication
    | _ => .error .authentication

theorem SealedObject.encode_eq_ok
    {object : SealedObject}
    (short : object.ciphertextAndTag.length < 2 ^ 32) :
    ∃ bytes, object.encode = .ok bytes ∧
      bytes.length = headerLen + object.ciphertextAndTag.length := by
  refine ⟨_, if_pos short, ?_⟩
  simp only [List.length_append, List.length_cons, List.length_nil,
    be32_length, object.nonce.property, headerLen]
  omega

/-- An encoded object is read back. -/
theorem SealedObject.decode_encode
    {object : SealedObject} {bytes : Bytes} {maxObjectBytes : Nat}
    (encoded : object.encode = .ok bytes)
    (isSuite : object.suite = suiteChacha20Poly1305)
    (tagged : tagLen ≤ object.ciphertextAndTag.length)
    (sized : bytes.length ≤ maxObjectBytes) :
    SealedObject.decode bytes maxObjectBytes = .ok object := by
  rcases object with ⟨suite, ⟨nonce, nonceSize⟩, ciphertext⟩
  simp only at isSuite tagged
  subst isSuite
  rw [encode] at encoded
  split at encoded
  swap
  · cases encoded
  next short =>
  cases encoded
  have word : (UInt32.ofNat ciphertext.length).toNat = ciphertext.length :=
    UInt32.toNat_ofNat_of_lt' short
  have total : (nonce ++ (be32 (UInt32.ofNat ciphertext.length) ++
      ciphertext)).length + 2 = headerLen + ciphertext.length := by
    simp only [List.length_append, be32_length, nonceSize, headerLen]
    omega
  have header : (nonce ++ (be32 (UInt32.ofNat ciphertext.length) ++
      ciphertext)).take nonceLen = nonce := by
    rw [← nonceSize, List.take_left]
  have size : ((nonce ++ (be32 (UInt32.ofNat ciphertext.length) ++
      ciphertext)).drop nonceLen).take 4 =
        be32 (UInt32.ofNat ciphertext.length) := by
    rw [← nonceSize, List.drop_left]
    exact List.take_left' (be32_length _)
  have body : (version :: suiteChacha20Poly1305 :: (nonce ++
      (be32 (UInt32.ofNat ciphertext.length) ++ ciphertext))).drop headerLen =
        ciphertext := by
    have skip : (nonce ++ be32 (UInt32.ofNat ciphertext.length)).length =
        nonceLen + 4 := by
      simp [nonceSize]
    change (nonce ++ (be32 _ ++ ciphertext)).drop (nonceLen + 4) = ciphertext
    rw [← List.append_assoc, ← skip, List.drop_left]
  simp only [List.cons_append, List.nil_append, List.length_cons] at sized ⊢
  simp only [decode, List.length_cons]
  rw [if_neg (by omega), if_neg (by omega), if_neg (by simp),
    dif_pos (by rw [header, nonceSize]), if_neg]
  · simp only [header, body]
  · rw [size, fromBe32_be32, word]
    omega

/-- What an object says does not depend on the size limit. -/
theorem SealedObject.decode_unique
    {bytes : Bytes} {max limit : Nat} {first second : SealedObject}
    (read : SealedObject.decode bytes max = .ok first)
    (again : SealedObject.decode bytes limit = .ok second) :
    first = second := by
  have small {bound : Nat} {object : SealedObject}
      (accepted : SealedObject.decode bytes bound = .ok object) :
      ¬ bound < bytes.length := by
    intro large
    rw [decode.eq_def, if_pos large] at accepted
    cases accepted
  rw [decode.eq_def, if_neg (small read)] at read
  rw [decode.eq_def, if_neg (small again)] at again
  exact Except.ok.inj (read.symm.trans again)

end Objects

section Payloads

variable {Value Expr : Type} (primitives : Primitives Value Expr)

/-- `codec::encode`: the logical key and the portable text of a value. -/
def encodePayload (key : String) (expr : Expr) (max : Nat) :
    Except SealedError Bytes :=
  match primitives.encodePortable expr with
  | none => .error .unsupportedValue
  | some value =>
      if (utf8 key).length < 2 ^ 32 then
        let out := be32 (UInt32.ofNat (utf8 key).length) ++
          (utf8 key ++ utf8 value)
        if max < out.length then .error .oversized else .ok out
      else
        .error .oversized

/-- `codec::decode`. -/
def decodePayload (bytes : Bytes) (max : Nat) :
    Except SealedError (String × Expr) :=
  if max < bytes.length ∨ bytes.length < 4 then
    .error .authentication
  else
    let split := 4 + (fromBe32 (bytes.take 4)).toNat
    if bytes.length < split then
      .error .authentication
    else
      match fromUtf8 ((bytes.take split).drop 4), fromUtf8 (bytes.drop split) with
      | some key, some text =>
          match primitives.decodePortable text with
          | some expr => .ok (key, expr)
          | none => .error .authentication
      | _, _ => .error .authentication

variable {primitives}

theorem encodePayload_eq_ok
    {key : String} {expr : Expr} {max : Nat} {text : String}
    (portable : primitives.encodePortable expr = some text)
    (short : (utf8 key).length < 2 ^ 32)
    (sized : 4 + (utf8 key).length + (utf8 text).length ≤ max) :
    ∃ bytes, encodePayload primitives key expr max = .ok bytes ∧
      bytes.length = 4 + (utf8 key).length + (utf8 text).length := by
  have length : (be32 (UInt32.ofNat (utf8 key).length) ++
      (utf8 key ++ utf8 text)).length =
        4 + (utf8 key).length + (utf8 text).length := by
    simp only [List.length_append, be32_length]
    omega
  refine ⟨_, ?_, length⟩
  simp only [encodePayload, portable, short, if_true]
  rw [if_neg (by omega)]

/-- An encoded payload carries a portable text. -/
theorem encodePayload_portable
    {key : String} {expr : Expr} {max : Nat} {bytes : Bytes}
    (encoded : encodePayload primitives key expr max = .ok bytes) :
    ∃ text, primitives.encodePortable expr = some text := by
  cases text : primitives.encodePortable expr with
  | none => simp [encodePayload, text] at encoded
  | some value => exact ⟨value, rfl⟩

/-- An encoded payload is read back when portable texts are. -/
theorem decodePayload_encodePayload
    (portable : ∀ expr text, primitives.encodePortable expr = some text →
      primitives.decodePortable text = some expr)
    {key : String} {expr : Expr} {max : Nat} {bytes : Bytes}
    (encoded : encodePayload primitives key expr max = .ok bytes) :
    decodePayload primitives bytes max = .ok (key, expr) := by
  cases text : primitives.encodePortable expr with
  | none => simp [encodePayload, text] at encoded
  | some value =>
      simp only [encodePayload, text] at encoded
      split at encoded
      swap
      · cases encoded
      next short =>
      split at encoded
      · cases encoded
      next sized =>
      cases encoded
      have word : (UInt32.ofNat (utf8 key).length).toNat = (utf8 key).length :=
        UInt32.toNat_ofNat_of_lt' short
      have size : (be32 (UInt32.ofNat (utf8 key).length) ++
          (utf8 key ++ utf8 value)).take 4 =
            be32 (UInt32.ofNat (utf8 key).length) :=
        List.take_left' (be32_length _)
      have split : ((be32 (UInt32.ofNat (utf8 key).length) ++
          utf8 key)).length = 4 + (utf8 key).length := by
        simp
      have name : ((be32 (UInt32.ofNat (utf8 key).length) ++
          (utf8 key ++ utf8 value)).take (4 + (utf8 key).length)).drop 4 =
            utf8 key := by
        rw [← List.append_assoc, ← split, List.take_left]
        exact List.drop_left' (be32_length _)
      have body : (be32 (UInt32.ofNat (utf8 key).length) ++
          (utf8 key ++ utf8 value)).drop (4 + (utf8 key).length) =
            utf8 value := by
        rw [← List.append_assoc, ← split, List.drop_left]
      have long : ¬ (be32 (UInt32.ofNat (utf8 key).length) ++
          (utf8 key ++ utf8 value)).length < 4 + (utf8 key).length := by
        simp only [List.length_append, be32_length]
        omega
      have framed : ¬ (max < (be32 (UInt32.ofNat (utf8 key).length) ++
          (utf8 key ++ utf8 value)).length ∨
            (be32 (UInt32.ofNat (utf8 key).length) ++
              (utf8 key ++ utf8 value)).length < 4) := by
        simp only [List.length_append, be32_length] at sized ⊢
        omega
      simp only [decodePayload, framed, if_false, size, fromBe32_be32, word,
        long, name, body, fromUtf8_utf8, portable expr value text]

/-- What a payload says does not depend on the size limit. -/
theorem decodePayload_unique
    {bytes : Bytes} {max limit : Nat} {first second : String × Expr}
    (read : decodePayload primitives bytes max = .ok first)
    (again : decodePayload primitives bytes limit = .ok second) :
    first = second := by
  by_cases short : max < bytes.length ∨ bytes.length < 4
  · simp [decodePayload, short] at read
  by_cases brief : limit < bytes.length ∨ bytes.length < 4
  · simp [decodePayload, brief] at again
  rw [decodePayload, if_neg short] at read
  rw [decodePayload, if_neg brief] at again
  exact Except.ok.inj (read.symm.trans again)

end Payloads

section Names

variable {Value Expr : Type} (primitives : Primitives Value Expr)

/-- `blind_key`: the keyed digest of a logical key. -/
def blindKey (key : KeyBytes) (lane : Bytes) (logical : String) : String :=
  hex (primitives.hmac key
    (utf8 "sim-table-sealed/key/v1" ++ [0] ++ (putBytes lane ++ utf8 logical)))

/-- `blind_lane`: the keyed digest of a lane. -/
def blindLane (key : KeyBytes) (lane : Bytes) : String :=
  hex (primitives.hmac key
    (utf8 "sim-table-sealed/lane/v1" ++ [0] ++ putBytes lane))

/-- The physical name of a logical key in a lane. -/
def physicalName (key : KeyBytes) (lane : Bytes) (logical : String) : String :=
  blindLane primitives key lane ++ "-" ++ blindKey primitives key lane logical

variable {primitives}

theorem hex_injective
    {first second : Bytes}
    (same : hex first = hex second) :
    first = second := by
  have read := congrArg unhex same
  simpa using read

/-- A physical name is a lane digest and a key digest around a dash. -/
theorem splitOnce_physicalName
    (key : KeyBytes) (lane : Bytes) (logical : String) :
    splitOnce '-' (physicalName primitives key lane logical) =
      some (blindLane primitives key lane,
        blindKey primitives key lane logical) :=
  splitOnce_of_toList (by simp [physicalName]) (dash_not_mem_hex _)

/-- With an injective digest, a physical name determines what it stands for. -/
theorem physicalName_injective
    (injective : ∀ key other message query,
      primitives.hmac key message = primitives.hmac other query →
        key = other ∧ message = query)
    {key other : KeyBytes} {lane away : Bytes} {logical query : String}
    (same : physicalName primitives key lane logical =
      physicalName primitives other away query) :
    key = other ∧ lane = away ∧ logical = query := by
  have parts := congrArg (splitOnce '-') same
  simp only [splitOnce_physicalName, Option.some.injEq, Prod.mk.injEq] at parts
  obtain ⟨sameKey, lanes⟩ := injective _ _ _ _ (hex_injective parts.1)
  have sized := (List.append_inj lanes rfl).2
  have sameLane := (List.append_inj sized (by simp)).2
  subst sameLane
  have names := (injective _ _ _ _ (hex_injective parts.2)).2
  have framed := (List.append_inj names rfl).2
  exact ⟨sameKey, rfl, utf8_injective (List.append_cancel_left framed)⟩

end Names

end SimStorage.Sealed
