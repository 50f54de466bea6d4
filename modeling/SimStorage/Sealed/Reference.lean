import SimStorage.Sealed.Sealing

namespace SimStorage.Sealed

/-!
# A reference for what the sealed table takes from other crates

Texts are the portable values, the digest keeps its message, and the cipher
keeps its plaintext and adds a tag that depends on key, nonce and bound data.
-/

open Codec Interaction

namespace Reference

/-- Values that are their own expressions. -/
inductive Sample where
  | nil
  | bytes (value : Bytes)
  | text (value : String)
  deriving Repr, DecidableEq

/-- A tag for every key, nonce and bound data. -/
abbrev Tagging :=
  KeyBytes → Nonce → Bytes → { tag : Bytes // tag.length = tagLen }

/-- The reference with a given tagging. -/
def primitives (tagging : Tagging) : Primitives Sample Sample where
  asExpr := .ok
  expr := .ok
  bytes value := .ok (.bytes value)
  nil := .ok .nil
  asBytes
    | .bytes value => some value
    | _ => none
  encodePortable
    | .text value => some value
    | _ => none
  decodePortable text := some (.text text)
  hmac key message := key.val ++ message
  aeadSeal key nonce aad plaintext :=
    some (plaintext, (tagging key nonce aad).val)
  aeadOpen key nonce aad joined :=
    let size := joined.length - tagLen
    if joined.drop size = (tagging key nonce aad).val then
      some (joined.take size)
    else
      none

theorem primitives_lawful
    (tagging : Tagging) :
    (primitives tagging).Lawful where
  bytes bytes := ⟨.bytes bytes, .bytes bytes, rfl, rfl, rfl⟩
  expr expr text _ := ⟨expr, rfl, rfl⟩
  nil := ⟨.nil, .nil, rfl, rfl, rfl⟩
  portable expr text encoded := by
    cases expr with
    | text value =>
        cases encoded
        rfl
    | nil => cases encoded
    | bytes value => cases encoded
  hmac key other message query same := by
    obtain ⟨keys, messages⟩ :=
      List.append_inj same (key.property.trans other.property.symm)
    exact ⟨Subtype.ext keys, messages⟩
  aeadOpen key nonce aad plaintext ciphertext tag cipher := by
    cases cipher
    have size : (plaintext ++ (tagging key nonce aad).val).length - tagLen =
        plaintext.length := by
      rw [List.length_append, (tagging key nonce aad).property]
      omega
    simp only [primitives, size, List.drop_left, List.take_left, if_true]
  aeadSize key nonce aad plaintext ciphertext tag cipher := by
    cases cipher
    exact ⟨rfl, (tagging key nonce aad).property⟩
  aeadSeal _ _ _ _ _ := rfl

/-- A key of equal bytes. -/
def keyBytes (byte : UInt8) : KeyBytes :=
  ⟨List.replicate 32 byte, List.length_replicate⟩

/-- A nonce of equal bytes. -/
def nonceBytes (byte : UInt8) : Nonce :=
  ⟨List.replicate nonceLen byte, List.length_replicate⟩

/-- A secret key. -/
def secret : SecretKey :=
  ⟨"key", keyBytes 1, keyBytes 2⟩

/-- A policy on an empty lane. -/
def config : SealedConfig where
  grant := "grant"
  keyId := "key"
  lane := []
  generation := 1
  maxPlaintextBytes := 4096
  maxObjectBytes := 8192
  metadataClass := "class"
  nonceBudget := 32
  keys := 0
  nonces := 0
  lane_fits := by decide
  class_fits := by decide

/-- A world in which the grant is live and all nonces differ. -/
def world {σ : Type} (store : σ) : World σ Sample where
  store := store
  grants _ _ := some secret
  source _ count := .ok (nonceBytes (UInt8.ofNat count))
  drawn _ := 0
  used _ := []
  handed := []

end Reference

end SimStorage.Sealed
