import SimStorage.Sealed.Table
import SimStorage.Interaction.Outcome

namespace SimStorage.Sealed

/-!
# Sealing and opening

What a table seals under a physical name it opens again there, with the bare
form of the logical key.  Sealing touches the nonces only.
-/

open Codec Interaction

variable {Handle Value Expr σ α : Type}

/--
What the sealed table relies on.  Byte values and portable values keep their
expressions, nil is no byte value, portable texts are read back, the digest is
injective, and the cipher opens what it seals, keeps the length and adds a tag.
-/
structure Primitives.Lawful (primitives : Primitives Value Expr) : Prop where
  bytes : ∀ bytes, ∃ value expr, primitives.bytes bytes = .ok value ∧
    primitives.asExpr value = .ok expr ∧ primitives.asBytes expr = some bytes
  expr : ∀ expr text, primitives.encodePortable expr = some text →
    ∃ value, primitives.expr expr = .ok value ∧
      primitives.asExpr value = .ok expr
  nil : ∃ value expr, primitives.nil = .ok value ∧
    primitives.asExpr value = .ok expr ∧ primitives.asBytes expr = none
  portable : ∀ expr text, primitives.encodePortable expr = some text →
    primitives.decodePortable text = some expr
  hmac : ∀ key other message query,
    primitives.hmac key message = primitives.hmac other query →
      key = other ∧ message = query
  aeadOpen : ∀ key nonce aad plaintext ciphertext tag,
    primitives.aeadSeal key nonce aad plaintext = some (ciphertext, tag) →
      primitives.aeadOpen key nonce aad (ciphertext ++ tag) = some plaintext
  aeadSize : ∀ key nonce aad plaintext ciphertext tag,
    primitives.aeadSeal key nonce aad plaintext = some (ciphertext, tag) →
      ciphertext.length = plaintext.length ∧ tag.length = tagLen
  aeadSeal : ∀ key nonce aad plaintext, plaintext.length < 2 ^ 32 →
    (primitives.aeadSeal key nonce aad plaintext).isSome

/-- The record's payload was sealed to these bytes. -/
def Handed.Produced (primitives : Primitives Value Expr)
    (record : Handed Expr) (joined : Bytes) : Prop :=
  ∃ max payload ciphertext tag,
    encodePayload primitives record.logical.name record.expr max =
        .ok payload ∧
      primitives.aeadSeal record.key.aead record.nonce record.binding.aad
        payload = some (ciphertext, tag) ∧
      joined = ciphertext ++ tag

/-- The record was stored as this value. -/
def Handed.StoredAs (primitives : Primitives Value Expr)
    (record : Handed Expr) (stored : Value) : Prop :=
  ∃ shown bytes max object, primitives.asExpr stored = .ok shown ∧
    primitives.asBytes shown = some bytes ∧
    SealedObject.decode bytes max = .ok object ∧
    record.nonce = object.nonce ∧
    record.Produced primitives object.ciphertextAndTag

/-- Nonces, and what is recorded, may change. -/
structure World.Untouched (world after : World σ Expr) : Prop where
  store : after.store = world.store
  grants : after.grants = world.grants

theorem World.Untouched.refl
    (world : World σ Expr) :
    world.Untouched world :=
  ⟨rfl, rfl⟩

namespace SealedTable

variable {primitives : Primitives Value Expr}
variable {table : SealedTable Handle} {secret : SecretKey}
variable {logical physical : Symbol} {value stored : Value}
variable {world after : World σ Expr}

/-- The grant is live and names the expected key. -/
def Granted (table : SealedTable Handle) (secret : SecretKey)
    (world : World σ Expr) : Prop :=
  world.grants table.config.keys table.config.grant = some secret ∧
    secret.id = table.config.keyId

/-- The next nonce is new, and the budget is not used up. -/
def Ready (table : SealedTable Handle) (world : World σ Expr) : Prop :=
  ∃ nonce, world.source table.config.nonces (world.drawn table.config.nonces) =
      .ok nonce ∧
    nonce ∉ world.used table.usedNonces ∧
    (world.used table.usedNonces).length < table.config.nonceBudget

/-- A portable value within the size policy. -/
def Fits (primitives : Primitives Value Expr) (table : SealedTable Handle)
    (logical : Symbol) (value : Value) : Prop :=
  ∃ expr text, primitives.asExpr value = .ok expr ∧
    primitives.encodePortable expr = some text ∧
    4 + (utf8 logical.name).length + (utf8 text).length ≤
      table.config.maxPlaintextBytes ∧
    headerLen + (4 + (utf8 logical.name).length + (utf8 text).length) + tagLen ≤
      table.config.maxObjectBytes ∧
    4 + (utf8 logical.name).length + (utf8 text).length + tagLen < 2 ^ 32

section Keys

/-- Asking for the key changes nothing. -/
theorem key_yields
    (world : World σ Expr) :
    Yields table.key world (table.grantedKey world) world :=
  (Yields.get world).bind (.ofExcept _ world)

theorem grantedKey_eq_ok :
    table.grantedKey world = .ok secret ↔ table.Granted secret world := by
  rw [grantedKey, Granted]
  cases found : world.grants table.config.keys table.config.grant with
  | none => simp
  | some known =>
      by_cases expected : known.id = table.config.keyId
      · simp only [expected, ne_eq, not_true_eq_false, if_false,
          Except.ok.injEq, Option.some.injEq]
        constructor
        · rintro rfl
          exact ⟨rfl, expected⟩
        · exact fun same => same.1
      · simp only [expected, ne_eq, not_false_eq_true, if_true,
          Option.some.injEq]
        constructor
        · nofun
        · rintro ⟨rfl, impossible⟩
          exact absurd impossible expected

theorem Granted.yields
    (granted : table.Granted secret world) :
    Yields table.key world (.ok secret) world := by
  have yields := table.key_yields world
  rwa [grantedKey_eq_ok.mpr granted] at yields

end Keys

section Stores

variable {operation : EStateM EvalError σ α}
variable {outcome : Except EvalError α} {store : σ}

/-- A backend operation changes the backends' state only. -/
theorem onStore_yields
    (yields : Yields operation world.store outcome store) :
    Yields (onStore operation) world outcome { world with store := store } := by
  rw [Yields] at yields ⊢
  simp only [onStore, yields]
  cases outcome <;> rfl

/-- A backend operation that leaves the state. -/
theorem onStore_still
    (yields : Yields operation world.store outcome world.store) :
    Yields (onStore operation) world outcome world :=
  onStore_yields yields

theorem onStore_inv
    (yields : Yields (onStore operation) world outcome after) :
    ∃ store, Yields operation world.store outcome store ∧
      after = { world with store := store } := by
  obtain ⟨other, store, found⟩ := Yields.total operation world.store
  obtain ⟨rfl, rfl⟩ := (onStore_yields found).unique yields
  exact ⟨store, found, rfl⟩

end Stores

section Nonces

/-- The world after a nonce was drawn and used. -/
def spend (table : SealedTable Handle) (nonce : Nonce) (world : World σ Expr) :
    World σ Expr :=
  { world with
    drawn := Function.update world.drawn table.config.nonces
      (world.drawn table.config.nonces + 1)
    used := Function.update world.used table.usedNonces
      (nonce :: world.used table.usedNonces) }

/-- A fresh nonce within the budget is drawn. -/
theorem nonce_yields
    {nonce : Nonce}
    (found : world.source table.config.nonces
      (world.drawn table.config.nonces) = .ok nonce)
    (unused : nonce ∉ world.used table.usedNonces)
    (budget : (world.used table.usedNonces).length < table.config.nonceBudget) :
    Yields table.nonce world (.ok nonce) (table.spend nonce world) := by
  have admitted : table.admitNonce (world.used table.usedNonces) nonce =
      .ok () := by
    rw [admitNonce, if_neg (Nat.not_le.mpr budget), if_neg unused]
  refine (Yields.get world).bind ((Yields.set _ _).bind ?_)
  simp only [found, Except.mapError]
  apply (Yields.ofExcept (.ok nonce) _).bind
  simp only [admitted]
  exact (Yields.ofExcept (.ok ()) _).bind ((Yields.modify _ _).bind (.pure _ _))

theorem Ready.yields
    (ready : table.Ready world) :
    ∃ nonce, Yields table.nonce world (.ok nonce) (table.spend nonce world) := by
  obtain ⟨nonce, found, unused, budget⟩ := ready
  exact ⟨nonce, nonce_yields found unused budget⟩

/-- Drawing a nonce touches nonces only. -/
theorem nonce_untouched
    {outcome : Except EvalError Nonce}
    (yields : Yields table.nonce world outcome after) :
    world.Untouched after ∧ after.handed = world.handed := by
  have drawn := (Yields.get world).rest yields
  have asked := (Yields.set _ _).rest drawn
  rcases asked.bind_inv with ⟨nonce, middle, found, checked⟩ | ⟨_, failed, _⟩
  swap
  · obtain ⟨_, rfl⟩ := failed.ofExcept_inv
    exact ⟨⟨rfl, rfl⟩, rfl⟩
  obtain ⟨_, rfl⟩ := found.ofExcept_inv
  rcases checked.bind_inv with ⟨_, middle, admitted, spent⟩ | ⟨_, failed, _⟩
  swap
  · obtain ⟨_, rfl⟩ := failed.ofExcept_inv
    exact ⟨⟨rfl, rfl⟩, rfl⟩
  obtain ⟨_, rfl⟩ := admitted.ofExcept_inv
  have returned := (Yields.modify _ _).rest spent
  obtain ⟨_, rfl⟩ := (Yields.pure nonce _).unique returned
  exact ⟨⟨rfl, rfl⟩, rfl⟩

end Nonces

section Sealing

/-- What it takes to decrypt a stored object. -/
theorem decryptStored_inv
    {name : Symbol} {expr : Expr}
    (read : table.decryptStored primitives physical stored secret =
      .ok (name, expr)) :
    ∃ shown bytes object plaintext decoded,
      primitives.asExpr stored = .ok shown ∧
      primitives.asBytes shown = some bytes ∧
      SealedObject.decode bytes table.config.maxObjectBytes = .ok object ∧
      primitives.aeadOpen secret.aead object.nonce (table.binding physical).aad
        object.ciphertextAndTag = some plaintext ∧
      decodePayload primitives plaintext table.config.maxPlaintextBytes =
        .ok (decoded, expr) ∧
      name = .new decoded := by
  cases shows : primitives.asExpr stored with
  | error error => simp [decryptStored, shows, Bind.bind, Except.bind] at read
  | ok shown =>
      cases isBytes : primitives.asBytes shown with
      | none =>
          simp [decryptStored, shows, isBytes, Bind.bind, Except.bind] at read
      | some bytes =>
          cases framed : SealedObject.decode bytes
              table.config.maxObjectBytes with
          | error error =>
              simp [decryptStored, shows, isBytes, framed, Except.mapError,
                Bind.bind, Except.bind] at read
          | ok object =>
              cases opens : primitives.aeadOpen secret.aead object.nonce
                  (table.binding physical).aad object.ciphertextAndTag with
              | none =>
                  simp [decryptStored, shows, isBytes, framed, opens,
                    Except.mapError, Bind.bind, Except.bind] at read
              | some plaintext =>
                  cases decodes : decodePayload primitives plaintext
                      table.config.maxPlaintextBytes with
                  | error error =>
                      simp [decryptStored, shows, isBytes, framed, opens,
                        decodes, Except.mapError, Bind.bind, Except.bind] at read
                  | ok entry =>
                      simp only [decryptStored, shows, isBytes, framed, opens,
                        decodes, Except.mapError, Bind.bind, Except.bind] at read
                      cases read
                      exact ⟨shown, bytes, object, plaintext, entry.1, rfl,
                        isBytes, framed, opens, decodes, rfl⟩

/-- What it takes to open a stored object. -/
theorem openStored_eq_ok
    {expected : Option Symbol} {name : Symbol} :
    table.openStored primitives expected physical stored secret =
        .ok (name, value) ↔
      ∃ expr, table.decryptStored primitives physical stored secret =
          .ok (name, expr) ∧
        (∀ query, expected = some query → query = name) ∧
        table.physical primitives secret name = physical ∧
        primitives.expr expr = .ok value := by
  cases read : table.decryptStored primitives physical stored secret with
  | error error => simp [openStored, read, Bind.bind, Except.bind]
  | ok found =>
      obtain ⟨decoded, expr⟩ := found
      simp only [openStored, read, Bind.bind, Except.bind]
      split
      next mismatch =>
        constructor
        · nofun
        · rintro ⟨_, ⟨⟩, matching, placed, _⟩
          rcases mismatch with ⟨query, asked, differs⟩ | misplaced
          · exact absurd (matching query asked) differs
          · exact absurd placed misplaced
      next sound =>
        simp only [not_or, not_exists, not_and, not_not] at sound
        cases built : primitives.expr expr with
        | error error =>
            constructor
            · nofun
            · rintro ⟨_, ⟨⟩, _, _, made⟩
              rw [built] at made
              cases made
        | ok opened =>
            constructor
            · rintro ⟨⟩
              exact ⟨expr, rfl, sound.1, sound.2, built⟩
            · rintro ⟨_, ⟨⟩, _, _, made⟩
              rw [built] at made
              cases made
              rfl

/-- A sealed object is the ciphertext and its tag, under the nonce. -/
theorem sealObject_inv
    (lawful : primitives.Lawful)
    {plaintext : Bytes} {nonce : Nonce}
    (sealedAs : table.sealObject primitives physical plaintext nonce secret =
      .ok stored) :
    ∃ ciphertext tag shown bytes,
      primitives.aeadSeal secret.aead nonce (table.binding physical).aad
          plaintext = some (ciphertext, tag) ∧
        primitives.asExpr stored = .ok shown ∧
        primitives.asBytes shown = some bytes ∧
        SealedObject.decode bytes table.config.maxObjectBytes =
          .ok ⟨suiteChacha20Poly1305, nonce, ciphertext ++ tag⟩ := by
  cases cipher : primitives.aeadSeal secret.aead nonce
      (table.binding physical).aad plaintext with
  | none => simp [sealObject, cipher] at sealedAs
  | some parts =>
      obtain ⟨ciphertext, tag⟩ := parts
      simp only [sealObject, cipher] at sealedAs
      cases framed : SealedObject.encode
          ⟨suiteChacha20Poly1305, nonce, ciphertext ++ tag⟩ with
      | error error =>
          rw [framed] at sealedAs
          cases sealedAs
      | ok bytes =>
          rw [framed] at sealedAs
          simp only [Except.mapError, Bind.bind, Except.bind] at sealedAs
          split at sealedAs
          · cases sealedAs
          next sized =>
          obtain ⟨size, tagSize⟩ := lawful.aeadSize _ _ _ _ _ _ cipher
          have tagged : tagLen ≤ (ciphertext ++ tag).length := by
            rw [List.length_append]
            omega
          have object := SealedObject.decode_encode framed rfl tagged
            (Nat.not_lt.mp sized)
          obtain ⟨kept, shown, made, shows, isBytes⟩ := lawful.bytes bytes
          cases made.symm.trans sealedAs
          exact ⟨ciphertext, tag, shown, bytes, rfl, shows, isBytes, object⟩

/-- A sealed object is opened under its name, with the bare logical key. -/
theorem openStored_sealObject
    (lawful : primitives.Lawful)
    {expr : Expr} {plaintext : Bytes} {nonce : Nonce}
    (encoded : encodePayload primitives logical.name expr
      table.config.maxPlaintextBytes = .ok plaintext)
    (sealedAs : table.sealObject primitives
      (table.physical primitives secret logical) plaintext nonce secret =
        .ok stored) :
    ∃ opened, table.openStored primitives none
        (table.physical primitives secret logical) stored secret =
          .ok (.new logical.name, opened) ∧
      primitives.asExpr opened = .ok expr := by
  obtain ⟨ciphertext, tag, shown, bytes, cipher, shows, isBytes, object⟩ :=
    sealObject_inv lawful sealedAs
  obtain ⟨text, portable⟩ := encodePayload_portable encoded
  obtain ⟨opened, built, same⟩ := lawful.expr expr text portable
  refine ⟨opened, ?_, same⟩
  have payload := decodePayload_encodePayload lawful.portable encoded
  have decrypted := lawful.aeadOpen _ _ _ _ _ _ cipher
  have read : table.decryptStored primitives
      (table.physical primitives secret logical) stored secret =
        .ok (.new logical.name, expr) := by
    simp only [decryptStored, shows, isBytes, object, decrypted, payload,
      Except.mapError, Bind.bind, Except.bind]
    rfl
  exact openStored_eq_ok.mpr ⟨expr, read, nofun, rfl, built⟩

/-- What sealing does when it succeeds. -/
structure SealedAs (primitives : Primitives Value Expr)
    (table : SealedTable Handle) (logical physical : Symbol) (value stored : Value)
    (secret : SecretKey) (world after : World σ Expr) : Prop where
  untouched : world.Untouched after
  handed : ∃ record, after.handed = record :: world.handed ∧
    record.key = secret ∧ record.binding = table.binding physical ∧
    record.logical = logical ∧
    primitives.asExpr value = .ok record.expr ∧
    record.StoredAs primitives stored
  opens : physical = table.physical primitives secret logical →
    ∃ opened, table.openStored primitives none physical stored secret =
        .ok (.new logical.name, opened) ∧
      primitives.asExpr opened = primitives.asExpr value

/-- A failed sealing hands nothing out; a successful one can be opened. -/
theorem sealValue_inv
    (lawful : primitives.Lawful)
    {outcome : Except EvalError Value}
    (yields : Yields (table.sealValue primitives logical physical value secret)
      world outcome after) :
    (∃ error, outcome = .error error ∧ world.Untouched after ∧
        after.handed = world.handed) ∨
      ∃ stored, outcome = .ok stored ∧
        table.SealedAs primitives logical physical value stored secret world
          after := by
  rcases yields.bind_inv with ⟨expr, _, shown, first⟩ | ⟨error, failed, rfl⟩
  swap
  · obtain ⟨_, rfl⟩ := failed.ofExcept_inv
    exact .inl ⟨error, rfl, .refl _, rfl⟩
  obtain ⟨shows, rfl⟩ := shown.ofExcept_inv
  rcases first.bind_inv with ⟨plaintext, _, coded, second⟩ | ⟨error, failed, rfl⟩
  swap
  · obtain ⟨_, rfl⟩ := failed.ofExcept_inv
    exact .inl ⟨error, rfl, .refl _, rfl⟩
  obtain ⟨encoded, rfl⟩ := coded.ofExcept_inv
  rcases second.bind_inv with ⟨nonce, drawn, fresh, third⟩ | ⟨error, failed, rfl⟩
  swap
  · obtain ⟨untouched, handed⟩ := nonce_untouched failed
    exact .inl ⟨error, rfl, untouched, handed⟩
  obtain ⟨untouched, handed⟩ := nonce_untouched fresh
  rcases third.bind_inv with ⟨stored, _, object, last⟩ | ⟨error, failed, rfl⟩
  swap
  · obtain ⟨_, rfl⟩ := failed.ofExcept_inv
    exact .inl ⟨error, rfl, untouched, handed⟩
  obtain ⟨sealedAs, rfl⟩ := object.ofExcept_inv
  have returned := (Yields.modify _ _).rest last
  obtain ⟨rfl, rfl⟩ := (Yields.pure stored _).unique returned
  have payload : encodePayload primitives logical.name expr
      table.config.maxPlaintextBytes = .ok plaintext := by
    cases result : encodePayload primitives logical.name expr
        table.config.maxPlaintextBytes with
    | error error => simp [result, Except.mapError] at encoded
    | ok bytes =>
        simp only [result, Except.mapError, Except.ok.injEq] at encoded
        rw [encoded]
  obtain ⟨ciphertext, tag, shown, bytes, cipher, showsBytes, isBytes, framed⟩ :=
    sealObject_inv lawful sealedAs.symm
  refine .inr ⟨stored, rfl, ⟨untouched.store, untouched.grants⟩,
    ⟨_, congrArg _ handed, rfl, rfl, rfl, shows.symm, shown, bytes, _, _,
      showsBytes, isBytes, framed, rfl, _, _, ciphertext, tag, payload, cipher,
      rfl⟩, ?_⟩
  rintro rfl
  obtain ⟨opened, opens, same⟩ :=
    openStored_sealObject lawful payload sealedAs.symm
  exact ⟨opened, opens, same.trans shows⟩

/-- With a fresh nonce, a value within the size policy is sealed. -/
theorem sealValue_yields
    (lawful : primitives.Lawful)
    (ready : table.Ready world)
    (fits : table.Fits primitives logical value) :
    ∃ stored after, Yields
      (table.sealValue primitives logical physical value secret) world
      (.ok stored) after := by
  obtain ⟨expr, text, shows, portable, plainSize, objectSize, short⟩ := fits
  obtain ⟨plaintext, encoded, length⟩ :=
    encodePayload_eq_ok portable (by omega) plainSize
  obtain ⟨nonce, drawn⟩ := ready.yields
  have cipher := lawful.aeadSeal secret.aead nonce
    (table.binding physical).aad plaintext (by omega)
  obtain ⟨⟨ciphertext, tag⟩, sealedAs⟩ := Option.isSome_iff_exists.mp cipher
  obtain ⟨size, tagSize⟩ := lawful.aeadSize _ _ _ _ _ _ sealedAs
  have joined : (ciphertext ++ tag).length = plaintext.length + tagLen := by
    rw [List.length_append, size, tagSize]
  obtain ⟨bytes, framed, total⟩ := @SealedObject.encode_eq_ok
    ⟨suiteChacha20Poly1305, nonce, ciphertext ++ tag⟩ (by rw [joined]; omega)
  obtain ⟨stored, _, made, _⟩ := lawful.bytes bytes
  have object : table.sealObject primitives physical plaintext nonce secret =
      .ok stored := by
    have within : ¬ table.config.maxObjectBytes < bytes.length := by
      rw [total, joined]
      omega
    simp only [sealObject, sealedAs, framed, Except.mapError, Bind.bind,
      Except.bind, within, if_false, made]
  have payload : (encodePayload primitives logical.name expr
      table.config.maxPlaintextBytes).mapError failure = .ok plaintext := by
    rw [encoded]
    rfl
  exact ⟨stored, _, (Yields.of_ok shows world).bind
    ((Yields.of_ok payload world).bind (drawn.bind
      ((Yields.of_ok object _).bind ((Yields.modify _ _).bind (.pure _ _)))))⟩

/-- Opening under an expected key compares it with the embedded one. -/
theorem openStored_some
    {name : Symbol}
    (opens : table.openStored primitives none physical stored secret =
      .ok (name, value)) :
    table.openStored primitives (some logical) physical stored secret =
      if logical = name then .ok (name, value)
      else .error (failure .authentication) := by
  obtain ⟨expr, read, _, placed, built⟩ := openStored_eq_ok.mp opens
  by_cases same : logical = name
  · rw [if_pos same]
    refine openStored_eq_ok.mpr ⟨expr, read, ?_, placed, built⟩
    rintro _ ⟨⟩
    exact same
  · rw [if_neg same]
    have differs : ∃ expected ∈ some logical, expected ≠ name :=
      ⟨logical, rfl, same⟩
    simp only [openStored, read, Bind.bind, Except.bind, differs, true_or,
      if_true]

end Sealing

end SealedTable

end SimStorage.Sealed
