import SimStorage.Sealed.Contract

namespace SimStorage.Sealed

/-!
# The size policy

Four bounds meet when a value is sealed: that of the constructor, that of the
payload, the 32-bit lengths of a key and of an object, and that of the stored
object.  The constructor's sum wraps at the machine word, and no bound of the
policy keeps payloads below what 32 bits can count.
-/

open Codec Interaction

variable {Handle Value Expr σ : Type}

/-- The framed payload of a key and a portable text. -/
def framedPayload (key text : String) : Bytes :=
  be32 (UInt32.ofNat (utf8 key).length) ++ (utf8 key ++ utf8 text)

theorem framedPayload_length
    (key text : String) :
    (framedPayload key text).length =
      4 + (utf8 key).length + (utf8 text).length := by
  simp only [framedPayload, List.length_append, be32_length]
  omega

section Payloads

variable {primitives : Primitives Value Expr} {expr : Expr}
variable {key text : String} {max : Nat}

/-- The payload is the frame, unless a bound is exceeded. -/
theorem encodePayload_cases
    (portable : primitives.encodePortable expr = some text) :
    encodePayload primitives key expr max =
      if (utf8 key).length < 2 ^ 32 ∧ (framedPayload key text).length ≤ max then
        .ok (framedPayload key text)
      else
        .error .oversized := by
  by_cases short : (utf8 key).length < 2 ^ 32
  · by_cases large : max < (framedPayload key text).length
    · have failed : ¬ ((utf8 key).length < 2 ^ 32 ∧
          (framedPayload key text).length ≤ max) :=
        fun fits => Nat.not_le.mpr large fits.2
      rw [if_neg failed]
      simp only [encodePayload, portable, short, if_true]
      exact if_pos large
    · rw [if_pos ⟨short, Nat.not_lt.mp large⟩]
      simp only [encodePayload, portable, short, if_true]
      exact if_neg large
  · have failed : ¬ ((utf8 key).length < 2 ^ 32 ∧
        (framedPayload key text).length ≤ max) :=
      fun fits => short fits.1
    rw [if_neg failed]
    simp only [encodePayload, portable, short, if_false]

end Payloads

/-- A world whose next nonce is the given one, with the budget untouched. -/
def World.drawing (store : σ) (nonce : Nonce) : World σ Expr where
  store := store
  grants _ _ := none
  source _ _ := .ok nonce
  drawn _ := 0
  used _ := []
  handed := []

namespace SealedTable

variable {primitives : Primitives Value Expr}
variable {backend : Backend Handle Value σ} {table : SealedTable Handle}
variable {secret : SecretKey} {logical physical : Symbol} {value : Value}
variable {expr : Expr} {text : String} {world : World σ Expr}
variable {plaintext : Bytes} {nonce : Nonce}

/-- The object of a plaintext, by what the cipher makes of it. -/
theorem sealObject_of_cipher
    (lawful : primitives.Lawful)
    {ciphertext tag : Bytes}
    (cipher : primitives.aeadSeal secret.aead nonce
      (table.binding physical).aad plaintext = some (ciphertext, tag)) :
    (plaintext.length + tagLen < 2 ^ 32 →
        headerLen + plaintext.length + tagLen ≤ table.config.maxObjectBytes →
        ∃ stored shown bytes, table.sealObject primitives physical plaintext
            nonce secret = .ok stored ∧
          primitives.asExpr stored = .ok shown ∧
          primitives.asBytes shown = some bytes ∧
          bytes.length ≤ table.config.maxObjectBytes ∧
          SealedObject.decode bytes table.config.maxObjectBytes =
            .ok ⟨suiteChacha20Poly1305, nonce, ciphertext ++ tag⟩) ∧
      (2 ^ 32 ≤ plaintext.length + tagLen →
        table.sealObject primitives physical plaintext nonce secret =
          .error (failure .oversized)) := by
  obtain ⟨size, tagSize⟩ := lawful.aeadSize _ _ _ _ _ _ cipher
  have joined : (ciphertext ++ tag).length = plaintext.length + tagLen := by
    rw [List.length_append, size, tagSize]
  constructor
  · intro short within
    obtain ⟨bytes, framed, total⟩ := @SealedObject.encode_eq_ok
      ⟨suiteChacha20Poly1305, nonce, ciphertext ++ tag⟩ (by rwa [joined])
    have bounded : bytes.length ≤ table.config.maxObjectBytes := by
      rw [total, joined]
      omega
    have tagged : tagLen ≤ (ciphertext ++ tag).length := by
      rw [joined]
      exact Nat.le_add_left _ _
    obtain ⟨stored, shown, made, shows, isBytes⟩ := lawful.bytes bytes
    refine ⟨stored, shown, bytes, ?_, shows, isBytes, bounded,
      SealedObject.decode_encode framed rfl tagged bounded⟩
    simp only [sealObject, cipher, framed, Except.mapError, Bind.bind,
      Except.bind, Nat.not_lt.mpr bounded, if_false, made]
  · intro long
    have refused : SealedObject.encode
        ⟨suiteChacha20Poly1305, nonce, ciphertext ++ tag⟩ =
          .error .oversized := by
      rw [SealedObject.encode, if_neg]
      rw [joined]
      exact Nat.not_lt.mpr long
    simp only [sealObject, cipher, refused, Except.mapError, Bind.bind,
      Except.bind]

/-- With a fresh nonce, sealing gives what the object of the payload gives. -/
theorem sealValue_of_payload
    (ready : table.Ready world)
    (shows : primitives.asExpr value = .ok expr)
    (encoded : encodePayload primitives logical.name expr
      table.config.maxPlaintextBytes = .ok plaintext) :
    ∃ nonce after, world.source table.config.nonces
        (world.drawn table.config.nonces) = .ok nonce ∧
      Yields (table.sealValue primitives logical physical value secret) world
        (table.sealObject primitives physical plaintext nonce secret) after := by
  obtain ⟨nonce, found, unused, budget⟩ := ready
  have drawn := nonce_yields found unused budget
  have payload : (encodePayload primitives logical.name expr
      table.config.maxPlaintextBytes).mapError failure = .ok plaintext := by
    rw [encoded]
    rfl
  have gives : ∃ after, Yields
      (table.sealValue primitives logical physical value secret) world
      (table.sealObject primitives physical plaintext nonce secret) after := by
    cases object : table.sealObject primitives physical plaintext nonce
        secret with
    | ok stored =>
        exact ⟨_, (Yields.of_ok shows world).bind
          ((Yields.of_ok payload world).bind (drawn.bind
            ((Yields.of_ok object _).bind
              ((Yields.modify _ _).bind (.pure _ _)))))⟩
    | error error =>
        exact ⟨_, (Yields.of_ok shows world).bind
          ((Yields.of_ok payload world).bind (drawn.bind
            (Yields.of_error object _).bindError))⟩
  obtain ⟨after, gives⟩ := gives
  exact ⟨nonce, after, found, gives⟩

/-- A payload that a bound refuses is refused before a nonce is drawn. -/
theorem sealValue_refused
    (shows : primitives.asExpr value = .ok expr)
    (refused : encodePayload primitives logical.name expr
      table.config.maxPlaintextBytes = .error .oversized) :
    Yields (table.sealValue primitives logical physical value secret) world
      (.error (failure .oversized)) world := by
  have payload : (encodePayload primitives logical.name expr
      table.config.maxPlaintextBytes).mapError failure =
        .error (failure .oversized) := by
    rw [refused]
    rfl
  exact (Yields.of_ok shows world).bind (Yields.of_error payload world).bindError

/-- A set that seals nothing fails and leaves the world. -/
theorem set_refused
    (shows : primitives.asExpr value = .ok expr)
    (refused : encodePayload primitives logical.name expr
      table.config.maxPlaintextBytes = .error .oversized) :
    ∃ error, Yields (table.set primitives backend logical value) world
      (.error error) world := by
  have asked := table.key_yields world
  cases granted : table.grantedKey world with
  | error error =>
      rw [granted] at asked
      exact ⟨error, asked.bindError⟩
  | ok secret =>
      rw [granted] at asked
      exact ⟨_, asked.bind (sealValue_refused shows refused).bindError⟩

/-- What sealing a framed payload of the policy's size promises. -/
def SealsWithin (primitives : Primitives Value Expr)
    (table : SealedTable Handle) (logical : Symbol) (value : Value)
    (expr : Expr) (world : World σ Expr) : Prop :=
  ∀ secret physical outcome after,
    Yields (table.sealValue primitives logical physical value secret) world
      outcome after →
    outcome ≠ .error (failure .oversized) ∧
      ∀ stored, outcome = .ok stored →
        (∃ shown bytes, primitives.asExpr stored = .ok shown ∧
          primitives.asBytes shown = some bytes ∧
          bytes.length ≤ table.config.maxObjectBytes) ∧
        table.decryptStored primitives physical stored secret =
          .ok (.new logical.name, expr)

/-- What the size policy promises for a key and a value. -/
structure SizesFit (primitives : Primitives Value Expr)
    (backend : Backend Handle Value σ) (table : SealedTable Handle)
    (logical : Symbol) (value : Value) (expr : Expr) (text : String) : Prop where
  /-- The policy leaves room for the header and the tag. -/
  room : table.config.maxPlaintextBytes + 34 ≤ table.config.maxObjectBytes
  /-- Payloads of the policy's size are sealed and opened. -/
  seals : (framedPayload logical.name text).length ≤
      table.config.maxPlaintextBytes →
    ∀ world : World σ Expr, table.Ready world →
      table.SealsWithin primitives logical value expr world
  /-- Larger payloads are refused before anything is written. -/
  refuses : table.config.maxPlaintextBytes <
      (framedPayload logical.name text).length →
    ∀ world : World σ Expr, ∃ error,
      Yields (table.set primitives backend logical value) world (.error error)
        world

/-- The cipher takes no payload of this kind. -/
def CipherRefuses (primitives : Primitives Value Expr)
    (table : SealedTable Handle) (plaintext : Bytes) : Prop :=
  ∀ (secret : SecretKey) nonce physical, primitives.aeadSeal secret.aead nonce
    (table.binding physical).aad plaintext = none

/--
A payload within the policy is one whose object 32 bits can count; or the key
is, and the cipher itself refuses the payload.
-/
def Countable (primitives : Primitives Value Expr)
    (table : SealedTable Handle) (key text : String) : Prop :=
  (framedPayload key text).length ≤ table.config.maxPlaintextBytes →
    (framedPayload key text).length + tagLen < 2 ^ 32 ∨
      (utf8 key).length < 2 ^ 32 ∧
        table.CipherRefuses primitives (framedPayload key text)

/-- What opening a sealed object reads. -/
theorem decryptStored_of_object
    (lawful : primitives.Lawful)
    {ciphertext tag bytes : Bytes} {shown : Expr} {stored : Value}
    (encoded : encodePayload primitives logical.name expr
      table.config.maxPlaintextBytes = .ok plaintext)
    (cipher : primitives.aeadSeal secret.aead nonce
      (table.binding physical).aad plaintext = some (ciphertext, tag))
    (shows : primitives.asExpr stored = .ok shown)
    (isBytes : primitives.asBytes shown = some bytes)
    (object : SealedObject.decode bytes table.config.maxObjectBytes =
      .ok ⟨suiteChacha20Poly1305, nonce, ciphertext ++ tag⟩) :
    table.decryptStored primitives physical stored secret =
      .ok (.new logical.name, expr) := by
  have payload := decodePayload_encodePayload lawful.portable encoded
  have decrypted := lawful.aeadOpen _ _ _ _ _ _ cipher
  simp only [decryptStored, shows, isBytes, object, decrypted, payload,
    Except.mapError, Bind.bind, Except.bind]
  rfl

/-- Where the object can be counted and fits, sealing keeps the promise. -/
theorem sealsWithin
    (lawful : primitives.Lawful)
    (room : table.config.maxPlaintextBytes + 34 ≤ table.config.maxObjectBytes)
    (shows : primitives.asExpr value = .ok expr)
    (portable : primitives.encodePortable expr = some text)
    (sized : (framedPayload logical.name text).length ≤
      table.config.maxPlaintextBytes)
    (countable : table.Countable primitives logical.name text)
    (ready : table.Ready world) :
    table.SealsWithin primitives logical value expr world := by
  intro secret physical outcome after yields
  have short : (utf8 logical.name).length < 2 ^ 32 := by
    rcases countable sized with counted | ⟨short, _⟩
    · rw [framedPayload_length] at counted
      omega
    · exact short
  have encoded : encodePayload primitives logical.name expr
      table.config.maxPlaintextBytes =
        .ok (framedPayload logical.name text) := by
    rw [encodePayload_cases portable, if_pos ⟨short, sized⟩]
  obtain ⟨nonce, last, _, gives⟩ := sealValue_of_payload ready shows encoded
  obtain ⟨rfl, rfl⟩ := gives.unique yields
  cases cipher : primitives.aeadSeal secret.aead nonce
      (table.binding physical).aad (framedPayload logical.name text) with
  | none =>
      have refused : table.sealObject primitives physical
          (framedPayload logical.name text) nonce secret =
            .error (failure .authentication) := by
        simp only [sealObject, cipher]
      have differs : failure .authentication ≠ failure .oversized := by decide
      rw [refused]
      refine ⟨fun same => differs (Except.error.inj same), ?_⟩
      intro found same
      cases same
  | some parts =>
      obtain ⟨ciphertext, tag⟩ := parts
      have counted : (framedPayload logical.name text).length + tagLen <
          2 ^ 32 := by
        rcases countable sized with counted | ⟨_, refuses⟩
        · exact counted
        · cases (refuses secret nonce physical).symm.trans cipher
      have within : headerLen + (framedPayload logical.name text).length +
          tagLen ≤ table.config.maxObjectBytes := by
        simp only [headerLen, tagLen, nonceLen]
        omega
      obtain ⟨stored, shown, bytes, made, showsBytes, isBytes, bounded,
        object⟩ := (sealObject_of_cipher lawful cipher).1 counted within
      rw [made]
      refine ⟨fun same => ?_, fun found same => ?_⟩
      · cases same
      cases same
      exact ⟨⟨shown, bytes, showsBytes, isBytes, bounded⟩,
        decryptStored_of_object lawful encoded cipher showsBytes isBytes
          object⟩

theorem drawing_ready
    (budget : table.config.nonceBudget ≠ 0) (store : σ) (nonce : Nonce) :
    table.Ready (World.drawing store nonce : World σ Expr) :=
  ⟨nonce, rfl, List.not_mem_nil, Nat.pos_of_ne_zero budget⟩

/-- Where sealing keeps the promise, the object can be counted. -/
theorem countable_of_seals
    (lawful : primitives.Lawful)
    (budget : table.config.nonceBudget ≠ 0)
    (shows : primitives.asExpr value = .ok expr)
    (portable : primitives.encodePortable expr = some text)
    (store : σ)
    (seals : (framedPayload logical.name text).length ≤
        table.config.maxPlaintextBytes →
      ∀ world : World σ Expr, table.Ready world →
        table.SealsWithin primitives logical value expr world) :
    table.Countable primitives logical.name text := by
  intro sized
  by_contra neither
  rw [not_or, not_and] at neither
  obtain ⟨long, accepts⟩ := neither
  have fails : ∀ (secret : SecretKey) nonce physical after,
      ¬ Yields (table.sealValue primitives logical physical value secret)
        (World.drawing store nonce : World σ Expr)
        (.error (failure .oversized)) after := by
    intro secret nonce physical after yields
    exact (seals sized _ (drawing_ready budget store nonce) secret physical
      _ _ yields).1 rfl
  by_cases short : (utf8 logical.name).length < 2 ^ 32
  · have encoded : encodePayload primitives logical.name expr
        table.config.maxPlaintextBytes =
          .ok (framedPayload logical.name text) := by
      rw [encodePayload_cases portable, if_pos ⟨short, sized⟩]
    apply accepts short
    intro secret nonce physical
    by_contra cipher
    obtain ⟨⟨ciphertext, tag⟩, cipher⟩ := Option.ne_none_iff_exists'.mp cipher
    obtain ⟨drawn, after, found, gives⟩ := sealValue_of_payload
      (drawing_ready budget store nonce) shows encoded
    cases found
    rw [(sealObject_of_cipher lawful cipher).2 (Nat.not_lt.mp long)] at gives
    exact fails _ _ _ _ gives
  · have refused : encodePayload primitives logical.name expr
        table.config.maxPlaintextBytes = .error .oversized := by
      rw [encodePayload_cases portable, if_neg fun fits => short fits.1]
    exact fails Reference.secret (Reference.nonceBytes 0) (.new "") _
      (sealValue_refused shows refused)

/-- A policy that `new` is to accept, in exact arithmetic. -/
def ValidPolicy (backend : Backend Handle Value σ) (handle : Handle)
    (config : SealedConfig) : Prop :=
  backend.isTable handle = true ∧ config.maxPlaintextBytes ≠ 0 ∧
    config.maxPlaintextBytes + 34 ≤ config.maxObjectBytes ∧
    config.metadataClass ≠ "" ∧ config.keyId ≠ "" ∧ config.nonceBudget ≠ 0

/-- Without overflow, the constructor accepts the valid policies. -/
theorem new_eq_ok
    {handle : Handle} {config : SealedConfig} {used : Nat}
    (exact_ : (config.maxPlaintextBytes + 34) % wordBound =
      config.maxPlaintextBytes + 34) :
    new backend handle config used = .ok table ↔
      ValidPolicy backend handle config ∧ table = ⟨handle, config, used⟩ := by
  rw [new, exact_, ValidPolicy]
  by_cases isTable : backend.isTable handle = true
  · rw [if_neg (not_not.mpr isTable)]
    split
    next invalid =>
      constructor
      · intro made
        cases made
      · rintro ⟨⟨_, some, room, named, keyed, budget⟩, _⟩
        rcases invalid with none | small | unnamed | unkeyed | spent
        · exact absurd none some
        · exact absurd room (Nat.not_le.mpr small)
        · exact absurd unnamed named
        · exact absurd unkeyed keyed
        · exact absurd spent budget
    next valid =>
      simp only [not_or, Nat.not_lt] at valid
      constructor
      · intro made
        cases made
        exact ⟨⟨isTable, valid⟩, rfl⟩
      · rintro ⟨_, rfl⟩
        rfl
  · rw [if_pos isTable]
    constructor
    · intro made
      cases made
    · exact fun valid => absurd valid.1.1 isTable

/--
For every policy, key and portable value: the constructor does not overflow and
what it accepts keeps the promise, exactly when its sum fits a machine word and
32 bits count the object of the payload if the policy admits it.
-/
theorem size_policy_iff
    (lawful : primitives.Lawful)
    (backend : Backend Handle Value σ) (handle : Handle)
    (config : SealedConfig) (used : Nat) (store : σ) (logical : Symbol)
    (shows : primitives.asExpr value = .ok expr)
    (portable : primitives.encodePortable expr = some text) :
    ((config.maxPlaintextBytes + 34) % wordBound =
        config.maxPlaintextBytes + 34 ∧
      ∀ table, new backend handle config used = .ok table →
        table.SizesFit primitives backend logical value expr text) ↔
      config.maxPlaintextBytes + 34 < wordBound ∧
        (ValidPolicy backend handle config →
          Countable primitives (⟨handle, config, used⟩ : SealedTable Handle)
            logical.name text) := by
  constructor
  · rintro ⟨exact_, fits⟩
    refine ⟨exact_ ▸ Nat.mod_lt _ (by decide), fun valid => ?_⟩
    have promised := fits _ ((new_eq_ok exact_).mpr ⟨valid, rfl⟩)
    exact countable_of_seals lawful valid.2.2.2.2.2 shows portable store
      promised.seals
  · rintro ⟨bounded, countable⟩
    have exact_ := Nat.mod_eq_of_lt bounded
    refine ⟨exact_, fun table made => ?_⟩
    obtain ⟨valid, rfl⟩ := (new_eq_ok exact_).mp made
    refine ⟨valid.2.2.1, fun sized world ready => ?_, fun large world => ?_⟩
    · exact sealsWithin lawful valid.2.2.1 shows portable sized
        (countable valid) ready
    · refine set_refused shows ?_
      rw [encodePayload_cases portable, if_neg]
      exact fun fits => Nat.not_le.mpr large fits.2

end SealedTable

section Examples

/-- The sample policy keeps the promise for a sample key and value. -/
theorem sample_size_policy :
    sampleTable.SizesFit (Reference.primitives plainTagging)
      (mapBackend (Reference.primitives plainTagging)) (.new "name")
      (.text "value") (.text "value") "value" := by
  have accepted : SealedTable.new
      (mapBackend (Reference.primitives plainTagging)) () Reference.config 0 =
        .ok sampleTable :=
    rfl
  have counted : sampleTable.Countable (Reference.primitives plainTagging)
      "name" "value" := by
    intro _
    left
    rw [framedPayload_length]
    decide
  have shows : (Reference.primitives plainTagging).asExpr (.text "value") =
      .ok (.text "value") :=
    rfl
  have portable : (Reference.primitives plainTagging).encodePortable
      (.text "value") = some "value" :=
    rfl
  have promised := (SealedTable.size_policy_iff
    (Reference.primitives_lawful plainTagging)
    (mapBackend (Reference.primitives plainTagging)) () Reference.config 0
    (∅ : PlainTable Reference.Sample) (.new "name") shows portable).mpr
      ⟨by decide, fun _ => counted⟩
  exact promised.2 sampleTable accepted

/-- A policy with the largest bound on plaintexts. -/
def wrappingConfig : SealedConfig :=
  { Reference.config with
    maxPlaintextBytes := 2 ^ 64 - 1
    maxObjectBytes := 100 }

/-- Its sum wraps, and it is accepted without room for any large payload. -/
theorem wrapping_policy_accepted :
    SealedTable.new (mapBackend (Reference.primitives plainTagging)) ()
        wrappingConfig 0 = .ok ⟨(), wrappingConfig, 0⟩ ∧
      ¬ wrappingConfig.maxPlaintextBytes + 34 ≤
        wrappingConfig.maxObjectBytes := by
  constructor
  · simp [SealedTable.new, mapBackend, wrappingConfig, Reference.config,
      wordBound]
  · simp [wrappingConfig]

end Examples

end SimStorage.Sealed
