import SimStorage.Sealed.Contract

namespace SimStorage.Sealed

/-!
# What an adversarial backend can make a table return

The backend may be rewritten between any two operations.  With an ideal cipher
a table opens only what some set sealed under the same key, lane, generation,
metadata class and physical name; the name that it returns is the bare form of
the key of that set.
-/

open Codec Interaction

variable {Handle Value Expr σ : Type}

/--
The cipher is ideal: what the backend delivers opens under a key, a nonce and
bound data only if it was sealed under them and handed out.
-/
def Unforged (primitives : Primitives Value Expr)
    (backend : Backend Handle Value σ) (world : World σ Expr) : Prop :=
  ∀ handle physical stored expr bytes max object key aad plaintext,
    Yields (backend.get handle physical) world.store (.ok stored) world.store →
    primitives.asExpr stored = .ok expr →
    primitives.asBytes expr = some bytes →
    SealedObject.decode bytes max = .ok object →
    primitives.aeadOpen key object.nonce aad object.ciphertextAndTag =
      some plaintext →
    ∃ record ∈ world.handed, record.key.aead = key ∧
      record.nonce = object.nonce ∧ record.binding.aad = aad ∧
      record.Produced primitives object.ciphertextAndTag

/-- Lookups and enumerations leave the backends' state. -/
structure Backend.ReadsOnly (backend : Backend Handle Value σ) : Prop where
  get : ∀ handle key store, ∃ outcome,
    Yields (backend.get handle key) store outcome store
  has : ∀ handle key store, ∃ outcome,
    Yields (backend.has handle key) store outcome store
  keys : ∀ handle store, ∃ outcome,
    Yields (backend.keys handle) store outcome store

/-- One set through some table. -/
structure SetRecord (Value : Type) where
  config : SealedConfig
  secret : SecretKey
  logical : Symbol
  value : Value

/--
A set counts when it returned, or when it failed after its sealed object was
handed out, which the backend may keep.
-/
def SetCounts (outcome : Except EvalError Unit) (world after : World σ Expr) :
    Prop :=
  outcome = .ok () ∨ after.handed ≠ world.handed

/--
The sets that counted so far, latest first.  Anything that hands out no sealed
object may happen in between: other operations, sets that fail earlier, and any
rewriting of the backend.
-/
inductive History (primitives : Primitives Value Expr)
    (backend : Backend Handle Value σ) :
    List (SetRecord Value) → World σ Expr → Prop where
  | start {world : World σ Expr} :
      world.handed = [] →
      History primitives backend [] world
  | set {sets : List (SetRecord Value)} {world after : World σ Expr}
      {table : SealedTable Handle} {secret : SecretKey}
      {logical : Symbol} {value : Value} {outcome : Except EvalError Unit} :
      History primitives backend sets world →
      table.Granted secret world →
      Yields (table.set primitives backend logical value) world outcome after →
      SetCounts outcome world after →
      History primitives backend
        (⟨table.config, secret, logical, value⟩ :: sets) after
  | other {sets : List (SetRecord Value)} {world after : World σ Expr} :
      History primitives backend sets world →
      after.handed = world.handed →
      History primitives backend sets after

namespace SealedTable

variable {primitives : Primitives Value Expr}
variable {backend : Backend Handle Value σ}
variable {table : SealedTable Handle} {secret : SecretKey}
variable {logical physical : Symbol} {value stored : Value}
variable {world after : World σ Expr} {sets : List (SetRecord Value)}

/-- The value was set at the key, through a view with the same binding. -/
def Authentic (primitives : Primitives Value Expr)
    (sets : List (SetRecord Value)) (table : SealedTable Handle)
    (secret : SecretKey) (logical : Symbol) (value : Value) : Prop :=
  ∃ set ∈ sets, set.logical = logical ∧
    primitives.asExpr set.value = primitives.asExpr value ∧
    set.secret.aead = secret.aead ∧ set.secret.blinding = secret.blinding ∧
    set.config.lane = table.config.lane ∧
    set.config.generation = table.config.generation ∧
    set.config.metadataClass = table.config.metadataClass

/-- Whatever is set under a qualified key is also set under its bare form. -/
def Covered (primitives : Primitives Value Expr)
    (sets : List (SetRecord Value)) : Prop :=
  ∀ set ∈ sets, ∃ other ∈ sets, other.logical = .new set.logical.name ∧
    primitives.asExpr other.value = primitives.asExpr set.value ∧
    other.secret.aead = set.secret.aead ∧
    other.secret.blinding = set.secret.blinding ∧
    other.config.lane = set.config.lane ∧
    other.config.generation = set.config.generation ∧
    other.config.metadataClass = set.config.metadataClass

section Records

/-- A record tells what its set sealed. -/
def Records (primitives : Primitives Value Expr)
    (set : SetRecord Value) (record : Handed Expr) : Prop :=
  record.key = set.secret ∧ record.logical = set.logical ∧
    primitives.asExpr set.value = .ok record.expr ∧
    record.binding = ⟨set.config.lane, set.config.generation,
      physicalName primitives set.secret.blinding set.config.lane
        set.logical.name, set.config.metadataClass⟩

/-- A set hands out at most the record of what it sets. -/
theorem set_handed
    (lawful : primitives.Lawful)
    (granted : table.Granted secret world)
    {outcome : Except EvalError Unit}
    (yields : Yields (table.set primitives backend logical value) world outcome
      after) :
    after.handed = world.handed ∨
      ∃ record, after.handed = record :: world.handed ∧
        Records primitives ⟨table.config, secret, logical, value⟩ record := by
  have sealing := granted.yields.rest yields
  rcases sealing.bind_inv with ⟨stored, middle, sealedValue, written⟩ |
    ⟨error, failed, _⟩
  · obtain ⟨store, _, rfl⟩ := onStore_inv written
    rcases sealValue_inv lawful sealedValue with ⟨_, impossible, _⟩ |
      ⟨_, _, sealedAs⟩
    · cases impossible
    · obtain ⟨record, handed, isKey, isBinding, isLogical, shows, _⟩ :=
        sealedAs.handed
      exact .inr ⟨record, handed, isKey, isLogical, shows, isBinding⟩
  · rcases sealValue_inv lawful failed with ⟨_, _, _, handed⟩ |
      ⟨_, impossible, _⟩
    · exact .inl handed
    · cases impossible

/-- Everything handed out comes from a set. -/
theorem records_of_history
    (lawful : primitives.Lawful)
    (history : History primitives backend sets world) :
    ∀ record ∈ world.handed, ∃ set ∈ sets, Records primitives set record := by
  induction history with
  | start empty =>
      intro record member
      rw [empty] at member
      exact absurd member List.not_mem_nil
  | set earlier granted yields counts inductionHypothesis =>
      intro record member
      have before (old : record ∈ _) :=
        inductionHypothesis record old
      rcases set_handed lawful granted yields with same | ⟨added, grown, new⟩
      · rw [same] at member
        obtain ⟨set, isSet, records⟩ := before member
        exact ⟨set, List.mem_cons_of_mem _ isSet, records⟩
      · rw [grown] at member
        rcases List.mem_cons.mp member with rfl | old
        · exact ⟨_, List.mem_cons_self, new⟩
        · obtain ⟨set, isSet, records⟩ := before old
          exact ⟨set, List.mem_cons_of_mem _ isSet, records⟩
  | other earlier same inductionHypothesis =>
      rw [same]
      exact inductionHypothesis

end Records

section Reads

/-- With an ideal cipher, what opens was set under the bare name. -/
theorem authentic_of_openStored
    (lawful : primitives.Lawful)
    (history : History primitives backend sets world)
    (covered : Covered primitives sets)
    (unforged : Unforged primitives backend world)
    {handle : Handle} {expected : Option Symbol} {name : Symbol}
    (delivered : Yields (backend.get handle physical) world.store (.ok stored)
      world.store)
    (opens : table.openStored primitives expected physical stored secret =
      .ok (name, value)) :
    Authentic primitives sets table secret name value := by
  obtain ⟨expr, read, _, placed, built⟩ := openStored_eq_ok.mp opens
  obtain ⟨shown, bytes, object, plaintext, decoded, shows, isBytes, framed,
    decrypts, decodes, rfl⟩ := decryptStored_inv read
  obtain ⟨record, member, sameKey, sameNonce, sameAad, max, payload, ciphertext,
    tag, encoded, cipher, joined⟩ := unforged handle physical stored shown bytes
      _ object secret.aead _ plaintext delivered shows isBytes framed decrypts
  obtain ⟨set, isSet, ownKey, ownLogical, ownExpr, ownBinding⟩ :=
    records_of_history lawful history record member
  -- The plaintext is the payload of the record.
  have reopened := lawful.aeadOpen _ _ _ _ _ _ cipher
  rw [sameKey, sameNonce, sameAad, ← joined, decrypts] at reopened
  cases reopened
  have content := decodePayload_unique decodes
    (decodePayload_encodePayload lawful.portable encoded)
  cases content
  -- The record was bound as the view binds.
  have binding : record.binding = table.binding physical := by
    apply Binding.aad_injective _ _ _ _ sameAad
    · rw [ownBinding]
      exact set.config.lane_fits
    · exact table.config.lane_fits
    · rw [ownBinding]
      exact set.config.class_fits
    · exact table.config.class_fits
  rw [ownBinding] at binding
  have lane := congrArg Binding.lane binding
  have generation := congrArg Binding.generation binding
  have names := congrArg Binding.physicalKey binding
  have metadata := congrArg Binding.metadataClass binding
  have blinded : set.secret.blinding = secret.blinding := by
    have here : physicalName primitives secret.blinding table.config.lane
        record.logical.name = physical.name :=
      congrArg Symbol.name placed
    exact (physicalName_injective lawful.hmac (names.trans here.symm)).1
  obtain ⟨text, portable⟩ := encodePayload_portable encoded
  obtain ⟨other, made, meaning⟩ := lawful.expr record.expr text portable
  cases made.symm.trans built
  obtain ⟨other, isOther, bare, sameValue, aead, blinding, laneSame,
    generationSame, metadataSame⟩ := covered set isSet
  refine ⟨other, isOther, ?_, ?_, ?_, blinding.trans blinded,
    laneSame.trans lane, generationSame.trans generation,
    metadataSame.trans metadata⟩
  · rw [bare, ownLogical]
  · rw [sameValue, ownExpr, meaning]
  · rw [aead, ← ownKey, sameKey]

variable (primitives backend) in
/-- Every pair that a read returns was set, through a view with the same binding. -/
structure AuthenticReads (sets : List (SetRecord Value)) (world : World σ Expr)
    (table : SealedTable Handle) (secret : SecretKey) : Prop where
  /-- A lookup returns nil for an absent name, or what was set at the key. -/
  get : ∀ logical value after,
    Yields (table.get primitives backend logical) world (.ok value) after →
    (Yields (backend.has table.backend
          (table.physical primitives secret logical)) world.store (.ok false)
          world.store ∧ primitives.nil = .ok value) ∨
      Authentic primitives sets table secret logical value
  keys : ∀ names after,
    Yields (table.keys primitives backend) world (.ok names) after →
    ∀ name ∈ names, ∃ value,
      Authentic primitives sets table secret name value
  entries : ∀ entries after,
    Yields (table.entries primitives backend) world (.ok entries) after →
    ∀ entry ∈ entries, Authentic primitives sets table secret entry.1 entry.2

theorem authentic_get
    (lawful : primitives.Lawful)
    (reads : backend.ReadsOnly)
    (history : History primitives backend sets world)
    (covered : Covered primitives sets)
    (unforged : Unforged primitives backend world)
    (granted : table.Granted secret world)
    (yields : Yields (table.get primitives backend logical) world (.ok value)
      after) :
    (Yields (backend.has table.backend
          (table.physical primitives secret logical)) world.store (.ok false)
          world.store ∧ primitives.nil = .ok value) ∨
      Authentic primitives sets table secret logical value := by
  obtain ⟨present, middle, asked, rest⟩ :=
    (granted.yields.rest yields).bind_ok
  obtain ⟨outcome, has⟩ := reads.has table.backend
    (table.physical primitives secret logical) world.store
  obtain ⟨rfl, rfl⟩ := (onStore_still has).unique asked
  cases present with
  | false =>
      have nothing := rest
      simp only [Bool.false_eq_true, if_false] at nothing
      exact .inl ⟨has, nothing.ofExcept_inv.1.symm⟩
  | true =>
      simp only [if_true] at rest
      obtain ⟨stored, later, got, opening⟩ := rest.bind_ok
      obtain ⟨outcome, delivered⟩ := reads.get table.backend
        (table.physical primitives secret logical) world.store
      obtain ⟨rfl, rfl⟩ := (onStore_still delivered).unique got
      obtain ⟨⟨name, found⟩, final, opened, done⟩ := opening.bind_ok
      obtain ⟨opens, rfl⟩ := opened.ofExcept_inv
      obtain ⟨same, _⟩ := (Yields.pure found _).unique done
      cases same
      obtain ⟨_, _, expected, _⟩ := openStored_eq_ok.mp opens.symm
      have sameName := expected logical rfl
      subst sameName
      exact .inr (authentic_of_openStored lawful history covered unforged
        delivered opens.symm)

/-- Reading an entry of an enumeration leaves the world. -/
theorem readEntry_still
    (reads : backend.ReadsOnly)
    (physical : Symbol) (world : World σ Expr) :
    ∃ outcome, Yields (table.readEntry primitives backend secret physical) world
      outcome world := by
  obtain ⟨outcome, delivered⟩ :=
    reads.get table.backend physical world.store
  cases outcome with
  | error error => exact ⟨_, (onStore_still delivered).bindError⟩
  | ok stored =>
      exact ⟨_, (onStore_still delivered).bind (.ofExcept _ world)⟩

theorem authentic_readEntry
    (lawful : primitives.Lawful)
    (reads : backend.ReadsOnly)
    (history : History primitives backend sets world)
    (covered : Covered primitives sets)
    (unforged : Unforged primitives backend world)
    {entry : Symbol × Value}
    (yields : Yields (table.readEntry primitives backend secret physical) world
      (.ok entry) world) :
    Authentic primitives sets table secret entry.1 entry.2 := by
  obtain ⟨stored, middle, got, opened⟩ := yields.bind_ok
  obtain ⟨outcome, delivered⟩ := reads.get table.backend physical world.store
  obtain ⟨rfl, rfl⟩ := (onStore_still delivered).unique got
  exact authentic_of_openStored lawful history covered unforged delivered
    opened.ofExcept_inv.1.symm

/-- What an enumeration reads entry by entry. -/
theorem readEntries_of_entries
    (reads : backend.ReadsOnly)
    (granted : table.Granted secret world)
    {entries : List (Symbol × Value)}
    (yields : Yields (table.entries primitives backend) world (.ok entries)
      after) :
    ∃ names, List.Forall₂ (fun physical entry =>
      Yields (table.readEntry primitives backend secret physical) world
        (.ok entry) world) names entries := by
  obtain ⟨listed, middle, asked, rest⟩ :=
    (granted.yields.rest yields).bind_ok
  obtain ⟨outcome, lists⟩ := reads.keys table.backend world.store
  obtain ⟨rfl, rfl⟩ := (onStore_still lists).unique asked
  exact ⟨_, Yields.mapM_inv
    (fun physical _ => readEntry_still reads physical world) rest⟩

/-- The keys are those of the entries. -/
theorem entries_of_keys
    (reads : backend.ReadsOnly)
    (granted : table.Granted secret world)
    {names : List Symbol}
    (yields : Yields (table.keys primitives backend) world (.ok names) after) :
    ∀ name ∈ names, ∃ physical value,
      Yields (table.readEntry primitives backend secret physical) world
        (.ok (name, value)) world := by
  obtain ⟨listed, middle, asked, rest⟩ :=
    (granted.yields.rest yields).bind_ok
  obtain ⟨outcome, lists⟩ := reads.keys table.backend world.store
  obtain ⟨rfl, rfl⟩ := (onStore_still lists).unique asked
  have each (physical : Symbol) : ∃ outcome, Yields
      (table.readEntry primitives backend secret physical) world outcome
      world := by
    obtain ⟨delivery, delivered⟩ := reads.get table.backend physical world.store
    have got := onStore_still delivered
    cases delivery with
    | error error => exact ⟨_, got.bindError⟩
    | ok stored => exact ⟨_, got.bind (.ofExcept _ _)⟩
  have opened := Yields.mapM_inv
    (fun physical _ => (each physical).elim fun _ found =>
      ⟨_, readKey_yields found⟩) rest
  intro name member
  obtain ⟨physical, _, read⟩ := exists_of_forall₂ opened member
  obtain ⟨outcome, found⟩ := each physical
  obtain ⟨same, _⟩ := read.unique (readKey_yields found)
  cases outcome with
  | error error => cases same
  | ok entry =>
      cases same
      exact ⟨physical, entry.2, found⟩

/-- All reads through all views give only what was set. -/
def OnlyWhatWasSet (primitives : Primitives Value Expr)
    (backend : Backend Handle Value σ) : Prop :=
  ∀ sets world (table : SealedTable Handle) secret,
    History primitives backend sets world →
    Covered primitives sets →
    Unforged primitives backend world →
    table.Granted secret world →
    AuthenticReads primitives backend sets world table secret

/-- Unless qualified keys are set, reads give only what was set at their keys. -/
theorem reads_only_what_was_set
    (lawful : primitives.Lawful)
    (reads : backend.ReadsOnly) :
    OnlyWhatWasSet primitives backend := by
  intro sets world table secret history covered unforged granted
  refine ⟨fun logical value after yields => ?_, fun names after yields => ?_,
    fun entries after yields => ?_⟩
  · exact authentic_get lawful reads history covered unforged granted yields
  · intro name member
    obtain ⟨physical, value, read⟩ :=
      entries_of_keys reads granted yields name member
    exact ⟨value, authentic_readEntry lawful reads history covered unforged
      read⟩
  · intro entry member
    obtain ⟨names, each⟩ := readEntries_of_entries reads granted yields
    obtain ⟨physical, _, read⟩ := exists_of_forall₂ each member
    exact authentic_readEntry lawful reads history covered unforged read

end Reads

end SealedTable

section Examples

theorem mapBackend_readsOnly
    {primitives : Primitives Value Expr} :
    (mapBackend primitives).ReadsOnly where
  get _ _ store := ⟨_, (Yields.get store).bind (.ofExcept _ store)⟩
  has _ _ store := ⟨_, (Yields.get store).bind (.pure _ store)⟩
  keys _ store := ⟨_, (Yields.get store).bind (.pure _ store)⟩

theorem reference_reads_only_what_was_set :
    SealedTable.OnlyWhatWasSet (Reference.primitives plainTagging)
      (mapBackend (Reference.primitives plainTagging)) :=
  SealedTable.reads_only_what_was_set
    (Reference.primitives_lawful plainTagging) mapBackend_readsOnly

/-- The physical name of a sample key. -/
def samplePhysical : Symbol :=
  sampleTable.physical (Reference.primitives plainTagging) Reference.secret
    (.qualified "space" "name")

/-- A tag of its own for the sample key's binding. -/
def sampleTagging : Reference.Tagging := fun key nonce aad =>
  if key = Reference.secret.aead ∧ aad = (sampleTable.binding samplePhysical).aad
  then ⟨List.replicate tagLen 1, List.length_replicate⟩
  else plainTagging key nonce aad

theorem sampleTagging_eq
    {key : KeyBytes} {nonce : Nonce} {aad : Bytes}
    (same : sampleTagging key nonce aad = sampleTagging Reference.secret.aead
      nonce (sampleTable.binding samplePhysical).aad) :
    key = Reference.secret.aead ∧
      aad = (sampleTable.binding samplePhysical).aad := by
  by_contra differs
  have values := congrArg Subtype.val same
  rw [sampleTagging, if_neg differs, sampleTagging, if_pos ⟨rfl, rfl⟩,
    plainTagging] at values
  exact absurd values (by decide)

/-- One set under a qualified key. -/
def sampleSet : SetRecord Reference.Sample :=
  ⟨Reference.config, Reference.secret, .qualified "space" "name",
    .text "value"⟩

/-- A value set under a qualified key is read under its bare form. -/
theorem qualified_set_read_as_bare :
    ∃ world, History (Reference.primitives sampleTagging)
        (mapBackend (Reference.primitives sampleTagging)) [sampleSet] world ∧
      Unforged (Reference.primitives sampleTagging)
        (mapBackend (Reference.primitives sampleTagging)) world ∧
      sampleTable.Granted Reference.secret world ∧
      ¬ SealedTable.AuthenticReads (Reference.primitives sampleTagging)
        (mapBackend (Reference.primitives sampleTagging)) [sampleSet] world
        sampleTable Reference.secret := by
  have lawful := Reference.primitives_lawful sampleTagging
  have mapLike := mapBackend_mapLike lawful
  have granted : sampleTable.Granted Reference.secret
      (Reference.world (∅ : PlainTable Reference.Sample)) := ⟨rfl, rfl⟩
  have ready : sampleTable.Ready
      (Reference.world (∅ : PlainTable Reference.Sample)) :=
    ⟨_, rfl, List.not_mem_nil, by decide⟩
  have fits : sampleTable.Fits (Reference.primitives sampleTagging)
      (.qualified "space" "name") (.text "value") := by
    refine ⟨.text "value", "value", rfl, rfl, ?_, ?_, ?_⟩ <;> decide
  obtain ⟨stored, middle, sealedValue⟩ : ∃ stored middle, Yields
      (sampleTable.sealValue (Reference.primitives sampleTagging)
        (.qualified "space" "name") samplePhysical (.text "value")
        Reference.secret)
      (Reference.world (∅ : PlainTable Reference.Sample)) (.ok stored) middle :=
    SealedTable.sealValue_yields lawful ready fits
  rcases SealedTable.sealValue_inv lawful sealedValue with ⟨_, impossible, _⟩ |
    ⟨_, same, sealedAs⟩
  · cases impossible
  cases same
  obtain ⟨store, written, contained⟩ :=
    mapLike.set samplePhysical stored middle.store
  rw [sealedAs.untouched.store] at contained
  have here : store.lookup samplePhysical = some stored := by
    simpa using congrFun contained samplePhysical
  refine ⟨{ middle with store := store }, ?_, ?_,
    ⟨congrFun (congrFun sealedAs.untouched.grants 0) "grant", rfl⟩, ?_⟩
  · exact .set (.start rfl) granted
      (granted.yields.bind
        (sealedValue.bind (SealedTable.onStore_yields written))) (.inl rfl)
  · intro handle physical delivered expr bytes max object key aad plaintext got
      shows isBytes framed opens
    have found := (mapLike.get physical store).unique got
    by_cases place : physical = samplePhysical
    swap
    · -- Elsewhere there is only nil.
      have nothing : store.lookup physical = none := by
        have elsewhere := congrFun contained physical
        rw [Function.update_of_ne place] at elsewhere
        exact elsewhere
      rw [nothing] at found
      cases found.1
      cases shows
      cases isBytes
    subst place
    rw [here] at found
    cases found.1
    obtain ⟨record, handed, isKey, isBinding, _, _, shown, coded, limit, other,
      showsToo, isBytesToo, framedToo, nonces, produced⟩ := sealedAs.handed
    cases shows.symm.trans showsToo
    cases isBytes.symm.trans isBytesToo
    cases SealedObject.decode_unique framed framedToo
    have member : record ∈ middle.handed := by
      rw [handed]
      exact List.mem_cons_self
    have tags := produced
    obtain ⟨_, payload, ciphertext, tag, _, cipher, joined⟩ := tags
    cases cipher
    have size : object.ciphertextAndTag.length - tagLen = payload.length := by
      rw [joined, List.length_append, (sampleTagging _ _ _).property]
      omega
    simp only [Reference.primitives, size] at opens
    rw [joined, List.drop_left, List.take_left] at opens
    split at opens
    swap
    · cases opens
    next tagged =>
    rw [isKey, isBinding, nonces] at tagged
    obtain ⟨sameKey, sameAad⟩ := sampleTagging_eq (Subtype.ext tagged.symm)
    exact ⟨record, member, by rw [isKey, sameKey], nonces,
      by rw [isBinding, sameAad], produced⟩
  · intro authentic
    obtain ⟨opened, opens, _⟩ := sealedAs.opens rfl
    have live : sampleTable.Granted Reference.secret
        { middle with store := store } :=
      ⟨congrFun (congrFun sealedAs.untouched.grants 0) "grant", rfl⟩
    have reads : Yields (sampleTable.get (Reference.primitives sampleTagging)
        (mapBackend (Reference.primitives sampleTagging)) (.new "name"))
        { middle with store := store } (.ok opened)
        { middle with store := store } := by
      have expected : sampleTable.openStored
          (Reference.primitives sampleTagging) (some (.new "name"))
            samplePhysical stored Reference.secret =
              .ok (.new "name", opened) :=
        SealedTable.openStored_some opens
      have found : SealedTable.opened (Reference.primitives sampleTagging)
          sampleTable Reference.secret (.new "name")
            (store.lookup samplePhysical) = .ok opened := by
        rw [here]
        exact congrArg (Except.map Prod.snd) expected
      rw [← found]
      exact SealedTable.get_yields mapLike live
    rcases authentic.get _ _ _ reads with ⟨absent, _⟩ | ⟨set, isSet, bare, _⟩
    · have present := mapLike.has samplePhysical store
      rw [here] at present
      cases (present.unique absent).1
    · cases List.mem_singleton.mp isSet
      exact absurd bare (by decide)

end Examples

end SimStorage.Sealed
