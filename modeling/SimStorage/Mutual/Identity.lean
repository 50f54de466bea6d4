import SimStorage.Codec.Framing
import SimStorage.Mutual.Consent

namespace SimStorage.Mutual

/-!
# What identities identify

The identities of offers, facts and receipts are hashes of codes that can be
read back, so they tell their content.  The code of a copy is a stream of
fields before a stream of links, and neither is counted: there the identity
tells the content exactly when no links spell fields.
-/

open Codec Framing Interaction

attribute [local instance] lexOrd

/-- Bytes whose length a machine word holds. -/
def sizedBytes : Set Bytes :=
  {bytes | bytes.length < wordBound}

instance (bytes : Bytes) : Decidable (bytes ∈ sizedBytes) :=
  inferInstanceAs (Decidable (bytes.length < wordBound))

/-- Texts whose length a machine word holds. -/
def sizedTexts : Set String :=
  {text | utf8 text ∈ sizedBytes}

instance (text : String) : Decidable (text ∈ sizedTexts) :=
  inferInstanceAs (Decidable (utf8 text ∈ sizedBytes))

/-- Identities under the algorithms, with names that a machine word measures. -/
def identities (algorithms : Set Symbol) : Set ContentId :=
  {id | id.algorithm ∈ algorithms ∧ id.algorithm.asQualifiedStr ∈ sizedTexts}

/-- What `Offer::new` hashes. -/
def Offer.preimage (offer : Offer) : Bytes :=
  utf8 "sim-mutual-offer-v1" ++
    ([offer.inviter, offer.recipient, offer.inviterKey,
        offer.recipientKey].flatMap (fun value => pushBytes (utf8 value)) ++
      pushId offer.fact ++
      offer.shape.fields.toList.flatMap (fun field => pushBytes (utf8 field)) ++
      be64 offer.expiresAt)

/-- What `Fact::synthetic` hashes. -/
def factPreimage (fields : Fields) : Bytes :=
  utf8 "sim-mutual-fact-v1" ++ encodeFields fields

/-- The code of provenance links. -/
def linkBytes (provenance : List ProvenanceLink) : Bytes :=
  provenance.flatMap fun link =>
    pushBytes (utf8 link.relation) ++ pushId link.content

/-- The code of named values. -/
def pairBytes (pairs : List (String × Bytes)) : Bytes :=
  pairs.flatMap fun pair => pushBytes (utf8 pair.1) ++ pushBytes pair.2

/-- What `copied_id` hashes. -/
def CopiedFact.preimage (copy : CopiedFact) : Bytes :=
  utf8 "sim-mutual-copy-v1" ++
    (pairBytes copy.fields.toList ++ linkBytes copy.provenance)

/-- What `receipt_id` hashes. -/
def receiptPreimage (offer : OfferId) (copied : ContentId) (at_ : UInt64) :
    Bytes :=
  utf8 "sim-mutual-receipt-v1" ++
    (pushId offer ++ pushId copied ++ be64 at_)

/-- The offer is one that `Offer::new` returns. -/
def Offer.Made (sha256 : Bytes → Digest) (offer : Offer) : Prop :=
  offer = Offer.new sha256 offer.inviter offer.recipient offer.inviterKey
    offer.recipientKey offer.fact offer.shape offer.expiresAt

/-- The texts of the offer have lengths that a machine word holds. -/
structure Offer.Sized (algorithms : Set Symbol) (offer : Offer) : Prop where
  inviter : offer.inviter ∈ sizedTexts
  recipient : offer.recipient ∈ sizedTexts
  inviterKey : offer.inviterKey ∈ sizedTexts
  recipientKey : offer.recipientKey ∈ sizedTexts
  fact : offer.fact ∈ identities algorithms
  names : ∀ name ∈ offer.shape.fields.toList, name ∈ sizedTexts

/-- So have the names and the values of the fields. -/
def sizedPairs : Set (String × Bytes) :=
  sizedTexts ×ˢ sizedBytes

/-- And the relations of links, under the algorithms. -/
def sizedLinks (algorithms : Set Symbol) : Set ProvenanceLink :=
  {link | link.relation ∈ sizedTexts ∧ link.content ∈ identities algorithms}

/-- The copy's lengths are those of a machine. -/
structure CopiedFact.Sized (algorithms : Set Symbol) (copy : CopiedFact) :
    Prop where
  fields : ∀ pair ∈ copy.fields.toList, pair ∈ sizedPairs
  provenance : ∀ link ∈ copy.provenance, link ∈ sizedLinks algorithms

/-- The copies have the same fields and the same provenance. -/
def CopiedFact.SameContent (copy other : CopiedFact) : Prop :=
  copy.fields = other.fields ∧ copy.provenance = other.provenance

/--
The other copy's fields are those of the copy and more, in the order of the
names, and the copy's links spell the further fields and the other's links.
-/
def CopiedFact.Spells (copy other : CopiedFact) : Prop :=
  ∃ extra, extra ≠ [] ∧
    other.fields.toList = copy.fields.toList ++ extra ∧
    linkBytes copy.provenance = pairBytes extra ++ linkBytes other.provenance

section Codes

variable {algorithms : Set Symbol}

theorem be64_injective :
    Function.Injective be64 :=
  Function.LeftInverse.injective fromBe64_be64

theorem pushBytes_delimits :
    Delimits sizedBytes pushBytes := by
  have headers : Delimits (List.length '' sizedBytes) fun length =>
      be64 (.ofNat length) := by
    refine .fixed ?_ fun length => be64_length _
    intro first isFirst second isSecond same
    obtain ⟨bytes, sized, rfl⟩ := isFirst
    obtain ⟨others, sizedToo, rfl⟩ := isSecond
    have words := congrArg UInt64.toNat (be64_injective same)
    rwa [UInt64.toNat_ofNat_of_lt' sized, UInt64.toNat_ofNat_of_lt' sizedToo]
      at words
  exact headers.framed

theorem pushText_delimits :
    Delimits sizedTexts fun text => pushBytes (utf8 text) :=
  pushBytes_delimits.comap (fun _ sized => sized)
    fun _ _ _ _ same => utf8_injective same

theorem pushBytes_ne_nil
    (bytes : Bytes) :
    pushBytes bytes ≠ [] := by
  have length : 8 ≤ (pushBytes bytes).length := by
    simp [pushBytes]
  intro impossible
  simp [impossible] at length

theorem pushId_delimits
    (told : Set.InjOn Symbol.asQualifiedStr algorithms) :
    Delimits (identities algorithms) pushId := by
  have digests : Delimits Set.univ fun digest : Digest => digest.val :=
    .fixed (fun _ _ _ _ same => Subtype.ext same) fun digest => digest.property
  have parts : Set.InjOn (fun id : ContentId =>
      (id.algorithm.asQualifiedStr, id.digest)) (identities algorithms) := by
    intro first isFirst second isSecond same
    obtain ⟨texts, digests⟩ := Prod.mk.inj same
    exact (ContentId.mk.injEq ..).mpr
      ⟨told isFirst.1 isSecond.1 texts, digests⟩
  have lands : Set.MapsTo (fun id : ContentId =>
      (id.algorithm.asQualifiedStr, id.digest)) (identities algorithms)
      (sizedTexts ×ˢ Set.univ) :=
    fun id isId => ⟨isId.2, Set.mem_univ _⟩
  have whole := (pushText_delimits.append digests).comap lands parts
  exact whole

theorem pushPair_delimits :
    Delimits sizedPairs fun pair =>
      pushBytes (utf8 pair.1) ++ pushBytes pair.2 :=
  pushText_delimits.append pushBytes_delimits

theorem pushLink_delimits
    (told : Set.InjOn Symbol.asQualifiedStr algorithms) :
    Delimits (sizedLinks algorithms) fun link =>
      pushBytes (utf8 link.relation) ++ pushId link.content := by
  have parts : Set.InjOn (fun link : ProvenanceLink =>
      (link.relation, link.content)) (sizedLinks algorithms) := by
    intro first _ second _ same
    exact (ProvenanceLink.mk.injEq ..).mpr (Prod.mk.inj same)
  have lands : Set.MapsTo (fun link : ProvenanceLink =>
      (link.relation, link.content)) (sizedLinks algorithms)
      (sizedTexts ×ˢ identities algorithms) :=
    fun link isLink => ⟨isLink.1, isLink.2⟩
  have whole :=
    (pushText_delimits.append (pushId_delimits told)).comap lands parts
  exact whole

end Codes

section Identities

variable {sha256 : Bytes → Digest} {inputs : Set Bytes}
variable {algorithms : Set Symbol}

/-- Where hashes do not collide, an identity tells what was hashed. -/
theorem contentId_told
    (free : Set.InjOn sha256 inputs)
    {domain : String} {bytes others : Bytes}
    (hashed : utf8 domain ++ bytes ∈ inputs)
    (hashedToo : utf8 domain ++ others ∈ inputs)
    (same : contentId sha256 domain bytes = contentId sha256 domain others) :
    bytes = others := by
  have digests : sha256 (utf8 domain ++ bytes) = sha256 (utf8 domain ++ others) :=
    congrArg ContentId.digest same
  exact List.append_cancel_left (free hashed hashedToo digests)

theorem offers_told
    (free : Set.InjOn sha256 inputs)
    (told : Set.InjOn Symbol.asQualifiedStr algorithms)
    {first second : Offer}
    (made : first.Made sha256)
    (madeToo : second.Made sha256)
    (sized : first.Sized algorithms)
    (sizedToo : second.Sized algorithms)
    (hashed : first.preimage ∈ inputs)
    (hashedToo : second.preimage ∈ inputs)
    (same : first.id = second.id) :
    first = second := by
  rw [made, madeToo] at same
  have codes := contentId_told free hashed hashedToo same
  simp only [List.flatMap_cons, List.flatMap_nil, List.append_nil,
    List.append_assoc] at codes
  obtain ⟨inviters, codes⟩ :=
    pushText_delimits _ sized.inviter _ sizedToo.inviter _ _ codes
  obtain ⟨recipients, codes⟩ :=
    pushText_delimits _ sized.recipient _ sizedToo.recipient _ _ codes
  obtain ⟨inviterKeys, codes⟩ :=
    pushText_delimits _ sized.inviterKey _ sizedToo.inviterKey _ _ codes
  obtain ⟨recipientKeys, codes⟩ :=
    pushText_delimits _ sized.recipientKey _ sizedToo.recipientKey _ _ codes
  obtain ⟨facts, codes⟩ :=
    pushId_delimits told _ sized.fact _ sizedToo.fact _ _ codes
  -- the names end where the eight bytes of the expiry begin
  obtain ⟨names, expiries⟩ := pushText_delimits.flatMap
    (fun name => pushBytes_ne_nil _) sized.names sizedToo.names
    ((be64_length _).trans (be64_length _).symm) codes
  have shapes : first.shape = second.shape :=
    (FieldShape.mk.injEq ..).mpr (Std.ExtTreeSet.toList_inj.mp names)
  rw [made, madeToo, inviters, recipients, inviterKeys, recipientKeys, facts,
    shapes, be64_injective expiries]

theorem fields_told
    (free : Set.InjOn sha256 inputs)
    {fields others : Fields} {provenance links : List ProvenanceLink}
    (sized : ∀ pair ∈ fields.toList, pair ∈ sizedPairs)
    (sizedToo : ∀ pair ∈ others.toList, pair ∈ sizedPairs)
    (hashed : factPreimage fields ∈ inputs)
    (hashedToo : factPreimage others ∈ inputs)
    (same : (Fact.synthetic sha256 fields provenance).id =
      (Fact.synthetic sha256 others links).id) :
    fields = others := by
  have codes := contentId_told free hashed hashedToo same
  apply Std.ExtTreeMap.toList_inj.mp
  refine pushPair_delimits.flatMap_injective (fun pair empty => ?_) sized
    sizedToo codes
  exact pushBytes_ne_nil _ (List.append_eq_nil_iff.mp empty).1

theorem receipts_told
    (free : Set.InjOn sha256 inputs)
    (told : Set.InjOn Symbol.asQualifiedStr algorithms)
    {offer other copied copy : ContentId} {at_ time : UInt64}
    (offers : offer ∈ identities algorithms ∧ other ∈ identities algorithms)
    (copies : copied ∈ identities algorithms ∧ copy ∈ identities algorithms)
    (hashed : receiptPreimage offer copied at_ ∈ inputs)
    (hashedToo : receiptPreimage other copy time ∈ inputs)
    (same : receiptId sha256 offer copied at_ =
      receiptId sha256 other copy time) :
    offer = other ∧ copied = copy ∧ at_ = time := by
  have codes := contentId_told free hashed hashedToo same
  simp only [List.append_assoc] at codes
  obtain ⟨sameOffer, codes⟩ :=
    pushId_delimits told _ offers.1 _ offers.2 _ _ codes
  obtain ⟨sameCopy, codes⟩ :=
    pushId_delimits told _ copies.1 _ copies.2 _ _ codes
  exact ⟨sameOffer, sameCopy, be64_injective codes⟩

/--
Where hashes do not collide and a symbol's text tells it, the identity of an
offer tells the offer, that of a fact its fields, and that of a receipt the
offer, the copy and the time.
-/
theorem identities_identify
    (free : Set.InjOn sha256 inputs)
    (told : Set.InjOn Symbol.asQualifiedStr algorithms) :
    (∀ first second : Offer, first.Made sha256 → second.Made sha256 →
      first.Sized algorithms → second.Sized algorithms →
      first.preimage ∈ inputs → second.preimage ∈ inputs →
      first.id = second.id → first = second) ∧
    (∀ (fields others : Fields) (provenance links : List ProvenanceLink),
      (∀ pair ∈ fields.toList, pair ∈ sizedPairs) →
      (∀ pair ∈ others.toList, pair ∈ sizedPairs) →
      factPreimage fields ∈ inputs → factPreimage others ∈ inputs →
      (Fact.synthetic sha256 fields provenance).id =
        (Fact.synthetic sha256 others links).id → fields = others) ∧
    ∀ (offer other copied copy : ContentId) (at_ time : UInt64),
      offer ∈ identities algorithms ∧ other ∈ identities algorithms →
      copied ∈ identities algorithms ∧ copy ∈ identities algorithms →
      receiptPreimage offer copied at_ ∈ inputs →
      receiptPreimage other copy time ∈ inputs →
      receiptId sha256 offer copied at_ = receiptId sha256 other copy time →
      offer = other ∧ copied = copy ∧ at_ = time :=
  ⟨fun _ _ made madeToo sized sizedToo hashed hashedToo =>
      offers_told free told made madeToo sized sizedToo hashed hashedToo,
    fun _ _ _ _ sized sizedToo hashed hashedToo =>
      fields_told free sized sizedToo hashed hashedToo,
    fun _ _ _ _ _ _ offers copies hashed hashedToo =>
      receipts_told free told offers copies hashed hashedToo⟩

end Identities

section Sample

/-- Offers that differ in their expiry only. -/
def sampleOffers (expiresAt : UInt64) : Offer :=
  Offer.new Reference.digest "Mia" "Bo" "mia-key" "bo-key" sampleId sampleShape
    expiresAt

/-- The bytes that identify two offers, two facts and two receipts. -/
def sampleHashed : List Bytes :=
  [(sampleOffers 1).preimage, (sampleOffers 2).preimage,
    factPreimage ∅, factPreimage sampleFact.fields,
    receiptPreimage sampleId sampleId 1, receiptPreimage sampleId sampleId 2]

theorem sampleHashed_free :
    Set.InjOn Reference.digest {bytes | bytes ∈ sampleHashed} := by
  have distinct : (sampleHashed.map Reference.digest).Nodup := by
    decide +kernel
  intro first isFirst second isSecond same
  exact List.inj_on_of_nodup_map distinct isFirst isSecond same

theorem sampleId_identity :
    sampleId ∈ identities {Symbol.new "sample"} :=
  ⟨rfl, by decide +kernel⟩

theorem sampleOffers_sized
    (expiresAt : UInt64) :
    (sampleOffers expiresAt).Sized {Symbol.new "sample"} where
  inviter := (by decide +kernel : "Mia" ∈ sizedTexts)
  recipient := (by decide +kernel : "Bo" ∈ sizedTexts)
  inviterKey := (by decide +kernel : "mia-key" ∈ sizedTexts)
  recipientKey := (by decide +kernel : "bo-key" ∈ sizedTexts)
  fact := sampleId_identity
  names := by
    have names : sampleShape.fields.toList = ["chosen"] := by decide +kernel
    intro name member
    change name ∈ sampleShape.fields.toList at member
    rw [names] at member
    rw [List.mem_singleton.mp member]
    decide +kernel

/-- The identities of two offers, two facts and two receipts differ. -/
theorem sample_identities_identify :
    (sampleOffers 1).id ≠ (sampleOffers 2).id ∧
      (Fact.synthetic Reference.digest ∅ []).id ≠
        (Fact.synthetic Reference.digest sampleFact.fields []).id ∧
      receiptId Reference.digest sampleId sampleId 1 ≠
        receiptId Reference.digest sampleId sampleId 2 := by
  obtain ⟨offers, facts, receipts⟩ := identities_identify sampleHashed_free
    (Set.injOn_singleton _ _ : Set.InjOn Symbol.asQualifiedStr
      {Symbol.new "sample"})
  have none : (∅ : Fields).toList = [] := rfl
  have one : sampleFact.fields.toList = [("chosen", [1])] := by decide +kernel
  refine ⟨fun same => ?_, fun same => ?_, fun same => ?_⟩
  · have impossible := offers (sampleOffers 1) (sampleOffers 2) rfl rfl
      (sampleOffers_sized 1) (sampleOffers_sized 2) (by simp [sampleHashed])
      (by simp [sampleHashed]) same
    exact absurd (congrArg Offer.expiresAt impossible) (by decide)
  · have impossible := facts ∅ sampleFact.fields [] [] (by simp [none]) (by
      intro pair member
      rw [one] at member
      rw [List.mem_singleton.mp member]
      exact ⟨by decide, by decide⟩) (by simp [sampleHashed])
      (by simp [sampleHashed]) same
    have lists := congrArg Std.ExtTreeMap.toList impossible
    rw [none, one] at lists
    cases lists
  · have impossible := receipts sampleId sampleId sampleId sampleId 1 2
      ⟨sampleId_identity, sampleId_identity⟩
      ⟨sampleId_identity, sampleId_identity⟩ (by simp [sampleHashed])
      (by simp [sampleHashed]) same
    exact absurd impossible.2.2 (by decide)

end Sample

section Deliveries

variable {verifier : KeyId → Bytes → Bytes → Bool} {sha256 : Bytes → Digest}
variable {history : List Entry} {state : State} {porch later : Porch}
variable {id : OfferId} {fact : Fact} {fail : Bool}
variable {receipt : ProjectionReceipt}

/-- A receipt beside a copy has the copy's identity. -/
def State.Receipted (sha256 : Bytes → Digest) (state : State) : Prop :=
  ∀ (id : OfferId) (copy : CopiedFact) (receipt : ProjectionReceipt),
    state.copies[id]? = some copy →
    state.receipts[id]? = some receipt → receipt.copied = copiedId sha256 copy

/-- A delivery leaves the copy that its receipt identifies. -/
theorem deliverNew_publishes
    (yields : Yields (deliverNew sha256 id fact fail) porch (.ok receipt)
      later) :
    ∃ copy, later.state.copies[receipt.offer]? = some copy ∧
      receipt.copied = copiedId sha256 copy := by
  obtain ⟨offer, _, _, checks⟩ := yields.bind_ok
  obtain ⟨_, _, _, reads⟩ := checks.bind_ok
  obtain ⟨found, _, _, accepts⟩ := reads.bind_ok
  split at accepts
  · cases (accepts.unique (.throw _ _)).1
  split at accepts
  · cases (accepts.unique (.throw _ _)).1
  obtain ⟨fields, _, _, publishes⟩ := accepts.bind_ok
  split at publishes
  · cases (publishes.unique (.throw _ _)).1
  obtain ⟨time, _, _, updates⟩ := publishes.bind_ok
  have returns := (update_yields _ _).rest updates
  obtain ⟨same, rfl⟩ := returns.unique (.pure _ _)
  cases same
  exact ⟨_, Std.ExtTreeMap.getElem?_insert_self, rfl⟩

theorem State.Receipted.close
    {time : UInt64} {reason : String}
    (receipted : state.Receipted sha256) :
    (state.close id time reason).Receipted sha256 := by
  by_cases isEnded : id ∈ state.ended
  · rwa [State.close, if_pos isEnded]
  · intro query copy receipt present known
    simp only [State.close, if_neg isEnded, Std.ExtTreeMap.getElem?_erase]
      at present known
    split at present
    · cases present
    · exact receipted query copy receipt present known

theorem State.Receipted.publish
    {copy : CopiedFact}
    (receipted : state.Receipted sha256)
    (identified : receipt.copied = copiedId sha256 copy) :
    (state.publish copy receipt).Receipted sha256 := by
  intro query found other present known
  simp only [State.publish, Std.ExtTreeMap.getElem?_insert,
    Std.LawfulEqCmp.compare_eq_iff_eq] at present known
  split at present
  · next here =>
      rw [if_pos here] at known
      cases present
      cases known
      exact identified
  · next elsewhere =>
      rw [if_neg elsewhere] at known
      exact receipted query found other present known

/-- Every call keeps receipts beside their copies. -/
theorem State.Receipted.step
    {call : PorchCall} {outcome : Except PorchError PorchReply}
    {clock rest : Nat → UInt64} {after : State}
    (receipted : state.Receipted sha256)
    (yields : Yields (porchCall verifier sha256 call) ⟨state, clock⟩ outcome
      ⟨after, rest⟩) :
    after.Receipted sha256 := by
  have step : PorchStep verifier (clock 0) state call outcome after :=
    porchCall_step yields
  cases step with
  | invited _ _ => exact receipted
  | accepted _ _ _ _ => exact receipted
  | @refused id party time =>
      have refused : (state.refuse id).Receipted sha256 := by
        rw [State.refuse]
        split <;> exact receipted
      exact refused.close
  | @delivered id fact offer fields receipt absent _ _ _ _ _ _ _ =>
      obtain ⟨inner, delivers, same⟩ := reply_inv yields
      have looking := (Yields.get _).rest delivers
      simp only [absent] at looking
      cases inner with
      | error error => cases same
      | ok found =>
          cases same
          obtain ⟨copy, present, identified⟩ := deliverNew_publishes looking
          have published := Std.ExtTreeMap.getElem?_insert_self.symm.trans present
          cases published
          exact receipted.publish identified
  | redelivered _ => exact receipted
  | expired time => exact receipted.close
  | inactive _ => exact receipted
  | copied _ _ _ _ => exact receipted
  | revoked time => exact receipted.close
  | failed _ => exact receipted

theorem PorchRun.receipted
    (run : PorchRun verifier sha256 history state) :
    state.Receipted sha256 := by
  induction run with
  | start =>
      intro id copy receipt present
      simp [State.new] at present
  | call _ yields inductionHypothesis => exact inductionHypothesis.step yields

end Deliveries

section Copies

variable {sha256 : Bytes → Digest} {inputs : Set Bytes}
variable {algorithms : Set Symbol} {first second : CopiedFact}

/-- Links that spell fields give another copy the same identity. -/
theorem CopiedFact.Spells.same_id
    (spells : first.Spells second) :
    copiedId sha256 first = copiedId sha256 second := by
  obtain ⟨extra, _, fields, links⟩ := spells
  have codes : pairBytes first.fields.toList ++ linkBytes first.provenance =
      pairBytes second.fields.toList ++ linkBytes second.provenance := by
    rw [fields, links, pairBytes, pairBytes, pairBytes, List.flatMap_append,
      List.append_assoc]
  exact congrArg (contentId sha256 "sim-mutual-copy-v1") codes

theorem CopiedFact.Spells.other_content
    (spells : first.Spells second) :
    first.fields ≠ second.fields := by
  obtain ⟨extra, more, fields, _⟩ := spells
  intro same
  rw [same, List.self_eq_append_right] at fields
  exact more fields

/-- Copies of one identity have the same content, or one spells the other. -/
theorem copies_told
    (free : Set.InjOn sha256 inputs)
    (told : Set.InjOn Symbol.asQualifiedStr algorithms)
    (sized : first.Sized algorithms)
    (sizedToo : second.Sized algorithms)
    (hashed : first.preimage ∈ inputs)
    (hashedToo : second.preimage ∈ inputs)
    (same : copiedId sha256 first = copiedId sha256 second) :
    first.SameContent second ∨ first.Spells second ∨ second.Spells first := by
  have codes := contentId_told free hashed hashedToo same
  have links : ∀ copy other : CopiedFact, copy.Sized algorithms →
      other.Sized algorithms →
      linkBytes copy.provenance = linkBytes other.provenance →
      copy.provenance = other.provenance := by
    intro copy other isSized isSizedToo spelt
    refine (pushLink_delimits told).flatMap_injective (fun link empty => ?_)
      isSized.provenance isSizedToo.provenance spelt
    exact pushBytes_ne_nil _ (List.append_eq_nil_iff.mp empty).1
  rcases pushPair_delimits.flatMap_append sized.fields sizedToo.fields codes
    with ⟨extra, fields, spelt⟩ | ⟨extra, fields, spelt⟩
  · by_cases none : extra = []
    · subst none
      rw [List.append_nil] at fields
      exact .inl ⟨(Std.ExtTreeMap.toList_inj.mp fields).symm,
        links _ _ sized sizedToo spelt⟩
    · exact .inr (.inl ⟨extra, none, fields, spelt⟩)
  · by_cases none : extra = []
    · subst none
      rw [List.append_nil] at fields
      exact .inl ⟨Std.ExtTreeMap.toList_inj.mp fields,
        (links _ _ sizedToo sized spelt).symm⟩
    · exact .inr (.inr ⟨extra, none, fields, spelt⟩)

/--
Where hashes do not collide and a symbol's text tells it, the identity of a
copy tells its content against another copy exactly when neither copy's links
spell fields of the other; and so do receipts of the copies.
-/
theorem copiedId_tells_iff
    (free : Set.InjOn sha256 inputs)
    (told : Set.InjOn Symbol.asQualifiedStr algorithms)
    (sized : first.Sized algorithms)
    (sizedToo : second.Sized algorithms)
    (hashed : first.preimage ∈ inputs)
    (hashedToo : second.preimage ∈ inputs) :
    ((copiedId sha256 first = copiedId sha256 second →
        first.SameContent second) ↔
      ¬ first.Spells second ∧ ¬ second.Spells first) ∧
    ∀ verifier history state verifierToo historyToo stateToo
      (id other : OfferId) (receipt receiptToo : ProjectionReceipt),
      PorchRun verifier sha256 history state →
      PorchRun verifierToo sha256 historyToo stateToo →
      state.copies[id]? = some first → state.receipts[id]? = some receipt →
      stateToo.copies[other]? = some second →
      stateToo.receipts[other]? = some receiptToo →
      ((receipt.copied = receiptToo.copied → first.SameContent second) ↔
        ¬ first.Spells second ∧ ¬ second.Spells first) := by
  have tells_iff : (copiedId sha256 first = copiedId sha256 second →
      first.SameContent second) ↔
      ¬ first.Spells second ∧ ¬ second.Spells first := by
    constructor
    · exact fun tells => ⟨fun spells =>
          spells.other_content (tells spells.same_id).1,
        fun spells => spells.other_content (tells spells.same_id.symm).1.symm⟩
    · intro clear same
      rcases copies_told free told sized sizedToo hashed hashedToo same with
        content | spells | spells
      · exact content
      · exact absurd spells clear.1
      · exact absurd spells clear.2
  refine ⟨tells_iff, fun _ _ _ _ _ _ _ _ _ _ run runToo copied received copiedToo
    receivedToo => ?_⟩
  rw [run.receipted _ _ _ copied received,
    runToo.receipted _ _ _ copiedToo receivedToo]
  exact tells_iff

end Copies

section Sample

/-- A copy with one field, and a link whose digest spells a name and a value. -/
def spellingCopy : CopiedFact where
  source := sampleId
  fields := (∅ : Fields).insert "a" [1]
  provenance := [⟨"b", ⟨.new "c",
    pushBytes (utf8 "dddddddd") ++ pushBytes [0, 0, 0, 0, 0, 0, 0, 0], rfl⟩⟩]

/-- The copy that it spells, with three fields and no link. -/
def spelledCopy : CopiedFact where
  source := sampleId
  fields := ((∅ : Fields).insert "a" [1]).insert "b" (utf8 "c") |>.insert
    "dddddddd" [0, 0, 0, 0, 0, 0, 0, 0]
  provenance := []

theorem spellingCopy_spells :
    spellingCopy.Spells spelledCopy :=
  ⟨[("b", utf8 "c"), ("dddddddd", [0, 0, 0, 0, 0, 0, 0, 0])], by simp,
    by decide +kernel, by decide +kernel⟩

/-- Two copies with different content have the same identity. -/
theorem spelled_copy_shares_identity :
    copiedId Reference.digest spellingCopy =
        copiedId Reference.digest spelledCopy ∧
      ¬ spellingCopy.SameContent spelledCopy :=
  ⟨spellingCopy_spells.same_id,
    fun content => spellingCopy_spells.other_content content.1⟩

/-- For these two, the identity tells the content just when neither spells. -/
theorem sample_copiedId_tells :
    (copiedId Reference.digest spellingCopy =
        copiedId Reference.digest spelledCopy →
      spellingCopy.SameContent spelledCopy) ↔
      ¬ spellingCopy.Spells spelledCopy ∧
        ¬ spelledCopy.Spells spellingCopy := by
  have fields : spellingCopy.fields.toList = [("a", [1])] := by decide +kernel
  have fieldsToo : spelledCopy.fields.toList = [("a", [1]), ("b", utf8 "c"),
      ("dddddddd", [0, 0, 0, 0, 0, 0, 0, 0])] := by decide +kernel
  have sized : spellingCopy.Sized {Symbol.new "c"} := by
    constructor
    · intro pair member
      rw [fields] at member
      rw [List.mem_singleton.mp member]
      exact ⟨by decide, by decide⟩
    · intro link member
      rw [List.mem_singleton.mp member]
      exact ⟨by decide, rfl, by decide⟩
  have sizedToo : spelledCopy.Sized {Symbol.new "c"} := by
    constructor
    · intro pair member
      rw [fieldsToo] at member
      simp only [List.mem_cons, List.not_mem_nil, or_false] at member
      rcases member with rfl | rfl | rfl <;> exact ⟨by decide, by decide⟩
    · exact fun link member => absurd member List.not_mem_nil
  have hashed : spelledCopy.preimage ∈
      ({spellingCopy.preimage} : Set Bytes) := by
    decide +kernel
  exact (copiedId_tells_iff (Set.injOn_singleton _ _) (Set.injOn_singleton _ _)
    sized sizedToo rfl hashed).1

end Sample

end SimStorage.Mutual
