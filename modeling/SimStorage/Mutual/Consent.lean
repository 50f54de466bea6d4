import SimStorage.Kernel.Reference
import SimStorage.Mutual.Audit

namespace SimStorage.Mutual

/-!
# Consent

In every run of a porch, a copy that can be read was delivered after both
parties accepted, and an offer that has ended keeps nothing and gives nothing.
-/

open Codec Interaction

attribute [local instance] lexOrd

/-- A call, the readings of the clock and the outcome. -/
structure Entry where
  call : PorchCall
  clock : Nat → UInt64
  outcome : Except PorchError PorchReply

/-- Calls one after the other from a new porch, latest first. -/
inductive PorchRun (verifier : KeyId → Bytes → Bytes → Bool)
    (sha256 : Bytes → Digest) : List Entry → State → Prop where
  | start : PorchRun verifier sha256 [] .new
  | call
      {history : List Entry}
      {state : State}
      {call : PorchCall}
      {clock : Nat → UInt64}
      {outcome : Except PorchError PorchReply}
      {after : Porch} :
      PorchRun verifier sha256 history state →
      Yields (porchCall verifier sha256 call) ⟨state, clock⟩ outcome after →
      PorchRun verifier sha256 (⟨call, clock, outcome⟩ :: history) after.state

namespace Entry

/-- The call ended the offer, or found that it had ended. -/
def Ends (entry : Entry) (id : OfferId) : Prop :=
  match entry.call, entry.outcome with
  | .refuse offer _, .ok _ => offer = id
  | .revoke offer _, .ok _ => offer = id
  | .read offer, .error .inactive => offer = id
  | _, _ => False

/-- The call invited to the offer. -/
def Invites (entry : Entry) (offer : Offer) : Prop :=
  entry.call = .invite offer ∧ entry.outcome = .ok (.invited offer.id)

/-- The call recorded the party's acceptance with a proof under the key. -/
def Accepts (verifier : KeyId → Bytes → Bytes → Bool) (entry : Entry)
    (offer : Offer) (party : PartyId) (key : KeyId) : Prop :=
  ∃ acceptance : Acceptance,
    entry.call = .accept acceptance ∧ entry.outcome = .ok .accepted ∧
      acceptance.offer = offer.id ∧ acceptance.party = party ∧
      acceptance.key = key ∧
      verifier key offer.acceptanceMessage acceptance.proof

/-- The call delivered the fact. -/
def Delivers (entry : Entry) (id : OfferId) (fact : Fact) : Prop :=
  ∃ fail receipt, entry.call = .deliver id fact fail ∧
    entry.outcome = .ok (.delivered receipt)

end Entry

/-- The offer was invited, with distinct parties and distinct keys. -/
structure Invited (history : List Entry) (offer : Offer) : Prop where
  parties : offer.inviter ≠ offer.recipient
  keys : offer.inviterKey ≠ offer.recipientKey
  entry : ∃ entry ∈ history, entry.Invites offer

/-- Both parties accepted, each under its key in the offer. -/
structure Agreed (verifier : KeyId → Bytes → Bytes → Bool)
    (history : List Entry) (offer : Offer) : Prop where
  inviter : ∃ entry ∈ history,
    entry.Accepts verifier offer offer.inviter offer.inviterKey
  recipient : ∃ entry ∈ history,
    entry.Accepts verifier offer offer.recipient offer.recipientKey

/-- The copy comes from a delivery of the offer's fact after both accepted. -/
def Delivered (verifier : KeyId → Bytes → Bytes → Bool)
    (history : List Entry) (offer : Offer) (copy : CopiedFact) : Prop :=
  ∃ later entry earlier fact, history = later ++ entry :: earlier ∧
    entry.Delivers offer.id fact ∧ Agreed verifier earlier offer ∧
    fact.id = offer.fact ∧
    project fact offer.shape.fields.toList ∅ = .ok copy.fields ∧
    copy.source = fact.id ∧ copy.provenance = fact.provenance

section Histories

variable {verifier : KeyId → Bytes → Bytes → Bool} {sha256 : Bytes → Digest}
variable {history : List Entry} {offer : Offer} {copy : CopiedFact}
variable {entry : Entry}

theorem Invited.cons
    (invited : Invited history offer) :
    Invited (entry :: history) offer := by
  obtain ⟨found, member, invites⟩ := invited.entry
  exact ⟨invited.parties, invited.keys, found,
    List.mem_cons_of_mem _ member, invites⟩

theorem Delivered.cons
    (delivered : Delivered verifier history offer copy) :
    Delivered verifier (entry :: history) offer copy := by
  obtain ⟨later, found, earlier, fact, rfl, delivers⟩ := delivered
  exact ⟨entry :: later, found, earlier, fact, rfl, delivers⟩

end Histories

/-- What the maps say about the history. -/
structure Recorded (verifier : KeyId → Bytes → Bytes → Bool)
    (history : List Entry) (state : State) : Prop where
  audited : state.Audited
  offers : ∀ (id : OfferId) (offer : Offer), state.offers[id]? = some offer →
    Invited history offer
  acceptances : ∀ (id : OfferId) (party : PartyId),
    (id, party) ∈ state.acceptances → id ∉ state.ended ∧
      ∃ offer key entry, state.offers[id]? = some offer ∧
        offer.keyOf party = some key ∧ entry ∈ history ∧
        entry.Accepts verifier offer party key
  copies : ∀ (id : OfferId) (copy : CopiedFact),
    state.copies[id]? = some copy → id ∉ state.ended ∧
      ∃ offer, state.offers[id]? = some offer ∧
        Delivered verifier history offer copy
  ends : ∀ (id : OfferId) (entry : Entry), entry ∈ history → entry.Ends id →
    id ∈ state.ended

section Preservation

variable {verifier : KeyId → Bytes → Bytes → Bool} {sha256 : Bytes → Digest}
variable {history : List Entry} {state after : State}
variable {offer : Offer} {id : OfferId}

theorem Recorded.new :
    Recorded verifier [] .new where
  audited := .new
  offers _ _ impossible := by simp [State.new] at impossible
  acceptances _ _ impossible := by simp [State.new] at impossible
  copies _ _ impossible := by simp [State.new] at impossible
  ends _ _ impossible := absurd impossible List.not_mem_nil

/-- A call that leaves the state is one more entry. -/
theorem Recorded.cons
    {entry : Entry}
    (recorded : Recorded verifier history state)
    (ends : ∀ id, entry.Ends id → id ∈ state.ended) :
    Recorded verifier (entry :: history) state where
  audited := recorded.audited
  offers id offer found := (recorded.offers id offer found).cons
  acceptances id party member := by
    obtain ⟨isOpen, offer, key, found, invited, keyed, earlier, accepts⟩ :=
      recorded.acceptances id party member
    exact ⟨isOpen, offer, key, found, invited, keyed,
      List.mem_cons_of_mem _ earlier, accepts⟩
  copies id copy found := by
    obtain ⟨isOpen, offer, invited, delivered⟩ := recorded.copies id copy found
    exact ⟨isOpen, offer, invited, delivered.cons⟩
  ends id found member isEnd := by
    rcases List.mem_cons.mp member with rfl | earlier
    · exact ends id isEnd
    · exact recorded.ends id found earlier isEnd

/-- Offers that were invited before stay as they are. -/
theorem State.invite_offers
    {found : Offer}
    (invited : state.offers[id]? = some found) :
    (state.invite offer).offers[id]? = some found := by
  simp only [State.invite, Std.ExtTreeMap.getElem?_insertIfNew,
    Std.LawfulEqCmp.compare_eq_iff_eq]
  rw [if_neg]
  · exact invited
  · rintro ⟨rfl, absent⟩
    rw [← Std.ExtTreeMap.isSome_getElem?_iff_mem, invited] at absent
    exact absent rfl

theorem Recorded.invite
    (recorded : Recorded verifier history state)
    (invited : Invited history offer) :
    Recorded verifier history (state.invite offer) where
  audited := recorded.audited.invite
  offers id found present := by
    simp only [State.invite, Std.ExtTreeMap.getElem?_insertIfNew,
      Std.LawfulEqCmp.compare_eq_iff_eq] at present
    split at present
    · cases present
      exact invited
    · exact recorded.offers id found present
  acceptances id party member := by
    obtain ⟨isOpen, found, key, entry, known, rest⟩ :=
      recorded.acceptances id party member
    exact ⟨isOpen, found, key, entry, State.invite_offers known, rest⟩
  copies id copy present := by
    obtain ⟨isOpen, found, known, delivered⟩ := recorded.copies id copy present
    exact ⟨isOpen, found, State.invite_offers known, delivered⟩
  ends := recorded.ends

theorem Recorded.accept
    {acceptance : Acceptance} {entry : Entry}
    (recorded : Recorded verifier history state)
    (invited : state.offers[offer.id]? = some offer)
    (isOpen : offer.id ∉ state.ended)
    (keyed : offer.keyOf acceptance.party = some acceptance.key)
    (member : entry ∈ history)
    (accepts : entry.Accepts verifier offer acceptance.party acceptance.key) :
    Recorded verifier history (state.accept offer acceptance) where
  audited := recorded.audited.accept
  offers := recorded.offers
  acceptances id party present := by
    simp only [State.accept, Std.ExtTreeMap.mem_insertIfNew,
      Std.LawfulEqCmp.compare_eq_iff_eq, Prod.mk.injEq] at present
    rcases present with ⟨rfl, rfl⟩ | before
    · exact ⟨isOpen, offer, acceptance.key, entry, invited, keyed, member,
        accepts⟩
    · exact recorded.acceptances id party before
  copies := recorded.copies
  ends := recorded.ends

theorem Recorded.refuse
    (recorded : Recorded verifier history state) :
    Recorded verifier history (state.refuse id) := by
  have audited := (recorded.audited.refuse : (state.refuse id).Audited)
  rw [State.refuse] at audited ⊢
  split at audited
  · next isEnded =>
      rw [if_pos isEnded]
      exact recorded
  · next isOpen =>
      rw [if_neg isOpen]
      exact ⟨audited, recorded.offers, recorded.acceptances, recorded.copies,
        recorded.ends⟩

theorem Recorded.publish
    {copy : CopiedFact} {receipt : ProjectionReceipt}
    (recorded : Recorded verifier history state)
    (absent : state.receipts[receipt.offer]? = none)
    (invited : state.offers[receipt.offer]? = some offer)
    (isOpen : receipt.offer ∉ state.ended)
    (delivered : Delivered verifier history offer copy) :
    Recorded verifier history (state.publish copy receipt) where
  audited := recorded.audited.publish absent
  offers := recorded.offers
  acceptances := recorded.acceptances
  copies id found present := by
    simp only [State.publish, Std.ExtTreeMap.getElem?_insert,
      Std.LawfulEqCmp.compare_eq_iff_eq] at present
    by_cases here : receipt.offer = id
    · rw [if_pos here] at present
      cases present
      subst here
      exact ⟨isOpen, offer, invited, delivered⟩
    · rw [if_neg here] at present
      exact recorded.copies id found present
  ends := recorded.ends

theorem State.mem_close_ended
    {time : UInt64} {reason : String} {query : OfferId} :
    query ∈ (state.close id time reason).ended ↔
      query = id ∨ query ∈ state.ended := by
  by_cases isEnded : id ∈ state.ended
  · rw [State.close, if_pos isEnded]
    constructor
    · exact .inr
    · rintro (rfl | before)
      · exact isEnded
      · exact before
  · rw [State.close, if_neg isEnded]
    simp only [Std.ExtTreeMap.mem_insert, Std.LawfulEqCmp.compare_eq_iff_eq]
    rw [eq_comm]

theorem Recorded.close
    {time : UInt64} {reason : String}
    (recorded : Recorded verifier history state) :
    Recorded verifier history (state.close id time reason) := by
  have audited := (recorded.audited.close :
    (state.close id time reason).Audited)
  have ended : ∀ query, query ∈ state.ended →
      query ∈ (state.close id time reason).ended := fun _ before =>
    State.mem_close_ended.mpr (.inr before)
  by_cases isEnded : id ∈ state.ended
  · rw [State.close, if_pos isEnded]
    exact recorded
  refine ⟨audited, fun query found => ?_, fun query party => ?_,
    fun query copy => ?_, fun query entry member isEnd =>
      ended query (recorded.ends query entry member isEnd)⟩
  · simp only [State.close, if_neg isEnded]
    exact recorded.offers query found
  · rw [State.mem_close_ended]
    simp only [State.close, if_neg isEnded, Std.ExtTreeMap.mem_filter,
      Std.ExtTreeMap.getKey_eq]
    rintro ⟨present, other⟩
    obtain ⟨isOpen, rest⟩ := recorded.acceptances query party present
    refine ⟨?_, rest⟩
    rintro (rfl | before)
    · exact of_decide_eq_true other rfl
    · exact isOpen before
  · rw [State.mem_close_ended]
    simp only [State.close, if_neg isEnded, Std.ExtTreeMap.getElem?_erase,
      Std.LawfulEqCmp.compare_eq_iff_eq]
    by_cases here : id = query
    · rw [if_pos here]
      intro impossible
      cases impossible
    · rw [if_neg here]
      intro present
      obtain ⟨isOpen, rest⟩ := recorded.copies query copy present
      refine ⟨?_, rest⟩
      rintro (rfl | before)
      · exact here rfl
      · exact isOpen before

theorem Offer.keyOf_inviter :
    offer.keyOf offer.inviter = some offer.inviterKey :=
  if_pos rfl

theorem Offer.keyOf_recipient
    (parties : offer.inviter ≠ offer.recipient) :
    offer.keyOf offer.recipient = some offer.recipientKey := by
  rw [Offer.keyOf, if_neg parties.symm, if_pos rfl]

/-- The acceptances of both parties are in the history. -/
theorem Recorded.agreed
    (recorded : Recorded verifier history state)
    (invited : state.offers[offer.id]? = some offer)
    (inviter : (offer.id, offer.inviter) ∈ state.acceptances)
    (recipient : (offer.id, offer.recipient) ∈ state.acceptances) :
    Agreed verifier history offer := by
  have accepted (party : PartyId) (key : KeyId)
      (keyed : offer.keyOf party = some key)
      (present : (offer.id, party) ∈ state.acceptances) :
      ∃ entry ∈ history, entry.Accepts verifier offer party key := by
    obtain ⟨_, found, found_key, entry, known, isKey, member, accepts⟩ :=
      recorded.acceptances _ party present
    cases invited.symm.trans known
    cases keyed.symm.trans isKey
    exact ⟨entry, member, accepts⟩
  have parties := (recorded.offers _ _ invited).parties
  exact ⟨accepted _ _ Offer.keyOf_inviter inviter,
    accepted _ _ (Offer.keyOf_recipient parties) recipient⟩

/-- Every step keeps the record. -/
theorem Recorded.step
    {call : PorchCall} {clock : Nat → UInt64}
    {outcome : Except PorchError PorchReply}
    (recorded : Recorded verifier history state)
    (step : PorchStep verifier (clock 0) state call outcome after) :
    Recorded verifier (⟨call, clock, outcome⟩ :: history) after := by
  cases step with
  | invited parties keys =>
      apply Recorded.invite
      · exact recorded.cons fun _ impossible => False.elim impossible
      · exact ⟨parties, keys, _, List.mem_cons_self, rfl, rfl⟩
  | @accepted acceptance offer found isOpen keyed verified =>
      have own : offer.id = acceptance.offer :=
        recorded.audited.offers _ _ found
      rw [← own] at found
      apply Recorded.accept _ found isOpen keyed List.mem_cons_self
      · exact ⟨acceptance, rfl, rfl, own.symm, rfl, rfl, verified⟩
      · exact recorded.cons fun _ impossible => False.elim impossible
  | refused time =>
      apply recorded.refuse.close.cons
      rintro query rfl
      exact State.mem_close_ended.mpr (.inl rfl)
  | @delivered id fact offer fields receipt absent invited isOpen inviter
      recipient isFact projects own =>
      obtain rfl := recorded.audited.offers _ _ invited
      rw [← own] at absent invited isOpen
      have agreed := recorded.agreed (own ▸ invited) inviter recipient
      apply Recorded.publish _ absent invited isOpen
      · exact ⟨[], _, history, fact, rfl, ⟨false, receipt, rfl, rfl⟩, agreed,
          isFact, projects, rfl, rfl⟩
      · exact recorded.cons fun _ impossible => False.elim impossible
  | redelivered _ => exact recorded.cons fun _ impossible => False.elim impossible
  | expired time =>
      apply recorded.close.cons
      rintro query rfl
      exact State.mem_close_ended.mpr (.inl rfl)
  | inactive isEnded =>
      apply recorded.cons
      rintro query rfl
      exact isEnded
  | copied _ _ _ _ => exact recorded.cons fun _ impossible => False.elim impossible
  | revoked time =>
      apply recorded.close.cons
      rintro query rfl
      exact State.mem_close_ended.mpr (.inl rfl)
  | @failed call error notInactive =>
      apply recorded.cons
      intro query isEnd
      cases call with
      | read other =>
          cases error with
          | inactive => exact absurd rfl (notInactive other rfl)
          | _ => cases isEnd
      | _ => cases isEnd

theorem PorchRun.recorded
    (run : PorchRun verifier sha256 history state) :
    Recorded verifier history state := by
  induction run with
  | start => exact .new
  | call _ yields inductionHypothesis =>
      exact inductionHypothesis.step (porchCall_step yields)

end Preservation

section Promise

variable {verifier : KeyId → Bytes → Bytes → Bool} {sha256 : Bytes → Digest}
variable {history : List Entry} {state : State}

/-- An end of the offer is recorded. -/
def HasEnded (history : List Entry) (state : State) (id : OfferId) : Prop :=
  (∃ entry ∈ history, entry.Ends id) ∨
    ∃ tombstone : Tombstone, .ended tombstone ∈ state.audit ∧
      tombstone.offer = id

/-- What a porch promises to both parties of every offer. -/
structure Consensual (verifier : KeyId → Bytes → Bytes → Bool)
    (history : List Entry) (state : State) : Prop where
  /-- What a read needs. -/
  readable : ∀ id clock copy after,
    Yields (read id) ⟨state, clock⟩ (.ok copy) after →
      ∃ offer : Offer, offer.id = id ∧ state.offers[id]? = some offer ∧
        Invited history offer ∧ Delivered verifier history offer copy ∧
        clock 0 < offer.expiresAt ∧ ¬ HasEnded history state id
  /-- What an end leaves. -/
  closed : ∀ id, HasEnded history state id →
    id ∉ state.copies ∧ (∀ party, (id, party) ∉ state.acceptances) ∧
      ∀ clock copy after,
        ¬ Yields (read id) ⟨state, clock⟩ (.ok copy) after
  offeredOnce : ∀ id, state.audit.countP (AuditEvent.isOffered id) ≤ 1
  copiedOnce : ∀ id, state.audit.countP (AuditEvent.isCopied id) ≤ 1
  endedOnce : ∀ id, state.audit.countP (AuditEvent.isEnded id) ≤ 1
  follows : ∀ earlier tombstone rest,
    state.audit = earlier ++ .ended tombstone :: rest →
    tombstone.Follows earlier

/-- An end that is recorded is in the map. -/
theorem Recorded.mem_ended
    {id : OfferId}
    (recorded : Recorded verifier history state)
    (hasEnded : HasEnded history state id) :
    id ∈ state.ended := by
  rcases hasEnded with ⟨entry, member, isEnd⟩ | ⟨tombstone, member, rfl⟩
  · exact recorded.ends id entry member isEnd
  · by_contra absent
    have counted := recorded.audited.ended tombstone.offer
    rw [if_neg absent, List.countP_eq_zero] at counted
    exact counted _ member (decide_eq_true rfl)

/-- What a read that returns a copy needs. -/
theorem PorchRun.read_inv
    {id : OfferId} {clock : Nat → UInt64} {copy : CopiedFact} {after : Porch}
    (run : PorchRun verifier sha256 history state)
    (yields : Yields (read id) ⟨state, clock⟩ (.ok copy) after) :
    ∃ offer : Offer, offer.id = id ∧ state.offers[id]? = some offer ∧
      Invited history offer ∧ Delivered verifier history offer copy ∧
      clock 0 < offer.expiresAt ∧ ¬ HasEnded history state id := by
  have recorded := run.recorded
  cases (read_step yields : PorchStep verifier _ _ _ _ _) with
  | @copied _ offer _ invited early isOpen present =>
      obtain ⟨_, found, known, delivered⟩ := recorded.copies id copy present
      cases invited.symm.trans known
      exact ⟨offer, recorded.audited.offers id offer invited, invited,
        recorded.offers id offer invited, delivered, early,
        fun hasEnded => isOpen (recorded.mem_ended hasEnded)⟩

/-- In every run of a porch, what both parties were promised holds. -/
theorem porch_consensual
    (run : PorchRun verifier sha256 history state) :
    Consensual verifier history state where
  readable _ _ _ _ yields := run.read_inv yields
  closed id hasEnded := by
    have isEnded := run.recorded.mem_ended hasEnded
    refine ⟨fun present => ?_, fun party present => ?_,
      fun clock copy after yields => ?_⟩
    · obtain ⟨copy, found⟩ := Option.isSome_iff_exists.mp
        (Std.ExtTreeMap.isSome_getElem?_iff_mem.mpr present)
      exact (run.recorded.copies id copy found).1 isEnded
    · exact (run.recorded.acceptances id party present).1 isEnded
    · obtain ⟨offer, _, _, _, _, _, isOpen⟩ := run.read_inv yields
      exact isOpen hasEnded
  offeredOnce := run.recorded.audited.offered
  copiedOnce id := by
    rw [run.recorded.audited.copied id]
    split <;> simp
  endedOnce id := by
    rw [run.recorded.audited.ended id]
    split <;> simp
  follows := run.recorded.audited.follows

end Promise

section Sample

/-- A verifier of proofs that repeat the key and the message. -/
def sampleVerifier (key : KeyId) (message proof : Bytes) : Bool :=
  proof = utf8 key ++ message

/-- An identity that no constructor has computed. -/
def sampleId : ContentId :=
  ⟨.new "sample", ⟨List.replicate 32 7, rfl⟩⟩

/-- The shape with one field. -/
def sampleShape : FieldShape where
  fields := Std.ExtTreeSet.ofList ["chosen"]
  nonempty := by decide
  named := by decide

/-- An offer with that identity. -/
def sampleOffer : Offer :=
  ⟨sampleId, "Mia", "Bo", "mia-key", "bo-key", sampleId, sampleShape, 20⟩

/-- A fact with that identity. -/
def sampleFact : Fact :=
  ⟨sampleId, (∅ : Fields).insert "chosen" [1], []⟩

/-- The acceptance of a party. -/
def sampleAcceptance (party : PartyId) (key : KeyId) : Acceptance :=
  ⟨sampleId, party, key, utf8 key ++ sampleOffer.acceptanceMessage⟩

/-- The state after the invitation and the first acceptance. -/
def sampleAccepted : State :=
  (State.new.invite sampleOffer).accept sampleOffer
    (sampleAcceptance "Mia" "mia-key")

/-- The state after both acceptances. -/
def sampleAgreed : State :=
  sampleAccepted.accept sampleOffer (sampleAcceptance "Bo" "bo-key")

/-- The copy that is delivered. -/
def sampleCopy : CopiedFact :=
  ⟨sampleId, (∅ : Fields).insert "chosen" [1], []⟩

/-- The receipt of the delivery. -/
def sampleReceipt : ProjectionReceipt :=
  let copied := copiedId Reference.digest sampleCopy
  ⟨receiptId Reference.digest sampleId copied 0, sampleId, copied, 0⟩

/-- The state after the delivery. -/
def sampleDelivered : State :=
  sampleAgreed.publish sampleCopy sampleReceipt

/-- An invitation, two acceptances and a delivery, latest first. -/
def sampleHistory : List Entry :=
  [⟨.deliver sampleId sampleFact false, fun _ => 0,
      .ok (.delivered sampleReceipt)⟩,
    ⟨.accept (sampleAcceptance "Bo" "bo-key"), fun _ => 0, .ok .accepted⟩,
    ⟨.accept (sampleAcceptance "Mia" "mia-key"), fun _ => 0, .ok .accepted⟩,
    ⟨.invite sampleOffer, fun _ => 0, .ok (.invited sampleId)⟩]

theorem sample_run :
    PorchRun sampleVerifier Reference.digest sampleHistory
      sampleDelivered := by
  have invites : Yields
      (porchCall sampleVerifier Reference.digest (.invite sampleOffer))
      ⟨.new, fun _ => 0⟩ (.ok (.invited sampleId))
      ⟨State.new.invite sampleOffer, fun _ => 0⟩ := rfl
  have accepts : Yields
      (porchCall sampleVerifier Reference.digest
        (.accept (sampleAcceptance "Mia" "mia-key")))
      ⟨State.new.invite sampleOffer, fun _ => 0⟩ (.ok .accepted)
      ⟨sampleAccepted, fun _ => 0⟩ := rfl
  have agrees : Yields
      (porchCall sampleVerifier Reference.digest
        (.accept (sampleAcceptance "Bo" "bo-key")))
      ⟨sampleAccepted, fun _ => 0⟩ (.ok .accepted)
      ⟨sampleAgreed, fun _ => 0⟩ := rfl
  have delivers : Yields
      (porchCall sampleVerifier Reference.digest (.deliver sampleId sampleFact false))
      ⟨sampleAgreed, fun _ => 0⟩ (.ok (.delivered sampleReceipt))
      ⟨sampleDelivered, fun _ => 0⟩ := rfl
  exact (((PorchRun.start.call invites).call accepts).call agrees).call delivers

theorem sample_read :
    Yields (read sampleId) ⟨sampleDelivered, fun _ => 0⟩
      (.ok sampleCopy) ⟨sampleDelivered, fun _ => 0⟩ := by
  have looks : Yields (known sampleId) ⟨sampleDelivered, fun _ => 0⟩
      (.ok sampleOffer) ⟨sampleDelivered, fun _ => 0⟩ := rfl
  apply looks.bind
  apply (now_yields _).bind
  apply (Yields.get _).bind
  have present : sampleDelivered.copies[sampleId]? = some sampleCopy :=
    Std.ExtTreeMap.getElem?_insert_self
  have isOpen : sampleId ∉ sampleDelivered.ended :=
    Std.ExtTreeMap.not_mem_empty
  simp only [if_neg isOpen, present]
  exact .pure _ _

end Sample

/-- The sample run, in which the copy can be read, keeps the promises. -/
theorem sample_consensual :
    Consensual sampleVerifier sampleHistory sampleDelivered :=
  porch_consensual sample_run

end SimStorage.Mutual
