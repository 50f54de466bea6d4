import SimStorage.Mutual.Porch

namespace SimStorage.Mutual

/-!
# The life of an offer

`PorchStep` says what one call can do to the state.  A run keeps every call with
the readings of its clock and its outcome, latest first.
-/

open Codec Interaction

attribute [local instance] lexOrd

variable {verifier : KeyId → Bytes → Bytes → Bool} {sha256 : Bytes → Digest}
variable {state after : State} {porch later : Porch}
variable {offer : Offer} {id : OfferId} {party : PartyId} {fact : Fact}

/-- The state after an invitation. -/
def State.invite (state : State) (offer : Offer) : State :=
  { state with
    offers := state.offers.insertIfNew offer.id offer
    audit :=
      if .offered offer.id ∈ state.audit then state.audit
      else state.audit ++ [.offered offer.id] }

/-- The state after an acceptance. -/
def State.accept (state : State) (offer : Offer) (acceptance : Acceptance) :
    State :=
  { state with
    acceptances := state.acceptances.insertIfNew (offer.id, acceptance.party)
      acceptance }

/-- The state after a refusal is recorded. -/
def State.refuse (state : State) (id : OfferId) : State :=
  if id ∈ state.ended then state
  else { state with audit := state.audit ++ [.refused id] }

/-- The state after a delivery. -/
def State.publish (state : State) (copy : CopiedFact)
    (receipt : ProjectionReceipt) : State :=
  { state with
    copies := state.copies.insert receipt.offer copy
    receipts := state.receipts.insert receipt.offer receipt
    audit := state.audit ++ [.copied receipt] }

/-- What a call does to the state when the clock reads a given time first. -/
inductive PorchStep (verifier : KeyId → Bytes → Bytes → Bool)
    (reading : UInt64) (state : State) :
    PorchCall → Except PorchError PorchReply → State → Prop where
  | invited {offer : Offer} :
      offer.inviter ≠ offer.recipient →
      offer.inviterKey ≠ offer.recipientKey →
      PorchStep verifier reading state (.invite offer)
        (.ok (.invited offer.id)) (state.invite offer)
  | accepted {acceptance : Acceptance} {offer : Offer} :
      state.offers[acceptance.offer]? = some offer →
      offer.id ∉ state.ended →
      offer.keyOf acceptance.party = some acceptance.key →
      verifier acceptance.key offer.acceptanceMessage acceptance.proof →
      PorchStep verifier reading state (.accept acceptance) (.ok .accepted)
        (state.accept offer acceptance)
  | refused {id : OfferId} {party : PartyId} (time : UInt64) :
      PorchStep verifier reading state (.refuse id party) (.ok .refused)
        ((state.refuse id).close id time "refused")
  | delivered {id : OfferId} {fact : Fact} {offer : Offer} {fields : Fields}
      {receipt : ProjectionReceipt} :
      state.receipts[id]? = none →
      state.offers[id]? = some offer →
      offer.id ∉ state.ended →
      (offer.id, offer.inviter) ∈ state.acceptances →
      (offer.id, offer.recipient) ∈ state.acceptances →
      fact.id = offer.fact →
      project fact offer.shape.fields.toList ∅ = .ok fields →
      receipt.offer = offer.id →
      PorchStep verifier reading state (.deliver id fact false)
        (.ok (.delivered receipt))
        (state.publish ⟨fact.id, fields, fact.provenance⟩ receipt)
  | redelivered {id : OfferId} {fact : Fact} {fail : Bool}
      {receipt : ProjectionReceipt} :
      state.receipts[id]? = some receipt →
      PorchStep verifier reading state (.deliver id fact fail)
        (.ok (.delivered receipt)) state
  | expired {id : OfferId} (time : UInt64) :
      PorchStep verifier reading state (.read id) (.error .inactive)
        (state.close id time "expired")
  | inactive {id : OfferId} :
      id ∈ state.ended →
      PorchStep verifier reading state (.read id) (.error .inactive) state
  | copied {id : OfferId} {offer : Offer} {copy : CopiedFact} :
      state.offers[id]? = some offer →
      reading < offer.expiresAt →
      id ∉ state.ended →
      state.copies[id]? = some copy →
      PorchStep verifier reading state (.read id) (.ok (.copy copy)) state
  | revoked {id : OfferId} {party : PartyId} (time : UInt64) :
      PorchStep verifier reading state (.revoke id party)
        (.ok (.revoked (state.close id time "revoked").ended[id]?))
        (state.close id time "revoked")
  | failed {call : PorchCall} {error : PorchError} :
      (∀ id, call = .read id → error ≠ .inactive) →
      PorchStep verifier reading state call (.error error) state

section Inversion

theorem now_yields
    (porch : Porch) :
    Yields now porch (.ok (porch.clock 0))
      { porch with clock := fun index => porch.clock (index + 1) } :=
  rfl

theorem update_yields
    (change : State → State)
    (porch : Porch) :
    Yields (update change) porch (.ok ())
      { porch with state := change porch.state } :=
  rfl

theorem known_yields
    (id : OfferId) (porch : Porch) :
    Yields (known id) porch
      (match porch.state.offers[id]? with
        | some invited => .ok invited
        | none => .error .unknownOffer) porch :=
  (Yields.get porch).bind (.ofExcept _ porch)

/-- What follows a lookup runs on a known offer, or not at all. -/
theorem known_rest
    {α : Type}
    {next : Offer → PorchM α}
    {outcome : Except PorchError α}
    (yields : Yields (known id >>= next) porch outcome later) :
    (∃ offer, porch.state.offers[id]? = some offer ∧
        Yields (next offer) porch outcome later) ∨
      later = porch ∧ outcome = .error .unknownOffer := by
  have looks := known_yields id porch
  cases found : porch.state.offers[id]? with
  | none =>
      rw [found] at looks
      obtain ⟨rfl, rfl⟩ := yields.unique looks.bindError
      exact .inr ⟨rfl, rfl⟩
  | some offer =>
      rw [found] at looks
      exact .inl ⟨offer, rfl, looks.rest yields⟩

/-- What follows the check runs on an offer that has not ended. -/
theorem ensureActive_rest
    {α : Type}
    {next : Unit → PorchM α}
    {outcome : Except PorchError α}
    (yields : Yields (ensureActive offer >>= next) porch outcome later) :
    (offer.id ∉ porch.state.ended ∧
        ∃ clock, Yields (next ()) ⟨porch.state, clock⟩ outcome later) ∨
      later.state = porch.state ∧ outcome = .error .inactive := by
  obtain ⟨checked, middle, checks⟩ := Yields.total (ensureActive offer) porch
  have checking := (now_yields porch).rest checks
  have deciding := (Yields.get _).rest checking
  by_cases inactive : porch.clock 0 ≥ offer.expiresAt ∨
      offer.id ∈ porch.state.ended
  · simp only [if_pos inactive] at deciding
    obtain ⟨rfl, rfl⟩ := deciding.unique (.throw _ _)
    obtain ⟨rfl, rfl⟩ := yields.unique checks.bindError
    exact .inr ⟨rfl, rfl⟩
  · simp only [if_neg inactive] at deciding
    obtain ⟨rfl, rfl⟩ := deciding.unique (.pure _ _)
    exact .inl ⟨fun ended => inactive (.inr ended), _, checks.rest yields⟩

theorem invite_step
    {outcome : Except PorchError OfferId}
    (yields : Yields (invite offer) porch outcome later) :
    PorchStep verifier (porch.clock 0) porch.state (.invite offer)
      (outcome.map .invited) later.state := by
  unfold invite at yields
  by_cases same : offer.inviter = offer.recipient ∨
      offer.inviterKey = offer.recipientKey
  · simp only [if_pos same] at yields
    obtain ⟨rfl, rfl⟩ := yields.unique (.throw _ _)
    exact .failed nofun
  · simp only [if_neg same] at yields
    have returning := (update_yields _ _).rest yields
    obtain ⟨rfl, rfl⟩ := returning.unique (.pure _ _)
    exact .invited (fun parties => same (.inl parties))
      fun keys => same (.inr keys)

theorem accept_step
    {acceptance : Acceptance}
    {outcome : Except PorchError Unit}
    (yields : Yields (accept verifier acceptance) porch outcome later) :
    PorchStep verifier (porch.clock 0) porch.state (.accept acceptance)
      (outcome.map fun _ => .accepted) later.state := by
  rcases known_rest yields with ⟨offer, invited, checking⟩ | ⟨rfl, rfl⟩
  swap
  · exact .failed nofun
  rcases ensureActive_rest checking with ⟨isOpen, clock, keyed⟩ | ⟨same, rfl⟩
  swap
  · rw [same]
    exact .failed nofun
  cases key : offer.keyOf acceptance.party with
  | none =>
      simp only [key] at keyed
      obtain ⟨rfl, rfl⟩ := keyed.unique (.throw _ _)
      exact .failed nofun
  | some expected =>
      simp only [key] at keyed
      by_cases differs : acceptance.key ≠ expected
      · simp only [if_pos differs] at keyed
        obtain ⟨rfl, rfl⟩ := keyed.unique (.throw _ _)
        exact .failed nofun
      simp only [if_neg differs] at keyed
      obtain rfl := not_ne_iff.mp differs
      by_cases verified : verifier acceptance.key offer.acceptanceMessage
          acceptance.proof
      · simp only [if_neg (not_not.mpr verified)] at keyed
        obtain ⟨rfl, rfl⟩ := keyed.unique (update_yields _ _)
        exact .accepted invited isOpen key verified
      · simp only [if_pos verified] at keyed
        obtain ⟨rfl, rfl⟩ := keyed.unique (.throw _ _)
        exact .failed nofun

theorem refuse_step
    {outcome : Except PorchError Unit}
    (yields : Yields (refuse id party) porch outcome later) :
    PorchStep verifier (porch.clock 0) porch.state (.refuse id party)
      (outcome.map fun _ => .refused) later.state := by
  rcases known_rest yields with ⟨offer, _, checking⟩ | ⟨rfl, rfl⟩
  swap
  · exact .failed nofun
  by_cases stranger : party ≠ offer.inviter ∧ party ≠ offer.recipient
  · simp only [if_pos stranger] at checking
    obtain ⟨rfl, rfl⟩ := checking.unique (.throw _ _)
    exact .failed nofun
  · simp only [if_neg stranger] at checking
    have clocking := (update_yields _ _).rest checking
    have closing := (now_yields _).rest clocking
    obtain ⟨rfl, rfl⟩ := closing.unique (update_yields _ _)
    exact .refused _

theorem deliver_step
    {fail : Bool}
    {outcome : Except PorchError ProjectionReceipt}
    (yields : Yields (deliver sha256 id fact fail) porch outcome later) :
    PorchStep verifier (porch.clock 0) porch.state (.deliver id fact fail)
      (outcome.map .delivered) later.state := by
  have looking := (Yields.get porch).rest yields
  cases present : porch.state.receipts[id]? with
  | some receipt =>
      simp only [present] at looking
      obtain ⟨rfl, rfl⟩ := looking.unique (.pure _ _)
      exact .redelivered present
  | none =>
      simp only [present] at looking
      rcases known_rest looking with ⟨offer, invited, checking⟩ | ⟨rfl, rfl⟩
      swap
      · exact .failed nofun
      rcases ensureActive_rest checking with ⟨isOpen, clock, reads⟩ | ⟨same, rfl⟩
      swap
      · rw [same]
        exact .failed nofun
      have accepts := (Yields.get _).rest reads
      by_cases missing : (offer.id, offer.inviter) ∉ porch.state.acceptances ∨
          (offer.id, offer.recipient) ∉ porch.state.acceptances
      · simp only [if_pos missing] at accepts
        obtain ⟨rfl, rfl⟩ := accepts.unique (.throw _ _)
        exact .failed nofun
      simp only [if_neg missing] at accepts
      obtain ⟨inviterAccepts, recipientAccepts⟩ := not_or.mp missing
      by_cases wrong : fact.id ≠ offer.fact
      · simp only [if_pos wrong] at accepts
        obtain ⟨rfl, rfl⟩ := accepts.unique (.throw _ _)
        exact .failed nofun
      simp only [if_neg wrong] at accepts
      cases projects : project fact offer.shape.fields.toList ∅ with
      | error error =>
          have failed := Yields.of_error projects (Porch.mk porch.state clock)
          obtain ⟨rfl, rfl⟩ := accepts.unique failed.bindError
          exact .failed nofun
      | ok fields =>
          have publishing := (Yields.of_ok projects _).rest accepts
          cases fail with
          | true =>
              obtain ⟨rfl, rfl⟩ := publishing.unique (.throw _ _)
              exact .failed nofun
          | false =>
              have updating := (now_yields _).rest publishing
              have returning := (update_yields _ _).rest updating
              obtain ⟨rfl, rfl⟩ := returning.unique (.pure _ _)
              exact .delivered present invited isOpen
                (not_not.mp inviterAccepts) (not_not.mp recipientAccepts)
                (not_not.mp wrong) projects rfl

theorem read_step
    {outcome : Except PorchError CopiedFact}
    (yields : Yields (read id) porch outcome later) :
    PorchStep verifier (porch.clock 0) porch.state (.read id)
      (outcome.map .copy) later.state := by
  rcases known_rest yields with ⟨offer, invited, clocking⟩ | ⟨rfl, rfl⟩
  swap
  · exact .failed nofun
  have checking := (now_yields _).rest clocking
  by_cases expired : porch.clock 0 ≥ offer.expiresAt
  · simp only [if_pos expired] at checking
    have closing := (now_yields _).rest checking
    have ending := (update_yields _ _).rest closing
    obtain ⟨rfl, rfl⟩ := ending.unique (.throw _ _)
    exact .expired _
  · simp only [if_neg expired] at checking
    have looking := (Yields.get _).rest checking
    by_cases isEnded : id ∈ porch.state.ended
    · simp only [if_pos isEnded] at looking
      obtain ⟨rfl, rfl⟩ := looking.unique (.throw _ _)
      exact .inactive isEnded
    · simp only [if_neg isEnded] at looking
      cases present : porch.state.copies[id]? with
      | none =>
          simp only [present] at looking
          obtain ⟨rfl, rfl⟩ := looking.unique (.throw _ _)
          exact .failed nofun
      | some copy =>
          simp only [present] at looking
          obtain ⟨rfl, rfl⟩ := looking.unique (.pure _ _)
          exact .copied invited (UInt64.not_le.mp expired) isEnded present

theorem revoke_step
    {outcome : Except PorchError (Option Tombstone)}
    (yields : Yields (revoke id party) porch outcome later) :
    PorchStep verifier (porch.clock 0) porch.state (.revoke id party)
      (outcome.map .revoked) later.state := by
  rcases known_rest yields with ⟨offer, _, checking⟩ | ⟨rfl, rfl⟩
  swap
  · exact .failed nofun
  by_cases stranger : party ≠ offer.inviter ∧ party ≠ offer.recipient
  · simp only [if_pos stranger] at checking
    obtain ⟨rfl, rfl⟩ := checking.unique (.throw _ _)
    exact .failed nofun
  · simp only [if_neg stranger] at checking
    have closing := (now_yields _).rest checking
    have looking := (update_yields _ _).rest closing
    have returning := (Yields.get _).rest looking
    obtain ⟨rfl, rfl⟩ := returning.unique (.pure _ _)
    exact .revoked _

/-- What a call that answers with a value of another computation yields. -/
theorem reply_inv
    {α : Type}
    {computation : PorchM α} {reply : α → PorchReply}
    {outcome : Except PorchError PorchReply}
    (yields : Yields (do return reply (← computation)) porch outcome later) :
    ∃ inner, Yields computation porch inner later ∧
      outcome = inner.map reply := by
  rcases yields.bind_inv with ⟨value, middle, first, last⟩ | ⟨error, failed, rfl⟩
  · obtain ⟨rfl, rfl⟩ := last.unique (.pure _ _)
    exact ⟨.ok value, first, rfl⟩
  · exact ⟨.error error, failed, rfl⟩

/-- Every call is a step. -/
theorem porchCall_step
    {call : PorchCall} {outcome : Except PorchError PorchReply}
    (yields : Yields (porchCall verifier sha256 call) porch outcome later) :
    PorchStep verifier (porch.clock 0) porch.state call outcome later.state := by
  cases call with
  | invite offer =>
      obtain ⟨inner, invites, rfl⟩ := reply_inv yields
      exact invite_step invites
  | accept acceptance =>
      obtain ⟨inner, accepts, rfl⟩ := reply_inv yields
      exact accept_step accepts
  | refuse id party =>
      obtain ⟨inner, refuses, rfl⟩ := reply_inv yields
      exact refuse_step refuses
  | deliver id fact fail =>
      obtain ⟨inner, delivers, rfl⟩ := reply_inv yields
      exact deliver_step delivers
  | read id =>
      obtain ⟨inner, reads, rfl⟩ := reply_inv yields
      exact read_step reads
  | revoke id party =>
      obtain ⟨inner, revokes, rfl⟩ := reply_inv yields
      exact revoke_step revokes

end Inversion

end SimStorage.Mutual
