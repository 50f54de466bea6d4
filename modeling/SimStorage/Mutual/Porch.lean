import SimStorage.Interaction.Outcome
import SimStorage.Mutual.Model

namespace SimStorage.Mutual

/-!
# The porch

A porch keeps offers, acceptances, copies, receipts, tombstones and an audit
behind one lock, so its operations follow one another.  The clock and the
verifier are outside: every reading of the clock is arbitrary.
-/

open Codec Interaction

attribute [local instance] lexOrd

/-- `PorchError`. -/
inductive PorchError where
  | unknownOffer
  | inactive
  | wrongAcceptance
  | invalidProof
  | missingAcceptance
  | wrongFact
  | missingField (name : String)
  | deliveryFailed
  deriving DecidableEq

/-- Its display text. -/
def PorchError.text : PorchError → String
  | .unknownOffer => "offer is unknown"
  | .inactive => "offer has expired or was revoked"
  | .wrongAcceptance => "acceptance does not match the fixed offer"
  | .invalidProof =>
      "acceptance proof was not made by its independently held key"
  | .missingAcceptance => "both distinct parties and keys must accept"
  | .wrongFact => "the source fact does not match the offer"
  | .missingField name =>
      "an offered field is absent from the fact: " ++ name
  | .deliveryFailed => "delivery failed before publication"

/-- `State`; the audit is in the order of its events. -/
structure State where
  offers : Std.ExtTreeMap OfferId Offer
  acceptances : Std.ExtTreeMap (OfferId × PartyId) Acceptance
  copies : Std.ExtTreeMap OfferId CopiedFact
  receipts : Std.ExtTreeMap OfferId ProjectionReceipt
  ended : Std.ExtTreeMap OfferId Tombstone
  audit : List AuditEvent

/-- The default of `State`. -/
def State.new : State :=
  ⟨∅, ∅, ∅, ∅, ∅, []⟩

/-- The state, and what the clock will read. -/
structure Porch where
  state : State
  clock : Nat → UInt64

/-- A computation on the porch; it keeps its state when it fails. -/
abbrev PorchM :=
  EStateM PorchError Porch

/-- `Clock::now`. -/
def now : PorchM UInt64 := do
  let porch ← get
  set { porch with clock := fun index => porch.clock (index + 1) }
  return porch.clock 0

/-- Change the state. -/
def update (change : State → State) : PorchM Unit :=
  modify fun porch => { porch with state := change porch.state }

/-- `MutualPorch::end`. -/
def State.close (state : State) (offer : OfferId) (at_ : UInt64)
    (reason : String) : State :=
  if offer ∈ state.ended then
    state
  else
    let tombstone : Tombstone := {
      offer := offer
      receipt := state.receipts[offer]?.map ProjectionReceipt.id
      endedAt := at_
      reason := reason }
    { state with
      copies := state.copies.erase offer
      acceptances := state.acceptances.filter fun key _ => key.1 ≠ offer
      ended := state.ended.insert offer tombstone
      audit := state.audit ++ [.ended tombstone] }

/-- The offer, if it was invited. -/
def known (offer : OfferId) : PorchM Offer := do
  let porch ← get
  ofExcept <|
    match porch.state.offers[offer]? with
    | some invited => .ok invited
    | none => .error .unknownOffer

/-- `MutualPorch::ensure_active`. -/
def ensureActive (offer : Offer) : PorchM Unit := do
  let time ← now
  let porch ← get
  if time ≥ offer.expiresAt ∨ offer.id ∈ porch.state.ended then
    throw .inactive

/-- The offered fields of a fact. -/
def project (fact : Fact) : List String → Fields → Except PorchError Fields
  | [], fields => .ok fields
  | name :: rest, fields =>
      match fact.fields[name]? with
      | some value => project fact rest (fields.insert name value)
      | none => .error (.missingField name)

section Operations

variable (verifier : KeyId → Bytes → Bytes → Bool) (sha256 : Bytes → Digest)

/-- `MutualPorch::invite`. -/
def invite (offer : Offer) : PorchM OfferId := do
  if offer.inviter = offer.recipient ∨ offer.inviterKey = offer.recipientKey then
    throw .missingAcceptance
  else
    update fun state => { state with
      offers := state.offers.insertIfNew offer.id offer
      audit :=
        if .offered offer.id ∈ state.audit then state.audit
        else state.audit ++ [.offered offer.id] }
    return offer.id

/-- The key under which a party accepts. -/
def Offer.keyOf (offer : Offer) (party : PartyId) : Option KeyId :=
  if party = offer.inviter then some offer.inviterKey
  else if party = offer.recipient then some offer.recipientKey
  else none

/-- `MutualPorch::accept`. -/
def accept (acceptance : Acceptance) : PorchM Unit := do
  let offer ← known acceptance.offer
  ensureActive offer
  match offer.keyOf acceptance.party with
  | none => throw .wrongAcceptance
  | some expected =>
      if acceptance.key ≠ expected then
        throw .wrongAcceptance
      else if ¬ verifier expected offer.acceptanceMessage acceptance.proof then
        throw .invalidProof
      else
        update fun state => { state with
          acceptances := state.acceptances.insertIfNew
            (offer.id, acceptance.party) acceptance }

/-- `MutualPorch::refuse`. -/
def refuse (offer : OfferId) (party : PartyId) : PorchM Unit := do
  let invited ← known offer
  if party ≠ invited.inviter ∧ party ≠ invited.recipient then
    throw .wrongAcceptance
  else
    update fun state =>
      if offer ∈ state.ended then state
      else { state with audit := state.audit ++ [.refused offer] }
    let time ← now
    update fun state => state.close offer time "refused"

/-- The receipt of a delivery, and the copy that it publishes. -/
def publish (offer : Offer) (fact : Fact) (fields : Fields) :
    PorchM ProjectionReceipt := do
  let copy : CopiedFact := ⟨fact.id, fields, fact.provenance⟩
  let time ← now
  let copied := copiedId sha256 copy
  let receipt : ProjectionReceipt := {
    id := receiptId sha256 offer.id copied time
    offer := offer.id
    copied := copied
    admittedAt := time }
  update fun state => { state with
    copies := state.copies.insert offer.id copy
    receipts := state.receipts.insert offer.id receipt
    audit := state.audit ++ [.copied receipt] }
  return receipt

/-- A delivery without a receipt. -/
def deliverNew (offerId : OfferId) (fact : Fact) (fail : Bool) :
    PorchM ProjectionReceipt := do
  let offer ← known offerId
  ensureActive offer
  let porch ← get
  if (offer.id, offer.inviter) ∉ porch.state.acceptances ∨
      (offer.id, offer.recipient) ∉ porch.state.acceptances then
    throw .missingAcceptance
  else if fact.id ≠ offer.fact then
    throw .wrongFact
  else
    let fields ← ofExcept (project fact offer.shape.fields.toList ∅)
    if fail then
      throw .deliveryFailed
    else
      publish sha256 offer fact fields

/--
`MutualPorch::deliver_inner`: `deliver`, and with `fail` the failing delivery of
the tests.
-/
def deliver (offerId : OfferId) (fact : Fact) (fail : Bool) :
    PorchM ProjectionReceipt := do
  let porch ← get
  match porch.state.receipts[offerId]? with
  | some receipt => return receipt
  | none => deliverNew sha256 offerId fact fail

/-- `MutualPorch::read`. -/
def read (offer : OfferId) : PorchM CopiedFact := do
  let invited ← known offer
  let time ← now
  if time ≥ invited.expiresAt then
    let time ← now
    update fun state => state.close offer time "expired"
    throw .inactive
  else
    let porch ← get
    if offer ∈ porch.state.ended then
      throw .inactive
    else
      match porch.state.copies[offer]? with
      | some copy => return copy
      | none => throw .missingAcceptance

/-- `MutualPorch::revoke`; the tombstone is there, so `expect` never panics. -/
def revoke (offer : OfferId) (party : PartyId) : PorchM (Option Tombstone) := do
  let invited ← known offer
  if party ≠ invited.inviter ∧ party ≠ invited.recipient then
    throw .wrongAcceptance
  else
    let time ← now
    update fun state => state.close offer time "revoked"
    let porch ← get
    return porch.state.ended[offer]?

/-- One call on the porch. -/
inductive PorchCall where
  | invite (offer : Offer)
  | accept (acceptance : Acceptance)
  | refuse (offer : OfferId) (party : PartyId)
  | deliver (offer : OfferId) (fact : Fact) (fail : Bool)
  | read (offer : OfferId)
  | revoke (offer : OfferId) (party : PartyId)

/-- What a call returns. -/
inductive PorchReply where
  | invited (offer : OfferId)
  | accepted
  | refused
  | delivered (receipt : ProjectionReceipt)
  | copy (copy : CopiedFact)
  | revoked (tombstone : Option Tombstone)

/-- The computation of a call. -/
def porchCall : PorchCall → PorchM PorchReply
  | .invite offer => do
      let id ← invite offer
      return .invited id
  | .accept acceptance => do
      accept verifier acceptance
      return .accepted
  | .refuse offer party => do
      refuse offer party
      return .refused
  | .deliver offer fact fail => do
      let receipt ← deliver sha256 offer fact fail
      return .delivered receipt
  | .read offer => do
      let copy ← read offer
      return .copy copy
  | .revoke offer party => do
      let tombstone ← revoke offer party
      return .revoked tombstone

end Operations

end SimStorage.Mutual
