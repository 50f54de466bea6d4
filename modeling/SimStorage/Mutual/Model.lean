import Std.Data.ExtTreeMap.Lemmas
import Std.Data.ExtTreeSet.Lemmas
import SimStorage.Kernel.Datum

namespace SimStorage.Mutual

/-!
# Offers, facts and copies

The values that cross a porch.  An offer and a fact carry the identity that
their constructor computes, but all their fields are public: a caller can put
any identity beside any content.
-/

open Codec

/-- `PartyId`. -/
abbrev PartyId := String

/-- `KeyId`. -/
abbrev KeyId := String

/-- `OfferId`. -/
abbrev OfferId := ContentId

/-- Field bytes by field name. -/
abbrev Fields := Std.ExtTreeMap String Bytes

/-- `ProvenanceLink`. -/
structure ProvenanceLink where
  relation : String
  content : ContentId
  deriving DecidableEq

/-- `Fact`: a private fact, supplied by value. -/
structure Fact where
  id : ContentId
  fields : Fields
  provenance : List ProvenanceLink

/-- `FieldShape`: the names of the fields that are offered. -/
structure FieldShape where
  fields : Std.ExtTreeSet String
  nonempty : fields.isEmpty = false
  named : "" ∉ fields

/-- `FieldShape::new`. -/
def FieldShape.new (names : List String) : Except String FieldShape :=
  let fields := Std.ExtTreeSet.ofList names
  if valid : fields.isEmpty = false ∧ "" ∉ fields then
    .ok ⟨fields, valid.1, valid.2⟩
  else
    .error "a projection requires non-empty field names"

/-- `Offer`. -/
structure Offer where
  id : OfferId
  inviter : PartyId
  recipient : PartyId
  inviterKey : KeyId
  recipientKey : KeyId
  fact : ContentId
  shape : FieldShape
  expiresAt : UInt64

/-- `Acceptance`. -/
structure Acceptance where
  offer : OfferId
  party : PartyId
  key : KeyId
  proof : Bytes
  deriving DecidableEq

/-- `CopiedFact`. -/
structure CopiedFact where
  source : ContentId
  fields : Fields
  provenance : List ProvenanceLink

/-- `ProjectionReceipt`. -/
structure ProjectionReceipt where
  id : ContentId
  offer : OfferId
  copied : ContentId
  admittedAt : UInt64
  deriving DecidableEq

/-- `Tombstone`. -/
structure Tombstone where
  offer : OfferId
  receipt : Option ContentId
  endedAt : UInt64
  reason : String
  deriving DecidableEq

/-- `AuditEvent`. -/
inductive AuditEvent where
  | offered (offer : OfferId)
  | refused (offer : OfferId)
  | copied (receipt : ProjectionReceipt)
  | ended (tombstone : Tombstone)
  deriving DecidableEq

section Encoding

/-- `push_bytes`: bytes after their length. -/
def pushBytes (bytes : Bytes) : Bytes :=
  be64 (.ofNat bytes.length) ++ bytes

/-- `push_id`: the algorithm's name and the digest. -/
def pushId (id : ContentId) : Bytes :=
  pushBytes (utf8 id.algorithm.asQualifiedStr) ++ id.digest.val

/-- `encode_fields`. -/
def encodeFields (fields : Fields) : Bytes :=
  fields.toList.flatMap fun (name, value) =>
    pushBytes (utf8 name) ++ pushBytes value

variable (sha256 : Bytes → Digest)

/-- `content_id`: the identity of bytes in a domain. -/
def contentId (domain : String) (bytes : Bytes) : ContentId where
  algorithm := .qualified "mutual" "sha256-v1"
  digest := sha256 (utf8 domain ++ bytes)

/-- `Fact::synthetic`. -/
def Fact.synthetic (fields : Fields) (provenance : List ProvenanceLink) :
    Fact where
  id := contentId sha256 "sim-mutual-fact-v1" (encodeFields fields)
  fields := fields
  provenance := provenance

/-- `Offer::new`. -/
def Offer.new (inviter recipient : PartyId) (inviterKey recipientKey : KeyId)
    (fact : ContentId) (shape : FieldShape) (expiresAt : UInt64) : Offer where
  id := contentId sha256 "sim-mutual-offer-v1"
    ([inviter, recipient, inviterKey, recipientKey].flatMap
        (fun value => pushBytes (utf8 value)) ++
      pushId fact ++
      shape.fields.toList.flatMap (fun field => pushBytes (utf8 field)) ++
      be64 expiresAt)
  inviter := inviter
  recipient := recipient
  inviterKey := inviterKey
  recipientKey := recipientKey
  fact := fact
  shape := shape
  expiresAt := expiresAt

/-- `Offer::acceptance_message`: what the parties' proofs cover. -/
def Offer.acceptanceMessage (offer : Offer) : Bytes :=
  utf8 "sim-mutual-accept-v1" ++ [0] ++ pushId offer.id

/-- `copied_id`. -/
def copiedId (copy : CopiedFact) : ContentId :=
  contentId sha256 "sim-mutual-copy-v1"
    (encodeFields copy.fields ++ copy.provenance.flatMap fun link =>
      pushBytes (utf8 link.relation) ++ pushId link.content)

/-- `receipt_id`. -/
def receiptId (offer : OfferId) (copied : ContentId) (at_ : UInt64) :
    ContentId :=
  contentId sha256 "sim-mutual-receipt-v1"
    (pushId offer ++ pushId copied ++ be64 at_)

end Encoding

end SimStorage.Mutual
