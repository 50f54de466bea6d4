import SimStorage.Mutual.Life

namespace SimStorage.Mutual

/-!
# What the audit says

The audit has one offer event for an offer, one copy event exactly for a
receipt, and one end event exactly for a tombstone.
-/

open Codec Interaction

attribute [local instance] lexOrd

variable {verifier : KeyId → Bytes → Bytes → Bool}
variable {state after : State} {offer : Offer} {id : OfferId}
variable {reading : UInt64}
variable {call : PorchCall} {outcome : Except PorchError PorchReply}

namespace AuditEvent

/-- The event offers the offer. -/
def isOffered (id : OfferId) : AuditEvent → Bool
  | .offered offer => offer = id
  | _ => false

/-- The event copies for the offer. -/
def isCopied (id : OfferId) : AuditEvent → Bool
  | .copied receipt => receipt.offer = id
  | _ => false

/-- The event ends the offer. -/
def isEnded (id : OfferId) : AuditEvent → Bool
  | .ended tombstone => tombstone.offer = id
  | _ => false

end AuditEvent

/-- The tombstone has the receipt that was copied before it. -/
def Tombstone.Follows (tombstone : Tombstone) (earlier : List AuditEvent) :
    Prop :=
  ∀ receiptId, tombstone.receipt = some receiptId ↔
    ∃ receipt : ProjectionReceipt, .copied receipt ∈ earlier ∧
      receipt.offer = tombstone.offer ∧ receipt.id = receiptId

/-- The audit agrees with the maps. -/
structure State.Audited (state : State) : Prop where
  offered : ∀ id, state.audit.countP (AuditEvent.isOffered id) ≤ 1
  copied : ∀ id, state.audit.countP (AuditEvent.isCopied id) =
    if id ∈ state.receipts then 1 else 0
  ended : ∀ id, state.audit.countP (AuditEvent.isEnded id) =
    if id ∈ state.ended then 1 else 0
  receipts : ∀ receipt : ProjectionReceipt, .copied receipt ∈ state.audit ↔
    state.receipts[receipt.offer]? = some receipt
  own : ∀ (id : OfferId) (receipt : ProjectionReceipt),
    state.receipts[id]? = some receipt → receipt.offer = id
  offers : ∀ (id : OfferId) (offer : Offer),
    state.offers[id]? = some offer → offer.id = id
  follows : ∀ earlier tombstone rest,
    state.audit = earlier ++ .ended tombstone :: rest →
    tombstone.Follows earlier

section Preservation

theorem State.Audited.new :
    State.new.Audited where
  offered _ := Nat.zero_le _
  copied _ := by simp [State.new]
  ended _ := by simp [State.new]
  receipts _ := by simp [State.new]
  own _ _ impossible := by simp [State.new] at impossible
  offers _ _ impossible := by simp [State.new] at impossible
  follows earlier tombstone rest impossible := by simp [State.new] at impossible

/-- Another event at the end leaves what precedes each tombstone. -/
theorem follows_append
    {audit : List AuditEvent} {event : AuditEvent}
    (follows : ∀ earlier tombstone rest,
      audit = earlier ++ .ended tombstone :: rest → tombstone.Follows earlier)
    (last : ∀ tombstone, event = .ended tombstone → tombstone.Follows audit) :
    ∀ earlier tombstone rest,
      audit ++ [event] = earlier ++ .ended tombstone :: rest →
      tombstone.Follows earlier := by
  intro earlier tombstone rest shape
  rcases List.eq_nil_or_concat rest with rfl | ⟨before, other, rfl⟩
  · obtain ⟨rfl, here⟩ := List.append_inj' shape rfl
    exact last tombstone (List.cons.inj here).1
  · have longer : audit ++ [event] =
        (earlier ++ .ended tombstone :: before) ++ [other] := by
      simpa using shape
    obtain ⟨same, _⟩ := List.append_inj' longer rfl
    exact follows earlier tombstone before same

theorem State.Audited.invite
    (audited : state.Audited) :
    (state.invite offer).Audited := by
  have offers : ∀ (id : OfferId) (found : Offer),
      (state.invite offer).offers[id]? = some found → found.id = id := by
    intro id found present
    simp only [State.invite, Std.ExtTreeMap.getElem?_insertIfNew,
      Std.LawfulEqCmp.compare_eq_iff_eq] at present
    split at present
    · next fresh =>
        cases present
        exact fresh.1
    · exact audited.offers id found present
  by_cases already : .offered offer.id ∈ state.audit
  · have same : (state.invite offer).audit = state.audit := if_pos already
    refine ⟨?_, ?_, ?_, ?_, audited.own, offers, ?_⟩ <;> rw [same]
    · exact audited.offered
    · exact audited.copied
    · exact audited.ended
    · exact audited.receipts
    · exact audited.follows
  · have same : (state.invite offer).audit =
        state.audit ++ [.offered offer.id] := if_neg already
    refine ⟨fun id => ?_, fun id => ?_, fun id => ?_, fun receipt => ?_,
      audited.own, offers, ?_⟩ <;> rw [same]
    · rw [List.countP_append, List.countP_singleton]
      by_cases here : offer.id = id
      · have absent : state.audit.countP (AuditEvent.isOffered id) = 0 := by
          rw [List.countP_eq_zero]
          intro event member isOffered
          cases event with
          | offered other =>
              obtain rfl := of_decide_eq_true isOffered
              exact already (here ▸ member)
          | refused other => cases isOffered
          | copied receipt => cases isOffered
          | ended tombstone => cases isOffered
        rw [absent]
        split <;> simp
      · simp [AuditEvent.isOffered, here, audited.offered id]
    · rw [List.countP_append, audited.copied]
      rfl
    · rw [List.countP_append, audited.ended]
      rfl
    · simp only [List.mem_append, List.mem_singleton, reduceCtorEq, or_false]
      exact audited.receipts receipt
    · exact follows_append audited.follows nofun

theorem State.Audited.accept
    {acceptance : Acceptance}
    (audited : state.Audited) :
    (state.accept offer acceptance).Audited :=
  ⟨audited.offered, audited.copied, audited.ended, audited.receipts,
    audited.own, audited.offers, audited.follows⟩

theorem State.Audited.refuse
    (audited : state.Audited) :
    (state.refuse id).Audited := by
  by_cases isEnded : id ∈ state.ended
  · rw [State.refuse, if_pos isEnded]
    exact audited
  · rw [State.refuse, if_neg isEnded]
    refine ⟨fun query => ?_, fun query => ?_, fun query => ?_, fun receipt => ?_,
      audited.own, audited.offers, ?_⟩
    · rw [List.countP_append]
      exact audited.offered query
    · rw [List.countP_append]
      exact audited.copied query
    · rw [List.countP_append]
      exact audited.ended query
    · simpa using audited.receipts receipt
    · exact follows_append audited.follows nofun

theorem State.Audited.publish
    {copy : CopiedFact} {receipt : ProjectionReceipt}
    (audited : state.Audited)
    (absent : state.receipts[receipt.offer]? = none) :
    (state.publish copy receipt).Audited := by
  have missing : receipt.offer ∉ state.receipts := by
    rw [← Std.ExtTreeMap.isSome_getElem?_iff_mem, absent]
    nofun
  refine ⟨fun query => ?_, fun query => ?_, fun query => ?_, fun other => ?_,
    fun query other found => ?_, audited.offers, ?_⟩
  · simp only [State.publish, List.countP_append]
    exact audited.offered query
  · simp only [State.publish, List.countP_append, audited.copied,
      Std.ExtTreeMap.mem_insert, Std.LawfulEqCmp.compare_eq_iff_eq]
    by_cases here : receipt.offer = query
    · subst here
      simp [missing, AuditEvent.isCopied]
    · simp [here, AuditEvent.isCopied]
  · simp only [State.publish, List.countP_append]
    exact audited.ended query
  · simp only [State.publish, List.mem_append, List.mem_singleton,
      AuditEvent.copied.injEq, audited.receipts, Std.ExtTreeMap.getElem?_insert,
      Std.LawfulEqCmp.compare_eq_iff_eq]
    by_cases here : receipt.offer = other.offer
    · rw [if_pos here, ← here, absent]
      simp [eq_comm]
    · rw [if_neg here]
      constructor
      · rintro (before | rfl)
        · exact before
        · exact absurd rfl here
      · exact .inl
  · simp only [State.publish, Std.ExtTreeMap.getElem?_insert,
      Std.LawfulEqCmp.compare_eq_iff_eq] at found
    by_cases here : receipt.offer = query
    · rw [if_pos here] at found
      cases found
      exact here
    · rw [if_neg here] at found
      exact audited.own query other found
  · exact follows_append audited.follows nofun

theorem State.Audited.close
    {time : UInt64} {reason : String}
    (audited : state.Audited) :
    (state.close id time reason).Audited := by
  by_cases isEnded : id ∈ state.ended
  · rw [State.close, if_pos isEnded]
    exact audited
  · rw [State.close, if_neg isEnded]
    refine ⟨fun query => ?_, fun query => ?_, fun query => ?_, fun receipt => ?_,
      audited.own, audited.offers, ?_⟩
    · rw [List.countP_append]
      exact audited.offered query
    · rw [List.countP_append]
      exact audited.copied query
    · simp only [List.countP_append, audited.ended, Std.ExtTreeMap.mem_insert,
        Std.LawfulEqCmp.compare_eq_iff_eq]
      by_cases here : id = query
      · subst here
        simp [isEnded, AuditEvent.isEnded]
      · simp [here, AuditEvent.isEnded]
    · simpa using audited.receipts receipt
    · apply follows_append audited.follows
      rintro _ ⟨⟩ receiptId
      constructor
      · intro known
        obtain ⟨receipt, found, same⟩ := Option.map_eq_some_iff.mp known
        obtain rfl := audited.own id receipt found
        exact ⟨receipt, (audited.receipts receipt).mpr found, rfl, same⟩
      · rintro ⟨receipt, member, rfl, same⟩
        exact Option.map_eq_some_iff.mpr
          ⟨receipt, (audited.receipts receipt).mp member, same⟩

end Preservation

end SimStorage.Mutual
