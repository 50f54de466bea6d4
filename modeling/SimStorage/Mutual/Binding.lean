import SimStorage.Interaction.Mirror
import SimStorage.Mutual.Consent

namespace SimStorage.Mutual

/-!
# What an accepted identity binds

The parties' proofs cover the identity of an offer.  Nothing recomputes it, nor
the identity of the fact, so the same proofs admit any other field bytes and
any other provenance.
-/

open Codec Interaction

attribute [local instance] lexOrd

/-- The fact with other field bytes where they are given, and other links. -/
def Fact.restate (fields : Fields) (provenance : List ProvenanceLink)
    (fact : Fact) : Fact where
  id := fact.id
  fields := fact.fields.map fun name value => fields[name]?.getD value
  provenance := provenance

/-- The fact of a restated delivery. -/
def Fact.restateFor (id : OfferId) (fields : Fields)
    (provenance : List ProvenanceLink) (query : OfferId) (fact : Fact) : Fact :=
  if query = id then fact.restate fields provenance else fact

/-- The call with other facts for the offer. -/
def PorchCall.restate (id : OfferId) (fields : Fields)
    (provenance : List ProvenanceLink) : PorchCall → PorchCall
  | .deliver offer fact fail =>
      .deliver offer (fact.restateFor id fields provenance offer) fail
  | call => call

/-- The calls are the same, apart from the content of a delivered fact. -/
def PorchCall.SameConsent : PorchCall → PorchCall → Prop
  | .deliver offer fact fail, .deliver offer' fact' fail' =>
      offer' = offer ∧ fact'.id = fact.id ∧ fail' = fail
  | call, call' => call' = call

/-- The same call at the same times, with the same success or error. -/
structure Entry.SameConsent (entry other : Entry) : Prop where
  call : entry.call.SameConsent other.call
  clock : other.clock = entry.clock
  outcome : Matches (fun _ _ => True) entry.outcome other.outcome

/-- What the identity that both parties accepted is said to bind. -/
structure ExactlyBound (verifier : KeyId → Bytes → Bytes → Bool)
    (sha256 : Bytes → Digest) (history : List Entry) (state : State)
    (id : OfferId) (copy : CopiedFact) : Prop where
  /-- It is the identity of the recorded offer, with the copy's names. -/
  identity : ∃ offer : Offer, state.offers[id]? = some offer ∧
    id = (Offer.new sha256 offer.inviter offer.recipient offer.inviterKey
      offer.recipientKey offer.fact offer.shape offer.expiresAt).id ∧
    ∀ name, name ∈ offer.shape.fields ↔ name ∈ copy.fields
  /-- The same consent gives the same content. -/
  content : ∀ others other clock found after,
    PorchRun verifier sha256 others other →
    List.Forall₂ Entry.SameConsent history others →
    Yields (read id) ⟨other, clock⟩ (.ok found) after →
      found.fields = copy.fields ∧ found.provenance = copy.provenance

section Projection

variable {fact other : Fact} {names : List String} {fields result : Fields}

/-- What is projected: the fact's bytes under the names. -/
theorem project_lookup
    (projects : project fact names fields = .ok result)
    (name : String) :
    result[name]? =
      if name ∈ names then fact.fields[name]? else fields[name]? := by
  induction names generalizing fields with
  | nil =>
      cases projects
      rfl
  | cons head rest inductionHypothesis =>
      cases present : fact.fields[head]? with
      | none => simp [project, present] at projects
      | some value =>
          simp only [project, present] at projects
          rw [inductionHypothesis projects, Std.ExtTreeMap.getElem?_insert]
          by_cases inRest : name ∈ rest
          · simp [inRest]
          · by_cases here : head = name
            · subst here
              simp [inRest, present]
            · simp [inRest, here, Ne.symm here]

/-- All projected names are in the fact. -/
theorem project_present
    (projects : project fact names fields = .ok result)
    {name : String}
    (member : name ∈ names) :
    name ∈ fact.fields := by
  induction names generalizing fields with
  | nil => cases member
  | cons head rest inductionHypothesis =>
      cases present : fact.fields[head]? with
      | none => simp [project, present] at projects
      | some value =>
          simp only [project, present] at projects
          rcases List.mem_cons.mp member with rfl | inRest
          · rw [← Std.ExtTreeMap.isSome_getElem?_iff_mem, present]
            rfl
          · exact inductionHypothesis projects inRest

/-- Facts with the same names are projected alike. -/
theorem project_matches
    (sameNames : ∀ name, name ∈ other.fields ↔ name ∈ fact.fields)
    (fields later : Fields) :
    Matches (fun _ _ => True) (project fact names fields)
      (project other names later) := by
  induction names generalizing fields later with
  | nil => trivial
  | cons head rest inductionHypothesis =>
      have same := sameNames head
      rw [← Std.ExtTreeMap.isSome_getElem?_iff_mem,
        ← Std.ExtTreeMap.isSome_getElem?_iff_mem] at same
      cases present : fact.fields[head]? with
      | none =>
          have absent : other.fields[head]? = none := by
            simpa [present] using same
          simp only [project, present, absent]
          rfl
      | some value =>
          rw [present] at same
          obtain ⟨found, there⟩ :=
            Option.isSome_iff_exists.mp (same.mpr rfl)
          simp only [project, present, there]
          exact inductionHypothesis _ _

/-- The copied names are the offered ones. -/
theorem project_names
    {shape : FieldShape}
    (projects : project fact shape.fields.toList ∅ = .ok result)
    (name : String) :
    name ∈ shape.fields ↔ name ∈ result := by
  have looked := project_lookup projects name
  rw [← Std.ExtTreeMap.isSome_getElem?_iff_mem, looked,
    ← Std.ExtTreeSet.mem_toList]
  by_cases member : name ∈ shape.fields.toList
  · have present := project_present projects member
    rw [if_pos member, Std.ExtTreeMap.isSome_getElem?_iff_mem]
    exact iff_of_true member present
  · rw [if_neg member]
    simp [member]

/-- A restated fact is projected to what it was restated to. -/
theorem project_restate
    {shape : FieldShape} {provenance : List ProvenanceLink}
    (names : ∀ name, name ∈ shape.fields ↔ name ∈ fields) :
    Matches (fun _ result => result = fields)
      (project fact shape.fields.toList ∅)
      (project (fact.restate fields provenance) shape.fields.toList ∅) := by
  have sameNames : ∀ name,
      name ∈ (fact.restate fields provenance).fields ↔ name ∈ fact.fields :=
    fun name => Std.ExtTreeMap.mem_map
  have alike := @project_matches fact (fact.restate fields provenance)
    shape.fields.toList sameNames ∅ ∅
  cases projects : project fact shape.fields.toList ∅ with
  | error error =>
      rw [projects] at alike
      cases repeats : project (fact.restate fields provenance)
          shape.fields.toList ∅ with
      | error other =>
          rw [repeats] at alike
          exact alike
      | ok result =>
          rw [repeats] at alike
          exact alike.elim
  | ok first =>
      rw [projects] at alike
      cases repeats : project (fact.restate fields provenance)
          shape.fields.toList ∅ with
      | error other =>
          rw [repeats] at alike
          exact alike.elim
      | ok result =>
          apply Std.ExtTreeMap.ext_getElem?
          intro name
          rw [project_lookup repeats name]
          by_cases member : name ∈ shape.fields.toList
          · rw [if_pos member]
            have given := (names name).mp (Std.ExtTreeSet.mem_toList.mp member)
            have present := project_present projects member
            rw [← Std.ExtTreeMap.isSome_getElem?_iff_mem] at given present
            obtain ⟨value, here⟩ := Option.isSome_iff_exists.mp given
            obtain ⟨before, there⟩ := Option.isSome_iff_exists.mp present
            simp [Fact.restate, here, there]
          · rw [if_neg member]
            have absent : name ∉ fields := fun given =>
              member (Std.ExtTreeSet.mem_toList.mpr ((names name).mpr given))
            simp [Std.ExtTreeMap.getElem?_eq_none absent]

end Projection

section Restatement

variable {id : OfferId} {fields : Fields} {provenance : List ProvenanceLink}
variable {state other : State} {porch twin : Porch}
variable {offer : Offer} {query : OfferId}

/-- The copy with other content, if it is the offer's. -/
def CopiedFact.restate (id : OfferId) (fields : Fields)
    (provenance : List ProvenanceLink) (query : OfferId) (copy : CopiedFact) :
    CopiedFact :=
  if query = id then ⟨copy.source, fields, provenance⟩ else copy

/-- The states differ in the content of the offer's copy, and in the audit. -/
structure Restated (id : OfferId) (fields : Fields)
    (provenance : List ProvenanceLink) (porch twin : Porch) : Prop where
  offers : twin.state.offers = porch.state.offers
  acceptances : twin.state.acceptances = porch.state.acceptances
  receipts : ∀ query, query ∈ twin.state.receipts ↔ query ∈ porch.state.receipts
  ended : ∀ query, query ∈ twin.state.ended ↔ query ∈ porch.state.ended
  copies : ∀ query : OfferId, twin.state.copies[query]? =
    porch.state.copies[query]?.map (.restate id fields provenance query)
  clock : twin.clock = porch.clock

theorem now_mirrors
    (restated : Restated id fields provenance porch twin) :
    Mirrors (Restated id fields provenance) (fun time result => result = time)
      now now porch twin := by
  intro outcome after yields
  obtain ⟨rfl, rfl⟩ := yields.unique (now_yields porch)
  refine ⟨_, _, now_yields twin, ?_, ?_⟩
  · exact ⟨restated.offers, restated.acceptances, restated.receipts,
      restated.ended, restated.copies, by rw [restated.clock]⟩
  · exact congrFun restated.clock 0

theorem known_mirrors
    (restated : Restated id fields provenance porch twin)
    (query : OfferId) :
    Mirrors (Restated id fields provenance)
      (fun offer result => result = offer ∧
        porch.state.offers[query]? = some offer)
      (known query) (known query) porch twin := by
  apply Mirrors.reading
  apply Mirrors.ofExcept restated
  rw [restated.offers]
  cases found : porch.state.offers[query]? with
  | none => rfl
  | some offer => exact ⟨rfl, rfl⟩

theorem ensureActive_mirrors
    (restated : Restated id fields provenance porch twin)
    (offer : Offer) :
    Mirrors (Restated id fields provenance) (fun _ _ => True)
      (ensureActive offer) (ensureActive offer) porch twin := by
  apply (now_mirrors restated).bind
  rintro _ time after later rfl states
  apply Mirrors.reading
  have same := states.ended offer.id
  by_cases inactive : time ≥ offer.expiresAt ∨ offer.id ∈ after.state.ended
  · have again : time ≥ offer.expiresAt ∨ offer.id ∈ later.state.ended := by
      rw [same]
      exact inactive
    rw [if_pos inactive, if_pos again]
    exact .throw states
  · have again : ¬ (time ≥ offer.expiresAt ∨
        offer.id ∈ later.state.ended) := by
      rw [same]
      exact inactive
    rw [if_neg inactive, if_neg again]
    exact .pure states trivial

theorem update_mirrors
    {change alter : State → State}
    (restated : Restated id fields provenance
      { porch with state := change porch.state }
      { twin with state := alter twin.state }) :
    Mirrors (Restated id fields provenance) (fun _ _ => True)
      (update change) (update alter) porch twin :=
  .modify restated

/-- The clock does not matter for how states are restated. -/
theorem Restated.close
    (restated : Restated id fields provenance porch twin)
    (query : OfferId) (time : UInt64) (reason : String) :
    Restated id fields provenance
      { porch with state := porch.state.close query time reason }
      { twin with state := twin.state.close query time reason } := by
  by_cases isEnded : query ∈ porch.state.ended
  · have again := (restated.ended query).mpr isEnded
    simp only [State.close, if_pos isEnded, if_pos again]
    exact restated
  · have again : query ∉ twin.state.ended := fun ended =>
      isEnded ((restated.ended query).mp ended)
    simp only [State.close, if_neg isEnded, if_neg again]
    refine ⟨restated.offers, ?_, restated.receipts, fun other => ?_,
      fun other => ?_, restated.clock⟩
    · simp only [restated.acceptances]
    · simp only [Std.ExtTreeMap.mem_insert, restated.ended]
    · simp only [Std.ExtTreeMap.getElem?_erase]
      by_cases here : compare query other = .eq
      · simp only [if_pos here]
        rfl
      · simp only [if_neg here]
        exact restated.copies other

theorem invite_mirrors
    (restated : Restated id fields provenance porch twin)
    (offer : Offer) :
    Mirrors (Restated id fields provenance) (fun _ _ => True)
      (invite offer) (invite offer) porch twin := by
  unfold invite
  by_cases same : offer.inviter = offer.recipient ∨
      offer.inviterKey = offer.recipientKey
  · simp only [if_pos same]
    exact .throw restated
  · simp only [if_neg same]
    apply Mirrors.bind
    · apply update_mirrors
      exact ⟨by simp only [restated.offers], restated.acceptances,
        restated.receipts, restated.ended, restated.copies, restated.clock⟩
    · intro _ _ after later _ states
      exact .pure states trivial

theorem accept_mirrors
    {verifier : KeyId → Bytes → Bytes → Bool}
    (restated : Restated id fields provenance porch twin)
    (acceptance : Acceptance) :
    Mirrors (Restated id fields provenance) (fun _ _ => True)
      (accept verifier acceptance) (accept verifier acceptance) porch twin := by
  apply (known_mirrors restated acceptance.offer).bind
  rintro _ offer first second ⟨rfl, _⟩ found
  apply (ensureActive_mirrors found offer).bind
  intro _ _ after later _ states
  cases offer.keyOf acceptance.party with
  | none => exact .throw states
  | some expected =>
      by_cases differs : acceptance.key ≠ expected
      · simp only [if_pos differs]
        exact .throw states
      simp only [if_neg differs]
      by_cases fails : ¬ verifier expected offer.acceptanceMessage
          acceptance.proof
      · simp only [if_pos fails]
        exact .throw states
      · simp only [if_neg fails]
        apply update_mirrors
        exact ⟨states.offers, by simp only [states.acceptances],
          states.receipts, states.ended, states.copies, states.clock⟩

theorem refuse_mirrors
    (restated : Restated id fields provenance porch twin)
    (query : OfferId) (party : PartyId) :
    Mirrors (Restated id fields provenance) (fun _ _ => True)
      (refuse query party) (refuse query party) porch twin := by
  apply (known_mirrors restated query).bind
  rintro _ offer first second ⟨rfl, _⟩ found
  by_cases stranger : party ≠ offer.inviter ∧ party ≠ offer.recipient
  · simp only [if_pos stranger]
    exact .throw found
  simp only [if_neg stranger]
  apply Mirrors.bind
  · apply update_mirrors
    by_cases isEnded : query ∈ first.state.ended
    · have again := (found.ended query).mpr isEnded
      simp only [if_pos isEnded, if_pos again]
      exact found
    · have again : query ∉ second.state.ended := fun ended =>
        isEnded ((found.ended query).mp ended)
      simp only [if_neg isEnded, if_neg again]
      exact ⟨found.offers, found.acceptances, found.receipts, found.ended,
        found.copies, found.clock⟩
  intro _ _ third fourth _ recorded
  apply (now_mirrors recorded).bind
  rintro _ time after later rfl states
  exact update_mirrors (states.close query time "refused")

theorem revoke_mirrors
    (restated : Restated id fields provenance porch twin)
    (query : OfferId) (party : PartyId) :
    Mirrors (Restated id fields provenance) (fun _ _ => True)
      (revoke query party) (revoke query party) porch twin := by
  apply (known_mirrors restated query).bind
  rintro _ offer first second ⟨rfl, _⟩ found
  by_cases stranger : party ≠ offer.inviter ∧ party ≠ offer.recipient
  · simp only [if_pos stranger]
    exact .throw found
  simp only [if_neg stranger]
  apply (now_mirrors found).bind
  rintro _ time third fourth rfl clocked
  apply Mirrors.bind
  · exact update_mirrors (clocked.close query time "revoked")
  intro _ _ after later _ states
  apply Mirrors.reading
  exact .pure states trivial

theorem read_mirrors
    (restated : Restated id fields provenance porch twin)
    (query : OfferId) :
    Mirrors (Restated id fields provenance)
      (fun copy result => result = copy.restate id fields provenance query)
      (read query) (read query) porch twin := by
  apply (known_mirrors restated query).bind
  rintro _ offer first second ⟨rfl, _⟩ found
  apply (now_mirrors found).bind
  rintro _ time third fourth rfl clocked
  by_cases expired : time ≥ offer.expiresAt
  · simp only [if_pos expired]
    apply (now_mirrors clocked).bind
    rintro _ time after later rfl states
    apply Mirrors.bind
    · exact update_mirrors (states.close query time "expired")
    intro _ _ after later _ states
    exact .throw states
  · simp only [if_neg expired]
    apply Mirrors.reading
    by_cases isEnded : query ∈ third.state.ended
    · have again := (clocked.ended query).mpr isEnded
      simp only [if_pos isEnded, if_pos again]
      exact .throw clocked
    · have again : query ∉ fourth.state.ended := fun ended =>
        isEnded ((clocked.ended query).mp ended)
      simp only [if_neg isEnded, if_neg again]
      rw [clocked.copies query]
      cases third.state.copies[query]? with
      | none => exact .throw clocked
      | some copy => exact .pure clocked rfl

theorem publish_mirrors
    {sha256 : Bytes → Digest}
    {fact again : Fact} {copied projected : Fields}
    (restated : Restated id fields provenance porch twin)
    (content : CopiedFact.mk again.id projected again.provenance =
      (CopiedFact.mk fact.id copied fact.provenance).restate id fields
        provenance offer.id) :
    Mirrors (Restated id fields provenance) (fun _ _ => True)
      (publish sha256 offer fact copied) (publish sha256 offer again projected)
      porch twin := by
  apply (now_mirrors restated).bind
  rintro _ time first second rfl clocked
  apply Mirrors.bind
  · apply update_mirrors
    refine ⟨clocked.offers, clocked.acceptances, fun query => ?_, clocked.ended,
      fun query => ?_, clocked.clock⟩
    · simp only [Std.ExtTreeMap.mem_insert, clocked.receipts]
    · simp only [Std.ExtTreeMap.getElem?_insert,
        Std.LawfulEqCmp.compare_eq_iff_eq]
      by_cases here : offer.id = query
      · subst here
        rw [if_pos rfl, if_pos rfl, content]
        rfl
      · rw [if_neg here, if_neg here]
        exact clocked.copies query
  intro _ _ after later _ states
  exact .pure states trivial

theorem Fact.restateFor_id
    {fact : Fact} :
    (fact.restateFor id fields provenance query).id = fact.id := by
  unfold Fact.restateFor
  split <;> rfl

/-- The copies of a delivery and of the restated one. -/
theorem restateFor_matches
    {fact : Fact}
    (shaped : offer.id = id → ∀ name, name ∈ offer.shape.fields ↔ name ∈ fields) :
    Matches (fun copied projected =>
        CopiedFact.mk fact.id projected
            (fact.restateFor id fields provenance offer.id).provenance =
          (CopiedFact.mk fact.id copied fact.provenance).restate id fields
            provenance offer.id)
      (project fact offer.shape.fields.toList ∅)
      (project (fact.restateFor id fields provenance offer.id)
        offer.shape.fields.toList ∅) := by
  by_cases here : offer.id = id
  · simp only [Fact.restateFor, CopiedFact.restate, if_pos here]
    apply (project_restate (shaped here)).weaken
    rintro copied projected rfl
    rfl
  · simp only [Fact.restateFor, CopiedFact.restate, if_neg here]
    cases project fact offer.shape.fields.toList ∅ <;> rfl

/-- A delivery of the restated fact repeats the delivery. -/
theorem deliver_mirrors
    {sha256 : Bytes → Digest}
    (restated : Restated id fields provenance porch twin)
    (audited : porch.state.Audited)
    (shaped : ∀ offer : Offer, porch.state.offers[id]? = some offer →
      ∀ name, name ∈ offer.shape.fields ↔ name ∈ fields)
    (query : OfferId) (fact : Fact) (fail : Bool) :
    Mirrors (Restated id fields provenance) (fun _ _ => True)
      (deliver sha256 query fact fail)
      (deliver sha256 query (fact.restateFor id fields provenance query) fail)
      porch twin := by
  apply Mirrors.reading
  have sameReceipt := restated.receipts query
  rw [← Std.ExtTreeMap.isSome_getElem?_iff_mem,
    ← Std.ExtTreeMap.isSome_getElem?_iff_mem] at sameReceipt
  cases present : porch.state.receipts[query]? with
  | some receipt =>
      rw [present] at sameReceipt
      obtain ⟨other, there⟩ :=
        Option.isSome_iff_exists.mp (sameReceipt.mpr rfl)
      rw [there]
      exact .pure restated trivial
  | none =>
      have absent : twin.state.receipts[query]? = none := by
        simpa [present] using sameReceipt
      rw [absent]
      apply (known_mirrors restated query).bind
      rintro _ offer first second ⟨rfl, invited⟩ found
      obtain rfl := audited.offers query offer invited
      have content := @restateFor_matches id fields provenance offer fact
        fun here => shaped offer (here ▸ invited)
      apply (ensureActive_mirrors found offer).bind
      intro _ _ third fourth _ active
      apply Mirrors.reading
      rw [active.acceptances, Fact.restateFor_id]
      by_cases missing : (offer.id, offer.inviter) ∉ third.state.acceptances ∨
          (offer.id, offer.recipient) ∉ third.state.acceptances
      · rw [if_pos missing, if_pos missing]
        exact .throw active
      rw [if_neg missing, if_neg missing]
      by_cases wrong : fact.id ≠ offer.fact
      · simp only [if_pos wrong]
        exact .throw active
      simp only [if_neg wrong]
      apply (Mirrors.ofExcept active content).bind
      intro copied projected after later same states
      cases fail with
      | true => exact .throw states
      | false =>
          apply publish_mirrors states
          rw [Fact.restateFor_id]
          exact same

theorem porchCall_mirrors
    {verifier : KeyId → Bytes → Bytes → Bool} {sha256 : Bytes → Digest}
    (restated : Restated id fields provenance porch twin)
    (audited : porch.state.Audited)
    (shaped : ∀ offer : Offer, porch.state.offers[id]? = some offer →
      ∀ name, name ∈ offer.shape.fields ↔ name ∈ fields)
    (call : PorchCall) :
    Mirrors (Restated id fields provenance) (fun _ _ => True)
      (porchCall verifier sha256 call)
      (porchCall verifier sha256 (call.restate id fields provenance))
      porch twin := by
  cases call with
  | invite offer =>
      exact (invite_mirrors restated offer).bind fun _ _ _ _ _ states =>
        .pure states trivial
  | accept acceptance =>
      exact (accept_mirrors restated acceptance).bind fun _ _ _ _ _ states =>
        .pure states trivial
  | refuse offer party =>
      exact (refuse_mirrors restated offer party).bind fun _ _ _ _ _ states =>
        .pure states trivial
  | deliver offer fact fail =>
      exact (deliver_mirrors restated audited shaped offer fact fail).bind
        fun _ _ _ _ _ states => .pure states trivial
  | read offer =>
      exact (read_mirrors restated offer).bind fun _ _ _ _ _ states =>
        .pure states trivial
  | revoke offer party =>
      exact (revoke_mirrors restated offer party).bind fun _ _ _ _ _ states =>
        .pure states trivial

theorem PorchCall.restate_sameConsent
    (call : PorchCall) :
    call.SameConsent (call.restate id fields provenance) := by
  cases call with
  | deliver offer fact fail => exact ⟨rfl, Fact.restateFor_id, rfl⟩
  | _ => rfl

end Restatement

section Runs

variable {verifier : KeyId → Bytes → Bytes → Bool} {sha256 : Bytes → Digest}
variable {history : List Entry} {state after : State}
variable {id : OfferId} {fields : Fields} {provenance : List ProvenanceLink}

theorem State.close_offers
    {time : UInt64} {reason : String} :
    (state.close id time reason).offers = state.offers := by
  unfold State.close
  split <;> rfl

theorem State.refuse_offers :
    (state.refuse id).offers = state.offers := by
  unfold State.refuse
  split <;> rfl

/-- No step changes an offer that was invited. -/
theorem PorchStep.offers
    {reading : UInt64} {call : PorchCall} {query : OfferId} {offer : Offer}
    {outcome : Except PorchError PorchReply}
    (step : PorchStep verifier reading state call outcome after)
    (invited : state.offers[query]? = some offer) :
    after.offers[query]? = some offer := by
  cases step with
  | invited _ _ => exact State.invite_offers invited
  | refused time => rwa [State.close_offers, State.refuse_offers]
  | expired time => rwa [State.close_offers]
  | revoked time => rwa [State.close_offers]
  | _ => exact invited

/-- The same consent admits every content under the offered names. -/
theorem PorchRun.restate
    (run : PorchRun verifier sha256 history state)
    (shaped : ∀ offer : Offer, state.offers[id]? = some offer →
      ∀ name, name ∈ offer.shape.fields ↔ name ∈ fields)
    (provenance : List ProvenanceLink) :
    ∃ others other, PorchRun verifier sha256 others other ∧
      List.Forall₂ Entry.SameConsent history others ∧
      ∀ clock, Restated id fields provenance ⟨state, clock⟩ ⟨other, clock⟩ := by
  induction run with
  | start =>
      refine ⟨[], .new, .start, .nil, fun clock => ?_⟩
      exact ⟨rfl, rfl, fun _ => .rfl, fun _ => .rfl, fun _ => by simp [State.new],
        rfl⟩
  | @call history state call clock outcome after earlier yields
      inductionHypothesis =>
      have step := porchCall_step yields
      have shapedBefore : ∀ offer : Offer, state.offers[id]? = some offer →
          ∀ name, name ∈ offer.shape.fields ↔ name ∈ fields :=
        fun offer invited => shaped offer (step.offers invited)
      obtain ⟨others, other, runs, same, restated⟩ :=
        inductionHypothesis shapedBefore
      obtain ⟨result, later, repeats, states, outcomes⟩ :=
        porchCall_mirrors (restated clock) earlier.recorded.audited shapedBefore
          call outcome after yields
      refine ⟨_, later.state, runs.call repeats, .cons ?_ same, fun _ => ?_⟩
      · exact ⟨call.restate_sameConsent, rfl, outcomes⟩
      · exact ⟨states.offers, states.acceptances, states.receipts, states.ended,
          states.copies, rfl⟩

/-- What a read returns in the restated run. -/
theorem read_restated
    {clock : Nat → UInt64} {copy : CopiedFact} {later : Porch}
    (run : PorchRun verifier sha256 history state)
    (reads : Yields (read id) ⟨state, clock⟩ (.ok copy) later)
    (names : ∀ name, name ∈ fields ↔ name ∈ copy.fields)
    (provenance : List ProvenanceLink) :
    ∃ others other after, PorchRun verifier sha256 others other ∧
      List.Forall₂ Entry.SameConsent history others ∧
      Yields (read id) ⟨other, clock⟩
        (.ok ⟨copy.source, fields, provenance⟩) after := by
  obtain ⟨offer, rfl, invited, _, delivered, _⟩ :=
    run.read_inv reads
  obtain ⟨_, _, _, fact, _, _, _, _, projects, _⟩ := delivered
  have shaped : ∀ found : Offer, state.offers[offer.id]? = some found →
      ∀ name, name ∈ found.shape.fields ↔ name ∈ fields := by
    intro found present name
    cases invited.symm.trans present
    rw [names name]
    exact project_names projects name
  obtain ⟨others, other, runs, same, restated⟩ := run.restate shaped provenance
  obtain ⟨result, after, repeats, _, outcomes⟩ :=
    read_mirrors (restated clock) offer.id _ _ reads
  cases result with
  | error error => exact outcomes.elim
  | ok found =>
      have content : found = copy.restate offer.id fields provenance offer.id :=
        outcomes
      rw [content, CopiedFact.restate, if_pos rfl] at repeats
      exact ⟨others, other, after, runs, same, repeats⟩

/--
Whenever a read returns a copy, the same invitations and proofs admit every
other content under the same names: the accepted identity binds none of it.
-/
theorem accepted_identity_binds_no_content
    {clock : Nat → UInt64} {copy : CopiedFact} {later : Porch}
    (run : PorchRun verifier sha256 history state)
    (reads : Yields (read id) ⟨state, clock⟩ (.ok copy) later) :
    ¬ ExactlyBound verifier sha256 history state id copy := by
  intro bound
  have link : ProvenanceLink := ⟨"other", id⟩
  obtain ⟨others, other, after, runs, same, repeats⟩ :=
    read_restated run reads (fun _ => .rfl) (link :: copy.provenance)
  obtain ⟨_, impossible⟩ := bound.content _ _ _ _ _ runs same repeats
  exact List.cons_ne_self link copy.provenance impossible

end Runs

/-- In the sample run, both parties accepted an identity that binds nothing. -/
theorem sample_binds_no_content :
    ¬ ExactlyBound sampleVerifier Reference.digest sampleHistory sampleDelivered
      sampleId sampleCopy :=
  accepted_identity_binds_no_content sample_run sample_read

/-- Two runs with the same consent, read with different field bytes. -/
theorem same_consent_other_bytes :
    ∃ others other after,
      PorchRun sampleVerifier Reference.digest sampleHistory sampleDelivered ∧
        Yields (read sampleId) ⟨sampleDelivered, fun _ => 0⟩ (.ok sampleCopy)
          ⟨sampleDelivered, fun _ => 0⟩ ∧
        PorchRun sampleVerifier Reference.digest others other ∧
        List.Forall₂ Entry.SameConsent sampleHistory others ∧
        Yields (read sampleId) ⟨other, fun _ => 0⟩
          (.ok ⟨sampleId, (∅ : Fields).insert "chosen" [2], []⟩) after := by
  have names : ∀ name, name ∈ (∅ : Fields).insert "chosen" [2] ↔
      name ∈ sampleCopy.fields := by
    intro name
    simp [sampleCopy]
  obtain ⟨others, other, after, runs, same, repeats⟩ :=
    read_restated sample_run sample_read names []
  exact ⟨others, other, after, sample_run, sample_read, runs, same, repeats⟩

end SimStorage.Mutual
