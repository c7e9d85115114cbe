import Idiom.Credentials.Handlers
import Idiom.Lib.Fallible
import Idiom.Lib.Run

/-!
# Credential exchanges and their state table

* `Action`, `step` — the operations of both services and the inbound messages, one after another.
* `Completed` — what a record that is `Done` must hold.
-/

namespace Idiom.Credentials

open CredentialExchangeRecord CredentialExchangeState Exchange Finmap Run FMap

/-! ## Inverting the operations -/

theorem guardState_eq_ok {record : CredentialExchangeRecord} {expected : CredentialExchangeState}
    {u : Unit} : guardState record expected = .ok u ↔ record.state = expected := guard_eq_ok

theorem guardRole_eq_ok {record : CredentialExchangeRecord} {expected : CredentialExchangeRole}
    {u : Unit} : guardRole record expected = .ok u ↔ record.role = expected := guard_eq_ok

theorem stored_eq_ok {field : Option String} {text value : String} :
    stored field text = .ok value ↔ field = some value := by
  cases field with
  | none | some v => simp [stored]

/-! ## Transitions -/

/-- How an operation rewrites a record. `acks` says which records may be acknowledged. -/
inductive Transition (acks : CredentialExchangeRecord → Prop) (r : CredentialExchangeRecord) :
    CredentialExchangeRecord → Prop where
  | offered (now : ℕ) (schemaId credDefId offerJson : String) :
      r.state = .proposalReceived → r.role = .issuer →
      Transition acks r
        (updateState
          { r with
            schemaId := some schemaId
            credDefId := some credDefId
            credentialOfferJson := some offerJson } now .offerSent)
  | requested (now : ℕ) (requestJson : String) :
      r.state = .offerReceived → r.role = .holder →
      Transition acks r
        (updateState
          { r with credentialRequestJson := some requestJson } now .requestSent)
  | requestStored (now : ℕ) (requestJson : String) :
      r.state = .offerSent →
      Transition acks r
        (updateState
          { r with credentialRequestJson := some requestJson } now .requestReceived)
  | attributesSet (now : ℕ) (attributes : Attributes) :
      Transition acks r { r with autoIssueAttributes := some attributes, updatedAt := now }
  | issued (now : ℕ) (credentialJson : String) :
      r.state = .requestReceived → r.role = .issuer →
      Transition acks r
        (updateState
          { r with credentialJson := some credentialJson } now .credentialIssued)
  -- the W3C service keeps the credential on the record itself
  | processed (now : ℕ) (credentialJson credentialId : String) :
      r.state = .requestSent → r.role = .holder → r.credentialFormat.isSome →
      Transition acks r
        (updateState
          { r with
            credentialJson := some credentialJson
            credentialId := some credentialId } now .done)
  | acked (now : ℕ) :
      r.state ≠ .done → acks r → Transition acks r (r.updateState now .done)
  | abandoned (now : ℕ) (reason : String) :
      r.state.isTerminal = false → Transition acks r (r.setError now reason)

variable {acks : CredentialExchangeRecord → Prop} {calls : Calls} {order : IterOrder String}
  {r r' : CredentialExchangeRecord}

theorem Transition.id (h : Transition acks r r') : r'.id = r.id := by
  cases h <;> rfl

theorem acceptProposalRecord_transition {schemaId credDefId : String} {msg : OfferCredentialMessage}
    (h : acceptProposalRecord calls schemaId credDefId r = .ok (r', msg)) :
    Transition acks r r' := by
  simp only [acceptProposalRecord, bind_eq_ok, guardState_eq_ok, guardRole_eq_ok] at h
  obtain ⟨-, hstate, -, hrole, offerJson, -, hr'⟩ := h
  cases hr'
  exact .offered _ _ _ _ hstate hrole

theorem acceptOfferRecord_transition {entropy : String} {msg : RequestCredentialMessage}
    (h : acceptOfferRecord calls entropy r = .ok (r', msg)) : Transition acks r r' := by
  simp only [acceptOfferRecord, bind_eq_ok, guardState_eq_ok, guardRole_eq_ok] at h
  obtain ⟨-, hstate, -, hrole, offerJson, -, credDefId, -, requestJson, -, hr'⟩ := h
  cases hr'
  exact .requested _ _ hstate hrole

theorem storeRequestRecord_transition {requestJson : String} {u : Unit}
    (h : storeRequestRecord calls requestJson r = .ok (r', u)) : Transition acks r r' := by
  simp only [storeRequestRecord, bind_eq_ok, guardState_eq_ok] at h
  obtain ⟨-, hstate, hr'⟩ := h
  cases hr'
  exact .requestStored _ _ hstate

variable {msg : IssueCredentialMessage × Option String}

theorem acceptRequestRecord_transition {attributes : Attributes}
    (h : acceptRequestRecord calls attributes r = .ok (r', msg)) : Transition acks r r' := by
  simp only [acceptRequestRecord, bind_eq_ok, guardState_eq_ok, guardRole_eq_ok] at h
  obtain ⟨-, hstate, -, hrole, _, -, _, -, _, -, credentialJson, -, hr'⟩ := h
  cases hr'
  exact .issued _ _ hstate hrole

theorem abandonExchangeRecord_transition {reason : String} {u : Unit}
    (h : abandonExchangeRecord calls reason r = .ok (r', u)) : Transition acks r r' := by
  unfold abandonExchangeRecord at h
  split at h
  · cases h
  · next hterminal =>
    cases h
    exact .abandoned _ _ (by simpa using hterminal)

namespace W3c

theorem acceptOfferRecord_transition {msg : RequestCredentialMessage}
    (h : acceptOfferRecord calls r = .ok (r', msg)) : Transition acks r r' := by
  simp only [acceptOfferRecord, bind_eq_ok, guardState_eq_ok, guardRole_eq_ok] at h
  obtain ⟨-, hstate, -, hrole, _, -, _, -, hr'⟩ := h
  cases hr'
  exact .requested _ _ hstate hrole

theorem acceptRequestRecord_transition {supported : Supported} {keyId : Option String}
    (h : acceptRequestRecord calls supported keyId r = .ok (r', msg)) : Transition acks r r' := by
  simp only [acceptRequestRecord, bind_eq_ok, guardState_eq_ok, guardRole_eq_ok] at h
  obtain ⟨-, hstate, -, hrole, _, -, -, -, _, -, signed, -, hr'⟩ := h
  cases hr'
  exact .issued _ _ hstate hrole

theorem formatOf_eq_ok {format : DidCommCredentialFormat} (h : formatOf r = .ok format) :
    r.credentialFormat.isSome := by
  unfold formatOf at h
  cases hformat : r.credentialFormat with
  | none =>
    rw [hformat] at h
    cases h
  | some f => rfl

theorem processCredentialRecord_transition {credential credentialId : String}
    (h : processCredentialRecord calls credential r = .ok (r', credentialId)) :
    Transition acks r r' := by
  simp only [processCredentialRecord, bind_eq_ok, guardState_eq_ok, guardRole_eq_ok] at h
  obtain ⟨-, hstate, -, hrole, format, hformat, hr'⟩ := h
  cases hr'
  exact .processed _ _ _ hstate hrole (formatOf_eq_ok hformat)

end W3c

/-! ## Writes -/

structure Initial (r : CredentialExchangeRecord) : Prop where
  state : r.state ∈ [proposalSent, .proposalReceived, .offerSent, .offerReceived]
  credentialJson : r.credentialJson = none
  credentialId : r.credentialId = none

/-- How an operation changes what the agent keeps. -/
inductive Write (acks : CredentialExchangeRecord → Prop) (s : Exchange) : Exchange → Prop where
  | created (r : CredentialExchangeRecord) :
      r.id ∉ s.records → Initial r →
      Write acks s { s with records := s.records.insert r.id r }
  | changed (r r' : CredentialExchangeRecord) :
      s.records.lookup r.id = some r → Transition acks r r' →
      Write acks s { s with records := s.records.insert r.id r' }
  -- the AnonCreds holder keeps the credential in its store
  | processed (r : CredentialExchangeRecord) (now : ℕ) (credentialJson credentialId : String) :
      s.records.lookup r.id = some r → r.state = .requestSent → r.role = .holder →
      Write acks s
        { s with
          records := s.records.insert r.id
            (updateState
              { r with
                credentialJson := some credentialJson
                credentialId := some credentialId } now .done)
          credentials := s.credentials.insert credentialId credentialJson }
  | registered (autoIssue : FMap String Attributes) : Write acks s { s with autoIssue := autoIssue }

/-- One write after another. -/
abbrev Writes (acks : CredentialExchangeRecord → Prop) : Exchange → Exchange → Prop :=
  Relation.ReflTransGen (Write acks)

variable {s t : Exchange}

theorem Exchange.Keyed.insert (hkeyed : s.Keyed) (hid : r'.id = r.id) :
    FMap.Keyed CredentialExchangeRecord.id (insert r.id r' s.records) := by
  have hkeyed' := FMap.Keyed.insert hkeyed r'
  rwa [hid] at hkeyed'

theorem Write.keyed (h : Write acks s t) (hkeyed : s.Keyed) : t.Keyed := by
  cases h with
  | created r _ _ => exact Keyed.insert hkeyed rfl
  | changed r r' _ htrans => exact Keyed.insert hkeyed htrans.id
  | processed r now credentialJson credentialId _ _ _ => exact Keyed.insert hkeyed rfl
  | registered autoIssue => exact hkeyed

theorem Writes.keyed (h : Writes acks s t) (hkeyed : s.Keyed) : t.Keyed := by
  induction h with
  | refl => exact hkeyed
  | tail _ hwrite ih => exact hwrite.keyed ih

theorem edit_writes {α : Type} {found : Option CredentialExchangeRecord} {what : String}
    {f : CredentialExchangeRecord → Except CredentialError (CredentialExchangeRecord × α)}
    (hfound : ∀ r, found = some r → s.records.lookup r.id = some r)
    (hf : ∀ r r' a, f r = .ok (r', a) → Transition acks r r') :
    Writes acks s (s.edit found what f).1 := by
  cases found with
  | none => exact .refl
  | some r =>
    cases hok : f r with
    | error e =>
      rw [edit_of_error hok]
    | ok result =>
      obtain ⟨r', a⟩ := result
      have htrans := hf r r' a hok
      rw [edit_of_ok (hfound r rfl) htrans.id hok]
      exact .single (.changed r r' (hfound r rfl) htrans)

theorem create_writes {α : Type} {a : α} (hr : Initial r) : Writes acks s (s.create r a).1 := by
  unfold create save
  split_ifs with hmem
  · exact .refl
  · exact .single (.created r hmem hr)

theorem Exchange.Keyed.of_findById (hkeyed : s.Keyed) {id : String}
    (h : s.findById id = some r) : s.records.lookup r.id = some r := by
  rw [hkeyed id r h]
  exact h

theorem Exchange.Keyed.of_findByThreadId (hkeyed : s.Keyed) {threadId : String}
    (h : s.findByThreadId order threadId = some r) : s.records.lookup r.id = some r := by
  obtain ⟨⟨id, hid⟩, -⟩ := mem_of_findByThreadId h
  rw [hkeyed id r hid]
  exact hid

/-! ## What every operation writes -/

variable {serde : Serde} {config : Config}

theorem storeProposal_writes (connectionId : Option String) (msg : ProposeCredentialMessage) :
    Writes acks s (storeProposal serde calls order s connectionId msg).1 := by
  unfold storeProposal
  split
  · exact .refl
  · exact create_writes ⟨by simp [new], by
      cases connectionId <;> rfl, by cases connectionId <;> rfl⟩

theorem createProposal_writes (connectionId schemaId credDefId : Option String)
    (proposalJson : String) :
    Writes acks s (createProposal calls s connectionId schemaId credDefId proposalJson).1 :=
  create_writes ⟨by simp [new], by cases connectionId <;> rfl, by
    cases connectionId <;> rfl⟩

theorem createOffer_writes (connectionId : Option String) (schemaId credDefId : String) :
    Writes acks s (createOffer calls s connectionId schemaId credDefId).1 := by
  unfold createOffer
  split
  · exact .refl
  · exact create_writes ⟨by simp [new], by
      cases connectionId <;> rfl, by cases connectionId <;> rfl⟩

theorem acceptProposal_writes (hkeyed : s.Keyed) (exchangeId schemaId credDefId : String) :
    Writes acks s (acceptProposal calls s exchangeId schemaId credDefId).1 :=
  edit_writes (fun _ => hkeyed.of_findById) fun _ _ _ => acceptProposalRecord_transition

theorem acceptOffer_writes (hkeyed : s.Keyed) (exchangeId entropy : String) :
    Writes acks s (acceptOffer calls s exchangeId entropy).1 :=
  edit_writes (fun _ => hkeyed.of_findById) fun _ _ _ => acceptOfferRecord_transition

theorem storeRequest_writes (hkeyed : s.Keyed) (exchangeId requestJson : String) :
    Writes acks s (storeRequest calls s exchangeId requestJson).1 :=
  edit_writes (fun _ => hkeyed.of_findById) fun _ _ _ => storeRequestRecord_transition

theorem setAutoIssueAttributes_writes (hkeyed : s.Keyed) (exchangeId : String)
    (attributes : Attributes) :
    Writes acks s (setAutoIssueAttributes calls s exchangeId attributes).1 :=
  edit_writes (fun _ => hkeyed.of_findById) fun r r' u h => by
    cases h
    exact .attributesSet _ _

theorem acceptRequest_writes (hkeyed : s.Keyed) (exchangeId : String) (attributes : Attributes) :
    Writes acks s (acceptRequest calls s exchangeId attributes).1 :=
  edit_writes (fun _ => hkeyed.of_findById) fun _ _ _ => acceptRequestRecord_transition

theorem abandonExchange_writes (hkeyed : s.Keyed) (exchangeId reason : String) :
    Writes acks s (abandonExchange calls s exchangeId reason).1 :=
  edit_writes (fun _ => hkeyed.of_findById) fun _ _ _ => abandonExchangeRecord_transition

theorem processCredentialRecord_eq_ok {credentialJson credentialId : String}
    (h : processCredentialRecord calls credentialJson r = .ok (r', credentialId)) :
    r.state = .requestSent ∧ r.role = .holder ∧
      r' = updateState
        { r with
          credentialJson := some credentialJson
          credentialId := some credentialId } calls.now .done := by
  simp only [processCredentialRecord, bind_eq_ok, guardState_eq_ok, guardRole_eq_ok] at h
  obtain ⟨-, hstate, -, hrole, _, -, _, -, hr'⟩ := h
  cases hr'
  exact ⟨hstate, hrole, rfl⟩

theorem processCredential_writes (hkeyed : s.Keyed) (exchangeId credentialJson : String) :
    Writes acks s (processCredential calls s exchangeId credentialJson).1 := by
  unfold processCredential
  cases hfound : s.findById exchangeId with
  | none => exact .refl
  | some r =>
    have hr := hkeyed.of_findById hfound
    cases hok : processCredentialRecord calls credentialJson r with
    | error e =>
      rw [edit_of_error hok]
    | ok result =>
      obtain ⟨r', credentialId⟩ := result
      obtain ⟨hstate, hrole, hr'⟩ := processCredentialRecord_eq_ok hok
      have hid : r'.id = r.id := by rw [hr', updateState_id]
      rw [edit_of_ok hr hid hok, hr']
      exact .single (.processed r calls.now credentialJson credentialId hr hstate hrole)

theorem processAck_writes (hkeyed : s.Keyed) {threadId : String}
    (hacks : ∀ r, s.findByThreadId order threadId = some r → r.state ≠ .done → acks r) :
    Writes acks s (processAck calls order s threadId).1 := by
  unfold processAck
  cases hfound : s.findByThreadId order threadId with
  | none => exact .refl
  | some r =>
    dsimp only
    split_ifs with hdone
    · exact .refl
    · have hr := hkeyed.of_findByThreadId hfound
      rw [update_of_lookup hr (r.updateState_id calls.now .done)]
      exact .single (.changed r _ hr (.acked calls.now hdone (hacks r hfound hdone)))

namespace W3c

theorem createOffer_writes {supported : Supported} (connectionId : Option String)
    (format : DidCommCredentialFormat) (offerJson : String) :
    Writes acks s (createOffer calls supported s connectionId format offerJson).1 := by
  unfold createOffer
  split
  · exact .refl
  · exact create_writes ⟨by simp [new], by
      cases connectionId <;> rfl, by cases connectionId <;> rfl⟩

theorem storeOffer_writes (connectionId : Option String) (offer : OfferCredentialMessage) :
    Writes acks s (storeOffer calls order s connectionId offer).1 := by
  unfold storeOffer
  split
  · exact .refl
  · split
    · exact .refl
    · exact create_writes ⟨by simp [new], by
        cases connectionId <;> rfl, by cases connectionId <;> rfl⟩

theorem acceptOffer_writes (hkeyed : s.Keyed) (exchangeId : String) :
    Writes acks s (acceptOffer calls s exchangeId).1 :=
  edit_writes (fun _ => hkeyed.of_findById) fun _ _ _ => acceptOfferRecord_transition

theorem storeRequest_writes (hkeyed : s.Keyed) (exchangeId requestJson : String) :
    Writes acks s (storeRequest calls s exchangeId requestJson).1 :=
  Credentials.storeRequest_writes hkeyed exchangeId requestJson

theorem acceptRequest_writes {supported : Supported} (hkeyed : s.Keyed) (exchangeId : String)
    (keyId : Option String) : Writes acks s (acceptRequest calls supported s exchangeId keyId).1 :=
  edit_writes (fun _ => hkeyed.of_findById) fun _ _ _ => acceptRequestRecord_transition

theorem processCredential_writes (hkeyed : s.Keyed) (exchangeId credential : String) :
    Writes acks s (processCredential calls s exchangeId credential).1 :=
  edit_writes (fun _ => hkeyed.of_findById) fun _ _ _ => processCredentialRecord_transition

end W3c

/-! ## What every handler writes -/

theorem Writes.then {u : Exchange} (h : Writes acks s t) (hkeyed : s.Keyed)
    (hnext : t.Keyed → Writes acks t u) : Writes acks s u :=
  h.trans (hnext (h.keyed hkeyed))

theorem handlePropose_writes (inbound : InboundMessage)
    (attachment : Except CredentialError String) :
    Writes acks s (handlePropose serde calls order s inbound attachment).1 := by
  unfold handlePropose
  split
  · exact .refl
  · next proposalJson =>
    have h := @storeProposal_writes acks calls order s serde inbound.context.connectionId
      ⟨inbound.threadId, proposalJson⟩
    split
    all_goals
      next heq =>
      rw [heq] at h
      exact h

theorem handleOffer_writes (hkeyed : s.Keyed) (autoAccept : Bool) (inbound : InboundMessage)
    (attachment : Except CredentialError String) :
    Writes acks s (handleOffer serde calls autoAccept s inbound attachment).1 := by
  unfold handleOffer
  split
  · exact .refl
  · split
    · exact .refl
    · next offerJson _ get _ =>
      have hcreate : Writes acks s (s.save (offerRecord calls inbound offerJson get)).1 := by
        unfold save
        split_ifs with hmem
        · exact .refl
        · refine .single (.created _ hmem ⟨?_, ?_, ?_⟩)
          · simp [offerRecord, new]
          iterate 2 cases hc : inbound.context.connectionId <;> simp [offerRecord, hc] <;> rfl
      split
      · next heq =>
        rw [heq] at hcreate
        exact hcreate
      · next s' heq =>
        rw [heq] at hcreate
        split_ifs
        · have hnext := hcreate.then hkeyed fun hkeyed' =>
            @acceptOffer_writes acks calls s' hkeyed' calls.recordId autoAcceptEntropy
          split
          all_goals
            next heq' =>
            rw [heq'] at hnext
            exact hnext
        · exact hcreate

theorem handleRequest_writes (hkeyed : s.Keyed) (inbound : InboundMessage)
    (attachment : Except CredentialError String) :
    Writes acks s (handleRequest calls order s inbound attachment).1 := by
  unfold handleRequest
  split
  · exact .refl
  · next requestJson =>
    split
    · exact .refl
    · next record _ =>
      have hstore := @storeRequest_writes acks calls s hkeyed record.id requestJson
      split
      · next heq =>
        rw [heq] at hstore
        exact hstore
      · next s' heq =>
        rw [heq] at hstore
        split
        · exact hstore
        · next attributes _ =>
          have hissue := hstore.then hkeyed fun hkeyed' =>
            @acceptRequest_writes acks calls s' hkeyed' record.id attributes
          split
          · next heq' =>
            rw [heq'] at hissue
            exact hissue
          · next heq' =>
            rw [heq'] at hissue
            exact hissue.tail (.registered _)

theorem handleIssue_writes (hkeyed : s.Keyed) (inbound : InboundMessage)
    (attachment : Except CredentialError String) :
    Writes acks s (handleIssue calls order s inbound attachment).1 := by
  unfold handleIssue
  split
  · exact .refl
  · next credentialJson =>
    split
    · exact .refl
    · next record _ =>
      have h := @processCredential_writes acks calls s hkeyed record.id credentialJson
      split
      all_goals
        next heq =>
        rw [heq] at h
        exact h

theorem handleProblemReport_writes (hkeyed : s.Keyed) (inbound : InboundMessage)
    (description : Option ProblemDescription) :
    Writes acks s (handleProblemReport calls order s inbound description).1 := by
  unfold handleProblemReport
  split
  · exact .refl
  · next description =>
    split
    · exact .refl
    · next record _ =>
      split_ifs
      · exact .refl
      · have h := @abandonExchange_writes acks calls s hkeyed record.id
          (description.code ++ ": " ++ description.en)
        split
        all_goals
          next heq =>
          rw [heq] at h
          exact h

namespace W3c

theorem handleOffer_writes (hkeyed : s.Keyed) (inbound : InboundMessage)
    (attachment : Except CredentialError String) :
    Writes acks s (handleOffer calls order config s inbound attachment).1 := by
  unfold handleOffer
  split
  · exact .refl
  · next offerJson =>
    have hstore := @storeOffer_writes acks calls order s inbound.context.connectionId
      ⟨inbound.threadId, inbound.formats, offerJson⟩
    split
    · next heq =>
      rw [heq] at hstore
      exact hstore
    · next s' record heq =>
      rw [heq] at hstore
      split_ifs
      · have hnext := hstore.then hkeyed fun hkeyed' =>
          @acceptOffer_writes acks calls s' hkeyed' record.id
        split
        all_goals
          next heq' =>
          rw [heq'] at hnext
          exact hnext
      · exact hstore

theorem handleRequest_writes (hkeyed : s.Keyed) (inbound : InboundMessage)
    (attachment : Except CredentialError String) :
    Writes acks s (handleRequest calls order config s inbound attachment).1 := by
  unfold handleRequest
  split
  · exact .refl
  · next requestJson =>
    split
    · exact .refl
    · next record _ =>
      have hstore := @storeRequest_writes acks calls s hkeyed record.id requestJson
      split
      · next heq =>
        rw [heq] at hstore
        exact hstore
      · next s' heq =>
        rw [heq] at hstore
        split_ifs
        · have hissue := hstore.then hkeyed fun hkeyed' =>
            @acceptRequest_writes acks calls s' config.supported hkeyed' record.id none
          split
          all_goals
            next heq' =>
            rw [heq'] at hissue
            exact hissue
        · exact hstore

theorem handleIssue_writes (hkeyed : s.Keyed) (inbound : InboundMessage)
    (attachment : Except CredentialError String) :
    Writes acks s (handleIssue calls order s inbound attachment).1 := by
  unfold handleIssue
  split
  · exact .refl
  · next credentialJson =>
    split
    · exact .refl
    · next record _ =>
      have h := @processCredential_writes acks calls s hkeyed record.id credentialJson
      split
      all_goals
        next heq =>
        rw [heq] at h
        exact h

end W3c

/-! ## Actions -/

/-- An operation of either service, or an inbound message. -/
inductive Action where
  | createProposal (connectionId schemaId credDefId : Option String) (proposalJson : String)
  | storeProposal (connectionId : Option String) (msg : ProposeCredentialMessage)
  | acceptProposal (exchangeId schemaId credDefId : String)
  | createOffer (connectionId : Option String) (schemaId credDefId : String)
  | acceptOffer (exchangeId entropy : String)
  | storeRequest (exchangeId requestJson : String)
  | setAutoIssueAttributes (exchangeId : String) (attributes : Attributes)
  | registerAutoIssueAttributes (exchangeId : String) (attributes : Attributes)
  | acceptRequest (exchangeId : String) (attributes : Attributes)
  | processCredential (exchangeId credentialJson : String)
  | processAck (threadId : String)
  | abandonExchange (exchangeId reason : String)
  | w3cCreateOffer (connectionId : Option String) (format : DidCommCredentialFormat)
      (offerJson : String)
  | w3cStoreOffer (connectionId : Option String) (offer : OfferCredentialMessage)
  | w3cAcceptOffer (exchangeId : String)
  | w3cStoreRequest (exchangeId requestJson : String)
  | w3cAcceptRequest (exchangeId : String) (keyId : Option String)
  | w3cProcessCredential (exchangeId credential : String)
  | w3cProcessAck (threadId : String)
  | handle (inbound : InboundMessage)

/-- An action, with what the outside answers during it and the order of the hash map then. -/
structure Step where
  calls : Calls
  order : IterOrder String
  action : Action

/-- What the agent keeps after an action. -/
def perform (serde : Serde) (config : Config) (calls : Calls) (order : IterOrder String)
    (s : Exchange) : Action → Exchange
  | .createProposal connectionId schemaId credDefId proposalJson =>
    (createProposal calls s connectionId schemaId credDefId proposalJson).1
  | .storeProposal connectionId msg => (storeProposal serde calls order s connectionId msg).1
  | .acceptProposal exchangeId schemaId credDefId =>
    (acceptProposal calls s exchangeId schemaId credDefId).1
  | .createOffer connectionId schemaId credDefId =>
    (createOffer calls s connectionId schemaId credDefId).1
  | .acceptOffer exchangeId entropy => (acceptOffer calls s exchangeId entropy).1
  | .storeRequest exchangeId requestJson => (storeRequest calls s exchangeId requestJson).1
  | .setAutoIssueAttributes exchangeId attributes =>
    (setAutoIssueAttributes calls s exchangeId attributes).1
  | .registerAutoIssueAttributes exchangeId attributes =>
    { s with autoIssue := s.autoIssue.insert exchangeId attributes }
  | .acceptRequest exchangeId attributes => (acceptRequest calls s exchangeId attributes).1
  | .processCredential exchangeId credentialJson =>
    (processCredential calls s exchangeId credentialJson).1
  | .processAck threadId => (processAck calls order s threadId).1
  | .abandonExchange exchangeId reason => (abandonExchange calls s exchangeId reason).1
  | .w3cCreateOffer connectionId format offerJson =>
    (W3c.createOffer calls config.supported s connectionId format offerJson).1
  | .w3cStoreOffer connectionId offer => (W3c.storeOffer calls order s connectionId offer).1
  | .w3cAcceptOffer exchangeId => (W3c.acceptOffer calls s exchangeId).1
  | .w3cStoreRequest exchangeId requestJson => (W3c.storeRequest calls s exchangeId requestJson).1
  | .w3cAcceptRequest exchangeId keyId =>
    (W3c.acceptRequest calls config.supported s exchangeId keyId).1
  | .w3cProcessCredential exchangeId credential =>
    (W3c.processCredential calls s exchangeId credential).1
  | .w3cProcessAck threadId => (W3c.processAck calls order s threadId).1
  | .handle inbound => (handle serde calls order config s inbound).1

def step (serde : Serde) (config : Config) (s : Exchange) (a : Step) : Option Exchange :=
  some (perform serde config a.calls a.order s a.action)

/-- The thread of an acknowledgement. -/
def Action.ackThread : Action → Option String
  | .processAck threadId => some threadId
  | .w3cProcessAck threadId => some threadId
  | .handle inbound =>
    match inbound.body with
    | .ack _ => some inbound.threadId
    | _ => none
  | _ => none

/-- Every action but an acknowledgement writes without acknowledging, and an acknowledgement
acknowledges the record that is found for its thread. -/
theorem perform_writes (hkeyed : s.Keyed) (action : Action)
    (hacks : ∀ threadId r, action.ackThread = some threadId →
      s.findByThreadId order threadId = some r → r.state ≠ .done → acks r) :
    Writes acks s (perform serde config calls order s action) := by
  cases action with
  | createProposal connectionId schemaId credDefId proposalJson =>
    exact createProposal_writes connectionId schemaId credDefId proposalJson
  | storeProposal connectionId msg => exact storeProposal_writes connectionId msg
  | acceptProposal exchangeId schemaId credDefId =>
    exact acceptProposal_writes hkeyed exchangeId schemaId credDefId
  | createOffer connectionId schemaId credDefId =>
    exact createOffer_writes connectionId schemaId credDefId
  | acceptOffer exchangeId entropy => exact acceptOffer_writes hkeyed exchangeId entropy
  | storeRequest exchangeId requestJson => exact storeRequest_writes hkeyed exchangeId requestJson
  | setAutoIssueAttributes exchangeId attributes =>
    exact setAutoIssueAttributes_writes hkeyed exchangeId attributes
  | registerAutoIssueAttributes exchangeId attributes => exact .single (.registered _)
  | acceptRequest exchangeId attributes => exact acceptRequest_writes hkeyed exchangeId attributes
  | processCredential exchangeId credentialJson =>
    exact processCredential_writes hkeyed exchangeId credentialJson
  | processAck threadId =>
    exact processAck_writes hkeyed fun r => hacks threadId r rfl
  | abandonExchange exchangeId reason => exact abandonExchange_writes hkeyed exchangeId reason
  | w3cCreateOffer connectionId format offerJson =>
    exact W3c.createOffer_writes connectionId format offerJson
  | w3cStoreOffer connectionId offer => exact W3c.storeOffer_writes connectionId offer
  | w3cAcceptOffer exchangeId => exact W3c.acceptOffer_writes hkeyed exchangeId
  | w3cStoreRequest exchangeId requestJson =>
    exact W3c.storeRequest_writes hkeyed exchangeId requestJson
  | w3cAcceptRequest exchangeId keyId => exact W3c.acceptRequest_writes hkeyed exchangeId keyId
  | w3cProcessCredential exchangeId credential =>
    exact W3c.processCredential_writes hkeyed exchangeId credential
  | w3cProcessAck threadId => exact processAck_writes hkeyed fun r => hacks threadId r rfl
  | handle inbound =>
    obtain ⟨threadId, firstFormatId, formats, body, context⟩ := inbound
    unfold perform Credentials.handle
    cases body with
    | propose attachment => exact handlePropose_writes _ attachment
    | offer attachment =>
      dsimp only
      split_ifs
      · exact W3c.handleOffer_writes hkeyed _ attachment
      · exact handleOffer_writes hkeyed _ _ attachment
    | request attachment =>
      dsimp only
      split_ifs
      · exact W3c.handleRequest_writes hkeyed _ attachment
      · exact handleRequest_writes hkeyed _ attachment
    | issue attachment =>
      dsimp only
      split_ifs
      · exact W3c.handleIssue_writes hkeyed _ attachment
      · exact handleIssue_writes hkeyed _ attachment
    | ack status => exact processAck_writes hkeyed fun r => hacks threadId r rfl
    | problemReport description => exact handleProblemReport_writes hkeyed _ description

/-! ## Paths in the table -/

/-- A path in the state table. -/
def Reaches : CredentialExchangeState → CredentialExchangeState → Prop :=
  Relation.ReflTransGen fun state next => next ∈ state.validNextStates

theorem Reaches.of_terminal {state next : CredentialExchangeState} (h : Reaches state next)
    (hterminal : state.isTerminal = true) : next = state := by
  induction h using Relation.ReflTransGen.head_induction_on with
  | refl => rfl
  | head hstep _ _ =>
    next a _ _ _ =>
    cases a <;> simp_all [isTerminal, validNextStates]

theorem Reaches.abandoned {state : CredentialExchangeState} (h : state.isTerminal = false) :
    Reaches state .abandoned := by
  refine .single ?_
  cases state <;> simp_all [isTerminal, validNextStates]

/-- An acknowledgement that is for an issued credential. -/
def AckIssued (r : CredentialExchangeRecord) : Prop :=
  r.role = .issuer ∧ r.state = .credentialIssued

theorem Reaches.received : Reaches .requestSent .done :=
  .head (by decide : .credentialReceived ∈ requestSent.validNextStates) (.single (by decide))

theorem Transition.reaches (h : Transition AckIssued r r') : Reaches r.state r'.state := by
  cases h with
  | offered now schemaId credDefId offerJson hstate hrole =>
    rw [hstate]
    show Reaches .proposalReceived .offerSent
    exact .single (by decide)
  | requested now requestJson hstate hrole =>
    rw [hstate]
    show Reaches .offerReceived .requestSent
    exact .single (by decide)
  | requestStored now requestJson hstate =>
    rw [hstate]
    show Reaches .offerSent .requestReceived
    exact .single (by decide)
  | attributesSet now attributes => exact .refl
  | issued now credentialJson hstate hrole =>
    rw [hstate]
    show Reaches .requestReceived .credentialIssued
    exact .single (by decide)
  | processed now credentialJson credentialId hstate hrole hformat =>
    rw [hstate]
    exact .received
  | acked now hdone hack =>
    rw [hack.2]
    show Reaches .credentialIssued .done
    exact .single (by decide)
  | abandoned now reason hterminal => exact .abandoned hterminal

/-- Every record stays, in a state the table leads to from the one it was in: in more than one step,
as an operation may write a record more than once. -/
def Follows (s t : Exchange) : Prop :=
  ∀ id r, s.records.lookup id = some r →
    ∃ r', t.records.lookup id = some r' ∧ Reaches r.state r'.state

theorem Follows.refl (s : Exchange) : Follows s s := fun _ r hr => ⟨r, hr, .refl⟩

theorem Follows.trans {u : Exchange} (h : Follows s t) (h' : Follows t u) : Follows s u := by
  intro id r hr
  obtain ⟨r', hr', hreach⟩ := h id r hr
  obtain ⟨r'', hr'', hreach'⟩ := h' id r' hr'
  exact ⟨r'', hr'', hreach.trans hreach'⟩

theorem follows_insert (hr : s.records.lookup r.id = some r) (hreach : Reaches r.state r'.state)
    (ht : t.records = s.records.insert r.id r') : Follows s t := by
  intro id r₀ hr₀
  rw [ht, lookup_insert_ite]
  split
  · next heq =>
    rw [heq, hr] at hr₀
    cases hr₀
    exact ⟨r', rfl, hreach⟩
  · exact ⟨r₀, hr₀, .refl⟩

theorem Write.follows (h : Write AckIssued s t) : Follows s t := by
  cases h with
  | created r hnew hinit =>
    intro id r₀ hr₀
    have hne : id ≠ r.id := by
      rintro rfl
      exact hnew (lookup_isSome.1 (by rw [hr₀]; rfl))
    exact ⟨r₀, by rw [lookup_insert_of_ne _ hne, hr₀], .refl⟩
  | changed r r' hr htrans => exact follows_insert hr htrans.reaches rfl
  | processed r now credentialJson credentialId hr hstate hrole =>
    refine follows_insert hr ?_ rfl
    rw [hstate]
    exact .received
  | registered autoIssue => exact .refl s

theorem Writes.follows (h : Writes AckIssued s t) : Follows s t := by
  induction h with
  | refl => exact .refl s
  | tail _ hwrite ih => exact ih.trans hwrite.follows

/-! ## What the records hold -/

/-- A record that is `Done` holds the credential it issued, or the id of a stored credential: one
of the holder's store, or one the record itself keeps. -/
structure CompletedRecord (credentials : FMap String String) (r : CredentialExchangeRecord) :
    Prop where
  issuer : r.state = .done → r.role = .issuer → r.credentialJson.isSome
  holder : r.state = .done → r.role = .holder → ∃ id, r.credentialId = some id ∧
    (id ∈ credentials ∨ (r.credentialFormat.isSome ∧ r.credentialJson.isSome))

def Completed (s : Exchange) : Prop :=
  ∀ id r, s.records.lookup id = some r → CompletedRecord s.credentials r

/-- The same, with what the other states hold. -/
structure SoundRecord (credentials : FMap String String) (r : CredentialExchangeRecord) : Prop
    extends CompletedRecord credentials r where
  issued : r.state = .credentialIssued → r.credentialJson.isSome
  unissued : r.role = .issuer → r.credentialJson.isSome →
    r.state = .credentialIssued ∨ r.state = .done ∨ r.state = .abandoned
  unprocessed : r.state ≠ .done → r.credentialId = none

structure Sound (s : Exchange) : Prop where
  keyed : s.Keyed
  records : ∀ id r, s.records.lookup id = some r → SoundRecord s.credentials r

theorem SoundRecord.mono {credentials credentials' : FMap String String}
    (h : SoundRecord credentials r) (hsub : ∀ id, id ∈ credentials → id ∈ credentials') :
    SoundRecord credentials' r where
  issuer := h.issuer
  holder hdone hrole := by
    obtain ⟨id, hid, hstored⟩ := h.holder hdone hrole
    exact ⟨id, hid, hstored.imp_left (hsub id)⟩
  issued := h.issued
  unissued := h.unissued
  unprocessed := h.unprocessed

variable {credentials : FMap String String}

theorem Initial.sound (h : Initial r) : SoundRecord credentials r := by
  have hdone : r.state ≠ .done := fun hdone => by
    have hstate := h.state
    rw [hdone] at hstate
    exact absurd hstate (by decide)
  have hissued : r.state ≠ .credentialIssued := fun hissued => by
    have hstate := h.state
    rw [hissued] at hstate
    exact absurd hstate (by decide)
  refine ⟨⟨fun h' => absurd h' hdone, fun h' => absurd h' hdone⟩, fun h' => absurd h' hissued,
    fun _ hjson => ?_, fun _ => h.credentialId⟩
  rw [h.credentialJson] at hjson
  cases hjson

theorem SoundRecord.advance (h : SoundRecord credentials r)
    (hstate : r.state ∉ [credentialIssued, .done, .abandoned])
    (hjson : r'.credentialJson = r.credentialJson) (hid : r'.credentialId = r.credentialId)
    (hrole : r'.role = r.role) (hstate' : r'.state ∉ [credentialIssued, .done]) :
    SoundRecord credentials r' := by
  simp only [List.mem_cons, List.not_mem_nil, or_false, not_or] at hstate hstate'
  refine ⟨⟨fun hdone => absurd hdone hstate'.2, fun hdone => absurd hdone hstate'.2⟩,
    fun hissued => absurd hissued hstate'.1, fun hissuer hsome => ?_, fun _ => ?_⟩
  · rw [hjson] at hsome
    rw [hrole] at hissuer
    rcases h.unissued hissuer hsome with hold | hold | hold
    · exact absurd hold hstate.1
    · exact absurd hold hstate.2.1
    · exact absurd hold hstate.2.2
  · rw [hid]
    exact h.unprocessed hstate.2.1

theorem Transition.sound (htrans : Transition AckIssued r r') (h : SoundRecord credentials r) :
    SoundRecord credentials r' := by
  cases htrans with
  | offered now schemaId credDefId offerJson hstate hrole =>
    exact h.advance (by rw [hstate]; decide) rfl rfl rfl (show offerSent ∉ _ by decide)
  | requested now requestJson hstate hrole =>
    exact h.advance (by rw [hstate]; decide) rfl rfl rfl (show requestSent ∉ _ by decide)
  | requestStored now requestJson hstate =>
    exact h.advance (by rw [hstate]; decide) rfl rfl rfl (show requestReceived ∉ _ by decide)
  | attributesSet now attributes =>
    exact ⟨⟨h.issuer, h.holder⟩, h.issued, h.unissued, h.unprocessed⟩
  | issued now credentialJson hstate hrole =>
    refine ⟨⟨fun _ _ => rfl, fun hdone => (nomatch hdone)⟩, fun _ => rfl, fun _ _ => .inl rfl,
      fun _ => h.unprocessed (by rw [hstate]; decide)⟩
  | processed now credentialJson credentialId hstate hrole hformat =>
    exact ⟨⟨fun _ _ => rfl, fun _ _ => ⟨credentialId, rfl, .inr ⟨hformat, rfl⟩⟩⟩, fun _ => rfl,
      fun _ _ => .inr (.inl rfl), fun hdone => absurd rfl hdone⟩
  | acked now hdone hack =>
    refine ⟨⟨fun _ _ => h.issued hack.2, fun _ hholder => ?_⟩, fun hissued => (nomatch hissued),
      fun _ _ => .inr (.inl rfl), fun hne => absurd rfl hne⟩
    have hcontra : CredentialExchangeRole.issuer = .holder := hack.1.symm.trans hholder
    cases hcontra
  | abandoned now reason hterminal =>
    refine ⟨⟨fun hdone => (nomatch hdone), fun hdone => (nomatch hdone)⟩,
      fun hissued => (nomatch hissued), fun _ _ => .inr (.inr rfl), fun _ => h.unprocessed ?_⟩
    rintro hdone
    rw [hdone] at hterminal
    cases hterminal

theorem Sound.insert (h : Sound s) {autoIssue : FMap String Attributes} (hid : r'.id = r.id)
    (hsub : ∀ id, id ∈ s.credentials → id ∈ credentials) (hr' : SoundRecord credentials r') :
    Sound ⟨s.records.insert r.id r', autoIssue, credentials⟩ where
  keyed := Keyed.insert h.keyed hid
  records id r₀ hr₀ := by
    rw [lookup_insert_ite] at hr₀
    split at hr₀
    · cases hr₀
      exact hr'
    · exact (h.records id r₀ hr₀).mono hsub

theorem Write.sound (hwrite : Write AckIssued s t) (h : Sound s) : Sound t := by
  cases hwrite with
  | created r hnew hinit => exact h.insert rfl (fun _ h => h) hinit.sound
  | changed r r' hr htrans =>
    exact h.insert htrans.id (fun _ h => h) (htrans.sound (h.records r.id r hr))
  | processed r now credentialJson credentialId hr hstate hrole =>
    refine h.insert rfl (fun _ hmem => mem_insert.2 (.inr hmem)) ?_
    exact ⟨⟨fun _ _ => rfl, fun _ _ => ⟨credentialId, rfl, .inl (mem_insert.2 (.inl rfl))⟩⟩,
      fun _ => rfl, fun _ _ => .inr (.inl rfl), fun hdone => absurd rfl hdone⟩
  | registered autoIssue => exact ⟨h.keyed, h.records⟩

theorem Writes.sound (hwrites : Writes AckIssued s t) (h : Sound s) : Sound t := by
  induction hwrites with
  | refl => exact h
  | tail _ hwrite ih => exact hwrite.sound ih

theorem Sound.completed (h : Sound s) : Completed s :=
  fun id r hr => (h.records id r hr).toCompletedRecord

/-! ## The condition -/

/-- An acknowledgement finds, if anything, a record that is `Done` already or an issuer's record
whose credential has been issued. -/
def AcksIssued (s : Exchange) (a : Step) : Prop :=
  ∀ threadId r, a.action.ackThread = some threadId → s.findByThreadId a.order threadId = some r →
    r.state = .done ∨ AckIssued r

/-- What a step must do: follow the table, and complete no record that does not hold what it
must. -/
def StepFollows (serde : Serde) (config : Config) (s : Exchange) (a : Step) : Prop :=
  ∀ t, step serde config s a = some t → Follows s t ∧ Completed t

theorem Sound.step (h : Sound s) {a : Step} (hacks : AcksIssued s a)
    (hstep : step serde config s a = some t) : Sound t ∧ Follows s t := by
  have hwrites := @perform_writes AckIssued a.calls a.order s serde config h.keyed a.action
    fun threadId r hthread hfound hdone => (hacks threadId r hthread hfound).resolve_left hdone
  rw [Option.some.inj hstep] at hwrites
  exact ⟨hwrites.sound h, hwrites.follows⟩

theorem perform_ack {action : Action} {threadId : String}
    (hthread : action.ackThread = some threadId)
    (hkeyed : s.Keyed) (hfound : s.findByThreadId order threadId = some r)
      (hdone : r.state ≠ .done) :
    perform serde config calls order s action =
      { s with records := s.records.insert r.id (r.updateState calls.now .done) } := by
  have hack : (processAck calls order s threadId).1 =
      { s with records := s.records.insert r.id (r.updateState calls.now .done) } := by
    simp only [processAck, hfound, if_neg hdone,
      update_of_lookup (hkeyed.of_findByThreadId hfound) (r.updateState_id calls.now .done)]
  cases action with
  | processAck threadId' | w3cProcessAck threadId' =>
    cases hthread
    exact hack
  | handle inbound =>
    obtain ⟨threadId', firstFormatId, formats, body, context⟩ := inbound
    cases body with
    | ack status =>
      cases hthread
      exact hack
    | propose | offer | request | issue | problemReport => cases hthread
  | _ => cases hthread

/-- An acknowledgement that does not meet the condition breaks the table or completes a record that
does not hold what it must. -/
theorem Sound.not_stepFollows (h : Sound s) {a : Step} (hbad : ¬ AcksIssued s a) :
    ¬ StepFollows serde config s a := by
  simp only [AcksIssued, not_forall, not_or] at hbad
  obtain ⟨threadId, r, hthread, hfound, hdone, hissued⟩ := hbad
  have hperform := @perform_ack a.calls a.order r s serde config a.action threadId hthread h.keyed
    hfound hdone
  have hr := h.keyed.of_findByThreadId hfound
  intro hsteps
  obtain ⟨hfollows, hcompleted⟩ := hsteps _ rfl
  rw [hperform] at hfollows hcompleted
  have hcomplete := hcompleted r.id _ (lookup_insert _)
  cases hrole : r.role with
  | holder =>
    obtain ⟨id, hid, -⟩ := hcomplete.holder rfl hrole
    have hnone := (h.records r.id r hr).unprocessed hdone
    cases hnone.symm.trans hid
  | issuer =>
    rcases (h.records r.id r hr).unissued hrole (hcomplete.issuer rfl hrole) with hold | hold | hold
    · exact hissued ⟨hrole, hold⟩
    · exact hdone hold
    · obtain ⟨r', hr', hreach⟩ := hfollows r.id r hr
      rw [lookup_insert] at hr'
      cases hr'
      have hsame := hreach.of_terminal (by rw [hold]; rfl)
      rw [hold] at hsame
      cases hsame

theorem Sound.stepFollows_iff (h : Sound s) {a : Step} :
    StepFollows serde config s a ↔ AcksIssued s a := by
  refine ⟨fun hfollows => by_contra fun hbad => h.not_stepFollows hbad hfollows, ?_⟩
  intro hacks t hstep
  obtain ⟨hsound, hfollows⟩ := h.step hacks hstep
  exact ⟨hfollows, hsound.completed⟩

/-! ## Runs -/

/-- An agent without exchanges. -/
def Exchange.new (credentials : FMap String String) : Exchange where
  records := ∅
  autoIssue := ∅
  credentials := credentials

theorem sound_new (credentials : FMap String String) : Sound (.new credentials) where
  keyed := keyed_empty _
  records id r hr := by
    cases (lookup_empty id).symm.trans hr

/-- **The table is followed, and nothing is `Done` without what it must hold, exactly when every
acknowledgement is for an issued credential.** -/
theorem follows_table_iff (serde : Serde) (config : Config) (credentials : FMap String String)
    (steps : List Step) :
    (Related (step serde config) Follows (.new credentials) steps ∧
      ∀ s, Visits (step serde config) (.new credentials) steps s → Completed s) ↔
      Along (step serde config) AcksIssued (.new credentials) steps := by
  have hsteps : Along (step serde config) (StepFollows serde config) (.new credentials) steps ↔
      Along (step serde config) AcksIssued (.new credentials) steps :=
    along_iff_along (fun s a h => h.stepFollows_iff)
      (fun s a t h hacks hstep => (h.step hacks hstep).1) (sound_new credentials)
  rw [← hsteps, related_iff_along Follows.refl fun _ _ _ => Follows.trans,
    visits_iff_along_next (sound_new credentials).completed]
  constructor
  · rintro ⟨hfollows, hcompleted⟩
    exact (hfollows.and hcompleted).imp fun s a h t hstep => ⟨h.1 t hstep, h.2 t hstep⟩
  · intro h
    exact ⟨h.imp fun s a hstep t ht => (hstep t ht).1, h.imp fun s a hstep t ht => (hstep t ht).2⟩

/-! ## An acknowledgement that comes too early -/

/-- AnonCreds libraries that answer everything. -/
def Sample.answers : Calls where
  createCredentialOffer _ _ := .ok "offer"
  createCredentialRequest _ _ _ _ := .ok "request"
  createCredential _ _ _ _ := .ok "credential"
  processCredential _ _ _ := .ok "credential-1"
  signCredential _ _ _ := .ok "signed"
  recordId := "exchange-1"
  messageId := "thread-1"
  credentialId := "credential-1"
  now := 0

def Sample.ack (connectionId threadId : String) : InboundMessage where
  threadId := threadId
  firstFormatId := none
  formats := []
  body := .ack .ok
  context := ⟨some connectionId, some "did:peer:holder", some "did:peer:issuer"⟩

def Sample.offered : CredentialExchangeRecord :=
  { new "exchange-1" 0 .issuer .offerSent "thread-1" with
    schemaId := some "schema-1"
    credDefId := some "cred-def-1"
    credentialOfferJson := some "offer"
    connectionId := some "conn-1" }

open Sample

def Sample.afterOffer : Exchange := ⟨insert "exchange-1" offered ∅, ∅, ∅⟩

theorem Sample.createOffer_new :
    (createOffer answers (.new ∅) (some "conn-1") "schema-1" "cred-def-1").1 =
      afterOffer := by
  have hcreate : createOffer answers (.new ∅) (some "conn-1") "schema-1" "cred-def-1" =
      (new ∅).create offered (offered, ⟨"thread-1", [anonCredsOffer], "offer"⟩) := rfl
  rw [hcreate]
  rfl

theorem Sample.findByThreadId (order : IterOrder String) :
    afterOffer.findByThreadId order "thread-1" = some offered := by
  rw [Exchange.findByThreadId, afterOffer, values_singleton]
  rfl

theorem Sample.keyed : afterOffer.Keyed := by
  intro id r hr
  rw [afterOffer, lookup_insert_ite] at hr
  split at hr
  · next heq =>
    cases hr
    exact heq.symm
  · cases (lookup_empty id).symm.trans hr

/-- The holder acknowledges the offer instead of requesting the credential. -/
theorem follows_table_fails :
    ¬ ∀ (serde : Serde) (config : Config) (steps : List Step),
      Related (step serde config) Follows (.new ∅) steps ∧
        ∀ s, Visits (step serde config) (.new ∅) steps s → Completed s := by
  intro hall
  obtain ⟨-, hcompleted⟩ := hall ⟨fun _ => none, fun text => text⟩ ⟨true, true, fun _ => true⟩
    [⟨answers, .some, .createOffer (some "conn-1") "schema-1" "cred-def-1"⟩,
      ⟨answers, .some, .handle (ack "conn-1" "thread-1")⟩]
  have hack := hcompleted _ (.of_exec rfl)
  rw [perform, createOffer_new,
    @perform_ack _ _ _ _ _ _ _ "thread-1" rfl keyed (findByThreadId .some)
      (by decide)] at hack
  have hdone := hack "exchange-1" _ (lookup_insert _)
  cases hdone.issuer rfl rfl

end Idiom.Credentials
