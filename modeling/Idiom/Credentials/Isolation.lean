import Idiom.Credentials.StateTable

/-!
# A credential and the connection it was offered to

The handlers find the record of a message by its thread alone.

* `Received`, `Agent`, `receive` — the messages, one after another, and what was sent.
* `Alike` — two agents that agree on one exchange.
-/

namespace Idiom.Credentials

open Sample Exchange InboundMessage Finmap CredentialExchangeRecord OutboundMessage Option Run

/-! ## Messages, one after another -/

/-- A message, with what the outside answers while it is handled and the order of the hash map. -/
structure Received where
  calls : Calls
  order : IterOrder String
  inbound : InboundMessage

/-- What an agent keeps, and what its handlers have answered. -/
structure Agent where
  exchange : Exchange
  sent : List OutboundMessage

def answers : Except MessageHandlerError (Option OutboundMessage) → List OutboundMessage
  | .ok (some out) => [out]
  | .ok none => []
  | .error _ => []

def receive (serde : Serde) (config : Config) (s : Agent) (a : Received) : Option Agent :=
  let handled := handle serde a.calls a.order config s.exchange a.inbound
  some ⟨handled.1, s.sent ++ answers handled.2⟩

def OutboundMessage.issuesOn (threadId : String) (out : OutboundMessage) : Bool :=
  match out.message with
  | .issue msg => msg.threadId = threadId
  | _ => false

/-- The credentials that were sent on a thread, with the peers they were sent to. -/
def Agent.credentialsSent (s : Agent) (threadId : String) : List OutboundMessage :=
  s.sent.filter (issuesOn threadId)

/-- The parts of a record that say how far the exchange is and what it is about. -/
structure SameExchange (r r' : CredentialExchangeRecord) : Prop where
  state : r'.state = r.state
  request : r'.credentialRequestJson = r.credentialRequestJson
  credential : r'.credentialJson = r.credentialJson

/-- What the claim asks of one message. -/
structure StepSafe (serde : Serde) (config : Config) (s : Exchange) (a : Received) : Prop where
  /-- The message changes no record of an issuer that has another connection. -/
  kept : ∀ id r c, s.records.lookup id = some r → r.role = .issuer → r.connectionId = some c →
    a.inbound.context.connectionId ≠ some c →
    ∃ r', (handle serde a.calls a.order config s a.inbound).1.records.lookup id = some r' ∧
      SameExchange r r'
  /-- A credential in the answer is one that was offered on the connection of the message. -/
  answered : ∀ out msg, (handle serde a.calls a.order config s a.inbound).2 = .ok (some out) →
    out.message = .issue msg →
    ∃ id r', (handle serde a.calls a.order config s a.inbound).1.records.lookup id = some r' ∧
      r'.threadId = msg.threadId ∧ r'.credentialJson = some msg.credentialJson ∧
      ∀ c, r'.connectionId = some c → a.inbound.context.connectionId = some c

/-- Whether a handler applies the message to the record it found. -/
def InboundMessage.appliesTo (inbound : InboundMessage) (r : CredentialExchangeRecord) : Bool :=
  match inbound.body with
  | .request (.ok _) => r.state = .offerSent
  | .ack _ => r.state ≠ .done
  | .problemReport (some _) => !r.state.isTerminal
  | _ => false

/-- A message that is applied to an issuer's record comes on the connection of the record. -/
def FromOwnConnection (s : Exchange) (a : Received) : Prop :=
  ∀ r c, s.findByThreadId a.order a.inbound.threadId = some r → r.role = .issuer →
    r.connectionId = some c → a.inbound.appliesTo r = true →
    a.inbound.context.connectionId = some c

/-! ## Which records an operation may rewrite -/

/-- The records that do not satisfy `p` stay as they are, and so do the attributes registered for
them. -/
def Touches (p : CredentialExchangeRecord → Prop) (s t : Exchange) : Prop :=
  ∀ id r, s.records.lookup id = some r → ¬ p r →
    t.records.lookup id = some r ∧ t.autoIssue.lookup id = s.autoIssue.lookup id

variable {p q : CredentialExchangeRecord → Prop} {s t u : Exchange}
  {r r' : CredentialExchangeRecord}
  {serde : Serde} {config : Config} {calls : Calls} {order : IterOrder String}

theorem Touches.refl (s : Exchange) : Touches p s s := fun _ _ hr _ => ⟨hr, rfl⟩

theorem Touches.trans (h : Touches p s t) (h' : Touches p t u) : Touches p s u := by
  intro id r hr hp
  obtain ⟨hrecord, hauto⟩ := h id r hr hp
  obtain ⟨hrecord', hauto'⟩ := h' id r hrecord hp
  exact ⟨hrecord', hauto'.trans hauto⟩

theorem touches_insert (hr : s.records.lookup r.id = some r) (hp : p r)
    {autoIssue : FMap String Attributes} {credentials : FMap String String}
    (hauto : ∀ id, id ≠ r.id → autoIssue.lookup id = s.autoIssue.lookup id) :
    Touches p s ⟨s.records.insert r.id r', autoIssue, credentials⟩ := by
  intro id r₀ hr₀ hp₀
  have hne : id ≠ r.id := by
    rintro rfl
    rw [hr] at hr₀
    cases hr₀
    exact hp₀ hp
  exact ⟨(lookup_insert_of_ne _ hne).trans hr₀, hauto id hne⟩

theorem touches_save (record : CredentialExchangeRecord) : Touches p s (s.save record).1 := by
  unfold save
  split_ifs with hmem
  · exact .refl s
  · intro id r hr _
    have hne : id ≠ record.id := by
      rintro rfl
      exact hmem (lookup_isSome.1 (by rw [hr]; rfl))
    exact ⟨(lookup_insert_of_ne _ hne).trans hr, rfl⟩

theorem touches_create {α : Type} (record : CredentialExchangeRecord) (a : α) :
    Touches p s (s.create record a).1 := by
  have h := @touches_save p s record
  unfold create
  split
  all_goals
    next heq =>
    rw [heq] at h
    exact h

theorem touches_edit {α : Type} {found : Option CredentialExchangeRecord} {what : String}
    {f : CredentialExchangeRecord → Except CredentialError (CredentialExchangeRecord × α)}
    (hfound : ∀ r, found = some r → s.records.lookup r.id = some r)
    (hf : ∀ r r' a, f r = .ok (r', a) → r'.id = r.id ∧ p r) :
    Touches p s (s.edit found what f).1 := by
  cases found with
  | none => exact .refl s
  | some r =>
    cases hok : f r with
    | error e =>
      rw [edit_of_error hok]
      exact .refl s
    | ok result =>
      obtain ⟨r', a⟩ := result
      obtain ⟨hid, hp⟩ := hf r r' a hok
      rw [edit_of_ok (hfound r rfl) hid hok]
      exact touches_insert (hfound r rfl) hp fun _ _ => rfl

/-! ## The holder's side -/

def OfHolder (r : CredentialExchangeRecord) : Prop := r.role = .holder

theorem acceptOffer_touches (hkeyed : s.Keyed) (exchangeId entropy : String) :
    Touches OfHolder s (acceptOffer calls s exchangeId entropy).1 := by
  refine touches_edit (fun _ => hkeyed.of_findById) fun r r' msg h => ?_
  simp only [acceptOfferRecord, bind_eq_ok, guardRole_eq_ok] at h
  obtain ⟨-, -, -, hrole, _, -, _, -, _, -, hr'⟩ := h
  cases hr'
  exact ⟨rfl, hrole⟩

theorem W3c.acceptOffer_touches (hkeyed : s.Keyed) (exchangeId : String) :
    Touches OfHolder s (acceptOffer calls s exchangeId).1 := by
  refine touches_edit (fun _ => hkeyed.of_findById) fun r r' msg h => ?_
  simp only [acceptOfferRecord, bind_eq_ok, guardRole_eq_ok] at h
  obtain ⟨-, -, -, hrole, _, -, _, -, hr'⟩ := h
  cases hr'
  exact ⟨rfl, hrole⟩

theorem processCredential_touches (hkeyed : s.Keyed) (exchangeId credentialJson : String) :
    Touches OfHolder s (processCredential calls s exchangeId credentialJson).1 := by
  have h : Touches OfHolder s (s.edit (s.findById exchangeId) exchangeId
      (processCredentialRecord calls credentialJson)).1 := by
    refine touches_edit (fun _ => hkeyed.of_findById) fun r r' credentialId h => ?_
    obtain ⟨-, hrole, rfl⟩ := processCredentialRecord_eq_ok h
    exact ⟨rfl, hrole⟩
  unfold processCredential
  split
  all_goals
    next heq =>
    rw [heq] at h
    exact h

theorem W3c.processCredential_touches (hkeyed : s.Keyed) (exchangeId credential : String) :
    Touches OfHolder s (processCredential calls s exchangeId credential).1 := by
  refine touches_edit (fun _ => hkeyed.of_findById) fun r r' credentialId h => ?_
  simp only [processCredentialRecord, bind_eq_ok, guardRole_eq_ok] at h
  obtain ⟨-, -, -, hrole, _, -, hr'⟩ := h
  cases hr'
  exact ⟨rfl, hrole⟩

/-- What a handler may do with a message that is no request: rewrite records of a holder, and
answer without a credential. -/
structure LeavesIssuers (s : Exchange) (handled : Handled) : Prop where
  touches : Touches OfHolder s handled.1
  answer : ∀ out msg, handled.2 = .ok (some out) → out.message ≠ .issue msg

theorem LeavesIssuers.of_eq {α : Type} {result : Exchange × α} {a : α}
    {answer : Except MessageHandlerError (Option OutboundMessage)}
    (h : Touches OfHolder s result.1) (heq : result = (s', a))
    (hanswer : ∀ out msg, answer = .ok (some out) → out.message ≠ .issue msg) :
    LeavesIssuers s (s', answer) := by
  rw [heq] at h
  exact ⟨h, hanswer⟩

theorem handlePropose_leaves (inbound : InboundMessage)
    (attachment : Except CredentialError String) :
    LeavesIssuers s (handlePropose serde calls order s inbound attachment) := by
  have hstore : ∀ msg, Touches OfHolder s
      (storeProposal serde calls order s inbound.context.connectionId msg).1 := by
    intro msg
    unfold storeProposal
    split
    · exact .refl s
    · exact touches_create _ _
  unfold handlePropose
  split
  · exact ⟨.refl s, fun _ _ h => (nomatch h)⟩
  · next proposalJson =>
    have h := hstore ⟨inbound.threadId, proposalJson⟩
    split
    all_goals
      next heq =>
      exact .of_eq h heq fun _ _ h => (nomatch h)

theorem handleOffer_leaves (hkeyed : s.Keyed) (autoAccept : Bool) (inbound : InboundMessage)
    (attachment : Except CredentialError String) :
    LeavesIssuers s (handleOffer serde calls autoAccept s inbound attachment) := by
  unfold handleOffer
  split
  · exact ⟨.refl s, fun _ _ h => (nomatch h)⟩
  · split
    · exact ⟨.refl s, fun _ _ h => (nomatch h)⟩
    · next offerJson _ get _ =>
      have hsave := @touches_save OfHolder s (offerRecord calls inbound offerJson get)
      have hkeyed' : (s.save (offerRecord calls inbound offerJson get)).1.Keyed := by
        unfold save
        split_ifs
        · exact hkeyed
        · exact Keyed.insert hkeyed rfl
      split
      · next heq => exact .of_eq hsave heq fun _ _ h => (nomatch h)
      · next s' heq =>
        rw [heq] at hsave hkeyed'
        split_ifs
        · have haccept := hsave.trans
            (@acceptOffer_touches s' calls hkeyed' calls.recordId autoAcceptEntropy)
          split
          all_goals
            next heq' =>
            exact .of_eq haccept heq' fun out msg hout hmsg => by cases hout <;> cases hmsg
        · exact ⟨hsave, fun _ _ h => (nomatch h)⟩

theorem W3c.handleOffer_leaves (hkeyed : s.Keyed) (inbound : InboundMessage)
    (attachment : Except CredentialError String) :
    LeavesIssuers s (handleOffer calls order config s inbound attachment) := by
  have hstore : ∀ offer, Touches OfHolder s
      (storeOffer calls order s inbound.context.connectionId offer).1 := by
    intro offer
    unfold storeOffer
    split
    · exact .refl s
    · split
      · exact .refl s
      · exact touches_create _ _
  unfold handleOffer
  split
  · exact ⟨.refl s, fun _ _ h => (nomatch h)⟩
  · next offerJson =>
    have h := hstore ⟨inbound.threadId, inbound.formats, offerJson⟩
    have hkeyed' := (@storeOffer_writes (fun _ => True) calls order s inbound.context.connectionId
      ⟨inbound.threadId, inbound.formats, offerJson⟩).keyed hkeyed
    split
    · next heq => exact .of_eq h heq fun _ _ h => (nomatch h)
    · next s' record heq =>
      rw [heq] at h hkeyed'
      split_ifs
      · have haccept := h.trans (@acceptOffer_touches s' calls hkeyed' record.id)
        split
        all_goals
          next heq' =>
          exact .of_eq haccept heq' fun out msg hout hmsg => by cases hout <;> cases hmsg
      · exact ⟨h, fun _ _ h => (nomatch h)⟩

theorem handleIssue_leaves (hkeyed : s.Keyed) (inbound : InboundMessage)
    (attachment : Except CredentialError String) :
    LeavesIssuers s (handleIssue calls order s inbound attachment) := by
  unfold handleIssue
  split
  · exact ⟨.refl s, fun _ _ h => (nomatch h)⟩
  · next credentialJson =>
    split
    · exact ⟨.refl s, fun _ _ h => (nomatch h)⟩
    · next record _ =>
      have h := @processCredential_touches s calls hkeyed record.id credentialJson
      split
      all_goals
        next heq =>
        exact .of_eq h heq fun out msg hout hmsg => by cases hout <;> cases hmsg

theorem W3c.handleIssue_leaves (hkeyed : s.Keyed) (inbound : InboundMessage)
    (attachment : Except CredentialError String) :
    LeavesIssuers s (handleIssue calls order s inbound attachment) := by
  unfold handleIssue
  split
  · exact ⟨.refl s, fun _ _ h => (nomatch h)⟩
  · next credentialJson =>
    split
    · exact ⟨.refl s, fun _ _ h => (nomatch h)⟩
    · next record _ =>
      have h := @processCredential_touches s calls hkeyed record.id credentialJson
      split
      all_goals
        next heq =>
        exact .of_eq h heq fun out msg hout hmsg => by cases hout <;> cases hmsg

/-! ## The issuer's side -/

/-- The record of a request that was stored. -/
def requested (calls : Calls) (requestJson : String) (r : CredentialExchangeRecord) :
    CredentialExchangeRecord :=
  updateState { r with credentialRequestJson := some requestJson } calls.now .requestReceived

/-- The agent that has stored a request. -/
abbrev Exchange.withRequest (s : Exchange) (calls : Calls) (r : CredentialExchangeRecord)
    (requestJson : String) : Exchange :=
  { s with records := s.records.insert r.id (requested calls requestJson r) }

/-- How a request is handled, for the record that was found. -/
inductive RequestHandled (calls : Calls) (s : Exchange) (inbound : InboundMessage)
    (r : CredentialExchangeRecord) (requestJson : String) : Handled → Prop where
  | refused (e : MessageHandlerError) :
      r.state ≠ .offerSent → RequestHandled calls s inbound r requestJson (s, .error e)
  | kept (answer : Except MessageHandlerError (Option OutboundMessage)) :
      r.state = .offerSent → answers answer = [] →
      RequestHandled calls s inbound r requestJson
        ({ s with records := s.records.insert r.id (requested calls requestJson r) }, answer)
  | issued (autoIssue : FMap String Attributes) (msg : IssueCredentialMessage) :
      r.state = .offerSent → r.role = .issuer → msg.threadId = r.threadId →
      (∀ id, id ≠ r.id → autoIssue.lookup id = s.autoIssue.lookup id) →
      RequestHandled calls s inbound r requestJson
        ({ s with
            records := s.records.insert r.id
              (updateState
                { requested calls requestJson r with credentialJson := some msg.credentialJson }
                calls.now .credentialIssued)
            autoIssue := autoIssue },
          .ok (some (inbound.issueReply msg r.connectionId)))

theorem storeRequest_of_offerSent (hr : s.records.lookup r.id = some r)
    (hstate : r.state = .offerSent) (requestJson : String) :
    storeRequest calls s r.id requestJson = (s.withRequest calls r requestJson, .ok ()) := by
  have hok : storeRequestRecord calls requestJson r = .ok (requested calls requestJson r, ()) := by
    simp only [storeRequestRecord, guardState, hstate, ne_eq, not_true]
    rfl
  unfold storeRequest
  rw [findById, hr]
  exact edit_of_ok hr rfl hok

theorem storeRequest_of_ne (hr : s.records.lookup r.id = some r) (hstate : r.state ≠ .offerSent)
    (requestJson : String) :
    storeRequest calls s r.id requestJson = (s, .error (.invalidState [.offerSent] r.state)) := by
  have herror : storeRequestRecord calls requestJson r =
      .error (.invalidState [.offerSent] r.state) := by
    simp only [storeRequestRecord, guardState, ne_eq, hstate, not_false_eq_true]
    rfl
  unfold storeRequest
  rw [findById, hr]
  exact edit_of_error herror

variable {msg : IssueCredentialMessage} {connectionId : Option String}

theorem acceptRequestRecord_eq_ok {attributes : Attributes}
    (h : acceptRequestRecord calls attributes r = .ok (r', msg, connectionId)) :
    r.role = .issuer ∧ msg.threadId = r.threadId ∧ connectionId = r.connectionId ∧
      r' = updateState
        { r with credentialJson := some msg.credentialJson } calls.now .credentialIssued := by
  simp only [acceptRequestRecord, bind_eq_ok, guardRole_eq_ok] at h
  obtain ⟨-, -, -, hrole, _, -, _, -, _, -, credentialJson, -, hr'⟩ := h
  cases hr'
  exact ⟨hrole, rfl, rfl, rfl⟩

theorem W3c.acceptRequestRecord_eq_ok {supported : Supported} {keyId : Option String}
    (h : acceptRequestRecord calls supported keyId r = .ok (r', msg, connectionId)) :
    r.role = .issuer ∧ msg.threadId = r.threadId ∧ connectionId = r.connectionId ∧
      r' = updateState
        { r with credentialJson := some msg.credentialJson } calls.now .credentialIssued := by
  simp only [acceptRequestRecord, bind_eq_ok, guardRole_eq_ok] at h
  obtain ⟨-, -, -, hrole, _, -, -, -, _, -, signed, -, hr'⟩ := h
  cases hr'
  exact ⟨hrole, rfl, rfl, rfl⟩

variable {requestJson : String}

theorem findById_withRequest :
    (s.withRequest calls r requestJson).findById r.id = some (requested calls requestJson r) :=
  lookup_insert _

theorem lookup_withRequest :
    (s.withRequest calls r requestJson).records.lookup (requested calls requestJson r).id =
      some (requested calls requestJson r) := lookup_insert _

section

variable {inbound : InboundMessage} {requestJson : String} {s' : Exchange}
  {f : CredentialExchangeRecord →
    Except CredentialError (CredentialExchangeRecord × IssueCredentialMessage × Option String)}
  (hstate : r.state = .offerSent)
  (hf : ∀ r₁ r₂ msg connectionId, f r₁ = .ok (r₂, msg, connectionId) →
    r₁.role = .issuer ∧ msg.threadId = r₁.threadId ∧ connectionId = r₁.connectionId ∧
      r₂ = updateState
        { r₁ with credentialJson := some msg.credentialJson } calls.now .credentialIssued)
include hstate hf

theorem RequestHandled.of_accept {autoIssue : FMap String Attributes}
    (hedit : edit (s.withRequest calls r requestJson)
      ((s.withRequest calls r requestJson).findById r.id) r.id f = (s', .ok (msg, connectionId)))
    (hauto : ∀ id, id ≠ r.id → autoIssue.lookup id = s'.autoIssue.lookup id) :
    RequestHandled calls s inbound r requestJson
      ({ s' with autoIssue := autoIssue }, .ok (some (inbound.issueReply msg connectionId))) := by
  rw [findById_withRequest] at hedit
  cases hok : f (requested calls requestJson r) with
  | error e =>
    rw [edit_of_error hok] at hedit
    cases hedit
  | ok result =>
    obtain ⟨r₂, msg', connectionId'⟩ := result
    obtain ⟨hrole, hthread, hconnection, rfl⟩ := hf _ _ _ _ hok
    rw [edit_of_ok lookup_withRequest (by rfl) hok] at hedit
    cases hedit
    rw [hconnection]
    have h := @RequestHandled.issued calls s inbound r requestJson autoIssue msg hstate hrole
      hthread
      hauto
    rwa [← insert_insert (b := requested calls requestJson r)] at h

theorem RequestHandled.of_refuse {e : CredentialError}
    {answer : Except MessageHandlerError (Option OutboundMessage)} (hanswer : answers answer = [])
    (hedit : edit (s.withRequest calls r requestJson)
      ((s.withRequest calls r requestJson).findById r.id) r.id f = (s', .error e)) :
    RequestHandled calls s inbound r requestJson (s', answer) := by
  rw [findById_withRequest] at hedit
  cases hok : f (requested calls requestJson r) with
  | error e' =>
    rw [edit_of_error hok] at hedit
    cases hedit
    exact .kept _ hstate hanswer
  | ok result =>
    obtain ⟨r₂, msg', connectionId'⟩ := result
    obtain ⟨-, -, -, rfl⟩ := hf _ _ _ _ hok
    rw [edit_of_ok lookup_withRequest (by rfl) hok] at hedit
    cases hedit

end

variable {inbound : InboundMessage}

theorem handleRequest_handled (hkeyed : s.Keyed)
    (hfound : s.findByThreadId order inbound.threadId = some r) :
    RequestHandled calls s inbound r requestJson
      (handleRequest calls order s inbound (.ok requestJson)) := by
  have hr := hkeyed.of_findByThreadId hfound
  by_cases hstate : r.state = .offerSent
  · simp only [handleRequest, hfound, storeRequest_of_offerSent hr hstate]
    split
    · exact .kept _ hstate rfl
    · next attributes _ =>
      split
      · next heq =>
        exact .of_refuse hstate (fun _ _ _ _ => acceptRequestRecord_eq_ok) rfl heq
      · next heq =>
        exact .of_accept hstate (fun _ _ _ _ => acceptRequestRecord_eq_ok) heq fun id hne =>
          lookup_erase_ne hne
  · simp only [handleRequest, hfound, storeRequest_of_ne hr hstate]
    exact .refused _ hstate

theorem W3c.storeRequest_eq (calls : Calls) :
    storeRequest calls = Credentials.storeRequest calls := rfl

theorem W3c.handleRequest_handled (hkeyed : s.Keyed)
    (hfound : s.findByThreadId order inbound.threadId = some r) :
    RequestHandled calls s inbound r requestJson
      (handleRequest calls order config s inbound (.ok requestJson)) := by
  have hr := hkeyed.of_findByThreadId hfound
  by_cases hstate : r.state = .offerSent
  · simp only [handleRequest, hfound, storeRequest_eq, storeRequest_of_offerSent hr hstate]
    split
    · split
      · next heq =>
        exact .of_refuse hstate (fun _ _ _ _ => acceptRequestRecord_eq_ok) rfl heq
      · next heq =>
        exact .of_accept hstate (fun _ _ _ _ => acceptRequestRecord_eq_ok) heq fun _ _ => rfl
    · exact .kept _ hstate rfl
  · simp only [handleRequest, hfound, storeRequest_eq, storeRequest_of_ne hr hstate]
    exact .refused _ hstate

/-! ## One message -/

structure Applied (s : Exchange) (inbound : InboundMessage) (r r' : CredentialExchangeRecord)
    (handled : Handled) : Prop where
  records : handled.1.records = s.records.insert r.id r'
  autoIssue : ∀ id, id ≠ r.id → handled.1.autoIssue.lookup id = s.autoIssue.lookup id
  state : r'.state ≠ r.state
  connectionId : r'.connectionId = r.connectionId
  threadId : r'.threadId = r.threadId
  role : r'.role = r.role
  answer : ∀ out msg, handled.2 = .ok (some out) → out.message = .issue msg →
    r.role = .issuer ∧ msg.threadId = r.threadId ∧ r'.credentialJson = some msg.credentialJson

/-- A message leaves the issuer's records as they are, or is applied to the record found. -/
def HandledAs (order : IterOrder String) (s : Exchange) (inbound : InboundMessage)
    (handled : Handled) : Prop :=
  (LeavesIssuers s handled ∧ ∀ r, s.findByThreadId order inbound.threadId = some r →
    inbound.appliesTo r = false) ∨
  ∃ r r', s.findByThreadId order inbound.threadId = some r ∧ inbound.appliesTo r = true ∧
    Applied s inbound r r' handled

theorem LeavesIssuers.same (answer : Except MessageHandlerError (Option OutboundMessage))
    (h : answers answer = []) : LeavesIssuers s (s, answer) := by
  refine ⟨.refl s, fun out msg hout => ?_⟩
  have hanswer : answer = .ok (some out) := hout
  rw [hanswer] at h
  cases h

theorem RequestHandled.handledAs {handled : Handled}
    (h : RequestHandled calls s inbound r requestJson handled)
    (hfound : s.findByThreadId order inbound.threadId = some r)
    (hbody : inbound.body = .request (.ok requestJson)) : HandledAs order s inbound handled := by
  have happlies : inbound.appliesTo r = decide (r.state = .offerSent) := by
    rw [appliesTo, hbody]
  cases h with
  | refused e hstate =>
    refine .inl ⟨.same _ rfl, fun r' hr' => ?_⟩
    obtain rfl : r = r' := some.inj (hfound.symm.trans hr')
    rw [happlies, decide_eq_false hstate]
  | kept answer hstate hanswer =>
    refine .inr ⟨r, _, hfound, by rw [happlies, decide_eq_true hstate], rfl, fun _ _ => rfl, ?_,
      rfl,
      rfl, rfl, fun out msg hout => ?_⟩
    · rw [hstate]
      exact fun h => (nomatch h)
    · have hsome : answer = .ok (some out) := hout
      rw [hsome] at hanswer
      cases hanswer
  | issued autoIssue msg hstate hrole hthread hauto =>
    refine .inr ⟨r, _, hfound, by rw [happlies, decide_eq_true hstate], rfl, hauto, ?_, rfl, rfl,
      rfl, fun out msg' hout hmsg => ?_⟩
    · rw [hstate]
      exact fun h => (nomatch h)
    · cases hout
      cases hmsg
      exact ⟨hrole, hthread, rfl⟩

theorem handleAck_handledAs (hkeyed : s.Keyed) {status : AckStatus}
    (hbody : inbound.body = .ack status) :
    HandledAs order s inbound (handleAck calls order s inbound) := by
  have happlies : ∀ r, inbound.appliesTo r = decide (r.state ≠ .done) := fun r => by
    rw [appliesTo, hbody]
  unfold handleAck processAck
  cases hfound : s.findByThreadId order inbound.threadId with
  | none => exact .inl ⟨.same _ rfl, fun r hr => (nomatch hfound.symm.trans hr)⟩
  | some r =>
    by_cases hdone : r.state = .done
    · simp only [if_pos hdone]
      refine .inl ⟨.same _ rfl, fun r' hr' => ?_⟩
      obtain rfl : r = r' := some.inj (hfound.symm.trans hr')
      rw [happlies, hdone]
      rfl
    · simp only [if_neg hdone, update_of_lookup (hkeyed.of_findByThreadId hfound)
        (r.updateState_id calls.now .done)]
      exact .inr ⟨r, _, hfound, by rw [happlies, decide_eq_true hdone], rfl, fun _ _ => rfl,
        fun h => hdone h.symm, rfl, rfl, rfl, fun _ _ hout => (nomatch hout)⟩

theorem abandonExchange_of_not_terminal (hr : s.records.lookup r.id = some r)
    (hterminal : r.state.isTerminal = false) (reason : String) :
    abandonExchange calls s r.id reason =
      ({ s with records := s.records.insert r.id (r.setError calls.now reason) }, .ok ()) := by
  have hok : abandonExchangeRecord calls reason r = .ok (r.setError calls.now reason, ()) := by
    simp [abandonExchangeRecord, hterminal]
  unfold abandonExchange
  rw [findById, hr]
  exact edit_of_ok hr rfl hok

theorem handleProblemReport_handledAs (hkeyed : s.Keyed) {description : Option ProblemDescription}
    (hbody : inbound.body = .problemReport description) :
    HandledAs order s inbound (handleProblemReport calls order s inbound description) := by
  cases description with
  | none => exact .inl ⟨.same _ rfl, fun r _ => by rw [appliesTo, hbody]⟩
  | some description =>
    have happlies : ∀ r, inbound.appliesTo r = !r.state.isTerminal := fun r => by
      rw [appliesTo, hbody]
    unfold handleProblemReport
    cases hfound : s.findByThreadId order inbound.threadId with
    | none => exact .inl ⟨.same _ rfl, fun r hr => (nomatch hfound.symm.trans hr)⟩
    | some r =>
      cases hterminal : r.state.isTerminal with
      | true =>
        simp only [hterminal]
        refine .inl ⟨.same _ rfl, fun r' hr' => ?_⟩
        obtain rfl : r = r' := some.inj (hfound.symm.trans hr')
        rw [happlies, hterminal]
        rfl
      | false =>
        simp only [hterminal, abandonExchange_of_not_terminal (hkeyed.of_findByThreadId hfound)
          hterminal]
        refine .inr ⟨r, _, hfound, by rw [happlies, hterminal]; rfl, rfl, fun _ _ => rfl, ?_, rfl,
          rfl,
          rfl, fun _ _ hout => (nomatch hout)⟩
        intro hsame
        rw [← hsame] at hterminal
        cases hterminal

theorem handle_handledAs (hkeyed : s.Keyed) (inbound : InboundMessage) :
    HandledAs order s inbound (handle serde calls order config s inbound) := by
  have hquiet : ∀ {handled : Handled}, LeavesIssuers s handled →
      (∀ r, inbound.appliesTo r = false) → HandledAs order s inbound handled :=
    fun hleaves hnever => .inl ⟨hleaves, fun r _ => hnever r⟩
  cases hbody : inbound.body with
  | propose attachment =>
    have hnever : ∀ r, inbound.appliesTo r = false := fun r => by
      rw [appliesTo, hbody]
    simp only [handle, hbody]
    exact hquiet (handlePropose_leaves inbound attachment) hnever
  | offer attachment =>
    have hnever : ∀ r, inbound.appliesTo r = false := fun r => by
      rw [appliesTo, hbody]
    simp only [handle, hbody]
    split_ifs
    · exact hquiet (W3c.handleOffer_leaves hkeyed inbound attachment) hnever
    · exact hquiet (handleOffer_leaves hkeyed _ inbound attachment) hnever
  | request attachment =>
    simp only [handle, hbody]
    cases attachment with
    | error e =>
      have hnever : ∀ r, inbound.appliesTo r = false := fun r => by
        rw [appliesTo, hbody]
      split_ifs
      · exact hquiet (.same _ rfl) hnever
      · exact hquiet (.same _ rfl) hnever
    | ok requestJson =>
      cases hfound : s.findByThreadId order inbound.threadId with
      | none =>
        have hnone : ∀ r, s.findByThreadId order inbound.threadId = some r →
            inbound.appliesTo r = false := fun r hr => (nomatch hfound.symm.trans hr)
        split_ifs
        · simp only [W3c.handleRequest, hfound]
          exact .inl ⟨.same _ rfl, hnone⟩
        · simp only [handleRequest, hfound]
          exact .inl ⟨.same _ rfl, hnone⟩
      | some r =>
        split_ifs
        · exact (W3c.handleRequest_handled hkeyed hfound).handledAs hfound hbody
        · exact (handleRequest_handled hkeyed hfound).handledAs hfound hbody
  | issue attachment =>
    have hnever : ∀ r, inbound.appliesTo r = false := fun r => by
      rw [appliesTo, hbody]
    simp only [handle, hbody]
    split_ifs
    · exact hquiet (W3c.handleIssue_leaves hkeyed inbound attachment) hnever
    · exact hquiet (handleIssue_leaves hkeyed inbound attachment) hnever
  | ack status =>
    simp only [handle, hbody]
    exact handleAck_handledAs hkeyed hbody
  | problemReport description =>
    simp only [handle, hbody]
    exact handleProblemReport_handledAs hkeyed hbody

theorem FromOwnConnection.kept {a : Received} (h : FromOwnConnection s a) (hkeyed : s.Keyed)
    {id c : String} (hr : s.records.lookup id = some r) (hrole : r.role = .issuer)
    (hc : r.connectionId = some c) (hother : a.inbound.context.connectionId ≠ some c) :
    (handle serde a.calls a.order config s a.inbound).1.records.lookup id = some r ∧
      (handle serde a.calls a.order config s a.inbound).1.autoIssue.lookup id =
        s.autoIssue.lookup id := by
  rcases @handle_handledAs s serde config a.calls a.order hkeyed a.inbound with
    ⟨hleaves, -⟩ | ⟨r₀, r', hfound, happlies, happlied⟩
  · refine hleaves.touches id r hr fun hholder => ?_
    cases hrole.symm.trans hholder
  · have hne : id ≠ r₀.id := by
      rintro rfl
      obtain rfl : r₀ = r := some.inj ((hkeyed.of_findByThreadId hfound).symm.trans hr)
      exact hother (h r₀ c hfound hrole hc happlies)
    rw [happlied.records, lookup_insert_of_ne _ hne]
    exact ⟨hr, happlied.autoIssue id hne⟩

theorem FromOwnConnection.stepSafe {a : Received} (h : FromOwnConnection s a) (hkeyed : s.Keyed) :
    StepSafe serde config s a where
  kept id r c hr hrole hc hother :=
    ⟨r, (h.kept hkeyed hr hrole hc hother).1, rfl, rfl, rfl⟩
  answered out msg hout hmsg := by
    rcases @handle_handledAs s serde config a.calls a.order hkeyed a.inbound with
      ⟨hleaves, -⟩ | ⟨r, r', hfound, happlies, happlied⟩
    · exact absurd hmsg (hleaves.answer out msg hout)
    · obtain ⟨hrole, hthread, hjson⟩ := happlied.answer out msg hout hmsg
      refine ⟨r.id, r', ?_, happlied.threadId.trans hthread.symm, hjson, fun c hc => ?_⟩
      · rw [happlied.records, lookup_insert]
      · exact h r c hfound hrole (happlied.connectionId.symm.trans hc) happlies

/-- A message that is applied to the record of another connection changes its state. -/
theorem StepSafe.fromOwnConnection {a : Received} (h : StepSafe serde config s a)
    (hkeyed : s.Keyed) : FromOwnConnection s a := by
  intro r c hfound hrole hc happlies
  by_contra hother
  rcases @handle_handledAs s serde config a.calls a.order hkeyed a.inbound with
    ⟨-, hnever⟩ | ⟨r₀, r', hfound', -, happlied⟩
  · rw [hnever r hfound] at happlies
    cases happlies
  · obtain rfl : r = r₀ := some.inj (hfound.symm.trans hfound')
    obtain ⟨r'', hr'', hsame⟩ := h.kept r.id r c (hkeyed.of_findByThreadId hfound) hrole hc hother
    rw [happlied.records, lookup_insert] at hr''
    cases hr''
    exact happlied.state hsame.state

/-- **A message is safe exactly when, if it is applied to an issuer's record, it comes on the
connection of the record.** -/
theorem stepSafe_iff {a : Received} (hkeyed : s.Keyed) :
    StepSafe serde config s a ↔ FromOwnConnection s a :=
  ⟨fun h => h.fromOwnConnection hkeyed, fun h => h.stepSafe hkeyed⟩

/-! ## Two agents that agree on one exchange -/

/-- The record at `id` is the only one of its thread. -/
def Alone (id : String) (s : Exchange) : Prop :=
  ∀ r id' r', s.records.lookup id = some r → s.records.lookup id' = some r' →
    r'.threadId = r.threadId → id' = id

structure Alike (id : String) (s s' : Exchange) : Prop where
  record : s.records.lookup id = s'.records.lookup id
  autoIssue : s.autoIssue.lookup id = s'.autoIssue.lookup id

/-- Two agents do the same on one exchange. -/
structure AlikeResult {α : Type} (id : String) (result result' : Exchange × α) : Prop where
  agent : Alike id result.1 result'.1
  answer : result.2 = result'.2

variable {s' : Exchange} {id : String}

@[elab_as_elim]
theorem AlikeResult.elim {α : Type} {result result' : Exchange × α}
    {motive : Exchange × α → Exchange × α → Prop} (h : AlikeResult id result result')
    (hmotive : ∀ t t' a, Alike id t t' → motive (t, a) (t', a)) : motive result result' := by
  obtain ⟨t, a⟩ := result
  obtain ⟨t', a'⟩ := result'
  obtain rfl : a = a' := h.answer
  exact hmotive t t' a h.agent

theorem Alike.insert (h : Alike id s s') (r : CredentialExchangeRecord)
    {credentials credentials' : FMap String String} :
    Alike id ⟨s.records.insert id r, s.autoIssue, credentials⟩
      ⟨s'.records.insert id r, s'.autoIssue, credentials'⟩ :=
  ⟨by rw [lookup_insert, lookup_insert], h.autoIssue⟩

theorem edit_alike {α : Type} {what : String}
    {f : CredentialExchangeRecord → Except CredentialError (CredentialExchangeRecord × α)}
    (h : Alike r.id s s') (hr : s.records.lookup r.id = some r)
    (hf : ∀ r₀ r₁ a, f r₀ = .ok (r₁, a) → r₁.id = r₀.id) :
    AlikeResult r.id (s.edit (s.findById r.id) what f) (s'.edit (s'.findById r.id) what f) := by
  have hr' : s'.records.lookup r.id = some r := h.record.symm.trans hr
  rw [findById, findById, hr, hr']
  cases hok : f r with
  | error e =>
    rw [edit_of_error hok, edit_of_error hok]
    exact ⟨h, rfl⟩
  | ok result =>
    obtain ⟨r₁, a⟩ := result
    have hid := hf r r₁ a hok
    rw [edit_of_ok hr hid hok, edit_of_ok hr' hid hok]
    exact ⟨h.insert r₁, rfl⟩

theorem acceptRequest_alike (h : Alike r.id s s') (hr : s.records.lookup r.id = some r)
    (attributes : Attributes) :
    AlikeResult r.id (acceptRequest calls s r.id attributes)
      (acceptRequest calls s' r.id attributes) :=
  edit_alike h hr fun r₀ r₁ msg hok => by
    obtain ⟨-, -, -, rfl⟩ := acceptRequestRecord_eq_ok hok
    rfl

theorem W3c.acceptRequest_alike (h : Alike r.id s s') (hr : s.records.lookup r.id = some r)
    (supported : Supported) (keyId : Option String) :
    AlikeResult r.id (acceptRequest calls supported s r.id keyId)
      (acceptRequest calls supported s' r.id keyId) :=
  edit_alike h hr fun r₀ r₁ msg hok => by
    obtain ⟨-, -, -, rfl⟩ := acceptRequestRecord_eq_ok hok
    rfl

section
variable {inbound : InboundMessage} (h : Alike r.id s s') (hr : s.records.lookup r.id = some r)
  (hfound : s.findByThreadId order inbound.threadId = some r)
  (hfound' : s'.findByThreadId order inbound.threadId = some r)
include h hr hfound hfound'

theorem handleRequest_alike (requestJson : String) :
    AlikeResult r.id (handleRequest calls order s inbound (.ok requestJson))
      (handleRequest calls order s' inbound (.ok requestJson)) := by
  have hr' : s'.records.lookup r.id = some r := h.record.symm.trans hr
  by_cases hstate : r.state = .offerSent
  · simp only [handleRequest, hfound, hfound', storeRequest_of_offerSent hr hstate,
      storeRequest_of_offerSent hr' hstate, ← h.autoIssue]
    have hstored : Alike r.id (s.withRequest calls r requestJson)
        (s'.withRequest calls r requestJson) := h.insert _
    cases r.autoIssueAttributes.orElse fun _ => s.autoIssue.lookup r.id with
    | none => exact ⟨hstored, rfl⟩
    | some attributes =>
      have haccept : AlikeResult r.id
          (acceptRequest calls (s.withRequest calls r requestJson) r.id attributes)
          (acceptRequest calls (s'.withRequest calls r requestJson) r.id attributes) :=
        @acceptRequest_alike _ (requested calls requestJson r) calls _ hstored
          (lookup_insert _) attributes
      dsimp only
      refine haccept.elim fun t t' result hagent => ?_
      cases result with
      | error e => exact ⟨hagent, rfl⟩
      | ok issued =>
        exact ⟨⟨hagent.record, by rw [lookup_erase, lookup_erase]⟩, rfl⟩
  · simp only [handleRequest, hfound, hfound', storeRequest_of_ne hr hstate,
      storeRequest_of_ne hr' hstate]
    exact ⟨h, rfl⟩

theorem W3c.handleRequest_alike (requestJson : String) :
    AlikeResult r.id (handleRequest calls order config s inbound (.ok requestJson))
      (handleRequest calls order config s' inbound (.ok requestJson)) := by
  have hr' : s'.records.lookup r.id = some r := h.record.symm.trans hr
  by_cases hstate : r.state = .offerSent
  · simp only [handleRequest, hfound, hfound', storeRequest_eq,
      storeRequest_of_offerSent hr hstate, storeRequest_of_offerSent hr' hstate]
    have hstored : Alike r.id (s.withRequest calls r requestJson)
        (s'.withRequest calls r requestJson) := h.insert _
    have haccept : AlikeResult r.id
        (acceptRequest calls config.supported (s.withRequest calls r requestJson) r.id none)
        (acceptRequest calls config.supported (s'.withRequest calls r requestJson) r.id none) :=
      @acceptRequest_alike _ (requested calls requestJson r) calls _ hstored
        (lookup_insert _) config.supported none
    cases config.autoIssue with
    | false => exact ⟨hstored, rfl⟩
    | true =>
      refine haccept.elim fun t t' result hagent => ?_
      cases result with
      | error e | ok issued => exact ⟨hagent, rfl⟩
  · simp only [handleRequest, hfound, hfound', storeRequest_eq,
      storeRequest_of_ne hr hstate, storeRequest_of_ne hr' hstate]
    exact ⟨h, rfl⟩

theorem handleAck_alike :
    AlikeResult r.id (handleAck calls order s inbound) (handleAck calls order s' inbound) := by
  have hr' : s'.records.lookup r.id = some r := h.record.symm.trans hr
  simp only [handleAck, processAck, hfound, hfound']
  split_ifs
  · exact ⟨h, rfl⟩
  · rw [update_of_lookup hr (r.updateState_id calls.now .done),
      update_of_lookup hr' (r.updateState_id calls.now .done)]
    exact ⟨h.insert _, rfl⟩

theorem handleProblemReport_alike (description : ProblemDescription) :
    AlikeResult r.id (handleProblemReport calls order s inbound (some description))
      (handleProblemReport calls order s' inbound (some description)) := by
  have hr' : s'.records.lookup r.id = some r := h.record.symm.trans hr
  simp only [handleProblemReport, hfound, hfound']
  cases hterminal : r.state.isTerminal with
  | true => exact ⟨h, rfl⟩
  | false =>
    simp only [abandonExchange_of_not_terminal hr hterminal,
      abandonExchange_of_not_terminal hr' hterminal]
    exact ⟨h.insert _, rfl⟩

theorem handle_alike (happlies : inbound.appliesTo r = true) :
    AlikeResult r.id (handle serde calls order config s inbound)
      (handle serde calls order config s' inbound) := by
  unfold appliesTo at happlies
  unfold handle
  split at happlies
  · next requestJson hbody =>
    simp only [hbody]
    split_ifs
    · exact W3c.handleRequest_alike h hr hfound hfound' requestJson
    · exact handleRequest_alike h hr hfound hfound' requestJson
  · next status hbody =>
    simp only [hbody]
    exact handleAck_alike h hr hfound hfound'
  · next description hbody =>
    simp only [hbody]
    exact handleProblemReport_alike h hr hfound hfound' description
  · cases happlies

end

/-! ## One exchange along a run -/

theorem handle_keyed (hkeyed : s.Keyed) (inbound : InboundMessage) :
    (handle serde calls order config s inbound).1.Keyed :=
  (@perform_writes (fun _ => True) calls order s serde config hkeyed (.handle inbound)
    fun _ _ _ _ _ => trivial).keyed hkeyed

/-- The record at `id` is an issuer's, of the connection `c` and the thread. -/
structure Watched (id c threadId : String) (s : Agent) : Prop where
  keyed : s.exchange.Keyed
  record : ∃ r, s.exchange.records.lookup id = some r ∧ r.role = .issuer ∧
    r.connectionId = some c ∧ r.threadId = threadId

structure SameSeen (id threadId : String) (s s' : Agent) : Prop where
  alike : Alike id s.exchange s'.exchange
  sent : s.credentialsSent threadId = s'.credentialsSent threadId

open SameSeen

theorem sameSeen_equivalence (id threadId : String) : Equivalence (SameSeen id threadId) where
  refl _ := ⟨⟨rfl, rfl⟩, rfl⟩
  symm h := ⟨⟨h.alike.record.symm, h.alike.autoIssue.symm⟩, h.sent.symm⟩
  trans h h' := ⟨⟨h.alike.record.trans h'.alike.record, h.alike.autoIssue.trans h'.alike.autoIssue⟩,
    h.sent.trans h'.sent⟩

variable {c threadId : String}

theorem Watched.receive {s t : Agent} {a : Received} (h : Watched id c threadId s)
    (hstep : receive serde config s a = some t) : Watched id c threadId t := by
  cases hstep
  refine ⟨handle_keyed h.keyed a.inbound, ?_⟩
  obtain ⟨r, hr, hrole, hc, hthread⟩ := h.record
  rcases @handle_handledAs s.exchange serde config a.calls a.order h.keyed a.inbound with
    ⟨hleaves, -⟩ | ⟨r₀, r', hfound, -, happlied⟩
  · refine ⟨r, (hleaves.touches id r hr fun hholder => ?_).1, hrole, hc, hthread⟩
    cases hrole.symm.trans hholder
  · rw [happlied.records, FMap.lookup_insert_ite]
    split_ifs with hid
    · rw [hid, h.keyed.of_findByThreadId hfound] at hr
      cases hr
      exact ⟨r', rfl, happlied.role.trans hrole, happlied.connectionId.trans hc,
        happlied.threadId.trans hthread⟩
    · exact ⟨r, hr, hrole, hc, hthread⟩

theorem issued_eq_nil {threadId : String} {answer : Except MessageHandlerError
    (Option OutboundMessage)}
    (h : ∀ out msg, answer = .ok (some out) → out.message = .issue msg → msg.threadId ≠ threadId) :
    (answers answer).filter (issuesOn threadId) = [] := by
  rw [List.filter_eq_nil_iff]
  intro out hout hissues
  have hanswer : answer = .ok (some out) := by
    unfold answers at hout
    split at hout
    · rw [List.mem_singleton.1 hout]
    · cases hout
    · cases hout
  unfold issuesOn at hissues
  split at hissues
  · next msg hmsg => exact h out msg hanswer hmsg (of_decide_eq_true hissues)
  · cases hissues

theorem Alone.quiet {a : Received} (halone : Alone id s) (hkeyed : s.Keyed)
    (hr : s.records.lookup id = some r) (hrole : r.role = .issuer)
    (h : a.inbound.threadId = r.threadId → a.inbound.appliesTo r = false) :
    Alike id s (handle serde a.calls a.order config s a.inbound).1 ∧
      (answers (handle serde a.calls a.order config s a.inbound).2).filter
        (issuesOn r.threadId) = [] := by
  rcases @handle_handledAs s serde config a.calls a.order hkeyed a.inbound with
    ⟨hleaves, -⟩ | ⟨r₀, r', hfound, happlies, happlied⟩
  · obtain ⟨hrecord, hauto⟩ := hleaves.touches id r hr fun hholder => by
      cases hrole.symm.trans hholder
    exact ⟨⟨hr.trans hrecord.symm, hauto.symm⟩,
      issued_eq_nil fun out msg hout hmsg => absurd hmsg (hleaves.answer out msg hout)⟩
  · have hr₀ := hkeyed.of_findByThreadId hfound
    have hne : id ≠ r₀.id := by
      rintro rfl
      obtain rfl : r₀ = r := some.inj (hr₀.symm.trans hr)
      rw [h (mem_of_findByThreadId hfound).2.symm] at happlies
      cases happlies
    refine ⟨⟨?_, (happlied.autoIssue id hne).symm⟩, issued_eq_nil fun out msg hout hmsg hthread =>
      ?_⟩
    · rw [happlied.records, lookup_insert_of_ne _ hne]
    · obtain ⟨-, hmsg₀, -⟩ := happlied.answer out msg hout hmsg
      exact hne (halone r r₀.id r₀ hr hr₀ (hmsg₀.symm.trans hthread)).symm

/-- The condition on a step of the two runs: the message is for its own connection, and the record
is the only one of its thread. -/
def Undisturbed (id : String) (s : Agent) (a : Received) : Prop :=
  FromOwnConnection s.exchange a ∧ Alone id s.exchange

theorem SameSeen.quiet {s t : Agent} {a : Received} (hwatched : Watched id c threadId s)
    (halone : Alone id s.exchange)
    (h : ∀ r, s.exchange.records.lookup id = some r → a.inbound.threadId = r.threadId →
      a.inbound.appliesTo r = false)
    (hstep : Credentials.receive serde config s a = some t) : SameSeen id threadId s t := by
  cases hstep
  obtain ⟨r, hr, hrole, -, rfl⟩ := hwatched.record
  obtain ⟨halike, hnone⟩ := @Alone.quiet s.exchange r serde config id a halone hwatched.keyed hr
    hrole (h r hr)
  refine ⟨halike, ?_⟩
  simp only [Agent.credentialsSent, List.filter_append, hnone, List.append_nil]

theorem Alone.findByThreadId (halone : Alone id s) (hr : s.records.lookup id = some r)
    {threadId : String} (hthread : threadId = r.threadId) :
    s.findByThreadId order threadId = some r := by
  refine findByThreadId_eq_some hr hthread.symm fun id' r' hr' hthread' => ?_
  obtain rfl := halone r id' r' hr hr' (hthread'.trans hthread)
  exact some.inj (hr'.symm.trans hr)

theorem SameSeen.other {s t : Agent} {a : Received} (hwatched : Watched id c threadId s)
    (hG : Undisturbed id s a) (hother : a.inbound.context.connectionId ≠ some c)
    (hstep : Credentials.receive serde config s a = some t) : SameSeen id threadId s t := by
  refine .quiet hwatched hG.2 (fun r hr hthread => ?_) hstep
  obtain ⟨r', hr', hrole, hc, -⟩ := hwatched.record
  obtain rfl : r' = r := some.inj (hr'.symm.trans hr)
  by_contra happlies
  exact hother (hG.1 r' c (hG.2.findByThreadId hr hthread) hrole hc (by simpa using happlies))

theorem SameSeen.own {s s' t t' : Agent} {a : Received} (hwatched : Watched id c threadId s)
    (hwatched' : Watched id c threadId s') (hsame : SameSeen id threadId s s')
    (halone : Alone id s.exchange) (halone' : Alone id s'.exchange)
    (hstep : Credentials.receive serde config s a = some t)
    (hstep' : Credentials.receive serde config s' a = some t') : SameSeen id threadId t t' := by
  obtain ⟨r, hr, -, -, rfl⟩ := hwatched.record
  have hr' : s'.exchange.records.lookup id = some r := hsame.alike.record.symm.trans hr
  by_cases happlies : a.inbound.threadId = r.threadId ∧ a.inbound.appliesTo r = true
  · obtain rfl : r.id = id := hwatched.keyed id r hr
    obtain ⟨hagent, hanswer⟩ := @handle_alike s.exchange r serde config a.calls a.order
      s'.exchange a.inbound hsame.alike hr (halone.findByThreadId hr happlies.1)
      (halone'.findByThreadId hr' happlies.1) happlies.2
    cases hstep
    cases hstep'
    refine ⟨hagent, ?_⟩
    have hsent : s.sent.filter (issuesOn r.threadId) =
        s'.sent.filter (issuesOn r.threadId) := hsame.sent
    simp only [Agent.credentialsSent, List.filter_append, hanswer, hsent]
  · have hquiet : ∀ r₀, some r = some r₀ → a.inbound.threadId = r₀.threadId →
        a.inbound.appliesTo r₀ = false := by
      intro r₀ hr₀ hthread
      obtain rfl : r = r₀ := some.inj hr₀
      simpa using fun h => happlies ⟨hthread, h⟩
    have hequivalence := sameSeen_equivalence id r.threadId
    have hleft := quiet hwatched halone (fun r₀ h => hquiet r₀ (hr.symm.trans h)) hstep
    have hright := quiet hwatched' halone' (fun r₀ h => hquiet r₀ (hr'.symm.trans h)) hstep'
    exact hequivalence.trans (hequivalence.symm hleft) (hequivalence.trans hsame hright)

/-! ## Runs -/

structure Offers where
  exchange : Exchange
  keyed : exchange.Keyed
  issuer : ∀ id r, exchange.records.lookup id = some r → r.role = .issuer
  connected : ∀ id r, exchange.records.lookup id = some r → r.connectionId.isSome

/-- An agent that has these records and has sent nothing since. -/
def Offers.start (offers : Offers) : Agent := ⟨offers.exchange, []⟩

/-- The message came on the connection. -/
def Received.isOn (c : String) (a : Received) : Bool := a.inbound.context.connectionId = some c

/-- **A credential goes to the connection it was offered to, exactly when every message that is
applied to an issuer's record comes on its connection.**  Two runs in which this holds, and the
record is the only one of its thread, and which have the same messages on its connection, leave the
record the same and send the same credentials to the same peers. -/
theorem isolation (serde : Serde) (config : Config) (offers : Offers) (l : List Received) :
    (Along (receive serde config) (fun s a => StepSafe serde config s.exchange a) offers.start l ↔
      Along (receive serde config) (fun s a => FromOwnConnection s.exchange a) offers.start l) ∧
    ∀ id r c l' t t', offers.exchange.records.lookup id = some r → r.connectionId = some c →
      l.filter (Received.isOn c) = l'.filter (Received.isOn c) →
      Along (receive serde config) (Undisturbed id) offers.start l →
      Along (receive serde config) (Undisturbed id) offers.start l' →
      exec (receive serde config) offers.start l = some t →
      exec (receive serde config) offers.start l' = some t' →
      t.exchange.records.lookup id = t'.exchange.records.lookup id ∧
        t.credentialsSent r.threadId = t'.credentialsSent r.threadId := by
  constructor
  · refine along_iff_along (I := fun s => s.exchange.Keyed) (fun s a hkeyed => stepSafe_iff hkeyed)
      (fun s a t hkeyed _ hstep => ?_) offers.keyed
    cases hstep
    exact handle_keyed hkeyed a.inbound
  · intro id r c l' t t' hr hc hfilter hG hG' h h'
    have hwatched : Watched id c r.threadId offers.start :=
      ⟨offers.keyed, r, hr, offers.issuer id r hr, hc, rfl⟩
    have hequivalence := sameSeen_equivalence id r.threadId
    have hsame := exec_unwinding hequivalence
      (fun s a t hs _ (hstep : receive serde config s a = some t) => Watched.receive hs hstep)
      (fun s a t hs hG (ha : Received.isOn c a = false) hstep =>
        other hs hG (of_decide_eq_false ha) hstep)
      (fun s s' a t t' hs hs' hsame hG hG' hstep hstep' =>
        own hs hs' hsame hG.2 hG'.2 hstep hstep')
      hwatched hwatched (hequivalence.refl _) hfilter hG hG' h h'
    exact ⟨hsame.alike.record, hsame.sent⟩

/-! ## A request of someone else -/

/-- The offer of `Sample.offered`, kept by the issuer that made it. -/
def Sample.offers : Offers where
  exchange := afterOffer
  keyed := keyed
  issuer id r hr := by
    rw [afterOffer, FMap.lookup_insert_ite] at hr
    split at hr
    · cases hr
      rfl
    · cases (lookup_empty id).symm.trans hr
  connected id r hr := by
    rw [afterOffer, FMap.lookup_insert_ite] at hr
    split at hr
    · cases hr
      rfl
    · cases (lookup_empty id).symm.trans hr

/-- Who knows the thread asks for the credential on another connection. -/
def Sample.stolenRequest : InboundMessage where
  threadId := "thread-1"
  firstFormatId := some anonCredsRequest
  formats := [anonCredsRequest]
  body := .request (.ok "request")
  context := ⟨some "conn-2", some "did:peer:mallory", some "did:peer:issuer"⟩

def Sample.noJson : Serde := ⟨fun _ => none, fun text => text⟩

def Sample.autoConfig : Config := ⟨true, true, fun _ => true⟩

theorem isolation_fails :
    ¬ ∀ (serde : Serde) (config : Config) (offers : Offers) (l : List Received),
      Along (receive serde config) (fun s a => StepSafe serde config s.exchange a)
        offers.start l := by
  intro hall
  obtain ⟨hsafe, -⟩ := hall noJson autoConfig offers
    [⟨Sample.answers, .some, Sample.stolenRequest⟩]
  have hown := (stepSafe_iff keyed).1 hsafe offered "conn-1"
    (findByThreadId .some) rfl rfl rfl
  exact absurd hown (by decide)

/-- An acknowledgement of someone else, on a thread of its own. -/
noncomputable def Sample.strangeAck : Received := ⟨answers, .some, ack "conn-2" "thread-2"⟩

/-- The request for the credential, on the connection of the offer. -/
noncomputable def Sample.ownRequest : Received where
  calls := answers
  order := .some
  inbound := { stolenRequest with
    context := ⟨some "conn-1", some "did:peer:holder", some "did:peer:issuer"⟩ }

theorem Sample.findByThreadId_other : afterOffer.findByThreadId .some "thread-2" = none := by
  rw [Exchange.findByThreadId, afterOffer, FMap.values_singleton]
  rfl

theorem Sample.receive_strangeAck :
    receive noJson autoConfig offers.start strangeAck = some offers.start := by
  simp [receive, handle, handleAck, processAck, strangeAck, ack, offers, Offers.start,
    findByThreadId_other, Credentials.answers]

/-- The request alone, and after an acknowledgement of someone else. -/
theorem isolation_request : ∃ t t',
    exec (receive noJson autoConfig) offers.start [ownRequest] = some t ∧
      exec (receive noJson autoConfig) offers.start [strangeAck, ownRequest] = some t' ∧
      t.exchange.records.lookup "exchange-1" = t'.exchange.records.lookup "exchange-1" ∧
      t.credentialsSent "thread-1" = t'.credentialsSent "thread-1" := by
  have halone : Alone "exchange-1" afterOffer := by
    intro r id' r' _ hr' _
    rw [afterOffer, FMap.lookup_insert_ite] at hr'
    split at hr'
    · assumption
    · cases (lookup_empty id').symm.trans hr'
  have hstrange : Undisturbed "exchange-1" offers.start strangeAck :=
    ⟨fun r c hfound => (nomatch findByThreadId_other.symm.trans hfound), halone⟩
  have hown : Undisturbed "exchange-1" offers.start ownRequest := by
    refine ⟨fun r c hfound _ hc _ => ?_, halone⟩
    obtain rfl : offered = r := Option.some.inj ((Sample.findByThreadId .some).symm.trans hfound)
    exact hc
  have hafter := receive_strangeAck
  obtain ⟨t, ht⟩ : ∃ t, exec (receive noJson autoConfig) offers.start [ownRequest] = some t :=
    ⟨_, rfl⟩
  have ht' : exec (receive noJson autoConfig) offers.start [strangeAck, ownRequest] = some t := by
    rw [exec_cons, hafter]
    exact ht
  refine ⟨t, t, ht, ht', ?_⟩
  exact (isolation noJson autoConfig offers [ownRequest]).2 "exchange-1" offered "conn-1"
    [strangeAck, ownRequest] t t (lookup_insert _) rfl rfl ⟨hown, fun _ _ => trivial⟩
    (along_cons hstrange hafter ⟨hown, fun _ _ => trivial⟩) ht ht'

end Idiom.Credentials
