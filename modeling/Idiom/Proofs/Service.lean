import Idiom.Proofs.Record

/-!
# The proof exchange service and its handlers: `proofs/src/services`, `proofs/src/handlers`

The operations of `ProofExchangeService` over the records of one agent, and the handlers that call
them. What happens outside them during an operation is an argument: the answers of the AnonCreds
holder and verifier, the ids that are drawn, and the time.

An operation on a record that is there is written as a check and a new record
(`acceptRequestRecord`), and what `ProofExchangeRepository.edit` makes of it.
-/

namespace Idiom.Proofs

/-! ## What the outside answers -/

/-- What a presentation request is made of; the attributes and predicates by their referents. -/
structure RequestedProof where
  name : String
  version : String
  requestedAttributes : FMap String String
  requestedPredicates : FMap String String

/-- What a presentation is made of: a credential and whether it is revealed, by referent. -/
structure Selection where
  credentialMap : FMap String (String × Bool)
  selfAttested : Option (FMap String String)

/-- The services outside, the ids that are drawn and the time, during one operation. -/
structure Calls where
  /-- `serde_json::from_str::<PresentationRequest>`, where only whether it succeeds matters: the
  text goes on for the request. -/
  parsePresentationRequest : String → Except ProofError Unit
  /-- `serde_json::from_str::<Presentation>`. -/
  parsePresentation : String → Except ProofError Unit
  /-- `AnonCredsVerifierService::create_presentation_request`, as text. -/
  createPresentationRequest : RequestedProof → Except ProofError String
  /-- `AnonCredsVerifierService::verify_presentation`, for a presentation and a request. -/
  verifyPresentation : String → String → Except ProofError Bool
  /-- `AnonCredsHolderService::create_presentation`, for a request, as text. -/
  createPresentation : String → Selection → Except ProofError String
  recordId : String
  messageId : String
  now : ℕ

/-! ## Messages -/

structure RequestPresentationMessage where
  id : String
  proofRequestJson : String

structure PresentationMessage where
  threadId : String
  presentationJson : String

inductive AckStatus where
  | ok
  | fail
  | pending
  deriving DecidableEq

structure AckMessage where
  threadId : String
  status : AckStatus

structure ProblemDescription where
  code : String
  en : String

/-! ## The verifier's operations -/

variable (calls : Calls) (order : IterOrder String)

def createRequest (s : ProofExchangeRepository) (proof : RequestedProof)
    (connectionId : Option String) :
    ProofExchangeRepository ×
      Except ProofError (ProofExchangeRecord × RequestPresentationMessage) :=
  match calls.createPresentationRequest proof with
  | .error e => (s, .error e)
  | .ok presRequestJson =>
    let record := ProofExchangeRecord.new calls.recordId calls.now .verifier .requestSent
      calls.messageId
    let record := record.setPresentationRequest calls.now presRequestJson
    let record := record.setConnectionId calls.now connectionId
    s.create record (record, ⟨calls.messageId, presRequestJson⟩)

/-- The guards that most operations start with. -/
def guardState (record : ProofExchangeRecord) (expected : ProofExchangeState) :
    Except ProofError Unit :=
  if record.state ≠ expected then .error (.invalidState [expected] record.state) else .ok ()

def guardRole (record : ProofExchangeRecord) (expected : ProofExchangeRole) :
    Except ProofError Unit :=
  if record.role ≠ expected then .error (.invalidRole expected record.role) else .ok ()

/-- `field.as_ref().ok_or_else(|| ProofError::Protocol(text))`. -/
def stored (field : Option String) (text : String) : Except ProofError String :=
  match field with
  | none => .error (.protocol text)
  | some value => .ok value

def processPresentationRecord (presentationJson : String) (record : ProofExchangeRecord) :
    Except ProofError (Option ProofExchangeRecord × ProofExchangeRecord) := do
  guardState record .requestSent
  let record' := (record.setPresentation calls.now presentationJson).updateState calls.now
    .presentationReceived
  return (some record', record')

/-- The record is found by its thread; where the message came from is not asked. -/
def processPresentation (s : ProofExchangeRepository) (msg : PresentationMessage) :
    ProofExchangeRepository × Except ProofError ProofExchangeRecord :=
  s.edit (s.findByRoleAndThreadId order .verifier msg.threadId)
    ("thread_id: " ++ msg.threadId ++ " (verifier)")
    (processPresentationRecord calls msg.presentationJson)

def verifyPresentationRecord (record : ProofExchangeRecord) :
    Except ProofError (Option ProofExchangeRecord × Bool) := do
  guardRole record .verifier
  guardState record .presentationReceived
  let presRequestJson ← stored record.presentationRequestJson "Missing presentation request"
  calls.parsePresentationRequest presRequestJson
  let presentationJson ← stored record.presentationJson "Missing presentation"
  calls.parsePresentation presentationJson
  let verified ← calls.verifyPresentation presentationJson presRequestJson
  return (some ((record.setVerified calls.now verified).updateState calls.now .done), verified)

def verifyPresentation (s : ProofExchangeRepository) (exchangeId : String) :
    ProofExchangeRepository × Except ProofError Bool :=
  s.edit (s.findById exchangeId) exchangeId (verifyPresentationRecord calls)

/-! ## The prover's operations -/

/-- Nothing is asked about records the thread already has. -/
def processRequest (s : ProofExchangeRepository) (requestMsg : RequestPresentationMessage)
    (threadId : String) (connectionId : Option String) :
    ProofExchangeRepository × Except ProofError ProofExchangeRecord :=
  let record := ProofExchangeRecord.new calls.recordId calls.now .prover .requestReceived threadId
  let record := record.setPresentationRequest calls.now requestMsg.proofRequestJson
  let record := record.setConnectionId calls.now connectionId
  s.create record record

def acceptRequestRecord (selection : Selection) (record : ProofExchangeRecord) :
    Except ProofError
      (Option ProofExchangeRecord × ProofExchangeRecord × PresentationMessage) := do
  guardRole record .prover
  guardState record .requestReceived
  let presRequestJson ← stored record.presentationRequestJson "Missing presentation request"
  calls.parsePresentationRequest presRequestJson
  let presentationJson ← calls.createPresentation presRequestJson selection
  let record' := (record.setPresentation calls.now presentationJson).updateState calls.now
    .presentationSent
  return (some record', record', ⟨record.threadId, presentationJson⟩)

def acceptRequest (s : ProofExchangeRepository) (exchangeId : String) (selection : Selection) :
    ProofExchangeRepository × Except ProofError (ProofExchangeRecord × PresentationMessage) :=
  s.edit (s.findById exchangeId) exchangeId (acceptRequestRecord calls selection)

def processAckRecord (status : AckStatus) (record : ProofExchangeRecord) :
    Except ProofError (Option ProofExchangeRecord × ProofExchangeRecord) := do
  guardState record .presentationSent
  match status with
  | .ok =>
    let record' := (record.setVerified calls.now true).updateState calls.now .done
    return (some record', record')
  | .fail =>
    let record' := (record.setVerified calls.now false).setError calls.now
      "Verifier rejected the presentation"
    return (some record', record')
  -- the verifier is still at it
  | .pending => return (none, record)

def processAck (s : ProofExchangeRepository) (ack : AckMessage) :
    ProofExchangeRepository × Except ProofError ProofExchangeRecord :=
  s.edit (s.findByRoleAndThreadId order .prover ack.threadId)
    ("thread_id: " ++ ack.threadId ++ " (prover)") (processAckRecord calls ack.status)

/-! ## Either side -/

def abandonExchangeRecord (reason : String) (record : ProofExchangeRecord) :
    Except ProofError (Option ProofExchangeRecord × Unit) :=
  if record.state.isTerminal then .ok (none, ())
  else .ok (some (record.setError calls.now reason), ())

def abandonExchange (s : ProofExchangeRepository) (exchangeId reason : String) :
    ProofExchangeRepository × Except ProofError Unit :=
  s.edit (s.findById exchangeId) exchangeId (abandonExchangeRecord calls reason)

/-! ## The handlers -/

structure MessageContext where
  connectionId : Option String
  fromDid : Option String
  toDid : Option String

/-- The message types the handlers are registered for, with what `from_didcomm_message` reads of
them: the text of the attachment or why there is none, the status of an ack, and the description
of a problem. -/
inductive Body where
  | requestPresentation (attachment : Except String String)
  | presentation (attachment : Except String String)
  | ack (status : AckStatus)
  | problemReport (description : Option ProblemDescription)

structure InboundMessage where
  id : String
  threadId : String
  body : Body
  context : MessageContext

structure OutboundMessage where
  message : AckMessage
  toDid : String
  fromDid : String
  connectionId : Option String

inductive MessageHandlerError where
  | processingFailed (cause : ProofError)
  | invalidMessage (text : String)

/-- What a handler does: the records after it, and the answer, if any. -/
abbrev Handled := ProofExchangeRepository × Except MessageHandlerError (Option OutboundMessage)

/-- Both parties are named in the envelope, or there is no answer. -/
def InboundMessage.ackReply (inbound : InboundMessage) (status : AckStatus) :
    Option OutboundMessage :=
  inbound.context.fromDid.map fun fromDid =>
    { message := ⟨inbound.threadId, status⟩
      toDid := fromDid
      fromDid := inbound.context.toDid.getD ""
      connectionId := inbound.context.connectionId }

def handleRequestPresentation (s : ProofExchangeRepository) (inbound : InboundMessage)
    (attachment : Except String String) : Handled :=
  match attachment with
  | .error e => (s, .error (.invalidMessage e))
  | .ok proofRequestJson =>
    match processRequest calls s ⟨inbound.id, proofRequestJson⟩ inbound.threadId
        inbound.context.connectionId with
    | (s', .error e) => (s', .error (.processingFailed e))
    | (s', .ok _) => (s', .ok none)

def handlePresentation (autoVerify : Bool) (s : ProofExchangeRepository) (inbound : InboundMessage)
    (attachment : Except String String) : Handled :=
  match attachment with
  | .error e => (s, .error (.invalidMessage e))
  | .ok presentationJson =>
    match processPresentation calls order s ⟨inbound.threadId, presentationJson⟩ with
    | (s', .error e) => (s', .error (.processingFailed e))
    | (s', .ok record) =>
      if autoVerify then
        match verifyPresentation calls s' record.id with
        | (s'', .error e) => (s'', .error (.processingFailed e))
        | (s'', .ok verified) =>
          (s'', .ok (inbound.ackReply (if verified then .ok else .fail)))
      else (s', .ok none)

def handleAck (s : ProofExchangeRepository) (inbound : InboundMessage) (status : AckStatus) :
    Handled :=
  match processAck calls order s ⟨inbound.threadId, status⟩ with
  | (s', .error e) => (s', .error (.processingFailed e))
  | (s', .ok _) => (s', .ok none)

def handleProblemReport (s : ProofExchangeRepository) (inbound : InboundMessage)
    (description : Option ProblemDescription) : Handled :=
  match description with
  | none =>
    (s, .error (.invalidMessage "Protocol error: problem-report missing required description"))
  | some description =>
    match s.findByThreadId order inbound.threadId with
    | none => (s, .ok none)
    | some record =>
      match abandonExchange calls s record.id (description.code ++ ": " ++ description.en) with
      | (s', .error e) => (s', .error (.processingFailed e))
      | (s', .ok ()) => (s', .ok none)

def handle (autoVerify : Bool) (s : ProofExchangeRepository) (inbound : InboundMessage) : Handled :=
  match inbound.body with
  | .requestPresentation attachment => handleRequestPresentation calls s inbound attachment
  | .presentation attachment => handlePresentation calls order autoVerify s inbound attachment
  | .ack status => handleAck calls order s inbound status
  | .problemReport description => handleProblemReport calls order s inbound description

end Idiom.Proofs
