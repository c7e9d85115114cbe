import Idiom.Credentials.Service

/-!
# The credential handlers: `credentials/src/handlers`

Each handler reads a message, finds the record of its thread, calls the service and may answer.
The W3C handlers own the offer, request and issue messages and hand those of other formats to the
AnonCreds handler.
-/

namespace Idiom.Credentials

/-! ## Messages -/

inductive AckStatus where
  | ok
  | fail
  | pending
  deriving DecidableEq

structure ProblemDescription where
  code : String
  en : String
  deriving DecidableEq

/-- The message types the handlers are registered for, with what `from_didcomm_message` reads of
the attachment: its text, or why there is none. -/
inductive Body where
  | propose (attachment : Except CredentialError String)
  | offer (attachment : Except CredentialError String)
  | request (attachment : Except CredentialError String)
  | issue (attachment : Except CredentialError String)
  | ack (status : AckStatus)
  | problemReport (description : Option ProblemDescription)

structure MessageContext where
  connectionId : Option String
  fromDid : Option String
  toDid : Option String
  deriving DecidableEq

structure InboundMessage where
  threadId : String
  /-- `first_format_id`: of the body's `formats`, else of the first attachment. -/
  firstFormatId : Option String
  /-- The formats of the descriptors in the body. -/
  formats : List String
  body : Body
  context : MessageContext

/-- The messages a handler answers with. -/
inductive Reply where
  | request (message : RequestCredentialMessage)
  | issue (message : IssueCredentialMessage)
  | ack (threadId : String) (status : AckStatus)

structure OutboundMessage where
  message : Reply
  toDid : String
  fromDid : String
  connectionId : Option String

inductive MessageHandlerError where
  | processingFailed (text : String) (cause : CredentialError)
  | invalidMessage (text : String)

/-- A message back to the sender, on the connection the message came on. -/
def InboundMessage.reply (inbound : InboundMessage) (message : Reply) : OutboundMessage where
  message := message
  toDid := inbound.context.fromDid.getD ""
  fromDid := inbound.context.toDid.getD ""
  connectionId := inbound.context.connectionId

/-- What a handler does: the agent after it, and the answer, if any. -/
abbrev Handled := Exchange × Except MessageHandlerError (Option OutboundMessage)

/-! ## The AnonCreds handlers -/

variable (serde : Serde) (calls : Calls) (order : IterOrder String)

def handlePropose (s : Exchange) (inbound : InboundMessage)
    (attachment : Except CredentialError String) : Handled :=
  match attachment with
  | .error _ => (s, .error (.invalidMessage ""))
  | .ok proposalJson =>
    match storeProposal serde calls order s inbound.context.connectionId
        ⟨inbound.threadId, proposalJson⟩ with
    | (s', .error e) => (s', .error (.processingFailed "" e))
    | (s', .ok _) => (s', .ok none)

/-- Entropy used for the holder's auto-generated credential request. -/
def autoAcceptEntropy : String := "idiom-holder-entropy"

/-- The record of an offer: nothing is asked about records the thread already has. -/
def offerRecord (inbound : InboundMessage) (offerJson : String) (get : String → Option String) :
    CredentialExchangeRecord :=
  let record := CredentialExchangeRecord.new calls.recordId calls.now .holder .offerReceived
    inbound.threadId
  let record :=
    { record with
      schemaId := get "schema_id"
      credDefId := get "cred_def_id"
      credentialOfferJson := some offerJson }
  record.setConnectionId calls.now inbound.context.connectionId

def handleOffer (autoAccept : Bool) (s : Exchange) (inbound : InboundMessage)
    (attachment : Except CredentialError String) : Handled :=
  match attachment with
  | .error e => (s, .error (.processingFailed "" e))
  | .ok offerJson =>
    match serde.fields offerJson with
    | none => (s, .error (.invalidMessage "Failed to parse credential offer JSON"))
    | some get =>
      match s.save (offerRecord calls inbound offerJson get) with
      | (s', .error e) =>
        (s', .error (.processingFailed "Failed to save credential exchange record" e))
      | (s', .ok ()) =>
        if autoAccept then
          match acceptOffer calls s' calls.recordId autoAcceptEntropy with
          | (s'', .error e) =>
            (s'', .error (.processingFailed "Auto-accept: failed to create credential request" e))
          | (s'', .ok request) => (s'', .ok (some (inbound.reply (.request request))))
        else (s', .ok none)

/-- The issued credential goes to the sender of the request; the connection stays that of the
record. -/
def InboundMessage.issueReply (inbound : InboundMessage) (message : IssueCredentialMessage)
    (connectionId : Option String) : OutboundMessage :=
  { inbound.reply (.issue message) with connectionId := connectionId }

def handleRequest (s : Exchange) (inbound : InboundMessage)
    (attachment : Except CredentialError String) : Handled :=
  match attachment with
  | .error e => (s, .error (.processingFailed "" e))
  | .ok requestJson =>
    match s.findByThreadId order inbound.threadId with
    | none =>
      (s, .error (.processingFailed "No credential exchange found for thread"
        (.notFound inbound.threadId)))
    | some record =>
      match storeRequest calls s record.id requestJson with
      | (s', .error e) => (s', .error (.processingFailed "Failed to store credential request" e))
      | (s', .ok ()) =>
        -- the attributes on the record come before those registered in this process
        match record.autoIssueAttributes.orElse fun _ => s'.autoIssue.lookup record.id with
        | none => (s', .ok none)
        | some attributes =>
          match acceptRequest calls s' record.id attributes with
          | (s'', .error e) => (s'', .error (.processingFailed "Failed to issue credential" e))
          | (s'', .ok (message, connectionId)) =>
            ({ s'' with autoIssue := s''.autoIssue.erase record.id },
              .ok (some (inbound.issueReply message connectionId)))

def handleIssue (s : Exchange) (inbound : InboundMessage)
    (attachment : Except CredentialError String) : Handled :=
  match attachment with
  | .error e => (s, .error (.processingFailed "" e))
  | .ok credentialJson =>
    match s.findByThreadId order inbound.threadId with
    | none =>
      (s, .error (.processingFailed "No credential exchange found for thread"
        (.notFound inbound.threadId)))
    | some record =>
      match processCredential calls s record.id credentialJson with
      | (s', .error e) => (s', .error (.processingFailed "Failed to process credential" e))
      | (s', .ok _) => (s', .ok (some (inbound.reply (.ack inbound.threadId .ok))))

/-- An error is only logged. -/
def handleAck (s : Exchange) (inbound : InboundMessage) : Handled :=
  ((processAck calls order s inbound.threadId).1, .ok none)

def handleProblemReport (s : Exchange) (inbound : InboundMessage)
    (description : Option ProblemDescription) : Handled :=
  match description with
  | none =>
    (s, .error (.processingFailed "" (.protocol "problem-report missing required description")))
  | some description =>
    match s.findByThreadId order inbound.threadId with
    | none => (s, .ok none)
    | some record =>
      if record.state.isTerminal then (s, .ok none)
      else
        match abandonExchange calls s record.id (description.code ++ ": " ++ description.en) with
        | (s', .error e) =>
          (s', .error (.processingFailed "failed to abandon credential exchange" e))
        | (s', .ok ()) => (s', .ok none)

/-! ## The W3C handlers -/

/-- How the handlers of an agent are set up. -/
structure Config where
  /-- Answer an offer with a request at once. -/
  autoAccept : Bool
  /-- Answer a W3C request with the credential at once. -/
  autoIssue : Bool
  /-- The formats that have a format service; none when there are AnonCreds handlers only. -/
  supported : W3c.Supported

namespace W3c

variable (config : Config)

/-- `is_w3c_for`. -/
def isW3cFor (inbound : InboundMessage) : Bool :=
  match inbound.firstFormatId with
  | none => false
  | some id =>
    (DidCommCredentialFormat.fromFormatId id).isSome && supportsFormatId config.supported id

def handleOffer (s : Exchange) (inbound : InboundMessage)
    (attachment : Except CredentialError String) : Handled :=
  match attachment with
  | .error e => (s, .error (.processingFailed "" e))
  | .ok offerJson =>
    match storeOffer calls order s inbound.context.connectionId
        ⟨inbound.threadId, inbound.formats, offerJson⟩ with
    | (s', .error e) => (s', .error (.processingFailed "" e))
    | (s', .ok record) =>
      if config.autoAccept then
        match acceptOffer calls s' record.id with
        | (s'', .error e) => (s'', .error (.processingFailed "" e))
        | (s'', .ok request) => (s'', .ok (some (inbound.reply (.request request))))
      else (s', .ok none)

def handleRequest (s : Exchange) (inbound : InboundMessage)
    (attachment : Except CredentialError String) : Handled :=
  match attachment with
  | .error e => (s, .error (.processingFailed "" e))
  | .ok requestJson =>
    match s.findByThreadId order inbound.threadId with
    | none =>
      (s, .error (.processingFailed "No credential exchange for thread"
        (.notFound inbound.threadId)))
    | some record =>
      match storeRequest calls s record.id requestJson with
      | (s', .error e) => (s', .error (.processingFailed "" e))
      | (s', .ok ()) =>
        if config.autoIssue then
          match acceptRequest calls config.supported s' record.id none with
          | (s'', .error e) => (s'', .error (.processingFailed "" e))
          | (s'', .ok (message, connectionId)) =>
            (s'', .ok (some (inbound.issueReply message connectionId)))
        else (s', .ok none)

def handleIssue (s : Exchange) (inbound : InboundMessage)
    (attachment : Except CredentialError String) : Handled :=
  match attachment with
  | .error e => (s, .error (.processingFailed "" e))
  | .ok credentialJson =>
    match s.findByThreadId order inbound.threadId with
    | none =>
      (s, .error (.processingFailed "No credential exchange for thread"
        (.notFound inbound.threadId)))
    | some record =>
      match processCredential calls s record.id credentialJson with
      | (s', .error e) => (s', .error (.processingFailed "" e))
      | (s', .ok _) => (s', .ok (some (inbound.reply (.ack inbound.threadId .ok))))

end W3c

/-- One inbound message: the W3C handlers take their formats, and the AnonCreds handlers the rest.
-/
def handle (config : Config) (s : Exchange) (inbound : InboundMessage) : Handled :=
  match inbound.body with
  | .propose attachment => handlePropose serde calls order s inbound attachment
  | .offer attachment =>
    if W3c.isW3cFor config inbound then W3c.handleOffer calls order config s inbound attachment
    else handleOffer serde calls config.autoAccept s inbound attachment
  | .request attachment =>
    if W3c.isW3cFor config inbound then W3c.handleRequest calls order config s inbound attachment
    else handleRequest calls order s inbound attachment
  | .issue attachment =>
    if W3c.isW3cFor config inbound then W3c.handleIssue calls order s inbound attachment
    else handleIssue calls order s inbound attachment
  | .ack _ => handleAck calls order s inbound
  | .problemReport description => handleProblemReport calls order s inbound description

end Idiom.Credentials
