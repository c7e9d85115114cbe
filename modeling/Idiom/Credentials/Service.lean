import Idiom.Credentials.Record

/-!
# The credential services: `credentials/src/services`

The operations of `CredentialExchangeService` (AnonCreds) and of `W3cCredentialExchangeService`
over the records of one agent. What happens outside them during an operation is an argument:
the answers of the AnonCreds issuer and holder and of the format services, the ids that are
drawn, and the time.

An operation on a record that is there is written as a check and a new record
(`acceptOfferRecord`), and what `Exchange.edit` makes of it.
-/

namespace Idiom.Credentials

open CredentialExchangeRecord

/-! ## Formats -/

/-- `DidCommCredentialFormat`. -/
inductive DidCommCredentialFormat where
  | jsonLd
  | jwtVc
  | sdJwt
  deriving DecidableEq

namespace DidCommCredentialFormat

def detailFormatId : DidCommCredentialFormat → String
  | .jsonLd => "aries/ld-proof-vc-detail@v1.0"
  | .jwtVc => "aries/jwt-vc-detail@v1.0"
  | .sdJwt => "vc+sd-jwt-detail@v1.0"

def credentialFormatId : DidCommCredentialFormat → String
  | .jsonLd => "aries/ld-proof-vc@v1.0"
  | .jwtVc => "aries/jwt-vc@v1.0"
  | .sdJwt => "vc+sd-jwt@v1.0"

/-- `str::contains`. -/
def contains (s part : String) : Bool := decide (part.toList <:+: s.toList)

def fromFormatId (formatId : String) : Option DidCommCredentialFormat :=
  if contains formatId "ld-proof-vc" then some .jsonLd
  else if contains formatId "jwt-vc" then some .jwtVc
  else if contains formatId "sd-jwt" then some .sdJwt
  else none

end DidCommCredentialFormat

open DidCommCredentialFormat

/-! ## What the outside answers -/

/-- `serde_json`, on the texts of attachments. -/
structure Serde where
  /-- The string fields of the value a text stands for, if it is JSON. -/
  fields : String → Option (String → Option String)
  /-- The text of the value a text stands for: `to_string(from_str(s).unwrap_or_default())`. -/
  canonical : String → String

/-- The services outside, the ids that are drawn and the time, during one operation. -/
structure Calls where
  /-- `AnonCredsIssuerService::create_credential_offer`, for a schema and a definition. -/
  createCredentialOffer : String → String → Except CredentialError String
  /-- `AnonCredsHolderService::create_credential_request`, for a thread, an offer, a definition
  and entropy. -/
  createCredentialRequest : String → String → String → String → Except CredentialError String
  /-- `AnonCredsIssuerService::create_credential`, for a definition, an offer, a request and
  attributes. -/
  createCredential : String → String → String → Attributes → Except CredentialError String
  /-- `AnonCredsHolderService::process_credential`, for a thread, a credential and a definition:
  the id under which it stored the credential. -/
  processCredential : String → String → String → Except CredentialError String
  /-- The detail that was offered, read and signed by the format service, for a key id. -/
  signCredential : DidCommCredentialFormat → String → Option String → Except CredentialError String
  recordId : String
  messageId : String
  credentialId : String
  now : ℕ

/-! ## Messages -/

structure ProposeCredentialMessage where
  threadId : String
  credentialProposalJson : String

structure OfferCredentialMessage where
  threadId : String
  /-- The formats of the descriptors. -/
  formats : List String
  credentialOfferJson : String

structure RequestCredentialMessage where
  threadId : String
  formats : List String
  credentialRequestJson : String

structure IssueCredentialMessage where
  threadId : String
  formats : List String
  credentialJson : String
  deriving DecidableEq

/-! ## The AnonCreds service -/

variable (serde : Serde) (calls : Calls) (order : IterOrder String)

/-- The text of `{"schema_id": .., "cred_def_id": ..}`, and the record of a proposal. -/
def createProposal (s : Exchange) (connectionId schemaId credDefId : Option String)
    (proposalJson : String) :
    Exchange × Except CredentialError (CredentialExchangeRecord × ProposeCredentialMessage) :=
  let record := new calls.recordId calls.now .holder .proposalSent
    calls.messageId
  let record :=
    { record with
      schemaId := schemaId
      credDefId := credDefId
      credentialProposalJson := some proposalJson }
  let record := record.setConnectionId calls.now connectionId
  s.create record (record, ⟨calls.messageId, proposalJson⟩)

/-- `value.get(name).and_then(|v| v.as_str())`, of a text that need not be JSON. -/
def Serde.field (text name : String) : Option String :=
  (serde.fields text).bind fun get => get name

def storeProposal (s : Exchange) (connectionId : Option String) (msg : ProposeCredentialMessage) :
    Exchange × Except CredentialError CredentialExchangeRecord :=
  match s.findByThreadId order msg.threadId with
  | some existing => (s, .ok existing)
  | none =>
    let record := new calls.recordId calls.now .issuer .proposalReceived
      msg.threadId
    let record :=
      { record with
        schemaId := serde.field msg.credentialProposalJson "schema_id"
        credDefId := serde.field msg.credentialProposalJson "cred_def_id"
        credentialProposalJson := some msg.credentialProposalJson }
    let record := record.setConnectionId calls.now connectionId
    s.create record record

/-- The AnonCreds format ids. -/
def anonCredsOffer : String := "anoncreds/credential-offer@v1.0"

def anonCredsRequest : String := "anoncreds/credential-request@v1.0"

def anonCredsCredential : String := "anoncreds/credential@v1.0"

/-- The guards that most operations start with. -/
def guardState (record : CredentialExchangeRecord) (expected : CredentialExchangeState) :
    Except CredentialError Unit :=
  if record.state ≠ expected then .error (.invalidState [expected] record.state) else .ok ()

def guardRole (record : CredentialExchangeRecord) (expected : CredentialExchangeRole) :
    Except CredentialError Unit :=
  if record.role ≠ expected then .error (.invalidRole expected record.role) else .ok ()

/-- `field.as_ref().ok_or_else(|| CredentialError::Protocol(text))`. -/
def stored (field : Option String) (text : String) : Except CredentialError String :=
  match field with
  | none => .error (.protocol text)
  | some value => .ok value

def acceptProposalRecord (schemaId credDefId : String) (record : CredentialExchangeRecord) :
    Except CredentialError (CredentialExchangeRecord × OfferCredentialMessage) := do
  guardState record .proposalReceived
  guardRole record .issuer
  let offerJson ← calls.createCredentialOffer schemaId credDefId
  let record' :=
    { record with
      schemaId := some schemaId
      credDefId := some credDefId
      credentialOfferJson := some offerJson }
  return (record'.updateState calls.now .offerSent, ⟨record.threadId, [anonCredsOffer], offerJson⟩)

def acceptProposal (s : Exchange) (exchangeId schemaId credDefId : String) :
    Exchange × Except CredentialError OfferCredentialMessage :=
  s.edit (s.findById exchangeId) exchangeId (acceptProposalRecord calls schemaId credDefId)

def createOffer (s : Exchange) (connectionId : Option String) (schemaId credDefId : String) :
    Exchange × Except CredentialError (CredentialExchangeRecord × OfferCredentialMessage) :=
  match calls.createCredentialOffer schemaId credDefId with
  | .error e => (s, .error e)
  | .ok offerJson =>
    let record := new calls.recordId calls.now .issuer .offerSent
      calls.messageId
    let record :=
      { record with
        schemaId := some schemaId
        credDefId := some credDefId
        credentialOfferJson := some offerJson }
    let record := record.setConnectionId calls.now connectionId
    s.create record (record, ⟨calls.messageId, [anonCredsOffer], offerJson⟩)

def acceptOfferRecord (entropy : String) (record : CredentialExchangeRecord) :
    Except CredentialError (CredentialExchangeRecord × RequestCredentialMessage) := do
  guardState record .offerReceived
  guardRole record .holder
  let offerJson ← stored record.credentialOfferJson "No credential offer stored on exchange"
  let credDefId ← stored record.credDefId "No credential definition ID on exchange record"
  let requestJson ← calls.createCredentialRequest record.threadId offerJson credDefId entropy
  let record' := { record with credentialRequestJson := some requestJson }
  return (record'.updateState calls.now .requestSent,
    ⟨record.threadId, [anonCredsRequest], requestJson⟩)

def acceptOffer (s : Exchange) (exchangeId entropy : String) :
    Exchange × Except CredentialError RequestCredentialMessage :=
  s.edit (s.findById exchangeId) exchangeId (acceptOfferRecord calls entropy)

/-- `store_request`, the same in both services: the role is not checked. -/
def storeRequestRecord (requestJson : String) (record : CredentialExchangeRecord) :
    Except CredentialError (CredentialExchangeRecord × Unit) := do
  guardState record .offerSent
  let record' := { record with credentialRequestJson := some requestJson }
  return (record'.updateState calls.now .requestReceived, ())

def storeRequest (s : Exchange) (exchangeId requestJson : String) :
    Exchange × Except CredentialError Unit :=
  s.edit (s.findById exchangeId) exchangeId (storeRequestRecord calls requestJson)

def setAutoIssueAttributes (s : Exchange) (exchangeId : String) (attributes : Attributes) :
    Exchange × Except CredentialError Unit :=
  s.edit (s.findById exchangeId) exchangeId fun record =>
    .ok ({ record with autoIssueAttributes := some attributes, updatedAt := calls.now }, ())

def acceptRequestRecord (attributes : Attributes) (record : CredentialExchangeRecord) :
    Except CredentialError (CredentialExchangeRecord × IssueCredentialMessage × Option String) := do
  guardState record .requestReceived
  guardRole record .issuer
  let offerJson ← stored record.credentialOfferJson "No credential offer stored on exchange"
  let requestJson ← stored record.credentialRequestJson "No credential request stored on exchange"
  let credDefId ← stored record.credDefId "No credential definition ID on exchange record"
  let credentialJson ← calls.createCredential credDefId offerJson requestJson attributes
  let record' := { record with credentialJson := some credentialJson }
  return (record'.updateState calls.now .credentialIssued,
    ⟨record.threadId, [anonCredsCredential], credentialJson⟩, record.connectionId)

/-- The message is returned with the connection of the record, for the caller to address. -/
def acceptRequest (s : Exchange) (exchangeId : String) (attributes : Attributes) :
    Exchange × Except CredentialError (IssueCredentialMessage × Option String) :=
  s.edit (s.findById exchangeId) exchangeId (acceptRequestRecord calls attributes)

def processCredentialRecord (credentialJson : String) (record : CredentialExchangeRecord) :
    Except CredentialError (CredentialExchangeRecord × String) := do
  guardState record .requestSent
  guardRole record .holder
  let credDefId ← stored record.credDefId "No credential definition ID on exchange record"
  let credentialId ← calls.processCredential record.threadId credentialJson credDefId
  let record' :=
    { record with
      credentialJson := some credentialJson
      credentialId := some credentialId }
  return (record'.updateState calls.now .done, credentialId)

/-- The holder keeps the credential under the id it returns. -/
def processCredential (s : Exchange) (exchangeId credentialJson : String) :
    Exchange × Except CredentialError String :=
  match s.edit (s.findById exchangeId) exchangeId
    (processCredentialRecord calls credentialJson) with
  | (s', .ok credentialId) =>
    ({ s' with credentials := s'.credentials.insert credentialId credentialJson }, .ok credentialId)
  | (s', .error e) => (s', .error e)

/-- `process_ack`, the same in both services: of the state it only asks whether it is `Done`. -/
def processAck (s : Exchange) (threadId : String) :
    Exchange × Except CredentialError CredentialExchangeRecord :=
  match s.findByThreadId order threadId with
  | none => (s, .error (.notFound ("thread_id: " ++ threadId)))
  | some record =>
    if record.state = .done then (s, .ok record)
    else
      let record' := record.updateState calls.now .done
      match s.update record' with
      | (s', .ok ()) => (s', .ok record')
      | (s', .error e) => (s', .error e)

def abandonExchangeRecord (reason : String) (record : CredentialExchangeRecord) :
    Except CredentialError (CredentialExchangeRecord × Unit) :=
  if record.state.isTerminal then
    .error (.invalidState
      [.offerSent, .offerReceived, .requestSent, .requestReceived, .credentialIssued,
        .credentialReceived] record.state)
  else .ok (record.setError calls.now reason, ())

def abandonExchange (s : Exchange) (exchangeId reason : String) :
    Exchange × Except CredentialError Unit :=
  s.edit (s.findById exchangeId) exchangeId (abandonExchangeRecord calls reason)

/-! ## The W3C service -/

namespace W3c

/-- The formats the service has a format service for. -/
abbrev Supported := DidCommCredentialFormat → Bool

variable (supported : Supported)

def supportsFormatId (formatId : String) : Bool :=
  match fromFormatId formatId with
  | none => false
  | some format => supported format

/-- `service_for`, where only whether there is one matters. -/
def serviceFor (format : DidCommCredentialFormat) : Except CredentialError Unit :=
  if supported format then .ok () else .error (.unsupportedFormat format.detailFormatId)

def formatOf (record : CredentialExchangeRecord) : Except CredentialError DidCommCredentialFormat :=
  match record.credentialFormat.bind fromFormatId with
  | some format => .ok format
  | none => .error (.unsupportedFormat (record.credentialFormat.getD "<none>"))

def createOffer (s : Exchange) (connectionId : Option String) (format : DidCommCredentialFormat)
    (offerJson : String) :
    Exchange × Except CredentialError (CredentialExchangeRecord × OfferCredentialMessage) :=
  match serviceFor supported format with
  | .error e => (s, .error e)
  | .ok () =>
    let record := new calls.recordId calls.now .issuer .offerSent
      calls.messageId
    let record :=
      { record with
        credentialFormat := some format.detailFormatId
        credentialOfferJson := some offerJson }
    let record := record.setConnectionId calls.now connectionId
    s.create record (record, ⟨calls.messageId, [format.detailFormatId], offerJson⟩)

def storeOffer (s : Exchange) (connectionId : Option String) (offer : OfferCredentialMessage) :
    Exchange × Except CredentialError CredentialExchangeRecord :=
  match s.findByThreadId order offer.threadId with
  | some existing => (s, .ok existing)
  | none =>
    match offer.formats.head? with
    | none => (s, .error (.invalidAttachmentFormat "missing format"))
    | some formatId =>
      let record := new calls.recordId calls.now .holder .offerReceived
        offer.threadId
      let record :=
        { record with
          credentialFormat := some formatId
          credentialOfferJson := some offer.credentialOfferJson }
      let record := record.setConnectionId calls.now connectionId
      s.create record record

/-- The detail that was offered is echoed back as the request. -/
def acceptOfferRecord (record : CredentialExchangeRecord) :
    Except CredentialError (CredentialExchangeRecord × RequestCredentialMessage) := do
  guardState record .offerReceived
  guardRole record .holder
  let format ← formatOf record
  let offerJson ← stored record.credentialOfferJson "No credential offer stored on exchange"
  let record' := { record with credentialRequestJson := some offerJson }
  return (record'.updateState calls.now .requestSent,
    ⟨record.threadId, [format.detailFormatId], offerJson⟩)

def acceptOffer (s : Exchange) (exchangeId : String) :
    Exchange × Except CredentialError RequestCredentialMessage :=
  s.edit (s.findById exchangeId) exchangeId (acceptOfferRecord calls)

def storeRequest (s : Exchange) (exchangeId requestJson : String) :
    Exchange × Except CredentialError Unit :=
  s.edit (s.findById exchangeId) exchangeId (storeRequestRecord calls requestJson)

def acceptRequestRecord (keyId : Option String) (record : CredentialExchangeRecord) :
    Except CredentialError (CredentialExchangeRecord × IssueCredentialMessage × Option String) := do
  guardState record .requestReceived
  guardRole record .issuer
  let format ← formatOf record
  serviceFor supported format
  let offerJson ← stored record.credentialOfferJson "No credential offer stored on exchange"
  let signed ← calls.signCredential format offerJson keyId
  let record' := { record with credentialJson := some signed }
  return (record'.updateState calls.now .credentialIssued,
    ⟨record.threadId, [format.credentialFormatId], signed⟩, record.connectionId)

def acceptRequest (s : Exchange) (exchangeId : String) (keyId : Option String) :
    Exchange × Except CredentialError (IssueCredentialMessage × Option String) :=
  s.edit (s.findById exchangeId) exchangeId (acceptRequestRecord calls supported keyId)

/-- The credential is stored whatever the format service thinks of it. -/
def processCredentialRecord (credential : String) (record : CredentialExchangeRecord) :
    Except CredentialError (CredentialExchangeRecord × String) := do
  guardState record .requestSent
  guardRole record .holder
  let _format ← formatOf record
  let record' :=
    { record with
      credentialJson := some credential
      credentialId := some calls.credentialId }
  return (record'.updateState calls.now .done, calls.credentialId)

def processCredential (s : Exchange) (exchangeId credential : String) :
    Exchange × Except CredentialError String :=
  s.edit (s.findById exchangeId) exchangeId (processCredentialRecord calls credential)

def processAck (s : Exchange) (threadId : String) :
    Exchange × Except CredentialError CredentialExchangeRecord :=
  Credentials.processAck calls order s threadId

end W3c
end Idiom.Credentials
