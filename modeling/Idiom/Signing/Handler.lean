import Idiom.Signing.Coordinator

/-!
# The signing message handler: `protocols/signing/src/handler.rs`
-/

namespace Idiom.Signing

variable (encoding : Encoding) (ourDid : String)

def requireClaimedSender (inbound : InboundMessage) (claimedDid : String) :
    Except SigningProtocolError String :=
  if inbound.authenticated = false then
    .error (.unauthorized "signing protocol requires authcrypt")
  else
    match inbound.sender with
    | none => .error (.unauthorized "authenticated sender is missing")
    | some sender =>
      if sender = claimedDid then .ok sender
      else .error (.unauthorized ("claimed signer " ++ claimedDid ++
        " does not match authenticated sender " ++ sender))

/-- The signers of the threshold, or the one signer there is without one. -/
def newParticipants (threshold : Option ThresholdConfig) (single : String)
    (connectionId : Option String) : List SessionParticipant :=
  match threshold with
  | some t => t.signers.map fun did => .new did none
  | none => [.new single connectionId]

/-- The session that a proposal makes. -/
def proposedSession (inbound : InboundMessage) (body : ProposeSigning) : NewSession where
  sessionId := body.sessionId
  threadId := inbound.threadId
  object := body.object
  suite := body.suite
  constraints := body.constraints
  mode := body.mode.getD ⟨if body.threshold.isSome then "threshold" else "single"⟩
  threshold := body.threshold
  participants := newParticipants body.threshold (inbound.sender.getD "unknown")
    inbound.connectionId

/-- The session that a request makes: without a threshold, we are the signer. -/
def requestedSession (inbound : InboundMessage) (body : RequestSigning) : NewSession where
  sessionId := body.sessionId
  threadId := inbound.threadId
  object := body.object
  suite := body.suite
  constraints := body.constraints
  mode := body.mode
  threshold := body.threshold
  participants := newParticipants body.threshold ourDid inbound.connectionId

def handleProposeSigning (inbound : InboundMessage) (body : ProposeSigning) :
    Coord (Option SigningMessage) := do
  let _ ← createSession ourDid (proposedSession inbound body)
  return some (.ack ⟨body.sessionId, "proposed"⟩)

def handleRequestSigning (inbound : InboundMessage) (body : RequestSigning) :
    Coord (Option SigningMessage) := do
  let _ ← createSession ourDid (requestedSession ourDid inbound body)
  let _ ← transitionState body.sessionId .requested
  return none

def handleConsent (inbound : InboundMessage) (body : Consent) : Coord (Option SigningMessage) := do
  let _ ← .ofExcept (requireClaimedSender inbound body.signerDid)
  if body.keyBinding.controller ≠ body.signerDid then
    .fail (.unauthorized "key binding controller does not match signer")
  else
    let session ← requireSession .getSession body.sessionId
    if body.acceptedSuite.id ≠ session.suite.id then
      .fail (.signatureError "accepted suite does not match signing session")
    else
      let allConsented ← acceptConsent body.sessionId body.signerDid body.keyBinding
      if allConsented then
        let _ ← transitionState body.sessionId .consented
        let _ ← transitionState body.sessionId .signing
        return none
      else return none

def checkPartialSignature (session : SigningSession) (body : PartialSignature) :
    Except SigningProtocolError Unit :=
  if body.suite.id ≠ session.suite.id ∨ body.objectDigest ≠ session.object.digest.value then
    .error (.signatureError "partial signature is not bound to this suite and object")
  else
    match session.participants.findIdx? fun p => p.did = body.signerDid with
    | none => .error (.unknownSigner body.signerDid)
    | some index =>
      if body.signerIndex ≠ UInt32.ofNat index + 1 then
        .error (.signatureError "partial signature signer index does not match participant")
      else
        match encoding.decode body.signature with
        | none => .error (.signatureError "invalid signature encoding")
        | some bytes =>
          if bytes.isEmpty then .error (.signatureError "empty partial signature") else .ok ()

/-- What follows when the threshold is reached. -/
def finishSigning (sessionId : String) : Coord (Option SigningMessage) := do
  let _ ← transitionState sessionId .combining
  let combined ← combineSignatures encoding sessionId
  let session ← requireSession .getSession sessionId
  let _ ← transitionState sessionId .distributing
  return some (.combine {
    sessionId := sessionId
    combinedSignature := combined
    suite := session.suite
    objectDigest := session.object.digest.value
    participantCount := UInt32.ofNat session.signedCount })

def handlePartialSignature (inbound : InboundMessage) (body : PartialSignature) :
    Coord (Option SigningMessage) := do
  let _ ← .ofExcept (requireClaimedSender inbound body.signerDid)
  let session ← requireSession .getSession body.sessionId
  .ofExcept (checkPartialSignature encoding session body)
  let thresholdReached ← acceptPartialSignature body.sessionId body.signerDid body.signature
  if thresholdReached then finishSigning encoding body.sessionId
  else return none

/-- The combined signature is put into a clone of the session, which is dropped. -/
def handleCombine (body : Combine) : Coord (Option SigningMessage) := do
  let _ ← getSession .getSession body.sessionId
  return some (.ack ⟨body.sessionId, "OK"⟩)

def handleProvideArtifacts (sessionId : String) : Coord (Option SigningMessage) :=
  return some (.ack ⟨sessionId, "OK"⟩)

def handleIssueToken : Coord (Option SigningMessage) :=
  .fail (.tokenVerificationFailed "authorization-token signature verifier is not configured")

def handleAck (body : Ack) : Coord (Option SigningMessage) := do
  let found ← getSession .getSession body.sessionId
  match found with
  | none => return none
  | some session =>
    if session.state = .distributing then
      let _ ← (transitionState body.sessionId .completed).attempt
      return none
    else return none

/-- `let _ = transition_state(..)`: an error is dropped. -/
def handleEnd (sessionId : String) (state : SigningSessionState) :
    Coord (Option SigningMessage) := do
  let _ ← (transitionState sessionId state).attempt
  return none

def handleDecline (sessionId : String) : Coord (Option SigningMessage) :=
  handleEnd sessionId .declined

def handleProblemReport (sessionId : String) : Coord (Option SigningMessage) :=
  handleEnd sessionId .failed

def dispatch (inbound : InboundMessage) : Coord (Option SigningMessage) :=
  match inbound.message with
  | .proposeSigning body => handleProposeSigning ourDid inbound body
  | .requestSigning body => handleRequestSigning ourDid inbound body
  | .consent body => handleConsent inbound body
  | .partialSignature body => handlePartialSignature encoding inbound body
  | .combine body => handleCombine body
  | .provideArtifacts sessionId => handleProvideArtifacts sessionId
  | .issueToken _ => handleIssueToken
  | .ack body => handleAck body
  | .decline sessionId _ => handleDecline sessionId
  | .problemReport sessionId _ => handleProblemReport sessionId
  | .invalid => .fail .serializationError

/-- Only a message of an authenticated sender is handled; the response goes back to it. -/
def handle (inbound : InboundMessage) : Coord (Option OutboundMessage) :=
  match inbound.authenticated, inbound.sender with
  | true, some sender => do
    let response ← dispatch encoding ourDid inbound
    return response.map fun message =>
      ⟨message, inbound.threadId, sender, ourDid, inbound.connectionId⟩
  | _, _ => .fail (.processingFailed "signing protocol requires an authenticated sender")

end Idiom.Signing
