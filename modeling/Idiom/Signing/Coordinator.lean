import Idiom.Lib.Prog
import Idiom.Signing.Session

/-!
# The signing coordinator: `protocols/signing/src/coordinator.rs`

Sessions are kept twice, in the storage and in a cache that is read first. A call of the
coordinator clones the cached session, changes the clone, writes it to the storage, then to the
cache, and at last emits an event; it may be suspended at each of these.
-/

namespace Idiom.Signing

open SigningSession

/-- The storage and the cache of one coordinator. -/
structure Coordinator where
  storage : String → Option SigningSession
  sessions : String → Option SigningSession

def Coordinator.start : Coordinator := ⟨fun _ => none, fun _ => none⟩

/-- The typed events. -/
inductive SigningEvent where
  | stateChanged (sessionId : String) (previous state : SigningSessionState)
  | consentReceived (sessionId signerDid : String)
  | partialSignatureReceived (sessionId signerDid : String)
  | thresholdMet (sessionId : String) (required received : UInt32)
  | sessionCompleted (sessionId finalSignature : String)

inductive CoordinatorCall where
  | createSession
  | getSession
  | transitionState
  | acceptConsent
  | acceptPartialSignature
  | combineSignatures
  deriving DecidableEq

/-- The accesses of a call. -/
inductive Access where
  /-- The call starts: it looks into the cache. -/
  | lookup (call : CoordinatorCall)
  | find
  | fill
  | save (call : CoordinatorCall) (session : SigningSession)
  | store
  | emit (event : SigningEvent)

/-- A call: every access to the storage may fail. -/
abbrev Coord := Prog Coordinator Bool Access SigningProtocolError

namespace Coordinator

/-- `self.sessions.write().await.insert(..)`. -/
def cacheSession (sessionId : String) (session : SigningSession) (c : Coordinator) : Coordinator :=
  { c with sessions := Function.update c.sessions sessionId (some session) }

/-- `self.storage.update(..)`, or `save(..)`. -/
def storeSession (session : SigningSession) (c : Coordinator) : Coordinator :=
  { c with storage := Function.update c.storage session.sessionId (some session) }

end Coordinator

open Coordinator

def getSession (call : CoordinatorCall) (sessionId : String) : Coord (Option SigningSession) := do
  let cached ← .get (.lookup call) fun c => c.sessions sessionId
  match cached with
  | some session => return some session
  | none =>
    let found ← .access .find (fun _ c => c) fun ok c =>
      if ok then .done (c.storage sessionId) else .fail .storageError
    match found with
    | some session =>
      .modify .fill (cacheSession sessionId session)
      return some session
    | none => return none

def requireSession (call : CoordinatorCall) (sessionId : String) : Coord SigningSession := do
  let found ← getSession call sessionId
  match found with
  | some session => return session
  | none => .fail (.sessionNotFound sessionId)

/-- `self.storage.update(&record)`, or `self.storage.save(&record)`. -/
def writeRecord (call : CoordinatorCall) (session : SigningSession) : Coord Bool :=
  .access (.save call session) (fun ok c => if ok then storeSession session c else c) fun ok _ =>
    .done ok

/-- Persist a session to storage: try update first, fall back to save for new records. -/
def saveSession (call : CoordinatorCall) (session : SigningSession) : Coord Unit := do
  let updated ← writeRecord call session
  if updated then return ()
  else
    let saved ← writeRecord call session
    if saved then return () else .fail .storageError

def emit (event : SigningEvent) : Coord Unit := .modify (.emit event) id

/-- Write a session to the storage, then to the cache. -/
def putSession (call : CoordinatorCall) (sessionId : String) (session : SigningSession) :
    Coord Unit := do
  saveSession call session
  .modify .store (cacheSession sessionId session)

/-- What a new session is made of. -/
structure NewSession where
  sessionId : String
  threadId : String
  object : SignableObject
  suite : Suite
  constraints : Option Constraints
  mode : SessionMode
  threshold : Option ThresholdConfig
  participants : List SessionParticipant

def NewSession.session (new : NewSession) (ourDid : String) : SigningSession where
  sessionId := new.sessionId
  threadId := new.threadId
  object := new.object
  suite := new.suite
  constraints := new.constraints
  mode := new.mode
  threshold := new.threshold
  state := .proposed
  participants := new.participants
  coordinatorDid := ourDid
  combinedSignature := none

def createSession (ourDid : String) (new : NewSession) : Coord SigningSession := do
  let session := new.session ourDid
  putSession .createSession new.sessionId session
  return session

/-- Clone a session, change the clone, write it back: the session before and after. -/
def editSession (call : CoordinatorCall) (sessionId : String)
    (f : SigningSession → Except SigningProtocolError SigningSession) :
    Coord (SigningSession × SigningSession) := do
  let session ← requireSession call sessionId
  let edited ← .ofExcept (f session)
  putSession call sessionId edited
  return (session, edited)

def SigningSession.withState (newState : SigningSessionState) (session : SigningSession) :
    Except SigningProtocolError SigningSession :=
  if session.state.canTransitionTo newState then .ok { session with state := newState }
  else .error (.invalidStateTransition session.state newState)

def transitionState (sessionId : String) (newState : SigningSessionState) :
    Coord SigningSession := do
  let (previous, session) ← editSession .transitionState sessionId (withState newState)
  emit (.stateChanged sessionId previous.state newState)
  return session

def SigningSession.withConsent (signerDid : String) (keyBinding : KeyBinding)
    (session : SigningSession) : Except SigningProtocolError SigningSession :=
  (withParticipant signerDid
    (fun p => .ok { p with consented := true, keyBinding := some keyBinding })
    session.participants).map fun participants => { session with participants := participants }

/-- Record consent from a participant.
Returns true when all required participants have consented. -/
def acceptConsent (sessionId signerDid : String) (keyBinding : KeyBinding) : Coord Bool := do
  let (_, session) ← editSession .acceptConsent sessionId
    (withConsent signerDid keyBinding)
  emit (.consentReceived sessionId signerDid)
  return decide (session.requiredSignatures ≤ UInt32.ofNat session.consentedCount)

def SigningSession.withSignature (signerDid signature : String) (session : SigningSession) :
    Except SigningProtocolError SigningSession :=
  (withParticipant signerDid
    (fun p => if p.signed then .error (.duplicateSigner signerDid)
      else .ok { p with signed := true, signature := some signature })
    session.participants).map fun participants => { session with participants := participants }

/-- Emit `threshold_met` when the count is what is required. -/
def emitThresholdMet (sessionId : String) (required signedCount : UInt32) : Coord Unit :=
  if signedCount = required then emit (.thresholdMet sessionId required signedCount)
  else return ()

/-- Record a partial signature from a participant.
Returns true when the threshold of signatures has been reached. -/
def acceptPartialSignature (sessionId signerDid signature : String) : Coord Bool := do
  let (_, session) ← editSession .acceptPartialSignature sessionId
    (withSignature signerDid signature)
  emit (.partialSignatureReceived sessionId signerDid)
  let signedCount := UInt32.ofNat session.signedCount
  emitThresholdMet sessionId session.requiredSignatures signedCount
  return decide (session.requiredSignatures ≤ signedCount)

/-- What the coordinator uses of `base64` and `serde_json`: decoding of a partial signature, and
the base64 text of the JSON array of the partial signatures. -/
structure Encoding where
  decode : String → Option (List UInt8)
  encodeArray : List String → String

variable (encoding : Encoding)

/-- The session with the combined signature; there must be a partial one. -/
def SigningSession.withCombined (session : SigningSession) :
    Except SigningProtocolError SigningSession :=
  if session.signatures.isEmpty then .error (.thresholdNotMet 0 session.requiredSignatures)
  else .ok { session with combinedSignature := some (encoding.encodeArray session.signatures) }

def combineSignatures (sessionId : String) : Coord String := do
  let (session, _) ← editSession .combineSignatures sessionId
    (withCombined encoding)
  let combined := encoding.encodeArray session.signatures
  emit (.sessionCompleted sessionId combined)
  return combined

end Idiom.Signing
