import Idiom.Ajna.Document

/-!
# Signing sessions: `protocols/signing/src/{models,state,messages}`

A session collects consents and partial signatures of its participants, and moves through ten
states.
-/

namespace Idiom.Signing

open Ajna (Json)

/-! ## States -/

/-- States a signing session can be in. -/
inductive SigningSessionState where
  | proposed
  | requested
  | consented
  | signing
  | combining
  | distributing
  | completed
  | declined
  | failed
  | abandoned
  deriving DecidableEq

namespace SigningSessionState

/-- Check if a state transition is valid. -/
def canTransitionTo : SigningSessionState → SigningSessionState → Bool
  -- normal flow
  | proposed, requested => true
  | requested, consented => true
  | consented, signing => true
  | signing, combining => true
  | combining, distributing => true
  | combining, completed => true
  | distributing, completed => true
  -- decline
  | proposed, declined => true
  | requested, declined => true
  | consented, declined => true
  -- failure
  | proposed, failed => true
  | requested, failed => true
  | consented, failed => true
  | signing, failed => true
  | combining, failed => true
  | distributing, failed => true
  -- abandon
  | proposed, abandoned => true
  | requested, abandoned => true
  | consented, abandoned => true
  | signing, abandoned => true
  | _, _ => false

/-- Whether this state is terminal (no further transitions possible). -/
def isTerminal : SigningSessionState → Bool
  | completed => true
  | declined => true
  | failed => true
  | abandoned => true
  | _ => false

theorem canTransitionTo_of_isTerminal {a b : SigningSessionState} (h : a.isTerminal = true) :
    a.canTransitionTo b = false := by
  cases a <;> cases b <;> first | rfl | cases h

end SigningSessionState

/-! ## Models -/

structure Canonicalization where
  method : String
  parameters : List (String × Json)

structure Digest where
  alg : String
  value : String

structure DisplayHints where
  title : Option String
  previewLinks : List String

/-- An object to be signed. -/
structure SignableObject where
  id : String
  mediaType : String
  canonicalization : Option Canonicalization
  digest : Digest
  displayHints : Option DisplayHints

/-- Cryptographic suite identifier. -/
structure Suite where
  id : String

structure KeyBinding where
  controller : String
  proofPurpose : String
  deriving DecidableEq

/-- Signing constraints. -/
structure Constraints where
  notBefore : Option String
  expiresTime : Option String
  useLimit : Option UInt32
  policyUri : Option String

/-- Threshold configuration for N-of-M signing. -/
structure ThresholdConfig where
  scheme : String
  n : UInt32
  m : UInt32
  signers : List String
  aggregation : String

structure SessionMode where
  modeType : String

structure SessionParticipant where
  did : String
  keyBinding : Option KeyBinding
  connectionId : Option String
  consented : Bool
  signed : Bool
  signature : Option String

structure SigningSession where
  sessionId : String
  threadId : String
  object : SignableObject
  suite : Suite
  constraints : Option Constraints
  mode : SessionMode
  threshold : Option ThresholdConfig
  state : SigningSessionState
  participants : List SessionParticipant
  coordinatorDid : String
  combinedSignature : Option String

/-- Errors that can occur during signing protocol operations; the text of an error of the storage
is not kept. -/
inductive SigningProtocolError where
  | sessionNotFound (id : String)
  | invalidStateTransition (source target : SigningSessionState)
  | thresholdNotMet (have_ need : UInt32)
  | tokenVerificationFailed (reason : String)
  | signatureError (reason : String)
  | storageError
  | serializationError
  | unauthorized (reason : String)
  | duplicateSigner (did : String)
  | unknownSigner (did : String)
  /-- `MessageHandlerError::ProcessingFailed`. -/
  | processingFailed (reason : String)

/-- A participant that has done nothing yet. -/
def SessionParticipant.new (did : String) (connectionId : Option String) : SessionParticipant :=
  ⟨did, none, connectionId, false, false, none⟩

/-- `participants.iter_mut().find(|p| p.did == did)`, and an edit of what is found. -/
def withParticipant (did : String)
    (f : SessionParticipant → Except SigningProtocolError SessionParticipant) :
    List SessionParticipant → Except SigningProtocolError (List SessionParticipant)
  | [] => .error (.unknownSigner did)
  | p :: rest =>
    if p.did = did then (f p).map (· :: rest)
    else (withParticipant did f rest).map (p :: ·)

theorem withParticipant_eq_ok {did : String}
    {f : SessionParticipant → Except SigningProtocolError SessionParticipant}
    {participants edited : List SessionParticipant}
    (h : withParticipant did f participants = .ok edited) :
    ∃ before p q after, participants = before ++ p :: after ∧ (∀ x ∈ before, x.did ≠ did) ∧
      p.did = did ∧ f p = .ok q ∧ edited = before ++ q :: after := by
  induction participants generalizing edited with
  | nil => cases h
  | cons p rest ih =>
    unfold withParticipant at h
    split at h
    · next hdid =>
      cases hf : f p with
      | error e => rw [hf] at h; cases h
      | ok q =>
        rw [hf] at h
        cases h
        exact ⟨[], p, q, rest, rfl, by simp, hdid, hf, rfl⟩
    · next hdid =>
      cases hrest : withParticipant did f rest with
      | error e => rw [hrest] at h; cases h
      | ok rest' =>
        rw [hrest] at h
        cases h
        obtain ⟨before, x, y, after, rfl, hbefore, hx, hf, rfl⟩ := ih hrest
        refine ⟨p :: before, x, y, after, rfl, ?_, hx, hf, rfl⟩
        simpa [hdid] using hbefore

namespace SigningSession

variable (session : SigningSession)

/-- Get the number of required signatures for a session. -/
def requiredSignatures : UInt32 :=
  match session.threshold with
  | some t => t.n
  | none => 1

def consentedCount : ℕ := (session.participants.filter (·.consented)).length

def signedCount : ℕ := (session.participants.filter (·.signed)).length

/-- The partial signatures, in the order of the participants. -/
def signatures : List String := session.participants.filterMap (·.signature)

end SigningSession

/-! ## Messages -/

structure ProposeSigning where
  sessionId : String
  object : SignableObject
  suite : Suite
  constraints : Option Constraints
  mode : Option SessionMode
  threshold : Option ThresholdConfig

structure RequestSigning where
  sessionId : String
  object : SignableObject
  suite : Suite
  constraints : Option Constraints
  mode : SessionMode
  threshold : Option ThresholdConfig

structure Consent where
  sessionId : String
  signerDid : String
  keyBinding : KeyBinding
  acceptedSuite : Suite

structure PartialSignature where
  sessionId : String
  signerDid : String
  signerIndex : UInt32
  signature : String
  suite : Suite
  objectDigest : String

structure Combine where
  sessionId : String
  combinedSignature : String
  suite : Suite
  objectDigest : String
  participantCount : UInt32

structure Ack where
  sessionId : String
  status : String

/-- The body of a message, by its type; `invalid` has another type, or does not parse. -/
inductive SigningMessage where
  | proposeSigning (body : ProposeSigning)
  | requestSigning (body : RequestSigning)
  | consent (body : Consent)
  | partialSignature (body : PartialSignature)
  | combine (body : Combine)
  | provideArtifacts (sessionId : String)
  | issueToken (sessionId : String)
  | ack (body : Ack)
  | decline (sessionId decliner : String)
  | problemReport (sessionId reporter : String)
  | invalid

def SigningMessage.sessionId : SigningMessage → Option String
  | .proposeSigning body => some body.sessionId
  | .requestSigning body => some body.sessionId
  | .consent body => some body.sessionId
  | .partialSignature body => some body.sessionId
  | .combine body => some body.sessionId
  | .provideArtifacts sessionId => some sessionId
  | .issueToken sessionId => some sessionId
  | .ack body => some body.sessionId
  | .decline sessionId _ => some sessionId
  | .problemReport sessionId _ => some sessionId
  | .invalid => none

/-- A message with what the transport says of its sender. -/
structure InboundMessage where
  message : SigningMessage
  threadId : String
  sender : Option String
  authenticated : Bool
  connectionId : Option String

/-- A response, and where it goes. -/
structure OutboundMessage where
  message : SigningMessage
  threadId : String
  recipient : String
  sender : String
  connectionId : Option String

end Idiom.Signing
