import Idiom.Ajna.Operation

/-!
# The authorization engine of `did/src/ajna/authorization.rs`

An operation is checked against the document it would change: the document must not
be deactivated, the actor must control it, the policy's quorum must be met, and the
delta itself must make sense.
-/

namespace Idiom.Ajna

/-- Authorization context for evaluating operations. -/
structure AuthorizationContext where
  did : String
  actor : String
  additionalSignatures : List String
  document : AjnaDocument

inductive AuthorizationResult where
  | allowed
  | denied (msg : String)
  | requiresQuorum (required current missing : ℕ)
  deriving DecidableEq

namespace AuthorizationResult

def isAllowed : AuthorizationResult → Bool
  | .allowed => true
  | _ => false

/-- The `Debug` text; `debugStr` prints a string literal. -/
def debug (debugStr : String → String) : AuthorizationResult → String
  | .allowed => "Allowed"
  | .denied msg => "Denied(" ++ debugStr msg ++ ")"
  | .requiresQuorum required current missing =>
    "RequiresQuorum \x7b required: " ++ toString required ++ ", current: " ++ toString current ++
      ", missing: " ++ toString missing ++ " \x7d"

end AuthorizationResult

open AuthorizationResult

/-- `str::starts_with`. -/
def startsWith (s pat : String) : Bool := pat.toList.isPrefixOf s.toList

namespace AuthorizationEngine

/-- Is an actor authorized to perform an operation? -/
def isActorAuthorized (actor : String) (doc : AjnaDocument) (delta : Delta) : Bool :=
  if !doc.controller.isSome then actor = doc.id
  else if doc.isController actor then true
  else
    match delta with
    | .vmAdd _ | .vmRemove _ | .refAdd _ _ | .refRemove _ _ =>
      actor = doc.id || doc.isController actor
    | .serviceAdd _ | .serviceRemove _ => actor = doc.id || doc.isController actor
    | .controllerAdd _ | .controllerRemove _ => doc.isController actor
    | .propSet _ _ _ => doc.isController actor
    | .deactivate _ => actor = doc.id || doc.isController actor

def quorumPolicyKey : Delta → String
  | .vmAdd _ | .vmRemove _ => "auth.quorum.vm"
  | .refAdd _ _ | .refRemove _ _ => "auth.quorum.vm"
  | .serviceAdd _ | .serviceRemove _ => "auth.quorum.service"
  | .controllerAdd _ | .controllerRemove _ => "auth.quorum.controller"
  | .propSet _ _ _ => "auth.quorum.policy"
  | .deactivate _ => "auth.quorum.deactivate"

/-- `quorum as usize`, for an `i64` on a 64-bit target. -/
def asUsize (quorum : ℤ) : ℕ := (quorum % 2 ^ 64).toNat

def getQuorumRequirement (delta : Delta) (doc : AjnaDocument) : ℕ :=
  match doc.getPolicyInt (quorumPolicyKey delta) with
  | some quorum => asUsize quorum
  | none =>
    match doc.getPolicyInt "auth.quorum.update" with
    | some quorum => asUsize quorum
    | none => 1

def checkQuorum (operation : Operation) (context : AuthorizationContext) : AuthorizationResult :=
  let quorumRequired := getQuorumRequirement operation.delta context.document
  if quorumRequired ≤ 1 then .allowed
  else
    let signers : Finset String := insert context.actor context.additionalSignatures.toFinset
    if quorumRequired ≤ signers.card then .allowed
    else .requiresQuorum quorumRequired signers.card (quorumRequired - signers.card)

/-- Authorize a specific delta type. -/
def authorizeDelta (order : IterOrder VerificationMethod) (delta : Delta)
    (context : AuthorizationContext) : AuthorizationResult :=
  let doc := context.document
  match delta with
  | .vmAdd entry =>
    if !startsWith entry.id doc.id then .denied "Verification method must reference this DID"
    else .allowed
  | .vmRemove id =>
    if (doc.getVerificationMethod order id).isNone then .denied "Verification method not found"
    else .allowed
  | .refAdd _ ref =>
    if (doc.getVerificationMethod order ref).isNone then
      .denied ("Referenced verification method not found: " ++ ref)
    else .allowed
  | .refRemove _ _ => .allowed
  | .serviceAdd entry =>
    if entry.id.isEmpty then .denied "Service ID cannot be empty" else .allowed
  | .serviceRemove _ => .allowed
  | .propSet key _ _ =>
    if startsWith key "auth." then
      if !doc.isController context.actor then
        .denied "Only controllers can modify auth policies"
      else .allowed
    else .allowed
  | .controllerAdd did =>
    if !startsWith did "did:" then .denied "Invalid controller DID format" else .allowed
  | .controllerRemove _ =>
    match doc.controller with
    | some controllers =>
      if controllers.len ≤ 1 then .denied "Cannot remove last controller" else .allowed
    | none => .allowed
  | .deactivate _ => .allowed

/-- Authorize an operation against a document's policy. -/
def authorize (order : IterOrder VerificationMethod) (operation : Operation)
    (context : AuthorizationContext) : AuthorizationResult :=
  let doc := context.document
  if doc.isDeactivated then .denied "Cannot modify deactivated DID"
  else if !isActorAuthorized context.actor doc operation.delta then
    .denied ("Actor " ++ context.actor ++ " is not authorized")
  else
    let quorumResult := checkQuorum operation context
    if !quorumResult.isAllowed then quorumResult
    else authorizeDelta order operation.delta context

/-- Can an operation be applied to a document? The call carries no additional
signatures. -/
def canApply (order : IterOrder VerificationMethod) (operation : Operation)
    (document : AjnaDocument) : AuthorizationResult :=
  authorize order operation
    { did := operation.doc
      actor := operation.actor
      additionalSignatures := []
      document := document }

variable {order : IterOrder VerificationMethod} {operation : Operation}

theorem authorize_isAllowed_iff {context : AuthorizationContext} :
    (authorize order operation context).isAllowed = true ↔ context.document.isDeactivated = false ∧
      isActorAuthorized context.actor context.document operation.delta = true ∧
      (checkQuorum operation context).isAllowed = true ∧
      (authorizeDelta order operation.delta context).isAllowed = true := by
  unfold authorize
  dsimp only
  cases context.document.isDeactivated with
  | true => simp [isAllowed]
  | false =>
    cases isActorAuthorized context.actor context.document operation.delta with
    | false => simp [isAllowed]
    | true =>
      cases hq : (checkQuorum operation context).isAllowed with
      | false => simp [hq]
      | true => simp

theorem authorizeDelta_of_canApply {document : AjnaDocument}
    (h : (canApply order operation document).isAllowed = true) :
    (authorizeDelta order operation.delta
      ⟨operation.doc, operation.actor, [], document⟩).isAllowed = true :=
  (authorize_isAllowed_iff.1 h).2.2.2

theorem canApply_of_selfControlled {document : AjnaDocument}
    (hactive : document.isDeactivated = false) (hctrl : document.controller = none)
    (hpol : document.policy = none) (hactor : operation.actor = document.id)
    (hdelta : (authorizeDelta order operation.delta
      ⟨operation.doc, operation.actor, [], document⟩).isAllowed = true) :
    (canApply order operation document).isAllowed = true := by
  refine authorize_isAllowed_iff.2 ⟨hactive, ?_, ?_, hdelta⟩
  · simp [isActorAuthorized, hctrl, hactor]
  · simp [checkQuorum, getQuorumRequirement, AjnaDocument.getPolicyInt, AjnaDocument.getPolicy,
      hpol, isAllowed]

end AuthorizationEngine
end Idiom.Ajna
