import Idiom.Crdt.LWWMap
import Idiom.Crdt.ORSet
import Idiom.Crdt.VectorClock

/-!
# The did:ajna document of `did/src/ajna/document.rs`

A DID document whose fields are CRDTs: OR-Sets for verification methods, purpose
references and controllers, LWW-Maps for services and policy.
-/

namespace Idiom.Ajna

/-! ## Errors and panics -/

/-- The errors of `did/src/ajna/error.rs` that the modelled calls return. -/
inductive AjnaError where
  | didNotFound (did : String)
  | invalidOperation (msg : String)
  | serializationError (msg : String)
  | merkleDag (msg : String)
  | invalidBloomFilter (msg : String)
  | bundleTooLarge (size max : ℕ)
  | invalidBundleId
  | insufficientContext
  | resolutionFailed (msg : String)
  | deactivatedDID
  | invalidReference (msg : String)
  deriving DecidableEq, Repr

/-- The `Display` text of an error. -/
def AjnaError.text : AjnaError → String
  | .didNotFound did => "DID not found: " ++ did
  | .invalidOperation msg => "Invalid operation: " ++ msg
  | .serializationError msg => "Serialization error: " ++ msg
  | .merkleDag msg => "Merkle DAG error: " ++ msg
  | .invalidBloomFilter msg => "Invalid bloom filter: " ++ msg
  | .bundleTooLarge size max =>
    "Bundle too large: " ++ toString size ++ " bytes (max: " ++ toString max ++ " bytes)"
  | .invalidBundleId => "Invalid bundle ID"
  | .insufficientContext => "Insufficient context in bundle"
  | .resolutionFailed msg => "Resolution failed: " ++ msg
  | .deactivatedDID => "DID is deactivated"
  | .invalidReference msg => "Invalid reference: " ++ msg

/-- How a call fails: with an error value, or by a panic (an `unwrap` of nothing). -/
inductive Fault where
  | err (e : AjnaError)
  | panicked
  deriving DecidableEq, Repr

/-- The outcome of a call. -/
abbrev Result (α : Type) := Except Fault α

/-! ## JSON values -/

/-- A JSON number as `serde_json` keeps it; a float is its bit pattern. -/
inductive JsonNumber where
  | posInt (n : UInt64)
  | negInt (n : Int64)
  | float (bits : UInt64)
  deriving DecidableEq

/-- `serde_json::Value`. -/
inductive Json where
  | null
  | bool (b : Bool)
  | number (n : JsonNumber)
  | string (s : String)
  | array (items : List Json)
  | object (fields : List (String × Json))

instance : Inhabited Json := ⟨.null⟩

/-- `Value::as_i64`: the number, if it is an integer that fits. -/
def Json.asI64 : Json → Option ℤ
  | .number (.posInt n) => if n.toNat ≤ 2 ^ 63 - 1 then some n.toNat else none
  | .number (.negInt n) => some n.toInt
  | _ => none

/-! ## The document -/

structure VerificationMethod where
  id : String
  type_ : String
  controller : String
  publicKeyMultibase : String
  purpose : Option (List String)
  deriving DecidableEq

/-- Service endpoint in a DID document. -/
structure Service where
  id : String
  type_ : String
  serviceEndpoint : String
  properties : FMap String Json

instance : Inhabited Service := ⟨⟨"", "", "", ∅⟩⟩

inductive VerificationPurpose where
  | authentication
  | assertionMethod
  | keyAgreement
  | capabilityInvocation
  | capabilityDelegation
  deriving DecidableEq

structure BlockchainAnchor where
  network : String
  txHash : String
  blockNumber : UInt64
  timestamp : DateTime
  merkleRoot : String

/-- CRDT-based DID document for did:ajna. -/
@[ext] structure AjnaDocument where
  id : String
  verificationMethods : ORSet VerificationMethod
  authentication : Option (ORSet String)
  assertionMethod : Option (ORSet String)
  keyAgreement : Option (ORSet String)
  capabilityInvocation : Option (ORSet String)
  capabilityDelegation : Option (ORSet String)
  controller : Option (ORSet String)
  service : Option (LWWMap String Service)
  policy : Option (LWWMap String Json)
  deactivated : Option Bool
  vectorClock : VectorClock
  created : DateTime
  updated : DateTime
  nodeId : String
  blockchainAnchor : Option BlockchainAnchor

/-- What one update draws from outside its arguments. -/
structure Ambient where
  /-- The UUID `Uuid::new_v4` returns. -/
  uuid : Uuid
  /-- The clock reading a CRDT write is stamped with. -/
  now : DateTime
  /-- The clock reading `updated` is set to. -/
  updatedAt : DateTime
  /-- The order in which the method set is iterated. -/
  order : IterOrder VerificationMethod

namespace AjnaDocument

/-- Create a new document; `created` and `updated` are two clock readings. -/
def new (did nodeId : String) (created updated : DateTime) : AjnaDocument where
  id := did
  verificationMethods := ORSet.new
  authentication := none
  assertionMethod := none
  keyAgreement := none
  capabilityInvocation := none
  capabilityDelegation := none
  controller := none
  service := none
  policy := none
  deactivated := none
  vectorClock := VectorClock.new
  created := created
  updated := updated
  nodeId := nodeId
  blockchainAnchor := none

/-- Create a genesis document. The `i`-th controller is added under `uuid i`, the
`i`-th policy entry is written at the clock reading `now i`. -/
def newWithGenesis (did nodeId : String) (initialControllers : List String)
    (initialPolicy : List (String × Json)) (created updated : DateTime) (uuid : ℕ → Uuid)
    (now : ℕ → DateTime) : AjnaDocument :=
  let doc := new did nodeId created updated
  let controller :=
    if initialControllers.isEmpty then none
    else some (initialControllers.zipIdx.foldl (fun s p => s.add p.1 (uuid p.2)) ORSet.new)
  let policy :=
    if initialPolicy.isEmpty then none
    else some (initialPolicy.zipIdx.foldl
      (fun m p => m.set p.1.1 p.1.2 doc.nodeId (now p.2)) LWWMap.new)
  { doc with controller := controller, policy := policy }

/-! ### Reading -/

def isDeactivated (doc : AjnaDocument) : Bool := doc.deactivated.getD false

/-- A policy value. -/
def getPolicy (doc : AjnaDocument) (key : String) : Option Json :=
  doc.policy.bind fun p => p.get key

/-- A policy value as an integer. -/
def getPolicyInt (doc : AjnaDocument) (key : String) : Option ℤ :=
  (doc.getPolicy key).bind Json.asI64

def isController (doc : AjnaDocument) (did : String) : Bool :=
  (doc.controller.map fun c => c.contains did).getD false

def getService (doc : AjnaDocument) (serviceId : String) : Option Service :=
  doc.service.bind fun s => s.get serviceId

/-- The first verification method with the given id, in iteration order. -/
def getVerificationMethod (doc : AjnaDocument) (order : IterOrder VerificationMethod)
    (methodId : String) : Option VerificationMethod :=
  (order.list doc.verificationMethods.keys).find? fun m => m.id = methodId

def purposeSet (doc : AjnaDocument) : VerificationPurpose → Option (ORSet String)
  | .authentication => doc.authentication
  | .assertionMethod => doc.assertionMethod
  | .keyAgreement => doc.keyAgreement
  | .capabilityInvocation => doc.capabilityInvocation
  | .capabilityDelegation => doc.capabilityDelegation

/-! ### Writing -/

/-- Replace the OR-Set of references of a purpose. -/
def withPurposeSet (doc : AjnaDocument) (purpose : VerificationPurpose)
    (set : Option (ORSet String)) : AjnaDocument :=
  match purpose with
  | .authentication => { doc with authentication := set }
  | .assertionMethod => { doc with assertionMethod := set }
  | .keyAgreement => { doc with keyAgreement := set }
  | .capabilityInvocation => { doc with capabilityInvocation := set }
  | .capabilityDelegation => { doc with capabilityDelegation := set }

def addVerificationMethod (doc : AjnaDocument) (method : VerificationMethod) (amb : Ambient) :
    AjnaDocument :=
  { doc with
    verificationMethods := doc.verificationMethods.add method amb.uuid
    vectorClock := doc.vectorClock.increment doc.nodeId
    updated := amb.now }

/-- The method set after the loop that removes the first method with the given id,
in iteration order, and then breaks. -/
def removeFirstMethod (methods : ORSet VerificationMethod) (order : IterOrder VerificationMethod)
    (methodId : String) : ORSet VerificationMethod :=
  match (order.list methods.keys).find? fun m => m.id = methodId with
  | some method => methods.remove method
  | none => methods

def removeVerificationMethod (doc : AjnaDocument) (methodId : String) (amb : Ambient) :
    AjnaDocument :=
  { doc with
    verificationMethods := removeFirstMethod doc.verificationMethods amb.order methodId
    vectorClock := doc.vectorClock.increment doc.nodeId
    updated := amb.now }

/-- Add or update a service. -/
def setService (doc : AjnaDocument) (service : Service) (amb : Ambient) : AjnaDocument :=
  { doc with
    service := some ((doc.service.getD LWWMap.new).set service.id service doc.nodeId amb.now)
    vectorClock := doc.vectorClock.increment doc.nodeId
    updated := amb.updatedAt }

def removeService (doc : AjnaDocument) (serviceId : String) (amb : Ambient) : AjnaDocument :=
  { doc with
    service := doc.service.map fun m => m.remove serviceId doc.nodeId amb.now
    vectorClock := doc.vectorClock.increment doc.nodeId
    updated := amb.updatedAt }

/-- Add or update a service with a specific timestamp. -/
def setServiceWithTimestamp (doc : AjnaDocument) (service : Service) (timestamp : DateTime)
    (nodeId : String) (amb : Ambient) : AjnaDocument :=
  { doc with
    service := some ((doc.service.getD LWWMap.new).setWithTimestamp service.id service timestamp
      nodeId)
    updated := amb.now }

def removeServiceWithTimestamp (doc : AjnaDocument) (serviceId : String) (timestamp : DateTime)
    (nodeId : String) (amb : Ambient) : AjnaDocument :=
  { doc with
    service := doc.service.map fun m => m.removeWithTimestamp serviceId timestamp nodeId
    updated := amb.now }

/-- Add a reference to a verification method for a specific purpose. -/
def addPurposeRef (doc : AjnaDocument) (purpose : VerificationPurpose) (ref : String)
    (amb : Ambient) : AjnaDocument :=
  doc.withPurposeSet purpose (some (((doc.purposeSet purpose).getD ORSet.new).add ref amb.uuid))

/-- Remove a reference from a verification method purpose. -/
def removePurposeRef (doc : AjnaDocument) (purpose : VerificationPurpose) (ref : String) :
    AjnaDocument :=
  doc.withPurposeSet purpose ((doc.purposeSet purpose).map fun set => set.remove ref)

def setBlockchainAnchor (doc : AjnaDocument) (anchor : BlockchainAnchor) : AjnaDocument :=
  { doc with blockchainAnchor := some anchor }

/-! ### Merging -/

/-- The anchor kept by a merge: the one with the later block, its own if there is none. -/
def mergeAnchor (self other : Option BlockchainAnchor) : Option BlockchainAnchor :=
  match other with
  | none => self
  | some otherAnchor =>
    match self with
    | some selfAnchor =>
      if selfAnchor.blockNumber < otherAnchor.blockNumber then some otherAnchor
      else some selfAnchor
    | none => some otherAnchor

/-- The flag kept by a merge: true wins. -/
def mergeDeactivated (self other : Option Bool) : Option Bool :=
  if other = some true then some true else self

/-- Merge another document into this one. The document the call leaves behind comes with
its outcome. -/
def merge (doc other : AjnaDocument) : AjnaDocument × Result Unit :=
  if doc.id ≠ other.id then
    (doc, .error (.err (.invalidOperation "Cannot merge documents with different DIDs")))
  else
    ({ doc with
        verificationMethods := doc.verificationMethods.merge other.verificationMethods
        service := mergeOption LWWMap.new LWWMap.merge doc.service other.service
        authentication := mergeOption ORSet.new ORSet.merge doc.authentication other.authentication
        assertionMethod :=
          mergeOption ORSet.new ORSet.merge doc.assertionMethod other.assertionMethod
        keyAgreement := mergeOption ORSet.new ORSet.merge doc.keyAgreement other.keyAgreement
        capabilityInvocation :=
          mergeOption ORSet.new ORSet.merge doc.capabilityInvocation other.capabilityInvocation
        capabilityDelegation :=
          mergeOption ORSet.new ORSet.merge doc.capabilityDelegation other.capabilityDelegation
        controller := mergeOption ORSet.new ORSet.merge doc.controller other.controller
        policy := mergeOption LWWMap.new LWWMap.merge doc.policy other.policy
        deactivated := mergeDeactivated doc.deactivated other.deactivated
        vectorClock := doc.vectorClock.merge other.vectorClock
        updated := if doc.updated < other.updated then other.updated else doc.updated
        created := if other.created < doc.created then other.created else doc.created
        blockchainAnchor := mergeAnchor doc.blockchainAnchor other.blockchainAnchor }, .ok ())

end AjnaDocument
end Idiom.Ajna
