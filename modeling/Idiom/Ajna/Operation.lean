import Idiom.Ajna.Document

/-!
# Updates of a did:ajna document

Two update languages reach a document. The legacy `CRDTOperation` of
`did/src/ajna/operations.rs` carries its own timestamp and node id for service
writes. The `Delta` of `did/src/ajna/operation_v2.rs` carries neither: services are
stamped with the replica's own clock and node id, and policy values with a Lamport
time and the replica's node id.
-/

namespace Idiom.Ajna

/-! ## Legacy operations -/

/-- CRDT operation on a DID document. -/
inductive CRDTOperation where
  | addVerificationMethod (method : VerificationMethod) (timestamp : DateTime) (nodeId : String)
  | removeVerificationMethod (methodId : String) (method : VerificationMethod)
      (timestamp : DateTime) (nodeId : String)
  | setService (service : Service) (timestamp : DateTime) (nodeId : String)
  | removeService (serviceId : String) (timestamp : DateTime) (nodeId : String)

namespace CRDTOperation

/-- The node that performed this operation. -/
def nodeId : CRDTOperation → String
  | .addVerificationMethod _ _ nodeId => nodeId
  | .removeVerificationMethod _ _ _ nodeId => nodeId
  | .setService _ _ nodeId => nodeId
  | .removeService _ _ nodeId => nodeId

/-- Apply this operation to a document. It never fails. -/
def apply (op : CRDTOperation) (document : AjnaDocument) (amb : Ambient) : AjnaDocument :=
  let document := { document with vectorClock := document.vectorClock.increment op.nodeId }
  let document :=
    match op with
    | .addVerificationMethod method _ _ => document.addVerificationMethod method amb
    | .removeVerificationMethod methodId _ _ _ => document.removeVerificationMethod methodId amb
    | .setService service timestamp nodeId =>
      document.setServiceWithTimestamp service timestamp nodeId amb
    | .removeService serviceId timestamp nodeId =>
      document.removeServiceWithTimestamp serviceId timestamp nodeId amb
  { document with updated := amb.updatedAt }

/-- Apply operations one after another, the `i`-th with the ambient values `amb i`. -/
def applyAll (ops : List CRDTOperation) (document : AjnaDocument) (amb : ℕ → Ambient) :
    AjnaDocument :=
  ops.zipIdx.foldl (fun doc p => p.1.apply doc (amb p.2)) document

theorem deactivated_apply (op : CRDTOperation) (doc : AjnaDocument) (amb : Ambient) :
    (op.apply doc amb).deactivated = doc.deactivated := by
  cases op <;> rfl

theorem deactivated_applyAll (ops : List CRDTOperation) (doc : AjnaDocument) (amb : ℕ → Ambient) :
    (applyAll ops doc amb).deactivated = doc.deactivated := by
  unfold applyAll
  generalize ops.zipIdx = l
  induction l generalizing doc with
  | nil => rfl
  | cons p l ih => rw [List.foldl_cons, ih, deactivated_apply]

end CRDTOperation

/-- Update message for syncing DID documents. -/
structure DIDUpdate where
  did : String
  operations : List CRDTOperation
  clock : List (String × UInt64)
  timestamp : DateTime
  originNode : String
  signature : Option String

/-! ## Operations of version 2 -/

/-- CRDT delta, the mutation intent. -/
inductive Delta where
  | vmAdd (entry : VerificationMethod)
  | vmRemove (id : String)
  | refAdd (purpose : VerificationPurpose) (ref : String)
  | refRemove (purpose : VerificationPurpose) (ref : String)
  | serviceAdd (entry : Service)
  | serviceRemove (id : String)
  | propSet (key : String) (value : Json) (ts : UInt64)
  | controllerAdd (did : String)
  | controllerRemove (did : String)
  | deactivate (reason : Option String)

/-- Compressed vector clock entry. -/
structure ClockEntry where
  actorId : UInt32
  counter : UInt64

/-- Authorization proof. -/
structure AuthProof where
  proof : String
  kid : String

/-- Complete DID operation. -/
structure Operation where
  opType : String
  doc : String
  /-- Blake3 hash of the canonical bytes. -/
  opId : String
  /-- Parent operation ids. -/
  parents : List String
  actor : String
  clock : ClockEntry
  delta : Delta
  auth : AuthProof
  /-- Milliseconds since the Unix epoch. -/
  timestampMs : Int64

/-- `Utc.timestamp_millis_opt`: no date outside the years chrono can represent. -/
def timestampMillisOpt (ms : ℤ) : Option DateTime :=
  if -8334601228800000 ≤ ms ∧ ms ≤ 8210266876799999 then some (ms * 1000000) else none

namespace AjnaDocument

/-- Apply a delta. A `propSet` whose Lamport time, read as a signed number of
milliseconds, is not a date panics. -/
def applyDeltaV2 (doc : AjnaDocument) (delta : Delta) (amb : Ambient) : Result AjnaDocument :=
  let document : Result AjnaDocument :=
    match delta with
    | .vmAdd entry =>
      .ok { doc with verificationMethods := doc.verificationMethods.add entry amb.uuid }
    | .vmRemove id =>
      .ok { doc with
        verificationMethods := removeFirstMethod doc.verificationMethods amb.order id }
    | .refAdd purpose ref => .ok (doc.addPurposeRef purpose ref amb)
    | .refRemove purpose ref => .ok (doc.removePurposeRef purpose ref)
    | .serviceAdd entry =>
      .ok { doc with
        service := some ((doc.service.getD LWWMap.new).set entry.id entry doc.nodeId amb.now) }
    | .serviceRemove id =>
      .ok { doc with service := doc.service.map fun m => m.remove id doc.nodeId amb.now }
    | .propSet key value ts =>
      match timestampMillisOpt ts.toInt64.toInt with
      | none => .error .panicked
      | some timestamp =>
        .ok { doc with
          policy := some ((doc.policy.getD LWWMap.new).setWithTimestamp key value timestamp
            doc.nodeId) }
    | .controllerAdd did =>
      .ok { doc with controller := some ((doc.controller.getD ORSet.new).add did amb.uuid) }
    | .controllerRemove did =>
      .ok { doc with controller := doc.controller.map fun c => c.remove did }
    | .deactivate _ => .ok { doc with deactivated := some true }
  document.map fun document => { document with updated := amb.updatedAt }

end AjnaDocument

/-- The delta's Lamport time, if it has one, is a date. -/
def Delta.Applies : Delta → Prop
  | .propSet _ _ ts => (timestampMillisOpt ts.toInt64.toInt).isSome = true
  | _ => True

namespace AjnaDocument

theorem applyDeltaV2_ok {delta : Delta} (h : delta.Applies) (doc : AjnaDocument) (amb : Ambient) :
    ∃ doc', doc.applyDeltaV2 delta amb = .ok doc' := by
  cases delta with
  | propSet key value ts =>
    obtain ⟨t, ht⟩ := Option.isSome_iff_exists.1 h
    simp only [applyDeltaV2, ht]
    exact ⟨_, rfl⟩
  | _ => exact ⟨_, rfl⟩

theorem applyDeltaV2_panicked {delta : Delta} (h : ¬ delta.Applies) (doc : AjnaDocument)
    (amb : Ambient) : doc.applyDeltaV2 delta amb = .error .panicked := by
  cases delta with
  | propSet key value ts =>
    have ht : timestampMillisOpt ts.toInt64.toInt = none := by
      simpa [Delta.Applies] using h
    simp only [applyDeltaV2, ht]
    rfl
  | _ => exact absurd trivial h

theorem applies_of_ok {delta : Delta} {doc doc' : AjnaDocument} {amb : Ambient}
    (h : doc.applyDeltaV2 delta amb = .ok doc') : delta.Applies := by
  by_contra hn
  rw [applyDeltaV2_panicked hn] at h
  cases h

/-! ### What an applied delta makes of each field -/

end AjnaDocument

namespace Delta

variable (amb : Ambient) (nodeId : String)

def onVerificationMethods (methods : ORSet VerificationMethod) : Delta → ORSet VerificationMethod
  | .vmAdd entry => methods.add entry amb.uuid
  | .vmRemove id => AjnaDocument.removeFirstMethod methods amb.order id
  | _ => methods

def onPurposeSet (q : VerificationPurpose) (set : Option (ORSet String)) :
    Delta → Option (ORSet String)
  | .refAdd p r => if q = p then some ((set.getD ORSet.new).add r amb.uuid) else set
  | .refRemove p r => if q = p then set.map fun set => set.remove r else set
  | _ => set

def onController (controller : Option (ORSet String)) : Delta → Option (ORSet String)
  | .controllerAdd did => some ((controller.getD ORSet.new).add did amb.uuid)
  | .controllerRemove did => controller.map fun c => c.remove did
  | _ => controller

def onService (service : Option (LWWMap String Service)) : Delta → Option (LWWMap String Service)
  | .serviceAdd entry => some ((service.getD LWWMap.new).set entry.id entry nodeId amb.now)
  | .serviceRemove id => service.map fun m => m.remove id nodeId amb.now
  | _ => service

/-- A policy write is stamped with its Lamport time in milliseconds. -/
def onPolicy (policy : Option (LWWMap String Json)) : Delta → Option (LWWMap String Json)
  | .propSet key value ts =>
    some ((policy.getD LWWMap.new).setWithTimestamp key value (ts.toInt64.toInt * 1000000) nodeId)
  | _ => policy

def onDeactivated (deactivated : Option Bool) : Delta → Option Bool
  | .deactivate _ => some true
  | _ => deactivated

end Delta

namespace AjnaDocument

/-- The document after a delta was applied, field by field. -/
structure Applied (delta : Delta) (amb : Ambient) (doc doc' : AjnaDocument) : Prop where
  verificationMethods :
    doc'.verificationMethods = delta.onVerificationMethods amb doc.verificationMethods
  purposeSet (q : VerificationPurpose) :
    doc'.purposeSet q = delta.onPurposeSet amb q (doc.purposeSet q)
  controller : doc'.controller = delta.onController amb doc.controller
  service : doc'.service = delta.onService amb doc.nodeId doc.service
  policy : doc'.policy = delta.onPolicy doc.nodeId doc.policy
  deactivated : doc'.deactivated = delta.onDeactivated doc.deactivated
  nodeId : doc'.nodeId = doc.nodeId
  vectorClock : doc'.vectorClock = doc.vectorClock

section

variable {delta : Delta} {doc doc' : AjnaDocument} {amb : Ambient}

theorem applied_of_ok (h : doc.applyDeltaV2 delta amb = .ok doc') : Applied delta amb doc doc' := by
  cases delta with
  | propSet key value ts =>
    simp only [applyDeltaV2, timestampMillisOpt] at h
    split at h
    · cases h
    · next t ht =>
      cases h
      split at ht <;> cases ht
      exact ⟨rfl, fun q => by cases q <;> rfl, rfl, rfl, rfl, rfl, rfl, rfl⟩
  | refAdd p r | refRemove p r =>
    cases h
    cases p <;> exact ⟨rfl, fun q => by cases q <;> rfl, rfl, rfl, rfl, rfl, rfl, rfl⟩
  | _ =>
    cases h
    exact ⟨rfl, fun q => by cases q <;> rfl, rfl, rfl, rfl, rfl, rfl, rfl⟩

theorem id_applyDeltaV2 (h : doc.applyDeltaV2 delta amb = .ok doc') : doc'.id = doc.id := by
  have hwith : ∀ (p : VerificationPurpose) (set : Option (ORSet String)),
      (doc.withPurposeSet p set).id = doc.id := by
    intro p set
    cases p <;> rfl
  cases delta with
  | propSet key value ts =>
    simp only [applyDeltaV2] at h
    split at h
    · cases h
    · cases h
      rfl
  | refAdd p r | refRemove p r => cases h; exact hwith p _
  | _ => cases h; rfl

end

end AjnaDocument
end Idiom.Ajna
