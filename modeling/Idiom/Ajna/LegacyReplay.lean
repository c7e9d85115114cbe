import Idiom.Ajna.Method
import Idiom.Ajna.Replay

/-!
# Replaying legacy operations

What a list of `CRDTOperation`s makes of the method set, of the services and of the vector
clock of a document. The three fields do not see each other, so each has a replay of its
own.

* `serviceAll_some`, `serviceAll_none` — the services as a list of writes to a last-write-wins
  map; a removal before the first service is lost.
-/

namespace Idiom.Ajna
namespace CRDTOperation

open List

/-! ## One operation -/

/-- What an operation makes of the method set. -/
def onMethods (amb : Ambient) (methods : ORSet VerificationMethod) :
    CRDTOperation → ORSet VerificationMethod
  | .addVerificationMethod method _ _ => methods.add method amb.uuid
  | .removeVerificationMethod methodId _ _ _ =>
    AjnaDocument.removeFirstMethod methods amb.order methodId
  | _ => methods

/-- What an operation makes of the services. -/
def onService (service : Option (LWWMap String Service)) :
    CRDTOperation → Option (LWWMap String Service)
  | .setService s timestamp nodeId =>
    some ((service.getD LWWMap.new).setWithTimestamp s.id s timestamp nodeId)
  | .removeService serviceId timestamp nodeId =>
    service.map fun m => m.removeWithTimestamp serviceId timestamp nodeId
  | _ => service

/-- The nodes whose counters an operation increments, in order: the node that performed it,
and for a method operation also the node that keeps the document. -/
def ticks (keeper : String) : CRDTOperation → List String
  | .addVerificationMethod _ _ nodeId => [nodeId, keeper]
  | .removeVerificationMethod _ _ _ nodeId => [nodeId, keeper]
  | .setService _ _ nodeId => [nodeId]
  | .removeService _ _ nodeId => [nodeId]

section

variable (op : CRDTOperation) (doc : AjnaDocument) (amb : Ambient)

theorem verificationMethods_apply :
    (op.apply doc amb).verificationMethods = op.onMethods amb doc.verificationMethods := by
  cases op <;> rfl

theorem service_apply : (op.apply doc amb).service = op.onService doc.service := by
  cases op <;> rfl

theorem vectorClock_apply :
    (op.apply doc amb).vectorClock = doc.vectorClock.incrementAll (op.ticks doc.nodeId) := by
  cases op <;> rfl

theorem nodeId_apply : (op.apply doc amb).nodeId = doc.nodeId := by
  cases op <;> rfl

end

/-! ## A list of operations -/

/-- The operations with the ambient values they are applied with. -/
def stamped (ops : List CRDTOperation) (amb : ℕ → Ambient) : List (CRDTOperation × Ambient) :=
  ops.zipIdx.map fun p => (p.1, amb p.2)

@[simp] theorem map_fst_stamped (ops : List CRDTOperation) (amb : ℕ → Ambient) :
    (stamped ops amb).map Prod.fst = ops := by
  rw [stamped, map_map]
  exact zipIdx_map_fst 0 ops

/-- Apply operations one after another. -/
def replay (l : List (CRDTOperation × Ambient)) (doc : AjnaDocument) : AjnaDocument :=
  l.foldl (fun doc p => p.1.apply doc p.2) doc

theorem applyAll_eq_replay (ops : List CRDTOperation) (doc : AjnaDocument) (amb : ℕ → Ambient) :
    applyAll ops doc amb = replay (stamped ops amb) doc := by
  rw [applyAll, replay, stamped, foldl_map]

/-- The method set after a list of operations. -/
def methodsAll (l : List (CRDTOperation × Ambient)) (methods : ORSet VerificationMethod) :
    ORSet VerificationMethod :=
  l.foldl (fun methods p => p.1.onMethods p.2 methods) methods

/-- The services after a list of operations. -/
def serviceAll (ops : List CRDTOperation) (service : Option (LWWMap String Service)) :
    Option (LWWMap String Service) :=
  ops.foldl (fun service op => op.onService service) service

theorem methodsAll_append (l₁ l₂ : List (CRDTOperation × Ambient))
    (methods : ORSet VerificationMethod) :
    methodsAll (l₁ ++ l₂) methods = methodsAll l₂ (methodsAll l₁ methods) :=
  foldl_append

theorem serviceAll_append (l₁ l₂ : List CRDTOperation) (service : Option (LWWMap String Service)) :
    serviceAll (l₁ ++ l₂) service = serviceAll l₂ (serviceAll l₁ service) :=
  foldl_append

section

variable (l : List (CRDTOperation × Ambient)) (doc : AjnaDocument)

theorem verificationMethods_replay :
    (replay l doc).verificationMethods = methodsAll l doc.verificationMethods := by
  induction l generalizing doc with
  | nil => rfl
  | cons p l ih =>
    rw [replay]
    refine (ih _).trans ?_
    rw [verificationMethods_apply]
    rfl

theorem service_replay : (replay l doc).service = serviceAll (l.map Prod.fst) doc.service := by
  induction l generalizing doc with
  | nil => rfl
  | cons p l ih =>
    rw [replay]
    refine (ih _).trans ?_
    rw [service_apply]
    rfl

theorem nodeId_replay : (replay l doc).nodeId = doc.nodeId := by
  induction l generalizing doc with
  | nil => rfl
  | cons p l ih =>
    rw [replay]
    exact (ih _).trans (nodeId_apply p.1 doc p.2)

theorem vectorClock_replay :
    (replay l doc).vectorClock =
      doc.vectorClock.incrementAll ((l.map Prod.fst).flatMap (ticks doc.nodeId)) := by
  induction l generalizing doc with
  | nil => rfl
  | cons p l ih =>
    rw [replay]
    refine (ih _).trans ?_
    rw [vectorClock_apply, nodeId_apply, map_cons, flatMap_cons, VectorClock.incrementAll_append]

end

section

variable (ops : List CRDTOperation) (doc : AjnaDocument) (amb : ℕ → Ambient)

theorem verificationMethods_applyAll :
    (applyAll ops doc amb).verificationMethods =
      methodsAll (stamped ops amb) doc.verificationMethods := by
  rw [applyAll_eq_replay, verificationMethods_replay]

theorem service_applyAll : (applyAll ops doc amb).service = serviceAll ops doc.service := by
  rw [applyAll_eq_replay, service_replay, map_fst_stamped]

theorem nodeId_applyAll : (applyAll ops doc amb).nodeId = doc.nodeId := by
  rw [applyAll_eq_replay, nodeId_replay]

theorem vectorClock_applyAll :
    (applyAll ops doc amb).vectorClock =
      doc.vectorClock.incrementAll (ops.flatMap (ticks doc.nodeId)) := by
  rw [applyAll_eq_replay, vectorClock_replay, map_fst_stamped]

end

/-! ## Services as writes -/

/-- The entry an operation offers to the service map, and its key. -/
def serviceWrite : CRDTOperation → Option (String × LWWEntry Service)
  | .setService s timestamp nodeId => some (s.id, .withTimestamp s timestamp nodeId)
  | .removeService serviceId timestamp nodeId => some (serviceId, .tombstone timestamp nodeId)
  | _ => none

def setsService : CRDTOperation → Bool
  | .setService _ _ _ => true
  | _ => false

def fromFirstService (ops : List CRDTOperation) : List CRDTOperation :=
  ops.dropWhile fun op => !op.setsService

def beforeFirstService (ops : List CRDTOperation) : List CRDTOperation :=
  ops.takeWhile fun op => !op.setsService

theorem serviceAll_some (ops : List CRDTOperation) (m : LWWMap String Service) :
    serviceAll ops (some m) = some (m.setAll (ops.filterMap serviceWrite)) := by
  induction ops generalizing m with
  | nil => rfl
  | cons op ops ih =>
    rw [serviceAll]
    cases op with
    | setService s timestamp nodeId | removeService serviceId timestamp nodeId => exact ih _
    | _ => exact ih m

theorem serviceAll_none (ops : List CRDTOperation) :
    serviceAll ops none =
      if fromFirstService ops = [] then none
      else some (LWWMap.new.setAll ((fromFirstService ops).filterMap serviceWrite)) := by
  induction ops with
  | nil => rfl
  | cons op ops ih =>
    rw [serviceAll]
    cases op with
    | setService s timestamp nodeId =>
      exact serviceAll_some ops _
    | _ => exact ih

end CRDTOperation
end Idiom.Ajna
