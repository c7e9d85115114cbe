import Idiom.Lib.AddOnlyIndex

/-!
# Proof exchanges: `proofs/src/domain`, `proofs/src/repository`

One record for each exchange of the present-proof protocol, kept by either side.
-/

namespace Idiom.Proofs

/-! ## States -/

inductive ProofExchangeState where
  | proposalSent
  | proposalReceived
  | requestSent
  | requestReceived
  | presentationSent
  | presentationReceived
  | declined
  | done
  | abandoned
  deriving DecidableEq, Repr

namespace ProofExchangeState

def isTerminal : ProofExchangeState → Bool
  | .done | .abandoned | .declined => true
  | _ => false

def validNextStates : ProofExchangeState → List ProofExchangeState
  | .proposalSent => [.requestReceived, .declined, .abandoned]
  | .proposalReceived => [.requestSent, .declined, .abandoned]
  | .requestSent => [.presentationReceived, .declined, .abandoned]
  | .requestReceived => [.presentationSent, .declined, .abandoned]
  | .presentationSent => [.done, .abandoned]
  | .presentationReceived => [.done, .abandoned]
  | .done => []
  | .abandoned => []
  | .declined => []

theorem abandoned_mem_validNextStates {state : ProofExchangeState} (h : state.isTerminal = false) :
    .abandoned ∈ state.validNextStates := by
  revert h
  cases state <;> decide

end ProofExchangeState

inductive ProofExchangeRole where
  | prover
  | verifier
  deriving DecidableEq, Repr

/-- The errors of the operations; those of the AnonCreds library carry their text. -/
inductive ProofError where
  | notFound (what : String)
  | alreadyExists (id : String)
  | invalidRole (expected actual : ProofExchangeRole)
  | invalidState (expected : List ProofExchangeState) (actual : ProofExchangeState)
  | verificationFailed (text : String)
  | anonCreds (text : String)
  | serialization (text : String)
  | protocol (text : String)
  deriving DecidableEq

/-! ## Records -/

structure ProofExchangeRecord where
  id : String
  threadId : String
  connectionId : Option String
  role : ProofExchangeRole
  state : ProofExchangeState
  presentationRequestJson : Option String
  presentationJson : Option String
  verified : Option Bool
  errorMessage : Option String
  createdAt : ℕ
  updatedAt : ℕ
  deriving DecidableEq

namespace ProofExchangeRecord

/-- `ProofExchangeRecord::new`, for an id that was drawn and the time it was called at. -/
def new (id : String) (now : ℕ) (role : ProofExchangeRole) (state : ProofExchangeState)
    (threadId : String) : ProofExchangeRecord where
  id := id
  threadId := threadId
  connectionId := none
  role := role
  state := state
  presentationRequestJson := none
  presentationJson := none
  verified := none
  errorMessage := none
  createdAt := now
  updatedAt := now

variable (record : ProofExchangeRecord) (now : ℕ)

/-- `if let Some(conn_id) = connection_id { record.set_connection_id(conn_id) }`. -/
def setConnectionId : Option String → ProofExchangeRecord
  | none => record
  | some connectionId => { record with connectionId := some connectionId, updatedAt := now }

def setPresentationRequest (json : String) : ProofExchangeRecord :=
  { record with presentationRequestJson := some json, updatedAt := now }

def setPresentation (json : String) : ProofExchangeRecord :=
  { record with presentationJson := some json, updatedAt := now }

def setVerified (verified : Bool) : ProofExchangeRecord :=
  { record with verified := some verified, updatedAt := now }

def updateState (state : ProofExchangeState) : ProofExchangeRecord :=
  { record with state := state, updatedAt := now }

def setError (error : String) : ProofExchangeRecord :=
  { record with errorMessage := some error, state := .abandoned, updatedAt := now }

section
variable (connectionId : Option String)

@[simp] theorem setConnectionId_id : (record.setConnectionId now connectionId).id = record.id := by
  cases connectionId <;> rfl

@[simp] theorem setConnectionId_threadId :
    (record.setConnectionId now connectionId).threadId = record.threadId := by
  cases connectionId <;> rfl

@[simp] theorem setConnectionId_role :
    (record.setConnectionId now connectionId).role = record.role := by
  cases connectionId <;> rfl

@[simp] theorem setConnectionId_state :
    (record.setConnectionId now connectionId).state = record.state := by
  cases connectionId <;> rfl

@[simp] theorem setConnectionId_presentationJson :
    (record.setConnectionId now connectionId).presentationJson = record.presentationJson := by
  cases connectionId <;> rfl

@[simp] theorem setConnectionId_verified :
    (record.setConnectionId now connectionId).verified = record.verified := by
  cases connectionId <;> rfl

end

end ProofExchangeRecord

/-! ## The records of an agent -/

/-- `ProofExchangeRepository`. -/
structure ProofExchangeRepository where
  records : FMap String ProofExchangeRecord

namespace ProofExchangeRepository

variable (order : IterOrder String)

def findById (s : ProofExchangeRepository) (id : String) : Option ProofExchangeRecord :=
  s.records.lookup id

/-- Any record of the thread: the first in the order of the hash map. -/
def findByThreadId (s : ProofExchangeRepository) (threadId : String) : Option ProofExchangeRecord :=
  (s.records.values order).find? fun r => r.threadId = threadId

def findByRoleAndThreadId (s : ProofExchangeRepository) (role : ProofExchangeRole)
    (threadId : String) : Option ProofExchangeRecord :=
  (s.records.values order).find? fun r => r.role = role && r.threadId = threadId

def save (s : ProofExchangeRepository) (record : ProofExchangeRecord) :
    ProofExchangeRepository × Except ProofError Unit :=
  if record.id ∈ s.records then (s, .error (.alreadyExists record.id))
  else (⟨s.records.insert record.id record⟩, .ok ())

def update (s : ProofExchangeRepository) (record : ProofExchangeRecord) :
    ProofExchangeRepository × Except ProofError Unit :=
  if record.id ∈ s.records then (⟨s.records.insert record.id record⟩, .ok ())
  else (s, .error (.notFound record.id))

def delete (s : ProofExchangeRepository) (id : String) :
    ProofExchangeRepository × Except ProofError Unit :=
  if id ∈ s.records then (⟨s.records.erase id⟩, .ok ()) else (s, .error (.notFound id))

/-- A new record is saved and returned. -/
def create {α : Type} (s : ProofExchangeRepository) (record : ProofExchangeRecord) (a : α) :
    ProofExchangeRepository × Except ProofError α :=
  match s.save record with
  | (s', .ok ()) => (s', .ok a)
  | (s', .error e) => (s', .error e)

/-- An operation on the record that was found: check it, change it, and write it back; or leave it
as it is. -/
def edit {α : Type} (s : ProofExchangeRepository) (found : Option ProofExchangeRecord)
    (what : String) (f : ProofExchangeRecord → Except ProofError (Option ProofExchangeRecord × α)) :
    ProofExchangeRepository × Except ProofError α :=
  match found with
  | none => (s, .error (.notFound what))
  | some record =>
    match f record with
    | .error e => (s, .error e)
    | .ok (none, a) => (s, .ok a)
    | .ok (some record', a) =>
      match s.update record' with
      | (s', .ok ()) => (s', .ok a)
      | (s', .error e) => (s', .error e)

/-- Every record stands under its own id. -/
def Keyed (s : ProofExchangeRepository) : Prop := s.records.Keyed ProofExchangeRecord.id

variable {order} {s : ProofExchangeRepository}

theorem lookup_of_findByRoleAndThreadId {role : ProofExchangeRole} {threadId : String}
    {r : ProofExchangeRecord} (hkeyed : s.Keyed)
    (h : s.findByRoleAndThreadId order role threadId = some r) :
    s.records.lookup r.id = some r ∧ r.role = role ∧ r.threadId = threadId := by
  obtain ⟨id, hid⟩ := FMap.mem_values.1 (List.mem_of_find?_eq_some h)
  have hfound := List.find?_some h
  rw [Bool.and_eq_true, decide_eq_true_eq, decide_eq_true_eq] at hfound
  rw [hkeyed id r hid]
  exact ⟨hid, hfound⟩

theorem findByRoleAndThreadId_eq_none {role : ProofExchangeRole} {threadId : String} :
    s.findByRoleAndThreadId order role threadId = none ↔
      ∀ id r, s.records.lookup id = some r → r.role = role → r.threadId ≠ threadId := by
  rw [findByRoleAndThreadId, List.find?_eq_none]
  constructor
  · intro h id r hr hrole hthread
    refine h r (FMap.mem_values.2 ⟨id, hr⟩) ?_
    rw [decide_eq_true hrole, decide_eq_true hthread]
    rfl
  · intro h r hr hboth
    obtain ⟨id, hid⟩ := FMap.mem_values.1 hr
    rw [Bool.and_eq_true, decide_eq_true_eq, decide_eq_true_eq] at hboth
    exact h id r hid hboth.1 hboth.2

theorem lookup_of_findById {id : String} {r : ProofExchangeRecord} (hkeyed : s.Keyed)
    (h : s.findById id = some r) : s.records.lookup r.id = some r := by
  rw [hkeyed id r h]
  exact h

end ProofExchangeRepository
end Idiom.Proofs
