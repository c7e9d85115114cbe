import Idiom.Lib.AddOnlyIndex

/-!
# Credential exchanges: `credentials/src/domain`, `credentials/src/repository`

One record for each exchange of the issue-credential protocol, kept by either side.

* `CredentialExchangeState.validNextStates` — the state table.
* `Exchange` — what an agent keeps: the records, the attributes registered for auto-issuing, and
  the credentials in the holder's store.
-/

namespace Idiom.Credentials

/-! ## States -/

inductive CredentialExchangeState where
  | proposalSent
  | proposalReceived
  | offerSent
  | offerReceived
  | declined
  | requestSent
  | requestReceived
  | credentialIssued
  | credentialReceived
  | done
  | abandoned
  deriving DecidableEq, Repr

namespace CredentialExchangeState

def isTerminal : CredentialExchangeState → Bool
  | .done | .abandoned | .declined => true
  | _ => false

def validNextStates : CredentialExchangeState → List CredentialExchangeState
  -- holder: after proposing, the issuer either offers or abandons
  | .proposalSent => [.offerReceived, .declined, .abandoned]
  -- issuer: after receiving a proposal, send an offer or abandon
  | .proposalReceived => [.offerSent, .declined, .abandoned]
  | .offerSent => [.requestReceived, .declined, .abandoned]
  | .offerReceived => [.requestSent, .declined, .abandoned]
  | .requestSent => [.credentialReceived, .abandoned]
  | .requestReceived => [.credentialIssued, .abandoned]
  | .credentialIssued => [.done, .abandoned]
  | .credentialReceived => [.done, .abandoned]
  | .done => []
  | .abandoned => []
  | .declined => []

def canTransitionTo (state next : CredentialExchangeState) : Bool :=
  next ∈ state.validNextStates

end CredentialExchangeState

inductive CredentialExchangeRole where
  | issuer
  | holder
  deriving DecidableEq, Repr

/-- The errors of the operations; those of the credential libraries carry their text. -/
inductive CredentialError where
  | notFound (what : String)
  | alreadyExists (id : String)
  | invalidRole (expected actual : CredentialExchangeRole)
  | invalidState (expected : List CredentialExchangeState) (actual : CredentialExchangeState)
  | missingAttachment
  | invalidAttachmentFormat (text : String)
  | anonCreds (text : String)
  | unsupportedFormat (format : String)
  | formatService (text : String)
  | serialization (text : String)
  | protocol (text : String)
  deriving DecidableEq

/-! ## Records -/

/-- Attribute names and values. -/
abbrev Attributes := FMap String String

structure CredentialExchangeRecord where
  id : String
  threadId : String
  connectionId : Option String
  role : CredentialExchangeRole
  state : CredentialExchangeState
  schemaId : Option String
  credDefId : Option String
  credentialFormat : Option String
  credentialProposalJson : Option String
  credentialOfferJson : Option String
  credentialRequestJson : Option String
  credentialJson : Option String
  credentialId : Option String
  errorMessage : Option String
  autoIssueAttributes : Option Attributes
  createdAt : ℕ
  updatedAt : ℕ
  deriving DecidableEq

namespace CredentialExchangeRecord

/-- `CredentialExchangeRecord::new`, for an id that was drawn and the time it was called at. -/
def new (id : String) (now : ℕ) (role : CredentialExchangeRole) (state : CredentialExchangeState)
    (threadId : String) : CredentialExchangeRecord where
  id := id
  threadId := threadId
  connectionId := none
  role := role
  state := state
  schemaId := none
  credDefId := none
  credentialFormat := none
  credentialProposalJson := none
  credentialOfferJson := none
  credentialRequestJson := none
  credentialJson := none
  credentialId := none
  errorMessage := none
  autoIssueAttributes := none
  createdAt := now
  updatedAt := now

def updateState (record : CredentialExchangeRecord) (now : ℕ) (state : CredentialExchangeState) :
    CredentialExchangeRecord :=
  { record with state := state, updatedAt := now }

/-- `if let Some(conn_id) = connection_id { record.set_connection_id(conn_id) }`. -/
def setConnectionId (record : CredentialExchangeRecord) (now : ℕ) :
    Option String → CredentialExchangeRecord
  | none => record
  | some connectionId => { record with connectionId := some connectionId, updatedAt := now }

def setError (record : CredentialExchangeRecord) (now : ℕ) (error : String) :
    CredentialExchangeRecord :=
  { record with errorMessage := some error, state := .abandoned, updatedAt := now }

@[simp] theorem updateState_id (record : CredentialExchangeRecord) (now : ℕ)
    (state : CredentialExchangeState) : (record.updateState now state).id = record.id := rfl

@[simp] theorem setConnectionId_id (record : CredentialExchangeRecord) (now : ℕ)
    (connectionId : Option String) : (record.setConnectionId now connectionId).id = record.id := by
  cases connectionId <;> rfl

@[simp] theorem setConnectionId_state (record : CredentialExchangeRecord) (now : ℕ)
    (connectionId : Option String) :
    (record.setConnectionId now connectionId).state = record.state := by
  cases connectionId <;> rfl

end CredentialExchangeRecord

/-! ## What an agent keeps -/

structure Exchange where
  /-- `CredentialExchangeRepository`. -/
  records : FMap String CredentialExchangeRecord
  /-- The attributes `RequestCredentialHandler` was given, by exchange id. -/
  autoIssue : FMap String Attributes
  /-- The store of the AnonCreds holder, by credential id. -/
  credentials : FMap String String

namespace Exchange

variable (order : IterOrder String)

def findById (s : Exchange) (id : String) : Option CredentialExchangeRecord := s.records.lookup id

/-- Any record of the thread: the first in the order of the hash map. -/
def findByThreadId (s : Exchange) (threadId : String) : Option CredentialExchangeRecord :=
  (s.records.values order).find? fun r => r.threadId = threadId

def save (s : Exchange) (record : CredentialExchangeRecord) :
    Exchange × Except CredentialError Unit :=
  if record.id ∈ s.records then (s, .error (.alreadyExists record.id))
  else ({ s with records := s.records.insert record.id record }, .ok ())

def update (s : Exchange) (record : CredentialExchangeRecord) :
    Exchange × Except CredentialError Unit :=
  if record.id ∈ s.records then ({ s with records := s.records.insert record.id record }, .ok ())
  else (s, .error (.notFound record.id))

/-- An operation on the record that was found: check it, change it, and write it back. -/
def edit {α : Type} (s : Exchange) (found : Option CredentialExchangeRecord) (what : String)
    (f : CredentialExchangeRecord → Except CredentialError (CredentialExchangeRecord × α)) :
    Exchange × Except CredentialError α :=
  match found with
  | none => (s, .error (.notFound what))
  | some record =>
    match f record with
    | .error e => (s, .error e)
    | .ok (record', a) =>
      match s.update record' with
      | (s', .ok ()) => (s', .ok a)
      | (s', .error e) => (s', .error e)

/-- A new record is saved and returned. -/
def create {α : Type} (s : Exchange) (record : CredentialExchangeRecord) (a : α) :
    Exchange × Except CredentialError α :=
  match s.save record with
  | (s', .ok ()) => (s', .ok a)
  | (s', .error e) => (s', .error e)

/-- Every record stands under its own id. -/
def Keyed (s : Exchange) : Prop := s.records.Keyed CredentialExchangeRecord.id

variable {order}

variable {s : Exchange} {r : CredentialExchangeRecord} {threadId : String}

theorem mem_of_findByThreadId (h : s.findByThreadId order threadId = some r) :
    (∃ id, s.records.lookup id = some r) ∧ r.threadId = threadId := by
  have hmem := List.mem_of_find?_eq_some h
  have hthread := List.find?_some h
  exact ⟨FMap.mem_values.1 hmem, of_decide_eq_true hthread⟩

theorem findByThreadId_eq_none :
    s.findByThreadId order threadId = none ↔
      ∀ id r, s.records.lookup id = some r → r.threadId ≠ threadId := by
  rw [findByThreadId, List.find?_eq_none]
  constructor
  · intro h id r hr hthread
    exact h r (FMap.mem_values.2 ⟨id, hr⟩) (decide_eq_true hthread)
  · intro h r hr
    obtain ⟨id, hid⟩ := FMap.mem_values.1 hr
    rw [decide_eq_true_eq]
    exact h id r hid

theorem findByThreadId_eq_some {id : String} (hr : s.records.lookup id = some r)
    (hthread : r.threadId = threadId)
    (honly : ∀ id' r', s.records.lookup id' = some r' → r'.threadId = threadId → r' = r) :
    s.findByThreadId order threadId = some r := by
  cases hfound : s.findByThreadId order threadId with
  | none => exact absurd hthread (findByThreadId_eq_none.1 hfound id r hr)
  | some r' =>
    obtain ⟨⟨id', hr'⟩, hthread'⟩ := mem_of_findByThreadId hfound
    rw [honly id' r' hr' hthread']

theorem update_of_lookup {r' : CredentialExchangeRecord} (hr : s.records.lookup r.id = some r)
    (hid : r'.id = r.id) :
    s.update r' = ({ s with records := s.records.insert r.id r' }, .ok ()) := by
  have hmem : r'.id ∈ s.records := by
    rw [hid]
    exact Finmap.lookup_isSome.1 (by rw [hr]; rfl)
  rw [update, if_pos hmem, hid]

theorem save_of_notMem (hr : r.id ∉ s.records) :
    s.save r = ({ s with records := s.records.insert r.id r }, .ok ()) := if_neg hr

variable {α : Type}

theorem create_of_notMem {a : α} (hr : r.id ∉ s.records) :
    s.create r a = ({ s with records := s.records.insert r.id r }, .ok a) := by
  simp only [create, save_of_notMem hr]

variable {f : CredentialExchangeRecord → Except CredentialError (CredentialExchangeRecord × α)}

theorem edit_of_ok {r' : CredentialExchangeRecord} {what : String} {a : α}
    (hr : s.records.lookup r.id = some r) (hid : r'.id = r.id) (hok : f r = .ok (r', a)) :
    s.edit (some r) what f = ({ s with records := s.records.insert r.id r' }, .ok a) := by
  simp only [edit, hok, update_of_lookup hr hid]

theorem edit_of_error {what : String} {e : CredentialError} (herror : f r = .error e) :
    s.edit (some r) what f = (s, .error e) := by
  simp only [edit, herror]

end Exchange
end Idiom.Credentials
