import Idiom.Lib.AddOnlyIndex
import Mathlib.Data.List.TakeWhile

/-!
# Connection repositories: `connections/src/repository`

A connection record is kept under its id. The in-memory repository finds the records of a peer
by scanning; the storage-backed one keeps three secondary indexes beside its cache.

* `ConnectionRepository` — the in-memory repository, `connection_repository.rs`.
* `StorageBackedConnectionRepository` — `storage_backed_repository.rs`: a storage that performs
  every call, the cache that is loaded from it on first access, and the indexes.

`Value` is the type of the JSON values of the metadata, and `reread` what a metadata value comes
back as when the record is written to JSON and read again.
-/

namespace Idiom.Connections

/-! ## Records -/

inductive DidExchangeRole where
  | requester
  | responder
  deriving DecidableEq, Repr

inductive DidExchangeState where
  | start
  | invitationSent
  | invitationReceived
  | requestSent
  | requestReceived
  | responseSent
  | responseReceived
  | completed
  | abandoned
  deriving DecidableEq, Repr

/-- `format!("{:?}", role)`. -/
def DidExchangeRole.debug : DidExchangeRole → String
  | .requester => "Requester"
  | .responder => "Responder"

/-- `format!("{:?}", state)`. -/
def DidExchangeState.debug : DidExchangeState → String
  | .start => "Start"
  | .invitationSent => "InvitationSent"
  | .invitationReceived => "InvitationReceived"
  | .requestSent => "RequestSent"
  | .requestReceived => "RequestReceived"
  | .responseSent => "ResponseSent"
  | .responseReceived => "ResponseReceived"
  | .completed => "Completed"
  | .abandoned => "Abandoned"

/-- Tags for querying, which are not serialized to storage. -/
structure ConnectionTags where
  role : DidExchangeRole
  state : DidExchangeState
  threadId : String
  outOfBandId : String
  did : String
  theirDid : Option String
  deriving DecidableEq

/-- `ConnectionTags::default`. -/
def ConnectionTags.default : ConnectionTags where
  role := .requester
  state := .start
  threadId := ""
  outOfBandId := ""
  did := ""
  theirDid := none

structure ConnectionRecord (Value : Type) where
  id : String
  state : DidExchangeState
  role : DidExchangeRole
  threadId : String
  outOfBandId : String
  did : String
  theirDid : Option String
  theirAuthenticationKeyBase58 : Option String
  theirKeyAgreementKeyBase58 : Option String
  ourLabel : Option String
  theirLabel : Option String
  previousDids : List String
  previousTheirDids : List String
  autoAcceptConnection : Option Bool
  imageUrl : Option String
  errorMessage : Option String
  metadata : Option Value
  didcommVersion : Option String
  protocol : String
  createdAt : ℕ
  updatedAt : ℕ
  tags : ConnectionTags
  deriving DecidableEq

namespace ConnectionRecord

variable {Value : Type}

/-- `ConnectionRecord::new`, for an id that was drawn and the time it was called at. -/
def new (id : String) (now : ℕ) (role : DidExchangeRole) (state : DidExchangeState)
    (threadId outOfBandId did : String) : ConnectionRecord Value where
  id := id
  state := state
  role := role
  threadId := threadId
  outOfBandId := outOfBandId
  did := did
  theirDid := none
  theirAuthenticationKeyBase58 := none
  theirKeyAgreementKeyBase58 := none
  ourLabel := none
  theirLabel := none
  previousDids := []
  previousTheirDids := []
  autoAcceptConnection := none
  imageUrl := none
  errorMessage := none
  metadata := none
  didcommVersion := none
  protocol := "connections/1.0"
  createdAt := now
  updatedAt := now
  tags :=
    { role := role
      state := state
      threadId := threadId
      outOfBandId := outOfBandId
      did := did
      theirDid := none }

def setTheirDid (record : ConnectionRecord Value) (now : ℕ) (theirDid : String) :
    ConnectionRecord Value :=
  { record with
    theirDid := some theirDid
    tags := { record.tags with theirDid := some theirDid }
    updatedAt := now }

def fieldTags (record : ConnectionRecord Value) : ConnectionTags where
  role := record.role
  state := record.state
  threadId := record.threadId
  outOfBandId := record.outOfBandId
  did := record.did
  theirDid := record.theirDid

/-- `serde_json::from_slice(&serde_json::to_vec(record))`: the tags are skipped. -/
def decoded (reread : Value → Option Value) (record : ConnectionRecord Value) :
    ConnectionRecord Value :=
  { record with
    metadata := record.metadata.bind reread
    tags := .default }

/-- `their_did.split('#').next()`. -/
def stripFragment (did : String) : String :=
  String.ofList (did.toList.takeWhile (· ≠ '#'))

/-- `id.starts_with("validator-")`. -/
def isValidator (id : String) : Bool := "validator-".toList.isPrefixOf id.toList

/-- The tags of a record that was read, and the two migrations. -/
def migrated (record : ConnectionRecord Value) : ConnectionRecord Value :=
  let record := { record with tags := record.fieldTags }
  let record :=
    match record.theirDid with
    | none => record
    | some theirDid =>
      { record with
        theirDid := some (stripFragment theirDid)
        tags := { record.tags with theirDid := some (stripFragment theirDid) } }
  if isValidator record.id ∧ record.state ≠ .completed then
    { record with
      state := .completed
      tags := { record.tags with state := .completed } }
  else record

/-- A record as it stands in the cache after a restart. -/
def reloaded (reread : Value → Option Value) (record : ConnectionRecord Value) :
    ConnectionRecord Value :=
  (record.decoded reread).migrated

/-- The records no migration is about, and whose tag follows the peer's DID. -/
structure Current (record : ConnectionRecord Value) : Prop where
  id : isValidator record.id = false
  theirDid : ∀ did, record.theirDid = some did → '#' ∉ did.toList
  tag : record.tags.theirDid = record.theirDid

theorem stripFragment_of_notMem {did : String} (h : '#' ∉ did.toList) :
    stripFragment did = did := by
  have hall : did.toList.takeWhile (· ≠ '#') = did.toList := by
    rw [List.takeWhile_eq_self_iff]
    intro c hc
    simp only [decide_not, Bool.not_eq_eq_eq_not, Bool.not_true, decide_eq_false_iff_not]
    rintro rfl
    exact h hc
  rw [stripFragment, hall, String.ofList_toList]

/-- A record no migration is about keeps its fields, and its tags are those of the fields. -/
theorem Current.reloaded {record : ConnectionRecord Value} (h : record.Current)
    (reread : Value → Option Value) :
    record.reloaded reread =
      { record with
        metadata := record.metadata.bind reread
        tags := record.fieldTags } := by
  unfold ConnectionRecord.reloaded migrated
  cases hdid : record.theirDid with
  | none => simp [decoded, hdid, h.id, fieldTags]
  | some did => simp [decoded, hdid, h.id, fieldTags, stripFragment_of_notMem (h.theirDid did hdid)]

end ConnectionRecord

/-- A record no migration is about. -/
abbrev CurrentRecord (Value : Type) := { record : ConnectionRecord Value // record.Current }

variable {Value : Type}

inductive ConnectionError where
  | notFound (id : String)
  | alreadyExists (id : String)
  deriving DecidableEq

/-! ## The in-memory repository -/

structure ConnectionRepository (Value : Type) where
  records : FMap String (ConnectionRecord Value)

namespace ConnectionRepository

def new : ConnectionRepository Value := ⟨∅⟩

def save (repo : ConnectionRepository Value) (record : ConnectionRecord Value) :
    ConnectionRepository Value × Except ConnectionError Unit :=
  if record.id ∈ repo.records then (repo, .error (.alreadyExists record.id))
  else (⟨repo.records.insert record.id record⟩, .ok ())

def update (repo : ConnectionRepository Value) (record : ConnectionRecord Value) :
    ConnectionRepository Value × Except ConnectionError Unit :=
  if record.id ∈ repo.records then (⟨repo.records.insert record.id record⟩, .ok ())
  else (repo, .error (.notFound record.id))

def delete (repo : ConnectionRepository Value) (id : String) :
    ConnectionRepository Value × Except ConnectionError Unit :=
  if id ∈ repo.records then (⟨repo.records.erase id⟩, .ok ())
  else (repo, .error (.notFound id))

def findById (repo : ConnectionRepository Value) (id : String) : Option (ConnectionRecord Value) :=
  repo.records.lookup id

def findByTheirDid (order : IterOrder String) (repo : ConnectionRepository Value)
    (theirDid : String) : List (ConnectionRecord Value) :=
  (repo.records.values order).filter fun r => r.tags.theirDid = some theirDid

/-- The default of the trait: a linear scan. -/
def findByAuthKey (order : IterOrder String) (repo : ConnectionRepository Value) (key : String) :
    Option (ConnectionRecord Value) :=
  (repo.records.values order).find? fun r => r.theirAuthenticationKeyBase58 = some key

def findByKaKey (order : IterOrder String) (repo : ConnectionRepository Value) (key : String) :
    Option (ConnectionRecord Value) :=
  (repo.records.values order).find? fun r => r.theirKeyAgreementKeyBase58 = some key

end ConnectionRepository

/-! ## The storage -/

/-- A record of the storage, in the category of connections. `value` stands for the JSON of the
connection it was written from. -/
structure StorageRecord (Value : Type) where
  name : String
  value : ConnectionRecord Value
  tags : FMap String String

/-- A tag that is written if there is a value. -/
def setTag (tags : FMap String String) (name : String) : Option String → FMap String String
  | none => tags
  | some value => tags.insert name value

theorem lookup_setTag_of_ne (tags : FMap String String) {name name' : String} (h : name' ≠ name)
    (value : Option String) : (setTag tags name value).lookup name' = tags.lookup name' := by
  cases value with
  | none => rfl
  | some value => exact Finmap.lookup_insert_of_ne _ h

theorem lookup_setTag_self (tags : FMap String String) (name : String) (value : Option String)
    (h : tags.lookup name = none) : (setTag tags name value).lookup name = value := by
  cases value with
  | none => exact h
  | some value => exact Finmap.lookup_insert _

/-- `to_storage_record`. -/
def toStorageRecord (conn : ConnectionRecord Value) : StorageRecord Value where
  name := conn.id
  value := conn
  tags :=
    let tags : FMap String String := ∅
    let tags := tags.insert "thread_id" conn.threadId
    let tags := tags.insert "state" conn.state.debug
    let tags := tags.insert "role" conn.role.debug
    let tags := tags.insert "did" conn.did
    let tags := tags.insert "out_of_band_id" conn.outOfBandId
    let tags := setTag tags "their_did" conn.theirDid
    let tags := setTag tags "their_auth_key" conn.theirAuthenticationKeyBase58
    setTag tags "their_ka_key" conn.theirKeyAgreementKeyBase58

theorem lookup_authTag (conn : ConnectionRecord Value) :
    (toStorageRecord conn).tags.lookup "their_auth_key" = conn.theirAuthenticationKeyBase58 := by
  rw [toStorageRecord, lookup_setTag_of_ne _ (by decide), lookup_setTag_self]
  rw [lookup_setTag_of_ne _ (by decide)]
  simp [Finmap.lookup_insert_of_ne]

theorem lookup_kaTag (conn : ConnectionRecord Value) :
    (toStorageRecord conn).tags.lookup "their_ka_key" = conn.theirKeyAgreementKeyBase58 := by
  rw [toStorageRecord, lookup_setTag_self]
  rw [lookup_setTag_of_ne _ (by decide), lookup_setTag_of_ne _ (by decide)]
  simp [Finmap.lookup_insert_of_ne]

/-- The records of the category, by name. -/
abbrev Storage (Value : Type) := FMap String (StorageRecord Value)

/-- `StorageProvider::find_all`: the records that have every tag of the query. -/
def Storage.findAll (found : IterOrder String) (storage : Storage Value)
    (query : List (String × String)) : List (StorageRecord Value) :=
  (storage.values found).filter fun r => query.all fun tag => r.tags.lookup tag.1 = some tag.2

/-! ## The storage-backed repository -/

/-- The secondary indexes, from a key or a DID to the id of a connection. -/
structure Indexes where
  authKey : AddOnlyIndex String String
  kaKey : AddOnlyIndex String String
  theirDid : AddOnlyIndex String String

namespace Indexes

def empty : Indexes := ⟨∅, ∅, ∅⟩

/-- `index_record`. -/
def indexRecord (indexes : Indexes) (record : ConnectionRecord Value) : Indexes where
  authKey := indexes.authKey.add record.theirAuthenticationKeyBase58 record.id
  kaKey := indexes.kaKey.add record.theirKeyAgreementKeyBase58 record.id
  theirDid := indexes.theirDid.add record.theirDid record.id

end Indexes

structure StorageBackedConnectionRepository (Value : Type) where
  storage : Storage Value
  cache : Option (FMap String (ConnectionRecord Value))
  indexes : Indexes
  /-- The order in which the hash maps of this process enumerate connection ids. -/
  order : IterOrder String

namespace StorageBackedConnectionRepository

def new (storage : Storage Value) (order : IterOrder String) :
    StorageBackedConnectionRepository Value where
  storage := storage
  cache := none
  indexes := .empty
  order := order

/-- The process stops and another one opens the same storage. -/
def restart (repo : StorageBackedConnectionRepository Value) (order : IterOrder String) :
    StorageBackedConnectionRepository Value :=
  new repo.storage order

variable (reread : Value → Option Value) (found : IterOrder String)

/-- The connections of the storage, with their tags rebuilt and the migrations made. -/
def load (storage : Storage Value) : FMap String (ConnectionRecord Value) :=
  FMap.insertAll ConnectionRecord.id ∅
    ((storage.findAll found []).map fun r => (r.value.decoded reread).migrated)

/-- `ensure_cache`. -/
def ensureCache (repo : StorageBackedConnectionRepository Value) :
    StorageBackedConnectionRepository Value :=
  match repo.cache with
  | some _ => repo
  | none =>
    let map := load reread found repo.storage
    { repo with
      cache := some map
      indexes := (map.values repo.order).foldl Indexes.indexRecord .empty }

/-- `cache.as_ref().unwrap()`. -/
def cached (repo : StorageBackedConnectionRepository Value) :
    FMap String (ConnectionRecord Value) := repo.cache.getD ∅

/-- What `save` and `update` do once the check has passed. -/
def put (repo : StorageBackedConnectionRepository Value) (record : ConnectionRecord Value) :
    StorageBackedConnectionRepository Value :=
  { repo with
    storage := repo.storage.insert record.id (toStorageRecord record)
    cache := some (repo.cached.insert record.id record)
    indexes := repo.indexes.indexRecord record }

def save (repo : StorageBackedConnectionRepository Value) (record : ConnectionRecord Value) :
    StorageBackedConnectionRepository Value × Except ConnectionError Unit :=
  let repo := repo.ensureCache reread found
  if record.id ∈ repo.cached then (repo, .error (.alreadyExists record.id))
  else (repo.put record, .ok ())

def update (repo : StorageBackedConnectionRepository Value) (record : ConnectionRecord Value) :
    StorageBackedConnectionRepository Value × Except ConnectionError Unit :=
  let repo := repo.ensureCache reread found
  if record.id ∈ repo.cached then (repo.put record, .ok ())
  else (repo, .error (.notFound record.id))

/-- The record goes from the storage and the cache; the indexes stay. -/
def delete (repo : StorageBackedConnectionRepository Value) (id : String) :
    StorageBackedConnectionRepository Value × Except ConnectionError Unit :=
  let repo := repo.ensureCache reread found
  if id ∈ repo.cached then
    ({ repo with
        storage := repo.storage.erase id
        cache := some (repo.cached.erase id) }, .ok ())
  else (repo, .error (.notFound id))

def findById (repo : StorageBackedConnectionRepository Value) (id : String) :
    StorageBackedConnectionRepository Value × Option (ConnectionRecord Value) :=
  let repo := repo.ensureCache reread found
  (repo, repo.cached.lookup id)

def findByTheirDid (repo : StorageBackedConnectionRepository Value) (theirDid : String) :
    StorageBackedConnectionRepository Value × List (ConnectionRecord Value) :=
  let repo := repo.ensureCache reread found
  match repo.indexes.theirDid.lookup theirDid with
  | none => (repo, [])
  | some connId =>
    match repo.cached.lookup connId with
    | some record => (repo, [record])
    | none => (repo, [])

def findByKey (index : Indexes → AddOnlyIndex String String) (tag : String)
    (repo : StorageBackedConnectionRepository Value) (key : String) :
    StorageBackedConnectionRepository Value × Option (ConnectionRecord Value) :=
  let repo := repo.ensureCache reread found
  match (index repo.indexes).lookup key with
  | some id => (repo, repo.cached.lookup id)
  | none =>
    -- handles keys added by another instance
    match (repo.storage.findAll found [(tag, key)]).head? with
    | none => (repo, none)
    | some record =>
      let conn := record.value.decoded reread
      ({ repo with indexes := repo.indexes.indexRecord conn }, some conn)

def findByAuthKey (repo : StorageBackedConnectionRepository Value) (key : String) :
    StorageBackedConnectionRepository Value × Option (ConnectionRecord Value) :=
  findByKey reread found Indexes.authKey "their_auth_key" repo key

def findByKaKey (repo : StorageBackedConnectionRepository Value) (key : String) :
    StorageBackedConnectionRepository Value × Option (ConnectionRecord Value) :=
  findByKey reread found Indexes.kaKey "their_ka_key" repo key

end StorageBackedConnectionRepository
end Idiom.Connections
