import Idiom.Ecash.Transfer
import Idiom.Kanon.Zk
import Idiom.Lib.Guarded

/-!
# The revocation registry of `registry_kanon`

Each credential has a status on chain. The definition of a revocation registry, the newest status
list and the credential of each index are records of the agent's own storage (`state.rs`).
-/

namespace Idiom.Kanon

open Ajna (Json)

/-! ## Identifiers -/

section

variable (host : Host)

def makeRevRegId (credDefId tag : String) : String := credDefId ++ "/revoc/" ++ tag

def resourceIdToBytes32 (resourceId : String) : Bytes32 := host.keccak256 (asBytes resourceId)

def credIdHash (credId : String) : Bytes32 := host.keccak256 (asBytes credId)

def indexKey (revRegId : String) (credRevId : UInt32) : String :=
  revRegId ++ ":" ++ toString credRevId.toNat

end

/-! ## State -/

/-- Per-credential status. -/
inductive CredStatus where
  | unknown
  | issued
  | revoked
  deriving DecidableEq

/-- Synthesized rev-reg metadata. -/
structure RevRegMeta where
  revRegId : String
  credDefId : String
  policyMask : UInt8
  maxCredNum : UInt32
  revRegDefJson : Option Json
  /-- Latest snapshot. -/
  revListJson : Option Json

/-- The records of the two categories, and the statuses on chain. -/
structure Registry where
  metas : FMap String RevRegMeta
  index : FMap String String
  status : Bytes32 → Bytes32 → CredStatus

namespace Registry

def fresh : Registry := ⟨∅, ∅, fun _ _ => .unknown⟩

def setStatus (s : Registry) (credDefId credIdHash : Bytes32) (status : CredStatus) : Registry :=
  { s with
    status := Function.update s.status credDefId
      (Function.update (s.status credDefId) credIdHash status) }

def putMeta (s : Registry) (info : RevRegMeta) : Registry :=
  { s with metas := s.metas.insert info.revRegId info }

def putIndex (s : Registry) (key kanonCredId : String) : Registry :=
  { s with index := s.index.insert key kanonCredId }

end Registry

inductive RegistryAccess where
  | issueCredential (credDefId credIdHash : Bytes32)
  | revokeCredential (credDefId credIdHash : Bytes32)
  | findMeta (revRegId : String)
  | findIndex (key : String)
  | updateMeta (info : RevRegMeta)
  | saveMeta (info : RevRegMeta)
  | updateIndex (key kanonCredId : String)
  | saveIndex (key kanonCredId : String)

/-- The contract issues a credential it does not know, and revokes one that is issued; `update`
only replaces a record. -/
def RegistryAccess.effect : RegistryAccess → Answer → Registry → Registry
  | .issueCredential cd cid, e, s =>
    if e.applies ∧ s.status cd cid = .unknown then s.setStatus cd cid .issued else s
  | .revokeCredential cd cid, e, s =>
    if e.applies ∧ s.status cd cid = .issued then s.setStatus cd cid .revoked else s
  | .findMeta _, _, s => s
  | .findIndex _, _, s => s
  | .updateMeta info, e, s =>
    if e.applies ∧ info.revRegId ∈ s.metas then s.putMeta info else s
  | .saveMeta info, e, s => if e.applies then s.putMeta info else s
  | .updateIndex key kanonCredId, e, s =>
    if e.applies ∧ key ∈ s.index then s.putIndex key kanonCredId else s
  | .saveIndex key kanonCredId, e, s => if e.applies then s.putIndex key kanonCredId else s

abbrev RegistryProg := Prog Registry Answer RegistryAccess Stop

/-! ## Chain and storage -/

/-- A call of the chain: the value is the transaction, or the reason why the contract refuses. -/
def chainCall (label : RegistryAccess) (accepts : Registry → Bool) : RegistryProg String :=
  .access label label.effect fun e s =>
    match e with
    | .crashed _ => .fail .crashed
    | .failed message | .lost message => .fail (.error (.chain message))
    | .done value => if accepts s then .done value else .fail (.error (.chain value))

def issueCredential (cd cid : Bytes32) : RegistryProg String :=
  chainCall (.issueCredential cd cid) fun s => s.status cd cid = .unknown

def revokeCredential (cd cid : Bytes32) : RegistryProg String :=
  chainCall (.revokeCredential cd cid) fun s => s.status cd cid = .issued

/-- An error is ignored, a crash is not. -/
def ignoreError : RegistryProg String → RegistryProg Unit
  | .done _ => .done ()
  | .fail .crashed => .fail .crashed
  | .fail (.error _) => .done ()
  | .access label effect next => .access label effect fun e s => ignoreError (next e s)

/-- `StorageProvider::find` in one of the categories. -/
def findRecord {α : Type} (label : RegistryAccess) (what : String) (lookup : Registry → Option α) :
    RegistryProg (Option α) :=
  .access label label.effect fun e s =>
    match e with
    | .crashed _ => .fail .crashed
    | .failed message | .lost message =>
      .fail (.error (.storage ("find " ++ what ++ ": " ++ message)))
    | .done _ => .done (lookup s)

def saveRegistryRecord (label : RegistryAccess) (category : String) : RegistryProg Unit :=
  .access label label.effect fun e _ =>
    match e with
    | .crashed _ => .fail .crashed
    | .failed message | .lost message =>
      .fail (.error (.storage ("save " ++ category ++ ": " ++ message)))
    | .done _ => .done ()

def upsertRecord (update save : RegistryAccess) (category : String) (found : Registry → Bool) :
    RegistryProg Unit :=
  .access update update.effect fun e s =>
    match e with
    | .crashed _ => .fail .crashed
    | .failed _ | .lost _ => saveRegistryRecord save category
    | .done _ => if found s then .done () else saveRegistryRecord save category

def catRevregMeta : String := "kanon_revreg_meta"

def catRevregIndex : String := "kanon_revreg_index"

def saveRevregMeta (info : RevRegMeta) : RegistryProg Unit :=
  upsertRecord (.updateMeta info) (.saveMeta info) catRevregMeta fun s => info.revRegId ∈ s.metas

def loadRevregMeta (revRegId : String) : RegistryProg (Option RevRegMeta) :=
  findRecord (.findMeta revRegId) "revreg meta" fun s => s.metas.lookup revRegId

def putCredIndex (revRegId : String) (credRevId : UInt32) (kanonCredId : String) :
    RegistryProg Unit :=
  let name := indexKey revRegId credRevId
  upsertRecord (.updateIndex name kanonCredId) (.saveIndex name kanonCredId) catRevregIndex
    fun s => name ∈ s.index

def getCredIndex (revRegId : String) (credRevId : UInt32) : RegistryProg (Option String) :=
  let name := indexKey revRegId credRevId
  findRecord (.findIndex name) "cred index" fun s => s.index.lookup name

/-! ## Calls -/

def revokedIndicesValue (v : Json) : List UInt32 :=
  match ((v.get "revocationList").orElse fun _ => v.get "revocation_list").bind Json.asArray with
  | some bits =>
    bits.zipIdx.filterMap fun b => if b.1.asU64 = some 1 then some (UInt32.ofNat b.2) else none
  | none => []

section

variable (host : Host)

def onCredentialIssued (credDefId kanonCredId : String) (revRegId : Option String)
    (credRevId : Option UInt32) : RegistryProg String := do
  let cd := resourceIdToBytes32 host credDefId
  let tx ← issueCredential cd (credIdHash host kanonCredId)
  match revRegId, credRevId with
  | some rr, some idx => do
    putCredIndex rr idx kanonCredId
    .done tx
  | _, _ => .done tx

/-- A registry definition, as JSON. -/
def registerRevocationRegistryDef (defaultPolicyMask : UInt8) (v : Json) : RegistryProg String :=
  match ((v.get "credDefId").orElse fun _ => v.get "cred_def_id").bind Json.asStr with
  | none => .fail (.error (.invalid "rev_reg_def.credDefId missing"))
  | some credDefId => do
    let tag := ((v.get "tag").bind Json.asStr).getD "default"
    let revRegId := makeRevRegId credDefId tag
    let maxCredNum := ((v.get "value").bind fun value =>
      (value.get "maxCredNum").bind Json.asU64).getD 0
    saveRevregMeta ⟨revRegId, credDefId, defaultPolicyMask, maxCredNum.toUInt32, some v, none⟩
    .done revRegId

def revokeIndex (revRegDefId : String) (cd : Bytes32) (idx : UInt32) : RegistryProg Unit := do
  match ← getCredIndex revRegDefId idx with
  | none =>
    .fail (.error (.invalid ("no cred-index for " ++ revRegDefId ++ ":" ++ toString idx.toNat ++
      "; issuance hook not called")))
  | some kanonCredId => do
    -- ensure issued, then revoke
    let cidHash := credIdHash host kanonCredId
    ignoreError (issueCredential cd cidHash)
    let _ ← revokeCredential cd cidHash
    .done ()

/-- Revoke the credentials of the indices that were not revoked before. -/
def revokeNew (revRegDefId : String) (cd : Bytes32) (prevList : List UInt32) :
    List UInt32 → RegistryProg Unit
  | [] => .done ()
  | idx :: newList =>
    if idx ∈ prevList then revokeNew revRegDefId cd prevList newList
    else do
      revokeIndex host revRegDefId cd idx
      revokeNew revRegDefId cd prevList newList

/-- The indices of a snapshot. -/
def prevIndices (info : RevRegMeta) : List UInt32 :=
  match info.revListJson with
  | some j => revokedIndicesValue j
  | none => []

def registerRevocationStatusList (revRegDefId : String) (statusList : Json) :
    RegistryProg Unit := do
  match ← loadRevregMeta revRegDefId with
  | none => .fail (.error (.notFound ("rev_reg " ++ revRegDefId)))
  | some info => do
    let newList := revokedIndicesValue statusList
    let prevList := prevIndices info
    let credDefB32 := resourceIdToBytes32 host info.credDefId
    revokeNew host revRegDefId credDefB32 prevList newList
    saveRevregMeta { info with revListJson := some statusList }

def getRevocationStatusList (revRegDefId : String) : RegistryProg Json := do
  match ← loadRevregMeta revRegDefId with
  | none => .fail (.error (.notFound ("rev_reg " ++ revRegDefId)))
  | some info =>
    match info.revListJson with
    | none => .fail (.error (.notFound ("status list " ++ revRegDefId)))
    | some json => .done json

end

inductive RegistryOp where
  | onCredentialIssued (credDefId kanonCredId : String) (revRegId : Option String)
      (credRevId : Option UInt32)
  | registerRevocationRegistryDef (revRegDef : Json)
  | registerRevocationStatusList (revRegDefId : String) (statusList : Json)

inductive RegistryReply where
  | tx (tx : String)
  | registered (revRegId : String)
  | listed

def call (host : Host) (defaultPolicyMask : UInt8) : RegistryOp → RegistryProg RegistryReply
  | .onCredentialIssued credDefId kanonCredId revRegId credRevId =>
    .tx <$> onCredentialIssued host credDefId kanonCredId revRegId credRevId
  | .registerRevocationRegistryDef revRegDef =>
    .registered <$> registerRevocationRegistryDef defaultPolicyMask revRegDef
  | .registerRevocationStatusList revRegDefId statusList =>
    (fun _ => .listed) <$> registerRevocationStatusList host revRegDefId statusList

end Idiom.Kanon
