import Idiom.Ajna.Authorization
import Idiom.Ajna.MerkleDag

/-!
# The DID method of `did/src/ajna/method.rs`

`AjnaMethod` keeps two stores: the registry (DID to document) and the history (DID
to Merkle-DAG). Every update reads a clone of the document, changes the clone,
writes it back to the registry, and only then appends a node to the history.

A call returns the state it leaves behind *and* its outcome: a call that fails or
panics half way has already written what it wrote.
-/

namespace Idiom.Ajna

open CRDTOperation

structure AjnaMethod where
  /-- DID to document. -/
  registry : FMap String AjnaDocument
  /-- DID to operation history. -/
  history : FMap String MerkleDAG
  /-- Node id of this instance. -/
  nodeId : String

/-- What one call draws from outside its arguments. -/
structure CallAmbient where
  /-- For the `i`-th operation the call applies. -/
  amb : ℕ → Ambient
  /-- The clock readings of `AjnaDocument::new`. -/
  created : DateTime
  updated : DateTime
  /-- The clock reading of `DagNode::new`. -/
  nodeTime : DateTime
  /-- The order in which the heads are iterated. -/
  headOrder : IterOrder Hash
  /-- The order in which authorization iterates the method set. -/
  authOrder : IterOrder VerificationMethod

/-- What an export draws from outside its arguments. -/
structure ExportAmbient where
  /-- The order in which the nodes of the history are iterated. -/
  historyOrder : IterOrder Hash
  /-- The order in which the clock is iterated. -/
  clockOrder : IterOrder String
  now : DateTime

/-- A state and an outcome. -/
abbrev Outcome (α : Type) := AjnaMethod × Result α

namespace AjnaMethod

variable (host : Host)

/-- An instance without any DID. -/
def new (nodeId : String) : AjnaMethod := ⟨∅, ∅, nodeId⟩

/-! ## The accesses to the two stores, one per lock acquisition -/

/-- `registry.insert`. -/
def insertDocument (m : AjnaMethod) (did : String) (document : AjnaDocument) : AjnaMethod :=
  { m with registry := m.registry.insert did document }

/-- `history.insert(did, MerkleDAG::new())`. -/
def initHistory (m : AjnaMethod) (did : String) : AjnaMethod :=
  { m with history := m.history.insert did MerkleDAG.new }

/-- `history.entry(did).or_insert_with(MerkleDAG::new)`, then build a node and add it.
The entry stays if the node is refused. -/
def pushHistory (m : AjnaMethod) (did : String) (mkNode : MerkleDAG → Result DagNode) :
    Outcome Unit :=
  let dag := (m.history.lookup did).getD MerkleDAG.new
  match mkNode dag with
  | .error fault => ({ m with history := m.history.insert did dag }, .error fault)
  | .ok node =>
    match dag.addNode host node with
    | .error e => ({ m with history := m.history.insert did dag }, .error (.err e))
    | .ok dag' => ({ m with history := m.history.insert did dag' }, .ok ())

def resolve (m : AjnaMethod) (did : String) : Result AjnaDocument :=
  match m.registry.lookup did with
  | some document => .ok document
  | none => .error (.err (.didNotFound did))

/-! ## Creating -/

/-- The part `create` and `create_with_genesis` share. -/
def createWith (m : AjnaMethod) (did : String) (document : AjnaDocument) : Outcome AjnaDocument :=
  if (m.registry.lookup did).isSome then
    (m, .error (.err (.invalidOperation ("DID already exists: " ++ did))))
  else ((m.insertDocument did document).initHistory did, .ok document)

def create (m : AjnaMethod) (did : String) (env : CallAmbient) : Outcome AjnaDocument :=
  m.createWith did (AjnaDocument.new did m.nodeId env.created env.updated)

def createWithGenesis (m : AjnaMethod) (did : String) (initialControllers : List String)
    (initialPolicy : List (String × Json)) (env : CallAmbient) : Outcome AjnaDocument :=
  m.createWith did (AjnaDocument.newWithGenesis did m.nodeId initialControllers initialPolicy
    env.created env.updated (fun i => (env.amb i).uuid) (fun i => (env.amb i).now))

/-! ## Updating -/

/-- The part all updates share once they hold a clone of the document: change the
clone, write it back, and append to the history if the update does so. -/
def modify (m : AjnaMethod) (did : String) (document : AjnaDocument)
    (transform : AjnaDocument → Result AjnaDocument)
    (record : Option (MerkleDAG → Result DagNode)) : Outcome AjnaDocument :=
  match transform document with
  | .error fault => (m, .error fault)
  | .ok document =>
    let m := m.insertDocument did document
    match record with
    | none => (m, .ok document)
    | some mkNode =>
      match m.pushHistory host did mkNode with
      | (m, .error fault) => (m, .error fault)
      | (m, .ok ()) => (m, .ok document)

/-- The node of a legacy update: its parents are the current heads. -/
def legacyNode (operations : List CRDTOperation) (nodeId : String) (env : CallAmbient)
    (dag : MerkleDAG) : Result DagNode :=
  .ok (DagNode.new host operations ((dag.getHeads env.headOrder).map DagNode.hash) nodeId
    env.nodeTime)

/-- What `deactivate` makes of the document. -/
def deactivateTransform (did : String) (reason : Option String) (env : CallAmbient)
    (document : AjnaDocument) : Result AjnaDocument :=
  if document.isDeactivated then
    .error (.err (.invalidOperation ("DID already deactivated: " ++ did)))
  else document.applyDeltaV2 (.deactivate reason) (env.amb 0)

/-- Deactivate a DID. Nothing is recorded in the history. -/
def deactivate (m : AjnaMethod) (did : String) (reason : Option String) (env : CallAmbient) :
    Outcome AjnaDocument :=
  match m.resolve did with
  | .error fault => (m, .error fault)
  | .ok document => m.modify host did document (deactivateTransform did reason env) none

/-- What `apply_operation_v2` makes of the document. -/
def v2Transform (operation : Operation) (env : CallAmbient) (document : AjnaDocument) :
    Result AjnaDocument :=
  let authResult := AuthorizationEngine.canApply env.authOrder operation document
  if !authResult.isAllowed then
    .error (.err (.invalidOperation
      ("Operation not authorized: " ++ authResult.debug host.debugStr)))
  else
    (document.applyDeltaV2 operation.delta (env.amb 0)).map fun document =>
      { document with vectorClock := document.vectorClock.increment operation.actor }

/-- Apply an operation of version 2. -/
def applyOperationV2 (m : AjnaMethod) (operation : Operation) (env : CallAmbient) :
    Outcome AjnaDocument :=
  match m.resolve operation.doc with
  | .error fault => (m, .error fault)
  | .ok document =>
    m.modify host operation.doc document (v2Transform host operation env)
      (some fun _ => DagNode.fromOperationV2 host operation m.nodeId)

def resolveOrCreate (m : AjnaMethod) (did : String) (env : CallAmbient) : Outcome AjnaDocument :=
  match m.resolve did with
  | .ok document => (m, .ok document)
  | .error _ => m.create did env

def applyOperation (m : AjnaMethod) (did : String) (operation : CRDTOperation)
    (env : CallAmbient) : Outcome AjnaDocument :=
  match m.resolveOrCreate did env with
  | (m, .error fault) => (m, .error fault)
  | (m, .ok document) =>
    m.modify host did document (fun doc => .ok (operation.apply doc (env.amb 0)))
      (some (legacyNode host [operation] m.nodeId env))

def applyOperations (m : AjnaMethod) (did : String) (operations : List CRDTOperation)
    (env : CallAmbient) : Outcome AjnaDocument :=
  match m.resolve did with
  | .error fault => (m, .error fault)
  | .ok document =>
    m.modify host did document (fun doc => .ok (applyAll operations doc env.amb))
      (some (legacyNode host operations m.nodeId env))

/-- The loop that advances the clock of each node by its count. -/
def advanceClock (clock : List (String × UInt64)) (document : AjnaDocument) : AjnaDocument :=
  { document with
    vectorClock := clock.foldl (fun c p => (fun c => c.increment p.1)^[p.2.toNat] c)
      document.vectorClock }

def mergeUpdate (m : AjnaMethod) (update : DIDUpdate) (env : CallAmbient) : Outcome AjnaDocument :=
  match m.resolveOrCreate update.did env with
  | (m, .error fault) => (m, .error fault)
  | (m, .ok document) =>
    m.modify host update.did document
      (fun doc => .ok (advanceClock update.clock (applyAll update.operations doc env.amb)))
      (some (legacyNode host update.operations update.originNode env))

/-- One round of the import loop: an update that fails is logged and skipped. -/
def importStep (acc : Outcome ℕ) (update : DIDUpdate) (env : CallAmbient) : Outcome ℕ :=
  match acc with
  | (m, .error fault) => (m, .error fault)
  | (m, .ok count) =>
    match m.mergeUpdate host update env with
    | (m, .ok _) => (m, .ok (count + 1))
    | (m, .error (.err _)) => (m, .ok count)
    | (m, .error .panicked) => (m, .error .panicked)

/-- Import and merge multiple DID updates, the `i`-th with the ambient values
`env i`. -/
def importUpdates (m : AjnaMethod) (updates : List DIDUpdate) (env : ℕ → CallAmbient) : Outcome ℕ :=
  updates.zipIdx.foldl (fun acc p => importStep host acc p.1 (env p.2)) (m, .ok 0)

/-! ## Exporting -/

def getHistory (m : AjnaMethod) (did : String) (order : IterOrder Hash) :
    Result (List CRDTOperation) :=
  match m.history.lookup did with
  | none => .error (.err (.didNotFound did))
  | some dag => .ok (dag.getAllOperations order)

/-- Export a DID update for gossip synchronization. -/
def exportUpdate (m : AjnaMethod) (did : String) (env : ExportAmbient) : Result DIDUpdate :=
  match m.resolve did with
  | .error fault => .error fault
  | .ok document =>
    match m.getHistory did env.historyOrder with
    | .error fault => .error fault
    | .ok operations =>
      .ok
        { did := did
          operations := operations
          clock := (document.vectorClock.nodeIds env.clockOrder).map fun node =>
            (node, document.vectorClock.get node)
          timestamp := env.now
          originNode := m.nodeId
          signature := none }

/-! ## What the accesses do -/

@[simp] theorem registry_insertDocument (m : AjnaMethod) (did : String) (doc : AjnaDocument) :
    (m.insertDocument did doc).registry = m.registry.insert did doc := rfl

@[simp] theorem history_insertDocument (m : AjnaMethod) (did : String) (doc : AjnaDocument) :
    (m.insertDocument did doc).history = m.history := rfl

@[simp] theorem nodeId_insertDocument (m : AjnaMethod) (did : String) (doc : AjnaDocument) :
    (m.insertDocument did doc).nodeId = m.nodeId := rfl

@[simp] theorem registry_initHistory (m : AjnaMethod) (did : String) :
    (m.initHistory did).registry = m.registry := rfl

@[simp] theorem registry_pushHistory (m : AjnaMethod) (did : String)
    (mkNode : MerkleDAG → Result DagNode) :
    (m.pushHistory host did mkNode).1.registry = m.registry := by
  unfold pushHistory
  dsimp only
  split
  · rfl
  · split <;> rfl

@[simp] theorem nodeId_pushHistory (m : AjnaMethod) (did : String)
    (mkNode : MerkleDAG → Result DagNode) :
    (m.pushHistory host did mkNode).1.nodeId = m.nodeId := by
  unfold pushHistory
  dsimp only
  split
  · rfl
  · split <;> rfl

theorem resolve_eq_ok {m : AjnaMethod} {did : String} {doc : AjnaDocument} :
    m.resolve did = .ok doc ↔ m.registry.lookup did = some doc := by
  unfold resolve
  cases m.registry.lookup did <;> simp

theorem registry_modify (m : AjnaMethod) (did : String) (document : AjnaDocument)
    (transform : AjnaDocument → Result AjnaDocument)
    (record : Option (MerkleDAG → Result DagNode)) :
    (m.modify host did document transform record).1.registry =
      match transform document with
      | .error _ => m.registry
      | .ok doc => m.registry.insert did doc := by
  unfold modify
  cases transform document with
  | error fault => rfl
  | ok doc =>
    cases record with
    | none => rfl
    | some mkNode =>
      dsimp only
      have hreg := registry_pushHistory host (m.insertDocument did doc) did mkNode
      cases hp : (m.insertDocument did doc).pushHistory host did mkNode with
      | mk m' r =>
        rw [hp] at hreg
        cases r <;> exact hreg

theorem modify_ok {m m' : AjnaMethod} {did : String} {document doc : AjnaDocument}
    {transform : AjnaDocument → Result AjnaDocument} {record : Option (MerkleDAG → Result DagNode)}
    (h : m.modify host did document transform record = (m', .ok doc)) :
    transform document = .ok doc := by
  unfold modify at h
  cases ht : transform document with
  | error fault => rw [ht] at h; cases h
  | ok doc₀ =>
    rw [ht] at h
    cases record with
    | none => cases h; rfl
    | some mkNode =>
      dsimp only at h
      cases hp : (m.insertDocument did doc₀).pushHistory host did mkNode with
      | mk m'' r =>
        rw [hp] at h
        cases r <;> cases h
        rfl

end AjnaMethod

open AjnaMethod

/-! ## The calls as data -/

/-- The calls that return a document. -/
inductive Call where
  | create (did : String)
  | createWithGenesis (did : String) (initialControllers : List String)
      (initialPolicy : List (String × Json))
  | deactivate (did : String) (reason : Option String)
  | applyOperationV2 (operation : Operation)
  | applyOperation (did : String) (operation : CRDTOperation)
  | applyOperations (did : String) (operations : List CRDTOperation)
  | mergeUpdate (update : DIDUpdate)

namespace Call

def did : Call → String
  | .create did => did
  | .createWithGenesis did _ _ => did
  | .deactivate did _ => did
  | .applyOperationV2 operation => operation.doc
  | .applyOperation did _ => did
  | .applyOperations did _ => did
  | .mergeUpdate update => update.did

/-- Run a call to its end. -/
def perform (host : Host) (m : AjnaMethod) (env : CallAmbient) : Call → Outcome AjnaDocument
  | .create did => m.create did env
  | .createWithGenesis did controllers policy => m.createWithGenesis did controllers policy env
  | .deactivate did reason => m.deactivate host did reason env
  | .applyOperationV2 operation => m.applyOperationV2 host operation env
  | .applyOperation did operation => m.applyOperation host did operation env
  | .applyOperations did operations => m.applyOperations host did operations env
  | .mergeUpdate update => m.mergeUpdate host update env

def onlyCreates : Call → Bool
  | .create _ => true
  | .createWithGenesis _ _ _ => true
  | _ => false

/-- The call creates a missing document before it updates it. -/
def createsMissing : Call → Bool
  | .applyOperation _ _ => true
  | .mergeUpdate _ => true
  | _ => false

def newDocument (nodeId : String) (env : CallAmbient) : Call → AjnaDocument
  | .createWithGenesis did controllers policy =>
    AjnaDocument.newWithGenesis did nodeId controllers policy env.created env.updated
      (fun i => (env.amb i).uuid) (fun i => (env.amb i).now)
  | call => AjnaDocument.new call.did nodeId env.created env.updated

/-- What an updating call makes of the clone it read. -/
def transform (host : Host) (env : CallAmbient) : Call → AjnaDocument → Result AjnaDocument
  | .create _ => .ok
  | .createWithGenesis _ _ _ => .ok
  | .deactivate did reason => deactivateTransform did reason env
  | .applyOperationV2 operation => v2Transform host operation env
  | .applyOperation _ operation => fun doc => .ok (operation.apply doc (env.amb 0))
  | .applyOperations _ operations => fun doc =>
    .ok (applyAll operations doc env.amb)
  | .mergeUpdate update => fun doc =>
    .ok (advanceClock update.clock (applyAll update.operations doc env.amb))

/-- The node an updating call appends to the history. -/
def record (host : Host) (nodeId : String) (env : CallAmbient) :
    Call → Option (MerkleDAG → Result DagNode)
  | .create _ => none
  | .createWithGenesis _ _ _ => none
  | .deactivate _ _ => none
  | .applyOperationV2 operation => some fun _ => DagNode.fromOperationV2 host operation nodeId
  | .applyOperation _ operation => some (legacyNode host [operation] nodeId env)
  | .applyOperations _ operations => some (legacyNode host operations nodeId env)
  | .mergeUpdate update =>
    some (legacyNode host update.operations update.originNode env)

end Call

namespace AjnaMethod

variable (host : Host)

theorem perform_eq (m : AjnaMethod) (env : CallAmbient) (call : Call) :
    call.perform host m env =
      if call.onlyCreates then m.createWith call.did (call.newDocument m.nodeId env)
      else
        match m.registry.lookup call.did with
        | some document =>
          m.modify host call.did document (call.transform host env) (call.record host m.nodeId env)
        | none =>
          if call.createsMissing then
            ((m.insertDocument call.did (call.newDocument m.nodeId env)).initHistory
              call.did).modify host call.did (call.newDocument m.nodeId env)
              (call.transform host env) (call.record host m.nodeId env)
          else (m, .error (.err (.didNotFound call.did))) := by
  cases call with
  | create did | createWithGenesis did controllers policy => rfl
  | deactivate did reason =>
    simp only [Call.perform, deactivate, resolve, Call.onlyCreates, Call.createsMissing]
    cases h : m.registry.lookup did with
    | none => simp [Call.did, h]
    | some doc => simp [Call.did, h]; rfl
  | applyOperationV2 operation =>
    simp only [Call.perform, applyOperationV2, resolve, Call.onlyCreates, Call.createsMissing]
    cases h : m.registry.lookup operation.doc with
    | none => simp [Call.did, h]
    | some doc => simp [Call.did, h]; rfl
  | applyOperation did operation =>
    simp only [Call.perform, applyOperation, resolveOrCreate, resolve, create, createWith,
      Call.onlyCreates]
    cases h : m.registry.lookup did with
    | none | some doc => simp [Call.did, h]; rfl
  | applyOperations did operations =>
    simp only [Call.perform, applyOperations, resolve, Call.onlyCreates, Call.createsMissing]
    cases h : m.registry.lookup did with
    | none => simp [Call.did, h]
    | some doc => simp [Call.did, h]; rfl
  | mergeUpdate update =>
    simp only [Call.perform, mergeUpdate, resolveOrCreate, resolve, create, createWith,
      Call.onlyCreates]
    cases h : m.registry.lookup update.did with
    | none | some doc => simp [Call.did, h]; rfl

theorem registry_perform (m : AjnaMethod) (env : CallAmbient) (call : Call) :
    (call.perform host m env).1.registry = m.registry ∨
    (m.registry.lookup call.did = none ∧ ∃ doc,
      (call.perform host m env).1.registry = m.registry.insert call.did doc) ∨
    (∃ document doc, m.registry.lookup call.did = some document ∧
      call.onlyCreates = false ∧ call.transform host env document = .ok doc ∧
      (call.perform host m env).1.registry = m.registry.insert call.did doc) := by
  rw [perform_eq]
  split
  · unfold createWith
    cases hl : m.registry.lookup call.did with
    | none => exact .inr (.inl ⟨rfl, call.newDocument m.nodeId env, by simp⟩)
    | some document => exact .inl rfl
  · next hcreates =>
    cases hl : m.registry.lookup call.did with
    | some document =>
      rw [registry_modify]
      cases ht : call.transform host env document with
      | error fault => exact .inl rfl
      | ok doc => exact .inr (.inr ⟨document, doc, rfl, by simpa using hcreates, ht, rfl⟩)
    | none =>
      dsimp only
      split
      · refine .inr (.inl ⟨rfl, ?_⟩)
        rw [registry_modify]
        cases call.transform host env (call.newDocument m.nodeId env) with
        | error fault => exact ⟨_, rfl⟩
        | ok doc => exact ⟨doc, by simp⟩
      · exact .inl rfl

end AjnaMethod

/-! ## A small instance

One registered DID, for runs on fixed inputs. -/

namespace Sample

/-- Every clock reads the epoch, every UUID is `0`. -/
noncomputable def env : CallAmbient where
  amb _ := ⟨0, 0, 0, IterOrder.some⟩
  created := 0
  updated := 0
  nodeTime := 0
  headOrder := IterOrder.some
  authOrder := IterOrder.some

def did : String := "did:ajna:alice"

/-- The document right after its creation on node `node1`. -/
def document : AjnaDocument := AjnaDocument.new did "node1" 0 0

/-- The instance right after the creation of the document. -/
def method : AjnaMethod := ⟨(∅ : FMap String AjnaDocument).insert did document,
  (∅ : FMap String MerkleDAG).insert did MerkleDAG.new, "node1"⟩

theorem create_did : (new "node1").create did env = (method, .ok document) := by
  simp [create, createWith, new, initHistory, method, document, env]

@[simp] theorem lookup_registry : method.registry.lookup did = some document := by
  simp [method]

@[simp] theorem lookup_history : method.history.lookup did = some MerkleDAG.new := by
  simp [method]

end Sample
end Idiom.Ajna
