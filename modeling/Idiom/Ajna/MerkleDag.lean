import Idiom.Ajna.Operation
import Mathlib.Data.Finset.Sort

/-!
# The operation history of `did/src/ajna/merkle_dag.rs`

A node holds either a batch of legacy operations or one operation of version 2, and
names its parents by their *node hashes*: the DAG is keyed by node hash, and
`addNode` refuses a node one of whose parents is not a key.
-/

namespace Idiom.Ajna

/-- Library functions the history is computed with. -/
structure Host where
  /-- The Blake3 hash of the bytes fed to a hasher, in base64url. -/
  digest : List UInt8 → String
  /-- `serde_json::to_string` of an operation; `none` if it fails. -/
  opJson : CRDTOperation → Option String
  /-- `DateTime::to_rfc3339`. -/
  rfc3339 : DateTime → String
  /-- `Debug` for `str`. -/
  debugStr : String → String

/-- A hash that tells byte strings of some lengths apart. -/
def Sample.host : Host where
  digest bytes :=
    match bytes.length with
    | 42 => "BBBBBBBBBBBBBBBBBBBBBBBBBBBBBBBBBBBBBBBBBBB"
    | 43 => "CCCCCCCCCCCCCCCCCCCCCCCCCCCCCCCCCCCCCCCCCCC"
    | 85 => "DDDDDDDDDDDDDDDDDDDDDDDDDDDDDDDDDDDDDDDDDDD"
    | 89 => "EEEEEEEEEEEEEEEEEEEEEEEEEEEEEEEEEEEEEEEEEEE"
    | _ => "AAAAAAAAAAAAAAAAAAAAAAAAAAAAAAAAAAAAAAAAAAA"
  opJson _ := some ""
  rfc3339 _ := "1970-01-01T00:00:00+00:00"
  debugStr s := s

/-- Hash of a DAG node. -/
abbrev Hash := String

/-- Operation storage: legacy batches and operations of version 2. -/
inductive OperationStorage where
  | legacy (ops : List CRDTOperation)
  | v2 (op : Operation)

@[ext] structure DagNode where
  operations : OperationStorage
  timestamp : DateTime
  parents : List Hash
  hash : Hash
  nodeId : String

def asBytes (s : String) : List UInt8 := s.toUTF8.data.toList

/-- Domain separation tag. -/
def dstAjnaRoot : List UInt8 := asBytes "AJNA/ROOT/V1"

namespace DagNode

def computeHash (host : Host) (operations : OperationStorage) (parents : List Hash)
    (timestamp : DateTime) (nodeId : String) : Hash :=
  let opBytes :=
    match operations with
    | .legacy ops => ops.flatMap fun op => ((host.opJson op).map asBytes).getD []
    | .v2 op => asBytes op.opId
  host.digest (dstAjnaRoot ++ opBytes ++ parents.flatMap asBytes ++
    asBytes (host.rfc3339 timestamp) ++ asBytes nodeId)

/-- Create a new DAG node for legacy operations, at the clock reading `timestamp`. -/
def new (host : Host) (operations : List CRDTOperation) (parents : List Hash) (nodeId : String)
    (timestamp : DateTime) : DagNode where
  operations := .legacy operations
  timestamp := timestamp
  parents := parents
  hash := computeHash host (.legacy operations) parents timestamp nodeId
  nodeId := nodeId

/-- Create a new DAG node from an operation of version 2. The operation's own
timestamp is unwrapped, and its parents are taken over as they are. -/
def fromOperationV2 (host : Host) (operation : Operation) (nodeId : String) : Result DagNode :=
  match timestampMillisOpt operation.timestampMs.toInt with
  | none => .error .panicked
  | some timestamp =>
    .ok
      { operations := .v2 operation
        timestamp := timestamp
        parents := operation.parents
        hash := computeHash host (.v2 operation) operation.parents timestamp nodeId
        nodeId := nodeId }

def verifyHash (host : Host) (node : DagNode) : Bool :=
  computeHash host node.operations node.parents node.timestamp node.nodeId = node.hash

def getOperations (node : DagNode) : List CRDTOperation :=
  match node.operations with
  | .legacy ops => ops
  | .v2 _ => []

/-- The operation of a node of version 2. -/
def getOperationV2 (node : DagNode) : Option Operation :=
  match node.operations with
  | .v2 op => some op
  | .legacy _ => none

theorem verifyHash_new (host : Host) (ops : List CRDTOperation) (parents : List Hash)
    (nodeId : String) (timestamp : DateTime) :
    (new host ops parents nodeId timestamp).verifyHash host = true := by
  simp [verifyHash, new]

theorem fromOperationV2_ok {host : Host} {op : Operation} {nodeId : String} {node : DagNode}
    (h : fromOperationV2 host op nodeId = .ok node) :
    node.operations = .v2 op ∧ node.parents = op.parents ∧ node.verifyHash host = true := by
  unfold fromOperationV2 at h
  split at h
  · cases h
  · cases h
    exact ⟨rfl, rfl, by simp [verifyHash]⟩

theorem fromOperationV2_hash {host : Host} {op : Operation} {nodeId : String} {node : DagNode}
    (h : fromOperationV2 host op nodeId = .ok node) : ∃ bytes, node.hash = host.digest bytes := by
  unfold fromOperationV2 at h
  split at h
  · cases h
  · cases h
    exact ⟨_, rfl⟩

end DagNode

/-- Merkle-DAG for tracking operation history. -/
@[ext] structure MerkleDAG where
  /-- Hash to node. -/
  nodes : FMap Hash DagNode
  /-- Current tips. -/
  heads : Finset Hash
  genesis : Option Hash

namespace MerkleDAG

def new : MerkleDAG := ⟨∅, ∅, none⟩

def addNode (host : Host) (dag : MerkleDAG) (node : DagNode) : Except AjnaError MerkleDAG :=
  if !node.verifyHash host then .error (.merkleDag "Invalid node hash")
  else
    match node.parents.find? fun parent => (dag.nodes.lookup parent).isNone with
    | some parent => .error (.merkleDag ("Parent node not found: " ++ parent))
    | none =>
      .ok
        { nodes := dag.nodes.insert node.hash node
          heads := insert node.hash (dag.heads \ node.parents.toFinset)
          genesis := if dag.nodes.keys = ∅ then some node.hash else dag.genesis }

def getHeads (dag : MerkleDAG) (order : IterOrder Hash) : List DagNode :=
  (order.list dag.heads).filterMap fun hash => dag.nodes.lookup hash

/-- Tips announced to peers: the operation id of a version 2 node, the node hash of a
legacy node. -/
def getTips (dag : MerkleDAG) (order : IterOrder Hash) : List String :=
  (dag.getHeads order).map fun node =>
    match node.operations with
    | .v2 op => op.opId
    | .legacy _ => node.hash

def entries (dag : MerkleDAG) (order : IterOrder Hash) : List (Hash × DagNode) :=
  (order.list dag.nodes.keys).filterMap fun hash => (dag.nodes.lookup hash).map fun node =>
    (hash, node)

/-! ### Topological order -/

/-- The marks and the result of the search behind `topologicalSort`. -/
structure Visit where
  visited : Finset Hash
  tempMark : Finset Hash
  result : List DagNode

/-- DFS visit for the topological sort: children first, then the node itself. -/
def visitNode (dag : MerkleDAG) (order : IterOrder Hash) : ℕ → Hash → Visit → Visit
  | 0, _, s => s
  | fuel + 1, hash, s =>
    if hash ∈ s.visited then s
    else if hash ∈ s.tempMark then s
    else
      let s := { s with tempMark := insert hash s.tempMark }
      let s := (dag.entries order).foldl
        (fun s child => if hash ∈ child.2.parents then visitNode dag order fuel child.1 s else s) s
      { visited := insert hash s.visited
        tempMark := s.tempMark.erase hash
        result := s.result ++ (dag.nodes.lookup hash).toList }

/-- All nodes in topological order: the search from the genesis, reversed. A vertex is
opened at most once at a time, so the nodes and the genesis bound the depth. -/
def topologicalSort (dag : MerkleDAG) (order : IterOrder Hash) : List DagNode :=
  match dag.genesis with
  | none => []
  | some genesis =>
    (dag.visitNode order (dag.nodes.keys.card + 1) genesis ⟨∅, ∅, []⟩).result.reverse

def getAllOperations (dag : MerkleDAG) (order : IterOrder Hash) : List CRDTOperation :=
  (dag.topologicalSort order).flatMap DagNode.getOperations

/-- All operations of version 2, in topological order. -/
def getAllOperationsV2 (dag : MerkleDAG) (order : IterOrder Hash) : List Operation :=
  (dag.topologicalSort order).filterMap DagNode.getOperationV2

/-! ### Root and merge -/

def rootBytes (heads : Finset Hash) : List UInt8 :=
  dstAjnaRoot ++ heads.sort.flatMap asBytes

def computeRoot (host : Host) (dag : MerkleDAG) : Hash := host.digest (rootBytes dag.heads)

/-- The loop of `merge`. What was added before an error stays. -/
def mergeNodes (host : Host) (other : MerkleDAG) :
    MerkleDAG → List DagNode → MerkleDAG × Except AjnaError Unit
  | dag, [] => (dag, .ok ())
  | dag, node :: rest =>
    if (dag.nodes.lookup node.hash).isSome then mergeNodes host other dag rest
    else if node.parents.any fun parent =>
        (dag.nodes.lookup parent).isNone && (other.nodes.lookup parent).isNone then
      mergeNodes host other dag rest
    else
      match dag.addNode host node with
      | .error e => (dag, .error e)
      | .ok dag => mergeNodes host other dag rest

/-- The nodes of a DAG by timestamp; nodes with the same timestamp stay in iteration
order. -/
def sortedNodes (dag : MerkleDAG) (order : IterOrder Hash) : List DagNode :=
  ((dag.entries order).map Prod.snd).mergeSort fun a b => decide (a.timestamp ≤ b.timestamp)

/-- Merge another DAG into this one. -/
def merge (host : Host) (dag : MerkleDAG) (order : IterOrder Hash) (other : MerkleDAG) :
    MerkleDAG × Except AjnaError Unit :=
  mergeNodes host other dag (other.sortedNodes order)

/-! ### Adding a node -/

/-- Every parent of the node is a key of the DAG. -/
def HasParents (dag : MerkleDAG) (parents : List Hash) : Prop :=
  ∀ parent ∈ parents, (dag.nodes.lookup parent).isSome = true

theorem addNode_of_hasParents {host : Host} {dag : MerkleDAG} {node : DagNode}
    (hv : node.verifyHash host = true) (hp : dag.HasParents node.parents) :
    ∃ dag', dag.addNode host node = .ok dag' ∧ dag'.nodes = dag.nodes.insert node.hash node := by
  have hfind : (node.parents.find? fun parent => (dag.nodes.lookup parent).isNone) = none := by
    rw [List.find?_eq_none]
    intro parent hmem
    have := hp parent hmem
    simp [← Option.not_isSome_iff_eq_none, this]
  refine ⟨⟨dag.nodes.insert node.hash node, insert node.hash (dag.heads \ node.parents.toFinset),
    if dag.nodes.keys = ∅ then some node.hash else dag.genesis⟩, ?_, rfl⟩
  simp only [addNode, hv, hfind]
  rfl

theorem addNode_of_not_hasParents {host : Host} {dag : MerkleDAG} {node : DagNode}
    (hv : node.verifyHash host = true) (hp : ¬ dag.HasParents node.parents) :
    ∃ parent ∈ node.parents, dag.nodes.lookup parent = none ∧
      dag.addNode host node = .error (.merkleDag ("Parent node not found: " ++ parent)) := by
  obtain ⟨parent, hfind⟩ : ∃ parent, (node.parents.find? fun parent =>
      (dag.nodes.lookup parent).isNone) = some parent := by
    rw [← Option.isSome_iff_exists, List.find?_isSome]
    unfold HasParents at hp
    push Not at hp
    obtain ⟨parent, hmem, hnone⟩ := hp
    exact ⟨parent, hmem, by simpa using hnone⟩
  refine ⟨parent, List.mem_of_find?_eq_some hfind, ?_, ?_⟩
  · simpa using List.find?_some hfind
  · simp only [addNode, hv, hfind]
    rfl

/-- The nodes a DAG is asked about are stored under their own hashes. -/
def WellKeyed (dag : MerkleDAG) : Prop :=
  ∀ hash node, dag.nodes.lookup hash = some node → node.hash = hash

theorem wellKeyed_new : new.WellKeyed := by
  intro hash node h
  simp [new] at h

end MerkleDAG
end Idiom.Ajna
