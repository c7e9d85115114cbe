import Idiom.Ajna.BundleWire
import Idiom.Ajna.DagOrder

/-!
# The synchronization of `did/src/ajna/didcomm_sync.rs`

Three messages: a node announces the tips of its DAG, a peer asks for the tips its filter
does not know, and the node answers with a bundle of these operations. The peer notes the
operations of an accepted bundle in its filter.
-/

namespace Idiom.Ajna

open OpBundle List DagNode

/-- What a call draws from outside its arguments. -/
structure SyncAmbient where
  /-- The iteration order of hash maps and sets. -/
  order : IterOrder Hash
  /-- The seed of a new filter's hasher. -/
  seed : UInt64
  /-- The clock reading, in milliseconds. -/
  now : Int64

/-! ## Messages -/

/-- Announce message: current state. -/
structure AnnounceMessage where
  piuri : String
  doc : String
  /-- Latest operation ids. -/
  tips : List String
  /-- Base64 of the serialized filter. -/
  bloom : String
  want : Option (List String)

/-- Fetch message: request specific operations. -/
structure FetchMessage where
  piuri : String
  doc : String
  opIds : List String
  maxBundleSize : ℕ

structure PushMessage where
  piuri : String
  doc : String
  bundle : List UInt8

/-! ## Handlers -/

/-- Main sync protocol handler. -/
structure SyncProtocol where
  /-- Filter of known operation ids. -/
  bloom : BloomFilter
  /-- Known tips of each peer. -/
  knownTips : FMap String (Finset String)
  /-- DAG of each DID. -/
  dags : FMap String MerkleDAG

namespace SyncProtocol

/-- Empty state. -/
def new (amb : SyncAmbient) : SyncProtocol := ⟨.defaultConfig amb.seed, ∅, ∅⟩

/-- Register an operation: its id goes into the filter. -/
def registerOperation (sync : SyncProtocol) (operation : Operation) : SyncProtocol :=
  { sync with bloom := sync.bloom.insert (asBytes operation.opId) }

/-- Initialize from an existing DAG. -/
def fromDag (amb : SyncAmbient) (dag : MerkleDAG) (did : String) : SyncProtocol :=
  let sync := new amb
  let bloom := (dag.getAllOperationsV2 amb.order).foldl
    (fun bloom op => bloom.insert (asBytes op.opId)) sync.bloom
  { sync with bloom := bloom, dags := sync.dags.insert did dag }

def getDag (sync : SyncProtocol) (did : String) : Except AjnaError MerkleDAG :=
  match sync.dags.lookup did with
  | none => .error (.didNotFound did)
  | some dag => .ok dag

/-- Make sure that the DID has a DAG. -/
def getOrCreateDag (sync : SyncProtocol) (did : String) : SyncProtocol :=
  match sync.dags.lookup did with
  | none => { sync with dags := sync.dags.insert did MerkleDAG.new }
  | some _ => sync

def getTips (amb : SyncAmbient) (sync : SyncProtocol) (did : String) :
    Except AjnaError (List String) :=
  (sync.getDag did).map fun dag => dag.getTips amb.order

/-- Announce the current tips and the filter. -/
def announceToPeer (host : SyncHost) (amb : SyncAmbient) (sync : SyncProtocol) (docDid : String) :
    Except AjnaError AnnounceMessage :=
  match sync.getTips amb docDid with
  | .error e => .error e
  | .ok tips =>
    .ok
      { piuri := "bh/opsync/1.0/announce"
        doc := docDid
        tips := tips
        bloom := host.encode64 sync.bloom.toBytes
        want := none }

/-- Operations we have that the peer's filter does not know. -/
def findMissingOps (host : SyncHost) (amb : SyncAmbient) (sync : SyncProtocol) (did : String)
    (peerBloom : BloomFilter) : Except AjnaError (List String) :=
  (sync.getDag did).map fun dag =>
    ((dag.getAllOperationsV2 amb.order).filter fun op =>
      !peerBloom.contains host (asBytes op.opId)).map Operation.opId

/-- The peer's tips our filter does not know. -/
def findMissingFromTips (host : SyncHost) (sync : SyncProtocol) (peerTips : List String) :
    List String :=
  peerTips.filter fun tip => !sync.bloom.contains host (asBytes tip)

/-- Handle an incoming announce message. What the peer is missing is computed and not
used; it fails if the DID is unknown here. -/
def handleAnnounce (host : SyncHost) (amb : SyncAmbient) (sync : SyncProtocol)
    (message : AnnounceMessage) (peerDid : String) :
    SyncProtocol × Except AjnaError (Option FetchMessage) :=
  match host.decode64 message.bloom with
  | .error e => (sync, .error (.invalidBloomFilter e))
  | .ok bytes =>
    match BloomFilter.fromBytes amb.seed bytes with
    | .error e => (sync, .error e)
    | .ok peerBloom =>
      match sync.findMissingOps host amb message.doc peerBloom with
      | .error e => (sync, .error e)
      | .ok _ =>
        let missingOnUs := sync.findMissingFromTips host message.tips
        let sync := { sync with knownTips := sync.knownTips.insert peerDid message.tips.toFinset }
        if missingOnUs = [] then (sync, .ok none)
        else
          (sync, .ok (some
            { piuri := "bh/opsync/1.0/fetch"
              doc := message.doc
              opIds := missingOnUs
              maxBundleSize := maxBundleSize }))

def requestedOps (amb : SyncAmbient) (dag : MerkleDAG) (opIds : List String) : List Operation :=
  (dag.getAllOperationsV2 amb.order).filter fun op => opIds.contains op.opId

def handleFetch (host : SyncHost) (amb : SyncAmbient) (sync : SyncProtocol)
    (message : FetchMessage) : Except AjnaError PushMessage :=
  match sync.getDag message.doc with
  | .error e => .error e
  | .ok dag =>
    let requested := requestedOps amb dag message.opIds
    if requested.isEmpty then .error (.invalidOperation "No operations found for requested IDs")
    else
      match create host amb.now message.doc requested message.maxBundleSize with
      | .error e => .error e
      | .ok bundle =>
        match bundle.toBytes host with
        | .error e => .error e
        | .ok bytes =>
          .ok { piuri := "bh/opsync/1.0/push", doc := message.doc, bundle := bytes }

/-- Handle a push message: the number of operations the filter did not know. A DAG for
the DID is created if there is none, and the operations go into the filter. -/
def handlePush (host : SyncHost) (sync : SyncProtocol) (message : PushMessage) :
    SyncProtocol × Except AjnaError ℕ :=
  match fromBytes host message.bundle with
  | .error e => (sync, .error e)
  | .ok bundle =>
    match bundle.validate host with
    | .error e => (sync, .error e)
    | .ok () =>
      let sync := sync.getOrCreateDag message.doc
      let appliedCount := (bundle.operations.filter fun op =>
        !sync.bloom.contains host (asBytes op.opId)).length
      (bundle.operations.foldl registerOperation sync, .ok appliedCount)

/-! ## What the handlers do -/

variable {host : SyncHost} {amb : SyncAmbient} {sync : SyncProtocol}

theorem bloom_fromDag (dag : MerkleDAG) (did : String) :
    (fromDag amb dag did).bloom = { BloomFilter.defaultConfig amb.seed with
      inner := ⟨287552, 20, amb.seed,
        (dag.getAllOperationsV2 amb.order).map fun op => asBytes op.opId⟩ } := by
  show foldl _ _ _ = _
  rw [BloomFilter.foldl_insert]
  rfl

variable {dag : MerkleDAG}

theorem getDag_eq_ok_iff {did : String} :
    sync.getDag did = .ok dag ↔ sync.dags.lookup did = some dag := by
  unfold getDag
  cases sync.dags.lookup did <;> simp

theorem mem_requestedOps {opIds : List String} {op : Operation} :
    op ∈ requestedOps amb dag opIds ↔ dag.Listed op ∧ op.opId ∈ opIds := by
  unfold requestedOps
  rw [mem_filter, MerkleDAG.mem_getAllOperationsV2, contains_eq_mem, decide_eq_true_eq]

theorem handleAnnounce_of_lookup {message : AnnounceMessage} {peerDid : String} {bytes : List UInt8}
    {peerBloom : BloomFilter} (hdecode : host.decode64 message.bloom = .ok bytes)
    (hbloom : BloomFilter.fromBytes amb.seed bytes = .ok peerBloom)
    (hdag : sync.dags.lookup message.doc = some dag) :
    sync.handleAnnounce host amb message peerDid =
      ({ sync with knownTips := sync.knownTips.insert peerDid message.tips.toFinset },
        .ok (if sync.findMissingFromTips host message.tips = [] then none
          else some
            { piuri := "bh/opsync/1.0/fetch"
              doc := message.doc
              opIds := sync.findMissingFromTips host message.tips
              maxBundleSize := maxBundleSize })) := by
  unfold handleAnnounce findMissingOps
  rw [hdecode]
  simp only [hbloom, getDag_eq_ok_iff.2 hdag, Except.map]
  split <;> rfl

theorem handleFetch_eq (message : FetchMessage) {bytes : List UInt8}
    (hdag : sync.dags.lookup message.doc = some dag)
    (hbytes : host.toVec (.assemble host amb.now message.doc
      (requestedOps amb dag message.opIds)) = .ok bytes) :
    sync.handleFetch host amb message =
      if requestedOps amb dag message.opIds = [] then
        .error (.invalidOperation "No operations found for requested IDs")
      else if message.maxBundleSize < bytes.length then
        .error (.bundleTooLarge bytes.length message.maxBundleSize)
      else .ok { piuri := "bh/opsync/1.0/push", doc := message.doc, bundle := bytes } := by
  unfold handleFetch create toBytes
  simp only [getDag_eq_ok_iff.2 hdag, hbytes, Except.mapError, List.isEmpty_iff]
  split
  · rfl
  · by_cases hsize : message.maxBundleSize < bytes.length
    · simp only [if_pos hsize]
    · simp only [if_neg hsize, hbytes]

theorem exists_handlePush_ok_iff {message : PushMessage} :
    (∃ n, (sync.handlePush host message).2 = .ok n) ↔
      ∃ bundle, host.fromSlice message.bundle = .ok bundle ∧ bundle.validate host = .ok () := by
  unfold handlePush fromBytes
  cases host.fromSlice message.bundle with
  | error e => simp [Except.mapError]
  | ok bundle =>
    cases hv : bundle.validate host with
    | error e | ok u => simp [Except.mapError, hv]

end SyncProtocol

/-! ## One exchange -/

open SyncProtocol

/-- Two nodes with a DAG each for one DID, and what their calls draw from outside. -/
structure Exchange where
  did : String
  a : MerkleDAG
  b : MerkleDAG
  /-- The name the second node knows the first one by. -/
  peerDid : String
  createA : SyncAmbient
  createB : SyncAmbient
  announce : SyncAmbient
  receive : SyncAmbient
  serve : SyncAmbient

namespace Exchange

variable {host : SyncHost}

/-- The announcing node. -/
def nodeA (x : Exchange) : SyncProtocol := fromDag x.createA x.a x.did

/-- The receiving node. -/
def nodeB (x : Exchange) : SyncProtocol := fromDag x.createB x.b x.did

/-- If the receiver answers the announcement with a request, then the request is refused
for its size, or answered with a push that the receiver accepts. -/
def PushAccepted (host : SyncHost) (x : Exchange) : Prop :=
  ∀ announce fetch, x.nodeA.announceToPeer host x.announce x.did = .ok announce →
    (x.nodeB.handleAnnounce host x.receive announce x.peerDid).2 = .ok (some fetch) →
    (∃ size max, x.nodeA.handleFetch host x.serve fetch = .error (.bundleTooLarge size max)) ∨
    ∃ push, x.nodeA.handleFetch host x.serve fetch = .ok push ∧
      ∃ n, ((x.nodeB.handleAnnounce host x.receive announce x.peerDid).1.handlePush host push).2 =
        .ok n

/-- The tips of the first DAG that the filter of the second node does not know. -/
def missingTips (host : SyncHost) (x : Exchange) : List String :=
  x.nodeB.findMissingFromTips host (x.a.getTips x.announce.order)

/-- The listed operations under these ids. -/
def served (host : SyncHost) (x : Exchange) : List Operation :=
  requestedOps x.serve x.a (x.missingTips host)

/-- The bundle of these operations. -/
def bundle (host : SyncHost) (x : Exchange) : OpBundle :=
  .assemble host x.serve.now x.did (x.served host)

def announcement (host : SyncHost) (x : Exchange) : AnnounceMessage where
  piuri := "bh/opsync/1.0/announce"
  doc := x.did
  tips := x.a.getTips x.announce.order
  bloom := host.encode64 x.nodeA.bloom.toBytes
  want := none

def request (host : SyncHost) (x : Exchange) : FetchMessage where
  piuri := "bh/opsync/1.0/fetch"
  doc := x.did
  opIds := x.missingTips host
  maxBundleSize := maxBundleSize

theorem lookup_nodeA (x : Exchange) : x.nodeA.dags.lookup x.did = some x.a :=
  Finmap.lookup_insert _

theorem lookup_nodeB (x : Exchange) : x.nodeB.dags.lookup x.did = some x.b :=
  Finmap.lookup_insert _

theorem announceToPeer_nodeA (x : Exchange) :
    x.nodeA.announceToPeer host x.announce x.did = .ok (x.announcement host) := by
  unfold announceToPeer getTips
  rw [getDag_eq_ok_iff.2 x.lookup_nodeA]
  rfl

theorem handleAnnounce_nodeB (x : Exchange)
    (hbase64 : host.decode64 (host.encode64 x.nodeA.bloom.toBytes) = .ok x.nodeA.bloom.toBytes) :
    (x.nodeB.handleAnnounce host x.receive (x.announcement host) x.peerDid).2 =
      .ok (if x.missingTips host = [] then none else some (x.request host)) := by
  obtain ⟨peer, hpeer⟩ := BloomFilter.exists_fromBytes_toBytes x.receive.seed x.nodeA.bloom
  rw [handleAnnounce_of_lookup hbase64 hpeer x.lookup_nodeB]
  rfl

variable {bytes : List UInt8}

theorem handleFetch_nodeA (x : Exchange) (hbytes : host.toVec (x.bundle host) = .ok bytes) :
    x.nodeA.handleFetch host x.serve (x.request host) =
      if x.served host = [] then
        .error (.invalidOperation "No operations found for requested IDs")
      else if maxBundleSize < bytes.length then
        .error (.bundleTooLarge bytes.length maxBundleSize)
      else .ok { piuri := "bh/opsync/1.0/push", doc := x.did, bundle := bytes } :=
  handleFetch_eq (x.request host) x.lookup_nodeA hbytes

theorem handlePush_bundle (x : Exchange) (sync : SyncProtocol)
    (hread : host.fromSlice bytes = .ok (x.bundle host)) (piuri doc : String) :
    (∃ n, (sync.handlePush host ⟨piuri, doc, bytes⟩).2 = .ok n) ↔
      neededParents (x.served host) = ∅ := by
  rw [exists_handlePush_ok_iff, ← validate_assemble x.serve.now x.did]
  constructor
  · rintro ⟨bundle, hbundle, hvalid⟩
    obtain rfl : bundle = x.bundle host := Except.ok.inj (hbundle.symm.trans hread)
    exact hvalid
  · exact fun hvalid => ⟨x.bundle host, hread, hvalid⟩

/-- Some missing tip is the id of a listed operation; and the bundle of the listed
operations under these ids is too large, or every parent one of them names is empty or
another of them. -/
def Servable (host : SyncHost) (x : Exchange) : Prop :=
  (∃ op, x.a.Listed op ∧ op.opId ∈ x.missingTips host) ∧
    ((x.bundle host).TooLarge host maxBundleSize ∨
      ∀ op, x.a.Listed op → op.opId ∈ x.missingTips host → ∀ parent ∈ op.parents, parent ≠ "" →
        parent ∈ x.missingTips host ∧ ∃ other, x.a.Listed other ∧ other.opId = parent)

theorem served_ne_nil_iff (x : Exchange) :
    x.served host ≠ [] ↔ ∃ op, x.a.Listed op ∧ op.opId ∈ x.missingTips host := by
  constructor
  · intro hne
    obtain ⟨op, hop⟩ := exists_mem_of_ne_nil _ hne
    exact ⟨op, mem_requestedOps.1 hop⟩
  · rintro ⟨op, hop⟩
    exact ne_nil_of_mem (mem_requestedOps.2 hop)

theorem neededParents_served_eq_empty_iff (x : Exchange) :
    neededParents (x.served host) = ∅ ↔
      ∀ op, x.a.Listed op → op.opId ∈ x.missingTips host → ∀ parent ∈ op.parents, parent ≠ "" →
        parent ∈ x.missingTips host ∧ ∃ other, x.a.Listed other ∧ other.opId = parent := by
  rw [Finset.eq_empty_iff_forall_notMem]
  simp only [mem_neededParents, Exchange.served, mem_requestedOps]
  constructor
  · intro h op hop hid parent hparent hne
    by_contra hout
    refine h parent ⟨⟨op, ⟨hop, hid⟩, hparent⟩, hne, fun other hother heq => hout ?_⟩
    exact ⟨heq ▸ hother.2, other, hother.1, heq⟩
  · rintro h parent ⟨⟨op, ⟨hop, hid⟩, hparent⟩, hne, hout⟩
    obtain ⟨hmissing, other, hother, rfl⟩ := h op hop hid parent hparent hne
    exact hout other ⟨hother, hmissing⟩ rfl

theorem tooLarge_iff (x : Exchange) (hbytes : host.toVec (x.bundle host) = .ok bytes) :
    (x.bundle host).TooLarge host maxBundleSize ↔ maxBundleSize < bytes.length := by
  unfold TooLarge
  simp [hbytes]

section

variable {x : Exchange}
  (hbase64 : host.decode64 (host.encode64 x.nodeA.bloom.toBytes) = .ok x.nodeA.bloom.toBytes)
  (hcodec : (x.bundle host).RoundTrips host)

include hbase64 hcodec

theorem servable_of_pushAccepted (haccepted : x.PushAccepted host)
    (hmissing : x.missingTips host ≠ []) : x.Servable host := by
  obtain ⟨bytes, hbytes, hread⟩ := hcodec
  have hanswer := x.handleAnnounce_nodeB hbase64
  rw [if_neg hmissing] at hanswer
  rcases haccepted _ _ x.announceToPeer_nodeA hanswer with ⟨size, max, herr⟩ | ⟨push, hok, hn⟩
  · rw [x.handleFetch_nodeA hbytes] at herr
    split_ifs at herr with hnone hsize
    · cases herr
    · exact ⟨x.served_ne_nil_iff.1 hnone, .inl ((x.tooLarge_iff hbytes).2 hsize)⟩
  · rw [x.handleFetch_nodeA hbytes] at hok
    split_ifs at hok with hnone
    cases hok
    exact ⟨x.served_ne_nil_iff.1 hnone, .inr (x.neededParents_served_eq_empty_iff.1
      ((x.handlePush_bundle _ hread _ _).1 hn))⟩

theorem pushAccepted_of_servable (h : x.missingTips host ≠ [] → x.Servable host) :
    x.PushAccepted host := by
  obtain ⟨bytes, hbytes, hread⟩ := hcodec
  intro announce fetch hannounce hanswer
  obtain rfl := Except.ok.inj (x.announceToPeer_nodeA.symm.trans hannounce)
  rw [x.handleAnnounce_nodeB hbase64] at hanswer
  by_cases hmissing : x.missingTips host = []
  · rw [if_pos hmissing] at hanswer
    cases hanswer
  rw [if_neg hmissing] at hanswer
  obtain rfl := Option.some.inj (Except.ok.inj hanswer)
  obtain ⟨hsome, hfits⟩ := h hmissing
  rw [x.tooLarge_iff hbytes, ← x.neededParents_served_eq_empty_iff] at hfits
  rw [x.handleFetch_nodeA hbytes, if_neg (x.served_ne_nil_iff.2 hsome)]
  by_cases hsize : maxBundleSize < bytes.length
  · exact .inl ⟨_, _, if_pos hsize⟩
  · refine .inr ⟨_, if_neg hsize, ?_⟩
    exact (x.handlePush_bundle _ hread _ _).2 (hfits.resolve_left hsize)

end
end Exchange

open Exchange

/-- **An honest push is accepted if and only if no tip is missing; or some missing tip is
the id of a listed operation, and the bundle of these operations is too large, or every
parent they name is empty or one of them.** -/
theorem pushAccepted_iff (host : SyncHost) (x : Exchange)
    (hbase64 : host.decode64 (host.encode64 x.nodeA.bloom.toBytes) = .ok x.nodeA.bloom.toBytes)
    (hcodec : (x.bundle host).RoundTrips host) :
    x.PushAccepted host ↔ (x.missingTips host ≠ [] → x.Servable host) :=
  ⟨fun h hmissing => servable_of_pushAccepted hbase64 hcodec h hmissing,
    fun h => pushAccepted_of_servable hbase64 hcodec h⟩

/-! ## A first and a late synchronization -/

namespace Sample

/-- The first operation of a history. -/
def rootNode : DagNode := v2Node host (refRemove "op-1" [])

example : fromOperationV2 host (refRemove "op-1" []) "node1" = .ok rootNode := rfl

theorem hash_rootNode : rootNode.hash = "AAAAAAAAAAAAAAAAAAAAAAAAAAAAAAAAAAAAAAAAAAA" := by
  decide

theorem verifyHash_rootNode : rootNode.verifyHash host = true := by
  simp [verifyHash, rootNode, v2Node]

/-- Whatever a call draws. -/
noncomputable def syncAmbient : SyncAmbient := ⟨IterOrder.some, 0, 0⟩

/-- A node with one DAG announces to a node with another. -/
noncomputable def exchange (a b : MerkleDAG) : Exchange where
  did := did
  a := a
  b := b
  peerDid := "did:ajna:peer"
  createA := syncAmbient
  createB := syncAmbient
  announce := syncAmbient
  receive := syncAmbient
  serve := syncAmbient

/-- A node with one operation announces to one that has none. -/
noncomputable def firstSync : Exchange := exchange (oneNode rootNode) MerkleDAG.new

/-- The bundle that removes a reference. -/
def bundleOf (opId : String) (parents : List Hash) : OpBundle where
  doc := did
  operations := [refRemove opId parents]
  contextOps := []
  bundleId := "AAAAAAAAAAAAAAAAAAAAAAAAAAAAAAAAAAAAAAAAAAA="
  createdAt := 0

noncomputable def bytesOf (bundle : OpBundle) : List UInt8 :=
  OpBundle.Sample.pack (bundle.write .some)

/-- Libraries for one bundle: the header of the default filter and a hash in base64, the
MessagePack bytes of the bundle, and a filter without false positives. -/
noncomputable def hostFor (bundle : OpBundle) : SyncHost :=
  (OpBundle.Sample.codec (bundle.write .some)).host .some
    { blake3 := fun _ => replicate 32 0
      encode64 := fun bytes =>
        if bytes.length = 20 then "ECcAAI3ttaD3xrA+QGMEABQAAAA="
        else "AAAAAAAAAAAAAAAAAAAAAAAAAAAAAAAAAAAAAAAAAAA="
      decode64 := fun text =>
        if text = "ECcAAI3ttaD3xrA+QGMEABQAAAA=" then
          .ok [16, 39, 0, 0, 141, 237, 181, 160, 247, 198, 176, 62, 64, 99, 4, 0, 20, 0, 0, 0]
        else .error "Invalid padding"
      toVec := fun _ => .error ""
      fromSlice := fun _ => .error ""
      maybeContains := fun core opId => core.inserted.contains opId }

theorem roundTrips_hostFor (opId : String) (parents : List Hash) :
    (bundleOf opId parents).RoundTrips (hostFor (bundleOf opId parents)) := by
  refine (roundTrips_host_iff (fun op hop => ?_) (OpBundle.Sample.readsBack_codec _)).2
    fun op hop => ?_
  all_goals
    rw [mem_singleton.1 hop]
    trivial

def firstBundle : OpBundle := bundleOf "op-1" []

noncomputable def syncHost : SyncHost := hostFor firstBundle

theorem fromSlice_firstBundle : syncHost.fromSlice (bytesOf firstBundle) = .ok firstBundle := by
  obtain ⟨bytes, hbytes, hread⟩ := roundTrips_hostFor "op-1" []
  cases hbytes
  exact hread

theorem decode64_firstSync :
    syncHost.decode64 (syncHost.encode64 firstSync.nodeA.bloom.toBytes) =
      .ok firstSync.nodeA.bloom.toBytes := by
  rw [nodeA, bloom_fromDag]
  decide

theorem getAllOperationsV2_oneNode (order : IterOrder Hash) :
    (oneNode rootNode).getAllOperationsV2 order = [refRemove "op-1" []] := by
  have hlists : (oneNode rootNode).ListsHistory order := by
    have hwf := wellFormed_oneNode verifyHash_rootNode rfl
    refine MerkleDAG.listsHistory_of_rooted
      (MerkleDAG.sound_visits (Run.Visits.of_exec (exec_oneNode verifyHash_rootNode rfl)))
      hwf.acyclic fun node hn _ => ?_
    rw [contains_oneNode.1 hn]
    rfl
  have hperm : ((oneNode rootNode).topologicalSort order).Perm [rootNode] := by
    refine (perm_ext_iff_of_nodup hlists.once.of_map (nodup_singleton _)).2 fun node => ?_
    rw [hlists.complete, contains_oneNode, mem_singleton]
  unfold MerkleDAG.getAllOperationsV2
  rw [perm_singleton.1 hperm]
  rfl

theorem missingTips_firstSync : firstSync.missingTips syncHost = ["op-1"] := by
  have htips : (oneNode rootNode).getTips firstSync.announce.order = ["op-1"] := by
    unfold MerkleDAG.getTips MerkleDAG.getHeads
    rw [show (oneNode rootNode).heads = {rootNode.hash} from rfl, IterOrder.list_singleton]
    rfl
  unfold missingTips findMissingFromTips
  rw [show firstSync.a = oneNode rootNode from rfl, htips]
  rfl

theorem served_firstSync : firstSync.served syncHost = [refRemove "op-1" []] := by
  unfold served requestedOps
  rw [missingTips_firstSync, show firstSync.a = oneNode rootNode from rfl,
    getAllOperationsV2_oneNode]
  rfl

theorem bundle_firstSync : firstSync.bundle syncHost = firstBundle := by
  unfold bundle
  rw [served_firstSync]
  rfl

end Sample

open Sample

/-- A node with one operation that names no parents is asked for it, and its push is
accepted. -/
theorem pushAccepted_firstSync :
    firstSync.missingTips syncHost ≠ [] ∧ firstSync.PushAccepted syncHost := by
  refine ⟨by rw [missingTips_firstSync]; exact cons_ne_nil _ _, ?_⟩
  refine (pushAccepted_iff syncHost firstSync decode64_firstSync ?_).2 fun _ => ?_
  · rw [bundle_firstSync]
    exact roundTrips_hostFor _ _
  · rw [Servable, ← served_ne_nil_iff, ← neededParents_served_eq_empty_iff, served_firstSync]
    exact ⟨cons_ne_nil _ _, .inr rfl⟩

namespace Sample

/-- The second operation of a history, which names the node of the first. -/
def childNode : DagNode where
  operations := .v2 (refRemove "op-2" [rootNode.hash])
  timestamp := 0
  parents := [rootNode.hash]
  hash := computeHash host (.v2 (refRemove "op-2" [rootNode.hash])) [rootNode.hash] 0 "node1"
  nodeId := "node1"

example : fromOperationV2 host (refRemove "op-2" [rootNode.hash]) "node1" = .ok childNode :=
  rfl

/-- The history of the two operations. -/
def chain : MerkleDAG where
  nodes := (oneNode rootNode).nodes.insert childNode.hash childNode
  heads := insert childNode.hash ((oneNode rootNode).heads \ childNode.parents.toFinset)
  genesis := some rootNode.hash

theorem addNode_chain : (oneNode rootNode).addNode host childNode = .ok chain := by
  refine MerkleDAG.addNode_eq_ok_iff.2 ⟨?_, fun p hp => ?_, ?_⟩
  · simp [verifyHash, childNode]
  · rw [mem_singleton.1 hp]
    rfl
  · rfl

theorem wellFormed_chain : chain.WellFormed host := by
  refine (wellFormed_oneNode verifyHash_rootNode rfl).addNode_of_missing ?_ addNode_chain
  rw [oneNode, FMap.lookup_insert_ite, if_neg]
  · simp
  · rw [hash_rootNode]
    decide

/-- All nodes of the DAG hold an operation of version 2 with the parents of the node. -/
def AllV2 (dag : MerkleDAG) : Prop :=
  ∀ node, dag.Contains node → ∃ op, node.operations = .v2 op ∧ node.parents = op.parents

theorem allV2_oneNode : AllV2 (oneNode rootNode) := by
  intro node h
  rw [contains_oneNode.1 h]
  exact ⟨_, rfl, rfl⟩

theorem lookup_chain {hash : Hash} {node : DagNode} (h : chain.nodes.lookup hash = some node) :
    node = rootNode ∨ node = childNode := by
  rw [chain, FMap.lookup_insert_ite] at h
  split at h
  · exact .inr (Option.some.inj h).symm
  · exact .inl (contains_oneNode.1 ⟨hash, h⟩)

theorem allV2_chain : AllV2 chain := by
  rintro node ⟨hash, h⟩
  rcases lookup_chain h with rfl | rfl <;> exact ⟨_, rfl, rfl⟩

/-- A node with both operations announces to one that has the first. -/
noncomputable def lateSync : Exchange := exchange chain (oneNode rootNode)

theorem getTips_chain (order : IterOrder Hash) : chain.getTips order = ["op-2"] := by
  have hheads : chain.heads = {childNode.hash} := by
    show insert childNode.hash ({rootNode.hash} \ childNode.parents.toFinset) = _
    rw [show childNode.parents = [rootNode.hash] from rfl]
    simp
  unfold MerkleDAG.getTips MerkleDAG.getHeads
  rw [hheads, order.list_singleton]
  rfl

theorem listed_childNode : chain.Listed (refRemove "op-2" [rootNode.hash]) := by
  have hchild : chain.nodes.lookup childNode.hash = some childNode := Finmap.lookup_insert _
  refine ⟨childNode.hash, childNode, ⟨rootNode.hash, rfl, ?_⟩, hchild, rfl⟩
  exact .single (MerkleDAG.isParent_graph.2 ⟨childNode, hchild, mem_singleton_self _⟩)

/-- Libraries that carry the late bundle through base64 and the codec within the size limit,
with a filter that does not know the second operation. -/
structure CarriesLate (host : SyncHost) : Prop where
  base64 : host.decode64 (host.encode64 lateSync.nodeA.bloom.toBytes) =
    .ok lateSync.nodeA.bloom.toBytes
  codec : (lateSync.bundle host).RoundTrips host
  size : ¬ (lateSync.bundle host).TooLarge host maxBundleSize
  unknown : lateSync.nodeB.bloom.contains host (asBytes "op-2") = false

theorem getAllOperationsV2_chain (order : IterOrder Hash) :
    (chain.getAllOperationsV2 order).Perm
      [refRemove "op-1" [], refRemove "op-2" [rootNode.hash]] := by
  have hs := (MerkleDAG.sound_visits (Run.Visits.of_exec
    (exec_oneNode verifyHash_rootNode rfl))).addNode addNode_chain
  have hlists : chain.ListsHistory order := by
    refine MerkleDAG.listsHistory_of_rooted hs wellFormed_chain.acyclic fun node hn hparents => ?_
    obtain ⟨_, hlook⟩ := hn
    rcases lookup_chain hlook with rfl | rfl
    · rfl
    · cases hparents
  have hperm : (chain.topologicalSort order).Perm [rootNode, childNode] := by
    refine (perm_ext_iff_of_nodup hlists.once.of_map ?_).2 fun node => ?_
    · refine nodup_cons.2 ⟨fun hmem => ?_, nodup_singleton _⟩
      cases congrArg parents (mem_singleton.1 hmem)
    · rw [hlists.complete, mem_pair]
      refine ⟨fun ⟨_, hlook⟩ => lookup_chain hlook, ?_⟩
      rintro (rfl | rfl)
      · exact ⟨rootNode.hash, rfl⟩
      · exact ⟨childNode.hash, Finmap.lookup_insert _⟩
  exact hperm.filterMap _

theorem missingTips_lateSync {host : SyncHost}
    (h : lateSync.nodeB.bloom.contains host (asBytes "op-2") = false) :
    lateSync.missingTips host = ["op-2"] := by
  unfold missingTips findMissingFromTips
  rw [show lateSync.a = chain from rfl, getTips_chain]
  simp [h]

def lateBundle : OpBundle := bundleOf "op-2" [rootNode.hash]

theorem unknown_lateSync :
    lateSync.nodeB.bloom.contains (hostFor lateBundle) (asBytes "op-2") = false := by
  rw [nodeB, bloom_fromDag, show lateSync.b = oneNode rootNode from rfl,
    getAllOperationsV2_oneNode]
  decide

theorem bundle_lateSync : lateSync.bundle (hostFor lateBundle) = lateBundle := by
  unfold bundle served requestedOps
  rw [missingTips_lateSync unknown_lateSync, show lateSync.a = chain from rfl,
    perm_singleton.1 ((getAllOperationsV2_chain _).filter fun op => ["op-2"].contains op.opId)]
  rfl

theorem carriesLate_hostFor : CarriesLate (hostFor lateBundle) where
  base64 := by
    rw [nodeA, bloom_fromDag]
    decide
  codec := by
    rw [bundle_lateSync]
    exact roundTrips_hostFor _ _
  size := by
    rw [bundle_lateSync]
    rintro ⟨bytes, hbytes, hlt⟩
    cases hbytes
    exact absurd hlt (by decide +kernel)
  unknown := unknown_lateSync

end Sample

/-- A node that has the first of two operations asks for the second; the bundle with it
names a parent that is not in the bundle, and is rejected. -/
theorem pushAccepted_fails_late : (lateSync.a.WellFormed host ∧ AllV2 lateSync.a) ∧
    (lateSync.b.WellFormed host ∧ AllV2 lateSync.b) ∧
    CarriesLate (hostFor lateBundle) ∧
    ¬ ∃ host : SyncHost, CarriesLate host ∧ lateSync.PushAccepted host := by
  refine ⟨⟨wellFormed_chain, allV2_chain⟩,
    ⟨wellFormed_oneNode verifyHash_rootNode rfl, allV2_oneNode⟩, carriesLate_hostFor, ?_⟩
  rintro ⟨host, hcarries, haccepted⟩
  have hmissing := missingTips_lateSync hcarries.unknown
  obtain ⟨-, hfits⟩ := servable_of_pushAccepted hcarries.base64 hcarries.codec haccepted
    (by rw [hmissing]; exact cons_ne_nil _ _)
  have hparent := hfits.resolve_left hcarries.size _ listed_childNode
    (by rw [hmissing]; exact mem_singleton_self _) rootNode.hash
    (mem_singleton_self _) (by decide)
  rw [hmissing] at hparent
  exact absurd hparent.1 (by decide)

end Idiom.Ajna
