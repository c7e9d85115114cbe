import Idiom.Ajna.DagShape
import Idiom.Ajna.OperationV2

/-!
# What the Merkle root commits to

The root is the hash of the sorted heads, and each node hash is the hash of its fields,
laid out one after the other without separators; for an operation of version 2 only its
self-declared `op_id` is laid out. So two different nodes can have the same bytes, and
`addNode` cannot tell one from the other.
-/

namespace Idiom.Ajna

open Relation Sample List Run

/-- A digest has 43 bytes: 32 bytes in base64url without padding. -/
def Host.FixedLength (host : Host) : Prop :=
  ∀ bytes, (asBytes (host.digest bytes)).length = 43

/-- No two of the given byte strings have the same digest. -/
def Host.CollisionFree (host : Host) (bytes : Set (List UInt8)) : Prop :=
  Set.InjOn host.digest bytes

def DagNode.hashedBytes (host : Host) (node : DagNode) : List UInt8 :=
  dstAjnaRoot ++
    (match node.operations with
      | .legacy ops => ops.flatMap fun op => ((host.opJson op).map asBytes).getD []
      | .v2 op => asBytes op.opId) ++
    node.parents.flatMap asBytes ++ asBytes (host.rfc3339 node.timestamp) ++ asBytes node.nodeId

variable {node : DagNode}

theorem DagNode.hash_eq_digest {host : Host} (h : node.verifyHash host = true) :
    node.hash = host.digest (node.hashedBytes host) := by
  simp only [DagNode.verifyHash, decide_eq_true_eq] at h
  exact h.symm

/-! ## Lists of blocks -/

theorem asBytes_injective : Function.Injective asBytes := by
  intro s t h
  exact String.toByteArray_inj.1 (ByteArray.ext (Array.toList_inj.1 h))

/-- Blocks of one length can be read back from their concatenation. -/
theorem flatMap_asBytes_inj {n : ℕ} (hn : 0 < n) :
    ∀ {l₁ l₂ : List String}, (∀ s ∈ l₁, (asBytes s).length = n) →
      (∀ s ∈ l₂, (asBytes s).length = n) → l₁.flatMap asBytes = l₂.flatMap asBytes → l₁ = l₂ := by
  have hne : ∀ {s : String} {l : List String}, (asBytes s).length = n →
      ¬ [] = (s :: l).flatMap asBytes := by
    intro s l hlen h
    have := congrArg length h
    simp only [flatMap_cons, length_nil, length_append] at this
    omega
  intro l₁
  induction l₁ with
  | nil =>
    intro l₂ _ h₂ h
    cases l₂ with
    | nil => rfl
    | cons t l₂ => exact absurd h (hne (h₂ t mem_cons_self))
  | cons s l₁ ih =>
    intro l₂ h₁ h₂ h
    cases l₂ with
    | nil => exact absurd h.symm (hne (h₁ s mem_cons_self))
    | cons t l₂ =>
      rw [flatMap_cons] at h
      obtain ⟨hhead, htail⟩ := append_inj h ((h₁ s mem_cons_self).trans (h₂ t mem_cons_self).symm)
      rw [asBytes_injective hhead, ih (fun s' hs' => h₁ s' (mem_cons_of_mem s hs'))
        (fun t' ht' => h₂ t' (mem_cons_of_mem t ht')) htail]

theorem heads_eq_of_rootBytes {host : Host} (hlen : host.FixedLength) {heads₁ heads₂ : Finset Hash}
    (h₁ : ∀ h ∈ heads₁, ∃ bytes, h = host.digest bytes)
    (h₂ : ∀ h ∈ heads₂, ∃ bytes, h = host.digest bytes)
    (h : MerkleDAG.rootBytes heads₁ = MerkleDAG.rootBytes heads₂) : heads₁ = heads₂ := by
  have hblock : ∀ heads : Finset Hash, (∀ h ∈ heads, ∃ bytes, h = host.digest bytes) →
      ∀ s ∈ heads.sort, (asBytes s).length = 43 := by
    intro heads hheads s hs
    obtain ⟨bytes, rfl⟩ := hheads s ((Finset.mem_sort _).1 hs)
    exact hlen bytes
  have hsort := flatMap_asBytes_inj (by decide) (hblock heads₁ h₁) (hblock heads₂ h₂)
    (append_cancel_left h)
  rw [← Finset.sort_toFinset heads₁ (· ≤ ·), hsort, Finset.sort_toFinset]

namespace MerkleDAG

/-- All the byte strings hashed for a DAG: those of its nodes and of its root. -/
def hashedIn (host : Host) (dag : MerkleDAG) : Set (List UInt8) :=
  {bytes | bytes = rootBytes dag.heads ∨ ∃ node, dag.Contains node ∧ bytes = node.hashedBytes host}

theorem Stored.head_eq_digest {host : Host} {dag : MerkleDAG} (h : dag.Stored host)
    (hheads : dag.heads ⊆ dag.graph.verts) :
    ∀ head ∈ dag.heads, ∃ bytes, head = host.digest bytes := by
  intro head hmem
  obtain ⟨node, hn⟩ := mem_verts.1 (hheads hmem)
  refine ⟨node.hashedBytes host, ?_⟩
  rw [← DagNode.hash_eq_digest (h.verified head node hn), h.keyed head node hn]

theorem heads_eq_of_computeRoot {host : Host} (hlen : host.FixedLength) {a b : MerkleDAG}
    (ha : a.Stored host) (hheadsA : a.heads ⊆ a.graph.verts) (hb : b.Stored host)
    (hheadsB : b.heads ⊆ b.graph.verts)
    (hcf : host.CollisionFree {rootBytes a.heads, rootBytes b.heads})
    (h : a.computeRoot host = b.computeRoot host) : a.heads = b.heads :=
  heads_eq_of_rootBytes hlen (ha.head_eq_digest hheadsA) (hb.head_eq_digest hheadsB)
    (hcf (Set.mem_insert _ _) (Set.mem_insert_of_mem _ rfl) h)

/-! ## The whole history -/

/-- The DAGs hold the same nodes: the same operations with all their fields, the same
parents, timestamps and node ids. -/
def SameHistory (a b : MerkleDAG) : Prop := ∀ node, a.Contains node ↔ b.Contains node

/-- Equal roots mean equal histories. -/
def RootCommits (host : Host) (a b : MerkleDAG) : Prop :=
  a.computeRoot host = b.computeRoot host → a.SameHistory b

/-- No node of one DAG has the bytes of a different node of the other. -/
def NoTwins (host : Host) (a b : MerkleDAG) : Prop :=
  ∀ x y, a.Contains x → b.Contains y → x.hashedBytes host = y.hashedBytes host → x = y

/-- The hash is a head or an ancestor of one. -/
def Anchored (dag : MerkleDAG) (hash : Hash) : Prop :=
  ∃ head ∈ dag.heads, ReflTransGen dag.graph.IsParent hash head

/-- The other DAG holds every node that is cut off from the heads. -/
def LooseShared (a b : MerkleDAG) : Prop :=
  ∀ node, a.Contains node → ¬ a.Anchored node.hash → b.Contains node

section

variable {host : Host} {a b : MerkleDAG}

theorem agree_of_noTwins (ha : a.Sound host) (hb : b.Sound host)
    (hcf : host.CollisionFree (a.hashedIn host ∪ b.hashedIn host)) (htwins : NoTwins host a b)
    {hash : Hash} {x y : DagNode} (hx : a.nodes.lookup hash = some x)
    (hy : b.nodes.lookup hash = some y) : x = y := by
  refine htwins x y ⟨hash, hx⟩ ⟨hash, hy⟩ (hcf (.inl (.inr ⟨x, ⟨hash, hx⟩, rfl⟩))
    (.inr (.inr ⟨y, ⟨hash, hy⟩, rfl⟩)) ?_)
  rw [← DagNode.hash_eq_digest (ha.verified hash x hx),
    ← DagNode.hash_eq_digest (hb.verified hash y hy), ha.keyed hash x hx, hb.keyed hash y hy]

theorem contains_of_heads_eq (ha : a.Sound host) (hb : b.Sound host)
    (hagree : ∀ hash x y, a.nodes.lookup hash = some x → b.nodes.lookup hash = some y → x = y)
    (hloose : LooseShared a b) (hheads : a.heads = b.heads) (h : a.Contains node) :
    b.Contains node := by
  by_cases hanchor : a.Anchored node.hash
  · obtain ⟨head, hmem, hpath⟩ := hanchor
    have hparents : ∀ v ∈ a.graph.verts, v ∈ b.graph.verts → a.graph.parents v =
      b.graph.parents v := by
      intro v hva hvb
      obtain ⟨x, hx⟩ := mem_verts.1 hva
      obtain ⟨y, hy⟩ := mem_verts.1 hvb
      rw [parents_graph hx, parents_graph hy, hagree v x y hx hy]
    have hin := ParentGraph.mem_of_path_of_agree hb.closed hparents hpath (hb.heads (hheads ▸ hmem))
    obtain ⟨y, hy⟩ := mem_verts.1 hin
    rw [hagree node.hash node y ((contains_iff ha.keyed).1 h) hy]
    exact ⟨_, hy⟩
  · exact hloose node h hanchor

end
end MerkleDAG

open MerkleDAG

open MerkleDAG in
/-- **Equal roots mean equal histories, if and only if the heads differ, or no two
different nodes of the DAGs have the same bytes and each DAG holds the nodes that are
cut off from the heads of the other.** -/
theorem rootCommits_iff (host : Host) (hlen : host.FixedLength) (callsA callsB : List DagCall)
    (a b : MerkleDAG) (ha : exec (step host) new callsA = some a)
    (hb : exec (step host) new callsB = some b)
    (hcf : host.CollisionFree (a.hashedIn host ∪ b.hashedIn host)) :
    RootCommits host a b ↔
      a.heads ≠ b.heads ∨ (NoTwins host a b ∧ LooseShared a b ∧ LooseShared b a) := by
  have hsa := sound_visits (Visits.of_exec ha)
  have hsb := sound_visits (Visits.of_exec hb)
  constructor
  · intro hcommits
    by_cases hheads : a.heads = b.heads
    · have hsame := hcommits (by rw [computeRoot, computeRoot, hheads])
      refine .inr ⟨fun x y hx hy hbytes => ?_, fun node h _ => (hsame node).1 h,
        fun node h _ => (hsame node).2 h⟩
      -- equal bytes are equal hashes
      obtain ⟨hashX, hlookX⟩ := hx
      obtain ⟨hashY, hlookY⟩ := (hsame y).2 hy
      refine eq_of_hash_eq hsa.keyed ⟨hashX, hlookX⟩ ⟨hashY, hlookY⟩ ?_
      rw [DagNode.hash_eq_digest (hsa.verified _ x hlookX), hbytes,
        ← DagNode.hash_eq_digest (hsa.verified _ y hlookY)]
    · exact .inl hheads
  · intro hcond hroot
    have hheads : a.heads = b.heads := by
      refine heads_eq_of_computeRoot hlen hsa.toStored hsa.heads hsb.toStored hsb.heads
        (hcf.mono ?_) hroot
      rintro bytes (rfl | rfl)
      · exact .inl (.inl rfl)
      · exact .inr (.inl rfl)
    rcases hcond with hne | ⟨htwins, hlooseA, hlooseB⟩
    · exact absurd hheads hne
    · have hagree : ∀ hash x y, a.nodes.lookup hash = some x → b.nodes.lookup hash = some y →
          x = y := fun hash x y hx hy => agree_of_noTwins hsa hsb hcf htwins hx hy
      exact fun node => ⟨contains_of_heads_eq hsa hsb hagree hlooseA hheads,
        contains_of_heads_eq hsb hsa (fun hash x y hx hy => (hagree hash y x hy hx).symm) hlooseB
          hheads.symm⟩

/-! ## Small DAGs -/

/-- Parents come first, and no hash comes twice. -/
def Sample.Appends (host : Host) : List DagNode → List DagNode → Prop
  | _, [] => True
  | before, node :: rest =>
    (node.verifyHash host = true ∧ (∀ p ∈ node.parents, p ∈ before.map DagNode.hash) ∧
      node.hash ∉ before.map DagNode.hash) ∧ Sample.Appends host (before ++ [node]) rest

/-- The DAG holds just these nodes. -/
structure Sample.Holds (host : Host) (dag : MerkleDAG) (nodes : List DagNode) : Prop where
  wellFormed : dag.WellFormed host
  contains : ∀ node, dag.Contains node ↔ node ∈ nodes
  genesis : dag.genesis = nodes.head?.map DagNode.hash

theorem Sample.Holds.mem_verts_iff {host : Host} {dag : MerkleDAG} {nodes : List DagNode}
    (h : Holds host dag nodes) (hash : Hash) :
    hash ∈ dag.graph.verts ↔ hash ∈ nodes.map DagNode.hash := by
  rw [mem_verts, mem_map]
  constructor
  · rintro ⟨n, hn⟩
    exact ⟨n, (h.contains n).1 ⟨hash, hn⟩, h.wellFormed.keyed hash n hn⟩
  · rintro ⟨n, hn, rfl⟩
    exact ⟨n, (contains_iff h.wellFormed.keyed).1 ((h.contains n).2 hn)⟩

theorem Sample.Holds.nodes_eq {host : Host} {a b : MerkleDAG} {nodes nodes' : List DagNode}
    (ha : Holds host a nodes) (hb : Holds host b nodes') (h : ∀ n, n ∈ nodes ↔ n ∈ nodes') :
    a.nodes = b.nodes := by
  refine Finmap.ext_lookup fun hash => Option.ext fun n => ?_
  constructor
  · intro hn
    obtain rfl := ha.wellFormed.keyed hash n hn
    exact (contains_iff hb.wellFormed.keyed).1
      ((hb.contains n).2 ((h n).1 ((ha.contains n).1 ⟨_, hn⟩)))
  · intro hn
    obtain rfl := hb.wellFormed.keyed hash n hn
    exact (contains_iff ha.wellFormed.keyed).1
      ((ha.contains n).2 ((h n).2 ((hb.contains n).1 ⟨_, hn⟩)))

theorem Sample.Holds.addNode {host : Host} {dag : MerkleDAG} {nodes : List DagNode}
    (h : Holds host dag nodes) (hv : node.verifyHash host = true)
    (hp : ∀ p ∈ node.parents, p ∈ nodes.map DagNode.hash)
    (hnew : node.hash ∉ nodes.map DagNode.hash) :
    ∃ dag', dag.addNode host node = .ok dag' ∧ Holds host dag' (nodes ++ [node]) := by
  have hparents : dag.HasParents node.parents :=
    hasParents_iff.2 fun p hmem => (h.mem_verts_iff p).2 (hp p hmem)
  have hok := addNode_eq_ok_iff.2 ⟨hv, hparents, rfl⟩
  have hmissing : dag.nodes.lookup node.hash = none := by
    rw [Option.eq_none_iff_forall_ne_some]
    exact fun n hn => hnew ((h.mem_verts_iff _).1 (mem_verts.2 ⟨n, hn⟩))
  refine ⟨_, hok, h.wellFormed.addNode_of_missing hmissing hok, fun n => ?_, ?_⟩
  · rw [contains_addNode hok hmissing, h.contains, mem_append, mem_singleton]
  · show (if dag.graph.verts = ∅ then _ else _) = _
    cases nodes with
    | nil =>
      rw [if_pos (Finset.eq_empty_iff_forall_notMem.2 fun hash hmem =>
        not_mem_nil ((h.mem_verts_iff hash).1 hmem))]
      rfl
    | cons first rest =>
      rw [if_neg (Finset.ne_empty_of_mem ((h.mem_verts_iff first.hash).2 mem_cons_self))]
      exact h.genesis

/-- **A list of nodes with parents first is added as a whole.** -/
theorem Sample.Holds.exec_addNodes {host : Host} {dag : MerkleDAG} {nodes rest : List DagNode}
    (h : Holds host dag nodes) (hrest : Appends host nodes rest) :
    ∃ dag', exec (step host) dag (rest.map .addNode) = some dag' ∧
      Holds host dag' (nodes ++ rest) := by
  induction rest generalizing dag nodes with
  | nil => exact ⟨dag, rfl, by rwa [append_nil]⟩
  | cons node rest ih =>
    obtain ⟨⟨hv, hp, hnew⟩, hrest⟩ := hrest
    obtain ⟨middle, hok, hmiddle⟩ := h.addNode hv hp hnew
    obtain ⟨dag', hexec, hdag'⟩ := ih hmiddle hrest
    rw [append_assoc] at hdag'
    exact ⟨dag', exec_cons_eq_some.2 ⟨middle, step_addNode_of_ok hok, hexec⟩, hdag'⟩

theorem Sample.holds_new (host : Host) : Holds host new [] where
  wellFormed := wellFormed_new host
  contains node := iff_of_false (fun ⟨hash, h⟩ => by simp [new] at h) not_mem_nil
  genesis := rfl

theorem Sample.host_fixedLength : host.FixedLength := by
  intro bytes
  simp only [host]
  split <;> decide

/-- The DAG of one node without parents. -/
def Sample.oneNode (node : DagNode) : MerkleDAG :=
  ⟨(∅ : FMap Hash DagNode).insert node.hash node, {node.hash}, some node.hash⟩

theorem Sample.addNode_new {host : Host} (hv : node.verifyHash host = true) (hp : node.parents = [])
    : new.addNode host node = .ok (oneNode node) := by
  refine addNode_eq_ok_iff.2 ⟨hv, fun p hmem => ?_, ?_⟩
  · rw [hp] at hmem
    cases hmem
  · rw [hp]
    rfl

theorem Sample.contains_oneNode {node x : DagNode} : (oneNode node).Contains x ↔ x = node := by
  refine ⟨fun ⟨hash, hx⟩ => ?_, fun hx => ⟨node.hash, hx ▸ Finmap.lookup_insert _⟩⟩
  rw [oneNode, FMap.lookup_insert_ite] at hx
  split at hx
  · exact (Option.some.inj hx).symm
  · simp at hx

theorem Sample.exec_oneNode {host : Host} (hv : node.verifyHash host = true)
    (hp : node.parents = []) : exec (step host) new [.addNode node] = some (oneNode node) :=
  exec_cons_eq_some.2 ⟨_, step_addNode_of_ok (addNode_new hv hp), rfl⟩

/-- The node of an operation of version 2 at the epoch. -/
def Sample.v2Node (host : Host) (operation : Operation) : DagNode where
  operations := .v2 operation
  timestamp := 0
  parents := operation.parents
  hash := DagNode.computeHash host (.v2 operation) operation.parents 0 "node1"
  nodeId := "node1"

theorem Sample.verifyHash_v2Node (host : Host) (operation : Operation) :
    (v2Node host operation).verifyHash host = true := by
  simp [DagNode.verifyHash, v2Node]

namespace Sample

def root : DagNode := dagNode host [] 0

/-- Two children of the root: one of version 2, one of legacy operations. -/
def left : DagNode := v2Node host (refRemove "op-1" [root.hash])

def right : DagNode := dagNode host [root.hash] 0

/-- A node without parents of another replica. -/
def secondRoot (host : Host) : DagNode := DagNode.new host [] [] "node10" 0

theorem digest_rootBytes {dag : MerkleDAG} (h : dag.Sound host) :
    host.digest (rootBytes dag.heads) = "AAAAAAAAAAAAAAAAAAAAAAAAAAAAAAAAAAAAAAAAAAA" := by
  have hlength : (rootBytes dag.heads).length = 12 + 43 * dag.heads.sort.length := by
    rw [rootBytes, length_append, length_flatMap, map_congr_left fun head hmem => ?_,
      map_const', sum_replicate_nat, Nat.mul_comm]
    · rfl
    · obtain ⟨bytes, rfl⟩ := h.head_eq_digest h.heads head ((Finset.mem_sort _).1 hmem)
      exact host_fixedLength bytes
  simp only [host, hlength]
  split <;> first | rfl | omega

theorem hash_ne {dag : MerkleDAG} (h : Holds host dag [root, left, right, secondRoot host])
    (hnode : dag.Contains node) : node.hash ≠ "AAAAAAAAAAAAAAAAAAAAAAAAAAAAAAAAAAAAAAAAAAA" := by
  have hmem := (h.contains node).1 hnode
  simp only [mem_cons, not_mem_nil, or_false] at hmem
  rcases hmem with rfl | rfl | rfl | rfl <;> decide

end Sample

/-- A fork and a second root, added in two orders. -/
theorem rootCommits_reordered :
    ∃ a b, exec (step host) new ([root, left, right, secondRoot host].map .addNode) = some a ∧
      exec (step host) new ([secondRoot host, root, right, left].map .addNode) = some b ∧
      a.genesis ≠ b.genesis ∧ a.computeRoot host = b.computeRoot host ∧ a.SameHistory b := by
  have hordersA : Appends host [] [root, left, right, secondRoot host] :=
    ⟨by decide, by decide, by decide, by decide, trivial⟩
  have hordersB : Appends host [] [secondRoot host, root, right, left] :=
    ⟨by decide, by decide, by decide, by decide, trivial⟩
  obtain ⟨a, hexecA, ha⟩ := (holds_new host).exec_addNodes hordersA
  obtain ⟨b, hexecB, hb⟩ := (holds_new host).exec_addNodes hordersB
  have hnodes : a.nodes = b.nodes := ha.nodes_eq hb fun n => by
    simp only [nil_append, mem_cons, not_mem_nil, or_false]
    tauto
  have hsa := sound_visits (Visits.of_exec hexecA)
  have hcontains : ∀ n, b.Contains n ↔ a.Contains n := fun n => by rw [Contains, Contains, hnodes]
  have hheads : b.heads = a.heads := by
    rw [ha.wellFormed.heads, hb.wellFormed.heads, graph_eq_of_nodes hnodes]
  have hdigest : ∀ {n}, a.Contains n → host.digest (n.hashedBytes host) = n.hash :=
    fun ⟨hash, hn⟩ => (DagNode.hash_eq_digest (hsa.verified hash _ hn)).symm
  have htwins : ∀ {x y}, a.Contains x → a.Contains y →
      host.digest (x.hashedBytes host) = host.digest (y.hashedBytes host) → x = y :=
    fun hx hy h => eq_of_hash_eq hsa.keyed hx hy (by rw [← hdigest hx, ← hdigest hy, h])
  have hroot := ha.wellFormed.computeRoot_eq hb.wellFormed hnodes
  refine ⟨a, b, hexecA, hexecB, ?_, hroot,
    (rootCommits_iff host host_fixedLength _ _ a b hexecA hexecB ?_).2 (.inr ⟨?_, ?_, ?_⟩) hroot⟩
  · rw [ha.genesis, hb.genesis]
    decide
  · have hsame : b.hashedIn host = a.hashedIn host := by
      simp only [hashedIn, hheads, hcontains]
    rw [hsame, Set.union_self]
    rintro x (rfl | ⟨n, hn, rfl⟩) y (rfl | ⟨n', hn', rfl⟩) hxy
    · rfl
    · rw [digest_rootBytes hsa, hdigest hn'] at hxy
      exact absurd hxy.symm (hash_ne ha hn')
    · rw [digest_rootBytes hsa, hdigest hn] at hxy
      exact absurd hxy (hash_ne ha hn)
    · rw [htwins hn hn' hxy]
  · exact fun x y hx hy hbytes => htwins hx ((hcontains y).1 hy) (by rw [hbytes])
  · exact fun n hn _ => (hcontains n).2 hn
  · exact fun n hn _ => (hcontains n).1 hn

/-- Another operation under the id of the sample operation. -/
def Sample.altered : Operation := { refRemove "op-1" [] with delta := .deactivate none }

/-- Two operations under one id: whatever hash is linked, their DAGs have the same root. -/
theorem rootCommits_fails_opId :
    ¬ ∃ host : Host, ∀ (callsA callsB : List DagCall) (a b : MerkleDAG),
      exec (step host) new callsA = some a →
      exec (step host) new callsB = some b →
      RootCommits host a b := by
  rintro ⟨host, hclaim⟩
  have hsame := hclaim _ _ _ _ (exec_oneNode (verifyHash_v2Node host (refRemove "op-1" [])) rfl)
    (exec_oneNode (verifyHash_v2Node host altered) rfl) rfl
  have hin := (hsame _).1 (contains_oneNode.2 rfl)
  have hops := congrArg DagNode.operations (contains_oneNode.1 hin)
  cases hops

end Idiom.Ajna
