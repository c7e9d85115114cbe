import Idiom.Ajna.DagMerge
import Idiom.Lib.DepthFirst

/-!
# Listing the history

`topologicalSort` is a depth-first search from the genesis along the children, read
backwards. It instantiates `DepthFirst`, whose vertices are the hashes and whose
finishing order, read backwards, puts parents first. A second node without parents is
never reached.
-/

namespace Idiom.Ajna

open Relation DepthFirst List Sample ParentGraph Run

variable {host : Host}

namespace MerkleDAG

variable {dag : MerkleDAG} {order : IterOrder Hash}

/-! ## The search -/

/-- The children of a node, in iteration order. -/
def next (dag : MerkleDAG) (order : IterOrder Hash) (hash : Hash) : List Hash :=
  ((dag.entries order).filter fun child => hash ∈ child.2.parents).map Prod.fst

theorem edge_next (dag : MerkleDAG) (order : IterOrder Hash) :
    Edge (dag.next order) = dag.graph.IsParent := by
  funext p hash
  refine propext ?_
  unfold Edge next
  rw [isParent_graph, mem_map]
  constructor
  · rintro ⟨⟨_, n⟩, hmem, rfl⟩
    obtain ⟨hentry, hparent⟩ := mem_filter.1 hmem
    exact ⟨n, (mem_entries order).1 hentry, of_decide_eq_true hparent⟩
  · rintro ⟨n, hn, hparent⟩
    exact ⟨(hash, n), mem_filter.2 ⟨(mem_entries order).2 hn, decide_eq_true hparent⟩, rfl⟩

/-- The marks of the source, which lists nodes where the search lists hashes. -/
def view (dag : MerkleDAG) (s : Marks Hash) : Visit :=
  ⟨s.visited, s.temp, s.out.filterMap fun hash => dag.nodes.lookup hash⟩

theorem visitNode_view (dag : MerkleDAG) (order : IterOrder Hash) (fuel : ℕ) (hash : Hash)
    (s : Marks Hash) :
    dag.visitNode order fuel hash (dag.view s) = dag.view (visit (dag.next order) fuel hash s) := by
  induction fuel generalizing hash s with
  | zero => rfl
  | succ fuel ih =>
    -- the source looks at every entry and skips those that are no children
    have hloop : ∀ (l : List (Hash × DagNode)) (s : Marks Hash),
        l.foldl (fun s child =>
            if hash ∈ child.2.parents then dag.visitNode order fuel child.1 s else s) (dag.view s) =
          dag.view (((l.filter fun child => hash ∈ child.2.parents).map Prod.fst).foldl
            (fun s c => visit (dag.next order) fuel c s) s) := by
      intro l
      induction l with
      | nil => exact fun _ => rfl
      | cons child l ihl =>
        intro s
        rw [foldl_cons]
        by_cases hparent : hash ∈ child.2.parents
        · rw [if_pos hparent, ih, ihl, filter_cons, if_pos (decide_eq_true hparent)]
          rfl
        · rw [if_neg hparent, ihl, filter_cons, if_neg (by simpa using hparent)]
    rw [visitNode, visit]
    by_cases hdone : hash ∈ s.visited
    · rw [if_pos hdone, if_pos (show hash ∈ (dag.view s).visited from hdone)]
    rw [if_neg hdone, if_neg (show hash ∉ (dag.view s).visited from hdone)]
    by_cases hopen : hash ∈ s.temp
    · rw [if_pos hopen, if_pos (show hash ∈ (dag.view s).tempMark from hopen)]
    rw [if_neg hopen, if_neg (show hash ∉ (dag.view s).tempMark from hopen)]
    have hopened := hloop (dag.entries order) { s with temp := insert hash s.temp }
    have hpush : (dag.nodes.lookup hash).toList =
        [hash].filterMap fun hash => dag.nodes.lookup hash := by
      cases h : dag.nodes.lookup hash <;> simp [h]
    simp only [view] at hopened ⊢
    rw [hopened, hpush]
    simp only [next, filterMap_append]

theorem mem_insert_of_edge (dag : MerkleDAG) (order : IterOrder Hash) (start : Hash) :
    ∀ v ∈ insert start dag.graph.verts, ∀ c, Edge (dag.next order) v c →
      c ∈ insert start dag.graph.verts := by
  intro v _ c hc
  rw [edge_next] at hc
  exact Finset.mem_insert_of_mem hc.mem

theorem card_insert_verts_le (start : Hash) :
    (insert start dag.graph.verts).card ≤ dag.nodes.keys.card + 1 :=
  Finset.card_insert_le start dag.graph.verts

/-- The depth bound of `topologicalSort` is enough: a deeper recursion changes nothing. -/
theorem visitNode_fuel (genesis : Hash) (k : ℕ) :
    dag.visitNode order (dag.nodes.keys.card + 1 + k) genesis ⟨∅, ∅, []⟩ =
      dag.visitNode order (dag.nodes.keys.card + 1) genesis ⟨∅, ∅, []⟩ := by
  have hview := fun fuel => visitNode_view dag order fuel genesis ⟨∅, ∅, []⟩
  have hcard : (insert genesis dag.graph.verts \ ∅).card ≤ dag.nodes.keys.card + 1 := by
    rw [Finset.sdiff_empty]
    exact card_insert_verts_le genesis
  have hfuel := visit_fuel (dag.next order) (mem_insert_of_edge dag order genesis)
    (s := ⟨∅, ∅, []⟩) (Finset.mem_insert_self genesis _) hcard k
  exact (hview _).trans (hfuel ▸ (hview _).symm)

/-! ## The list -/

theorem topologicalSort_of_genesis (order : IterOrder Hash) {genesis : Hash}
    (h : dag.genesis = some genesis) :
    dag.topologicalSort order = ((visit (dag.next order) (dag.nodes.keys.card + 1)
      genesis ⟨∅, ∅, []⟩).out.filterMap fun hash => dag.nodes.lookup hash).reverse := by
  have hview := visitNode_view dag order (dag.nodes.keys.card + 1) genesis ⟨∅, ∅, []⟩
  unfold topologicalSort
  rw [h]
  exact congrArg (fun s : Visit => s.result.reverse) hview

def Reachable (dag : MerkleDAG) (hash : Hash) : Prop :=
  ∃ genesis, dag.genesis = some genesis ∧ ReflTransGen dag.graph.IsParent genesis hash

theorem mem_topologicalSort {node : DagNode} :
    node ∈ dag.topologicalSort order ↔
      ∃ hash, dag.Reachable hash ∧ dag.nodes.lookup hash = some node := by
  cases hg : dag.genesis with
  | none => simp [topologicalSort, Reachable, hg]
  | some genesis =>
    rw [topologicalSort_of_genesis order hg, mem_reverse, mem_filterMap]
    refine exists_congr fun hash => and_congr_left fun _ => ?_
    rw [mem_out (mem_insert_of_edge dag order genesis) (Finset.mem_insert_self genesis _)
      (card_insert_verts_le genesis), edge_next]
    simp [Reachable, hg]

/-- The operation of version 2 is in the listing. -/
def Listed (dag : MerkleDAG) (op : Operation) : Prop :=
  ∃ hash node, dag.Reachable hash ∧ dag.nodes.lookup hash = some node ∧
    node.getOperationV2 = some op

theorem mem_getAllOperationsV2 (order : IterOrder Hash) {op : Operation} :
    op ∈ dag.getAllOperationsV2 order ↔ dag.Listed op := by
  unfold getAllOperationsV2 Listed
  rw [mem_filterMap]
  constructor
  · rintro ⟨node, hnode, hop⟩
    obtain ⟨hash, hreach, hlook⟩ := mem_topologicalSort.1 hnode
    exact ⟨hash, node, hreach, hlook, hop⟩
  · rintro ⟨hash, node, hreach, hlook, hop⟩
    exact ⟨node, mem_topologicalSort.2 ⟨hash, hreach, hlook⟩, hop⟩

theorem map_hash_filterMap (hk : dag.WellKeyed) {l : List Hash}
    (hl : ∀ hash ∈ l, hash ∈ dag.graph.verts) :
    (l.filterMap fun hash => dag.nodes.lookup hash).map DagNode.hash = l := by
  induction l with
  | nil => rfl
  | cons hash l ih =>
    obtain ⟨n, hn⟩ := mem_verts.1 (hl hash mem_cons_self)
    rw [filterMap_cons_some (f := fun hash => dag.nodes.lookup hash) hn, map_cons,
      hk hash n hn, ih fun v hv => hl v (mem_cons_of_mem _ hv)]

structure ListsHistory (dag : MerkleDAG) (order : IterOrder Hash) : Prop where
  complete : ∀ node, node ∈ dag.topologicalSort order ↔ dag.Contains node
  once : ((dag.topologicalSort order).map DagNode.hash).Nodup
  causal : ∀ l₁ node l₂, dag.topologicalSort order = l₁ ++ node :: l₂ →
    ∀ p ∈ node.parents, p ∈ l₁.map DagNode.hash
  /-- No legacy operation is lost. -/
  operations : ∀ node, dag.Contains node →
    ∀ op ∈ node.getOperations, op ∈ dag.getAllOperations order
  /-- No operation of version 2 is lost. -/
  operationsV2 : ∀ node, dag.Contains node →
    ∀ op ∈ node.getOperationV2, op ∈ dag.getAllOperationsV2 order
  /-- The legacy operations of a parent come before those of its child. -/
  causes : ∀ parent node, dag.Contains parent → dag.Contains node →
    parent.hash ∈ node.parents → ∃ before between after, dag.getAllOperations order =
      before ++ parent.getOperations ++ between ++ node.getOperations ++ after
  /-- The operation of version 2 of a parent comes before that of its child. -/
  causesV2 : ∀ parent node, dag.Contains parent → dag.Contains node →
    parent.hash ∈ node.parents → ∃ before between after, dag.getAllOperationsV2 order =
      before ++ parent.getOperationV2.toList ++ between ++ node.getOperationV2.toList ++ after

theorem exists_split (hk : dag.WellKeyed) {l : List DagNode}
    (hcomplete : ∀ node, node ∈ l ↔ dag.Contains node)
    (hcausal : ∀ l₁ node l₂, l = l₁ ++ node :: l₂ → ∀ p ∈ node.parents, p ∈ l₁.map DagNode.hash)
    {parent node : DagNode} (hp : dag.Contains parent) (hn : dag.Contains node)
    (hmem : parent.hash ∈ node.parents) :
    ∃ before between after, l = before ++ parent :: (between ++ node :: after) := by
  obtain ⟨l₁, after, rfl⟩ := append_of_mem ((hcomplete node).2 hn)
  obtain ⟨x, hx, hhash⟩ := mem_map.1 (hcausal l₁ node after rfl _ hmem)
  have hxl := (hcomplete x).1 (mem_append_left _ hx)
  obtain rfl := eq_of_hash_eq hk hxl hp hhash
  obtain ⟨before, between, rfl⟩ := append_of_mem hx
  exact ⟨before, between, after, by simp⟩

theorem listsHistory_of_nodes (hk : dag.WellKeyed)
    (hcomplete : ∀ node, node ∈ dag.topologicalSort order ↔ dag.Contains node)
    (honce : ((dag.topologicalSort order).map DagNode.hash).Nodup)
    (hcausal : ∀ l₁ node l₂, dag.topologicalSort order = l₁ ++ node :: l₂ →
      ∀ p ∈ node.parents, p ∈ l₁.map DagNode.hash) : dag.ListsHistory order where
  complete := hcomplete
  once := honce
  causal := hcausal
  operations node hn op hop := mem_flatMap.2 ⟨node, (hcomplete node).2 hn, hop⟩
  operationsV2 node hn op hop := mem_filterMap.2 ⟨node, (hcomplete node).2 hn, hop⟩
  causes parent node hp hn hmem := by
    obtain ⟨before, between, after, hsplit⟩ := exists_split hk hcomplete hcausal hp hn hmem
    refine ⟨before.flatMap DagNode.getOperations, between.flatMap DagNode.getOperations,
      after.flatMap DagNode.getOperations, ?_⟩
    unfold getAllOperations
    rw [hsplit]
    simp
  causesV2 parent node hp hn hmem := by
    obtain ⟨before, between, after, hsplit⟩ := exists_split hk hcomplete hcausal hp hn hmem
    refine ⟨before.filterMap DagNode.getOperationV2, between.filterMap DagNode.getOperationV2,
      after.filterMap DagNode.getOperationV2, ?_⟩
    unfold getAllOperationsV2
    rw [hsplit]
    cases h : parent.getOperationV2 <;> cases h' : node.getOperationV2 <;>
      simp [h, h']

/-! ## What is listed -/

theorem exists_finishing (order : IterOrder Hash) (hs : dag.Sound host)
    (ha : dag.graph.Acyclic) {genesis : Hash} (hg : dag.genesis = some genesis) :
    ∃ s : Marks Hash, Finishing (dag.next order) s ∧
      (∀ hash, hash ∈ s.visited ↔ dag.Reachable hash) ∧
      (dag.topologicalSort order).map DagNode.hash = s.out.reverse := by
  have hmem : genesis ∈ dag.graph.verts := by
    rcases hs.genesis with ⟨hnone, -⟩ | ⟨g, hsome, hmem⟩
    · rw [hg] at hnone
      cases hnone
    · rw [hg] at hsome
      cases hsome
      exact hmem
  have hfin : Finishing (dag.next order) (visit (dag.next order)
      (dag.nodes.keys.card + 1) genesis ⟨∅, ∅, []⟩) := by
    refine visit_finishing ?_ (mem_insert_of_edge dag order genesis) _ _ _ ?_
      (Finset.mem_insert_self genesis _) (fun t ht => absurd ht (Finset.notMem_empty t)) ?_
    · rw [edge_next]
      exact ha
    · exact ⟨fun v => by simp, nodup_nil, fun l₁ v l₂ h => by simp at h⟩
    · rw [Finset.sdiff_empty]
      exact card_insert_verts_le genesis
  have hvisited := mem_visited (mem_insert_of_edge dag order genesis)
    (Finset.mem_insert_self genesis _) (card_insert_verts_le genesis)
  rw [edge_next] at hvisited
  refine ⟨_, hfin, fun hash => ?_, ?_⟩
  · rw [hvisited]
    simp [Reachable, hg]
  · rw [topologicalSort_of_genesis order hg, map_reverse, map_hash_filterMap hs.keyed]
    intro hash hhash
    have hpath := (hvisited hash).1 ((hfin.mem_out hash).1 hhash)
    rcases ReflTransGen.cases_tail hpath with rfl | ⟨_, -, hstep⟩
    · exact hmem
    · exact hstep.mem

theorem reachable_of_rooted (hs : dag.Sound host) (ha : dag.graph.Acyclic)
    (hroot : ∀ node, dag.Contains node → node.parents = [] → dag.genesis = some node.hash)
    {hash : Hash} (hmem : hash ∈ dag.graph.verts) : dag.Reachable hash := by
  obtain ⟨r, hr, hparents, hpath⟩ := exists_root hs.closed ha hash hmem
  obtain ⟨n, hn⟩ := mem_verts.1 hr
  rw [parents_graph hn] at hparents
  have hgen := hroot n ⟨r, hn⟩ hparents
  rw [hs.keyed r n hn] at hgen
  exact ⟨r, hgen, hpath⟩

theorem topologicalSort_ordered (order : IterOrder Hash) (hs : dag.Sound host)
    (ha : dag.graph.Acyclic) :
    ((dag.topologicalSort order).map DagNode.hash).Nodup ∧
      ∀ l₁ node l₂, dag.topologicalSort order = l₁ ++ node :: l₂ →
        ∀ p ∈ node.parents, dag.Reachable p → p ∈ l₁.map DagNode.hash := by
  cases hg : dag.genesis with
  | none =>
    have hsort : dag.topologicalSort order = [] := by rw [topologicalSort, hg]
    exact ⟨by simp [hsort], fun l₁ node l₂ h => by simp [hsort] at h⟩
  | some genesis =>
    obtain ⟨s, hfin, hvisited, hhashes⟩ := exists_finishing order hs ha hg
    refine ⟨?_, fun l₁ node l₂ hsplit p hp hreach => ?_⟩
    · rw [hhashes]
      exact nodup_reverse.2 hfin.nodup
    · have hn : node ∈ dag.topologicalSort order := by simp [hsplit]
      obtain ⟨hash, -, hlook⟩ := mem_topologicalSort.1 hn
      have hedge : dag.graph.IsParent p node.hash := by
        rw [hs.keyed hash node hlook]
        exact isParent_graph.2 ⟨node, hlook, hp⟩
      have hout : s.out = (l₂.map DagNode.hash).reverse ++ node.hash ::
          (l₁.map DagNode.hash).reverse := by
        rw [← reverse_reverse s.out, ← hhashes, hsplit]
        simp
      have hmem := hfin.mem_of_edge hout ((hvisited p).2 hreach) (by rw [edge_next]; exact hedge)
      exact mem_reverse.1 hmem

theorem listsHistory_of_rooted (hs : dag.Sound host) (ha : dag.graph.Acyclic)
    (hroot : ∀ node, dag.Contains node → node.parents = [] → dag.genesis = some node.hash) :
    dag.ListsHistory order := by
  have hall : ∀ hash ∈ dag.graph.verts, dag.Reachable hash :=
    fun hash hmem => reachable_of_rooted hs ha hroot hmem
  have hcomplete : ∀ node, node ∈ dag.topologicalSort order ↔ dag.Contains node := by
    intro node
    rw [mem_topologicalSort]
    exact ⟨fun ⟨hash, _, hn⟩ => ⟨hash, hn⟩,
      fun ⟨hash, hn⟩ => ⟨hash, hall hash (mem_verts.2 ⟨node, hn⟩), hn⟩⟩
  obtain ⟨honce, hordered⟩ := topologicalSort_ordered order hs ha
  refine listsHistory_of_nodes hs.keyed hcomplete honce fun l₁ node l₂ hsplit p hp => ?_
  obtain ⟨hash, hlook⟩ := (hcomplete node).1 (by simp [hsplit])
  have hedge : dag.graph.IsParent p hash := isParent_graph.2 ⟨node, hlook, hp⟩
  exact hordered l₁ node l₂ hsplit p hp (hall p (hs.closed _ _ hedge))

theorem ListsHistory.acyclic (hk : dag.WellKeyed) (h : dag.ListsHistory order) :
    dag.graph.Acyclic := by
  refine acyclic_of_rank (fun hash => ((dag.topologicalSort order).map DagNode.hash).idxOf hash)
    fun p hash hp => ?_
  obtain ⟨n, hn, hmem⟩ := isParent_graph.1 hp
  obtain ⟨l₁, l₂, hsplit⟩ := append_of_mem ((h.complete n).2 ⟨hash, hn⟩)
  have hparent := h.causal l₁ n l₂ hsplit p hmem
  have honce := h.once
  rw [hsplit, map_append, map_cons, hk hash n hn] at honce ⊢
  have hlate : hash ∉ l₁.map DagNode.hash := fun hearly =>
    (nodup_append.1 honce).2.2 hash hearly hash mem_cons_self rfl
  rw [idxOf_append_of_mem hparent, idxOf_append_of_notMem hlate]
  have hlt := idxOf_lt_length_of_mem hparent
  omega

theorem ListsHistory.genesis_eq (hk : dag.WellKeyed) (h : dag.ListsHistory order) {node : DagNode}
    (hn : dag.Contains node) (hparents : node.parents = []) : dag.genesis = some node.hash := by
  obtain ⟨hash, ⟨genesis, hg, hpath⟩, hlook⟩ := mem_topologicalSort.1 ((h.complete node).2 hn)
  rw [hg, hk hash node hlook]
  rcases ReflTransGen.cases_tail hpath with rfl | ⟨p, -, hstep⟩
  · rfl
  · rw [IsParent, parents_graph hlook, hparents] at hstep
    cases hstep

end MerkleDAG

open MerkleDAG

/-- **A DAG that `add_node` and `merge` can build is listed in full, each node once and
after its parents, if and only if it has no cycle and no node without parents besides the
genesis.** -/
theorem listsHistory_iff (host : Host) (calls : List DagCall) (dag : MerkleDAG)
    (order : IterOrder Hash) (h : exec (step host) new calls = some dag) :
    dag.ListsHistory order ↔
      dag.graph.Acyclic ∧
        ∀ node, dag.Contains node → node.parents = [] → dag.genesis = some node.hash := by
  have hs : dag.Sound host := sound_visits (Visits.of_exec h)
  constructor
  · intro hlists
    exact ⟨hlists.acyclic hs.keyed, fun node hn hp => hlists.genesis_eq hs.keyed hn hp⟩
  · rintro ⟨ha, hroot⟩
    exact listsHistory_of_rooted hs ha hroot

/-- A fork: a root with two children. -/
theorem listsHistory_fork :
    ∃ dag, exec (step Sample.host) new ([root, left, right].map .addNode) = some dag ∧
      ∀ order, dag.ListsHistory order := by
  have horders : Appends Sample.host [] [root, left, right] :=
    ⟨by decide, by decide, by decide, trivial⟩
  obtain ⟨dag, hexec, hdag⟩ := (holds_new Sample.host).exec_addNodes horders
  refine ⟨dag, hexec, fun order =>
    (listsHistory_iff Sample.host _ dag order hexec).2 ⟨hdag.wellFormed.acyclic, ?_⟩⟩
  intro node hn hparents
  have hmem := (hdag.contains node).1 hn
  simp only [nil_append, mem_cons, not_mem_nil, or_false] at hmem
  rcases hmem with rfl | rfl | rfl
  · exact hdag.genesis
  all_goals cases hparents

/-- Two nodes without parents: the second is not listed, whatever hash tells the two
apart. -/
theorem listsHistory_fails_twoRoots :
    (dagNode Sample.host [] 0).hash ≠ (secondRoot Sample.host).hash ∧
    ¬ ∃ host : Host, (dagNode host [] 0).hash ≠ (secondRoot host).hash ∧
      ∀ (calls : List DagCall) (dag : MerkleDAG) (order : IterOrder Hash),
        exec (step host) new calls = some dag →
        dag.ListsHistory order := by
  refine ⟨by decide, ?_⟩
  rintro ⟨host, hne, hclaim⟩
  have hv : (secondRoot host).verifyHash host = true :=
    DagNode.verifyHash_new host [] [] "node10" 0
  have hp : (oneNode (dagNode host [] 0)).HasParents
      (secondRoot host).parents := fun p hp => (nomatch hp)
  have hok := addNode_eq_ok_iff.2 ⟨hv, hp, rfl⟩
  have hexec := exec_append_eq_some.2
    ⟨_, exec_oneNode (verifyHash_dagNode host [] 0) rfl,
      exec_cons_eq_some.2 ⟨_, step_addNode_of_ok hok, exec_nil _⟩⟩
  have hlists := hclaim _ _ IterOrder.some hexec
  have hs := sound_visits (Visits.of_exec hexec)
  have hgenesis := hlists.genesis_eq hs.keyed
    (show Contains _ (secondRoot host) from ⟨_, Finmap.lookup_insert _⟩) rfl
  -- the genesis is still the first node
  exact hne (Option.some.inj hgenesis)

end Idiom.Ajna
