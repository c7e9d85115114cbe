import Idiom.Ajna.MerkleDag
import Idiom.Lib.ParentGraph
import Idiom.Lib.Run

/-!
# The shape of the history

`MerkleDAG` is seen as a `ParentGraph`: a key is a vertex, and the parents of its node
are its parents. `addNode` sets a vertex, also one that is there already, and keeps the
heads by a shortcut: it takes the parents out and puts the node in. `merge` only adds
nodes that are missing.
-/

namespace Idiom.Ajna

open ParentGraph Finset Option Finmap Run

variable {host : Host}

namespace MerkleDAG

variable {dag dag' : MerkleDAG} {node : DagNode}

def graph (dag : MerkleDAG) : ParentGraph Hash where
  verts := dag.nodes.keys
  parents hash := ((dag.nodes.lookup hash).map DagNode.parents).getD []
  outside := by
    intro hash hmem
    rw [mem_keys, ← lookup_isSome, not_isSome_iff_eq_none] at hmem
    simp [hmem]

theorem mem_verts {hash : Hash} : hash ∈ dag.graph.verts ↔ ∃ n, dag.nodes.lookup hash = some n := by
  show hash ∈ dag.nodes.keys ↔ _
  rw [mem_keys, ← lookup_isSome, isSome_iff_exists]

theorem isParent_graph {p hash : Hash} :
    dag.graph.IsParent p hash ↔ ∃ n, dag.nodes.lookup hash = some n ∧ p ∈ n.parents := by
  show p ∈ ((dag.nodes.lookup hash).map DagNode.parents).getD [] ↔ _
  cases dag.nodes.lookup hash <;> simp

/-- The node is stored. -/
def Contains (dag : MerkleDAG) (node : DagNode) : Prop :=
  ∃ hash, dag.nodes.lookup hash = some node

theorem contains_iff (h : dag.WellKeyed) : dag.Contains node ↔ dag.nodes.lookup node.hash =
    some node := by
  refine ⟨fun ⟨hash, hn⟩ => ?_, fun hn => ⟨_, hn⟩⟩
  rw [h hash node hn]
  exact hn

theorem eq_of_hash_eq (h : dag.WellKeyed) {x y : DagNode} (hx : dag.Contains x)
    (hy : dag.Contains y) (heq : x.hash = y.hash) : x = y := by
  rw [contains_iff h] at hx hy
  rw [heq, hy] at hx
  exact (some.inj hx).symm

theorem parents_graph {hash : Hash} (h : dag.nodes.lookup hash = some node) :
    dag.graph.parents hash = node.parents := by
  simp [graph, h]

theorem hasParents_iff {parents : List Hash} :
    dag.HasParents parents ↔ ∀ p ∈ parents, p ∈ dag.graph.verts := by
  refine forall₂_congr fun p _ => ?_
  rw [mem_verts, isSome_iff_exists]

/-! ## What the operations do -/

theorem addNode_eq_ok_iff :
    dag.addNode host node = .ok dag' ↔ node.verifyHash host = true ∧ dag.HasParents node.parents ∧
      dag' = { nodes := dag.nodes.insert node.hash node
               heads := insert node.hash (dag.heads \ node.parents.toFinset)
               genesis := if dag.nodes.keys = ∅ then some node.hash else dag.genesis } := by
  cases hv : node.verifyHash host with
  | false => simp [addNode, hv]
  | true =>
    by_cases hp : dag.HasParents node.parents
    · have hfind : (node.parents.find? fun parent => (dag.nodes.lookup parent).isNone) = none := by
        rw [List.find?_eq_none]
        intro parent hmem
        simpa [isSome_iff_ne_none] using hp parent hmem
      simp only [addNode, hv, hfind]
      exact ⟨fun h => ⟨trivial, hp, (Except.ok.inj h).symm⟩, fun h => by rw [h.2.2]; rfl⟩
    · obtain ⟨_, -, -, herr⟩ := addNode_of_not_hasParents hv hp
      rw [herr]
      exact ⟨fun h => (by cases h), fun h => absurd h.2.1 hp⟩

theorem graph_addNode (h : dag.addNode host node = .ok dag') :
    dag'.graph = dag.graph.update node.hash node.parents := by
  obtain ⟨-, -, rfl⟩ := addNode_eq_ok_iff.1 h
  refine ParentGraph.ext ?_ ?_
  · exact FMap.keys_insert _ _ _
  · funext hash
    show (((dag.nodes.insert node.hash node).lookup hash).map DagNode.parents).getD [] = _
    by_cases heq : hash = node.hash
    · subst heq
      simp [ParentGraph.update]
    · simp [ParentGraph.update, heq, graph]

theorem lookup_addNode (h : dag.addNode host node = .ok dag') (hash : Hash) :
    dag'.nodes.lookup hash = if hash = node.hash then some node else dag.nodes.lookup hash := by
  obtain ⟨-, -, rfl⟩ := addNode_eq_ok_iff.1 h
  exact FMap.lookup_insert_ite _ _ _ _

theorem lookup_addNode_self (h : dag.addNode host node = .ok dag') :
    dag'.nodes.lookup node.hash = some node := by
  rw [lookup_addNode h, if_pos rfl]

theorem contains_addNode {dag' : MerkleDAG} (hok : dag.addNode host node = .ok dag')
    (hnone : dag.nodes.lookup node.hash = none) (n : DagNode) :
    dag'.Contains n ↔ dag.Contains n ∨ n = node := by
  constructor
  · rintro ⟨hash, hn⟩
    rw [lookup_addNode hok] at hn
    split at hn
    · exact .inr (some.inj hn).symm
    · exact .inl ⟨hash, hn⟩
  · rintro (⟨hash, hn⟩ | rfl)
    · refine ⟨hash, ?_⟩
      rw [lookup_addNode hok, if_neg, hn]
      rintro rfl
      rw [hnone] at hn
      cases hn
    · exact ⟨_, lookup_addNode_self hok⟩

/-- What adding missing nodes preserves, `merge` preserves, also when it stops half
way. -/
theorem merge_invariant {P : MerkleDAG → Prop}
    (hadd : ∀ dag node dag', P dag → dag.nodes.lookup node.hash = none →
      dag.addNode host node = .ok dag' → P dag')
    (h : P dag) (order : IterOrder Hash) (other : MerkleDAG) :
    P (dag.merge host order other).1 := by
  unfold merge
  generalize other.sortedNodes order = l
  induction l generalizing dag with
  | nil => exact h
  | cons node rest ih =>
    unfold mergeNodes
    split
    · exact ih h
    · next hmissing =>
      split
      · exact ih h
      · cases hn : dag.addNode host node with
        | error e => exact h
        | ok dag' =>
          exact ih (hadd dag node dag' h (by simpa [isSome_iff_ne_none] using hmissing) hn)

/-! ## What always holds -/

/-- Nodes are stored under their verified hashes, and their parents are stored. -/
structure Stored (host : Host) (dag : MerkleDAG) : Prop where
  keyed : dag.WellKeyed
  verified : ∀ hash node, dag.nodes.lookup hash = some node → node.verifyHash host = true
  closed : dag.graph.Closed

theorem stored_new (host : Host) : new.Stored host where
  keyed := wellKeyed_new
  verified hash node h := by simp [new] at h
  closed p v h := by
    obtain ⟨n, hn, -⟩ := isParent_graph.1 h
    simp [new] at hn

theorem Stored.addNode (h : dag.Stored host) (hadd : dag.addNode host node = .ok dag') :
    dag'.Stored host := by
  obtain ⟨hv, hp, -⟩ := addNode_eq_ok_iff.1 hadd
  refine ⟨fun hash n hn => ?_, fun hash n hn => ?_, ?_⟩
  · rw [lookup_addNode hadd] at hn
    split at hn
    · next heq => cases hn; exact heq.symm
    · exact h.keyed hash n hn
  · rw [lookup_addNode hadd] at hn
    split at hn
    · cases hn; exact hv
    · exact h.verified hash n hn
  · rw [graph_addNode hadd]
    exact closed_update h.closed (hasParents_iff.1 hp)

/-- Holds in every state of every run, whatever is added or merged. -/
structure Sound (host : Host) (dag : MerkleDAG) : Prop extends Stored host dag where
  heads : dag.heads ⊆ dag.graph.verts
  /-- The genesis is missing only if there is no node, and is a node otherwise. -/
  genesis : (dag.genesis = none ∧ dag.nodes.keys = ∅) ∨
    ∃ g, dag.genesis = some g ∧ g ∈ dag.graph.verts

theorem sound_new (host : Host) : new.Sound host where
  toStored := stored_new host
  heads := empty_subset _
  genesis := .inl ⟨rfl, rfl⟩

theorem Sound.addNode (h : dag.Sound host) (hadd : dag.addNode host node = .ok dag') :
    dag'.Sound host := by
  have hgraph := graph_addNode hadd
  obtain ⟨-, -, hdag'⟩ := addNode_eq_ok_iff.1 hadd
  refine ⟨h.toStored.addNode hadd, ?_, .inr ?_⟩
  · rw [hgraph, hdag']
    exact insert_subset_insert _ (sdiff_subset.trans h.heads)
  · rw [hgraph]
    rcases h.genesis with ⟨-, hempty⟩ | ⟨g, hg, hmem⟩
    · exact ⟨node.hash, by simp [hdag', hempty], mem_insert_self _ _⟩
    · refine ⟨g, ?_, mem_insert_of_mem hmem⟩
      have hne : dag.nodes.keys ≠ ∅ := ne_empty_of_mem hmem
      simp [hdag', hne, hg]

/-! ## Well-formed DAGs -/

/-- Nodes are stored under their verified hashes, parents are stored, there are no
cycles, and the heads are the nodes that are nobody's parent. -/
structure WellFormed (host : Host) (dag : MerkleDAG) : Prop extends Stored host dag where
  acyclic : dag.graph.Acyclic
  heads : dag.heads = dag.graph.tips

theorem graph_eq_of_nodes {a b : MerkleDAG} (h : a.nodes = b.nodes) : a.graph = b.graph := by
  refine ParentGraph.ext ?_ ?_
  · exact congrArg keys h
  · funext hash
    show ((a.nodes.lookup hash).map DagNode.parents).getD [] = _
    rw [h]
    rfl

theorem WellFormed.computeRoot_eq {a b : MerkleDAG} (ha : a.WellFormed host)
    (hb : b.WellFormed host) (h : a.nodes = b.nodes) : a.computeRoot host = b.computeRoot host := by
  unfold computeRoot
  rw [ha.heads, hb.heads, graph_eq_of_nodes h]

theorem wellFormed_new (host : Host) : new.WellFormed host where
  toStored := stored_new host
  acyclic v h := by
    obtain ⟨w, hw, -⟩ := Relation.TransGen.head'_iff.1 h
    obtain ⟨n, hn, -⟩ := isParent_graph.1 hw
    simp [new] at hn
  heads := rfl

theorem WellFormed.not_isParent_self (h : dag.WellFormed host) (hash : Hash) :
    ¬ dag.graph.IsParent hash hash := fun hc => h.acyclic hash (.single hc)

theorem WellFormed.addNode_iff (h : dag.WellFormed host) (hadd : dag.addNode host node = .ok dag') :
    dag'.WellFormed host ↔
      (∀ hash, ¬ dag.graph.IsParent node.hash hash) ∧ node.hash ∉ node.parents ∧
      ∀ p, dag.graph.IsParent p node.hash →
        p ∈ node.parents ∨ ∃ hash, hash ≠ node.hash ∧ dag.graph.IsParent p hash := by
  have hgraph := graph_addNode hadd
  obtain ⟨-, -, hdag'⟩ := addNode_eq_ok_iff.1 hadd
  have hheads : dag'.heads = insert node.hash (dag.graph.tips \ node.parents.toFinset) := by
    rw [hdag', h.heads]
  rw [← tips_update_iff h.closed (h.not_isParent_self node.hash), ← hheads, ← hgraph]
  refine ⟨fun h' => h'.heads, fun htips => ⟨h.toStored.addNode hadd, ?_, htips⟩⟩
  -- the node is a head, so it is a tip and closes no cycle
  have htip : node.hash ∈ dag'.graph.tips := by
    rw [← htips, hheads]
    exact mem_insert_self _ _
  rw [hgraph] at htip ⊢
  exact acyclic_update h.acyclic (mem_tips.1 htip).2

theorem WellFormed.addNode_of_missing (h : dag.WellFormed host)
    (hmissing : dag.nodes.lookup node.hash = none) (hadd : dag.addNode host node = .ok dag') :
    dag'.WellFormed host := by
  obtain ⟨-, hp, -⟩ := addNode_eq_ok_iff.1 hadd
  have hout : node.hash ∉ dag.graph.verts := fun hmem => by
    obtain ⟨n, hn⟩ := mem_verts.1 hmem
    rw [hmissing] at hn
    cases hn
  refine (h.addNode_iff hadd).2 ⟨fun hash hc => hout (h.closed _ _ hc), fun hc => ?_,
    fun p hc => absurd hc.mem hout⟩
  exact hout (hasParents_iff.1 hp _ hc)

theorem WellFormed.merge (h : dag.WellFormed host) (order : IterOrder Hash) (other : MerkleDAG) :
    (dag.merge host order other).1.WellFormed host :=
  merge_invariant (fun _ _ _ hwf hmissing hadd => hwf.addNode_of_missing hmissing hadd) h order
    other

end MerkleDAG

open MerkleDAG

/-! ## Runs -/

inductive DagCall where
  | addNode (node : DagNode)
  | merge (order : IterOrder Hash) (other : MerkleDAG)

namespace MerkleDAG

/-- One call; a rejected node leaves the DAG as it was. -/
def step (host : Host) (dag : MerkleDAG) : DagCall → Option MerkleDAG
  | .addNode node =>
    match dag.addNode host node with
    | .ok dag' => some dag'
    | .error _ => some dag
  | .merge order other => some (dag.merge host order other).1

theorem step_addNode_of_ok {dag dag' : MerkleDAG} {node : DagNode}
    (h : dag.addNode host node = .ok dag') : dag.step host (.addNode node) = some dag' := by
  simp only [step, h]

theorem visits_invariant {P : MerkleDAG → Prop} (hnew : P new)
    (hadd : ∀ dag node dag', P dag → dag.addNode host node = .ok dag' → P dag')
    {calls : List DagCall} {dag : MerkleDAG} (h : Visits (step host) new calls dag) : P dag := by
  refine h.invariant (fun s call t hs hstep => ?_) hnew
  cases call with
  | addNode node =>
    simp only [step] at hstep
    split at hstep
    · next hok =>
      cases hstep
      exact hadd s node _ hs hok
    · cases hstep
      exact hs
  | merge order other =>
    cases hstep
    exact merge_invariant (fun a n b ha _ hb => hadd a n b ha hb) hs order other

theorem sound_visits {calls : List DagCall} {dag : MerkleDAG}
    (h : Visits (step host) new calls dag) : dag.Sound host :=
  visits_invariant (sound_new host) (fun _ _ _ hs hadd => hs.addNode hadd) h

/-- If the call is an accepted `addNode` of a hash that is stored already, then the
stored node has no child, the new one is not its own parent, and every parent that the
stored one had keeps a child. -/
def KeepsTips (host : Host) (dag : MerkleDAG) : DagCall → Prop
  | .addNode node =>
    node.verifyHash host = true → dag.HasParents node.parents →
    ∀ old, dag.nodes.lookup node.hash = some old →
      (∀ hash n, dag.nodes.lookup hash = some n → node.hash ∉ n.parents) ∧
      node.hash ∉ node.parents ∧
      ∀ p ∈ old.parents, p ∈ node.parents ∨
        ∃ hash n, hash ≠ node.hash ∧ dag.nodes.lookup hash = some n ∧ p ∈ n.parents
  | .merge _ _ => True

theorem wellFormed_step {dag dag' : MerkleDAG} {call : DagCall} (h : dag.WellFormed host)
    (hkeeps : dag.KeepsTips host call) (hstep : dag.step host call = some dag') :
    dag'.WellFormed host := by
  cases call with
  | merge order other =>
    cases hstep
    exact h.merge order other
  | addNode node =>
    simp only [step] at hstep
    split at hstep
    · next d hok =>
      cases hstep
      obtain ⟨hv, hp, -⟩ := addNode_eq_ok_iff.1 hok
      cases hold : dag.nodes.lookup node.hash with
      | none => exact h.addNode_of_missing hold hok
      | some old =>
        obtain ⟨hchild, hself, hlinks⟩ := hkeeps hv hp old hold
        refine (h.addNode_iff hok).2 ⟨fun hash hc => ?_, hself, fun p hc => ?_⟩
        · obtain ⟨n, hn, hmem⟩ := isParent_graph.1 hc
          exact hchild hash n hn hmem
        · rw [IsParent, parents_graph hold] at hc
          refine (hlinks p hc).imp_right ?_
          rintro ⟨hash, n, hne, hn, hmem⟩
          exact ⟨hash, hne, isParent_graph.2 ⟨n, hn, hmem⟩⟩
    · cases hstep
      exact h

theorem not_wellFormed_step {dag : MerkleDAG} {call : DagCall} (h : dag.WellFormed host)
    (hkeeps : ¬ dag.KeepsTips host call) :
    ∃ dag', dag.step host call = some dag' ∧ ¬ dag'.WellFormed host := by
  cases call with
  | merge order other => exact absurd trivial hkeeps
  | addNode node =>
    simp only [KeepsTips, not_forall] at hkeeps
    obtain ⟨hv, hp, old, hold, hbad⟩ := hkeeps
    have hok := addNode_eq_ok_iff.2 ⟨hv, hp, rfl⟩
    refine ⟨_, step_addNode_of_ok hok, fun hwf => hbad ?_⟩
    obtain ⟨hchild, hself, hlinks⟩ := (h.addNode_iff hok).1 hwf
    refine ⟨fun hash n hn hmem => hchild hash (isParent_graph.2 ⟨n, hn, hmem⟩), hself,
      fun p hmem => ?_⟩
    refine (hlinks p (isParent_graph.2 ⟨old, hold, hmem⟩)).imp_right ?_
    rintro ⟨hash, hne, hpar⟩
    obtain ⟨n, hn, hmem⟩ := isParent_graph.1 hpar
    exact ⟨hash, n, hne, hn, hmem⟩

def ShapeOk (host : Host) (dag : MerkleDAG) : Prop :=
  dag.WellFormed host ∧ ∀ other : MerkleDAG, other.WellFormed host → other.nodes = dag.nodes →
    other.computeRoot host = dag.computeRoot host

end MerkleDAG

/-- **A run of `add_node` and `merge` passes through well-formed DAGs only, if and only
if every accepted `add_node` of a stored hash hits a node without children, which does
not name itself, and drops no parent's last link.** -/
theorem wellFormed_iff (host : Host) (calls : List DagCall) :
    (∀ dag, Visits (step host) new calls dag → dag.ShapeOk host) ↔
      Along (step host) (KeepsTips host) new calls := by
  have hroot : ∀ dag : MerkleDAG, dag.ShapeOk host ↔ dag.WellFormed host := fun dag =>
    ⟨fun h => h.1, fun h => ⟨h, fun other hother heq => hother.computeRoot_eq h heq⟩⟩
  simp only [hroot]
  exact visits_iff_along (fun _ _ _ h hkeeps hstep => wellFormed_step h hkeeps hstep)
    (fun _ _ h hkeeps => not_wellFormed_step h hkeeps) (wellFormed_new host)

/-- A legacy node without operations. -/
def Sample.dagNode (host : Host) (parents : List Hash) (timestamp : DateTime) : DagNode :=
  DagNode.new host [] parents "node1" timestamp

open Sample

theorem Sample.verifyHash_dagNode (host : Host) (parents : List Hash) (timestamp : DateTime) :
    (dagNode host parents timestamp).verifyHash host = true :=
  DagNode.verifyHash_new host [] parents "node1" timestamp

/-- A node, its child, and the node once more: the node is a head again. -/
theorem wellFormed_fails_redelivery :
    ¬ ∃ host : Host, ∀ (calls : List DagCall) (dag : MerkleDAG),
      Visits (step host) new calls dag → dag.WellFormed host := by
  rintro ⟨host, hclaim⟩
  have hwf := (visits_iff_along (fun _ _ _ h hkeeps hstep => wellFormed_step h hkeeps hstep)
    (fun _ _ h hkeeps => not_wellFormed_step h hkeeps)
    (wellFormed_new host)).1 fun dag => hclaim
      [.addNode (dagNode host [] 0), .addNode (dagNode host [(dagNode host [] 0).hash] 1),
        .addNode (dagNode host [] 0)] dag
  have hroot : ∀ dag : MerkleDAG, dag.HasParents (dagNode host [] 0).parents :=
    fun dag p hp => (nomatch hp)
  obtain ⟨dag₁, hok₁, -⟩ := addNode_of_hasParents (verifyHash_dagNode host [] 0) (hroot new)
  obtain ⟨-, hrest⟩ := hwf.2 dag₁ (step_addNode_of_ok hok₁)
  have hparent : (dagNode host [] 0).hash ∈ dag₁.graph.verts :=
    mem_verts.2 ⟨_, lookup_addNode_self hok₁⟩
  obtain ⟨dag₂, hok₂, -⟩ := addNode_of_hasParents
    (verifyHash_dagNode host [(dagNode host [] 0).hash] 1)
    (hasParents_iff.2 fun p hp => List.mem_singleton.1 hp ▸ hparent)
  obtain ⟨hkeeps, -⟩ := hrest dag₂ (step_addNode_of_ok hok₂)
  have hstored : (dagNode host [] 0).hash ∈ dag₂.graph.verts := by
    rw [graph_addNode hok₂]
    exact mem_insert_of_mem hparent
  -- the second delivery meets a node that has a child
  obtain ⟨old, hold⟩ := mem_verts.1 hstored
  obtain ⟨hchild, -⟩ := hkeeps (verifyHash_dagNode host [] 0) (hroot dag₂) old hold
  exact hchild _ _ (lookup_addNode_self hok₂) (List.mem_singleton_self _)

end Idiom.Ajna
