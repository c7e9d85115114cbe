import Idiom.Ajna.DagCommit

/-!
# Merging two histories

`merge` adds the nodes of the other DAG in the order of their timestamps, while a node
can only be added after its parents. Where a clock ran ahead, a child comes before its
parent, the parent is "not found", and what was added up to there stays.
-/

namespace Idiom.Ajna

open Sample List Run

variable {host : Host}

namespace MerkleDAG

variable {dag a b : MerkleDAG}

/-! ## The order of the nodes -/

variable {hash : Hash}

theorem mem_entries (order : IterOrder Hash) {node : DagNode} :
    (hash, node) ∈ dag.entries order ↔ dag.nodes.lookup hash = some node := by
  unfold entries
  rw [mem_filterMap]
  constructor
  · rintro ⟨h, -, hmap⟩
    obtain ⟨n, hn, heq⟩ := Option.map_eq_some_iff.1 hmap
    cases heq
    exact hn
  · intro hn
    refine ⟨hash, (order.mem_list _ _).2 ?_, by rw [hn]; rfl⟩
    rw [Finmap.mem_keys, ← Finmap.lookup_isSome, hn]
    rfl

theorem mem_sortedNodes (order : IterOrder Hash) {node : DagNode} :
    node ∈ dag.sortedNodes order ↔ dag.Contains node := by
  unfold sortedNodes
  rw [(mergeSort_perm _ _).mem_iff, mem_map]
  constructor
  · rintro ⟨⟨hash, n⟩, hmem, rfl⟩
    exact ⟨hash, (mem_entries order).1 hmem⟩
  · rintro ⟨hash, hn⟩
    exact ⟨(hash, node), (mem_entries order).2 hn, rfl⟩

theorem pairwise_sortedNodes (order : IterOrder Hash) :
    (dag.sortedNodes order).Pairwise fun x y => x.timestamp ≤ y.timestamp := by
  have hsorted : (dag.sortedNodes order).Pairwise fun x y =>
      decide (x.timestamp ≤ y.timestamp) = true := by
    refine pairwise_mergeSort (fun x y z hxy hyz => ?_) (fun x y => ?_) _
    · rw [decide_eq_true_eq] at *
      exact hxy.trans hyz
    · simpa using le_total x.timestamp y.timestamp
  exact hsorted.imp fun h => by simpa using h

theorem nodup_entries (order : IterOrder Hash) : ((dag.entries order).map Prod.fst).Nodup := by
  have hsub : ∀ l : List Hash, Sublist
      ((l.filterMap fun hash => (dag.nodes.lookup hash).map fun node => (hash, node)).map Prod.fst)
      l := by
    intro l
    induction l with
    | nil => exact Sublist.refl _
    | cons hash l ih =>
      cases hl : dag.nodes.lookup hash with
      | none => simpa [hl] using ih.cons hash
      | some n => simpa [hl] using ih.cons_cons hash
  exact (order.nodup_list _).sublist (hsub _)

theorem nodup_sortedNodes (h : dag.WellKeyed) (order : IterOrder Hash) :
    ((dag.sortedNodes order).map DagNode.hash).Nodup := by
  unfold sortedNodes
  rw [((mergeSort_perm _ _).map _).nodup_iff, map_map]
  have hhash : (dag.entries order).map (DagNode.hash ∘ Prod.snd) =
      (dag.entries order).map Prod.fst := by
    refine map_congr_left fun e he => ?_
    exact h e.1 e.2 ((mem_entries order).1 he)
  rw [hhash]
  exact nodup_entries order

theorem find?_sortedNodes (h : dag.WellKeyed) (order : IterOrder Hash) (hash : Hash) :
    ((dag.sortedNodes order).find? fun node => node.hash = hash) = dag.nodes.lookup hash := by
  cases hfind : (dag.sortedNodes order).find? fun node => node.hash = hash with
  | none =>
    rw [find?_eq_none] at hfind
    cases hl : dag.nodes.lookup hash with
    | none => rfl
    | some n =>
      have := hfind n ((mem_sortedNodes order).2 ⟨hash, hl⟩)
      simp [h hash n hl] at this
  | some n =>
    have hmem := (mem_sortedNodes order).1 (mem_of_find?_eq_some hfind)
    have hhash : n.hash = hash := by simpa using find?_some hfind
    rw [← hhash]
    exact ((contains_iff h).1 hmem).symm

/-! ## The loop -/

/-- Every node of the list whose hash is not yet known comes after its parents: each is
known or the hash of an earlier node of the list. -/
def InOrder (known : Finset Hash) (l : List DagNode) : Prop :=
  ∀ l₁ node l₂, l = l₁ ++ node :: l₂ → node.hash ∉ known →
    ∀ p ∈ node.parents, p ∈ known ∨ p ∈ l₁.map DagNode.hash

theorem inOrder_cons {known : Finset Hash} {node : DagNode} {l : List DagNode}
    (hnodup : ((node :: l).map DagNode.hash).Nodup) :
    InOrder known (node :: l) ↔
      (node.hash ∈ known ∨ ∀ p ∈ node.parents, p ∈ known) ∧ InOrder (insert node.hash known) l := by
  constructor
  · intro h
    refine ⟨?_, fun l₁ n l₂ hl hn p hp => ?_⟩
    · by_cases hknown : node.hash ∈ known
      · exact .inl hknown
      · refine .inr fun p hp => ?_
        simpa using h [] node l rfl hknown p hp
    · rw [Finset.mem_insert, not_or] at hn
      rcases h (node :: l₁) n l₂ (by rw [hl]; rfl) hn.2 p hp with hk | hk
      · exact .inl (Finset.mem_insert_of_mem hk)
      · rcases mem_cons.1 hk with rfl | hk
        · exact .inl (Finset.mem_insert_self _ _)
        · exact .inr hk
  · rintro ⟨hhead, hrest⟩ l₁ n l₂ hl hn p hp
    cases l₁ with
    | nil =>
      obtain ⟨rfl, -⟩ := cons.inj hl
      rcases hhead with hknown | hparents
      · exact absurd hknown hn
      · exact .inl (hparents p hp)
    | cons m l₁ =>
      obtain ⟨rfl, hl'⟩ := cons.inj hl
      have hne : n.hash ≠ node.hash := by
        have hmem : n.hash ∈ l.map DagNode.hash := by
          rw [hl']
          simp
        intro heq
        rw [map_cons, nodup_cons] at hnodup
        exact hnodup.1 (heq ▸ hmem)
      rcases hrest l₁ n l₂ hl' (by simp [hne, hn]) p hp with hk | hk
      · rcases Finset.mem_insert.1 hk with rfl | hk
        · exact .inr mem_cons_self
        · exact .inl hk
      · exact .inr (mem_cons_of_mem _ hk)

section

variable {other : MerkleDAG} {l : List DagNode}

/-- The nodes the loop is given: verified, and with parents the other DAG holds. -/
def Mergeable (host : Host) (other : MerkleDAG) (l : List DagNode) : Prop :=
  ∀ node ∈ l, node.verifyHash host = true ∧ ∀ p ∈ node.parents, p ∈ other.graph.verts

theorem not_mem_verts (h : dag.nodes.lookup hash = none) :
    hash ∉ dag.graph.verts := fun hmem => by
  obtain ⟨n, hn⟩ := mem_verts.1 hmem
  rw [h] at hn
  cases hn

variable {node : DagNode}

theorem not_any_missing (h : ∀ p ∈ node.parents, p ∈ other.graph.verts) :
    (node.parents.any fun parent =>
      (dag.nodes.lookup parent).isNone && (other.nodes.lookup parent).isNone) = false := by
  rw [any_eq_false]
  intro p hp
  obtain ⟨n, hn⟩ := mem_verts.1 (h p hp)
  simp [hn]

theorem mergeNodes_cons_of_some {old : DagNode} (hl : dag.nodes.lookup node.hash = some old) :
    mergeNodes host other dag (node :: l) = mergeNodes host other dag l := by
  rw [mergeNodes, hl]
  rfl

theorem mergeNodes_cons_of_none (h : Mergeable host other (node :: l))
    (hl : dag.nodes.lookup node.hash = none) :
    mergeNodes host other dag (node :: l) =
      match dag.addNode host node with
      | .error e => (dag, .error e)
      | .ok dag => mergeNodes host other dag l := by
  rw [mergeNodes, not_any_missing (h node mem_cons_self).2, hl]
  rfl

theorem Mergeable.tail (h : Mergeable host other (node :: l)) :
    Mergeable host other l := fun n hn => h n (mem_cons_of_mem node hn)

theorem mergeNodes_ok_iff (h : Mergeable host other l) (hnodup : (l.map DagNode.hash).Nodup) :
    (mergeNodes host other dag l).2 = .ok () ↔ InOrder dag.graph.verts l := by
  induction l generalizing dag with
  | nil =>
    refine ⟨fun _ l₁ n l₂ hl => ?_, fun _ => rfl⟩
    simp at hl
  | cons node l ih =>
    have ih' := fun dag => @ih dag h.tail (Nodup.of_cons hnodup)
    rw [inOrder_cons hnodup]
    cases hl : dag.nodes.lookup node.hash with
    | some old =>
      have hmem : node.hash ∈ dag.graph.verts := mem_verts.2 ⟨old, hl⟩
      rw [mergeNodes_cons_of_some hl, ih']
      simp [hmem]
    | none =>
      have hout := not_mem_verts hl
      rw [mergeNodes_cons_of_none h hl]
      by_cases hp : dag.HasParents node.parents
      · have hok := addNode_eq_ok_iff.2 ⟨(h node mem_cons_self).1, hp, rfl⟩
        have hverts : ∀ dag', dag.addNode host node = .ok dag' →
            dag'.graph.verts = insert node.hash dag.graph.verts := fun dag' hadd => by
          rw [graph_addNode hadd]
          rfl
        rw [hok]
        rw [ih', hverts _ hok]
        exact ⟨fun hrest => ⟨.inr (hasParents_iff.1 hp), hrest⟩, fun hrest => hrest.2⟩
      · obtain ⟨p, -, -, herr⟩ := addNode_of_not_hasParents (h node mem_cons_self).1 hp
        rw [herr]
        refine ⟨fun hc => (nomatch hc), fun hc => ?_⟩
        rcases hc.1 with hknown | hparents
        · exact absurd hknown hout
        · exact absurd (hasParents_iff.2 hparents) hp

theorem lookup_mergeNodes (h : Mergeable host other l)
    (hok : (mergeNodes host other dag l).2 = .ok ()) (hash : Hash) :
    (mergeNodes host other dag l).1.nodes.lookup hash =
      (dag.nodes.lookup hash).or (l.find? fun node => node.hash = hash) := by
  induction l generalizing dag with
  | nil => simp [mergeNodes]
  | cons node l ih =>
    cases hl : dag.nodes.lookup node.hash with
    | some old =>
      rw [mergeNodes_cons_of_some hl] at hok ⊢
      rw [ih h.tail hok]
      by_cases heq : node.hash = hash
      · subst heq
        simp [hl]
      · simp [heq]
    | none =>
      rw [mergeNodes_cons_of_none h hl] at hok ⊢
      cases hadd : dag.addNode host node with
      | error e => simp [hadd] at hok
      | ok dag' =>
        simp only [hadd] at hok ⊢
        rw [ih h.tail hok, lookup_addNode hadd]
        by_cases heq : hash = node.hash
        · subst heq
          simp [hl]
        · have hne : ¬ node.hash = hash := fun hc => heq hc.symm
          simp [heq, hne]

theorem lookup_mergeNodes_of_some {n : DagNode}
    (h : (mergeNodes host other dag l).1.nodes.lookup hash = some n) :
    dag.nodes.lookup hash = some n ∨ (n ∈ l ∧ n.hash = hash) := by
  induction l generalizing dag with
  | nil => exact .inl h
  | cons node l ih =>
    have hskip : (mergeNodes host other dag l).1.nodes.lookup hash = some n →
        dag.nodes.lookup hash = some n ∨ (n ∈ node :: l ∧ n.hash = hash) := fun h' =>
      (ih h').imp_right fun hn => ⟨mem_cons_of_mem _ hn.1, hn.2⟩
    unfold mergeNodes at h
    split at h
    · exact hskip h
    · split at h
      · exact hskip h
      · split at h
        · exact .inl h
        · next dag' hadd =>
          rcases ih h with hold | hnew
          · rw [lookup_addNode hadd] at hold
            split at hold
            · next heq =>
              cases hold
              exact .inr ⟨mem_cons_self, heq.symm⟩
            · exact .inl hold
          · exact .inr ⟨mem_cons_of_mem _ hnew.1, hnew.2⟩

theorem missing_of_mergeNodes_error {e : AjnaError}
    (h : (mergeNodes host other dag l).2 = .error e) :
    ∃ node ∈ l, (mergeNodes host other dag l).1.nodes.lookup node.hash = none := by
  induction l generalizing dag with
  | nil => cases h
  | cons node l ih =>
    have hlift : ∀ d : MerkleDAG, (mergeNodes host other d l).2 = .error e →
        ∃ n ∈ node :: l, (mergeNodes host other d l).1.nodes.lookup n.hash = none := by
      intro d hd
      obtain ⟨n, hn, hmissing⟩ := ih hd
      exact ⟨n, mem_cons_of_mem _ hn, hmissing⟩
    unfold mergeNodes at h ⊢
    split
    · next hin =>
      rw [if_pos hin] at h
      exact hlift dag h
    · next hin =>
      rw [if_neg hin] at h
      split
      · next hskip =>
        rw [if_pos hskip] at h
        exact hlift dag h
      · next hskip =>
        rw [if_neg hskip] at h
        cases hadd : dag.addNode host node with
        | error e' =>
          refine ⟨node, mem_cons_self, ?_⟩
          simpa [Option.isSome_iff_ne_none] using hin
        | ok dag' =>
          simp only [hadd] at h
          exact hlift dag' h

end
/-! ## The merge of two well-formed DAGs -/

/-- In timestamp order, every node of the other DAG that is missing here comes after
those of its parents that are missing here. -/
def ParentsFirst (dag other : MerkleDAG) (order : IterOrder Hash) : Prop :=
  InOrder dag.graph.verts (other.sortedNodes order)

/-- The DAGs hold the same node under every hash they share. -/
def Agree (a b : MerkleDAG) : Prop :=
  ∀ hash x y, a.nodes.lookup hash = some x → b.nodes.lookup hash = some y → x = y

theorem mergeable_sortedNodes (h : b.Stored host) (order : IterOrder Hash) :
    Mergeable host b (b.sortedNodes order) := by
  intro node hmem
  obtain ⟨hash, hn⟩ := (mem_sortedNodes order).1 hmem
  exact ⟨h.verified hash node hn, fun p hp => h.closed p hash (isParent_graph.2 ⟨node, hn, hp⟩)⟩

theorem merge_ok_iff (hb : b.Stored host) (order : IterOrder Hash) :
    (a.merge host order b).2 = .ok () ↔ a.ParentsFirst b order :=
  mergeNodes_ok_iff (mergeable_sortedNodes hb order) (nodup_sortedNodes hb.keyed order)

variable {order : IterOrder Hash}

theorem ParentsFirst.timestamp_le (h : a.ParentsFirst b order) (hk : b.WellKeyed)
    {parent child : DagNode} (hp : b.Contains parent) (hc : b.Contains child)
    (hmem : parent.hash ∈ child.parents) (hpa : parent.hash ∉ a.graph.verts)
    (hca : child.hash ∉ a.graph.verts) : parent.timestamp ≤ child.timestamp := by
  obtain ⟨l₁, l₂, hl⟩ := append_of_mem ((mem_sortedNodes order).2 hc)
  obtain ⟨m, hm, hhash⟩ := mem_map.1 ((h l₁ child l₂ hl hca _ hmem).resolve_left hpa)
  have hmb : b.Contains m := (mem_sortedNodes order).1 (by
    rw [hl]
    exact mem_append_left _ hm)
  have heq : m = parent := eq_of_hash_eq hk hmb hp hhash
  have hpair : (b.sortedNodes order).Pairwise _ := pairwise_sortedNodes order
  rw [hl] at hpair
  rw [← heq]
  exact (pairwise_append.1 hpair).2.2 m hm child mem_cons_self

theorem lookup_merge (hb : b.Stored host) (hok : (a.merge host order b).2 = .ok ()) (hash : Hash) :
    (a.merge host order b).1.nodes.lookup hash =
      (a.nodes.lookup hash).or (b.nodes.lookup hash) := by
  rw [merge, lookup_mergeNodes (mergeable_sortedNodes hb order) hok, find?_sortedNodes hb.keyed]

theorem lookup_merge_of_some {n : DagNode} (hb : b.Stored host)
    (h : (a.merge host order b).1.nodes.lookup hash = some n) :
    a.nodes.lookup hash = some n ∨ b.nodes.lookup hash = some n := by
  refine (lookup_mergeNodes_of_some h).imp_right ?_
  rintro ⟨hmem, rfl⟩
  exact (contains_iff hb.keyed).1 ((mem_sortedNodes order).1 hmem)

theorem contains_merge (ha : a.WellFormed host) (hb : b.WellFormed host) (hagree : a.Agree b)
    (hok : (a.merge host order b).2 = .ok ()) (node : DagNode) :
    (a.merge host order b).1.Contains node ↔ a.Contains node ∨ b.Contains node := by
  rw [contains_iff (ha.merge order b).keyed, lookup_merge hb.toStored hok,
    contains_iff ha.keyed, contains_iff hb.keyed]
  cases hla : a.nodes.lookup node.hash with
  | none => simp
  | some x =>
    simp only [Option.some_or, Option.some.injEq]
    refine ⟨.inl, ?_⟩
    rintro (hx | hy)
    · exact hx
    · exact hagree node.hash x node hla hy

/-- Merging is union: it succeeds, holds the nodes of both, its heads are the maximal
nodes of both, its root is that of the merge the other way round, and an error would
leave the DAG as it was. -/
structure MergeIsUnion (host : Host) (a b : MerkleDAG) (orderA orderB : IterOrder Hash) :
    Prop where
  ok : (a.merge host orderB b).2 = .ok ()
  nodes : ∀ node, (a.merge host orderB b).1.Contains node ↔ a.Contains node ∨ b.Contains node
  heads : ∀ hash, hash ∈ (a.merge host orderB b).1.heads ↔
    (∃ node, (a.Contains node ∨ b.Contains node) ∧ node.hash = hash) ∧
      ∀ node, a.Contains node ∨ b.Contains node → hash ∉ node.parents
  root : (a.merge host orderB b).1.computeRoot host = (b.merge host orderA a).1.computeRoot host
  unchanged : ∀ e, (a.merge host orderB b).2 = .error e → (a.merge host orderB b).1 = a

/-- Parents come first in both directions, and the DAGs agree where they overlap. -/
structure Compatible (a b : MerkleDAG) (orderA orderB : IterOrder Hash) : Prop where
  agree : a.Agree b
  left : a.ParentsFirst b orderB
  right : b.ParentsFirst a orderA

theorem Agree.symm (h : a.Agree b) : b.Agree a := fun hash x y hx hy => (h hash y x hy hx).symm

theorem mergeIsUnion_of_compatible (ha : a.WellFormed host) (hb : b.WellFormed host)
    {orderA orderB : IterOrder Hash} (h : Compatible a b orderA orderB) :
    MergeIsUnion host a b orderA orderB := by
  have hok := (merge_ok_iff hb.toStored orderB).2 h.left
  have hok' := (merge_ok_iff ha.toStored orderA).2 h.right
  have hwf := ha.merge orderB b
  have hnodes := contains_merge ha hb h.agree hok
  refine ⟨hok, hnodes, fun hash => ?_, ?_, fun e he => ?_⟩
  · rw [hwf.heads, ParentGraph.mem_tips]
    refine and_congr ?_ ?_
    · rw [mem_verts]
      constructor
      · rintro ⟨n, hn⟩
        exact ⟨n, (hnodes n).1 ⟨hash, hn⟩, hwf.keyed hash n hn⟩
      · rintro ⟨n, hn, rfl⟩
        exact ⟨n, (contains_iff hwf.keyed).1 ((hnodes n).2 hn)⟩
    · constructor
      · intro htip n hn hmem
        exact htip n.hash (isParent_graph.2 ⟨n, (contains_iff hwf.keyed).1 ((hnodes n).2 hn), hmem⟩)
      · intro hmax w hw
        obtain ⟨n, hn, hmem⟩ := isParent_graph.1 hw
        exact hmax n ((hnodes n).1 ⟨w, hn⟩) hmem
  · refine hwf.computeRoot_eq (hb.merge orderA a) (Finmap.ext_lookup fun hash => ?_)
    rw [lookup_merge hb.toStored hok, lookup_merge ha.toStored hok']
    cases hla : a.nodes.lookup hash with
    | none => simp
    | some x =>
      cases hlb : b.nodes.lookup hash with
      | none => rfl
      | some y => simp [h.agree hash x y hla hlb]
  · rw [hok] at he
    cases he

theorem parentsFirst_of_heads_eq (ha : a.WellFormed host) (hb : b.WellFormed host)
    (hagree : a.Agree b) {orderA orderB : IterOrder Hash} (hok : (a.merge host orderB b).2 = .ok ())
    (hheads : (a.merge host orderB b).1.heads = (b.merge host orderA a).1.heads) :
    b.ParentsFirst a orderA := by
  rw [← merge_ok_iff ha.toStored orderA]
  have hwf := ha.merge orderB b
  have hwf' := hb.merge orderA a
  -- both hold nodes of `a` and `b` only, so they agree on parents
  have hparents : ∀ v ∈ (a.merge host orderB b).1.graph.verts,
      v ∈ (b.merge host orderA a).1.graph.verts →
      (a.merge host orderB b).1.graph.parents v = (b.merge host orderA a).1.graph.parents v := by
    intro v hv hv'
    obtain ⟨x, hx⟩ := mem_verts.1 hv
    obtain ⟨y, hy⟩ := mem_verts.1 hv'
    rw [parents_graph hx, parents_graph hy]
    have hxy : x = y := by
      rcases lookup_merge_of_some hb.toStored hx with hxa | hxb <;>
        rcases lookup_merge_of_some ha.toStored hy with hyb | hya
      · exact hagree v x y hxa hyb
      · exact Option.some.inj (hxa.symm.trans hya)
      · exact Option.some.inj (hxb.symm.trans hyb)
      · exact (hagree v y x hya hxb).symm
    rw [hxy]
  have hsub := ParentGraph.verts_subset_of_tips hwf.acyclic hwf'.closed hparents (by
    rw [← hwf.heads, hheads, hwf'.heads]
    exact Finset.filter_subset _ _)
  cases hres : (b.merge host orderA a).2 with
  | ok u => rfl
  | error e =>
    obtain ⟨node, hmem, hmissing⟩ := missing_of_mergeNodes_error hres
    have hnode := (contains_merge ha hb hagree hok node).2
      (.inl ((mem_sortedNodes orderA).1 hmem))
    have hin := hsub (mem_verts.2 ⟨node, (contains_iff hwf.keyed).1 hnode⟩)
    exact absurd hin (not_mem_verts hmissing)

end MerkleDAG

open MerkleDAG

open MerkleDAG in
/-- **Merging two well-formed DAGs is union, with one root in both directions, if they
agree on shared hashes and both orders put parents first; and, unless two roots collide,
only if.** -/
theorem mergeIsUnion_iff (host : Host) (a b : MerkleDAG) (ha : a.WellFormed host)
    (hb : b.WellFormed host) (orderA orderB : IterOrder Hash) :
    (Compatible a b orderA orderB → MergeIsUnion host a b orderA orderB) ∧
    (host.FixedLength →
      host.CollisionFree {rootBytes (a.merge host orderB b).1.heads,
        rootBytes (b.merge host orderA a).1.heads} →
      MergeIsUnion host a b orderA orderB → Compatible a b orderA orderB) := by
  refine ⟨mergeIsUnion_of_compatible ha hb, fun hlen hcf h => ?_⟩
  have hwf := ha.merge orderB b
  have hwf' := hb.merge orderA a
  have hagree : a.Agree b := by
    intro hash x y hx hy
    refine eq_of_hash_eq hwf.keyed ((h.nodes x).2 (.inl ⟨hash, hx⟩))
      ((h.nodes y).2 (.inr ⟨hash, hy⟩)) ?_
    rw [ha.keyed hash x hx, hb.keyed hash y hy]
  have hin : ∀ {dag : MerkleDAG}, dag.WellFormed host → dag.heads ⊆ dag.graph.verts := by
    intro dag hdag
    rw [hdag.heads]
    exact Finset.filter_subset _ _
  have hheads := heads_eq_of_computeRoot hlen hwf.toStored (hin hwf) hwf'.toStored (hin hwf') hcf
    h.root
  exact ⟨hagree, (merge_ok_iff hb.toStored orderB).1 h.ok,
    parentsFirst_of_heads_eq ha hb hagree h.ok hheads⟩

/-! ## A clock that ran ahead -/

theorem Sample.wellFormed_oneNode {host : Host} {node : DagNode}
    (hv : node.verifyHash host = true) (hp : node.parents = []) : (oneNode node).WellFormed host :=
  (wellFormed_new host).addNode_of_missing (by simp [new]) (addNode_new hv hp)

theorem MerkleDAG.parentsFirst_of_subset {dag other : MerkleDAG} {order : IterOrder Hash}
    (h : ∀ n, other.Contains n → ∀ p ∈ n.parents, p ∈ dag.graph.verts) :
    dag.ParentsFirst other order := by
  intro l₁ n l₂ hl _ p hp
  have hmem : n ∈ other.sortedNodes order := by
    rw [hl]
    simp
  exact .inl (h n ((mem_sortedNodes order).1 hmem) p hp)

/-- Two replicas that both have the root, and a child of it each. -/
theorem Sample.compatible_children {a b : MerkleDAG} (ha : Holds host a [root, left])
    (hb : Holds host b [root, right]) (orderA orderB : IterOrder Hash) :
    Compatible a b orderA orderB := by
  have hroot : ∀ {node : DagNode}, node = root ∨ node = left ∨ node = right →
      ∀ p ∈ node.parents, p = root.hash := by
    rintro node (rfl | rfl | rfl) p hp
    · cases hp
    · exact mem_singleton.1 hp
    · exact mem_singleton.1 hp
  refine ⟨fun hash x y hx hy => ?_, parentsFirst_of_subset fun n hn p hp => ?_,
    parentsFirst_of_subset fun n hn p hp => ?_⟩
  · have hsame := (ha.wellFormed.keyed hash x hx).trans (hb.wellFormed.keyed hash y hy).symm
    have hxmem := (ha.contains x).1 ⟨hash, hx⟩
    have hymem := (hb.contains y).1 ⟨hash, hy⟩
    simp only [mem_cons, not_mem_nil, or_false] at hxmem hymem
    rcases hxmem with rfl | rfl <;> rcases hymem with rfl | rfl
    · rfl
    all_goals exact absurd hsame (by decide)
  · have hmem := (hb.contains n).1 hn
    simp only [mem_cons, not_mem_nil, or_false] at hmem
    rw [hroot (hmem.imp_right .inr) p hp]
    exact (ha.mem_verts_iff _).2 mem_cons_self
  · have hmem := (ha.contains n).1 hn
    simp only [mem_cons, not_mem_nil, or_false] at hmem
    rw [hroot (hmem.imp_right .inl) p hp]
    exact (hb.mem_verts_iff _).2 mem_cons_self

open IterOrder

/-- The merge of two branches of a fork. Both merges have the same heads, so no two roots
collide. -/
theorem mergeIsUnion_fork :
    ∃ a b, exec (step Sample.host) new ([root, left].map .addNode) = Option.some a ∧
      exec (step Sample.host) new ([root, right].map .addNode) = Option.some b ∧
      MergeIsUnion Sample.host a b some some ∧ Compatible a b some some := by
  have hordersA : Appends Sample.host [] [root, left] := ⟨by decide, by decide, trivial⟩
  have hordersB : Appends Sample.host [] [root, right] := ⟨by decide, by decide, trivial⟩
  obtain ⟨a, hexecA, ha⟩ := (holds_new Sample.host).exec_addNodes hordersA
  obtain ⟨b, hexecB, hb⟩ := (holds_new Sample.host).exec_addNodes hordersB
  have hcompat := compatible_children ha hb some some
  obtain ⟨hif, honlyIf⟩ := mergeIsUnion_iff Sample.host a b ha.wellFormed hb.wellFormed some some
  have hback := mergeIsUnion_of_compatible hb.wellFormed ha.wellFormed
    ⟨hcompat.agree.symm, hcompat.right, hcompat.left⟩
  have hheads : (a.merge Sample.host some b).1.heads = (b.merge Sample.host some a).1.heads := by
    ext hash
    rw [(hif hcompat).heads, hback.heads]
    simp only [or_comm]
  refine ⟨a, b, hexecA, hexecB, hif hcompat, honlyIf host_fixedLength ?_ (hif hcompat)⟩
  rw [hheads, Set.pair_eq_singleton]
  exact Set.injOn_singleton _ _

/-- A parent stamped by a clock that ran ahead, and its child. -/
def Sample.skewedParent (host : Host) : DagNode := dagNode host [] 1

def Sample.skewedChild (host : Host) : DagNode :=
  dagNode host [(skewedParent host).hash] 0

/-- A well-formed DAG whose child is stamped before its parent cannot be merged into the
empty one, whatever hash tells the two nodes apart. -/
theorem mergeIsUnion_fails_skew :
    (skewedParent Sample.host).hash ≠ (skewedChild Sample.host).hash ∧
    ¬ ∃ host : Host, (skewedParent host).hash ≠ (skewedChild host).hash ∧
      ∀ (a b : MerkleDAG) (orderA orderB : IterOrder Hash), a.WellFormed host →
        b.WellFormed host → MergeIsUnion host a b orderA orderB := by
  refine ⟨by decide, ?_⟩
  rintro ⟨host, hne, hclaim⟩
  have hwf₁ : (oneNode (skewedParent host)).WellFormed host :=
    wellFormed_oneNode (verifyHash_dagNode host [] 1) rfl
  have hstored : (oneNode (skewedParent host)).nodes.lookup
      (skewedParent host).hash = some (skewedParent host) := Finmap.lookup_insert _
  have hverify : (skewedChild host).verifyHash host = true :=
    verifyHash_dagNode host [(skewedParent host).hash] 0
  obtain ⟨b, hadd, -⟩ := addNode_of_hasParents hverify
    (hasParents_iff.2 fun p hp => by
      rw [mem_singleton.1 hp]
      exact mem_verts.2 ⟨_, hstored⟩)
  have hwf : b.WellFormed host := by
    refine hwf₁.addNode_of_missing ?_ hadd
    rw [oneNode, FMap.lookup_insert_ite, if_neg fun hc => hne hc.symm]
    simp
  have hok := (hclaim new b some some (wellFormed_new host) hwf).ok
  have hparent : b.Contains (skewedParent host) :=
    ⟨_, by rw [lookup_addNode hadd, if_neg hne, hstored]⟩
  have hle := ((merge_ok_iff hwf.toStored some).1 hok).timestamp_le hwf.keyed
    hparent ⟨_, lookup_addNode_self hadd⟩ (mem_singleton_self _)
    (Finset.notMem_empty _) (Finset.notMem_empty _)
  exact absurd hle (show ¬ (1 : ℤ) ≤ 0 by decide)

end Idiom.Ajna
