import Idiom.Ajna.DagOrder

/-!
# Histories that are chains

A legacy update takes all heads for parents, so a history that only such updates have
written has one head and is a chain: every node has the node before it for its only parent.
That needs that a new node never has the hash of a stored one, hence some care with the
bytes a node is hashed from, which are laid out without separators.
-/

namespace Idiom.Ajna

open List ParentGraph Option

variable {host : Host}

/-! ## Reading the bytes of a node -/

/-- The byte `{`, with which every JSON object starts. -/
def openBrace : UInt8 := 123

/-- The byte `:`, which no digest contains and every time does. -/
def colon : UInt8 := 58

/-- The shape of the texts that the libraries print. -/
structure Host.Formats (host : Host) : Prop where
  /-- A digest is 43 characters of base64url. -/
  digestLength : host.FixedLength
  digestChars : ∀ bytes, ∀ b ∈ asBytes (host.digest bytes), b ≠ openBrace ∧ b ≠ colon
  /-- Every operation has a JSON text, and it is an object. -/
  opJson : ∀ op, ∃ text, host.opJson op = some text ∧ (asBytes text).head? = some openBrace
  /-- No JSON object is the beginning of another. -/
  opJsonPrefixFree : ∀ op op' text text' rest rest', host.opJson op = some text →
    host.opJson op' = some text' → asBytes text ++ rest = asBytes text' ++ rest' →
    asBytes text = asBytes text'
  /-- A time starts with its year and has a colon among its first characters. -/
  timeHead : ∀ t, (asBytes (host.rfc3339 t)).head? ≠ some openBrace
  timeColon : ∀ t, colon ∈ (asBytes (host.rfc3339 t)).take 43

/-- Blocks that start with one byte and are prefix-free can be cut off what does not start
with it. -/
theorem append_inj_of_prefixFree {P : List UInt8 → Prop} {c : UInt8}
    (hhead : ∀ s, P s → s.head? = some c) (hfree : ∀ s t r r', P s → P t → s ++ r = t ++ r' → s = t)
    {A B : List (List UInt8)} {r r' : List UInt8} (hA : ∀ s ∈ A, P s) (hB : ∀ s ∈ B, P s)
    (hr : r.head? ≠ some c) (hr' : r'.head? ≠ some c) (h : A.flatten ++ r = B.flatten ++ r') :
    r = r' := by
  -- a block on one side only would start what must not start with `c`
  have hstart : ∀ (s : List UInt8) (l : List UInt8), P s → (s ++ l).head? = some c := by
    intro s l hs
    have hc := hhead s hs
    cases s with
    | nil => cases hc
    | cons b s => exact hc
  induction A generalizing B with
  | nil =>
    cases B with
    | nil => exact h
    | cons t B =>
      rw [flatten_nil, nil_append, flatten_cons, append_assoc] at h
      exact absurd (h ▸ hstart t _ (hB t mem_cons_self)) hr
  | cons s A ih =>
    rw [flatten_cons, append_assoc] at h
    cases B with
    | nil =>
      rw [flatten_nil, nil_append] at h
      exact absurd (h ▸ hstart s _ (hA s mem_cons_self)) hr'
    | cons t B =>
      rw [flatten_cons, append_assoc] at h
      have hst := hfree s t _ _ (hA s mem_cons_self) (hB t mem_cons_self) h
      rw [hst] at h
      exact ih (fun x hx => hA x (mem_cons_of_mem _ hx))
        (fun x hx => hB x (mem_cons_of_mem _ hx)) (append_cancel_left h)

structure DagNode.LegacyLink (host : Host) (node : DagNode) : Prop where
  legacy : ∃ ops, node.operations = .legacy ops
  parents : node.parents = [] ∨ ∃ bytes, node.parents = [host.digest bytes]

open DagNode

/-- What follows the operations in the bytes of a node. -/
def DagNode.tailBytes (host : Host) (node : DagNode) : List UInt8 :=
  node.parents.flatMap asBytes ++ asBytes (host.rfc3339 node.timestamp) ++ asBytes node.nodeId

theorem Host.Formats.head_tailBytes (hf : host.Formats) {node : DagNode}
    (hn : node.LegacyLink host) : (node.tailBytes host).head? ≠ some openBrace := by
  unfold tailBytes
  rcases hn.parents with hnil | ⟨bytes, hone⟩
  · have hcolon := hf.timeColon node.timestamp
    have hhead := hf.timeHead node.timestamp
    rw [hnil]
    cases ht : asBytes (host.rfc3339 node.timestamp) with
    | nil => simp [ht] at hcolon
    | cons b l =>
      rw [ht] at hhead
      simpa using hhead
  · have hlen := hf.digestLength bytes
    have hchars := hf.digestChars bytes
    rw [hone]
    cases hd : asBytes (host.digest bytes) with
    | nil => simp [hd] at hlen
    | cons b l =>
      have hb := (hchars b (by simp [hd])).1
      simpa [hd] using hb

/-- **The bytes of two nodes agree only if their parents do.** -/
theorem DagNode.parents_eq_of_hashedBytes (hf : host.Formats) {a b : DagNode}
    (ha : a.LegacyLink host) (hb : b.LegacyLink host)
    (h : a.hashedBytes host = b.hashedBytes host) : a.parents = b.parents := by
  obtain ⟨opsA, hopsA⟩ := ha.legacy
  obtain ⟨opsB, hopsB⟩ := hb.legacy
  have hjson (ops : List CRDTOperation) : ∀ s ∈ ops.map fun op =>
      ((host.opJson op).map asBytes).getD [], ∃ op text, host.opJson op = some text ∧
        s = asBytes text := by
    intro s hs
    obtain ⟨op, -, rfl⟩ := mem_map.1 hs
    obtain ⟨text, htext, -⟩ := hf.opJson op
    exact ⟨op, text, htext, by simp [htext]⟩
  have htails : a.tailBytes host = b.tailBytes host := by
    refine append_inj_of_prefixFree (c := openBrace)
      (P := fun s => ∃ op text, host.opJson op = some text ∧ s = asBytes text) ?_ ?_
      (hjson opsA) (hjson opsB) (hf.head_tailBytes ha) (hf.head_tailBytes hb) ?_
    · rintro s ⟨op, text, htext, rfl⟩
      obtain ⟨text', htext', hhead⟩ := hf.opJson op
      rw [htext] at htext'
      cases htext'
      exact hhead
    · rintro s t r r' ⟨op, text, htext, rfl⟩ ⟨op', text', htext', rfl⟩ heq
      exact hf.opJsonPrefixFree op op' text text' r r' htext htext' heq
    · unfold hashedBytes at h
      rw [hopsA, hopsB] at h
      simp only [append_assoc] at h
      simpa [tailBytes, flatMap_def] using append_cancel_left h
  -- a digest against a time: the colon is in the first 43 bytes of one only
  have hcolon : ∀ (bytes : List UInt8) (t : DateTime) (r r' : List UInt8),
      asBytes (host.digest bytes) ++ r ≠ asBytes (host.rfc3339 t) ++ r' := by
    intro bytes t r r' heq
    have hlen := hf.digestLength bytes
    have hmem : colon ∈ (asBytes (host.rfc3339 t) ++ r').take 43 := by
      rw [take_append]
      exact mem_append_left _ (hf.timeColon t)
    rw [← heq, take_append_of_le_length hlen.ge, ← hlen, take_length] at hmem
    exact (hf.digestChars bytes colon hmem).2 rfl
  unfold tailBytes at htails
  rcases ha.parents with hA | ⟨x, hA⟩ <;> rcases hb.parents with hB | ⟨y, hB⟩ <;>
    rw [hA, hB] at htails ⊢ <;>
    simp only [flatMap_cons, append_assoc] at htails
  · exact absurd htails.symm (hcolon y a.timestamp _ _)
  · exact absurd htails (hcolon x b.timestamp _ _)
  · have hdigest := (append_inj htails ((hf.digestLength x).trans (hf.digestLength y).symm)).1
    rw [asBytes_injective hdigest]

/-! ## Chains -/

/-- The parents a node of a chain has, the nodes before it given. -/
def lastHash (before : List DagNode) : List Hash := before.getLast?.toList.map hash

theorem lastHash_concat (l : List DagNode) (node : DagNode) :
    lastHash (l ++ [node]) = [node.hash] := by
  simp [lastHash]

/-- The hashes in the list are different, and each node has the one before it for its only
parent. -/
structure Linked (chain : List DagNode) : Prop where
  nodup : (chain.map hash).Nodup
  parents : ∀ l₁ node l₂, chain = l₁ ++ node :: l₂ → node.parents = lastHash l₁

theorem Linked.snoc {chain : List DagNode} (h : Linked chain) {node : DagNode}
    (hnew : node.hash ∉ chain.map hash) (hparents : node.parents = lastHash chain) :
    Linked (chain ++ [node]) := by
  refine ⟨?_, fun l₁ n l₂ hsplit => ?_⟩
  · rw [map_append, nodup_append]
    exact ⟨h.nodup, nodup_singleton _, fun a ha b hb hab => by
      rw [map_singleton, mem_singleton] at hb
      exact hnew (hb ▸ hab ▸ ha)⟩
  · rcases eq_nil_or_concat l₂ with rfl | ⟨l₂, last, rfl⟩
    · obtain ⟨rfl, hn⟩ := append_inj' hsplit rfl
      rw [← singleton_inj.1 hn]
      exact hparents
    · have hsplit' : chain ++ [node] = (l₁ ++ n :: l₂) ++ [last] := by simp [hsplit]
      exact h.parents l₁ n l₂ (append_inj' hsplit' rfl).1

/-- Elements on two sides of a split of a list without repetition are different. -/
theorem hash_ne_of_split {l₁ l₂ : List DagNode} (h : ((l₁ ++ l₂).map hash).Nodup)
    {a b : DagNode} (ha : a ∈ l₁) (hb : b ∈ l₂) : a.hash ≠ b.hash := by
  rw [map_append, nodup_append] at h
  exact h.2.2 _ (mem_map_of_mem ha) _ (mem_map_of_mem hb)

variable {n : DagNode}

theorem Linked.lastHash_ne {chain : List DagNode} (h : Linked chain) (hn : n ∈ chain) :
    n.parents ≠ lastHash chain := by
  obtain ⟨l₁, l₂, rfl⟩ := append_of_mem hn
  rw [h.parents l₁ n l₂ rfl]
  intro heq
  obtain ⟨last, hlast⟩ : ∃ last, (l₁ ++ n :: l₂).getLast? = some last :=
    ne_none_iff_exists'.1 (by simp)
  have hmem : last ∈ n :: l₂ := by
    rw [getLast?_append_of_ne_nil _ (cons_ne_nil n l₂)] at hlast
    exact mem_of_getLast? hlast
  unfold lastHash at heq
  rw [hlast] at heq
  cases hp : l₁.getLast? with
  | none => simp [hp] at heq
  | some p =>
    have hhash : p.hash = last.hash := by simpa [hp] using heq
    exact hash_ne_of_split h.nodup (mem_of_getLast? hp) hmem hhash

/-- **A chain can be listed in one way only**, if parents come first. -/
theorem Linked.eq_of_causal {chain l : List DagNode} (h : Linked chain)
    (hmem : ∀ node, node ∈ l ↔ node ∈ chain) (hl : (l.map hash).Nodup)
    (hcausal : ∀ l₁ node l₂, l = l₁ ++ node :: l₂ → ∀ p ∈ node.parents, p ∈ l₁.map hash) :
    l = chain := by
  -- the lists agree so far, and then in the next node, the others being without their parents
  suffices hrest : ∀ rest before l', chain = before ++ rest → l = before ++ l' → l' = rest from
    hrest chain [] l rfl rfl
  intro rest
  induction rest with
  | nil =>
    intro before l' hchain hlist
    rw [append_nil] at hchain
    refine eq_nil_iff_forall_not_mem.2 fun x hx => ?_
    have hbefore : x ∈ before := by
      rw [← hchain, ← hmem, hlist]
      exact mem_append_right _ hx
    exact hash_ne_of_split (hlist ▸ hl) hbefore hx rfl
  | cons n rest ih =>
    intro before l' hchain hlist
    have hnl : n ∈ l' := by
      have hn : n ∈ before ++ l' := by
        rw [← hlist, hmem, hchain]
        simp
      rcases mem_append.1 hn with hearly | hlate
      · exact absurd rfl (hash_ne_of_split (hchain ▸ h.nodup) hearly mem_cons_self)
      · exact hlate
    cases l' with
    | nil => cases hnl
    | cons x l' =>
      have hx : x ∈ n :: rest := by
        have hxc : x ∈ before ++ n :: rest := by
          rw [← hchain, ← hmem, hlist]
          simp
        rcases mem_append.1 hxc with hearly | hlate
        · exact absurd rfl (hash_ne_of_split (hlist ▸ hl) hearly mem_cons_self)
        · exact hlate
      rcases mem_cons.1 hx with rfl | hrest
      · rw [ih (before ++ [x]) l' (by simp [hchain]) (by simp [hlist])]
      · obtain ⟨r₁, r₂, rfl⟩ := append_of_mem hrest
        have hparents := h.parents (before ++ n :: r₁) x r₂ (by simp [hchain])
        obtain ⟨p, hp⟩ : ∃ p, (n :: r₁).getLast? = some p :=
          ne_none_iff_exists'.1 (by simp)
        have hlast : lastHash (before ++ n :: r₁) = [p.hash] := by
          rw [lastHash, getLast?_append_of_ne_nil _ (cons_ne_nil n r₁), hp]
          rfl
        rw [hlast] at hparents
        obtain ⟨q, hq, hqp⟩ := mem_map.1
          (hcausal before x l' hlist p.hash (by rw [hparents]; exact mem_singleton_self _))
        have hpmem : p ∈ n :: (r₁ ++ x :: r₂) :=
          mem_append_left (x :: r₂) (mem_of_getLast? hp)
        exact absurd hqp (hash_ne_of_split (hchain ▸ h.nodup) hq hpmem)

/-! ## DAGs that are chains -/

namespace MerkleDAG

variable {dag dag' : MerkleDAG} {chain : List DagNode} {node : DagNode}

/-- The DAG is a chain of legacy nodes, `chain` in order. -/
structure IsChain (host : Host) (dag : MerkleDAG) (chain : List DagNode) : Prop where
  sound : dag.Sound host
  acyclic : dag.graph.Acyclic
  contains : ∀ node, dag.Contains node ↔ node ∈ chain
  linked : Linked chain
  legacy : ∀ node ∈ chain, ∃ ops, node.operations = .legacy ops
  heads : dag.heads = (lastHash chain).toFinset
  genesis : dag.genesis = chain.head?.map hash

theorem isChain_new (host : Host) : IsChain host new [] where
  sound := sound_new host
  acyclic := (wellFormed_new host).acyclic
  contains node := by
    refine iff_of_false ?_ not_mem_nil
    rintro ⟨hash, h⟩
    simp [new] at h
  linked := ⟨nodup_nil, fun l₁ node l₂ h => by simp at h⟩
  legacy node h := by cases h
  heads := rfl
  genesis := rfl

theorem IsChain.getHeads (h : IsChain host dag chain) (order : IterOrder Hash) :
    (dag.getHeads order).map hash = lastHash chain := by
  unfold MerkleDAG.getHeads
  rw [h.heads]
  cases hlast : chain.getLast? with
  | none =>
    simp [lastHash, hlast]
  | some last =>
    have hlook : dag.nodes.lookup last.hash = some last :=
      (contains_iff h.sound.keyed).1 ((h.contains last).2 (mem_of_getLast? hlast))
    simp [lastHash, hlast, order.list_singleton, hlook]

theorem IsChain.verified (h : IsChain host dag chain) (hn : n ∈ chain) :
    n.verifyHash host = true := by
  obtain ⟨hash, hlook⟩ := (h.contains n).2 hn
  exact h.sound.verified hash n hlook

theorem IsChain.digest_lastHash (h : IsChain host dag chain) {l : List DagNode}
    (hl : ∀ n ∈ l, n ∈ chain) : lastHash l = [] ∨ ∃ bytes, lastHash l = [host.digest bytes] := by
  unfold lastHash
  cases hlast : l.getLast? with
  | none => exact .inl rfl
  | some last =>
    have hv := h.verified (hl last (mem_of_getLast? hlast))
    exact .inr ⟨_, by simp [hash_eq_digest hv]; rfl⟩

theorem IsChain.legacyLink (h : IsChain host dag chain) (hn : n ∈ chain) : n.LegacyLink host := by
  refine ⟨h.legacy n hn, ?_⟩
  obtain ⟨l₁, l₂, rfl⟩ := append_of_mem hn
  rw [h.linked.parents l₁ n l₂ rfl]
  exact h.digest_lastHash fun x hx => mem_append_left _ hx

theorem IsChain.hash_mem_verts (h : IsChain host dag chain) (hn : n ∈ chain) :
    n.hash ∈ dag.graph.verts :=
  mem_verts.2 ⟨n, (contains_iff h.sound.keyed).1 ((h.contains n).2 hn)⟩

theorem IsChain.keys_eq_empty_iff (h : IsChain host dag chain) :
    dag.nodes.keys = ∅ ↔ chain = [] := by
  constructor
  · intro hempty
    refine eq_nil_iff_forall_not_mem.2 fun n hn => ?_
    have hmem : n.hash ∈ dag.nodes.keys := h.hash_mem_verts hn
    rw [hempty] at hmem
    cases hmem
  · rintro rfl
    refine Finset.eq_empty_iff_forall_notMem.2 fun hash hmem => ?_
    obtain ⟨n, hn⟩ := mem_verts.1 hmem
    exact not_mem_nil ((h.contains n).1 ⟨hash, hn⟩)

theorem acyclic_addNode {dag' : MerkleDAG} (hok : dag.addNode host node = .ok dag')
    (hsound : dag.Sound host) (hacyclic : dag.graph.Acyclic) (hfresh : node.hash ∉ dag.graph.verts)
    (hclosed : ∀ p ∈ node.parents, p ∈ dag.graph.verts) : dag'.graph.Acyclic := by
  rw [graph_addNode hok]
  refine acyclic_update hacyclic fun w hw => ?_
  by_cases hwn : w = node.hash
  · subst hwn
    exact hfresh (hclosed _ (isParent_update_self.1 hw))
  · exact hfresh (hsound.closed _ _ ((isParent_update_of_ne hwn).1 hw))

section

variable (hf : host.Formats) (h : IsChain host dag chain) (hv : node.verifyHash host = true)
  (hparents : node.parents = lastHash chain) (hlegacy : ∃ ops, node.operations = .legacy ops)
  (hcf : host.CollisionFree (insert (node.hashedBytes host)
    {bytes | ∃ n, dag.Contains n ∧ bytes = n.hashedBytes host}))
include hf h hv hparents hlegacy hcf

/-- **The hash of the next node is new**, if the hash has no collision. -/
theorem IsChain.lookup_eq_none :
    dag.nodes.lookup node.hash = none := by
  by_contra hsome
  obtain ⟨n, hlook⟩ := ne_none_iff_exists'.1 hsome
  have hn : n ∈ chain := (h.contains n).1 ⟨_, hlook⟩
  have hhash : node.hash = n.hash := (h.sound.keyed _ _ hlook).symm
  rw [hash_eq_digest hv, hash_eq_digest (h.verified hn)] at hhash
  have hbytes := hcf (Set.mem_insert _ _) (Set.mem_insert_of_mem _ ⟨n, ⟨_, hlook⟩, rfl⟩) hhash
  have hlink : node.LegacyLink host := by
    refine ⟨hlegacy, ?_⟩
    rw [hparents]
    exact h.digest_lastHash fun x hx => hx
  have hsame := parents_eq_of_hashedBytes hf hlink (h.legacyLink hn) hbytes
  exact h.linked.lastHash_ne hn (hsame.symm.trans hparents)

theorem IsChain.addNode :
    ∃ dag', dag.addNode host node = .ok dag' ∧ IsChain host dag' (chain ++ [node]) := by
  have hnone := h.lookup_eq_none hf hv hparents hlegacy hcf
  have hfresh : node.hash ∉ dag.graph.verts := by
    rw [mem_verts]
    rintro ⟨n, hn⟩
    rw [hnone] at hn
    cases hn
  have hclosed : ∀ p ∈ node.parents, p ∈ dag.graph.verts := by
    rw [hparents]
    intro p hp
    obtain ⟨last, hlast, rfl⟩ := mem_map.1 hp
    exact h.hash_mem_verts (mem_of_getLast? (mem_toList.1 hlast))
  have hok := addNode_eq_ok_iff.2 ⟨hv, hasParents_iff.2 hclosed, rfl⟩
  refine ⟨_, hok,
    { sound := h.sound.addNode hok
      acyclic := acyclic_addNode hok h.sound h.acyclic hfresh hclosed
      contains := fun n => ?_
      linked := h.linked.snoc (fun hmem => ?_) hparents
      legacy := fun n hn => ?_
      heads := ?_
      genesis := ?_ }⟩
  · rw [contains_addNode hok hnone, mem_append, mem_singleton, ← h.contains]
  · obtain ⟨n, hn, hhash⟩ := mem_map.1 hmem
    exact hfresh (hhash ▸ h.hash_mem_verts hn)
  · rcases mem_append.1 hn with hold | hnew
    · exact h.legacy n hold
    · rw [mem_singleton.1 hnew]
      exact hlegacy
  · rw [h.heads, hparents, lastHash_concat]
    simp
  · have hkeys := h.keys_eq_empty_iff
    cases chain with
    | nil => simp [hkeys.2 rfl]
    | cons first rest =>
      have hne : dag.nodes.keys ≠ ∅ := fun hempty => cons_ne_nil _ _ (hkeys.1 hempty)
      simp [hne, h.genesis]

end

theorem IsChain.topologicalSort_eq (h : IsChain host dag chain) (order : IterOrder Hash) :
    dag.topologicalSort order = chain := by
  have hroot : ∀ node, dag.Contains node → node.parents = [] → dag.genesis = some node.hash := by
    intro n hn hparents
    obtain ⟨l₁, l₂, rfl⟩ := append_of_mem ((h.contains n).1 hn)
    have hfirst : l₁ = [] := by
      have hnone := h.linked.parents l₁ n l₂ rfl
      rw [hparents] at hnone
      cases hl : l₁.getLast? with
      | none => exact getLast?_eq_none_iff.1 hl
      | some last => simp [lastHash, hl] at hnone
    rw [h.genesis, hfirst]
    rfl
  have hlists : dag.ListsHistory order := listsHistory_of_rooted h.sound h.acyclic hroot
  refine h.linked.eq_of_causal (fun n => ?_) hlists.once hlists.causal
  rw [hlists.complete, h.contains]

theorem IsChain.getAllOperations_eq (h : IsChain host dag chain) (order : IterOrder Hash) :
    dag.getAllOperations order = chain.flatMap getOperations := by
  rw [MerkleDAG.getAllOperations, h.topologicalSort_eq]

end MerkleDAG
end Idiom.Ajna
