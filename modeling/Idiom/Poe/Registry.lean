import Idiom.Lib.PerfectTree
import Idiom.Poe.Membership
import Mathlib.Data.List.GetD
import Mathlib.Data.List.Induction

/-!
# The registry of commitments (`poe_prover/src/registry.rs`)

A list of leaves of any length, read as a tree of depth `DEPTH`. The path of every leaf should lead
to the root, and what leads to the root should be a leaf.
-/

namespace Idiom.Poe

open PerfectTree List

/-! ## The code -/

/-- Append-only sparse Merkle accumulator. -/
structure Registry where
  leaves : List Fp
  /-- The root of an empty subtree, by height. -/
  defaults : List Fp

namespace Registry

section

variable (poseidon : Poseidon)

def new : Registry where
  leaves := []
  defaults := (range depth).foldl (fun defaults _ =>
    defaults ++ [poseidon.hash2 (defaults.getLastD 0) (defaults.getLastD 0)]) [0]

/-- Register a commitment leaf; returns its index. -/
def insert (r : Registry) (leaf : Fp) : Registry × ℕ :=
  let leaves := r.leaves ++ [leaf]
  ({ r with leaves := leaves }, leaves.length - 1)

/-- Register a key's commitment; returns its leaf index. -/
def insertKey (r : Registry) (key : Bytes32) : Registry × ℕ := r.insert (commitment poseidon key)

/-- Node value at a level and an index; empty subtrees short-circuit to the default. -/
def node (r : Registry) : ℕ → ℕ → Fp
  | 0, index => if r.leaves.length ≤ index then r.defaults.getD 0 0 else r.leaves.getD index 0
  | level + 1, index =>
    if r.leaves.length ≤ index * 2 ^ (level + 1) then r.defaults.getD (level + 1) 0
    else poseidon.hash2 (r.node level (index * 2)) (r.node level (index * 2 + 1))

def root (r : Registry) : Fp := r.node poseidon depth 0

/-- Authentication path for a leaf: the siblings, and where the node is the right child. -/
def path (r : Registry) (leafIndex : ℕ) : List Fp × List Bool :=
  let (sib, dir, _) := (range depth).foldl (fun (sib, dir, idx) level =>
    (sib ++ [r.node poseidon level (idx ^^^ 1)], dir ++ [decide (idx &&& 1 = 1)], idx >>> 1))
    (([] : List Fp), ([] : List Bool), leafIndex)
  (sib, dir)

end

end Registry

/-- The calls that change a registry. -/
inductive Call where
  | insert (leaf : Fp)
  | insertKey (key : Bytes32)

open Call

def Call.leaf (poseidon : Poseidon) : Call → Fp
  | insert leaf => leaf
  | insertKey key => commitment poseidon key

def Call.run (poseidon : Poseidon) (r : Registry) : Call → Registry × ℕ
  | insert leaf => r.insert leaf
  | insertKey key => r.insertKey poseidon key

/-- A new registry after some calls, with the leaves and the indices that were returned. -/
def runCalls (poseidon : Poseidon) (calls : List Call) : Registry × List (Fp × ℕ) :=
  calls.foldl (fun (r, returned) call =>
    let (r, index) := call.run poseidon r
    (r, returned ++ [(call.leaf poseidon, index)])) (Registry.new poseidon, [])

/-! ## Stating it -/

/-- The pairs that are hashed to make the nodes of the tree. -/
def Registry.hashedPairs (poseidon : Poseidon) (r : Registry) : Set (Fp × Fp) :=
  {p | ∃ level < depth, ∃ i, p = (r.node poseidon level (2 * i), r.node poseidon level (2 * i + 1))}

/-- The hash of two inputs takes no two of these to one value. -/
def Poseidon.CollisionFree2 (poseidon : Poseidon) (pairs : Set (Fp × Fp)) : Prop :=
  Set.InjOn (fun p => poseidon.hash2 p.1 p.2) pairs

/-- Paths lead to the root, and what leads there is a leaf, among the pairs without collision. -/
structure PathsFold (poseidon : Poseidon) (pairs : Set (Fp × Fp)) (calls : List Call) : Prop where
  folds : ∀ leaf index, (leaf, index) ∈ (runCalls poseidon calls).2 →
    merkleRoot poseidon leaf ((runCalls poseidon calls).1.path poseidon index).1
      ((runCalls poseidon calls).1.path poseidon index).2 =
      (runCalls poseidon calls).1.root poseidon
  only : ∀ leaf siblings dirs, siblings.length = depth → dirs.length = depth →
    (∀ p ∈ climbedPairs poseidon.hash2 leaf (siblings.zip dirs), p ∈ pairs) →
    merkleRoot poseidon leaf siblings dirs = (runCalls poseidon calls).1.root poseidon →
    leaf ∈ calls.map (Call.leaf poseidon) ∨ leaf = 0

/-- Every block of 2^16 leaves, the last one filled up with empty ones, is like the first. -/
def BlocksAlike (leaves : List Fp) : Prop :=
  ∀ i < leaves.length, ∀ j < 2 ^ depth,
    leaves.getD (i / 2 ^ depth * 2 ^ depth + j) 0 = leaves.getD j 0

/-! ## The registry is a complete tree -/

section

variable {poseidon : Poseidon}

theorem runCalls_eq (poseidon : Poseidon) (calls : List Call) :
    runCalls poseidon calls =
      ({ Registry.new poseidon with leaves := calls.map (Call.leaf poseidon) },
        (calls.map (Call.leaf poseidon)).zipIdx) := by
  unfold runCalls
  induction calls using reverseRecOn with
  | nil => rfl
  | append_singleton calls call ih =>
    rw [foldl_append, ih, map_append, zipIdx_append]
    cases call with
    | insert leaf => simp [Call.run, Call.leaf, Registry.insert]
    | insertKey key => simp [Call.run, Call.leaf, Registry.insert, Registry.insertKey]

theorem defaults_new (poseidon : Poseidon) : (Registry.new poseidon).defaults =
    (range (depth + 1)).map (emptyNode poseidon.hash2 0) :=
  foldl_emptyNode poseidon.hash2 0 0 depth

structure Made (poseidon : Poseidon) (r : Registry) : Prop where
  defaults : r.defaults = (Registry.new poseidon).defaults

variable {r : Registry} {level : ℕ}

theorem Made.default (h : Made poseidon r) (hlevel : level ≤ depth) :
    r.defaults.getD level 0 = emptyNode poseidon.hash2 0 level := by
  rw [h.defaults, defaults_new, getD_eq_getElem _ _ (by simp; omega)]
  simp

theorem Made.default_eq_node (h : Made poseidon r) {index : ℕ} (hlevel : level ≤ depth)
    (hbeyond : r.leaves.length ≤ index * 2 ^ level) :
    r.defaults.getD level 0 =
      node poseidon.hash2 (fun i => r.leaves.getD i 0) level index := by
  rw [h.default hlevel]
  refine (node_eq_emptyNode fun j hj => ?_).symm
  have hstart := Nat.div_mul_le_self j (2 ^ level)
  rw [hj] at hstart
  exact getD_eq_default _ _ (Nat.le_trans hbeyond hstart)

/-- **The nodes are those of the complete tree.** -/
theorem node_eq (h : Made poseidon r) (hlevel : level ≤ depth) (index : ℕ) :
    r.node poseidon level index =
      node poseidon.hash2 (fun i => r.leaves.getD i 0) level index := by
  induction level generalizing index with
  | zero =>
    rw [Registry.node]
    split
    · next hle => exact h.default_eq_node hlevel (by omega)
    · rfl
  | succ level ih =>
    rw [Registry.node]
    split
    · next hle => exact h.default_eq_node hlevel hle
    · rw [node, Nat.mul_comm index 2, ih (by omega), ih (by omega)]

theorem hashedPairs_eq (h : Made poseidon r) : r.hashedPairs poseidon =
    hashedPairs poseidon.hash2 (fun i => r.leaves.getD i 0) depth := by
  ext p
  refine exists_congr fun level => and_congr_right fun hlevel => exists_congr fun i => ?_
  rw [node_eq h (Nat.le_of_lt hlevel), node_eq h (Nat.le_of_lt hlevel)]

/-! ## Paths -/

theorem merkleRoot_eq_climb (leaf : Fp) (siblings : List Fp) (dirs : List Bool) :
    merkleRoot poseidon leaf siblings dirs = climb poseidon.hash2 leaf (siblings.zip dirs) := by
  unfold merkleRoot
  generalize siblings.zip dirs = steps
  induction steps generalizing leaf with
  | nil => rfl
  | cons step steps ih =>
    obtain ⟨s, d⟩ := step
    rw [foldl_cons, ih]
    cases d with
    | false | true => rfl

theorem path_loop (h : Made poseidon r) (leafIndex : ℕ) {levels : ℕ} (hlevels : levels ≤ depth) :
    ∃ sib dir, (range levels).foldl (fun (sib, dir, idx) level =>
      (sib ++ [r.node poseidon level (idx ^^^ 1)], dir ++ [decide (idx &&& 1 = 1)], idx >>> 1))
        (([] : List Fp), ([] : List Bool), leafIndex) = (sib, dir, leafIndex / 2 ^ levels) ∧
      sib.length = levels ∧ dir.length = levels ∧
      sib.zip dir = path poseidon.hash2 (fun i => r.leaves.getD i 0) 0 leafIndex
        levels := by
  induction levels with
  | zero => exact ⟨[], [], by simp, rfl, rfl, rfl⟩
  | succ levels ih =>
    obtain ⟨sib, dir, hloop, hsib, hdir, hzip⟩ := ih (by omega)
    refine ⟨sib ++ [r.node poseidon levels (leafIndex / 2 ^ levels ^^^ 1)],
      dir ++ [decide (leafIndex / 2 ^ levels &&& 1 = 1)], ?_, ?_, ?_, ?_⟩
    · rw [range_succ, foldl_append, hloop, div_two_pow_succ]
      rfl
    · rw [length_append, hsib, length_singleton]
    · rw [length_append, hdir, length_singleton]
    · rw [zip_append (hsib.trans hdir.symm), hzip, path_succ, node_eq h (by omega), xor_one]
      simp

/-- **A path leads to the node above its block.** -/
theorem merkleRoot_path (h : Made poseidon r) (index : ℕ) :
    merkleRoot poseidon (r.leaves.getD index 0) (r.path poseidon index).1
      (r.path poseidon index).2 = r.node poseidon depth (index / 2 ^ depth) := by
  obtain ⟨sib, dir, hloop, -, -, hzip⟩ := path_loop h index (Nat.le_refl depth)
  have hpath : r.path poseidon index = (sib, dir) := by
    unfold Registry.path
    rw [hloop]
  rw [hpath, merkleRoot_eq_climb, hzip, node_eq h (Nat.le_refl depth)]
  exact (climb_path (fun i => r.leaves.getD i 0) 0 index depth).trans (by rw [Nat.zero_add])

/-! ## When paths lead to the root -/

theorem made_runCalls (poseidon : Poseidon) (calls : List Call) :
    Made poseidon (runCalls poseidon calls).1 := by
  rw [runCalls_eq]
  exact ⟨rfl⟩

theorem leaves_runCalls (poseidon : Poseidon) (calls : List Call) :
    (runCalls poseidon calls).1.leaves = calls.map (leaf poseidon) := by
  rw [runCalls_eq]

theorem mem_returned_iff {calls : List Call} {leaf : Fp} {index : ℕ} :
    (leaf, index) ∈ (runCalls poseidon calls).2 ↔
      (calls.map (Call.leaf poseidon))[index]? = some leaf := by
  rw [runCalls_eq, mem_zipIdx_iff_getElem?]

variable {pairs : Set (Fp × Fp)} {calls : List Call}

theorem leaf_of_merkleRoot_eq (hfree : poseidon.CollisionFree2 pairs)
    (htree : (runCalls poseidon calls).1.hashedPairs poseidon ⊆ pairs) {leaf : Fp}
    {siblings : List Fp} {dirs : List Bool} (hsiblings : siblings.length = depth)
    (hdirs : dirs.length = depth)
    (hwalk : ∀ p ∈ climbedPairs poseidon.hash2 leaf (siblings.zip dirs), p ∈ pairs)
    (hroot : merkleRoot poseidon leaf siblings dirs = (runCalls poseidon calls).1.root poseidon) :
    leaf ∈ calls.map (Call.leaf poseidon) ∨ leaf = 0 := by
  have hmade := made_runCalls poseidon calls
  have hlength : (siblings.zip dirs).length = depth := by
    rw [length_zip, hsiblings, hdirs, Nat.min_self]
  rw [hashedPairs_eq hmade, leaves_runCalls, ← hlength] at htree
  rw [Registry.root, merkleRoot_eq_climb, node_eq hmade (Nat.le_refl depth), leaves_runCalls,
    ← hlength] at hroot
  obtain ⟨j, -, hleaf⟩ := exists_leaf_of_climb_eq hfree htree hwalk hroot
  rw [hleaf]
  rcases Nat.lt_or_ge j (calls.map (Call.leaf poseidon)).length with hlt | hge
  · rw [getD_eq_getElem _ _ hlt]
    exact .inl (getElem_mem hlt)
  · exact .inr (getD_eq_default _ _ hge)

theorem merkleRoot_path_eq_root_iff (hfree : poseidon.CollisionFree2 pairs)
    (htree : (runCalls poseidon calls).1.hashedPairs poseidon ⊆ pairs) (index : ℕ) :
    merkleRoot poseidon ((calls.map (leaf poseidon)).getD index 0)
        ((runCalls poseidon calls).1.path poseidon index).1
        ((runCalls poseidon calls).1.path poseidon index).2 =
        (runCalls poseidon calls).1.root poseidon ↔
      ∀ j < 2 ^ depth, (calls.map (leaf poseidon)).getD (index / 2 ^ depth * 2 ^ depth + j) 0 =
        (calls.map (leaf poseidon)).getD j 0 := by
  have hmade := made_runCalls poseidon calls
  rw [hashedPairs_eq hmade] at htree
  rw [← leaves_runCalls, merkleRoot_path hmade, Registry.root, node_eq hmade (Nat.le_refl depth),
    node_eq hmade (Nat.le_refl depth)]
  constructor
  · intro h j hj
    have hleaf := leaf_eq_of_node_eq hfree htree h hj
    rwa [Nat.zero_mul, Nat.zero_add] at hleaf
  · intro h
    refine node_eq_node fun j hj => ?_
    rw [Nat.zero_mul, Nat.zero_add]
    exact h j hj

/-- **Paths lead to the root if every block of leaves is like the first.** -/
theorem pathsFold_iff (poseidon : Poseidon) (pairs : Set (Fp × Fp)) (calls : List Call)
    (hfree : poseidon.CollisionFree2 pairs)
    (htree : (runCalls poseidon calls).1.hashedPairs poseidon ⊆ pairs) :
    PathsFold poseidon pairs calls ↔ BlocksAlike (calls.map (Call.leaf poseidon)) := by
  constructor
  · intro h i hi
    have hleaf := List.getElem?_eq_getElem hi
    have hfold := h.folds _ i (mem_returned_iff.2 hleaf)
    rw [← List.getD_eq_getElem _ 0 hi] at hfold
    exact (merkleRoot_path_eq_root_iff hfree htree i).1 hfold
  · intro h
    refine ⟨fun leaf index hmem => ?_, fun leaf siblings dirs hsiblings hdirs hwalk hroot =>
      leaf_of_merkleRoot_eq hfree htree hsiblings hdirs hwalk hroot⟩
    obtain ⟨hlt, hleaf⟩ := List.getElem?_eq_some_iff.1 (mem_returned_iff.1 hmem)
    rw [← hleaf, ← List.getD_eq_getElem _ 0 hlt]
    exact (merkleRoot_path_eq_root_iff hfree htree index).2 (h index hlt)

end

/-! ## A tree with one leaf, hashed by sums -/

section

/-- The node above a leaf `a` and empty leaves. -/
def soloNode (a level : ℕ) : Fp := Fin.ofNat pastaPrime (a + (2 ^ level - 1))

theorem soloNode_succ (a level : ℕ) :
    sumPoseidon.hash2 (soloNode a level) (soloNode 0 level) = soloNode a (level + 1) := by
  have hpow : a + (2 ^ level - 1) + (0 + (2 ^ level - 1)) + 1 = a + (2 ^ (level + 1) - 1) := by
    have hpos := Nat.two_pow_pos level
    omega
  show soloNode a level + soloNode 0 level + 1 = _
  refine Fin.ext ?_
  unfold soloNode
  rw [← hpow]
  simp only [Fin.val_add, Fin.val_ofNat, Nat.mod_add_mod, Nat.add_mod_mod]
  rfl

theorem right_ne_block {level k i : ℕ} (hlevel : level < depth) :
    ¬ (2 * i + 1) * 2 ^ level = k * 2 ^ depth := by
  intro heq
  have hsplit : 2 ^ depth = 2 ^ (depth - level - 1) * 2 * 2 ^ level := by
    rw [← Nat.pow_succ, ← Nat.pow_add]
    congr 1
    omega
  rw [hsplit, ← Nat.mul_assoc] at heq
  have hcancel := Nat.eq_of_mul_eq_mul_right (Nat.two_pow_pos level) heq
  rw [← Nat.mul_assoc] at hcancel
  omega

/-- The tree whose leaf number `k * 2^16` is `a`, and whose other leaves are empty. -/
theorem node_solo (a k : ℕ) {level : ℕ} (hlevel : level ≤ depth) (i : ℕ) :
    node sumPoseidon.hash2
        (fun i => if i = k * 2 ^ depth then Fin.ofNat pastaPrime a else 0) level i =
      if i * 2 ^ level = k * 2 ^ depth then soloNode a level else soloNode 0 level := by
  induction level generalizing i with
  | zero =>
    rw [Nat.pow_zero, Nat.mul_one]
    rfl
  | succ level ih =>
    rw [node, ih (by omega), ih (by omega), if_neg (right_ne_block hlevel), two_mul_mul_two_pow]
    split
    · exact soloNode_succ a level
    · exact soloNode_succ 0 level

/-- The pairs of this tree. -/
def soloPairs (a : ℕ) : List (Fp × Fp) :=
  (range depth).flatMap fun level =>
    [(soloNode a level, soloNode 0 level), (soloNode 0 level, soloNode 0 level)]

theorem soloPairs_collisionFree : sumPoseidon.CollisionFree2 {p | p ∈ soloPairs 5} := by
  have hdistinct : ((soloPairs 5).all fun p => (soloPairs 5).all fun q =>
      sumPoseidon.hash2 p.1 p.2 = sumPoseidon.hash2 q.1 q.2 → p = q) = true := by decide +kernel
  intro p hp q hq
  have hall := all_eq_true.1 hdistinct p hp
  exact of_decide_eq_true (all_eq_true.1 hall q hq)

theorem hashedPairs_solo {calls : List Call} {k : ℕ}
    (h : ∀ i, (calls.map (leaf sumPoseidon)).getD i 0 = if i = k * 2 ^ depth then 5 else 0) :
    (runCalls sumPoseidon calls).1.hashedPairs sumPoseidon ⊆ {p | p ∈ soloPairs 5} := by
  have hleaves : (fun i => (runCalls sumPoseidon calls).1.leaves.getD i 0) =
      fun i => if i = k * 2 ^ depth then Fin.ofNat pastaPrime 5 else 0 := by
    funext i
    rw [leaves_runCalls, h]
    rfl
  rw [hashedPairs_eq (made_runCalls sumPoseidon calls), hleaves]
  rintro p ⟨level, hlevel, i, rfl⟩
  rw [node_solo 5 k (Nat.le_of_lt hlevel), node_solo 5 k (Nat.le_of_lt hlevel),
    if_neg (right_ne_block hlevel)]
  refine mem_flatMap.2 ⟨level, mem_range.2 hlevel, ?_⟩
  split
  · exact mem_cons_self
  · exact mem_cons_of_mem _ mem_cons_self

/-- The leaf after 2^16 empty ones is not below the root. -/
theorem pathsFold_fails : ¬ ∀ (poseidon : Poseidon) (pairs : Set (Fp × Fp)) (calls : List Call),
    poseidon.CollisionFree2 pairs → (runCalls poseidon calls).1.hashedPairs poseidon ⊆ pairs →
    PathsFold poseidon pairs calls := by
  intro h
  let calls := replicate (2 ^ depth) (Call.insert 0) ++ [Call.insert 5]
  have hmap : calls.map (Call.leaf sumPoseidon) = replicate (2 ^ depth) 0 ++ [5] := by
    rw [map_append, map_replicate]
    rfl
  have hleaves : ∀ i, (calls.map (Call.leaf sumPoseidon)).getD i 0 =
      if i = 1 * 2 ^ depth then 5 else 0 := by
    intro i
    rw [hmap, Nat.one_mul]
    rcases Nat.lt_trichotomy i (2 ^ depth) with hlt | rfl | hgt
    · rw [getD_append _ _ _ _ (by rwa [length_replicate]), getD_replicate _ hlt,
        if_neg (Nat.ne_of_lt hlt)]
    · rw [getD_append_right _ _ _ _ (by rw [length_replicate]), length_replicate, Nat.sub_self]
      rfl
    · rw [getD_eq_default _ _ (by simp; omega), if_neg (Nat.ne_of_gt hgt)]
  have htree := hashedPairs_solo hleaves
  have hlast : (calls.map (Call.leaf sumPoseidon))[2 ^ depth]? = some 5 := by
    rw [hmap, getElem?_append_right (by rw [length_replicate]), length_replicate]
    rfl
  have hfold := (h sumPoseidon _ calls soloPairs_collisionFree htree).folds 5 (2 ^ depth)
    (mem_returned_iff.2 hlast)
  have hfive : (calls.map (Call.leaf sumPoseidon)).getD (2 ^ depth) 0 = 5 := by
    rw [hleaves, Nat.one_mul, if_pos rfl]
  rw [← hfive] at hfold
  have hblock := (merkleRoot_path_eq_root_iff soloPairs_collisionFree htree (2 ^ depth)).1 hfold 0
    (Nat.two_pow_pos depth)
  rw [Nat.div_self (Nat.two_pow_pos depth), Nat.add_zero, hleaves, if_pos rfl] at hblock
  exact absurd hblock (by decide)

/-- The paths of a registry with three leaves, of which two are zero. -/
theorem pathsFold_three : sumPoseidon.CollisionFree2 {p | p ∈ soloPairs 5} ∧
    (runCalls sumPoseidon [.insert 5, .insert 0, .insert 0]).1.hashedPairs sumPoseidon ⊆
      {p | p ∈ soloPairs 5} ∧
    PathsFold sumPoseidon {p | p ∈ soloPairs 5} [.insert 5, .insert 0, .insert 0] := by
  have hleaves : ∀ i, ([insert 5, insert 0, insert 0].map (leaf sumPoseidon)).getD i 0 =
      if i = 0 * 2 ^ depth then 5 else 0 := by
    intro i
    rcases i with _ | _ | _ | i <;> rfl
  refine ⟨soloPairs_collisionFree, hashedPairs_solo hleaves, (pathsFold_iff sumPoseidon _
    _ soloPairs_collisionFree (hashedPairs_solo hleaves)).2 fun i hi j _ => ?_⟩
  have hi : i < 3 := hi
  rw [Nat.div_eq_of_lt (hi.trans (by decide)), Nat.zero_mul, Nat.zero_add]

end

end Idiom.Poe
