import Idiom.Kanon.Leaf
import Idiom.Lib.FiniteMap

/-!
# The two Merkle roots of `registry_kanon/src/merkle.rs`

The keccak root hashes sorted pairs and promotes an odd node. The Poseidon root is the one of a
tree of fixed depth, filled up with zeros.
-/

namespace Idiom.Kanon

open List

section

variable (host : Host)

/-! ## The keccak root -/

/-- Sorted-pair hash. -/
def hashPair (a b : Bytes32) : Bytes32 :=
  if a.1 ≤ b.1 then host.keccak256 (a.1 ++ b.1) else host.keccak256 (b.1 ++ a.1)

def nextLayer : List Bytes32 → List Bytes32
  | a :: b :: rest => hashPair host a b :: nextLayer rest
  -- the odd leaf is promoted upward unchanged
  | [a] => [a]
  | [] => []

theorem length_nextLayer (layer : List Bytes32) :
    (nextLayer host layer).length = (layer.length + 1) / 2 := by
  fun_induction nextLayer host layer with
  | case1 a b rest ih =>
    rw [length_cons, length_cons, length_cons]
    omega
  | case2 a | case3 => simp

def ozKeccakRoot : List Bytes32 → Bytes32
  | [] => zero32
  | [root] => root
  | a :: b :: rest => ozKeccakRoot (nextLayer host (a :: b :: rest))
termination_by layer => layer.length
decreasing_by
  rw [length_nextLayer]
  simp only [length_cons]
  omega

/-! ## The Poseidon root -/

def nodeTag : Fr := 2

def poseidonTreeDepth : ℕ := 26

/-- Parent of two children. -/
def hashNode (left right : Fr) : Except KanonError Fr := poseidonHash host [nodeTag, left, right]

/-- Per-level sparse maps. -/
abbrev Nodes := ℕ → FMap ℕ Fr

/-- Missing indices fall back to the empty subtree. -/
def nodeAt (zeros : List Fr) (nodes : Nodes) (level index : ℕ) : Fr :=
  ((nodes level).lookup index).getD (zeros.getD level 0)

def insertNode (nodes : Nodes) (level index : ℕ) (value : Fr) : Nodes :=
  Function.update nodes level ((nodes level).insert index value)

/-- `zeros[level]` is the value of an entirely empty subtree rooted at `level`. -/
def emptySubtrees (depth : ℕ) : Except KanonError (List Fr) :=
  (range depth).foldlM (fun zeros _ => do
    let parent ← hashNode host (zeros.getLastD 0) (zeros.getLastD 0)
    .ok (zeros ++ [parent])) [0]

/-- The parent of the node at `idx`, one level up. -/
def climbLevel (zeros : List Fr) (at_ : Nodes × ℕ) (level : ℕ) :
    Except KanonError (Nodes × ℕ) := do
  let (nodes, idx) := at_
  let (left, right) :=
    if idx % 2 = 1 then (nodeAt zeros nodes level (idx - 1), nodeAt zeros nodes level idx)
    else (nodeAt zeros nodes level idx, nodeAt zeros nodes level (idx + 1))
  let parent ← hashNode host left right
  .ok (insertNode nodes (level + 1) (idx / 2) parent, idx / 2)

/-- Insert a leaf and recompute the nodes above it. -/
def insertLeaf (zeros : List Fr) (depth : ℕ) (nodes : Nodes) (leaf : Fr × ℕ) :
    Except KanonError Nodes := do
  let (nodes, _) ← (range depth).foldlM (climbLevel host zeros)
    (insertNode nodes 0 leaf.2 leaf.1, leaf.2)
  .ok nodes

/-- Root of a sparse fixed-depth tagged-Poseidon tree over `leaves`. -/
def poseidonRoot (depth : ℕ) (leaves : List Fr) : Except KanonError Fr :=
  if depth < 1 then .error (.invalid "depth must be >= 1")
  else if 2 ^ depth < leaves.length then
    .error (.invalid ("too many leaves (" ++ toString leaves.length ++ ") for depth " ++
      toString depth ++ " (max " ++ toString (2 ^ depth) ++ ")"))
  else do
    let zeros ← emptySubtrees host depth
    let nodes ← leaves.zipIdx.foldlM (insertLeaf host zeros depth) fun _ => ∅
    .ok (nodeAt zeros nodes depth 0)

/-- Depth-26 Poseidon root, as on-chain `bytes32`. -/
def poseidonRootBytes32 (leaves : List Fr) : Except KanonError Bytes32 := do
  let root ← poseidonRoot host poseidonTreeDepth leaves
  .ok (feltToBytes32 root)

/-! ## No failure -/

theorem foldlM_ok {α β : Type} {f : β → α → Except KanonError β}
    (hf : ∀ b a, ∃ b', f b a = .ok b') (l : List α) (b : β) : ∃ b', l.foldlM f b = .ok b' := by
  induction l generalizing b with
  | nil => exact ⟨b, rfl⟩
  | cons a l ih =>
    obtain ⟨b', hb⟩ := hf b a
    obtain ⟨c, hc⟩ := ih b'
    refine ⟨c, ?_⟩
    rw [foldlM_cons, hb]
    exact hc

theorem emptySubtrees_ok (depth : ℕ) : ∃ zeros, emptySubtrees host depth = .ok zeros := by
  refine foldlM_ok (fun zeros _ => ?_) _ _
  exact ⟨_, rfl⟩

theorem climbLevel_ok (zeros : List Fr) (at_ : Nodes × ℕ) (level : ℕ) :
    ∃ up, climbLevel host zeros at_ level = .ok up := by
  obtain ⟨nodes, idx⟩ := at_
  unfold climbLevel
  by_cases hright : idx % 2 = 1
  · simp only [if_pos hright]
    exact ⟨_, rfl⟩
  · simp only [if_neg hright]
    exact ⟨_, rfl⟩

theorem insertLeaf_ok (zeros : List Fr) (depth : ℕ) (nodes : Nodes) (leaf : Fr × ℕ) :
    ∃ nodes', insertLeaf host zeros depth nodes leaf = .ok nodes' := by
  obtain ⟨up, hup⟩ := foldlM_ok (climbLevel_ok host zeros) (range depth)
    (insertNode nodes 0 leaf.2 leaf.1, leaf.2)
  unfold insertLeaf
  rw [hup]
  exact ⟨up.1, rfl⟩

/-- **Leaves that fit have a root.** -/
theorem poseidonRoot_ok {depth : ℕ} {leaves : List Fr} (hdepth : 1 ≤ depth)
    (hfit : leaves.length ≤ 2 ^ depth) : ∃ root, poseidonRoot host depth leaves = .ok root := by
  obtain ⟨zeros, hzeros⟩ := emptySubtrees_ok host depth
  obtain ⟨nodes, hnodes⟩ := foldlM_ok (insertLeaf_ok host zeros depth) leaves.zipIdx fun _ => ∅
  unfold poseidonRoot
  rw [if_neg (by omega), if_neg (by omega), hzeros]
  refine ⟨nodeAt zeros nodes depth 0, ?_⟩
  show (leaves.zipIdx.foldlM (insertLeaf host zeros depth) (fun _ => ∅) >>= fun nodes =>
    Except.ok (nodeAt zeros nodes depth 0)) = _
  rw [hnodes]
  rfl

theorem poseidonRootBytes32_ok {leaves : List Fr} (hfit : leaves.length ≤ 2 ^ poseidonTreeDepth) :
    ∃ root, poseidonRootBytes32 host leaves = .ok root := by
  obtain ⟨root, hroot⟩ := @poseidonRoot_ok host poseidonTreeDepth _ (by decide) hfit
  unfold poseidonRootBytes32
  rw [hroot]
  exact ⟨feltToBytes32 root, rfl⟩

end

end Idiom.Kanon
