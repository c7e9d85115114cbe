import Idiom.Kanon.Merkle
import Idiom.Lib.PerfectTree
import Mathlib.Data.List.GetD

/-!
# The sparse tree is the complete tree

`poseidon_root` computes only the nodes above a leaf and takes the others from a table, one level
at a time and one leaf after another. The hash function is a parameter here.
-/

namespace Idiom.Kanon

open List Function PerfectTree

namespace Sparse

section

variable (hash : Fr → Fr → Fr → Fr)

/-! ## The code, for a hash function -/

/-- Parent of two children. -/
def hashNode (left right : Fr) : Fr := hash nodeTag left right

/-- The values of empty subtrees, by level. -/
def emptySubtrees (depth : ℕ) : List Fr :=
  (range depth).foldl
    (fun zeros _ => zeros ++ [hashNode hash (zeros.getLastD 0) (zeros.getLastD 0)]) [0]

/-- The parent of the node at `idx`, one level up. -/
def climbLevel (zeros : List Fr) (at_ : Nodes × ℕ) (level : ℕ) : Nodes × ℕ :=
  let (nodes, idx) := at_
  let (left, right) :=
    if idx % 2 = 1 then (nodeAt zeros nodes level (idx - 1), nodeAt zeros nodes level idx)
    else (nodeAt zeros nodes level idx, nodeAt zeros nodes level (idx + 1))
  (insertNode nodes (level + 1) (idx / 2) (hashNode hash left right), idx / 2)

/-- Insert a leaf and recompute the nodes above it. -/
def insertLeaf (zeros : List Fr) (depth : ℕ) (nodes : Nodes) (leaf : Fr × ℕ) : Nodes :=
  ((range depth).foldl (climbLevel hash zeros) (insertNode nodes 0 leaf.2 leaf.1, leaf.2)).1

/-- Root of a sparse fixed-depth tagged tree over `leaves`. -/
def poseidonRoot (depth : ℕ) (leaves : List Fr) : Except KanonError Fr :=
  if depth < 1 then .error (.invalid "depth must be >= 1")
  else if 2 ^ depth < leaves.length then
    .error (.invalid ("too many leaves (" ++ toString leaves.length ++ ") for depth " ++
      toString depth ++ " (max " ++ toString (2 ^ depth) ++ ")"))
  else
    let zeros := emptySubtrees hash depth
    .ok (nodeAt zeros (leaves.zipIdx.foldl (insertLeaf hash zeros depth) fun _ => ∅) depth 0)

/-- The root of the complete tree of a depth over the leaves, padded with zeros. -/
def fullRoot : ℕ → List Fr → Fr
  | 0, leaves => leaves.headD 0
  | depth + 1, leaves =>
    hash nodeTag (fullRoot depth (leaves.take (2 ^ depth)))
      (fullRoot depth (leaves.drop (2 ^ depth)))

end

end Sparse

/-! ## Poseidon -/

section

variable (host : Host)

/-- Poseidon of three inputs. -/
def poseidon3 (a b c : Fr) : Fr := (poseidonHash host [a, b, c]).toOption.getD 0

theorem poseidonHash_three (a b c : Fr) :
    poseidonHash host [a, b, c] = .ok (poseidon3 host a b c) := by
  obtain ⟨felt, hfelt⟩ := @poseidonHash_ok host [a, b, c] (by simp) (by simp)
  unfold poseidon3
  rw [hfelt]
  rfl

theorem hashNode_eq_sparse (left right : Fr) :
    hashNode host left right = .ok (Sparse.hashNode (poseidon3 host) left right) :=
  poseidonHash_three host nodeTag left right

theorem foldlM_eq_foldl {α β : Type} {f : β → α → Except KanonError β} {g : β → α → β}
    (h : ∀ b a, f b a = .ok (g b a)) (l : List α) (b : β) : l.foldlM f b = .ok (l.foldl g b) := by
  induction l generalizing b with
  | nil => rfl
  | cons a l ih =>
    rw [foldlM_cons, h]
    exact ih (g b a)

theorem climbLevel_eq_sparse (zeros : List Fr) (at_ : Nodes × ℕ) (level : ℕ) :
    climbLevel host zeros at_ level = .ok (Sparse.climbLevel (poseidon3 host) zeros at_ level) := by
  obtain ⟨nodes, idx⟩ := at_
  unfold climbLevel Sparse.climbLevel
  by_cases hright : idx % 2 = 1
  · simp only [hashNode_eq_sparse]
    rfl
  · simp only [hashNode_eq_sparse]
    rfl

theorem insertLeaf_eq_sparse (zeros : List Fr) (depth : ℕ) (nodes : Nodes) (leaf : Fr × ℕ) :
    insertLeaf host zeros depth nodes leaf =
      .ok (Sparse.insertLeaf (poseidon3 host) zeros depth nodes leaf) := by
  unfold insertLeaf
  rw [foldlM_eq_foldl (climbLevel_eq_sparse host zeros)]
  rfl

/-- **The code of the registry is this one, with Poseidon.** -/
theorem poseidonRoot_eq_sparse (depth : ℕ) (leaves : List Fr) :
    poseidonRoot host depth leaves = Sparse.poseidonRoot (poseidon3 host) depth leaves := by
  have hzeros : emptySubtrees host depth = .ok (Sparse.emptySubtrees (poseidon3 host) depth) := by
    refine foldlM_eq_foldl (fun zeros _ => ?_) _ _
    rw [hashNode_eq_sparse]
    rfl
  unfold poseidonRoot Sparse.poseidonRoot
  split
  · rfl
  · split
    · rfl
    · rw [hzeros]
      dsimp only [bind, Except.bind]
      rw [foldlM_eq_foldl (insertLeaf_eq_sparse host _ depth)]

end

namespace Sparse

section

variable {hash : Fr → Fr → Fr → Fr}

/-! ## What the maps say -/

def padded (leaves : List Fr) (i : ℕ) : Fr := leaves.getD i 0

theorem emptySubtrees_eq (depth : ℕ) :
    emptySubtrees hash depth = (range (depth + 1)).map (emptyNode (hashNode hash) 0) :=
  foldl_emptyNode (hashNode hash) 0 0 depth

theorem emptySubtrees_getD {depth level : ℕ} (h : level ≤ depth) :
    (emptySubtrees hash depth).getD level 0 = emptyNode (hashNode hash) 0 level := by
  rw [emptySubtrees_eq, getD_eq_getElem _ _ (by simp; omega)]
  simp

theorem nodeAt_insertNode (zeros : List Fr) (nodes : Nodes) (level index : ℕ) (value : Fr)
    (level' index' : ℕ) :
    nodeAt zeros (insertNode nodes level index value) level' index' =
      if level' = level ∧ index' = index then value else nodeAt zeros nodes level' index' := by
  unfold nodeAt insertNode
  by_cases hlevel : level' = level
  · subst hlevel
    rw [update_self, FMap.lookup_insert_ite]
    by_cases hindex : index' = index
    · simp [hindex]
    · simp [hindex]
  · rw [update_of_ne hlevel, if_neg fun h => hlevel h.1]

/-- The nodes of a level are those of the complete tree over the leaves. -/
def Shows (hash : Fr → Fr → Fr → Fr) (zeros : List Fr) (nodes : Nodes) (leaf : ℕ → Fr)
    (level : ℕ) : Prop :=
  ∀ i, nodeAt zeros nodes level i = node (hashNode hash) leaf level i

/-- On the way up from a new leaf: up to a level the maps show the new leaves, above it the old. -/
structure Climbing (hash : Fr → Fr → Fr → Fr) (zeros : List Fr) (depth : ℕ) (leaf leaf' : ℕ → Fr)
    (n level : ℕ) (at_ : Nodes × ℕ) : Prop where
  idx : at_.2 = n / 2 ^ level
  new : ∀ j ≤ level, Shows hash zeros at_.1 leaf' j
  old : ∀ j, level < j → j ≤ depth → Shows hash zeros at_.1 leaf j

variable {zeros : List Fr} {depth n : ℕ} {leaf leaf' : ℕ → Fr}

theorem climbing_climbLevel (hsame : ∀ j, j ≠ n → leaf j = leaf' j) {level : ℕ}
    (hlevel : level < depth) {at_ : Nodes × ℕ}
      (h : Climbing hash zeros depth leaf leaf' n level at_) :
    Climbing hash zeros depth leaf leaf' n (level + 1) (climbLevel hash zeros at_ level) := by
  obtain ⟨nodes, idx⟩ := at_
  have hidx : idx = n / 2 ^ level := h.idx
  have hnew := h.new level (Nat.le_refl level)
  have hclimb : climbLevel hash zeros (nodes, idx) level =
      (insertNode nodes (level + 1) (idx / 2) (node (hashNode hash) leaf' (level + 1) (idx / 2)),
        idx / 2) := by
    rw [node_parent]
    unfold climbLevel sided sibling
    by_cases hright : idx % 2 = 1
    · simp [hright, hnew idx, hnew (idx - 1)]
    · simp [hright, hnew idx, hnew (idx + 1)]
  rw [hclimb]
  refine ⟨?_, fun j hj i => ?_, fun j hj hle i => ?_⟩
  · rw [div_two_pow_succ, ← hidx]
  · rw [nodeAt_insertNode]
    split
    · next heq => rw [heq.1, heq.2]
    · next hne =>
      rcases Nat.le_succ_iff.1 hj with hle | rfl
      · exact h.new j hle i
      · -- off the path the old leaves and the new ones are the same
        rw [h.old (level + 1) (Nat.lt_succ_self _) hlevel i]
        refine node_congr fun k hk => hsame k ?_
        rintro rfl
        exact hne ⟨rfl, by rw [← hk, div_two_pow_succ, ← hidx]⟩
  · rw [nodeAt_insertNode, if_neg (by omega)]
    exact h.old j (by omega) hle i

/-- **An inserted leaf changes the tree in one place.** -/
theorem shows_insertLeaf (x : Fr) {nodes : Nodes}
    (h : ∀ level ≤ depth, Shows hash zeros nodes leaf level) :
    ∀ level ≤ depth, Shows hash zeros (insertLeaf hash zeros depth nodes (x, n))
      (update leaf n x) level := by
  have hsame : ∀ j, j ≠ n → leaf j = update leaf n x j := fun j hj =>
    (update_of_ne hj x leaf).symm
  have hstart : Climbing hash zeros depth leaf (update leaf n x) n 0
      (insertNode nodes 0 n x, n) := by
    refine ⟨by simp, fun j hj i => ?_, fun j hj hle i => ?_⟩
    · obtain rfl : j = 0 := by omega
      rw [nodeAt_insertNode]
      split
      · next heq => rw [heq.2, node, update_self]
      · next hne =>
        rw [h 0 (Nat.zero_le _) i, node]
        exact hsame i fun heq => hne ⟨rfl, heq⟩
    · rw [nodeAt_insertNode, if_neg (by omega)]
      exact h j hle i
  have hrun : ∀ level ≤ depth, Climbing hash zeros depth leaf (update leaf n x) n level
      ((range level).foldl (climbLevel hash zeros) (insertNode nodes 0 n x, n)) := by
    intro level hle
    induction level with
    | zero => exact hstart
    | succ level ih =>
      rw [range_succ, foldl_append]
      exact climbing_climbLevel hsame hle (ih (by omega))
  exact (hrun depth (Nat.le_refl depth)).new

theorem shows_foldl (depth : ℕ) (leaves : List Fr) : ∀ level ≤ depth,
    Shows hash (emptySubtrees hash depth)
      (leaves.zipIdx.foldl (insertLeaf hash (emptySubtrees hash depth) depth) fun _ => ∅)
      (padded leaves) level := by
  induction leaves using reverseRecOn with
  | nil =>
    intro level hle i
    have hempty : padded [] = fun _ => (0 : Fr) := rfl
    rw [hempty, node_const, ← emptySubtrees_getD hle]
    rfl
  | append_singleton leaves x ih =>
    have hpadded : padded (leaves ++ [x]) = update (padded leaves) leaves.length x := by
      funext i
      unfold padded
      by_cases hi : i = leaves.length
      · subst hi
        simp
      · rw [update_of_ne hi]
        rcases Nat.lt_or_ge i leaves.length with hlt | hge
        · rw [getD_append _ _ _ _ hlt]
        · rw [getD_eq_default _ _ hge, getD_eq_default _ _ (by simp; omega)]
    rw [zipIdx_append, foldl_append, hpadded]
    have hlast : [x].zipIdx (0 + leaves.length) = [(x, leaves.length)] := by simp
    rw [hlast]
    exact shows_insertLeaf x ih

/-! ## The complete tree -/

/-- The recursion over the list computes a node of the complete tree. -/
theorem fullRoot_eq_node {leaves : List Fr} {i : ℕ}
    (h : ∀ j < 2 ^ depth, leaf (i * 2 ^ depth + j) = padded leaves j) :
    fullRoot hash depth leaves = node (hashNode hash) leaf depth i := by
  induction depth generalizing leaves i with
  | zero =>
    have hleaf := h 0 (by decide)
    rw [pow_zero, Nat.mul_one, Nat.add_zero] at hleaf
    rw [node, hleaf]
    cases leaves with
    | nil | cons x leaves => rfl
  | succ depth ih =>
    have hleft : fullRoot hash depth (leaves.take (2 ^ depth)) =
        node (hashNode hash) leaf depth (2 * i) := by
      refine ih fun j hj => ?_
      rw [two_mul_mul_two_pow, h j (by omega)]
      unfold padded
      rw [getD_eq_getElem?_getD, getD_eq_getElem?_getD, getElem?_take_of_lt hj]
    have hright : fullRoot hash depth (leaves.drop (2 ^ depth)) =
        node (hashNode hash) leaf depth (2 * i + 1) := by
      refine ih fun j hj => ?_
      rw [odd_mul_two_pow, h (2 ^ depth + j) (by omega)]
      unfold padded
      rw [getD_eq_getElem?_getD, getD_eq_getElem?_getD, getElem?_drop]
    rw [fullRoot, hleft, hright]
    rfl

theorem poseidonRoot_ok {leaves : List Fr} (hdepth : 1 ≤ depth) (hfit : leaves.length ≤ 2 ^ depth) :
    poseidonRoot hash depth leaves = .ok (fullRoot hash depth leaves) := by
  unfold poseidonRoot
  rw [if_neg (by omega), if_neg (by omega)]
  dsimp only
  rw [shows_foldl depth leaves depth (Nat.le_refl depth) 0]
  exact congrArg Except.ok (fullRoot_eq_node fun j _ => by rw [Nat.zero_mul, Nat.zero_add]).symm

/-- **The sparse root is that of the complete tree**, for any hash function. -/
theorem poseidonRoot_eq_fullRoot (hash : Fr → Fr → Fr → Fr) {depth : ℕ} {leaves : List Fr}
    (hdepth : 1 ≤ depth ∧ depth ≤ 63) (hfit : leaves.length ≤ 2 ^ depth) :
    poseidonRoot hash depth leaves = .ok (fullRoot hash depth leaves) ∧
      ∀ host, Kanon.poseidonRoot host depth leaves =
        .ok (fullRoot (poseidon3 host) depth leaves) := by
  refine ⟨poseidonRoot_ok hdepth.1 hfit, fun host => ?_⟩
  rw [poseidonRoot_eq_sparse]
  exact poseidonRoot_ok hdepth.1 hfit

/-- Three leaves at depth 3, with a hash that adds. -/
theorem poseidonRoot_eq_fullRoot_three :
    (1 ≤ 3 ∧ 3 ≤ 63) ∧ poseidonRoot (fun tag left right => tag + left + 3 * right) 3 [5, 6, 7] =
      .ok (fullRoot (fun tag left right => tag + left + 3 * right) 3 [5, 6, 7]) :=
  ⟨by decide, (poseidonRoot_eq_fullRoot _ (by decide) (by decide)).1⟩

end

end Sparse

end Idiom.Kanon
