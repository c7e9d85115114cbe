import Mathlib.Algebra.Group.Nat.Defs
import Mathlib.Data.Set.Function
import Mathlib.Data.List.Basic

/-!
# Complete binary hash trees

The leaves are a function of their index, so that every level is complete: what is not there has
the value of an empty leaf. The hash of a pair is a parameter.
-/

namespace Idiom.PerfectTree

open List

variable {D : Type*} (pair : D → D → D)

/-! ## Nodes -/

def node (leaf : ℕ → D) : ℕ → ℕ → D
  | 0, i => leaf i
  | level + 1, i => pair (node leaf level (2 * i)) (node leaf level (2 * i + 1))

/-- The node above empty leaves only. -/
def emptyNode (empty : D) : ℕ → D
  | 0 => empty
  | level + 1 => pair (emptyNode empty level) (emptyNode empty level)

variable {pair} {leaf leaf' : ℕ → D}

theorem div_two_pow_succ (j level : ℕ) : j / 2 ^ (level + 1) = j / 2 ^ level / 2 := by
  rw [Nat.pow_succ, Nat.div_div_eq_div_mul]

theorem node_congr {level i : ℕ} (h : ∀ j, j / 2 ^ level = i → leaf j = leaf' j) :
    node pair leaf level i = node pair leaf' level i := by
  induction level generalizing i with
  | zero => exact h i (by simp)
  | succ level ih =>
    have hleft : node pair leaf level (2 * i) = node pair leaf' level (2 * i) := by
      refine ih fun j hj => h j ?_
      rw [div_two_pow_succ]
      omega
    have hright : node pair leaf level (2 * i + 1) = node pair leaf' level (2 * i + 1) := by
      refine ih fun j hj => h j ?_
      rw [div_two_pow_succ]
      omega
    rw [node, node, hleft, hright]

theorem two_mul_mul_two_pow (i level : ℕ) : 2 * i * 2 ^ level = i * 2 ^ (level + 1) := by
  rw [Nat.pow_succ', ← Nat.mul_assoc, Nat.mul_comm i]

theorem odd_mul_two_pow (i level j : ℕ) :
    (2 * i + 1) * 2 ^ level + j = i * 2 ^ (level + 1) + (2 ^ level + j) := by
  rw [← two_mul_mul_two_pow, Nat.add_mul, Nat.one_mul, Nat.add_assoc]

theorem node_eq_node {level i i' : ℕ}
    (h : ∀ j < 2 ^ level, leaf (i * 2 ^ level + j) = leaf' (i' * 2 ^ level + j)) :
    node pair leaf level i = node pair leaf' level i' := by
  induction level generalizing i i' with
  | zero => simpa [node] using h 0 (by decide)
  | succ level ih =>
    have hleft : node pair leaf level (2 * i) = node pair leaf' level (2 * i') := by
      refine ih fun j hj => ?_
      rw [two_mul_mul_two_pow, two_mul_mul_two_pow]
      exact h j (by omega)
    have hright : node pair leaf level (2 * i + 1) = node pair leaf' level (2 * i' + 1) := by
      refine ih fun j hj => ?_
      rw [odd_mul_two_pow, odd_mul_two_pow]
      exact h (2 ^ level + j) (by omega)
    rw [node, node, hleft, hright]

theorem node_const (empty : D) (level i : ℕ) :
    node pair (fun _ => empty) level i = emptyNode pair empty level := by
  induction level generalizing i with
  | zero => rfl
  | succ level ih => rw [node, ih, ih, emptyNode]

theorem node_eq_emptyNode {empty : D} {level i : ℕ} (h : ∀ j, j / 2 ^ level = i → leaf j = empty) :
    node pair leaf level i = emptyNode pair empty level := by
  exact (node_congr h).trans (node_const empty level i)

theorem foldl_emptyNode (pair : D → D → D) (empty other : D) (levels : ℕ) :
    (range levels).foldl
        (fun table _ => table ++ [pair (table.getLastD other) (table.getLastD other)]) [empty] =
      (range (levels + 1)).map (emptyNode pair empty) := by
  induction levels with
  | zero => rfl
  | succ levels ih =>
    have hlast : ((range (levels + 1)).map (emptyNode pair empty)).getLastD other =
        emptyNode pair empty levels := by
      simp [range_succ]
    have htable : (range (levels + 1 + 1)).map (emptyNode pair empty) =
        (range (levels + 1)).map (emptyNode pair empty) ++ [emptyNode pair empty (levels + 1)] := by
      rw [range_succ, map_append]
      rfl
    rw [range_succ, foldl_append, ih, foldl_cons, hlast, htable]
    rfl

/-- The other child of the parent. -/
def sibling (i : ℕ) : ℕ := if i % 2 = 1 then i - 1 else i + 1

/-- A node and its sibling in order: `right` if the node is the right one. -/
def sided (d s : D) (right : Bool) : D × D := if right then (s, d) else (d, s)

theorem mem_sided (d s : D) (right : Bool) : (sided d s right).1 = d ∨ (sided d s right).2 = d := by
  unfold sided
  split
  · exact .inr rfl
  · exact .inl rfl

theorem node_parent (leaf : ℕ → D) (level i : ℕ) :
    node pair leaf (level + 1) (i / 2) =
      pair (sided (node pair leaf level i) (node pair leaf level (sibling i)) (i % 2 = 1)).1
        (sided (node pair leaf level i) (node pair leaf level (sibling i)) (i % 2 = 1)).2 := by
  unfold sibling sided
  by_cases hodd : i % 2 = 1
  · simp only [hodd, decide_true, if_true]
    rw [node, show 2 * (i / 2) = i - 1 by omega, show i - 1 + 1 = i by omega]
  · simp only [hodd, decide_false, if_false, Bool.false_eq_true]
    rw [node, show 2 * (i / 2) = i by omega]

/-! ## Walks -/

variable (pair)

/-- Walk up past siblings, each with the side the walk comes from. -/
def climb : D → List (D × Bool) → D
  | d, [] => d
  | d, (s, right) :: path => climb (pair (sided d s right).1 (sided d s right).2) path

/-- The pairs that a walk hashes. -/
def climbedPairs : D → List (D × Bool) → List (D × D)
  | _, [] => []
  | d, (s, right) :: path =>
    sided d s right :: climbedPairs (pair (sided d s right).1 (sided d s right).2) path

/-- The siblings of a node and of the nodes above it, over some levels. -/
def path (leaf : ℕ → D) (level i : ℕ) : ℕ → List (D × Bool)
  | 0 => []
  | levels + 1 =>
    (node pair leaf level (sibling i), i % 2 = 1) :: path leaf (level + 1) (i / 2) levels

/-- The pairs that are hashed to make the nodes up to a level. -/
def hashedPairs (leaf : ℕ → D) (depth : ℕ) : Set (D × D) :=
  {p | ∃ level < depth, ∃ i, p = (node pair leaf level (2 * i), node pair leaf level (2 * i + 1))}

variable {pair}

theorem path_succ (leaf : ℕ → D) (level i levels : ℕ) :
    path pair leaf level i (levels + 1) = path pair leaf level i levels ++
      [(node pair leaf (level + levels) (sibling (i / 2 ^ levels)),
        decide (i / 2 ^ levels % 2 = 1))] := by
  induction levels generalizing level i with
  | zero => simp [path]
  | succ levels ih =>
    rw [path, ih, path, cons_append, Nat.div_div_eq_div_mul, ← Nat.pow_succ',
      Nat.add_right_comm, Nat.add_assoc]

theorem xor_one (i : ℕ) : i ^^^ 1 = sibling i := by
  have hhigh : (i ^^^ 1) / 2 = i / 2 := by
    rw [Nat.xor_div_two]
    simp
  have hlow : (i ^^^ 1) % 2 = 1 ↔ ¬ i % 2 = 1 := by
    rw [Nat.xor_mod_two_eq_one]
    omega
  unfold sibling
  split <;> omega

/-- **A path leads to the node above.** -/
theorem climb_path (leaf : ℕ → D) (level i levels : ℕ) :
    climb pair (node pair leaf level i) (path pair leaf level i levels) =
      node pair leaf (level + levels) (i / 2 ^ levels) := by
  induction levels generalizing level i with
  | zero => simp [path, climb]
  | succ levels ih =>
    rw [path, climb, ← @node_parent _ pair, ih, Nat.div_div_eq_div_mul, ← Nat.pow_succ',
      Nat.add_right_comm, Nat.add_assoc]

section

variable {S : Set (D × D)} (hinj : Set.InjOn (fun p => pair p.1 p.2) S)
include hinj

/-- Every node that a walk passes is one of the tree, if the walk ends in the tree. -/
theorem exists_node_of_climb_eq {d : D} {steps : List (D × Bool)} {level i : ℕ}
    (htree : hashedPairs pair leaf (level + steps.length) ⊆ S)
    (hwalk : ∀ p ∈ climbedPairs pair d steps, p ∈ S)
    (h : climb pair d steps = node pair leaf (level + steps.length) i) :
    ∃ j, j / 2 ^ steps.length = i ∧ d = node pair leaf level j := by
  induction steps generalizing d level with
  | nil => exact ⟨i, by simp, h⟩
  | cons step steps ih =>
    obtain ⟨s, right⟩ := step
    have hlength : level + ((s, right) :: steps).length = level + 1 + steps.length := by
      rw [length_cons]
      omega
    rw [hlength] at htree h
    obtain ⟨j, hj, hnode⟩ := ih htree (fun p hp => hwalk p (mem_cons_of_mem _ hp)) h
    have hchildren : sided d s right =
        (node pair leaf level (2 * j), node pair leaf level (2 * j + 1)) :=
      hinj (hwalk _ mem_cons_self) (htree ⟨level, by omega, j, rfl⟩) hnode
    have hdiv : ∀ k, k / 2 = j → k / 2 ^ (steps.length + 1) = i := by
      intro k hk
      rw [Nat.pow_succ', ← Nat.div_div_eq_div_mul, hk, hj]
    rcases mem_sided d s right with hside | hside
    · refine ⟨2 * j, hdiv _ (by omega), ?_⟩
      rw [← hside, hchildren]
    · refine ⟨2 * j + 1, hdiv _ (by omega), ?_⟩
      rw [← hside, hchildren]

/-- **A walk that leads to a node starts in a leaf below it.** -/
theorem exists_leaf_of_climb_eq {d : D} {steps : List (D × Bool)} {i : ℕ}
    (htree : hashedPairs pair leaf steps.length ⊆ S)
    (hwalk : ∀ p ∈ climbedPairs pair d steps, p ∈ S)
    (h : climb pair d steps = node pair leaf steps.length i) :
    ∃ j, j / 2 ^ steps.length = i ∧ d = leaf j :=
  @exists_node_of_climb_eq _ _ _ _ hinj _ _ 0 _ (by rwa [Nat.zero_add]) hwalk
    (by rwa [Nat.zero_add])

theorem leaf_eq_of_node_eq {depth i i' : ℕ} (htree : hashedPairs pair leaf depth ⊆ S)
    (h : node pair leaf depth i = node pair leaf depth i') {j : ℕ} (hj : j < 2 ^ depth) :
    leaf (i * 2 ^ depth + j) = leaf (i' * 2 ^ depth + j) := by
  induction depth generalizing i i' j with
  | zero =>
    obtain rfl : j = 0 := by simpa using hj
    simpa [node] using h
  | succ depth ih =>
    have hsub : hashedPairs pair leaf depth ⊆ S := by
      rintro p ⟨level, hlevel, k, rfl⟩
      exact htree ⟨level, by omega, k, rfl⟩
    have hchildren := hinj (htree ⟨depth, by omega, i, rfl⟩) (htree ⟨depth, by omega, i', rfl⟩) h
    rw [Prod.mk.injEq] at hchildren
    rcases Nat.lt_or_ge j (2 ^ depth) with hlt | hge
    · rw [← two_mul_mul_two_pow, ← two_mul_mul_two_pow]
      exact ih hsub hchildren.1 hlt
    · obtain ⟨k, rfl⟩ := Nat.exists_eq_add_of_le hge
      rw [← odd_mul_two_pow, ← odd_mul_two_pow]
      exact ih hsub hchildren.2 (by omega)

end

end Idiom.PerfectTree
