import Mathlib.Data.Set.Function
import Mathlib.Data.List.Basic

/-!
# Binary hash trees

A tree over a list of leaves is built level by level: neighbours are hashed in pairs, and an
odd node at the end of a level is hashed with itself. The hash of a pair is a parameter.
-/

namespace Idiom.MerkleTree

open List

variable {D : Type*}

/-! ## Levels -/

/-- The pairs that are hashed to make the next level. -/
def pairUp : List D → List (D × D)
  | a :: b :: l => (a, b) :: pairUp l
  | [a] => [(a, a)]
  | [] => []

theorem length_pairUp (l : List D) : (pairUp l).length = (l.length + 1) / 2 := by
  fun_induction pairUp l with
  | case1 a b l ih =>
    rw [length_cons, length_cons, length_cons]
    omega
  | case2 a | case3 => simp

variable {l : List D}

theorem mem_of_mem_pairUp {p : D × D} (h : p ∈ pairUp l) : p.1 ∈ l ∧ p.2 ∈ l := by
  fun_induction pairUp l with
  | case1 a b l ih =>
    rcases mem_cons.1 h with rfl | hl
    · simp
    · exact ⟨by simp [(ih hl).1], by simp [(ih hl).2]⟩
  | case2 a => simp_all
  | case3 => cases h

theorem eq_of_pairUp_eq {l' : List D} (hlen : l.length = l'.length) (h : pairUp l = pairUp l') :
    l = l' := by
  fun_induction pairUp l generalizing l' with
  | case1 a b l ih =>
    match l', hlen with
    | a' :: b' :: l', hlen =>
      rw [pairUp, cons.injEq] at h
      obtain ⟨⟨rfl, rfl⟩, htail⟩ := h
      rw [ih (by simpa using hlen) htail]
  | case2 a =>
    match l', hlen with
    | [a'], _ => simpa [pairUp] using h
  | case3 =>
    match l', hlen with
    | [], _ => rfl

variable (pair : D → D → D)

def nextLevel (l : List D) : List D := (pairUp l).map fun p => pair p.1 p.2

theorem length_nextLevel (l : List D) : (nextLevel pair l).length = (l.length + 1) / 2 := by
  rw [nextLevel, length_map, length_pairUp]

theorem length_nextLevel_lt (h : 1 < l.length) : (nextLevel pair l).length < l.length := by
  rw [length_nextLevel]
  omega

/-- All levels, the leaves first. -/
def levels (l : List D) : List (List D) :=
  if 1 < l.length then l :: levels (nextLevel pair l) else [l]
termination_by l.length
decreasing_by exact length_nextLevel_lt pair ‹_›

variable {pair}

theorem levels_of_lt (h : 1 < l.length) : levels pair l = l :: levels pair (nextLevel pair l) := by
  rw [levels, if_pos h]

theorem levels_of_le (h : l.length ≤ 1) : levels pair l = [l] := by
  rw [levels, if_neg (by omega)]

theorem levels_ne_nil (l : List D) : levels pair l ≠ [] := by
  unfold levels
  split <;> exact cons_ne_nil _ _

variable (pair)

/-- The first node of the last level. -/
def top (l : List D) : Option D := (levels pair l).getLast?.bind head?

variable {pair}

theorem top_of_lt (h : 1 < l.length) : top pair l = top pair (nextLevel pair l) := by
  unfold top
  rw [levels_of_lt h]
  cases hl : levels pair (nextLevel pair l) with
  | nil => exact absurd hl (levels_ne_nil _)
  | cons level rest => rw [getLast?_cons_cons]

theorem top_of_le (h : l.length ≤ 1) : top pair l = l.head? := by
  rw [top, levels_of_le h]
  rfl

theorem top_isSome (pair : D → D → D) {l : List D} (h : l ≠ []) : (top pair l).isSome = true := by
  by_cases hl : 1 < l.length
  · rw [top_of_lt hl]
    refine top_isSome pair fun hnil => ?_
    have hlen := length_nextLevel pair l
    rw [hnil, length_nil] at hlen
    omega
  · rw [top_of_le (by omega)]
    simpa using h
termination_by l.length
decreasing_by exact length_nextLevel_lt pair hl

/-! ## The leaves under a top -/

variable (pair)

/-- The pairs that are hashed between the leaves and the top. -/
def hashedPairs (l : List D) : List (D × D) :=
  if 1 < l.length then pairUp l ++ hashedPairs (nextLevel pair l) else []
termination_by l.length
decreasing_by exact length_nextLevel_lt pair ‹_›

variable {pair}

theorem hashedPairs_of_lt (h : 1 < l.length) :
    hashedPairs pair l = pairUp l ++ hashedPairs pair (nextLevel pair l) := by
  rw [hashedPairs, if_pos h]

theorem eq_of_map_eq_map {α β : Type*} {f : α → β} {S : Set α} (hinj : Set.InjOn f S)
    {l l' : List α} (hl : ∀ a ∈ l, a ∈ S) (hl' : ∀ a ∈ l', a ∈ S) (h : l.map f = l'.map f) :
    l = l' := by
  induction l generalizing l' with
  | nil => exact (map_eq_nil_iff.1 h.symm).symm
  | cons a l ih =>
    cases l' with
    | nil => cases h
    | cons a' l' =>
      obtain ⟨hhead, htail⟩ := cons.inj h
      rw [hinj (hl a mem_cons_self) (hl' a' mem_cons_self) hhead,
        ih (fun b hb => hl b (mem_cons_of_mem _ hb))
          (fun b hb => hl' b (mem_cons_of_mem _ hb)) htail]

/-- **Equally many leaves under one top are the same**, if no two of the pairs that were
hashed collide. -/
theorem eq_of_top_eq {S : Set (D × D)} (hinj : Set.InjOn (fun p => pair p.1 p.2) S)
    {l l' : List D} (hl : ∀ p ∈ hashedPairs pair l, p ∈ S) (hl' : ∀ p ∈ hashedPairs pair l', p ∈ S)
    (hlen : l.length = l'.length) (h : top pair l = top pair l') : l = l' := by
  by_cases hlong : 1 < l.length
  · have hlong' : 1 < l'.length := hlen ▸ hlong
    rw [hashedPairs_of_lt hlong] at hl
    rw [hashedPairs_of_lt hlong'] at hl'
    rw [top_of_lt hlong, top_of_lt hlong'] at h
    have hnext : nextLevel pair l = nextLevel pair l' :=
      eq_of_top_eq hinj (fun p hp => hl p (mem_append_right _ hp))
        (fun p hp => hl' p (mem_append_right _ hp))
        (by rw [length_nextLevel, length_nextLevel, hlen]) h
    refine eq_of_pairUp_eq hlen (eq_of_map_eq_map hinj ?_ ?_ hnext)
    · exact fun p hp => hl p (mem_append_left _ hp)
    · exact fun p hp => hl' p (mem_append_left _ hp)
  · rw [top_of_le (by omega), top_of_le (by omega)] at h
    match l, l', hlen, h with
    | [], [], _, _ => rfl
    | [a], [a'], _, h => simpa using h
    | _ :: _ :: _, _, _, _ => simp at hlong
termination_by l.length
decreasing_by exact length_nextLevel_lt pair hlong

/-! ## Paths -/

/-- A node and its sibling in order: a node at an even index is on the left. -/
def sided (i : ℕ) (d s : D) : D × D := if i % 2 = 0 then (d, s) else (s, d)

theorem mem_sided (i : ℕ) (d s : D) : (sided i d s).1 = d ∨ (sided i d s).2 = d := by
  unfold sided
  split
  · exact .inl rfl
  · exact .inr rfl

variable (pair)

/-- Walk up from a node at an index, past the siblings of a path. -/
def climb : D → ℕ → List D → D
  | d, _, [] => d
  | d, i, s :: path => climb (pair (sided i d s).1 (sided i d s).2) (i / 2) path

variable {pair}

/-- The sibling of the node at an index, which is the node itself at the end of an odd
level. -/
def sibling (level : List D) (i : ℕ) : Option D :=
  level[if i % 2 = 0 then i + 1 else i - 1]?.or level[i]?

/-- The siblings on the way from an index up; `none` if the index is out of range. -/
def proofPath : List (List D) → ℕ → Option (List D)
  | [], _ => some []
  | level :: rest, i =>
    if rest.isEmpty then some []
    else (sibling level i).bind fun s => (proofPath rest (i / 2)).map fun path => s :: path

variable {d : D}

theorem sibling_pairUp {i : ℕ} (h : l[i]? = some d) :
    ∃ s, sibling l i = some s ∧ (pairUp l)[i / 2]? = some (sided i d s) := by
  fun_induction pairUp l generalizing i with
  | case1 a b l ih =>
    match i, h with
    | 0, h =>
      cases h
      exact ⟨b, rfl, rfl⟩
    | 1, h =>
      cases h
      exact ⟨a, rfl, rfl⟩
    | i + 2, h =>
      obtain ⟨s, hs, hpair⟩ := ih h
      refine ⟨s, ?_, ?_⟩
      · rw [← hs]
        unfold sibling
        by_cases hi : i % 2 = 0
        · simp [hi]
        · obtain ⟨j, rfl⟩ : ∃ j, i = j + 1 := ⟨i - 1, by omega⟩
          simp [hi]
      · simpa [sided] using hpair
  | case2 a =>
    match i, h with
    | 0, h =>
      cases h
      exact ⟨d, rfl, rfl⟩
  | case3 => cases h

/-- **A path that was read off leads to the top.** -/
theorem top_eq_climb (pair : D → D → D) {l : List D} {i : ℕ} {d : D} (h : l[i]? = some d) :
    ∃ path, proofPath (levels pair l) i = some path ∧ top pair l = some (climb pair d i path) := by
  by_cases hlong : 1 < l.length
  · obtain ⟨s, hs, hpair⟩ := sibling_pairUp h
    have hnext : (nextLevel pair l)[i / 2]? = some (pair (sided i d s).1 (sided i d s).2) := by
      rw [nextLevel, List.getElem?_map, hpair]
      rfl
    obtain ⟨path, hpath, htop⟩ := top_eq_climb pair hnext
    refine ⟨s :: path, ?_, ?_⟩
    · rw [levels_of_lt hlong, proofPath, if_neg (by simp [levels_ne_nil]), hs, hpath]
      rfl
    · rw [top_of_lt hlong, htop, climb]
  · have hi : i = 0 := by
      have hlt := (List.getElem?_eq_some_iff.1 h).1
      omega
    subst hi
    refine ⟨[], ?_, ?_⟩
    · rw [levels_of_le (by omega)]
      rfl
    · rw [top_of_le (by omega), climb, List.head?_eq_getElem?, h]
termination_by l.length
decreasing_by exact length_nextLevel_lt pair hlong

/-! ## Where an accepted path starts -/

variable (pair)

/-- The pairs that a walk hashes. -/
def climbedPairs : D → ℕ → List D → List (D × D)
  | _, _, [] => []
  | d, i, s :: path =>
    sided i d s :: climbedPairs (pair (sided i d s).1 (sided i d s).2) (i / 2) path

/-- A leaf, or the hash of a pair. -/
def IsNode (l : List D) (d : D) : Prop :=
  d ∈ l ∨ ∃ p ∈ hashedPairs pair l, d = pair p.1 p.2

variable {pair}

theorem IsNode.of_nextLevel (hlong : 1 < l.length) (h : IsNode pair (nextLevel pair l) d) :
    IsNode pair l d := by
  refine .inr ?_
  rw [hashedPairs_of_lt hlong]
  rcases h with hnext | ⟨p, hp, rfl⟩
  · obtain ⟨p, hp, rfl⟩ := mem_map.1 hnext
    exact ⟨p, mem_append_left _ hp, rfl⟩
  · exact ⟨p, mem_append_right _ hp, rfl⟩

theorem isNode_of_hashedPairs {l : List D} {p : D × D} (h : p ∈ hashedPairs pair l) :
    IsNode pair l p.1 ∧ IsNode pair l p.2 := by
  by_cases hlong : 1 < l.length
  · rw [hashedPairs_of_lt hlong] at h
    rcases mem_append.1 h with hp | hp
    · obtain ⟨h₁, h₂⟩ := mem_of_mem_pairUp hp
      exact ⟨.inl h₁, .inl h₂⟩
    · obtain ⟨h₁, h₂⟩ := isNode_of_hashedPairs hp
      exact ⟨h₁.of_nextLevel hlong, h₂.of_nextLevel hlong⟩
  · rw [hashedPairs, if_neg hlong] at h
    cases h
termination_by l.length
decreasing_by exact length_nextLevel_lt pair hlong

theorem isNode_top {l : List D} {d : D} (h : top pair l = some d) : IsNode pair l d := by
  by_cases hlong : 1 < l.length
  · rw [top_of_lt hlong] at h
    exact (isNode_top h).of_nextLevel hlong
  · rw [top_of_le (by omega)] at h
    exact .inl (mem_of_mem_head? h)
termination_by l.length
decreasing_by exact length_nextLevel_lt pair hlong

/-- Some walk leads from `d` to `t`. -/
def Reaches (pair : D → D → D) (d t : D) : Prop := ∃ i path, climb pair d i path = t

theorem Reaches.refl (d : D) : Reaches pair d d := ⟨0, [], rfl⟩

variable {t : D}

theorem Reaches.left {s : D} (h : Reaches pair (pair d s) t) : Reaches pair d t := by
  obtain ⟨i, path, hpath⟩ := h
  refine ⟨2 * i, s :: path, ?_⟩
  simpa [climb, sided] using hpath

theorem Reaches.right {s : D} (h : Reaches pair (pair s d) t) : Reaches pair d t := by
  obtain ⟨i, path, hpath⟩ := h
  refine ⟨2 * i + 1, s :: path, ?_⟩
  have hhalf : (2 * i + 1) / 2 = i := by omega
  simpa [climb, sided, hhalf] using hpath

theorem Reaches.trans {e : D} (h : Reaches pair d e) (h' : Reaches pair e t) :
    Reaches pair d t := by
  obtain ⟨i, path, hpath⟩ := h
  induction path generalizing d i with
  | nil =>
    cases hpath
    exact h'
  | cons s path ih =>
    have hrest := ih (i / 2) hpath
    unfold sided at hrest
    split at hrest
    · exact hrest.left
    · exact hrest.right

/-- **Every node has a way to the top.** -/
theorem IsNode.reaches {l : List D} {d t : D} (htop : top pair l = some t)
    (h : IsNode pair l d) : Reaches pair d t := by
  rcases h with hmem | ⟨p, hp, rfl⟩
  · obtain ⟨i, hi⟩ := mem_iff_getElem?.1 hmem
    obtain ⟨path, -, hclimb⟩ := top_eq_climb pair hi
    exact ⟨i, path, Option.some.inj (hclimb.symm.trans htop)⟩
  · by_cases hlong : 1 < l.length
    · rw [hashedPairs_of_lt hlong] at hp
      rw [top_of_lt hlong] at htop
      refine IsNode.reaches htop ?_
      rcases mem_append.1 hp with hpair | hpair
      · exact .inl (mem_map_of_mem (f := fun p : D × D => pair p.1 p.2) hpair)
      · exact .inr ⟨p, hpair, rfl⟩
    · rw [hashedPairs, if_neg hlong] at hp
      cases hp
termination_by l.length
decreasing_by exact length_nextLevel_lt pair hlong

/-- **Where a walk into the tree comes from**, if no two pairs that are hashed collide: it
starts at a node, or it comes up to a leaf as if that were a pair. -/
theorem isNode_or_below {S : Set (D × D)} (hinj : Set.InjOn (fun p => pair p.1 p.2) S)
    (hl : ∀ p ∈ hashedPairs pair l, p ∈ S) {i : ℕ} {path : List D}
    (hclimb : ∀ p ∈ climbedPairs pair d i path, p ∈ S) (h : IsNode pair l (climb pair d i path)) :
    IsNode pair l d ∨ ∃ p ∈ S, pair p.1 p.2 ∈ l ∧ (Reaches pair d p.1 ∨ Reaches pair d p.2) := by
  induction path generalizing d i with
  | nil => exact .inl h
  | cons s path ih =>
    have hS := hclimb _ mem_cons_self
    have hstep : ∀ t, Reaches pair (pair (sided i d s).1 (sided i d s).2) t → Reaches pair d t := by
      intro t ht
      unfold sided at ht
      split at ht
      · exact ht.left
      · exact ht.right
    rcases ih (fun p hp => hclimb p (mem_cons_of_mem _ hp)) h with hnode | ⟨p, hp, hin, hr⟩
    · rcases hnode with hin | ⟨p, hp, heq⟩
      · refine .inr ⟨sided i d s, hS, hin, ?_⟩
        rcases mem_sided i d s with hd | hd
        · exact .inl (hd.symm ▸ .refl d)
        · exact .inr (hd.symm ▸ .refl d)
      · obtain rfl : sided i d s = p := hinj hS (hl p hp) heq
        obtain ⟨h₁, h₂⟩ := isNode_of_hashedPairs hp
        rcases mem_sided i d s with hd | hd
        · exact .inl (hd ▸ h₁)
        · exact .inl (hd ▸ h₂)
    · exact .inr ⟨p, hp, hin, hr.imp (hstep _) (hstep _)⟩

end Idiom.MerkleTree
