import Mathlib.Order.WellFoundedSet

/-!
# Finite graphs given by parent lists

A history is a finite set of vertices each of which names its parents. This file holds
what can be said about such graphs in general:
-/

namespace Idiom

open Relation Finset TransGen

/-- A finite set of vertices, each with the list of its parents. -/
@[ext] structure ParentGraph (V : Type*) where
  verts : Finset V
  parents : V → List V
  /-- Only vertices have parents. -/
  outside : ∀ v, v ∉ verts → parents v = []

namespace ParentGraph

variable {V : Type*} {g k : ParentGraph V} {u v w p : V}

/-- `p` is a parent of `v`. -/
def IsParent (g : ParentGraph V) (p v : V) : Prop := p ∈ g.parents v

/-- Every parent is a vertex. -/
def Closed (g : ParentGraph V) : Prop := ∀ p v, g.IsParent p v → p ∈ g.verts

/-- No vertex is its own ancestor. -/
def Acyclic (g : ParentGraph V) : Prop := ∀ v, ¬ TransGen g.IsParent v v

theorem IsParent.mem (h : g.IsParent p v) : v ∈ g.verts := by
  by_contra hv
  rw [IsParent, g.outside v hv] at h
  cases h

theorem acyclic_of_rank (rank : V → ℕ) (h : ∀ p v, g.IsParent p v → rank p < rank v) :
    g.Acyclic := by
  have hpath : ∀ a b, TransGen g.IsParent a b → rank a < rank b := by
    intro a b hab
    induction hab with
    | single hstep => exact h _ _ hstep
    | tail _ hstep ih => exact ih.trans (h _ _ hstep)
  exact fun v hv => absurd (hpath v v hv) (Nat.lt_irrefl _)

/-! ## Induction -/

section

variable {P : V → Prop}

/-- What passes from the parents of a vertex to the vertex holds of all vertices. -/
theorem parents_induction (hc : g.Closed) (ha : g.Acyclic)
    (h : ∀ v ∈ g.verts, (∀ p, g.IsParent p v → P p) → P v) : ∀ v ∈ g.verts, P v := by
  have : IsStrictOrder V (TransGen g.IsParent) :=
    { irrefl := ha, trans := fun _ _ _ hab hbc => hab.trans hbc }
  intro v hv
  have hwf : (g.verts : Set V).WellFoundedOn (TransGen g.IsParent) := g.verts.wellFoundedOn
  refine hwf.induction hv fun v hv ih => ?_
  exact h v hv fun p hp => ih p (hc p v hp) (single hp)

theorem children_induction (ha : g.Acyclic)
    (h : ∀ v ∈ g.verts, (∀ c, g.IsParent v c → P c) → P v) : ∀ v ∈ g.verts, P v := by
  have : IsStrictOrder V (Function.swap (TransGen g.IsParent)) :=
    { irrefl := ha, trans := fun _ _ _ hab hbc => trans hbc hab }
  intro v hv
  have hwf : (g.verts : Set V).WellFoundedOn (Function.swap (TransGen g.IsParent)) :=
    g.verts.wellFoundedOn
  refine hwf.induction hv fun v hv ih => ?_
  exact h v hv fun c hc => ih c hc.mem (single hc)

end

theorem exists_root (hc : g.Closed) (ha : g.Acyclic) :
    ∀ v ∈ g.verts, ∃ r ∈ g.verts, g.parents r = [] ∧ ReflTransGen g.IsParent r v := by
  refine parents_induction hc ha fun v hv ih => ?_
  cases hps : g.parents v with
  | nil => exact ⟨v, hv, hps, .refl⟩
  | cons p ps =>
    have hp : g.IsParent p v := by
      rw [IsParent, hps]
      exact List.mem_cons_self
    obtain ⟨r, hr, hroot, hpath⟩ := ih p hp
    exact ⟨r, hr, hroot, hpath.tail hp⟩

variable [DecidableEq V]

/-! ## Tips -/

/-- The vertices that are nobody's parent. -/
def tips (g : ParentGraph V) : Finset V := g.verts.filter fun v => ∀ w ∈ g.verts, v ∉ g.parents w

theorem mem_tips : v ∈ g.tips ↔ v ∈ g.verts ∧ ∀ w, ¬ g.IsParent v w := by
  unfold tips
  rw [mem_filter]
  exact and_congr_right fun _ => ⟨fun h w hw => h w hw.mem hw, fun h w _ => h w⟩

theorem exists_tip (ha : g.Acyclic) : ∀ v ∈ g.verts, ∃ t ∈ g.tips, ReflTransGen g.IsParent v t := by
  refine children_induction ha fun v hv ih => ?_
  by_cases hchild : ∃ c, g.IsParent v c
  · obtain ⟨c, hc⟩ := hchild
    obtain ⟨t, ht, hpath⟩ := ih c hc
    exact ⟨t, ht, hpath.head hc⟩
  · exact ⟨v, mem_tips.2 ⟨hv, fun c hc => hchild ⟨c, hc⟩⟩, .refl⟩

omit [DecidableEq V] in
theorem mem_of_path_of_agree (hk : k.Closed)
    (hagree : ∀ v ∈ g.verts, v ∈ k.verts → g.parents v = k.parents v)
    (h : ReflTransGen g.IsParent u v) (hv : v ∈ k.verts) : u ∈ k.verts := by
  induction h using ReflTransGen.head_induction_on with
  | refl => exact hv
  | @head a c hstep _ ih =>
    refine hk a c ?_
    rw [IsParent, ← hagree c hstep.mem ih]
    exact hstep

/-- **A closed graph that has the tips of an acyclic one, and its parents, has all of
it.** -/
theorem verts_subset_of_tips (ha : g.Acyclic) (hk : k.Closed)
    (hagree : ∀ v ∈ g.verts, v ∈ k.verts → g.parents v = k.parents v)
    (htips : g.tips ⊆ k.verts) : g.verts ⊆ k.verts := by
  intro v hv
  obtain ⟨t, ht, hpath⟩ := exists_tip ha v hv
  exact mem_of_path_of_agree hk hagree hpath (htips ht)

/-! ## Setting a vertex -/

/-- The graph with the vertex `v` set to have the parents `ps`. -/
def update (g : ParentGraph V) (v : V) (ps : List V) : ParentGraph V where
  verts := insert v g.verts
  parents := Function.update g.parents v ps
  outside := by
    intro w hw
    rw [mem_insert, not_or] at hw
    rw [Function.update_of_ne hw.1]
    exact g.outside w hw.2

variable {ps : List V}

theorem isParent_update_self : (g.update v ps).IsParent p v ↔ p ∈ ps := by
  simp [IsParent, update]

theorem isParent_update_of_ne (h : w ≠ v) : (g.update v ps).IsParent p w ↔ g.IsParent p w := by
  simp [IsParent, update, Function.update_of_ne h]

theorem closed_update (hc : g.Closed) (hps : ∀ p ∈ ps, p ∈ g.verts) : (g.update v ps).Closed := by
  intro p w hp
  refine mem_insert_of_mem ?_
  by_cases hw : w = v
  · subst hw
    exact hps p (isParent_update_self.1 hp)
  · exact hc p w ((isParent_update_of_ne hw).1 hp)

theorem acyclic_update (ha : g.Acyclic) (hv : ∀ w, ¬ (g.update v ps).IsParent v w) :
    (g.update v ps).Acyclic := by
  -- a path to another vertex never passes through `v`, so it is a path of `g`
  have hold : ∀ a b, TransGen (g.update v ps).IsParent a b → b ≠ v → TransGen g.IsParent a b := by
    intro a b h
    induction h with
    | single hstep => exact fun hb => .single ((isParent_update_of_ne hb).1 hstep)
    | tail _ hstep ih =>
      intro hb
      refine (ih ?_).tail ((isParent_update_of_ne hb).1 hstep)
      rintro rfl
      exact hv _ hstep
  intro w hw
  by_cases hwv : w = v
  · subst hwv
    obtain ⟨b, hstep, -⟩ := head'_iff.1 hw
    exact hv b hstep
  · exact ha w (hold w w hw hwv)

theorem mem_tips_update {u : V} :
    u ∈ (g.update v ps).tips ↔ (u = v ∨ u ∈ g.verts) ∧ u ∉ ps ∧ ∀ w, w ≠ v → ¬ g.IsParent u w := by
  rw [mem_tips]
  refine and_congr mem_insert ⟨fun h => ⟨fun hmem => ?_, fun w hw hchild => ?_⟩, ?_⟩
  · exact h v (isParent_update_self.2 hmem)
  · exact h w ((isParent_update_of_ne hw).2 hchild)
  · rintro ⟨hps, hnone⟩ w hchild
    by_cases hw : w = v
    · subst hw
      exact hps (isParent_update_self.1 hchild)
    · exact hnone w hw ((isParent_update_of_ne hw).1 hchild)

/-- **When the shortcut for the tips is right.**  Taking the parents out of the tips and
putting the vertex in gives the new tips exactly when the vertex has no children and is
not its own parent, and when every parent it had before keeps a child. -/
theorem tips_update_iff (hc : g.Closed) (hself : ¬ g.IsParent v v) :
    insert v (g.tips \ ps.toFinset) = (g.update v ps).tips ↔
      (∀ w, ¬ g.IsParent v w) ∧ v ∉ ps ∧
        ∀ p, g.IsParent p v → p ∈ ps ∨ ∃ w, w ≠ v ∧ g.IsParent p w := by
  constructor
  · intro h
    obtain ⟨-, hvps, hnone⟩ := mem_tips_update.1 (h ▸ mem_insert_self v _)
    refine ⟨fun w hw => hnone w ?_ hw, hvps, fun p hp => ?_⟩
    · rintro rfl
      exact hself hw
    · by_contra hlost
      push Not at hlost
      -- the parent has lost its last child, and the shortcut does not see it
      have htip := mem_tips_update.2 ⟨.inr (hc p v hp), hlost⟩
      rw [← h, mem_insert, mem_sdiff] at htip
      rcases htip with rfl | ⟨hold, -⟩
      · exact hself hp
      · exact (mem_tips.1 hold).2 v hp
  · rintro ⟨hnone, hvps, hkeep⟩
    ext u
    rw [mem_insert, mem_sdiff, List.mem_toFinset, mem_tips, mem_tips_update]
    constructor
    · rintro (rfl | ⟨⟨hu, hchild⟩, hups⟩)
      · exact ⟨.inl rfl, hvps, fun w _ => hnone w⟩
      · exact ⟨.inr hu, hups, fun w _ => hchild w⟩
    · rintro ⟨rfl | hold, hups, hchild⟩
      · exact .inl rfl
      · refine .inr ⟨⟨hold, fun w hw => ?_⟩, hups⟩
        by_cases hwv : w = v
        · subst hwv
          rcases hkeep u hw with hmem | ⟨w', hne, hw'⟩
          · exact hups hmem
          · exact hchild w' hne hw'
        · exact hchild w hwv hw

end ParentGraph
end Idiom
