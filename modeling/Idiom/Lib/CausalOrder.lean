import Mathlib.Data.List.Perm.Basic

/-!
# Applying a causally ordered set in every possible order

A finite set of operations is given as a list without repetitions, with a relation
`R p q` that says `p` has to come before `q`. A replica may apply the operations in
any order that respects `R`.
-/

namespace Idiom.Causal

open List

variable {α β : Type*} {R : α → α → Prop} {ops l : List α}

/-- Nothing comes after something that depends on it. -/
def Respects (R : α → α → Prop) (l : List α) : Prop := l.Pairwise fun a b => ¬ R b a

/-- The list is an order of the operations that respects `R`. -/
structure IsOrdering (R : α → α → Prop) (ops l : List α) : Prop where
  perm : l.Perm ops
  respects : Respects R l

/-- One operation of the set has to come before another one. -/
def Edge (R : α → α → Prop) (ops : List α) (a b : α) : Prop :=
  a ∈ ops ∧ b ∈ ops ∧ a ≠ b ∧ R a b

/-- The order `R` generates on the operations. -/
def Before (R : α → α → Prop) (ops : List α) : α → α → Prop := Relation.TransGen (Edge R ops)

/-! ## Orderings -/

theorem sublist_pair_total {a b : α} (ha : a ∈ l) (hb : b ∈ l) (hne : a ≠ b) :
    [a, b].Sublist l ∨ [b, a].Sublist l := by
  induction l with
  | nil => cases ha
  | cons x l ih =>
    rcases mem_cons.1 ha with rfl | ha'
    · rcases mem_cons.1 hb with rfl | hb'
      · exact absurd rfl hne
      · exact .inl ((singleton_sublist.2 hb').cons_cons a)
    · rcases mem_cons.1 hb with rfl | hb'
      · exact .inr ((singleton_sublist.2 ha').cons_cons b)
      · exact (ih ha' hb').imp (fun h => h.cons x) (fun h => h.cons x)

theorem sublist_pair_trans {a b c : α} (hl : l.Nodup) (hab : [a, b].Sublist l)
    (hbc : [b, c].Sublist l) : [a, c].Sublist l := by
  induction l with
  | nil => cases hab
  | cons x l ih =>
    obtain ⟨hx, hl'⟩ := nodup_cons.1 hl
    have hmem : c ∈ l := by
      cases hbc with
      | cons _ h | cons_cons _ h => exact h.subset (by simp)
    cases hab with
    | cons _ hab' =>
      cases hbc with
      | cons _ hbc' => exact (ih hl' hab' hbc').cons x
      | cons_cons _ _ => exact absurd (hab'.subset (by simp)) hx
    | cons_cons _ _ => exact (singleton_sublist.2 hmem).cons_cons a

namespace IsOrdering

variable (h : IsOrdering R ops l)
include h

theorem nodup (hops : ops.Nodup) : l.Nodup := h.perm.nodup_iff.2 hops

theorem mem_iff (a : α) : a ∈ l ↔ a ∈ ops := h.perm.mem_iff

theorem sublist_of_edge {a b : α} (he : Edge R ops a b) : [a, b].Sublist l := by
  obtain ⟨ha, hb, hne, hR⟩ := he
  rcases sublist_pair_total ((h.mem_iff a).2 ha) ((h.mem_iff b).2 hb) hne with hs | hs
  · exact hs
  · exact absurd hR (pairwise_iff_forall_sublist.1 h.respects hs)

theorem sublist_of_before (hops : ops.Nodup) {a b : α} (hab : Before R ops a b) :
    [a, b].Sublist l := by
  induction hab with
  | single he => exact h.sublist_of_edge he
  | tail _ he ih => exact sublist_pair_trans (h.nodup hops) ih (h.sublist_of_edge he)

/-- A set closed under predecessors can be moved to the front. -/
theorem downFirst (D : α → Prop) [DecidablePred D] (hD : ∀ a b, Edge R ops a b → D b → D a) :
    IsOrdering R ops (l.filter (fun x => D x) ++ l.filter (fun x => !decide (D x))) where
  perm := (filter_append_perm _ l).trans h.perm
  respects := by
    refine pairwise_append.2 ⟨h.respects.filter _, h.respects.filter _, ?_⟩
    intro a ha b hb hR
    rw [mem_filter] at ha hb
    have hDa : D a := by simpa using ha.2
    have hDb : ¬ D b := by simpa using hb.2
    have hne : b ≠ a := by
      rintro rfl
      exact hDb hDa
    exact hDb (hD b a ⟨(h.mem_iff b).1 hb.1, (h.mem_iff a).1 ha.1, hne, hR⟩ hDa)

theorem exists_causesFirst (x : α) : ∃ front back, IsOrdering R ops (front ++ back) ∧
    ∀ y, y ∈ front ↔ y ∈ ops ∧ (y = x ∨ Before R ops y x) := by
  classical
  refine ⟨_, _, h.downFirst (fun y => y = x ∨ Before R ops y x) ?_, fun y => ?_⟩
  · rintro a b he (rfl | hb)
    · exact .inr (Relation.TransGen.single he)
    · exact .inr (Relation.TransGen.head he hb)
  · rw [mem_filter, h.mem_iff, decide_eq_true_eq]

end IsOrdering

/-! ## The first write -/

/-- A write that can come first: no other write is before it. -/
structure FirstWrite (R : α → α → Prop) (ops : List α) (f : α → Option β) (x : α) : Prop where
  mem : x ∈ ops
  writes : (f x).isSome = true
  first : ∀ y ∈ ops, (f y).isSome = true → ¬ Before R ops y x

variable {f : α → Option β}

theorem firstWrite_of_findSome? (h : IsOrdering R ops l) (hops : ops.Nodup) {v : β}
    (hv : l.findSome? f = some v) : ∃ x, FirstWrite R ops f x ∧ f x = some v := by
  obtain ⟨l₁, x, l₂, rfl, hx, hnone⟩ := findSome?_eq_some_iff.1 hv
  refine ⟨x, ⟨(h.mem_iff x).1 (by simp), by simp [hx], fun y _ hy hyx => ?_⟩, hx⟩
  -- `y` precedes `x` in the list, so it is in `l₁`, where nothing writes
  have hs := h.sublist_of_before hops hyx
  have hnd := h.nodup hops
  have hmem : y ∈ l₁ := by
    obtain ⟨s₁, s₂, hs₁₂, hsub₁, hsub₂⟩ := sublist_append_iff.1 hs
    cases s₁ with
    | cons z s₁ =>
      rw [cons_append, cons.injEq] at hs₁₂
      rw [hs₁₂.1]
      exact hsub₁.subset mem_cons_self
    | nil =>
      subst hs₁₂
      have hnd₂ := (nodup_append.1 hnd).2.1
      cases hsub₂ with
      | cons _ hsub => exact absurd (hsub.subset (by simp)) (nodup_cons.1 hnd₂).1
      | cons_cons _ hsub =>
        exact absurd (hsub.subset (by simp)) (nodup_cons.1 hnd₂).1
  rw [hnone y hmem] at hy
  cases hy

theorem exists_ordering_first (h : IsOrdering R ops l) {x : α}
    (hx : FirstWrite R ops f x) : ∃ l', IsOrdering R ops l' ∧ l'.findSome? f = f x := by
  obtain ⟨front, back, hord, hfront⟩ := h.exists_causesFirst x
  refine ⟨_, hord, ?_⟩
  -- among the predecessors of `x` and `x` itself, only `x` writes
  have honly : ∀ y ∈ front, (f y).isSome = true → y = x := by
    intro y hy hfy
    obtain ⟨hmem, rfl | hyx⟩ := (hfront y).1 hy
    · rfl
    · exact absurd hyx (hx.first y hmem hfy)
  obtain ⟨w, hw⟩ : ∃ w, front.findSome? f = some w := by
    rw [← Option.isSome_iff_exists, findSome?_isSome_iff]
    exact ⟨x, (hfront x).2 ⟨hx.mem, .inl rfl⟩, hx.writes⟩
  obtain ⟨l₁, y, l₂, hl, hy, -⟩ := findSome?_eq_some_iff.1 hw
  have hyx : y = x := honly y (by rw [hl]; simp) (by simp [hy])
  rw [findSome?_append, hw, ← hyx, hy]
  rfl

/-- **All orderings agree on the first write exactly when the writes that can come
first agree.** -/
theorem first_agree_iff (h : IsOrdering R ops l) (hops : ops.Nodup) :
    (∀ l₁ l₂, IsOrdering R ops l₁ → IsOrdering R ops l₂ → l₁.findSome? f = l₂.findSome? f) ↔
      ∀ x y, FirstWrite R ops f x → FirstWrite R ops f y → f x = f y := by
  constructor
  · intro hall x y hx hy
    obtain ⟨l₁, h₁, hf₁⟩ := exists_ordering_first h hx
    obtain ⟨l₂, h₂, hf₂⟩ := exists_ordering_first h hy
    rw [← hf₁, ← hf₂, hall l₁ l₂ h₁ h₂]
  · intro hsame l₁ l₂ h₁ h₂
    cases hf₁ : l₁.findSome? f with
    | none =>
      symm
      rw [findSome?_eq_none_iff] at hf₁ ⊢
      exact fun x hx => hf₁ x ((h₁.mem_iff x).2 ((h₂.mem_iff x).1 hx))
    | some v =>
      cases hf₂ : l₂.findSome? f with
      | none =>
        rw [findSome?_eq_none_iff] at hf₂
        obtain ⟨x, hx, hv⟩ := firstWrite_of_findSome? h₁ hops hf₁
        rw [hf₂ x ((h₂.mem_iff x).2 hx.mem)] at hv
        cases hv
      | some w =>
        obtain ⟨x, hx, hv⟩ := firstWrite_of_findSome? h₁ hops hf₁
        obtain ⟨y, hy, hw⟩ := firstWrite_of_findSome? h₂ hops hf₂
        rw [← hv, ← hw, hsame x y hx hy]

/-! ## The last write, by reversing everything -/

def lastWrite? (f : α → Option β) (l : List α) : Option β := l.reverse.findSome? f

/-- A write that can come last: no other write is after it. -/
structure LastWrite (R : α → α → Prop) (ops : List α) (f : α → Option β) (x : α) : Prop where
  mem : x ∈ ops
  writes : (f x).isSome = true
  last : ∀ y ∈ ops, (f y).isSome = true → ¬ Before R ops x y

theorem IsOrdering.reverse (h : IsOrdering R ops l) :
    IsOrdering (fun a b => R b a) ops l.reverse where
  perm := (reverse_perm l).trans h.perm
  respects := pairwise_reverse.2 h.respects

theorem before_flip {a b : α} : Before (fun a b => R b a) ops a b ↔ Before R ops b a := by
  have hedge : Edge (fun a b => R b a) ops = Function.swap (Edge R ops) := by
    funext a b
    simp only [eq_iff_iff]
    constructor
    · rintro ⟨ha, hb, hne, hR⟩
      exact ⟨hb, ha, fun hc => hne hc.symm, hR⟩
    · rintro ⟨hb, ha, hne, hR⟩
      exact ⟨ha, hb, fun hc => hne hc.symm, hR⟩
  unfold Before
  rw [hedge, Relation.transGen_swap]

theorem firstWrite_flip {x : α} : FirstWrite (fun a b => R b a) ops f x ↔ LastWrite R ops f x := by
  constructor
  · rintro ⟨hmem, hw, hfirst⟩
    exact ⟨hmem, hw, fun y hy hfy hb => hfirst y hy hfy (before_flip.2 hb)⟩
  · rintro ⟨hmem, hw, hlast⟩
    exact ⟨hmem, hw, fun y hy hfy hb => hlast y hy hfy (before_flip.1 hb)⟩

theorem lastWrite_of_lastWrite? (h : IsOrdering R ops l) (hops : ops.Nodup) {v : β}
    (hv : lastWrite? f l = some v) : ∃ x, LastWrite R ops f x ∧ f x = some v := by
  obtain ⟨x, hx, hfx⟩ := firstWrite_of_findSome? h.reverse hops hv
  exact ⟨x, firstWrite_flip.1 hx, hfx⟩

/-- **All orderings agree on the last write exactly when the writes that can come last
agree.** -/
theorem last_agree_iff (h : IsOrdering R ops l) (hops : ops.Nodup) :
    (∀ l₁ l₂, IsOrdering R ops l₁ → IsOrdering R ops l₂ → lastWrite? f l₁ = lastWrite? f l₂) ↔
      ∀ x y, LastWrite R ops f x → LastWrite R ops f y → f x = f y := by
  have hflip := first_agree_iff (f := f) h.reverse hops
  simp only [firstWrite_flip] at hflip
  rw [← hflip]
  constructor
  · intro hall l₁ l₂ h₁ h₂
    simpa [lastWrite?] using hall l₁.reverse l₂.reverse h₁.reverse h₂.reverse
  · intro hall l₁ l₂ h₁ h₂
    exact hall _ _ h₁.reverse h₂.reverse

theorem lastWrite?_snoc (f : α → Option β) (l : List α) (a : α) :
    lastWrite? f (l ++ [a]) = (f a).or (lastWrite? f l) := by
  simp only [lastWrite?, reverse_append, reverse_singleton, singleton_append, findSome?_cons]
  cases f a <;> rfl

end Idiom.Causal
