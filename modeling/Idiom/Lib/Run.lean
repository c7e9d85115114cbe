import Mathlib.Data.List.Induction

/-!
# Runs of an executable transition system

A system is a partial step function `step : σ → α → Option σ`: an action either
is not enabled, or leads to exactly one next state. Everything a scheduler or an
environment may choose is part of the action, so a *run* is a list of actions and
replaying it is a computation.

* `Along` — a condition on steps that holds all the way along a run.
* `exec_invariant`, `exec_invariant_along` — what every step (that meets a condition) preserves
  holds at the end of every run.
* `visits_iff_along` — where a step that misses the condition breaks the invariant,
  the runs through good states only are the runs whose steps all meet the condition.
-/

namespace Idiom.Run

open List Function Option

variable {σ α : Type*} {step : σ → α → Option σ}

/-! ## Replay -/

/-- Replay a list of actions from a state. -/
def exec (step : σ → α → Option σ) (s : σ) : List α → Option σ
  | [] => some s
  | a :: l =>
    match step s a with
    | none => none
    | some s' => exec step s' l

@[simp] theorem exec_nil (s : σ) : exec step s [] = some s := rfl

theorem exec_cons (s : σ) (a : α) (l : List α) :
    exec step s (a :: l) = (step s a).bind (fun s' => exec step s' l) := by
  show (match step s a with | none => none | some s' => exec step s' l) = _
  cases step s a <;> rfl

variable {s t : σ} {l : List α} {a : α}

theorem exec_cons_eq_some :
    exec step s (a :: l) = some t ↔ ∃ s', step s a = some s' ∧ exec step s' l = some t := by
  rw [exec_cons, bind_eq_some_iff]

theorem exec_append (s : σ) (l₁ l₂ : List α) :
    exec step s (l₁ ++ l₂) = (exec step s l₁).bind (fun t => exec step t l₂) := by
  induction l₁ generalizing s with
  | nil => rfl
  | cons a l ih =>
    rw [cons_append, exec_cons, exec_cons, bind_assoc]
    congr 1
    funext s'
    exact ih s'

variable {l₁ l₂ : List α}

theorem exec_append_eq_some :
    exec step s (l₁ ++ l₂) = some t ↔ ∃ u, exec step s l₁ = some u ∧ exec step u l₂ = some t := by
  rw [exec_append, bind_eq_some_iff]

/-! ## Invariants -/

variable {P : σ → Prop}

/-- **The invariant rule.**  What holds at the start and is preserved by every
enabled step holds at the end of every run. -/
theorem exec_invariant (hstep : ∀ s a t, P s → step s a = some t → P t) (hs : P s)
    (h : exec step s l = some t) : P t := by
  induction l generalizing s with
  | nil => cases h; exact hs
  | cons a l ih =>
    obtain ⟨s', ha, hl⟩ := exec_cons_eq_some.1 h
    exact ih (hstep s a s' hs ha) hl

/-- The condition `G` holds of every step of the run, read in the state before
the step. -/
def Along (step : σ → α → Option σ) (G : σ → α → Prop) (s : σ) : List α → Prop
  | [] => True
  | a :: l => G s a ∧ ∀ s', step s a = some s' → Along step G s' l

/-- A condition that can be decided in every state can be decided along a run. -/
instance decidableAlong {G : σ → α → Prop} [∀ s a, Decidable (G s a)] :
    ∀ (s : σ) (l : List α), Decidable (Along step G s l)
  | _, [] => isTrue trivial
  | s, a :: l =>
    match ha : step s a with
    | none => decidable_of_iff (G s a) ⟨fun h => ⟨h, fun s' hs' => by rw [ha] at hs'; cases hs'⟩,
        fun h => h.1⟩
    | some s' =>
      haveI := decidableAlong (G := G) s' l
      decidable_of_iff (G s a ∧ Along step G s' l) ⟨fun h => ⟨h.1, fun t ht => by
        rw [ha] at ht; cases ht; exact h.2⟩, fun h => ⟨h.1, h.2 s' ha⟩⟩

variable {G : σ → α → Prop}

theorem Along.left (h : Along step G s (l₁ ++ l₂)) : Along step G s l₁ := by
  induction l₁ generalizing s with
  | nil => trivial
  | cons a l ih => exact ⟨h.1, fun s' hs' => ih (h.2 s' hs')⟩

theorem Along.right (h : Along step G s (l₁ ++ l₂)) (hexec : exec step s l₁ = some t) :
    Along step G t l₂ := by
  induction l₁ generalizing s with
  | nil => cases hexec; exact h
  | cons a l ih =>
    obtain ⟨s', ha, hl⟩ := exec_cons_eq_some.1 hexec
    exact ih (h.2 s' ha) hl

variable {s' : σ}

theorem along_cons (hG : G s a) (hstep : step s a = some s') (h : Along step G s' l) :
    Along step G s (a :: l) := by
  refine ⟨hG, fun t ht => ?_⟩
  obtain rfl : s' = t := some.inj (hstep.symm.trans ht)
  exact h

theorem along_of_forall (h : ∀ s a, G s a) : Along step G s l := by
  induction l generalizing s with
  | nil => trivial
  | cons a l ih => exact ⟨h s a, fun _ _ => ih⟩

variable {H : σ → α → Prop}

theorem Along.and (hG : Along step G s l) (hH : Along step H s l) :
    Along step (fun s a => G s a ∧ H s a) s l := by
  induction l generalizing s with
  | nil => trivial
  | cons a l ih => exact ⟨⟨hG.1, hH.1⟩, fun s' hs' => ih (hG.2 s' hs') (hH.2 s' hs')⟩

theorem Along.imp (hG : Along step G s l) (himp : ∀ s a, G s a → H s a) : Along step H s l := by
  induction l generalizing s with
  | nil => trivial
  | cons a l ih => exact ⟨himp s a hG.1, fun s' hs' => ih (hG.2 s' hs')⟩

variable {I : σ → Prop}

/-- **Two conditions on the steps.**  If they agree wherever an invariant holds, and the
second keeps it, they hold along the same runs. -/
theorem along_iff_along (hiff : ∀ s a, I s → (G s a ↔ H s a))
    (hkeep : ∀ s a t, I s → H s a → step s a = some t → I t) (hs : I s) :
    Along step G s l ↔ Along step H s l := by
  induction l generalizing s with
  | nil => exact Iff.rfl
  | cons a l ih =>
    constructor
    · rintro ⟨hG, hrest⟩
      have hH := (hiff s a hs).1 hG
      exact ⟨hH, fun t ha => (ih (hkeep s a t hs hH ha)).1 (hrest t ha)⟩
    · rintro ⟨hH, hrest⟩
      exact ⟨(hiff s a hs).2 hH, fun t ha => (ih (hkeep s a t hs hH ha)).2 (hrest t ha)⟩

/-- The same for a run that is enabled to its end, where the conditions need to agree on the steps
that are enabled only. -/
theorem along_iff_along_of_exec (hiff : ∀ s a t, I s → step s a = some t → (G s a ↔ H s a))
    (hkeep : ∀ s a t, I s → step s a = some t → I t) (hs : I s) (h : exec step s l = some t) :
    Along step G s l ↔ Along step H s l := by
  induction l generalizing s with
  | nil => exact Iff.rfl
  | cons a l ih =>
    obtain ⟨s', ha, hl⟩ := exec_cons_eq_some.1 h
    have hrest := ih (hkeep s a s' hs ha) hl
    constructor
    · rintro ⟨hG, hG'⟩
      exact along_cons ((hiff s a s' hs ha).1 hG) ha (hrest.1 (hG' s' ha))
    · rintro ⟨hH, hH'⟩
      exact along_cons ((hiff s a s' hs ha).2 hH) ha (hrest.2 (hH' s' ha))

open Classical in
/-- The steps that meet a condition. -/
noncomputable def guarded (step : σ → α → Option σ) (G : σ → α → Prop) (s : σ) (a : α) : Option σ :=
  if G s a then step s a else none

/-- Replaying a run with the condition checked before every step. -/
theorem exec_guarded_eq_some :
    exec (guarded step G) s l = some t ↔ exec step s l = some t ∧ Along step G s l := by
  induction l generalizing s with
  | nil => simp [Along]
  | cons a l ih =>
    rw [exec_cons_eq_some, exec_cons_eq_some]
    unfold guarded
    constructor
    · rintro ⟨s', hstep, hrest⟩
      split_ifs at hstep with hG
      obtain ⟨hexec, halong⟩ := ih.mp hrest
      refine ⟨⟨s', hstep, hexec⟩, hG, fun u hu => ?_⟩
      obtain rfl : s' = u := some.inj (hstep.symm.trans hu)
      exact halong
    · rintro ⟨⟨s', hstep, hexec⟩, hG, halong⟩
      exact ⟨s', by rw [if_pos hG, hstep], ih.mpr ⟨hexec, halong s' hstep⟩⟩

/-- The invariant rule for runs whose steps all meet a condition. -/
theorem exec_invariant_along (hstep : ∀ s a t, P s → G s a → step s a = some t → P t) (hs : P s)
    (hG : Along step G s l) (h : exec step s l = some t) : P t := by
  induction l generalizing s with
  | nil => cases h; exact hs
  | cons a l ih =>
    obtain ⟨s', ha, hl⟩ := exec_cons_eq_some.1 h
    exact ih (hstep s a s' hs hG.1 ha) (hG.2 s' ha) hl

/-- Runs of steps that do the same, as long as an invariant holds. -/
theorem exec_congr_along {E : α → α → Prop} (hsame : ∀ s a b, I s → E a b → step s a = step s b)
    (hkeep : ∀ s a t, I s → G s a → step s a = some t → I t) {l' : List α} (hs : I s)
    (hG : Along step G s l) (h : Forall₂ E l l') : exec step s l' = exec step s l := by
  induction h generalizing s with
  | nil => rfl
  | @cons a b l l' hab _ ih =>
    rw [exec_cons, exec_cons, ← hsame s a b hs hab]
    cases ha : step s a with
    | none => rfl
    | some t => exact ih (hkeep s a t hs hG.1 ha) (hG.2 t ha)

/-- **The invariant rule with the history**: the property of a state is also about the steps that
led to it. -/
theorem exec_history_along {P : List α → σ → Prop} (hstart : P [] s)
    (hstep : ∀ l a u v, exec step s l = some u → P l u → G u a → step u a = some v → P (l ++ [a]) v)
    (hG : Along step G s l) (h : exec step s l = some t) : P l t := by
  induction l using reverseRecOn generalizing t with
  | nil => cases h; exact hstart
  | append_singleton l a ih =>
    obtain ⟨u, hl, ha⟩ := exec_append_eq_some.1 h
    obtain ⟨v, hv, hnil⟩ := exec_cons_eq_some.1 ha
    cases hnil
    exact hstep l a u t hl (ih hG.left hl) (hG.right hl).1 hv

/-! ## The states of a run -/

/-- The run `l` from `s` passes through `t`. -/
def Visits (step : σ → α → Option σ) (s : σ) (l : List α) (t : σ) : Prop :=
  ∃ l₁ l₂, l = l₁ ++ l₂ ∧ exec step s l₁ = some t

theorem Visits.invariant (hstep : ∀ s a t, P s → step s a = some t → P t) (hs : P s)
    (h : Visits step s l t) : P t := by
  obtain ⟨l₁, _, _, hl₁⟩ := h
  exact exec_invariant hstep hs hl₁

/-- The invariant rule for the states of a run whose steps all meet a condition. -/
theorem Visits.invariant_along (hstep : ∀ s a t, P s → G s a → step s a = some t → P t) (hs : P s)
    (hG : Along step G s l) (h : Visits step s l t) : P t := by
  obtain ⟨l₁, l₂, rfl, hl₁⟩ := h
  exact exec_invariant_along hstep hs hG.left hl₁

theorem Visits.cons (ha : step s a = some s') (h : Visits step s' l t) :
    Visits step s (a :: l) t := by
  obtain ⟨l₁, l₂, rfl, hl₁⟩ := h
  exact ⟨a :: l₁, l₂, rfl, exec_cons_eq_some.2 ⟨s', ha, hl₁⟩⟩

theorem Visits.of_exec (h : exec step s l = some t) : Visits step s l t :=
  ⟨l, [], (append_nil l).symm, h⟩

theorem Visits.start (s : σ) (l : List α) : Visits step s l s := ⟨[], l, rfl, rfl⟩

/-- **The exact condition.**  If the steps that meet `G` keep an invariant that gives `P`,
and from a state with the invariant a step that does not meet `G` leads out of `P`, then
a run passes through `P` only if and only if all its steps meet `G`. -/
theorem visits_iff_along_of_invariant (hkeep : ∀ s a t, I s → G s a → step s a = some t → I t)
    (himp : ∀ s, I s → P s) (hbreak : ∀ s a, I s → ¬ G s a → ∃ t, step s a = some t ∧ ¬ P t)
    (hs : I s) : (∀ t, Visits step s l t → P t) ↔ Along step G s l := by
  refine ⟨fun h => ?_, fun hG t ht => himp t (ht.invariant_along hkeep hs hG)⟩
  induction l generalizing s with
  | nil => trivial
  | cons a l ih =>
    have hG : G s a := by
      by_contra hG
      obtain ⟨t, ha, ht⟩ := hbreak s a hs hG
      exact ht (h t ((Visits.start t l).cons ha))
    exact ⟨hG, fun s' ha => ih (hkeep s a s' hs hG ha) fun t ht => h t (ht.cons ha)⟩

theorem visits_iff_along (hkeep : ∀ s a t, P s → G s a → step s a = some t → P t)
    (hbreak : ∀ s a, P s → ¬ G s a → ∃ t, step s a = some t ∧ ¬ P t) (hs : P s) :
    (∀ t, Visits step s l t → P t) ↔ Along step G s l :=
  visits_iff_along_of_invariant hkeep (fun _ h => h) hbreak hs

/-- A property of the states a run passes through is one of what every step leads to. -/
theorem visits_iff_along_next (hs : P s) :
    (∀ t, Visits step s l t → P t) ↔
      Along step (fun s a => ∀ t, step s a = some t → P t) s l := by
  refine visits_iff_along (fun s a t _ hnext hstep => hnext t hstep) (fun s a _ hbad => ?_) hs
  simpa only [not_forall, exists_prop] using hbad

/-! ## Relations between the states of a run -/

/-- The relation holds between every state of the run and every later one. -/
def Related (step : σ → α → Option σ) (R : σ → σ → Prop) (s : σ) (l : List α) : Prop :=
  ∀ l₁ l₂ l₃ t u, l = l₁ ++ l₂ ++ l₃ → exec step s l₁ = some t → exec step t l₂ = some u → R t u

variable {R : σ → σ → Prop}

theorem exec_related (hrefl : ∀ s, R s s) (htrans : ∀ s t u, R s t → R t u → R s u)
    (h : Along step (fun s a => ∀ s', step s a = some s' → R s s') s l)
    (hexec : exec step s l = some t) : R s t := by
  induction l generalizing s with
  | nil => cases hexec; exact hrefl _
  | cons a l ih =>
    obtain ⟨s', ha, hl⟩ := exec_cons_eq_some.1 hexec
    exact htrans s s' t (h.1 s' ha) (ih (h.2 s' ha) hl)

/-- **A preorder along a run.**  It holds between all states exactly when every step keeps
it. -/
theorem related_iff_along (hrefl : ∀ s, R s s) (htrans : ∀ s t u, R s t → R t u → R s u) :
    Related step R s l ↔ Along step (fun s a => ∀ s', step s a = some s' → R s s') s l := by
  constructor
  · intro h
    induction l generalizing s with
    | nil => trivial
    | cons a l ih =>
      refine ⟨fun s' ha => ?_, fun s' ha => ih fun l₁ l₂ l₃ t u hl ht hu => ?_⟩
      · exact h [] [a] l _ s' rfl rfl (exec_cons_eq_some.2 ⟨s', ha, rfl⟩)
      · refine h (a :: l₁) l₂ l₃ t u ?_ (exec_cons_eq_some.2 ⟨s', ha, ht⟩) hu
        rw [hl]
        rfl
  · rintro h l₁ l₂ l₃ t u rfl ht hu
    exact exec_related hrefl htrans (h.left.right ht) hu

/-! ## Two runs -/

section

variable {visible : α → Bool} (hR : Equivalence R)
  (hkeep : ∀ s a t, I s → G s a → step s a = some t → I t)
  (hsilent : ∀ s a t, I s → G s a → visible a = false → step s a = some t → R s t)
include hR hkeep hsilent

theorem exec_silent (hs : I s)
    (hl : ∀ a ∈ l, visible a = false) (hG : Along step G s l) (h : exec step s l = some t) :
    R s t ∧ I t := by
  induction l generalizing s with
  | nil => cases h; exact ⟨hR.refl _, hs⟩
  | cons a l ih =>
    obtain ⟨s', ha, hl'⟩ := exec_cons_eq_some.1 h
    have hs' := hkeep s a s' hs hG.1 ha
    obtain ⟨hrest, ht⟩ := ih hs' (fun b hb => hl b (by simp [hb])) (hG.2 s' ha) hl'
    exact ⟨hR.trans (hsilent s a s' hs hG.1 (hl a (by simp)) ha) hrest, ht⟩

/-- **Unwinding.**  If the steps that cannot be seen lead to related states, and the others lead
from related states to related ones, two runs with the same visible steps end in related states. -/
theorem exec_unwinding
    (hvisible : ∀ s s' a t t', I s → I s' → R s s' → G s a → G s' a → step s a = some t →
      step s' a = some t' → R t t') {t' : σ} {l' : List α} (hs : I s) (hs' : I s') (hrel : R s s')
    (hfilter : l.filter visible = l'.filter visible) (hG : Along step G s l)
    (hG' : Along step G s' l') (h : exec step s l = some t) (h' : exec step s' l' = some t') :
    R t t' := by
  induction l generalizing s s' l' with
  | nil =>
    cases h
    have hnone : ∀ a ∈ l', visible a = false := by
      intro a ha
      have hempty : l'.filter visible = [] := hfilter.symm
      simpa using filter_eq_nil_iff.1 hempty a ha
    exact hR.trans hrel (exec_silent hR hkeep hsilent hs' hnone hG' h').1
  | cons a l ih =>
    obtain ⟨u, ha, hl⟩ := exec_cons_eq_some.1 h
    have hu := hkeep s a u hs hG.1 ha
    cases hv : visible a with
    | false =>
      rw [filter_cons_of_neg (by simp [hv])] at hfilter
      have hsu := hsilent s a u hs hG.1 hv ha
      exact ih hu hs' (hR.trans (hR.symm hsu) hrel) hfilter (hG.2 u ha) hG' hl h'
    | true =>
      -- the other run takes the same step, after some that cannot be seen
      rw [filter_cons_of_pos hv] at hfilter
      obtain ⟨before, after, rfl, hbefore, _, hafter⟩ :=
        filter_eq_cons_iff.1 hfilter.symm
      obtain ⟨v, hv', hrest⟩ := exec_append_eq_some.1 h'
      obtain ⟨w, hw, hrest⟩ := exec_cons_eq_some.1 hrest
      have hbefore' : ∀ b ∈ before, visible b = false := fun b hb => by
        simpa using hbefore b hb
      obtain ⟨hsv, hIv⟩ := exec_silent hR hkeep hsilent hs' hbefore' hG'.left hv'
      have hGv := hG'.right hv'
      have huw := hvisible s v a u w hs hIv (hR.trans hrel hsv) hG.1 hGv.1 ha hw
      exact ih hu (hkeep v a w hIv hGv.1 hw) huw hafter.symm (hG.2 u ha) (hGv.2 w hw) hl hrest

end

/-! ## Logs -/

theorem snoc_eq_append_cons {before after : List α} {x y : α}
    (h : l ++ [y] = before ++ x :: after) :
    (before = l ∧ x = y ∧ after = []) ∨ ∃ rest, l = before ++ x :: rest ∧ after = rest ++ [y] := by
  induction after using reverseRecOn with
  | nil =>
    obtain ⟨hinit, hlast⟩ := append_inj' h rfl
    exact .inl ⟨hinit.symm, (singleton_inj.1 hlast).symm, rfl⟩
  | append_singleton rest z _ =>
    rw [← cons_append, ← append_assoc] at h
    obtain ⟨hinit, hlast⟩ := append_inj' h rfl
    exact .inr ⟨rest, hinit, by rw [singleton_inj.1 hlast]⟩

/-! ## Tables of tasks -/

variable {ι β : Type*} [DecidableEq ι] {i j : ι}

theorem update_cases {f : ι → β} {x y : β} (h : update f i x j = y) :
    (j = i ∧ x = y) ∨ (j ≠ i ∧ f j = y) := by
  by_cases hj : j = i
  · rw [hj, update_self] at h
    exact .inl ⟨hj, h⟩
  · rw [update_of_ne hj] at h
    exact .inr ⟨hj, h⟩

variable {f : ι → Option β} {x y : β}

theorem update_eq_some (h : update f i (some x) j = some y) :
    (j = i ∧ y = x) ∨ (j ≠ i ∧ f j = some y) :=
  (update_cases h).imp_left fun ⟨hj, hx⟩ => ⟨hj, (some.inj hx).symm⟩

theorem update_some_of_ne (hj : j ≠ i) (h : f j = some y) : update f i (some x) j = some y := by
  rwa [update_of_ne hj]

theorem update_eq_none (h : update f i (some x) j = none) : j ≠ i ∧ f j = none :=
  (update_cases h).resolve_left fun ⟨_, hx⟩ => nomatch hx

theorem update_none_eq_some (h : update f i none j = some y) : f j = some y :=
  ((update_cases h).resolve_left fun ⟨_, hx⟩ => nomatch hx).2

end Idiom.Run
