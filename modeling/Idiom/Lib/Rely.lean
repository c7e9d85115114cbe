import Idiom.Lib.Tasks

/-!
# Rely and guarantee

Many functions run at once on one shared state. Each of them is verified by itself: it relies on
what the others leave alone between two of its accesses, and each of its accesses keeps an
invariant and leaves alone what the others rely on. An access may have a condition; what is proved
then holds in the runs that meet it.
-/

namespace Idiom

open Run

variable {ι σ ε ℓ E α β : Type}

/-- What the verification of a task relies on. -/
structure Rely (ι σ ε ℓ : Type) where
  /-- Holds between any two accesses. -/
  inv : World ι σ ε ℓ → Prop
  /-- What the other tasks may do, from the point of view of one. -/
  evolves : ι → World ι σ ε ℓ → World ι σ ε ℓ → Prop
  /-- The condition of an access. -/
  guard : World ι σ ε ℓ → ι → ℓ → ε → Prop
  refl : ∀ t w, evolves t w w
  trans : ∀ t w w' w'', evolves t w w' → evolves t w' w'' → evolves t w w''

namespace Rely

variable (R : Rely ι σ ε ℓ)

/-- What an access of `t` must keep. -/
structure Kept (t : ι) (w w' : World ι σ ε ℓ) : Prop where
  inv : R.inv w'
  others : ∀ u, u ≠ t → R.evolves u w w'

/-- However the others run, the accesses of the task keep what they must, and it ends with `Q`. -/
def Safe (t : ι) (Q : Except E α → World ι σ ε ℓ → Prop) : Prog σ ε ℓ E α → World ι σ ε ℓ → Prop
  | .done a, w => ∀ w', R.evolves t w w' → R.inv w' → Q (.ok a) w'
  | .fail e, w => ∀ w', R.evolves t w w' → R.inv w' → Q (.error e) w'
  | .access label effect next, w => ∀ w' e, R.evolves t w w' → R.inv w' → R.guard w' t label e →
      R.Kept t w' (effect e w'.1, w'.2 ++ [(t, label, e)]) ∧
        Safe t Q (next e w'.1) (effect e w'.1, w'.2 ++ [(t, label, e)])

/-- The task has made no access. -/
def Silent (t : ι) (w : World ι σ ε ℓ) : Prop := ∀ b ∈ w.2, b.1 ≠ t

/-- The step meets the condition of its access. -/
def Meets (x : Tasks ι σ ε ℓ E α) : TaskStep ι ε → Prop
  | .start _ => True
  | .go t e => ∀ p ∈ x.tasks t, ∀ label ∈ p.label, R.guard (x.shared, x.trace) t label e

variable {R} {t : ι} {Q Q' : Except E α → World ι σ ε ℓ → Prop} {p : Prog σ ε ℓ E α}
  {w w' : World ι σ ε ℓ}

/-! ## Rules -/

theorem safe_of_forall (h : ∀ w', R.evolves t w w' → R.inv w' → R.Safe t Q p w') :
    R.Safe t Q p w := by
  cases p with
  | done a | fail e => exact fun w' hw' hinv => h w' hw' hinv w' (R.refl t w') hinv
  | access label effect next =>
    exact fun w' e hw' hinv hguard => h w' hw' hinv w' e (R.refl t w') hinv hguard

theorem Safe.mono (h : R.Safe t Q p w) (hw : R.evolves t w w') : R.Safe t Q p w' := by
  cases p with
  | done a | fail e => exact fun w'' hw' hinv => h w'' (R.trans t w w' w'' hw hw') hinv
  | access label effect next =>
    exact fun w'' e hw' hinv hguard => h w'' e (R.trans t w w' w'' hw hw') hinv hguard

theorem Safe.imp (h : R.Safe t Q p w) (himp : ∀ r w, R.inv w → Q r w → Q' r w) :
    R.Safe t Q' p w := by
  induction p generalizing w with
  | done a | fail e => exact fun w' hw hinv => himp _ _ hinv (h w' hw hinv)
  | access label effect next ih =>
    intro w' e hw hinv hguard
    obtain ⟨hkept, hnext⟩ := h w' e hw hinv hguard
    exact ⟨hkept, ih e w'.1 hnext⟩

variable {S : Except E β → World ι σ ε ℓ → Prop}

variable (R) in
/-- What the first of two parts must end with. -/
def Then (t : ι) (S : Except E β → World ι σ ε ℓ → Prop) (f : α → Prog σ ε ℓ E β) :
    Except E α → World ι σ ε ℓ → Prop
  | .ok a, w => R.Safe t S (f a) w
  | .error e, w => S (.error e) w

theorem Safe.bind {f : α → Prog σ ε ℓ E β} (h : R.Safe t (R.Then t S f) p w) :
    R.Safe t S (p >>= f) w := by
  induction p generalizing w with
  | done a => exact safe_of_forall h
  | fail e => exact h
  | access label effect next ih =>
    intro w' e hw hinv hguard
    obtain ⟨hkept, hnext⟩ := h w' e hw hinv hguard
    exact ⟨hkept, ih e w'.1 hnext⟩

theorem Safe.map {f : α → β} (h : R.Safe t (fun r => S (r.map f)) p w) :
    R.Safe t S (f <$> p) w := by
  induction p generalizing w with
  | done a | fail e => exact h
  | access label effect next ih =>
    intro w' e hw hinv hguard
    obtain ⟨hkept, hnext⟩ := h w' e hw hinv hguard
    exact ⟨hkept, ih e w'.1 hnext⟩

theorem Safe.attempt {S : Except E (Except E α) → World ι σ ε ℓ → Prop}
    (h : R.Safe t (fun r => S (.ok r)) p w) : R.Safe t S p.attempt w := by
  induction p generalizing w with
  | done a | fail e => exact h
  | access label effect next ih =>
    intro w' e hw hinv hguard
    obtain ⟨hkept, hnext⟩ := h w' e hw hinv hguard
    exact ⟨hkept, ih e w'.1 hnext⟩

/-! ## All together -/

variable (R) in
/-- All tasks that run are safe. -/
structure Sound (Q : ι → Except E α → World ι σ ε ℓ → Prop) (x : Tasks ι σ ε ℓ E α) : Prop where
  safe : ∀ t p, x.tasks t = some p → R.Safe t (Q t) p (x.shared, x.trace)
  inv : R.inv (x.shared, x.trace)
  /-- A task that has not started has made no access. -/
  silent : ∀ t, x.tasks t = none → Silent t (x.shared, x.trace)

section

variable [DecidableEq ι] {Q : ι → Except E α → World ι σ ε ℓ → Prop}
  {program : ι → Prog σ ε ℓ E α} {x y : Tasks ι σ ε ℓ E α} {a : TaskStep ι ε}

theorem Sound.step (h : Sound R Q x)
    (hprogram : ∀ t w, R.inv w → Silent t w → R.Safe t (Q t) (program t) w)
    (hmeets : R.Meets x a) (hstep : Tasks.step program x a = some y) : Sound R Q y := by
  obtain ⟨t, rfl, hnone, rfl⟩ | ⟨t, e, label, effect, next, rfl, ht, rfl⟩ :=
    Tasks.step_cases hstep
  · refine ⟨fun u p hp => ?_, h.inv, fun u hu => h.silent u (update_eq_none hu).2⟩
    rcases update_eq_some hp with ⟨rfl, rfl⟩ | ⟨_, hp⟩
    · exact hprogram u _ h.inv (h.silent u hnone)
    · exact h.safe u p hp
  · obtain ⟨hkept, hnext⟩ := h.safe t _ ht _ e (R.refl t _) h.inv (hmeets _ ht _ rfl)
    refine ⟨fun u p hp => ?_, hkept.inv, fun u hu b hb => ?_⟩
    · rcases update_eq_some hp with ⟨rfl, rfl⟩ | ⟨hne, hp⟩
      · exact hnext
      · exact (h.safe u p hp).mono (hkept.others u hne)
    · obtain ⟨hne, hu⟩ := update_eq_none hu
      rcases List.mem_append.1 hb with hb | hb
      · exact h.silent u hu b hb
      · rw [List.mem_singleton.1 hb]
        exact hne.symm

/-- **Each for itself, all together**, also under a scheduler that lets the tasks wait. -/
theorem sound_of_exec {step : Tasks ι σ ε ℓ E α → TaskStep ι ε → Option (Tasks ι σ ε ℓ E α)}
    (hle : ∀ x a y, step x a = some y → Tasks.step program x a = some y)
    (hprogram : ∀ t w, R.inv w → Silent t w → R.Safe t (Q t) (program t) w)
    {l : List (TaskStep ι ε)} (hx : Sound R Q x) (hmeets : Along step (fun x a => R.Meets x a) x l)
    (h : exec step x l = some y) : Sound R Q y :=
  exec_invariant_along (fun u a v hu hG ha => hu.step hprogram hG (hle u a v ha)) hx hmeets h

omit [DecidableEq ι] in
theorem sound_fresh {s : σ} (hinv : R.inv (s, [])) : Sound R Q (Tasks.fresh s) where
  safe t p hp := by cases hp
  inv := hinv
  silent t _ b hb := by cases hb

omit [DecidableEq ι] in
theorem Sound.of_done {t : ι} {r : α} (h : Sound R Q x) (ht : x.tasks t = some (.done r)) :
    Q t (.ok r) (x.shared, x.trace) :=
  h.safe t _ ht _ (R.refl t _) h.inv

end

end Rely
end Idiom
