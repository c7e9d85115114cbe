import Idiom.Lib.Prog
import Idiom.Lib.Run
import Mathlib.Data.Fintype.Basic

/-!
# Tasks with exclusive sections

Many functions run at once on one shared state; a scheduler picks which one makes its next access.
Some stretches of a function are sections: they begin with an access that enters and go on with
accesses inside. If a task enters only when no other one is inside, each task can be verified by
itself, against what the others may do to the shared state.
-/

namespace Idiom

open Run Function

variable {ι σ ε ℓ E α β : Type}

/-- Whether an access enters a section, is inside one, or is free. -/
inductive AccessKind where
  | free
  | enter
  | inside
  deriving DecidableEq

/-- The shared state and the accesses that were made, with the task and the input of each. -/
abbrev World (ι σ ε ℓ : Type) := σ × List (ι × ℓ × ε)

structure Tasks (ι σ ε ℓ E α : Type) where
  shared : σ
  tasks : ι → Option (Prog σ ε ℓ E α)
  trace : List (ι × ℓ × ε)

/-- A task starts, or makes its next access on an input. -/
inductive TaskStep (ι ε : Type) where
  | start (t : ι)
  | go (t : ι) (e : ε)

/-- The task is inside a section: its next access is. -/
def Prog.Inside (kind : ℓ → AccessKind) : Prog σ ε ℓ E α → Prop
  | .done _ => False
  | .fail _ => False
  | .access label _ _ => kind label = .inside

instance (kind : ℓ → AccessKind) (p : Prog σ ε ℓ E α) : Decidable (p.Inside kind) :=
  match p with
  | .done _ => isFalse fun h => h
  | .fail _ => isFalse fun h => h
  | .access label _ _ => inferInstanceAs (Decidable (kind label = .inside))

/-- The next access of the task enters a section. -/
def Prog.Enters (kind : ℓ → AccessKind) : Prog σ ε ℓ E α → Prop
  | .done _ => False
  | .fail _ => False
  | .access label _ _ => kind label = .enter

instance (kind : ℓ → AccessKind) (p : Prog σ ε ℓ E α) : Decidable (p.Enters kind) :=
  match p with
  | .done _ => isFalse fun h => h
  | .fail _ => isFalse fun h => h
  | .access label _ _ => inferInstanceAs (Decidable (kind label = .enter))

namespace Tasks

variable [DecidableEq ι]

def world (x : Tasks ι σ ε ℓ E α) : World ι σ ε ℓ := (x.shared, x.trace)

/-- Each task runs a program of its own. -/
def step (program : ι → Prog σ ε ℓ E α) (x : Tasks ι σ ε ℓ E α) :
    TaskStep ι ε → Option (Tasks ι σ ε ℓ E α)
  | .start t =>
    match x.tasks t with
    | none => some { x with tasks := update x.tasks t (some (program t)) }
    | some _ => none
  | .go t e =>
    match x.tasks t with
    | some (.access label effect next) =>
      some ⟨effect e x.shared, update x.tasks t (some (next e x.shared)),
        x.trace ++ [(t, label, e)]⟩
    | _ => none

/-- No task has started. -/
def fresh (s : σ) : Tasks ι σ ε ℓ E α := ⟨s, fun _ => none, []⟩

theorem step_cases {program : ι → Prog σ ε ℓ E α} {x y : Tasks ι σ ε ℓ E α} {a : TaskStep ι ε}
    (h : step program x a = some y) :
    (∃ t, a = .start t ∧ x.tasks t = none ∧
      y = { x with tasks := update x.tasks t (some (program t)) }) ∨
    ∃ t e label effect next, a = .go t e ∧ x.tasks t = some (.access label effect next) ∧
      y = ⟨effect e x.shared, update x.tasks t (some (next e x.shared)),
        x.trace ++ [(t, label, e)]⟩ := by
  cases a with
  | start t =>
    simp only [step] at h
    split at h
    · next hnone =>
      cases h
      exact .inl ⟨t, rfl, hnone, rfl⟩
    · cases h
  | go t e =>
    simp only [step] at h
    split at h
    · next label effect next ht =>
      cases h
      exact .inr ⟨t, e, label, effect, next, rfl, ht, rfl⟩
    · cases h

/-- **Access by access.**  What all accesses of the programs have, the next ones have. -/
theorem nodes_step {program : ι → Prog σ ε ℓ E α} {x y : Tasks ι σ ε ℓ E α} {a : TaskStep ι ε}
    {P : ι → ℓ → (ε → σ → σ) → (ε → σ → Prog σ ε ℓ E α) → Prop}
    (hprogram : ∀ t, (program t).Nodes (P t))
    (hx : ∀ t p, x.tasks t = some p → p.Nodes (P t)) (h : step program x a = some y) :
    ∀ t p, y.tasks t = some p → p.Nodes (P t) := by
  intro u p hp
  obtain ⟨t, _, _, rfl⟩ | ⟨t, e, label, effect, next, _, ht, rfl⟩ := step_cases h
  · rcases update_eq_some hp with ⟨rfl, rfl⟩ | ⟨_, hp⟩
    · exact hprogram _
    · exact hx u p hp
  · rcases update_eq_some hp with ⟨rfl, rfl⟩ | ⟨_, hp⟩
    · exact (hx _ _ ht).2 e x.shared
    · exact hx u p hp

/-- No other task is inside a section when one enters, not even one that only reads there. -/
def EntersAlone (kind : ℓ → AccessKind) (x : Tasks ι σ ε ℓ E α) : TaskStep ι ε → Prop
  | .start _ => True
  | .go t _ => (∃ p ∈ x.tasks t, p.Enters kind) →
      ∀ u, u ≠ t → ∀ p ∈ x.tasks u, ¬ p.Inside kind

instance [Fintype ι] (kind : ℓ → AccessKind) (x : Tasks ι σ ε ℓ E α) (a : TaskStep ι ε) :
    Decidable (EntersAlone kind x a) :=
  match a with
  | .start _ => isTrue trivial
  | .go t _ => inferInstanceAs (Decidable ((∃ p ∈ x.tasks t, p.Enters kind) →
      ∀ u, u ≠ t → ∀ p ∈ x.tasks u, ¬ p.Inside kind))

end Tasks

open Tasks

/-- What the verification of a task relies on. -/
structure Discipline (ι σ ε ℓ : Type) where
  kind : ℓ → AccessKind
  /-- Holds while no task is inside a section. -/
  idle : σ → Prop
  /-- Holds always. -/
  inv : World ι σ ε ℓ → Prop
  /-- What the other tasks may do, from the point of view of one. -/
  evolves : ι → World ι σ ε ℓ → World ι σ ε ℓ → Prop
  refl : ∀ t w, evolves t w w
  trans : ∀ t w w' w'', evolves t w w' → evolves t w' w'' → evolves t w w''

namespace Discipline

variable (D : Discipline ι σ ε ℓ)

/-- What an access of `t` must keep: `p` is what follows it. -/
structure Allowed (t : ι) (label : ℓ) (p : Prog σ ε ℓ E α) (w w' : World ι σ ε ℓ) : Prop where
  inv : D.inv w'
  others : ∀ u, u ≠ t → D.evolves u w w'
  free : D.kind label = .free → w'.1 = w.1 ∧ ¬ p.Inside D.kind
  leaves : D.kind label ≠ .free → ¬ p.Inside D.kind → D.idle w'.1

/-- However the others run, the task makes only accesses that are allowed, and ends with `Q`. -/
def Safe (t : ι) (Q : Except E α → World ι σ ε ℓ → Prop) : Prog σ ε ℓ E α → World ι σ ε ℓ → Prop
  | .done a, w => ∀ w', D.evolves t w w' → D.inv w' → Q (.ok a) w'
  | .fail e, w => ∀ w', D.evolves t w w' → D.inv w' → Q (.error e) w'
  | .access label effect next, w => ∀ w' e, D.evolves t w w' → D.inv w' →
      (D.kind label = .inside → w'.1 = w.1) → (D.kind label = .enter → D.idle w'.1) →
      D.Allowed t label (next e w'.1) w' (effect e w'.1, w'.2 ++ [(t, label, e)]) ∧
        Safe t Q (next e w'.1) (effect e w'.1, w'.2 ++ [(t, label, e)])

variable {D}

theorem Safe.mono {t : ι} {Q : Except E α → World ι σ ε ℓ → Prop} {p : Prog σ ε ℓ E α}
    {w w' : World ι σ ε ℓ} (h : D.Safe t Q p w) (hevolves : D.evolves t w w')
    (hinside : p.Inside D.kind → w'.1 = w.1) : D.Safe t Q p w' := by
  cases p with
  | done a | fail e => exact fun w'' h'' hinv => h w'' (D.trans t w w' w'' hevolves h'') hinv
  | access label effect next =>
    intro w'' e h'' hinv hin henter
    exact h w'' e (D.trans t w w' w'' hevolves h'') hinv
      (fun hkind => (hin hkind).trans (hinside hkind)) henter

variable [DecidableEq ι]

structure Sound (D : Discipline ι σ ε ℓ) (Q : ι → Except E α → World ι σ ε ℓ → Prop)
    (x : Tasks ι σ ε ℓ E α) : Prop where
  safe : ∀ t p, x.tasks t = some p → D.Safe t (Q t) p x.world
  inv : D.inv x.world
  one : ∀ t u p q, x.tasks t = some p → x.tasks u = some q → p.Inside D.kind → q.Inside D.kind →
    t = u
  idle : (∀ t p, x.tasks t = some p → ¬ p.Inside D.kind) → D.idle x.shared
  fresh : ∀ t, x.tasks t = none → ∀ a ∈ x.trace, a.1 ≠ t

variable {Q : ι → Except E α → World ι σ ε ℓ → Prop} {program : ι → Prog σ ε ℓ E α}
  {x y : Tasks ι σ ε ℓ E α}

theorem Sound.start {t : ι} (h : Sound D Q x) (hnone : x.tasks t = none)
    (hsafe : D.Safe t (Q t) (program t) x.world) (houtside : ¬ (program t).Inside D.kind) :
    Sound D Q { x with tasks := update x.tasks t (some (program t)) } where
  safe u p hp := by
    rcases update_eq_some hp with ⟨rfl, rfl⟩ | ⟨_, hp⟩
    · exact hsafe
    · exact h.safe u p hp
  inv := h.inv
  one u v p q hp hq hpin hqin := by
    rcases update_eq_some hp with ⟨rfl, rfl⟩ | ⟨_, hp⟩
    · exact absurd hpin houtside
    rcases update_eq_some hq with ⟨rfl, rfl⟩ | ⟨_, hq⟩
    · exact absurd hqin houtside
    · exact h.one u v p q hp hq hpin hqin
  idle hout := by
    refine h.idle fun u p hp => ?_
    have hne : u ≠ t := by
      rintro rfl
      rw [hnone] at hp
      cases hp
    exact hout u p (update_some_of_ne hne hp)
  fresh u hu a ha := h.fresh u (update_eq_none hu).2 a ha

theorem Sound.go {t : ι} {e : ε} {label : ℓ} {effect : ε → σ → σ}
    {next : ε → σ → Prog σ ε ℓ E α} (h : Sound D Q x)
    (ht : x.tasks t = some (.access label effect next))
    (halone : D.kind label = .enter → ∀ u p, u ≠ t → x.tasks u = some p → ¬ p.Inside D.kind) :
    Sound D Q ⟨effect e x.shared, update x.tasks t (some (next e x.shared)),
      x.trace ++ [(t, label, e)]⟩ := by
  have hidle : D.kind label = .enter → D.idle x.shared := by
    intro henter
    refine h.idle fun u p hp hin => ?_
    by_cases hne : u = t
    · subst hne
      rw [ht] at hp
      cases hp
      exact absurd (henter.symm.trans hin) (by decide)
    · exact halone henter u p hne hp hin
  obtain ⟨hallowed, hsafe⟩ :=
    h.safe t _ ht x.world e (D.refl t x.world) h.inv (fun _ => rfl) hidle
  -- nobody else is inside a section, unless the access is free
  have hothers : D.kind label ≠ .free → ∀ u p, u ≠ t → x.tasks u = some p → ¬ p.Inside D.kind := by
    intro hfree u p hne hp hin
    cases hkind : D.kind label with
    | free => exact hfree hkind
    | enter => exact halone hkind u p hne hp hin
    | inside => exact hne (h.one u t p _ hp ht hin hkind)
  refine ⟨fun u p hp => ?_, hallowed.inv, fun u v p q hp hq hpin hqin => ?_, fun hout => ?_,
    fun u hu a ha => ?_⟩
  · rcases update_eq_some hp with ⟨rfl, rfl⟩ | ⟨hne, hp⟩
    · exact hsafe
    · refine (h.safe u p hp).mono (hallowed.others u hne) fun hin => ?_
      by_contra hchanged
      refine hothers (fun hfree => hchanged ?_) u p hne hp hin
      exact (hallowed.free hfree).1
  · have hnext : (next e x.shared).Inside D.kind → D.kind label ≠ .free :=
      fun hin hfree => (hallowed.free hfree).2 hin
    rcases update_eq_some hp with ⟨rfl, rfl⟩ | ⟨hne, hp₁⟩
    · rcases update_eq_some hq with ⟨rfl, rfl⟩ | ⟨hne, hq₁⟩
      · rfl
      · exact absurd hqin (hothers (hnext hpin) v q hne hq₁)
    · rcases update_eq_some hq with ⟨rfl, rfl⟩ | ⟨_, hq₁⟩
      · exact absurd hpin (hothers (hnext hqin) u p hne hp₁)
      · exact h.one u v p q hp₁ hq₁ hpin hqin
  · have hnext : ¬ (next e x.shared).Inside D.kind :=
      hout t _ (update_self ..)
    by_cases hfree : D.kind label = .free
    · have hsame : effect e x.shared = x.shared := (hallowed.free hfree).1
      show D.idle (effect e x.shared)
      rw [hsame]
      refine h.idle fun u p hp hin => ?_
      by_cases hne : u = t
      · subst hne
        rw [ht] at hp
        cases hp
        exact absurd (hfree.symm.trans hin) (by decide)
      · exact hout u p (update_some_of_ne hne hp) hin
    · exact hallowed.leaves hfree hnext
  · obtain ⟨hne, hnone⟩ := update_eq_none hu
    rcases List.mem_append.1 ha with ha | ha
    · exact h.fresh u hnone a ha
    · rw [List.mem_singleton.1 ha]
      exact fun h => hne h.symm

/-- **Each for itself, all together**, where tasks start under a condition. -/
theorem sound_of_exec_along {G : Tasks ι σ ε ℓ E α → TaskStep ι ε → Prop} {l : List (TaskStep ι ε)}
    (hstart : ∀ x t, Sound D Q x → G x (.start t) → x.tasks t = none →
      D.Safe t (Q t) (program t) x.world)
    (houtside : ∀ t, ¬ (program t).Inside D.kind) (hx : Sound D Q x)
    (halone : Along (step program) (fun x a => EntersAlone D.kind x a ∧ G x a) x l)
    (h : exec (step program) x l = some y) : Sound D Q y := by
  refine exec_invariant_along (fun u a v hu hG hstep => ?_) hx halone h
  obtain ⟨t, rfl, hnone, rfl⟩ | ⟨t, e, label, effect, next, rfl, ht, rfl⟩ :=
    step_cases hstep
  · exact hu.start hnone (hstart u t hu hG.2 hnone) (houtside t)
  · exact hu.go ht fun henter u p hne hp => hG.1 ⟨_, ht, henter⟩ u hne p hp

theorem sound_of_exec {l : List (TaskStep ι ε)}
    (hstart : ∀ t w, D.inv w → (∀ a ∈ w.2, a.1 ≠ t) → D.Safe t (Q t) (program t) w)
    (houtside : ∀ t, ¬ (program t).Inside D.kind) (hx : Sound D Q x)
    (halone : Along (step program) (EntersAlone D.kind) x l)
    (h : exec (step program) x l = some y) : Sound D Q y :=
  sound_of_exec_along (G := fun _ _ => True)
    (fun x t hx _ hnone => hstart t x.world hx.inv (hx.fresh t hnone)) houtside hx
    (halone.imp fun _ _ hG => ⟨hG, trivial⟩) h

omit [DecidableEq ι] in
theorem sound_fresh {s : σ} (hinv : D.inv (s, [])) (hidle : D.idle s) :
    Sound D Q (fresh s) where
  safe t p hp := by cases hp
  inv := hinv
  one t u p q hp := by cases hp
  idle _ := hidle
  fresh t _ a ha := by cases ha

omit [DecidableEq ι] in
theorem Sound.of_done {t : ι} {a : α} (h : Sound D Q x) (ht : x.tasks t = some (.done a)) :
    Q t (.ok a) x.world :=
  h.safe t _ ht x.world (D.refl t x.world) h.inv

end Discipline
end Idiom
