import Idiom.Lib.Prog

/-!
# Programs whose accesses meet a condition

The condition of an access looks at the accesses the program has made so far, at the input, and at
the state.
-/

namespace Idiom.Prog

variable {σ ε ℓ E α β : Type} {G : List (ℓ × ε) → ℓ → ε → σ → Prop}

/-- Every access on these inputs meets the condition, after the accesses of `trace`. -/
def Meets (G : List (ℓ × ε) → ℓ → ε → σ → Prop) : Prog σ ε ℓ E α → List (ℓ × ε) → List ε → σ → Prop
  | done _, _, _, _ => True
  | fail _, _, _, _ => True
  | access _ _ _, _, [], _ => True
  | access label effect next, trace, e :: inputs, s =>
    G trace label e s ∧ Meets G (next e s) (trace ++ [(label, e)]) inputs (effect e s)

/-- After the accesses of `trace` in `s`, the program may end with `r` and `trace'` in `t`. -/
def Reaches (G : List (ℓ × ε) → ℓ → ε → σ → Prop) :
    Prog σ ε ℓ E α → List (ℓ × ε) → σ → Except E α → List (ℓ × ε) → σ → Prop
  | done a, trace, s, r, trace', t => r = .ok a ∧ trace' = trace ∧ t = s
  | fail e, trace, s, r, trace', t => r = .error e ∧ trace' = trace ∧ t = s
  | access label effect next, trace, s, r, trace', t =>
    ∃ e, G trace label e s ∧ Reaches G (next e s) (trace ++ [(label, e)]) (effect e s) r trace' t

variable {p : Prog σ ε ℓ E α} {s t : σ} {trace : List (ℓ × ε)} {r : Except E α} {rest : List ε}

theorem Meets.reaches {inputs : List ε} (hmeets : p.Meets G trace inputs s)
    (h : p.run inputs s = some (r, t, rest)) : ∃ trace', p.Reaches G trace s r trace' t := by
  induction p generalizing trace inputs s with
  | done a | fail e =>
    cases h
    exact ⟨trace, rfl, rfl, rfl⟩
  | access label effect next ih =>
    cases inputs with
    | nil => cases h
    | cons e inputs =>
      obtain ⟨trace', hreach⟩ := ih e s hmeets.2 h
      exact ⟨trace', e, hmeets.1, hreach⟩

variable {trace' : List (ℓ × ε)} {f : α → Prog σ ε ℓ E β}

theorem reaches_bind {r : Except E β} :
    (p >>= f).Reaches G trace s r trace' t ↔
      (∃ e, p.Reaches G trace s (.error e) trace' t ∧ r = .error e) ∨
        ∃ a trace₁ u, p.Reaches G trace s (.ok a) trace₁ u ∧
          (f a).Reaches G trace₁ u r trace' t := by
  induction p generalizing trace s with
  | done a =>
    constructor
    · intro h
      exact .inr ⟨a, trace, s, ⟨rfl, rfl, rfl⟩, h⟩
    · rintro (⟨e, ⟨h, _⟩, _⟩ | ⟨b, trace₁, u, ⟨h, rfl, rfl⟩, hf⟩)
      · cases h
      · cases h
        exact hf
  | fail e =>
    constructor
    · rintro ⟨rfl, rfl, rfl⟩
      exact .inl ⟨e, ⟨rfl, rfl, rfl⟩, rfl⟩
    · rintro (⟨e', ⟨h, rfl, rfl⟩, rfl⟩ | ⟨b, trace₁, u, ⟨h, _⟩, _⟩)
      · cases h
        exact ⟨rfl, rfl, rfl⟩
      · cases h
  | access label effect next ih =>
    constructor
    · rintro ⟨e, hG, h⟩
      rcases (ih e s).1 h with ⟨x, hx, hr⟩ | ⟨a, trace₁, u, ha, hu⟩
      · exact .inl ⟨x, ⟨e, hG, hx⟩, hr⟩
      · exact .inr ⟨a, trace₁, u, ⟨e, hG, ha⟩, hu⟩
    · rintro (⟨x, ⟨e, hG, hx⟩, hr⟩ | ⟨a, trace₁, u, ⟨e, hG, ha⟩, hu⟩)
      · exact ⟨e, hG, (ih e s).2 (.inl ⟨x, hx, hr⟩)⟩
      · exact ⟨e, hG, (ih e s).2 (.inr ⟨a, trace₁, u, ha, hu⟩)⟩

theorem reaches_map {f : α → β} {r : Except E β} : (f <$> p).Reaches G trace s r trace' t ↔
      ∃ r', p.Reaches G trace s r' trace' t ∧ r = r'.map f := by
  rw [map_eq, reaches_bind]
  constructor
  · rintro (⟨e, h, rfl⟩ | ⟨a, trace₁, u, h, rfl, rfl, rfl⟩)
    · exact ⟨_, h, rfl⟩
    · exact ⟨_, h, rfl⟩
  · rintro ⟨r', h, rfl⟩
    cases r' with
    | error e => exact .inl ⟨e, h, rfl⟩
    | ok a => exact .inr ⟨a, trace', t, h, rfl, rfl, rfl⟩

theorem Reaches.of_run {inputs : List ε} (h : p.run inputs s = some (r, t, rest)) :
    ∃ trace', p.Reaches (fun _ _ _ _ => True) trace s r trace' t := by
  induction p generalizing trace inputs s with
  | done a | fail e =>
    cases h
    exact ⟨trace, rfl, rfl, rfl⟩
  | access label effect next ih =>
    cases inputs with
    | nil => cases h
    | cons e inputs =>
      obtain ⟨trace', hreach⟩ := ih e s h
      exact ⟨trace', e, trivial, hreach⟩

theorem Reaches.trace_eq (h : p.Reaches G trace s r trace' t) : ∃ made, trace' = trace ++ made := by
  induction p generalizing trace s with
  | done a | fail e => exact ⟨[], by rw [List.append_nil]; exact h.2.1⟩
  | access label effect next ih =>
    obtain ⟨e, _, h⟩ := h
    obtain ⟨made, hmade⟩ := ih e s h
    exact ⟨(label, e) :: made, by rw [hmade, List.append_assoc]; rfl⟩

/-! ## One answer to every access -/

/-- The program, when every access is answered by its label. -/
def answered (answer : ℓ → ε) : Prog σ ε ℓ E α → σ → Except E α × σ
  | done a, s => (.ok a, s)
  | fail x, s => (.error x, s)
  | access label effect next, s =>
    (next (answer label) s).answered answer (effect (answer label) s)

section

variable {answer : ℓ → ε}

@[simp] theorem answered_done (a : α) (s : σ) :
    (done a : Prog σ ε ℓ E α).answered answer s = (.ok a, s) := rfl

@[simp] theorem answered_access (label : ℓ) (effect : ε → σ → σ)
    (next : ε → σ → Prog σ ε ℓ E α) (s : σ) : (access label effect next).answered answer s =
      (next (answer label) s).answered answer (effect (answer label) s) := rfl

theorem answered_bind_ok {a : α} (h : p.answered answer s = (.ok a, t)) :
    (p >>= f).answered answer s = (f a).answered answer t := by
  induction p generalizing s with
  | done b =>
    cases h
    rfl
  | fail x => cases h
  | access label effect next ih => exact ih _ s h

theorem answered_bind_error {x : E} (h : p.answered answer s = (.error x, t)) :
    (p >>= f).answered answer s = (.error x, t) := by
  induction p generalizing s with
  | done b => cases h
  | fail y =>
    cases h
    rfl
  | access label effect next ih => exact ih _ s h

theorem answered_map (f : α → β) (p : Prog σ ε ℓ E α) (s : σ) : (f <$> p).answered answer s =
    ((p.answered answer s).1.map f, (p.answered answer s).2) := by
  induction p generalizing s with
  | done a | fail x => rfl
  | access label effect next ih => exact ih _ s _

theorem answered_attempt (p : Prog σ ε ℓ E α) (s : σ) :
    p.attempt.answered answer s = (.ok (p.answered answer s).1, (p.answered answer s).2) := by
  induction p generalizing s with
  | done a | fail x => rfl
  | access label effect next ih => exact ih _ s _

end

/-- The program on an input that is always the same. -/
def always (e : ε) (p : Prog σ ε ℓ E α) (s : σ) : Except E α × σ := p.answered (fun _ => e) s

@[simp] theorem always_done (e : ε) (a : α) (s : σ) :
    (done a : Prog σ ε ℓ E α).always e s = (.ok a, s) := rfl

@[simp] theorem always_fail (e : ε) (x : E) (s : σ) :
    (fail x : Prog σ ε ℓ E α).always e s = (.error x, s) := rfl

@[simp] theorem always_access (e : ε) (label : ℓ) (effect : ε → σ → σ)
    (next : ε → σ → Prog σ ε ℓ E α) (s : σ) :
    (access label effect next).always e s = (next e s).always e (effect e s) := rfl

theorem always_bind_ok {e : ε} {a : α} (h : p.always e s = (.ok a, t)) :
    (p >>= f).always e s = (f a).always e t := answered_bind_ok h

theorem always_attempt (e : ε) (p : Prog σ ε ℓ E α) (s : σ) :
    p.attempt.always e s = (.ok (p.always e s).1, (p.always e s).2) := answered_attempt p s

theorem run_replicate (e : ε) (p : Prog σ ε ℓ E α) (s : σ) :
    ∃ n rest, p.run (List.replicate n e) s = some ((p.always e s).1, (p.always e s).2, rest) := by
  induction p generalizing s with
  | done a | fail x => exact ⟨0, [], rfl⟩
  | access label effect next ih =>
    obtain ⟨n, rest, h⟩ := ih e s (effect e s)
    exact ⟨n + 1, rest, h⟩

theorem always_of_run {e : ε} {n : ℕ} (h : p.run (List.replicate n e) s = some (r, t, rest)) :
    p.always e s = (r, t) := by
  induction p generalizing n s with
  | done a | fail x =>
    cases h
    rfl
  | access label effect next ih =>
    cases n with
    | zero => cases h
    | succ n => exact ih e s h

end Idiom.Prog
