import Mathlib.Tactic.Common

/-!
# Asynchronous programs

An asynchronous function is a tree of accesses to a shared state: between two of them the
function may be suspended, and an access is atomic. Every access has a label that says which one
it is, and reads one input from outside: a clock, the answer of a store, the result of a callback.
-/

namespace Idiom

/-- A function that ends, fails, or makes one access and goes on. -/
inductive Prog (σ ε ℓ E α : Type) where
  | done (result : α)
  | fail (error : E)
  | access (label : ℓ) (effect : ε → σ → σ) (next : ε → σ → Prog σ ε ℓ E α)

namespace Prog

variable {σ ε ℓ E α β : Type}

def bind : Prog σ ε ℓ E α → (α → Prog σ ε ℓ E β) → Prog σ ε ℓ E β
  | done a, f => f a
  | fail e, _ => fail e
  | access label effect next, f => access label effect fun e s => (next e s).bind f

instance : Monad (Prog σ ε ℓ E) where
  pure := done
  bind := bind

/-- Read the shared state. -/
def get (label : ℓ) (f : σ → α) : Prog σ ε ℓ E α :=
  access label (fun _ s => s) fun _ s => done (f s)

/-- Change the shared state. -/
def modify (label : ℓ) (f : σ → σ) : Prog σ ε ℓ E Unit :=
  access label (fun _ s => f s) fun _ _ => done ()

/-- Take an input. -/
def ask (label : ℓ) (f : ε → α) : Prog σ ε ℓ E α :=
  access label (fun _ s => s) fun e _ => done (f e)

/-- A value, or an error. -/
def ofExcept : Except E α → Prog σ ε ℓ E α
  | .ok a => done a
  | .error e => fail e

/-- Go on after an error, with the error as the result. -/
def attempt : Prog σ ε ℓ E α → Prog σ ε ℓ E (Except E α)
  | done a => done (.ok a)
  | fail e => done (.error e)
  | access label effect next => access label effect fun e s => (next e s).attempt

@[simp] theorem pure_eq (a : α) : (pure a : Prog σ ε ℓ E α) = done a := rfl

theorem map_eq (f : α → β) (p : Prog σ ε ℓ E α) : f <$> p = p >>= fun a => done (f a) := rfl

@[simp] theorem done_bind (a : α) (f : α → Prog σ ε ℓ E β) : (done a >>= f) = f a := rfl

@[simp] theorem fail_bind (e : E) (f : α → Prog σ ε ℓ E β) :
    ((fail e : Prog σ ε ℓ E α) >>= f) = fail e := rfl

@[simp] theorem access_bind (label : ℓ) (effect : ε → σ → σ) (next : ε → σ → Prog σ ε ℓ E α)
    (f : α → Prog σ ε ℓ E β) :
    (access label effect next >>= f) = access label effect fun e s => next e s >>= f := rfl

theorem bind_assoc {γ : Type} (p : Prog σ ε ℓ E α) (f : α → Prog σ ε ℓ E β)
    (g : β → Prog σ ε ℓ E γ) : (p >>= f) >>= g = p >>= fun a => f a >>= g := by
  induction p with
  | done a | fail e => rfl
  | access label effect next ih =>
    show access label effect (fun e s => (next e s >>= f) >>= g) = _
    simp only [ih, access_bind]

/-! ## One function alone -/

/-- Run to the end. `none` if there are too few inputs. -/
def run : Prog σ ε ℓ E α → List ε → σ → Option (Except E α × σ × List ε)
  | done a, inputs, s => some (.ok a, s, inputs)
  | fail e, inputs, s => some (.error e, s, inputs)
  | access _ _ _, [], _ => none
  | access _ effect next, e :: inputs, s => (next e s).run inputs (effect e s)

@[simp] theorem run_done (a : α) (inputs : List ε) (s : σ) :
    (done a : Prog σ ε ℓ E α).run inputs s = some (.ok a, s, inputs) := rfl

@[simp] theorem run_fail (e : E) (inputs : List ε) (s : σ) :
    (fail e : Prog σ ε ℓ E α).run inputs s = some (.error e, s, inputs) := rfl

@[simp] theorem run_access_cons (label : ℓ) (effect : ε → σ → σ)
    (next : ε → σ → Prog σ ε ℓ E α) (e : ε) (inputs : List ε) (s : σ) :
    (access label effect next).run (e :: inputs) s = (next e s).run inputs (effect e s) := rfl

/-- Run to the end on some inputs that all have `P`. -/
def Ends (P : ε → Prop) (p : Prog σ ε ℓ E α) (s : σ) (r : Except E α) (t : σ) : Prop :=
  ∃ inputs rest, (∀ e ∈ inputs, P e) ∧ p.run inputs s = some (r, t, rest)

variable {P : ε → Prop} {s t : σ} {r : Except E α}

@[simp] theorem ends_done {a : α} : (done a : Prog σ ε ℓ E α).Ends P s r t ↔ r = .ok a ∧ t = s := by
  constructor
  · rintro ⟨inputs, rest, _, h⟩
    cases h
    exact ⟨rfl, rfl⟩
  · rintro ⟨rfl, rfl⟩
    exact ⟨[], [], by simp, rfl⟩

@[simp] theorem ends_fail {e : E} :
    (fail e : Prog σ ε ℓ E α).Ends P s r t ↔ r = .error e ∧ t = s := by
  constructor
  · rintro ⟨inputs, rest, _, h⟩
    cases h
    exact ⟨rfl, rfl⟩
  · rintro ⟨rfl, rfl⟩
    exact ⟨[], [], by simp, rfl⟩

variable {next : ε → σ → Prog σ ε ℓ E α} {effect : ε → σ → σ}

@[simp] theorem ends_access {label : ℓ} :
    (access label effect next).Ends P s r t ↔ ∃ e, P e ∧ (next e s).Ends P (effect e s) r t := by
  constructor
  · rintro ⟨inputs, rest, hP, h⟩
    cases inputs with
    | nil => cases h
    | cons e inputs =>
      exact ⟨e, hP e (by simp), inputs, rest, fun x hx => hP x (by simp [hx]), h⟩
  · rintro ⟨e, he, inputs, rest, hP, h⟩
    refine ⟨e :: inputs, rest, fun x hx => ?_, h⟩
    rcases List.mem_cons.1 hx with rfl | hx
    · exact he
    · exact hP x hx

variable {p : Prog σ ε ℓ E α} {f : α → Prog σ ε ℓ E β}

/-- **Composition.**  A sequence of two ends with the error of the first, or the first gives a
value and the second ends. -/
theorem ends_bind {r : Except E β} :
    (p >>= f).Ends P s r t ↔
      (∃ e, p.Ends P s (.error e) t ∧ r = .error e) ∨
        ∃ a u, p.Ends P s (.ok a) u ∧ (f a).Ends P u r t := by
  induction p generalizing s with
  | done a => simp
  | fail e => simp [and_comm]
  | access label effect next ih =>
    simp only [access_bind, ends_access, ih]
    constructor
    · rintro ⟨e, he, ⟨x, hx, rfl⟩ | ⟨a, u, ha, hu⟩⟩
      · exact .inl ⟨x, ⟨e, he, hx⟩, rfl⟩
      · exact .inr ⟨a, u, ⟨e, he, ha⟩, hu⟩
    · rintro (⟨x, ⟨e, he, hx⟩, rfl⟩ | ⟨a, u, ⟨e, he, ha⟩, hu⟩)
      · exact ⟨e, he, .inl ⟨x, hx, rfl⟩⟩
      · exact ⟨e, he, .inr ⟨a, u, ha, hu⟩⟩

theorem ends_map {f : α → β} {r : Except E β} :
    (f <$> p).Ends P s r t ↔ ∃ r', p.Ends P s r' t ∧ r = r'.map f := by
  rw [map_eq, ends_bind]
  constructor
  · rintro (⟨e, h, rfl⟩ | ⟨a, u, h, hu⟩)
    · exact ⟨_, h, rfl⟩
    · obtain ⟨rfl, rfl⟩ := ends_done.1 hu
      exact ⟨_, h, rfl⟩
  · rintro ⟨r', h, rfl⟩
    cases r' with
    | error e => exact .inl ⟨e, h, rfl⟩
    | ok a => exact .inr ⟨a, t, h, ends_done.2 ⟨rfl, rfl⟩⟩

theorem ends_attempt {r : Except E (Except E α)} :
    p.attempt.Ends P s r t ↔ ∃ r', r = .ok r' ∧ p.Ends P s r' t := by
  induction p generalizing s with
  | done a | fail e => simp [attempt]
  | access label effect next ih =>
    simp only [attempt, ends_access, ih]
    constructor
    · rintro ⟨e, he, r', rfl, h⟩
      exact ⟨r', rfl, e, he, h⟩
    · rintro ⟨r', rfl, e, he, h⟩
      exact ⟨e, he, r', rfl, h⟩

theorem Ends.of_get {label : ℓ} {f : σ → α} (h : (get label f : Prog σ ε ℓ E α).Ends P s r t) :
    r = .ok (f s) ∧ t = s := by
  obtain ⟨e, _, h⟩ := ends_access.1 h
  exact ends_done.1 h

theorem Ends.of_modify {label : ℓ} {f : σ → σ} {r : Except E Unit}
    (h : (modify label f : Prog σ ε ℓ E Unit).Ends P s r t) : r = .ok () ∧ t = f s := by
  obtain ⟨e, _, h⟩ := ends_access.1 h
  exact ends_done.1 h

theorem Ends.of_ask {label : ℓ} {f : ε → α} (h : (ask label f : Prog σ ε ℓ E α).Ends P s r t) :
    (∃ e, P e ∧ r = .ok (f e)) ∧ t = s := by
  obtain ⟨e, he, h⟩ := ends_access.1 h
  obtain ⟨hr, ht⟩ := ends_done.1 h
  exact ⟨⟨e, he, hr⟩, ht⟩

theorem Ends.of_ofExcept {x : Except E α} (h : (ofExcept x : Prog σ ε ℓ E α).Ends P s r t) :
    r = x ∧ t = s := by
  cases x with
  | ok a => exact ends_done.1 h
  | error e => exact ends_fail.1 h

/-- Whatever it finds, it does not fail, and what it returns has `A`. -/
def Yields (A : α → Prop) : Prog σ ε ℓ E α → Prop
  | done a => A a
  | fail _ => False
  | access _ _ next => ∀ e s, (next e s).Yields A

@[simp] theorem yields_done {A : α → Prop} {a : α} :
    (done a : Prog σ ε ℓ E α).Yields A ↔ A a := Iff.rfl

@[simp] theorem yields_access {A : α → Prop} {label : ℓ} :
    (access label effect next).Yields A ↔ ∀ e s, (next e s).Yields A := Iff.rfl

@[simp] theorem yields_map {A : β → Prop} {f : α → β} :
    (f <$> p).Yields A ↔ p.Yields fun a => A (f a) := by
  induction p with
  | done a | fail e => exact Iff.rfl
  | access label effect next ih => exact forall_congr' fun e => forall_congr' fun s => ih e s

/-! ## Every access -/

/-- The next access. -/
def label : Prog σ ε ℓ E α → Option ℓ
  | done _ => none
  | fail _ => none
  | access l _ _ => some l

/-- Every access of the program has `P`, which may speak of what follows it. -/
def Nodes (P : ℓ → (ε → σ → σ) → (ε → σ → Prog σ ε ℓ E α) → Prop) : Prog σ ε ℓ E α → Prop
  | done _ => True
  | fail _ => True
  | access label effect next => P label effect next ∧ ∀ e s, (next e s).Nodes P

section

variable {P : ℓ → (ε → σ → σ) → (ε → σ → Prog σ ε ℓ E α) → Prop}

@[simp] theorem nodes_done {a : α} : (done a : Prog σ ε ℓ E α).Nodes P := trivial

@[simp] theorem nodes_fail {e : E} : (fail e : Prog σ ε ℓ E α).Nodes P := trivial

@[simp] theorem nodes_access {label : ℓ} :
    (access label effect next).Nodes P ↔ P label effect next ∧ ∀ e s, (next e s).Nodes P := Iff.rfl

theorem Nodes.map {P' : ℓ → (ε → σ → σ) → (ε → σ → Prog σ ε ℓ E β) → Prop} {f : α → β}
    (h : p.Nodes P)
    (himp : ∀ label effect next, P label effect next → P' label effect fun e s => f <$> next e s) :
    (f <$> p).Nodes P' := by
  induction p with
  | done a | fail e => trivial
  | access label effect next ih =>
    exact ⟨himp label effect next h.1, fun e s => ih e s (h.2 e s)⟩

end

/-! ## One component of the state -/

section

variable {κ : Type} [DecidableEq κ]

/-- The program runs on the component `k`. -/
def focus (k : κ) : Prog σ ε ℓ E α → Prog (κ → σ) ε ℓ E α
  | done a => done a
  | fail e => fail e
  | access label effect next =>
    access label (fun e s => Function.update s k (effect e (s k))) fun e s => (next e (s k)).focus k

@[simp] theorem focus_done (k : κ) (a : α) : (done a : Prog σ ε ℓ E α).focus k = done a := rfl

@[simp] theorem focus_fail (k : κ) (e : E) : (fail e : Prog σ ε ℓ E α).focus k = fail e := rfl

@[simp] theorem focus_access (k : κ) (label : ℓ) (effect : ε → σ → σ)
    (next : ε → σ → Prog σ ε ℓ E α) :
    (access label effect next).focus k =
      access label (fun e s => Function.update s k (effect e (s k)))
        fun e s => (next e (s k)).focus k := rfl

end

/-! ## All or nothing -/

/-- It ended with a value and `A`, or with an error and nothing done. -/
def Outcome (s : σ) (A : α → σ → Prop) (r : Except E α) (t : σ) : Prop :=
  (∃ a, r = .ok a ∧ A a t) ∨ ((∃ e, r = .error e) ∧ t = s)

/-- **All or nothing, and then more.** -/
theorem Ends.bind_outcome {r : Except E β} {A : α → σ → Prop} (h : (p >>= f).Ends P s r t)
    (hp : ∀ r u, p.Ends P s r u → Outcome s A r u) :
    ((∃ e, r = .error e) ∧ t = s) ∨ ∃ a u, A a u ∧ (f a).Ends P u r t := by
  rcases ends_bind.1 h with ⟨e, h, hr⟩ | ⟨a, u, h, hu⟩
  · rcases hp _ _ h with ⟨_, h, _⟩ | ⟨_, rfl⟩
    · cases h
    · exact .inl ⟨⟨e, hr⟩, rfl⟩
  · rcases hp _ _ h with ⟨_, h, hA⟩ | ⟨⟨_, h⟩, _⟩
    · cases h
      exact .inr ⟨a, u, hA, hu⟩
    · cases h

theorem outcome_ofExcept {x r : Except E α} (h : (ofExcept x : Prog σ ε ℓ E α).Ends P s r t) :
    Outcome s (fun a t => x = .ok a ∧ t = s) r t := by
  obtain ⟨rfl, rfl⟩ := Ends.of_ofExcept h
  cases r with
  | ok a => exact .inl ⟨a, rfl, rfl, rfl⟩
  | error e => exact .inr ⟨⟨e, rfl⟩, rfl⟩

/-! ## Locality -/

/-- In related states the function makes the same accesses, which lead to related states. -/
def Respects (R : σ → σ → Prop) : Prog σ ε ℓ E α → Prop
  | done _ => True
  | fail _ => True
  | access _ effect next => ∀ e s t, R s t →
      R (effect e s) (effect e t) ∧ next e s = next e t ∧ (next e s).Respects R

variable {R : σ → σ → Prop}

theorem Respects.bind (hp : p.Respects R) (hf : ∀ a, (f a).Respects R) : (p >>= f).Respects R := by
  induction p with
  | done a => exact hf a
  | fail e => trivial
  | access label effect next ih =>
    intro e s t hst
    obtain ⟨heffect, hnext, hrest⟩ := hp e s t hst
    refine ⟨heffect, ?_, ih e s hrest⟩
    show next e s >>= f = next e t >>= f
    rw [hnext]

theorem Respects.attempt (hp : p.Respects R) : p.attempt.Respects R := by
  induction p with
  | done a | fail e => trivial
  | access label effect next ih =>
    intro e s t hst
    obtain ⟨heffect, hnext, hrest⟩ := hp e s t hst
    refine ⟨heffect, ?_, ih e s hrest⟩
    show (next e s).attempt = (next e t).attempt
    rw [hnext]

theorem respects_ofExcept (x : Except E α) : (ofExcept x : Prog σ ε ℓ E α).Respects R := by
  cases x <;> trivial

theorem respects_get {label : ℓ} {f : σ → α} (hf : ∀ s t, R s t → f s = f t) :
    (get label f : Prog σ ε ℓ E α).Respects R := by
  intro e s t hst
  refine ⟨hst, ?_, trivial⟩
  show done (f s) = done (f t)
  rw [hf s t hst]

theorem respects_modify {label : ℓ} {f : σ → σ} (hf : ∀ s t, R s t → R (f s) (f t)) :
    (modify label f : Prog σ ε ℓ E Unit).Respects R :=
  fun _ s t hst => ⟨hf s t hst, rfl, trivial⟩

/-- **Lockstep.**  On the same inputs, related states lead to related states. -/
theorem Respects.run (hp : p.Respects R) {s t s' t' : σ} (hst : R s t) {inputs rest rest' : List ε}
    {r r' : Except E α} (hs : p.run inputs s = some (r, s', rest))
    (ht : p.run inputs t = some (r', t', rest')) : R s' t' ∧ r = r' := by
  induction p generalizing inputs s t with
  | done a | fail e => cases hs; cases ht; exact ⟨hst, rfl⟩
  | access label effect next ih =>
    cases inputs with
    | nil => cases hs
    | cons e inputs =>
      obtain ⟨heffect, hnext, hrest⟩ := hp e s t hst
      rw [run_access_cons] at hs ht
      rw [← hnext] at ht
      exact ih e s hrest heffect hs ht

end Prog
end Idiom
