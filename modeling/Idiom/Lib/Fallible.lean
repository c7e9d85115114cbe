import Mathlib.Tactic.Common

/-!
# What a fallible computation did, read off its result

A computation in `Except` written with `do` succeeds when every part of it does.
-/

namespace Idiom

variable {ε α β : Type}

theorem bind_eq_ok {x : Except ε α} {f : α → Except ε β} {b : β} :
    x >>= f = .ok b ↔ ∃ a, x = .ok a ∧ f a = .ok b := by
  constructor
  · intro h
    cases x with
    | error e => cases h
    | ok a => exact ⟨a, rfl, h⟩
  · rintro ⟨a, rfl, h⟩
    exact h

theorem guard_eq_ok {p : Prop} [Decidable p] {e : ε} {u : Unit} :
    (if ¬ p then .error e else .ok () : Except ε Unit) = .ok u ↔ p := by
  split
  · next h => simpa using h
  · next h => simpa using h

theorem mapError_eq_ok {δ : Type} {x : Except ε α} {f : ε → δ} {a : α} :
    x.mapError f = .ok a ↔ x = .ok a := by
  cases x with
  | error e => exact ⟨fun h => (nomatch h), fun h => (nomatch h)⟩
  | ok b => simp [Except.mapError]

end Idiom
