import Mathlib.Algebra.Group.Nat.Defs
import Mathlib.Data.List.GetD

/-!
# Access by position that can fail

Programs in languages with arrays stop when a position is out of bounds. Here such an access is
`none`, so that a program which never stops is one whose result is `some`.
-/

namespace Idiom.Indexing

variable {α β : Type} {xs : List α} {start stop : ℕ}

/-- The part of a sequence from one position up to another. -/
def range (xs : List α) (start stop : ℕ) : Option (List α) :=
  if start ≤ stop ∧ stop ≤ xs.length then some ((xs.drop start).take (stop - start)) else none

theorem range_of_le (hstart : start ≤ stop) (hstop : stop ≤ xs.length) :
    range xs start stop = some ((xs.drop start).take (stop - start)) := if_pos ⟨hstart, hstop⟩

theorem getElem?_of_lt {i : ℕ} (h : i < xs.length) (default : α) :
    xs[i]? = some (xs.getD i default) := by
  rw [List.getElem?_eq_getElem h, List.getD_eq_getElem _ _ h]

/-- A number in so many bits. -/
def fit (bits n : ℕ) : Option ℕ := if n < 2 ^ bits then some n else none

theorem fit_of_lt {bits n : ℕ} (h : n < 2 ^ bits) : fit bits n = some n := if_pos h

/-- A difference that is not negative. -/
def minus (a b : ℕ) : Option ℕ := if b ≤ a then some (a - b) else none

theorem minus_of_le {a b : ℕ} (h : b ≤ a) : minus a b = some (a - b) := if_pos h

theorem mapM_eq_map {f : α → Option β} {g : α → β} (h : ∀ a ∈ xs, f a = some (g a)) :
    xs.mapM f = some (xs.map g) := by
  induction xs with
  | nil => rfl
  | cons a xs ih =>
    rw [List.mapM_cons, h a List.mem_cons_self, ih fun b hb => h b (List.mem_cons_of_mem a hb)]
    rfl

end Idiom.Indexing
