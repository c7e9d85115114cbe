import Mathlib.Order.Lattice
import Mathlib.Tactic.Common

/-!
# The laws of a join, at three values

Replicas that exchange states agree if merging is a join. On values that satisfy an
invariant the laws may hold without holding on the whole type, so they are stated at given
values, one component of the state at a time.
-/

namespace Idiom

variable {α : Type*}

/-- The laws of a join at `a`, `b`, `c`. -/
structure JoinAt (merge : α → α → α) (a b c : α) : Prop where
  comm : merge a b = merge b a
  assoc : merge (merge a b) c = merge a (merge b c)
  idem : merge a a = a

/-! ## Optional components -/

/-- Merge an optional component: nothing to merge leaves it alone, otherwise it is made
first if it is missing. -/
def mergeOption (empty : α) (merge : α → α → α) (self other : Option α) : Option α :=
  match other with
  | none => self
  | some o => some (merge (self.getD empty) o)

/-- An element that merging with the empty one leaves alone, on either side. -/
structure MergeNeutral (empty : α) (merge : α → α → α) (x : α) : Prop where
  left : merge empty x = x
  right : merge x empty = x

theorem joinAt_mergeOption {empty : α} {merge : α → α → α} {a b c : Option α}
    (hassoc : ∀ x y z, merge (merge x y) z = merge x (merge y z))
    (hempty : merge empty empty = empty) (ha : ∀ x, a = some x → MergeNeutral empty merge x)
    (hb : ∀ y, b = some y → MergeNeutral empty merge y)
    (hcomm : ∀ x y, a = some x → b = some y → merge x y = merge y x)
    (hidem : ∀ x, a = some x → merge x x = x) : JoinAt (mergeOption empty merge) a b c := by
  refine ⟨?_, ?_, ?_⟩
  · cases a with
    | none =>
      cases b with
      | none => rfl
      | some y => exact congrArg some (hb y rfl).left
    | some x =>
      cases b with
      | none => exact congrArg some (ha x rfl).left.symm
      | some y => exact congrArg some (hcomm x y rfl rfl)
  · cases c with
    | none => rfl
    | some z =>
      cases b with
      | some y => exact congrArg some (hassoc _ _ _)
      | none =>
        -- the component of the middle replica is made empty on the right only
        cases a with
        | none =>
          refine congrArg some ?_
          show merge empty z = merge empty (merge empty z)
          rw [← hassoc, hempty]
        | some x =>
          refine congrArg some ?_
          show merge x z = merge x (merge empty z)
          rw [← hassoc, (ha x rfl).right]
  · cases a with
    | none => rfl
    | some x => exact congrArg some (hidem x rfl)

end Idiom
