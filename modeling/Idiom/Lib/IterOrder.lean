import Mathlib.Data.Finset.Basic

/-!
# Iteration orders

A hash set enumerates its elements in an order a program can neither choose nor
rely on. An `IterOrder` is one such order: it lists every finite set, each element
once. Code that iterates over a hash set takes the order as an argument, and what
is proved for every `IterOrder` holds whatever the hasher does.
-/

namespace Idiom

open Finset

/-- An enumeration of every finite set of `T`. -/
structure IterOrder (T : Type*) where
  /-- The elements in iteration order. -/
  list : Finset T → List T
  /-- Each element is listed exactly once. -/
  spec : ∀ s, (list s : Multiset T) = s.val

namespace IterOrder

variable {T : Type*} (o : IterOrder T)

@[simp] theorem mem_list (s : Finset T) (a : T) : a ∈ o.list s ↔ a ∈ s := by
  rw [← mem_val, ← o.spec s, Multiset.mem_coe]

theorem nodup_list (s : Finset T) : (o.list s).Nodup := by
  rw [← Multiset.coe_nodup, o.spec s]
  exact s.nodup

@[simp] theorem list_empty : o.list ∅ = [] := by
  rw [← Multiset.coe_eq_zero, o.spec ∅]
  rfl

theorem list_singleton (a : T) : o.list {a} = [a] := by
  rw [← List.perm_singleton, ← Multiset.coe_eq_coe, o.spec {a}]
  rfl

theorem list_perm (o' : IterOrder T) (s : Finset T) : (o.list s).Perm (o'.list s) :=
  Multiset.coe_eq_coe.1 ((o.spec s).trans (o'.spec s).symm)

/-- Some order exists on every type. -/
noncomputable def some : IterOrder T := ⟨toList, fun s => coe_toList s⟩

/-- An order that lists `a` first. -/
noncomputable def first [DecidableEq T] (a : T) : IterOrder T where
  list s := if a ∈ s then a :: (s.erase a).toList else s.toList
  spec s := by
    split
    · next ha =>
      rw [← Multiset.cons_coe, coe_toList, ← insert_val_of_notMem (by simp), insert_erase ha]
    · exact coe_toList s

variable {s : Finset T}

theorem exists_list_first [DecidableEq T] (a : T) (ha : a ∈ s) : ∃ l, (first a).list s = a :: l := ⟨_, if_pos ha⟩

/-! ## Searching in iteration order -/

variable {p : T → Bool}

theorem find?_eq_none : (o.list s).find? p = none ↔ ∀ a ∈ s, p a = false := by
  simp

theorem mem_of_find? {a : T} (h : (o.list s).find? p = Option.some a) : a ∈ s ∧ p a = true :=
  ⟨(o.mem_list s a).1 (List.mem_of_find?_eq_some h), List.find?_some h⟩

theorem find?_isSome : ((o.list s).find? p).isSome = true ↔ ∃ a ∈ s, p a = true := by
  simp

/-- If only one element matches, every order finds it. -/
theorem find?_eq_some_of_unique {a : T} (ha : a ∈ s) (hp : p a = true)
    (huniq : ∀ b ∈ s, p b = true → b = a) : (o.list s).find? p = Option.some a := by
  obtain ⟨b, hb⟩ := Option.isSome_iff_exists.1 (o.find?_isSome.2 ⟨a, ha, hp⟩)
  obtain ⟨hbs, hbp⟩ := o.mem_of_find? hb
  rw [hb, huniq b hbs hbp]

end IterOrder
end Idiom
